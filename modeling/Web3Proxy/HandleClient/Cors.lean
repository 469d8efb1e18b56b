import Web3Proxy.HandleClient.Integrity
import Web3Proxy.ResponseReceiver

/-!
# Web3Proxy.HandleClient.Cors

The header field that `response_handler` (`proxy.py`) puts into the response for a client that
has sent an Origin.

* `Run.relays` — a run sends its client what `relay` says of the pieces that it receives;
* `relayedOnce_iff` — the field is put in right after the status line, and nothing else changes,
  exactly when the first piece has the whole status line, with its end.
-/

namespace Web3Proxy

open Py Bytes Http Trans

/-- One call of `response_handler`, while the client's socket is open: what it sends, and
`add_cors` afterwards. -/
def responseHandler (corsOrigin : Option Bytes) (addCors : Bool) (res : Bytes) : Bytes × Bool :=
  if addCors then (insertCors (corsOrigin.getD []) res, false) else (res, addCors)

/-- The concatenation of what the calls send for the pieces of a response. -/
def relayFrom (corsOrigin : Option Bytes) : Bool → List Bytes → Bytes
  | _, [] => []
  | addCors, res :: pieces =>
      (responseHandler corsOrigin addCors res).1 ++
        relayFrom corsOrigin (responseHandler corsOrigin addCors res).2 pieces

/-- `__create_response_handler(…)`, and its calls. -/
def relay (corsOrigin : Option Bytes) (pieces : List Bytes) : Bytes :=
  relayFrom corsOrigin corsOrigin.isSome pieces

/-- The line for an origin. -/
def corsLine (origin : Bytes) : Bytes := str "Access-Control-Allow-Origin: " ++ origin ++ crlf

/-- The client gets the response, with one line after the status line if it has sent an origin. -/
def RelayedOnce (corsOrigin : Option Bytes) (r : Response) (pieces : List Bytes) : Prop :=
  relay corsOrigin pieces = r.start ++ crlf ++ (corsOrigin.elim [] corsLine) ++
    (r.fields.flatMap Field.wire ++ crlf ++ r.body.wire)

/-! ## the runs -/

namespace Run

variable {env : ProxyEnv} {r : Run}

/-- The answers to the calls of a run that receives the pieces and passes them on. -/
def relayAnswers (pieces : List Bytes) : List Answer :=
  pieces.flatMap fun piece => [.data piece, .ok, .ok]

/-- A piece of the response is received and passed on. -/
theorem run_piece (hpc : r.pc = .recv) (hopen : r.client ≠ .closed) {piece : Bytes}
    (hpiece : piece ≠ []) (complete : Bool)
    (hparse : env.parse (r.received ++ piece) = if complete then .complete else .incomplete)
    (answers : List Answer) :
    run (fun r a => r.step env a) r (.data piece :: .ok :: .ok :: answers) =
      run (fun r a => r.step env a)
        { r with
          pc := if complete then .recordRequest else .recv
          received := r.received ++ piece
          addCors := (responseHandler r.req.corsOrigin r.addCors piece).2
          toClient := r.toClient ++ (responseHandler r.req.corsOrigin r.addCors piece).1 }
        answers := by
  have hrecv : r.step env (.data piece) =
      some { r with received := r.received ++ piece, pc := .respond piece complete } := by
    cases complete <;> simp_all [step, Run.recv]
  have hflag : (responseHandler r.req.corsOrigin r.addCors piece).2 = false := by
    unfold responseHandler
    cases r.addCors <;> rfl
  rw [run_cons, hrecv, Option.bind_some, run_cons]
  cases hadd : r.addCors <;> cases complete <;>
    simp [step, Run.respond, sendClient, afterPiece, responseHandler, hopen, run_cons]

/-- **The runs do as the response handler does.**  A run whose client stays connected sends it
what the handler makes of the pieces. -/
theorem relays (hpc : r.pc = .recv) (hopen : r.client ≠ .closed) {pieces : List Bytes}
    (hpieces : ∀ p ∈ pieces, p ≠ []) {last : Bytes} (hlast : last ≠ [])
    (hparse : ∀ part, part <+: pieces.flatten → env.parse (r.received ++ part) = .incomplete)
    (hdone : env.parse (r.received ++ (pieces ++ [last]).flatten) = .complete) :
    ∃ r', run (fun r a => r.step env a) r (relayAnswers (pieces ++ [last])) = some r' ∧
      r'.pc = .recordRequest ∧
      r'.toClient = r.toClient ++ relayFrom r.req.corsOrigin r.addCors (pieces ++ [last]) := by
  induction pieces generalizing r with
  | nil =>
      refine ⟨_, run_piece hpc hopen hlast true (by simpa using hdone) [], rfl, ?_⟩
      simp [relayFrom]
  | cons piece pieces ih =>
      have hmore := run_piece hpc hopen (hpieces piece List.mem_cons_self) false
        (hparse piece (by simp)) (relayAnswers (pieces ++ [last]))
      obtain ⟨r', hrun, hpc', hclient⟩ := ih (r := { r with
          pc := .recv
          received := r.received ++ piece
          addCors := (responseHandler r.req.corsOrigin r.addCors piece).2
          toClient := r.toClient ++ (responseHandler r.req.corsOrigin r.addCors piece).1 })
        rfl hopen (fun p hp => hpieces p (List.mem_cons_of_mem piece hp))
        (fun part hpart => by
          have hprefix : piece ++ part <+: (piece :: pieces).flatten := by simpa using hpart
          simpa using hparse _ hprefix)
        (by simpa using hdone)
      refine ⟨r', hmore.trans hrun, hpc', ?_⟩
      rw [hclient]
      simp [relayFrom]

end Run

/-! ## the first piece -/

theorem corsField_wire (origin : Bytes) : (corsField origin).wire = corsLine origin := by
  have hname : str "Access-Control-Allow-Origin: " =
      str "Access-Control-Allow-Origin" ++ [58, 32] := by decide
  rw [corsField, Field.wire_spaced, corsLine, hname]

/-- Once the flag is off the pieces are sent as they are. -/
theorem relayFrom_false (corsOrigin : Option Bytes) (pieces : List Bytes) :
    relayFrom corsOrigin false pieces = pieces.flatten := by
  induction pieces with
  | nil => rfl
  | cons piece pieces ih => rw [relayFrom, responseHandler, if_neg Bool.false_ne_true, ih]; rfl

/-- With an origin only the first piece is changed. -/
theorem relay_cons (origin first : Bytes) (pieces : List Bytes) :
    relay (some origin) (first :: pieces) = insertCors origin first ++ pieces.flatten := by
  rw [relay, Option.isSome_some, relayFrom, responseHandler, if_pos rfl, relayFrom_false]
  rfl

/-- A part of the status line has no end of a line in it. -/
theorem insertCors_of_part (origin : Bytes) {line part : Bytes} (h : ∀ x ∈ line, x ≠ 13)
    (hpart : part <+: line ++ [13]) : insertCors origin part = part := by
  induction line generalizing part with
  | nil =>
      obtain hnil | ⟨rest, rfl, hrest⟩ := List.prefix_cons_iff.mp hpart
      · rw [hnil]
        rfl
      · rw [List.prefix_nil.mp hrest]
        rfl
  | cons x line ih =>
      obtain hnil | ⟨rest, rfl, hrest⟩ := List.prefix_cons_iff.mp hpart
      · rw [hnil]
        rfl
      · rw [insertCors, ih (fun y hy => h y (List.mem_cons_of_mem x hy)) hrest]
        intro rest' hx
        exact absurd hx (h x List.mem_cons_self)

/-- **The CORS header is inserted once, in its place**, exactly when the status line has not been
cut: the response ends up with the line after its status line, and otherwise as it is, if and only
if there is no origin or the first piece goes up to the end of the status line at least. -/
theorem relayedOnce_iff {r : Response} (hstart : ∀ x ∈ r.start, x ≠ 13) {first : Bytes}
    {pieces : List Bytes} (hwire : (first :: pieces).flatten = r.wire)
    (corsOrigin : Option Bytes) :
    RelayedOnce corsOrigin r (first :: pieces) ↔
      corsOrigin = none ∨ r.start.length + crlf.length ≤ first.length := by
  have hsplit : r.wire = r.start ++ crlf ++ (r.fields.flatMap Field.wire ++ crlf ++ r.body.wire) := by
    simp [Response.wire]
  have hfirst : first <+: r.wire := hwire ▸ List.prefix_append first pieces.flatten
  unfold RelayedOnce
  generalize htail : r.fields.flatMap Field.wire ++ crlf ++ r.body.wire = tail at hsplit ⊢
  cases corsOrigin with
  | none =>
      refine iff_of_true ?_ (Or.inl rfl)
      rw [relay, Option.isSome_none, relayFrom_false, hwire, hsplit]
      simp
  | some origin =>
      rw [relay_cons, Option.elim_some]
      by_cases hlong : r.start.length + crlf.length ≤ first.length
      · refine iff_of_true ?_ (Or.inr hlong)
        obtain ⟨rest, rfl⟩ : r.start ++ crlf <+: first :=
          List.prefix_of_prefix_length_le (hsplit ▸ List.prefix_append _ _) hfirst (by simpa using hlong)
        rw [hsplit, List.flatten_cons, List.append_assoc (r.start ++ crlf) rest] at hwire
        rw [insertCors_line origin hstart rest, corsField_wire, ← List.append_cancel_left hwire]
        simp
      · refine iff_of_false (fun heq => ?_) (by simpa using hlong)
        have hshort : first <+: r.start ++ [13] := by
          refine List.prefix_of_prefix_length_le hfirst ⟨[10] ++ tail, by simp [hsplit, crlf]⟩ ?_
          have hcrlf : crlf.length = 2 := rfl
          simp only [List.length_append, List.length_singleton]
          omega
        rw [insertCors_of_part origin hstart hshort, ← List.flatten_cons, hwire, hsplit] at heq
        have hlength := congrArg List.length heq
        have hcrlf : crlf.length = 2 := rfl
        simp only [List.length_append, corsLine] at hlength
        omega

/-- The status line in a piece of its own. -/
theorem relayedOnce_iff_noContent :
    (RelayedOnce (some (str "http://localhost")) noContent
        [noContent.start ++ crlf, str "Content-Length: 0" ++ crlf ++ crlf] ↔
      some (str "http://localhost") = none ∨
        noContent.start.length + crlf.length ≤ (noContent.start ++ crlf).length) ∧
      noContent.start.length + crlf.length ≤ (noContent.start ++ crlf).length :=
  ⟨relayedOnce_iff (by decide) (by decide) _, by decide⟩

/-- A response that is cut between the CR and the LF of its status line: the client gets no
`Access-Control-Allow-Origin`. -/
theorem not_relayedOnce :
    [noContent.start ++ [13], [10] ++ str "Content-Length: 0" ++ crlf ++ crlf].flatten =
        noContent.wire ∧
      ¬ RelayedOnce (some (str "http://localhost")) noContent
        [noContent.start ++ [13], [10] ++ str "Content-Length: 0" ++ crlf ++ crlf] := by
  refine ⟨by decide, fun h => ?_⟩
  revert h
  unfold RelayedOnce
  decide

end Web3Proxy
