import Web3Proxy.HandleClient.Mediation
import Web3Proxy.Middleware.Replies

/-!
# Web3Proxy.HandleClient.Integrity

The stream that a client receives: for each request one complete response, or the
connection is closed.

The runs for the requests of one client follow one another.  `always_intact` says when
they keep the stream intact: no answer to a client that stays is cut short unnoticed,
and no reply is sent after a part of the endpoint's response has been handed on.
-/

namespace Web3Proxy

open Py Bytes Http

/-! ## the origin in the header -/

/-- The field that is put in. -/
def corsField (origin : Bytes) : Field := Field.spaced (str "Access-Control-Allow-Origin") origin

theorem corsField_isPlain {origin : Bytes} (h : ∀ x ∈ origin, isFieldChar x = true) :
    (corsField origin).IsPlain :=
  Field.spaced_isPlain (by decide) (by decide) (by decide) (by decide) h

/-- The field is put in after the first line. -/
theorem insertCors_line (origin : Bytes) {line : Bytes} (h : ∀ x ∈ line, x ≠ 13) (rest : Bytes) :
    insertCors origin (line ++ crlf ++ rest) = line ++ crlf ++ (corsField origin).wire ++ rest := by
  have hfield : (corsField origin).wire = str "Access-Control-Allow-Origin: " ++ origin ++ crlf := by
    have hname : str "Access-Control-Allow-Origin: " =
        str "Access-Control-Allow-Origin" ++ [58, 32] := by decide
    rw [corsField, Field.wire_spaced, hname]
  induction line with
  | nil => simp [insertCors, crlf, hfield]
  | cons x line ih =>
      have hx : x ≠ 13 := h x List.mem_cons_self
      have hrest := ih fun y hy => h y (List.mem_cons_of_mem x hy)
      rw [List.cons_append, List.cons_append, insertCors, hrest]
      · rfl
      · intro rest' hcons
        exact absurd hcons hx

/-- Either there is no end of a line, and nothing is put in, or what follows does not
matter. -/
theorem insertCors_cases (origin a : Bytes) : insertCors origin a = a ∨
    ∀ b, insertCors origin (a ++ b) = insertCors origin a ++ b := by
  induction a using insertCors.induct with
  | case1 => exact Or.inl rfl
  | case2 rest =>
      right
      intro b
      simp [insertCors]
  | case3 x rest hne ih =>
      have hskip (tail : Bytes) (hfirst : ∀ rest', x = 13 → tail = 10 :: rest' → False) :
          insertCors origin (x :: tail) = x :: insertCors origin tail := by
        rw [insertCors]
        exact hfirst
      obtain hnone | hput := ih
      · left
        rw [hskip rest hne, hnone]
      · cases rest with
        | nil => exact Or.inl (hskip [] hne)
        | cons y rest =>
            right
            intro b
            rw [List.cons_append, hskip _ (fun rest' hx hy => ?_), hput, hskip _ hne,
              List.cons_append]
            rw [List.cons_append, List.cons.injEq] at hy
            exact hne rest hx (by rw [hy.1])

/-- **The field goes well with a response.** -/
theorem isResponse_insertCors {origin b : Bytes} (horigin : ∀ x ∈ origin, isFieldChar x = true)
    (h : IsResponse b) : IsResponse (insertCors origin b) := by
  obtain ⟨r, hr, rfl⟩ := h
  refine ⟨_, hr.cons_field (corsField_isPlain horigin), ?_⟩
  have hstart : ∀ x ∈ r.start, x ≠ 13 := fun x hx => (hr.start_ne x hx).1
  have hline := insertCors_line origin hstart (r.fields.flatMap Field.wire ++ crlf ++ r.body.wire)
  simp only [Response.wire, List.flatMap_cons, List.append_assoc] at hline ⊢
  rw [hline]
  rfl

/-! ## the system -/

namespace Run

/-- A call that keeps the stream to a client that stays intact: what is sent is not cut
short by a `BrokenPipeError`, the receiving does not fail with a `BrokenConnectionError`
once bytes have been sent on, and the closing of the client's connection works. -/
def CarefulAt (r : Run) : Pc → Answer → Prop
  | .reply raw keepAlive _, .cut n .brokenPipe => keepAlive = true → raw.length ≤ n
  | .respond data _, .cut n .brokenPipe => r.req.keepAlive = true → (r.answerBytes data).length ≤ n
  | .respond data _, .cut n .connection =>
      r.req.keepAlive = true → r.toClient ++ (r.answerBytes data).take n = []
  | .recv, .notReady => r.req.keepAlive = true → r.toClient = []
  | .recv, .data [] => r.req.keepAlive = true → r.toClient = []
  | .recv, .raise e => e ≠ .other → r.req.keepAlive = true → r.toClient = []
  | .recordResponse _, .raise e => e ≠ .other → r.req.keepAlive = true → r.toClient = []
  | .closeClient, .raise _ => r.client ≠ .inUse
  | _, _ => True

/-- The run has set the client to wait for a further request, or it has ended; then the
client has one complete response, or its connection is closed. -/
def Intact (r : Run) : Prop :=
  r.client = .pending ∨ r.pc = .done → r.client = .closed ∨ IsResponse r.toClient

end Run

namespace Integrity

/-- The connection of a client: the run for the present request, and what was sent for
each request before. -/
structure State where
  run : Run := {}
  answered : List Bytes := []

/-- A step: the reading, at a date, another call, or the begin of the next run, for a
client that has been set to wait. -/
inductive Label where
  | read (now : HttpDate) (managers : Managers) (cs : List SocketRead)
  | call (now : HttpDate) (a : Answer)
  | next

variable (cfg : ReaderConfig) (h : HttpTools) (env : ProxyEnv)

/-- One step. -/
def step (s : State) : Label → Option State
  | .read now m cs =>
      let outcome := (readDefault { cfg with now := now.text } h m.client m.call cs).1
      (s.run.step { env with now := now.text } (.read outcome)).map fun run => { s with run }
  | .call _ (.read _) => none
  | .call now a => (s.run.step { env with now := now.text } a).map fun run => { s with run }
  | .next =>
      if s.run.pc = .done ∧ s.run.client = .pending then
        some { run := {}, answered := s.answered ++ [s.run.toClient] }
      else none

/-- The step is a careful call. -/
def Careful (s : State) : Label → Prop
  | .call _ a => s.run.CarefulAt s.run.pc a
  | _ => True

/-- Each request before has been answered by one complete response, and the present
one is, if the client is to stay. -/
def Intact (s : State) : Prop := (∀ b ∈ s.answered, IsResponse b) ∧ s.run.Intact

end Integrity

/-! ## invariant -/

namespace Run

/-- The bytes of the endpoint's response have been handed on: as they are, or with the
field put in, which is then settled. -/
def HandedOn (r : Run) (received : Bytes) : Prop :=
  if r.addCors then received = [] ∧ r.toClient = []
  else r.toClient = received ∨
    ∃ origin, (∀ x ∈ origin, isFieldChar x = true) ∧ r.toClient = insertCors origin received ∧
      ∀ b, insertCors origin (received ++ b) = insertCors origin received ++ b

/-- What the client of a run has got, at each call. -/
def StageAt (r : Run) : Pc → Prop
  | .readRequest | .getIdle | .connect | .busyAdd _ _ | .sendRequest | .reconnect | .sendAgain
  | .busyRemove | .scheduleBroken => r.client = .inUse ∧ r.toClient = []
  | .reply raw keepAlive _ =>
      r.client = .inUse ∧ (keepAlive = true → r.toClient = [] ∧ IsResponse raw)
  | .manage keepAlive _ => r.client = .inUse ∧ (keepAlive = true → IsResponse r.toClient)
  | .modify _ => r.client = .pending ∧ IsResponse r.toClient
  | .recv => r.client = .inUse ∧ (r.req.keepAlive = true → r.HandedOn r.received)
  | .respond data complete => r.client = .inUse ∧
      (∃ old, r.received = old ++ data ∧ (r.req.keepAlive = true → r.HandedOn old)) ∧
      (complete = true → IsResponse r.received)
  | .recordResponse complete => r.client = .inUse ∧
      (r.req.keepAlive = true → r.HandedOn r.received) ∧ (complete = true → IsResponse r.received)
  | .recordRequest => r.client = .inUse ∧ (r.req.keepAlive = true → IsResponse r.toClient)
  | .closeClient => r.client = .pending → IsResponse r.toClient
  | .closeConnection | .release _ | .del | .done => r.client = .closed ∨ IsResponse r.toClient

variable {r r' : Run} {env : ProxyEnv} {a : Answer}

/-- A client that waits has its response. -/
theorem StageAt.of_pending (hs : r.StageAt r.pc) (hpending : r.client = .pending) :
    IsResponse r.toClient := by
  cases h : r.pc <;> rw [h] at hs <;> grind [StageAt]

/-- At each call the stream is intact. -/
theorem StageAt.intact (hs : r.StageAt r.pc) : r.Intact := by
  intro hend
  obtain hpending | hdone := hend
  · exact Or.inr (hs.of_pending hpending)
  · rw [hdone] at hs
    exact hs

/-- A piece is handed on. -/
theorem HandedOn.respond {old data : Bytes} (h : r.HandedOn old) (horigin : r.req.LegalOrigin) :
    HandedOn { r with addCors := false, toClient := r.toClient ++ r.answerBytes data }
      (old ++ data) := by
  have hlegal : ∀ x ∈ r.req.corsOrigin.getD [], isFieldChar x = true := by
    cases horig : r.req.corsOrigin with
    | none => simp
    | some origin => exact horigin origin horig
  unfold HandedOn at h ⊢
  unfold answerBytes
  cases hadd : r.addCors with
  | true =>
      rw [hadd] at h
      obtain ⟨hold, hclient⟩ := h
      rw [hold, hclient]
      obtain hsame | hput := insertCors_cases (r.req.corsOrigin.getD []) data
      · exact Or.inl hsame
      · exact Or.inr ⟨_, hlegal, rfl, hput⟩
  | false =>
      rw [hadd] at h
      obtain hclient | ⟨origin, horig, hclient, hput⟩ := h
      · exact Or.inl (congrArg (· ++ data) hclient)
      · refine Or.inr ⟨origin, horig, ?_, fun b => ?_⟩
        · rw [hput, ← hclient]
          rfl
        · rw [List.append_assoc, hput, hput, List.append_assoc]

/-- What has been handed on of a complete response is a complete response. -/
theorem HandedOn.isResponse {received : Bytes} (h : r.HandedOn received)
    (hreceived : IsResponse received) : IsResponse r.toClient := by
  unfold HandedOn at h
  split at h
  · have hblank := hreceived.blank
    simp [h.1] at hblank
  · obtain hclient | ⟨origin, horigin, hclient, -⟩ := h
    · rw [hclient]
      exact hreceived
    · rw [hclient]
      exact isResponse_insertCors horigin hreceived

theorem connectionError_stage (hnow : IsFieldText env.now) (next : After)
    (hclient : r.client = .inUse) (hnothing : r.req.keepAlive = true → r.toClient = []) :
    (r.connectionError env next).StageAt (r.connectionError env next).pc :=
  ⟨hclient, fun hkeep => ⟨hnothing hkeep,
    ErrorResponses.isResponse_badRequestWeb3 hnow (-32603)
      (PyStr.ofString "Could not reach server") r.req.id⟩⟩

theorem except_stage (hclient : r.client = .inUse) : r.except.StageAt r.except.pc :=
  fun hpending => by
    rw [except, hclient] at hpending
    cases hpending

theorem receiveRaised_stage (hnow : IsFieldText env.now) {e : SocketError}
    (hclient : r.client = .inUse) (hnothing : e ≠ .other → r.req.keepAlive = true → r.toClient = []) :
    (receiveRaised env e r).StageAt (receiveRaised env e r).pc := by
  unfold receiveRaised
  split
  · exact except_stage hclient
  · next he => exact connectionError_stage hnow .close hclient (hnothing he)

theorem afterPiece_stage {complete : Bool} (hclient : r.client = .inUse)
    (hhanded : r.req.keepAlive = true → r.HandedOn r.received)
    (hcomplete : complete = true → IsResponse r.received) :
    (r.afterPiece complete).StageAt (r.afterPiece complete).pc := by
  cases complete with
  | false => exact ⟨hclient, hhanded⟩
  | true => exact ⟨hclient, fun hkeep => (hhanded hkeep).isResponse (hcomplete rfl)⟩

theorem sendRaised_stage (hs : r.client = .inUse ∧ r.toClient = []) :
    r.sendRaised.StageAt r.sendRaised.pc := by
  unfold sendRaised sendFailed
  split
  · split
    · exact hs
    · exact hs
  · exact hs

theorem StageAt.of_isSend (hpc : r.pc.isSend) (hs : r.StageAt r.pc) :
    r.client = .inUse ∧ r.toClient = [] := by
  cases h : r.pc <;> rw [h] at hpc hs <;> first | exact hs | cases hpc

theorem after_stage (next : After) (h : r.client = .closed ∨ IsResponse r.toClient) :
    r.StageAt next.pc := by
  cases next <;> exact h

/-- A careful call keeps the stage. -/
theorem Move.stage (h : Move env r a r') (hnow : IsFieldText env.now)
    (hparse : ∀ b, env.parse b = .complete → IsResponse b) (ha : ∀ outcome, a ≠ .read outcome)
    (hcareful : r.CarefulAt r.pc a) (horigin : r.req.LegalOrigin) (hs : r.StageAt r.pc) :
    r'.StageAt r'.pc := by
  cases h with
  | read outcome hpc => exact absurd rfl (ha outcome)
  | @reply raw keepAlive next hpc =>
      rw [hpc] at hs
      refine ⟨hs.1, fun hkeep => ?_⟩
      obtain ⟨hnothing, hraw⟩ := hs.2 hkeep
      simpa [hnothing] using hraw
  | @replyCut raw keepAlive next n hpc =>
      rw [hpc] at hs
      refine ⟨hs.1, fun hkeep => ?_⟩
      obtain ⟨hnothing, hraw⟩ := hs.2 hkeep
      have hn : raw.length ≤ n := by
        rw [hpc] at hcareful
        exact hcareful hkeep
      simpa [hnothing, List.take_of_length_le hn] using hraw
  | replyFailed n he hpc =>
      rw [hpc] at hs
      exact fun hpending => by simp [hs.1] at hpending
  | keep hpc =>
      rw [hpc] at hs
      exact ⟨rfl, hs.2 rfl⟩
  | @drop next hpc => exact after_stage next (Or.inl rfl)
  | @modify next hpc =>
      rw [hpc] at hs
      exact after_stage next (Or.inr hs.2)
  | idle c hpc | noIdle hpc | connect c hpc | acquire hpc | reconnect hpc | reconnectRaise e hpc
  | busyRemove hpc =>
      rw [hpc] at hs
      exact hs
  | noConnection e hpc =>
      have hstart : r.client = .inUse ∧ r.toClient = [] := by
        obtain hpc | hpc := hpc <;> rw [hpc] at hs <;> exact hs
      exact connectionError_stage hnow .ret hstart.1 fun _ => hstart.2
  | send hpc hhandler hreq hans =>
      obtain ⟨hclient, hnothing⟩ := StageAt.of_isSend hpc hs
      refine ⟨hclient, fun _ => ?_⟩
      unfold HandedOn sent
      split
      · exact ⟨rfl, hnothing⟩
      · exact Or.inl hnothing
  | sendCut n hpc hhandler hreq he =>
      have hstart := StageAt.of_isSend hpc hs
      exact sendRaised_stage hstart
  | sendRaise e hpc hhandler hreq =>
      have hstart := StageAt.of_isSend hpc hs
      exact sendRaised_stage hstart
  | sendNothing hpc hhandler =>
      have hstart := StageAt.of_isSend hpc hs
      exact sendRaised_stage hstart
  | scheduleBroken hpc =>
      rw [hpc] at hs
      exact connectionError_stage hnow .close hs.1 fun _ => hs.2
  | recvNothing hpc hans =>
      rw [hpc] at hs
      refine connectionError_stage hnow .close hs.1 ?_
      rw [hpc] at hcareful
      obtain rfl | rfl := hans
      · exact hcareful
      · exact hcareful
  | recvRaise e hpc =>
      rw [hpc] at hs
      rw [hpc] at hcareful
      exact receiveRaised_stage hnow hs.1 hcareful
  | recvError hpc hne hparsed =>
      rw [hpc] at hs
      exact except_stage hs.1
  | @recvPiece bytes complete hpc hne hparsed =>
      rw [hpc] at hs
      refine ⟨hs.1, ⟨r.received, rfl, hs.2⟩, fun hcomplete => ?_⟩
      rw [hcomplete] at hparsed
      exact hparse _ hparsed
  | respondClosed hpc hclosed =>
      rw [hpc] at hs
      rw [hs.1] at hclosed
      cases hclosed
  | respond hpc hopen =>
      rw [hpc] at hs
      obtain ⟨hclient, ⟨old, hold, hhanded⟩, hcomplete⟩ := hs
      refine ⟨hclient, fun hkeep => ?_, hcomplete⟩
      rw [hold]
      exact (hhanded hkeep).respond horigin
  | @respondCut data complete n hpc hopen =>
      rw [hpc] at hs
      obtain ⟨hclient, ⟨old, hold, hhanded⟩, hcomplete⟩ := hs
      refine ⟨hclient, fun hkeep => ?_, hcomplete⟩
      have hn : (r.answerBytes data).length ≤ n := by
        rw [hpc] at hcareful
        exact hcareful hkeep
      rw [List.take_of_length_le hn, hold]
      exact (hhanded hkeep).respond horigin
  | @respondFailed data complete n e he hpc hopen =>
      rw [hpc] at hs
      refine receiveRaised_stage hnow hs.1 fun hother hkeep => ?_
      rw [hpc] at hcareful
      cases e with
      | brokenPipe => exact absurd rfl he
      | connection => exact hcareful hkeep
      | other => exact absurd rfl hother
  | recordResponse hpc =>
      rw [hpc] at hs
      exact afterPiece_stage hs.1 hs.2.1 hs.2.2
  | recordRaise e hpc =>
      rw [hpc] at hs
      rw [hpc] at hcareful
      exact receiveRaised_stage hnow hs.1 hcareful
  | recordRequest hpc =>
      rw [hpc] at hs
      exact hs
  | closeConnection hpc =>
      rw [hpc] at hs
      exact hs
  | closeClient hpc => exact Or.inl rfl
  | closeClientRaise e hpc =>
      rw [hpc] at hs
      rw [hpc] at hcareful
      cases hclient : r.client with
      | inUse => exact absurd hclient hcareful
      | pending => exact Or.inr (hs hclient)
      | closed => exact Or.inl rfl
  | raise e hpc =>
      intro hpending
      exact hs.of_pending hpending
  | releaseNothing hpc hnone | release hpc hc | releaseRaise e hpc hc | delNothing hpc hnone
  | del hpc hc | delRaise e hpc hc =>
      rw [hpc] at hs
      exact hs

/-- What the readers make of the request keeps the stage. -/
theorem afterRead_stage {outcome : ReadOutcome} (ho : outcome.Proper)
    (hs : r.client = .inUse ∧ r.toClient = []) :
    (r.afterRead outcome).StageAt (r.afterRead outcome).pc := by
  cases outcome with
  | success req =>
      simp only [afterRead]
      split
      · exact ⟨hs.1, fun _ => ⟨hs.2, OptionsResponses.isResponse_optionsResponse⟩⟩
      · exact hs
  | failure err req => exact ⟨hs.1, fun _ => ⟨hs.2, ho⟩⟩
  | drop => exact ⟨hs.1, fun hkeep => by cases hkeep⟩
  | raise e => exact except_stage hs.1

theorem afterRead_legalOrigin {outcome : ReadOutcome} (ho : outcome.Proper)
    (horigin : r.req.LegalOrigin) : (r.afterRead outcome).req.LegalOrigin := by
  cases outcome with
  | success req =>
      simp only [afterRead]
      split
      · exact ho
      · exact ho
  | _ => exact horigin

end Run

namespace Integrity

/-- What holds of every state of a client's connection. -/
structure Inv (s : State) : Prop where
  answered : ∀ b ∈ s.answered, IsResponse b
  origin : s.run.req.LegalOrigin
  stage : s.run.StageAt s.run.pc

variable {cfg : ReaderConfig} {h : HttpTools} {env : ProxyEnv}

theorem inv_init : Inv {} where
  answered b hb := by cases hb
  origin origin horigin := by cases horigin
  stage := ⟨rfl, rfl⟩

/-- Every careful step keeps the invariant. -/
theorem Inv.step {s s' : State} {l : Label} (hlegal : h.LegalValues)
    (hparse : ∀ b, env.parse b = .complete → IsResponse b) (hi : Inv s) (hcareful : Careful s l)
    (hstep : Integrity.step cfg h env s l = some s') : Inv s' := by
  unfold Integrity.step at hstep
  split at hstep
  · next now m cs =>
    obtain ⟨run, hrun, rfl⟩ := Option.map_eq_some_iff.mp hstep
    have hproper : (readDefault { cfg with now := now.text } h m.client m.call cs).1.Proper :=
      readDefault_proper hlegal now.legal m.client m.call cs
    obtain ⟨hpc, rfl⟩ := (Run.step_move hrun).pc_of_read
    have hstage := hi.stage
    rw [hpc] at hstage
    exact ⟨hi.answered, Run.afterRead_legalOrigin hproper hi.origin, Run.afterRead_stage hproper hstage⟩
  · cases hstep
  · next now a hread =>
    obtain ⟨run, hrun, rfl⟩ := Option.map_eq_some_iff.mp hstep
    have hmove := Run.step_move hrun
    have ha (outcome : ReadOutcome) : a ≠ .read outcome := hread outcome
    obtain ⟨last, hreq⟩ := hmove.req_eq (hmove.pc_ne_of_call ha)
    refine ⟨hi.answered, ?_, hmove.stage now.legal hparse ha hcareful hi.origin hi.stage⟩
    show run.req.LegalOrigin
    rw [hreq]
    exact hi.origin
  · split at hstep
    · next hend =>
      cases hstep
      refine ⟨fun b hb => ?_, inv_init.origin, inv_init.stage⟩
      obtain hb | hb := List.mem_append.mp hb
      · exact hi.answered b hb
      · rw [List.mem_singleton.mp hb]
        exact hi.stage.of_pending hend.2
    · cases hstep

/-- **Stream integrity.**  Over every sequence of requests of a client, whatever happens in
the runs for them: if each call is careful, each request gets one complete response, or
the connection is closed. -/
theorem always_intact (hlegal : h.LegalValues)
    (hparse : ∀ b, env.parse b = .complete → IsResponse b) (ls : List Label)
    (hcareful : Trans.Guarded (Integrity.step cfg h env) Careful {} ls) :
    Trans.Always (Integrity.step cfg h env) Intact {} ls := by
  apply Trans.always_of_guarded (I := Inv) (P := Careful)
  · intro s l s' hi hP hstep
    exact hi.step hlegal hparse hP hstep
  · intro s hi
    exact ⟨hi.answered, hi.stage.intact⟩
  · exact inv_init
  · exact hcareful

/-! ## two runs -/

open Mediation (blockNumber blockNumberConfig blockNumberManagers localhost)

theorem blockNumber_wellFormed : blockNumber.WellFormed where
  method_ne := by decide
  method := by decide
  target_ne := by decide
  target := by decide
  fields f hf := by
    obtain rfl := List.mem_singleton.mp hf
    exact ⟨by decide, by decide, by decide, by decide, by decide, by decide, by decide⟩
  framed := ⟨by decide, .inr ⟨str "56", by decide, by decide⟩⟩

theorem legalValues_blockNumber : (HttpTools.scripted [blockNumber]).LegalValues :=
  HttpTools.scripted_legalValues fun m hm => by
    rw [List.mem_singleton.mp hm]
    exact blockNumber_wellFormed

/-- A date. -/
def date : HttpDate where
  text := "Thu, 01 Jan 1970 00:00:00 GMT"
  legal := by decide

/-- A response. -/
def okResponse : Bytes := str "HTTP/1.1 200 OK\r\nContent-Length: 2\r\n\r\nok"

theorem isResponse_okResponse : IsResponse okResponse := by
  apply isResponse_reply "200" "OK" "ok" [] []
  · rfl
  · decide
  · decide
  · decide
  · decide
  · decide
  · decide

/-- An endpoint that makes this response. -/
def answering : ProxyEnv :=
  { localhost with parse := fun b => if b = okResponse then .complete else .incomplete }

/-- A run up to the receiving. -/
def sentRun : List Label :=
  [.read date blockNumberManagers [.data blockNumber.wire], .call date (.connection 0),
    .call date .ok, .call date .ok]

/-- The request is answered, and a further run begins. -/
def answeredRun : List Label :=
  sentRun ++ [.call date (.data okResponse), .call date .ok, .call date .ok, .call date .ok,
    .call date .ok, .call date .ok, .call date .ok, .call date .ok, .next]

/-- A step without a failure. -/
def Label.isSmooth : Label → Bool
  | .read _ _ _ | .next | .call _ .ok | .call _ (.connection _) => true
  | .call _ (.data bytes) => bytes ≠ []
  | _ => false

theorem careful_of_isSmooth {l : Label} (hl : l.isSmooth) (s : State) : Careful s l := by
  cases l with
  | read now m cs => exact trivial
  | next => exact trivial
  | call now a =>
      show s.run.CarefulAt s.run.pc a
      cases a with
      | ok => cases s.run.pc <;> exact trivial
      | connection c => cases s.run.pc <;> exact trivial
      | data bytes =>
          cases bytes with
          | nil => cases hl
          | cons b bytes => cases s.run.pc <;> exact trivial
      | _ => cases hl

theorem always_intact_blockNumber :
    ((Trans.run (Integrity.step blockNumberConfig (.scripted [blockNumber]) answering) {}
        answeredRun).map State.answered) = some [okResponse] ∧
      Trans.Always (Integrity.step blockNumberConfig (.scripted [blockNumber]) answering) Intact {}
        answeredRun := by
  refine ⟨by decide +kernel, always_intact legalValues_blockNumber (fun b hb => ?_) answeredRun ?_⟩
  · have hok : b = okResponse := by
      by_contra hne
      simp [answering, hne] at hb
    rw [hok]
    exact isResponse_okResponse
  · apply Trans.guarded_of_forall
    have hsmooth : ∀ l ∈ answeredRun, l.isSmooth = true := by
      intro l hl
      simp only [answeredRun, sentRun, List.cons_append, List.nil_append, List.mem_cons,
        List.not_mem_nil, or_false] at hl
      obtain rfl | rfl | rfl | rfl | rfl | rfl | rfl | rfl | rfl | rfl | rfl | rfl | rfl := hl <;> rfl
    exact fun l hl s => careful_of_isSmooth (hsmooth l hl) s

/-- The endpoint closes the connection after the first bytes of its response. -/
def brokenRun : List Label :=
  sentRun ++ [.call date (.data (str "HTTP/1.1 200")), .call date .ok, .call date .ok,
    .call date (.data []), .call date .ok, .call date .ok]

theorem not_always_intact : ¬ ∀ (cfg : ReaderConfig) (h : HttpTools) (env : ProxyEnv),
    h.LegalValues → (∀ b, env.parse b = .complete → IsResponse b) →
      ∀ ls, Trans.Always (Integrity.step cfg h env) Intact {} ls := by
  intro hall
  have halways := hall blockNumberConfig (.scripted [blockNumber]) localhost legalValues_blockNumber
    (fun b hb => by cases hb) brokenRun
  have hend : ((Trans.run (Integrity.step blockNumberConfig (.scripted [blockNumber]) localhost) {}
      brokenRun).map fun s => (s.run.client, s.run.toClient[12]?)) = some (.pending, some 72) := by
    decide +kernel
  obtain ⟨s, hrun, hs⟩ := Option.map_eq_some_iff.mp hend
  rw [Prod.mk.injEq] at hs
  obtain hclosed | hresponse := (halways.last _ hrun).2 (Or.inl hs.1)
  · rw [hs.1] at hclosed
    cases hclosed
  · have hblank := hresponse.blank
    rw [hs.2] at hblank
    revert hblank
    decide

end Integrity

end Web3Proxy
