import Web3Proxy.RequestReader.Framing

/-!
# Web3Proxy.RequestReader.Pipelining

Successive requests on one client connection.

Each run of `handle_client` reads with a parser and an `RPCRequest` of its own, and
`read_request` consumes whole pieces: requests that share a piece are taken for one
request, with the key and the content of the last, the fields of all of them, and the
last method.  So the requests handled are those that were sent exactly when each
piece holds one request, whose body is in one part (`handled_eq_iff`).
-/

namespace Web3Proxy

open Py Bytes Http RequestReader

/-! ## the requests of a connection -/

namespace RequestReader

/-- What the loop leaves on the socket. -/
def LoopOutcome.rest {h : HttpTools} : LoopOutcome h → List SocketRead
  | .complete _ _ rest => rest
  | .malformed _ rest => rest
  | .drop _ rest => rest

theorem length_rest_readLoop {h : HttpTools} (cs : List SocketRead) (p : h.Parser)
    (l : HttpRequestParserListener) : (readLoop h cs p l).rest.length ≤ cs.length := by
  induction cs generalizing p l with
  | nil =>
      unfold readLoop
      split <;> simp [LoopOutcome.rest]
  | cons r cs ih =>
      simp only [readLoop]
      split
      · cases r with
        | notReady => simp [LoopOutcome.rest]
        | ioError => simp [LoopOutcome.rest]
        | data bytes =>
            simp only
            split
            · simp [LoopOutcome.rest]
            · cases h.feed p bytes l with
              | ok p l => exact Nat.le_succ_of_le (ih p l)
              | raise e l => simp [LoopOutcome.rest]
      · simp [LoopOutcome.rest]

/-- Reading a request takes something off the socket. -/
theorem length_readRequest_lt {h : HttpTools} {cs : List SocketRead} (hne : cs ≠ [])
    (next : Option (RPCRequest → ReadOutcome)) (req : RPCRequest) :
    (readRequest h next cs req).2.length < cs.length := by
  have hrest : (readRequest h next cs req).2 =
      (readLoop h cs h.new (HttpRequestParserListener.new req)).rest := by
    unfold readRequest
    split <;> simp_all [LoopOutcome.rest]
  rw [hrest]
  cases cs with
  | nil => exact absurd rfl hne
  | cons r cs =>
      have hle := length_rest_readLoop (h := h) cs
      simp only [readLoop, HttpRequestParserListener.new, if_true, List.length_cons]
      cases r with
      | notReady => simp [LoopOutcome.rest]
      | ioError => simp [LoopOutcome.rest]
      | data bytes =>
          simp only
          split
          · simp [LoopOutcome.rest]
          · cases h.feed h.new bytes _ with
            | ok p l => exact Nat.lt_succ_of_le (hle p l)
            | raise e l => simp [LoopOutcome.rest]

end RequestReader

/-- The requests that runs of `handle_client` read from a connection, one after
another while the connection is kept alive and the client sends. -/
def handled (h : HttpTools) : List SocketRead → List RPCRequest
  | [] => []
  | r :: cs =>
      match (readRequest h none (r :: cs) {}).1.request? with
      | none => []
      | some req =>
          if req.keepAlive then req :: handled h (readRequest h none (r :: cs) {}).2 else [req]
termination_by cs => cs.length
decreasing_by exact length_readRequest_lt (List.cons_ne_nil r cs) none {}

/-! ## the request that a message stands for -/

/-- The request that a message's own bytes determine, with its fields handed on as `ps`. -/
def requestOf (m : Message) (ps : List (Bytes × Bytes)) : RPCRequest where
  userApiKey := urlApiKey m.target
  urlPath := urlRest m.target
  headers := some ((ps.filter fun f => RPCRequest.IsStored f).flatMap RPCRequest.headerLine)
  contentLen := if m.body.content = [] then -1 else m.body.content.length
  content := if m.body.content = [] then none else some m.body.content
  keepAlive := ((RPCRequest.valuesOf ps (str "connection")).getLast?.map
    fun v => decide (v ≠ str "close")).getD true
  httpMethod := some m.method
  corsOrigin := (RPCRequest.valuesOf ps (str "origin")).getLast?

/-- No piece of a body is empty. -/
theorem ne_nil_of_mem_pieces {body : Body} {b : Bytes} (h : b ∈ body.pieces) : b ≠ [] := by
  cases body <;> simpa using (List.mem_filter.mp h).2

/-- The content that is kept is the whole one, when the body is in one part. -/
theorem getLast?_pieces_iff (body : Body) :
    (body.pieces.getLast? = if body.content = [] then none else some body.content) ↔
      body.pieces.length ≤ 1 := by
  have hflatten := body.flatten_pieces
  constructor
  · intro hlast
    split at hlast
    · rw [List.getLast?_eq_none_iff.mp hlast]
      simp
    · have hone := length_eq_one_of_getLast? (fun b => ne_nil_of_mem_pieces)
        (hlast.trans (by rw [hflatten]))
      exact Nat.le_of_eq hone
  · intro hone
    match hpieces : body.pieces with
    | [] => simp [← hflatten, hpieces]
    | [b] =>
        have hmem : b ∈ body.pieces := by simp [hpieces]
        have hb := ne_nil_of_mem_pieces hmem
        simp [← hflatten, hpieces, hb]
    | _ :: _ :: _ => simp [hpieces] at hone

/-- What is read of a message alone is the request it stands for exactly when its
body is in one part. -/
theorem received_eq_requestOf (m : Message) (ps : List (Bytes × Bytes)) :
    RPCRequest.received [m.target] ps m.body.pieces m.method = requestOf m ps ↔
      m.body.pieces.length ≤ 1 := by
  have hcontent := RPCRequest.received_content [m.target] ps m.body.pieces m.method
  rw [← getLast?_pieces_iff, ← hcontent]
  constructor
  · intro hsame
    rw [hsame]
    rfl
  · intro hbody
    have hlen := RPCRequest.received_contentLen [m.target] ps m.body.pieces m.method
    have hkey := RPCRequest.received_userApiKey [m.target] ps m.body.pieces m.method
    have hpath := RPCRequest.received_urlPath [m.target] ps m.body.pieces m.method
    have hrest := RPCRequest.received_unwritten [m.target] ps m.body.pieces m.method
    simp only [RPCRequest.unwritten, Prod.mk.injEq] at hrest
    obtain ⟨hmethod, hid, hpriority, hpool, hqueried⟩ := hrest
    rw [← hcontent, hbody] at hlen
    apply RPCRequest.ext
    · exact hkey
    · simpa [requestOf] using hpath
    · exact RPCRequest.received_headers _ _ _ _
    · rw [hlen, requestOf]
      split <;> simp [*]
    · exact hbody
    · exact hmethod
    · exact hid
    · exact hpriority
    · exact hpool
    · exact hqueried
    · exact RPCRequest.received_keepAlive _ _ _ _
    · rfl
    · exact RPCRequest.received_corsOrigin _ _ _ _

/-! ## requests that share pieces -/

section Connection

variable {h : HttpTools} {fields : List Message → List (Bytes × Bytes)}

/-- The requests of one piece are taken for one. -/
theorem handled_cons {g : List Message} {ps : List (Bytes × Bytes)} (hne : g ≠ [])
    (hg : ∀ m ∈ g, m.WellFormed) (hf : h.FollowsAs g ps) (cs : List SocketRead) :
    ∃ req, req = RPCRequest.received
        (fragments .target ((g.flatMap Message.layout).flatMap Item.report)) ps
        (fragments .data ((g.flatMap Message.layout).flatMap Item.report))
        (g.getLast hne).method ∧
      handled h (.data (g.flatMap Message.wire) :: cs) =
        if req.keepAlive then req :: handled h cs else [req] := by
  have hread := readRequest_together cs hne hg hf none
  refine ⟨_, rfl, ?_⟩
  rw [handled, hread]
  simp only [request?_dispatch]

/-- There are no more requests handled than pieces. -/
theorem length_handled_le {gs : List (List Message)} (hgs : ∀ g ∈ gs, g ≠ [])
    (hms : ∀ g ∈ gs, ∀ m ∈ g, m.WellFormed) (hf : ∀ g ∈ gs, h.FollowsAs g (fields g)) :
    (handled h (gs.map fun g => .data (g.flatMap Message.wire))).length ≤ gs.length := by
  induction gs with
  | nil => simp [handled]
  | cons g gs ih =>
      have hrest := ih (fun k hk => hgs k (List.mem_cons_of_mem g hk))
        (fun k hk => hms k (List.mem_cons_of_mem g hk)) fun k hk => hf k (List.mem_cons_of_mem g hk)
      obtain ⟨req, -, hreq⟩ := handled_cons (hgs g List.mem_cons_self) (hms g List.mem_cons_self)
        (hf g List.mem_cons_self) (gs.map fun g => .data (g.flatMap Message.wire))
      rw [List.map_cons, hreq]
      split <;> simp [hrest]

/-- There are as many pieces as messages exactly when no piece is shared. -/
theorem length_flatten_le_iff {gs : List (List Message)} (hgs : ∀ g ∈ gs, g ≠ []) :
    gs.length ≤ gs.flatten.length ∧
      (gs.flatten.length ≤ gs.length ↔ ∀ g ∈ gs, g.length = 1) := by
  induction gs with
  | nil => simp
  | cons g gs ih =>
      have hg := List.length_pos_iff.mpr (hgs g List.mem_cons_self)
      obtain ⟨hle, hiff⟩ := ih fun k hk => hgs k (List.mem_cons_of_mem g hk)
      simp only [List.flatten_cons, List.length_append, List.length_cons, List.forall_mem_cons,
        ← hiff]
      omega

theorem eq_map_singleton {gs : List (List Message)} (h : ∀ g ∈ gs, g.length = 1) :
    gs = gs.flatten.map fun m => [m] := by
  induction gs with
  | nil => rfl
  | cons g gs ih =>
      obtain ⟨m, rfl⟩ := List.length_eq_one_iff.mp (h g List.mem_cons_self)
      have hrest := ih fun k hk => h k (List.mem_cons_of_mem _ hk)
      simpa using hrest

/-- Requests that do not share pieces. -/
theorem handled_single_iff {ms : List Message} (hms : ∀ m ∈ ms, m.WellFormed)
    (hf : ∀ m ∈ ms, h.FollowsAs [m] (fields [m]))
    (halive : ∀ m ∈ ms.dropLast, (requestOf m (fields [m])).keepAlive = true) :
    handled h (ms.map fun m => .data m.wire) = (ms.map fun m => requestOf m (fields [m])) ↔
      ∀ m ∈ ms, m.body.pieces.length ≤ 1 := by
  induction ms with
  | nil => simp [handled]
  | cons m ms ih =>
      have hm := hms m List.mem_cons_self
      obtain ⟨req, hreq, hhandled⟩ := handled_cons (g := [m]) (by simp) (by simpa using hm)
        (hf m List.mem_cons_self) (ms.map fun m => .data m.wire)
      simp only [List.flatMap_singleton, List.getLast_singleton, fragments_data,
        fragments_target m hm.target_ne] at hreq hhandled
      have hone := received_eq_requestOf m (fields [m])
      rw [← hreq] at hone
      simp only [List.map_cons, List.forall_mem_cons, hhandled]
      by_cases hlast : ms = []
      · subst hlast
        simp [handled, hone]
      · have hkeep : req.keepAlive = true := by
          rw [hreq, RPCRequest.received_keepAlive]
          exact halive m (by simp [List.dropLast_cons_of_ne_nil hlast])
        have hrest := ih (fun k hk => hms k (List.mem_cons_of_mem m hk))
          (fun k hk => hf k (List.mem_cons_of_mem m hk))
          fun k hk => halive k (by simp [List.dropLast_cons_of_ne_nil hlast, hk])
        rw [if_pos hkeep, List.cons.injEq, hone, hrest]

/-- **Pipelined requests** are handled as they were sent, each with the fields that are
handed on of it alone, exactly when no two of them share a piece and none has its body
in several parts. -/
theorem handled_eq_iff {gs : List (List Message)} (hgs : ∀ g ∈ gs, g ≠ [])
    (hms : ∀ g ∈ gs, ∀ m ∈ g, m.WellFormed) (hf : ∀ g ∈ gs, h.FollowsAs g (fields g))
    (halive : ∀ m ∈ gs.flatten.dropLast, (requestOf m (fields [m])).keepAlive = true) :
    handled h (gs.map fun g => .data (g.flatMap Message.wire)) =
        (gs.flatten.map fun m => requestOf m (fields [m])) ↔
      (∀ g ∈ gs, g.length = 1) ∧ ∀ m ∈ gs.flatten, m.body.pieces.length ≤ 1 := by
  have hlength := length_handled_le hgs hms hf
  obtain ⟨-, hshared⟩ := length_flatten_le_iff hgs
  by_cases hone : ∀ g ∈ gs, g.length = 1
  · -- every piece is one message
    have hmap := eq_map_singleton hone
    have hmem : ∀ m ∈ gs.flatten, [m] ∈ gs := fun m hm =>
      hmap ▸ List.mem_map.mpr ⟨m, hm, rfl⟩
    have hiff := handled_single_iff (h := h) (fun m hm => hms [m] (hmem m hm) m (by simp))
      (fun m hm => hf [m] (hmem m hm)) halive
    have hpieces : gs.map (fun g => SocketRead.data (g.flatMap Message.wire)) =
        gs.flatten.map fun m => .data m.wire := by
      rw [hmap, List.map_map, ← hmap]
      simp [Function.comp_def]
    rw [hpieces, hiff]
    exact ⟨fun hbody => ⟨hone, hbody⟩, fun hboth => hboth.2⟩
  · constructor
    · intro heq
      rw [heq, List.length_map] at hlength
      exact absurd (hshared.mp hlength) hone
    · intro hboth
      exact absurd hboth.1 hone

end Connection

/-- The request of a user, with one byte of content. -/
def oneByteBody (target content : String) : Message where
  method := str "POST"
  target := str target
  fields := [{ name := str "Content-Length", value := str "1" }]
  body := .sized (str content)

theorem oneByteBody_wellFormed {target content : String} (hne : str target ≠ [])
    (htarget : ∀ x ∈ str target, isVchar x = true) (hcontent : (str content).length = 1) :
    (oneByteBody target content).WellFormed where
  method_ne := (by decide : str "POST" ≠ [])
  method := (by decide : ∀ x ∈ str "POST", isTchar x = true)
  target_ne := hne
  target := htarget
  fields f hf := by
    obtain rfl := List.mem_singleton.mp hf
    exact ⟨by decide, by decide, by decide, by decide, by decide, by decide, by decide⟩
  framed := by
    have hnone : values [{ name := str "Content-Length", value := str "1" }]
        (str "transfer-encoding") = [] := by decide
    have hone : values [{ name := str "Content-Length", value := str "1" }]
        (str "content-length") = [str "1"] := by decide
    have hlength : numeral 10 (str "1") = some (str content).length := by
      rw [hcontent]
      decide
    exact ⟨hnone, .inr ⟨str "1", hone, hlength⟩⟩

/-- The fields of the request of a user. -/
def oneByteFields : List (Bytes × Bytes) := [(str "Content-Length", str "1")]

/-- The same request twice, one after the other. -/
theorem handled_twice : handled (.scripted [oneByteBody "/a" "1"])
      [.data (oneByteBody "/a" "1").wire, .data (oneByteBody "/a" "1").wire] =
    [requestOf (oneByteBody "/a" "1") oneByteFields,
      requestOf (oneByteBody "/a" "1") oneByteFields] := by
  have hm : (oneByteBody "/a" "1").WellFormed :=
    oneByteBody_wellFormed (by decide) (by decide) (by decide)
  have hf : ∀ g ∈ [[oneByteBody "/a" "1"], [oneByteBody "/a" "1"]],
      (HttpTools.scripted [oneByteBody "/a" "1"]).FollowsAs g oneByteFields := by
    simp only [List.forall_mem_cons]
    exact ⟨HttpTools.scripted_followsAs _, HttpTools.scripted_followsAs _, by simp⟩
  have hiff := handled_eq_iff (by simp) (by simpa using hm) hf (by decide)
  simpa using hiff.mpr (by decide)

/-- The requests of two users in one piece: one request is handled. -/
theorem not_handled_in_order : ¬ ∀ (h : HttpTools) (gs : List (List Message))
    (fields : List Message → List (Bytes × Bytes)), (∀ g ∈ gs, g ≠ []) →
    (∀ g ∈ gs, ∀ m ∈ g, m.WellFormed) → (∀ g ∈ gs, h.FollowsAs g (fields g)) →
    (∀ m ∈ gs.flatten.dropLast, (requestOf m (fields [m])).keepAlive = true) →
    handled h (gs.map fun g => .data (g.flatMap Message.wire)) =
      gs.flatten.map fun m => requestOf m (fields [m]) := by
  intro hall
  have ha : (oneByteBody "/a" "1").WellFormed :=
    oneByteBody_wellFormed (by decide) (by decide) (by decide)
  have hb : (oneByteBody "/b" "2").WellFormed :=
    oneByteBody_wellFormed (by decide) (by decide) (by decide)
  have hgs : ∀ g ∈ [[oneByteBody "/a" "1", oneByteBody "/b" "2"]], g ≠ [] := by simp
  have hms : ∀ g ∈ [[oneByteBody "/a" "1", oneByteBody "/b" "2"]], ∀ m ∈ g, m.WellFormed := by
    simp [ha, hb]
  have hf : ∀ g ∈ [[oneByteBody "/a" "1", oneByteBody "/b" "2"]],
      (HttpTools.scripted [oneByteBody "/a" "1", oneByteBody "/b" "2"]).FollowsAs g
        (g.flatMap fun m => (m.fields ++ m.body.trailer).map Field.pair) := by
    simpa using HttpTools.scripted_followsAs [oneByteBody "/a" "1", oneByteBody "/b" "2"]
  have hboth := hall _ _ _ hgs hms hf (by decide)
  have hlength := length_handled_le hgs hms hf
  rw [hboth] at hlength
  revert hlength
  decide

end Web3Proxy
