import Web3Proxy.EndpointConnectionHandler.Spec

/-!
# Web3Proxy.EndpointConnectionHandler.Sending

What `send` makes of the outcomes of its writes.

* `HandlerState.sendsReported_iff` — a request that `send` reports as sent was written, and a
  write that fails leads to another on a new socket or to an exception, exactly when no write
  ends in a `BrokenPipeError`, which `send_all` keeps to itself;
* `HandlerSession.settled_iff` — once a `send` has returned there is no further reconnect,
  exactly when no first attempt fails after requests that only their second attempt has sent.
-/

namespace Web3Proxy

open Py Bytes Trans

/-! ## one send -/

namespace HandlerState

/-- A handler of a reused connection that has sent nothing yet. -/
def reused (c : ConnId) (sender : RequestSender) (socket : Nat) : HandlerState where
  handler :=
    { connection := some c
      isNewConnection := false
      isReconnectForbidden := false
      sender := sender }
  socket := socket

/-- What the result of `send` says of its writes is true. -/
structure SendReported (s : HandlerState) (req : RPCRequest) (o : SendOutcomes) : Prop where
  /-- A request that is reported as sent has been accepted as a whole by the connection's socket. -/
  accepted : ∀ bytes, (s.send req o).1 = .ok bytes →
    (∃ req', s.handler.sender.request req = .ok bytes req') ∧
      .write (s.send req o).2.socket bytes .accepted ∈ (s.send req o).2.events
  /-- After a first write that fails there is one reconnect and one more write of the request,
  on the new socket; or `send` raises a `BrokenConnectionError`. -/
  retried : ∀ bytes req' n e, s.handler.sender.request req = .ok bytes req' →
    o.first = .write (.failed n e) →
    (∃ w rest, (s.send req o).2.events = s.events ++ [.write s.socket bytes (.failed n e),
        .reconnect true, .write (s.socket + 1) bytes w] ++ rest ∧
      (s.send req o).2.socket = s.socket + 1 ∧ ∀ e ∈ rest, e.isReconnect = false) ∨
    ∃ error, (s.send req o).1 = .error error ∧ error.isBrokenConnection = true

/-- None of the writes of a request that can be sent ends in a `BrokenPipeError`. -/
def NoBrokenPipe (sender : RequestSender) (req : RPCRequest) (o : SendOutcomes) : Prop :=
  (∃ bytes req', sender.request req = .ok bytes req') →
    o.first.isBrokenPipe = false ∧
      (o.first.raises = true → o.reconnects = true → o.again.isBrokenPipe = false)

section Reported

variable {s : HandlerState} {req : RPCRequest} {o : SendOutcome}

theorem attemptFails_of_ok {bytes : Bytes} {req' : RPCRequest}
    (hreq : s.handler.sender.request req = .ok bytes req') :
    s.attemptFails req o = o.raises := by
  simp [attemptFails, hreq]

theorem attempt_of_write {bytes : Bytes} {req' : RPCRequest} {w : WriteOutcome}
    (hreq : s.handler.sender.request req = .ok bytes req') :
    s.attempt req (.write w) = [.write s.socket bytes w] := by
  simp [attempt, hreq]

/-- A broken pipe at the first write ends `send` after it. -/
theorem send_of_brokenPipe {c : ConnId} (hc : s.handler.connection = some c) {bytes : Bytes}
    {req' : RPCRequest} (hreq : s.handler.sender.request req = .ok bytes req') {os : SendOutcomes}
    (hbroken : os.first.isBrokenPipe = true) :
    ∃ n, os.first = .write (.failed n .brokenPipe) ∧ (s.send req os).1 = .ok bytes ∧
      (s.send req os).2.events =
        s.events ++ [.write s.socket bytes (.failed n .brokenPipe)] := by
  have hquiet := SendOutcome.raises_of_isBrokenPipe hbroken
  obtain ⟨n, hn⟩ : ∃ n, os.first = .write (.failed n .brokenPipe) := by
    revert hbroken
    rcases os.first with e | - | ⟨n, - | - | -⟩ <;> simp [SendOutcome.isBrokenPipe]
  have h := s.send_sends hc req os
  rcases hsend : s.send req os with ⟨result, t⟩
  rw [hsend] at h
  cases h with
  | atOnce hok hreq' hw =>
      rw [hreq] at hreq'
      cases hreq'
      rw [hn] at hw
      cases hw
      exact ⟨n, hn, rfl, rfl⟩
  | forbidden hfail _ | notReconnected hfail _ _ | again hfail _ _ _ _ _
  | failedAgain hfail _ _ _ =>
      rw [attemptFails_of_ok hreq, hquiet] at hfail
      cases hfail

/-- The second write of `send`, when there is one. -/
theorem send_again {c : ConnId} (hc : s.handler.connection = some c)
    (hallowed : s.handler.isReconnectForbidden = false) {bytes : Bytes} {req' : RPCRequest}
    (hreq : s.handler.sender.request req = .ok bytes req') {os : SendOutcomes}
    (hfirst : os.first.raises = true) (hrec : os.reconnects = true)
    (hagain : os.again.raises = false) :
    ∃ w, os.again = .write w ∧ (s.send req os).1 = .ok bytes ∧
      (s.send req os).2.socket = s.socket + 1 ∧
      (s.send req os).2.events =
        s.events ++ s.attempt req os.first ++ [.reconnect true, .write (s.socket + 1) bytes w] := by
  have h := s.send_sends hc req os
  rcases hsend : s.send req os with ⟨result, t⟩
  rw [hsend] at h
  cases h with
  | atOnce hok _ _ =>
      rw [attemptFails_of_ok hreq, hfirst] at hok
      cases hok
  | forbidden _ hforbidden =>
      rw [hallowed] at hforbidden
      cases hforbidden
  | notReconnected _ _ hnot =>
      rw [hrec] at hnot
      cases hnot
  | again _ _ _ _ hreq' hw =>
      rw [hreq] at hreq'
      cases hreq'
      exact ⟨_, hw, rfl, rfl, rfl⟩
  | failedAgain _ _ _ hfail =>
      rw [attemptFails_of_ok hreq, hagain] at hfail
      cases hfail

end Reported

/-- The writes of an attempt are on the socket that the connection has. -/
theorem write_mem_attempt {s : HandlerState} {req : RPCRequest} {o : SendOutcome} {n : Nat}
    {data : Bytes} {w : WriteOutcome} (h : .write n data w ∈ s.attempt req o) : n = s.socket := by
  unfold attempt at h
  split at h
  · cases List.mem_singleton.mp h
    rfl
  · cases h

/-- **A request reported as sent was sent** exactly when no write meets a broken pipe. -/
theorem sendReported_iff (c : ConnId) (sender : RequestSender) (socket : Nat) (req : RPCRequest)
    (o : SendOutcomes) :
    SendReported (reused c sender socket) req o ↔ NoBrokenPipe sender req o := by
  have hc : (reused c sender socket).handler.connection = some c := rfl
  constructor
  · rintro ⟨haccepted, hretried⟩ ⟨bytes, req', hreq⟩
    constructor
    · by_contra hbroken
      obtain ⟨n, hn, hresult, hevents⟩ :=
        send_of_brokenPipe hc hreq (by simpa using hbroken)
      obtain ⟨w, rest, hretry, -⟩ | ⟨error, herror, -⟩ := hretried bytes req' n _ hreq hn
      · rw [hevents] at hretry
        simp [reused] at hretry
      · rw [hresult] at herror
        cases herror
    · intro hfirst hrec
      by_contra hbroken
      have hbroken : o.again.isBrokenPipe = true := by simpa using hbroken
      obtain ⟨w, hw, hresult, hsocket, hevents⟩ :=
        send_again hc rfl hreq hfirst hrec (SendOutcome.raises_of_isBrokenPipe hbroken)
      have hmem := (haccepted bytes hresult).2
      rw [hsocket, hevents, List.mem_append, List.mem_append] at hmem
      obtain (hmem | hmem) | hmem := hmem
      · cases hmem
      · exact absurd (write_mem_attempt hmem) (by simp)
      · simp only [List.mem_cons, reduceCtorEq, HandlerEvent.write.injEq, true_and,
          List.not_mem_nil, or_false, false_or] at hmem
        rw [hw, ← hmem] at hbroken
        cases hbroken
  · intro hquiet
    have h := (reused c sender socket).send_sends hc req o
    rcases hsend : (reused c sender socket).send req o with ⟨result, t⟩
    rw [hsend] at h
    cases h with
    | @atOnce bytes req' w hok hreq hw =>
        obtain ⟨hfirst, -⟩ := hquiet ⟨bytes, req', hreq⟩
        rw [attemptFails_of_ok hreq, hw] at hok
        rw [hw] at hfirst
        obtain rfl | hbroken := SendOutcome.accepted_or_brokenPipe hok
        · refine ⟨fun b hb => ?_, fun b r n e _ hn => ?_⟩
          · rw [hsend] at hb ⊢
            cases hb
            exact ⟨⟨req', hreq⟩, by simp⟩
          · rw [hw] at hn
            cases hn
        · rw [hfirst] at hbroken
          cases hbroken
    | forbidden _ hforbidden => cases hforbidden
    | notReconnected _ _ _ =>
        refine ⟨fun b hb => ?_, fun b r n e _ _ => Or.inr ⟨.reconnect, by rw [hsend], rfl⟩⟩
        rw [hsend] at hb
        cases hb
    | @again bytes req' w hfail _ hrec hok hreq hw =>
        obtain ⟨-, hagain⟩ := hquiet ⟨bytes, req', hreq⟩
        rw [attemptFails_of_ok hreq] at hfail
        have hagain := hagain hfail hrec
        rw [attemptFails_of_ok hreq, hw] at hok
        rw [hw] at hagain
        obtain rfl | hbroken := SendOutcome.accepted_or_brokenPipe hok
        · refine ⟨fun b hb => ?_, fun b r n e hreq' hn => ?_⟩
          · rw [hsend] at hb ⊢
            cases hb
            exact ⟨⟨req', hreq⟩, by simp⟩
          · change sender.request req = .ok bytes req' at hreq
            change sender.request req = .ok b r at hreq'
            rw [hreq] at hreq'
            cases hreq'
            refine Or.inl ⟨.accepted, [], ?_, by rw [hsend], fun _ h => absurd h List.not_mem_nil⟩
            rw [hsend, hn, attempt_of_write hreq]
            simp
        · rw [hagain] at hbroken
          cases hbroken
    | failedAgain _ _ _ _ =>
        refine ⟨fun b hb => ?_, fun b r n e _ _ => Or.inr ⟨.brokenConnection, by rw [hsend], rfl⟩⟩
        rw [hsend] at hb
        cases hb

/-- A request for an endpoint. -/
def blockNumber : RPCRequest where
  headers := some (str "Content-Length: 2\r\n")
  content := some (str "\x7b\x7d")

/-- The connection has been closed by its endpoint meanwhile: nothing is written, and `send`
returns. -/
theorem not_sendReported :
    ¬ SendReported (reused 0 (RequestSender.new "localhost" "") 0) blockNumber
      ⟨.write (.failed 0 .brokenPipe), true, .write .accepted⟩ := by
  rintro ⟨haccepted, -⟩
  have hmem := (haccepted _ rfl).2
  revert hmem
  decide

end HandlerState

/-! ## sequences of sends -/

/-- The call is a `send` that has returned. -/
def CallRecord.isSent (r : CallRecord) : Bool :=
  match r.call, r.result with
  | .send _ _, .ok _ => true
  | _, _ => false

/-- The reconnects of the call. -/
def CallRecord.reconnects (r : CallRecord) : List HandlerEvent :=
  r.events.filter HandlerEvent.isReconnect

/-- The call is a `send` that has failed on the connection. -/
def CallRecord.HasFailed (r : CallRecord) : Prop :=
  ∃ req o e, r.call = .send req o ∧ r.result = .error e ∧ e ≠ .connectionReleased

/-- The call does not reconnect; if it is a `send` that fails, it releases the connection `c` as
broken and says that it broke after the first send. -/
def CallRecord.Final (c : ConnId) (isNew : Bool) (r : CallRecord) : Prop :=
  r.reconnects = [] ∧
    (r.HasFailed → r.result = .error .brokenFreshConnection ∧
      .handleBrokenConnection c isNew ∈ r.events)

/-- No call reconnects twice, and none does once a `send` has returned. -/
structure Settled (c : ConnId) (isNew : Bool) (history : List CallRecord) : Prop where
  once : ∀ r ∈ history, r.reconnects.length ≤ 1
  final : ∀ pre r post, history = pre ++ r :: post → (∃ q ∈ pre, q.isSent = true) →
    r.Final c isNew

section Settled

variable {c : ConnId} {isNew : Bool} {history : List CallRecord} {r : CallRecord}

theorem settled_nil : Settled c isNew [] where
  once := fun _ hr => absurd hr List.not_mem_nil
  final := by simp

/-- One more call. -/
theorem settled_concat :
    Settled c isNew (history ++ [r]) ↔ Settled c isNew history ∧ r.reconnects.length ≤ 1 ∧
      ((∃ q ∈ history, q.isSent = true) → r.Final c isNew) := by
  constructor
  · rintro ⟨honce, hfinal⟩
    refine ⟨⟨fun q hq => honce q (List.mem_append_left _ hq), ?_⟩,
      honce r List.mem_concat_self, hfinal history r [] rfl⟩
    rintro pre q post rfl hsent
    exact hfinal pre q (post ++ [r]) (by simp) hsent
  · rintro ⟨⟨honce, hfinal⟩, hr, hrfinal⟩
    refine ⟨fun q hq => ?_, fun pre q post hsplit hsent => ?_⟩
    · obtain hq | hq := List.mem_append.mp hq
      · exact honce q hq
      · rw [List.mem_singleton.mp hq]
        exact hr
    · rcases List.eq_nil_or_concat post with rfl | ⟨post, last, rfl⟩
      · obtain ⟨rfl, hlast⟩ := List.append_inj' hsplit rfl
        cases hlast
        exact hrfinal hsent
      · rw [List.concat_eq_append, ← List.cons_append, ← List.append_assoc] at hsplit
        obtain ⟨rfl, -⟩ := List.append_inj' hsplit rfl
        exact hfinal pre q post rfl hsent

end Settled

namespace HandlerSession

/-- Requests have been sent, all of them at the second attempt. -/
def RetriedOnly (s : HandlerSession) : Prop :=
  (∃ q ∈ s.history, q.isSent = true) ∧ ∀ q ∈ s.history, q.isSent = true → q.reconnects ≠ []

/-- A reused connection that has sent its requests at the second attempt only does not fail at a
first attempt. -/
def FirstAttemptHolds (s : HandlerSession) (call : HandlerCall) : Prop :=
  s.state.handler.isNewConnection = false → s.state.handler.connection.isSome = true →
    s.RetriedOnly → ∀ req o, call = .send req o → s.state.attemptFails req o.first = false

/-- What the flag `is_reconnect_forbidden` says of a handler that holds its connection. -/
structure Inv (c : ConnId) (isNew : Bool) (s : HandlerSession) : Prop where
  connection : s.state.handler.connection = some c ∨ s.state.handler.connection = none
  fresh : s.state.handler.isNewConnection = isNew
  forbidden : s.state.handler.connection.isSome = true →
    (s.state.handler.isReconnectForbidden = true ↔
      isNew = true ∨ ∃ q ∈ s.history, q.isSent = true ∧ q.reconnects = [])
  settled : Settled c isNew s.history

section Steps

variable {c : ConnId} {isNew : Bool} {s : HandlerSession}

theorem inv_init (c : ConnId) (isNew : Bool) (sender : RequestSender) :
    Inv c isNew (init c isNew sender) where
  connection := Or.inl rfl
  fresh := rfl
  forbidden := fun _ => by simp [init]
  settled := settled_nil

/-- While reconnecting is allowed, what has been sent has been sent at the second attempt. -/
theorem Inv.retriedOnly (h : s.Inv c isNew) (hc : s.state.handler.connection.isSome = true)
    (hallowed : s.state.handler.isReconnectForbidden = false)
    (hsent : ∃ q ∈ s.history, q.isSent = true) : isNew = false ∧ s.RetriedOnly := by
  have hnot : ¬ (isNew = true ∨ ∃ q ∈ s.history, q.isSent = true ∧ q.reconnects = []) := by
    rw [← h.forbidden hc, hallowed]
    exact Bool.false_ne_true
  obtain ⟨hnew, hnone⟩ := not_or.mp hnot
  exact ⟨by simpa using hnew, hsent, fun q hq hqsent hrec => hnone ⟨q, hq, hqsent, hrec⟩⟩

/-- A call that loses the connection. -/
theorem Inv.lost (h : s.Inv c isNew) {call : HandlerCall}
    (hlost : (s.next call).state.handler.connection = none)
    (hnew : (s.next call).state.handler.isNewConnection = s.state.handler.isNewConnection)
    (honce : (s.record call).reconnects.length ≤ 1)
    (hfinal : (∃ q ∈ s.history, q.isSent = true) → (s.record call).Final c isNew) :
    (s.next call).Inv c isNew where
  connection := Or.inr hlost
  fresh := hnew.trans h.fresh
  forbidden := fun hc => by
    rw [hlost] at hc
    cases hc
  settled := settled_concat.mpr ⟨h.settled, honce, hfinal⟩

/-- A call that neither sends nor reconnects. -/
theorem Inv.quiet (h : s.Inv c isNew) {call : HandlerCall}
    (hrecord : (s.record call).reconnects = [] ∧ (s.record call).isSent = false ∧
      ¬ (s.record call).HasFailed)
    (hhandler : (s.next call).state.handler = s.state.handler ∨
      (s.next call).state.handler = { s.state.handler with connection := none }) :
    (s.next call).Inv c isNew := by
  obtain ⟨hrec, hsent, hfailed⟩ := hrecord
  have hsettled : Settled c isNew (s.next call).history :=
    settled_concat.mpr ⟨h.settled, by simp [hrec], fun _ => ⟨hrec, fun hf => absurd hf hfailed⟩⟩
  obtain hsame | hgone := hhandler
  · refine ⟨hsame ▸ h.connection, hsame ▸ h.fresh, fun hc => ?_, hsettled⟩
    rw [hsame] at hc ⊢
    rw [h.forbidden hc]
    simp [HandlerSession.next, hsent]
  · exact h.lost (by rw [hgone]) (by rw [hgone]) (by simp [hrec])
      fun _ => ⟨hrec, fun hf => absurd hf hfailed⟩

/-- A call other than `send`, or on a handler without a connection. -/
theorem Inv.next_of_quiet (h : s.Inv c isNew) {call : HandlerCall}
    (hquiet : s.state.handler.connection = none ∨ ∀ req o, call ≠ .send req o) :
    (s.next call).Inv c isNew := by
  obtain hnone | hsend := hquiet
  · have hrefused := HandlerState.perform_none hnone call
    refine h.quiet ⟨?_, ?_, ?_⟩ (Or.inl ?_)
    · simp [CallRecord.reconnects, record, hrefused]
    · cases call <;> simp [CallRecord.isSent, record, hrefused, HandlerCall.refusal]
    · rintro ⟨req, o, e, rfl, hresult, he⟩
      simp only [record, hrefused, HandlerCall.refusal, Except.error.injEq] at hresult
      exact he hresult.symm
    · simp [HandlerSession.next, hrefused]
  · obtain ⟨hrec, hhandler⟩ := HandlerState.perform_of_not_send (s := s.state) hsend
    refine h.quiet ⟨hrec, ?_, ?_⟩ hhandler
    · cases call with
      | send req o => exact absurd rfl (hsend req o)
      | receive | release | close | del => rfl
    · rintro ⟨req, o, -, hcall, -⟩
      exact hsend req o hcall

/-- What a `send` on a held connection leaves in the history. -/
theorem record_send (hc : s.state.handler.connection = some c) (req : RPCRequest)
    (o : SendOutcomes) :
    ∃ result t, HandlerState.Sends { s.state with events := [] } c req o (result, t) ∧
      (s.next (.send req o)).state = t ∧
      s.record (.send req o) = ⟨.send req o, result.map fun _ => (), t.events⟩ :=
  ⟨_, _, HandlerState.send_sends { s.state with events := [] } hc req o, rfl, rfl⟩

/-- A `send` that meets the guard, on a handler with a connection. -/
theorem Inv.next_of_send (h : s.Inv c isNew) (hc : s.state.handler.connection = some c)
    {req : RPCRequest} {o : SendOutcomes} (hguard : s.FirstAttemptHolds (.send req o)) :
    (s.next (.send req o)).Inv c isNew := by
  have hsome : s.state.handler.connection.isSome = true := by rw [hc]; rfl
  -- a first attempt that fails where reconnecting is allowed comes before all requests sent
  have hnone (hfail : s.state.attemptFails req o.first = true)
      (hallowed : s.state.handler.isReconnectForbidden = false) :
      ¬ ∃ q ∈ s.history, q.isSent = true := by
    intro hsent
    obtain ⟨hnew, hretried⟩ := h.retriedOnly hsome hallowed hsent
    rw [hguard (h.fresh.trans hnew) hsome hretried req o rfl] at hfail
    cases hfail
  obtain ⟨result, t, hsends, hstate, hrecord⟩ := record_send hc req o
  have hhistory : (s.next (.send req o)).history = s.history ++ [s.record (.send req o)] := rfl
  cases hsends with
  | atOnce =>
      have hrec : (s.record (.send req o)).reconnects = [] := by
        rw [hrecord]
        rfl
      have hsent : (s.record (.send req o)).isSent = true := by
        rw [hrecord]
        rfl
      refine ⟨by rw [hstate]; exact Or.inl hc, by rw [hstate]; exact h.fresh, fun _ => ?_, ?_⟩
      · rw [hstate, hhistory]
        exact iff_of_true rfl (Or.inr ⟨_, List.mem_concat_self, hsent, hrec⟩)
      · rw [hhistory, settled_concat]
        refine ⟨h.settled, by simp [hrec], fun _ => ⟨hrec, ?_⟩⟩
        rintro ⟨_, _, e, -, herror, -⟩
        rw [hrecord] at herror
        cases herror
  | forbidden hfail hforbidden =>
      have hrec : (s.record (.send req o)).reconnects = [] := by
        simp [hrecord, CallRecord.reconnects, HandlerEvent.isReconnect]
      refine h.lost (by rw [hstate]) (by rw [hstate]) (by simp [hrec])
        fun _ => ⟨hrec, fun _ => ?_⟩
      rw [hrecord]
      exact ⟨rfl, by simp [← h.fresh]⟩
  | notReconnected hfail hallowed _ =>
      have hrec : (s.record (.send req o)).reconnects = [.reconnect false] := by
        simp [hrecord, CallRecord.reconnects, HandlerEvent.isReconnect, List.filter_cons]
      exact h.lost (by rw [hstate]) (by rw [hstate]) (by simp [hrec])
        fun hsent => absurd hsent (hnone hfail hallowed)
  | again hfail hallowed _ _ _ _ =>
      have hrec : (s.record (.send req o)).reconnects = [.reconnect true] := by
        simp [hrecord, CallRecord.reconnects, HandlerEvent.isReconnect, List.filter_cons]
      refine ⟨by rw [hstate]; exact Or.inl hc, by rw [hstate]; exact h.fresh, fun _ => ?_, ?_⟩
      · rw [hstate, hhistory]
        show s.state.handler.isReconnectForbidden = true ↔ _
        rw [h.forbidden hsome]
        simp [hrec]
      · rw [hhistory, settled_concat]
        exact ⟨h.settled, by simp [hrec], fun hsent => absurd hsent (hnone hfail hallowed)⟩
  | failedAgain hfail hallowed _ _ =>
      have hrec : (s.record (.send req o)).reconnects = [.reconnect true] := by
        simp [hrecord, CallRecord.reconnects, HandlerEvent.isReconnect, List.filter_cons]
      exact h.lost (by rw [hstate]) (by rw [hstate]) (by simp [hrec])
        fun hsent => absurd hsent (hnone hfail hallowed)

/-- A call that meets the guard. -/
theorem Inv.next (h : s.Inv c isNew) {call : HandlerCall} (hguard : s.FirstAttemptHolds call) :
    (s.next call).Inv c isNew := by
  by_cases hquiet : s.state.handler.connection = none ∨ ∀ req o, call ≠ .send req o
  · exact h.next_of_quiet hquiet
  · obtain ⟨hheld, hsend⟩ := not_or.mp hquiet
    have hc : s.state.handler.connection = some c := h.connection.resolve_right hheld
    obtain ⟨req, o, rfl⟩ : ∃ req o, call = .send req o := by simpa using hsend
    exact h.next_of_send hc hguard

/-- A first attempt that fails after requests that only their second attempt has sent leads to
another reconnect. -/
theorem Inv.unsettled (h : s.Inv c isNew) {call : HandlerCall}
    (hguard : ¬ s.FirstAttemptHolds call) : ¬ Settled c isNew (s.next call).history := by
  unfold FirstAttemptHolds at hguard
  push Not at hguard
  obtain ⟨hnew, hsome, ⟨hsent, hretried⟩, req, o, rfl, hfail⟩ := hguard
  have hc : s.state.handler.connection = some c := by
    refine h.connection.resolve_right fun hnone => ?_
    rw [hnone] at hsome
    cases hsome
  have hallowed : s.state.handler.isReconnectForbidden = false := by
    rw [Bool.eq_false_iff, Ne, h.forbidden hsome, not_or]
    exact ⟨by simp [← h.fresh, hnew], fun ⟨q, hq, hqsent, hrec⟩ => hretried q hq hqsent hrec⟩
  have hhistory : (s.next (.send req o)).history = s.history ++ [s.record (.send req o)] := rfl
  rw [hhistory, settled_concat]
  rintro ⟨-, -, hfinal⟩
  have hrec := (hfinal hsent).1
  obtain ⟨result, t, hsends, -, hrecord⟩ := record_send hc req o
  rw [CallRecord.reconnects, hrecord] at hrec
  cases hsends with
  | atOnce hok _ _ => exact hfail hok
  | forbidden _ hforbidden =>
      rw [hallowed] at hforbidden
      cases hforbidden
  | notReconnected | again | failedAgain => simp [HandlerEvent.isReconnect, List.filter_cons] at hrec

end Steps

/-- **No reconnect after a successful send**, in exactly the sequences of calls in which no first
attempt fails after requests that only their second attempt has sent. -/
theorem settled_iff (c : ConnId) (isNew : Bool) (sender : RequestSender)
    (calls : List HandlerCall) :
    Always step (fun s => Settled c isNew s.history) (init c isNew sender) calls ↔
      Guarded step FirstAttemptHolds (init c isNew sender) calls :=
  always_iff_guarded (I := Inv c isNew) step (fun _ h => h.settled)
    (fun _ _ _ h hguard hs => by cases hs; exact h.next hguard)
    (fun _ _ _ h hguard hs => by cases hs; exact h.unsettled hguard) calls (inv_init c isNew sender)

/-- The second attempt of the first `send` succeeds, and so does that of the next one: the
connection is established anew between two requests. -/
theorem not_settled :
    ¬ Always step (fun s => Settled 0 false s.history)
      (init 0 false (RequestSender.new "localhost" ""))
      [.send HandlerState.blockNumber ⟨.write (.failed 0 .connection), true, .write .accepted⟩,
        .send HandlerState.blockNumber
          ⟨.write (.failed 0 .connection), true, .write .accepted⟩] := by
  intro h
  have hlast := h.last step rfl
  have hrec := (hlast.final [_] _ [] rfl ⟨_, List.mem_singleton.mpr rfl, rfl⟩).1
  revert hrec
  decide

end HandlerSession

end Web3Proxy
