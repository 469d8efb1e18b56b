import Web3Proxy.EndpointConnectionHandler

/-!
# Web3Proxy.EndpointConnectionHandler.Spec

What a call of a handler can do: `Sends` has one constructor for each way in which `send` ends
while the connection is held, `Performs` one for each way in which any call ends.
-/

namespace Web3Proxy

open Py Bytes

/-! ## send -/

/-- The write ends in a `BrokenPipeError`. -/
def SendOutcome.isBrokenPipe : SendOutcome → Bool
  | .write (.failed _ .brokenPipe) => true
  | _ => false

/-- A `send_request` with this outcome raises, if there is a request to send. -/
def SendOutcome.raises : SendOutcome → Bool
  | .notReady _ => true
  | .write .accepted => false
  | .write (.failed _ e) => e != .brokenPipe

/-- A write that does not raise has been accepted, or has met a `BrokenPipeError`. -/
theorem SendOutcome.accepted_or_brokenPipe {w : WriteOutcome}
    (h : (SendOutcome.write w).raises = false) :
    w = .accepted ∨ (SendOutcome.write w).isBrokenPipe = true := by
  cases w with
  | accepted => exact Or.inl rfl
  | failed n e =>
      cases e with
      | brokenPipe => exact Or.inr rfl
      | connection => cases h
      | other => cases h

theorem SendOutcome.raises_of_isBrokenPipe {o : SendOutcome} (h : o.isBrokenPipe = true) :
    o.raises = false := by
  cases o with
  | notReady e => cases h
  | write w =>
      cases w with
      | accepted => cases h
      | failed n e => cases e <;> first | rfl | cases h

/-- The event is a reconnect. -/
def HandlerEvent.isReconnect : HandlerEvent → Bool
  | .reconnect _ => true
  | _ => false

namespace HandlerState

variable (s : HandlerState)

/-- The attempt to send the request raises. -/
def attemptFails (req : RPCRequest) (o : SendOutcome) : Bool :=
  match s.handler.sender.request req with
  | .raise _ _ => true
  | .ok _ _ => o.raises

/-- What an attempt to send leaves in the log. -/
def attempt (req : RPCRequest) (o : SendOutcome) : List HandlerEvent :=
  match s.handler.sender.request req, o with
  | .ok bytes _, .write w => [.write s.socket bytes w]
  | _, _ => []

@[simp] theorem log_handler (e : HandlerEvent) : (s.log e).handler = s.handler := rfl

@[simp] theorem log_events (e : HandlerEvent) : (s.log e).events = s.events ++ [e] := rfl

/-- An attempt to send leaves the rest of the handler as it is. -/
theorem sendRequest_cases (req : RPCRequest) (o : SendOutcome) :
    (s.attemptFails req o = true ∧
      s.sendRequest req o = (none, { s with events := s.events ++ s.attempt req o })) ∨
    ∃ bytes req' w, s.attemptFails req o = false ∧
      s.handler.sender.request req = .ok bytes req' ∧ o = .write w ∧
      s.sendRequest req o =
        (some bytes, { s with events := s.events ++ [.write s.socket bytes w] }) := by
  unfold attemptFails attempt sendRequest
  cases hreq : s.handler.sender.request req with
  | raise e req' => exact Or.inl ⟨rfl, by simp⟩
  | ok bytes req' =>
      cases o with
      | notReady e => exact Or.inl ⟨rfl, by simp⟩
      | write w =>
          cases w with
          | accepted => exact Or.inr ⟨bytes, req', .accepted, rfl, rfl, rfl, rfl⟩
          | failed n e =>
              cases e with
              | brokenPipe => exact Or.inr ⟨bytes, req', .failed n .brokenPipe, rfl, rfl, rfl, rfl⟩
              | connection => exact Or.inl ⟨rfl, rfl⟩
              | other => exact Or.inl ⟨rfl, rfl⟩

/-- The ways in which `send` ends while the handler holds the connection `c`. -/
inductive Sends (c : ConnId) (req : RPCRequest) (o : SendOutcomes) :
    Except HandlerError Bytes × HandlerState → Prop
  | atOnce {bytes : Bytes} {req' : RPCRequest} {w : WriteOutcome}
      (hok : s.attemptFails req o.first = false)
      (hreq : s.handler.sender.request req = .ok bytes req') (hw : o.first = .write w) :
      Sends c req o (.ok bytes,
        { s with
          handler := { s.handler with isReconnectForbidden := true }
          events := s.events ++ [.write s.socket bytes w] })
  | forbidden (hfail : s.attemptFails req o.first = true)
      (hforbidden : s.handler.isReconnectForbidden = true) :
      Sends c req o (.error .brokenFreshConnection,
        { s with
          handler := { s.handler with connection := none }
          events := s.events ++ s.attempt req o.first ++
            [.handleBrokenConnection c s.handler.isNewConnection] })
  | notReconnected (hfail : s.attemptFails req o.first = true)
      (hallowed : s.handler.isReconnectForbidden = false) (hrec : o.reconnects = false) :
      Sends c req o (.error .reconnect,
        { s with
          handler := { s.handler with connection := none }
          events := s.events ++ s.attempt req o.first ++
            [.reconnect false, .handleBrokenConnection c s.handler.isNewConnection] })
  | again {bytes : Bytes} {req' : RPCRequest} {w : WriteOutcome}
      (hfail : s.attemptFails req o.first = true)
      (hallowed : s.handler.isReconnectForbidden = false) (hrec : o.reconnects = true)
      (hok : s.attemptFails req o.again = false)
      (hreq : s.handler.sender.request req = .ok bytes req') (hw : o.again = .write w) :
      Sends c req o (.ok bytes,
        { s with
          socket := s.socket + 1
          events := s.events ++ s.attempt req o.first ++
            [.reconnect true, .write (s.socket + 1) bytes w] })
  | failedAgain (hfail : s.attemptFails req o.first = true)
      (hallowed : s.handler.isReconnectForbidden = false) (hrec : o.reconnects = true)
      (hagain : s.attemptFails req o.again = true) :
      Sends c req o (.error .brokenConnection,
        { s with
          handler := { s.handler with connection := none }
          socket := s.socket + 1
          events := s.events ++ s.attempt req o.first ++ [.reconnect true] ++
            { s with socket := s.socket + 1 }.attempt req o.again ++
            [.handleBrokenConnection c s.handler.isNewConnection] })

/-- **Inversion of send.** -/
theorem send_sends {c : ConnId} (hc : s.handler.connection = some c) (req : RPCRequest)
    (o : SendOutcomes) : s.Sends c req o (s.send req o) := by
  unfold send
  simp only [hc]
  obtain ⟨hfail, hfirst⟩ | ⟨bytes, req', w, hok, hreq, hw, hfirst⟩ := s.sendRequest_cases req o.first
  · simp only [hfirst]
    unfold sendFailed
    cases hforbidden : s.handler.isReconnectForbidden with
    | true => exact .forbidden hfail hforbidden
    | false =>
        cases hrec : o.reconnects with
        | false =>
            have h := Sends.notReconnected (c := c) hfail hforbidden hrec
            simpa [handleBrokenConnection, disconnect, reconnect, log] using h
        | true =>
            let t : HandlerState :=
              ({ s with events := s.events ++ s.attempt req o.first } : HandlerState).reconnect true
            obtain ⟨hagain, hsecond⟩ | ⟨bytes, req', w, hok, hreq, hw, hsecond⟩ :=
              t.sendRequest_cases req o.again
            · simp only [t] at hsecond
              simp only [hsecond]
              exact .failedAgain hfail hforbidden hrec hagain
            · simp only [t] at hsecond
              simp only [hsecond]
              have h := Sends.again (c := c) hfail hforbidden hrec hok hreq hw
              simpa [reconnect, log] using h
  · simp only [hfirst]
    exact .atOnce hok hreq hw

end HandlerState

/-! ## any call -/

/-- What a call comes to once the connection has been given back. -/
def HandlerCall.refusal : HandlerCall → Except HandlerError Unit
  | .send _ _ | .receive _ => .error .connectionReleased
  | .release | .close _ | .del => .ok ()

namespace HandlerState

variable {s : HandlerState}

/-- Without a connection a call does nothing. -/
theorem perform_none (hnone : s.handler.connection = none) (call : HandlerCall) :
    s.perform call = (call.refusal, { s with events := [] }) := by
  cases call with
  | send req o => simp [perform, send, hnone, HandlerCall.refusal, Except.map]
  | receive o => simp [perform, receive, hnone, HandlerCall.refusal]
  | release => simp [perform, release, hnone, HandlerCall.refusal]
  | close raises => simp [perform, close, hnone, HandlerCall.refusal]
  | del => simp [perform, del, release, hnone, HandlerCall.refusal]

@[simp] theorem attempt_givesBack (req : RPCRequest) (o : SendOutcome) :
    (s.attempt req o).filterMap HandlerEvent.givesBack = [] := by
  unfold attempt
  split <;> rfl

@[simp] theorem attempt_isReconnect (req : RPCRequest) (o : SendOutcome) :
    (s.attempt req o).filter HandlerEvent.isReconnect = [] := by
  unfold attempt
  split <;> rfl

/-- A call keeps the connection or gives it back, and does so once. -/
theorem perform_some {c : ConnId} (hc : s.handler.connection = some c) (call : HandlerCall) :
    ((s.perform call).2.handler.connection = some c ∧
      (s.perform call).2.events.filterMap HandlerEvent.givesBack = []) ∨
    ((s.perform call).2.handler.connection = none ∧
      (s.perform call).2.events.filterMap HandlerEvent.givesBack = [c]) := by
  cases call with
  | send req o =>
      have h := send_sends { s with events := [] } hc req o
      show ((send { s with events := [] } req o).2.handler.connection = some c ∧ _) ∨
        ((send { s with events := [] } req o).2.handler.connection = none ∧ _)
      simp only [perform]
      rcases hsend : send { s with events := [] } req o with ⟨result, t⟩
      rw [hsend] at h
      cases h with
      | atOnce | again => exact Or.inl ⟨hc, by simp [HandlerEvent.givesBack]⟩
      | forbidden | notReconnected | failedAgain =>
          exact Or.inr ⟨rfl, by simp [List.filterMap_cons, HandlerEvent.givesBack]⟩
  | receive o => simp [perform, receive, hc, HandlerEvent.givesBack]
  | close raises => simp [perform, close, hc, HandlerEvent.givesBack]
  | release => simp [perform, release, hc, disconnect, HandlerEvent.givesBack]
  | del => simp [perform, del, release, hc, disconnect, HandlerEvent.givesBack]

/-- A call other than `send` may release the connection, and neither reconnects nor changes the
rest of the handler. -/
theorem perform_of_not_send {call : HandlerCall} (hsend : ∀ req o, call ≠ .send req o) :
    (s.perform call).2.events.filter HandlerEvent.isReconnect = [] ∧
      ((s.perform call).2.handler = s.handler ∨
        (s.perform call).2.handler = { s.handler with connection := none }) := by
  cases hc : s.handler.connection with
  | none =>
      rw [perform_none hc]
      exact ⟨rfl, Or.inl rfl⟩
  | some c =>
      cases call with
      | send req o => exact absurd rfl (hsend req o)
      | receive o => simp [perform, receive, hc, HandlerEvent.isReconnect]
      | close raises => simp [perform, close, hc, HandlerEvent.isReconnect]
      | release => simp [perform, release, hc, disconnect, HandlerEvent.isReconnect]
      | del => simp [perform, del, release, hc, disconnect, HandlerEvent.isReconnect]

end HandlerState

end Web3Proxy
