import Web3Proxy.EndpointConnectionHandler.Spec

/-!
# Web3Proxy.EndpointConnectionHandler.Returning

How a handler gives its connection back.

* `HandlerSession.givenBackOnce` — whatever calls a handler sees before its destructor, one of
  them gives the connection back, and the calls after it do nothing.
-/

namespace Web3Proxy

/-- The connections that the call gives back to the pool. -/
def CallRecord.givenBack (r : CallRecord) : List ConnId :=
  r.events.filterMap HandlerEvent.givesBack

/-- One call gives the connection `c` back, none before it does, and the calls after it are
refused: `send` and `receive` raise, `release` and `close` return, and nothing is done. -/
def GivenBackOnce (c : ConnId) (history : List CallRecord) : Prop :=
  ∃ pre r post, history = pre ++ r :: post ∧
    (∀ q ∈ pre, q.givenBack = []) ∧ r.givenBack = [c] ∧
    ∀ q ∈ post, q.result = q.call.refusal ∧ q.events = []

namespace HandlerSession

/-- The connection is held and has not been given back, or the opposite. -/
def Accounted (c : ConnId) (s : HandlerSession) : Prop :=
  (s.state.handler.connection = some c ∧ ∀ q ∈ s.history, q.givenBack = []) ∨
    (s.state.handler.connection = none ∧ GivenBackOnce c s.history)

variable {c : ConnId} {s : HandlerSession}

/-- A call gives back what is held, at most. -/
theorem Accounted.next (h : s.Accounted c) (call : HandlerCall) : (s.next call).Accounted c := by
  obtain ⟨hheld, hhistory⟩ | ⟨hnone, pre, r, post, hhistory, hpre, hr, hpost⟩ := h
  · obtain ⟨hstill, hback⟩ | ⟨hgone, hback⟩ := HandlerState.perform_some hheld call
    · refine Or.inl ⟨hstill, fun q hq => ?_⟩
      obtain hq | hq := List.mem_append.mp hq
      · exact hhistory q hq
      · rw [List.mem_singleton.mp hq]
        exact hback
    · exact Or.inr ⟨hgone, s.history, s.record call, [], rfl, hhistory, hback,
        fun q hq => absurd hq List.not_mem_nil⟩
  · have hrefused := HandlerState.perform_none hnone call
    refine Or.inr ⟨?_, pre, r, post ++ [s.record call], ?_, hpre, hr, fun q hq => ?_⟩
    · simp only [HandlerSession.next, hrefused]
      exact hnone
    · simp [HandlerSession.next, hhistory]
    · obtain hq | hq := List.mem_append.mp hq
      · exact hpost q hq
      · rw [List.mem_singleton.mp hq]
        simp [HandlerSession.record, hrefused]

theorem Accounted.calls (h : s.Accounted c) (calls : List HandlerCall) :
    (calls.foldl HandlerSession.next s).Accounted c := by
  induction calls generalizing s with
  | nil => exact h
  | cons call calls ih => exact ih (h.next call)

/-- The destructor leaves no connection with the handler. -/
theorem next_del_connection (s : HandlerSession) :
    (s.next .del).state.handler.connection = none := by
  simp only [HandlerSession.next, HandlerState.perform, HandlerState.del, HandlerState.release]
  split
  · next hnone => exact hnone
  · rfl

/-- **A handler gives its connection back exactly once**, whatever it is used for. -/
theorem givenBackOnce (c : ConnId) (isNew : Bool) (sender : RequestSender)
    (calls : List HandlerCall) :
    GivenBackOnce c ((calls.foldl HandlerSession.next (init c isNew sender)).next .del).history := by
  have hinit : (init c isNew sender).Accounted c :=
    Or.inl ⟨rfl, fun q hq => absurd hq List.not_mem_nil⟩
  obtain ⟨hheld, -⟩ | ⟨-, honce⟩ := (hinit.calls calls).next .del
  · rw [next_del_connection] at hheld
    cases hheld
  · exact honce

end HandlerSession

end Web3Proxy
