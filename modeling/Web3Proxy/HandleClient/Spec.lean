import Web3Proxy.HandleClient

/-!
# Web3Proxy.HandleClient.Spec

What a call of a run can do: `Move` has one constructor for each way in which a call
ends, and `step_move` says that there are no others.  From it what no call does: once
the request has been read, only a send to the endpoint changes it or writes
(`Move.frame`).
-/

namespace Web3Proxy

open Py Bytes

/-! ## the bytes of a request -/

/-- What goes before the content when a request is sent. -/
def RequestSender.head (sender : RequestSender) (req : RPCRequest) (headers : Bytes) : Bytes :=
  req.requestLine RequestSender.postRequestLine1 sender.urlContext RequestSender.postRequestLine2 ++
    headers ++ sender.hostHeaderLast

namespace RequestSender

variable {sender : RequestSender} {req req' : RPCRequest} {bytes : Bytes}

/-- A request that is sent has header fields and a content; the content goes last. -/
theorem request_ok (h : sender.request req = .ok bytes req') :
    ∃ headers content, req.headers = some headers ∧ req.content = some content ∧
      bytes = sender.head req headers ++ content ∧
      req' = { req with lastQueriedBytes := some bytes } := by
  unfold request RPCRequest.asBytearray at h
  split at h
  · next headers content hheaders hcontent =>
    simp only [Result.ok.injEq] at h
    obtain ⟨hbytes, hreq⟩ := h
    subst hbytes
    exact ⟨headers, content, hheaders, hcontent, rfl, hreq.symm⟩
  · cases h

theorem request_raise {e : PyError} (h : sender.request req = .raise e req') : req' = req := by
  unfold request RPCRequest.asBytearray at h
  split at h
  · cases h
  · cases h
    rfl

end RequestSender

/-- The run has a request for an endpoint, and may have to send it still. -/
@[grind =] def Pc.isSending : Pc → Bool
  | .getIdle | .connect | .busyAdd _ _ | .sendRequest | .reconnect | .sendAgain => true
  | _ => false

/-- The calls of `send_request`. -/
@[grind =] def Pc.isSend : Pc → Bool
  | .sendRequest | .sendAgain => true
  | _ => false

theorem Pc.isSending_of_isSend {pc : Pc} (h : pc.isSend) : pc.isSending := by
  cases pc <;> simp_all [isSend, isSending]

/-- The calls whose exception goes straight to the outer `except`. -/
@[grind =] def Pc.isGuarded : Pc → Bool
  | .manage _ _ | .modify _ | .busyRemove | .recordRequest | .closeConnection
  | .release false => true
  | _ => false

/-! ## the parts of a step -/

namespace Run

attribute [grind =] except connectionError receiveFailed receiveRaised afterPiece disconnect
  sendFailed sent afterRead
attribute [grind] After.pc

variable {r r' : Run} {env : ProxyEnv} {a : Answer}

theorem simply_cases {next onError : Run} (h : simply next onError a = some r') :
    a = .ok ∧ r' = next ∨ ∃ e, a = .raise e ∧ r' = onError := by
  unfold simply at h
  split at h
  · cases h
    exact Or.inl ⟨rfl, rfl⟩
  · next e =>
    cases h
    exact Or.inr ⟨e, rfl, rfl⟩
  · cases h

theorem silently_cases {next : Run} (h : silently next a = some r') : a = .ok ∧ r' = next := by
  unfold silently at h
  split at h
  · cases h
    exact ⟨rfl, rfl⟩
  · cases h

theorem sendClient_cases {raw : Bytes} {next : Run → Run} {onError : SocketError → Run → Run}
    (h : r.sendClient raw next onError a = some r') :
    a = .ok ∧ r' = next { r with toClient := r.toClient ++ raw } ∨
      ∃ n e, a = .cut n e ∧
        r' = (if e = .brokenPipe then next { r with toClient := r.toClient ++ raw.take n }
          else onError e { r with toClient := r.toClient ++ raw.take n }) := by
  unfold sendClient at h
  split at h
  · cases h
    exact Or.inl ⟨rfl, rfl⟩
  · next n e =>
    cases h
    exact Or.inr ⟨n, e, rfl, rfl⟩
  · cases h

/-- A send to the endpoint: the request cannot be written down, nothing is sent, or
its bytes are. -/
theorem send_cases {onError : Run → Run} (h : r.send onError a = some r') :
    ∃ handler, r.handler = some handler ∧
      (a = .ok ∧ r' = onError r ∨
        ∃ bytes req, handler.sender.request r.req = .ok bytes req ∧
          ((∃ e, a = .raise e ∧ r' = onError { r with req }) ∨
            ((a = .ok ∨ ∃ n, a = .cut n .brokenPipe) ∧
              r' = sent { r with req, written := r.written ++ [bytes] }) ∨
            ∃ n e, a = .cut n e ∧ e ≠ .brokenPipe ∧
              r' = onError { r with req, written := r.written ++ [bytes] })) := by
  unfold send at h
  split at h
  · cases h
  · next handler hhandler =>
    refine ⟨handler, hhandler, ?_⟩
    split at h
    · next e req hreq =>
      obtain ⟨ha, hr⟩ := silently_cases h
      rw [RequestSender.request_raise hreq] at hr
      exact Or.inl ⟨ha, hr⟩
    · next bytes req hreq =>
      refine Or.inr ⟨bytes, req, hreq, ?_⟩
      cases a with
      | ok =>
          cases h
          exact Or.inr (Or.inl ⟨Or.inl rfl, rfl⟩)
      | raise e =>
          cases h
          exact Or.inl ⟨e, rfl, rfl⟩
      | cut n e =>
          by_cases he : e = .brokenPipe
          · subst he
            cases h
            exact Or.inr (Or.inl ⟨Or.inr ⟨n, rfl⟩, rfl⟩)
          · simp only [he, if_false, Option.some.injEq] at h
            exact Or.inr (Or.inr ⟨n, e, rfl, he, h.symm⟩)
      | _ => cases h

theorem recv_cases (h : r.recv env a = some r') :
    (a = .notReady ∨ a = .data []) ∧ r' = r.receiveFailed env ∨
      (∃ e, a = .raise e ∧ r' = receiveRaised env e r) ∨
      ∃ bytes, a = .data bytes ∧ bytes ≠ [] ∧
        (env.parse (r.received ++ bytes) = .error ∧
            r' = except { r with received := r.received ++ bytes } ∨
          ∃ complete, env.parse (r.received ++ bytes) = (if complete then .complete else .incomplete) ∧
            r' = { r with received := r.received ++ bytes, pc := .respond bytes complete }) := by
  unfold recv at h
  cases a with
  | data bytes =>
      by_cases hne : bytes = []
      · simp_all
      · simp only [hne, if_false] at h
        refine Or.inr (Or.inr ⟨bytes, rfl, hne, ?_⟩)
        cases hparse : env.parse (r.received ++ bytes) with
        | error =>
            simp only [hparse, Option.some.injEq] at h
            exact Or.inl ⟨rfl, h.symm⟩
        | incomplete =>
            simp only [hparse, Option.some.injEq] at h
            exact Or.inr ⟨false, rfl, h.symm⟩
        | complete =>
            simp only [hparse, Option.some.injEq] at h
            exact Or.inr ⟨true, rfl, h.symm⟩
  | notReady => simp_all
  | raise e => simp_all
  | _ => simp at h

/-- What `response_handler` sends to the client. -/
def answerBytes (r : Run) (data : Bytes) : Bytes :=
  if r.addCors then insertCors (r.req.corsOrigin.getD []) data else data

theorem respond_cases {data : Bytes} {complete : Bool} (h : r.respond env data complete a = some r') :
    r.client = .closed ∧ a = .ok ∧ r' = r.afterPiece complete ∨
      r.client ≠ .closed ∧
        (a = .ok ∧ r' = { r with
            addCors := false, toClient := r.toClient ++ r.answerBytes data,
            pc := .recordResponse complete } ∨
          ∃ n e, a = .cut n e ∧
            r' = (fun r : Run => if e = .brokenPipe then { r with pc := .recordResponse complete }
                else receiveRaised env e r)
              { r with addCors := false, toClient := r.toClient ++ (r.answerBytes data).take n }) := by
  unfold respond at h
  by_cases hclosed : r.client = .closed
  · rw [if_pos hclosed] at h
    exact Or.inl ⟨hclosed, silently_cases h⟩
  · simp only [hclosed, if_false] at h
    refine Or.inr ⟨hclosed, ?_⟩
    obtain ⟨ha, hr⟩ | ⟨n, e, ha, hr⟩ := sendClient_cases h
    · exact Or.inl ⟨ha, hr⟩
    · exact Or.inr ⟨n, e, ha, hr⟩

/-- `release` either has nothing to release, or gives the connection back, or fails. -/
theorem release_cases {next onError : Run → Run} (h : r.release next onError a = some r') :
    r.handler.bind EndpointConnectionHandler.connection = none ∧ a = .ok ∧ r' = next r ∨
      ∃ c, r.handler.bind EndpointConnectionHandler.connection = some c ∧
        (a = .ok ∧ r' = next r.disconnect ∨ ∃ e, a = .raise e ∧ r' = onError r) := by
  unfold release at h
  split at h
  · next hnone => exact Or.inl ⟨hnone, silently_cases h⟩
  · next c hc => exact Or.inr ⟨c, hc, simply_cases h⟩

/-! ## the moves -/

/-- The handling of an exception of `send_request`. -/
@[grind =] def sendRaised (r : Run) : Run :=
  if r.pc = .sendRequest then r.sendFailed else { r with pc := .busyRemove }

/-- The handler that `get_connection` returns. -/
def acquired (env : ProxyEnv) (c : ConnId) (isNew : Bool) : EndpointConnectionHandler where
  connection := some c
  isNewConnection := isNew
  isReconnectForbidden := isNew
  sender := env.sender c

/-- The ways in which the call that a run stands at can end. -/
inductive Move (env : ProxyEnv) (r : Run) : Answer → Run → Prop where
  | read (outcome : ReadOutcome) (hpc : r.pc = .readRequest) :
      Move env r (.read outcome) (r.afterRead outcome)
  | reply {raw keepAlive next} (hpc : r.pc = .reply raw keepAlive next) :
      Move env r .ok { r with toClient := r.toClient ++ raw, pc := .manage keepAlive next }
  | replyCut {raw keepAlive next} (n : Nat) (hpc : r.pc = .reply raw keepAlive next) :
      Move env r (.cut n .brokenPipe)
        { r with toClient := r.toClient ++ raw.take n, pc := .manage keepAlive next }
  | replyFailed {raw keepAlive next} (n : Nat) {e : SocketError} (he : e ≠ .brokenPipe)
      (hpc : r.pc = .reply raw keepAlive next) :
      Move env r (.cut n e) { r with toClient := r.toClient ++ raw.take n, pc := .closeClient }
  | keep {next} (hpc : r.pc = .manage true next) :
      Move env r .ok { r with client := .pending, pc := .modify next }
  | drop {next} (hpc : r.pc = .manage false next) :
      Move env r .ok { r with client := .closed, pc := next.pc }
  | modify {next} (hpc : r.pc = .modify next) : Move env r .ok { r with pc := next.pc }
  | idle (c : ConnId) (hpc : r.pc = .getIdle) :
      Move env r (.connection c) { r with pc := .busyAdd c false }
  | noIdle (hpc : r.pc = .getIdle) : Move env r .noIdle { r with pc := .connect }
  | connect (c : ConnId) (hpc : r.pc = .connect) :
      Move env r (.connection c) { r with pc := .busyAdd c true }
  | noConnection (e : SocketError) (hpc : r.pc = .getIdle ∨ r.pc = .connect) :
      Move env r (.raise e) (r.connectionError env .ret)
  | acquire {c isNew} (hpc : r.pc = .busyAdd c isNew) :
      Move env r .ok { r with handler := some (acquired env c isNew), pc := .sendRequest }
  | send {a handler bytes req} (hpc : r.pc.isSend) (hhandler : r.handler = some handler)
      (hreq : handler.sender.request r.req = .ok bytes req)
      (ha : a = .ok ∨ ∃ n, a = .cut n .brokenPipe) :
      Move env r a (sent { r with req, written := r.written ++ [bytes] })
  | sendCut {handler bytes req} (n : Nat) {e : SocketError} (hpc : r.pc.isSend)
      (hhandler : r.handler = some handler)
      (hreq : handler.sender.request r.req = .ok bytes req) (he : e ≠ .brokenPipe) :
      Move env r (.cut n e) (sendRaised { r with req, written := r.written ++ [bytes] })
  | sendRaise {handler bytes req} (e : SocketError) (hpc : r.pc.isSend)
      (hhandler : r.handler = some handler)
      (hreq : handler.sender.request r.req = .ok bytes req) :
      Move env r (.raise e) (sendRaised { r with req })
  | sendNothing {handler} (hpc : r.pc.isSend) (hhandler : r.handler = some handler) :
      Move env r .ok r.sendRaised
  | reconnect (hpc : r.pc = .reconnect) : Move env r .ok { r with pc := .sendAgain }
  | reconnectRaise (e : SocketError) (hpc : r.pc = .reconnect) :
      Move env r (.raise e) { r with pc := .busyRemove }
  | busyRemove (hpc : r.pc = .busyRemove) : Move env r .ok { r with pc := .scheduleBroken }
  | scheduleBroken (hpc : r.pc = .scheduleBroken) :
      Move env r .ok (r.disconnect.connectionError env .close)
  | recvNothing {a : Answer} (hpc : r.pc = .recv) (ha : a = .notReady ∨ a = .data []) :
      Move env r a (r.receiveFailed env)
  | recvRaise (e : SocketError) (hpc : r.pc = .recv) :
      Move env r (.raise e) (receiveRaised env e r)
  | recvError {bytes : Bytes} (hpc : r.pc = .recv) (hne : bytes ≠ [])
      (hparse : env.parse (r.received ++ bytes) = .error) :
      Move env r (.data bytes) (except { r with received := r.received ++ bytes })
  | recvPiece {bytes : Bytes} {complete : Bool} (hpc : r.pc = .recv) (hne : bytes ≠ [])
      (hparse : env.parse (r.received ++ bytes) = if complete then .complete else .incomplete) :
      Move env r (.data bytes)
        { r with received := r.received ++ bytes, pc := .respond bytes complete }
  | respondClosed {data complete} (hpc : r.pc = .respond data complete)
      (hclosed : r.client = .closed) : Move env r .ok (r.afterPiece complete)
  | respond {data complete} (hpc : r.pc = .respond data complete) (hopen : r.client ≠ .closed) :
      Move env r .ok { r with
        addCors := false, toClient := r.toClient ++ r.answerBytes data, pc := .recordResponse complete }
  | respondCut {data complete} (n : Nat) (hpc : r.pc = .respond data complete)
      (hopen : r.client ≠ .closed) :
      Move env r (.cut n .brokenPipe) { r with
        addCors := false
        toClient := r.toClient ++ (r.answerBytes data).take n
        pc := .recordResponse complete }
  | respondFailed {data complete} (n : Nat) {e : SocketError} (he : e ≠ .brokenPipe)
      (hpc : r.pc = .respond data complete) (hopen : r.client ≠ .closed) :
      Move env r (.cut n e) (receiveRaised env e
        { r with addCors := false, toClient := r.toClient ++ (r.answerBytes data).take n })
  | recordResponse {complete} (hpc : r.pc = .recordResponse complete) :
      Move env r .ok (r.afterPiece complete)
  | recordRaise {complete} (e : SocketError) (hpc : r.pc = .recordResponse complete) :
      Move env r (.raise e) (receiveRaised env e r)
  | recordRequest (hpc : r.pc = .recordRequest) :
      Move env r .ok { r with pc := .manage r.req.keepAlive .release }
  | closeConnection (hpc : r.pc = .closeConnection) : Move env r .ok { r with pc := .del }
  | closeClient (hpc : r.pc = .closeClient) :
      Move env r .ok { r with client := .closed, pc := .release true }
  | closeClientRaise (e : SocketError) (hpc : r.pc = .closeClient) :
      Move env r (.raise e) { r with pc := .del }
  | raise (e : SocketError) (hpc : r.pc.isGuarded) : Move env r (.raise e) r.except
  | releaseNothing {inExcept} (hpc : r.pc = .release inExcept)
      (hnone : r.handler.bind EndpointConnectionHandler.connection = none) :
      Move env r .ok { r with pc := .del }
  | release {inExcept} {c : ConnId} (hpc : r.pc = .release inExcept)
      (hc : r.handler.bind EndpointConnectionHandler.connection = some c) :
      Move env r .ok { r.disconnect with pc := .del }
  | releaseRaise {c : ConnId} (e : SocketError) (hpc : r.pc = .release true)
      (hc : r.handler.bind EndpointConnectionHandler.connection = some c) :
      Move env r (.raise e) { r with pc := .del }
  | delNothing (hpc : r.pc = .del)
      (hnone : r.handler.bind EndpointConnectionHandler.connection = none) :
      Move env r .ok { r with pc := .done }
  | del {c : ConnId} (hpc : r.pc = .del)
      (hc : r.handler.bind EndpointConnectionHandler.connection = some c) :
      Move env r .ok { r.disconnect with pc := .done }
  | delRaise {c : ConnId} (e : SocketError) (hpc : r.pc = .del)
      (hc : r.handler.bind EndpointConnectionHandler.connection = some c) :
      Move env r (.raise e) { r with pc := .done }

theorem move_of_send {onError : Run → Run} (hpc : r.pc.isSend)
    (hraised : ∀ r₁ : Run, r₁.pc = r.pc → sendRaised r₁ = onError r₁)
    (h : r.send onError a = some r') : Move env r a r' := by
  obtain ⟨handler, hhandler, ⟨rfl, rfl⟩ | ⟨bytes, req, hreq, ⟨e, rfl, rfl⟩ | ⟨ha, rfl⟩ |
    ⟨n, e, rfl, he, rfl⟩⟩⟩ := send_cases h
  · rw [← hraised r rfl]
    exact .sendNothing hpc hhandler
  · rw [← hraised { r with req } rfl]
    exact .sendRaise e hpc hhandler hreq
  · exact .send hpc hhandler hreq ha
  · rw [← hraised { r with req, written := r.written ++ [bytes] } rfl]
    exact .sendCut n hpc hhandler hreq he

/-- A statement whose exception the outer `except` handles. -/
theorem move_of_simply {next : Run} (hpc : r.pc.isGuarded) (hok : Move env r .ok next)
    (h : simply next r.except a = some r') : Move env r a r' := by
  obtain ⟨rfl, rfl⟩ | ⟨e, rfl, rfl⟩ := simply_cases h
  · exact hok
  · exact .raise e hpc

/-- **The calls of a run end in no other way.** -/
theorem step_move (h : r.step env a = some r') : Move env r a r' := by
  cases hpc : r.pc with
  | readRequest =>
      simp only [step, hpc] at h
      cases a with
      | read outcome =>
          cases h
          exact .read outcome hpc
      | _ => cases h
  | reply raw keepAlive next =>
      simp only [step, hpc] at h
      obtain ⟨rfl, rfl⟩ | ⟨n, e, rfl, rfl⟩ := sendClient_cases h
      · exact .reply hpc
      · by_cases he : e = .brokenPipe
        · subst he
          exact .replyCut n hpc
        · rw [if_neg he]
          exact .replyFailed n he hpc
  | manage keepAlive next =>
      cases keepAlive with
      | true =>
          simp only [step, hpc] at h
          exact move_of_simply (by rw [hpc]; rfl) (.keep hpc) h
      | false =>
          simp only [step, hpc] at h
          exact move_of_simply (by rw [hpc]; rfl) (.drop hpc) h
  | modify next =>
      simp only [step, hpc] at h
      exact move_of_simply (by rw [hpc]; rfl) (.modify hpc) h
  | getIdle =>
      simp only [step, hpc] at h
      cases a with
      | connection c =>
          cases h
          exact .idle c hpc
      | noIdle =>
          cases h
          exact .noIdle hpc
      | raise e =>
          cases h
          exact .noConnection e (Or.inl hpc)
      | _ => cases h
  | connect =>
      simp only [step, hpc] at h
      cases a with
      | connection c =>
          cases h
          exact .connect c hpc
      | raise e =>
          cases h
          exact .noConnection e (Or.inr hpc)
      | _ => cases h
  | busyAdd c isNew =>
      simp only [step, hpc] at h
      cases a with
      | ok =>
          cases h
          exact .acquire hpc
      | _ => cases h
  | sendRequest =>
      simp only [step, hpc] at h
      refine move_of_send (by rw [hpc]; rfl) (fun r₁ hr₁ => ?_) h
      rw [sendRaised, hr₁, if_pos hpc]
  | reconnect =>
      simp only [step, hpc] at h
      obtain ⟨rfl, rfl⟩ | ⟨e, rfl, rfl⟩ := simply_cases h
      · exact .reconnect hpc
      · exact .reconnectRaise e hpc
  | sendAgain =>
      simp only [step, hpc] at h
      refine move_of_send (by rw [hpc]; rfl) (fun r₁ hr₁ => ?_) h
      rw [sendRaised, hr₁, hpc, if_neg (by decide)]
  | busyRemove =>
      simp only [step, hpc] at h
      exact move_of_simply (by rw [hpc]; rfl) (.busyRemove hpc) h
  | scheduleBroken =>
      simp only [step, hpc] at h
      cases a with
      | ok =>
          cases h
          exact .scheduleBroken hpc
      | _ => cases h
  | recv =>
      simp only [step, hpc] at h
      obtain ⟨ha, rfl⟩ | ⟨e, rfl, rfl⟩ | ⟨bytes, rfl, hne, ⟨hparse, rfl⟩ | ⟨complete, hparse, rfl⟩⟩ :=
        recv_cases h
      · exact .recvNothing hpc ha
      · exact .recvRaise e hpc
      · exact .recvError hpc hne hparse
      · exact .recvPiece hpc hne hparse
  | respond data complete =>
      simp only [step, hpc] at h
      obtain ⟨hclosed, rfl, rfl⟩ | ⟨hopen, ⟨rfl, rfl⟩ | ⟨n, e, rfl, rfl⟩⟩ := respond_cases h
      · exact .respondClosed hpc hclosed
      · exact .respond hpc hopen
      · by_cases he : e = .brokenPipe
        · subst he
          exact .respondCut n hpc hopen
        · simp only [if_neg he]
          exact .respondFailed n he hpc hopen
  | recordResponse complete =>
      simp only [step, hpc] at h
      cases a with
      | ok =>
          cases h
          exact .recordResponse hpc
      | raise e =>
          cases h
          exact .recordRaise e hpc
      | _ => cases h
  | recordRequest =>
      simp only [step, hpc] at h
      exact move_of_simply (by rw [hpc]; rfl) (.recordRequest hpc) h
  | closeConnection =>
      simp only [step, hpc] at h
      exact move_of_simply (by rw [hpc]; rfl) (.closeConnection hpc) h
  | closeClient =>
      simp only [step, hpc] at h
      obtain ⟨rfl, rfl⟩ | ⟨e, rfl, rfl⟩ := simply_cases h
      · exact .closeClient hpc
      · exact .closeClientRaise e hpc
  | release inExcept =>
      simp only [step, hpc] at h
      obtain ⟨hnone, rfl, rfl⟩ | ⟨c, hc, ⟨rfl, rfl⟩ | ⟨e, rfl, rfl⟩⟩ := release_cases h
      · exact .releaseNothing hpc hnone
      · exact .release hpc hc
      · cases inExcept with
        | true => exact .releaseRaise e hpc hc
        | false => exact .raise e (by rw [hpc]; rfl)
  | del =>
      simp only [step, hpc] at h
      obtain ⟨hnone, rfl, rfl⟩ | ⟨c, hc, ⟨rfl, rfl⟩ | ⟨e, rfl, rfl⟩⟩ := release_cases h
      · exact .delNothing hpc hnone
      · exact .del hpc hc
      · exact .delRaise e hpc hc
  | done => simp [step, hpc] at h

/-! ## frame -/

/-- After the reading, a step either leaves the request alone and writes nothing, or
is a send to the endpoint. -/
theorem Move.frame (h : Move env r a r') (hread : r.pc ≠ .readRequest) :
    r'.req = r.req ∧ r'.written = r.written ∨
      r.pc.isSend ∧ ∃ handler bytes req, r.handler = some handler ∧
        handler.sender.request r.req = .ok bytes req ∧ r'.req = req ∧
        (r'.written = r.written ∨ r'.written = r.written ++ [bytes]) := by
  cases h with
  | read outcome hpc => contradiction
  | send hpc hhandler hreq ha => exact Or.inr ⟨hpc, _, _, _, hhandler, hreq, rfl, Or.inr rfl⟩
  | sendCut n hpc hhandler hreq he => grind
  | sendRaise e hpc hhandler hreq => grind
  | _ => grind

/-- The request stays, but for what is remembered of the last query. -/
theorem Move.req_eq (h : Move env r a r') (hread : r.pc ≠ .readRequest) :
    ∃ last, r'.req = { r.req with lastQueriedBytes := last } := by
  obtain ⟨hreq, -⟩ | ⟨-, handler, bytes, req, -, hsent, hreq, -⟩ := h.frame hread
  · exact ⟨r.req.lastQueriedBytes, hreq⟩
  · obtain ⟨headers, content, -, -, -, hreq'⟩ := RequestSender.request_ok hsent
    exact ⟨some bytes, hreq.trans hreq'⟩

theorem afterRead_written (outcome : ReadOutcome) : (r.afterRead outcome).written = r.written := by
  cases outcome <;> grind

/-- Only a request that the readers let through goes to an endpoint. -/
theorem afterRead_isSending {outcome : ReadOutcome} (h : (r.afterRead outcome).pc.isSending) :
    ∃ req, outcome = .success req ∧ req.httpMethod ≠ some (str "OPTIONS") := by
  cases outcome with
  | success req => grind
  | _ => grind

/-- Only the reading leads to where a request is to be sent. -/
theorem Move.isSending (h : Move env r a r') (hsending : r'.pc.isSending) :
    r.pc.isSending ∨ r.pc = .readRequest := by
  cases h with
  | read outcome hpc => exact Or.inr hpc
  | @drop next hpc => cases next <;> grind
  | @modify next hpc => cases next <;> grind
  | _ => grind

theorem Move.pc_of_read {outcome : ReadOutcome} (h : Move env r (.read outcome) r') :
    r.pc = .readRequest ∧ r' = r.afterRead outcome := by
  cases h with
  | read _ hpc => exact ⟨hpc, rfl⟩
  | send hpc hhandler hreq ha => simp at ha
  | recvNothing hpc ha => simp at ha

theorem Move.pc_ne_of_call (h : Move env r a r') (ha : ∀ outcome, a ≠ .read outcome) :
    r.pc ≠ .readRequest := by
  cases h with
  | read outcome hpc => exact absurd rfl (ha outcome)
  | _ => grind

/-- The reading is the first call. -/
theorem Move.pc_ne (h : Move env r a r') : r'.pc ≠ .readRequest := by
  cases h with
  | read outcome hpc => cases outcome <;> grind
  | @drop next hpc => cases next <;> grind
  | @modify next hpc => cases next <;> grind
  | _ => grind

/-- The sender of a handler is the one of its connection. -/
def SenderOk (env : ProxyEnv) (r : Run) : Prop :=
  ∀ handler, r.handler = some handler → ∃ c, handler.sender = env.sender c

@[grind →] theorem disconnect_handler {handler : EndpointConnectionHandler}
    (h : r.disconnect.handler = some handler) :
    ∃ old, r.handler = some old ∧ old.sender = handler.sender := by
  obtain ⟨old, hold, rfl⟩ := Option.map_eq_some_iff.mp h
  exact ⟨old, hold, rfl⟩

theorem Move.senderOk (h : Move env r a r') (hs : r.SenderOk env) : r'.SenderOk env := by
  unfold SenderOk at *
  cases h with
  | read outcome hpc => cases outcome <;> grind
  | _ => grind [acquired]

end Run

end Web3Proxy
