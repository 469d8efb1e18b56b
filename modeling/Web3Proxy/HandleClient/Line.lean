import Web3Proxy.HandleClient.Spec
import Web3Proxy.HandleClient.Workers

/-!
# Web3Proxy.HandleClient.Line

What is on the line of a run's connection, at each call of the run (`LineAt`), and what
keeps it so:

* `Line.Owes` — what is outstanding is the rest of one run's response;
* `Move.lineAt` — the calls that leave the line alone;
* `Move.lineAt_send`, `lineAt_recv`, `lineAt_release` — the calls that use it;
* `Move.holds` — no call but `get_connection` gets a run a connection.
-/

namespace Web3Proxy

open Py Bytes

/-- How many bytes the call takes off the line. -/
def Answer.taken : Answer → Nat
  | .data bytes => bytes.length
  | _ => 0

/-! ## lines -/

theorem map_snd_tag (w : RunId) (bytes : Bytes) : (tag w bytes).map Prod.snd = bytes := by
  simp [tag]

theorem take_tag (w : RunId) (bytes : Bytes) (n : Nat) :
    (tag w bytes).take n = tag w (bytes.take n) :=
  List.map_take.symm

theorem drop_tag (w : RunId) (bytes : Bytes) (n : Nat) :
    (tag w bytes).drop n = tag w (bytes.drop n) :=
  List.map_drop.symm

namespace Line

variable {l l' : Line} {w : RunId} {a : Answer}

/-- Nothing is outstanding but the rest of the response to the request of the run. -/
def Owes (l : Line) (w : RunId) (received response : Bytes) : Prop :=
  ∃ rest, l.outstanding = tag w rest ∧ (rest = [] ∨ received ++ rest = response)

theorem owes_of_drained (received response : Bytes) (h : l.outstanding = []) :
    l.Owes w received response := ⟨[], h, Or.inl rfl⟩

theorem eq_nil_of_le_zero (h : l.outstanding.length ≤ 0) : l.outstanding = [] :=
  List.length_eq_zero_iff.mp (Nat.le_zero.mp h)

/-- A request that goes out on a drained line leaves its response outstanding. -/
theorem owes_send {size : Nat} {response : Bytes} (h : l.outstanding = [])
    (hsend : l.send size (tag w response) a = some l') : l'.Owes w [] response := by
  have hanswer (isLive isLive' : Bool) :
      (Line.open isLive ([] ++ if isLive' then tag w response else [])).Owes w [] response := by
    cases isLive' with
    | true => exact ⟨response, rfl, Or.inr rfl⟩
    | false => exact ⟨[], rfl, Or.inl rfl⟩
  cases l with
  | closed =>
      cases a with
      | raise e =>
          cases hsend
          exact owes_of_drained _ _ rfl
      | _ => cases hsend
  | «open» isLive out =>
      obtain rfl : out = [] := h
      cases a with
      | ok =>
          cases hsend
          exact hanswer isLive isLive
      | cut n e =>
          cases hsend
          exact hanswer false (isLive && decide (size ≤ n))
      | raise e =>
          cases hsend
          exact owes_of_drained _ _ rfl
      | _ => cases hsend

/-- Received bytes are the first that are outstanding. -/
theorem recv_data {bytes : Bytes} {taken : Line × List Tagged} (hne : bytes ≠ [])
    (hrecv : l.recv (.data bytes) = some taken) :
    taken.1.outstanding = l.outstanding.drop bytes.length ∧
      taken.2 = l.outstanding.take bytes.length ∧ taken.2.map Prod.snd = bytes := by
  cases bytes with
  | nil => exact absurd rfl hne
  | cons b bytes =>
      cases l with
      | closed => cases hrecv
      | «open» isLive out =>
          simp only [recv] at hrecv
          split at hrecv
          · next htaken =>
            cases hrecv
            exact ⟨rfl, rfl, htaken⟩
          · cases hrecv

/-- What is taken off the line of a run belongs to the run's response. -/
theorem owes_recv {bytes received response : Bytes} {taken : Line × List Tagged}
    (h : l.Owes w received response) (hne : bytes ≠ [])
    (hrecv : l.recv (.data bytes) = some taken) :
    taken.2 = tag w bytes ∧
      ∃ rest, received ++ bytes ++ rest = response ∧ taken.1.outstanding = tag w rest := by
  obtain ⟨rest, hout, hrest⟩ := h
  obtain ⟨hleft, htaken, hbytes⟩ := recv_data hne hrecv
  rw [hout, drop_tag] at hleft
  rw [hout, take_tag] at htaken
  have htake : rest.take bytes.length = bytes := by
    rw [← map_snd_tag w (rest.take _), ← htaken, hbytes]
  have hwhole : received ++ rest = response := by
    cases hrest with
    | inl hnil =>
        rw [hnil, List.take_nil] at htake
        exact absurd htake.symm hne
    | inr hwhole => exact hwhole
  have hsplit : received ++ bytes ++ rest.drop bytes.length = response :=
    calc received ++ bytes ++ rest.drop bytes.length
        = received ++ (rest.take bytes.length ++ rest.drop bytes.length) := by
          rw [htake, List.append_assoc]
      _ = response := by rw [List.take_append_drop, hwhole]
  exact ⟨htaken.trans (by rw [htake]), rest.drop bytes.length, hsplit, hleft⟩

end Line

/-! ## the line of a run -/

/-- The calls that leave the idle queue and the lines alone. -/
def Pc.isQuiet : Pc → Bool
  | .readRequest | .busyAdd _ _ | .reply _ _ _ | .manage _ _ | .modify _ | .respond _ _
  | .recordResponse _ | .recordRequest | .closeClient | .done => true
  | _ => false

theorem Pc.not_isGuarded_of_isSend {pc : Pc} (h : pc.isSend) : ¬ pc.isGuarded := by
  cases pc <;> simp_all [isSend, isGuarded]

theorem Pc.not_isQuiet_of_isSend {pc : Pc} (h : pc.isSend) : ¬ pc.isQuiet := by
  cases pc <;> simp_all [isSend, isQuiet]

namespace Run

/-- The exception that the answer is, or leads to, goes to the outer `except`, and the
endpoint's connection, if there is one, has not been closed. -/
def escapesAt (env : ProxyEnv) (r : Run) : Pc → Answer → Bool
  | .closeConnection, _ => false
  | .reply _ _ _, .cut _ e => e ≠ .brokenPipe
  | .recv, .raise e => e = .other
  | .recv, .data bytes => bytes ≠ [] ∧ env.parse (r.received ++ bytes) = .error
  | .respond _ _, .cut _ e => e = .other
  | .recordResponse _, .raise e => e = .other
  | pc, .raise _ => pc.isGuarded
  | _, _ => false

/-- What is on the line of the connection that a run has, at each call.  Where the run can
have no connection, nothing. -/
def LineAt (w : RunId) (response : Bytes) (l : Line) (r : Run) : Pc → Prop
  | .readRequest | .getIdle | .connect | .reply _ _ .ret | .manage _ .ret | .modify .ret => False
  | .recv => l.Owes w r.received response
  | .respond _ complete | .recordResponse complete =>
      l.Owes w r.received response ∧ (complete = true → l.outstanding = [])
  | .reconnect | .busyRemove | .scheduleBroken | .reply _ _ .close | .manage _ .close
  | .modify .close | .closeConnection | .done => True
  | .busyAdd _ _ | .sendRequest | .sendAgain | .reply _ _ .release | .manage _ .release
  | .modify .release | .recordRequest | .closeClient | .release _ | .del => l.outstanding = []

/-- What the run hands to its response handler goes on with the response to its request. -/
def Own (w : RunId) (response : Bytes) (piece : List Tagged) (r : Run) : Prop :=
  ∀ data complete, r.pc = .respond data complete →
    piece = tag w data ∧ data <:+ r.received ∧ r.received <+: response

variable {w : RunId} {response : Bytes} {l : Line} {r r' : Run} {env : ProxyEnv} {a : Answer}

theorem afterPiece_lineAt {complete : Bool}
    (h : l.Owes w r.received response ∧ (complete = true → l.outstanding = [])) :
    LineAt w response l (r.afterPiece complete) (r.afterPiece complete).pc := by
  cases complete with
  | false => exact h.1
  | true => exact h.2 rfl

theorem receiveRaised_lineAt {e : SocketError} (h : e = .other → l.outstanding = []) :
    LineAt w response l (receiveRaised env e r) (receiveRaised env e r).pc := by
  unfold receiveRaised
  split
  · next he => exact h he
  · exact trivial

theorem escapesAt_raise {pc : Pc} (h : pc.isGuarded) (hpc : pc ≠ .closeConnection)
    (e : SocketError) : escapesAt env r pc (.raise e) = true := by
  cases pc <;> first | exact h | exact absurd rfl hpc | cases h

/-- A quiet call keeps what is on the line. -/
theorem Move.lineAt (h : Move env r a r') (hquiet : r.pc.isQuiet)
    (hescape : escapesAt env r r.pc a = true → l.outstanding.length ≤ a.taken)
    (hl : LineAt w response l r r.pc) : LineAt w response l r' r'.pc := by
  cases h with
  | read outcome hpc =>
      rw [hpc] at hl
      exact hl.elim
  | @reply raw keepAlive next hpc =>
      rw [hpc] at hl
      cases next <;> exact hl
  | @replyCut raw keepAlive next n hpc =>
      rw [hpc] at hl
      cases next <;> exact hl
  | @replyFailed raw keepAlive next n e he hpc =>
      rw [hpc] at hescape
      exact Line.eq_nil_of_le_zero (hescape (by simpa [escapesAt] using he))
  | @keep next hpc =>
      rw [hpc] at hl
      cases next <;> exact hl
  | @drop next hpc =>
      rw [hpc] at hl
      cases next <;> first | exact hl | exact hl.elim
  | @modify next hpc =>
      rw [hpc] at hl
      cases next <;> first | exact hl | exact hl.elim
  | acquire hpc =>
      rw [hpc] at hl
      exact hl
  | respondClosed hpc hclosed =>
      rw [hpc] at hl
      exact afterPiece_lineAt hl
  | respond hpc hopen =>
      rw [hpc] at hl
      exact hl
  | respondCut n hpc hopen =>
      rw [hpc] at hl
      exact hl
  | respondFailed n he hpc hopen =>
      rw [hpc] at hescape
      exact receiveRaised_lineAt fun heq =>
        Line.eq_nil_of_le_zero (hescape (by simpa [escapesAt] using heq))
  | recordResponse hpc =>
      rw [hpc] at hl
      exact afterPiece_lineAt hl
  | recordRaise e hpc =>
      rw [hpc] at hescape
      exact receiveRaised_lineAt fun heq =>
        Line.eq_nil_of_le_zero (hescape (by simpa [escapesAt] using heq))
  | recordRequest hpc =>
      rw [hpc] at hl
      exact hl
  | closeClient hpc =>
      rw [hpc] at hl
      exact hl
  | closeClientRaise e hpc =>
      rw [hpc] at hl
      exact hl
  | raise e hpc =>
      have hclose : r.pc ≠ .closeConnection := fun heq => by simp [heq, Pc.isQuiet] at hquiet
      exact Line.eq_nil_of_le_zero (hescape (escapesAt_raise hpc hclose e))
  | noConnection e hpc => obtain hpc | hpc := hpc <;> simp [hpc, Pc.isQuiet] at hquiet
  | send hpc hhandler hreq ha => exact absurd hquiet (Pc.not_isQuiet_of_isSend hpc)
  | sendCut n hpc hhandler hreq he => exact absurd hquiet (Pc.not_isQuiet_of_isSend hpc)
  | sendRaise e hpc hhandler hreq => exact absurd hquiet (Pc.not_isQuiet_of_isSend hpc)
  | sendNothing hpc hhandler => exact absurd hquiet (Pc.not_isQuiet_of_isSend hpc)
  | _ => simp_all [Pc.isQuiet]

theorem sendRaised_lineAt : LineAt w response l r.sendRaised r.sendRaised.pc := by
  unfold sendRaised sendFailed
  split
  · split <;> exact trivial
  · exact trivial

/-- A send goes on to the receiving, or to where nothing is asked of the line. -/
theorem Move.lineAt_send (h : Move env r a r') (hsend : r.pc.isSend) :
    (∀ l, LineAt w response l r' r'.pc) ∨ r'.pc = .recv ∧ r'.received = [] := by
  cases h with
  | send hpc hhandler hreq ha => exact Or.inr ⟨rfl, rfl⟩
  | sendCut n hpc hhandler hreq he => exact Or.inl fun l => sendRaised_lineAt
  | sendRaise e hpc hhandler hreq => exact Or.inl fun l => sendRaised_lineAt
  | sendNothing hpc hhandler => exact Or.inl fun l => sendRaised_lineAt
  | raise e hpc => exact absurd hpc (Pc.not_isGuarded_of_isSend hsend)
  | _ => grind

/-- Receiving: what is taken off the line is of the run's response, and when the response
is complete nothing is left. -/
theorem lineAt_recv {response : FinalResponse env.parse} {taken : Line × List Tagged}
    (hpc : r.pc = .recv) (howes : l.Owes w r.received response.bytes)
    (htaken : l.recv a = some taken)
    (hescape : escapesAt env r .recv a = true → l.outstanding.length ≤ a.taken)
    (hr : r.step env a = some r') :
    LineAt w response.bytes taken.1 r' r'.pc ∧ Own w response.bytes taken.2 r' := by
  simp only [step, hpc] at hr
  obtain ⟨ha, rfl⟩ | ⟨e, rfl, rfl⟩ | ⟨bytes, rfl, hne, hparse⟩ := recv_cases hr
  · exact ⟨trivial, fun data complete h => by cases h⟩
  · refine ⟨receiveRaised_lineAt fun he => ?_, fun data complete h => ?_⟩
    · subst he
      have hout : taken.1 = l := by
        cases l <;> cases htaken <;> rfl
      rw [hout]
      exact Line.eq_nil_of_le_zero (hescape rfl)
    · unfold receiveRaised at h
      split at h <;> cases h
  · obtain ⟨htag, rest, hrest, hout⟩ := Line.owes_recv howes hne htaken
    obtain ⟨hparse, rfl⟩ | ⟨complete, hparse, rfl⟩ := hparse
    · refine ⟨?_, fun data complete h => by cases h⟩
      have hle := hescape (by simp [escapesAt, hne, hparse])
      exact (Line.recv_data hne htaken).1.trans (List.drop_eq_nil_of_le hle)
    · refine ⟨⟨⟨rest, hout, Or.inr hrest⟩, fun hcomplete => ?_⟩, fun data complete' h => ?_⟩
      · -- the parser has found the end of the response
        subst hcomplete
        have hall := response.final _ ⟨rest, hrest⟩ hparse
        have hnil : rest = [] := by simpa [hall] using hrest
        rw [hout, hnil]
        rfl
      · cases h
        exact ⟨htag, ⟨r.received, rfl⟩, ⟨rest, hrest⟩⟩

theorem disconnect_connection : r.disconnect.connection = none := by
  unfold disconnect connection
  cases r.handler <;> rfl

theorem not_connection_disconnect {c : ConnId} : r.disconnect.connection ≠ some c := by
  simp [disconnect_connection]

theorem holds_eq (h : ∀ c isNew, r.pc ≠ .busyAdd c isNew) : r.holds = r.connection := by
  unfold holds
  split
  · next c isNew hpc => exact absurd hpc (h c isNew)
  · rfl

/-- Releasing asks for a drained line to the end; when it succeeds the run has no
connection any more. -/
theorem lineAt_release (hpc : (∃ inExcept, r.pc = .release inExcept) ∨ r.pc = .del)
    (hl : l.outstanding = []) (hr : r.step env a = some r') :
    LineAt w response l r' r'.pc ∧ (a = .ok → r'.holds = none) := by
  have hnone (next : Pc) (hnext : ∀ c isNew, next ≠ .busyAdd c isNew) :
      Run.holds { r.disconnect with pc := next } = none :=
    (holds_eq hnext).trans disconnect_connection
  obtain ⟨inExcept, hpc⟩ | hpc := hpc
  · simp only [step, hpc] at hr
    obtain ⟨hconn, rfl, rfl⟩ | ⟨c, hconn, ⟨rfl, rfl⟩ | ⟨e, rfl, rfl⟩⟩ := release_cases hr
    · exact ⟨hl, fun _ => hconn⟩
    · exact ⟨hl, fun _ => hnone .del (by simp)⟩
    · cases inExcept with
      | true => exact ⟨hl, fun ha => by cases ha⟩
      | false => exact ⟨hl, fun ha => by cases ha⟩
  · simp only [step, hpc] at hr
    obtain ⟨hconn, rfl, rfl⟩ | ⟨c, hconn, ⟨rfl, rfl⟩ | ⟨e, rfl, rfl⟩⟩ := release_cases hr
    · exact ⟨trivial, fun _ => hconn⟩
    · exact ⟨trivial, fun _ => hnone .done (by simp)⟩
    · exact ⟨trivial, fun ha => by cases ha⟩

theorem sendRaised_holds : r.sendRaised.holds = r.connection := by
  unfold sendRaised sendFailed
  split
  · split <;> rfl
  · rfl

/-- A run gets a connection from the first part of `get_connection` only. -/
theorem Move.holds (h : Move env r a r') (hget : r.pc ≠ .getIdle) (hconnect : r.pc ≠ .connect)
    {c : ConnId} (hc : r'.holds = some c) : r.holds = some c := by
  by_cases hbusy : ∃ c isNew, r.pc = .busyAdd c isNew
  · obtain ⟨c', isNew, hpc⟩ := hbusy
    cases h with
    | acquire hpc' =>
        rw [Run.holds, hpc']
        exact hc
    | _ => grind
  · rw [holds_eq fun c isNew hpc => hbusy ⟨c, isNew, hpc⟩]
    cases h with
    | read outcome hpc => cases outcome <;> grind [Run.holds, connection]
    | @drop next hpc => cases next <;> exact hc
    | @modify next hpc => cases next <;> exact hc
    | idle c hpc => exact absurd hpc hget
    | connect c hpc => exact absurd hpc hconnect
    | acquire hpc => exact absurd ⟨_, _, hpc⟩ hbusy
    | scheduleBroken hpc => exact absurd hc r.not_connection_disconnect
    | release hpc hconn => exact absurd hc r.not_connection_disconnect
    | del hpc hconn => exact absurd hc r.not_connection_disconnect
    | sendCut n hpc hhandler hreq he =>
        rw [sendRaised_holds] at hc
        exact hc
    | sendRaise e hpc hhandler hreq =>
        rw [sendRaised_holds] at hc
        exact hc
    | sendNothing hpc hhandler =>
        rw [sendRaised_holds] at hc
        exact hc
    | @recordResponse complete hpc => cases complete <;> exact hc
    | @respondClosed data complete hpc hclosed => cases complete <;> exact hc
    | recvRaise e hpc => cases e <;> exact hc
    | recordRaise e hpc => cases e <;> exact hc
    | @respondFailed data complete n e he hpc hopen => cases e <;> exact hc
    | _ => exact hc

/-- The response handler is called with what has just been received. -/
theorem Move.pc_eq_respond (h : Move env r a r') {data : Bytes} {complete : Bool}
    (hpc : r'.pc = .respond data complete) : r.pc = .recv ∧ a = .data data ∧ data ≠ [] := by
  cases h with
  | recvPiece hrecv hne hparse =>
      cases hpc
      exact ⟨hrecv, rfl, hne⟩
  | read outcome _ => cases outcome <;> grind
  | @drop next _ => cases next <;> cases hpc
  | @modify next _ => cases next <;> cases hpc
  | _ => grind

/-- Only the receiving leads to the response handler. -/
theorem Move.own (h : Move env r a r') (hrecv : r.pc ≠ .recv) (w : RunId) (response : Bytes)
    (piece : List Tagged) : Own w response piece r' :=
  fun _ _ hpc => absurd (h.pc_eq_respond hpc).1 hrecv

/-- A line that another thread closes asks for nothing more. -/
theorem lineAt_closed {pc : Pc} (h : LineAt w response l r pc) :
    LineAt w response .closed r pc := by
  cases pc with
  | recv => exact Line.owes_of_drained _ _ rfl
  | respond _ _ | recordResponse _ => exact ⟨Line.owes_of_drained _ _ rfl, fun _ => rfl⟩
  | reply _ _ next | manage _ next | modify next =>
      cases next with
      | ret => exact h
      | close => trivial
      | release => rfl
  | readRequest | getIdle | connect => exact h
  | reconnect | busyRemove | scheduleBroken | closeConnection | done => trivial
  | _ => rfl

end Run

end Web3Proxy
