import Web3Proxy.HandleClient.Integrity
import Web3Proxy.HandleClient.Line

/-!
# Web3Proxy.HandleClient.Pairing

Whose response a client gets.  `always_paired`: over every interleaving of the runs, as
long as no run goes to the outer `except` with a response outstanding on its connection,
the response handler of a run is given bytes of the response to the run's own request
only, and nothing is outstanding on an idle connection.

* `Inv` — connections are idle or with one run, idle ones are drained, and the line of a
  run is as `LineAt` says;
* `Inv.of_run` — what a call of one run must keep (`Kept`) for the whole to be kept;
* `kept_quiet` … `kept_connect` — that it does, call by call.
-/

namespace Web3Proxy

open Py Bytes Trans

/-! ## the system -/

namespace Workers

variable {env : ProxyEnv} {cfg : PoolConfig}

/-- Whenever a run hands bytes to its response handler, they go on with the response to the
request of this run; and nothing is outstanding on an idle connection. -/
structure Paired (s : Workers env) : Prop where
  own : ∀ w, (s.runs w).Own w (s.response w).bytes (s.piece w)
  idle : ∀ c ∈ s.pool.connections, (s.lines c).outstanding = []

/-- If an exception goes to the outer `except` of a run, then nothing is outstanding on the
connection of the run, but for what the call itself takes off it. -/
def Drains (s : Workers env) : Label env → Prop
  | .run w _ _ a => (s.runs w).escapesAt env (s.runs w).pc a = true →
      ∀ c, (s.runs w).holds = some c → (s.lines c).outstanding.length ≤ a.taken
  | _ => True

/-! ## invariant -/

/-- What holds of every state. -/
structure Inv (s : Workers env) : Prop where
  nodup : s.pool.connections.Nodup
  idle : ∀ c ∈ s.pool.connections, (s.lines c).outstanding = [] ∧ c < s.established ∧
    ∀ w, (s.runs w).holds ≠ some c
  exclusive : ∀ w w' c, (s.runs w).holds = some c → (s.runs w').holds = some c → w = w'
  held : ∀ w c, (s.runs w).holds = some c → c < s.established ∧
    Run.LineAt w (s.response w).bytes (s.lines c) (s.runs w) (s.runs w).pc
  own : ∀ w, (s.runs w).Own w (s.response w).bytes (s.piece w)

theorem Inv.paired {s : Workers env} (h : s.Inv) : s.Paired where
  own := h.own
  idle c hc := (h.idle c hc).1

theorem inv_init : ({} : Workers env).Inv where
  nodup := List.nodup_nil
  idle c hc := by cases hc
  exclusive w w' c hc := by cases hc
  held w c hc := by cases hc
  own w data complete hpc := by cases hpc

/-- What a call of one run must keep, for the whole to be kept. -/
structure Kept (s s' : Workers env) (w : RunId) : Prop where
  others : ∀ w', w' ≠ w → s'.runs w' = s.runs w' ∧ s'.response w' = s.response w' ∧
    s'.piece w' = s.piece w'
  established : s.established ≤ s'.established
  nodup : s'.pool.connections.Nodup
  idle : ∀ c ∈ s'.pool.connections, (s'.runs w).holds ≠ some c ∧
    (c ∈ s.pool.connections ∨ (s.runs w).holds = some c ∧ (s'.lines c).outstanding = [])
  lines : ∀ c, (s.runs w).holds ≠ some c → c < s.established → s'.lines c = s.lines c
  held : ∀ c, (s'.runs w).holds = some c → c < s'.established ∧
    Run.LineAt w (s'.response w).bytes (s'.lines c) (s'.runs w) (s'.runs w).pc ∧
    ((s.runs w).holds = some c ∨ c ∈ s.pool.connections ∨ s.established ≤ c)
  own : (s'.runs w).Own w (s'.response w).bytes (s'.piece w)

/-- **A call of one run keeps the invariant of all.** -/
theorem Inv.of_run {s s' : Workers env} {w : RunId} (h : s.Inv) (hk : Kept s s' w) : s'.Inv where
  nodup := hk.nodup
  idle c hc := by
    obtain ⟨hnot, hold | ⟨hheld, hout⟩⟩ := hk.idle c hc
    · obtain ⟨hout, hlt, hfree⟩ := h.idle c hold
      refine ⟨?_, Nat.lt_of_lt_of_le hlt hk.established, fun w' => ?_⟩
      · rw [hk.lines c (hfree w) hlt]
        exact hout
      · by_cases hw : w' = w
        · rw [hw]
          exact hnot
        · rw [(hk.others w' hw).1]
          exact hfree w'
    · refine ⟨hout, Nat.lt_of_lt_of_le (h.held w c hheld).1 hk.established, fun w' hw' => ?_⟩
      by_cases hw : w' = w
      · rw [hw] at hw'
        exact hnot hw'
      · rw [(hk.others w' hw).1] at hw'
        exact hw (h.exclusive w' w c hw' hheld)
  exclusive := by
    -- a connection that the run gets anew is with no other run
    have hnew (w' : RunId) (c : ConnId) (hw : w' ≠ w) (hc : (s'.runs w).holds = some c)
        (hc' : (s'.runs w').holds = some c) : False := by
      rw [(hk.others w' hw).1] at hc'
      obtain ⟨-, -, hheld | hidle | hfresh⟩ := hk.held c hc
      · exact hw (h.exclusive w' w c hc' hheld)
      · exact (h.idle c hidle).2.2 w' hc'
      · exact absurd (h.held w' c hc').1 (Nat.not_lt.mpr hfresh)
    intro w₁ w₂ c h₁ h₂
    by_cases hw₁ : w₁ = w
    · by_cases hw₂ : w₂ = w
      · rw [hw₁, hw₂]
      · rw [hw₁] at h₁
        exact (hnew w₂ c hw₂ h₁ h₂).elim
    · by_cases hw₂ : w₂ = w
      · rw [hw₂] at h₂
        exact (hnew w₁ c hw₁ h₂ h₁).elim
      · rw [(hk.others w₁ hw₁).1] at h₁
        rw [(hk.others w₂ hw₂).1] at h₂
        exact h.exclusive w₁ w₂ c h₁ h₂
  held w' c hc := by
    by_cases hw : w' = w
    · rw [hw] at hc ⊢
      obtain ⟨hlt, hline, -⟩ := hk.held c hc
      exact ⟨hlt, hline⟩
    · obtain ⟨hrun, hresponse, -⟩ := hk.others w' hw
      rw [hrun] at hc ⊢
      obtain ⟨hlt, hline⟩ := h.held w' c hc
      have hnot : (s.runs w).holds ≠ some c := fun hc' => hw (h.exclusive w' w c hc hc')
      rw [hresponse, hk.lines c hnot hlt]
      exact ⟨Nat.lt_of_lt_of_le hlt hk.established, hline⟩
  own w' := by
    by_cases hw : w' = w
    · rw [hw]
      exact hk.own
    · obtain ⟨hrun, hresponse, hpiece⟩ := hk.others w' hw
      rw [hrun, hresponse, hpiece]
      exact h.own w'

section Call

variable {s s₁ : Workers env} {w : RunId} {a : Answer} {r' : Run}

theorem setRun_runs : (s₁.setRun w r').runs w = r' := by simp [setRun]

theorem setRun_runs_of_ne {w' : RunId} (hw : w' ≠ w) : (s₁.setRun w r').runs w' = s₁.runs w' := by
  simp [setRun, hw]

/-- A call that does not get a connection. -/
theorem Kept.of_move (h : s.Inv) (hmove : Run.Move env (s.runs w) a r')
    (hget : (s.runs w).pc ≠ .getIdle) (hconnect : (s.runs w).pc ≠ .connect)
    (hothers : ∀ w', w' ≠ w → s₁.runs w' = s.runs w' ∧ s₁.response w' = s.response w' ∧
      s₁.piece w' = s.piece w')
    (hest : s₁.established = s.established)
    (hnodup : s₁.pool.connections.Nodup)
    (hidle : ∀ c ∈ s₁.pool.connections, c ∈ s.pool.connections ∨
      (s.runs w).holds = some c ∧ r'.holds ≠ some c ∧ (s₁.lines c).outstanding = [])
    (hlines : ∀ c, (s.runs w).holds ≠ some c → s₁.lines c = s.lines c)
    (hline : ∀ c, (s.runs w).holds = some c → r'.holds = some c →
      Run.LineAt w (s₁.response w).bytes (s₁.lines c) r' r'.pc)
    (hown : r'.Own w (s₁.response w).bytes (s₁.piece w)) :
    Kept s (s₁.setRun w r') w where
  others w' hw := by
    rw [setRun_runs_of_ne hw]
    exact hothers w' hw
  established := hest.ge
  nodup := hnodup
  idle c hc := by
    rw [setRun_runs]
    cases hidle c hc with
    | inl hold =>
        exact ⟨fun hc' => (h.idle c hold).2.2 w (hmove.holds hget hconnect hc'), Or.inl hold⟩
    | inr hback => exact ⟨hback.2.1, Or.inr ⟨hback.1, hback.2.2⟩⟩
  lines c hc _ := hlines c hc
  held c hc := by
    rw [setRun_runs] at hc ⊢
    have hc' := hmove.holds hget hconnect hc
    exact ⟨hest ▸ (h.held w c hc').1, hline c hc' hc, Or.inl hc'⟩
  own := by
    rw [setRun_runs]
    exact hown

/-- A call that touches no more than the line of the run's own connection. -/
theorem Kept.of_line (h : s.Inv) (hmove : Run.Move env (s.runs w) a r')
    (hget : (s.runs w).pc ≠ .getIdle) (hconnect : (s.runs w).pc ≠ .connect)
    (hothers : ∀ w', w' ≠ w → s₁.runs w' = s.runs w' ∧ s₁.response w' = s.response w' ∧
      s₁.piece w' = s.piece w')
    (hest : s₁.established = s.established)
    (hconn : s₁.pool.connections = s.pool.connections)
    (hlines : ∀ c, (s.runs w).holds ≠ some c → s₁.lines c = s.lines c)
    (hline : ∀ c, (s.runs w).holds = some c → r'.holds = some c →
      Run.LineAt w (s₁.response w).bytes (s₁.lines c) r' r'.pc)
    (hown : r'.Own w (s₁.response w).bytes (s₁.piece w)) :
    Kept s (s₁.setRun w r') w :=
  .of_move h hmove hget hconnect hothers hest (hconn ▸ h.nodup) (fun _ hc => Or.inl (hconn ▸ hc))
    hlines hline hown

theorem Pc.ne_of_isQuiet {pc : Pc} (h : pc.isQuiet) :
    pc ≠ .getIdle ∧ pc ≠ .connect ∧ pc ≠ .recv := by
  cases pc <;> simp_all [Pc.isQuiet]

theorem effect_quiet (hquiet : (s.runs w).pc.isQuiet) {now : Int}
    {response : FinalResponse env.parse} (heffect : s.effect w now response a = some s₁) :
    ∃ pool, s₁ = { s with pool } ∧ pool.connections = s.pool.connections := by
  unfold effect at heffect
  cases hpc : (s.runs w).pc with
  | busyAdd c isNew =>
      simp only [hpc, Option.some.injEq] at heffect
      exact ⟨s.pool.busyAdd c, heffect.symm, rfl⟩
  | readRequest | reply _ _ _ | manage _ _ | modify _ | respond _ _ | recordResponse _
  | recordRequest | closeClient | done =>
      simp only [hpc, Option.some.injEq] at heffect
      exact ⟨s.pool, heffect.symm, rfl⟩
  | _ => simp [hpc, Pc.isQuiet] at hquiet

/-- The calls that leave the idle queue and the lines alone. -/
theorem kept_quiet (h : s.Inv) (hquiet : (s.runs w).pc.isQuiet) {now : Int}
    {response : FinalResponse env.parse} (heffect : s.effect w now response a = some s₁)
    (hr : (s.runs w).step env a = some r')
    (hdrain : s.Drains (.run w now response a)) : Kept s (s₁.setRun w r') w := by
  have hmove := Run.step_move hr
  obtain ⟨hget, hconnect, hrecv⟩ := Pc.ne_of_isQuiet hquiet
  obtain ⟨pool, rfl, hconn⟩ := effect_quiet hquiet heffect
  refine .of_line h hmove hget hconnect (fun w' _ => ⟨rfl, rfl, rfl⟩) rfl hconn (fun c _ => rfl)
    (fun c hc _ => ?_) (hmove.own hrecv _ _ _)
  exact hmove.lineAt hquiet (fun hescape => hdrain hescape c hc) (h.held w c hc).2

theorem holds_eq (hbusy : ∀ c isNew, (s.runs w).pc ≠ .busyAdd c isNew) {c : ConnId}
    (hc : (s.runs w).connection = some c) : (s.runs w).holds = some c :=
  (Run.holds_eq hbusy).trans hc

theorem setLine_lines (c : ConnId) (l : Line) : (s.setLine c l).lines c = l := by simp [setLine]

theorem setLine_lines_of_ne {c c' : ConnId} (hc : c' ≠ c) (l : Line) :
    (s.setLine c l).lines c' = s.lines c' := by
  simp [setLine, hc]

/-- A call of a run that changes the line of the run's own connection. -/
theorem Kept.of_own (h : s.Inv) (hmove : Run.Move env (s.runs w) a r') {c : ConnId}
    (hc : (s.runs w).holds = some c) (hget : (s.runs w).pc ≠ .getIdle)
    (hconnect : (s.runs w).pc ≠ .connect) {l : Line} {response : FinalResponse env.parse}
    {piece : List Tagged}
    (hs₁ : s₁ = { s.setLine c l with
      response := Function.update s.response w response
      piece := Function.update s.piece w piece })
    (hline : Run.LineAt w response.bytes l r' r'.pc)
    (hown : r'.Own w response.bytes piece) :
    Kept s (s₁.setRun w r') w := by
  subst hs₁
  refine .of_line h hmove hget hconnect (fun w' hw => ?_) rfl rfl (fun c' hc' => ?_)
    (fun c' hc' _ => ?_) ?_
  · simp [setLine, hw]
  · have hne : c' ≠ c := fun heq => hc' (heq ▸ hc)
    exact setLine_lines_of_ne hne l
  · obtain rfl : c = c' := Option.some.inj (hc.symm.trans hc')
    simpa [setLine] using hline
  · simpa [setLine] using hown

theorem send_cases {response : FinalResponse env.parse} (h : s.send w response a = some s₁) :
    ∃ handler c, (s.runs w).handler = some handler ∧ handler.connection = some c ∧
      ((∃ e req, handler.sender.request (s.runs w).req = .raise e req) ∧ s₁ = s ∨
        ∃ bytes req l, handler.sender.request (s.runs w).req = .ok bytes req ∧
          (s.lines c).send bytes.length (tag w response.bytes) a = some l ∧
          s₁ = { s.setLine c l with response := Function.update s.response w response }) := by
  obtain ⟨handler, hhandler, h⟩ := Option.bind_eq_some_iff.mp h
  obtain ⟨c, hc, h⟩ := Option.bind_eq_some_iff.mp h
  refine ⟨handler, c, hhandler, hc, ?_⟩
  split at h
  · next e req hreq =>
    cases h
    exact Or.inl ⟨⟨e, req, hreq⟩, rfl⟩
  · next bytes req hreq =>
    obtain ⟨l, hl, rfl⟩ := Option.map_eq_some_iff.mp h
    exact Or.inr ⟨bytes, req, l, hreq, hl, rfl⟩

/-- Sending a request. -/
theorem kept_send (h : s.Inv) (hsend : (s.runs w).pc.isSend) {response : FinalResponse env.parse}
    (heffect : s.send w response a = some s₁) (hr : (s.runs w).step env a = some r') :
    Kept s (s₁.setRun w r') w := by
  have hmove := Run.step_move hr
  have hget : (s.runs w).pc ≠ .getIdle := by grind
  have hconnect : (s.runs w).pc ≠ .connect := by grind
  have hbusy : ∀ c isNew, (s.runs w).pc ≠ .busyAdd c isNew := by grind
  obtain ⟨handler, c, hhandler, hc, hsent⟩ := send_cases heffect
  have hheld : (s.runs w).holds = some c := holds_eq hbusy (by simp [Run.connection, hhandler, hc])
  have hdrained : (s.lines c).outstanding = [] := by
    have hline := (h.held w c hheld).2
    cases hpc : (s.runs w).pc <;> simp_all [Pc.isSend, Run.LineAt]
  have hown := hmove.own (by grind) w
  obtain ⟨-, rfl⟩ | ⟨bytes, req, l, hreq, hl, rfl⟩ := hsent
  · refine .of_line h hmove hget hconnect (fun w' _ => ⟨rfl, rfl, rfl⟩) rfl rfl (fun c' _ => rfl)
      (fun c' hc' _ => ?_) (hown _ _)
    obtain rfl : c = c' := Option.some.inj (hheld.symm.trans hc')
    cases hmove.lineAt_send (w := w) hsend with
    | inl hany => exact hany _
    | inr hrecv =>
        rw [hrecv.1]
        exact Line.owes_of_drained _ _ hdrained
  · have hline : Run.LineAt w response.bytes l r' r'.pc := by
      cases hmove.lineAt_send hsend with
      | inl hany => exact hany l
      | inr hrecv =>
          rw [hrecv.1, Run.LineAt, hrecv.2]
          exact Line.owes_send hdrained hl
    exact .of_own h hmove hheld hget hconnect (by simp [setLine]) hline (hown _ (s.piece w))

/-- Reconnecting. -/
theorem kept_reconnect (h : s.Inv) (hpc : (s.runs w).pc = .reconnect)
    (heffect : s.reconnect w a = some s₁) (hr : (s.runs w).step env a = some r') :
    Kept s (s₁.setRun w r') w := by
  have hmove := Run.step_move hr
  obtain ⟨c, hc, rfl⟩ := Option.map_eq_some_iff.mp heffect
  have hheld : (s.runs w).holds = some c := holds_eq (by simp [hpc]) hc
  simp only [Run.step, hpc] at hr
  have hline : Run.LineAt w (s.response w).bytes (if a = .ok then .fresh else .closed) r' r'.pc := by
    obtain ⟨rfl, rfl⟩ | ⟨e, rfl, rfl⟩ := Run.simply_cases hr
    · rfl
    · trivial
  have hown := hmove.own (by simp [hpc]) w
  exact .of_own h hmove hheld (by simp [hpc]) (by simp [hpc]) (by simp [setLine]) hline
    (hown _ (s.piece w))

theorem busyRemove_cases (h : s.busyRemove w a = some s₁) :
    ∃ pool, s₁ = { s with pool } ∧ pool.connections = s.pool.connections := by
  obtain ⟨c, hc, heffect⟩ := Option.bind_eq_some_iff.mp h
  clear h
  have hconn := s.pool.busyRemove_connections c
  split at heffect
  · next hremove =>
    cases heffect
    rw [hremove] at hconn
    exact ⟨_, rfl, hconn⟩
  · next hremove =>
    cases heffect
    rw [hremove] at hconn
    exact ⟨_, rfl, hconn⟩
  · cases heffect

/-- Forgetting that a connection is busy. -/
theorem kept_busyRemove (h : s.Inv) (hpc : (s.runs w).pc = .busyRemove)
    (heffect : s.busyRemove w a = some s₁) (hr : (s.runs w).step env a = some r')
    (hdrain : (s.runs w).escapesAt env (s.runs w).pc a = true →
      ∀ c, (s.runs w).holds = some c → (s.lines c).outstanding.length ≤ a.taken) :
    Kept s (s₁.setRun w r') w := by
  have hmove := Run.step_move hr
  obtain ⟨pool, rfl, hconn⟩ := busyRemove_cases heffect
  refine .of_line h hmove (by simp [hpc]) (by simp [hpc]) (fun w' _ => ⟨rfl, rfl, rfl⟩) rfl hconn
    (fun c _ => rfl) (fun c' hc' _ => ?_) (hmove.own (by simp [hpc]) _ _ _)
  rw [hpc] at hdrain
  simp only [Run.step, hpc] at hr
  obtain ⟨rfl, rfl⟩ | ⟨e, rfl, rfl⟩ := Run.simply_cases hr
  · trivial
  · exact Line.eq_nil_of_le_zero (hdrain rfl c' hc')

/-- Handing a broken connection to the closing thread. -/
theorem kept_scheduleBroken (h : s.Inv) (hpc : (s.runs w).pc = .scheduleBroken) {now : Int}
    (heffect : s.scheduleBroken w now = some s₁) (hr : (s.runs w).step env a = some r') :
    Kept s (s₁.setRun w r') w := by
  have hmove := Run.step_move hr
  obtain ⟨handler, hhandler, heffect⟩ := Option.bind_eq_some_iff.mp heffect
  obtain ⟨c, hc, rfl⟩ := Option.map_eq_some_iff.mp heffect
  refine .of_line h hmove (by simp [hpc]) (by simp [hpc]) (fun w' _ => ⟨rfl, rfl, rfl⟩) rfl rfl
    (fun c _ => rfl) (fun c' _ hc' => ?_) (hmove.own (by simp [hpc]) _ _ _)
  simp only [Run.step, hpc] at hr
  cases a with
  | ok =>
      cases hr
      exact absurd hc' (s.runs w).not_connection_disconnect
  | _ => cases hr

/-- `close()` of the own connection. -/
theorem kept_closeConnection (h : s.Inv) (hpc : (s.runs w).pc = .closeConnection)
    (hr : (s.runs w).step env a = some r') : Kept s ((s.closeConnection w).setRun w r') w := by
  have hmove := Run.step_move hr
  have hline (l : Line) (hl : l.outstanding = []) :
      Run.LineAt w (s.response w).bytes l r' r'.pc := by
    simp only [Run.step, hpc] at hr
    obtain ⟨rfl, rfl⟩ | ⟨e, rfl, rfl⟩ := Run.simply_cases hr
    · exact hl
    · exact hl
  have hown := hmove.own (by simp [hpc]) w
  unfold closeConnection
  cases hc : (s.runs w).connection with
  | none =>
      have hnone : (s.runs w).holds = none := (Run.holds_eq (by simp [hpc])).trans hc
      refine .of_line h hmove (by simp [hpc]) (by simp [hpc]) (fun w' _ => ⟨rfl, rfl, rfl⟩) rfl rfl
        (fun c _ => rfl) (fun c' hc' _ => ?_) (hown _ _)
      rw [hnone] at hc'
      cases hc'
  | some c =>
      have hheld : (s.runs w).holds = some c := holds_eq (by simp [hpc]) hc
      exact .of_own h hmove hheld (by simp [hpc]) (by simp [hpc]) (by simp [setLine])
        (hline .closed rfl) (hown _ (s.piece w))

theorem recv_cases (h : s.recv w a = some s₁) :
    ∃ c taken, (s.runs w).connection = some c ∧ (s.lines c).recv a = some taken ∧
      s₁ = { s.setLine c taken.1 with piece := Function.update s.piece w taken.2 } := by
  obtain ⟨c, hc, h⟩ := Option.bind_eq_some_iff.mp h
  obtain ⟨taken, htaken, rfl⟩ := Option.map_eq_some_iff.mp h
  exact ⟨c, taken, hc, htaken, rfl⟩

/-- Receiving. -/
theorem kept_recv (h : s.Inv) (hpc : (s.runs w).pc = .recv)
    (heffect : s.recv w a = some s₁) (hr : (s.runs w).step env a = some r')
    (hdrain : (s.runs w).escapesAt env (s.runs w).pc a = true →
      ∀ c, (s.runs w).holds = some c → (s.lines c).outstanding.length ≤ a.taken) :
    Kept s (s₁.setRun w r') w := by
  have hmove := Run.step_move hr
  obtain ⟨c, taken, hc, htaken, rfl⟩ := recv_cases heffect
  have hheld : (s.runs w).holds = some c := holds_eq (by simp [hpc]) hc
  have howes := (h.held w c hheld).2
  rw [hpc] at howes hdrain
  have hdrain' := fun hescape => hdrain hescape c hheld
  obtain ⟨hline, hown⟩ := Run.lineAt_recv hpc howes htaken hdrain' hr
  exact .of_own h hmove hheld (by simp [hpc]) (by simp [hpc]) (by simp [setLine]) hline hown

theorem put_cases {now : Int} (h : s.put w now a = some s₁) :
    ∃ pool, s₁ = { s with pool } ∧ (pool.connections = s.pool.connections ∨
      ∃ c, (s.runs w).connection = some c ∧ a = .ok ∧
        pool.connections = s.pool.connections ++ [c]) := by
  unfold put at h
  cases hc : (s.runs w).connection with
  | none =>
      simp only [hc, Option.some.injEq] at h
      exact ⟨s.pool, h.symm, Or.inl rfl⟩
  | some c =>
      simp only [hc] at h
      have hconn := s.pool.put_connections c now
      split at h
      · next u pool hput =>
        cases h
        rw [hput] at hconn
        cases hconn with
        | inl hold => exact ⟨pool, rfl, Or.inl hold⟩
        | inr hback => exact ⟨pool, rfl, Or.inr ⟨c, rfl, rfl, hback.2⟩⟩
      · next e e' pool hput =>
        cases h
        rw [hput] at hconn
        cases hconn with
        | inl hold => exact ⟨pool, rfl, Or.inl hold⟩
        | inr hback => simp at hback
      · cases h

/-- Giving the connection back to the pool. -/
theorem kept_put (h : s.Inv)
    (hpc : (∃ inExcept, (s.runs w).pc = .release inExcept) ∨ (s.runs w).pc = .del) {now : Int}
    (heffect : s.put w now a = some s₁) (hr : (s.runs w).step env a = some r') :
    Kept s (s₁.setRun w r') w := by
  have hmove := Run.step_move hr
  have hget : (s.runs w).pc ≠ .getIdle := by grind
  have hconnect : (s.runs w).pc ≠ .connect := by grind
  have hbusy : ∀ c isNew, (s.runs w).pc ≠ .busyAdd c isNew := by grind
  have hown := hmove.own (by grind) w
  -- the line of a connection that is to be released is drained
  have hdrained (c : ConnId) (hc : (s.runs w).holds = some c) : (s.lines c).outstanding = [] := by
    have hline := (h.held w c hc).2
    obtain ⟨inExcept, hpc⟩ | hpc := hpc
    · rwa [hpc] at hline
    · rwa [hpc] at hline
  have hrelease (c : ConnId) (hc : (s.runs w).holds = some c) :
      Run.LineAt w (s.response w).bytes (s.lines c) r' r'.pc ∧ (a = .ok → r'.holds = none) :=
    Run.lineAt_release hpc (hdrained c hc) hr
  obtain ⟨pool, rfl, hconn | ⟨c, hc, rfl, hconn⟩⟩ := put_cases heffect
  · exact .of_line h hmove hget hconnect (fun w' _ => ⟨rfl, rfl, rfl⟩) rfl hconn (fun c _ => rfl)
      (fun c hc _ => (hrelease c hc).1) (hown _ _)
  · have hheld : (s.runs w).holds = some c := holds_eq hbusy hc
    have hnot : c ∉ s.pool.connections := fun hidle => (h.idle c hidle).2.2 w hheld
    refine .of_move h hmove hget hconnect (fun w' _ => ⟨rfl, rfl, rfl⟩) rfl ?_ (fun c' hc' => ?_)
      (fun c _ => rfl) (fun c hc _ => (hrelease c hc).1) (hown _ _)
    · rw [hconn]
      exact List.Nodup.append h.nodup (List.nodup_singleton c) (by simpa using hnot)
    · rw [hconn] at hc'
      cases List.mem_append.mp hc' with
      | inl hold => exact Or.inl hold
      | inr hback =>
          obtain rfl : c' = c := List.mem_singleton.mp hback
          exact Or.inr ⟨hheld, by simp [(hrelease c' hheld).2 rfl], hdrained c' hheld⟩

/-- A run that waits for a connection has none. -/
theorem Inv.holds_eq_none (h : s.Inv) (hpc : (s.runs w).pc = .getIdle ∨ (s.runs w).pc = .connect) :
    (s.runs w).holds = none := by
  cases hc : (s.runs w).holds with
  | none => rfl
  | some c =>
      have hline := (h.held w c hc).2
      obtain hpc | hpc := hpc
      · rw [hpc] at hline
        exact hline.elim
      · rw [hpc] at hline
        exact hline.elim

/-- A run that waits for a connection goes on waiting, or gives up. -/
theorem Kept.of_none (h : s.Inv) (pool : EndpointConnectionPool)
    (hconn : pool.connections = s.pool.connections) (r' : Run) (hnone : r'.holds = none)
    (hrespond : ∀ data complete, r'.pc ≠ .respond data complete) :
    Kept s (({ s with pool } : Workers env).setRun w r') w where
  others w' hw := ⟨setRun_runs_of_ne hw, rfl, rfl⟩
  established := Nat.le_refl _
  nodup := hconn ▸ h.nodup
  idle c hc := by
    rw [setRun_runs, hnone]
    exact ⟨by simp, Or.inl (hconn ▸ hc)⟩
  lines c _ _ := rfl
  held c hc := by
    rw [setRun_runs, hnone] at hc
    cases hc
  own data complete hpc := by
    rw [setRun_runs] at hpc
    exact absurd hpc (hrespond data complete)

theorem getIdle_cases (h : s.getIdle a = some s₁) :
    (∃ e, a = .raise e) ∧ s₁ = s ∨ a = .noIdle ∧ s₁ = s ∨
      ∃ c q, a = .connection c ∧ s.pool.connections = c :: q ∧
        s₁ = { s with pool := { s.pool with connections := q } } := by
  unfold getIdle at h
  cases a with
  | raise e =>
      cases h
      exact Or.inl ⟨⟨e, rfl⟩, rfl⟩
  | noIdle =>
      obtain ⟨-, hget⟩ | ⟨-, -, hget⟩ | ⟨c, q, -, hq, hget⟩ := s.pool.getIdle_cases false
      · simp [hget] at h
      · simp only [hget, Option.some.injEq] at h
        exact Or.inr (Or.inl ⟨rfl, h.symm⟩)
      · simp [hget] at h
  | connection c =>
      obtain ⟨-, hget⟩ | ⟨-, -, hget⟩ | ⟨c', q, -, hq, hget⟩ := s.pool.getIdle_cases false
      · simp [hget] at h
      · simp [hget] at h
      · simp only [hget] at h
        split at h
        · next heq =>
          cases h
          exact Or.inr (Or.inr ⟨c, q, rfl, heq ▸ hq, rfl⟩)
        · cases h
  | _ => simp at h

/-- Taking an idle connection. -/
theorem kept_getIdle (h : s.Inv) (hpc : (s.runs w).pc = .getIdle)
    (heffect : s.getIdle a = some s₁) (hr : (s.runs w).step env a = some r') :
    Kept s (s₁.setRun w r') w := by
  have hnone := h.holds_eq_none (Or.inl hpc)
  have hconnection : (s.runs w).connection = none := by
    rw [← hnone]
    exact (Run.holds_eq (by simp [hpc])).symm
  simp only [Run.step, hpc] at hr
  obtain ⟨⟨e, rfl⟩, rfl⟩ | ⟨rfl, rfl⟩ | ⟨c, q, rfl, hq, rfl⟩ := getIdle_cases heffect
  · cases hr
    exact .of_none h s₁.pool rfl _ hconnection (by simp [Run.connectionError])
  · cases hr
    exact .of_none h s₁.pool rfl _ hconnection (by simp)
  · cases hr
    obtain ⟨hnotin, hnodup⟩ := List.nodup_cons.mp (hq ▸ h.nodup)
    have hmem : c ∈ s.pool.connections := hq ▸ List.mem_cons_self
    exact {
      others := fun w' hw => ⟨setRun_runs_of_ne hw, rfl, rfl⟩
      established := Nat.le_refl _
      nodup := hnodup
      idle := fun c' hc' => by
        rw [setRun_runs]
        refine ⟨fun hheld => hnotin ?_, Or.inl (hq ▸ List.mem_cons_of_mem c hc')⟩
        obtain rfl : c = c' := Option.some.inj hheld
        exact hc'
      lines := fun _ _ _ => rfl
      held := fun c' hc' => by
        rw [setRun_runs] at hc' ⊢
        obtain rfl : c = c' := Option.some.inj hc'
        obtain ⟨hdrained, hlt, -⟩ := h.idle c hmem
        exact ⟨hlt, hdrained, Or.inr (Or.inl hmem)⟩
      own := fun data complete hrespond => by
        rw [setRun_runs] at hrespond
        cases hrespond }

/-- Establishing a connection. -/
theorem kept_connect (h : s.Inv) (hpc : (s.runs w).pc = .connect) {now : Int}
    (heffect : s.connect now a = some s₁) (hr : (s.runs w).step env a = some r') :
    Kept s (s₁.setRun w r') w := by
  have hnone := h.holds_eq_none (Or.inr hpc)
  have hconnection : (s.runs w).connection = none := by
    rw [← hnone]
    exact (Run.holds_eq (by simp [hpc])).symm
  simp only [Run.step, hpc] at hr
  cases a with
  | raise e =>
      cases heffect
      cases hr
      exact .of_none h (s.pool.notEstablished now) rfl _ hconnection (by simp [Run.connectionError])
  | connection c =>
      cases hr
      simp only [connect] at heffect
      split at heffect
      · next heq =>
        cases heffect
        subst heq
        exact {
          others := fun w' hw => ⟨setRun_runs_of_ne hw, rfl, rfl⟩
          established := Nat.le_succ _
          nodup := h.nodup
          idle := fun c' hc' => by
            rw [setRun_runs]
            refine ⟨fun hheld => ?_, Or.inl hc'⟩
            obtain rfl : s.established = c' := Option.some.inj hheld
            exact absurd (h.idle _ hc').2.1 (Nat.lt_irrefl _)
          lines := fun c' _ hlt => by simp [setRun, Nat.ne_of_lt hlt]
          held := fun c' hc' => by
            rw [setRun_runs] at hc' ⊢
            obtain rfl : s.established = c' := Option.some.inj hc'
            refine ⟨Nat.lt_succ_self _, ?_, Or.inr (Or.inr (Nat.le_refl _))⟩
            simp [setRun, Run.LineAt, Line.fresh, Line.outstanding]
          own := fun data complete hrespond => by
            rw [setRun_runs] at hrespond
            cases hrespond }
      · cases heffect
  | _ => cases heffect

/-- **A call of a run keeps the invariant.** -/
theorem Inv.run (h : s.Inv) {now : Int} {response : FinalResponse env.parse}
    (hdrain : s.Drains (.run w now response a)) {s' : Workers env}
    (hs : s.step cfg (.run w now response a) = some s') : s'.Inv := by
  obtain ⟨s₁, heffect, hs⟩ := Option.bind_eq_some_iff.mp hs
  obtain ⟨r', hr, rfl⟩ := Option.map_eq_some_iff.mp hs
  suffices hkept : Kept s (s₁.setRun w r') w from h.of_run hkept
  cases hpc : (s.runs w).pc with
  | getIdle =>
      simp only [effect, hpc] at heffect
      exact kept_getIdle h hpc heffect hr
  | connect =>
      simp only [effect, hpc] at heffect
      exact kept_connect h hpc heffect hr
  | sendRequest | sendAgain =>
      simp only [effect, hpc] at heffect
      exact kept_send h (by rw [hpc]; rfl) heffect hr
  | reconnect =>
      simp only [effect, hpc] at heffect
      exact kept_reconnect h hpc heffect hr
  | busyRemove =>
      simp only [effect, hpc] at heffect
      exact kept_busyRemove h hpc heffect hr hdrain
  | scheduleBroken =>
      simp only [effect, hpc] at heffect
      exact kept_scheduleBroken h hpc heffect hr
  | recv =>
      simp only [effect, hpc] at heffect
      exact kept_recv h hpc heffect hr hdrain
  | closeConnection =>
      simp only [effect, hpc, Option.some.injEq] at heffect
      subst heffect
      exact kept_closeConnection h hpc hr
  | release inExcept =>
      simp only [effect, hpc] at heffect
      exact kept_put h (Or.inl ⟨inExcept, hpc⟩) heffect hr
  | del =>
      simp only [effect, hpc] at heffect
      exact kept_put h (Or.inr hpc) heffect hr
  | _ => exact kept_quiet h (by rw [hpc]; rfl) heffect hr hdrain

end Call

/-- The pool may lose idle connections to its threads. -/
theorem Inv.setPool {s : Workers env} (h : s.Inv) {pool : EndpointConnectionPool}
    (hsub : pool.connections.Sublist s.pool.connections) (closing : List ConnId) (ended : Bool) :
    Inv { s with pool, closing, closingThreadEnded := ended } where
  nodup := h.nodup.sublist hsub
  idle c hc := h.idle c (hsub.subset hc)
  exclusive := h.exclusive
  held := h.held
  own := h.own

/-- The closing thread may close any connection. -/
theorem Inv.closeLine {s : Workers env} (h : s.Inv) (c : ConnId) : (s.setLine c .closed).Inv where
  nodup := h.nodup
  idle c' hc' := by
    by_cases hc : c' = c
    · rw [hc, setLine_lines]
      exact ⟨rfl, hc ▸ (h.idle c' hc').2⟩
    · rw [setLine_lines_of_ne hc]
      exact h.idle c' hc'
  exclusive := h.exclusive
  held w c' hc' := by
    obtain ⟨hlt, hline⟩ := h.held w c' hc'
    refine ⟨hlt, ?_⟩
    by_cases hc : c' = c
    · rw [hc, setLine_lines]
      exact Run.lineAt_closed hline
    · rw [setLine_lines_of_ne hc]
      exact hline
  own := h.own

/-- **Every step that meets the guard keeps the invariant.** -/
theorem Inv.step {s s' : Workers env} (h : s.Inv) {l : Label env} (hdrain : s.Drains l)
    (hs : s.step cfg l = some s') : s'.Inv := by
  cases l with
  | run w now response a => exact h.run hdrain hs
  | disable =>
      cases hs
      exact h.setPool (s.pool.suspend_sublist .disabled) s.closing s.closingThreadEnded
  | outOfSync =>
      cases hs
      exact h.setPool (s.pool.suspend_sublist .outOfSync) s.closing s.closingThreadEnded
  | activate =>
      cases hs
      exact h.setPool (s.pool.activate_connections ▸ List.Sublist.refl _) s.closing s.closingThreadEnded
  | close =>
      cases hs
      exact h.setPool s.pool.close_sublist s.closing s.closingThreadEnded
  | cleanupPass now =>
      cases hs
      exact h.setPool (s.pool.cleanupPass_sublist cfg now) s.closing s.closingThreadEnded
  | closeQueueGet =>
      simp only [Workers.step] at hs
      split at hs
      · cases hs
      · obtain ⟨⟨c, pool⟩, hget, hs⟩ := Option.map_eq_some_iff.mp hs
        have hsub : pool.connections.Sublist s.pool.connections :=
          s.pool.closeQueueGet_connections hget ▸ List.Sublist.refl _
        cases c with
        | none =>
            cases hs
            exact h.setPool hsub s.closing true
        | some c =>
            cases hs
            exact h.setPool hsub (c :: s.closing) s.closingThreadEnded
  | closeLine c =>
      simp only [Workers.step] at hs
      split at hs
      · cases hs
        exact (h.closeLine c).setPool (List.Sublist.refl _) _ _
      · cases hs

/-! ## pairing -/

/-- **Response pairing.** Over every interleaving of the runs with each other, with the
administrator and with the threads of the pool, in which no exception goes to the outer
`except` of a run while a response is outstanding on the run's connection: what the
response handler of a run is given goes on with the response to the run's own request, and
nothing is outstanding on an idle connection. -/
theorem always_paired (cfg : PoolConfig) (ls : List (Label env))
    (hdrains : Guarded (Workers.step cfg) Drains {} ls) :
    Always (Workers.step cfg) Paired {} ls :=
  always_of_guarded _ (fun _ _ _ hinv hdrain hs => Inv.step hinv hdrain hs) (fun _ => Inv.paired)
    inv_init hdrains

/-! ## two runs -/

open Integrity (okResponse answering)

/-- The request for the block number, as it is read. -/
def blockNumberRequest : RPCRequest where
  userApiKey := "key"
  headers := str "Content-Length: 56\r\n"
  contentLen := 56
  content := str Mediation.blockNumberContent
  method := "eth_blockNumber"
  id := some (.int 1)
  httpMethod := str "POST"

/-- The answer of the endpoint. -/
def okFinal : FinalResponse answering.parse where
  bytes := okResponse
  final part _ hparse := by
    by_contra hne
    simp [answering, hne] at hparse

/-- Some calls of a run. -/
def calls (w : RunId) (answers : List Answer) : List (Label answering) :=
  answers.map (.run w 0 okFinal)

/-- The calls up to the receiving; `get` are those for the connection. -/
def sendCalls (get : List Answer) : List Answer :=
  .read (.success blockNumberRequest) :: get ++ [.ok, .ok]

/-- The calls of a run that serves its request. -/
def serveCalls (get : List Answer) : List Answer :=
  sendCalls get ++ [.data okResponse, .ok, .ok, .ok, .ok, .ok, .ok, .ok]

/-- A run that makes a connection, and one that uses it again. -/
def servedTwice : List (Label answering) :=
  calls 0 (serveCalls [.noIdle, .connection 0]) ++ calls 1 (serveCalls [.connection 0])

/-- A call without a failure. -/
def Answer.isSmooth : Answer → Bool
  | .cut _ _ | .raise _ => false
  | _ => true

theorem answering_parse_ne (bytes : Bytes) : answering.parse bytes ≠ .error := by
  show (if bytes = okResponse then ParseStatus.complete else ParseStatus.incomplete) ≠ .error
  split <;> simp

theorem drains_of_isSmooth {w : RunId} {a : Answer} (ha : Answer.isSmooth a)
    (s : Workers answering) : s.Drains (.run w 0 okFinal a) := by
  intro hescape
  cases a with
  | cut n e | raise e => cases ha
  | data bytes =>
      cases hpc : (s.runs w).pc <;> simp [hpc, Run.escapesAt, answering_parse_ne] at hescape
  | _ => cases hpc : (s.runs w).pc <;> simp [hpc, Run.escapesAt] at hescape

theorem drains_of_mem_calls {w : RunId} {answers : List Answer}
    (hsmooth : answers.all Answer.isSmooth) {l : Label answering} (hl : l ∈ calls w answers)
    (s : Workers answering) : s.Drains l := by
  obtain ⟨a, ha, rfl⟩ := List.mem_map.mp hl
  exact drains_of_isSmooth (List.all_eq_true.mp hsmooth a ha) s

/-- Two workers. -/
def twoWorkers : PoolConfig where
  numProxyWorkers := 2
  idleConnectionTimeout := 60

theorem always_paired_servedTwice :
    ((Trans.run (Workers.step twoWorkers) {} servedTwice).map fun s => (s.runs 1).toClient) =
        some okResponse ∧
      Always (Workers.step twoWorkers) Paired {} servedTwice := by
  refine ⟨by decide, always_paired twoWorkers servedTwice ?_⟩
  apply guarded_of_forall
  intro l hl s
  cases List.mem_append.mp hl with
  | inl hfirst => exact drains_of_mem_calls (by decide) hfirst s
  | inr hsecond => exact drains_of_mem_calls (by decide) hsecond s

/-- The endpoint is late, and the client has gone when it is to be told so; a further run
gets the connection. -/
def lateRun : List (Label answering) :=
  calls 0 (sendCalls [.noIdle, .connection 0] ++ [.notReady, .cut 0 .connection, .ok, .ok, .ok]) ++
    calls 1 (sendCalls [.connection 0] ++ [.data okResponse])

theorem not_always_paired : ¬ ∀ (env : ProxyEnv) (cfg : PoolConfig) (ls : List (Label env)),
    Always (Workers.step cfg) Paired {} ls := by
  intro hall
  have halways := hall answering twoWorkers lateRun
  have hend : ((Trans.run (Workers.step twoWorkers) {} lateRun).map fun s =>
      ((s.runs 1).pc, s.piece 1)) = some (.respond okResponse true, tag 0 okResponse) := by
    decide
  obtain ⟨s, hrun, hs⟩ := Option.map_eq_some_iff.mp hend
  rw [Prod.mk.injEq] at hs
  have hown := ((halways.last _ hrun).own 1 okResponse true hs.1).1
  rw [hs.2] at hown
  revert hown
  decide

end Workers

end Web3Proxy
