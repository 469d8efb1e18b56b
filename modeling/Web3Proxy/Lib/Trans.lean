import Mathlib.Data.List.Basic

/-!
# Web3Proxy.Lib.Trans

Labelled transition systems given by a partial step function: runs over a
list of labels, the states a run passes through, and the induction rules that
turn a fact about one step into a fact about a whole run.

A system is just `step : σ → ℓ → Option σ`; `none` means that the label is not
enabled.  All nondeterminism (which process moves, what the environment
answers) sits in the label, so a run is determined by its label list and can
be evaluated.

* `run_invariant` — an invariant of every step is an invariant of every run;
* `run_guarded` — the same when only steps that meet a guard are taken;
* `always_iff_guarded` — when meeting the guard is also necessary at each
  step, a run satisfies the property throughout iff all its steps meet it.
-/

namespace Trans

variable {σ ℓ : Type*} (step : σ → ℓ → Option σ)

/-! ## runs -/

/-- Take the steps labelled `ls`, in order; `none` if one of them is not
enabled. -/
def run : σ → List ℓ → Option σ
  | s, [] => some s
  | s, l :: ls => (step s l).bind fun s' => run s' ls

@[simp] theorem run_nil (s : σ) : run step s [] = some s := rfl

theorem run_cons (s : σ) (l : ℓ) (ls : List ℓ) :
    run step s (l :: ls) = (step s l).bind fun s' => run step s' ls := rfl

/-- A run over `l :: ls` is a step followed by a run. -/
theorem run_cons_eq_some {s t : σ} {l : ℓ} {ls : List ℓ} :
    run step s (l :: ls) = some t ↔ ∃ s', step s l = some s' ∧ run step s' ls = some t := by
  rw [run_cons, Option.bind_eq_some_iff]

/-- A run over `ls ++ ls'` is a run followed by a run. -/
theorem run_append {s t : σ} {ls : List ℓ} (h : run step s ls = some t) (ls' : List ℓ) :
    run step s (ls ++ ls') = run step t ls' := by
  induction ls generalizing s with
  | nil =>
      cases h
      rfl
  | cons l ls ih =>
      obtain ⟨s', hs', hrest⟩ := (run_cons_eq_some step).mp h
      rw [List.cons_append, run_cons, hs']
      exact ih hrest

/-! ## properties along a run -/

/-- `Q` holds in every state the run over `ls` passes through, the first and
the last included. -/
def Always (Q : σ → Prop) : σ → List ℓ → Prop
  | s, [] => Q s
  | s, l :: ls => Q s ∧ ∀ s', step s l = some s' → Always Q s' ls

/-- Every step of the run over `ls` is taken in a state and with a label that
meet `P`. -/
def Guarded (P : σ → ℓ → Prop) : σ → List ℓ → Prop
  | _, [] => True
  | s, l :: ls => ∀ s', step s l = some s' → P s l ∧ Guarded P s' ls

/-- A decidable guard can be checked along a run. -/
instance decidableGuarded (P : σ → ℓ → Prop) [∀ s l, Decidable (P s l)] (s : σ) (ls : List ℓ) :
    Decidable (Guarded step P s ls) :=
  match ls with
  | [] => isTrue trivial
  | l :: ls =>
      match h : step s l with
      | none => isTrue fun _ hs' => nomatch h.symm.trans hs'
      | some s' =>
          haveI := decidableGuarded P s' ls
          decidable_of_iff (P s l ∧ Guarded step P s' ls)
            ⟨fun hg _ hs' => Option.some.inj (h.symm.trans hs') ▸ hg, fun hg => hg s' h⟩

/-- A decidable property can be checked along a run. -/
instance decidableAlways (Q : σ → Prop) [∀ s, Decidable (Q s)] (s : σ) (ls : List ℓ) :
    Decidable (Always step Q s ls) :=
  match ls with
  | [] => inferInstanceAs (Decidable (Q s))
  | l :: ls =>
      match h : step s l with
      | none =>
          decidable_of_iff (Q s)
            ⟨fun hq => ⟨hq, fun _ hs' => nomatch h.symm.trans hs'⟩, fun hq => hq.1⟩
      | some s' =>
          haveI := decidableAlways Q s' ls
          decidable_of_iff (Q s ∧ Always step Q s' ls)
            ⟨fun hq => ⟨hq.1, fun _ hs' => Option.some.inj (h.symm.trans hs') ▸ hq.2⟩,
              fun hq => ⟨hq.1, hq.2 s' h⟩⟩

/-- **Invariant rule**: what every step preserves, every run preserves. -/
theorem run_invariant {I : σ → Prop}
    (hstep : ∀ s l s', I s → step s l = some s' → I s')
    {s t : σ} {ls : List ℓ} (hs : I s) (hrun : run step s ls = some t) : I t := by
  induction ls generalizing s with
  | nil => cases hrun; exact hs
  | cons l ls ih =>
      obtain ⟨s', hs', hrest⟩ := (run_cons_eq_some step).mp hrun
      exact ih (hstep s l s' hs hs') hrest

/-- **Invariant rule**, for all states along a run. -/
theorem always_of_invariant {I Q : σ → Prop}
    (hstep : ∀ s l s', I s → step s l = some s' → I s') (hinv : ∀ s, I s → Q s)
    {s : σ} (ls : List ℓ) (hs : I s) : Always step Q s ls := by
  induction ls generalizing s with
  | nil => exact hinv s hs
  | cons l ls ih => exact ⟨hinv s hs, fun s' hs' => ih (hstep s l s' hs hs')⟩

/-- **Guarded invariant rule**: what the steps meeting `P` preserve, every run
of such steps preserves. -/
theorem run_guarded {I : σ → Prop} {P : σ → ℓ → Prop}
    (hstep : ∀ s l s', I s → P s l → step s l = some s' → I s')
    {s t : σ} {ls : List ℓ} (hs : I s) (hg : Guarded step P s ls)
    (hrun : run step s ls = some t) : I t := by
  induction ls generalizing s with
  | nil => cases hrun; exact hs
  | cons l ls ih =>
      obtain ⟨s', hs', hrest⟩ := (run_cons_eq_some step).mp hrun
      obtain ⟨hp, hg'⟩ := hg s' hs'
      exact ih (hstep s l s' hs hp hs') hg' hrest

/-- **Guarded invariant rule**, for all states along a run. -/
theorem always_of_guarded {I Q : σ → Prop} {P : σ → ℓ → Prop}
    (hstep : ∀ s l s', I s → P s l → step s l = some s' → I s') (hinv : ∀ s, I s → Q s)
    {s : σ} {ls : List ℓ} (hs : I s) (hg : Guarded step P s ls) : Always step Q s ls := by
  induction ls generalizing s with
  | nil => exact hinv s hs
  | cons l ls ih =>
      refine ⟨hinv s hs, fun s' hs' => ?_⟩
      obtain ⟨hp, hrest⟩ := hg s' hs'
      exact ih (hstep s l s' hs hp hs') hrest

/-- **Guarded step rule**: what holds of each step that meets `P` in a state that such
steps lead to. -/
theorem Guarded.imp {I : σ → Prop} {P P' : σ → ℓ → Prop}
    (hstep : ∀ s l s', I s → P s l → step s l = some s' → I s')
    (himp : ∀ s l s', I s → P s l → step s l = some s' → P' s l)
    {s : σ} {ls : List ℓ} (hs : I s) (hg : Guarded step P s ls) : Guarded step P' s ls := by
  induction ls generalizing s with
  | nil => exact trivial
  | cons l ls ih =>
      intro s' hs'
      obtain ⟨hp, hrest⟩ := hg s' hs'
      exact ⟨himp s l s' hs hp hs', ih (hstep s l s' hs hp hs') hrest⟩

/-- A guard that the labels meet in every state. -/
theorem guarded_of_forall {P : σ → ℓ → Prop} {ls : List ℓ} (h : ∀ l ∈ ls, ∀ s, P s l) (s : σ) :
    Guarded step P s ls := by
  induction ls generalizing s with
  | nil => exact trivial
  | cons l ls ih =>
      exact fun s' _ =>
        ⟨h l List.mem_cons_self s, ih (fun m hm => h m (List.mem_cons_of_mem l hm)) s'⟩

/-- Two guards that the steps of a run meet. -/
theorem Guarded.and {P P' : σ → ℓ → Prop} {s : σ} {ls : List ℓ} (h : Guarded step P s ls)
    (h' : Guarded step P' s ls) : Guarded step (fun s l => P s l ∧ P' s l) s ls := by
  induction ls generalizing s with
  | nil => exact trivial
  | cons l ls ih =>
      intro s' hs'
      obtain ⟨hp, hrest⟩ := h s' hs'
      obtain ⟨hp', hrest'⟩ := h' s' hs'
      exact ⟨⟨hp, hp'⟩, ih hrest hrest'⟩

/-- What holds along a run holds after each of its steps. -/
theorem Always.guarded {R : σ → Prop} {s : σ} {ls : List ℓ} (h : Always step R s ls) :
    Guarded step (fun s l => ∀ s', step s l = some s' → R s') s ls := by
  induction ls generalizing s with
  | nil => exact trivial
  | cons l ls ih =>
      intro s' hs'
      have hnext : ∀ t, step s l = some t → R t := fun t ht => by
        cases ls with
        | nil => exact h.2 t ht
        | cons m ms => exact (h.2 t ht).1
      exact ⟨hnext, ih (h.2 s' hs')⟩

/-- A property that holds along a run holds at its end. -/
theorem Always.last {Q : σ → Prop} {s t : σ} {ls : List ℓ}
    (h : Always step Q s ls) (hrun : run step s ls = some t) : Q t := by
  induction ls generalizing s with
  | nil => cases hrun; exact h
  | cons l ls ih =>
      obtain ⟨s', hs', hrest⟩ := (run_cons_eq_some step).mp hrun
      exact ih (h.2 s' hs') hrest

/-- A property that holds along a run holds at its start. -/
theorem Always.first {Q : σ → Prop} {s : σ} {ls : List ℓ}
    (h : Always step Q s ls) : Q s := by
  cases ls with
  | nil => exact h
  | cons l ls => exact h.1

/-- **Exact guard rule**, for the end of a run along which `A` holds: the steps that meet `P`
keep `I`, any other step leads to where `D` holds ever after, and of the states that count as
an end `Q` holds in those with `I` and fails in those with `D`.  Then `Q` holds at the end exactly
when all steps have met `P`. -/
theorem last_iff_guarded_of_always {A I D F Q : σ → Prop} {P : σ → ℓ → Prop}
    (hgood : ∀ s l s', A s → I s → P s l → step s l = some s' → I s')
    (hbad : ∀ s l s', I s → ¬ P s l → step s l = some s' → D s')
    (hdoom : ∀ s l s', D s → step s l = some s' → D s')
    (hI : ∀ s, I s → F s → Q s) (hD : ∀ s, D s → F s → ¬ Q s)
    {s t : σ} {ls : List ℓ} (ha : Always step A s ls) (hs : I s)
    (hrun : run step s ls = some t) (ht : F t) :
    Q t ↔ Guarded step P s ls := by
  induction ls generalizing s with
  | nil =>
      cases hrun
      exact ⟨fun _ => trivial, fun _ => hI _ hs ht⟩
  | cons l ls ih =>
      obtain ⟨s', hs', hrest⟩ := (run_cons_eq_some step).mp hrun
      have huniq : ∀ s'', step s l = some s'' → s'' = s' := fun s'' hs'' =>
        Option.some.inj (hs''.symm.trans hs')
      by_cases hp : P s l
      · rw [ih (ha.2 s' hs') (hgood s l s' ha.1 hs hp hs') hrest]
        constructor
        · intro hg s'' hs''
          exact ⟨hp, huniq s'' hs'' ▸ hg⟩
        · exact fun hg => (hg s' hs').2
      · have hdoomed : D t := run_invariant step (fun s l s' => hdoom s l s')
          (hbad s l s' hs hp hs') hrest
        exact ⟨fun hq => absurd hq (hD t hdoomed ht), fun hg => absurd (hg s' hs').1 hp⟩

/-- The exact guard rule for the end of any run. -/
theorem last_iff_guarded {I D F Q : σ → Prop} {P : σ → ℓ → Prop}
    (hgood : ∀ s l s', I s → P s l → step s l = some s' → I s')
    (hbad : ∀ s l s', I s → ¬ P s l → step s l = some s' → D s')
    (hdoom : ∀ s l s', D s → step s l = some s' → D s')
    (hI : ∀ s, I s → F s → Q s) (hD : ∀ s, D s → F s → ¬ Q s)
    {s t : σ} {ls : List ℓ} (hs : I s) (hrun : run step s ls = some t) (ht : F t) :
    Q t ↔ Guarded step P s ls :=
  last_iff_guarded_of_always step (A := fun _ => True) (fun s l s' _ => hgood s l s') hbad hdoom
    hI hD (always_of_invariant step (I := fun _ => True) (fun _ _ _ _ _ => trivial)
      (fun _ _ => trivial) ls trivial) hs hrun ht

/-- **Exact guard rule**: let `I` be kept by the steps that meet `P` and
imply `Q`, and let every step that fails `P` end outside `Q`.  Then a run
satisfies `Q` throughout exactly when all its steps meet `P`. -/
theorem always_iff_guarded {I Q : σ → Prop} {P : σ → ℓ → Prop}
    (hinv : ∀ s, I s → Q s)
    (hgood : ∀ s l s', I s → P s l → step s l = some s' → I s')
    (hbad : ∀ s l s', I s → ¬ P s l → step s l = some s' → ¬ Q s')
    {s : σ} (ls : List ℓ) (hs : I s) : Always step Q s ls ↔ Guarded step P s ls := by
  induction ls generalizing s with
  | nil => exact ⟨fun _ => trivial, fun _ => hinv s hs⟩
  | cons l ls ih =>
      constructor
      · rintro ⟨-, hall⟩ s' hs'
        have hp : P s l := by
          by_contra hnp
          exact hbad s l s' hs hnp hs' ((hall s' hs').first step)
        exact ⟨hp, (ih (hgood s l s' hs hp hs')).mp (hall s' hs')⟩
      · intro hg
        refine ⟨hinv s hs, fun s' hs' => ?_⟩
        obtain ⟨hp, hrest⟩ := hg s' hs'
        exact (ih (hgood s l s' hs hp hs')).mpr hrest

/-! ## lists of processes -/

/-- Of a list of processes in which one has moved: the process is that one or has stayed. -/
theorem moved_cases {α : Type*} {ps : List α} {i j : Nat} {p q : α}
    (h : (ps.set i p)[j]? = some q) : j = i ∧ q = p ∨ j ≠ i ∧ ps[j]? = some q := by
  rw [List.getElem?_set] at h
  grind

/-- Of a list of processes that one has joined: the process is that one or was there. -/
theorem joined_cases {α : Type*} {ps : List α} {j : Nat} {p q : α}
    (h : (ps ++ [p])[j]? = some q) : ps[j]? = some q ∨ j = ps.length ∧ q = p := by
  rw [List.getElem?_append, List.getElem?_singleton] at h
  grind

/-- Of a list of processes in which one has moved: those of a kind are the same but for
that one. -/
theorem filter_moved {α : Type*} (k : α → Bool) {ps : List α} {i : Nat} {p : α} (q : α)
    (h : ps[i]? = some p) :
    ∃ before after, ps.filter k = before ++ (if k p then [p] else []) ++ after ∧
      (ps.set i q).filter k = before ++ (if k q then [q] else []) ++ after := by
  obtain ⟨hi, rfl⟩ := List.getElem?_eq_some_iff.mp h
  refine ⟨(ps.take i).filter k, (ps.drop (i + 1)).filter k, ?_, ?_⟩
  · conv_lhs => rw [← List.take_append_drop i ps, List.drop_eq_getElem_cons hi]
    rw [List.filter_append, List.filter_cons]
    split <;> simp
  · rw [List.set_eq_take_append_cons_drop, if_pos hi, List.filter_append, List.filter_cons]
    split <;> simp

end Trans
