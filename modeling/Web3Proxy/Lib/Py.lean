/-!
# Web3Proxy.Lib.Py

The Python runtime, as far as the models need it: the exceptions that built-in
operations raise, and the result of a method call on a mutable object, which
carries the object's state also when the call raises.
-/

namespace Py

/-- The built-in exceptions the modelled code can run into. -/
inductive PyError where
  | keyError
  | attributeError
  | queueEmpty
  | assertionError
  | overflowError
  | integrityError
  | doesNotExist
  | typeError
  | valueError
  | unicodeDecodeError
  | unicodeEncodeError
  | httpParserError
  | exception
deriving DecidableEq, Repr

/-- The outcome of a method call: a value or an exception, and the state the
object is left in. -/
inductive Result (σ α : Type) where
  | ok (a : α) (s : σ)
  | raise (e : PyError) (s : σ)
deriving Repr

namespace Result

variable {σ α β : Type}

/-- Do something with the value, if there is one. -/
def map (f : α → β) : Result σ α → Result σ β
  | .ok a s => .ok (f a) s
  | .raise e s => .raise e s

/-- Go on with the value and the state, unless an exception was raised. -/
def bind (r : Result σ α) (k : α → σ → Result σ β) : Result σ β :=
  match r with
  | .ok a s => k a s
  | .raise e s => .raise e s

@[simp] theorem bind_ok (a : α) (s : σ) (k : α → σ → Result σ β) :
    (Result.ok a s).bind k = k a s := rfl

@[simp] theorem bind_raise (e : PyError) (s : σ) (k : α → σ → Result σ β) :
    (Result.raise e s : Result σ α).bind k = .raise e s := rfl

/-- The state the object is left in, either way. -/
def state : Result σ α → σ
  | .ok _ s => s
  | .raise _ s => s

@[simp] theorem state_ok (a : α) (s : σ) : (Result.ok a s).state = s := rfl

@[simp] theorem state_raise (e : PyError) (s : σ) : (Result.raise e s : Result σ α).state = s := rfl

end Result

/-! ## loops -/

section Loops

variable {σ : Type} (body : σ → Result σ Unit)

/-- `for _ in range(n): body`. -/
def forRange : Nat → σ → Result σ Unit
  | 0, s => .ok () s
  | n + 1, s => (body s).bind fun _ s' => forRange n s'

/-- At most `n` rounds of `while cond: body`. -/
def whileLoop (cond : σ → Bool) : Nat → σ → Result σ Unit
  | 0, s => .ok () s
  | n + 1, s => if cond s then (body s).bind fun _ s' => whileLoop cond n s' else .ok () s

/-- `for x in xs: body`. -/
def forEach {α : Type} (body : α → σ → Result σ Unit) : List α → σ → Result σ Unit
  | [], s => .ok () s
  | x :: xs, s => (body x s).bind fun _ s' => forEach body xs s'

end Loops

section ForEach

variable {σ α β : Type} {body : α → σ → Result σ Unit}

/-- A loop over a concatenation is two loops. -/
theorem forEach_append (xs ys : List α) (s : σ) :
    forEach body (xs ++ ys) s = (forEach body xs s).bind fun _ s' => forEach body ys s' := by
  induction xs generalizing s with
  | nil => rfl
  | cons x xs ih =>
      simp only [List.cons_append, forEach]
      cases body x s with
      | ok _ s' => exact ih s'
      | raise e s' => rfl

/-- A loop whose body is a loop is one loop over all the inner items. -/
theorem forEach_flatMap (f : β → List α) (ys : List β) :
    forEach body (ys.flatMap f) = forEach (fun y => forEach body (f y)) ys := by
  funext s
  induction ys generalizing s with
  | nil => rfl
  | cons y ys ih => simp only [List.flatMap_cons, forEach_append, forEach, ih]

theorem forEach_map (f : β → α) (ys : List β) :
    forEach body (ys.map f) = forEach (fun y => body (f y)) ys := by
  funext s
  induction ys generalizing s with
  | nil => rfl
  | cons y ys ih => simp only [List.map_cons, forEach, ih]

/-- **Loop rule**: `P done s` says what holds when the items `done` have been
worked off; when the body always returns and takes `P done` to `P (done ++ [x])`,
the loop returns and ends in `P l`. -/
theorem forEach_ok {f : α → σ → Result σ Unit} {P : List α → σ → Prop} {l : List α} {s : σ}
    (hbody : ∀ done x rest s, l = done ++ x :: rest → P done s →
      ∃ s', f x s = .ok () s' ∧ P (done ++ [x]) s')
    (h : P [] s) : ∃ s', forEach f l s = .ok () s' ∧ P l s' := by
  suffices hgen : ∀ rest done s, l = done ++ rest → P done s →
      ∃ s', forEach f rest s = .ok () s' ∧ P l s' from hgen l [] s rfl h
  intro rest
  induction rest with
  | nil =>
      intro done s hl hP
      rw [List.append_nil] at hl
      exact ⟨s, rfl, hl ▸ hP⟩
  | cons x rest ih =>
      intro done s hl hP
      obtain ⟨s₁, hs₁, hP₁⟩ := hbody done x rest s hl hP
      obtain ⟨s₂, hs₂, hP₂⟩ := ih (done ++ [x]) s₁ (by simp [hl]) hP₁
      exact ⟨s₂, by rw [forEach, hs₁, Result.bind_ok, hs₂], hP₂⟩

/-- **Loop invariant**, whether or not the loop runs to its end. -/
theorem forEach_state {P : σ → Prop} {xs : List α} {s : σ}
    (hbody : ∀ x ∈ xs, ∀ s, P s → P (body x s).state) (h : P s) :
    P (forEach body xs s).state := by
  induction xs generalizing s with
  | nil => exact h
  | cons x xs ih =>
      have hx := hbody x List.mem_cons_self s h
      unfold forEach
      cases hr : body x s with
      | ok _ s' =>
          rw [hr] at hx
          exact ih (fun y hy => hbody y (List.mem_cons_of_mem x hy)) hx
      | raise e s' =>
          rw [hr] at hx
          exact hx

/-- **Failing loop**: when one item's body raises in every state that the other
items leave behind, the loop raises. -/
theorem forEach_raise {P : σ → Prop} {xs : List α} {x : α} {s : σ} (hx : x ∈ xs)
    (hbody : ∀ y ∈ xs, ∀ s s', P s → body y s = .ok () s' → P s')
    (hfail : ∀ s, P s → ∃ e s', body x s = .raise e s') (h : P s) :
    ∃ e s', forEach body xs s = .raise e s' := by
  induction xs generalizing s with
  | nil => cases hx
  | cons y ys ih =>
      unfold forEach
      cases hr : body y s with
      | raise e s' => exact ⟨e, s', rfl⟩
      | ok _ s' =>
          cases hx with
          | head =>
              obtain ⟨e, s'', hraise⟩ := hfail s h
              rw [hr] at hraise
              cases hraise
          | tail _ hmem =>
              exact ih hmem (fun z hz => hbody z (List.mem_cons_of_mem y hz))
                (hbody y List.mem_cons_self s s' h hr)

end ForEach

/-- A loop of checks raises what the first item that fails its check raises. -/
theorem forM_check {α ε : Type} {passes : α → Bool} {error : α → ε} {check : α → Except ε Unit}
    (hcheck : ∀ x, check x = if passes x then .ok () else .error (error x)) (xs : List α) :
    xs.forM check = match xs.find? fun x => !passes x with
      | none => .ok ()
      | some x => .error (error x) := by
  induction xs with
  | nil => rfl
  | cons x xs ih =>
      show (check x >>= fun _ => xs.forM check) = _
      rw [hcheck x, ih, List.find?_cons]
      cases passes x with
      | true => rfl
      | false => rfl

end Py
