import Web3Proxy.Lib.Json.Fuel
import Mathlib.Data.List.Find

/-!
# Web3Proxy.Lib.Json.Paste

Pasting a text as the value of the last member of an object.

* `scanNumber_append`, `scanConstant_append`, `scanChars_append` — a scan does not mind
  what comes behind the text;
* `pasted` — a scan of a text with a tail that closes the object stops in the text, or
  goes through to where the tail ends;
* `closing_iff` — two such tails are as good as each other.
-/

namespace Json

/-- The text begins with a comma or a closing bracket. -/
def Delimited (t : List Char) : Prop := ∃ c rest, t = c :: rest ∧ (c = ',' ∨ c = ']' ∨ c = '\x7d')

theorem Delimited.head_ne {t : List Char} (ht : Delimited t) {p : Char → Bool}
    (hp : ∀ c ∈ [',', ']', '\x7d'], p c = false) : ∀ c ∈ t.head?, p c = false := by
  obtain ⟨c, rest, rfl, hc⟩ := ht
  intro d hd
  obtain rfl : c = d := by simpa using hd
  exact hp c (by simpa using hc)

/-! ## numbers and constants -/

theorem span_append {p : Char → Bool} {s t : List Char} (ht : ∀ c ∈ t.head?, p c = false) :
    (s ++ t).takeWhile p = s.takeWhile p ∧ (s ++ t).dropWhile p = s.dropWhile p ++ t := by
  induction s with
  | nil =>
      cases t with
      | nil => simp
      | cons c t =>
          have hc := ht c rfl
          simp [hc]
  | cons c s ih => by_cases hc : p c = true <;> simp [hc, ih.1, ih.2]

variable {floatText : String → String} {s t : List Char}

theorem skip_append (ht : Delimited t) : skip (s ++ t) = skip s ++ t :=
  (span_append (ht.head_ne (by decide))).2

theorem scanDigits_append (ht : Delimited t) :
    scanDigits (s ++ t) = (scanDigits s).map fun r => (r.1, r.2 ++ t) := by
  have hdigit := ht.head_ne (p := Char.isDigit) (by decide)
  cases s with
  | nil =>
      obtain ⟨c, rest, rfl, rfl | rfl | rfl⟩ := ht <;> rfl
  | cons c s =>
      by_cases hc : c = '0'
      · rw [hc]
        rfl
      · have hscan (rest : List Char) : scanDigits (c :: rest) =
            if (c :: rest).takeWhile Char.isDigit = [] then none
            else some ((c :: rest).takeWhile Char.isDigit, (c :: rest).dropWhile Char.isDigit) := by
          unfold scanDigits
          split
          · next heq => exact absurd (List.cons.inj heq).1 hc
          · rfl
        have hspan := span_append (s := c :: s) hdigit
        rw [List.cons_append] at hspan ⊢
        rw [hscan, hscan, hspan.1, hspan.2]
        split <;> rfl

theorem scanFraction_append (ht : Delimited t) :
    scanFraction (s ++ t) = ((scanFraction s).1, (scanFraction s).2 ++ t) := by
  have hdigit := ht.head_ne (p := Char.isDigit) (by decide)
  cases s with
  | nil => obtain ⟨c, rest, rfl, rfl | rfl | rfl⟩ := ht <;> rfl
  | cons c s =>
      by_cases hc : c = '.'
      · have hspan := span_append (s := s) hdigit
        simp only [hc, scanFraction, List.cons_append, hspan.1, hspan.2]
        split <;> rfl
      · have hscan (rest : List Char) : scanFraction (c :: rest) = ([], c :: rest) := by
          unfold scanFraction
          split
          · next heq => exact absurd (List.cons.inj heq).1 hc
          · rfl
        rw [List.cons_append, hscan, hscan, List.cons_append]

theorem scanExponent_append (ht : Delimited t) :
    scanExponent (s ++ t) = ((scanExponent s).1, (scanExponent s).2 ++ t) := by
  have hdigit := ht.head_ne (p := Char.isDigit) (by decide)
  cases s with
  | nil => obtain ⟨c, rest, rfl, rfl | rfl | rfl⟩ := ht <;> rfl
  | cons e s =>
      have hsign : ((s ++ t).take 1).filter (fun c => c = '-' ∨ c = '+') =
          (s.take 1).filter fun c => c = '-' ∨ c = '+' := by
        cases s with
        | nil => obtain ⟨c, rest, rfl, rfl | rfl | rfl⟩ := ht <;> rfl
        | cons c s => rfl
      have hlength : ((s.take 1).filter fun c => c = '-' ∨ c = '+').length ≤ s.length :=
        ((List.filter_sublist).trans (List.take_sublist 1 s)).length_le
      have hspan := span_append (s := s.drop ((s.take 1).filter fun c => c = '-' ∨ c = '+').length)
        hdigit
      rw [List.cons_append]
      simp only [scanExponent, hsign, List.drop_append_of_le_length hlength, hspan.1, hspan.2]
      split
      · split <;> rfl
      · rfl

theorem scanNumber_append (ht : Delimited t) :
    scanNumber floatText (s ++ t) = (scanNumber floatText s).map fun r => (r.1, r.2 ++ t) := by
  have hsign : (if (s ++ t).head? = some '-' then ['-'] else []) =
      if s.head? = some '-' then ['-'] else [] := by
    cases s with
    | nil => obtain ⟨c, rest, rfl, rfl | rfl | rfl⟩ := ht <;> rfl
    | cons c s => rfl
  have hlength : (if s.head? = some '-' then ['-'] else []).length ≤ s.length := by
    split
    · next hhead =>
      obtain ⟨tail, rfl⟩ := List.head?_eq_some_iff.mp hhead
      simp
    · exact Nat.zero_le _
  unfold scanNumber
  rw [hsign]
  simp only [List.drop_append_of_le_length hlength, scanDigits_append ht]
  cases scanDigits (s.drop (if s.head? = some '-' then ['-'] else []).length) with
  | none => rfl
  | some r =>
      simp only [Option.map_some, Option.bind_eq_bind, Option.bind_some, scanFraction_append ht,
        scanExponent_append ht]
      split <;> rfl

theorem isPrefixOf_append {p : List Char} (hp : ∀ c ∈ t.head?, c ∉ p) :
    p.isPrefixOf (s ++ t) = p.isPrefixOf s := by
  induction p generalizing s with
  | nil => simp
  | cons d p ih =>
      cases s with
      | nil =>
          cases t with
          | nil => rfl
          | cons c t =>
              have hc := hp c rfl
              have hne : d ≠ c := fun heq => hc (heq ▸ List.mem_cons_self)
              simp [List.isPrefixOf, hne]
      | cons c s =>
          have hrest := ih (s := s) fun c hc hmem => hp c hc (List.mem_cons_of_mem d hmem)
          simp [List.isPrefixOf, hrest]

theorem scanConstant_append (ht : Delimited t) :
    scanConstant (s ++ t) = (scanConstant s).map fun r => (r.1, r.2 ++ t) := by
  have hprefix : ∀ c ∈ constants, c.1.toList.isPrefixOf (s ++ t) = c.1.toList.isPrefixOf s := by
    intro c hc
    apply isPrefixOf_append
    obtain ⟨d, rest, rfl, hd⟩ := ht
    have hletters : ∀ p ∈ constants.map fun c => c.1.toList, ∀ d ∈ [',', ']', '\x7d'], d ∉ p := by
      decide
    intro e he
    obtain rfl : d = e := by simpa using he
    exact hletters _ (List.mem_map_of_mem hc) d (by simpa using hd)
  have hfind : constants.find? (fun c => c.1.toList.isPrefixOf (s ++ t)) =
      constants.find? fun c => c.1.toList.isPrefixOf s := List.find?_congr hprefix
  rw [scanConstant, scanConstant, hfind]
  cases hc : constants.find? fun c => c.1.toList.isPrefixOf s with
  | none => rfl
  | some c =>
      have hprefix := List.find?_some hc
      have hle := (List.isPrefixOf_iff_prefix.mp hprefix).length_le
      rw [String.length_toList] at hle
      simp [List.drop_append_of_le_length hle]

/-! ## strings -/

theorem Chars.append {str : PyStr} {rest : List Char} (h : Chars s str rest) :
    Chars (s ++ t) str (rest ++ t) := by
  induction h with
  | close => exact .close
  | plain hc _ ih => exact .plain hc ih
  | escape he _ ih =>
      rw [List.cons_append, List.append_assoc]
      exact .escape he ih

theorem Escape.not_delimited {e : List Char} {unit : CodePoint} (he : Escape e unit) :
    ∀ c ∈ e, c ∉ [',', ']', '\x7d'] := by
  have hlookup : ∀ c ∈ [',', ']', '\x7d'], backslash.lookup c = none := by decide
  have hdigit : ∀ c ∈ [',', ']', '\x7d'], hexDigit c = none := by decide
  intro c hc hdelimiter
  cases he with
  | short hchar =>
      rw [← List.mem_singleton.mp hc, hlookup c hdelimiter] at hchar
      cases hchar
  | @unicode a b c' d unit hunit =>
      have hnone := hdigit c hdelimiter
      simp only [codeUnit, Option.bind_eq_bind, Option.bind_eq_some_iff] at hunit
      obtain ⟨_, ha, _, hb, _, hc', _, hd, -⟩ := hunit
      have hu : c ≠ 'u' := by
        rintro rfl
        exact absurd hdelimiter (by decide)
      simp only [List.mem_cons, List.not_mem_nil, or_false] at hc
      obtain heq | rfl | rfl | rfl | rfl := hc
      · exact hu heq
      · cases hnone.symm.trans ha
      · cases hnone.symm.trans hb
      · cases hnone.symm.trans hc'
      · cases hnone.symm.trans hd

/-- A string that is not closed in the text goes on with the tail. -/
theorem Chars.of_append {str : PyStr} {rest : List Char} (ht : Delimited t)
    (h : Chars (s ++ t) str rest) :
    (∃ s', Chars s str s' ∧ rest = s' ++ t) ∨ ∃ str', Chars t str' rest := by
  generalize hcs : s ++ t = cs at h
  induction h generalizing s with
  | @close rest =>
      cases s with
      | nil => exact Or.inr ⟨_, by rw [List.nil_append] at hcs; rw [hcs]; exact .close⟩
      | cons c s =>
          cases hcs
          exact Or.inl ⟨s, .close, rfl⟩
  | @plain c cs str rest hc hrest ih =>
      cases s with
      | nil => exact Or.inr ⟨_, by rw [List.nil_append] at hcs; rw [hcs]; exact .plain hc hrest⟩
      | cons d s =>
          cases hcs
          obtain ⟨s', hs, hsplit⟩ | hcross := ih rfl
          · exact Or.inl ⟨s', .plain hc hs, hsplit⟩
          · exact Or.inr hcross
  | @escape e unit cs str rest he hrest ih =>
      cases s with
      | nil => exact Or.inr ⟨_, by rw [List.nil_append] at hcs; rw [hcs]; exact .escape he hrest⟩
      | cons d s =>
          rw [List.cons_append] at hcs
          obtain ⟨rfl, happend⟩ := List.cons.inj hcs
          obtain ⟨as, rfl, htail⟩ | ⟨bs, rfl, htail⟩ := List.append_eq_append_iff.mp happend
          · -- an escape does not reach into the tail
            obtain ⟨c, tail, rfl, hc⟩ := ht
            cases as with
            | nil => exact Or.inr ⟨_, by rw [htail]; exact hrest⟩
            | cons a as =>
                obtain ⟨rfl, -⟩ := List.cons.inj htail
                exact absurd (by simpa using hc) (he.not_delimited c (by simp))
          · obtain ⟨s', hs, hsplit⟩ | hcross := ih htail.symm
            · exact Or.inl ⟨s', .escape he hs, hsplit⟩
            · exact Or.inr hcross

theorem scanString_append {str : PyStr} {rest : List Char} (h : scanString s = some (str, rest)) :
    scanString (s ++ t) = some (str, rest ++ t) := by
  obtain ⟨⟨str', rest'⟩, hscan, heq⟩ := Option.map_eq_some_iff.mp h
  cases heq
  rw [scanString, scanChars_iff.mpr (scanChars_iff.mp hscan).append]
  rfl

theorem scanString_of_append {str : PyStr} {rest : List Char} (ht : Delimited t)
    (h : scanString (s ++ t) = some (str, rest)) :
    (∃ s', scanString s = some (str, s') ∧ rest = s' ++ t) ∨ ∃ str', Chars t str' rest := by
  obtain ⟨⟨str', rest'⟩, hscan, heq⟩ := Option.map_eq_some_iff.mp h
  cases heq
  obtain ⟨s', hs, hsplit⟩ | hcross := (scanChars_iff.mp hscan).of_append ht
  · exact Or.inl ⟨s', by rw [scanString, scanChars_iff.mpr hs]; rfl, hsplit⟩
  · exact Or.inr hcross

/-! ## values -/

theorem expect_append {c : Char} {rest : List Char} (h : expect c s = some rest) :
    expect c (s ++ t) = some (rest ++ t) := by
  unfold expect at h
  split at h
  · next hhead =>
    obtain ⟨tail, rfl⟩ := List.head?_eq_some_iff.mp hhead
    cases h
    simp [expect]
  · cases h

theorem expect_append_none {c : Char} (hs : s ≠ []) (h : expect c s = none) :
    expect c (s ++ t) = none := by
  obtain ⟨d, s', rfl⟩ := List.exists_cons_of_ne_nil hs
  unfold expect at h ⊢
  split at h
  · cases h
  · next hhead => exact if_neg hhead

theorem expect_of_append {c : Char} {rest : List Char} (hs : s ≠ [])
    (h : expect c (s ++ t) = some rest) : ∃ s', expect c s = some s' ∧ rest = s' ++ t := by
  cases hexpect : expect c s with
  | none => rw [expect_append_none hs hexpect] at h; cases h
  | some s' =>
      rw [expect_append hexpect] at h
      exact ⟨s', rfl, (Option.some.inj h).symm⟩

theorem expect_skip_append {c : Char} {rest : List Char} (ht : Delimited t)
    (h : expect c (skip s) = some rest) : expect c (skip (s ++ t)) = some (rest ++ t) := by
  rw [skip_append ht]
  exact expect_append h

theorem expect_skip_append_none {c : Char} (ht : Delimited t) (hs : skip s ≠ [])
    (h : expect c (skip s) = none) : expect c (skip (s ++ t)) = none := by
  rw [skip_append ht]
  exact expect_append_none hs h

theorem ne_nil_of_expect {c : Char} {rest : List Char} (h : expect c s = some rest) : s ≠ [] := by
  rintro rfl
  cases h

theorem ne_nil_of_scanMembers {fuel : Nat} {r : List (PyStr × Json) × List Char}
    (h : scanMembers floatText fuel s = some r) : s ≠ [] := by
  rintro rfl
  have hlt := (shrinks fuel).members h
  simp at hlt

theorem ne_nil_of_scanItems {fuel : Nat} {r : List Json × List Char}
    (h : scanItems floatText fuel s = some r) : s ≠ [] := by
  rintro rfl
  have hlt := (shrinks fuel).items h
  simp at hlt

/-- What is scanned is scanned in front of a tail, too. -/
structure Appended (floatText : String → String) (t : List Char) (fuel : Nat) : Prop where
  once : ∀ {s rest value}, scanOnce floatText fuel s = some (value, rest) →
    scanOnce floatText fuel (s ++ t) = some (value, rest ++ t)
  members : ∀ {s rest members}, scanMembers floatText fuel s = some (members, rest) →
    scanMembers floatText fuel (s ++ t) = some (members, rest ++ t)
  items : ∀ {s rest items}, scanItems floatText fuel s = some (items, rest) →
    scanItems floatText fuel (s ++ t) = some (items, rest ++ t)

theorem Appended.succ (ht : Delimited t) {fuel : Nat} (h : Appended floatText t fuel) :
    Appended floatText t (fuel + 1) where
  once := by
    intro s rest value hscan
    rw [scanOnce_iff] at hscan ⊢
    cases hscan with
    | str hstring => exact .str (scanString_append hstring)
    | emptyObj hclose => exact .emptyObj (expect_skip_append ht hclose)
    | obj hopen hmembers =>
        have hmembers' := h.members hmembers
        rw [← skip_append ht] at hmembers'
        exact .obj (expect_skip_append_none ht (ne_nil_of_scanMembers hmembers) hopen) hmembers'
    | emptyArr hclose => exact .emptyArr (expect_skip_append ht hclose)
    | arr hopen hitems =>
        have hitems' := h.items hitems
        rw [← skip_append ht] at hitems'
        exact .arr (expect_skip_append_none ht (ne_nil_of_scanItems hitems) hopen) hitems'
    | constant hc hconstant =>
        rw [List.cons_append]
        exact .constant hc (by rw [← List.cons_append, scanConstant_append ht, hconstant]; rfl)
    | number hc hconstant hnumber =>
        rw [List.cons_append]
        exact .number hc (by rw [← List.cons_append, scanConstant_append ht, hconstant]; rfl)
          (by rw [← List.cons_append, scanNumber_append ht, hnumber]; rfl)
  members := by
    intro s rest members hscan
    rw [scanMembers_iff] at hscan ⊢
    cases hscan with
    | last hquote hkey hcolon hvalue hclose =>
        have hvalue' := h.once hvalue
        rw [← skip_append ht] at hvalue'
        exact .last (expect_append hquote) (scanString_append hkey) (expect_skip_append ht hcolon)
          hvalue' (expect_skip_append ht hclose)
    | more hquote hkey hcolon hvalue hopen hcomma hmore =>
        have hvalue' := h.once hvalue
        have hmore' := h.members hmore
        rw [← skip_append ht] at hvalue' hmore'
        exact .more (expect_append hquote) (scanString_append hkey) (expect_skip_append ht hcolon)
          hvalue' (expect_skip_append_none ht (ne_nil_of_expect hcomma) hopen)
          (expect_skip_append ht hcomma) hmore'
  items := by
    intro s rest items hscan
    rw [scanItems_iff] at hscan ⊢
    cases hscan with
    | last hvalue hclose => exact .last (h.once hvalue) (expect_skip_append ht hclose)
    | more hvalue hopen hcomma hmore =>
        have hmore' := h.items hmore
        rw [← skip_append ht] at hmore'
        exact .more (h.once hvalue) (expect_skip_append_none ht (ne_nil_of_expect hcomma) hopen)
          (expect_skip_append ht hcomma) hmore'

theorem appended (ht : Delimited t) (fuel : Nat) : Appended floatText t fuel := by
  induction fuel with
  | zero => exact ⟨by simp [scanOnce], by simp [scanMembers], by simp [scanItems]⟩
  | succ fuel ih => exact ih.succ ht

/-! ## tails that close an object -/

variable (floatText)

/-- After the white space nothing comes that may follow a key or a value. -/
def Stuck (rest : List Char) : Prop := ∀ c ∈ [',', ':', ']', '\x7d'], expect c (skip rest) = none

/-- The text goes on behind a value with the end of the object, or with more members. -/
inductive Closes (fuel : Nat) (t rest : List Char) : Prop where
  | last (hclose : expect '\x7d' t = some rest)
  | more {cs members} (hopen : expect '\x7d' t = none) (hcomma : expect ',' t = some cs)
      (hmore : scanMembers floatText fuel (skip cs) = some (members, rest))

/-- Behind the value of a member the tail closes the object, up to `stop`, and it does
nothing else: it goes on neither in a string nor in an array. -/
structure Closing (t stop : List Char) : Prop where
  head : ∃ c rest, t = c :: rest ∧ (c = ',' ∨ c = '\x7d')
  string : ∀ {str rest}, Chars t str rest → Stuck rest
  item : ∀ {fuel cs r}, expect ',' t = some cs → scanItems floatText fuel (skip cs) ≠ some r
  sound : ∀ {fuel rest}, Closes floatText fuel t rest → rest = stop
  closes : ∃ fuel, Closes floatText fuel t stop
  stop : skip stop = []

variable {floatText} {t' stop stop' : List Char} {fuel : Nat}

theorem Closing.delimited (h : Closing floatText t stop) : Delimited t := by
  obtain ⟨c, rest, rfl, hc⟩ := h.head
  exact ⟨c, rest, rfl, hc.imp_right Or.inr⟩

theorem Closing.expect_none (h : Closing floatText t stop) {c : Char} (hc : c ≠ ',' ∧ c ≠ '\x7d') :
    expect c t = none := by
  obtain ⟨d, rest, rfl, rfl | rfl⟩ := h.head
  · exact if_neg (by simpa using Ne.symm hc.1)
  · exact if_neg (by simpa using Ne.symm hc.2)

theorem Closing.stuck (h : Closing floatText t stop) : Stuck stop := by
  intro c _
  rw [h.stop]
  rfl

theorem Delimited.scanOnce_none (ht : Delimited t) : scanOnce floatText fuel t = none := by
  cases fuel with
  | zero => rfl
  | succ fuel => obtain ⟨c, rest, rfl, rfl | rfl | rfl⟩ := ht <;> rfl

/-- The text up to the end of a member's value. -/
inductive Member (floatText : String → String) (fuel : Nat) (s : List Char) (m : PyStr × Json)
    (s₄ : List Char) : Prop where
  | intro {s₁ s₂ s₃} (hquote : expect '"' s = some s₁) (hkey : scanString s₁ = some (m.1, s₂))
      (hcolon : expect ':' (skip s₂) = some s₃)
      (hvalue : scanOnce floatText fuel (skip s₃) = some (m.2, s₄))

variable {m : PyStr × Json}

/-- An object is closed by what closes it behind one of its members. -/
theorem Member.scanMembers {s₄ rest : List Char} {g : Nat} (h : Member floatText fuel s m s₄)
    (hcloses : Closes floatText g (skip s₄) rest) :
    ∃ f members, scanMembers floatText f s = some (members, rest) := by
  obtain @⟨s₁, s₂, s₃, hquote, hkey, hcolon, hvalue⟩ := h
  cases hcloses with
  | last hclose =>
      exact ⟨fuel + 1, _, scanMembers_iff.mpr (.last hquote hkey hcolon hvalue hclose)⟩
  | @more s₅ members hopen hcomma hmore =>
      have hvalue' := (enough _).once hvalue (2 * (skip s₃).length + 2 * (skip s₅).length + 1)
        (by omega)
      have hmore' := (enough _).members hmore (2 * (skip s₃).length + 2 * (skip s₅).length + 1)
        (by omega)
      exact ⟨_, _, scanMembers_iff.mpr (.more hquote hkey hcolon hvalue' hopen hcomma hmore')⟩

/-- The same in front of a tail. -/
theorem Member.append {s₄ : List Char} (ht : Delimited t) (h : Member floatText fuel s m s₄) :
    Member floatText fuel (s ++ t) m (s₄ ++ t) := by
  obtain ⟨hquote, hkey, hcolon, hvalue⟩ := h
  have hvalue' := (appended ht fuel).once hvalue
  rw [← skip_append ht] at hvalue'
  exact ⟨expect_append hquote, scanString_append hkey, expect_skip_append ht hcolon, hvalue'⟩

/-- A scan of a text with a tail stops in the text, or gets stuck in the tail; members
may end with the tail, and then they do with any other tail. -/
structure Pasted (floatText : String → String) (t t' stop' : List Char) (fuel : Nat) : Prop where
  once : ∀ {s rest value}, scanOnce floatText fuel (s ++ t) = some (value, rest) →
    (∃ s', scanOnce floatText fuel s = some (value, s') ∧ rest = s' ++ t) ∨ Stuck rest
  members : ∀ {s rest members}, scanMembers floatText fuel (s ++ t) = some (members, rest) →
    (∃ s', scanMembers floatText fuel s = some (members, s') ∧ rest = s' ++ t) ∨
      Stuck rest ∧ ∃ f members', scanMembers floatText f (s ++ t') = some (members', stop')
  items : ∀ {s rest items}, scanItems floatText fuel (s ++ t) = some (items, rest) →
    ∃ s', scanItems floatText fuel s = some (items, s') ∧ rest = s' ++ t

theorem not_stuck {c : Char} {rest rest' : List Char} (hc : c ∈ [',', ':', ']', '\x7d'])
    (h : expect c (skip rest) = some rest') : ¬ Stuck rest := by
  intro hstuck
  rw [hstuck c hc] at h
  cases h

theorem expect_none_of_append {c : Char} (h : expect c (s ++ t) = none) : expect c s = none := by
  cases hexpect : expect c s with
  | none => rfl
  | some rest => rw [expect_append hexpect] at h; cases h

/-- Where something comes that is neither a comma nor the end of an object, the text has
not ended. -/
theorem Closing.expect_of_append (h : Closing floatText t stop) {c : Char} {rest : List Char}
    (hc : c ≠ ',' ∧ c ≠ '\x7d') (hexpect : expect c (s ++ t) = some rest) :
    ∃ s', expect c s = some s' ∧ rest = s' ++ t := by
  apply Json.expect_of_append _ hexpect
  rintro rfl
  rw [List.nil_append, h.expect_none hc] at hexpect
  cases hexpect

theorem Pasted.member (h : Closing floatText t stop) (ih : Pasted floatText t t' stop' fuel)
    {s₄ : List Char} (hmember : Member floatText fuel (s ++ t) m s₄) (hstuck : ¬ Stuck s₄) :
    ∃ s', Member floatText fuel s m s' ∧ s₄ = s' ++ t := by
  obtain ⟨hquote, hkey, hcolon, hvalue⟩ := hmember
  obtain ⟨s₁, hquote', rfl⟩ := h.expect_of_append (by decide) hquote
  obtain ⟨s₂, hkey', rfl⟩ | ⟨str, hcross⟩ := scanString_of_append h.delimited hkey
  · rw [skip_append h.delimited] at hcolon
    obtain ⟨s₃, hcolon', rfl⟩ := h.expect_of_append (by decide) hcolon
    rw [skip_append h.delimited] at hvalue
    obtain ⟨s₄, hvalue', rfl⟩ | hstuck' := ih.once hvalue
    · exact ⟨s₄, ⟨hquote', hkey', hcolon', hvalue'⟩, rfl⟩
    · exact absurd hstuck' hstuck
  · exact absurd (h.string hcross) (not_stuck (by simp) hcolon)

theorem Pasted.succ (h : Closing floatText t stop) (h' : Closing floatText t' stop')
    (ih : Pasted floatText t t' stop' fuel) : Pasted floatText t t' stop' (fuel + 1) where
  once := by
    intro s rest value hscan
    cases s with
    | nil =>
        rw [List.nil_append, h.delimited.scanOnce_none] at hscan
        cases hscan
    | cons c s =>
        rw [List.cons_append, scanOnce_iff] at hscan
        cases hscan with
        | str hstring =>
            obtain ⟨s', hs, hsplit⟩ | ⟨str, hcross⟩ := scanString_of_append h.delimited hstring
            · exact Or.inl ⟨s', scanOnce_iff.mpr (.str hs), hsplit⟩
            · exact Or.inr (h.string hcross)
        | emptyObj hclose =>
            rw [skip_append h.delimited] at hclose
            by_cases hs : skip s = []
            · rw [hs, List.nil_append] at hclose
              have hlast : Closes floatText 0 t rest := .last hclose
              exact Or.inr (h.sound hlast ▸ h.stuck)
            · obtain ⟨s', hs, hsplit⟩ := Json.expect_of_append hs hclose
              exact Or.inl ⟨s', scanOnce_iff.mpr (.emptyObj hs), hsplit⟩
        | obj hopen hmembers =>
            rw [skip_append h.delimited] at hopen hmembers
            obtain ⟨s', hs, hsplit⟩ | ⟨hstuck, -⟩ := ih.members hmembers
            · exact Or.inl ⟨s', scanOnce_iff.mpr (.obj (expect_none_of_append hopen) hs), hsplit⟩
            · exact Or.inr hstuck
        | emptyArr hclose =>
            rw [skip_append h.delimited] at hclose
            obtain ⟨s', hs, hsplit⟩ := h.expect_of_append (by decide) hclose
            exact Or.inl ⟨s', scanOnce_iff.mpr (.emptyArr hs), hsplit⟩
        | arr hopen hitems =>
            rw [skip_append h.delimited] at hopen hitems
            obtain ⟨s', hs, hsplit⟩ := ih.items hitems
            exact Or.inl ⟨s', scanOnce_iff.mpr (.arr (expect_none_of_append hopen) hs), hsplit⟩
        | constant hc hconstant =>
            rw [← List.cons_append, scanConstant_append h.delimited,
              Option.map_eq_some_iff] at hconstant
            obtain ⟨⟨value', s'⟩, hs, heq⟩ := hconstant
            cases heq
            exact Or.inl ⟨s', scanOnce_iff.mpr (.constant hc hs), rfl⟩
        | number hc hconstant hnumber =>
            rw [← List.cons_append, scanConstant_append h.delimited,
              Option.map_eq_none_iff] at hconstant
            rw [← List.cons_append, scanNumber_append h.delimited,
              Option.map_eq_some_iff] at hnumber
            obtain ⟨⟨value', s'⟩, hs, heq⟩ := hnumber
            cases heq
            exact Or.inl ⟨s', scanOnce_iff.mpr (.number hc hconstant hs), rfl⟩
  members := by
    intro s rest members hscan
    obtain ⟨g, hcloses⟩ := h'.closes
    cases scanMembers_iff.mp hscan with
    | @last _ _ _ s₄ _ key value hquote hkey hcolon hvalue hclose =>
        obtain ⟨s₄, hmember, rfl⟩ := ih.member h (m := (key, value))
          ⟨hquote, hkey, hcolon, hvalue⟩ (not_stuck (by simp) hclose)
        rw [skip_append h.delimited] at hclose
        by_cases hs₄ : skip s₄ = []
        · rw [hs₄, List.nil_append] at hclose
          have htail : Closes floatText g (skip (s₄ ++ t')) stop' := by
            rw [skip_append h'.delimited, hs₄]
            exact hcloses
          have hlast : Closes floatText 0 t rest := .last hclose
          have hstop : rest = stop := h.sound hlast
          exact Or.inr ⟨hstop ▸ h.stuck, (hmember.append h'.delimited).scanMembers htail⟩
        · obtain ⟨s', hclose', hsplit⟩ := Json.expect_of_append hs₄ hclose
          obtain ⟨hquote', hkey', hcolon', hvalue'⟩ := hmember
          exact Or.inl ⟨s', scanMembers_iff.mpr (.last hquote' hkey' hcolon' hvalue' hclose'), hsplit⟩
    | @more _ _ _ s₄ s₅ _ key value more hquote hkey hcolon hvalue hopen hcomma hmore =>
        obtain ⟨s₄, hmember, rfl⟩ := ih.member h (m := (key, value))
          ⟨hquote, hkey, hcolon, hvalue⟩ (not_stuck (by simp) hcomma)
        rw [skip_append h.delimited] at hopen hcomma
        by_cases hs₄ : skip s₄ = []
        · rw [hs₄, List.nil_append] at hopen hcomma
          have htail : Closes floatText g (skip (s₄ ++ t')) stop' := by
            rw [skip_append h'.delimited, hs₄]
            exact hcloses
          have hstop : rest = stop := h.sound (.more hopen hcomma hmore)
          exact Or.inr ⟨hstop ▸ h.stuck, (hmember.append h'.delimited).scanMembers htail⟩
        · obtain ⟨s₅, hcomma', rfl⟩ := Json.expect_of_append hs₄ hcomma
          have hopen' := expect_none_of_append hopen
          rw [skip_append h.delimited] at hmore
          obtain ⟨s', hmore', hsplit⟩ | ⟨hstuck, f, more', hmore'⟩ := ih.members hmore
          · obtain ⟨hquote', hkey', hcolon', hvalue'⟩ := hmember
            exact Or.inl ⟨s', scanMembers_iff.mpr
              (.more hquote' hkey' hcolon' hvalue' hopen' hcomma' hmore'), hsplit⟩
          · have htail : Closes floatText f (skip (s₄ ++ t')) stop' := by
              rw [skip_append h'.delimited]
              rw [← skip_append h'.delimited] at hmore'
              exact .more (expect_append_none hs₄ hopen') (expect_append hcomma') hmore'
            exact Or.inr ⟨hstuck, (hmember.append h'.delimited).scanMembers htail⟩
  items := by
    intro s rest items hscan
    cases scanItems_iff.mp hscan with
    | last hvalue hclose =>
        obtain ⟨s₁, hvalue', rfl⟩ | hstuck := ih.once hvalue
        · rw [skip_append h.delimited] at hclose
          obtain ⟨s', hclose', hsplit⟩ := h.expect_of_append (by decide) hclose
          exact ⟨s', scanItems_iff.mpr (.last hvalue' hclose'), hsplit⟩
        · exact absurd hstuck (not_stuck (by simp) hclose)
    | more hvalue hopen hcomma hmore =>
        obtain ⟨s₁, hvalue', rfl⟩ | hstuck := ih.once hvalue
        · rw [skip_append h.delimited] at hopen hcomma
          by_cases hs₁ : skip s₁ = []
          · rw [hs₁, List.nil_append] at hcomma
            exact absurd hmore (h.item hcomma)
          · obtain ⟨s₂, hcomma', rfl⟩ := Json.expect_of_append hs₁ hcomma
            rw [skip_append h.delimited] at hmore
            obtain ⟨s', hmore', hsplit⟩ := ih.items hmore
            exact ⟨s', scanItems_iff.mpr
              (.more hvalue' (expect_none_of_append hopen) hcomma' hmore'), hsplit⟩
        · exact absurd hstuck (not_stuck (by simp) hcomma)

theorem pasted (h : Closing floatText t stop) (h' : Closing floatText t' stop') (fuel : Nat) :
    Pasted floatText t t' stop' fuel := by
  induction fuel with
  | zero => exact ⟨by simp [scanOnce], by simp [scanMembers], by simp [scanItems]⟩
  | succ fuel ih => exact ih.succ h h'

/-- Up to `rest` the text is that of the members of an object and its end. -/
def MembersTo (floatText : String → String) (cs rest : List Char) : Prop :=
  ∃ fuel members, scanMembers floatText fuel cs = some (members, rest)

/-- The text is that of the members of an object, and of nothing else. -/
def IsMembers (floatText : String → String) (cs : List Char) : Prop :=
  ∃ rest, MembersTo floatText cs rest ∧ skip rest = []

/-- **One closing tail is as good as another.** -/
theorem closing_iff (h : Closing floatText t stop) (h' : Closing floatText t' stop') :
    IsMembers floatText (s ++ t) ↔ IsMembers floatText (s ++ t') := by
  have himp : ∀ {t t' stop stop' : List Char}, Closing floatText t stop →
      Closing floatText t' stop' → IsMembers floatText (s ++ t) → IsMembers floatText (s ++ t') := by
    rintro t t' stop stop' h h' ⟨rest, ⟨fuel, members, hscan⟩, hrest⟩
    obtain ⟨s', -, rfl⟩ | ⟨-, f, members', hscan'⟩ := (pasted h h' fuel).members hscan
    · obtain ⟨c, tail, rfl, hc⟩ := h.head
      rw [skip_append h.delimited] at hrest
      have hskip : skip s' ++ c :: tail ≠ [] := by simp
      exact absurd hrest hskip
    · exact ⟨stop', ⟨f, members', hscan'⟩, h'.stop⟩
  exact ⟨himp h h', himp h' h⟩

/-! ## closing tails -/

theorem closing_brace : Closing floatText ['\x7d'] [] where
  head := ⟨'\x7d', [], rfl, Or.inr rfl⟩
  string h := by
    cases h with
    | plain _ hcs => cases hcs
  item h := by cases h
  sound h := by
    cases h with
    | last hclose => cases hclose; rfl
    | more hopen => cases hopen
  closes := ⟨0, .last rfl⟩
  stop := rfl

/-- A further member and the end of the object. -/
theorem closing_member {key text stop : List Char} {value : Json}
    (hkey : ∀ c ∈ key, isPlain c = true)
    (hhead : ∃ c ∈ key.head?, isWhitespace c = false ∧ c ∉ [',', ':', ']', '\x7d'])
    (htext : Starts text) (hvalue : scanOnce floatText fuel text = some (value, '\x7d' :: stop))
    (hstop : skip stop = []) :
    Closing floatText (',' :: '"' :: (key ++ '"' :: ':' :: text)) stop := by
  have hskip : skip ('"' :: (key ++ '"' :: ':' :: text)) = '"' :: (key ++ '"' :: ':' :: text) :=
    skip_cons rfl _
  have hexpect : expect ',' (',' :: '"' :: (key ++ '"' :: ':' :: text)) =
      some ('"' :: (key ++ '"' :: ':' :: text)) := rfl
  have hmembers := scanMembers_last floatText hkey htext hvalue
  have hcloses : scanMembers floatText (fuel + 1) (skip ('"' :: (key ++ '"' :: ':' :: text))) =
      some ([(key.map .scalar, value)], stop) := by
    rw [hskip]
    exact hmembers
  refine ⟨⟨',', _, rfl, Or.inl rfl⟩, ?string, ?item, ?sound, ⟨fuel + 1, .more rfl rfl hcloses⟩, hstop⟩
  case string =>
    intro str rest h
    obtain ⟨c, hc, hspace, hdelimiter⟩ := hhead
    obtain ⟨key, rfl⟩ := List.head?_eq_some_iff.mp hc
    cases h with
    | plain _ hcs =>
        cases hcs with
        | close =>
            intro d hd
            have hskip : skip (c :: key ++ '"' :: ':' :: text) = c :: key ++ '"' :: ':' :: text :=
              skip_cons hspace _
            rw [hskip]
            exact if_neg fun heq => hdelimiter (by cases heq; exact hd)
        | plain hquote => exact absurd hquote (by decide)
  case item =>
    intro fuel cs r hcomma hscan
    rw [hexpect] at hcomma
    cases hcomma
    have hstring : scanOnce floatText 1 ('"' :: (key ++ '"' :: ':' :: text)) =
        some (.str (key.map .scalar), ':' :: text) := scanOnce_str floatText hkey
    -- as an item the key is followed by its colon
    cases fuel with
    | zero => cases hscan
    | succ fuel =>
        obtain ⟨items, rest⟩ := r
        cases scanItems_iff.mp hscan with
        | last hvalue hclose =>
            rw [hskip] at hvalue
            cases scanOnce_unique hstring hvalue
            cases hclose
        | more hvalue _ hcomma _ =>
            rw [hskip] at hvalue
            cases scanOnce_unique hstring hvalue
            cases hcomma
  case sound =>
    intro fuel rest h
    cases h with
    | last hclose => cases hclose
    | more _ hcomma hmore =>
        rw [hexpect] at hcomma
        cases hcomma
        rw [hskip] at hmore
        cases scanMembers_unique hmembers hmore
        rfl

/-! ## members one by one -/

/-- The text is JSON. -/
def IsJson (floatText : String → String) (cs : List Char) : Prop :=
  (decode floatText cs).isSome = true

variable {key text more cs rest : List Char} {value : Json}

/-- An object with members is read up to where its members end. -/
theorem membersTo_iff : MembersTo floatText ('"' :: cs) rest ↔
    ∃ fuel value, scanOnce floatText fuel ('\x7b' :: '"' :: cs) = some (value, rest) := by
  have hskip : skip ('"' :: cs) = '"' :: cs := skip_cons rfl cs
  constructor
  · rintro ⟨fuel, members, hmembers⟩
    have hopen : expect '\x7d' (skip ('"' :: cs)) = none := by rw [hskip]; rfl
    rw [← hskip] at hmembers
    exact ⟨fuel + 1, _, scanOnce_iff.mpr (.obj hopen hmembers)⟩
  · rintro ⟨fuel, value, hscan⟩
    cases fuel with
    | zero => cases hscan
    | succ fuel =>
        cases scanOnce_iff.mp hscan with
        | emptyObj hclose => rw [hskip] at hclose; cases hclose
        | obj _ hmembers =>
            rw [hskip] at hmembers
            exact ⟨fuel, _, hmembers⟩
        | constant hc => exact absurd rfl hc.2.1
        | number hc => exact absurd rfl hc.2.1

theorem isJson_obj : IsJson floatText ('\x7b' :: '"' :: cs) ↔ IsMembers floatText ('"' :: cs) := by
  rw [IsJson, Option.isSome_iff_exists]
  simp only [decode_eq_some_iff, skip_cons (c := '\x7b') rfl, IsMembers, membersTo_iff]
  constructor
  · rintro ⟨value, fuel, rest, hscan, hrest⟩
    exact ⟨rest, ⟨fuel, value, hscan⟩, hrest⟩
  · rintro ⟨rest, ⟨fuel, value, hscan⟩, hrest⟩
    exact ⟨value, fuel, rest, hscan, hrest⟩

/-- A member is its key, its value, and what follows that. -/
theorem membersTo_member (hkey : ∀ c ∈ key, isPlain c = true) (htext : Starts text) :
    MembersTo floatText ('"' :: (key ++ '"' :: ':' :: text)) rest ↔
      ∃ mid, (∃ fuel value, scanOnce floatText fuel text = some (value, mid)) ∧
        ∃ fuel, Closes floatText fuel (skip mid) rest := by
  have hname := scanString_plain hkey (':' :: text)
  have hcolon : expect ':' (skip (':' :: text)) = some text := by
    rw [skip_cons rfl]
    rfl
  constructor
  · rintro ⟨fuel, members, hscan⟩
    cases fuel with
    | zero => cases hscan
    | succ fuel =>
        cases scanMembers_iff.mp hscan with
        | @last _ _ _ mid _ _ _ hquote hkey' hcolon' hvalue hclose =>
            cases hquote
            cases hname.symm.trans hkey'
            cases hcolon.symm.trans hcolon'
            rw [htext.skip] at hvalue
            exact ⟨mid, ⟨fuel, _, hvalue⟩, fuel, .last hclose⟩
        | @more _ _ _ mid _ _ _ _ _ hquote hkey' hcolon' hvalue hopen hcomma hmore =>
            cases hquote
            cases hname.symm.trans hkey'
            cases hcolon.symm.trans hcolon'
            rw [htext.skip] at hvalue
            exact ⟨mid, ⟨fuel, _, hvalue⟩, fuel, .more hopen hcomma hmore⟩
  · rintro ⟨mid, ⟨fuel, value, hvalue⟩, g, hcloses⟩
    rw [← htext.skip] at hvalue
    have hmember : Member floatText fuel ('"' :: (key ++ '"' :: ':' :: text))
        (key.map .scalar, value) mid := ⟨rfl, hname, hcolon, hvalue⟩
    exact hmember.scanMembers hcloses

/-- The first member does not matter to those behind it. -/
theorem membersTo_cons (hkey : ∀ c ∈ key, isPlain c = true) (htext : Starts text)
    (hvalue : ∀ fuel, scanOnce floatText (fuel + 1) text = some (value, ',' :: more))
    (hmore : Starts more) :
    MembersTo floatText ('"' :: (key ++ '"' :: ':' :: text)) rest ↔ MembersTo floatText more rest := by
  have hcomma : skip (',' :: more) = ',' :: more := skip_cons rfl more
  rw [membersTo_member hkey htext]
  constructor
  · rintro ⟨mid, ⟨fuel, value', hscan⟩, g, hcloses⟩
    cases scanOnce_unique (hvalue 0) hscan
    rw [hcomma] at hcloses
    cases hcloses with
    | last hclose => cases hclose
    | more _ hexpect hscan =>
        cases hexpect
        rw [List.tail_cons, hmore.skip] at hscan
        exact ⟨g, _, hscan⟩
  · rintro ⟨fuel, members, hscan⟩
    refine ⟨_, ⟨1, value, hvalue 0⟩, fuel, ?_⟩
    rw [← hmore.skip] at hscan
    rw [hcomma]
    exact .more rfl rfl hscan

/-- An object as a value. -/
theorem membersTo_obj (hkey : ∀ c ∈ key, isPlain c = true) :
    MembersTo floatText ('"' :: (key ++ '"' :: ':' :: '\x7b' :: '"' :: cs)) rest ↔
      ∃ mid, MembersTo floatText ('"' :: cs) mid ∧
        ∃ fuel, Closes floatText fuel (skip mid) rest := by
  simp only [membersTo_member hkey ⟨'\x7b', _, rfl, rfl⟩, membersTo_iff]

/-- A string as a value. -/
theorem membersTo_str (hkey : ∀ c ∈ key, isPlain c = true) :
    MembersTo floatText ('"' :: (key ++ '"' :: ':' :: '"' :: cs)) rest ↔
      ∃ mid, (∃ str, Chars cs str mid) ∧ ∃ fuel, Closes floatText fuel (skip mid) rest := by
  have hstring (mid : List Char) : (∃ fuel value, scanOnce floatText fuel ('"' :: cs) =
      some (value, mid)) ↔ ∃ str, Chars cs str mid := by
    constructor
    · rintro ⟨fuel, value, hscan⟩
      cases fuel with
      | zero => cases hscan
      | succ fuel =>
          cases scanOnce_iff.mp hscan with
          | str hstring =>
              obtain ⟨⟨str, mid'⟩, hchars, heq⟩ := Option.map_eq_some_iff.mp hstring
              cases heq
              exact ⟨str, scanChars_iff.mp hchars⟩
          | constant hc => exact absurd rfl hc.1
          | number hc => exact absurd rfl hc.1
    · rintro ⟨str, hchars⟩
      have hstring : scanString cs = some (joinPairs str, mid) := by
        rw [scanString, scanChars_iff.mpr hchars]
        rfl
      exact ⟨1, _, scanOnce_iff.mpr (.str hstring)⟩
  simp only [membersTo_member hkey ⟨'"', _, rfl, rfl⟩, hstring]

end Json
