import Web3Proxy.Lib.Json.Dumps

/-!
# Web3Proxy.Lib.PyInt

`int(s)`, `int(s, 16)` and `hex(n)` of Python.

`int` takes any decimal digits and any white space of Unicode; which characters beyond
ASCII are digits is a parameter.

* `ofHex_hex` — what `hex` writes, `int` reads;
* `ofDec_toString` — what `str` writes, `int` reads, up to the limit on digits.
-/

namespace PyInt

/-- `Py_ISSPACE`: U+001C to U+001F, which `str.strip` drops, are no white space here. -/
def isAsciiSpace (c : Char) : Bool := c = ' ' || ('\t' ≤ c && c ≤ '\r')

/-- What `int` makes of a character before it reads the number: `?` stands for what is no
part of one. -/
def toAscii (decimal : Char → Option Nat) : CodePoint → Char
  | .surrogate _ => '?'
  | .scalar c =>
      if c.toNat < 127 then c
      else if PyStr.isSpace c then ' '
      else ((decimal c).map Nat.digitChar).getD '?'

/-- The sign, and what follows. -/
def sign : List Char → Bool × List Char
  | '-' :: cs => (true, cs)
  | '+' :: cs => (false, cs)
  | cs => (false, cs)

/-- What follows `0x` and at most one underscore. -/
def dropPrefix : List Char → List Char
  | '0' :: 'x' :: '_' :: cs => cs
  | '0' :: 'X' :: '_' :: cs => cs
  | '0' :: 'x' :: cs => cs
  | '0' :: 'X' :: cs => cs
  | cs => cs

/-- What a digit of the base stands for. -/
def digit (base : Nat) (c : Char) : Option Nat := (Json.hexDigit c).filter (· < base)

/-- A digit or an underscore. -/
def isDigit (base : Nat) (c : Char) : Bool := (digit base c).isSome || c = '_'

/-- Single underscores stand between digits only. -/
def IsRun (run : List Char) : Prop :=
  run ≠ [] ∧ run.head? ≠ some '_' ∧ run.getLast? ≠ some '_' ∧ ¬ ['_', '_'] <:+: run

instance (run : List Char) : Decidable (IsRun run) :=
  inferInstanceAs (Decidable (_ ∧ _ ∧ _ ∧ _))

/-- The number that the digits denote. -/
def value (base : Nat) (run : List Char) : Nat :=
  (run.filterMap (digit base)).foldl (fun n d => base * n + d) 0

/-- The digits are not too many. -/
def IsShort (limit : Option Nat) (run : List Char) : Prop :=
  ∀ n, limit = some n → run.countP (· ≠ '_') ≤ n

instance (limit : Option Nat) (run : List Char) : Decidable (IsShort limit run) :=
  match limit with
  | none => isTrue fun _ h => nomatch h
  | some n =>
      decidable_of_iff (run.countP (· ≠ '_') ≤ n)
        ⟨fun h _ hn => Option.some.inj hn ▸ h, fun h => h n rfl⟩

/-- `int`, when it drops `skip` behind the sign; `none` when this raises. -/
def read (base : Nat) (skip : List Char → List Char) (limit : Option Nat)
    (decimal : Char → Option Nat) (s : PyStr) : Option Int :=
  let (negative, cs) := sign ((s.map (toAscii decimal)).dropWhile isAsciiSpace)
  let run := (skip cs).takeWhile (isDigit base)
  let rest := (skip cs).dropWhile (isDigit base)
  if IsRun run ∧ rest.all isAsciiSpace ∧ IsShort limit run then
    some (if negative then -(value base run : Int) else (value base run : Int))
  else none

/-- `int(s, 16)`; `none` when this raises. -/
def ofHex : (Char → Option Nat) → PyStr → Option Int := read 16 dropPrefix none

/-- `int(s)`; `none` when this raises, as it does for more than 4300 digits. -/
def ofDec : (Char → Option Nat) → PyStr → Option Int := read 10 id (some 4300)

/-- `hex(n)`, for a number that is not negative. -/
def hex (n : Nat) : String := String.ofList ('0' :: 'x' :: Nat.toDigits 16 n)

example : ofHex (fun _ => none) (PyStr.ofString " -0x1_F ") = some (-31) := by
  decide +kernel

example : ofDec (fun _ => none) (PyStr.ofString "\u00a05_0\u0085") = some 50 := by
  decide

/-! ## what is written in digits -/

/-- A digit is itself, no underscore, and within ASCII. -/
theorem digit_digitChar {base d : Nat} (hbase : base ≤ 16) (hd : d < base) :
    digit base (Nat.digitChar d) = some d ∧ Nat.digitChar d ≠ '_' ∧
      (Nat.digitChar d).toNat < 127 := by
  have hall : ∀ d : Fin 16, Nat.digitChar d ≠ '_' ∧ (Nat.digitChar d).toNat < 127 := by decide
  have hd' : d < 16 := by omega
  refine ⟨?_, hall ⟨d, hd'⟩⟩
  rw [digit, Json.hexDigit_digitChar hd']
  simp [hd]

/-- The digits of a number denote it. -/
theorem value_toDigits {base : Nat} (hone : 1 < base) (hbase : base ≤ 16) (n : Nat) :
    (∀ c ∈ Nat.toDigits base n, ∃ d, d < base ∧ c = Nat.digitChar d) ∧
      value base (Nat.toDigits base n) = n := by
  induction n using Nat.strongRecOn with
  | ind n ih =>
      by_cases hn : n < base
      · rw [Nat.toDigits_of_lt_base hn]
        refine ⟨fun c hc => ⟨n, hn, List.mem_singleton.mp hc⟩, ?_⟩
        simp [value, (digit_digitChar hbase hn).1]
      · have hmod : n % base < base := Nat.mod_lt n (by omega)
        obtain ⟨hdigits, hvalue⟩ := ih (n / base) (Nat.div_lt_self (by omega) hone)
        rw [Nat.toDigits_of_base_le hone (by omega)]
        refine ⟨fun c hc => ?_, ?_⟩
        · obtain hc | hc := List.mem_append.mp hc
          · exact hdigits c hc
          · exact ⟨n % base, hmod, List.mem_singleton.mp hc⟩
        · unfold value at hvalue ⊢
          rw [List.filterMap_append, List.foldl_append, hvalue]
          simp only [List.filterMap_cons, (digit_digitChar hbase hmod).1, List.filterMap_nil,
            List.foldl_cons, List.foldl_nil]
          exact Nat.div_add_mod n base

/-- **Round trip**: digits behind what is dropped are read as their number. -/
theorem read_digits {base : Nat} (hone : 1 < base) (hbase : base ≤ 16) {skip : List Char → List Char}
    {limit : Option Nat} (decimal : Char → Option Nat) {s : String} {n : Nat}
    (hascii : ∀ c ∈ s.toList, c.toNat < 127)
    (hsign : sign (s.toList.dropWhile isAsciiSpace) = (false, s.toList))
    (hskip : skip s.toList = Nat.toDigits base n)
    (hshort : ∀ m, limit = some m → (Nat.toDigits base n).length ≤ m) :
    read base skip limit decimal (PyStr.ofString s) = some (n : Int) := by
  obtain ⟨hdigits, hvalue⟩ := value_toDigits hone hbase n
  have hdigit : ∀ c ∈ Nat.toDigits base n, isDigit base c = true ∧ c ≠ '_' := by
    intro c hc
    obtain ⟨d, hd, rfl⟩ := hdigits c hc
    obtain ⟨hsome, hne, -⟩ := digit_digitChar hbase hd
    exact ⟨by simp [isDigit, hsome], hne⟩
  have hchars : (PyStr.ofString s).map (toAscii decimal) = s.toList := by
    have hsame : ∀ c ∈ s.toList, toAscii decimal (.scalar c) = c := fun c hc => by
      rw [toAscii, if_pos (hascii c hc)]
    rw [PyStr.ofString, List.map_map]
    exact (List.map_congr_left hsame).trans (List.map_id' _)
  have hnot : '_' ∉ Nat.toDigits base n := fun hc => (hdigit '_' hc).2 rfl
  have hrun : IsRun (Nat.toDigits base n) := by
    refine ⟨Nat.toDigits_ne_nil, fun hhead => ?_, fun hlast => ?_, fun hpair => ?_⟩
    · exact hnot (List.mem_of_mem_head? hhead)
    · exact hnot (List.mem_of_mem_getLast? hlast)
    · exact hnot (hpair.subset List.mem_cons_self)
  have htake : (Nat.toDigits base n).takeWhile (isDigit base) = Nat.toDigits base n :=
    List.takeWhile_eq_self_iff.mpr fun c hc => (hdigit c hc).1
  have hdrop : (Nat.toDigits base n).dropWhile (isDigit base) = [] :=
    List.dropWhile_eq_nil_iff.mpr fun c hc => (hdigit c hc).1
  have hlimit : IsShort limit (Nat.toDigits base n) :=
    fun m hm => (List.countP_le_length).trans (hshort m hm)
  simp only [read, hchars, hsign, hskip, htake, hdrop, hvalue]
  rw [if_pos ⟨hrun, rfl, hlimit⟩]
  rfl

/-- What `hex` writes, `int` reads. -/
theorem ofHex_hex (decimal : Char → Option Nat) (n : Nat) :
    ofHex decimal (PyStr.ofString (hex n)) = some (n : Int) := by
  obtain ⟨hdigits, -⟩ := value_toDigits (by omega : 1 < 16) (le_refl 16) n
  have hlist : (hex n).toList = '0' :: 'x' :: Nat.toDigits 16 n := by
    rw [hex, String.toList_ofList]
  have hprefix : dropPrefix ('0' :: 'x' :: Nat.toDigits 16 n) = Nat.toDigits 16 n := by
    obtain ⟨c, cs, hcs⟩ := List.exists_cons_of_ne_nil (Nat.toDigits_ne_nil (n := n) (b := 16))
    obtain ⟨d, hd, hc⟩ := hdigits c (by simp [hcs])
    have hne : c ≠ '_' := hc ▸ (digit_digitChar (le_refl 16) hd).2.1
    rw [hcs]
    unfold dropPrefix
    split <;> simp_all
  refine read_digits (by omega) (le_refl 16) decimal ?_ ?_ ?_ fun m hm => nomatch hm
  · intro c hc
    rw [hlist] at hc
    obtain rfl | rfl | hc := List.mem_cons.mp hc |>.imp_right List.mem_cons.mp
    · decide
    · decide
    · obtain ⟨d, hd, rfl⟩ := hdigits c hc
      exact (digit_digitChar (le_refl 16) hd).2.2
  · rw [hlist]
    rfl
  · rw [hlist, hprefix]

/-- What `str` writes, `int` reads. -/
theorem ofDec_toString (decimal : Char → Option Nat) {n : Nat}
    (hn : (Nat.toDigits 10 n).length ≤ 4300) :
    ofDec decimal (PyStr.ofString (toString n)) = some (n : Int) := by
  obtain ⟨hdigits, -⟩ := value_toDigits (by omega : 1 < 10) (by omega : 10 ≤ 16) n
  have hlist : (toString n).toList = Nat.toDigits 10 n := by
    rw [Nat.toString_eq_repr, Nat.toList_repr]
  refine read_digits (by omega) (by omega) decimal ?_ ?_ hlist fun m hm => ?_
  · intro c hc
    rw [hlist] at hc
    obtain ⟨d, hd, rfl⟩ := hdigits c hc
    exact (digit_digitChar (by omega) hd).2.2
  · obtain ⟨c, cs, hcs⟩ := List.exists_cons_of_ne_nil (Nat.toDigits_ne_nil (n := n) (b := 10))
    obtain ⟨d, hd, rfl⟩ := hdigits c (by simp [hcs])
    have hall : ∀ d : Fin 10, isAsciiSpace (Nat.digitChar d) = false ∧
        Nat.digitChar d ≠ '-' ∧ Nat.digitChar d ≠ '+' := by decide
    obtain ⟨hspace, hminus, hplus⟩ := hall ⟨d, hd⟩
    rw [hlist, hcs, List.dropWhile_cons_of_neg (by simp [hspace])]
    unfold sign
    split <;> simp_all
  · cases hm
    exact hn

end PyInt
