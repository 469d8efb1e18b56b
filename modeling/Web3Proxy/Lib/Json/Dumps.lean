import Web3Proxy.Lib.Json.Scan
import Web3Proxy.Lib.Json.Paste

/-!
# Web3Proxy.Lib.Json.Dumps

The encoder `json.dumps` (`json.encoder`) as by default: what is not printable ASCII is
escaped, characters outside the basic plane as a pair of surrogates.

* `scanChars_escaped` — a string is read back as its code units;
* `scanOnce_encode` — a value is read back from the front of a text;
* `loads_dumps` — what `dumps` writes, `loads` reads.
-/

namespace Json

/-! ## strings -/

/-- `ESCAPE_DCT`. -/
def escapeDct : List (Char × Char) :=
  [('\\', '\\'), ('"', '"'), ('\x08', 'b'), ('\x0c', 'f'), ('\n', 'n'), ('\r', 'r'), ('\t', 't')]

/-- A `\u` with `n` as four hexadecimal digits. -/
def escapeUnit (n : Nat) : List Char :=
  ['\\', 'u', Nat.digitChar (n / 4096 % 16), Nat.digitChar (n / 256 % 16),
    Nat.digitChar (n / 16 % 16), Nat.digitChar (n % 16)]

/-- `replace(match)` of `py_encode_basestring_ascii`, on a character of the string. -/
def escape : CodePoint → List Char
  | .surrogate n => escapeUnit (0xD800 + n)
  | .scalar c =>
      match escapeDct.lookup c with
      | some e => ['\\', e]
      | none =>
          if ' ' ≤ c ∧ c ≤ '~' then [c]
          else if c.toNat < 0x10000 then escapeUnit c.toNat
          else
            let n := c.toNat - 0x10000
            escapeUnit (0xD800 + n / 1024) ++ escapeUnit (0xDC00 + n % 1024)

/-- `py_encode_basestring_ascii(s)`. -/
def encodeString (s : PyStr) : List Char := '"' :: (s.flatMap escape ++ ['"'])

/-! ## values -/

/-- `floatstr(o)`, on what `float.__repr__` makes of it. -/
def floatStr (text : String) : String :=
  if text = "nan" then "NaN" else if text = "inf" then "Infinity"
  else if text = "-inf" then "-Infinity" else text

mutual

/-- `encode(o)`. -/
def encode : Json → List Char
  | .null => "null".toList
  | .bool b => if b then "true".toList else "false".toList
  | .int n => (toString n).toList
  | .float text => (floatStr text).toList
  | .str s => encodeString s
  | .arr items => '[' :: (encodeItems [] items ++ [']'])
  | .obj members => '\x7b' :: (encodeMembers [] members ++ ['\x7d'])

/-- The items of a list, the first one behind `sep`. -/
def encodeItems (sep : List Char) : List Json → List Char
  | [] => []
  | item :: items => sep ++ (encode item ++ encodeItems [',', ' '] items)

/-- The items of a dictionary, the first one behind `sep`. -/
def encodeMembers (sep : List Char) : List (PyStr × Json) → List Char
  | [] => []
  | (key, value) :: members =>
      sep ++ (encodeString key ++ (':' :: ' ' :: (encode value ++ encodeMembers [',', ' '] members)))

end

/-- `json.dumps(o)`. -/
def dumps (value : Json) : String := String.ofList (encode value)

/-! ## reading strings -/

theorem hexDigit_digitChar {n : Nat} (hn : n < 16) : hexDigit (Nat.digitChar n) = some n := by
  have hall : ∀ n : Fin 16, hexDigit (Nat.digitChar n) = some n.val := by decide
  exact hall ⟨n, hn⟩

theorem codeUnit_escapeUnit {n : Nat} (hn : n < 0x10000) :
    codeUnit (Nat.digitChar (n / 4096 % 16)) (Nat.digitChar (n / 256 % 16))
      (Nat.digitChar (n / 16 % 16)) (Nat.digitChar (n % 16)) =
      if h : 0xD800 ≤ n ∧ n < 0xE000 then some (.surrogate ⟨n - 0xD800, by omega⟩)
      else some (.scalar (Char.ofNat n)) := by
  have hvalue : (((n / 4096 % 16) * 16 + n / 256 % 16) * 16 + n / 16 % 16) * 16 + n % 16 = n := by
    omega
  have hdigit (k : Nat) : hexDigit (Nat.digitChar (k % 16)) = some (k % 16) :=
    hexDigit_digitChar (Nat.mod_lt k (by decide))
  simp only [codeUnit, hdigit, Option.bind_eq_bind, Option.bind_some, hvalue]

/-- The code units of a character: one, or a pair of surrogates. -/
def units : CodePoint → PyStr
  | .surrogate n => [.surrogate n]
  | .scalar c =>
      if c.toNat < 0x10000 then [.scalar c]
      else [.surrogate ⟨(c.toNat - 0x10000) / 1024 % 2048, Nat.mod_lt _ (by decide)⟩,
        .surrogate ⟨1024 + (c.toNat - 0x10000) % 1024, by omega⟩]

theorem toNat_lt (c : Char) : c.toNat < 0x110000 ∧ ¬ (0xD800 ≤ c.toNat ∧ c.toNat < 0xE000) := by
  have hvalid : c.toNat < 0xD800 ∨ 0xDFFF < c.toNat ∧ c.toNat < 0x110000 := c.valid
  omega

theorem escapeDct_backslash {c e : Char} (h : escapeDct.lookup c = some e) :
    backslash.lookup e = some c ∧ c.toNat < 0x10000 := by
  have hall : ∀ p ∈ escapeDct, backslash.lookup p.2 = some p.1 ∧ p.1.toNat < 0x10000 := by decide
  obtain ⟨l, hl⟩ := List.lookup_eq_some_iff.mp h
  obtain ⟨l₂, heq, -⟩ := hl
  exact hall (c, e) (heq ▸ by simp)

theorem escapeDct_none {c : Char} (h : escapeDct.lookup c = none) : c ≠ '"' ∧ c ≠ '\\' := by
  constructor <;> rintro rfl <;> cases h

/-- A code unit that is escaped by its number. -/
theorem chars_escapeUnit {n : Nat} (hn : n < 0x10000) {unit : CodePoint}
    (hunit : (if h : 0xD800 ≤ n ∧ n < 0xE000 then some (.surrogate ⟨n - 0xD800, by omega⟩)
      else some (.scalar (Char.ofNat n))) = some unit) {cs rest : List Char} {s : PyStr}
    (hcs : Chars cs s rest) : Chars (escapeUnit n ++ cs) (unit :: s) rest :=
  .escape (.unicode ((codeUnit_escapeUnit hn).trans hunit)) hcs

theorem chars_surrogate {n : Nat} (hn : n < 2048) {cs rest : List Char} {s : PyStr}
    (hcs : Chars cs s rest) :
    Chars (escapeUnit (0xD800 + n) ++ cs) (.surrogate ⟨n, hn⟩ :: s) rest := by
  refine chars_escapeUnit (by omega) ?_ hcs
  rw [dif_pos (by omega)]
  simp

/-- A character that is written is read back as its code units. -/
theorem chars_escape (c : CodePoint) {cs rest : List Char} {s : PyStr} (hcs : Chars cs s rest) :
    Chars (escape c ++ cs) (units c ++ s) rest := by
  cases c with
  | surrogate n => exact chars_surrogate n.isLt hcs
  | scalar c =>
      obtain ⟨hlt, hnot⟩ := toNat_lt c
      cases hdct : escapeDct.lookup c with
      | some e =>
          obtain ⟨hback, hsmall⟩ := escapeDct_backslash hdct
          rw [escape, hdct]
          dsimp only
          rw [units, if_pos hsmall]
          exact .escape (.short hback) hcs
      | none =>
          obtain ⟨hquote, hbackslash⟩ := escapeDct_none hdct
          rw [escape, hdct, units]
          dsimp only
          by_cases hprint : ' ' ≤ c ∧ c ≤ '~'
          · have hsmall : c.toNat < 0x10000 :=
              Nat.lt_of_le_of_lt (UInt32.le_iff_toNat_le.mp hprint.2) (by decide)
            rw [if_pos hprint, if_pos hsmall]
            exact .plain (isPlain_iff.mpr ⟨hquote, hbackslash, Char.not_lt.mpr hprint.1⟩) hcs
          · rw [if_neg hprint]
            by_cases hsmall : c.toNat < 0x10000
            · rw [if_pos hsmall, if_pos hsmall]
              refine chars_escapeUnit hsmall ?_ hcs
              rw [dif_neg hnot, Char.ofNat_toNat]
            · rw [if_neg hsmall, if_neg hsmall, List.append_assoc]
              have hhigh : (c.toNat - 0x10000) / 1024 % 2048 = (c.toNat - 0x10000) / 1024 := by
                omega
              have hlow := chars_surrogate (n := 1024 + (c.toNat - 0x10000) % 1024) (by omega) hcs
              rw [← Nat.add_assoc] at hlow
              simp only [hhigh]
              exact chars_surrogate (by omega) hlow

theorem scanChars_escaped (s : PyStr) (rest : List Char) :
    scanChars (s.flatMap escape ++ '"' :: rest) = some (s.flatMap units, rest) := by
  rw [scanChars_iff]
  induction s with
  | nil => exact .close
  | cons c s ih =>
      rw [List.flatMap_cons, List.flatMap_cons, List.append_assoc]
      exact chars_escape c ih

/-- The string has no lone surrogates that `loads` takes for a pair. -/
def Unpaired (s : PyStr) : Prop := joinPairs s = s

instance (s : PyStr) : Decidable (Unpaired s) := inferInstanceAs (Decidable (joinPairs s = s))

theorem unpaired_ofString (s : String) : Unpaired (PyStr.ofString s) := joinPairs_scalars s.toList

/-- A surrogate that forms no pair with what follows. -/
theorem joinPairs_surrogate_cons {n : Fin 2048} {s : PyStr}
    (h : ∀ l, s.head? = some (.surrogate l) → ¬ (n < 1024 ∧ 1024 ≤ l)) :
    joinPairs (.surrogate n :: s) = .surrogate n :: joinPairs s := by
  cases s with
  | nil => rfl
  | cons c s =>
      cases c with
      | surrogate l => rw [joinPairs, if_neg (h l rfl)]
      | scalar c =>
          rw [joinPairs]
          rintro _ _ _ _ ⟨⟩

/-- The code units of a character outside the basic plane are joined. -/
theorem joinPairs_units_scalar (c : Char) (s : PyStr) :
    joinPairs (units (.scalar c) ++ s) = .scalar c :: joinPairs s := by
  obtain ⟨hlt, -⟩ := toNat_lt c
  rw [units]
  split
  · exact joinPairs_scalar_cons c s
  · next hbig =>
    have hhigh : (c.toNat - 0x10000) / 1024 % 2048 = (c.toNat - 0x10000) / 1024 := by omega
    have hcode : 0x10000 + (c.toNat - 0x10000) / 1024 * 1024 +
        (1024 + (c.toNat - 0x10000) % 1024 - 1024) = c.toNat := by omega
    rw [List.cons_append, List.cons_append, List.nil_append, joinPairs, if_pos]
    · simp only [hhigh, hcode, Char.ofNat_toNat]
    · constructor
      · show (c.toNat - 0x10000) / 1024 % 2048 < 1024
        omega
      · show 1024 ≤ 1024 + (c.toNat - 0x10000) % 1024
        omega

theorem head?_units (c : CodePoint) (s : PyStr) {l : Fin 2048}
    (h : (units c ++ s).head? = some (.surrogate l)) (hl : 1024 ≤ l) : c = .surrogate l := by
  cases c with
  | surrogate n =>
      cases h
      rfl
  | scalar c =>
      obtain ⟨hlt, -⟩ := toNat_lt c
      rw [units] at h
      split at h
      · cases h
      · cases h
        have hle : 1024 ≤ (c.toNat - 0x10000) / 1024 % 2048 := hl
        omega

theorem Unpaired.tail {c : CodePoint} {s : PyStr} (h : Unpaired (c :: s)) :
    Unpaired s ∧ ∀ n l, c = .surrogate n → s.head? = some (.surrogate l) →
      ¬ (n < 1024 ∧ 1024 ≤ l) := by
  unfold Unpaired at h ⊢
  cases c with
  | scalar c =>
      rw [joinPairs_scalar_cons] at h
      exact ⟨(List.cons.inj h).2, by rintro n l ⟨⟩⟩
  | surrogate n =>
      have hnot (l : Fin 2048) (hl : s.head? = some (.surrogate l)) : ¬ (n < 1024 ∧ 1024 ≤ l) := by
        intro hpair
        obtain ⟨s, rfl⟩ := List.head?_eq_some_iff.mp hl
        rw [joinPairs, if_pos hpair] at h
        cases h
      rw [joinPairs_surrogate_cons hnot] at h
      refine ⟨(List.cons.inj h).2, ?_⟩
      rintro n l ⟨⟩ hl
      exact hnot l hl

/-- The code units of a string are read back as the string. -/
theorem joinPairs_units {s : PyStr} (h : Unpaired s) : joinPairs (s.flatMap units) = s := by
  induction s with
  | nil => rfl
  | cons c s ih =>
      obtain ⟨htail, hnot⟩ := h.tail
      rw [List.flatMap_cons]
      cases c with
      | scalar c => rw [joinPairs_units_scalar, ih htail]
      | surrogate n =>
          show joinPairs (.surrogate n :: s.flatMap units) = _
          rw [joinPairs_surrogate_cons, ih htail]
          rintro l hl ⟨hhigh, hlow⟩
          cases s with
          | nil => cases hl
          | cons d s =>
              rw [List.flatMap_cons] at hl
              exact hnot n l rfl (head?_units d _ hl hlow ▸ rfl) ⟨hhigh, hlow⟩

theorem scanString_escaped {s : PyStr} (h : Unpaired s) (rest : List Char) :
    scanString (s.flatMap escape ++ '"' :: rest) = some (s, rest) := by
  rw [scanString, scanChars_escaped, Option.map_some, joinPairs_units h]

/-! ## reading values -/

/-- Keys that differ are kept as they are. -/
theorem dict_of_nodup {members : List (PyStr × Json)} (h : (members.map Prod.fst).Nodup) :
    dict members = members := by
  have hfold (pairs : List (PyStr × Json)) : ∀ d : Dict PyStr Json,
      ((d.items ++ pairs).map Prod.fst).Nodup →
      (pairs.foldl (fun (d : Dict PyStr Json) p => d.set p.1 p.2) d).items = d.items ++ pairs := by
    induction pairs with
    | nil => exact fun d _ => (List.append_nil _).symm
    | cons p pairs ih =>
        intro d hd
        have hnew : p.1 ∉ d.items.map Prod.fst := by
          rw [List.map_append, List.nodup_append] at hd
          exact fun hmem => hd.2.2 _ hmem p.1 (by simp) rfl
        have hset : (d.set p.1 p.2).items = d.items ++ [p] := by
          refine if_neg fun hcontains => hnew ?_
          obtain ⟨v, hv⟩ := Option.isSome_iff_exists.mp hcontains
          exact List.mem_map.mpr ⟨(p.1, v), Dict.mem_items.mpr hv, rfl⟩
        rw [List.foldl_cons, ih _ (by simpa [hset] using hd), hset, List.append_assoc]
        rfl
  exact hfold members Dict.empty (by simpa [Dict.empty] using h)

variable (floatText : String → String)

/-- What `repr` makes of a float, which is read as that float. -/
def IsRepr (text : String) : Prop :=
  text ∈ ["nan", "inf", "-inf"] ∨ scanNumber floatText text.toList = some (.float text, [])

/-- The value is read back as it is written. -/
inductive Storable : Json → Prop where
  | null : Storable .null
  | bool (b : Bool) : Storable (.bool b)
  | int (n : Int) : Storable (.int n)
  | float {text : String} (h : IsRepr floatText text) : Storable (.float text)
  | str {s : PyStr} (h : Unpaired s) : Storable (.str s)
  | arr {items : List Json} (h : ∀ v ∈ items, Storable v) : Storable (.arr items)
  | obj {members : List (PyStr × Json)} (hkeys : (members.map Prod.fst).Nodup)
      (hunpaired : ∀ m ∈ members, Unpaired m.1) (h : ∀ m ∈ members, Storable m.2) :
      Storable (.obj members)

variable {floatText}

/-- A value does not go on with what follows it. -/
def Ends (rest : List Char) : Prop := rest = [] ∨ Delimited rest

theorem Ends.number {rest : List Char} (h : Ends rest) : EndsNumber rest := by
  obtain rfl | ⟨c, rest, rfl, hc⟩ := h
  · intro c hc
    cases hc
  · intro d hd
    cases hd
    obtain rfl | rfl | rfl := hc <;> decide

theorem ends_cons {c : Char} (hc : c = ',' ∨ c = ']' ∨ c = '\x7d') (rest : List Char) :
    Ends (c :: rest) := Or.inr ⟨c, rest, rfl, hc⟩

theorem scanNumber_ends {cs rest : List Char} {value : Json}
    (h : scanNumber floatText cs = some (value, [])) (hrest : Ends rest) :
    scanNumber floatText (cs ++ rest) = some (value, rest) := by
  obtain rfl | hrest := hrest
  · rw [List.append_nil, h]
  · rw [scanNumber_append hrest, h]
    rfl

/-- A number begins with a digit, or with a minus sign and a digit. -/
theorem head_scanNumber {cs rest : List Char} {value : Json}
    (h : scanNumber floatText cs = some (value, rest)) :
    ∃ d ds, d.isDigit = true ∧ (cs = d :: ds ∨ cs = '-' :: d :: ds) := by
  simp only [scanNumber, Option.bind_eq_bind, Option.bind_eq_some_iff] at h
  obtain ⟨⟨digits, rest'⟩, hdigits, -⟩ := h
  obtain ⟨heq, hne, hall⟩ := scanDigits_eq hdigits
  obtain ⟨d, ds, rfl⟩ := List.exists_cons_of_ne_nil hne
  refine ⟨d, ds ++ rest', hall d List.mem_cons_self, ?_⟩
  split at heq
  · next hhead =>
    obtain ⟨tail, rfl⟩ := List.head?_eq_some_iff.mp hhead
    exact Or.inr (congrArg _ heq)
  · exact Or.inl heq

/-- What a value may begin with. -/
def Opens (cs : List Char) : Prop :=
  ∃ c rest, cs = c :: rest ∧ isWhitespace c = false ∧ c ≠ ']' ∧ c ≠ '\x7d' ∧ c ≠ '\ufeff'

theorem Opens.starts {cs : List Char} (h : Opens cs) : Starts cs := by
  obtain ⟨c, rest, rfl, hc, -⟩ := h
  exact ⟨c, rest, rfl, hc⟩

theorem Opens.expect {cs : List Char} (h : Opens cs) {c : Char} (hc : c = ']' ∨ c = '\x7d') :
    expect c (skip cs) = none := by
  rw [h.starts.skip]
  obtain ⟨d, rest, rfl, -, hbracket, hbrace, -⟩ := h
  refine if_neg fun heq => ?_
  obtain rfl : d = c := by simpa using heq
  exact hc.elim hbracket hbrace

theorem opens_digit {d : Char} (hd : d.isDigit = true) (ds : List Char) : Opens (d :: ds) := by
  have hne (c : Char) (hc : c.isDigit = false) : d ≠ c := ne_of_isDigit hd hc
  exact ⟨d, ds, rfl, by simp [isWhitespace, hne ' ' rfl, hne '\t' rfl, hne '\n' rfl, hne '\r' rfl],
    hne ']' rfl, hne '\x7d' rfl, hne '\ufeff' rfl⟩

theorem opens_minus (ds : List Char) : Opens ('-' :: ds) :=
  ⟨'-', ds, rfl, by decide⟩

theorem floatStr_of_notMem {text : String} (h : text ∉ ["nan", "inf", "-inf"]) :
    floatStr text = text := by
  simp only [List.mem_cons, List.not_mem_nil, or_false, not_or] at h
  rw [floatStr, if_neg h.1, if_neg h.2.1, if_neg h.2.2]

/-- What is written of a float that is a number. -/
theorem floatStr_of_number {text : String}
    (h : scanNumber floatText text.toList = some (.float text, [])) : floatStr text = text := by
  apply floatStr_of_notMem
  intro hmem
  obtain ⟨d, ds, hd, heq⟩ := head_scanNumber h
  simp only [List.mem_cons, List.not_mem_nil, or_false] at hmem
  obtain rfl | rfl | rfl := hmem <;> obtain heq | heq := heq <;> cases heq <;> cases hd

theorem opens_encode {value : Json} (h : Storable floatText value) (rest : List Char) :
    Opens (encode value ++ rest) := by
  cases h with
  | null => exact ⟨'n', _, rfl, by decide⟩
  | bool b => cases b <;> exact ⟨_, _, rfl, by decide⟩
  | int n =>
      obtain ⟨c, ds, heq, rfl | hc⟩ := head_toString n rest
      · exact heq ▸ opens_minus ds
      · exact heq ▸ opens_digit hc ds
  | @float text h =>
      obtain h | h := h
      · simp only [List.mem_cons, List.not_mem_nil, or_false] at h
        obtain rfl | rfl | rfl := h <;> exact ⟨_, _, rfl, by decide⟩
      · rw [encode, floatStr_of_number h]
        obtain ⟨d, ds, hd, heq | heq⟩ := head_scanNumber h <;> rw [heq]
        · exact opens_digit hd _
        · exact opens_minus _
  | str => exact ⟨'"', _, rfl, by decide⟩
  | arr => exact ⟨'[', _, rfl, by decide⟩
  | obj => exact ⟨'\x7b', _, rfl, by decide⟩

theorem scanOnce_float {text : String} (h : IsRepr floatText text) {fuel : Nat} {rest : List Char}
    (hrest : Ends rest) : scanOnce floatText (fuel + 1) (encode (.float text) ++ rest) =
      some (.float text, rest) := by
  obtain h | h := h
  · simp only [List.mem_cons, List.not_mem_nil, or_false] at h
    obtain rfl | rfl | rfl := h <;>
      exact scanOnce_iff.mpr (.constant ⟨by decide, by decide, by decide⟩ rfl)
  · have hnumber := scanNumber_ends h hrest
    rw [encode, floatStr_of_number h]
    obtain ⟨d, ds, hd, heq⟩ := head_scanNumber hnumber
    have hne (c : Char) (hc : c.isDigit = false) : d ≠ c := ne_of_isDigit hd hc
    have hconstant : scanConstant (text.toList ++ rest) = none := by
      rw [scanConstant, Option.map_eq_none_iff, List.find?_eq_none]
      intro c hc
      obtain ⟨hpos, hneg⟩ := constants_not_digit hd ds c hc
      obtain heq | heq := heq <;> rw [heq]
      · exact Bool.eq_false_iff.mp hpos
      · exact Bool.eq_false_iff.mp hneg
    rw [scanOnce_iff]
    obtain heq | heq := heq <;> rw [heq] at hnumber hconstant ⊢
    · exact .number ⟨hne '"' rfl, hne '\x7b' rfl, hne '[' rfl⟩ hconstant hnumber
    · exact .number ⟨by decide, by decide, by decide⟩ hconstant hnumber

theorem expect_self (c : Char) (cs : List Char) : expect c (c :: cs) = some cs := if_pos rfl

/-- Behind an item of a list. -/
theorem ends_items (items : List Json) (rest : List Char) :
    Ends (encodeItems [',', ' '] items ++ ']' :: rest) := by
  cases items with
  | nil => exact ends_cons (Or.inr (Or.inl rfl)) _
  | cons item items => exact ends_cons (Or.inl rfl) _

/-- Behind a member of an object. -/
theorem ends_members (members : List (PyStr × Json)) (rest : List Char) :
    Ends (encodeMembers [',', ' '] members ++ '\x7d' :: rest) := by
  cases members with
  | nil => exact ends_cons (Or.inr (Or.inr rfl)) _
  | cons member members => exact ends_cons (Or.inl rfl) _

mutual

/-- **Round trip**: a value that is written at the front of a text is read from there. -/
theorem scanOnce_encode : ∀ (value : Json), Storable floatText value →
    ∀ fuel : Nat, sizeOf value ≤ fuel → ∀ {rest : List Char}, Ends rest →
      scanOnce floatText fuel (encode value ++ rest) = some (value, rest)
  | .arr [], _, fuel + 1, _, rest, _ => by
      exact scanOnce_iff.mpr (.emptyArr (expect_self ']' rest))
  | .arr (item :: items), h, fuel + 1, hfuel, rest, _ => by
      cases h with
      | arr hitems =>
        have hscan := scanItems_encode item items hitems fuel
          (by simp at hfuel ⊢; omega) rest
        have hopen := opens_encode (hitems item List.mem_cons_self)
          (encodeItems [',', ' '] items ++ ']' :: rest)
        rw [encode, encodeItems, List.nil_append]
        simp only [List.cons_append, List.append_assoc, List.nil_append]
        exact scanOnce_iff.mpr (.arr (hopen.expect (Or.inl rfl)) (by rwa [hopen.starts.skip]))
  | .obj [], _, fuel + 1, _, rest, _ => by
      exact scanOnce_iff.mpr (.emptyObj (expect_self '\x7d' rest))
  | .obj ((key, value) :: members), h, fuel + 1, hfuel, rest, _ => by
      cases h with
      | obj hkeys hunpaired hvalues =>
        have hscan := scanMembers_encode key value members hunpaired hvalues fuel
          (by simp at hfuel ⊢; omega) rest
        have hstep : OnceStep floatText fuel
            ('\x7b' :: (encodeMembers [] ((key, value) :: members) ++ '\x7d' :: rest)) _ rest :=
          .obj rfl hscan
        rw [dict_of_nodup hkeys] at hstep
        rw [encode, List.cons_append, List.append_assoc]
        exact scanOnce_iff.mpr hstep
  | .str s, h, fuel + 1, _, rest, _ => by
      cases h with
      | str hs =>
        rw [encode, encodeString]
        simp only [List.cons_append, List.append_assoc, List.nil_append]
        exact scanOnce_iff.mpr (.str (scanString_escaped hs rest))
  | .float text, h, fuel + 1, _, rest, hrest => by
      cases h with
      | float htext => exact scanOnce_float htext hrest
  | .int n, _, fuel + 1, _, rest, hrest => scanOnce_int floatText n hrest.number
  | .bool b, _, fuel + 1, _, rest, _ => by
      cases b <;> exact scanOnce_iff.mpr (.constant ⟨by decide, by decide, by decide⟩ rfl)
  | .null, _, fuel + 1, _, rest, _ => scanOnce_null floatText
  | value, _, 0, hfuel, _, _ => by cases value <;> simp at hfuel

theorem scanItems_encode : ∀ (item : Json) (items : List Json),
    (∀ v ∈ item :: items, Storable floatText v) → ∀ fuel : Nat, sizeOf (item :: items) ≤ fuel →
      ∀ rest : List Char, scanItems floatText fuel
        (encode item ++ (encodeItems [',', ' '] items ++ ']' :: rest)) = some (item :: items, rest)
  | item, [], h, fuel + 1, hfuel, rest => by
      have hitem := scanOnce_encode item (h item List.mem_cons_self) fuel
        (by simp at hfuel; omega) (ends_items [] rest)
      exact scanItems_iff.mpr (.last hitem (expect_self ']' rest))
  | item, next :: items, h, fuel + 1, hfuel, rest => by
      have hitem := scanOnce_encode item (h item List.mem_cons_self) fuel
        (by simp at hfuel; omega) (ends_items (next :: items) rest)
      have hmore := scanItems_encode next items (fun v hv => h v (List.mem_cons_of_mem item hv))
        fuel (by simp at hfuel ⊢; omega) rest
      have hopen := opens_encode (h next (by simp)) (encodeItems [',', ' '] items ++ ']' :: rest)
      have hskip : skip (' ' :: (encode next ++ (encodeItems [',', ' '] items ++ ']' :: rest))) =
          encode next ++ (encodeItems [',', ' '] items ++ ']' :: rest) := hopen.starts.skip
      rw [encodeItems] at hitem ⊢
      simp only [List.cons_append, List.append_assoc, List.nil_append] at hitem ⊢
      exact scanItems_iff.mpr (.more hitem rfl (expect_self ',' _) (by rwa [hskip]))
  | item, items, _, 0, hfuel, _ => by simp at hfuel

theorem scanMembers_encode : ∀ (key : PyStr) (value : Json) (members : List (PyStr × Json)),
    (∀ m ∈ (key, value) :: members, Unpaired m.1) →
    (∀ m ∈ (key, value) :: members, Storable floatText m.2) →
    ∀ fuel : Nat, sizeOf ((key, value) :: members) ≤ fuel → ∀ rest : List Char,
      scanMembers floatText fuel (encodeMembers [] ((key, value) :: members) ++ '\x7d' :: rest) =
        some ((key, value) :: members, rest)
  | key, value, [], hkeys, h, fuel + 1, hfuel, rest => by
      have hvalue := scanOnce_encode value (h _ List.mem_cons_self) fuel
        (by simp at hfuel; omega) (ends_members [] rest)
      have hopen := opens_encode (h _ List.mem_cons_self)
        (encodeMembers [',', ' '] [] ++ '\x7d' :: rest)
      rw [← hopen.starts.skip] at hvalue
      rw [encodeMembers, encodeString]
      simp only [List.cons_append, List.append_assoc, List.nil_append]
      exact scanMembers_iff.mpr (.last (expect_self '"' _)
        (scanString_escaped (hkeys _ List.mem_cons_self) _) (expect_self ':' _) hvalue
        (expect_self '\x7d' rest))
  | key, value, (key', value') :: members, hkeys, h, fuel + 1, hfuel, rest => by
      have hvalue := scanOnce_encode value (h _ List.mem_cons_self) fuel
        (by simp at hfuel; omega) (ends_members ((key', value') :: members) rest)
      have hopen := opens_encode (h _ List.mem_cons_self)
        (encodeMembers [',', ' '] ((key', value') :: members) ++ '\x7d' :: rest)
      have hmore := scanMembers_encode key' value' members
        (fun m hm => hkeys m (List.mem_cons_of_mem _ hm))
        (fun m hm => h m (List.mem_cons_of_mem _ hm)) fuel (by simp at hfuel ⊢; omega)
        rest
      rw [← hopen.starts.skip] at hvalue
      rw [encodeMembers, encodeString]
      simp only [List.cons_append, List.append_assoc, List.nil_append]
      exact scanMembers_iff.mpr (.more (expect_self '"' _)
        (scanString_escaped (hkeys _ List.mem_cons_self) _) (expect_self ':' _) hvalue
        rfl (expect_self ',' _) hmore)
  | _, _, _, _, _, 0, hfuel, _ => by simp at hfuel

end

/-- What `dumps` writes, `loads` reads. -/
theorem loads_dumps {value : Json} (h : Storable floatText value) :
    loads floatText (dumps value) = some value := by
  have hopen := opens_encode h []
  have hscan := scanOnce_encode value h _ (Nat.le_refl _) (Or.inl rfl : Ends [])
  rw [List.append_nil] at hopen hscan
  have hdecode : decode floatText (encode value) = some value :=
    decode_eq_some_iff.mpr ⟨_, [], by rwa [hopen.starts.skip], rfl⟩
  obtain ⟨c, rest, heq, -, -, -, hbom⟩ := hopen
  rw [loads, dumps, String.toList_ofList, heq, if_neg (by simpa using hbom), ← heq, hdecode]

end Json
