import Mathlib.Data.List.Basic
import Mathlib.Data.List.TakeWhile

/-!
# Web3Proxy.Lib.Bytes

Byte strings: literals, UTF-8, and the operations of Python's `bytes` that the
models use (`find`, `lower`, `strip`, `split`).
-/

/-- A byte string. -/
abbrev Bytes := List UInt8

namespace Bytes

/-- Decided byte by byte, and not over all the values of a byte. -/
instance decidableForallMem (b : Bytes) (p : UInt8 → Prop) [DecidablePred p] :
    Decidable (∀ x ∈ b, p x) :=
  List.decidableBAll p b

instance decidableForallMemOption (b : Option UInt8) (p : UInt8 → Prop) [DecidablePred p] :
    Decidable (∀ x ∈ b, p x) :=
  Option.decidableForallMem b

/-! ## UTF-8 -/

/-- The UTF-8 encoding of a string, `bytes(s, "utf-8")`; also used for byte
literals. -/
def str (s : String) : Bytes := s.toUTF8.data.toList

/-- `str(b, "utf-8")`; `none` is a `UnicodeDecodeError`. -/
def decode (b : Bytes) : Option String := String.fromUTF8? b.toByteArray

@[simp] theorem str_append (s t : String) : str (s ++ t) = str s ++ str t := by
  unfold str
  rw [String.toUTF8_eq_toByteArray, String.toByteArray_append, ByteArray.toList_data_append]
  rfl

theorem str_ofList (cs : List Char) : str (String.ofList cs) = cs.flatMap String.utf8EncodeChar := by
  unfold str
  rw [String.toUTF8_eq_toByteArray, String.toByteArray_ofList, List.utf8Encode,
    List.data_toByteArray]

/-- Decoding loses nothing. -/
theorem str_of_decode {b : Bytes} {s : String} (h : decode b = some s) : str s = b := by
  unfold decode String.fromUTF8? at h
  split at h
  next hv =>
    obtain rfl := Option.some.inj h
    show b.toByteArray.data.toList = b
    rw [List.data_toByteArray]
  next => cases h

theorem decode_str (s : String) : decode (str s) = some s := by
  have hbytes : (str s).toByteArray = s.toByteArray := by
    unfold str
    rw [String.toUTF8_eq_toByteArray]
    exact ByteArray.ext (by rw [List.data_toByteArray, Array.toArray_toList])
  unfold decode String.fromUTF8?
  rw [hbytes, dif_pos s.isValidUTF8]
  rfl

theorem decode_eq_some_iff {b : Bytes} {s : String} : decode b = some s ↔ str s = b := by
  constructor
  · exact str_of_decode
  · rintro rfl
    exact decode_str s

theorem str_eq_flatMap (s : String) : str s = s.toList.flatMap String.utf8EncodeChar := by
  rw [← str_ofList, String.ofList_toList]

theorem decode_injective {b c : Bytes} {s : String} (hb : decode b = some s)
    (hc : decode c = some s) : b = c := by
  rw [← str_of_decode hb, str_of_decode hc]

/-- What holds of the 256 codes holds of every byte. -/
theorem forall_byte {p : UInt8 → Prop} (h : ∀ n : Fin 256, p (UInt8.ofNat n)) (x : UInt8) : p x := by
  have hx := h ⟨x.toNat, x.toNat_lt⟩
  rwa [UInt8.ofNat_toNat] at hx

/-- The character with an ASCII code. -/
def asciiChar (b : UInt8) : Char := Char.ofNat b.toNat

theorem utf8EncodeChar_asciiChar {b : UInt8} (h : b < 128) :
    String.utf8EncodeChar (asciiChar b) = [b] := by
  have hall : ∀ b : UInt8, b < 128 → String.utf8EncodeChar (asciiChar b) = [b] :=
    forall_byte (by decide +kernel)
  exact hall b h

/-- The encoding of an ASCII text. -/
theorem flatMap_asciiChar {b : Bytes} (h : ∀ x ∈ b, x < 128) :
    (b.map asciiChar).flatMap String.utf8EncodeChar = b := by
  rw [List.flatMap_map]
  induction b with
  | nil => rfl
  | cons x b ih =>
      rw [List.flatMap_cons, utf8EncodeChar_asciiChar (h x List.mem_cons_self),
        ih fun y hy => h y (List.mem_cons_of_mem x hy)]
      rfl

/-- ASCII text can be decoded. -/
theorem isSome_decode_of_ascii {b : Bytes} (h : ∀ x ∈ b, x < 128) : (decode b).isSome = true := by
  have hdecode := decode_str (String.ofList (b.map asciiChar))
  rw [str_ofList, flatMap_asciiChar h] at hdecode
  rw [hdecode]
  rfl

/-- Only an ASCII character has an ASCII byte. -/
theorem eq_asciiChar_of_mem {c : Char} {b : UInt8} (hb : b < 128)
    (h : b ∈ String.utf8EncodeChar c) : c = asciiChar b := by
  have hlow := UInt8.lt_iff_toNat_lt.mp hb
  have hhigh {n : Nat} (hn : 128 ≤ n ∧ n < 256) : b ≠ UInt8.ofNat n := by
    rintro rfl
    rw [UInt8.toNat_ofNat_of_lt' hn.2] at hlow
    exact absurd hlow (Nat.not_lt.mpr hn.1)
  rw [String.utf8EncodeChar] at h
  split at h
  · next hc =>
    obtain rfl := List.mem_singleton.mp h
    rw [asciiChar, UInt8.toNat_ofNat_of_lt' (Nat.lt_of_le_of_lt hc (by decide))]
    exact (Char.ofNat_toNat c).symm
  · exfalso
    split at h
    · simp only [List.mem_cons, List.not_mem_nil, or_false] at h
      obtain h | h := h <;> exact hhigh (by omega) h
    · split at h
      · simp only [List.mem_cons, List.not_mem_nil, or_false] at h
        obtain h | h | h := h <;> exact hhigh (by omega) h
      · simp only [List.mem_cons, List.not_mem_nil, or_false] at h
        obtain h | h | h | h := h <;> exact hhigh (by omega) h

/-- An encoding can be split before and behind an ASCII byte. -/
theorem exists_of_flatMap_eq_append_cons {x : UInt8} (hx : x < 128) {cs : List Char} {b c : Bytes}
    (h : cs.flatMap String.utf8EncodeChar = b ++ x :: c) :
    ∃ before after, cs = before ++ asciiChar x :: after ∧
      before.flatMap String.utf8EncodeChar = b ∧ after.flatMap String.utf8EncodeChar = c := by
  induction cs generalizing b with
  | nil => simp at h
  | cons d cs ih =>
      rw [List.flatMap_cons] at h
      obtain ⟨rest, rfl, hcs⟩ | ⟨rest, hd, hcs⟩ := List.append_eq_append_iff.mp h
      · obtain ⟨before, after, rfl, hbefore, hafter⟩ := ih hcs
        exact ⟨d :: before, after, rfl, by rw [List.flatMap_cons, hbefore], hafter⟩
      · cases rest with
        | nil =>
            obtain ⟨before, after, rfl, hbefore, hafter⟩ := ih (b := []) hcs.symm
            refine ⟨d :: before, after, rfl, ?_, hafter⟩
            rw [List.flatMap_cons, hbefore, hd, List.append_nil, List.append_nil]
        | cons y rest =>
            obtain ⟨rfl, hrest⟩ := List.cons.inj hcs
            have hchar := eq_asciiChar_of_mem hx (c := d) (by rw [hd]; simp)
            rw [hchar, utf8EncodeChar_asciiChar hx] at hd
            obtain ⟨rfl, htail⟩ := List.append_eq_singleton_iff.mp hd.symm |>.resolve_right (by simp)
            obtain rfl := List.cons.inj htail |>.2
            exact ⟨[], cs, by rw [hchar]; rfl, rfl, hrest.symm⟩

/-- ASCII text behind a text does not matter for its being decoded. -/
theorem isSome_decode_append {b tail : Bytes} (htail : ∀ x ∈ tail, x < 128) :
    (decode (b ++ tail)).isSome = (decode b).isSome := by
  rw [Bool.eq_iff_iff, Option.isSome_iff_exists, Option.isSome_iff_exists]
  constructor
  · rintro ⟨s, hs⟩
    cases tail with
    | nil => exact ⟨s, by rwa [List.append_nil] at hs⟩
    | cons x tail =>
        have hstr := str_of_decode hs
        rw [str_eq_flatMap] at hstr
        obtain ⟨before, after, -, hbefore, -⟩ :=
          exists_of_flatMap_eq_append_cons (htail x List.mem_cons_self) hstr
        exact ⟨String.ofList before, by rw [decode_eq_some_iff, str_ofList, hbefore]⟩
  · rintro ⟨s, hs⟩
    refine ⟨s ++ String.ofList (tail.map asciiChar), ?_⟩
    rw [decode_eq_some_iff, str_append, str_of_decode hs, str_ofList, flatMap_asciiChar htail]

/-- An encoding that begins with ASCII text. -/
theorem exists_of_flatMap_eq_append {needle : Bytes} (hneedle : ∀ x ∈ needle, x < 128)
    {cs : List Char} {c : Bytes} (h : cs.flatMap String.utf8EncodeChar = needle ++ c) :
    ∃ after, cs = needle.map asciiChar ++ after ∧ after.flatMap String.utf8EncodeChar = c := by
  induction needle generalizing cs with
  | nil => exact ⟨cs, rfl, h⟩
  | cons x needle ih =>
      obtain ⟨before, after, rfl, hbefore, hafter⟩ :=
        exists_of_flatMap_eq_append_cons (b := []) (hneedle x List.mem_cons_self) h
      have hnil : before = [] := by
        cases before with
        | nil => rfl
        | cons d before =>
            rw [List.flatMap_cons, List.append_eq_nil_iff] at hbefore
            exact absurd hbefore.1 String.utf8EncodeChar_ne_nil
      subst hnil
      obtain ⟨after', rfl, hc⟩ := ih (fun y hy => hneedle y (List.mem_cons_of_mem x hy)) hafter
      exact ⟨after', rfl, hc⟩

/-- A string whose encoding begins with an ASCII byte. -/
theorem toList_of_str_eq_cons {s : String} {b : UInt8} {rest : Bytes} (hb : b < 128)
    (h : str s = b :: rest) :
    ∃ cs, s.toList = asciiChar b :: cs ∧ str (String.ofList cs) = rest := by
  have hascii : ∀ x ∈ [b], x < 128 := by simpa using hb
  rw [str_eq_flatMap] at h
  obtain ⟨cs, hs, hrest⟩ := exists_of_flatMap_eq_append hascii h
  exact ⟨cs, hs, by rw [str_ofList, hrest]⟩

/-- ASCII text is found in a text where it is found in its encoding. -/
theorem infix_flatMap_iff {needle : Bytes} (hneedle : ∀ x ∈ needle, x < 128) {cs : List Char} :
    needle <:+: cs.flatMap String.utf8EncodeChar ↔ needle.map asciiChar <:+: cs := by
  constructor
  · rintro ⟨b, c, hbc⟩
    cases needle with
    | nil => exact List.nil_infix
    | cons x needle =>
        rw [List.append_assoc, List.cons_append] at hbc
        obtain ⟨before, after, rfl, -, hafter⟩ :=
          exists_of_flatMap_eq_append_cons (hneedle x List.mem_cons_self) hbc.symm
        obtain ⟨after', rfl, -⟩ :=
          exists_of_flatMap_eq_append (fun y hy => hneedle y (List.mem_cons_of_mem x hy)) hafter
        exact ⟨before, after', by simp⟩
  · rintro ⟨before, after, rfl⟩
    rw [List.flatMap_append, List.flatMap_append, flatMap_asciiChar hneedle]
    exact ⟨_, _, rfl⟩

/-! ## searching -/

/-- `b.find(c, start)` for a single byte; `none` where Python returns -1. -/
def find (b : Bytes) (c : UInt8) (start : Nat) : Option Nat :=
  ((b.drop start).findIdx? (· == c)).map (start + ·)

/-- The first position that `find` reports splits the string there. -/
theorem find_eq_some {b : Bytes} {c : UInt8} {start i : Nat} :
    b.find c start = some i ↔ start ≤ i ∧ b[i]? = some c ∧
      ∀ j, start ≤ j → j < i → b[j]? ≠ some c := by
  unfold find
  rw [Option.map_eq_some_iff]
  constructor
  · rintro ⟨k, hk, rfl⟩
    obtain ⟨hlt, hc, hmin⟩ := List.findIdx?_eq_some_iff_getElem.mp hk
    rw [List.getElem_drop, beq_iff_eq] at hc
    refine ⟨by omega, ?_, fun j hj hjk => ?_⟩
    · rw [← hc, List.getElem?_eq_getElem]
    · have hj' := hmin (j - start) (by omega)
      rw [List.getElem_drop] at hj'
      have hidx : start + (j - start) = j := by omega
      simp only [hidx, beq_iff_eq] at hj'
      rw [List.length_drop] at hlt
      rw [List.getElem?_eq_getElem (by omega)]
      simpa using hj'
  · rintro ⟨hle, hc, hmin⟩
    refine ⟨i - start, ?_, by omega⟩
    obtain ⟨hlt, hc⟩ := List.getElem?_eq_some_iff.mp hc
    rw [List.findIdx?_eq_some_iff_getElem]
    have hidx : start + (i - start) = i := by omega
    refine ⟨by rw [List.length_drop]; omega, ?_, fun j hj => ?_⟩
    · rw [List.getElem_drop]
      simpa [hidx] using hc
    · have hj' := hmin (start + j) (by omega) (by omega)
      rw [List.getElem?_eq_getElem (by omega)] at hj'
      rw [List.getElem_drop]
      simpa using hj'

theorem find_eq_none {b : Bytes} {c : UInt8} {start : Nat} :
    b.find c start = none ↔ ∀ j, start ≤ j → b[j]? ≠ some c := by
  unfold find
  rw [Option.map_eq_none_iff, List.findIdx?_eq_none_iff]
  constructor
  · intro h j hj hc
    have hmem : c ∈ b.drop start := by
      rw [List.mem_iff_getElem?]
      exact ⟨j - start, by rw [List.getElem?_drop, ← hc]; congr 1; omega⟩
    simpa using h c hmem
  · intro h x hx
    obtain ⟨k, hk⟩ := List.mem_iff_getElem?.mp hx
    rw [List.getElem?_drop] at hk
    have hne := h (start + k) (by omega)
    rw [hk] at hne
    simpa using hne

/-! ## ASCII -/

/-- `b.lower()`. -/
def lower (b : Bytes) : Bytes := b.map fun x => if 65 ≤ x ∧ x ≤ 90 then x + 32 else x

/-- The bytes that `b.strip()` takes off. -/
def isSpace (x : UInt8) : Bool := x == 32 || (9 ≤ x && x ≤ 13)

/-- `b.strip()`. -/
def strip (b : Bytes) : Bytes := ((b.dropWhile isSpace).reverse.dropWhile isSpace).reverse

/-- `len(b.strip()) == 0`. -/
def isBlank (b : Bytes) : Bool := b.all isSpace

/-- CR LF. -/
def crlf : Bytes := [13, 10]

/-! ## splitting -/

section Partition

variable {α : Type} [DecidableEq α]

/-- `b.partition(sep)`, without the separator, for a separator that is not empty. -/
def partition (sep : List α) : List α → List α × List α
  | [] => ([], [])
  | x :: xs =>
      if sep.isPrefixOf (x :: xs) then ([], (x :: xs).drop sep.length)
      else (x :: (partition sep xs).1, (partition sep xs).2)

/-- The first occurrence is found. -/
theorem partition_append {c : α} {sep l rest : List α} (h : c ∉ l) :
    partition (c :: sep) (l ++ c :: sep ++ rest) = (l, rest) := by
  induction l with
  | nil => simp [partition]
  | cons x l ih =>
      rw [List.mem_cons, not_or] at h
      have hprefix : (c :: sep).isPrefixOf (x :: (l ++ c :: sep ++ rest)) = false := by
        simp [List.isPrefixOf, h.1]
      rw [List.cons_append, List.cons_append, partition, hprefix, ih h.2]
      rfl

theorem partition_of_notMem {c : α} {l : List α} (h : c ∉ l) : partition [c] l = (l, []) := by
  induction l with
  | nil => rfl
  | cons x l ih =>
      rw [List.mem_cons, not_or] at h
      have hprefix : [c].isPrefixOf (x :: l) = false := by simp [List.isPrefixOf, h.1]
      rw [partition, hprefix, ih h.2]
      rfl

theorem partition_of_length_lt {sep l : List α} (h : l.length < sep.length) :
    partition sep l = (l, []) := by
  induction l with
  | nil => rfl
  | cons x l ih =>
      have hprefix : ¬ sep.isPrefixOf (x :: l) = true := fun hprefix =>
        absurd (List.isPrefixOf_iff_prefix.mp hprefix).length_le (Nat.not_le.mpr h)
      rw [partition, if_neg hprefix, ih (Nat.lt_of_succ_lt h)]

/-- What ends before the separator does is all in front of it. -/
theorem partition_of_prefix {sep head body text : List α}
    (h : partition sep (head ++ sep ++ body) = (head, body)) (htext : text <+: head ++ sep)
    (hlength : text.length < (head ++ sep).length) : partition sep text = (text, []) := by
  induction head generalizing text with
  | nil => exact partition_of_length_lt (by simpa using hlength)
  | cons x head ih =>
      cases text with
      | nil => rfl
      | cons y text =>
          obtain ⟨rfl, hrest⟩ := List.cons_prefix_cons.mp htext
          have hprefix : ¬ sep.isPrefixOf (y :: (head ++ sep ++ body)) = true := by
            intro hprefix
            rw [List.cons_append, List.cons_append, partition, if_pos hprefix] at h
            cases h
          have hshort : ¬ sep.isPrefixOf (y :: text) = true := by
            intro hshort
            have hwhole := htext.trans (List.prefix_append _ body)
            exact hprefix (List.isPrefixOf_iff_prefix.mpr
              ((List.isPrefixOf_iff_prefix.mp hshort).trans hwhole))
          rw [List.cons_append, List.cons_append, partition, if_neg hprefix] at h
          obtain ⟨hhead, hbody⟩ := Prod.mk.inj h
          rw [partition, if_neg hshort, ih (Prod.ext (List.cons.inj hhead).2 hbody) hrest
            (Nat.lt_of_succ_lt_succ hlength)]

end Partition

/-! ## fields -/

section Fields

variable {α : Type} {c : α}

/-- The fields behind the first one, each with the separator in front of it. -/
def fields (c : α) (ts : List (List α)) : List α := ts.flatMap (c :: ·)

theorem fields_cons (t : List α) (ts : List (List α)) :
    fields c (t :: ts) = c :: (t ++ fields c ts) := rfl

/-- A separator stands behind the first field, or further on. -/
theorem append_cons_eq_iff {l l' t t' : List α} (h : c ∉ t) :
    l ++ c :: l' = t ++ c :: t' ↔
      l = t ∧ l' = t' ∨ ∃ rest, l = t ++ c :: rest ∧ rest ++ c :: l' = t' := by
  induction t generalizing l with
  | nil =>
      cases l with
      | nil => simp
      | cons x l =>
          simp only [List.cons_append, List.nil_append, List.cons.injEq, reduceCtorEq, false_and,
            false_or]
          constructor
          · rintro ⟨rfl, rfl⟩
            exact ⟨l, ⟨rfl, rfl⟩, rfl⟩
          · rintro ⟨rest, ⟨rfl, rfl⟩, rfl⟩
            exact ⟨rfl, rfl⟩
  | cons y t ih =>
      rw [List.mem_cons, not_or] at h
      cases l with
      | nil => simp [h.1]
      | cons x l =>
          simp only [List.cons_append, List.cons.injEq, ih h.2, and_or_left, ← exists_and_left,
            and_assoc]

variable [DecidableEq α]

theorem splitOn_fields {t : List α} {ts : List (List α)} (h : ∀ u ∈ t :: ts, c ∉ u) :
    (t ++ fields c ts).splitOn c = t :: ts := by
  induction ts generalizing t with
  | nil =>
      rw [fields, List.flatMap_nil, List.append_nil]
      exact List.splitOn_eq_singleton (h t List.mem_cons_self)
  | cons u ts ih =>
      rw [fields_cons, List.splitOn_append_cons_self_of_not_mem (h t List.mem_cons_self),
        ih fun v hv => h v (List.mem_cons_of_mem t hv)]

/-- Every list consists of fields. -/
theorem exists_fields (c : α) (l : List α) :
    ∃ t ts, l = t ++ fields c ts ∧ ∀ u ∈ t :: ts, c ∉ u := by
  induction l with
  | nil => exact ⟨[], [], rfl, by simp⟩
  | cons x l ih =>
      obtain ⟨t, ts, rfl, h⟩ := ih
      by_cases hx : x = c
      · exact ⟨[], t :: ts, by rw [hx]; rfl, List.forall_mem_cons.mpr ⟨List.not_mem_nil, h⟩⟩
      · refine ⟨x :: t, ts, rfl, ?_⟩
        rw [List.forall_mem_cons] at h ⊢
        exact ⟨by simpa [Ne.symm hx] using h.1, h.2⟩

/-- The first field, and no more of it than `p` allows. -/
theorem takeWhile_fields {p : α → Bool} {t : List α} (ts : List (List α)) (ht : c ∉ t) :
    (t ++ fields c ts).takeWhile (fun x => x ≠ c && p x) = t.takeWhile p := by
  induction t with
  | nil =>
      cases ts with
      | nil => rfl
      | cons u ts => simp [fields_cons]
  | cons x t ih =>
      rw [List.mem_cons, not_or] at ht
      have hx : (decide (x ≠ c) && p x) = p x := by simp [Ne.symm ht.1]
      rw [List.cons_append, List.takeWhile_cons, List.takeWhile_cons, hx, ih ht.2]

theorem headD_splitOn (l : List α) : (l.splitOn c).headD [] = l.takeWhile (· ≠ c) := by
  obtain ⟨t, ts, rfl, h⟩ := exists_fields c l
  have htake := takeWhile_fields (p := fun _ => true) ts (h t List.mem_cons_self)
  have hall : t.takeWhile (fun _ => true) = t := List.takeWhile_eq_self_iff.mpr (by simp)
  simp only [Bool.and_true, hall] at htake
  rw [splitOn_fields h, List.headD_cons, htake]

end Fields

/-- `b.split(b"\r\n")`. -/
def splitCrlf : Bytes → List Bytes
  | [] => [[]]
  | 13 :: 10 :: rest => [] :: splitCrlf rest
  | x :: rest => (splitCrlf rest).modifyHead (x :: ·)

theorem splitCrlf_ne_nil (b : Bytes) : splitCrlf b ≠ [] := by
  fun_induction splitCrlf b with
  | case1 => simp
  | case2 rest ih => simp
  | case3 x rest _ ih =>
      obtain ⟨l, ls, hl⟩ := List.exists_cons_of_ne_nil ih
      rw [hl]
      simp

theorem splitCrlf_line {l : Bytes} (h : 13 ∉ l) : splitCrlf l = [l] := by
  induction l with
  | nil => rfl
  | cons x l ih =>
      rw [List.mem_cons, not_or] at h
      rw [splitCrlf, ih h.2]
      · rfl
      · rintro y rfl
        exact absurd rfl h.1

/-- Half of its end belongs to the line. -/
theorem splitCrlf_half {l : Bytes} (h : 13 ∉ l) : splitCrlf (l ++ [13]) = [l ++ [13]] := by
  induction l with
  | nil => rfl
  | cons x l ih =>
      rw [List.mem_cons, not_or] at h
      rw [List.cons_append, splitCrlf, ih h.2]
      · rfl
      · rintro y rfl
        exact absurd rfl h.1

theorem splitCrlf_append {l rest : Bytes} (h : 13 ∉ l) :
    splitCrlf (l ++ crlf ++ rest) = l :: splitCrlf rest := by
  induction l with
  | nil => rfl
  | cons x l ih =>
      rw [List.mem_cons, not_or] at h
      rw [List.cons_append, List.cons_append, splitCrlf, ih h.2]
      · rfl
      · rintro y rfl
        exact absurd rfl h.1

/-- The lines of a text. -/
theorem splitCrlf_lines {l : Bytes} {ls : List Bytes} (h : ∀ k ∈ l :: ls, 13 ∉ k) :
    splitCrlf (l ++ ls.flatMap (crlf ++ ·)) = l :: ls := by
  induction ls generalizing l with
  | nil =>
      rw [List.flatMap_nil, List.append_nil]
      exact splitCrlf_line (h l List.mem_cons_self)
  | cons k ks ih =>
      rw [List.flatMap_cons, List.append_assoc crlf, ← List.append_assoc l,
        splitCrlf_append (h l List.mem_cons_self), ih fun j hj => h j (List.mem_cons_of_mem l hj)]

/-- A line that another one follows is no end of a head. -/
theorem partition_line {l rest : Bytes} {x : UInt8} (hl : 13 ∉ l) (hx : x ≠ 13) :
    partition (crlf ++ crlf) (l ++ crlf ++ x :: rest) =
      (l ++ crlf ++ (partition (crlf ++ crlf) (x :: rest)).1,
        (partition (crlf ++ crlf) (x :: rest)).2) := by
  induction l with
  | nil =>
      have hsep : (crlf ++ crlf).isPrefixOf (13 :: 10 :: x :: rest) = false := by
        simp [crlf, List.isPrefixOf, hx.symm]
      have hfeed : (crlf ++ crlf).isPrefixOf (10 :: x :: rest) = false := rfl
      have hline : ([] : Bytes) ++ crlf ++ x :: rest = 13 :: 10 :: x :: rest := rfl
      rw [hline, partition, hsep, partition, hfeed]
      rfl
  | cons y l ih =>
      rw [List.mem_cons, not_or] at hl
      have hsep : (crlf ++ crlf).isPrefixOf (y :: (l ++ crlf ++ x :: rest)) = false := by
        simp [crlf, List.isPrefixOf, hl.1]
      rw [List.cons_append, List.cons_append, partition, hsep, ih hl.2]
      rfl

/-- The head of a message ends with the first empty line. -/
theorem partition_head {l rest : Bytes} {ls : List Bytes} (h : ∀ k ∈ l :: ls, 13 ∉ k)
    (hne : ∀ k ∈ ls, k ≠ []) :
    partition (crlf ++ crlf) (l ++ ls.flatMap (crlf ++ ·) ++ crlf ++ crlf ++ rest) =
      (l ++ ls.flatMap (crlf ++ ·), rest) := by
  induction ls generalizing l with
  | nil =>
      rw [List.flatMap_nil, List.append_nil, List.append_assoc l]
      exact partition_append (h l List.mem_cons_self)
  | cons k ks ih =>
      obtain ⟨x, k', rfl⟩ := List.exists_cons_of_ne_nil (hne k List.mem_cons_self)
      have hx : x ≠ 13 := fun heq =>
        h (x :: k') (List.mem_cons_of_mem l List.mem_cons_self) (heq ▸ List.mem_cons_self)
      have hrest := ih (l := x :: k') (fun j hj => h j (List.mem_cons_of_mem l hj))
        fun j hj => hne j (List.mem_cons_of_mem _ hj)
      have hline := @partition_line l (k' ++ ks.flatMap (crlf ++ ·) ++ crlf ++ crlf ++ rest) x
        (h l List.mem_cons_self) hx
      simp only [List.cons_append] at hrest
      rw [hrest] at hline
      simpa only [List.flatMap_cons, List.append_assoc, List.cons_append] using hline

end Bytes
