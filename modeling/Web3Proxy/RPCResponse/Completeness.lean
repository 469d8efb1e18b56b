import Mathlib.Data.List.Infix
import Web3Proxy.Lib.Http.Cut
import Web3Proxy.RPCResponse.Spec

/-!
# Web3Proxy.RPCResponse.Completeness

What `is_complete_raw_response` says of a response that has come in part, at every byte.

* `parseHeaders_take` — what is kept of a header that has come in part;
* `take_iff` — which parts of a response, and which responses as a whole, are judged as they
  should be;
* `never_exact` — no response is told apart from all its parts.

What has come of a header is taken for the whole: without an empty line the fields so far count as
the header, and where they give no length the response counts as complete.
-/

namespace Web3Proxy

open Py Bytes Http PyStr

/-! ## what the header says -/

namespace RPCResponse

variable {fs : List Field}

/-- The fields are UTF-8. -/
def Readable (fs : List Field) : Prop := ∀ f ∈ fs, (decode f.line).isSome = true

/-- The last transfer coding contains `chunked`, in small letters. -/
def NamesChunked (fs : List Field) : Prop :=
  ∃ v, (values fs (str "transfer-encoding")).getLast? = some v ∧ str "chunked" <:+: v

/-- The last length is `len`. -/
def GivesLength (fs : List Field) (len : Nat) : Prop :=
  ∃ v, (values fs (str "content-length")).getLast? = some v ∧ numeral 10 v = some len

/-- A text with the value in it and white space around it is kept without the white space. -/
def Keeps (v : Bytes) (s : String) : Prop :=
  ∃ left right text, (∀ x ∈ left, Bytes.isSpace x = true) ∧ (∀ x ∈ right, Bytes.isSpace x = true) ∧
    text.flatMap String.utf8EncodeChar = left ++ (v ++ right) ∧
      s = String.ofList (PyStr.strip text)

theorem isSpace_asciiChar {x : UInt8} (hx : Bytes.isSpace x = true) :
    x < 128 ∧ PyStr.isSpace (asciiChar x) = true := by
  have hall : ∀ x : UInt8, Bytes.isSpace x = true →
      x < 128 ∧ PyStr.isSpace (asciiChar x) = true := forall_byte (by decide +kernel)
  exact hall x hx

/-- What has no white space in it is found in a value where it is found in what is kept. -/
theorem Keeps.infix_iff {v needle : Bytes} {s : String} (h : Keeps v s) (hne : needle ≠ [])
    (hascii : ∀ x ∈ needle, x < 128) (hbytes : ∀ x ∈ needle, Bytes.isSpace x = false)
    (hchars : ∀ c ∈ needle.map asciiChar, PyStr.isSpace c = false) :
    needle.map asciiChar <:+: s.toList ↔ needle <:+: v := by
  obtain ⟨left, right, text, hleft, hright, htext, rfl⟩ := h
  obtain ⟨blank, blank', hsplit, hblank, hblank', -⟩ := trim_eq_iff.mp (rfl : PyStr.strip text = _)
  rw [String.toList_ofList, ← infix_append_iff hchars (by simpa using hne) hblank hblank', ← hsplit,
    ← infix_flatMap_iff hascii, htext, infix_append_iff hbytes hne hleft hright]

/-- An ASCII word is kept as it is. -/
theorem Keeps.eq_of_word {v : Bytes} {s : String} (h : Keeps v s)
    (hv : ∀ x ∈ v, x < 128 ∧ PyStr.isSpace (asciiChar x) = false) : str s = v := by
  obtain ⟨left, right, text, hleft, hright, htext, rfl⟩ := h
  have hascii : ∀ x ∈ left ++ (v ++ right), x < 128 := by
    intro x hx
    simp only [List.mem_append] at hx
    obtain hx | hx | hx := hx
    · exact (isSpace_asciiChar (hleft x hx)).1
    · exact (hv x hx).1
    · exact (isSpace_asciiChar (hright x hx)).1
  have hchars : text = (left ++ (v ++ right)).map asciiChar := by
    obtain ⟨after, rfl, hafter⟩ :=
      exists_of_flatMap_eq_append hascii (htext.trans (List.append_nil _).symm)
    cases after with
    | nil => rw [List.append_nil]
    | cons c after => simp [String.utf8EncodeChar_ne_nil] at hafter
  have hblank {b : Bytes} (hb : ∀ x ∈ b, Bytes.isSpace x = true) :
      ∀ c ∈ b.map asciiChar, PyStr.isSpace c = true := by
    intro c hc
    obtain ⟨x, hx, rfl⟩ := List.mem_map.mp hc
    exact (isSpace_asciiChar (hb x hx)).2
  have hword : ∀ c ∈ v.map asciiChar, PyStr.isSpace c = false := by
    intro c hc
    obtain ⟨x, hx, rfl⟩ := List.mem_map.mp hc
    exact (hv x hx).2
  have hstrip : PyStr.strip text = v.map asciiChar := by
    refine trim_eq_iff.mpr ⟨left.map asciiChar, right.map asciiChar, by simp [hchars],
      hblank hleft, hblank hright, fun c hc => hword c (List.mem_of_head? hc),
      fun c hc => hword c (List.mem_of_getLast? hc)⟩
  rw [hstrip, str_ofList, flatMap_asciiChar fun x hx => (hv x hx).1]

/-! ## lines -/

/-- The name under which a field is kept. -/
def keyOf (f : Field) : String := String.ofList ((f.name.map asciiChar).map Char.toLower)

theorem ascii_of_isTchar {x : UInt8} (hx : isTchar x = true) :
    x < 128 ∧ asciiChar x ≠ ':' ∧
      (asciiChar x).toLower = asciiChar (if 65 ≤ x ∧ x ≤ 90 then x + 32 else x) := by
  have hall : ∀ x : UInt8, isTchar x = true → x < 128 ∧ asciiChar x ≠ ':' ∧
      (asciiChar x).toLower = asciiChar (if 65 ≤ x ∧ x ≤ 90 then x + 32 else x) :=
    forall_byte (by decide +kernel)
  exact hall x hx

theorem lower_lt {x : UInt8} (hx : x < 128) :
    (if 65 ≤ x ∧ x ≤ 90 then x + 32 else x) < 128 := by
  have hall : ∀ x : UInt8, x < 128 → (if 65 ≤ x ∧ x ≤ 90 then x + 32 else x) < 128 :=
    forall_byte (by decide +kernel)
  exact hall x hx

theorem keyOf_eq_iff {f : Field} (hf : f.Spelled) {k : String} :
    keyOf f = k ↔ lower f.name = str k := by
  have hlower : (f.name.map asciiChar).map Char.toLower = (lower f.name).map asciiChar := by
    rw [lower, List.map_map, List.map_map]
    exact List.map_congr_left fun x hx => (ascii_of_isTchar (hf.name x hx)).2.2
  have hkey : str (keyOf f) = lower f.name := by
    rw [keyOf, str_ofList, hlower, flatMap_asciiChar]
    intro x hx
    obtain ⟨y, hy, rfl⟩ := List.mem_map.mp hx
    exact lower_lt (ascii_of_isTchar (hf.name y hy)).1
  rw [← hkey]
  constructor
  · rintro rfl
    rfl
  · intro h
    have hdecode := decode_str (keyOf f)
    rw [h, decode_str] at hdecode
    exact (Option.some.inj hdecode).symm

theorem isSpace_of_isOws {b : Bytes} (hb : ∀ x ∈ b, isOws x = true) :
    ∀ x ∈ b, Bytes.isSpace x = true := by
  intro x hx
  have hows := hb x hx
  simp only [isOws, Bool.or_eq_true, beq_iff_eq] at hows
  obtain rfl | rfl := hows <;> decide

/-- The name of a field and its colon are ASCII, and the name has no colon in it. -/
theorem ascii_of_spelled {f : Field} (hf : f.Spelled) :
    (∀ x ∈ f.name ++ [58], x < 128) ∧ ':' ∉ f.name.map asciiChar := by
  constructor
  · intro x hx
    obtain hx | hx := List.mem_append.mp hx
    · exact (ascii_of_isTchar (hf.name x hx)).1
    · obtain rfl := List.mem_singleton.mp hx
      decide
  · intro h
    obtain ⟨x, hx, heq⟩ := List.mem_map.mp h
    exact (ascii_of_isTchar (hf.name x hx)).2.1 heq

/-- A name without a colon is kept with an empty value. -/
theorem parseHeader_name {f : Field} (hf : f.Spelled) (d : Dict String String) :
    parseHeader d f.name = .ok (d.set (keyOf f) "") := by
  obtain ⟨hascii, hcolon⟩ := ascii_of_spelled hf
  have hdecode : decode f.name = some (String.ofList (f.name.map asciiChar)) := by
    rw [decode_eq_some_iff, str_ofList,
      flatMap_asciiChar fun x hx => hascii x (List.mem_append_left _ hx)]
  rw [parseHeader_of_decode hdecode, String.toList_ofList, partition_of_notMem hcolon]
  rfl

/-- A line that can be decoded is kept as name and value. -/
theorem parseHeader_fieldLine {f : Field} (hf : f.Spelled) {tail : Bytes}
    (htail : ∀ x ∈ tail, Bytes.isSpace x = true) {text : String}
    (hdecode : decode (f.line ++ tail) = some text) :
    ∃ s, Keeps f.value s ∧ ∀ d, parseHeader d (f.line ++ tail) = .ok (d.set (keyOf f) s) := by
  obtain ⟨hascii, hcolon⟩ := ascii_of_spelled hf
  have hparts : f.line ++ tail =
      f.name ++ [58] ++ (f.before ++ (f.value ++ (f.after ++ tail))) := by
    simp only [Field.line, List.append_assoc]
  have htext := str_of_decode hdecode
  rw [str_eq_flatMap, hparts] at htext
  obtain ⟨rest, hchars, hrest⟩ := exists_of_flatMap_eq_append hascii htext
  have hpart : partition [':'] text.toList = (f.name.map asciiChar, rest) := by
    rw [hchars, List.map_append]
    exact partition_append hcolon
  refine ⟨_, ⟨f.before, f.after ++ tail, rest, isSpace_of_isOws hf.before, ?_, hrest, rfl⟩, ?_⟩
  · intro x hx
    obtain hx | hx := List.mem_append.mp hx
    · exact isSpace_of_isOws hf.after x hx
    · exact htail x hx
  · intro d
    rw [parseHeader_of_decode hdecode, hpart]
    rfl

/-- What a line of a field is kept as. -/
theorem parseHeader_shows {f : Field} (hf : f.Spelled) {l : Bytes} (hl : f.Shows l) :
    decode f.line = none ∧ (∀ d, parseHeader d l = .error .unicodeDecodeError) ∨
      (decode f.line).isSome = true ∧ ∃ s, Keeps f.value s ∧
        ∀ d, parseHeader d l = .ok (d.set (keyOf f) s) := by
  cases hl with
  | name hbefore hvalue hafter =>
      have hline : f.line = f.name ++ [58] := by simp [Field.line, hbefore, hvalue, hafter]
      have hkeeps : Keeps f.value "" := by
        rw [hvalue]
        exact ⟨[], [], [], by simp, by simp, rfl, rfl⟩
      exact Or.inr ⟨hline ▸ isSome_decode_of_ascii (ascii_of_spelled hf).1, "", hkeeps,
        parseHeader_name hf⟩
  | @line tail htail =>
      have hspace : ∀ x ∈ tail, Bytes.isSpace x = true := by
        obtain rfl | rfl := htail <;> decide
      have hsome := isSome_decode_append (b := f.line) fun x hx =>
        (isSpace_asciiChar (hspace x hx)).1
      cases hdecode : decode (f.line ++ tail) with
      | none =>
          rw [hdecode] at hsome
          refine Or.inl ⟨Option.not_isSome_iff_eq_none.mp (by rw [← hsome]; simp), fun d => ?_⟩
          rw [parseHeader, decodeUtf8, hdecode]
          rfl
      | some text =>
          rw [hdecode] at hsome
          exact Or.inr ⟨hsome.symm, parseHeader_fieldLine hf hspace hdecode⟩

/-- The headers have the last value of each field, over what they have already, and perhaps
half of an empty line. -/
def Records (d₀ : Dict String String) (fs : List Field) (d : Dict String String) : Prop :=
  ∀ k ≠ "\r", match (values fs (str k)).getLast? with
    | none => d.get? k = d₀.get? k
    | some v => ∃ s, Keeps v s ∧ d.get? k = some s

theorem Records.cons {f : Field} {fs : List Field} (hf : f.Spelled) {s : String}
    (hs : Keeps f.value s) {d₀ d : Dict String String}
    (h : Records (d₀.set (keyOf f) s) fs d) : Records d₀ (f :: fs) d := by
  intro k hne
  have hk := h k hne
  have hkey : k = keyOf f ↔ lower f.name = str k := by rw [← keyOf_eq_iff hf, eq_comm]
  rw [Dict.get?_set] at hk
  by_cases hname : lower f.name = str k
  · have hvalues : values (f :: fs) (str k) = f.value :: values fs (str k) := by
      simp [values, hname]
    rw [hvalues, List.getLast?_cons]
    rw [if_pos (hkey.mpr hname)] at hk
    cases hlast : (values fs (str k)).getLast? with
    | none =>
        rw [hlast] at hk
        exact ⟨s, hs, hk⟩
    | some v =>
        rw [hlast] at hk
        exact hk
  · have hvalues : values (f :: fs) (str k) = values fs (str k) := by simp [values, hname]
    rw [hvalues]
    rwa [if_neg fun h => hname (hkey.mp h)] at hk

/-- The lines of fields are kept, or the first one that is not UTF-8 raises. -/
theorem foldlM_shows {ls : List Bytes} {fs : List Field}
    (h : List.Forall₂ (fun l f => f.Shows l) ls fs) (hfs : ∀ f ∈ fs, f.Spelled)
    (d₀ : Dict String String) :
    ¬ Readable fs ∧ ls.foldlM parseHeader d₀ = .error .unicodeDecodeError ∨
      Readable fs ∧ ∃ d, ls.foldlM parseHeader d₀ = .ok d ∧ Records d₀ fs d := by
  induction h generalizing d₀ with
  | nil => exact Or.inr ⟨by simp [Readable], d₀, rfl, fun k _ => rfl⟩
  | @cons l f ls fs hl hls ih =>
      have hf := hfs f List.mem_cons_self
      have hcons : Readable (f :: fs) ↔ (decode f.line).isSome = true ∧ Readable fs :=
        List.forall_mem_cons
      rw [hcons, List.foldlM_cons]
      obtain ⟨hnone, herror⟩ | ⟨hsome, s, hs, hok⟩ := parseHeader_shows hf hl
      · have hnot : ¬ (decode f.line).isSome = true := by
          rw [hnone]
          decide
        refine Or.inl ⟨fun h => hnot h.1, ?_⟩
        rw [herror]
        rfl
      · rw [hok]
        obtain ⟨hnot, herror⟩ | ⟨hall, d, hd, hrecords⟩ :=
          ih (fun g hg => hfs g (List.mem_cons_of_mem f hg)) (d₀.set (keyOf f) s)
        · exact Or.inl ⟨fun h => hnot h.2, herror⟩
        · exact Or.inr ⟨⟨hsome, hall⟩, d, hd, hrecords.cons hf hs⟩

/-- The lines that `_parse_headers` goes through. -/
def headerLines (b : Bytes) : List Bytes :=
  if (splitCrlf b).getLast? = some [] then (splitCrlf b).dropLast else splitCrlf b

theorem headerLines_line {l : Bytes} (h : splitCrlf l = [l]) (hne : l ≠ []) :
    headerLines l = [l] := by
  rw [headerLines, h, if_neg (by simpa using hne)]

theorem headerLines_append {l : Bytes} (h : 13 ∉ l) (rest : Bytes) :
    headerLines (l ++ crlf ++ rest) = l :: headerLines rest := by
  obtain ⟨k, ks, hk⟩ := List.exists_cons_of_ne_nil (splitCrlf_ne_nil rest)
  rw [headerLines, headerLines, splitCrlf_append h, hk, List.getLast?_cons_cons]
  split <;> rfl

/-- A line that has not come to its end shows its field. -/
theorem headerLines_take_wire {f : Field} (hf : f.WellFormed) {n : Nat} (hzero : n ≠ 0)
    (hn : n < f.wire.length) :
    ∃ l, (f.take n).Shows l ∧ headerLines (f.wire.take n) = [l] := by
  have hline : 13 ∉ f.line := fun hx => (hf.spelled.line_ne 13 hx).1 rfl
  have hwire := f.length_wire
  by_cases hhalf : n ≤ f.line.length
  · have htake : f.wire.take n = f.line.take n := List.take_append_of_le_length hhalf
    have hshort : 13 ∉ f.line.take n := fun hx => hline (List.mem_of_mem_take hx)
    have hne : f.line.take n ≠ [] := by
      rw [Ne, List.take_eq_nil_iff, not_or]
      exact ⟨hzero, hf.line.1⟩
    refine ⟨f.line.take n, f.shows_take n, ?_⟩
    rw [htake, headerLines_line (splitCrlf_line hshort) hne]
  · have hlast : n = f.line.length + 1 := by omega
    have htake : f.wire.take n = f.line ++ [13] := by
      rw [hlast, Field.wire, List.take_length_add_append]
      rfl
    refine ⟨f.line ++ [13], ?_, ?_⟩
    · rw [Field.take_eq_self (by omega)]
      exact .line (Or.inr rfl)
    · rw [htake, headerLines_line (splitCrlf_half hline) (by simp)]

/-- The lines of a header that has come in part show the fields as far as they have come; half
of the empty line may follow. -/
theorem headerLines_take {fs : List Field} (hfs : ∀ f ∈ fs, f.WellFormed) {n : Nat}
    (hn : n < (fs.flatMap Field.wire).length + 2) :
    ∃ ls, List.Forall₂ (fun l f => f.Shows l) ls (shown fs n) ∧
      (headerLines ((fs.flatMap Field.wire ++ crlf).take n) = ls ∨
        headerLines ((fs.flatMap Field.wire ++ crlf).take n) = ls ++ [[13]]) := by
  induction fs generalizing n with
  | nil =>
      refine ⟨[], .nil, ?_⟩
      obtain rfl | rfl : n = 0 ∨ n = 1 := by simp at hn; omega
      · exact Or.inl rfl
      · exact Or.inr rfl
  | cons f fs ih =>
      have hf := hfs f List.mem_cons_self
      rw [List.flatMap_cons, List.append_assoc]
      rw [List.flatMap_cons, List.length_append] at hn
      by_cases hzero : n = 0
      · subst hzero
        exact ⟨[], by rw [shown_zero]; exact .nil, Or.inl rfl⟩
      rw [shown_cons hzero]
      by_cases hlt : n < f.wire.length
      · obtain ⟨l, hl, hlines⟩ := headerLines_take_wire hf hzero hlt
        have hrest : n - f.wire.length = 0 := by omega
        rw [hrest, shown_zero, List.take_append_of_le_length (by omega)]
        exact ⟨[l], .cons hl .nil, Or.inl hlines⟩
      · have hwire := f.length_wire
        have hline : 13 ∉ f.line := fun hx => (hf.spelled.line_ne 13 hx).1 rfl
        obtain ⟨ls, hls, hlines⟩ := ih (fun g hg => hfs g (List.mem_cons_of_mem f hg))
          (n := n - f.wire.length) (by omega)
        have htake : (f.wire ++ (fs.flatMap Field.wire ++ crlf)).take n =
            f.line ++ crlf ++ (fs.flatMap Field.wire ++ crlf).take (n - f.wire.length) := by
          rw [List.take_append, List.take_of_length_le (by omega), Field.wire]
        rw [htake, headerLines_append hline]
        refine ⟨f.line :: ls, .cons ?_ hls, ?_⟩
        · rw [Field.take_eq_self (by omega)]
          have hshows := Field.Shows.line (f := f) (Or.inl rfl : ([] : Bytes) = [] ∨ _)
          rwa [List.append_nil] at hshows
        · obtain h | h := hlines
          · exact Or.inl (by rw [h])
          · exact Or.inr (by rw [h]; rfl)

/-- What is kept of a header that has come in part. -/
theorem parseHeaders_take {fs : List Field} (hfs : ∀ f ∈ fs, f.WellFormed) {n : Nat}
    (hn : n < (fs.flatMap Field.wire).length + 2) :
    ¬ Readable (shown fs n) ∧
        parseHeaders ((fs.flatMap Field.wire ++ crlf).take n) = .error .unicodeDecodeError ∨
      Readable (shown fs n) ∧ ∃ d,
        parseHeaders ((fs.flatMap Field.wire ++ crlf).take n) = .ok d ∧
          Records .empty (shown fs n) d := by
  obtain ⟨ls, hls, hlines⟩ := headerLines_take hfs hn
  have hparse : parseHeaders ((fs.flatMap Field.wire ++ crlf).take n) =
      (headerLines ((fs.flatMap Field.wire ++ crlf).take n)).foldlM parseHeader .empty := rfl
  have hhalf (d : Dict String String) : [[13]].foldlM parseHeader d = .ok (d.set "\r" "") := by
    have hdecode : decode [13] = some "\r" := decode_eq_some_iff.mpr (by decide)
    rw [List.foldlM_cons, parseHeader_of_decode hdecode]
    rfl
  rw [hparse]
  obtain ⟨hnot, herror⟩ | ⟨hall, d, hd, hrecords⟩ :=
    foldlM_shows hls (spelled_of_mem_shown hfs) .empty
  · refine Or.inl ⟨hnot, ?_⟩
    obtain h | h := hlines
    · rw [h, herror]
    · rw [h, List.foldlM_append, herror]
      rfl
  · refine Or.inr ⟨hall, ?_⟩
    obtain h | h := hlines
    · exact ⟨d, by rw [h, hd], hrecords⟩
    · refine ⟨d.set "\r" "", ?_, fun k hk => ?_⟩
      · rw [h, List.foldlM_append, hd]
        exact hhalf d
      · rw [Dict.get?_set_ne hk]
        exact hrecords k hk

/-! ## the verdict -/

theorem isIn_iff {needle haystack : String} :
    isIn needle haystack = true ↔ needle.toList <:+: haystack.toList := by
  simp only [isIn, List.any_eq_true, List.mem_tails, List.isPrefixOf_iff_prefix,
    List.infix_iff_prefix_suffix, and_comm]

/-- The coding is found as it is said. -/
theorem Records.isChunked_iff {d : Dict String String} (h : Records .empty fs d) :
    isChunked d = true ↔ NamesChunked fs := by
  have hcoding := h "transfer-encoding" (by decide)
  have hneedle : "chunked".toList = (str "chunked").map asciiChar := by decide
  rw [isChunked, isIn_iff, NamesChunked, hneedle]
  cases hlast : (values fs (str "transfer-encoding")).getLast? with
  | none =>
      have habsent : ¬ (str "chunked").map asciiChar <:+: "".toList := by decide
      rw [hlast] at hcoding
      rw [hcoding]
      refine iff_of_false habsent ?_
      rintro ⟨v, hv, -⟩
      cases hv
  | some v =>
      rw [hlast] at hcoding
      obtain ⟨s, hs, hget⟩ := hcoding
      rw [hget, Option.getD_some,
        hs.infix_iff (by decide) (by decide) (by decide) (by decide)]
      simp

section Verdict

variable {d : Dict String String} (h : Records .empty fs d) (body : Bytes)

include h

theorem Records.verifyCompletion_chunked (hnamed : NamesChunked fs) :
    verifyCompletion body d = .ok ((str "0\r\n\r\n").isSuffixOf body) := by
  rw [verifyCompletion, if_pos (h.isChunked_iff.mpr hnamed)]

variable (hnot : ¬ NamesChunked fs)

include hnot

/-- Without a length there is no body. -/
theorem Records.verifyCompletion_bare (hvalues : values fs (str "content-length") = []) :
    verifyCompletion body d = .ok (decide (body.length = 0)) := by
  have hget := h "content-length" (by decide)
  rw [hvalues] at hget
  rw [verifyCompletion, if_neg fun hc => hnot (h.isChunked_iff.mp hc), hget]
  exact congrArg Except.ok (decide_eq_decide.mpr Int.ofNat_inj)

/-- A length is read as the word that it is. -/
theorem Records.verifyCompletion_word {v : Bytes}
    (hlast : (values fs (str "content-length")).getLast? = some v)
    (hword : ∀ x ∈ v, x < 128 ∧ PyStr.isSpace (asciiChar x) = false) :
    verifyCompletion body d = (toInt v).map fun len => decide ((body.length : Int) = len) := by
  have hlength := h "content-length" (by decide)
  rw [hlast] at hlength
  obtain ⟨s, hs, hget⟩ := hlength
  rw [verifyCompletion, if_neg fun hc => hnot (h.isChunked_iff.mp hc), hget, ← hs.eq_of_word hword]
  show (toInt (str s) >>= fun len => _) = _
  cases toInt (str s) <;> rfl

theorem Records.verifyCompletion_sized {len : Nat} (hlen : GivesLength fs len) :
    verifyCompletion body d = .ok (decide (body.length = len)) := by
  obtain ⟨v, hlast, hnumeral⟩ := hlen
  have hdigit : ∀ d : Fin 10, (48 + UInt8.ofNat d : UInt8) < 128 ∧
      PyStr.isSpace (asciiChar (48 + UInt8.ofNat d)) = false := by decide +kernel
  have hword : ∀ x ∈ v, x < 128 ∧ PyStr.isSpace (asciiChar x) = false := by
    intro x hx
    obtain ⟨d, hd, rfl⟩ := mem_numeral hnumeral hx
    exact hdigit ⟨d, hd⟩
  rw [h.verifyCompletion_word body hnot hlast hword, toInt_numeral hnumeral]
  exact congrArg Except.ok (decide_eq_decide.mpr Int.ofNat_inj)

/-- A length that is not there yet raises. -/
theorem Records.verifyCompletion_blank
    (hlast : (values fs (str "content-length")).getLast? = some []) :
    verifyCompletion body d = .error .valueError := by
  rw [h.verifyCompletion_word body hnot hlast (by simp)]
  rfl

end Verdict

/-- Before the body a header counts as incomplete where it says that something follows. -/
theorem Records.verifyCompletion_nil_iff {d : Dict String String} (h : Records .empty fs d)
    (hvalues : ∀ v ∈ values fs (str "content-length"), v = [] ∨ ∃ m, numeral 10 v = some m) :
    verifyCompletion [] d = .ok false ↔
      NamesChunked fs ∨ ∃ len, 0 < len ∧ GivesLength fs len := by
  by_cases hnamed : NamesChunked fs
  · rw [h.verifyCompletion_chunked [] hnamed]
    exact iff_of_true (by decide) (Or.inl hnamed)
  · rw [or_iff_right hnamed]
    cases hlast : (values fs (str "content-length")).getLast? with
    | none =>
        rw [h.verifyCompletion_bare [] hnamed (List.getLast?_eq_none_iff.mp hlast)]
        refine iff_of_false (by decide) ?_
        rintro ⟨len, -, v, hv, -⟩
        rw [hlast] at hv
        cases hv
    | some v =>
        obtain rfl | ⟨m, hm⟩ := hvalues v (List.mem_of_getLast? hlast)
        · rw [h.verifyCompletion_blank [] hnamed hlast]
          refine iff_of_false (by simp) ?_
          rintro ⟨len, -, v, hv, hlen⟩
          rw [hlast] at hv
          obtain rfl := Option.some.inj hv
          cases hlen
        · have hgives : GivesLength fs m := ⟨v, hlast, hm⟩
          rw [h.verifyCompletion_sized [] hnamed hgives]
          constructor
          · intro hfalse
            refine ⟨m, ?_, hgives⟩
            simpa [Nat.pos_iff_ne_zero, eq_comm] using hfalse
          · rintro ⟨len, hpos, v', hv', hlen⟩
            rw [hlast] at hv'
            obtain rfl := Option.some.inj hv'
            rw [hm] at hlen
            obtain rfl := Option.some.inj hlen
            simpa [Nat.pos_iff_ne_zero, eq_comm] using hpos

/-! ## responses in part -/

variable {r : Response} {n : Nat}

/-- Less than the first word is no header. -/
theorem isCompleteRawResponse_short {b : Bytes} (hb : b.length < 4) :
    isCompleteRawResponse b = .ok false := by
  have hword : ¬ str "HTTP" <+: b := by
    intro h
    have hlength := h.length_le
    have hfour : (str "HTTP").length = 4 := by decide
    omega
  have hend : ¬ str "0\r\n\r\n" <:+ b := by
    intro h
    have hlength := h.length_le
    have hfive : (str "0\r\n\r\n").length = 5 := by decide
    omega
  have hhead : separateHeadFromBody b = (none, b) := by
    rw [separateHeadFromBody, if_neg (mt List.isPrefixOf_iff_prefix.mp hword)]
  rw [isCompleteRawResponse, hhead]
  exact congrArg Except.ok (Bool.eq_false_iff.mpr (mt List.isSuffixOf_iff_suffix.mp hend))

theorem prefix_head (h : r.Bounded) : str "HTTP" <+: r.head := by
  have hversion : r.version = str "HTTP" ++ str "/1.1" := h.version.trans (by decide)
  simp only [Response.head, Response.start, hversion, List.append_assoc, List.prefix_append]

/-- A header that has come in part is taken for the whole, without a body. -/
theorem isCompleteRawResponse_head (h : r.Bounded) (hfour : 4 ≤ n) (hn : n < r.head.length) :
    isCompleteRawResponse (r.wire.take n) =
      (parseHeaders ((r.fields.flatMap Field.wire ++ crlf).take (n - (r.start.length + 2))) >>=
        verifyCompletion []) := by
  have hword : (str "HTTP").isPrefixOf (r.head.take n) = true := by
    rw [List.isPrefixOf_iff_prefix, List.prefix_take_iff]
    exact ⟨prefix_head h, hfour⟩
  rw [Response.wire_eq, List.take_append_of_le_length hn.le, isCompleteRawResponse,
    separateHeadFromBody, if_pos hword, Response.partition_cut h.wellFormed hn]
  show parseHeaders (partition crlf (r.head.take n)).2 >>= _ = _
  rw [Response.fieldLines_take h.wellFormed]

/-- Behind the header its lines are there, without the end of the last one. -/
theorem isCompleteRawResponse_body (h : r.Bounded) (hn : r.head.length ≤ n) :
    isCompleteRawResponse (r.wire.take n) =
      (parseHeaders ((r.fields.flatMap Field.wire ++ crlf).take
          ((r.fields.flatMap Field.wire).length - 2)) >>=
        verifyCompletion (r.body.wire.take (n - r.head.length))) := by
  have hword : (str "HTTP").isPrefixOf (r.head ++ r.body.wire.take (n - r.head.length)) = true := by
    rw [List.isPrefixOf_iff_prefix]
    exact (prefix_head h).trans (List.prefix_append ..)
  have hlength : r.head.length - 4 - (r.start.length + 2) =
      (r.fields.flatMap Field.wire).length - 2 := by
    rw [r.length_head]
    omega
  rw [Response.wire_eq, List.take_append, List.take_of_length_le hn, isCompleteRawResponse,
    separateHeadFromBody, if_pos hword, Response.partition_head h.wellFormed]
  show parseHeaders (partition crlf r.headLines).2 >>= _ = _
  rw [Response.headLines_eq_take, Response.fieldLines_take h.wellFormed, hlength]

/-! ## what is told apart -/

/-- The response counts as complete when it is there, and not before. -/
def Exact (r : Response) : Prop :=
  isCompleteRawResponse r.wire = .ok true ∧
    ∀ p, p <+: r.wire → p ≠ r.wire → isCompleteRawResponse p = .ok false

theorem exact_iff : Exact r ↔ ∀ n ≤ r.wire.length,
    isCompleteRawResponse (r.wire.take n) = .ok (decide (n = r.wire.length)) := by
  constructor
  · rintro ⟨hwhole, hpart⟩ n hn
    by_cases heq : n = r.wire.length
    · rw [heq, List.take_length, hwhole, decide_eq_true rfl]
    · rw [decide_eq_false heq]
      refine hpart _ (List.take_prefix n _) fun htake => heq ?_
      have hlength := congrArg List.length htake
      rw [List.length_take] at hlength
      omega
  · intro h
    refine ⟨?_, fun p hp hne => ?_⟩
    · have hwhole := h r.wire.length (Nat.le_refl _)
      rwa [List.take_length, decide_eq_true rfl] at hwhole
    · have hlength : p.length ≠ r.wire.length := fun heq => hne (hp.eq_of_length heq)
      have hpart := h p.length hp.length_le
      rwa [← List.prefix_iff_eq_take.mp hp, decide_eq_false hlength] at hpart

/-- The first `n` bytes of the response show whether more is to come. -/
structure Judgeable (r : Response) (n : Nat) : Prop where
  /-- What there is of a header says that something follows it. -/
  header : 4 ≤ n → n < r.head.length →
    Readable (shown r.fields (n - (r.start.length + 2))) ∧
      (NamesChunked (shown r.fields (n - (r.start.length + 2))) ∨
        ∃ len, 0 < len ∧ GivesLength (shown r.fields (n - (r.start.length + 2))) len)
  readable : r.head.length ≤ n → Readable r.fields
  /-- Where the coding has capital letters, the part is neither the header nor the whole. -/
  unnamed : r.head.length ≤ n → ¬ NamesChunked r.fields →
    ∀ cs last trailer, r.body = .chunked cs last trailer →
      n ≠ r.head.length ∧ n ≠ r.wire.length
  /-- No chunk has come up to where it looks like the end. -/
  part : r.head.length ≤ n → NamesChunked r.fields → n < r.wire.length →
    ¬ str "0\r\n\r\n" <:+ r.body.wire.take (n - r.head.length)
  /-- The last chunk ends with its size. -/
  whole : n = r.wire.length → NamesChunked r.fields →
    ∀ cs last trailer, r.body = .chunked cs last trailer → last.getLast? = some 48

theorem length_of_bounded (h : r.Bounded) :
    ∀ v ∈ values r.fields (str "content-length"), ∃ m, numeral 10 v = some m := by
  intro v hv
  have hdelimited := h.delimited
  cases hbody : r.body with
  | sized b =>
      rw [hbody] at hdelimited
      exact ⟨b.length, hdelimited.2.2 v hv⟩
  | chunked cs last trailer =>
      rw [(h.chunked cs last trailer hbody).1] at hv
      cases hv

/-- A header in part is judged by the fields that it shows. -/
theorem head_iff (h : r.Bounded) (hfour : 4 ≤ n) (hn : n < r.head.length) :
    isCompleteRawResponse (r.wire.take n) = .ok false ↔
      Readable (shown r.fields (n - (r.start.length + 2))) ∧
        (NamesChunked (shown r.fields (n - (r.start.length + 2))) ∨
          ∃ len, 0 < len ∧ GivesLength (shown r.fields (n - (r.start.length + 2))) len) := by
  have hlines : n - (r.start.length + 2) < (r.fields.flatMap Field.wire).length + 2 := by
    rw [r.length_head] at hn
    omega
  rw [isCompleteRawResponse_head h hfour hn]
  obtain ⟨hnot, herror⟩ | ⟨hall, d, hd, hrecords⟩ := parseHeaders_take h.wellFormed.fields hlines
  · rw [herror]
    exact iff_of_false (fun hok => by cases hok) fun hall => hnot hall.1
  · rw [hd, and_iff_right hall]
    exact hrecords.verifyCompletion_nil_iff (numeral_of_mem_shown (length_of_bounded h))

/-- The end of a chunked body without trailer. -/
theorem suffix_chunked {cs : List Chunk} {last : Bytes} (hlast : SizeLine last 0) :
    str "0\r\n\r\n" <:+ (Body.chunked cs last []).wire ↔ last.getLast? = some 48 := by
  have hmarker : str "0\r\n\r\n" = [48] ++ (crlf ++ crlf) := by decide
  have hwire : (Body.chunked cs last []).wire =
      cs.flatMap Body.chunkWire ++ last ++ (crlf ++ crlf) := by
    simp [Body.wire]
  have hne : last ≠ [] := by
    rintro rfl
    obtain ⟨digits, ext, hline, hnumeral, -⟩ := hlast
    obtain ⟨rfl, -⟩ := List.append_eq_nil_iff.mp hline.symm
    cases hnumeral
  rw [hmarker, hwire, List.suffix_append_self_iff, List.singleton_suffix_iff_getLast?_eq_some,
    List.getLast?_append_of_ne_nil _ hne]

section Part

variable {d : Dict String String} (hrecords : Records .empty r.fields d) (h : r.Bounded)
  (hn : r.head.length ≤ n) (hle : n ≤ r.wire.length)

include hrecords h hn hle

theorem part_sized {b : Bytes} (hbody : r.body = .sized b) :
    ¬ NamesChunked r.fields ∧
      verifyCompletion (r.body.wire.take (n - r.head.length)) d =
        .ok (decide (n = r.wire.length)) := by
  have hdelimited := h.delimited
  rw [hbody] at hdelimited
  obtain ⟨hcoding, hne, hvalues⟩ := hdelimited
  have hnot : ¬ NamesChunked r.fields := by
    rintro ⟨v, hv, -⟩
    rw [hcoding] at hv
    cases hv
  have hgives : GivesLength r.fields b.length :=
    ⟨_, List.getLast?_eq_some_getLast hne, hvalues _ (List.getLast_mem hne)⟩
  refine ⟨hnot, ?_⟩
  rw [Response.wire_eq, List.length_append, hbody, Body.wire] at hle ⊢
  rw [hrecords.verifyCompletion_sized _ hnot hgives, List.length_take]
  exact congrArg Except.ok (decide_eq_decide.mpr (by omega))

variable {cs : List Chunk} {last : Bytes} {trailer : List Field}
  (hbody : r.body = .chunked cs last trailer)

include hbody

theorem part_unnamed (hnot : ¬ NamesChunked r.fields) :
    verifyCompletion (r.body.wire.take (n - r.head.length)) d =
        .ok (decide (n = r.wire.length)) ↔
      n ≠ r.head.length ∧ n ≠ r.wire.length := by
  have hpos : 2 ≤ r.body.wire.length := by
    rw [hbody, Body.wire, List.length_append]
    exact Nat.le_add_left 2 _
  rw [hrecords.verifyCompletion_bare _ hnot (h.chunked cs last trailer hbody).1, List.length_take,
    Except.ok.injEq, decide_eq_decide]
  rw [Response.wire_eq, List.length_append] at hle ⊢
  omega

theorem part_named (hnamed : NamesChunked r.fields) :
    verifyCompletion (r.body.wire.take (n - r.head.length)) d =
        .ok (decide (n = r.wire.length)) ↔
      (n < r.wire.length → ¬ str "0\r\n\r\n" <:+ r.body.wire.take (n - r.head.length)) ∧
        (n = r.wire.length → last.getLast? = some 48) := by
  rw [hrecords.verifyCompletion_chunked _ hnamed, Except.ok.injEq]
  by_cases heq : n = r.wire.length
  · obtain ⟨-, rfl⟩ := h.chunked cs last trailer hbody
    have hdelimited := h.delimited
    rw [hbody] at hdelimited
    have hwhole : r.body.wire.take (n - r.head.length) = r.body.wire := by
      rw [Response.wire_eq, List.length_append] at heq
      exact List.take_of_length_le (by omega)
    rw [hwhole, hbody, decide_eq_true heq, List.isSuffixOf_iff_suffix,
      suffix_chunked hdelimited.2.2.1]
    exact ⟨fun hlast => ⟨fun hlt => absurd heq hlt.ne, fun _ => hlast⟩, fun hboth => hboth.2 heq⟩
  · rw [decide_eq_false heq, Bool.eq_false_iff, Ne, List.isSuffixOf_iff_suffix]
    exact ⟨fun hnot => ⟨fun _ => hnot, fun hwhole => absurd hwhole heq⟩,
      fun hboth => hboth.1 (lt_of_le_of_ne hle heq)⟩

end Part

theorem judgeable_iff_of_le (hn : r.head.length ≤ n) :
    Judgeable r n ↔ Readable r.fields ∧
      (¬ NamesChunked r.fields → ∀ cs last trailer, r.body = .chunked cs last trailer →
        n ≠ r.head.length ∧ n ≠ r.wire.length) ∧
      (NamesChunked r.fields →
        (n < r.wire.length → ¬ str "0\r\n\r\n" <:+ r.body.wire.take (n - r.head.length)) ∧
          (n = r.wire.length → ∀ cs last trailer, r.body = .chunked cs last trailer →
            last.getLast? = some 48)) := by
  constructor
  · intro hjudge
    exact ⟨hjudge.readable hn, hjudge.unnamed hn,
      fun hnamed => ⟨hjudge.part hn hnamed, fun heq => hjudge.whole heq hnamed⟩⟩
  · rintro ⟨hreadable, hunnamed, hnamed⟩
    exact ⟨fun _ hlt => absurd hn (Nat.not_le.mpr hlt), fun _ => hreadable, fun _ => hunnamed,
      fun _ h => (hnamed h).1, fun heq h => (hnamed h).2 heq⟩

/-- Behind the header a part is judged by its end and its length. -/
theorem body_iff (h : r.Bounded) (hn : r.head.length ≤ n) (hle : n ≤ r.wire.length) :
    isCompleteRawResponse (r.wire.take n) = .ok (decide (n = r.wire.length)) ↔ Judgeable r n := by
  have hparse := parseHeaders_take h.wellFormed.fields
    (n := (r.fields.flatMap Field.wire).length - 2) (by omega)
  rw [shown_eq_self h.wellFormed.fields (by omega)] at hparse
  rw [isCompleteRawResponse_body h hn, judgeable_iff_of_le hn]
  obtain ⟨hnot, herror⟩ | ⟨hall, d, hd, hrecords⟩ := hparse
  · rw [herror]
    exact iff_of_false (fun hok => by cases hok) fun hjudge => hnot hjudge.1
  rw [hd, and_iff_right hall]
  show verifyCompletion _ d = _ ↔ _
  cases hbody : r.body with
  | sized b =>
      obtain ⟨hnot, hright⟩ := part_sized hrecords h hn hle hbody
      rw [← hbody]
      refine iff_of_true hright ⟨?_, fun hnamed => absurd hnamed hnot⟩
      intro _ cs last trailer hchunked
      rw [hbody] at hchunked
      cases hchunked
  | chunked cs last trailer =>
      rw [← hbody]
      by_cases hnamed : NamesChunked r.fields
      · rw [part_named hrecords h hn hle hbody hnamed]
        constructor
        · rintro ⟨hpart, hwhole⟩
          refine ⟨fun hnot => absurd hnamed hnot, fun _ => ⟨hpart, ?_⟩⟩
          intro heq cs' last' trailer' hchunked
          rw [hbody] at hchunked
          cases hchunked
          exact hwhole heq
        · rintro ⟨-, hboth⟩
          exact ⟨(hboth hnamed).1, fun heq => (hboth hnamed).2 heq cs last trailer hbody⟩
      · rw [part_unnamed hrecords h hn hle hbody hnamed]
        constructor
        · exact fun hne => ⟨fun _ _ _ _ _ => hne, fun h => absurd h hnamed⟩
        · exact fun hboth => hboth.1 hnamed cs last trailer hbody

theorem take_iff (h : r.Bounded) (hle : n ≤ r.wire.length) :
    isCompleteRawResponse (r.wire.take n) = .ok (decide (n = r.wire.length)) ↔ Judgeable r n := by
  have hhead := r.length_head
  have hwire : r.wire.length = r.head.length + r.body.wire.length := by
    rw [Response.wire_eq, List.length_append]
  by_cases hn : r.head.length ≤ n
  · exact body_iff h hn hle
  have hpart : n ≠ r.wire.length := by omega
  rw [decide_eq_false hpart]
  have hjudge : Judgeable r n ↔ (4 ≤ n → n < r.head.length →
      Readable (shown r.fields (n - (r.start.length + 2))) ∧
        (NamesChunked (shown r.fields (n - (r.start.length + 2))) ∨
          ∃ len, 0 < len ∧ GivesLength (shown r.fields (n - (r.start.length + 2))) len)) :=
    ⟨Judgeable.header, fun hheader => ⟨hheader, fun hbody => absurd hbody hn,
      fun hbody => absurd hbody hn, fun hbody => absurd hbody hn, fun heq => absurd heq hpart⟩⟩
  rw [hjudge]
  by_cases hfour : 4 ≤ n
  · rw [head_iff h hfour (Nat.not_le.mp hn)]
    exact ⟨fun hheader _ _ => hheader, fun hheader => hheader hfour (Nat.not_le.mp hn)⟩
  · have hshort : (r.wire.take n).length < 4 := by
      rw [List.length_take]
      omega
    exact iff_of_true (isCompleteRawResponse_short hshort) fun hlong => absurd hlong hfour

/-- **No response is told apart from its parts**: its first word counts as complete.  A part is
judged as it should be exactly where it shows whether more is to come. -/
theorem never_exact (h : r.Bounded) :
    ¬ Exact r ∧ ∀ n ≤ r.wire.length,
      (isCompleteRawResponse (r.wire.take n) = .ok (decide (n = r.wire.length)) ↔
        Judgeable r n) := by
  refine ⟨fun hexact => ?_, fun n hn => take_iff h hn⟩
  have hhead := r.length_head
  have hstart : 8 ≤ r.start.length := by
    have hversion : r.version.length = 8 := by
      rw [h.version]
      decide
    simp only [Response.start, List.length_append]
    omega
  have hwire : r.head.length ≤ r.wire.length := by
    rw [Response.wire_eq, List.length_append]
    exact Nat.le_add_right ..
  have hfour : Judgeable r 4 := (take_iff h (by omega)).mp (exact_iff.mp hexact 4 (by omega))
  have hnone : shown r.fields (4 - (r.start.length + 2)) = [] := by
    rw [Nat.sub_eq_zero_of_le (by omega), shown_zero]
  obtain ⟨-, ⟨v, hv, -⟩ | ⟨len, -, v, hv, -⟩⟩ := hnone ▸ hfour.header (Nat.le_refl 4) (by omega)
  · cases hv
  · cases hv

/-- A response with one byte. -/
def sevenReply : Response where
  version := str "HTTP/1.1"
  status := str "200"
  reason := str "OK"
  fields := [Field.contentLength 1]
  body := .sized (str "7")

theorem sevenReply_delimited : Response.Delimited sevenReply.fields sevenReply.body := by
  refine ⟨by decide +kernel, by decide +kernel, ?_⟩
  have hvalues : ∀ v ∈ values sevenReply.fields (str "content-length"), numeral 10 v = some 1 := by
    decide +kernel
  exact hvalues

theorem sevenReply_bounded : sevenReply.Bounded where
  wellFormed := {
    version := Or.inl rfl
    status_length := by decide
    status := by decide
    final := by decide
    reason := by decide
    fields := fun f hf => List.mem_singleton.mp hf ▸ Field.contentLength_wellFormed 1
    framed := by
      rw [if_neg (by decide)]
      exact sevenReply_delimited }
  version := rfl
  delimited := sevenReply_delimited
  chunked _ _ _ h := by cases h

theorem sevenReply_never_exact : ¬ Exact sevenReply ∧ ∀ n ≤ sevenReply.wire.length,
    (isCompleteRawResponse (sevenReply.wire.take n) = .ok (decide (n = sevenReply.wire.length)) ↔
      Judgeable sevenReply n) :=
  never_exact sevenReply_bounded

/-- What has come of a response before the line with its length counts as complete. -/
theorem not_exact_statusLine : ¬ ∀ r : Response, r.Bounded → Exact r := by
  intro h
  have hpart := (h sevenReply sevenReply_bounded).2 (str "HTTP/1.1 200 OK\r\n")
    (by decide +kernel) (by decide +kernel)
  revert hpart
  decide +kernel

end RPCResponse

end Web3Proxy
