import Web3Proxy.Lib.Http.Response

/-!
# Web3Proxy.Lib.Http.Cut

Responses that have not come to their end: what the bytes received so far show of the
header.

* `shown` — the fields as the first bytes of their lines show them;
* `Response.partition_cut`, `Response.partition_head` — where a header that has come in part,
  or as a whole, ends;
* `Response.fieldLines_take` — what stands behind the status line.
-/

namespace Http

open Bytes

/-! ## fields -/

namespace Field

/-- The field as the first `n` bytes of its line show it. -/
def take (f : Field) (n : Nat) : Field where
  name := f.name.take n
  before := f.before.take (n - (f.name.length + 1))
  value := f.value.take (n - (f.name.length + 1 + f.before.length))
  after := f.after.take (n - (f.name.length + 1 + f.before.length + f.value.length))

theorem Spelled.take {f : Field} (h : f.Spelled) (n : Nat) : (f.take n).Spelled where
  name x hx := h.name x (List.mem_of_mem_take hx)
  value x hx := h.value x (List.mem_of_mem_take hx)
  before x hx := h.before x (List.mem_of_mem_take hx)
  after x hx := h.after x (List.mem_of_mem_take hx)

variable {f : Field} {n : Nat}

theorem take_of_le (h : n ≤ f.name.length) :
    f.take n = { name := f.name.take n, value := [], before := [], after := [] } := by
  have hbefore : n - (f.name.length + 1) = 0 := by omega
  have hvalue : n - (f.name.length + 1 + f.before.length) = 0 := by omega
  have hafter : n - (f.name.length + 1 + f.before.length + f.value.length) = 0 := by omega
  rw [take, hbefore, hvalue, hafter]
  rfl

theorem line_take_of_le (h : n ≤ f.name.length) : f.line.take n = f.name.take n := by
  simp only [line, List.append_assoc]
  exact List.take_append_of_le_length h

/-- Beyond its name the shown field has the line that is shown. -/
theorem line_take (h : f.name.length < n) : (f.take n).line = f.line.take n := by
  have hcolon : [58].take (n - f.name.length) = [(58 : UInt8)] :=
    List.take_of_length_le (by simp; omega)
  simp only [line, take, List.take_append, List.length_append, List.length_singleton, hcolon]

theorem take_eq_self (h : f.line.length ≤ n) : f.take n = f := by
  simp only [line, List.length_append, List.length_singleton] at h
  rw [take, List.take_of_length_le (by omega), List.take_of_length_le (by omega),
    List.take_of_length_le (by omega), List.take_of_length_le (by omega)]

/-- A line that shows the field: its name alone, or the line, perhaps with half of its end. -/
inductive Shows (f : Field) : Bytes → Prop where
  | name (hbefore : f.before = []) (hvalue : f.value = []) (hafter : f.after = []) :
      Shows f f.name
  | line {tail : Bytes} (htail : tail = [] ∨ tail = [13]) : Shows f (f.line ++ tail)

/-- What there is of a line shows what there is of its field. -/
theorem shows_take (f : Field) (n : Nat) : (f.take n).Shows (f.line.take n) := by
  by_cases h : n ≤ f.name.length
  · rw [line_take_of_le h, take_of_le h]
    exact .name rfl rfl rfl
  · rw [← line_take (Nat.not_le.mp h), ← List.append_nil (f.take n).line]
    exact .line (Or.inl rfl)

theorem length_wire (f : Field) : f.wire.length = f.line.length + 2 := by
  simp [wire, crlf]

end Field

/-- The fields as the first `n` bytes of their lines show them. -/
def shown : List Field → Nat → List Field
  | [], _ => []
  | f :: fs, n => if n = 0 then [] else f.take n :: shown fs (n - f.wire.length)

theorem shown_zero (fs : List Field) : shown fs 0 = [] := by
  cases fs <;> rfl

theorem shown_cons {n : Nat} (hn : n ≠ 0) (f : Field) (fs : List Field) :
    shown (f :: fs) n = f.take n :: shown fs (n - f.wire.length) := if_neg hn

/-- A field that is shown is one of the fields, perhaps a part of it. -/
theorem exists_of_mem_shown {fs : List Field} {n : Nat} {g : Field} (hg : g ∈ shown fs n) :
    ∃ f ∈ fs, ∃ m, g = f.take m := by
  induction fs generalizing n with
  | nil => cases hg
  | cons f fs ih =>
      unfold shown at hg
      split at hg
      · cases hg
      · obtain rfl | hg := List.mem_cons.mp hg
        · exact ⟨f, List.mem_cons_self, n, rfl⟩
        · obtain ⟨f', hf', m, rfl⟩ := ih hg
          exact ⟨f', List.mem_cons_of_mem f hf', m, rfl⟩

theorem spelled_of_mem_shown {fs : List Field} (hfs : ∀ f ∈ fs, f.WellFormed) {n : Nat} :
    ∀ g ∈ shown fs n, g.Spelled := by
  intro g hg
  obtain ⟨f, hf, m, rfl⟩ := exists_of_mem_shown hg
  exact (hfs f hf).spelled.take m

/-- All the lines show all the fields, with the last end of a line or without it. -/
theorem shown_eq_self {fs : List Field} (hfs : ∀ f ∈ fs, f.WellFormed) {n : Nat}
    (hn : (fs.flatMap Field.wire).length ≤ n + 2) : shown fs n = fs := by
  induction fs generalizing n with
  | nil => rfl
  | cons f fs ih =>
      have hf := hfs f List.mem_cons_self
      have hname := List.length_pos_iff.mpr hf.line.1
      rw [List.flatMap_cons, List.length_append, Field.length_wire] at hn
      have hfs' : ∀ g ∈ fs, g.WellFormed := fun g hg => hfs g (List.mem_cons_of_mem f hg)
      rw [shown_cons (by omega), Field.take_eq_self (by omega),
        ih hfs' (by rw [Field.length_wire]; omega)]

theorem numeral_take {base : Nat} {b : Bytes} {n : Nat} (h : numeral base b = some n) (k : Nat) :
    b.take k = [] ∨ ∃ m, numeral base (b.take k) = some m := by
  by_cases hnil : b.take k = []
  · exact Or.inl hnil
  · right
    unfold numeral at h ⊢
    split at h
    · cases h
    · rw [← List.take_append_drop k b, List.foldlM_append] at h
      obtain ⟨m, hm, -⟩ := Option.bind_eq_some_iff.mp h
      exact ⟨m, by rw [if_neg hnil, hm]⟩

/-- Of a numeral there is nothing to be seen, or a numeral. -/
theorem numeral_of_mem_shown {fs : List Field} {name : Bytes} {base : Nat}
    (h : ∀ v ∈ values fs name, ∃ m, numeral base v = some m) {n : Nat} :
    ∀ v ∈ values (shown fs n) name, v = [] ∨ ∃ m, numeral base v = some m := by
  intro v hv
  obtain ⟨g, hg, rfl⟩ := List.mem_map.mp hv
  obtain ⟨hg, hname⟩ := List.mem_filter.mp hg
  obtain ⟨f, hf, m, rfl⟩ := exists_of_mem_shown hg
  by_cases hm : m ≤ f.name.length
  · rw [Field.take_of_le hm]
    exact Or.inl rfl
  · have hwhole : (f.take m).name = f.name := List.take_of_length_le (by omega)
    rw [hwhole] at hname
    obtain ⟨k, hk⟩ := h f.value (List.mem_map.mpr ⟨f, List.mem_filter.mpr ⟨hf, hname⟩, rfl⟩)
    exact numeral_take hk _

/-! ## heads -/

namespace Response

variable (r : Response)

/-- A response of HTTP/1.1 whose header gives the length of its body, or says that it comes in
chunks, which then have no trailer. -/
structure Bounded : Prop where
  wellFormed : r.WellFormed
  version : r.version = str "HTTP/1.1"
  delimited : Delimited r.fields r.body
  chunked : ∀ cs last trailer, r.body = .chunked cs last trailer →
    values r.fields (str "content-length") = [] ∧ trailer = []

/-- The header, with its empty line. -/
def head : Bytes := r.start ++ crlf ++ r.fields.flatMap Field.wire ++ crlf

theorem wire_eq : r.wire = r.head ++ r.body.wire := rfl

/-- The lines of the header, without the end of the last one. -/
def headLines : Bytes := r.start ++ (r.fields.map Field.line).flatMap (crlf ++ ·)

theorem head_eq : r.head = r.headLines ++ (crlf ++ crlf) := by
  have hshift (fs : List Field) : crlf ++ fs.flatMap Field.wire =
      (fs.map Field.line).flatMap (crlf ++ ·) ++ crlf := by
    induction fs with
    | nil => rfl
    | cons f fs ih =>
        rw [List.flatMap_cons, List.map_cons, List.flatMap_cons, Field.wire, List.append_assoc, ih]
        simp only [List.append_assoc]
  rw [head, List.append_assoc r.start, hshift, headLines]
  simp only [List.append_assoc]

theorem length_head : r.head.length = r.start.length + (r.fields.flatMap Field.wire).length + 4 := by
  simp only [head, List.length_append, crlf, List.length_cons, List.length_nil]
  omega

theorem headLines_eq_take : r.headLines = r.head.take (r.head.length - 4) := by
  have hlength : r.head.length - 4 = r.headLines.length := by
    rw [head_eq, List.length_append]
    rfl
  rw [hlength, head_eq, List.take_left]

variable {r}

/-- The header ends with its empty line. -/
theorem partition_head (h : r.WellFormed) (body : Bytes) :
    partition (crlf ++ crlf) (r.head ++ body) = (r.headLines, body) := by
  have hlines : ∀ l ∈ r.start :: r.fields.map Field.line, 13 ∉ l := by
    intro l hl
    obtain rfl | hl := List.mem_cons.mp hl
    · exact fun hx => (h.start_ne 13 hx).1 rfl
    · obtain ⟨f, hf, rfl⟩ := List.mem_map.mp hl
      exact fun hx => ((h.fields f hf).spelled.line_ne 13 hx).1 rfl
  have hne : ∀ l ∈ r.fields.map Field.line, l ≠ [] := by
    intro l hl
    obtain ⟨f, hf, rfl⟩ := List.mem_map.mp hl
    exact (h.fields f hf).line.1
  rw [head_eq, ← List.append_assoc _ crlf crlf]
  exact Bytes.partition_head hlines hne

/-- A header that has not come to its empty line has no end. -/
theorem partition_cut (h : r.WellFormed) {n : Nat} (hn : n < r.head.length) :
    partition (crlf ++ crlf) (r.head.take n) = (r.head.take n, []) := by
  have hpart := partition_head h []
  rw [head_eq] at hpart hn ⊢
  exact partition_of_prefix hpart (List.take_prefix n _) (by rw [List.length_take]; omega)

/-- What stands behind the status line of a header that has come in part. -/
theorem fieldLines_take (h : r.WellFormed) (n : Nat) :
    (partition crlf (r.head.take n)).2 =
      (r.fields.flatMap Field.wire ++ crlf).take (n - (r.start.length + 2)) := by
  have hstart : 13 ∉ r.start := fun hx => (h.start_ne 13 hx).1 rfl
  have hlength : (r.start ++ crlf).length = r.start.length + 2 := by simp [crlf]
  rw [head, List.append_assoc (r.start ++ crlf), List.take_append, hlength]
  generalize r.fields.flatMap Field.wire ++ crlf = lines
  by_cases hn : n < r.start.length + 2
  · have hzero : n - (r.start.length + 2) = 0 := by omega
    have hpart : partition crlf (r.start ++ crlf ++ []) = (r.start, []) := partition_append hstart
    rw [hzero, List.take_zero, List.append_nil,
      partition_of_prefix hpart (List.take_prefix n _) (by rw [List.length_take]; omega)]
  · have hpart : partition crlf (r.start ++ crlf ++ lines.take (n - (r.start.length + 2))) =
        (r.start, lines.take (n - (r.start.length + 2))) := partition_append hstart
    rw [List.take_of_length_le (by omega), hpart]

end Response

end Http
