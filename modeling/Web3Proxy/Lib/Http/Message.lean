import Web3Proxy.Lib.Bytes

/-!
# Web3Proxy.Lib.Http.Message

The HTTP/1.1 message format: header fields with their optional white space, the
two ways of framing a body, and requests.

A message is given by its parts and written by `wire`; `WellFormed` says which
parts may stand there.  The grammar is not ambiguous: `head_unique` recovers the
start line, the field lines and what follows from the bytes.
-/

namespace Http

open Bytes

/-! ## character classes -/

/-- A character of a token. -/
def isTchar (x : UInt8) : Bool :=
  (48 ≤ x && x ≤ 57) || (65 ≤ x && x ≤ 90) || (97 ≤ x && x ≤ 122) ||
    (str "!#$%&'*+-.^_|~").contains x || x == 96

/-- A visible ASCII character. -/
def isVchar (x : UInt8) : Bool := 33 ≤ x && x ≤ 126

/-- A character of a field value: visible, a blank, or beyond ASCII. -/
def isFieldChar (x : UInt8) : Bool := x == 9 || (32 ≤ x && x != 127)

/-- A blank or a tab. -/
def isOws (x : UInt8) : Bool := x == 32 || x == 9

theorem isTchar_ne {x : UInt8} (h : isTchar x = true) : x ≠ 13 ∧ x ≠ 10 := by
  constructor <;> rintro rfl <;> revert h <;> decide

theorem isVchar_ne {x : UInt8} (h : isVchar x = true) : x ≠ 13 ∧ x ≠ 10 := by
  constructor <;> rintro rfl <;> revert h <;> decide

theorem isFieldChar_ne {x : UInt8} (h : isFieldChar x = true) : x ≠ 13 ∧ x ≠ 10 := by
  constructor <;> rintro rfl <;> revert h <;> decide

theorem isOws_ne {x : UInt8} (h : isOws x = true) : x ≠ 13 ∧ x ≠ 10 := by
  constructor <;> rintro rfl <;> revert h <;> decide

/-! ## numerals -/

/-- The value of a digit, or of a hexadecimal digit. -/
def digitValue (x : UInt8) : Option Nat :=
  if 48 ≤ x && x ≤ 57 then some (x.toNat - 48)
  else if 65 ≤ x && x ≤ 70 then some (x.toNat - 55)
  else if 97 ≤ x && x ≤ 102 then some (x.toNat - 87)
  else none

/-- The number that a string of digits to the base denotes. -/
def numeral (base : Nat) (b : Bytes) : Option Nat :=
  if b = [] then none
  else b.foldlM (fun n x => (digitValue x).bind fun d =>
    if d < base then some (n * base + d) else none) 0

/-! ## header fields -/

/-- A field line: name, colon, white space, value, white space. -/
structure Field where
  name : Bytes
  value : Bytes
  before : Bytes := [32]
  after : Bytes := []
deriving DecidableEq, Repr

namespace Field

/-- The line, without its end. -/
def line (f : Field) : Bytes := f.name ++ [58] ++ f.before ++ f.value ++ f.after

/-- The line as sent. -/
def wire (f : Field) : Bytes := f.line ++ crlf

/-- What the field says. -/
def pair (f : Field) : Bytes × Bytes := (f.name, f.value)

/-- The name is a token and the value has no white space at its ends. -/
structure WellFormed (f : Field) : Prop where
  name_ne : f.name ≠ []
  name : ∀ x ∈ f.name, isTchar x = true
  value : ∀ x ∈ f.value, isFieldChar x = true
  value_head : ∀ x, f.value.head? = some x → isOws x = false
  value_last : ∀ x, f.value.getLast? = some x → isOws x = false
  before : ∀ x ∈ f.before, isOws x = true
  after : ∀ x ∈ f.after, isOws x = true

/-- Every character may stand where it does. -/
structure Spelled (f : Field) : Prop where
  name : ∀ x ∈ f.name, isTchar x = true
  value : ∀ x ∈ f.value, isFieldChar x = true
  before : ∀ x ∈ f.before, isOws x = true
  after : ∀ x ∈ f.after, isOws x = true

theorem WellFormed.spelled {f : Field} (h : f.WellFormed) : f.Spelled :=
  ⟨h.name, h.value, h.before, h.after⟩

/-- A line does not end before its end. -/
theorem Spelled.line_ne {f : Field} (h : f.Spelled) : ∀ x ∈ f.line, x ≠ 13 ∧ x ≠ 10 := by
  intro x hx
  simp only [line, List.append_assoc, List.mem_append, List.mem_singleton] at hx
  obtain hx | rfl | hx | hx | hx := hx
  · exact isTchar_ne (h.name x hx)
  · decide
  · exact isOws_ne (h.before x hx)
  · exact isFieldChar_ne (h.value x hx)
  · exact isOws_ne (h.after x hx)

end Field

/-- The values of the fields with a name, given in lower case. -/
def values (fields : List Field) (name : Bytes) : List Bytes :=
  (fields.filter fun f => lower f.name = name).map Field.value

/-! ## bodies -/

/-- A chunk: the line with its size and extensions, and its data. -/
structure Chunk where
  size : Bytes
  data : Bytes
deriving DecidableEq, Repr

/-- A chunk-size line for `n` bytes. -/
def SizeLine (line : Bytes) (n : Nat) : Prop :=
  ∃ digits ext, line = digits ++ ext ∧ numeral 16 digits = some n ∧
    (ext = [] ∨ ext.head? = some 59) ∧ ∀ x ∈ line, isFieldChar x = true

/-- A body as it is framed: by its length, or in chunks, with the line of the last
chunk and the trailer. -/
inductive Body where
  | sized (content : Bytes)
  | chunked (chunks : List Chunk) (last : Bytes) (trailer : List Field)
deriving DecidableEq, Repr

namespace Body

/-- A chunk as sent. -/
def chunkWire (c : Chunk) : Bytes := c.size ++ crlf ++ c.data ++ crlf

/-- The body as sent. -/
def wire : Body → Bytes
  | sized b => b
  | chunked cs last trailer =>
      cs.flatMap chunkWire ++ (last ++ crlf) ++ trailer.flatMap Field.wire ++ crlf

/-- The decoded body. -/
def content : Body → Bytes
  | sized b => b
  | chunked cs _ _ => cs.flatMap Chunk.data

/-- The body is framed as the header fields say. -/
def Framed (fields : List Field) : Body → Prop
  | sized b => values fields (str "transfer-encoding") = [] ∧
      (values fields (str "content-length") = [] ∧ b = [] ∨
        ∃ v, values fields (str "content-length") = [v] ∧ numeral 10 v = some b.length)
  | chunked cs last trailer =>
      (values fields (str "transfer-encoding")).map lower = [str "chunked"] ∧
        values fields (str "content-length") = [] ∧
        (∀ c ∈ cs, c.data ≠ [] ∧ SizeLine c.size c.data.length) ∧ SizeLine last 0 ∧
        ∀ f ∈ trailer, f.WellFormed

/-- Chunked framing takes more bytes than the content has. -/
theorem content_lt_wire_chunked (cs : List Chunk) (last : Bytes) (trailer : List Field) :
    (chunked cs last trailer).content.length < (chunked cs last trailer).wire.length := by
  have hchunks : (cs.flatMap Chunk.data).length ≤ (cs.flatMap chunkWire).length := by
    induction cs with
    | nil => exact Nat.le_refl _
    | cons c cs ih =>
        simp only [List.flatMap_cons, List.length_append, chunkWire]
        omega
  simp only [content, wire, List.length_append, crlf, List.length_cons, List.length_nil]
  omega

end Body

/-! ## requests -/

/-- A request. -/
structure Message where
  method : Bytes
  target : Bytes
  fields : List Field
  body : Body
deriving DecidableEq, Repr

namespace Message

variable (m : Message)

/-- The request line, without its end. -/
def start : Bytes := m.method ++ [32] ++ m.target ++ str " HTTP/1.1"

/-- The request as sent. -/
def wire : Bytes :=
  m.start ++ crlf ++ m.fields.flatMap Field.wire ++ crlf ++ m.body.wire

/-- The request is well formed. -/
structure WellFormed : Prop where
  method_ne : m.method ≠ []
  method : ∀ x ∈ m.method, isTchar x = true
  target_ne : m.target ≠ []
  target : ∀ x ∈ m.target, isVchar x = true
  fields : ∀ f ∈ m.fields, f.WellFormed
  framed : m.body.Framed m.fields

end Message

/-! ## the grammar is not ambiguous -/

/-- A line has no line feed in it. -/
def IsLine (l : Bytes) : Prop := ∀ x ∈ l, x ≠ 10

/-- The first line of a byte string. -/
theorem line_unique {a b x y : Bytes} (ha : IsLine a) (hb : IsLine b)
    (h : a ++ crlf ++ x = b ++ crlf ++ y) : a = b ∧ x = y := by
  induction a generalizing b with
  | nil =>
      cases b with
      | nil => exact ⟨rfl, by simpa [crlf] using h⟩
      | cons c b =>
          -- the line feed would stand in `b`
          simp only [crlf, List.nil_append, List.cons_append, List.append_assoc,
            List.cons.injEq] at h
          cases b with
          | nil => simp at h
          | cons d b =>
              simp only [List.cons_append, List.cons.injEq] at h
              exact absurd h.2.1.symm (hb d (by simp))
  | cons c a ih =>
      cases b with
      | nil =>
          simp only [crlf, List.nil_append, List.cons_append, List.append_assoc,
            List.cons.injEq] at h
          cases a with
          | nil => simp at h
          | cons d a =>
              simp only [List.cons_append, List.cons.injEq] at h
              exact absurd h.2.1 (ha d (by simp))
      | cons d b =>
          simp only [List.cons_append, List.cons.injEq] at h
          obtain ⟨rfl, h⟩ := h
          obtain ⟨rfl, rfl⟩ := ih (fun z hz => ha z (List.mem_cons_of_mem _ hz))
            (fun z hz => hb z (List.mem_cons_of_mem _ hz)) h
          exact ⟨rfl, rfl⟩

/-- Lines up to an empty one. -/
theorem lines_unique {ls ks : List Bytes} {x y : Bytes}
    (hls : ∀ l ∈ ls, l ≠ [] ∧ IsLine l) (hks : ∀ k ∈ ks, k ≠ [] ∧ IsLine k)
    (h : ls.flatMap (· ++ crlf) ++ crlf ++ x = ks.flatMap (· ++ crlf) ++ crlf ++ y) :
    ls = ks ∧ x = y := by
  induction ls generalizing ks with
  | nil =>
      cases ks with
      | nil => exact ⟨rfl, by simpa using h⟩
      | cons k ks =>
          have hk := hks k List.mem_cons_self
          have hline := line_unique (a := []) (x := x) (fun _ hz => (nomatch hz)) hk.2
            (y := ks.flatMap (· ++ crlf) ++ crlf ++ y) (by simpa using h)
          exact absurd hline.1.symm hk.1
  | cons l ls ih =>
      have hl := hls l List.mem_cons_self
      cases ks with
      | nil =>
          have hline := line_unique (b := []) (y := y) hl.2 (fun _ hz => (nomatch hz))
            (x := ls.flatMap (· ++ crlf) ++ crlf ++ x) (by simpa using h)
          exact absurd hline.1 hl.1
      | cons k ks =>
          have hk := hks k List.mem_cons_self
          obtain ⟨rfl, hrest⟩ := line_unique hl.2 hk.2
            (x := ls.flatMap (· ++ crlf) ++ crlf ++ x)
            (y := ks.flatMap (· ++ crlf) ++ crlf ++ y) (by simpa using h)
          obtain ⟨rfl, hxy⟩ := ih (fun z hz => hls z (List.mem_cons_of_mem _ hz))
            (fun z hz => hks z (List.mem_cons_of_mem _ hz)) hrest
          exact ⟨rfl, hxy⟩

theorem Field.WellFormed.line {f : Field} (h : f.WellFormed) : f.line ≠ [] ∧ IsLine f.line := by
  exact ⟨by simp [Field.line], fun x hx => (h.spelled.line_ne x hx).2⟩

/-- **A message head** is recovered from the bytes: the start line, the field lines
and what follows. -/
theorem head_unique {s t : Bytes} {fs gs : List Field} {x y : Bytes}
    (hs : IsLine s) (ht : IsLine t)
    (hfs : ∀ f ∈ fs, f.WellFormed) (hgs : ∀ g ∈ gs, g.WellFormed)
    (h : s ++ crlf ++ fs.flatMap Field.wire ++ crlf ++ x =
      t ++ crlf ++ gs.flatMap Field.wire ++ crlf ++ y) :
    s = t ∧ fs.map Field.line = gs.map Field.line ∧ x = y := by
  have hlines (l : List Field) : l.flatMap Field.wire = (l.map Field.line).flatMap (· ++ crlf) := by
    rw [List.flatMap_map]
    rfl
  rw [hlines, hlines] at h
  obtain ⟨hst, hrest⟩ := line_unique hs ht
    (x := (fs.map Field.line).flatMap (· ++ crlf) ++ crlf ++ x)
    (y := (gs.map Field.line).flatMap (· ++ crlf) ++ crlf ++ y) (by simpa using h)
  have hall (l : List Field) (hl : ∀ f ∈ l, f.WellFormed) :
      ∀ k ∈ l.map Field.line, k ≠ [] ∧ IsLine k := by
    intro k hk
    obtain ⟨f, hf, rfl⟩ := List.mem_map.mp hk
    exact (hl f hf).line
  obtain ⟨hlines, hxy⟩ := lines_unique (hall fs hfs) (hall gs hgs) hrest
  exact ⟨hst, hlines, hxy⟩

end Http
