import Mathlib.Data.List.Forall2
import Web3Proxy.Lib.Http.Message

/-!
# Web3Proxy.Lib.Http.Delivery

What an incremental parser reports of a stream of requests that arrives in
pieces: the part of each request target and of each body that is in a piece, as
it is; each header field and each end of a message, once it is reached.

A stream is laid out as `Item`s; `deliver n` takes the first `n` bytes of a
layout and says what is reported.

* `deliver_all` — a stream that arrives whole is reported item by item;
* `fragments_deliver` — the fragments reported and those left make up the whole;
* `fieldPairs_deliver` — the fields are reported in order, each once;
* `fragments_deliverAll`, `fieldPairs_deliverAll` — the same for all pieces of a
  stream together;
* `complete_not_mem` — the end of a message is not reported before its last byte.
-/

namespace Http

open Bytes

/-- What a parser reports. -/
inductive Event where
  | target (fragment : Bytes)
  | field (name value : Bytes)
  | data (fragment : Bytes)
  | complete
deriving DecidableEq, Repr

/-- What some bytes of a message are. -/
inductive Role where
  | syntactic
  | target
  | data
deriving DecidableEq, Repr

/-- A part of the layout of a message: bytes, or a place where a field or the
message is complete. -/
inductive Item where
  | span (role : Role) (bytes : Bytes)
  | field (name value : Bytes)
  | complete
deriving DecidableEq, Repr

/-- The bytes of an item. -/
def Item.bytes : Item → Bytes
  | .span _ bs => bs
  | .field _ _ => []
  | .complete => []

/-- The report of a fragment. -/
def Role.report (role : Role) (fragment : Bytes) : List Event :=
  if fragment = [] then []
  else match role with
    | .syntactic => []
    | .target => [.target fragment]
    | .data => [.data fragment]

/-- The report of an item that arrives whole. -/
def Item.report : Item → List Event
  | .span role bs => role.report bs
  | .field n v => [.field n v]
  | .complete => [.complete]

/-! ## layouts -/

/-- The layout of a field line. -/
def Field.layout (f : Field) : List Item := [.span .syntactic f.wire, .field f.name f.value]

/-- The layout of a chunk. -/
def Chunk.layout (c : Chunk) : List Item :=
  [.span .syntactic (c.size ++ crlf), .span .data c.data, .span .syntactic crlf]

/-- The layout of a body. -/
def Body.layout : Body → List Item
  | .sized b => [.span .data b]
  | .chunked cs last trailer =>
      cs.flatMap Chunk.layout ++ [.span .syntactic (last ++ crlf)] ++
        trailer.flatMap Field.layout ++ [.span .syntactic crlf]

namespace Message

variable (m : Message)

/-- The layout of a request, up to its end. -/
def parts : List Item :=
  [.span .syntactic (m.method ++ [32]), .span .target m.target,
    .span .syntactic (str " HTTP/1.1" ++ crlf)] ++
    m.fields.flatMap Field.layout ++ [.span .syntactic crlf] ++ m.body.layout

/-- The layout of a request. -/
def layout : List Item := m.parts ++ [.complete]

theorem flatMap_bytes_fields (fs : List Field) :
    (fs.flatMap Field.layout).flatMap Item.bytes = fs.flatMap Field.wire := by
  rw [List.flatMap_assoc]
  congr 1
  funext f
  simp [Field.layout, Item.bytes]

/-- The bytes of the layout are those of the request. -/
theorem flatMap_bytes_layout : m.layout.flatMap Item.bytes = m.wire := by
  have hbody : m.body.layout.flatMap Item.bytes = m.body.wire := by
    cases m.body with
    | sized b => simp [Body.layout, Body.wire, Item.bytes]
    | chunked cs last trailer =>
        have hchunks : (cs.flatMap Chunk.layout).flatMap Item.bytes =
            cs.flatMap Body.chunkWire := by
          rw [List.flatMap_assoc]
          congr 1
          funext c
          simp [Chunk.layout, Body.chunkWire, Item.bytes]
        simp [Body.layout, Body.wire, hchunks, flatMap_bytes_fields, Item.bytes]
  simp [layout, parts, wire, start, hbody, flatMap_bytes_fields, Item.bytes]

end Message

/-! ## delivery in pieces -/

/-- The reports for the next `n` bytes, and the layout of what is still to come. -/
def deliver : Nat → List Item → List Event × List Item
  | _, [] => ([], [])
  | n, .field a v :: is => ((.field a v) :: (deliver n is).1, (deliver n is).2)
  | n, .complete :: is => (.complete :: (deliver n is).1, (deliver n is).2)
  | n, .span role bs :: is =>
      if bs.length ≤ n then
        (role.report bs ++ (deliver (n - bs.length) is).1, (deliver (n - bs.length) is).2)
      else (role.report (bs.take n), .span role (bs.drop n) :: is)

/-- The reports for the pieces of a stream, piece by piece. -/
def deliverAll : List Item → List Bytes → List (List Event)
  | _, [] => []
  | is, c :: cs => (deliver c.length is).1 :: deliverAll (deliver c.length is).2 cs

/-- The number of bytes of a layout. -/
def size (is : List Item) : Nat := (is.flatMap Item.bytes).length

theorem size_cons (i : Item) (is : List Item) : size (i :: is) = i.bytes.length + size is := by
  simp [size]

@[simp] theorem size_append_complete (is : List Item) : size (is ++ [.complete]) = size is := by
  simp [size, Item.bytes]

/-- A layout that arrives whole is reported item by item. -/
theorem deliver_all (is : List Item) (n : Nat) (h : size is ≤ n) :
    deliver n is = (is.flatMap Item.report, []) := by
  induction is generalizing n with
  | nil => rfl
  | cons i is ih =>
      rw [size_cons] at h
      cases i with
      | field a v =>
          rw [deliver, ih n (by omega)]
          rfl
      | complete =>
          rw [deliver, ih n (by omega)]
          rfl
      | span role bs =>
          simp only [Item.bytes] at h
          rw [deliver, if_pos (by omega), ih _ (by omega)]
          rfl

/-- What is still to come has the remaining bytes. -/
theorem size_deliver (n : Nat) (is : List Item) : size (deliver n is).2 = size is - n := by
  induction is generalizing n with
  | nil => simp [deliver, size]
  | cons i is ih =>
      rw [size_cons]
      cases i with
      | field a v => simp [deliver, ih, Item.bytes]
      | complete => simp [deliver, ih, Item.bytes]
      | span role bs =>
          rw [deliver]
          split
          next h =>
            simp only [ih, Item.bytes]
            omega
          next h =>
            simp only [size_cons, Item.bytes, List.length_drop]
            omega

/-! ## what is reported -/

/-- The fragment of a target or of a body that an event reports. -/
def Event.fragment? : Role → Event → Option Bytes
  | .target, .target u => some u
  | .data, .data b => some b
  | _, _ => none

/-- The field that an event reports. -/
def Event.pair? : Event → Option (Bytes × Bytes)
  | .field n v => some (n, v)
  | _ => none

/-- The fragments of targets, or of bodies, among the reports. -/
def fragments (role : Role) (es : List Event) : List Bytes := es.filterMap (Event.fragment? role)

/-- The fields among the reports. -/
def fieldPairs (es : List Event) : List (Bytes × Bytes) := es.filterMap Event.pair?

@[simp] theorem fragments_append (role : Role) (a b : List Event) :
    fragments role (a ++ b) = fragments role a ++ fragments role b :=
  List.filterMap_append

@[simp] theorem fieldPairs_append (a b : List Event) :
    fieldPairs (a ++ b) = fieldPairs a ++ fieldPairs b :=
  List.filterMap_append

theorem fragments_report (role r : Role) (bs : Bytes) :
    fragments role (r.report bs) = if bs ≠ [] ∧ r = role ∧ r ≠ .syntactic then [bs] else [] := by
  unfold Role.report
  by_cases hbs : bs = []
  · simp [hbs, fragments]
  · cases r <;> cases role <;> simp [hbs, fragments, List.filterMap, Event.fragment?]

theorem flatten_fragments_report (role r : Role) (bs : Bytes) :
    (fragments role (r.report bs)).flatten = if r = role ∧ r ≠ .syntactic then bs else [] := by
  rw [fragments_report]
  by_cases hbs : bs = [] <;> simp [hbs, apply_ite List.flatten]

theorem mem_fieldPairs {es : List Event} {name value : Bytes} :
    (name, value) ∈ fieldPairs es ↔ .field name value ∈ es := by
  simp only [fieldPairs, List.mem_filterMap]
  constructor
  · intro ⟨e, he, hpair⟩
    cases e with
    | field n v =>
        cases hpair
        exact he
    | _ => cases hpair
  · intro he
    exact ⟨_, he, rfl⟩

theorem fieldPairs_report (r : Role) (bs : Bytes) : fieldPairs (r.report bs) = [] := by
  unfold Role.report
  split
  · rfl
  · cases r <;> rfl

/-! ## what is reported of a whole request -/

/-- The fields that follow the last chunk. -/
def Body.trailer : Body → List Field
  | .sized _ => []
  | .chunked _ _ trailer => trailer

/-- The pieces of a body: all of it, or its chunks. -/
def Body.pieces : Body → List Bytes
  | .sized b => [b].filter (· ≠ [])
  | .chunked cs _ _ => (cs.map Chunk.data).filter (· ≠ [])

section Whole

variable (m : Message)

@[simp] theorem fragments_report_span (role r : Role) (bs : Bytes) :
    fragments role (Item.span r bs).report =
      if bs ≠ [] ∧ r = role ∧ r ≠ .syntactic then [bs] else [] :=
  fragments_report role r bs

@[simp] theorem fragments_report_field (role : Role) (n v : Bytes) :
    fragments role (Item.field n v).report = [] := by
  cases role <;> rfl

@[simp] theorem fragments_report_complete (role : Role) :
    fragments role Item.complete.report = [] := by
  cases role <;> rfl

@[simp] theorem fragments_nil (role : Role) : fragments role [] = [] := rfl

@[simp] theorem fieldPairs_report_span (r : Role) (bs : Bytes) :
    fieldPairs (Item.span r bs).report = [] :=
  fieldPairs_report r bs

@[simp] theorem fieldPairs_report_field (n v : Bytes) :
    fieldPairs (Item.field n v).report = [(n, v)] := rfl

@[simp] theorem fieldPairs_report_complete : fieldPairs Item.complete.report = [] := rfl

@[simp] theorem fieldPairs_nil : fieldPairs [] = [] := rfl

@[simp] theorem fragments_fields (role : Role) (fs : List Field) :
    fragments role ((fs.flatMap Field.layout).flatMap Item.report) = [] := by
  induction fs with
  | nil => rfl
  | cons f fs ih => simp [Field.layout, ih]

@[simp] theorem fieldPairs_fields (fs : List Field) :
    fieldPairs ((fs.flatMap Field.layout).flatMap Item.report) = fs.map Field.pair := by
  induction fs with
  | nil => rfl
  | cons f fs ih => simp [Field.layout, Field.pair, ih]

/-- The data of chunks is reported chunk by chunk. -/
theorem fragments_chunks (role : Role) (cs : List Chunk) :
    fragments role ((cs.flatMap Chunk.layout).flatMap Item.report) =
      if role = .data then (cs.map Chunk.data).filter (· ≠ []) else [] := by
  induction cs with
  | nil => simp
  | cons c cs ih =>
      simp only [List.flatMap_cons, List.flatMap_append, fragments_append, ih, Chunk.layout]
      cases role <;> by_cases hc : c.data = [] <;> simp [hc]

theorem fieldPairs_chunks (cs : List Chunk) :
    fieldPairs ((cs.flatMap Chunk.layout).flatMap Item.report) = [] := by
  induction cs with
  | nil => rfl
  | cons c cs ih => simp [Chunk.layout, ih]

/-- The target is reported as one fragment. -/
theorem fragments_target (htarget : m.target ≠ []) :
    fragments .target (m.layout.flatMap Item.report) = [m.target] := by
  have hbody : fragments .target (m.body.layout.flatMap Item.report) = [] := by
    cases m.body <;> simp [Body.layout, fragments_chunks]
  simp [Message.layout, Message.parts, hbody, htarget]

/-- The fields of a request, those of the trailer included, are well formed. -/
theorem Message.WellFormed.field {m : Message} (hm : m.WellFormed) :
    ∀ f ∈ m.fields ++ m.body.trailer, f.WellFormed := by
  intro f hf
  rw [List.mem_append] at hf
  cases hf with
  | inl hf => exact hm.fields f hf
  | inr hf =>
      have hframed := hm.framed
      cases hbody : m.body with
      | sized b =>
          rw [hbody] at hf
          cases hf
      | chunked chunks last trailer =>
          rw [hbody] at hf hframed
          exact hframed.2.2.2.2 f hf

/-- The fields are reported, those of the trailer last. -/
theorem fieldPairs_layout :
    fieldPairs (m.layout.flatMap Item.report) = (m.fields ++ m.body.trailer).map Field.pair := by
  have hbody : fieldPairs (m.body.layout.flatMap Item.report) = m.body.trailer.map Field.pair := by
    cases m.body <;> simp [Body.layout, Body.trailer, fieldPairs_chunks]
  simp [Message.layout, Message.parts, hbody]

/-- The body is reported in its pieces. -/
theorem fragments_data :
    fragments .data (m.layout.flatMap Item.report) = m.body.pieces := by
  have hbody : fragments .data (m.body.layout.flatMap Item.report) = m.body.pieces := by
    cases m.body with
    | sized b => by_cases hb : b = [] <;> simp [Body.layout, Body.pieces, hb]
    | chunked cs last trailer => simp [Body.layout, Body.pieces, fragments_chunks]
  simp [Message.layout, Message.parts, hbody]

theorem Body.flatten_pieces (body : Body) : body.pieces.flatten = body.content := by
  cases body with
  | sized b => by_cases hb : b = [] <;> simp [pieces, content, hb]
  | chunked cs last trailer =>
      simp only [pieces, content]
      induction cs with
      | nil => rfl
      | cons c cs ih => by_cases hc : c.data = [] <;> simp_all

theorem complete_not_mem_parts : .complete ∉ m.parts := by
  have hfields (fs : List Field) : Item.complete ∉ fs.flatMap Field.layout := by
    simp [List.mem_flatMap, Field.layout]
  have hbody : Item.complete ∉ m.body.layout := by
    cases m.body <;> simp [Body.layout, hfields, Chunk.layout]
  simp [Message.parts, hfields, hbody]

theorem size_layout : size m.layout = m.wire.length := by
  rw [size, m.flatMap_bytes_layout]

theorem size_parts : size m.parts = m.wire.length := by
  rw [← size_layout, Message.layout, size_append_complete]

theorem wire_ne_nil : m.wire ≠ [] := by
  simp [Message.wire, crlf]

end Whole

/-! ## pieces -/

/-- The fragments reported and those left make up the whole. -/
theorem fragments_deliver (role : Role) (n : Nat) (is : List Item) :
    (fragments role (deliver n is).1).flatten ++
        (fragments role ((deliver n is).2.flatMap Item.report)).flatten =
      (fragments role (is.flatMap Item.report)).flatten := by
  induction is generalizing n with
  | nil => rfl
  | cons i is ih =>
      cases i with
      | field a v => cases role <;> exact ih n
      | complete => cases role <;> exact ih n
      | span r bs =>
          rw [deliver]
          split
          · simp only [List.flatMap_cons, fragments_append, List.flatten_append,
              List.append_assoc, Item.report]
            exact congrArg _ (ih (n - bs.length))
          · simp only [List.flatMap_cons, fragments_append, List.flatten_append,
              Item.report, flatten_fragments_report]
            split <;> simp [← List.append_assoc]

/-- Fields are reported in order, each once. -/
theorem fieldPairs_deliver (n : Nat) (is : List Item) :
    fieldPairs (deliver n is).1 ++ fieldPairs ((deliver n is).2.flatMap Item.report) =
      fieldPairs (is.flatMap Item.report) := by
  induction is generalizing n with
  | nil => rfl
  | cons i is ih =>
      cases i with
      | field a v => exact congrArg ((a, v) :: ·) (ih n)
      | complete => exact ih n
      | span role bs =>
          rw [deliver]
          split
          · simp only [List.flatMap_cons, fieldPairs_append, fieldPairs_report,
              List.nil_append, Item.report]
            exact ih (n - bs.length)
          · simp only [List.flatMap_cons, fieldPairs_append, fieldPairs_report,
              List.nil_append, Item.report]

/-- Cutting does not lessen the number of fragments. -/
theorem length_fragments_deliver (role : Role) (n : Nat) (is : List Item) :
    (fragments role (is.flatMap Item.report)).length ≤
      (fragments role (deliver n is).1).length +
        (fragments role ((deliver n is).2.flatMap Item.report)).length := by
  have hreport (r : Role) (bs : Bytes) (k : Nat) :
      (fragments role (r.report bs)).length ≤
        (fragments role (r.report (bs.take k))).length +
          (fragments role (r.report (bs.drop k))).length := by
    have hparts : bs.take k = [] → bs.drop k = [] → bs = [] := fun htake hdrop => by
      rw [← List.take_append_drop k bs, htake, hdrop, List.append_nil]
    simp only [fragments_report]
    grind
  induction is generalizing n with
  | nil => simp [deliver, fragments]
  | cons i is ih =>
      cases i with
      | field a v => cases role <;> exact ih n
      | complete => cases role <;> exact ih n
      | span r bs =>
          rw [deliver]
          split
          · have hrest := ih (n - bs.length)
            simp only [List.flatMap_cons, fragments_append, List.length_append, Item.report]
            omega
          · have hcut := hreport r bs n
            simp only [List.flatMap_cons, fragments_append, List.length_append, Item.report]
            omega

/-- No fragment is empty. -/
theorem ne_nil_of_mem_fragments_report {role r : Role} {bs u : Bytes}
    (h : u ∈ fragments role (r.report bs)) : u ≠ [] := by
  rw [fragments_report] at h
  split at h <;> simp_all

theorem ne_nil_of_mem_fragments_deliver {role : Role} {n : Nat} {is : List Item} {u : Bytes}
    (h : u ∈ fragments role (deliver n is).1) : u ≠ [] := by
  induction is generalizing n with
  | nil => simp [deliver, fragments] at h
  | cons i is ih =>
      cases i with
      | field a v => cases role <;> exact ih h
      | complete => cases role <;> exact ih h
      | span r bs =>
          rw [deliver] at h
          split at h
          · rw [fragments_append, List.mem_append] at h
            exact h.elim ne_nil_of_mem_fragments_report ih
          · exact ne_nil_of_mem_fragments_report h

/-! ## streams that arrive to their end -/

section Arrival

variable (is : List Item) {cs : List Bytes}

/-- What is told of the pieces one by one is told of the whole. -/
theorem deliverAll_hom {β : Type} {f : List Event → List β}
    (happend : ∀ a b, f (a ++ b) = f a ++ f b)
    (hdeliver : ∀ n is, f (deliver n is).1 ++ f ((deliver n is).2.flatMap Item.report) =
      f (is.flatMap Item.report))
    (hne : cs ≠ []) (h : cs.flatten.length = size is) :
    f (deliverAll is cs).flatten = f (is.flatMap Item.report) := by
  induction cs generalizing is with
  | nil => exact absurd rfl hne
  | cons c cs ih =>
      rw [List.flatten_cons, List.length_append] at h
      rw [deliverAll, List.flatten_cons]
      by_cases hcs : cs = []
      · subst hcs
        have hall := deliver_all is c.length (by simp at h; omega)
        simp [deliverAll, hall]
      · rw [happend, ih _ hcs (by rw [size_deliver]; omega), hdeliver]

/-- The fragments of a stream in pieces make up those of the whole stream. -/
theorem fragments_deliverAll (role : Role) (hne : cs ≠ []) (h : cs.flatten.length = size is) :
    (fragments role (deliverAll is cs).flatten).flatten =
      (fragments role (is.flatMap Item.report)).flatten :=
  deliverAll_hom is (f := fun es => (fragments role es).flatten) (by simp)
    (fragments_deliver role) hne h

/-- The fields of a stream in pieces are those of the whole stream. -/
theorem fieldPairs_deliverAll (hne : cs ≠ []) (h : cs.flatten.length = size is) :
    fieldPairs (deliverAll is cs).flatten = fieldPairs (is.flatMap Item.report) :=
  deliverAll_hom is fieldPairs_append fieldPairs_deliver hne h

/-- A stream in pieces has no fewer fragments than the whole stream. -/
theorem length_fragments_deliverAll (role : Role) (hne : cs ≠ [])
    (h : cs.flatten.length = size is) :
    (fragments role (is.flatMap Item.report)).length ≤
      (fragments role (deliverAll is cs).flatten).length := by
  induction cs generalizing is with
  | nil => exact absurd rfl hne
  | cons c cs ih =>
      rw [List.flatten_cons, List.length_append] at h
      rw [deliverAll, List.flatten_cons]
      by_cases hcs : cs = []
      · subst hcs
        have hall := deliver_all is c.length (by simp at h; omega)
        simp [deliverAll, hall]
      · have hrest := ih (deliver c.length is).2 hcs (by rw [size_deliver]; omega)
        have hfirst := length_fragments_deliver role c.length is
        rw [fragments_append, List.length_append]
        omega

theorem ne_nil_of_mem_fragments {is : List Item} {role : Role} {u : Bytes}
    (h : u ∈ fragments role (deliverAll is cs).flatten) : u ≠ [] := by
  induction cs generalizing is with
  | nil => simp [deliverAll, fragments] at h
  | cons c cs ih =>
      rw [deliverAll, List.flatten_cons, fragments_append, List.mem_append] at h
      exact h.elim ne_nil_of_mem_fragments_deliver ih

end Arrival

theorem complete_not_mem_report (role : Role) (bs : Bytes) : Event.complete ∉ role.report bs := by
  unfold Role.report
  split
  · simp
  · cases role <;> simp

/-- The end of the first message is not reported before its last byte, whatever follows. -/
theorem complete_not_mem_of_lt {n : Nat} {is more : List Item} (his : .complete ∉ is)
    (h : n < size is) :
    .complete ∉ (deliver n (is ++ more)).1 ∧
      ∃ is', (deliver n (is ++ more)).2 = is' ++ more ∧ .complete ∉ is' ∧
        size is' = size is - n := by
  induction is generalizing n with
  | nil => simp [size] at h
  | cons i is ih =>
      rw [size_cons] at h ⊢
      rw [List.mem_cons, not_or] at his
      cases i with
      | field a v =>
          obtain ⟨hev, is', hrest, his', hsize⟩ := ih his.2 (by simpa [Item.bytes] using h)
          exact ⟨by simpa [deliver] using hev, is', hrest, his', by simpa [Item.bytes] using hsize⟩
      | complete => exact absurd rfl his.1
      | span role bs =>
          simp only [Item.bytes] at h ⊢
          rw [List.cons_append, deliver]
          split
          next hle =>
            obtain ⟨hev, is', hrest, his', hsize⟩ := ih (n := n - bs.length) his.2 (by omega)
            exact ⟨by simp [complete_not_mem_report, hev], is', hrest, his', by omega⟩
          next hlt =>
            refine ⟨complete_not_mem_report _ _, .span role (bs.drop n) :: is, rfl,
              by simp [his.2], ?_⟩
            simp only [size_cons, Item.bytes, List.length_drop]
            omega

/-- It is reported with its last byte. -/
theorem complete_mem_of_le {n : Nat} {is more : List Item} (h : size is ≤ n) :
    .complete ∈ (deliver n (is ++ .complete :: more)).1 := by
  induction is generalizing n with
  | nil => simp [deliver]
  | cons i is ih =>
      rw [size_cons] at h
      cases i with
      | field a v =>
          rw [List.cons_append, deliver]
          exact List.mem_cons_of_mem _ (ih (by simpa [Item.bytes] using h))
      | complete => simp [deliver]
      | span role bs =>
          simp only [Item.bytes] at h
          rw [List.cons_append, deliver, if_pos (by omega)]
          exact List.mem_append_right _ (ih (by omega))

/-- The end of the message is not reported before its last byte. -/
theorem complete_not_mem {n : Nat} {is : List Item} (his : .complete ∉ is)
    (h : n < size is) :
    .complete ∉ (deliver n (is ++ [.complete])).1 ∧
      ∃ is', (deliver n (is ++ [.complete])).2 = is' ++ [.complete] ∧ .complete ∉ is' := by
  obtain ⟨hev, is', hrest, his', -⟩ := @complete_not_mem_of_lt n is [.complete] his h
  exact ⟨hev, is', hrest, his'⟩

/-! ## reports of another parser

A parser may hand the fields on later than `deliver` does, keep the blanks that follow a value
and leave the fields of a trailer out. -/

/-- The reports say the same of the targets, the bodies and the end of a message. -/
structure SameCalls (es fs : List Event) : Prop where
  fragments (role : Role) : fragments role es = fragments role fs
  complete : .complete ∈ es ↔ .complete ∈ fs

theorem SameCalls.refl (es : List Event) : SameCalls es es := ⟨fun _ => rfl, Iff.rfl⟩

theorem SameCalls.fragments_flatten {ess fss : List (List Event)}
    (h : List.Forall₂ SameCalls ess fss) (role : Role) :
    Http.fragments role ess.flatten = Http.fragments role fss.flatten := by
  induction h with
  | nil => rfl
  | cons hes _ ih => simp only [List.flatten_cons, fragments_append, hes.fragments, ih]

/-- The field is handed on as this pair. -/
def Field.HandedOn (f : Field) (p : Bytes × Bytes) : Prop :=
  ∃ blanks : Bytes, (∀ x ∈ blanks, isOws x = true) ∧ p = (f.name, f.value ++ blanks)

/-- These pairs are handed on for the message. -/
def Message.HandedOn (m : Message) (ps : List (Bytes × Bytes)) : Prop :=
  ∃ fs : List Field, fs.Sublist m.body.trailer ∧ List.Forall₂ Field.HandedOn (m.fields ++ fs) ps

theorem Field.handedOn_pair (f : Field) : f.HandedOn f.pair :=
  ⟨[], by simp, by rw [List.append_nil]; rfl⟩

theorem Message.handedOn_pairs (m : Message) :
    m.HandedOn ((m.fields ++ m.body.trailer).map Field.pair) :=
  ⟨m.body.trailer, List.Sublist.refl _,
    List.forall₂_map_right_iff.mpr (List.forall₂_same.mpr fun f _ => f.handedOn_pair)⟩

end Http
