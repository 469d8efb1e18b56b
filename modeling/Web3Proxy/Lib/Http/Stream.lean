import Web3Proxy.Lib.Http.Delivery
import Web3Proxy.Lib.Http.Response

/-!
# Web3Proxy.Lib.Http.Stream

What comes on a connection in answer to one request: interim responses, which have a status
beginning with 1 and no body, and the final response.

* `Response.flatMap_bytes_layout` — the layout of a response has the bytes of the response;
* `ResponseStream.layout_eq` — the first response of a stream, its end, and what follows;
* `heard_whole`, `heard_prefix` — the content and the ends of the responses, as they are
  reported, do not depend on how the stream is cut, and the last end is the last of them.
-/

namespace Http

open Bytes

/-! ## the layout of a response -/

namespace Response

variable (r : Response)

/-- The layout of a response, up to its end. -/
def parts : List Item :=
  [.span .syntactic (r.start ++ crlf)] ++ r.fields.flatMap Field.layout ++
    [.span .syntactic crlf] ++ r.body.layout

/-- The layout of a response. -/
def layout : List Item := r.parts ++ [.complete]

/-- The bytes of the layout are those of the response. -/
theorem flatMap_bytes_layout : r.layout.flatMap Item.bytes = r.wire := by
  have hfields (fs : List Field) : (fs.flatMap Field.layout).flatMap Item.bytes =
      fs.flatMap Field.wire := by
    rw [List.flatMap_assoc]
    congr 1
    funext f
    simp [Field.layout, Item.bytes]
  have hbody : r.body.layout.flatMap Item.bytes = r.body.wire := by
    cases r.body with
    | sized b => simp [Body.layout, Body.wire, Item.bytes]
    | chunked cs last trailer =>
        have hchunks : (cs.flatMap Chunk.layout).flatMap Item.bytes =
            cs.flatMap Body.chunkWire := by
          rw [List.flatMap_assoc]
          congr 1
          funext c
          simp [Chunk.layout, Body.chunkWire, Item.bytes]
        simp [Body.layout, Body.wire, hchunks, hfields, Item.bytes]
  simp [layout, parts, wire, hbody, hfields, Item.bytes]

theorem complete_not_mem_parts : .complete ∉ r.parts := by
  have hfields (fs : List Field) : Item.complete ∉ fs.flatMap Field.layout := by
    simp [List.mem_flatMap, Field.layout]
  have hbody : Item.complete ∉ r.body.layout := by
    cases r.body <;> simp [Body.layout, hfields, Chunk.layout]
  simp [parts, hfields, hbody]

theorem size_parts : size r.parts = r.wire.length := by
  rw [← r.flatMap_bytes_layout, layout, ← size_append_complete]
  rfl

theorem wire_ne_nil : r.wire ≠ [] := by
  simp [wire, crlf]

/-- An interim response is well formed. -/
structure Interim : Prop where
  version : r.version = str "HTTP/1.1" ∨ r.version = str "HTTP/1.0"
  status_length : r.status.length = 3
  status : ∀ x ∈ r.status, (digitValue x).isSome
  interim : r.status.head? = some 49
  reason : ∀ x ∈ r.reason, isFieldChar x = true
  fields : ∀ f ∈ r.fields, f.WellFormed
  unframed : values r.fields (str "transfer-encoding") = [] ∧
    values r.fields (str "content-length") = []
  empty : r.body = .sized []

end Response

/-! ## streams -/

/-- The answer to one request. -/
structure ResponseStream where
  interims : List Response
  final : Response
  interim : ∀ r ∈ interims, r.Interim
  wellFormed : final.WellFormed

namespace ResponseStream

variable (s : ResponseStream)

/-- The responses, in order. -/
def responses : List Response := s.interims ++ [s.final]

/-- The first response. -/
def first : Response := s.interims.headD s.final

/-- The answer as sent. -/
def wire : Bytes := s.responses.flatMap Response.wire

/-- The layout of the answer. -/
def layout : List Item := s.responses.flatMap Response.layout

theorem responses_eq : ∃ rest, s.responses = s.first :: rest := by
  unfold responses first
  cases s.interims with
  | nil => exact ⟨[], rfl⟩
  | cons r rs => exact ⟨rs ++ [s.final], rfl⟩

/-- The first response, its end, and what follows. -/
theorem layout_eq : ∃ more, s.layout = s.first.parts ++ .complete :: more := by
  obtain ⟨rest, hrest⟩ := s.responses_eq
  refine ⟨rest.flatMap Response.layout, ?_⟩
  rw [layout, hrest, List.flatMap_cons, Response.layout, List.append_assoc]
  rfl

theorem size_layout : size s.layout = s.wire.length := by
  rw [size, layout, List.flatMap_assoc, wire]
  simp only [Response.flatMap_bytes_layout]

theorem wire_ne_nil : s.wire ≠ [] := by
  obtain ⟨rest, hrest⟩ := s.responses_eq
  simp [wire, hrest, s.first.wire_ne_nil]

end ResponseStream

/-! ## what is heard of the content -/

/-- The bytes of the content that an event reports, each by itself, or an end. -/
def Event.heard : Event → List (Option UInt8)
  | .data b => b.map some
  | .complete => [none]
  | _ => []

/-- The bytes of the contents and the ends, in the order in which they are reported. -/
def heard (es : List Event) : List (Option UInt8) := es.flatMap Event.heard

@[simp] theorem heard_append (es fs : List Event) : heard (es ++ fs) = heard es ++ heard fs :=
  List.flatMap_append

@[simp] theorem heard_nil : heard [] = [] := rfl

/-- Of a span only data is heard, byte by byte. -/
theorem heard_report (role : Role) (b : Bytes) :
    heard (role.report b) = if role = .data then b.map some else [] := by
  by_cases hb : b = []
  · simp [Role.report, hb]
  · cases role <;> simp [Role.report, hb, heard, Event.heard]

/-- The fragments of a span are heard as the span. -/
theorem heard_report_append (role : Role) (a b : Bytes) :
    heard (role.report a) ++ heard (role.report b) = heard (role.report (a ++ b)) := by
  rw [heard_report, heard_report, heard_report]
  split
  · rw [List.map_append]
  · rfl

/-- What has been heard, and what is still to be. -/
theorem heard_deliver (n : Nat) (is : List Item) :
    heard (deliver n is).1 ++ heard ((deliver n is).2.flatMap Item.report) =
      heard (is.flatMap Item.report) := by
  induction is generalizing n with
  | nil => rfl
  | cons i is ih =>
      cases i with
      | field a v => exact ih n
      | complete => exact congrArg (none :: ·) (ih n)
      | span role bs =>
          rw [deliver]
          split
          · simp only [List.flatMap_cons, heard_append, List.append_assoc, Item.report]
            exact congrArg _ (ih (n - bs.length))
          · simp only [List.flatMap_cons, heard_append, Item.report]
            rw [← List.append_assoc, heard_report_append, List.take_append_drop]

/-- What is still to come behind some pieces. -/
def remaining : List Item → List Bytes → List Item
  | is, [] => is
  | is, c :: cs => remaining (deliver c.length is).2 cs

theorem heard_deliverAll (is : List Item) (cs : List Bytes) :
    heard (deliverAll is cs).flatten ++ heard ((remaining is cs).flatMap Item.report) =
      heard (is.flatMap Item.report) := by
  induction cs generalizing is with
  | nil => rfl
  | cons c cs ih =>
      rw [deliverAll, List.flatten_cons, remaining, heard_append, List.append_assoc, ih,
        heard_deliver]

/-- What is heard of a stream that has arrived whole. -/
theorem heard_whole (is : List Item) {cs : List Bytes} (hne : cs ≠ [])
    (h : cs.flatten.length = size is) :
    heard (deliverAll is cs).flatten = heard (is.flatMap Item.report) :=
  deliverAll_hom is heard_append heard_deliver hne h

theorem none_mem_heard {es : List Event} : none ∈ heard es ↔ .complete ∈ es := by
  rw [heard, List.mem_flatMap]
  refine ⟨fun ⟨e, he, hnone⟩ => ?_, fun he => ⟨_, he, List.mem_singleton_self none⟩⟩
  cases e <;> simp_all [Event.heard]

/-- The end of a layout stays to come until its last byte. -/
theorem deliver_append_complete {n : Nat} {is : List Item} (h : n < size is) :
    ∃ is', (deliver n (is ++ [.complete])).2 = is' ++ [.complete] ∧ size is' = size is - n := by
  induction is generalizing n with
  | nil => simp [size] at h
  | cons i is ih =>
      rw [size_cons] at h ⊢
      cases i with
      | field a v | complete =>
          obtain ⟨is', hrest, hsize⟩ := ih (n := n) (by simpa [Item.bytes] using h)
          exact ⟨is', hrest, by simpa [Item.bytes] using hsize⟩
      | span role bs =>
          simp only [Item.bytes] at h ⊢
          rw [List.cons_append, deliver]
          split
          next hle =>
            obtain ⟨is', hrest, hsize⟩ := ih (n := n - bs.length) (by omega)
            exact ⟨is', hrest, by omega⟩
          next hlt =>
            refine ⟨.span role (bs.drop n) :: is, rfl, ?_⟩
            simp only [size_cons, Item.bytes, List.length_drop]
            omega

theorem remaining_append_complete {is : List Item} {cs : List Bytes}
    (h : cs.flatten.length < size is) :
    ∃ is', remaining (is ++ [.complete]) cs = is' ++ [.complete] := by
  induction cs generalizing is with
  | nil => exact ⟨is, rfl⟩
  | cons c cs ih =>
      rw [List.flatten_cons, List.length_append] at h
      obtain ⟨is', hrest, hsize⟩ := @deliver_append_complete c.length is (by omega)
      rw [remaining, hrest]
      exact ih (by omega)

/-- Before the last byte the last end has not been heard. -/
theorem heard_prefix {is : List Item} {cs : List Bytes} (h : cs.flatten.length < size is) :
    heard (deliverAll (is ++ [.complete]) cs).flatten <+: heard (is.flatMap Item.report) := by
  obtain ⟨is', hrest⟩ := remaining_append_complete h
  have hall := heard_deliverAll (is ++ [.complete]) cs
  rw [hrest] at hall
  simp only [List.flatMap_append, heard_append, ← List.append_assoc] at hall
  exact ⟨_, List.append_cancel_right hall⟩

namespace ResponseStream

variable (s : ResponseStream)

/-- The layout up to the last end. -/
def partsBeforeEnd : List Item := s.interims.flatMap Response.layout ++ s.final.parts

theorem layout_eq_append : s.layout = s.partsBeforeEnd ++ [.complete] := by
  simp [layout, responses, partsBeforeEnd, Response.layout]

theorem size_partsBeforeEnd : size s.partsBeforeEnd = s.wire.length := by
  rw [← s.size_layout, layout_eq_append, size_append_complete]

end ResponseStream

@[simp] theorem heard_report_span (role : Role) (b : Bytes) :
    heard (Item.span role b).report = if role = .data then b.map some else [] :=
  heard_report role b

@[simp] theorem heard_report_field (n v : Bytes) : heard (Item.field n v).report = [] := rfl

@[simp] theorem heard_report_complete : heard Item.complete.report = [none] := rfl

@[simp] theorem heard_fields (fs : List Field) :
    heard ((fs.flatMap Field.layout).flatMap Item.report) = [] := by
  induction fs with
  | nil => rfl
  | cons f fs ih => simp [Field.layout, ih]

/-- The data of chunks is heard. -/
theorem heard_chunks (cs : List Chunk) :
    heard ((cs.flatMap Chunk.layout).flatMap Item.report) = (cs.flatMap Chunk.data).map some := by
  induction cs with
  | nil => rfl
  | cons c cs ih => simp [Chunk.layout, ih]

/-- The content of a response is heard, and nothing else. -/
theorem heard_parts (r : Response) :
    heard (r.parts.flatMap Item.report) = r.body.content.map some := by
  have hbody : heard (r.body.layout.flatMap Item.report) = r.body.content.map some := by
    cases r.body with
    | sized b => simp [Body.layout, Body.content]
    | chunked cs last trailer => simp [Body.layout, Body.content, heard_chunks]
  simp [Response.parts, hbody]

namespace ResponseStream

variable (s : ResponseStream)

/-- The ends of the interim responses, and the content of the final one. -/
theorem heard_partsBeforeEnd : heard (s.partsBeforeEnd.flatMap Item.report) =
    List.replicate s.interims.length none ++ s.final.body.content.map some := by
  have hinterims (rs : List Response) (hrs : ∀ r ∈ rs, r.Interim) :
      heard ((rs.flatMap Response.layout).flatMap Item.report) =
        List.replicate rs.length none := by
    induction rs with
    | nil => rfl
    | cons r rs ih =>
        have hempty := (hrs r List.mem_cons_self).empty
        simp [Response.layout, heard_parts, hempty, Body.content, List.replicate_succ,
          ih fun r' hr' => hrs r' (List.mem_cons_of_mem _ hr')]
  rw [partsBeforeEnd, List.flatMap_append, heard_append, hinterims _ s.interim, heard_parts]

/-- What is heard of an answer that has arrived whole. -/
theorem heard_layout : heard (s.layout.flatMap Item.report) =
    List.replicate s.interims.length none ++ s.final.body.content.map some ++ [none] := by
  rw [layout_eq_append, List.flatMap_append, heard_append, heard_partsBeforeEnd]
  rfl

end ResponseStream

end Http
