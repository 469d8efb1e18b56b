import Mathlib.Data.List.DropRight
import Web3Proxy.Lib.Http.Message

/-!
# Web3Proxy.Lib.Http.Response

Responses of HTTP/1.1 that end by themselves: those whose length the header fields
give, and those that have no body.

* `numeral_toString` — a number is written as its numeral;
* `Field.spaced` — a name, a blank and some text make a field line, whatever white
  space the text has at its ends;
* `IsResponse` — the bytes are one complete response;
* `carries_sized` — how to write one;
* `IsResponse.cons_field` — a further field leaves a response complete.
-/

namespace Http

open Bytes

/-! ## numerals -/

theorem utf8EncodeChar_digitChar {d : Nat} (h : d < 10) :
    String.utf8EncodeChar (Nat.digitChar d) = [48 + UInt8.ofNat d] := by
  have hall : ∀ d : Fin 10,
      String.utf8EncodeChar (Nat.digitChar d) = [48 + UInt8.ofNat d] := by decide
  exact hall ⟨d, h⟩

theorem digitValue_ofNat {d : Nat} (h : d < 10) : digitValue (48 + UInt8.ofNat d) = some d := by
  have hall : ∀ d : Fin 10, digitValue (48 + UInt8.ofNat d) = some d.val := by decide
  exact hall ⟨d, h⟩

/-- A further digit. -/
theorem numeral_concat {b : Bytes} {n d : Nat} (hb : numeral 10 b = some n) (hd : d < 10) :
    numeral 10 (b ++ [48 + UInt8.ofNat d]) = some (n * 10 + d) := by
  unfold numeral at hb ⊢
  split at hb
  · cases hb
  · next hne =>
    rw [if_neg (by simp), List.foldlM_append, hb]
    simp [digitValue_ofNat hd, hd]

/-- **The decimal notation of a number is its numeral.** -/
theorem numeral_toString (n : Nat) : numeral 10 (str (toString n)) = some n := by
  have hdigits : ∀ n, numeral 10 ((Nat.toDigits 10 n).flatMap String.utf8EncodeChar) = some n := by
    intro n
    induction n using Nat.strongRecOn with
    | ind n ih =>
        by_cases h : n < 10
        · rw [Nat.toDigits_of_lt_base h, List.flatMap_singleton, utf8EncodeChar_digitChar h]
          simp [numeral, digitValue_ofNat h, h]
        · have hmod : n % 10 < 10 := Nat.mod_lt n (by omega)
          have hsplit : n / 10 * 10 + n % 10 = n := by omega
          rw [Nat.toDigits_of_base_le (by omega) (by omega), List.flatMap_append,
            List.flatMap_singleton, utf8EncodeChar_digitChar hmod,
            numeral_concat (ih (n / 10) (by omega)) hmod, hsplit]
  rw [Nat.toString_eq_ofList_toDigits, str_ofList]
  exact hdigits n

/-- A numeral has digits only. -/
theorem mem_numeral {b : Bytes} {n : Nat} (h : numeral 10 b = some n) {x : UInt8} (hx : x ∈ b) :
    ∃ d, d < 10 ∧ x = 48 + UInt8.ofNat d := by
  have hall : ∀ x : UInt8, ∀ d : Fin 10, digitValue x = some d.val → x = 48 + UInt8.ofNat d :=
    forall_byte (by decide +kernel)
  obtain ⟨before, after, rfl⟩ := List.append_of_mem hx
  rw [numeral, if_neg (by simp), List.foldlM_append] at h
  obtain ⟨m, -, h⟩ := Option.bind_eq_some_iff.mp h
  rw [List.foldlM_cons] at h
  obtain ⟨k, hstep, -⟩ := Option.bind_eq_some_iff.mp h
  obtain ⟨d, hvalue, hlt⟩ := Option.bind_eq_some_iff.mp hstep
  split at hlt
  next hd => exact ⟨d, hd, hall x ⟨d, hd⟩ hvalue⟩
  next => cases hlt

/-- The decimal notation of a number has digits only. -/
theorem mem_toString {n : Nat} {x : UInt8} (hx : x ∈ str (toString n)) :
    ∃ d, d < 10 ∧ x = 48 + UInt8.ofNat d :=
  mem_numeral (numeral_toString n) hx

/-! ## field lines -/

/-- The field line of a name and some text, after a blank. -/
def Field.spaced (name text : Bytes) : Field where
  name := name
  before := 32 :: text.takeWhile isOws
  value := (text.dropWhile isOws).rdropWhile isOws
  after := (text.dropWhile isOws).rtakeWhile isOws

theorem Field.line_spaced (name text : Bytes) :
    (Field.spaced name text).line = name ++ [58, 32] ++ text := by
  have hright : (text.dropWhile isOws).rdropWhile isOws ++ (text.dropWhile isOws).rtakeWhile isOws =
      text.dropWhile isOws := List.rdropWhile_append_rtakeWhile
  have hleft : text.takeWhile isOws ++ text.dropWhile isOws = text := List.takeWhile_append_dropWhile
  calc (Field.spaced name text).line
      = name ++ [58, 32] ++ (text.takeWhile isOws ++
          ((text.dropWhile isOws).rdropWhile isOws ++ (text.dropWhile isOws).rtakeWhile isOws)) := by
        simp [Field.line, Field.spaced]
    _ = name ++ [58, 32] ++ text := by rw [hright, hleft]

theorem Field.spaced_wellFormed {name text : Bytes} (hne : name ≠ [])
    (hname : ∀ x ∈ name, isTchar x = true) (htext : ∀ x ∈ text, isFieldChar x = true) :
    (Field.spaced name text).WellFormed where
  name_ne := hne
  name := hname
  value x hx := by
    have hdrop : x ∈ text.dropWhile isOws := (List.rdropWhile_prefix _ _).subset hx
    exact htext x ((List.dropWhile_suffix _).subset hdrop)
  value_head x hx := by
    obtain ⟨rest, hrest⟩ := List.rdropWhile_prefix isOws (text.dropWhile isOws)
    have hhead : (text.dropWhile isOws).head? = some x := by
      rw [← hrest, List.head?_append]
      simp only [Field.spaced] at hx
      rw [hx, Option.some_or]
    have hnot := List.head?_dropWhile_not isOws text
    rw [hhead] at hnot
    exact hnot
  value_last x hx := by
    simp only [Field.spaced] at hx
    have hne' : (text.dropWhile isOws).rdropWhile isOws ≠ [] := by
      intro hnil
      simp [hnil] at hx
    have hlast := List.rdropWhile_last_not isOws (text.dropWhile isOws) hne'
    rw [List.getLast?_eq_some_getLast hne', Option.some.injEq] at hx
    rw [← hx]
    simpa using hlast
  before x hx := by
    simp only [Field.spaced, List.mem_cons] at hx
    obtain rfl | hx := hx
    · decide
    · exact List.mem_takeWhile_imp hx
  after x hx := List.mem_rtakeWhile_imp hx

theorem Field.wire_spaced (name text : Bytes) :
    (Field.spaced name text).wire = name ++ [58, 32] ++ text ++ crlf := by
  rw [Field.wire, Field.line_spaced]

/-- The field that gives the length of a body. -/
def Field.contentLength (n : Nat) : Field where
  name := str "Content-Length"
  value := str (toString n)

theorem Field.contentLength_wellFormed (n : Nat) : (Field.contentLength n).WellFormed := by
  have hdigit {x : UInt8} (hx : x ∈ str (toString n)) : isFieldChar x = true ∧ isOws x = false := by
    obtain ⟨d, hd, rfl⟩ := mem_toString hx
    have hall : ∀ d : Fin 10, isFieldChar (48 + UInt8.ofNat d) = true ∧
        isOws (48 + UInt8.ofNat d) = false := by decide
    exact hall ⟨d, hd⟩
  exact {
    name_ne := (by decide : str "Content-Length" ≠ [])
    name := (by decide : ∀ x ∈ str "Content-Length", isTchar x = true)
    value := fun x hx => (hdigit hx).1
    value_head := fun x hx => (hdigit (List.mem_of_head? hx)).2
    value_last := fun x hx => (hdigit (List.mem_of_getLast? hx)).2
    before := (by decide : ∀ x ∈ ([32] : Bytes), isOws x = true)
    after := (by decide : ∀ x ∈ ([] : Bytes), isOws x = true) }

/-- A field that says nothing of the framing. -/
structure Field.IsPlain (f : Field) : Prop where
  wellFormed : f.WellFormed
  coding : lower f.name ≠ str "transfer-encoding"
  size : lower f.name ≠ str "content-length"

theorem Field.spaced_isPlain {name text : Bytes} (hne : name ≠ [])
    (hname : ∀ x ∈ name, isTchar x = true)
    (hcoding : lower name ≠ str "transfer-encoding") (hsize : lower name ≠ str "content-length")
    (htext : ∀ x ∈ text, isFieldChar x = true) : (Field.spaced name text).IsPlain :=
  ⟨Field.spaced_wellFormed hne hname htext, hcoding, hsize⟩

theorem values_append (fs gs : List Field) (name : Bytes) :
    values (fs ++ gs) name = values fs name ++ values gs name := by
  simp [values, List.filter_append]

theorem values_eq_nil {fs : List Field} {name : Bytes} (h : ∀ f ∈ fs, lower f.name ≠ name) :
    values fs name = [] := by
  simpa [values] using h

/-! ## responses -/

/-- A response. -/
structure Response where
  version : Bytes
  status : Bytes
  reason : Bytes
  fields : List Field
  body : Body
deriving DecidableEq, Repr

namespace Response

variable (r : Response)

/-- The status line, without its end. -/
def start : Bytes := r.version ++ [32] ++ r.status ++ [32] ++ r.reason

/-- The response as sent. -/
def wire : Bytes :=
  r.start ++ crlf ++ r.fields.flatMap Field.wire ++ crlf ++ r.body.wire

/-- The end of the body is where the header fields say. -/
def Delimited (fields : List Field) : Body → Prop
  | .sized b => values fields (str "transfer-encoding") = [] ∧
      values fields (str "content-length") ≠ [] ∧
      ∀ v ∈ values fields (str "content-length"), numeral 10 v = some b.length
  | .chunked cs last trailer =>
      (∃ v, (values fields (str "transfer-encoding")).getLast? = some v ∧
        str "chunked" <:+ lower v) ∧
        (∀ c ∈ cs, c.data ≠ [] ∧ SizeLine c.size c.data.length) ∧ SizeLine last 0 ∧
        ∀ f ∈ trailer, f.WellFormed

/-- The response is well formed, final, and ends by itself. -/
structure WellFormed : Prop where
  version : r.version = str "HTTP/1.1" ∨ r.version = str "HTTP/1.0"
  status_length : r.status.length = 3
  status : ∀ x ∈ r.status, (digitValue x).isSome
  final : r.status.head? ≠ some 49
  reason : ∀ x ∈ r.reason, isFieldChar x = true
  fields : ∀ f ∈ r.fields, f.WellFormed
  framed : if r.status = str "204" ∨ r.status = str "304" then r.body = .sized []
    else Delimited r.fields r.body

end Response

/-- The bytes are one complete response.  What request it answers is not looked at: a
response to a HEAD request counts as complete with the body that its fields announce. -/
def IsResponse (b : Bytes) : Prop := ∃ r : Response, r.WellFormed ∧ r.wire = b

/-- The bytes are one complete response with this body, whose length its header gives. -/
def Carries (content b : Bytes) : Prop :=
  ∃ r : Response, r.WellFormed ∧ r.wire = b ∧ r.body = .sized content ∧
    values r.fields (str "content-length") = [str (toString content.length)]

theorem Carries.isResponse {content b : Bytes} (h : Carries content b) : IsResponse b := by
  obtain ⟨r, hr, hwire, -, -⟩ := h
  exact ⟨r, hr, hwire⟩

/-- The status line does not end before its end. -/
theorem Response.WellFormed.start_ne {r : Response} (h : r.WellFormed) :
    ∀ x ∈ r.start, x ≠ 13 ∧ x ≠ 10 := by
  intro x hx
  simp only [Response.start, List.mem_append, List.mem_singleton] at hx
  obtain (((hx | rfl) | hx) | rfl) | hx := hx
  · have hversion : ∀ x ∈ str "HTTP/1.1" ++ str "HTTP/1.0", x ≠ 13 ∧ x ≠ 10 := by decide
    obtain hv | hv := h.version
    · exact hversion x (List.mem_append_left _ (hv ▸ hx))
    · exact hversion x (List.mem_append_right _ (hv ▸ hx))
  · decide
  · have hdigit := h.status x hx
    constructor <;> rintro rfl <;> revert hdigit <;> decide
  · decide
  · exact isFieldChar_ne (h.reason x hx)

/-- Bytes carry one content only. -/
theorem Carries.unique {content content' b : Bytes} (h : Carries content b)
    (h' : Carries content' b) : content = content' := by
  obtain ⟨r, hr, hwire, hbody, -⟩ := h
  obtain ⟨r', hr', hwire', hbody', -⟩ := h'
  have hstart {r : Response} (hr : r.WellFormed) : IsLine r.start :=
    fun x hx => (hr.start_ne x hx).2
  have heq := hwire.trans hwire'.symm
  simp only [Response.wire, hbody, hbody', Body.wire] at heq
  exact (head_unique (hstart hr) (hstart hr') hr.fields hr'.fields heq).2.2

/-- After version and status code there is a blank. -/
theorem IsResponse.blank {b : Bytes} (h : IsResponse b) : b[12]? = some 32 := by
  obtain ⟨r, hr, rfl⟩ := h
  have hversion : r.version.length = 8 := by
    obtain hv | hv := hr.version <;> rw [hv] <;> decide
  have hstatus := hr.status_length
  simp only [Response.wire, Response.start, List.append_assoc]
  rw [List.getElem?_append_right (by omega), List.getElem?_append_right (by simp; omega),
    List.getElem?_append_right (by simp; omega)]
  simp [hversion, hstatus]

/-! ## writing responses -/

/-- A response whose header gives the length of the body, in the field between
`before` and `after`. -/
theorem carries_sized {status reason content : Bytes} {before after : List Field}
    (hlength : status.length = 3) (hstatus : ∀ x ∈ status, (digitValue x).isSome)
    (hfinal : status.head? ≠ some 49) (hbody : status ≠ str "204" ∧ status ≠ str "304")
    (hreason : ∀ x ∈ reason, isFieldChar x = true) (hbefore : ∀ f ∈ before, f.IsPlain)
    (hafter : ∀ f ∈ after, f.IsPlain) :
    Carries content (str "HTTP/1.1" ++ [32] ++ status ++ [32] ++ reason ++ crlf ++
      (before.flatMap Field.wire ++ (Field.contentLength content.length).wire ++
        after.flatMap Field.wire) ++ crlf ++ content) := by
  have hcoding : values [Field.contentLength content.length] (str "transfer-encoding") = [] :=
    values_eq_nil fun f hf => by
      rw [List.mem_singleton.mp hf]
      exact (by decide : lower (str "Content-Length") ≠ str "transfer-encoding")
  have hsize : values [Field.contentLength content.length] (str "content-length") =
      [str (toString content.length)] := by
    have hname : lower (Field.contentLength content.length).name = str "content-length" :=
      (by decide : lower (str "Content-Length") = str "content-length")
    simp [values, hname]
    rfl
  refine ⟨⟨str "HTTP/1.1", status, reason,
    before ++ [Field.contentLength content.length] ++ after, .sized content⟩,
    ⟨Or.inl rfl, hlength, hstatus, hfinal, hreason, fun f hf => ?_, ?_⟩, ?_, rfl, ?_⟩
  · simp only [List.mem_append, List.mem_singleton] at hf
    obtain (hf | rfl) | hf := hf
    · exact (hbefore f hf).wellFormed
    · exact Field.contentLength_wellFormed content.length
    · exact (hafter f hf).wellFormed
  · rw [if_neg (by simpa using hbody)]
    simp only [Response.Delimited, values_append, hcoding, hsize,
      values_eq_nil fun f hf => (hbefore f hf).coding, values_eq_nil fun f hf => (hafter f hf).coding,
      values_eq_nil fun f hf => (hbefore f hf).size, values_eq_nil fun f hf => (hafter f hf).size]
    refine ⟨rfl, by simp, fun v hv => ?_⟩
    obtain rfl : v = str (toString content.length) := by simpa using hv
    exact numeral_toString content.length
  · simp [Response.wire, Response.start, Body.wire]
  · simp only [values_append, hsize, values_eq_nil fun f hf => (hbefore f hf).size,
      values_eq_nil fun f hf => (hafter f hf).size, List.nil_append, List.append_nil]

/-- A further field that says nothing of the framing goes well in front. -/
theorem Response.WellFormed.cons_field {r : Response} (h : r.WellFormed) {f : Field}
    (hf : f.IsPlain) :
    ({ r with fields := f :: r.fields } : Response).WellFormed := by
  have hvalues (name : Bytes) (hne : lower f.name ≠ name) :
      values (f :: r.fields) name = values r.fields name := by
    simp [values, hne]
  refine { h with fields := ?_, framed := ?_ }
  · simpa using ⟨hf.wellFormed, h.fields⟩
  · have hframed := h.framed
    split at hframed
    · next hempty => simpa [hempty] using hframed
    · next hempty =>
      rw [if_neg hempty]
      show Response.Delimited (f :: r.fields) r.body
      cases hbody : r.body with
      | sized b =>
          rw [hbody] at hframed
          simpa only [Response.Delimited, hvalues _ hf.coding, hvalues _ hf.size] using hframed
      | chunked cs last trailer =>
          rw [hbody] at hframed
          simpa only [Response.Delimited, hvalues _ hf.coding] using hframed

end Http
