import Web3Proxy.Lib.Json.Dumps

/-!
# Web3Proxy.Lib.Json.Encoding

`json.loads` on bytes: the encoding is guessed from the first of them.  The decoders of the
encodings are a parameter.

* `loadsBytes_dumps` — an object that `dumps` has written is read back from its UTF-8 bytes.
-/

namespace Json

open Bytes

/-- The encodings that `detect_encoding` tells apart. -/
inductive Encoding where
  | utf8
  | utf8Sig
  | utf16
  | utf16be
  | utf16le
  | utf32
  | utf32be
  | utf32le
deriving DecidableEq, Repr

/-- `detect_encoding(b)`, without a byte order mark. -/
def guessEncoding : Bytes → Encoding
  | b₀ :: b₁ :: b₂ :: b₃ :: _ =>
      if b₀ = 0 then if b₁ = 0 then .utf32be else .utf16be
      else if b₁ = 0 then if b₂ = 0 ∧ b₃ = 0 then .utf32le else .utf16le
      else .utf8
  | [b₀, b₁] => if b₀ = 0 then .utf16be else if b₁ = 0 then .utf16le else .utf8
  | _ => .utf8

/-- `detect_encoding(b)`. -/
def detectEncoding (b : Bytes) : Encoding :=
  if [0, 0, 0xfe, 0xff] <+: b ∨ [0xff, 0xfe, 0, 0] <+: b then .utf32
  else if [0xfe, 0xff] <+: b ∨ [0xff, 0xfe] <+: b then .utf16
  else if [0xef, 0xbb, 0xbf] <+: b then .utf8Sig
  else guessEncoding b

variable (codec : Encoding → Bytes → Option String) (floatText : String → String)

/-- `json.loads(b)`; `none` when this raises. -/
def loadsBytes (b : Bytes) : Option Json :=
  (codec (detectEncoding b) b).bind fun s => decode floatText s.toList

/-- An ASCII character that is no NUL, first and second, says UTF-8. -/
theorem detectEncoding_of_ascii {b₀ b₁ : UInt8} (h₀ : b₀ ≠ 0 ∧ b₀ < 128) (h₁ : b₁ ≠ 0)
    (b : Bytes) : detectEncoding (b₀ :: b₁ :: b) = .utf8 := by
  have hne : ∀ x : UInt8, 128 ≤ x → x ≠ b₀ := fun x hx heq => by
    subst heq
    exact absurd h₀.2 (UInt8.not_lt.mpr hx)
  have hguess : guessEncoding (b₀ :: b₁ :: b) = .utf8 := by
    match b with
    | [] => simp [guessEncoding, h₀.1, h₁]
    | [_] => simp [guessEncoding]
    | _ :: _ :: _ => simp [guessEncoding, h₀.1, h₁]
  have h₀' := Ne.symm h₀.1
  simp [detectEncoding, List.cons_prefix_cons, h₀', hne 0xff (by decide), hne 0xfe (by decide),
    hne 0xef (by decide), hguess]

/-- The text of an object begins with a brace, and a quote or a brace. -/
theorem detectEncoding_dumps (members : List (PyStr × Json)) :
    detectEncoding (Bytes.str (dumps (.obj members))) = .utf8 := by
  have hstr : ∃ b₁ b, Bytes.str (dumps (.obj members)) = 123 :: b₁ :: b ∧ b₁ ≠ 0 := by
    rw [dumps, Bytes.str_ofList, encode]
    cases members with
    | nil => exact ⟨125, [], by decide, by decide⟩
    | cons m ms =>
        obtain ⟨key, v⟩ := m
        obtain ⟨cs, hcs⟩ : ∃ cs, encodeMembers [] ((key, v) :: ms) ++ ['\x7d'] = '"' :: cs :=
          ⟨_, by rw [encodeMembers, encodeString]; rfl⟩
        rw [hcs]
        exact ⟨34, cs.flatMap String.utf8EncodeChar, rfl, by decide⟩
  obtain ⟨b₁, b, hb, hne⟩ := hstr
  rw [hb]
  exact detectEncoding_of_ascii (by decide) hne b

variable {codec floatText}

/-- What `dumps` writes of an object, `loads` reads from its bytes. -/
theorem loadsBytes_dumps (hcodec : ∀ s, codec .utf8 (Bytes.str s) = some s)
    {members : List (PyStr × Json)} (h : Storable floatText (.obj members)) :
    loadsBytes codec floatText (Bytes.str (dumps (.obj members))) = some (.obj members) := by
  rw [loadsBytes, detectEncoding_dumps, hcodec, Option.bind_some]
  have hloads := loads_dumps h
  unfold loads at hloads
  split at hloads
  · cases hloads
  · exact hloads

/-- No bytes are no JSON. -/
theorem loadsBytes_nil (hcodec : ∀ s, codec .utf8 (Bytes.str s) = some s) :
    loadsBytes codec floatText [] = none := by
  have hempty : codec .utf8 [] = some "" := hcodec ""
  have hdetect : detectEncoding [] = .utf8 := by decide
  rw [loadsBytes, hdetect, hempty]
  rfl

end Json
