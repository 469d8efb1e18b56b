import Web3Proxy.ErrorResponses.Decoding
import Web3Proxy.Lib.Json.Paste

/-!
# Web3Proxy.ErrorResponses.Pasting

Which error replies have a JSON body, when something that a client has sent is pasted
into them.

* `isJson_id` — an id, as it is: if it is JSON as the value of the last member of an
  object;
* `isJson_message` — a message, as it is: if it is JSON in the quotes of a member two
  objects deep;
* `isJson_escaped` — a text whose quotes are escaped: if its backslashes are escapes.
-/

namespace Web3Proxy

open Bytes Http PyStr Json

namespace ErrorResponses

/-- The body of a reply is JSON. -/
abbrev IsReply (floatText : String → String) (code : Int) (message id : List Char) : Prop :=
  IsJson floatText (replyText code message id ++ ['\n'])

variable {floatText : String → String} {code : Int} {message id : List Char} {idValue : Json}

/-- The reply to an unknown key has a JSON body. -/
theorem loads_unauthorized (floatText : String → String) :
    ∃ value, Json.loads floatText
      ("\x7b\"error\": \"invalid authentication id\"\x7d" ++ "\n") = some value := by
  have htext : ("\x7b\"error\": \"invalid authentication id\"\x7d" ++ "\n").toList =
      '\x7b' :: '"' :: ("error".toList ++ '"' :: ':' :: ' ' :: '"' ::
        ("invalid authentication id".toList ++ ['"', '\x7d', '\n'])) := by decide
  have hkey := @scanString_plain "error".toList (by decide)
    (':' :: ' ' :: '"' :: ("invalid authentication id".toList ++ ['"', '\x7d', '\n']))
  have hvalue := @scanOnce_str floatText 0 ['\x7d', '\n'] "invalid authentication id".toList
    (by decide)
  have hmembers : scanMembers floatText 2 ('"' :: ("error".toList ++ '"' :: ':' :: ' ' :: '"' ::
      ("invalid authentication id".toList ++ ['"', '\x7d', '\n']))) = some (_, ['\n']) :=
    scanMembers_iff.mpr (.last rfl hkey rfl hvalue rfl)
  have hscan := (scanOnce_obj floatText).trans (congrArg (Option.map _) hmembers)
  rw [Json.loads, htext, if_neg (by decide)]
  exact ⟨_, decode_eq_some_iff.mpr ⟨3, ['\n'], (congrArg _ (skip_cons rfl _)).trans hscan, rfl⟩⟩
theorem isReply_plain (hid : IsValueText floatText id idValue)
    (hmessage : ∀ c ∈ message, isPlain c = true) : IsReply floatText code message id := by
  rw [IsReply, IsJson, decode_replyText_plain hid hmessage]
  rfl

/-! ## the id -/

/-- The text as the value of the last member of an object. -/
def asLastValue (id : List Char) : List Char :=
  '\x7b' :: '"' :: ("id".toList ++ '"' :: ':' :: (id ++ ['\x7d']))

/-- What follows the id closes the reply. -/
theorem closing_errorText (hmessage : ∀ c ∈ message, isPlain c = true) :
    Closing floatText (',' :: (errorText code message ++ ['\n'])) ['\n'] := by
  have htext : errorText code message ++ ['\n'] =
      '"' :: ("error".toList ++ '"' :: ':' :: (errorValue code message ++ ['\n'])) := by
    simp only [errorText, List.cons_append, List.append_assoc]
  rw [htext]
  have hvalue : scanOnce floatText (0 + 4) (errorValue code message ++ ['\n']) =
      some (.obj (dict (errorMembers code (message.map .scalar))), '\x7d' :: ['\n']) :=
    scanOnce_errorValue hmessage
  exact closing_member (by decide) ⟨'e', by decide⟩ ⟨'\x7b', _, rfl, rfl⟩ hvalue (by decide)

/-- The first member is read, and then the id. -/
theorem membersTo_replyText {tail rest : List Char} :
    MembersTo floatText (replyText code message id ++ tail).tail rest ↔
      MembersTo floatText ('"' :: ("id".toList ++ '"' :: ':' ::
        (id ++ ',' :: (errorText code message ++ tail)))) rest := by
  have hvalue (more : List Char) (fuel : Nat) :
      scanOnce floatText (fuel + 1) ('"' :: ("2.0".toList ++ '"' :: ',' :: more)) =
        some (.str ("2.0".toList.map .scalar), ',' :: more) := scanOnce_str floatText (by decide)
  simp only [replyText, List.cons_append, List.append_assoc, List.tail_cons]
  exact membersTo_cons (by decide) ⟨'"', _, rfl, rfl⟩ (hvalue _) ⟨'"', _, rfl, rfl⟩

theorem isReply_iff : IsReply floatText code message id ↔
    IsMembers floatText ('"' :: ("id".toList ++ '"' :: ':' ::
      (id ++ ',' :: (errorText code message ++ ['\n'])))) := by
  have htext : replyText code message id ++ ['\n'] =
      '\x7b' :: '"' :: (replyText code message id ++ ['\n']).tail.tail := rfl
  have htail : '"' :: (replyText code message id ++ ['\n']).tail.tail =
      (replyText code message id ++ ['\n']).tail := rfl
  rw [IsReply, htext, isJson_obj, htail, IsMembers, IsMembers]
  simp only [membersTo_replyText]

/-- **A pasted id** leaves a reply JSON if it does so as the last value of an object. -/
theorem isReply_id (hmessage : ∀ c ∈ message, isPlain c = true) :
    IsReply floatText code message id ↔ IsJson floatText (asLastValue id) := by
  have hlast : asLastValue id =
      '\x7b' :: '"' :: ("id".toList ++ '"' :: ':' :: id ++ ['\x7d']) := by
    rw [asLastValue, List.append_assoc, List.cons_append, List.cons_append]
  have hmiddle : ("id".toList ++ '"' :: ':' :: (id ++ ',' :: (errorText code message ++ ['\n']))) =
      ("id".toList ++ '"' :: ':' :: id) ++ ',' :: (errorText code message ++ ['\n']) := by
    rw [List.append_assoc, List.cons_append, List.cons_append]
  rw [isReply_iff, hlast, isJson_obj, hmiddle, ← List.cons_append, ← List.cons_append,
    closing_iff (closing_errorText hmessage) closing_brace]
  exact Iff.rfl

/-! ## the message -/

/-- The text in the quotes of the member `message` of the object `error`. -/
def inMessage (message : List Char) : List Char :=
  '\x7b' :: '"' :: ("error".toList ++ '"' :: ':' :: '\x7b' :: (messageText message ++ ['\n']))

/-- Only what the member `message` leads to matters. -/
theorem membersTo_errorText {tail rest : List Char} :
    MembersTo floatText (errorText code message ++ tail) rest ↔
      MembersTo floatText ('"' :: ("error".toList ++ '"' :: ':' :: '\x7b' ::
        (messageText message ++ tail))) rest := by
  have hcode (fuel : Nat) : scanOnce floatText (fuel + 1)
      ((toString code).toList ++ ',' :: (messageText message ++ tail)) =
        some (.int code, ',' :: (messageText message ++ tail)) := (isValueText_int code).scan _ _
  have hcons (mid : List Char) :
      MembersTo floatText ('"' :: ("code".toList ++ '"' :: ':' ::
        ((toString code).toList ++ ',' :: (messageText message ++ tail)))) mid ↔
      MembersTo floatText (messageText message ++ tail) mid :=
    membersTo_cons (by decide) (starts_toString code _) hcode ⟨'"', _, rfl, rfl⟩
  simp only [errorText, errorValue, List.cons_append, List.append_assoc]
  rw [membersTo_obj (by decide), messageText, List.cons_append, membersTo_obj (by decide)]
  simp only [messageText, List.cons_append] at hcons
  simp only [hcons]

/-- **A pasted message** leaves a reply JSON if it does so in the quotes of a member. -/
theorem isReply_message (hid : IsValueText floatText id idValue) :
    IsReply floatText code message id ↔ IsJson floatText (inMessage message) := by
  have hcons (rest : List Char) :
      MembersTo floatText ('"' :: ("id".toList ++ '"' :: ':' ::
        (id ++ ',' :: (errorText code message ++ ['\n'])))) rest ↔
      MembersTo floatText (errorText code message ++ ['\n']) rest :=
    membersTo_cons (by decide) (hid.starts _) (fun fuel => hid.scan fuel _) ⟨'"', _, rfl, rfl⟩
  rw [isReply_iff, inMessage, isJson_obj, IsMembers, IsMembers]
  simp only [hcons, membersTo_errorText]

/-! ## a text with escaped quotes -/

/-- `value.replace('"', '\\"')`, on characters. -/
def escapeQuotes (cs : List Char) : List Char :=
  cs.flatMap fun c => if c = '"' then ['\\', '"'] else [c]

/-- The text has no control characters, and each of its backslashes begins an escape
other than that of a quote. -/
inductive Escaped : List Char → Prop where
  | nil : Escaped []
  | char {c cs} (hc : c ≠ '\\' ∧ ¬ c < ' ') (hcs : Escaped cs) : Escaped (c :: cs)
  | escape {e unit cs} (he : Escape e unit) (hquote : e ≠ ['"']) (hcs : Escaped cs) :
      Escaped ('\\' :: (e ++ cs))

theorem escapeQuotes_quote (cs : List Char) :
    escapeQuotes ('"' :: cs) = '\\' :: '"' :: escapeQuotes cs := rfl

theorem escapeQuotes_cons {c : Char} (hc : c ≠ '"') (cs : List Char) :
    escapeQuotes (c :: cs) = c :: escapeQuotes cs := by
  rw [escapeQuotes, List.flatMap_cons, if_neg hc]
  rfl

theorem escapeQuotes_append {cs ds : List Char} (hcs : '"' ∉ cs) :
    escapeQuotes (cs ++ ds) = cs ++ escapeQuotes ds := by
  induction cs with
  | nil => rfl
  | cons c cs ih =>
      rw [List.mem_cons, not_or] at hcs
      rw [List.cons_append, escapeQuotes_cons (Ne.symm hcs.1), ih hcs.2, List.cons_append]

/-- Only the escape of a quote has a quote in it. -/
theorem quote_not_mem {e : List Char} {unit : CodePoint} (he : Escape e unit) (hquote : e ≠ ['"']) :
    '"' ∉ e := by
  cases he with
  | short hc =>
      intro hmem
      rw [List.mem_singleton.mp hmem] at hquote
      exact hquote rfl
  | unicode hunit =>
      have hnone : hexDigit '"' = none := rfl
      simp only [codeUnit, Option.bind_eq_bind, Option.bind_eq_some_iff] at hunit
      obtain ⟨_, ha, _, hb, _, hc, _, hd, -⟩ := hunit
      intro hmem
      simp only [List.mem_cons, List.not_mem_nil, or_false] at hmem
      obtain heq | rfl | rfl | rfl | rfl := hmem
      · cases heq
      · cases hnone.symm.trans ha
      · cases hnone.symm.trans hb
      · cases hnone.symm.trans hc
      · cases hnone.symm.trans hd

/-- An escaped text is read up to its end. -/
theorem Escaped.chars {cs tail rest : List Char} {s : PyStr} (h : Escaped cs)
    (htail : Chars tail s rest) : ∃ s', Chars (escapeQuotes cs ++ tail) s' rest := by
  induction h with
  | nil => exact ⟨s, htail⟩
  | @char c cs hc _ ih =>
      obtain ⟨s', hs'⟩ := ih
      by_cases hquote : c = '"'
      · rw [hquote, escapeQuotes_quote]
        have hescape : Escape ['"'] (.scalar '"') := .short rfl
        have hchars := Chars.escape hescape hs'
        exact ⟨_, hchars⟩
      · rw [escapeQuotes_cons hquote]
        exact ⟨_, .plain (isPlain_iff.mpr ⟨hquote, hc⟩) hs'⟩
  | @escape e unit cs he hquote _ ih =>
      obtain ⟨s', hs'⟩ := ih
      rw [escapeQuotes_cons (by decide), escapeQuotes_append (quote_not_mem he hquote),
        List.cons_append, List.append_assoc]
      exact ⟨_, .escape he hs'⟩

/-- A character in front of an escaped text and its tail, other than those of an escaped
quote and that of the tail, is one of the text. -/
theorem of_escapeQuotes_cons {cs tail rest : List Char} {c d : Char} (hc : c ≠ d ∧ c ≠ '\\')
    (h : c :: rest = escapeQuotes cs ++ d :: tail) :
    ∃ cs', cs = c :: cs' ∧ c ≠ '"' ∧ rest = escapeQuotes cs' ++ d :: tail := by
  cases cs with
  | nil => exact absurd (List.cons.inj h).1 hc.1
  | cons x cs =>
      by_cases hx : x = '"'
      · rw [hx, escapeQuotes_quote] at h
        exact absurd (List.cons.inj h).1 hc.2
      · rw [escapeQuotes_cons hx] at h
        obtain ⟨rfl, hrest⟩ := List.cons.inj h
        exact ⟨cs, rfl, hx, hrest⟩

theorem ne_of_hexDigit {c : Char} {n : Nat} (h : hexDigit c = some n) : c ≠ '\x27' ∧ c ≠ '\\' := by
  constructor <;> rintro rfl <;> cases h

/-- An escape in front of an escaped text and its tail is one of the text, or that of a
quote or of a backslash. -/
theorem escape_of_escapeQuotes {e text cs tail : List Char} {unit : CodePoint} (he : Escape e unit)
    (h : e ++ text = escapeQuotes cs ++ '\x27' :: tail) :
    e = ['\\'] ∨ e ≠ ['"'] ∧ ∃ cs', cs = e ++ cs' ∧ text = escapeQuotes cs' ++ '\x27' :: tail := by
  cases he with
  | @short c char hchar =>
      by_cases hbackslash : c = '\\'
      · exact Or.inl (by rw [hbackslash])
      · have hapostrophe : c ≠ '\x27' := by
          rintro rfl
          cases hchar
        obtain ⟨cs', rfl, hquote, htext⟩ := of_escapeQuotes_cons ⟨hapostrophe, hbackslash⟩ h
        exact Or.inr ⟨by simpa using hquote, cs', rfl, htext⟩
  | unicode hunit =>
      simp only [codeUnit, Option.bind_eq_bind, Option.bind_eq_some_iff] at hunit
      obtain ⟨_, ha, _, hb, _, hc, _, hd, -⟩ := hunit
      obtain ⟨cs, rfl, -, h⟩ := of_escapeQuotes_cons (by decide) h
      obtain ⟨cs, rfl, -, h⟩ := of_escapeQuotes_cons (ne_of_hexDigit ha) h
      obtain ⟨cs, rfl, -, h⟩ := of_escapeQuotes_cons (ne_of_hexDigit hb) h
      obtain ⟨cs, rfl, -, h⟩ := of_escapeQuotes_cons (ne_of_hexDigit hc) h
      obtain ⟨cs, rfl, -, h⟩ := of_escapeQuotes_cons (ne_of_hexDigit hd) h
      exact Or.inr ⟨by simp, cs, rfl, h⟩

/-- A string with an escaped text in it is read up to the end of the text, or it ends
within it, at a quote whose backslash is escaped. -/
theorem chars_of_escapeQuotes {cs tail rest : List Char} {s : PyStr}
    (h : Chars (escapeQuotes cs ++ '\x27' :: tail) s rest) :
    Escaped cs ∨ ∃ cs', rest = escapeQuotes cs' ++ '\x27' :: tail := by
  generalize htext : escapeQuotes cs ++ '\x27' :: tail = text at h
  induction h generalizing cs with
  | close =>
      obtain ⟨cs', -, hquote, -⟩ := of_escapeQuotes_cons (by decide) htext.symm
      exact absurd rfl hquote
  | @plain c text s rest hc _ ih =>
      obtain ⟨hquote, hbackslash, hcontrol⟩ := isPlain_iff.mp hc
      cases cs with
      | nil => exact Or.inl .nil
      | cons x cs =>
          by_cases hx : x = '"'
          · rw [hx, escapeQuotes_quote] at htext
            exact absurd (List.cons.inj htext).1.symm hbackslash
          · rw [escapeQuotes_cons hx] at htext
            obtain ⟨rfl, hrest⟩ := List.cons.inj htext
            exact (ih hrest).imp_left (.char ⟨hbackslash, hcontrol⟩)
  | @escape e unit text s rest he htail ih =>
      cases cs with
      | nil => exact Or.inl .nil
      | cons x cs =>
          by_cases hx : x = '"'
          · rw [hx, escapeQuotes_quote] at htext
            have hescape := (List.cons.inj htext).2
            cases he with
            | short hc =>
                obtain ⟨rfl, hrest⟩ := List.cons.inj hescape
                rw [hx]
                exact (ih hrest).imp_left (.char (by decide))
            | unicode => exact absurd (List.cons.inj hescape).1 (by decide)
          · rw [escapeQuotes_cons hx] at htext
            obtain ⟨rfl, hescape⟩ := List.cons.inj htext
            obtain rfl | ⟨hquote, cs', rfl, hrest⟩ := escape_of_escapeQuotes he hescape.symm
            · -- two backslashes: a quote behind them ends the string
              cases cs with
              | nil => cases hescape
              | cons y cs =>
                  by_cases hy : y = '"'
                  · rw [hy, escapeQuotes_quote] at hescape
                    have htext : '"' :: (escapeQuotes cs ++ '\x27' :: tail) = text :=
                      (List.cons.inj hescape).2
                    rw [← htext] at htail
                    cases htail with
                    | close => exact Or.inr ⟨cs, rfl⟩
                    | plain hquote => exact absurd hquote (by decide)
                  · rw [escapeQuotes_cons hy] at hescape
                    obtain ⟨rfl, hrest⟩ := List.cons.inj hescape
                    exact (ih hrest).imp_left (.escape he (by decide))
            · exact (ih hrest.symm).imp_left (.escape he hquote)

/-! ## escaped messages -/

/-- The rest of a text in which quotes have been escaped. -/
def IsEscapedRest (tail rest : List Char) : Prop :=
  ∃ cs, rest = escapeQuotes cs ++ '\x27' :: tail

theorem IsEscapedRest.skip {tail rest : List Char} (h : IsEscapedRest tail rest) :
    IsEscapedRest tail (skip rest) := by
  obtain ⟨cs, rfl⟩ := h
  induction cs with
  | nil => exact ⟨[], skip_cons rfl tail⟩
  | cons c cs ih =>
      by_cases hquote : c = '"'
      · rw [hquote, escapeQuotes_quote]
        exact ⟨'"' :: cs, skip_cons rfl _⟩
      · rw [escapeQuotes_cons hquote]
        by_cases hspace : isWhitespace c = true
        · have hskip : Json.skip (c :: escapeQuotes cs ++ '\x27' :: tail) =
              Json.skip (escapeQuotes cs ++ '\x27' :: tail) := by simp [Json.skip, hspace]
          rw [hskip]
          exact ih
        · have hskip : Json.skip (c :: escapeQuotes cs ++ '\x27' :: tail) =
              c :: escapeQuotes cs ++ '\x27' :: tail := skip_cons (by simpa using hspace) _
          rw [hskip]
          exact ⟨c :: cs, by rw [escapeQuotes_cons hquote]⟩

/-- No quote comes next. -/
theorem IsEscapedRest.expect {tail rest rest' : List Char} {c : Char} (hc : c ≠ '\x27' ∧ c ≠ '\\')
    (h : IsEscapedRest tail rest) (hexpect : expect c rest = some rest') :
    c ≠ '"' ∧ IsEscapedRest tail rest' := by
  obtain ⟨cs, rfl⟩ := h
  unfold Json.expect at hexpect
  split at hexpect
  · next hhead =>
    obtain ⟨text, htext⟩ := List.head?_eq_some_iff.mp hhead
    rw [htext] at hexpect
    cases hexpect
    obtain ⟨cs', -, hquote, hrest⟩ := of_escapeQuotes_cons hc htext.symm
    exact ⟨hquote, cs', hrest⟩
  · cases hexpect

/-- No member comes next, but perhaps the end of an object. -/
theorem IsEscapedRest.closes {tail rest rest' : List Char} {fuel : Nat}
    (h : IsEscapedRest tail rest) (hcloses : Closes floatText fuel (Json.skip rest) rest') :
    IsEscapedRest tail rest' := by
  cases hcloses with
  | last hclose => exact (h.skip.expect (by decide) hclose).2
  | more _ hcomma hmore =>
      have hrest := (h.skip.expect (by decide) hcomma).2
      cases fuel with
      | zero => cases hmore
      | succ fuel =>
          cases scanMembers_iff.mp hmore with
          | last hquote => exact absurd rfl (hrest.skip.expect (by decide) hquote).1
          | more hquote => exact absurd rfl (hrest.skip.expect (by decide) hquote).1

theorem chars_plain {cs rest : List Char} (hcs : ∀ c ∈ cs, isPlain c = true) :
    Chars (cs ++ '"' :: rest) (cs.map .scalar) rest :=
  scanChars_iff.mp (scanChars_plain hcs rest)

theorem chars_plain_append {cs text rest : List Char} (hcs : ∀ c ∈ cs, isPlain c = true) :
    (∃ s, Chars (cs ++ text) s rest) ↔ ∃ s, Chars text s rest := by
  induction cs with
  | nil => exact Iff.rfl
  | cons c cs ih =>
      have hc := hcs c List.mem_cons_self
      rw [← ih fun d hd => hcs d (List.mem_cons_of_mem c hd), List.cons_append]
      constructor
      · rintro ⟨s, h⟩
        generalize htext : c :: (cs ++ text) = cs' at h
        cases h with
        | close => exact absurd ((List.cons.inj htext).1 ▸ hc) (by decide)
        | plain _ h => exact ⟨_, (List.cons.inj htext).2 ▸ h⟩
        | escape => exact absurd ((List.cons.inj htext).1 ▸ hc) (by decide)
      · rintro ⟨s, h⟩
        exact ⟨_, .plain hc h⟩

/-- **A text whose quotes have been escaped** leaves a reply JSON if its backslashes
begin escapes and it has no control characters. -/
theorem isReply_escaped {before cs after : List Char} (hid : IsValueText floatText id idValue)
    (hbefore : ∀ c ∈ before, isPlain c = true) (hafter : ∀ c ∈ after, isPlain c = true) :
    IsReply floatText code (before ++ (escapeQuotes cs ++ '\x27' :: after)) id ↔ Escaped cs := by
  have hmessage (tail : List Char) :
      messageText (before ++ (escapeQuotes cs ++ '\x27' :: after)) ++ tail =
        '"' :: ("message".toList ++ '"' :: ':' :: '"' :: (before ++ (escapeQuotes cs ++ '\x27' ::
          (after ++ '"' :: '\x7d' :: '\x7d' :: tail)))) := by
    simp only [messageText, List.cons_append, List.append_assoc, List.nil_append]
  rw [isReply_message hid, inMessage, isJson_obj, hmessage, IsMembers]
  simp only [membersTo_obj (by decide : ∀ c ∈ "error".toList, isPlain c = true),
    membersTo_str (by decide : ∀ c ∈ "message".toList, isPlain c = true), chars_plain_append hbefore]
  constructor
  · rintro ⟨rest, ⟨mid, ⟨inner, ⟨s, hchars⟩, f, hinner⟩, g, hmid⟩, hrest⟩
    obtain hescaped | hearly := chars_of_escapeQuotes hchars
    · exact hescaped
    · -- what follows an early end closes no object without an apostrophe in its way
      obtain ⟨cs', hcs'⟩ := (IsEscapedRest.closes (IsEscapedRest.closes hearly hinner) hmid).skip
      rw [hrest] at hcs'
      cases cs' <;> simp [escapeQuotes] at hcs'
  · intro hescaped
    have htail : Chars ('\x27' :: (after ++ '"' :: '\x7d' :: '\x7d' :: ['\n']))
        (('\x27' :: after).map .scalar) ('\x7d' :: '\x7d' :: ['\n']) :=
      chars_plain (List.forall_mem_cons.mpr ⟨by decide, hafter⟩)
    exact ⟨['\n'], ⟨'\x7d' :: ['\n'], ⟨_, hescaped.chars htail, 0, .last rfl⟩, 0, .last rfl⟩, rfl⟩

end ErrorResponses

end Web3Proxy
