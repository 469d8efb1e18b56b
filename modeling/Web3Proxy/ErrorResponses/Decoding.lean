import Web3Proxy.ErrorResponses.Spec
import Web3Proxy.Lib.Json.Weight

/-!
# Web3Proxy.ErrorResponses.Decoding

What a client's JSON decoder makes of the error replies.  The message and the id are
pasted into the template as they are: `decodesBack_iff` says which of them come back.
-/

namespace Web3Proxy

open Bytes Http PyStr Json

namespace ErrorResponses

/-! ## the text of a reply -/

/-- The member `message`, and the end of the reply. -/
def messageText (message : List Char) : List Char :=
  '"' :: ("message".toList ++ '"' :: ':' :: '"' :: (message ++ ['"', '\x7d', '\x7d']))

/-- The error, and the end of the reply. -/
def errorValue (code : Int) (message : List Char) : List Char :=
  '\x7b' :: '"' :: ("code".toList ++ '"' :: ':' :: ((toString code).toList ++ ',' ::
    messageText message))

/-- The reply from the key `error` on. -/
def errorText (code : Int) (message : List Char) : List Char :=
  '"' :: ("error".toList ++ '"' :: ':' :: errorValue code message)

/-- `web3_json(code, message, _id)`, for texts without surrogates. -/
def replyText (code : Int) (message id : List Char) : List Char :=
  '\x7b' :: '"' :: ("jsonrpc".toList ++ '"' :: ':' :: '"' :: ("2.0".toList ++ '"' :: ',' ::
    '"' :: ("id".toList ++ '"' :: ':' :: (id ++ ',' :: errorText code message))))

theorem web3Json_eq (code : Int) (message id : List Char) :
    web3Json code (message.map .scalar) (id.map .scalar) =
      (replyText code message id).map .scalar := by
  have hid : "\x7b\"jsonrpc\":\"2.0\",\"id\":".toList = '\x7b' :: '"' :: ("jsonrpc".toList ++
      '"' :: ':' :: '"' :: ("2.0".toList ++ '"' :: ',' :: '"' :: ("id".toList ++ ['"', ':']))) := by
    decide +kernel
  have hcode : ",\"error\":\x7b\"code\":".toList = ',' :: '"' :: ("error".toList ++ '"' :: ':' ::
      '\x7b' :: '"' :: ("code".toList ++ ['"', ':'])) := by
    decide +kernel
  have hmessage : ",\"message\":\"".toList =
      ',' :: '"' :: ("message".toList ++ ['"', ':', '"']) := by
    decide +kernel
  have hend : "\"\x7d\x7d".toList = ['"', '\x7d', '\x7d'] := by decide +kernel
  unfold web3Json ofString replyText errorText errorValue messageText
  simp only [String.toList_append, hid, hcode, hmessage, hend]
  generalize "jsonrpc".toList = jsonrpcKey, "2.0".toList = version, "id".toList = idKey,
    "error".toList = errorKey, "code".toList = codeKey, "message".toList = messageKey
  simp only [List.map_append, List.map_cons, List.map_nil, List.append_assoc, List.cons_append,
    List.nil_append]

/-- The length of the part with the error: its template has 31 characters. -/
theorem length_errorText (code : Int) (message : List Char) :
    (errorText code message).length = 31 + (toString code).toList.length + message.length := by
  have herror : "error".toList.length = 5 := by decide
  have hcode : "code".toList.length = 4 := by decide
  have hmessage : "message".toList.length = 7 := by decide
  simp only [errorText, errorValue, messageText, List.length_append, List.length_cons,
    List.length_nil, herror, hcode, hmessage]
  omega

theorem length_replyText (code : Int) (message id : List Char) :
    (replyText code message id).length =
      54 + id.length + (toString code).toList.length + message.length := by
  have hjsonrpc : "jsonrpc".toList.length = 7 := by decide
  have hversion : "2.0".toList.length = 3 := by decide
  have hid : "id".toList.length = 2 := by decide
  simp only [replyText, List.length_append, List.length_cons, length_errorText, hjsonrpc,
    hversion, hid]
  omega

/-! ## what the decoder reads -/

section Reading

variable {floatText : String → String} {fuel : Nat} {code : Int} {message id rest : List Char}
  {idValue : Json}

/-- The text of the id is that of one value. -/
structure IsValueText (floatText : String → String) (id : List Char) (value : Json) : Prop where
  starts : ∀ rest, Starts (id ++ rest)
  scan : ∀ fuel rest,
    scanOnce floatText (fuel + 1) (id ++ ',' :: rest) = some (value, ',' :: rest)

theorem isValueText_null : IsValueText floatText "null".toList .null where
  starts _ := ⟨'n', _, rfl, rfl⟩
  scan _ _ := scanOnce_null floatText

theorem isValueText_int (n : Int) : IsValueText floatText (toString n).toList (.int n) where
  starts rest := starts_toString n rest
  scan _ rest := scanOnce_int floatText n (by simp [EndsNumber])

/-- The first two members of a reply. -/
def leading (idValue : Json) : List (PyStr × Json) :=
  [(ofString "jsonrpc", .str (ofString "2.0")), (ofString "id", idValue)]

/-- The members of the error. -/
def errorMembers (code : Int) (message : PyStr) : List (PyStr × Json) :=
  [(ofString "code", .int code), (ofString "message", .str message)]

/-- The members that come before `error` are read, and then the rest. -/
theorem scanOnce_replyText (hid : IsValueText floatText id idValue) :
    scanOnce floatText (fuel + 4) (replyText code message id ++ rest) =
      (scanMembers floatText (fuel + 1) (errorText code message ++ rest)).map fun r =>
        (.obj (dict (leading idValue ++ r.1)), r.2) := by
  have hstarts : Starts (errorText code message ++ rest) := ⟨'"', _, rfl, rfl⟩
  simp only [replyText, List.cons_append, List.append_assoc]
  rw [scanOnce_obj, scanMembers_cons floatText (by decide) ⟨'"', _, rfl, rfl⟩
    (scanOnce_str floatText (by decide)) ⟨'"', _, rfl, rfl⟩,
    scanMembers_cons floatText (by decide) (hid.starts _) (hid.scan _ _) hstarts]
  cases scanMembers floatText (fuel + 1) (errorText code message ++ rest) with
  | none => rfl
  | some r => rfl

/-- A plain message is read as it is. -/
theorem scanOnce_errorValue (hmessage : ∀ c ∈ message, isPlain c = true) :
    scanOnce floatText (fuel + 4) (errorValue code message ++ rest) =
      some (.obj (dict (errorMembers code (message.map .scalar))), '\x7d' :: rest) := by
  have hcode (more : List Char) : scanOnce floatText (fuel + 2) ((toString code).toList ++ ',' :: more) =
      some (.int code, ',' :: more) := (isValueText_int code).scan _ _
  simp only [errorValue, messageText, List.cons_append, List.append_assoc, List.nil_append]
  rw [scanOnce_obj, scanMembers_cons floatText (by decide) (starts_toString code _) (hcode _)
    ⟨'"', _, rfl, rfl⟩, scanMembers_last floatText (by decide) ⟨'"', _, rfl, rfl⟩
    (scanOnce_str floatText hmessage)]
  rfl

theorem scanMembers_errorText (hmessage : ∀ c ∈ message, isPlain c = true) :
    scanMembers floatText (fuel + 5) (errorText code message ++ rest) =
      some ([(ofString "error", .obj (dict (errorMembers code (message.map .scalar))))], rest) := by
  simp only [errorText, List.cons_append, List.append_assoc]
  exact scanMembers_last floatText (by decide) ⟨'\x7b', _, rfl, rfl⟩ (scanOnce_errorValue hmessage)

/-- The decoder reads the first two members, and then the rest. -/
theorem decode_replyText_eq (hid : IsValueText floatText id idValue) :
    ∃ fuel, decode floatText (replyText code message id ++ ['\n']) =
      (scanMembers floatText (fuel + 5) (errorText code message ++ ['\n'])).bind fun r =>
        if skip r.2 = [] then some (.obj (dict (leading idValue ++ r.1))) else none := by
  have hskip : skip (replyText code message id ++ ['\n']) = replyText code message id ++ ['\n'] :=
    Starts.skip ⟨'\x7b', _, rfl, rfl⟩
  have hlength := length_replyText code message id
  obtain ⟨fuel, hfuel⟩ : ∃ fuel, 2 * (replyText code message id ++ ['\n']).length + 1 = fuel + 8 :=
    ⟨2 * (replyText code message id).length - 5, by simp; omega⟩
  refine ⟨fuel, ?_⟩
  rw [Json.decode, hskip, hfuel, scanOnce_replyText hid]
  cases scanMembers floatText (fuel + 5) (errorText code message ++ ['\n']) with
  | none => rfl
  | some r => rfl

/-- What is read from `error` on has not the room for more than the error. -/
theorem decode_replyText (hid : IsValueText floatText id idValue) {value : Json}
    (h : decode floatText (replyText code message id ++ ['\n']) = some value) :
    ∃ more, value = .obj (dict (leading idValue ++ more)) ∧
      membersWeight more ≤ 31 + (toString code).toList.length + message.length := by
  obtain ⟨fuel, hdecode⟩ := @decode_replyText_eq floatText code message id idValue hid
  rw [hdecode, Option.bind_eq_some_iff] at h
  obtain ⟨⟨more, rest⟩, hscan, h⟩ := h
  have hweight := (weighed _).members hscan
  have hfeed : visible ['\n'] = 0 := rfl
  have hvisible := visible_le (errorText code message)
  rw [visible_append, hfeed] at hweight
  rw [length_errorText] at hvisible
  dsimp only at h
  split at h
  · exact ⟨more, (Option.some.inj h).symm, by omega⟩
  · cases h

theorem decode_replyText_plain (hid : IsValueText floatText id idValue)
    (hmessage : ∀ c ∈ message, isPlain c = true) :
    decode floatText (replyText code message id ++ ['\n']) =
      some (.obj (dict (leading idValue ++
        [(ofString "error", .obj (dict (errorMembers code (message.map .scalar))))]))) := by
  obtain ⟨fuel, hdecode⟩ := @decode_replyText_eq floatText code message id idValue hid
  rw [hdecode, scanMembers_errorText hmessage]
  rfl

end Reading

/-! ## what a client is told -/

/-- The member `id` of a reply. -/
def idJson : Option RequestId → Json
  | none => .null
  | some (.int n) => .int n
  | some (.str s) => .str s

/-- The object says what the reply was made from. -/
structure Reports (code : Int) (message : PyStr) (id : Option RequestId)
    (members : List (PyStr × Json)) : Prop where
  jsonrpc : get? members "jsonrpc" = some (.str (ofString "2.0"))
  error : ∃ error, get? members "error" = some (.obj error) ∧
    get? error "code" = some (.int code) ∧ get? error "message" = some (.str message)
  id : get? members "id" = some (idJson id)

/-- `bad_request_web3(code, message, _id)` returns one response, whose body has the
length that the header gives and is the JSON text of an object that reports the error. -/
def DecodesBack (floatText : String → String) (now : String) (code : Int) (message : PyStr)
    (id : Option RequestId) : Prop :=
  (web3Json code message (formatId id)).isEncodable = true ∧
    ∃ body text members, Carries body (badRequestWeb3 now code message id) ∧
      Bytes.decode body = some text ∧ loads floatText text = some (.obj members) ∧
      Reports code message id members

/-- The ids that come back: none, and integers other than 0. -/
def ReturnsId (id : Option RequestId) : Prop := ∀ i ∈ id, ∃ n, n ≠ 0 ∧ i = .int n

section

variable {floatText : String → String} {code : Int} {message : PyStr} {id : Option RequestId}
  {members : List (PyStr × Json)}

/-- An error has its code, its message, and the template around them. -/
theorem membersWeight_error {error : List (PyStr × Json)}
    (hcode : get? error "code" = some (.int code))
    (hmessage : get? error "message" = some (.str message)) :
    21 + (toString code).toList.length + textWeight message ≤ membersWeight error := by
  have hle : membersWeight (errorMembers code message) ≤ membersWeight error := by
    apply membersWeight_le_of_lookup
    · exact (by decide : [ofString "code", ofString "message"].Nodup)
    · simpa [errorMembers] using ⟨hcode, hmessage⟩
  have hkeys : textWeight (ofString "code") = 4 ∧ textWeight (ofString "message") = 7 := by decide
  simp only [errorMembers, membersWeight, weight, hkeys.1, hkeys.2] at hle
  omega

/-- So have the id and the error together. -/
theorem membersWeight_idError {error : List (PyStr × Json)} {value : Json}
    (hid : get? members "id" = some value) (herror : get? members "error" = some (.obj error))
    (hcode : get? error "code" = some (.int code))
    (hmessage : get? error "message" = some (.str message)) :
    37 + weight value + (toString code).toList.length + textWeight message ≤
      membersWeight members := by
  have hle : membersWeight [(ofString "id", value), (ofString "error", .obj error)] ≤
      membersWeight members := by
    apply membersWeight_le_of_lookup
    · exact (by decide : [ofString "id", ofString "error"].Nodup)
    · simpa using ⟨hid, herror⟩
  have hkeys : textWeight (ofString "id") = 2 ∧ textWeight (ofString "error") = 5 := by decide
  have hweight := membersWeight_error hcode hmessage
  simp only [membersWeight, weight, hkeys.1, hkeys.2] at hle
  omega

/-- And the whole reply. -/
theorem Reports.membersWeight (h : Reports code message id members) :
    53 + weight (idJson id) + (toString code).toList.length + textWeight message ≤
      Json.membersWeight members := by
  obtain ⟨error, herror, hcode, hmessage⟩ := h.error
  have hle : Json.membersWeight [(ofString "jsonrpc", .str (ofString "2.0")),
      (ofString "id", idJson id), (ofString "error", .obj error)] ≤ Json.membersWeight members := by
    apply membersWeight_le_of_lookup
    · exact (by decide : [ofString "jsonrpc", ofString "id", ofString "error"].Nodup)
    · simpa using ⟨h.jsonrpc, h.id, herror⟩
  have hkeys : textWeight (ofString "jsonrpc") = 7 ∧ textWeight (ofString "2.0") = 3 ∧
      textWeight (ofString "id") = 2 ∧ textWeight (ofString "error") = 5 := by decide
  have hweight := membersWeight_error hcode hmessage
  simp only [Json.membersWeight, weight, hkeys.1, hkeys.2.1, hkeys.2.2.1, hkeys.2.2.2] at hle
  omega

end

section

variable {floatText : String → String} {now : HttpDate} {code : Int} {message : String}
  {id : Option RequestId} {idText : List Char}

/-- The body of a reply as a text. -/
theorem carries_replyText (now : HttpDate) (code : Int) (message : String)
    (hid : formatId id = idText.map .scalar) :
    Carries (str (String.ofList (replyText code message.toList idText ++ ['\n'])))
      (badRequestWeb3 now.text code (ofString message) id) := by
  have hcarries := carries_badRequestWeb3 now.legal code (ofString message) id
  have hjson : web3Json code (ofString message) (formatId id) =
      ofString (String.ofList (replyText code message.toList idText)) := by
    rw [hid, ofString, web3Json_eq, ofString, String.toList_ofList]
  rw [hjson, utf8_ofString, ← str_append] at hcarries
  rw [String.ofList_append]
  exact hcarries

theorem loads_replyText {message : List Char} :
    loads floatText (String.ofList (replyText code message idText ++ ['\n'])) =
      Json.decode floatText (replyText code message idText ++ ['\n']) := by
  rw [loads, String.toList_ofList, if_neg]
  rw [replyText, List.cons_append, List.head?_cons]
  decide

/-- What comes back is what the decoder makes of the text. -/
theorem decodesBack_iff_decode (hid : formatId id = idText.map .scalar) :
    DecodesBack floatText now.text code (ofString message) id ↔
      ∃ members, Json.decode floatText (replyText code message.toList idText ++ ['\n']) =
        some (.obj members) ∧ Reports code (ofString message) id members := by
  have hcarries := carries_replyText now code message hid
  constructor
  · rintro ⟨-, body, text, members, hbody, htext, hloads, hreports⟩
    rw [hbody.unique hcarries, decode_str, Option.some.injEq] at htext
    rw [← htext, loads_replyText] at hloads
    exact ⟨members, hloads, hreports⟩
  · rintro ⟨members, hdecode, hreports⟩
    refine ⟨?_, _, _, members, hcarries, decode_str _, loads_replyText.trans hdecode, hreports⟩
    rw [hid, ofString, web3Json_eq]
    simp [isEncodable, CodePoint.isScalar]

/-- A reply that reports everything has no room for an escape. -/
theorem Reports.weight_le {members : List (PyStr × Json)}
    (hdecode : Json.decode floatText (replyText code message.toList idText ++ ['\n']) =
      some (.obj members)) (h : Reports code (ofString message) id members) :
    weight (idJson id) + textWeight (ofString message) ≤ idText.length + message.toList.length := by
  have hweight := weight_decode hdecode
  have hmembers := h.membersWeight
  have hlength := visible_le (replyText code message.toList idText)
  have hfeed : visible ['\n'] = 0 := rfl
  rw [length_replyText] at hlength
  rw [visible_append, hfeed, weight] at hweight
  omega

/-- No id other than `None` is read from `null`. -/
theorem not_reports_null {members : List (PyStr × Json)}
    (hdecode : Json.decode floatText (replyText code message.toList "null".toList ++ ['\n']) =
      some (.obj members)) (hnull : idJson id ≠ .null) :
    ¬ Reports code (ofString message) id members := by
  intro h
  obtain ⟨more, heq, hmore⟩ := decode_replyText isValueText_null hdecode
  obtain ⟨error, herror, hcode, hmessage⟩ := h.error
  obtain rfl : members = dict (leading .null ++ more) := by simpa using heq
  have hid := h.id
  rw [get?_dict_append, Option.or_eq_some_iff] at hid herror
  obtain herror | ⟨-, herror⟩ := herror
  · obtain hid | ⟨-, hid⟩ := hid
    · -- then the id and the error both come behind `null`, which are too long for that
      have hlong := membersWeight_idError hid herror hcode hmessage
      have hdict := membersWeight_dict more
      have htext := length_le_textWeight (ofString message)
      rw [ofString, List.length_map] at htext
      rw [ofString] at hlong
      omega
    · exact hnull (Option.some.inj hid).symm
  · cases herror

/-- The ids that come back are pasted as the texts of their values. -/
theorem ReturnsId.text (h : ReturnsId id) : ∃ idText, formatId id = idText.map .scalar ∧
    IsValueText floatText idText (idJson id) ∧ idText.length = weight (idJson id) := by
  cases id with
  | none => exact ⟨"null".toList, rfl, isValueText_null, rfl⟩
  | some i =>
      obtain ⟨n, hn, rfl⟩ := h i rfl
      have hformat : formatId (some (.int n)) = ofString (toString n) := by
        rw [formatId, if_neg hn]
      exact ⟨(toString n).toList, hformat, isValueText_int n, rfl⟩

/-- The ids that do not come back are pasted as `null`, or without their quotes. -/
theorem text_of_not_returnsId (h : ¬ ReturnsId id) (hencodable : (formatId id).isEncodable = true) :
    idJson id ≠ .null ∧ ∃ idText, formatId id = idText.map .scalar ∧
      (idText = "null".toList ∨ idText.length < weight (idJson id)) := by
  cases id with
  | none => exact absurd (fun i hi => by cases hi) h
  | some i =>
      cases i with
      | int n =>
          have hn : n = 0 := by
            by_contra hn
            exact h fun i hi => ⟨n, hn, (Option.some.inj hi).symm⟩
          exact ⟨by simp [idJson], "null".toList, by rw [hn]; rfl, Or.inl rfl⟩
      | str s =>
          refine ⟨by simp [idJson], ?_⟩
          by_cases hs : s = []
          · exact ⟨"null".toList, by rw [hs]; rfl, Or.inl rfl⟩
          · have hformat : formatId (some (.str s)) = s := by rw [formatId, if_neg hs]
            rw [hformat] at hencodable ⊢
            have hweight := length_le_textWeight s
            have hlength := congrArg List.length (ofString_asString hencodable)
            rw [ofString, List.length_map] at hlength
            refine ⟨s.asString.toList, (ofString_asString hencodable).symm, Or.inr ?_⟩
            rw [idJson, weight]
            omega

/-- The members of a reply, when nothing in it needs an escape. -/
theorem reports_plain (code : Int) (message : String) (id : Option RequestId) :
    Reports code (ofString message) id (dict (leading (idJson id) ++
      [(ofString "error", .obj (dict (errorMembers code (message.toList.map .scalar))))])) := by
  have herror : get? (dict (leading (idJson id) ++
      [(ofString "error", .obj (dict (errorMembers code (message.toList.map .scalar))))])) "error" =
      some (.obj (dict (errorMembers code (message.toList.map .scalar)))) := by
    rw [get?_dict]
    rfl
  constructor
  · rw [get?_dict]
    rfl
  · refine ⟨_, herror, ?_, ?_⟩
    · rw [get?_dict]
      rfl
    · rw [get?_dict]
      rfl
  · rw [get?_dict]
    rfl

/-- **The message and the id of an error reply come back** exactly when every character
of the message stands for itself in a JSON string and the id is `None` or an integer
other than 0. -/
theorem decodesBack_iff (floatText : String → String) (now : HttpDate) (code : Int)
    (message : String) (id : Option RequestId) :
    DecodesBack floatText now.text code (ofString message) id ↔
      (∀ c ∈ message.toList, isPlain c = true) ∧ ReturnsId id := by
  constructor
  · intro h
    have hlong := length_le_textWeight (ofString message)
    rw [ofString, List.length_map] at hlong
    by_cases hreturns : ReturnsId id
    · obtain ⟨idText, hid, -, hlength⟩ := @ReturnsId.text floatText id hreturns
      obtain ⟨members, hdecode, hreports⟩ := (decodesBack_iff_decode hid).mp h
      have hle := hreports.weight_le hdecode
      have hmessage : textWeight (message.toList.map .scalar) ≤ message.toList.length := by
        show textWeight (ofString message) ≤ _
        omega
      exact ⟨isPlain_of_textWeight hmessage, hreturns⟩
    · have hencodable : (formatId id).isEncodable = true := by
        have hjson := h.1
        simp only [web3Json, isEncodable_append, Bool.and_eq_true] at hjson
        exact hjson.1.1.1.2
      obtain ⟨hnull, idText, hid, htext⟩ := text_of_not_returnsId hreturns hencodable
      obtain ⟨members, hdecode, hreports⟩ := (decodesBack_iff_decode hid).mp h
      obtain rfl | hlength := htext
      · exact absurd hreports (not_reports_null hdecode hnull)
      · have hle := hreports.weight_le hdecode
        rw [ofString] at hle
        omega
  · rintro ⟨hplain, hreturns⟩
    obtain ⟨idText, hid, hvalue, -⟩ := @ReturnsId.text floatText id hreturns
    rw [decodesBack_iff_decode hid]
    exact ⟨_, decode_replyText_plain hvalue hplain, reports_plain code message id⟩

/-- The reply to a method named `a"b` is no JSON. -/
theorem not_decodesBack : ¬ ∀ (floatText : String → String) (now : HttpDate) (code : Int)
    (message : String) (id : Option RequestId),
    DecodesBack floatText now.text code (ofString message) id := by
  intro h
  have hback := h id ⟨"", by decide⟩ (-32601) "Unsupported method 'a\"b'" (some (.int 1))
  have hid : formatId (some (.int 1)) = "1".toList.map .scalar := by decide +kernel
  obtain ⟨members, hdecode, -⟩ := (decodesBack_iff_decode hid).mp hback
  have hnone : (Json.decode id (replyText (-32601) "Unsupported method 'a\"b'".toList "1".toList ++
      ['\n'])).isNone = true := by decide +kernel
  rw [hdecode] at hnone
  cases hnone

end

end ErrorResponses

end Web3Proxy
