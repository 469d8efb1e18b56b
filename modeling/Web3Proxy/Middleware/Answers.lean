import Web3Proxy.ErrorResponses.Pasting
import Web3Proxy.JSONRPCValidators.Spec
import Web3Proxy.Middleware.Replies
import Web3Proxy.Middleware.Tokens
import Web3Proxy.RPCResponse.Spec

/-!
# Web3Proxy.Middleware.Answers

Which requests get an answer from the readers of the content and of the method
(`answered_iff`): `failure` takes each reply apart again, and raises when something that
the client sent has left the reply without a JSON body.
-/

namespace Web3Proxy

open Py Bytes Http PyStr Json ErrorResponses

/-- `AcceptJSONRPCContentReader` and `AcceptMethodRequestReader`, chained. -/
def readContent (cfg : ReaderConfig) (call : CallPermissions) : Reader :=
  AcceptJSONRPCContentReader.readRequest cfg
    (some (AcceptMethodRequestReader.readRequest cfg call none))

/-- The request goes on, or an error reply that has been made for it goes back. -/
inductive Answered (cfg : ReaderConfig) (req : RPCRequest) : ReadOutcome → Prop where
  | success (method : String) (id : Option RequestId) (priority : Int) (pool : Option String) :
      Answered cfg req (.success { req with method, id, priority, constantPool := pool })
  | web3 (method : String) (id : Option RequestId) (code : Int) (message : PyStr) :
      Answered cfg req (.failure (badRequestWeb3 cfg.now code message id) { req with method, id })
  | http (method : String) (id : Option RequestId) :
      Answered cfg req (.failure httpInternalServerError { req with method, id })

/-! ## replies -/

/-- The characters of the text stand for themselves in a JSON string. -/
def IsPlainText (s : String) : Prop := ∀ c ∈ s.toList, isPlain c = true

instance (s : String) : Decidable (IsPlainText s) :=
  inferInstanceAs (Decidable (∀ c ∈ s.toList, isPlain c = true))

theorem IsPlainText.append {s t : String} (hs : IsPlainText s) (ht : IsPlainText t) :
    IsPlainText (s ++ t) := by
  intro c hc
  rw [String.toList_append, List.mem_append] at hc
  exact hc.elim (hs c) (ht c)

/-- The id may be pasted into a reply: as an id that is a string it is so without quotes,
and must be JSON as the last value of an object. -/
def PastesId (floatText : String → String) (id : Option RequestId) : Prop :=
  ∀ s, id = some (.str s) → s ≠ [] →
    ∃ cs : List Char, s = cs.map .scalar ∧ IsJson floatText (asLastValue cs)

section Replies

variable {cfg : ReaderConfig} {floatText : String → String} {req orig : RPCRequest} {code : Int}
  {message : PyStr}

theorem failure_httpInternalServerError :
    failure cfg httpInternalServerError req = .failure httpInternalServerError req := by
  obtain ⟨r, hr⟩ := RPCResponse.new_httpInternalServerError cfg.text.loads
  rw [failure, hr]

theorem not_answered_raise (e : PyError) : ¬ Answered cfg orig (.raise e) := by
  intro h
  cases h

/-- The reply goes back, or none is made. -/
inductive Failed (cfg : ReaderConfig) (orig req : RPCRequest) : ReadOutcome → Prop where
  | reply {errRes : Bytes} (h : Answered cfg orig (.failure errRes req)) :
      Failed cfg orig req (.failure errRes req)
  | raise (e : PyError) : Failed cfg orig req (.raise e)

theorem failed_failureWeb3 (cfg : ReaderConfig) (orig : RPCRequest) (code : Int) (message : PyStr)
    (method : String) (id : Option RequestId) :
    Failed cfg orig { orig with method, id }
      (failureWeb3 cfg code message { orig with method, id }) := by
  rw [failureWeb3_eq]
  split
  · rw [failure]
    split
    · exact .raise _
    · exact .reply (.web3 method id code message)
  · exact .raise _

/-- A reply goes back if its body is JSON. -/
theorem answered_failureWeb3 (hloads : cfg.text.loads = Json.loads floatText)
    (hnow : IsFieldText cfg.now) {method : String} {id : Option RequestId} :
    Answered cfg orig (failureWeb3 cfg code message { orig with method, id }) ↔
      ∃ chars idChars : List Char, message = chars.map .scalar ∧
        formatId id = idChars.map .scalar ∧ IsReply floatText code chars idChars := by
  by_cases hencodable : (web3Json code message (formatId id)).isEncodable = true
  · have hparts := hencodable
    simp only [web3Json, isEncodable_append, Bool.and_eq_true] at hparts
    obtain ⟨chars, hmessage⟩ := isEncodable_iff.mp hparts.1.2
    obtain ⟨idChars, hid⟩ := isEncodable_iff.mp hparts.1.1.1.2
    have hjson : web3Json code message (formatId id) =
        ofString (String.ofList (replyText code chars idChars)) := by
      rw [hmessage, hid, web3Json_eq, ofString, String.toList_ofList]
    have hbody : cfg.text.loads (String.ofList (replyText code chars idChars) ++ "\n") =
        Json.decode floatText (replyText code chars idChars ++ ['\n']) := by
      have hfeed : "\n" = String.ofList ['\n'] := rfl
      rw [hloads, hfeed, ← String.ofList_append, loads_replyText]
    have hnew := @RPCResponse.new_badRequestWeb3 cfg.now cfg.text.loads hnow code message id _ hjson
    rw [failureWeb3_eq, if_pos hencodable, failure, hnew, hbody]
    constructor
    · intro h
      refine ⟨chars, idChars, hmessage, hid, ?_⟩
      rw [IsReply, IsJson]
      cases hdecode : Json.decode floatText (replyText code chars idChars ++ ['\n']) with
      | none =>
          rw [hdecode] at h
          exact absurd h (not_answered_raise _)
      | some value => rfl
    · rintro ⟨chars', idChars', hmessage', hid', hreply⟩
      obtain rfl := map_scalar_injective (hmessage'.symm.trans hmessage)
      obtain rfl := map_scalar_injective (hid'.symm.trans hid)
      obtain ⟨value, hvalue⟩ := Option.isSome_iff_exists.mp hreply
      rw [hvalue]
      exact .web3 method id code message
  · rw [failureWeb3_eq, if_neg hencodable]
    constructor
    · intro h
      exact absurd h (not_answered_raise _)
    · rintro ⟨chars, idChars, rfl, hid, -⟩
      have hchars := isEncodable_iff.mpr ⟨chars, rfl⟩
      have hidChars := isEncodable_iff.mpr ⟨idChars, hid⟩
      exact absurd (by simp [web3Json, hchars, hidChars, isEncodable_ofString]) hencodable

theorem formatId_plain {id : Option RequestId} (h : ∀ s, id = some (.str s) → s = []) :
    ∃ idText idValue, formatId id = idText.map .scalar ∧ IsValueText floatText idText idValue := by
  cases id with
  | none => exact ⟨_, _, rfl, isValueText_null⟩
  | some i =>
      cases i with
      | int n =>
          by_cases hn : n = 0
          · exact ⟨_, _, by rw [formatId, if_pos hn]; rfl, isValueText_null⟩
          · exact ⟨_, _, by rw [formatId, if_neg hn]; rfl, isValueText_int n⟩
      | str s => exact ⟨_, _, by rw [h s rfl]; rfl, isValueText_null⟩

/-- A reply of the proxy's own words goes back for every id that may be pasted. -/
theorem answered_plain (hloads : cfg.text.loads = Json.loads floatText)
    (hnow : IsFieldText cfg.now) {s : String} (hs : IsPlainText s) {method : String}
    {id : Option RequestId} :
    Answered cfg orig (failureWeb3 cfg code (ofString s) { orig with method, id }) ↔
      PastesId floatText id := by
  rw [answered_failureWeb3 hloads hnow]
  by_cases hid : ∀ s, id = some (.str s) → s = []
  · obtain ⟨idText, idValue, hformat, hvalue⟩ := @formatId_plain floatText id hid
    constructor
    · exact fun _ s hs hne => absurd (hid s hs) hne
    · exact fun _ => ⟨s.toList, idText, rfl, hformat, isReply_plain hvalue hs⟩
  · simp only [not_forall] at hid
    obtain ⟨text, rfl, htext⟩ := hid
    have hformat : formatId (some (.str text)) = text := by rw [formatId, if_neg htext]
    rw [hformat]
    constructor
    · rintro ⟨chars, idChars, hmessage, rfl, hreply⟩ s' hs' -
      obtain rfl := map_scalar_injective hmessage
      cases hs'
      exact ⟨idChars, rfl, (isReply_id hs).mp hreply⟩
    · intro hpastes
      obtain ⟨idChars, rfl, hjson⟩ := hpastes text rfl htext
      exact ⟨s.toList, idChars, rfl, rfl, (isReply_id hs).mpr hjson⟩

/-- The replies of the reader of the content have no id. -/
theorem answered_message (hloads : cfg.text.loads = Json.loads floatText)
    (hnow : IsFieldText cfg.now) (hid : orig.id = none) :
    Answered cfg orig (failureWeb3 cfg code message orig) ↔
      ∃ chars : List Char, message = chars.map .scalar ∧
        IsReply floatText code chars "null".toList := by
  have horig : { orig with method := orig.method, id := none } = orig := by rw [← hid]
  have hanswered := @answered_failureWeb3 _ _ orig code message hloads hnow orig.method none
  rw [horig] at hanswered
  rw [hanswered]
  constructor
  · rintro ⟨chars, idChars, hmessage, hnone, hreply⟩
    obtain rfl : "null".toList = idChars := map_scalar_injective hnone
    exact ⟨chars, hmessage, hreply⟩
  · rintro ⟨chars, hmessage, hreply⟩
    exact ⟨chars, _, hmessage, rfl, hreply⟩

theorem answered_words (hloads : cfg.text.loads = Json.loads floatText)
    (hnow : IsFieldText cfg.now) (hid : orig.id = none) {s : String} (hs : IsPlainText s) :
    Answered cfg orig (failureWeb3 cfg code (ofString s) orig) :=
  (answered_message hloads hnow hid).mpr ⟨s.toList, rfl, isReply_plain isValueText_null hs⟩

end Replies

/-! ## the reader of the content -/

open AcceptJSONRPCContentReader JSONRPCContentValidator JSONRPCMethodValidator

/-- The reader of the content passes the request on as `req'`. -/
def PassesOn (cfg : ReaderConfig) (req req' : RPCRequest) : Prop :=
  ∀ nextReader, AcceptJSONRPCContentReader.readRequest cfg nextReader req =
    continueWith nextReader req'

/-- With the parser disabled: what is cut out of the tokens is text, and the id that is
found may be pasted if the call of the method that is found is refused. -/
structure TokensPaste (cfg : ReaderConfig) (floatText : String → String) (refuses : String → Prop)
    (toks : List Bytes) : Prop where
  readable : ∀ tok ∈ toks, isReadable cfg tok = true
  id : ∀ method, lastValue cfg "method" toks = some method → cfg.mode ≠ .sim → refuses method →
    PastesId floatText ((lastValue cfg "id" toks).map fun id => .str (ofString id))

/-- With the parser enabled: what an error says about a call may be pasted. -/
structure CallPastes (cfg : ReaderConfig) (floatText : String → String) (refuses : String → Prop)
    (members : List (PyStr × Json)) (method : PyStr) (items : List Json) : Prop where
  forbidden : ∀ e, firstForbidden cfg.text (.arr items) = some e → e.IsString →
    ∃ cs : List Char, e.text = cs.map .scalar ∧ Escaped cs
  unknown : firstForbidden cfg.text (.arr items) = none → methodCondition method = none →
    ∃ cs : List Char, method = cs.map .scalar ∧
      IsJson floatText (inMessage ("Unsupported method '".toList ++ cs ++ ['\x27']))
  id : firstForbidden cfg.text (.arr items) = none → ∀ condition,
    methodCondition method = some condition → condition.validate items.length = true →
      ∀ id, Json.get? members "id" = some id → cfg.mode ≠ .sim → refuses method.asString →
        PastesId floatText (idOf id)

/-- What the replies take over from the content may be pasted, the id for a method that is
refused. -/
def ContentPastesFor (cfg : ReaderConfig) (floatText : String → String) (refuses : String → Prop)
    (content : Option Bytes) : Prop :=
  if cfg.jsonRpcRequestParserEnabled then
    ∀ members method items, loads cfg content = some (.obj members) →
      Call members method items → CallPastes cfg floatText refuses members method items
  else match content with
    | some content => TokensPaste cfg floatText refuses (content.splitOn 44)
    -- `None` has no `split`
    | none => False

/-- What the replies take over from the content may be pasted, when `is_allowed` says what is
refused. -/
def ContentPastes (cfg : ReaderConfig) (floatText : String → String) (call : CallPermissions)
    (key : String) (content : Bytes) : Prop :=
  ContentPastesFor cfg floatText (fun method => call.isAllowed key (some method) = .ok false)
    (some content)

section Readers

variable {cfg : ReaderConfig} {floatText : String → String} {call : CallPermissions}
  {refuses : String → Prop} {orig : RPCRequest}

/-- The reader of the method lets a call pass, unless it refuses the method; then the reply takes
over the id. -/
def MethodAnswers (cfg : ReaderConfig) (floatText : String → String) (call : CallPermissions)
    (refuses : String → Prop) (orig : RPCRequest) : Prop :=
  ∀ method id, PassesOn cfg orig { orig with method, id } →
    (Answered cfg orig
      (AcceptMethodRequestReader.readRequest cfg call none { orig with method, id }) ↔
      (cfg.mode ≠ .sim → refuses method → PastesId floatText id))

theorem answered_tokens (hloads : cfg.text.loads = Json.loads floatText)
    (hnow : IsFieldText cfg.now) (hmethods : MethodAnswers cfg floatText call refuses orig)
    (hdisabled : cfg.jsonRpcRequestParserEnabled = false) {content : Bytes}
    (hcontent : orig.content = some content) (hid : orig.id = none) :
    Answered cfg orig (readContent cfg call orig) ↔
      TokensPaste cfg floatText refuses (content.splitOn 44) := by
  have hmissing : IsPlainText "Missing method field" := by decide
  rw [readContent, readRequest_disabled _ _ hdisabled, readTokens_eq hcontent]
  by_cases hreadable : (content.splitOn 44).all (isReadable cfg) = true
  · rw [if_pos hreadable]
    have hall := List.all_eq_true.mp hreadable
    cases hmethod : lastValue cfg "method" (content.splitOn 44) with
    | none =>
        have hanswered := @answered_words _ _ _ (-32600) hloads hnow hid _ hmissing
        exact ⟨fun _ => ⟨hall, fun method h => by rw [hmethod] at h; cases h⟩, fun _ => hanswered⟩
    | some method =>
        have hpasses (nextReader : Option Reader) := readRequest_disabled nextReader orig hdisabled
        simp only [readTokens_eq hcontent, if_pos hreadable, hmethod] at hpasses
        simp only [continueWith]
        rw [hmethods method _ hpasses]
        constructor
        · intro h
          refine ⟨hall, fun method' hmethod' => ?_⟩
          cases hmethod.symm.trans hmethod'
          exact h
        · intro h
          exact h.id method hmethod
  · rw [if_neg hreadable]
    constructor
    · intro h
      exact absurd h (not_answered_raise _)
    · intro h
      exact absurd (List.all_eq_true.mpr h.readable) hreadable

/-! ## the parser -/

theorem escapeQuotes_map (cs : List Char) :
    JSONRPCContentValidator.escapeQuotes (cs.map .scalar) =
      (ErrorResponses.escapeQuotes cs).map .scalar := by
  induction cs with
  | nil => rfl
  | cons c cs ih =>
      rw [JSONRPCContentValidator.escapeQuotes] at ih ⊢
      rw [List.map_cons, List.flatMap_cons, ih]
      by_cases hquote : c = '"'
      · rw [hquote, escapeQuotes_quote]
        rfl
      · rw [escapeQuotes_cons hquote, if_neg fun h => hquote (CodePoint.scalar.inj h)]
        rfl

/-- Escaping quotes keeps surrogates. -/
theorem isEncodable_escapeQuotes (s : PyStr) :
    (JSONRPCContentValidator.escapeQuotes s).isEncodable = s.isEncodable := by
  induction s with
  | nil => rfl
  | cons c s ih =>
      rw [JSONRPCContentValidator.escapeQuotes] at ih ⊢
      rw [List.flatMap_cons, isEncodable_append, ih]
      by_cases hquote : c = .scalar '"'
      · rw [if_pos hquote, hquote]
        rfl
      · rw [if_neg hquote]
        simp [isEncodable]

/-- The error about a text of the parameters goes back if the text is escaped. -/
theorem answered_getErrorMessage (hloads : cfg.text.loads = Json.loads floatText)
    (hnow : IsFieldText cfg.now) (hid : orig.id = none) {label : String}
    (hlabel : IsPlainText label)
    {code : Int} {value : PyStr} :
    Answered cfg orig (failureWeb3 cfg code (getErrorMessage label value) orig) ↔
      ∃ cs : List Char, value = cs.map .scalar ∧ Escaped cs := by
  have hbefore : IsPlainText ("Invalid characters at " ++ label ++ " '") :=
    ((by decide : IsPlainText "Invalid characters at ").append hlabel).append (by decide)
  have hafter : ∀ c ∈ " in params".toList, isPlain c = true := by decide
  have hend : "' in params".toList = '\x27' :: " in params".toList := by decide
  have hmessage (cs : List Char) : getErrorMessage label (cs.map .scalar) =
      (("Invalid characters at " ++ label ++ " '").toList ++
        (ErrorResponses.escapeQuotes cs ++ '\x27' :: " in params".toList)).map .scalar := by
    rw [getErrorMessage, escapeQuotes_map, ofString, ofString, hend, List.map_append,
      List.map_append, List.append_assoc]
  rw [answered_message hloads hnow hid]
  constructor
  · rintro ⟨chars, hchars, hreply⟩
    have hvalue : value.isEncodable = true := by
      have hencodable := isEncodable_iff.mpr ⟨chars, hchars⟩
      rw [getErrorMessage, isEncodable_append, isEncodable_append,
        isEncodable_escapeQuotes] at hencodable
      simp only [Bool.and_eq_true] at hencodable
      exact hencodable.1.2
    obtain ⟨cs, rfl⟩ := isEncodable_iff.mp hvalue
    obtain rfl := map_scalar_injective ((hmessage cs).symm.trans hchars)
    exact ⟨cs, rfl, (isReply_escaped isValueText_null hbefore hafter).mp hreply⟩
  · rintro ⟨cs, rfl, hescaped⟩
    exact ⟨_, hmessage cs, (isReply_escaped isValueText_null hbefore hafter).mpr hescaped⟩

/-- The error about a forbidden character goes back if the text with it is escaped. -/
theorem answered_entry (hloads : cfg.text.loads = Json.loads floatText)
    (hnow : IsFieldText cfg.now) (hid : orig.id = none) {e : Entry} (he : e.IsString) {code : Int}
    {message : PyStr} (herror : e.error = .jsonRPCError code message) :
    Answered cfg orig (failureWeb3 cfg code message orig) ↔
      ∃ cs : List Char, e.text = cs.map .scalar ∧ Escaped cs := by
  cases e with
  | key k =>
      cases herror
      exact answered_getErrorMessage hloads hnow hid (by decide)
  | scalar value =>
      obtain ⟨s, rfl⟩ := Json.type_eq_str.mp he
      cases herror
      exact answered_getErrorMessage hloads hnow hid (by decide)

/-- The error about an unknown method goes back if the name leaves it JSON. -/
theorem answered_unknown (hloads : cfg.text.loads = Json.loads floatText)
    (hnow : IsFieldText cfg.now) (hid : orig.id = none) {code : Int} {method : PyStr} :
    Answered cfg orig (failureWeb3 cfg code
        (ofString "Unsupported method '" ++ method ++ ofString "'") orig) ↔
      ∃ cs : List Char, method = cs.map .scalar ∧
        IsJson floatText (inMessage ("Unsupported method '".toList ++ cs ++ ['\x27'])) := by
  have hmessage (cs : List Char) :
      ofString "Unsupported method '" ++ cs.map .scalar ++ ofString "'" =
        ("Unsupported method '".toList ++ cs ++ ['\x27']).map .scalar := by
    rw [List.map_append, List.map_append]
    rfl
  rw [answered_message hloads hnow hid]
  constructor
  · rintro ⟨chars, hchars, hreply⟩
    have hmethod : method.isEncodable = true := by
      have hencodable := isEncodable_iff.mpr ⟨chars, hchars⟩
      rw [isEncodable_append, isEncodable_append] at hencodable
      simp only [Bool.and_eq_true] at hencodable
      exact hencodable.1.2
    obtain ⟨cs, rfl⟩ := isEncodable_iff.mp hmethod
    obtain rfl := map_scalar_injective ((hmessage cs).symm.trans hchars)
    exact ⟨cs, rfl, (isReply_message isValueText_null).mp hreply⟩
  · rintro ⟨cs, rfl, hjson⟩
    exact ⟨_, hmessage cs, (isReply_message isValueText_null).mpr hjson⟩

/-- The names of the table and what is said about their parameters are plain. -/
theorem isPlainText_table : ∀ c ∈ methodParamCountConditions,
    IsPlainText c.1 ∧ IsPlainText c.2.description := by decide +kernel

theorem isPlainText_messages : ∀ msg ∈ JSONRPCFormatValidator.messages, IsPlainText msg := by
  decide +kernel

/-- The error about a wrong number of parameters goes back. -/
theorem answered_count (hloads : cfg.text.loads = Json.loads floatText)
    (hnow : IsFieldText cfg.now) (hid : orig.id = none) {code : Int} {method : PyStr}
    {condition : ParamCount} (hcondition : methodCondition method = some condition) (n : Nat) :
    Answered cfg orig (failureWeb3 cfg code
        (ofString "Number of parameters for method '" ++ method ++
          ofString ("' " ++ condition.description ++ ", but " ++ toString n ++ " were given"))
        orig) := by
  obtain ⟨name, hmem, rfl⟩ := methodCondition_eq_some.mp hcondition
  obtain ⟨hname, hdescription⟩ := isPlainText_table _ hmem
  have hn : IsPlainText (toString n) := by
    intro c hc
    rw [Nat.toString_eq_repr, Nat.toList_repr] at hc
    exact isPlain_of_isDigit (Nat.isDigit_of_mem_toDigits (by decide) (by decide) hc)
  rw [← ofString_append, ← ofString_append]
  exact answered_words hloads hnow hid (((by decide : IsPlainText _).append hname).append
    (((((by decide : IsPlainText "' ").append hdescription).append (by decide)).append hn).append
      (by decide)))

theorem readRequest_parsed (henabled : cfg.jsonRpcRequestParserEnabled = true) {value : Json}
    (hcontent : loads cfg orig.content = some value) (nextReader : Option Reader) :
    AcceptJSONRPCContentReader.readRequest cfg nextReader orig =
      match validate cfg value with
      | .error (.jsonRPCError code message) => failureWeb3 cfg code message orig
      | .error (.other _) => failure cfg httpInternalServerError orig
      | .ok () =>
          match member value "method", member value "id" with
          | some (.str method), some id =>
              continueWith nextReader { orig with method := method.asString, id := idOf id }
          | _, _ => .raise .keyError := by
  rw [readRequest_enabled _ _ henabled]
  unfold readParsed
  split
  · next hnone => rw [hcontent] at hnone; cases hnone
  · next jsonContent hsome =>
      obtain rfl : value = jsonContent := Option.some.inj (hcontent.symm.trans hsome)
      rfl

/-- What becomes of a call. -/
theorem answered_call (hloads : cfg.text.loads = Json.loads floatText)
    (hnow : IsFieldText cfg.now) (hmethods : MethodAnswers cfg floatText call refuses orig)
    (henabled : cfg.jsonRpcRequestParserEnabled = true) (hid : orig.id = none)
    {members : List (PyStr × Json)} {method : PyStr} {items : List Json}
    (hcall : Call members method items) (hcontent : loads cfg orig.content = some (.obj members)) :
    Answered cfg orig (readContent cfg call orig) ↔
      CallPastes cfg floatText refuses members method items := by
  have hvalidate := @validate_call cfg _ _ _ hcall
  have hread (nextReader : Option Reader) := readRequest_parsed henabled hcontent nextReader
  rw [readContent, hread]
  cases hfirst : firstForbidden cfg.text (.arr items) with
  | some e =>
      rw [hfirst] at hvalidate
      rw [hvalidate]
      dsimp only
      by_cases he : e.IsString
      · obtain ⟨message, herror⟩ := Entry.error_of_isString he
        have hanswered := @answered_entry _ _ _ hloads hnow hid _ he _ _ herror
        rw [herror]
        refine hanswered.trans ⟨fun hescaped => ?_, fun hpastes => hpastes.forbidden e hfirst he⟩
        refine ⟨fun e' he' _ => ?_, fun hnone => ?_, fun hnone => ?_⟩
        · cases hfirst.symm.trans he'
          exact hescaped
        · cases hfirst.symm.trans hnone
        · cases hfirst.symm.trans hnone
      · rw [Entry.error_of_not_isString he]
        refine ⟨fun _ => ⟨fun e' he' hstring => ?_, fun hnone => ?_, fun hnone => ?_⟩, fun _ => ?_⟩
        · cases hfirst.symm.trans he'
          exact absurd hstring he
        · cases hfirst.symm.trans hnone
        · cases hfirst.symm.trans hnone
        · exact failure_httpInternalServerError ▸ .http orig.method orig.id
  | none =>
      rw [hfirst] at hvalidate
      rw [hvalidate]
      dsimp only
      rw [JSONRPCMethodValidator.check]
      cases hcondition : methodCondition method with
      | none =>
          have hanswered := @answered_unknown _ _ _ hloads hnow hid (-32601) method
          refine hanswered.trans ⟨fun hjson => ?_, fun hpastes => hpastes.unknown hfirst hcondition⟩
          refine ⟨fun e he => ?_, fun _ _ => hjson, fun _ condition h => ?_⟩
          · cases hfirst.symm.trans he
          · cases hcondition.symm.trans h
      | some condition =>
          by_cases hcount : condition.validate items.length = true
          · obtain ⟨id, hmember, -⟩ := hcall.id
            have hmethod : member (.obj members) "method" = some (.str method) := hcall.method
            have hmemberId : member (.obj members) "id" = some id := hmember
            simp only [hvalidate, JSONRPCMethodValidator.check, hcondition, if_pos hcount, hmethod,
              hmemberId] at hread
            simp only [if_pos hcount, hmethod, hmemberId, continueWith]
            rw [hmethods _ _ hread]
            refine ⟨fun hid => ?_, fun hpastes => ?_⟩
            · refine ⟨fun e he => ?_, fun _ h => ?_, fun _ condition' _ _ id' hid' => ?_⟩
              · cases hfirst.symm.trans he
              · cases hcondition.symm.trans h
              · cases hmember.symm.trans hid'
                exact hid
            · exact hpastes.id hfirst condition hcondition hcount id hmember
          · simp only [if_neg hcount]
            have hanswered :=
              @answered_count _ _ _ hloads hnow hid (-32602) _ _ hcondition items.length
            refine ⟨fun _ => ⟨fun e he => ?_, fun _ h => ?_, fun _ condition' h hcount' => ?_⟩,
              fun _ => hanswered⟩
            · cases hfirst.symm.trans he
            · cases hcondition.symm.trans h
            · cases hcondition.symm.trans h
              exact absurd hcount' hcount

theorem answered_parsed (hloads : cfg.text.loads = Json.loads floatText)
    (hnow : IsFieldText cfg.now) (hmethods : MethodAnswers cfg floatText call refuses orig)
    (henabled : cfg.jsonRpcRequestParserEnabled = true) (hid : orig.id = none) :
    Answered cfg orig (readContent cfg call orig) ↔
      ∀ members method items, loads cfg orig.content = some (.obj members) →
        Call members method items → CallPastes cfg floatText refuses members method items := by
  cases hcontent : loads cfg orig.content with
  | none =>
      have hanswered : Answered cfg orig (readContent cfg call orig) := by
        rw [readContent, readRequest_enabled _ _ henabled, readParsed, hcontent]
        exact answered_words hloads hnow hid (by decide)
      exact ⟨fun _ members method items h => by simp at h, fun _ => hanswered⟩
  | some value =>
      obtain ⟨members, method, items, rfl, hcall⟩ | hmalformed := call_or_malformed value
      · rw [answered_call hloads hnow hmethods henabled hid hcall hcontent]
        constructor
        · rintro hpastes members' method' items' hmembers hcall'
          cases hmembers
          obtain ⟨rfl, rfl⟩ := hcall.unique hcall'
          exact hpastes
        · exact fun hpastes => hpastes members method items rfl hcall
      · obtain ⟨msg, hmsg, hvalidate⟩ := @validate_malformed cfg _ hmalformed
        have hanswered : Answered cfg orig (readContent cfg call orig) := by
          rw [readContent, readRequest_parsed henabled hcontent, hvalidate]
          exact answered_words hloads hnow hid (isPlainText_messages msg hmsg)
        constructor
        · rintro - members method items hmembers hcall
          exact absurd hcall (hmalformed members method items (Option.some.inj hmembers))
        · exact fun _ => hanswered

/-- The readers of the content and of the method answer exactly when their replies can be made. -/
theorem answered_content (hloads : cfg.text.loads = Json.loads floatText)
    (hnow : IsFieldText cfg.now) (hmethods : MethodAnswers cfg floatText call refuses orig)
    (hid : orig.id = none) :
    Answered cfg orig (readContent cfg call orig) ↔
      ContentPastesFor cfg floatText refuses orig.content := by
  unfold ContentPastesFor
  cases henabled : cfg.jsonRpcRequestParserEnabled with
  | true => exact answered_parsed hloads hnow hmethods henabled hid
  | false =>
      rw [if_neg Bool.false_ne_true]
      cases hcontent : orig.content with
      | none =>
          have hraise : readContent cfg call orig = .raise .attributeError := by
            rw [readContent, readRequest_disabled _ _ henabled, readTokens, hcontent]
          rw [hraise]
          exact ⟨fun h => absurd h (not_answered_raise _), False.elim⟩
      | some content => exact answered_tokens hloads hnow hmethods henabled hcontent hid

end Readers

/-! ## the reader of the method -/

/-- The user is registered with the plan, whenever one of the readers asks. -/
structure Managers.Registered (m : Managers) (key : String) (plan : BillingPlan) : Prop where
  allowed : m.allowed.billingService.getUserPlan key = some plan
  priority : m.priority.billingService.getUserPlan key = some plan
  pool : m.pool.billingService.getUserPlan key = some plan

section Registered

variable {cfg : ReaderConfig} {floatText : String → String} {m : Managers} {key : String}
  {plan : BillingPlan} {orig : RPCRequest}

/-- The lookups for a registered user raise nothing. -/
theorem Managers.Registered.call (h : m.Registered key plan) (method : String) :
    (∃ b, m.call.isAllowed key (some method) = .ok b) ∧
      m.call.getCallPriority key (some method) = .ok plan.terms.userPriority ∧
      m.call.getUserConstantPool key = .ok plan.terms.constantPool := by
  have hallowed := h.allowed
  have hpriority := h.priority
  have hpool := h.pool
  rw [BasicBillingService.getUserPlan] at hallowed hpriority hpool
  refine ⟨?_, ?_, ?_⟩
  · simp only [Managers.call, basicBillingServiceWithLedger, BasicBillingService.isAllowed,
      hallowed]
    exact ⟨_, rfl⟩
  · simp only [Managers.call, basicBillingServiceWithLedger, BasicBillingService.getCallPriority,
      hpriority]
    rfl
  · simp only [Managers.call, basicBillingServiceWithLedger,
      BasicBillingService.getUserConstantPool, hpool]

/-- The reader of the method refuses a call with the id, unless it is allowed. -/
theorem answered_method (hloads : cfg.text.loads = Json.loads floatText)
    (hnow : IsFieldText cfg.now) (hregistered : m.Registered key plan)
    (hkey : orig.userApiKey = some key) (method : String) (id : Option RequestId) :
    Answered cfg orig
        (AcceptMethodRequestReader.readRequest cfg m.call none { orig with method, id }) ↔
      (cfg.mode ≠ .sim → m.call.isAllowed key (some method) = .ok false →
        PastesId floatText id) := by
  obtain ⟨⟨b, hallowed⟩, hpriority, hpool⟩ := hregistered.call method
  unfold AcceptMethodRequestReader.readRequest
  by_cases hsim : cfg.mode = .sim
  · rw [if_pos hsim]
    exact ⟨fun _ hne => absurd hsim hne, fun _ => .success method id 0 none⟩
  · rw [if_neg hsim]
    cases b with
    | false =>
        have haccept :
            AcceptMethodRequestReader.accept m.call { orig with method, id } = .ok none := by
          simp only [AcceptMethodRequestReader.accept, hkey, hallowed]
          rfl
        rw [haccept]
        have hplain : IsPlainText "You exceeded the limit of calls. Check your plan" := by decide
        have hanswered := @answered_plain _ _ orig (-(32000 + 3)) hloads hnow _ hplain method id
        exact hanswered.trans ⟨fun h _ _ => h, fun h => h hsim hallowed⟩
    | true =>
        have haccept : AcceptMethodRequestReader.accept m.call { orig with method, id } =
            .ok (some (plan.terms.userPriority, plan.terms.constantPool)) := by
          simp only [AcceptMethodRequestReader.accept, hkey, hallowed, hpriority, hpool]
          rfl
        rw [haccept, hallowed]
        exact ⟨fun _ _ hfalse => by simp at hfalse, fun _ => .success method id _ _⟩

/-- **A rejected request gets its answer** if and only if what the replies take over from
its content may be pasted into them. -/
theorem answered_iff (hloads : cfg.text.loads = Json.loads floatText)
    (hnow : IsFieldText cfg.now) (hregistered : m.Registered key plan) {req : RPCRequest}
    (hkey : req.userApiKey = some key) (hid : req.id = none) {content : Bytes}
    (hcontent : req.content = some content) :
    Answered cfg req (readContent cfg m.call req) ↔
      ContentPastes cfg floatText m.call key content := by
  have hmethods : MethodAnswers cfg floatText m.call
      (fun method => m.call.isAllowed key (some method) = .ok false) req :=
    fun method id _ => answered_method hloads hnow hregistered hkey method id
  rw [ContentPastes, ← hcontent]
  exact answered_content hloads hnow hmethods hid

end Registered

/-! ## a user with a quote in the method -/

/-- One user, with a plan. -/
def oneUser : StateManager where
  billingService := BasicBillingService.registerUser {} "key" (createPlan 10 1000 0 none)

/-- The managers, when nothing changes. -/
def oneUserManagers : Managers where
  auth := oneUser
  allowed := oneUser
  priority := oneUser
  pool := oneUser

theorem oneUserManagers_registered :
    oneUserManagers.Registered "key" (createPlan 10 1000 0 none) := ⟨rfl, rfl, rfl⟩

/-- A request of the user. -/
def post (content : String) : RPCRequest where
  userApiKey := some "key"
  content := some (str content)

/-- A method that there is not. -/
def unknownCall (method : String) : String :=
  "\x7b\"jsonrpc\":\"2.0\",\"id\":1,\"method\":\"" ++ method ++ "\",\"params\":[]\x7d"

theorem answered_iff_unknown :
    Answered parserConfig (post (unknownCall "eth_nope"))
        (readContent parserConfig oneUserManagers.call (post (unknownCall "eth_nope"))) ↔
      ContentPastes parserConfig id oneUserManagers.call "key" (str (unknownCall "eth_nope")) :=
  answered_iff rfl (by decide) oneUserManagers_registered rfl rfl rfl

/-- A quote in the name of the method ends the message in the reply. -/
theorem not_answered :
    ¬ Answered parserConfig (post (unknownCall "a\\\"b"))
      (readContent parserConfig oneUserManagers.call (post (unknownCall "a\\\"b"))) := by
  have hraise : readContent parserConfig oneUserManagers.call (post (unknownCall "a\\\"b")) =
      .raise .valueError := by decide +kernel
  rw [hraise]
  exact not_answered_raise _

end Web3Proxy
