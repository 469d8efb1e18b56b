import Web3Proxy.Middleware

/-!
# Web3Proxy.JSONRPCValidators.Spec

What the three validators of a JSON-RPC request accept, and how they refuse.

* `validate_call` — a request of the right format is decided by the first key or value
  that has a forbidden character, and else by the table of methods;
* `accepts_iff` — they accept the grammar of the requests, unless a line feed at the end
  of a word is all that is wrong;
* `refuses_iff` — they refuse with a JSON-RPC error, unless the first forbidden
  character is in a number.
-/

namespace Web3Proxy

open Py PyStr

/-! ## the format -/

/-- The object is a request for the method with these parameters; no parameters are the
empty array. -/
structure Call (members : List (PyStr × Json)) (method : PyStr) (items : List Json) : Prop where
  jsonrpc : Json.get? members "jsonrpc" = some (.str (ofString "2.0"))
  id : ∃ id, Json.get? members "id" = some id ∧ id.type ∈ [PyType.int, .str, .noneType]
  method : Json.get? members "method" = some (.str method)
  params : (Json.get? members "params").getD (.arr []) = .arr items

namespace JSONRPCFormatValidator

/-- The member is as the condition wants it; only `params` may be missing. -/
def passes (members : List (PyStr × Json)) (c : String × (Json → Bool)) : Bool :=
  match Json.get? members c.1 with
  | none => c.1 = "params"
  | some value => c.2 value

/-- What is raised when it is not. -/
def memberError (members : List (PyStr × Json)) (c : String × (Json → Bool)) : ValidationError :=
  .invalidRequestError (ofString (match Json.get? members c.1 with
    | none => "Missing member '" ++ c.1 ++ "'"
    | some _ => "Invalid value for member '" ++ c.1 ++ "'"))

theorem check_eq (members : List (PyStr × Json)) (c : String × (Json → Bool)) :
    check members c.1 c.2 =
      if passes members c then .ok () else .error (memberError members c) := by
  unfold check passes memberError
  cases Json.get? members c.1 with
  | none => by_cases hparams : c.1 = "params" <;> simp [hparams]
  | some value => rfl

/-- What the validator says about a value. -/
def messages : List String :=
  "JSON-RPC request must be an object, batches are not supported" ::
    rpcParamConditions.flatMap fun c =>
      ["Missing member '" ++ c.1 ++ "'", "Invalid value for member '" ++ c.1 ++ "'"]

/-- A failure is always a violation of the format. -/
theorem validate_error {value : Json} {e : ValidationError} (h : validate value = .error e) :
    ∃ msg ∈ messages, e = .invalidRequestError (ofString msg) := by
  cases value with
  | obj members =>
      rw [validate, forM_check (check_eq members)] at h
      split at h
      · cases h
      · next c hfind =>
        cases h
        have hc := List.mem_of_find?_eq_some hfind
        refine ⟨_, List.mem_cons_of_mem _ (List.mem_flatMap.mpr ⟨c, hc, ?_⟩), rfl⟩
        cases Json.get? members c.1 with
        | none => exact List.mem_cons_self
        | some value => exact List.mem_cons_of_mem _ List.mem_cons_self
  | _ =>
      cases h
      exact ⟨_, List.mem_cons_self, rfl⟩

theorem passes_required {members : List (PyStr × Json)} {c : String × (Json → Bool)}
    (hc : c.1 ≠ "params") :
    passes members c = true ↔ ∃ value, Json.get? members c.1 = some value ∧ c.2 value = true := by
  unfold passes
  cases Json.get? members c.1 with
  | none => simpa using hc
  | some value => simp

theorem passes_params {members : List (PyStr × Json)} :
    passes members ("params", fun value => value.type = .list) = true ↔
      ∃ items, (Json.get? members "params").getD (.arr []) = .arr items := by
  unfold passes
  cases Json.get? members "params" with
  | none => simp
  | some value => simp [Json.type_eq_list]

/-- **What has the right format.** -/
theorem validate_obj {members : List (PyStr × Json)} :
    validate (.obj members) = .ok () ↔ ∃ method items, Call members method items := by
  have hpasses : validate (.obj members) = .ok () ↔
      ∀ c ∈ rpcParamConditions, passes members c = true := by
    rw [validate, forM_check (check_eq members)]
    cases hfind : rpcParamConditions.find? fun c => !passes members c with
    | none => simpa [List.find?_eq_none] using hfind
    | some c =>
        have hc : passes members c = false := by simpa using List.find?_some hfind
        simp only [reduceCtorEq, false_iff]
        intro hall
        rw [hall c (List.mem_of_find?_eq_some hfind)] at hc
        cases hc
  rw [hpasses]
  rw [rpcParamConditions, List.forall_mem_cons, List.forall_mem_cons, List.forall_mem_cons,
    List.forall_mem_singleton, passes_params, passes_required (by simp), passes_required (by simp),
    passes_required (by simp)]
  simp only [decide_eq_true_eq, Json.type_eq_str]
  constructor
  · rintro ⟨⟨_, hmethod, method, rfl⟩, hid, ⟨items, hparams⟩, version, hjsonrpc, hversion⟩
    cases version with
    | str s =>
        rw [of_decide_eq_true hversion] at hjsonrpc
        exact ⟨method, items, hjsonrpc, hid, hmethod, hparams⟩
    | _ => cases hversion
  · rintro ⟨method, items, hcall⟩
    exact ⟨⟨_, hcall.method, method, rfl⟩, hcall.id, ⟨items, hcall.params⟩, _, hcall.jsonrpc,
      decide_eq_true rfl⟩

end JSONRPCFormatValidator

/-! ## the parameters -/

namespace JSONRPCContentValidator

/-- What the validator looks at: a key, or a value that is not a collection. -/
inductive Entry where
  | key (k : PyStr)
  | scalar (value : Json)

namespace Entry

/-- What the regular expression is matched with. -/
def text : Entry → PyStr
  | key k => k
  | scalar value => strOf value

/-- What is raised for it. -/
def error : Entry → ValidationError
  | key k => .invalidParamsError (getErrorMessage "key" k)
  | scalar (.str s) => .invalidParamsError (getErrorMessage "label" s)
  | scalar _ => .other .attributeError

/-- The entry is a string, and no number, `true`, `false` or `null`. -/
def IsString : Entry → Prop
  | key _ => True
  | scalar value => value.type = .str

theorem error_of_isString {e : Entry} (h : e.IsString) :
    ∃ msg, e.error = .invalidParamsError msg := by
  cases e with
  | key k => exact ⟨_, rfl⟩
  | scalar value =>
      obtain ⟨s, rfl⟩ := Json.type_eq_str.mp h
      exact ⟨_, rfl⟩

theorem error_of_not_isString {e : Entry} (h : ¬ e.IsString) :
    e.error = .other .attributeError := by
  cases e with
  | key k => exact absurd trivial h
  | scalar value =>
      cases value with
      | str s => exact absurd rfl h
      | _ => rfl

end Entry

mutual

/-- The entries of a value, in the order of the walk: the keys of an object come before
what is in it. -/
def entries : Json → List Entry
  | .obj members => members.map (fun m => .key m.1) ++ memberEntries members
  | .arr items => itemEntries items
  | .null => [.scalar .null]
  | .bool b => [.scalar (.bool b)]
  | .int n => [.scalar (.int n)]
  | .float text => [.scalar (.float text)]
  | .str s => [.scalar (.str s)]

def itemEntries : List Json → List Entry
  | [] => []
  | item :: items => entries item ++ itemEntries items

def memberEntries : List (PyStr × Json) → List Entry
  | [] => []
  | (_, value) :: members => entries value ++ memberEntries members

end

variable (text : PyText)

/-- The check of an entry. -/
def checkEntry : Entry → Except ValidationError Unit
  | .key k => checkKey text k
  | .scalar value => checkScalar text value

theorem checkEntry_eq (e : Entry) :
    checkEntry text e = if matchesWord text e.text then .ok () else .error e.error := by
  cases e with
  | key k => rfl
  | scalar value =>
      unfold checkEntry checkScalar
      cases value <;> rfl

mutual

/-- The walk checks the entries one after the other. -/
theorem traverse_eq : ∀ value : Json,
    traverseAndValidateParams text value = (entries value).forM (checkEntry text)
  | .obj members => by
      have hkeys : (members.map fun m => Entry.key m.1).forM (checkEntry text) =
          members.forM fun m => checkKey text m.1 := List.forM_map
      show (members.forM fun m => checkKey text m.1) >>= (fun _ => traverseMembers text members) = _
      rw [traverseMembers_eq members, ← hkeys]
      exact List.forM_append.symm
  | .arr items => traverseItems_eq items
  | .null => by simp [traverseAndValidateParams, entries, checkEntry]
  | .bool b => by simp [traverseAndValidateParams, entries, checkEntry]
  | .int n => by simp [traverseAndValidateParams, entries, checkEntry]
  | .float t => by simp [traverseAndValidateParams, entries, checkEntry]
  | .str s => by simp [traverseAndValidateParams, entries, checkEntry]

theorem traverseItems_eq : ∀ items : List Json,
    traverseItems text items = (itemEntries items).forM (checkEntry text)
  | [] => rfl
  | item :: items => by
      show traverseAndValidateParams text item >>= (fun _ => traverseItems text items) = _
      rw [traverse_eq item, traverseItems_eq items]
      exact List.forM_append.symm

theorem traverseMembers_eq : ∀ members : List (PyStr × Json),
    traverseMembers text members = (memberEntries members).forM (checkEntry text)
  | [] => rfl
  | (key, value) :: members => by
      show traverseAndValidateParams text value >>= (fun _ => traverseMembers text members) = _
      rw [traverse_eq value, traverseMembers_eq members]
      exact List.forM_append.symm

end

/-- The first entry with a forbidden character. -/
def firstForbidden (value : Json) : Option Entry :=
  (entries value).find? fun e => !matchesWord text e.text

theorem traverse_firstForbidden (value : Json) :
    traverseAndValidateParams text value = match firstForbidden text value with
      | none => .ok ()
      | some e => .error e.error := by
  rw [traverse_eq, forM_check (checkEntry_eq text), firstForbidden]
  cases (entries value).find? fun e => !matchesWord text e.text with
  | none => rfl
  | some e => rfl

theorem firstForbidden_eq_none {value : Json} :
    firstForbidden text value = none ↔ ∀ e ∈ entries value, matchesWord text e.text = true := by
  simp [firstForbidden, List.find?_eq_none]

/-! ## words -/

/-- The string is a word: word characters, at least one. -/
def IsWord (s : PyStr) : Prop := s ≠ [] ∧ ∀ c ∈ s, isWord text c = true

/-- The string is a word and a line feed. -/
def IsWordLine (s : PyStr) : Prop := ∃ word, IsWord text word ∧ s = word ++ [.scalar '\n']

theorem matchesWord_iff {s : PyStr} :
    matchesWord text s = true ↔ IsWord text s ∨ IsWordLine text s := by
  have hwords (cs : PyStr) : (!cs.isEmpty && cs.all (isWord text)) = true ↔ IsWord text cs := by
    simp [IsWord]
  unfold matchesWord
  simp only [Bool.or_eq_true, Bool.and_eq_true (decide _), decide_eq_true_eq, hwords]
  constructor
  · rintro (hs | ⟨hlast, hs⟩)
    · exact Or.inl hs
    · exact Or.inr ⟨s.dropLast, hs, (List.dropLast_append_getLast? _ hlast).symm⟩
  · rintro (hs | ⟨word, hword, rfl⟩)
    · exact Or.inl hs
    · exact Or.inr ⟨List.getLast?_concat, by rwa [List.dropLast_concat]⟩

/-- A word does not end with a line feed. -/
theorem IsWord.getLast?_ne {s : PyStr} (hline : text.isWord '\n' = false) (h : IsWord text s) :
    s.getLast? ≠ some (.scalar '\n') := by
  intro hlast
  have hword := h.2 _ (List.mem_of_getLast? hlast)
  rw [isWord, hline] at hword
  cases hword

end JSONRPCContentValidator

/-! ## the methods -/

namespace JSONRPCMethodValidator

theorem nodup_methods : (methodParamCountConditions.map Prod.fst).Nodup := by decide

theorem methodCondition_of_mem {e : String × ParamCount} (h : e ∈ methodParamCountConditions) :
    methodCondition (ofString e.1) = some e.2 := by
  unfold methodCondition
  cases hfind : methodParamCountConditions.find? fun c => ofString c.1 = ofString e.1 with
  | none => exact absurd (decide_eq_true rfl) (List.find?_eq_none.mp hfind e h)
  | some c =>
      have hc := List.find?_some hfind
      have hname : c.1 = e.1 := ofString_injective (of_decide_eq_true hc)
      have hc : c = e :=
        List.inj_on_of_nodup_map nodup_methods (List.mem_of_find?_eq_some hfind) h hname
      rw [hc]
      rfl

theorem methodCondition_eq_some {method : PyStr} {condition : ParamCount} :
    methodCondition method = some condition ↔
      ∃ name, (name, condition) ∈ methodParamCountConditions ∧ method = ofString name := by
  constructor
  · intro h
    rw [methodCondition, Option.map_eq_some_iff] at h
    obtain ⟨e, he, hcondition⟩ := h
    have hname := List.find?_some he
    exact ⟨e.1, hcondition ▸ List.mem_of_find?_eq_some he, (of_decide_eq_true hname).symm⟩
  · rintro ⟨name, hmem, rfl⟩
    exact methodCondition_of_mem hmem

end JSONRPCMethodValidator

/-! ## the three validators -/

section Validators

open JSONRPCContentValidator JSONRPCMethodValidator

variable {cfg : ReaderConfig} {members : List (PyStr × Json)} {method : PyStr} {items : List Json}

theorem Call.params_eq (h : Call members method items) :
    JSONRPCContentValidator.params (.obj members) = .ok (.arr items) := by
  rw [JSONRPCContentValidator.params, h.params]

/-- **What decides about a request of the right format.** -/
theorem validate_call (h : Call members method items) :
    AcceptJSONRPCContentReader.validate cfg (.obj members) =
      match firstForbidden cfg.text (.arr items) with
        | some e => .error e.error
        | none => JSONRPCMethodValidator.check method items.length := by
  have hformat := JSONRPCFormatValidator.validate_obj.mpr ⟨method, items, h⟩
  have hcontent : JSONRPCContentValidator.validate cfg.text (.obj members) =
      traverseAndValidateParams cfg.text (.arr items) := by
    rw [JSONRPCContentValidator.validate, h.params_eq]
    rfl
  have hmethod : JSONRPCMethodValidator.validate (.obj members) =
      JSONRPCMethodValidator.check method items.length := by
    rw [JSONRPCMethodValidator.validate, h.params_eq]
    simp only [h.method]
    rfl
  rw [AcceptJSONRPCContentReader.validate, hformat, hcontent, hmethod, traverse_firstForbidden]
  cases firstForbidden cfg.text (.arr items) with
  | none => rfl
  | some e => rfl

/-- What is no request of the right format. -/
def Malformed (value : Json) : Prop :=
  ∀ members method items, value = .obj members → ¬ Call members method items

theorem validate_malformed {value : Json} (h : Malformed value) :
    ∃ msg ∈ JSONRPCFormatValidator.messages, AcceptJSONRPCContentReader.validate cfg value =
      .error (.invalidRequestError (ofString msg)) := by
  cases hformat : JSONRPCFormatValidator.validate value with
  | error e =>
      obtain ⟨msg, hmsg, rfl⟩ := JSONRPCFormatValidator.validate_error hformat
      exact ⟨msg, hmsg, by rw [AcceptJSONRPCContentReader.validate, hformat]; rfl⟩
  | ok =>
      cases value with
      | obj members =>
          obtain ⟨method, items, hcall⟩ := JSONRPCFormatValidator.validate_obj.mp hformat
          exact absurd hcall (h members method items rfl)
      | _ => cases hformat

theorem call_or_malformed (value : Json) :
    (∃ members method items, value = .obj members ∧ Call members method items) ∨
      Malformed value := by
  by_cases h : ∃ members method items, value = .obj members ∧ Call members method items
  · exact Or.inl h
  · exact Or.inr fun members method items hvalue hcall => h ⟨members, method, items, hvalue, hcall⟩

/-- The same object is no two calls. -/
theorem Call.unique {method' : PyStr} {items' : List Json} (h : Call members method items)
    (h' : Call members method' items') : method = method' ∧ items = items' := by
  have hmethod := h.method.symm.trans h'.method
  have hitems := h.params.symm.trans h'.params
  exact ⟨by simpa using hmethod, by simpa using hitems⟩

/-! ## what they accept -/

/-- The object is a call of a method of the table, with as many parameters as it takes. -/
def Fits (members : List (PyStr × Json)) (items : List Json) : Prop :=
  ∃ name condition, (name, condition) ∈ methodParamCountConditions ∧
    Call members (ofString name) items ∧ condition.validate items.length = true

/-- **The grammar of the requests**: such a call in whose parameters each key and each
value that is not a collection is a word. -/
def Grammar (text : PyText) (value : Json) : Prop :=
  ∃ members items, value = .obj members ∧ Fits members items ∧
    ∀ e ∈ entries (.arr items), IsWord text e.text

/-- Such a call in whose parameters there are also words with a line feed after them, and
nothing else. -/
def HasWordLines (text : PyText) (value : Json) : Prop :=
  ∃ members items, value = .obj members ∧ Fits members items ∧
    (∀ e ∈ entries (.arr items), IsWord text e.text ∨ IsWordLine text e.text) ∧
      ∃ e ∈ entries (.arr items), IsWordLine text e.text

/-- What the validators accept: for them a line feed may follow a word. -/
theorem validate_ok {value : Json} :
    AcceptJSONRPCContentReader.validate cfg value = .ok () ↔
      ∃ members items, value = .obj members ∧ Fits members items ∧
        ∀ e ∈ entries (.arr items), IsWord cfg.text e.text ∨ IsWordLine cfg.text e.text := by
  simp only [← matchesWord_iff]
  constructor
  · intro hok
    obtain ⟨members, method, items, rfl, hcall⟩ | hmalformed := call_or_malformed value
    · rw [validate_call hcall] at hok
      split at hok
      · cases hok
      · next hnone =>
        unfold JSONRPCMethodValidator.check at hok
        split at hok
        · cases hok
        · next condition hcondition =>
          split at hok
          · next hcount =>
            obtain ⟨name, hmem, rfl⟩ := methodCondition_eq_some.mp hcondition
            exact ⟨members, items, rfl, ⟨name, condition, hmem, hcall, hcount⟩,
              (firstForbidden_eq_none cfg.text).mp hnone⟩
          · cases hok
    · obtain ⟨msg, -, hmsg⟩ := @validate_malformed cfg _ hmalformed
      rw [hmsg] at hok
      cases hok
  · rintro ⟨members, items, rfl, ⟨name, condition, hmem, hcall, hcount⟩, hwords⟩
    have hcondition := methodCondition_eq_some.mpr ⟨name, hmem, rfl⟩
    rw [validate_call hcall, (firstForbidden_eq_none cfg.text).mpr hwords]
    simp only [JSONRPCMethodValidator.check, hcondition, if_pos hcount]

/-- **The validators accept the grammar**, unless a line feed after a word is all that
is wrong. -/
theorem accepts_iff (hline : cfg.text.isWord '\n' = false) (value : Json) :
    (AcceptJSONRPCContentReader.validate cfg value = .ok () ↔ Grammar cfg.text value) ↔
      ¬ HasWordLines cfg.text value := by
  rw [validate_ok]
  constructor
  · rintro haccepts ⟨members, items, rfl, hfits, hwords, e, he, hline'⟩
    obtain ⟨_, items', hvalue, ⟨_, _, _, hcall', _⟩, hwords'⟩ :=
      haccepts.mp ⟨members, items, rfl, hfits, hwords⟩
    cases hvalue
    obtain ⟨_, _, _, hcall, _⟩ := hfits
    obtain rfl := (hcall.unique hcall').2
    obtain ⟨word, -, hword⟩ := hline'
    apply (hwords' e he).getLast?_ne cfg.text hline
    rw [hword, List.getLast?_concat]
  · intro hnone
    constructor
    · rintro ⟨members, items, rfl, hfits, hwords⟩
      have hword : ∀ e ∈ entries (.arr items), IsWord cfg.text e.text := fun e he =>
        (hwords e he).resolve_right fun hline' =>
          hnone ⟨members, items, rfl, hfits, hwords, e, he, hline'⟩
      exact ⟨members, items, rfl, hfits, hword⟩
    · rintro ⟨members, items, rfl, hfits, hwords⟩
      exact ⟨members, items, rfl, hfits, fun e he => Or.inl (hwords e he)⟩

/-- The text library on ASCII texts. -/
def asciiText : PyText where
  loads := Json.loads id
  isWord := fun c => c.isAlphanum || c = '_'
  isSpace := PyStr.isSpace

/-- A proxy with the parser. -/
def parserConfig : ReaderConfig where
  mode := .prod
  jsonRpcRequestParserEnabled := true
  text := asciiText
  now := ""

/-- A call with one parameter. -/
def callWith (method : String) (parameter : Json) : Json :=
  .obj [(ofString "jsonrpc", .str (ofString "2.0")), (ofString "id", .int 1),
    (ofString "method", .str (ofString method)), (ofString "params", .arr [parameter])]

theorem callWith_call (method : String) (parameter : Json) :
    ∀ members, callWith method parameter = .obj members →
      Call members (ofString method) [parameter] := by
  rintro members hmembers
  cases hmembers
  exact ⟨rfl, ⟨_, rfl, by decide⟩, rfl, rfl⟩

theorem accepts_iff_word :
    (AcceptJSONRPCContentReader.validate parserConfig
        (callWith "web3_sha3" (.str (ofString "0x68"))) = .ok () ↔
      Grammar asciiText (callWith "web3_sha3" (.str (ofString "0x68")))) ↔
    ¬ HasWordLines asciiText (callWith "web3_sha3" (.str (ofString "0x68"))) :=
  accepts_iff (by decide) _

/-- A parameter with a line feed at its end is accepted. -/
theorem not_accepts :
    ¬ (AcceptJSONRPCContentReader.validate parserConfig
        (callWith "web3_sha3" (.str (ofString "0x68\n"))) = .ok () ↔
      Grammar asciiText (callWith "web3_sha3" (.str (ofString "0x68\n")))) := by
  intro haccepts
  have hok : AcceptJSONRPCContentReader.validate parserConfig
      (callWith "web3_sha3" (.str (ofString "0x68\n"))) = .ok () := by decide
  obtain ⟨members, items, hvalue, ⟨name, _, _, hcall, _⟩, hwords⟩ := haccepts.mp hok
  obtain rfl := ((callWith_call _ _ members hvalue).unique hcall).2
  have hword := hwords (.scalar (.str (ofString "0x68\n"))) (by simp [entries, itemEntries])
  exact hword.getLast?_ne asciiText (by decide) (by decide)

/-! ## how they refuse -/

/-- The JSON-RPC error that a value calls for. -/
inductive Refusal (text : PyText) (value : Json) : ValidationError → Prop where
  | format (msg : PyStr) (hvalue : Malformed value) : Refusal text value (.jsonRPCError (-32600) msg)
  | forbidden (msg : PyStr) {members : List (PyStr × Json)} {method : PyStr} {items : List Json}
      {e : Entry} (hvalue : value = .obj members) (hcall : Call members method items)
      (he : e ∈ entries (.arr items)) (hforbidden : matchesWord text e.text = false) :
      Refusal text value (.jsonRPCError (-32602) msg)
  | count (msg : PyStr) {members : List (PyStr × Json)} {method : PyStr} {items : List Json}
      {condition : ParamCount} (hvalue : value = .obj members) (hcall : Call members method items)
      (hcondition : methodCondition method = some condition)
      (hcount : condition.validate items.length = false) :
      Refusal text value (.jsonRPCError (-32602) msg)
  | unknown (msg : PyStr) {members : List (PyStr × Json)} {method : PyStr} {items : List Json}
      (hvalue : value = .obj members) (hcall : Call members method items)
      (hmethod : methodCondition method = none) :
      Refusal text value (.jsonRPCError (-32601) msg)

theorem Refusal.of_check {value : Json} {e : ValidationError} (hvalue : value = .obj members)
    (hcall : Call members method items)
    (h : JSONRPCMethodValidator.check method items.length = .error e) :
    Refusal cfg.text value e := by
  unfold JSONRPCMethodValidator.check at h
  split at h
  · next hmethod =>
    cases h
    exact .unknown _ hvalue hcall hmethod
  · next condition hcondition =>
    split at h
    · cases h
    · next hcount =>
      cases h
      exact .count _ hvalue hcall hcondition (Bool.eq_false_iff.mpr hcount)

/-- **The validators refuse with a JSON-RPC error**, unless the first entry with a
forbidden character is no string. -/
theorem refuses_iff (value : Json) :
    (∀ e, AcceptJSONRPCContentReader.validate cfg value = .error e → Refusal cfg.text value e) ↔
      ∀ members method items, value = .obj members → Call members method items →
        ∀ e, firstForbidden cfg.text (.arr items) = some e → e.IsString := by
  constructor
  · rintro hrefuses members method items rfl hcall e hfirst
    by_contra hstring
    have hother : AcceptJSONRPCContentReader.validate cfg (.obj members) =
        .error (.other .attributeError) := by
      rw [validate_call hcall, hfirst, ← Entry.error_of_not_isString hstring]
    cases hrefuses _ hother
  · intro hstrings e herror
    obtain ⟨members, method, items, rfl, hcall⟩ | hmalformed := call_or_malformed value
    · rw [validate_call hcall] at herror
      split at herror
      · next entry hfirst =>
        obtain ⟨msg, hmsg⟩ :=
          Entry.error_of_isString (hstrings members method items rfl hcall entry hfirst)
        rw [hmsg] at herror
        cases herror
        have hforbidden : matchesWord cfg.text entry.text = false := by
          simpa using List.find?_some hfirst
        exact .forbidden msg rfl hcall (List.mem_of_find?_eq_some hfirst) hforbidden
      · exact .of_check rfl hcall herror
    · obtain ⟨msg, -, hmsg⟩ := @validate_malformed cfg _ hmalformed
      rw [hmsg] at herror
      cases herror
      exact .format _ hmalformed

/-- A negative number raises an `AttributeError`. -/
theorem not_refuses :
    ¬ ∀ e, AcceptJSONRPCContentReader.validate parserConfig (callWith "web3_sha3" (.int (-1))) =
        .error e → Refusal asciiText (callWith "web3_sha3" (.int (-1))) e := by
  intro hrefuses
  cases hrefuses (.other .attributeError) (by decide)

end Validators

end Web3Proxy
