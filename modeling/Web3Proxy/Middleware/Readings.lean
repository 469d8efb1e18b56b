import Web3Proxy.Lib.Json.Readings
import Web3Proxy.Middleware.Agreement

/-!
# Web3Proxy.Middleware.Readings

What the reader of the content checks is one reading of the content: of members with the same
name `json.loads` keeps the last one.  What is forwarded is the text, of which a node may keep
another one.

* `forwardsChecked_iff` — every reading of an accepted content passes the validators, with the
  same method, exactly when each of the repeated members would have passed them;
* `not_forwardsChecked` — a second method before the one that is checked.
-/

namespace Web3Proxy

open Py Bytes PyStr Json
open AcceptJSONRPCContentReader JSONRPCContentValidator JSONRPCMethodValidator

/-! ## what is claimed -/

/-- A reading of the content keeps one of the members with one name, in every object. -/
def IsReading (floatText : String → String) (content : Bytes) (value : Json) : Prop :=
  ∃ s all, decode content = some s ∧ Json.pairs floatText s = some all ∧ Reads all value

/-- Every reading of what is forwarded for the request passes the validators, and has the method
of the request. -/
def ForwardsChecked (cfg : ReaderConfig) (floatText : String → String) (req : RPCRequest) : Prop :=
  ∀ content value, req.content = some content → IsReading floatText content value →
    validate cfg value = .ok () ∧ member value "method" = some (.str (ofString req.method))

/-- Each member that a call of the method has is one that the validators take, and not only the
last one with its name. -/
structure EachChecked (text : PyText) (members : List (PyStr × Json)) (name : String)
    (condition : ParamCount) : Prop where
  jsonrpc : ∀ v, (ofString "jsonrpc", v) ∈ members → v = .str (ofString "2.0")
  id : ∀ v, (ofString "id", v) ∈ members → v.type ∈ [PyType.int, .str, .noneType]
  method : ∀ v, (ofString "method", v) ∈ members → v = .str (ofString name)
  /-- The keys and values in the parameters are all that the text has. -/
  params : ∀ v, (ofString "params", v) ∈ members → ∃ items, v = .arr items ∧
    condition.validate items.length = true ∧ ∀ e ∈ entries v, matchesWord text e.text = true

/-- That is so for all members of the content. -/
def AllChecked (text : PyText) (floatText : String → String) (content : Bytes) : Prop :=
  ∀ s members, decode content = some s → Json.pairs floatText s = some (.obj members) →
    ∃ name condition, (name, condition) ∈ methodParamCountConditions ∧
      EachChecked text members name condition

/-! ## entries -/

theorem mem_itemEntries {e : Entry} {items : List Json} :
    e ∈ itemEntries items ↔ ∃ v ∈ items, e ∈ entries v := by
  induction items with
  | nil => simp [itemEntries]
  | cons item items ih => simp [itemEntries, ih]

theorem mem_memberEntries {e : Entry} {members : List (PyStr × Json)} :
    e ∈ memberEntries members ↔ ∃ m ∈ members, e ∈ entries m.2 := by
  induction members with
  | nil => simp [memberEntries]
  | cons m members ih => simp [memberEntries, ih]

theorem mem_entries_obj {e : Entry} {members : List (PyStr × Json)} :
    e ∈ entries (.obj members) ↔
      (∃ k ∈ members.map Prod.fst, e = .key k) ∨ ∃ m ∈ members, e ∈ entries m.2 := by
  rw [entries, List.mem_append, mem_memberEntries]
  simp [eq_comm]

/-- A reading has no entries of its own. -/
theorem entries_of_reads {value value' : Json} (h : Reads value value') :
    ∀ e ∈ entries value', e ∈ entries value := by
  induction h with
  | arr hlength h ih =>
      intro e he
      obtain ⟨v', hv', he⟩ := mem_itemEntries.mp he
      obtain ⟨i, hi, rfl⟩ := List.getElem_of_mem hv'
      have hi' := hlength ▸ hi
      refine mem_itemEntries.mpr ⟨_, List.getElem_mem hi', ih (_, _) ?_ e he⟩
      exact List.mem_iff_getElem.mpr ⟨i, by rw [List.length_zip]; exact lt_min hi' hi, by simp⟩
  | obj occurrence hnodup hkeys hkept h ih =>
      intro e he
      obtain ⟨k, hk, rfl⟩ | ⟨m, hm, he⟩ := mem_entries_obj.mp he
      · exact mem_entries_obj.mpr (Or.inl ⟨k, (hkeys k).mp hk, rfl⟩)
      · exact mem_entries_obj.mpr (Or.inr ⟨_, hkept m hm, ih m hm e he⟩)
  | _ => exact fun e he => he

mutual

/-- Each entry is one of some reading. -/
theorem exists_reads_entry : ∀ (value : Json) (e : Entry), e ∈ entries value →
    ∃ value', Reads value value' ∧ e ∈ entries value'
  | .null, e, he => ⟨_, .null, he⟩
  | .bool b, e, he => ⟨_, .bool b, he⟩
  | .int n, e, he => ⟨_, .int n, he⟩
  | .float text, e, he => ⟨_, .float text, he⟩
  | .str s, e, he => ⟨_, .str s, he⟩
  | .arr items, e, he => by
      obtain ⟨v, hv, he⟩ := mem_itemEntries.mp he
      obtain ⟨v', hread, he⟩ := exists_reads_itemEntry items v hv e he
      obtain ⟨items', hreads, hmem⟩ := exists_reads_item hv hread
      exact ⟨_, hreads, mem_itemEntries.mpr ⟨v', hmem, he⟩⟩
  | .obj members, e, he => by
      obtain ⟨k, hk, rfl⟩ | ⟨m, hm, he⟩ := mem_entries_obj.mp he
      · have hreads := reads_lastWins (.obj members)
        cases hlast : lastWins (.obj members) with
        | obj members' =>
            rw [hlast] at hreads
            cases hreads with
            | obj _ _ hkeys _ _ =>
                exact ⟨_, hlast ▸ reads_lastWins (.obj members),
                  mem_entries_obj.mpr (Or.inl ⟨k, (hkeys k).mpr hk, rfl⟩)⟩
        | _ => simp [lastWins] at hlast
      · obtain ⟨v', hread, he⟩ := exists_reads_memberEntry members m hm e he
        obtain ⟨members', hreads, hmem⟩ := exists_reads_keeping hm hread
        exact ⟨_, hreads, mem_entries_obj.mpr (Or.inr ⟨_, hmem, he⟩)⟩

theorem exists_reads_itemEntry : ∀ items : List Json, ∀ v ∈ items, ∀ e ∈ entries v,
    ∃ v', Reads v v' ∧ e ∈ entries v'
  | [], _, h => absurd h List.not_mem_nil
  | item :: items, v, h => (List.mem_cons.mp h).elim
      (fun heq e he => heq ▸ exists_reads_entry item e (heq ▸ he)) (exists_reads_itemEntry items v)

theorem exists_reads_memberEntry : ∀ members : List (PyStr × Json), ∀ m ∈ members,
    ∀ e ∈ entries m.2, ∃ v', Reads m.2 v' ∧ e ∈ entries v'
  | [], _, h => absurd h List.not_mem_nil
  | (_, value) :: members, m, h => (List.mem_cons.mp h).elim
      (fun heq e he => by
        subst heq
        exact exists_reads_entry value e he) (exists_reads_memberEntry members m)

end

/-! ## calls -/

section Calls

variable {cfg : ReaderConfig} {floatText : String → String} {members members' : List (PyStr × Json)}
  {name key : String} {condition : ParamCount}

theorem get?_eq_some_iff (hnodup : (members.map Prod.fst).Nodup) {v : Json} :
    Json.get? members key = some v ↔ (ofString key, v) ∈ members := by
  have hget := get?_items ⟨members, hnodup⟩ key
  rw [hget, ← Dict.mem_items]

theorem get?_eq_none_iff (hnodup : (members.map Prod.fst).Nodup) :
    Json.get? members key = none ↔ ofString key ∉ members.map Prod.fst := by
  constructor
  · intro hnone hmem
    obtain ⟨m, hm, hkey⟩ := List.mem_map.mp hmem
    have hsome : Json.get? members key = some m.2 := (get?_eq_some_iff hnodup).mpr (hkey ▸ hm)
    rw [hnone] at hsome
    cases hsome
  · intro hnot
    rw [Option.eq_none_iff_forall_ne_some]
    exact fun v hv => hnot (List.mem_map_of_mem ((get?_eq_some_iff hnodup).mp hv))

/-- What is checked of a call of a method of the table. -/
structure CallChecked (text : PyText) (members : List (PyStr × Json)) (name : String)
    (condition : ParamCount) (items : List Json) : Prop where
  call : Call members (ofString name) items
  count : condition.validate items.length = true
  words : ∀ e ∈ entries (.arr items), matchesWord text e.text = true

theorem validate_method_iff (htable : (name, condition) ∈ methodParamCountConditions) :
    (validate cfg (.obj members) = .ok () ∧
        member (.obj members) "method" = some (.str (ofString name))) ↔
      ∃ items, CallChecked cfg.text members name condition items := by
  rw [Web3Proxy.validate_ok]
  simp only [← matchesWord_iff]
  constructor
  · rintro ⟨⟨_, items, hmembers, ⟨name', condition', htable', hcall, hcount⟩, hwords⟩, hmethod⟩
    cases hmembers
    have hname : ofString name' = ofString name := by
      have hmethod' : Json.get? members "method" = some (.str (ofString name)) := hmethod
      simpa [hcall.method] using hmethod'
    obtain rfl := ofString_injective hname
    have hcondition : some condition' = some condition :=
      (methodCondition_of_mem htable').symm.trans (methodCondition_of_mem htable)
    obtain rfl := Option.some.inj hcondition
    exact ⟨items, hcall, hcount, hwords⟩
  · rintro ⟨items, hcall, hcount, hwords⟩
    exact ⟨⟨members, items, rfl, ⟨name, condition, htable, hcall, hcount⟩, hwords⟩, hcall.method⟩

/-- A reading of an object. -/
theorem reads_obj {value : Json} (h : Reads (.obj members) value) : ∃ members',
    value = .obj members' ∧ (members'.map Prod.fst).Nodup ∧
      (∀ k, k ∈ members'.map Prod.fst ↔ k ∈ members.map Prod.fst) ∧
        ∀ k v', (k, v') ∈ members' → ∃ v, (k, v) ∈ members ∧ Reads v v' := by
  cases h with
  | obj occurrence hnodup hkeys hkept h =>
      exact ⟨_, rfl, hnodup, hkeys, fun k v' hm => ⟨_, hkept _ hm, h _ hm⟩⟩

/-- If each member is checked, every reading is a checked call. -/
theorem EachChecked.of_reads {items : List Json} {value : Json}
    (h : EachChecked cfg.text members name condition)
    (hlast : CallChecked cfg.text members' name condition items)
    (hkeys : ∀ k, k ∈ members'.map Prod.fst ↔ k ∈ members.map Prod.fst)
    (hnodup : (members'.map Prod.fst).Nodup) (hvalue : Reads (.obj members) value) :
    ∃ found, value = .obj found ∧ ∃ items, CallChecked cfg.text found name condition items := by
  obtain ⟨found, rfl, hnodup', hkeys', hreads⟩ := reads_obj hvalue
  refine ⟨found, rfl, ?_⟩
  -- what is in one reading is in the other
  have hsome {key : String} {v : Json} (hv : Json.get? members' key = some v) :
      ∃ w w', Json.get? found key = some w' ∧ (ofString key, w) ∈ members ∧ Reads w w' := by
    have hmem : ofString key ∈ found.map Prod.fst := by
      rw [hkeys', ← hkeys]
      exact List.mem_map_of_mem ((get?_eq_some_iff hnodup).mp hv)
    obtain ⟨m, hm, hkey⟩ := List.mem_map.mp hmem
    obtain ⟨w, hw, hread⟩ := hreads m.1 m.2 hm
    exact ⟨w, m.2, (get?_eq_some_iff hnodup').mpr (hkey ▸ hm), hkey ▸ hw, hread⟩
  obtain ⟨w, _, hjsonrpc, hw, hread⟩ := hsome hlast.call.jsonrpc
  obtain rfl := h.jsonrpc _ hw
  cases hread
  obtain ⟨_, hlastId, -⟩ := hlast.call.id
  obtain ⟨w, id, hid, hw, hread⟩ := hsome hlastId
  have hidType := h.id _ hw
  have hid' : id.type ∈ [PyType.int, .str, .noneType] := by
    cases hread <;> exact hidType
  obtain ⟨w, _, hmethod, hw, hread⟩ := hsome hlast.call.method
  obtain rfl := h.method _ hw
  cases hread
  cases hparams : Json.get? members' "params" with
  | none =>
      have hitems : items = [] := by
        have hcall := hlast.call.params
        rw [hparams] at hcall
        cases hcall
        rfl
      have hnone : Json.get? found "params" = none := by
        rw [get?_eq_none_iff hnodup', hkeys', ← hkeys]
        exact (get?_eq_none_iff hnodup).mp hparams
      exact ⟨[], ⟨hjsonrpc, ⟨id, hid, hid'⟩, hmethod, by rw [hnone]; rfl⟩, hitems ▸ hlast.count,
        hitems ▸ hlast.words⟩
  | some v =>
      obtain ⟨w, _, hfound, hw, hread⟩ := hsome hparams
      obtain ⟨all, rfl, hcount, hwords⟩ := h.params _ hw
      have hentries := entries_of_reads hread
      cases hread with
      | arr hlength _ =>
          exact ⟨_, ⟨hjsonrpc, ⟨id, hid, hid'⟩, hmethod, by rw [hfound]; rfl⟩, hlength ▸ hcount,
            fun e he => hwords e (hentries e he)⟩

/-- A call that is checked in every reading has each of its members checked. -/
theorem eachChecked_of_forall
    (h : ∀ found, Reads (.obj members) (.obj found) →
      ∃ items, CallChecked cfg.text found name condition items) :
    EachChecked cfg.text members name condition := by
  -- a reading in which the member counts, with the value `v'`
  have hcounts {key : String} {v v' : Json} (hv : (ofString key, v) ∈ members)
      (hread : Reads v v') :
      ∃ found items, Json.get? found key = some v' ∧
        CallChecked cfg.text found name condition items := by
    obtain ⟨found, hreads, hmem⟩ := exists_reads_keeping hv hread
    obtain ⟨_, hfound, hnodup, -⟩ := reads_obj hreads
    cases hfound
    obtain ⟨items, hcall⟩ := h found hreads
    exact ⟨found, items, (get?_eq_some_iff hnodup).mpr hmem, hcall⟩
  have hstr {v : Json} {s : PyStr} (hv : lastWins v = .str s) : v = .str s := by
    cases v with
    | str _ => exact hv
    | _ => simp [lastWins] at hv
  refine ⟨fun v hv => ?_, fun v hv => ?_, fun v hv => ?_, fun v hv => ?_⟩
  · obtain ⟨found, items, hget, hcall⟩ := hcounts hv (reads_lastWins v)
    exact hstr (Option.some.inj (hget.symm.trans hcall.call.jsonrpc))
  · obtain ⟨found, items, hget, hcall⟩ := hcounts hv (reads_lastWins v)
    obtain ⟨id, hid, htype⟩ := hcall.call.id
    obtain rfl := Option.some.inj (hget.symm.trans hid)
    cases v <;> exact htype
  · obtain ⟨found, items, hget, hcall⟩ := hcounts hv (reads_lastWins v)
    exact hstr (Option.some.inj (hget.symm.trans hcall.call.method))
  · have hitems {v' : Json} (hread : Reads v v') : ∃ items items', v = .arr items ∧
        v' = .arr items' ∧ condition.validate items.length = true ∧
          ∀ e ∈ entries v', matchesWord cfg.text e.text = true := by
      obtain ⟨found, items', hget, hcall⟩ := hcounts hv hread
      have hparams := hcall.call.params
      rw [hget, Option.getD_some] at hparams
      subst hparams
      cases hread with
      | arr hlength _ => exact ⟨_, items', rfl, rfl, hlength ▸ hcall.count, hcall.words⟩
    obtain ⟨items, _, rfl, _, hcount, _⟩ := hitems (reads_lastWins v)
    refine ⟨items, rfl, hcount, fun e he => ?_⟩
    obtain ⟨v', hread, he⟩ := exists_reads_entry _ e he
    obtain ⟨_, _, _, _, _, hwords⟩ := hitems hread
    exact hwords e he

end Calls

/-! ## results -/

section Results

variable {cfg : ReaderConfig} {floatText : String → String} {req parsed : RPCRequest}
  {content : Bytes}

/-- What is accepted: the last members of an object. -/
theorem exists_pairs_of_accepts {members' : List (PyStr × Json)}
    (hloads : cfg.text.loads = Json.loads floatText) (h : Accepts cfg content members') :
    ∃ s members, decode content = some s ∧ Json.pairs floatText s = some (.obj members) ∧
      lastWins (.obj members) = .obj members' := by
  have hvalue := h.loads
  rw [AcceptJSONRPCContentReader.loads, Option.bind_some, hloads] at hvalue
  obtain ⟨s, hs, hjson⟩ := Option.bind_eq_some_iff.mp hvalue
  rw [loads_eq] at hjson
  obtain ⟨all, hall, hlast⟩ := Option.map_eq_some_iff.mp hjson
  cases all with
  | obj members => exact ⟨s, members, hs, hall, hlast⟩
  | _ => simp [lastWins] at hlast

/-- **What is validated is what is forwarded**, in all readings of an accepted content, exactly
when the validators would take each of the repeated members. -/
theorem forwardsChecked_iff (hloads : cfg.text.loads = Json.loads floatText)
    (henabled : cfg.jsonRpcRequestParserEnabled = true) (hcontent : req.content = some content)
    (haccept : AcceptJSONRPCContentReader.readRequest cfg none req = .success parsed) :
    ForwardsChecked cfg floatText parsed ↔ AllChecked cfg.text floatText content := by
  have hparsed : readParsed cfg none req = .success parsed :=
    (readRequest_enabled none req henabled).symm.trans haccept
  obtain ⟨members', name, id, haccepts, hmethod, -, rfl⟩ :=
    (readParsed_eq_success_iff hcontent).mp hparsed
  obtain ⟨s, members, hs, hall, hlast⟩ := exists_pairs_of_accepts hloads haccepts
  have hreads : Reads (.obj members) (.obj members') := hlast ▸ reads_lastWins (.obj members)
  obtain ⟨_, hfound, hnodup, hkeys, hvalues⟩ := reads_obj hreads
  cases hfound
  obtain ⟨_, _, hmembers, ⟨name', condition, htable, hcall', hcount⟩, -⟩ :=
    Web3Proxy.validate_ok.mp haccepts.validate
  cases hmembers
  obtain rfl : name' = name := ofString_injective (by simpa [hcall'.method] using hmethod)
  obtain ⟨items, hcall⟩ := (validate_method_iff htable).mp ⟨haccepts.validate, hmethod⟩
  constructor
  · intro h s' all hs' hall'
    obtain rfl := Option.some.inj (hs.symm.trans hs')
    obtain rfl := Json.obj.inj (Option.some.inj (hall.symm.trans hall'))
    refine ⟨name', condition, htable, eachChecked_of_forall fun found hfound => ?_⟩
    exact (validate_method_iff htable).mp (h content _ hcontent ⟨s, _, hs, hall, hfound⟩)
  · rintro h content' value hcontent' ⟨s', all, hs', hall', hvalue⟩
    obtain rfl := Option.some.inj (hcontent.symm.trans hcontent')
    obtain rfl := Option.some.inj (hs.symm.trans hs')
    obtain rfl := Option.some.inj (hall.symm.trans hall')
    obtain ⟨name, condition', htable', heach⟩ := h s members hs hall
    -- the last method is one of the members, so that it is the method of all
    obtain ⟨w, hw, hread⟩ := hvalues _ _ ((get?_eq_some_iff hnodup).mp hmethod)
    obtain rfl := heach.method w hw
    have hname : ofString name' = ofString name := by
      generalize ofString name = other at hread
      generalize ofString name' = last at hread ⊢
      cases hread
      rfl
    obtain rfl := ofString_injective hname
    have hcondition : some condition' = some condition :=
      (methodCondition_of_mem htable').symm.trans (methodCondition_of_mem htable)
    obtain rfl := Option.some.inj hcondition
    obtain ⟨found, rfl, hfound⟩ := heach.of_reads hcall hkeys hnodup hvalue
    exact (validate_method_iff htable).mpr hfound

end Results

/-! ## a method before the last -/

/-- A request for a method of the node, which the proxy takes for a harmless one. -/
def twoMethods : String :=
  "\x7b\"method\":\"debug_setHead\",\"jsonrpc\":\"2.0\",\"id\":1,\"method\":\"eth_blockNumber\"\x7d"

/-- The request, and what it is passed on as. -/
def twoMethodsRequest : RPCRequest where
  content := some (str twoMethods)

def twoMethodsParsed : RPCRequest where
  content := some (str twoMethods)
  method := "eth_blockNumber"
  id := some (.int 1)

theorem forwardsChecked_iff_twoMethods :
    ForwardsChecked parserConfig id twoMethodsParsed ↔
      AllChecked asciiText id (str twoMethods) := by
  have haccept : AcceptJSONRPCContentReader.readRequest parserConfig none twoMethodsRequest =
      .success twoMethodsParsed := by decide +kernel
  exact forwardsChecked_iff rfl rfl rfl haccept

/-- The methods among the members of an object. -/
def methodsOf : Json → List PyStr
  | .obj members => members.filterMap fun m =>
      match m with
      | (key, .str s) => if key = ofString "method" then some s else none
      | _ => none
  | _ => []

theorem mem_of_methodsOf {all : Json} {s : PyStr} (h : s ∈ methodsOf all) :
    ∃ members, all = .obj members ∧ (ofString "method", .str s) ∈ members := by
  cases all with
  | obj members =>
      obtain ⟨⟨key, value⟩, hm, hs⟩ := List.mem_filterMap.mp h
      cases value with
      | str _ =>
          obtain ⟨rfl, heq⟩ := Option.ite_none_right_eq_some.mp hs
          obtain rfl := Option.some.inj heq
          exact ⟨members, rfl, hm⟩
      | _ => cases hs
  | _ => cases h

/-- The node may take the first method, which was not checked. -/
theorem not_forwardsChecked :
    AcceptJSONRPCContentReader.readRequest parserConfig none twoMethodsRequest =
        .success twoMethodsParsed ∧
      ¬ ForwardsChecked parserConfig id twoMethodsParsed := by
  refine ⟨by decide +kernel, fun h => ?_⟩
  have hmethods : (Json.pairs id twoMethods).map methodsOf =
      some [ofString "debug_setHead", ofString "eth_blockNumber"] := by decide +kernel
  obtain ⟨all, hall, hall'⟩ := Option.map_eq_some_iff.mp hmethods
  obtain ⟨members, rfl, hmem⟩ := mem_of_methodsOf (hall' ▸ List.mem_cons_self)
  obtain ⟨found, hreads, hfound⟩ := exists_reads_keeping hmem (.str _)
  obtain ⟨_, heq, hnodup, -⟩ := reads_obj hreads
  cases heq
  obtain ⟨-, hmethod⟩ := h _ _ rfl ⟨twoMethods, _, decode_str twoMethods, hall, hreads⟩
  have hget := (get?_eq_some_iff hnodup).mpr hfound
  have hsame : ofString "debug_setHead" = ofString "eth_blockNumber" :=
    Json.str.inj (Option.some.inj (hget.symm.trans hmethod))
  exact absurd hsame (by decide)

end Web3Proxy
