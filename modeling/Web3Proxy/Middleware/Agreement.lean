import Web3Proxy.JSONRPCValidators.Spec
import Web3Proxy.Lib.Json.Fuel
import Web3Proxy.Lib.Json.Scan
import Web3Proxy.Middleware.Replies
import Web3Proxy.Middleware.Tokens

/-!
# Web3Proxy.Middleware.Agreement

When the scanner of the disabled parser sets the method and the id that the parser sets
(`agrees_iff`): both must be spelled behind the last place of their keys in the content.
-/

namespace Web3Proxy

open Py Bytes PyStr

namespace AcceptJSONRPCContentReader

/-! ## places of a key -/

/-- A key as the scanner looks for it: quoted, with a colon, and perhaps a blank in front. -/
def marks (key : String) : List Bytes :=
  [str ("\"" ++ key ++ "\":"), str (" \"" ++ key ++ "\":")]

/-- A place of the key in the content: behind a comma, and in front of `text`. -/
def IsPlace (key : String) (content text : Bytes) : Prop :=
  ∃ before, ∃ mark ∈ marks key, content = before ++ 44 :: (mark ++ text)

/-- A place with no other behind it. -/
def IsLastPlace (key : String) (content text : Bytes) : Prop :=
  IsPlace key content text ∧ ∀ text', ¬ IsPlace key text text'

/-- The text up to its first comma or colon, without the first and the last byte. -/
def inside (text : Bytes) : Bytes :=
  ((text.takeWhile fun x => x ≠ 44 && x ≠ 58).drop 1).dropLast

/-- The word, but for quotes in it and white space around it. -/
def Spells (isSpace : Char → Bool) (text : Bytes) (word : List Char) : Prop :=
  ∃ s left right, Bytes.decode text = some s ∧
    s.toList.filter (· ≠ '"') = left ++ (word ++ right) ∧
    (∀ c ∈ left, isSpace c = true) ∧ (∀ c ∈ right, isSpace c = true) ∧
      (∀ c ∈ word.head?, isSpace c = false) ∧ ∀ c ∈ word.getLast?, isSpace c = false

/-- The word is spelled behind the last place of the key. -/
def SpelledAt (isSpace : Char → Bool) (key : String) (content : Bytes) (word : List Char) : Prop :=
  ∃ text, IsLastPlace key content text ∧ Spells isSpace (inside text) word

theorem marks_spec : ∀ key ∈ scannedKeys, ∀ mark ∈ marks key,
    44 ∉ mark ∧ mark = mark.dropLast ++ [58] ∧ 58 ∉ mark.dropLast := by decide +kernel

theorem hasKey_iff {key : String} {tok : Bytes} :
    hasKey key tok = true ↔ ∃ mark ∈ marks key, ∃ rest, tok = mark ++ rest := by
  simp only [hasKey, marks, Bool.or_eq_true, List.isPrefixOf_iff_prefix, List.mem_cons,
    List.not_mem_nil, or_false, exists_eq_or_imp, exists_eq_left]
  exact or_congr (exists_congr fun _ => eq_comm) (exists_congr fun _ => eq_comm)

section Places

variable {key : String} {t text : Bytes} {ts : List Bytes}

/-- A mark without commas that begins a text lies in the first field. -/
theorem mark_append_iff {mark : Bytes} (hmark : 44 ∉ mark) (ht : 44 ∉ t) :
    mark ++ text = t ++ fields 44 ts ↔ ∃ rest, t = mark ++ rest ∧ text = rest ++ fields 44 ts := by
  rw [List.append_eq_append_iff]
  constructor
  · rintro (⟨rest, rfl, rfl⟩ | ⟨rest, rfl, hfields⟩)
    · exact ⟨rest, rfl, rfl⟩
    · cases ts with
      | nil =>
          obtain ⟨rfl, rfl⟩ := List.append_eq_nil_iff.mp hfields.symm
          exact ⟨[], by simp, rfl⟩
      | cons u ts =>
          cases rest with
          | nil => exact ⟨[], by simp, hfields.symm⟩
          | cons x rest =>
              rw [fields_cons, List.cons_append, List.cons.injEq] at hfields
              rw [← hfields.1] at hmark
              exact absurd (List.mem_append_right t List.mem_cons_self) hmark
  · rintro ⟨rest, rfl, rfl⟩
    exact Or.inl ⟨rest, rfl, rfl⟩

/-- The places are the fields with the key, but for the first field. -/
theorem isPlace_fields (hkey : key ∈ scannedKeys) (h : ∀ u ∈ t :: ts, 44 ∉ u) :
    IsPlace key (t ++ fields 44 ts) text ↔
      ∃ before after, ∃ mark ∈ marks key, ∃ rest, ts = before ++ (mark ++ rest) :: after ∧
        text = rest ++ fields 44 after := by
  induction ts generalizing t with
  | nil =>
      constructor
      · rintro ⟨before, mark, -, hcontent⟩
        rw [fields, List.flatMap_nil, List.append_nil] at hcontent
        exact absurd (hcontent ▸ List.mem_append_right before List.mem_cons_self)
          (h t List.mem_cons_self)
      · rintro ⟨before, after, mark, -, rest, hts, -⟩
        cases before <;> cases hts
  | cons u ts ih =>
      have hu := List.forall_mem_cons.mp (List.forall_mem_cons.mp h).2
      have ih := ih (List.forall_mem_cons.mp h).2
      rw [fields_cons]
      constructor
      · rintro ⟨before, mark, hmark, hcontent⟩
        rw [eq_comm, append_cons_eq_iff (h t List.mem_cons_self)] at hcontent
        obtain ⟨rfl, htext⟩ | ⟨before', rfl, htext⟩ := hcontent
        · obtain ⟨rest, rfl, rfl⟩ := (mark_append_iff (marks_spec key hkey mark hmark).1 hu.1).mp htext
          exact ⟨[], ts, mark, hmark, rest, rfl, rfl⟩
        · obtain ⟨before, after, mark, hmark, rest, rfl, rfl⟩ := ih.mp ⟨before', mark, hmark, htext.symm⟩
          exact ⟨u :: before, after, mark, hmark, rest, rfl, rfl⟩
      · rintro ⟨before, after, mark, hmark, rest, hts, rfl⟩
        cases before with
        | nil =>
            obtain ⟨rfl, rfl⟩ := List.cons.inj hts
            exact ⟨t, mark, hmark, by rw [List.append_assoc]⟩
        | cons v before =>
            obtain ⟨rfl, rfl⟩ := List.cons.inj hts
            obtain ⟨before', mark', hmark', hcontent⟩ :=
              ih.mpr ⟨before, after, mark, hmark, rest, rfl, rfl⟩
            exact ⟨t ++ 44 :: before', mark', hmark', by rw [hcontent]; simp⟩

/-- What stands behind a mark has no commas but those between fields. -/
theorem comma_not_mem {mark rest : Bytes} {before after : List Bytes}
    (h : ∀ u ∈ t :: (before ++ (mark ++ rest) :: after), 44 ∉ u) : ∀ v ∈ rest :: after, 44 ∉ v := by
  have hafter := (List.forall_mem_append.mp (List.forall_mem_cons.mp h).2).2
  rw [List.forall_mem_cons] at hafter ⊢
  exact ⟨fun hmem => hafter.1 (List.mem_append_right mark hmem), hafter.2⟩

theorem isLastPlace_fields (hkey : key ∈ scannedKeys) (h : ∀ u ∈ t :: ts, 44 ∉ u) :
    IsLastPlace key (t ++ fields 44 ts) text ↔
      ∃ before after, ∃ mark ∈ marks key, ∃ rest, ts = before ++ (mark ++ rest) :: after ∧
        text = rest ++ fields 44 after ∧ ∀ u ∈ after, hasKey key u = false := by
  rw [IsLastPlace, isPlace_fields hkey h]
  constructor
  · rintro ⟨⟨before, after, mark, hmark, rest, rfl, rfl⟩, hlast⟩
    refine ⟨before, after, mark, hmark, rest, rfl, rfl, fun u hu => ?_⟩
    have hafter : ∀ v ∈ rest :: after, 44 ∉ v := comma_not_mem h
    by_contra hfound
    obtain ⟨mark', hmark', rest', rfl⟩ := hasKey_iff.mp (by simpa using hfound)
    obtain ⟨before', after', rfl⟩ := List.append_of_mem hu
    exact hlast _ ((isPlace_fields hkey hafter).mpr
      ⟨before', after', mark', hmark', rest', rfl, rfl⟩)
  · rintro ⟨before, after, mark, hmark, rest, rfl, rfl, hnone⟩
    have hafter : ∀ v ∈ rest :: after, 44 ∉ v := comma_not_mem h
    refine ⟨⟨before, after, mark, hmark, rest, rfl, rfl⟩, fun text' hplace => ?_⟩
    obtain ⟨before', after', mark', hmark', rest', rfl, -⟩ := (isPlace_fields hkey hafter).mp hplace
    have hfound := hasKey_iff.mpr ⟨mark', hmark', rest', rfl⟩
    rw [hnone _ (List.mem_append_right before' List.mem_cons_self)] at hfound
    cases hfound

end Places

/-! ## what is cut out of a token -/

section Cut

variable {cfg : ReaderConfig} {key word : String} {rest : Bytes} {after : List Bytes}

theorem spells_iff {text : Bytes} :
    ((Bytes.decode text).map fun s =>
      let cs := s.toList.filter (· ≠ '"')
      String.ofList ((cs.dropWhile cfg.text.isSpace).reverse.dropWhile cfg.text.isSpace).reverse) =
        some word ↔ Spells cfg.text.isSpace text word.toList := by
  have hword (cs : List Char) : String.ofList cs = word ↔ cs = word.toList := by
    constructor
    · rintro rfl
      rw [String.toList_ofList]
    · rintro rfl
      rw [String.ofList_toList]
  simp only [Option.map_eq_some_iff, Spells, hword, trim_eq_iff, exists_and_left]

/-- The token is cut at its first two colons. -/
theorem tokenValue_mark {mark : Bytes} (hkey : key ∈ scannedKeys) (hmark : mark ∈ marks key)
    (hrest : 44 ∉ rest) :
    tokenValue cfg (mark ++ rest) = (Bytes.decode (inside (rest ++ fields 44 after))).map fun s =>
      let cs := s.toList.filter (· ≠ '"')
      String.ofList
        ((cs.dropWhile cfg.text.isSpace).reverse.dropWhile cfg.text.isSpace).reverse := by
  obtain ⟨-, hcolon, hname⟩ := marks_spec key hkey mark hmark
  have hsplit : (mark ++ rest).splitOn 58 = mark.dropLast :: rest.splitOn 58 := by
    have htext : mark ++ rest = mark.dropLast ++ 58 :: rest := by
      rw [hcolon, List.append_assoc, ← hcolon]
      rfl
    rw [htext, List.splitOn_append_cons_self_of_not_mem hname]
  have hpart : (rest.splitOn 58).getD 0 [] = rest.takeWhile (· ≠ 58) := by
    rw [← headD_splitOn]
    cases rest.splitOn 58 <;> rfl
  rw [tokenValue, hsplit, List.getD_cons_succ, hpart, inside, takeWhile_fields after hrest]

/-- What a token of the key gives. -/
theorem tokenValue_eq_some_iff {mark : Bytes} (hkey : key ∈ scannedKeys) (hmark : mark ∈ marks key)
    (hrest : 44 ∉ rest) : tokenValue cfg (mark ++ rest) = some word ↔
      Spells cfg.text.isSpace (inside (rest ++ fields 44 after)) word.toList := by
  rw [tokenValue_mark hkey hmark hrest, spells_iff]

theorem isSome_tokenValue {mark : Bytes} (hkey : key ∈ scannedKeys) (hmark : mark ∈ marks key)
    (hrest : 44 ∉ rest) : (tokenValue cfg (mark ++ rest)).isSome =
      (Bytes.decode (inside (rest ++ fields 44 after))).isSome := by
  rw [@tokenValue_mark _ _ _ after _ hkey hmark hrest, Option.isSome_map]

end Cut

/-! ## what is found in the content -/

section Found

variable {cfg : ReaderConfig} {content : Bytes}

/-- The last element with a property. -/
theorem getLast?_filter_eq_some_iff {α : Type} {p : α → Bool} {l : List α} {x : α} :
    (l.filter p).getLast? = some x ↔
      ∃ before after, l = before ++ x :: after ∧ p x = true ∧ ∀ y ∈ after, p y = false := by
  rw [List.getLast?_eq_head?_reverse, ← List.filter_reverse, List.head?_filter,
    List.find?_eq_some_iff_append]
  constructor
  · rintro ⟨hx, as, bs, hl, has⟩
    refine ⟨bs.reverse, as.reverse, ?_, hx, fun y hy => by simpa using has y (List.mem_reverse.mp hy)⟩
    rw [List.reverse_eq_iff] at hl
    simp [hl]
  · rintro ⟨before, after, rfl, hx, hafter⟩
    refine ⟨hx, after.reverse, before.reverse, by simp, fun y hy => ?_⟩
    rw [hafter y (List.mem_reverse.mp hy)]
    rfl

/-- The content does not begin with a key. -/
def StartsElsewhere (content : Bytes) : Prop :=
  ∀ key ∈ scannedKeys, ∀ mark ∈ marks key, ¬ mark <+: content

/-- **What the scanner finds** is what the last place spells. -/
theorem lastValue_eq_some_iff (hstart : StartsElsewhere content) {key word : String}
    (hkey : key ∈ scannedKeys) :
    lastValue cfg key (content.splitOn 44) = some word ↔
      SpelledAt cfg.text.isSpace key content word.toList := by
  obtain ⟨t, ts, rfl, h⟩ := exists_fields 44 content
  have hfirst : hasKey key t = false := by
    by_contra hfound
    obtain ⟨mark, hmark, rest, rfl⟩ := hasKey_iff.mp (by simpa using hfound)
    exact hstart key hkey mark hmark (by simp)
  rw [splitOn_fields h, lastValue, List.filter_cons, hfirst, SpelledAt]
  simp only [Bool.false_eq_true, if_false, Option.bind_eq_some_iff, getLast?_filter_eq_some_iff,
    isLastPlace_fields hkey h]
  constructor
  · rintro ⟨tok, ⟨before, after, rfl, hfound, hnone⟩, hvalue⟩
    obtain ⟨mark, hmark, rest, rfl⟩ := hasKey_iff.mp hfound
    have hrest := comma_not_mem h rest List.mem_cons_self
    exact ⟨_, ⟨before, after, mark, hmark, rest, rfl, rfl, hnone⟩,
      (tokenValue_eq_some_iff hkey hmark hrest).mp hvalue⟩
  · rintro ⟨text, ⟨before, after, mark, hmark, rest, rfl, rfl, hnone⟩, hspells⟩
    have hrest := comma_not_mem h rest List.mem_cons_self
    exact ⟨_, ⟨before, after, rfl, hasKey_iff.mpr ⟨mark, hmark, rest, rfl⟩, hnone⟩,
      (tokenValue_eq_some_iff hkey hmark hrest).mpr hspells⟩

/-- What the scanner cuts out must be UTF-8. -/
theorem all_isReadable_iff (hstart : StartsElsewhere content) :
    (content.splitOn 44).all (isReadable cfg) = true ↔
      ∀ key ∈ scannedKeys, ∀ text, IsPlace key content text →
        (Bytes.decode (inside text)).isSome = true := by
  obtain ⟨t, ts, rfl, h⟩ := exists_fields 44 content
  rw [splitOn_fields h, List.all_eq_true]
  constructor
  · intro hall key hkey text hplace
    obtain ⟨before, after, mark, hmark, rest, rfl, rfl⟩ := (isPlace_fields hkey h).mp hplace
    have hrest := comma_not_mem h rest List.mem_cons_self
    have hfound := hasKey_iff.mpr ⟨mark, hmark, rest, rfl⟩
    have hvalue := isReadable_iff.mp (hall (mark ++ rest) (by simp)) key hkey hfound
    rwa [@isSome_tokenValue cfg _ _ after _ hkey hmark hrest] at hvalue
  · intro hall tok htok
    refine isReadable_iff.mpr fun key hkey hfound => ?_
    obtain ⟨mark, hmark, rest, rfl⟩ := hasKey_iff.mp hfound
    obtain rfl | htok := List.mem_cons.mp htok
    · exact absurd (by simp) (hstart key hkey mark hmark)
    · obtain ⟨before, after, rfl⟩ := List.append_of_mem htok
      have hrest := comma_not_mem h rest List.mem_cons_self
      rw [@isSome_tokenValue cfg _ _ after _ hkey hmark hrest]
      exact hall key hkey _
        ((isPlace_fields hkey h).mpr ⟨before, after, mark, hmark, rest, rfl, rfl⟩)

end Found

/-! ## the two paths -/

section Paths

variable {cfg : ReaderConfig} {floatText : String → String} {req : RPCRequest} {content : Bytes}

/-- An object does not begin with a quote. -/
theorem startsElsewhere (hloads : cfg.text.loads = Json.loads floatText)
    {members : List (PyStr × Json)} (h : loads cfg (some content) = some (.obj members)) :
    StartsElsewhere content := by
  rw [loads, Option.bind_some, hloads, Option.bind_eq_some_iff] at h
  obtain ⟨s, hs, hobj⟩ := h
  have hdecode : Json.decode floatText s.toList = some (.obj members) := by
    unfold Json.loads at hobj
    split at hobj
    · cases hobj
    · exact hobj
  rintro key - mark hmark ⟨rest, hcontent⟩
  have hstr : str s = mark ++ rest := (str_of_decode hs).trans hcontent.symm
  simp only [marks, List.mem_cons, List.not_mem_nil, or_false] at hmark
  obtain ⟨cs, hquote⟩ : ∃ cs, Json.skip s.toList = '"' :: cs := by
    obtain rfl | rfl := hmark
    · have hmark : str ("\"" ++ key ++ "\":") = 34 :: str (key ++ "\":") := by
        rw [String.append_assoc, str_append]
        rfl
      rw [hmark, List.cons_append] at hstr
      obtain ⟨cs, hcs, -⟩ := toList_of_str_eq_cons (by decide) hstr
      exact ⟨cs, by rw [hcs]; rfl⟩
    · have hmark : str (" \"" ++ key ++ "\":") = 32 :: 34 :: str (key ++ "\":") := by
        rw [String.append_assoc, str_append]
        rfl
      rw [hmark, List.cons_append, List.cons_append] at hstr
      obtain ⟨cs, hcs, htail⟩ := toList_of_str_eq_cons (by decide) hstr
      obtain ⟨cs', hcs', -⟩ := toList_of_str_eq_cons (by decide) htail
      rw [String.toList_ofList] at hcs'
      exact ⟨cs', by rw [hcs, hcs']; rfl⟩
  obtain ⟨s', hs'⟩ := Json.decode_quote hquote hdecode
  cases hs'

/-- The content is a request that the validators accept. -/
structure Accepts (cfg : ReaderConfig) (content : Bytes) (members : List (PyStr × Json)) : Prop where
  loads : loads cfg (some content) = some (.obj members)
  validate : validate cfg (.obj members) = .ok ()

/-- What the parser sets. -/
theorem readParsed_eq_success_iff (hcontent : req.content = some content) {parsed : RPCRequest} :
    readParsed cfg none req = .success parsed ↔
      ∃ members name id, Accepts cfg content members ∧
        Json.get? members "method" = some (.str (ofString name)) ∧
        Json.get? members "id" = some id ∧
          parsed = { req with method := name, id := idOf id } := by
  constructor
  · intro h
    rw [readParsed, hcontent] at h
    split at h
    · exact absurd h failureReply_ne_success
    · next value hvalue =>
      split at h
      · exact absurd h failureReply_ne_success
      · exact absurd h failure_ne_success
      · next hok =>
        obtain ⟨members, items, rfl, ⟨name, condition, -, hcall, -⟩, -⟩ := Web3Proxy.validate_ok.mp hok
        obtain ⟨id, hid, -⟩ := hcall.id
        have hmethod : member (.obj members) "method" = some (.str (ofString name)) := hcall.method
        have hmemberId : member (.obj members) "id" = some id := hid
        rw [hmethod, hmemberId] at h
        cases h
        exact ⟨members, name, id, ⟨hvalue, hok⟩, hcall.method, hid, by
          rw [asString_ofString, hcontent]⟩
  · rintro ⟨members, name, id, haccepts, hmethod, hid, rfl⟩
    have hmember : member (.obj members) "method" = some (.str (ofString name)) := hmethod
    have hmemberId : member (.obj members) "id" = some id := hid
    rw [readParsed, hcontent, haccepts.loads]
    dsimp only
    rw [haccepts.validate]
    dsimp only
    rw [hmember, hmemberId]
    simp only [asString_ofString]
    rfl

/-- What is set as the id, as text. -/
def rendering : Option RequestId → PyStr
  | none => ofString "null"
  | some (.int n) => ofString (toString n)
  | some (.str s) => s

/-- When the full path accepts the request, the other path succeeds with the same method
and the text of the id. -/
def Agrees (cfg : ReaderConfig) (req : RPCRequest) : Prop :=
  ∀ parsed, readRequest { cfg with jsonRpcRequestParserEnabled := true } none req = .success parsed →
    ∃ scanned,
      readRequest { cfg with jsonRpcRequestParserEnabled := false } none req = .success scanned ∧
        scanned.method = parsed.method ∧ scanned.id = some (.str (rendering parsed.id))

/-- The method and the id are spelled behind the last places of their keys, and what
stands behind a place is UTF-8. -/
structure IsSpelledOut (isSpace : Char → Bool) (content : Bytes) (method : String) (id : PyStr) :
    Prop where
  readable : ∀ key ∈ scannedKeys, ∀ text, IsPlace key content text →
    (Bytes.decode (inside text)).isSome = true
  method : SpelledAt isSpace "method" content method.toList
  id : ∃ text : String, id = ofString text ∧ SpelledAt isSpace "id" content text.toList

/-- What the scanner sets. -/
theorem readTokens_eq_success_iff (hcontent : req.content = some content)
    (hstart : StartsElsewhere content) {name : String} {id : PyStr} :
    (∃ scanned, readTokens cfg none req = .success scanned ∧ scanned.method = name ∧
      scanned.id = some (.str id)) ↔ IsSpelledOut cfg.text.isSpace content name id := by
  have hmethod : "method" ∈ scannedKeys := List.mem_cons_of_mem _ List.mem_cons_self
  have hid : "id" ∈ scannedKeys := List.mem_cons_self
  rw [readTokens_eq hcontent]
  constructor
  · rintro ⟨scanned, hscanned, rfl, hscannedId⟩
    split at hscanned
    · next hreadable =>
      split at hscanned
      · exact absurd hscanned failureReply_ne_success
      · next method hfound =>
        cases hscanned
        obtain ⟨text, htext, heq⟩ := Option.map_eq_some_iff.mp hscannedId
        obtain rfl := RequestId.str.inj heq
        exact ⟨(all_isReadable_iff hstart).mp hreadable,
          (lastValue_eq_some_iff hstart hmethod).mp hfound,
          text, rfl, (lastValue_eq_some_iff hstart hid).mp htext⟩
    · cases hscanned
  · rintro ⟨hreadable, hspelled, text, rfl, htext⟩
    rw [if_pos ((all_isReadable_iff hstart).mpr hreadable),
      (lastValue_eq_some_iff hstart hmethod).mpr hspelled,
      (lastValue_eq_some_iff hstart hid).mpr htext]
    exact ⟨_, rfl, rfl, rfl⟩

/-- **The two paths agree** if and only if what the parser finds in an accepted content is
spelled out in it. -/
theorem agrees_iff (hloads : cfg.text.loads = Json.loads floatText)
    (hcontent : req.content = some content) :
    Agrees cfg req ↔ ∀ members name id, Accepts cfg content members →
      Json.get? members "method" = some (.str (ofString name)) →
        Json.get? members "id" = some id →
          IsSpelledOut cfg.text.isSpace content name (rendering (idOf id)) := by
  have hparsed (parsed : RPCRequest) :
      readRequest { cfg with jsonRpcRequestParserEnabled := true } none req = .success parsed ↔ _ :=
    readParsed_eq_success_iff hcontent
  constructor
  · intro hagrees members name id haccepts hmethod hid
    have hstart := startsElsewhere hloads haccepts.loads
    have hscanned := hagrees _ ((hparsed _).mpr
      ⟨members, name, id, ⟨haccepts.loads, haccepts.validate⟩, hmethod, hid, rfl⟩)
    exact (@readTokens_eq_success_iff { cfg with jsonRpcRequestParserEnabled := false } _ _ hcontent
      hstart _ _).mp hscanned
  · intro hspelled parsed hsuccess
    obtain ⟨members, name, id, haccepts, hmethod, hid, rfl⟩ := (hparsed parsed).mp hsuccess
    have haccepts : Accepts cfg content members := ⟨haccepts.loads, haccepts.validate⟩
    have hstart := startsElsewhere hloads haccepts.loads
    exact (@readTokens_eq_success_iff { cfg with jsonRpcRequestParserEnabled := false } _ _ hcontent
      hstart _ _).mpr (hspelled members name id haccepts hmethod hid)

end Paths

/-! ## a number in the middle -/

/-- A request that asks for the number of the latest block. -/
def blockNumber (id : String) : RPCRequest where
  content := some (str ("\x7b\"jsonrpc\":\"2.0\"," ++ id ++ ",\"method\":\"eth_blockNumber\"\x7d"))

theorem agrees_iff_blockNumber :
    Agrees parserConfig (blockNumber "\"id\": 12 ") ↔
      ∀ members name id,
        Accepts parserConfig ((blockNumber "\"id\": 12 ").content.getD []) members →
          Json.get? members "method" = some (.str (ofString name)) →
            Json.get? members "id" = some id →
              IsSpelledOut PyStr.isSpace ((blockNumber "\"id\": 12 ").content.getD []) name
                (rendering (idOf id)) :=
  agrees_iff rfl rfl

/-- The digits of a number that directly follows the colon are cut off. -/
theorem not_agrees : ¬ Agrees parserConfig (blockNumber "\"id\":12") := by
  intro hagrees
  have hparsed : readRequest { parserConfig with jsonRpcRequestParserEnabled := true } none
      (blockNumber "\"id\":12") = .success { blockNumber "\"id\":12" with
        method := "eth_blockNumber", id := some (.int 12) } := by decide +kernel
  have hscanned : readRequest { parserConfig with jsonRpcRequestParserEnabled := false } none
      (blockNumber "\"id\":12") = .success { blockNumber "\"id\":12" with
        method := "eth_blockNumber", id := some (.str []) } := by decide +kernel
  obtain ⟨scanned, hsuccess, -, hid⟩ := hagrees _ hparsed
  rw [hscanned] at hsuccess
  cases hsuccess
  cases hid

end AcceptJSONRPCContentReader

end Web3Proxy
