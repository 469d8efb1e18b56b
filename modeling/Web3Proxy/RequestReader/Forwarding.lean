import Web3Proxy.RequestReader.Framing

/-!
# Web3Proxy.RequestReader.Forwarding

Whether the request that is sent to the endpoint says what the client's request said.

`as_bytearray` writes the stored header lines, the endpoint's `Host` line and the
content.  The content has been taken out of its framing and the header lines
describe the framing it had, so a chunked request is not a request any more when it
is sent; and the path is the one of the last `on_url` call with a separator in it.
`forwardsAsSent_iff` is the exact condition.
-/

namespace Web3Proxy

open Py Bytes Http RequestReader

/-! ## targets -/

/-- The target of a key, or of a key and a path. -/
def targetOf (key : Bytes) : Option Bytes → Bytes
  | none => 47 :: key
  | some path => 47 :: key ++ 47 :: path

/-- The path is where the first separator after the key is. -/
theorem separator_of_targetOf {key : Bytes} {path : Option Bytes} (hkey : 47 ∉ key) {j : Nat}
    (hj : 1 ≤ j) (hsep : (targetOf key path)[j]? = some 47) :
    key.length + 1 ≤ j ∧ path ≠ none := by
  have hbefore : ∀ i : Nat, i < key.length → key[i]? ≠ some 47 := by
    intro i _ hi
    exact hkey (List.mem_of_getElem? hi)
  obtain ⟨i, rfl⟩ : ∃ i, j = i + 1 := ⟨j - 1, by omega⟩
  cases path with
  | none =>
      simp only [targetOf, List.getElem?_cons_succ] at hsep
      exact absurd (List.mem_of_getElem? hsep) hkey
  | some path =>
      simp only [targetOf, List.cons_append, List.getElem?_cons_succ] at hsep
      by_cases hi : i < key.length
      · rw [List.getElem?_append_left hi] at hsep
        exact absurd hsep (hbefore i hi)
      · exact ⟨by omega, by simp⟩

/-- Where the separator is that a fragment is split at. -/
theorem urlRest_eq_some_iff {url rest : Bytes} :
    urlRest url = some rest ↔ ∃ k, url.find 47 1 = some k ∧ url.drop (k + 1) = rest := by
  simp [urlRest]

section Fragments

variable {key : Bytes} {path : Option Bytes}

/-- What a fragment has after its separator and what the later fragments have is part
of the path. -/
theorem urlRest_fragment (hkey : 47 ∉ key) {us vs : List Bytes} {u rest : Bytes}
    (htarget : (us ++ u :: vs).flatten = targetOf key path) (hrest : urlRest u = some rest) :
    ∃ p, path = some p ∧ rest.length + vs.flatten.length ≤ p.length ∧
      (rest.length + vs.flatten.length = p.length → us.flatten.length ≤ key.length) := by
  obtain ⟨k, hk, rfl⟩ := urlRest_eq_some_iff.mp hrest
  obtain ⟨hle, hsep, -⟩ := find_eq_some.mp hk
  have hlt := (List.getElem?_eq_some_iff.mp hsep).1
  simp only [List.flatten_append, List.flatten_cons] at htarget
  have hat : (targetOf key path)[us.flatten.length + k]? = some 47 := by
    rw [← htarget, List.getElem?_append_right (by omega), List.getElem?_append_left (by omega)]
    simpa using hsep
  obtain ⟨hafter, hsome⟩ := separator_of_targetOf hkey (by omega) hat
  cases path with
  | none => exact absurd rfl hsome
  | some p =>
      have hlength := congrArg List.length htarget
      simp only [targetOf, List.length_append, List.length_cons] at hlength
      refine ⟨p, rfl, ?_, fun hall => ?_⟩
      · rw [List.length_drop]
        omega
      · rw [List.length_drop] at hall
        omega

/-- The path is stored when the last fragment begins before the separator. -/
theorem urlRest_last (hkey : 47 ∉ key) {w u p : Bytes} (htarget : w ++ u = targetOf key (some p))
    (hle : w.length ≤ key.length) : urlRest u = some p := by
  have hu : u = (47 :: key).drop w.length ++ 47 :: p := by
    have hdrop := congrArg (List.drop w.length) htarget
    rw [List.drop_left, targetOf, List.drop_append_of_le_length (by simp; omega)] at hdrop
    exact hdrop
  have hlength : ((47 :: key).drop w.length).length = key.length + 1 - w.length := by simp
  have hfind : u.find 47 1 = some (key.length + 1 - w.length) := by
    rw [find_eq_some]
    refine ⟨by omega, ?_, fun j hj hlt hsep => ?_⟩
    · rw [hu, List.getElem?_append_right (by omega), hlength]
      simp
    · rw [hu, List.getElem?_append_left (by omega), List.getElem?_drop] at hsep
      obtain ⟨i, hi⟩ : ∃ i, w.length + j = i + 1 := ⟨w.length + j - 1, by omega⟩
      rw [hi, List.getElem?_cons_succ] at hsep
      exact hkey (List.mem_of_getElem? hsep)
  rw [urlRest_eq_some_iff]
  refine ⟨_, hfind, ?_⟩
  rw [hu, ← hlength, List.drop_length_add_append]
  rfl

/-- The path that is stored. -/
theorem stored_path (hkey : 47 ∉ key) {us : List Bytes} (hus : ∀ u ∈ us, u ≠ [])
    (htarget : us.flatten = targetOf key path) :
    (∀ rest, us.reverse.findSome? urlRest = some rest →
        ∃ p, path = some p ∧ rest.length ≤ p.length) ∧
      ∀ p, path = some p →
        (us.reverse.findSome? urlRest = some p ↔ us.dropLast.flatten.length ≤ key.length) := by
  have hsplit (rest : Bytes) (h : us.reverse.findSome? urlRest = some rest) :
      ∃ vs u ws, us = vs ++ u :: ws ∧ urlRest u = some rest := by
    obtain ⟨u, hu, hrest⟩ := List.exists_of_findSome?_eq_some h
    obtain ⟨vs, ws, hvs⟩ := List.append_of_mem (List.mem_reverse.mp hu)
    exact ⟨vs, u, ws, hvs, hrest⟩
  constructor
  · intro rest h
    obtain ⟨vs, u, ws, rfl, hrest⟩ := hsplit rest h
    obtain ⟨p, hp, hle, -⟩ := urlRest_fragment hkey htarget hrest
    exact ⟨p, hp, by omega⟩
  · intro p hp
    subst hp
    constructor
    · intro h
      obtain ⟨vs, u, ws, rfl, hrest⟩ := hsplit p h
      obtain ⟨q, hq, hle, hfirst⟩ := urlRest_fragment hkey htarget hrest
      cases hq
      -- nothing of the target is left for later fragments
      have hws : ws = [] := by
        cases ws with
        | nil => rfl
        | cons w ws =>
            have hw := List.length_pos_iff.mpr (hus w (by simp))
            rw [List.flatten_cons, List.length_append] at hle
            omega
      subst hws
      simpa using hfirst (by simp)
    · intro hle
      have hne : us ≠ [] := by
        rintro rfl
        simp [targetOf] at htarget
      have hlast := List.dropLast_append_getLast hne
      rw [← hlast, List.flatten_append, List.flatten_singleton] at htarget
      have hrest := urlRest_last hkey htarget hle
      rw [← hlast, List.reverse_append]
      simp [hrest]

end Fragments

/-- The target that `as_bytearray` writes. -/
def sentTarget (urlContext urlPath : Bytes) : Bytes :=
  47 :: if urlContext = [] then urlPath
    else if urlPath = [] then urlContext else urlContext ++ 47 :: urlPath

/-- When the target that is written is the one that was asked for. -/
theorem targetOf_eq_sentTarget {key urlContext : Bytes} {path : Option Bytes} (hkey : 47 ∉ key)
    (hpath : path ≠ some []) {us : List Bytes} (hus : ∀ u ∈ us, u ≠ [])
    (htarget : us.flatten = targetOf key path) :
    targetOf urlContext path = sentTarget urlContext ((us.reverse.findSome? urlRest).getD []) ↔
      path = none ∨ urlContext ≠ [] ∧ us.dropLast.flatten.length ≤ key.length := by
  obtain ⟨hshort, hstored⟩ := stored_path hkey hus htarget
  cases path with
  | none =>
      have hnone : us.reverse.findSome? urlRest = none := by
        cases hrest : us.reverse.findSome? urlRest with
        | none => rfl
        | some rest =>
            obtain ⟨p, hp, -⟩ := hshort rest hrest
            cases hp
      by_cases hctx : urlContext = [] <;> simp [hnone, targetOf, sentTarget, hctx]
  | some p =>
      have hp : p ≠ [] := fun h => hpath (by rw [h])
      rw [← hstored p rfl]
      cases hrest : us.reverse.findSome? urlRest with
      | none =>
          have hlength : urlContext ++ 47 :: p ≠ urlContext := by simp
          by_cases hctx : urlContext = [] <;> simp [targetOf, sentTarget, hctx, hlength]
      | some rest =>
          obtain ⟨q, hq, hle⟩ := hshort rest hrest
          cases hq
          have hlonger : 47 :: p ≠ rest := by
            rintro rfl
            rw [List.length_cons] at hle
            omega
          by_cases hctx : urlContext = []
          · simp [targetOf, sentTarget, hctx, hlonger]
          · by_cases hempty : rest = []
            · simp [targetOf, sentTarget, hctx, hempty, hp.symm]
            · simp [targetOf, sentTarget, hctx, hempty, eq_comm]

/-! ## what is sent -/

/-- The header list of a client's request without the fields that the proxy keeps. -/
def clientFields (m : Message) : List (Bytes × Bytes) :=
  (m.fields.map Field.pair).filter fun f => RPCRequest.IsStored f

/-- The field line that is written for a field that is handed on with these blanks. -/
def sentField (f : Bytes × Bytes) (blanks : Bytes) : Field :=
  { name := f.1, value := f.2, after := blanks }

/-- The endpoint's `Host` field. -/
def hostField (host : String) : Field := { name := str "Host", value := str host }

/-- What is sent to the endpoint for a client's message parses as one POST request that
says what the client's message said. -/
def ForwardsAsSent (h : HttpTools) (m : Message) (path : Option Bytes) (cs : List Bytes)
    (host apiKey : String) : Prop :=
  ∃ req bytes req', (readRequest h none (cs.map .data) {}).1.request? = some req ∧
    (RequestSender.new host apiKey).request req = .ok bytes req' ∧
    ∃ m' : Message, m'.WellFormed ∧ m'.wire = bytes ∧ m'.method = str "POST" ∧
      m'.target = targetOf (str apiKey) path ∧
      m'.fields.map Field.pair = clientFields m ++ [(str "Host", str host)] ∧
      m'.body.content = m.body.content

theorem wire_sentField (f : Bytes × Bytes) (blanks : Bytes) :
    (sentField f blanks).wire = RPCRequest.headerLine (f.1, f.2 ++ blanks) := by
  have hcolon : str ": " = [58, 32] := by decide
  simp [sentField, Field.wire, Field.line, RPCRequest.headerLine, hcolon]

theorem sentField_wellFormed {f : Field} {blanks : Bytes} (h : f.WellFormed)
    (hblanks : ∀ x ∈ blanks, isOws x = true) : (sentField f.pair blanks).WellFormed where
  name_ne := h.name_ne
  name := h.name
  value := h.value
  value_head := h.value_head
  value_last := h.value_last
  before := (by decide : ∀ x ∈ [32], isOws x = true)
  after := hblanks

/-- The header lines that are stored are field lines of a message. -/
theorem exists_sentFields {fs : List Field} {ps : List (Bytes × Bytes)}
    (h : List.Forall₂ Field.HandedOn fs ps) (hfs : ∀ f ∈ fs, f.WellFormed) :
    ∃ ks : List Field,
      ks.map Field.pair = (fs.map Field.pair).filter (fun f => RPCRequest.IsStored f) ∧
      (∀ k ∈ ks, k.WellFormed) ∧ ks.flatMap Field.wire =
        (ps.filter fun f => RPCRequest.IsStored f).flatMap RPCRequest.headerLine := by
  induction h with
  | nil => exact ⟨[], rfl, by simp, rfl⟩
  | @cons f p fs ps hp _ ih =>
      obtain ⟨ks, hpairs, hwf, hwire⟩ := ih fun k hk => hfs k (List.mem_cons_of_mem f hk)
      obtain ⟨blanks, hblanks, rfl⟩ := hp
      -- what is stored depends on the name
      have hsame : RPCRequest.IsStored (f.name, f.value ++ blanks) =
          RPCRequest.IsStored f.pair := rfl
      by_cases hf : RPCRequest.IsStored f.pair = true
      · refine ⟨sentField f.pair blanks :: ks, ?_, ?_, ?_⟩
        · rw [List.map_cons, List.map_cons, List.filter_cons_of_pos hf, hpairs]
          rfl
        · rw [List.forall_mem_cons]
          exact ⟨sentField_wellFormed (hfs f List.mem_cons_self) hblanks, hwf⟩
        · rw [List.flatMap_cons, List.filter_cons_of_pos (hsame.trans hf), List.flatMap_cons, hwire,
            wire_sentField]
          rfl
      · exact ⟨ks, by simpa [hf] using hpairs, hwf, by simpa [hsame, hf] using hwire⟩

/-- What is sent, as a message; it need not be well formed. -/
def sentMessage (target : Bytes) (ks : List Field) (host : String) (content : Bytes) : Message where
  method := str "POST"
  target := target
  fields := ks ++ [hostField host]
  body := .sized content

/-- The bytes that are sent. -/
theorem request_eq {req : RPCRequest} {ks : List Field} {content : Bytes}
    (host apiKey : String) (hheaders : req.headers = some (ks.flatMap Field.wire))
    (hcontent : req.content = some content) :
    ∃ req', (RequestSender.new host apiKey).request req = .ok
      (sentMessage (sentTarget (str apiKey) (req.urlPath.getD [])) ks host content).wire req' := by
  have hslash : str "/" = [47] := by decide
  have hline : RequestSender.postRequestLine1 = str "POST" ++ [32] := by decide
  have hline' : RequestSender.postRequestLine2 = str " HTTP/1.1" ++ crlf := by decide
  have hhost : str "Host: " = str "Host" ++ [58, 32] := by decide
  have hcrlf : str "\r\n\r\n" = crlf ++ crlf := by decide
  have htarget : RPCRequest.requestLine req RequestSender.postRequestLine1 (str apiKey)
      RequestSender.postRequestLine2 =
        str "POST" ++ [32] ++ sentTarget (str apiKey) (req.urlPath.getD []) ++ str " HTTP/1.1" ++
          crlf := by
    unfold RPCRequest.requestLine sentTarget
    by_cases hctx : str apiKey = [] <;> by_cases hpath : req.urlPath.getD [] = [] <;>
      simp [hctx, hpath, hslash, hline, hline']
  simp only [RequestSender.request, RPCRequest.asBytearray, hheaders, hcontent, RequestSender.new,
    htarget]
  refine ⟨_, congrArg (Result.ok · _) ?_⟩
  simp [sentMessage, Message.wire, Message.start, Body.wire, hostField, Field.wire, Field.line,
    hhost, hcrlf]

theorem values_eq (fs : List Field) (name : Bytes) :
    values fs name = ((fs.map Field.pair).filter fun f => lower f.1 = name).map Prod.snd := by
  unfold values
  rw [List.filter_map, List.map_map]
  rfl

/-- The fields that frame the body are sent as they were. -/
theorem values_sent {m : Message} {fs : List Field} {host name : Bytes}
    (hfs : fs.map Field.pair = clientFields m ++ [(str "Host", host)])
    (hname : name ≠ str "host" ∧ name ≠ str "connection" ∧ name ≠ str "origin") :
    values fs name = values m.fields name := by
  have hhost : lower (str "Host") = str "host" := by decide
  have hstored : ∀ f : Bytes × Bytes, lower f.1 = name → RPCRequest.IsStored f = true := by
    intro f hf
    simp [RPCRequest.IsStored, hf, hname]
  rw [values_eq, values_eq, hfs, clientFields, List.filter_append, List.filter_filter]
  have hsame : ((m.fields.map Field.pair).filter fun f =>
      decide (lower f.1 = name) && RPCRequest.IsStored f) =
      (m.fields.map Field.pair).filter fun f => lower f.1 = name := by
    apply List.filter_congr
    intro f _
    by_cases hf : lower f.1 = name <;> simp [hf, hstored]
  simp [hsame, hhost, hname.1.symm]

/-- Every byte of the target that is sent is visible. -/
theorem isVchar_sentTarget {urlContext urlPath : Bytes} (hctx : ∀ x ∈ urlContext, isVchar x = true)
    (hpath : ∀ x ∈ urlPath, isVchar x = true) :
    ∀ x ∈ sentTarget urlContext urlPath, isVchar x = true := by
  have hslash : isVchar 47 = true := by decide
  unfold sentTarget
  grind

theorem isVchar_stored {target : Bytes} {us : List Bytes} (h : ∀ x ∈ target, isVchar x = true)
    (hus : us.flatten = target) :
    ∀ x ∈ (us.reverse.findSome? urlRest).getD [], isVchar x = true := by
  intro x hx
  cases hrest : us.reverse.findSome? urlRest with
  | none => simp [hrest] at hx
  | some rest =>
      obtain ⟨u, hu, hu'⟩ := List.exists_of_findSome?_eq_some hrest
      obtain ⟨k, -, rfl⟩ := urlRest_eq_some_iff.mp hu'
      simp only [hrest, Option.getD_some] at hx
      exact h x (hus ▸ List.mem_flatten.mpr ⟨u, List.mem_reverse.mp hu, List.mem_of_mem_drop hx⟩)

/-! ## the condition -/

section Forwarding

variable {h : HttpTools} {m : Message} {cs : List Bytes} {key : Bytes} {path : Option Bytes}
  (host apiKey : String)

theorem isLine_start {m : Message} (hmethod : m.method = str "POST")
    (h : ∀ x ∈ m.target, isVchar x = true) : IsLine m.start := by
  have hpost : ∀ x ∈ str "POST" ++ [32], x ≠ 10 := by decide
  have hversion : ∀ x ∈ str " HTTP/1.1", x ≠ 10 := by decide
  unfold Message.start
  rw [hmethod]
  intro x hx
  rw [List.mem_append, List.mem_append] at hx
  obtain (hx | hx) | hx := hx
  · exact hpost x hx
  · exact (isVchar_ne (h x hx)).2
  · exact hversion x hx

/-- A message with the same bytes has the same target, and the content as its body. -/
theorem of_wire_eq {m' : Message} {target : Bytes} {ks : List Field} {content : Bytes}
    (hm' : m'.WellFormed) (hmethod : m'.method = str "POST")
    (htarget : ∀ x ∈ target, isVchar x = true) (hks : ∀ k ∈ ks, k.WellFormed)
    (hhost : (hostField host).WellFormed)
    (hwire : m'.wire = (sentMessage target ks host content).wire) :
    m'.target = target ∧ m'.body.wire = content := by
  have hall : ∀ f ∈ (sentMessage target ks host content).fields, f.WellFormed := by
    intro f hf
    rw [sentMessage, List.mem_append, List.mem_singleton] at hf
    obtain hf | rfl := hf
    · exact hks f hf
    · exact hhost
  obtain ⟨hstart, -, hbody⟩ := head_unique (isLine_start hmethod hm'.target)
    (isLine_start (m := sentMessage target ks host content) rfl htarget) hm'.fields hall hwire
  constructor
  · simpa [Message.start, hmethod, sentMessage] using hstart
  · exact hbody

/-- The request that is read, and what is sent for it. -/
theorem forwardsAsSent_iff_wire (path : Option Bytes) (host apiKey : String)
    (hm : m.WellFormed) (hf : h.Follows [m]) (hcs : ∀ c ∈ cs, c ≠ [])
    (hwire : cs.flatten = m.wire) (hbody : (onBodyCalls m cs).length = 1) :
    ∃ ks : List Field, (∀ k ∈ ks, k.WellFormed) ∧
      (m.body.trailer = [] → ks.map Field.pair = clientFields m) ∧
      (ForwardsAsSent h m path cs host apiKey ↔ ∃ m' : Message, m'.WellFormed ∧
        m'.wire = (sentMessage (sentTarget (str apiKey)
          (((onUrlCalls m cs).reverse.findSome? urlRest).getD [])) ks host m.body.content).wire ∧
        m'.method = str "POST" ∧ m'.target = targetOf (str apiKey) path ∧
        m'.fields.map Field.pair = clientFields m ++ [(str "Host", str host)] ∧
        m'.body.content = m.body.content) := by
  obtain ⟨ps, hf⟩ := hf
  obtain ⟨fs, htrailer, hps⟩ := hf.handedOn
  obtain ⟨ks, hpairs, hks, hlines⟩ := exists_sentFields hps fun f hf => hm.field f
    ((List.Sublist.refl m.fields).append htrailer |>.subset hf)
  have hread := readRequest_cut [] hm hf hcs hwire none
  rw [List.append_nil] at hread
  have hpath := RPCRequest.received_urlPath (onUrlCalls m cs) ps (onBodyCalls m cs) m.method
  have hheaders := RPCRequest.received_headers (onUrlCalls m cs) ps (onBodyCalls m cs) m.method
  have hcontent := RPCRequest.received_content (onUrlCalls m cs) ps (onBodyCalls m cs) m.method
  obtain ⟨b, hb⟩ := List.length_eq_one_iff.mp hbody
  have hflatten := flatten_onBodyCalls hwire
  rw [hb, List.flatten_singleton] at hflatten
  rw [← hlines] at hheaders
  have hlast : (onBodyCalls m cs).getLast? = some m.body.content := by
    rw [hb, hflatten, List.getLast?_singleton]
  obtain ⟨req', hsent⟩ := request_eq host apiKey hheaders (hcontent.trans hlast)
  rw [hpath] at hsent
  refine ⟨ks, hks, fun hnil => ?_, ?_⟩
  · rw [hnil] at htrailer
    rw [hpairs, List.sublist_nil.mp htrailer, List.append_nil, clientFields]
  unfold ForwardsAsSent
  rw [hread]
  simp only [request?_dispatch, Option.some.injEq]
  constructor
  · intro hforwards
    obtain ⟨req, bytes, last, hreq, hbytes, hm'⟩ := hforwards
    rw [← hreq, hsent] at hbytes
    cases hbytes
    exact hm'
  · intro hm'
    exact ⟨_, _, req', rfl, hsent, hm'⟩

/-- A message that says what the client's said has a body framed as the client's was. -/
theorem sized_iff {m m' : Message} {host : Bytes} (hm : m.WellFormed) (hm' : m'.WellFormed)
    (hfields : m'.fields.map Field.pair = clientFields m ++ [(str "Host", host)]) :
    (∃ content, m.body = .sized content) ↔ ∃ content, m'.body = .sized content := by
  have hcoding : values m'.fields (str "transfer-encoding") =
      values m.fields (str "transfer-encoding") := values_sent hfields (by decide)
  have hframed := hm.framed
  have hframed' := hm'.framed
  cases hbody : m.body with
  | sized b =>
      rw [hbody] at hframed
      cases hbody' : m'.body with
      | sized b' => simp
      | chunked cs last trailer =>
          rw [hbody'] at hframed'
          simp only [Body.Framed] at hframed hframed'
          simp [hcoding, hframed.1] at hframed'
  | chunked cs last trailer =>
      rw [hbody] at hframed
      cases hbody' : m'.body with
      | sized b' =>
          rw [hbody'] at hframed'
          simp only [Body.Framed] at hframed hframed'
          simp [← hcoding, hframed'.1] at hframed
      | chunked cs' last' trailer' => simp

/-- The endpoint's host can be read off a message that says what the client's said. -/
theorem hostField_wellFormed {m m' : Message} {host : String} (hm' : m'.WellFormed)
    (hfields : m'.fields.map Field.pair = clientFields m ++ [(str "Host", str host)]) :
    (hostField host).WellFormed := by
  have hmem : (str "Host", str host) ∈ m'.fields.map Field.pair := by rw [hfields]; simp
  obtain ⟨f, hf, hpair⟩ := List.mem_map.mp hmem
  have hwf := sentField_wellFormed (hm'.fields f hf) (List.forall_mem_nil fun x => isOws x = true)
  rw [hpair] at hwf
  exact hwf

/-- The header list of what is sent. -/
theorem pairs_sentMessage {ks : List Field} (target : Bytes) (host : String) (content : Bytes)
    (hpairs : ks.map Field.pair = clientFields m) :
    (sentMessage target ks host content).fields.map Field.pair =
      clientFields m ++ [(str "Host", str host)] := by
  rw [sentMessage, List.map_append, hpairs]
  rfl

/-- The message that is sent is well formed, for a body framed by its length. -/
theorem sentMessage_wellFormed {content target : Bytes} {ks : List Field} (hm : m.WellFormed)
    (hsized : m.body = .sized content) (hne : target ≠ [])
    (htarget : ∀ x ∈ target, isVchar x = true) (hks : ∀ k ∈ ks, k.WellFormed)
    (hpairs : ks.map Field.pair = clientFields m) (hhost : (hostField host).WellFormed) :
    (sentMessage target ks host content).WellFormed where
  method_ne := (by decide : str "POST" ≠ [])
  method := (by decide : ∀ x ∈ str "POST", isTchar x = true)
  target_ne := hne
  target := htarget
  fields f hf := by
    rw [sentMessage, List.mem_append, List.mem_singleton] at hf
    obtain hf | rfl := hf
    · exact hks f hf
    · exact hhost
  framed := by
    have hpairs := pairs_sentMessage target host content hpairs
    have hframed := hm.framed
    rw [hsized] at hframed
    show Body.Framed _ (.sized content)
    unfold Body.Framed at hframed ⊢
    rw [values_sent hpairs (by decide), values_sent hpairs (by decide)]
    exact hframed

/-- What a faithful message to the endpoint tells of the client's. -/
theorem sized_of_forwardsAsSent (hm : m.WellFormed) (hf : h.Follows [m]) (hcs : ∀ c ∈ cs, c ≠ [])
    (hwire : cs.flatten = m.wire) (hbody : (onBodyCalls m cs).length = 1)
    (hforwards : ForwardsAsSent h m path cs host apiKey) :
    (∃ content, m.body = .sized content) ∧ (∀ x ∈ str apiKey, isVchar x = true) ∧
      (hostField host).WellFormed ∧ targetOf (str apiKey) path =
        sentTarget (str apiKey) (((onUrlCalls m cs).reverse.findSome? urlRest).getD []) := by
  obtain ⟨ks, hks, -, hiff⟩ := forwardsAsSent_iff_wire path host apiKey hm hf hcs hwire hbody
  obtain ⟨m', hm', hsent, hmethod, htarget, hfields, hcontent⟩ := hiff.mp hforwards
  have hctx : ∀ x ∈ str apiKey, isVchar x = true := by
    intro x hx
    have hx' : x ∈ m'.target := by
      rw [htarget]
      cases path <;> simp [targetOf, hx]
    exact hm'.target x hx'
  have hhost := hostField_wellFormed hm' hfields
  have hstored := isVchar_stored hm.target (flatten_onUrlCalls hm hwire)
  obtain ⟨hstart, hrest⟩ :=
    of_wire_eq host hm' hmethod (isVchar_sentTarget hctx hstored) hks hhost hsent
  have hsized : ∃ content, m'.body = .sized content := by
    -- a chunked body takes more bytes than the content that was sent
    cases hbody' : m'.body with
    | sized content => exact ⟨content, rfl⟩
    | chunked cs last trailer =>
        have hlt := Body.content_lt_wire_chunked cs last trailer
        rw [← hbody', hrest, hcontent] at hlt
        omega
  exact ⟨(sized_iff hm hm' hfields).mpr hsized, hctx, hhost, htarget.symm.trans hstart⟩

/-- **The request is forwarded as it was sent** exactly when its body is framed by its
length, the path is stored, and the endpoint's data can stand in a request. -/
theorem forwardsAsSent_iff (hm : m.WellFormed) (hf : h.Follows [m]) (hcs : ∀ c ∈ cs, c ≠ [])
    (hwire : cs.flatten = m.wire) (hbody : (onBodyCalls m cs).length = 1)
    (htarget : m.target = targetOf key path) (hkey : 47 ∉ key) (hpath : path ≠ some []) :
    ForwardsAsSent h m path cs host apiKey ↔
      (∃ content, m.body = .sized content) ∧ (∀ x ∈ str apiKey, isVchar x = true) ∧
        (hostField host).WellFormed ∧
        (path = none ∨ str apiKey ≠ [] ∧ (onUrlCalls m cs).dropLast.flatten.length ≤ key.length) := by
  have hurls := flatten_onUrlCalls hm hwire
  have hparts : ∀ u ∈ onUrlCalls m cs, u ≠ [] := fun u hu => ne_nil_of_mem_fragments hu
  rw [← targetOf_eq_sentTarget hkey hpath hparts (hurls.trans htarget)]
  constructor
  · intro hforwards
    exact sized_of_forwardsAsSent host apiKey hm hf hcs hwire hbody hforwards
  · intro ⟨⟨content, hsized⟩, hctx, hhost, hsame⟩
    obtain ⟨ks, hks, hfields, hiff⟩ :=
      forwardsAsSent_iff_wire path host apiKey hm hf hcs hwire hbody
    have hpairs := hfields (by rw [hsized, Body.trailer])
    have hcontent : m.body.content = content := by rw [hsized, Body.content]
    have hvisible := isVchar_sentTarget hctx (isVchar_stored hm.target hurls)
    have hwf := sentMessage_wellFormed host hm hsized (by simp [sentTarget]) hvisible hks hpairs
      hhost
    rw [hiff, hcontent]
    exact ⟨_, hwf, rfl, rfl, hsame.symm, pairs_sentMessage _ host content hpairs, rfl⟩

end Forwarding

/-- A request with a body framed by its length, in one piece. -/
theorem forwardsAsSent_twoByteBody : ForwardsAsSent (.scripted [twoByteBody]) twoByteBody
    (some (str "path")) [twoByteBody.wire] "localhost" "v3" := by
  have hhost : (hostField "localhost").WellFormed :=
    ⟨by decide, by decide, by decide, by decide, by decide, by decide, by decide⟩
  have hiff := forwardsAsSent_iff "localhost" "v3" twoByteBody_wellFormed
    (HttpTools.scripted_follows [twoByteBody]) (by simpa using wire_ne_nil _)
    (List.flatten_singleton : [twoByteBody.wire].flatten = _) (by decide)
    (by decide : twoByteBody.target = targetOf (str "key") (some (str "path"))) (by decide)
    (by decide)
  exact hiff.mpr ⟨⟨_, rfl⟩, by decide, hhost, by decide⟩

/-- A request whose body is one chunk. -/
def chunkedBody : Message where
  method := str "POST"
  target := str "/key"
  fields := [{ name := str "Transfer-Encoding", value := str "chunked" }]
  body := .chunked [{ size := str "2", data := str "12" }] (str "0") []

theorem chunkedBody_wellFormed : chunkedBody.WellFormed where
  method_ne := by decide
  method := by decide
  target_ne := by decide
  target := by decide
  fields f hf := by
    obtain rfl := List.mem_singleton.mp hf
    exact ⟨by decide, by decide, by decide, by decide, by decide, by decide, by decide⟩
  framed := by
    have hsize : SizeLine (str "2") 2 := ⟨str "2", [], by decide, by decide, .inl rfl, by decide⟩
    have hlast : SizeLine (str "0") 0 := ⟨str "0", [], by decide, by decide, .inl rfl, by decide⟩
    refine ⟨by decide, by decide, fun c hc => ?_, hlast, fun f hf => ?_⟩
    · obtain rfl := List.mem_singleton.mp hc
      exact ⟨by decide, hsize⟩
    · cases hf

/-- A chunked request: what is sent says that it is chunked, and is not. -/
theorem not_forwardsAsSent : ¬ ∀ (h : HttpTools) (m : Message) (cs : List Bytes) (key : Bytes)
    (path : Option Bytes) (host apiKey : String), m.WellFormed → m.method = str "POST" →
    h.Follows [m] → (∀ c ∈ cs, c ≠ []) → cs.flatten = m.wire → (onBodyCalls m cs).length = 1 →
    m.target = targetOf key path → 47 ∉ key → path ≠ some [] →
    ForwardsAsSent h m path cs host apiKey := by
  intro hall
  have hcs : ∀ c ∈ [chunkedBody.wire], c ≠ [] := by simpa using wire_ne_nil chunkedBody
  have hwire : [chunkedBody.wire].flatten = chunkedBody.wire := List.flatten_singleton
  have hf := HttpTools.scripted_follows [chunkedBody]
  have hforwards := hall _ chunkedBody _ (str "key") none "localhost" "v3" chunkedBody_wellFormed
    rfl hf hcs hwire (by decide) (by decide) (by decide) (by decide)
  obtain ⟨⟨content, hsized⟩, -⟩ := sized_of_forwardsAsSent "localhost" "v3" chunkedBody_wellFormed
    hf hcs hwire (by decide) hforwards
  cases hsized

end Web3Proxy
