import Mathlib.Data.List.Induction
import Web3Proxy.RequestReader

/-!
# Web3Proxy.RequestReader.Spec

What `read_request` makes of a stream of requests.

The listener's callbacks write three separate parts of the request: `on_url` the
key and the path, `on_header` the header fields, `on_body` the content.  `absorb`
is their effect when the url is text, and `absorb_eq` takes it apart.  With a parser
that follows the stream (`HttpTools.FollowsAs`) the request read is
`RPCRequest.received` of what each part was given (`readRequest_cut`).
-/

namespace Web3Proxy

open Py Bytes Http

/-! ## one callback -/

/-- The bytes of a url that `on_url` takes for the key. -/
def urlKey (url : Bytes) : Bytes :=
  match url.find 47 1 with
  | some i => (url.take i).drop 1
  | none => url.drop 1

/-- The bytes of a url that `on_url` takes for the path. -/
def urlRest (url : Bytes) : Option Bytes := (url.find 47 1).map fun i => url.drop (i + 1)

/-- The key that `on_url` stores. -/
def urlApiKey (url : Bytes) : Option String := if url.length < 2 then none else decode (urlKey url)

/-- Where `find` looks from the second byte on, the separator is not the first. -/
theorem urlRest_eq_some {url rest : Bytes} (h : urlRest url = some rest) :
    (urlKey url).length + rest.length + 2 = url.length := by
  unfold urlRest at h
  obtain ⟨i, hi, rfl⟩ := Option.map_eq_some_iff.mp h
  obtain ⟨hle, hc, -⟩ := find_eq_some.mp hi
  have hlt : i < url.length := (List.getElem?_eq_some_iff.mp hc).1
  simp only [urlKey, hi, List.length_drop, List.length_take]
  omega

theorem urlRest_eq_none {url : Bytes} (h : urlRest url = none) : urlKey url = url.drop 1 := by
  unfold urlRest at h
  rw [Option.map_eq_none_iff] at h
  rw [urlKey, h]

theorem mem_of_mem_urlKey {url : Bytes} {x : UInt8} (h : x ∈ urlKey url) : x ∈ url := by
  unfold urlKey at h
  split at h
  · exact List.mem_of_mem_take (List.mem_of_mem_drop h)
  · exact List.mem_of_mem_drop h

/-- Text: every byte is an ASCII character. -/
def IsAscii (b : Bytes) : Prop := ∀ x ∈ b, x < 128

namespace RPCRequest

variable (req : RPCRequest)

/-- The effect of `on_url`. -/
def withUrl (url : Bytes) : RPCRequest :=
  { req with userApiKey := urlApiKey url, urlPath := (urlRest url).or req.urlPath }

/-- The effect of `on_header`. -/
def withField (f : Bytes × Bytes) : RPCRequest :=
  (HttpRequestParserListener.onHeader { req := req } f.1 f.2).req

/-- The effect of `on_body`. -/
def withData (body : Bytes) : RPCRequest :=
  { req with content := some body, contentLen := body.length }

theorem withField_withUrl (f : Bytes × Bytes) (url : Bytes) :
    (req.withUrl url).withField f = (req.withField f).withUrl url := by
  simp only [withField, withUrl, HttpRequestParserListener.onHeader,
    HttpRequestParserListener.modifyReq]
  split <;> [rfl; skip]
  split <;> [rfl; skip]
  split <;> rfl

theorem withUrl_withData (url body : Bytes) :
    (req.withData body).withUrl url = (req.withUrl url).withData body := rfl

theorem withField_withData (f : Bytes × Bytes) (body : Bytes) :
    (req.withData body).withField f = (req.withField f).withData body := by
  simp only [withField, withData, HttpRequestParserListener.onHeader,
    HttpRequestParserListener.modifyReq]
  split <;> [rfl; skip]
  split <;> [rfl; skip]
  split <;> rfl

/-- The effect of a report. -/
def take : Event → RPCRequest
  | .target url => req.withUrl url
  | .field name value => req.withField (name, value)
  | .data body => req.withData body
  | .complete => req

/-- The effect of the reports. -/
def absorb (es : List Event) : RPCRequest := es.foldl take req

/-- The urls, the fields and the bodies are taken in separately. -/
theorem absorb_eq (es : List Event) :
    req.absorb es = (fragments .data es).foldl withData
      ((fieldPairs es).foldl withField ((fragments .target es).foldl withUrl req)) := by
  unfold absorb
  induction es generalizing req with
  | nil => rfl
  | cons e es ih =>
      rw [List.foldl_cons, ih]
      cases e with
      | target url => rfl
      | field name value =>
          have hurls (us : List Bytes) : us.foldl withUrl (req.withField (name, value)) =
              (us.foldl withUrl req).withField (name, value) :=
            List.foldl_hom (fun r => withField r (name, value))
              fun r url => (withField_withUrl r (name, value) url).symm
          simp only [take, hurls]
          rfl
      | data body =>
          have hurls (us : List Bytes) : us.foldl withUrl (req.withData body) =
              (us.foldl withUrl req).withData body :=
            List.foldl_hom (fun r => withData r body) fun r url => withUrl_withData r url body
          have hfields (fs : List (Bytes × Bytes)) (r : RPCRequest) :
              fs.foldl withField (r.withData body) = (fs.foldl withField r).withData body :=
            List.foldl_hom (fun r => withData r body) fun r f => withField_withData r f body
          simp only [take, hurls, hfields]
          rfl
      | complete => rfl

end RPCRequest

namespace HttpRequestParserListener

variable (l : HttpRequestParserListener)

theorem onUrl_eq {url : Bytes} (h : IsAscii url) :
    l.onUrl url = .ok () (l.modifyReq fun req => req.withUrl url) := by
  have hkey := isSome_decode_of_ascii fun x hx => h x (mem_of_mem_urlKey hx)
  obtain ⟨key, hkey⟩ := Option.isSome_iff_exists.mp hkey
  unfold onUrl modifyReq RPCRequest.withUrl urlApiKey
  unfold urlKey at hkey ⊢
  unfold urlRest
  split
  next hlt =>
    have hnone : url.find 47 1 = none := by
      rw [find_eq_none]
      intro j hj hc
      have := (List.getElem?_eq_some_iff.mp hc).1
      omega
    simp [hnone]
  next =>
    cases hi : url.find 47 1 with
    | some i =>
        simp only [hi, List.drop_one] at hkey
        simp [hkey]
    | none =>
        simp only [hi, List.drop_one] at hkey
        simp [hkey]

theorem onHeader_eq (name value : Bytes) :
    l.onHeader name value = l.modifyReq fun req => req.withField (name, value) := by
  simp only [RPCRequest.withField, onHeader, modifyReq]
  split <;> [rfl; skip]
  split <;> [rfl; skip]
  split <;> rfl

/-- The callbacks for a list of reports, when the urls are text. -/
theorem forEach_call {es : List Event} (h : ∀ u ∈ fragments .target es, IsAscii u) :
    forEach call es l = .ok ()
      { req := l.req.absorb es, needMoreData := l.needMoreData && decide (.complete ∉ es) } := by
  induction es generalizing l with
  | nil => simp [forEach, RPCRequest.absorb]
  | cons e es ih =>
      cases e with
      | target url =>
          have hurl : IsAscii url := h url (by simp [fragments, Event.fragment?])
          have hrest : ∀ u ∈ fragments .target es, IsAscii u := fun u hu =>
            h u (List.mem_cons_of_mem _ hu)
          rw [forEach, call, onUrl_eq l hurl, Result.bind_ok, ih _ hrest]
          simp [RPCRequest.absorb, RPCRequest.take, modifyReq]
      | field name value =>
          rw [forEach, call, onHeader_eq, Result.bind_ok, ih _ h]
          simp [RPCRequest.absorb, RPCRequest.take, modifyReq]
      | data body =>
          rw [forEach, call, Result.bind_ok, ih _ h]
          simp [RPCRequest.absorb, RPCRequest.take, onBody, modifyReq, RPCRequest.withData]
      | complete =>
          rw [forEach, call, Result.bind_ok, ih _ h]
          simp [RPCRequest.absorb, RPCRequest.take, onMessageComplete]

end HttpRequestParserListener

/-! ## the parser -/

/-- Feeding the pieces one after another makes these reports, and every piece is
accepted. -/
inductive HttpTools.Feeds (h : HttpTools) :
    h.Parser → List Bytes → List (List Event) → h.Parser → Prop
  | nil (p : h.Parser) : Feeds h p [] [] p
  | cons {p p' q : h.Parser} {c : Bytes} {cs : List Bytes} {es : List Event}
      {ess : List (List Event)} (hfeed : h.feedData p c = (es, some p'))
      (hrest : Feeds h p' cs ess q) : Feeds h p (c :: cs) (es :: ess) q

theorem size_flatMap_layout (ms : List Message) :
    size (ms.flatMap Message.layout) = (ms.flatMap Message.wire).length := by
  rw [size, List.flatMap_assoc]
  simp only [Message.flatMap_bytes_layout]

theorem fieldPairs_flatMap_layout (ms : List Message) :
    fieldPairs ((ms.flatMap Message.layout).flatMap Item.report) =
      ms.flatMap fun m => (m.fields ++ m.body.trailer).map Field.pair := by
  induction ms with
  | nil => rfl
  | cons m ms ih =>
      rw [List.flatMap_cons, List.flatMap_append, fieldPairs_append, ih, fieldPairs_layout,
        List.flatMap_cons]

/-- What is relied on of `httptools` for a stream of requests: however the stream is
cut, the parser accepts each piece, reports with it the parts of the targets and the
bodies that it holds and the requests that end in it, and knows the method of the last
request.  The fields are handed on as `ps` in all, with any of the pieces. -/
structure HttpTools.FollowsAs (h : HttpTools) (ms : List Message) (ps : List (Bytes × Bytes)) :
    Prop where
  fields : ∃ pss, List.Forall₂ Message.HandedOn ms pss ∧ ps = pss.flatten
  feeds : ∀ cs : List Bytes, (∀ c ∈ cs, c ≠ []) → cs.flatten = ms.flatMap Message.wire →
    ∃ ess p, h.Feeds h.new cs ess p ∧
      List.Forall₂ SameCalls ess (deliverAll (ms.flatMap Message.layout) cs) ∧
      fieldPairs ess.flatten = ps ∧ ∀ m, ms.getLast? = some m → h.getMethod p = m.method

theorem HttpTools.FollowsAs.handedOn {h : HttpTools} {m : Message} {ps : List (Bytes × Bytes)}
    (hf : h.FollowsAs [m] ps) : m.HandedOn ps := by
  obtain ⟨pss, hpss, rfl⟩ := hf.fields
  cases hpss with
  | cons hm hrest =>
      cases hrest with
      | nil => simpa using hm

/-- The parser follows the stream, whatever it makes of the fields. -/
def HttpTools.Follows (h : HttpTools) (ms : List Message) : Prop := ∃ ps, h.FollowsAs ms ps

/-- A parser that knows what is sent. -/
def HttpTools.scripted (ms : List Message) : HttpTools where
  Parser := List Item
  new := ms.flatMap Message.layout
  feedData is c := ((deliver c.length is).1, some (deliver c.length is).2)
  getMethod _ := (ms.getLast?.map Message.method).getD []

/-- It hands the fields on without the blanks around the values. -/
theorem HttpTools.scripted_followsAs (ms : List Message) : (scripted ms).FollowsAs ms
    (ms.flatMap fun m => (m.fields ++ m.body.trailer).map Field.pair) where
  fields := ⟨ms.map fun m => (m.fields ++ m.body.trailer).map Field.pair,
    List.forall₂_map_right_iff.mpr (List.forall₂_same.mpr fun m _ => m.handedOn_pairs),
    List.flatMap_def⟩
  feeds cs _ hwire := by
    have hfeeds (is : List Item) (cs : List Bytes) :
        ∃ p, (scripted ms).Feeds is cs (deliverAll is cs) p := by
      induction cs generalizing is with
      | nil =>
          rw [deliverAll]
          exact ⟨is, .nil (h := scripted ms) is⟩
      | cons c cs ih =>
          obtain ⟨p, hp⟩ := ih (deliver c.length is).2
          exact ⟨p, .cons rfl hp⟩
    obtain ⟨p, hp⟩ := hfeeds (ms.flatMap Message.layout) cs
    refine ⟨_, p, hp, List.forall₂_same.mpr fun es _ => .refl es, ?_,
      fun m hm => by simp [scripted, hm]⟩
    by_cases hcs : cs = []
    · have hms : ms = [] := by
        cases ms with
        | nil => rfl
        | cons m ms => simp [hcs, wire_ne_nil] at hwire
      subst hcs hms
      rfl
    · rw [fieldPairs_deliverAll _ hcs (by rw [hwire, size_flatMap_layout]),
        fieldPairs_flatMap_layout]

theorem HttpTools.scripted_follows (ms : List Message) : (scripted ms).Follows ms :=
  ⟨_, scripted_followsAs ms⟩

theorem HttpTools.feed_ok {h : HttpTools} {p p' : h.Parser} {c : Bytes} {es : List Event}
    {l : HttpRequestParserListener} (hfeed : h.feedData p c = (es, some p'))
    (htext : ∀ u ∈ fragments .target es, IsAscii u) :
    h.feed p c l = .ok p'
      { req := l.req.absorb es, needMoreData := l.needMoreData && decide (.complete ∉ es) } := by
  unfold feed
  rw [hfeed]
  simp only [HttpRequestParserListener.forEach_call l htext]

/-! ## the request that is read -/

namespace RPCRequest

/-- The request that the listener builds from the arguments of `on_url`, `on_header` and
`on_body`, with its method. -/
def received (us : List Bytes) (ps : List (Bytes × Bytes)) (ds : List Bytes) (method : Bytes) :
    RPCRequest :=
  { ds.foldl withData (ps.foldl withField (us.foldl withUrl { headers := some [] })) with
    httpMethod := some method }

theorem received_absorb (es : List Event) (method : Bytes) :
    { absorb { headers := some [] } es with httpMethod := some method } =
      received (fragments .target es) (fieldPairs es) (fragments .data es) method := by
  rw [absorb_eq]
  rfl

/-- A field is stored in `headers`. -/
def IsStored (f : Bytes × Bytes) : Bool :=
  lower f.1 ≠ str "host" && lower f.1 ≠ str "connection" && lower f.1 ≠ str "origin"

/-- The line that is stored for a field. -/
def headerLine (f : Bytes × Bytes) : Bytes := f.1 ++ str ": " ++ f.2 ++ crlf

variable (req : RPCRequest)

theorem withField_url (f : Bytes × Bytes) : (req.withField f).userApiKey = req.userApiKey ∧
    (req.withField f).urlPath = req.urlPath := by
  simp only [withField, HttpRequestParserListener.onHeader, HttpRequestParserListener.modifyReq]
  grind

theorem withField_data (f : Bytes × Bytes) : (req.withField f).content = req.content ∧
    (req.withField f).contentLen = req.contentLen := by
  simp only [withField, HttpRequestParserListener.onHeader, HttpRequestParserListener.modifyReq]
  grind

theorem withField_headers (f : Bytes × Bytes) : (req.withField f).headers =
    if IsStored f then some (req.headers.getD [] ++ headerLine f) else req.headers := by
  simp only [withField, HttpRequestParserListener.onHeader, HttpRequestParserListener.modifyReq,
    IsStored, headerLine]
  grind

theorem foldl_withUrl (us : List Bytes) :
    (us.foldl withUrl req).userApiKey = (us.getLast?.map urlApiKey).getD req.userApiKey ∧
      (us.foldl withUrl req).urlPath = (us.reverse.findSome? urlRest).or req.urlPath := by
  induction us using List.reverseRecOn with
  | nil => simp
  | append_singleton us u ih =>
      simp only [List.foldl_append, List.foldl_cons, List.foldl_nil, withUrl, ih.2]
      cases hrest : urlRest u <;> simp [hrest]

theorem foldl_withUrl_rest (us : List Bytes) :
    (us.foldl withUrl req).headers = req.headers ∧
      (us.foldl withUrl req).content = req.content ∧
      (us.foldl withUrl req).contentLen = req.contentLen ∧
      (us.foldl withUrl req).keepAlive = req.keepAlive ∧
      (us.foldl withUrl req).corsOrigin = req.corsOrigin := by
  induction us generalizing req with
  | nil => simp
  | cons u us ih => simp [ih, withUrl]

theorem foldl_withField (fs : List (Bytes × Bytes)) :
    (fs.foldl withField req).userApiKey = req.userApiKey ∧
      (fs.foldl withField req).urlPath = req.urlPath ∧
      (fs.foldl withField req).content = req.content ∧
      (fs.foldl withField req).contentLen = req.contentLen := by
  induction fs generalizing req with
  | nil => simp
  | cons f fs ih => simp [ih, withField_url, withField_data]

theorem foldl_withField_headers {b : Bytes} (fs : List (Bytes × Bytes))
    (h : req.headers = some b) :
    (fs.foldl withField req).headers =
      some (b ++ (fs.filter fun f => IsStored f).flatMap headerLine) := by
  induction fs generalizing req b with
  | nil => simpa using h
  | cons f fs ih =>
      by_cases hf : IsStored f = true
      · have hb : (req.withField f).headers = some (b ++ headerLine f) := by
          simp [withField_headers, hf, h]
        simp [ih _ hb, hf]
      · have hb : (req.withField f).headers = some b := by
          simp [withField_headers, hf, h]
        simp [ih _ hb, hf]

theorem withField_keepAlive (f : Bytes × Bytes) : (req.withField f).keepAlive =
    if lower f.1 = str "connection" then decide (f.2 ≠ str "close") else req.keepAlive := by
  have hne : str "connection" ≠ str "host" := by decide
  simp only [withField, HttpRequestParserListener.onHeader, HttpRequestParserListener.modifyReq]
  grind

theorem withField_corsOrigin (f : Bytes × Bytes) : (req.withField f).corsOrigin =
    if lower f.1 = str "origin" then some f.2 else req.corsOrigin := by
  have hne : str "origin" ≠ str "host" := by decide
  have hne' : str "origin" ≠ str "connection" := by decide
  simp only [withField, HttpRequestParserListener.onHeader, HttpRequestParserListener.modifyReq]
  grind

/-- The values of the fields of this name. -/
def valuesOf (ps : List (Bytes × Bytes)) (name : Bytes) : List Bytes :=
  (ps.filter fun f => lower f.1 = name).map Prod.snd

/-- The last `Connection` and the last `Origin` field count. -/
theorem foldl_withField_last (ps : List (Bytes × Bytes)) :
    (ps.foldl withField req).keepAlive =
        ((valuesOf ps (str "connection")).getLast?.map fun v => decide (v ≠ str "close")).getD
          req.keepAlive ∧
      (ps.foldl withField req).corsOrigin =
        (valuesOf ps (str "origin")).getLast?.or req.corsOrigin := by
  induction ps using List.reverseRecOn with
  | nil => simp [valuesOf]
  | append_singleton ps f ih =>
      simp only [List.foldl_append, List.foldl_cons, List.foldl_nil, withField_keepAlive,
        withField_corsOrigin, ih, valuesOf, List.filter_append]
      constructor
      · by_cases hf : lower f.1 = str "connection" <;> simp [hf]
      · by_cases hf : lower f.1 = str "origin" <;> simp [hf]

theorem foldl_withData (ds : List Bytes) :
    (ds.foldl withData req).userApiKey = req.userApiKey ∧
      (ds.foldl withData req).urlPath = req.urlPath ∧
      (ds.foldl withData req).headers = req.headers ∧
      (ds.foldl withData req).content = ds.getLast?.or req.content ∧
      (ds.foldl withData req).contentLen =
        ((ds.getLast?.map fun d => (d.length : Int)).getD req.contentLen) ∧
      (ds.foldl withData req).keepAlive = req.keepAlive ∧
      (ds.foldl withData req).corsOrigin = req.corsOrigin := by
  induction ds using List.reverseRecOn with
  | nil => simp
  | append_singleton ds d ih => simp [List.foldl_append, withData, ih]

/-- What the listener does not write. -/
def unwritten : String × Option RequestId × Int × Option String × Option Bytes :=
  (req.method, req.id, req.priority, req.constantPool, req.lastQueriedBytes)

theorem unwritten_foldl {α : Type} {f : RPCRequest → α → RPCRequest}
    (hf : ∀ req a, (f req a).unwritten = req.unwritten) (as : List α) :
    (as.foldl f req).unwritten = req.unwritten := by
  induction as generalizing req with
  | nil => rfl
  | cons a as ih => rw [List.foldl_cons, ih, hf]

section Received

variable (us : List Bytes) (ps : List (Bytes × Bytes)) (ds : List Bytes) (method : Bytes)

/-- The key is that of the last url. -/
theorem received_userApiKey :
    (received us ps ds method).userApiKey = us.getLast?.bind urlApiKey := by
  simp only [received, foldl_withData, foldl_withField, foldl_withUrl]
  cases us.getLast? <;> rfl

/-- The path is that of the last url that has one. -/
theorem received_urlPath :
    (received us ps ds method).urlPath = us.reverse.findSome? urlRest := by
  simp [received, foldl_withData, foldl_withField, foldl_withUrl]

theorem received_headers : (received us ps ds method).headers =
    some ((ps.filter fun f => IsStored f).flatMap headerLine) := by
  simp only [received, foldl_withData]
  rw [foldl_withField_headers (b := []) _ _ (by simp [foldl_withUrl_rest]), List.nil_append]

/-- The content is the last part of the body. -/
theorem received_content : (received us ps ds method).content = ds.getLast? := by
  simp [received, foldl_withData, foldl_withField, foldl_withUrl_rest]

theorem received_contentLen : (received us ps ds method).contentLen =
    (ds.getLast?.map fun d => (d.length : Int)).getD (-1) := by
  simp [received, foldl_withData, foldl_withField, foldl_withUrl_rest]

theorem received_keepAlive : (received us ps ds method).keepAlive =
    ((valuesOf ps (str "connection")).getLast?.map
      fun v => decide (v ≠ str "close")).getD true := by
  simp [received, foldl_withData, foldl_withField_last, foldl_withUrl_rest]

theorem received_corsOrigin : (received us ps ds method).corsOrigin =
    (valuesOf ps (str "origin")).getLast? := by
  simp [received, foldl_withData, foldl_withField_last, foldl_withUrl_rest]

theorem received_unwritten :
    (received us ps ds method).unwritten = ({} : RPCRequest).unwritten := by
  have hfield (req : RPCRequest) (f : Bytes × Bytes) :
      (req.withField f).unwritten = req.unwritten := by
    simp only [unwritten, withField, HttpRequestParserListener.onHeader,
      HttpRequestParserListener.modifyReq]
    grind
  have hdata (req : RPCRequest) := unwritten_foldl req (f := withData) (fun _ _ => rfl) ds
  have hfields (req : RPCRequest) := unwritten_foldl req hfield ps
  have hurls (req : RPCRequest) := unwritten_foldl req (f := withUrl) (fun _ _ => rfl) us
  calc (received us ps ds method).unwritten
      = (ds.foldl withData
          (ps.foldl withField (us.foldl withUrl { headers := some [] }))).unwritten := rfl
    _ = ({} : RPCRequest).unwritten := by
        rw [hdata, hfields, hurls]
        rfl

end Received

end RPCRequest

/-! ## the calls for a message in pieces -/

/-- The calls of `on_url` for a message in pieces. -/
def onUrlCalls (m : Message) (cs : List Bytes) : List Bytes :=
  fragments .target (deliverAll m.layout cs).flatten

/-- The calls of `on_body` for a message in pieces. -/
def onBodyCalls (m : Message) (cs : List Bytes) : List Bytes :=
  fragments .data (deliverAll m.layout cs).flatten

/-- The request that a reader returns. -/
def ReadOutcome.request? : ReadOutcome → Option RPCRequest
  | .success req => some req
  | .failure _ req => some req
  | .drop => none
  | .raise _ => none

namespace RequestReader

variable {h : HttpTools} {l : HttpRequestParserListener}

theorem readLoop_data {p p' : h.Parser} {c : Bytes} {es : List Event} {rest : List SocketRead}
    (hl : l.needMoreData = true) (hc : c ≠ []) (hfeed : h.feedData p c = (es, some p'))
    (htext : ∀ u ∈ fragments .target es, IsAscii u) :
    readLoop h (.data c :: rest) p l = readLoop h rest p'
      { req := l.req.absorb es, needMoreData := decide (.complete ∉ es) } := by
  rw [readLoop, if_pos hl]
  simp only [if_neg hc, h.feed_ok hfeed htext, hl, Bool.true_and]

theorem readLoop_complete {p : h.Parser} {rest : List SocketRead}
    (hl : l.needMoreData = false) : readLoop h rest p l = .complete p l.req rest := by
  cases rest <;> simp [readLoop, hl]

/-- The loop stops with the piece in which a request ends. -/
theorem readLoop_last {p p' : h.Parser} {c : Bytes} {es : List Event} (rest : List SocketRead)
    (hl : l.needMoreData = true) (hc : c ≠ []) (hfeed : h.feedData p c = (es, some p'))
    (htext : ∀ u ∈ fragments .target es, IsAscii u) (hes : .complete ∈ es) :
    readLoop h (.data c :: rest) p l = .complete p' (l.req.absorb es) rest := by
  rw [readLoop_data hl hc hfeed htext, readLoop_complete (by simp [hes])]

/-- The loop reads one request to its end. -/
theorem readLoop_feeds {is : List Item} {cs : List Bytes} {ess : List (List Event)}
    {p q : h.Parser} (rest : List SocketRead)
    (his : .complete ∉ is) (hne : cs ≠ []) (hcs : ∀ c ∈ cs, c ≠ [])
    (hsize : cs.flatten.length = size is) (hl : l.needMoreData = true)
    (htext : ∀ u ∈ fragments .target ess.flatten, IsAscii u) (hfeeds : h.Feeds p cs ess q)
    (hsame : List.Forall₂ SameCalls ess (deliverAll (is ++ [.complete]) cs)) :
    readLoop h (cs.map .data ++ rest) p l = .complete q (l.req.absorb ess.flatten) rest := by
  induction hfeeds generalizing is l with
  | nil => exact absurd rfl hne
  | @cons p p' q c cs es ess hfeed hrest ih =>
      have hc := hcs c List.mem_cons_self
      simp only [List.flatten_cons, fragments_append, List.mem_append] at htext hsize
      rw [deliverAll, List.forall₂_cons] at hsame
      obtain ⟨hes, hess⟩ := hsame
      by_cases hlast : cs = []
      · subst hlast
        have hall := deliver_all (is ++ [.complete]) c.length
          (by simp at hsize ⊢; omega)
        cases hrest with
        | nil =>
            simp only [List.flatten_cons, List.flatten_nil, List.append_nil]
            exact readLoop_last rest hl hc hfeed (fun u hu => htext u (.inl hu))
              (hes.complete.mpr (by simp [hall, Item.report]))
      · have hpos : 0 < cs.flatten.length := by
          cases cs with
          | nil => exact absurd rfl hlast
          | cons d ds =>
              have hd := List.length_pos_iff.mpr (hcs d (by simp))
              rw [List.flatten_cons, List.length_append]
              omega
        have hlt : c.length < size is := by
          rw [List.length_append] at hsize
          omega
        obtain ⟨hmore, is', his', hmem⟩ := complete_not_mem his hlt
        have hsize' := size_deliver c.length (is ++ [.complete])
        simp only [his'] at hess hsize'
        simp only [List.map_cons, List.cons_append]
        rw [readLoop_data hl hc hfeed fun u hu => htext u (.inl hu)]
        rw [ih hmem hlast (fun d hd => hcs d (List.mem_cons_of_mem c hd))
          (by simp at hsize hsize' ⊢; omega) (by simp [hes.complete, hmore])
          (fun u hu => htext u (.inr hu)) hess]
        simp only [List.flatten_cons, RPCRequest.absorb, List.foldl_append]

/-! ## read_request -/

theorem isAscii_of_isVchar {x : UInt8} (h : isVchar x = true) : x < 128 := by
  unfold isVchar at h
  grind

/-- The targets of well-formed requests are text. -/
theorem isAscii_of_mem_fragments (ms : List Message) (hms : ∀ m ∈ ms, m.WellFormed)
    {u : Bytes} {es : List Event} (hu : u ∈ fragments .target es)
    (hes : (fragments .target es).flatten =
      (fragments .target ((ms.flatMap Message.layout).flatMap Item.report)).flatten) :
    IsAscii u := by
  have htargets : ∀ x ∈ (fragments .target
      ((ms.flatMap Message.layout).flatMap Item.report)).flatten, x < 128 := by
    clear hes
    induction ms with
    | nil => simp
    | cons m ms ih =>
        have hm := hms m List.mem_cons_self
        have hrest := ih fun n hn => hms n (List.mem_cons_of_mem m hn)
        simp only [List.flatMap_cons, List.flatMap_append, fragments_append,
          fragments_target m hm.target_ne, List.flatten_append, List.mem_append]
        intro x hx
        cases hx with
        | inl hx => exact isAscii_of_isVchar (hm.target x (by simpa using hx))
        | inr hx => exact hrest x hx
  intro x hx
  exact htargets x (hes ▸ List.mem_flatten.mpr ⟨u, hu, hx⟩)

/-- A request that arrives in pieces. -/
theorem readRequest_cut {m : Message} {ps : List (Bytes × Bytes)} {cs : List Bytes}
    (rest : List SocketRead) (hm : m.WellFormed) (hf : h.FollowsAs [m] ps)
    (hcs : ∀ c ∈ cs, c ≠ []) (hwire : cs.flatten = m.wire)
    (next : Option (RPCRequest → ReadOutcome)) :
    readRequest h next (cs.map .data ++ rest) {} =
      (dispatch next (.received (onUrlCalls m cs) ps (onBodyCalls m cs) m.method), rest) := by
  obtain ⟨ess, p, hfeeds, hsame, hfields, hmethod⟩ := hf.feeds cs hcs (by simpa using hwire)
  simp only [List.flatMap_cons, List.flatMap_nil, List.append_nil] at hsame
  have hne : cs ≠ [] := by
    intro hnil
    rw [hnil] at hwire
    exact wire_ne_nil m hwire.symm
  have hsize : cs.flatten.length = size m.parts := by rw [hwire, size_parts]
  have htext := fragments_deliverAll m.layout .target hne
    (by rw [hwire, size_layout])
  have htarget := SameCalls.fragments_flatten hsame .target
  have hdata := SameCalls.fragments_flatten hsame .data
  have hloop := readLoop_feeds (l := .new {}) rest (complete_not_mem_parts m) hne hcs
    hsize rfl (fun u hu => isAscii_of_mem_fragments [m] (by simpa using hm) hu
      (by rw [List.flatMap_singleton, htarget]; exact htext)) hfeeds hsame
  have hmethod := hmethod m rfl
  rw [readRequest, hloop]
  simp only [hmethod]
  rw [onUrlCalls, onBodyCalls, ← htarget, ← hdata, ← hfields, ← RPCRequest.received_absorb]
  rfl

/-- Requests that arrive together: they are taken for one. -/
theorem readRequest_together {ms : List Message} {ps : List (Bytes × Bytes)}
    (rest : List SocketRead) (hne : ms ≠ []) (hms : ∀ m ∈ ms, m.WellFormed)
    (hf : h.FollowsAs ms ps) (next : Option (RPCRequest → ReadOutcome)) :
    readRequest h next (.data (ms.flatMap Message.wire) :: rest) {} =
      (dispatch next (.received
        (fragments .target ((ms.flatMap Message.layout).flatMap Item.report)) ps
        (fragments .data ((ms.flatMap Message.layout).flatMap Item.report))
        (ms.getLast hne).method), rest) := by
  have hwire : ms.flatMap Message.wire ≠ [] := by
    cases ms with
    | nil => exact absurd rfl hne
    | cons m ms => simp [wire_ne_nil]
  obtain ⟨ess, p, hfeeds, hsame, hfields, hmethod⟩ :=
    hf.feeds [ms.flatMap Message.wire] (by simpa using hwire) (by simp)
  have hall := deliver_all _ _ (Nat.le_of_eq (size_flatMap_layout ms))
  have hcomplete : Event.complete ∈ (ms.flatMap Message.layout).flatMap Item.report := by
    cases ms with
    | nil => exact absurd rfl hne
    | cons m ms => simp [Message.layout, Item.report]
  have hmethod := hmethod (ms.getLast hne) (List.getLast?_eq_some_getLast hne)
  simp only [deliverAll, hall] at hsame
  cases hfeeds with
  | cons hfeed hrest =>
      cases hrest with
      | nil =>
          obtain ⟨hes, -⟩ := List.forall₂_cons.mp hsame
          simp only [List.flatten_singleton] at hfields
          have hloop := readLoop_last (l := .new {}) rest rfl hwire hfeed
            (fun u hu => isAscii_of_mem_fragments ms hms hu (by rw [hes.fragments]))
            (hes.complete.mpr hcomplete)
          rw [readRequest, hloop]
          simp only [hmethod]
          rw [← hes.fragments, ← hes.fragments, ← hfields, ← RPCRequest.received_absorb]
          rfl

/-- Without a further reader the request is returned as it was read. -/
theorem request?_dispatch (req : RPCRequest) :
    (dispatch none req).request? = some req := by
  simp only [dispatch]
  grind [ReadOutcome.request?]

end RequestReader

end Web3Proxy
