import Web3Proxy.AdminServer
import Web3Proxy.Lib.Json.Encoding
import Web3Proxy.Lib.PyInt
import Web3Proxy.ResponseReceiver

/-!
# Web3Proxy.Controllers.SyncTest

The test by which the sync controller tells whether a node is in sync (`pool_manager.py`):
the answer to `eth_getBlockByNumber` goes through two parsers, that of `recv_response` and
one of the controller's own, whose listener gathers the body and reads the time of the block.

* `testPool_eq` — the verdict does not depend on how the answer is cut: it is that of the
  content of the final response, or none when `recv_response` returns before its end;
* `testPool_block` — for a block that a node sends, the verdict is right.

The answer is received over a connection that works; `pool.get` and `send` are elsewhere.
-/

namespace Web3Proxy

open Py Bytes Http

/-! ## the listener -/

/-- What is taken from Python's library: the decoders, what a float is printed as, and which
characters beyond ASCII are digits. -/
structure SyncText where
  codec : Json.Encoding → Bytes → Option String
  floatText : String → String
  decimal : Char → Option Nat

/-- UTF-8 text is decoded as it is. -/
def SyncText.Decodes (text : SyncText) : Prop := ∀ s, text.codec .utf8 (str s) = some s

/-- `SyncControllerResponseListener`. -/
structure SyncControllerResponseListener where
  body : Bytes := []
  blockNumber : Int := 0
  blockTimestamp : Int := 0
deriving DecidableEq, Repr

/-- The callbacks of the listener that do more than log. -/
inductive ListenerEvent where
  | onBody (body : Bytes)
  | onMessageComplete
deriving DecidableEq, Repr

namespace SyncControllerResponseListener

variable (text : SyncText) (l : SyncControllerResponseListener)

/-- `on_body(body)`. -/
def onBody (body : Bytes) : SyncControllerResponseListener := { l with body := l.body ++ body }

/-- `int(result[key], 16)`; `none` when this raises. -/
def hexMember (result : Json) (key : String) : Option Int :=
  match result with
  | .obj members =>
      match Json.get? members key with
      | some (.str s) => PyInt.ofHex text.decimal s
      | _ => none
  | _ => none

/-- What `on_message_complete()` does with a result. -/
def readResult (result : Json) : SyncControllerResponseListener :=
  match hexMember text result "number" with
  | none => l
  | some number =>
      match hexMember text result "timestamp" with
      | none => { l with blockNumber := number }
      | some timestamp => { l with blockNumber := number, blockTimestamp := timestamp }

/-- `on_message_complete()`. -/
def onMessageComplete : SyncControllerResponseListener :=
  match Json.loadsBytes text.codec text.floatText l.body with
  | some (.obj blockData) =>
      let result := (Json.get? blockData "result").getD .null
      if result.isTruthy then l.readResult text result else l
  | _ => l

/-- The callback for what the parser reports. -/
def call (l : SyncControllerResponseListener) : ListenerEvent → SyncControllerResponseListener
  | .onBody body => l.onBody body
  | .onMessageComplete => l.onMessageComplete text

end SyncControllerResponseListener

/-! ## the parser -/

/-- `httptools.HttpResponseParser` with this listener, as in `ResponseTools`. -/
structure ListenerTools where
  Parser : Type
  new : Parser
  feedData : Parser → Bytes → List ListenerEvent × Option Parser

/-- The bytes of the body in a callback, each by itself, or an end. -/
def ListenerEvent.heard : ListenerEvent → List (Option UInt8)
  | .onBody body => body.map some
  | .onMessageComplete => [none]

namespace ListenerTools

variable (tools : ListenerTools)

/-- Feeding the pieces one after another makes these calls; `none` when a piece is not
accepted. -/
def feedAll : tools.Parser → List Bytes → Option (List ListenerEvent)
  | _, [] => some []
  | parser, c :: cs =>
      match tools.feedData parser c with
      | (_, none) => none
      | (es, some parser) => (feedAll parser cs).map (es ++ ·)

/-- What is relied on of `httptools` for an answer: however much of it has come, and however
that is cut, the parser accepts each piece, and reports what is in it of the contents and
which responses end. -/
def Follows (s : ResponseStream) : Prop :=
  ∀ cs : List Bytes, (∀ c ∈ cs, c ≠ []) → cs.flatten <+: s.wire →
    ∃ es, tools.feedAll tools.new cs = some es ∧
      es.flatMap ListenerEvent.heard = heard (deliverAll s.layout cs).flatten

/-- The callback for an event. -/
def listenerEvent : Event → Option ListenerEvent
  | .data b => some (.onBody b)
  | .complete => some .onMessageComplete
  | _ => none

/-- A parser that knows what is sent. -/
def scripted (s : ResponseStream) : ListenerTools where
  Parser := List Item
  new := s.layout
  feedData is c :=
    ((deliver c.length is).1.filterMap listenerEvent, some (deliver c.length is).2)

theorem scripted_follows (s : ResponseStream) : (scripted s).Follows s := by
  intro cs _ _
  have hheard : ∀ es : List Event, (es.filterMap listenerEvent).flatMap ListenerEvent.heard =
      heard es := by
    intro es
    induction es with
    | nil => rfl
    | cons e es ih =>
        rw [heard, List.flatMap_cons, ← heard, ← ih]
        cases e <;> rfl
  suffices hfeeds : ∀ (cs : List Bytes) (is : List Item), ∃ es,
      (scripted s).feedAll is cs = some es ∧
        es.flatMap ListenerEvent.heard = heard (deliverAll is cs).flatten from
    hfeeds cs s.layout
  intro cs
  induction cs with
  | nil => exact fun is => ⟨[], rfl, rfl⟩
  | cons c cs ih =>
      intro is
      obtain ⟨es, hfeed, htrace⟩ := ih (deliver c.length is).2
      refine ⟨(deliver c.length is).1.filterMap listenerEvent ++ es, ?_, ?_⟩
      · simp only [feedAll, scripted] at hfeed ⊢
        rw [hfeed]
        rfl
      · rw [List.flatMap_append, hheard, htrace, deliverAll, List.flatten_cons, heard_append]

end ListenerTools

/-! ## the test -/

namespace SyncController

/-- `__MAX_DELAY_SECONDS`. -/
def maxDelaySeconds : Int := 60

/-- What `__test_pool` makes of what the listener has read. -/
def verdict (now : Int) (l : SyncControllerResponseListener) : Option Bool :=
  if l.blockTimestamp = 0 then none
  else some (decide (l.blockTimestamp + maxDelaySeconds > now))

/-- `__test_pool(pool)` once the request has been sent, where the socket delivers `sock` and
the time is `now`; `none` is `None`. -/
def testPool (text : SyncText) (h : ResponseTools) (tools : ListenerTools)
    (sock : List SocketRead) (now : Int) : Option Bool :=
  let receipt := ResponseReceiverGeth.recvResponse h sock
  match tools.feedAll tools.new receipt.passed with
  | none => none
  | some es =>
      if receipt.outcome = .returned then
        verdict now (es.foldl (SyncControllerResponseListener.call text) {})
      else none

end SyncController

/-! ## the listener, byte by byte -/

namespace SyncControllerResponseListener

variable {text : SyncText}

/-- What a byte of the body, or an end, does. -/
def listen (text : SyncText) (l : SyncControllerResponseListener) :
    Option UInt8 → SyncControllerResponseListener
  | some b => l.onBody [b]
  | none => l.onMessageComplete text

theorem foldl_listen_body (l : SyncControllerResponseListener) (bs : Bytes) :
    (bs.map some).foldl (listen text) l = l.onBody bs := by
  induction bs generalizing l with
  | nil => simp [onBody]
  | cons b bs ih =>
      rw [List.map_cons, List.foldl_cons, ih]
      simp [listen, onBody]

/-- The listener does not notice how the body is cut. -/
theorem foldl_call (l : SyncControllerResponseListener) (es : List ListenerEvent) :
    es.foldl (call text) l = (es.flatMap ListenerEvent.heard).foldl (listen text) l := by
  induction es generalizing l with
  | nil => rfl
  | cons e es ih =>
      rw [List.foldl_cons, ih, List.flatMap_cons, List.foldl_append]
      cases e with
      | onBody body => rw [ListenerEvent.heard, foldl_listen_body, call]
      | onMessageComplete => rfl

/-- Without a body the end of a response changes nothing. -/
theorem onMessageComplete_empty (htext : text.Decodes) :
    onMessageComplete text {} = {} := by
  simp [onMessageComplete, Json.loadsBytes_nil htext]

/-- Up to the end of the final response the listener only gathers its body. -/
theorem foldl_listen_gather (htext : text.Decodes) (n : Nat) (bs : Bytes) :
    (List.replicate n none ++ bs.map some).foldl (listen text) {} = { body := bs } := by
  have hinterims : (List.replicate n none).foldl (listen text) {} = {} := by
    induction n with
    | zero => rfl
    | succ n ih =>
        rw [List.replicate_succ, List.foldl_cons, listen, onMessageComplete_empty htext, ih]
  rw [List.foldl_append, hinterims, foldl_listen_body]
  simp [onBody]

/-- As long as the final response has not ended, no time has been read. -/
theorem blockTimestamp_foldl_prefix (htext : text.Decodes) {n : Nat} {bs : Bytes}
    {trace : List (Option UInt8)} (h : trace <+: List.replicate n none ++ bs.map some) :
    (trace.foldl (listen text) {}).blockTimestamp = 0 := by
  rw [List.prefix_iff_eq_take.mp h, List.take_append, List.take_replicate, ← List.map_take,
    foldl_listen_gather htext]

end SyncControllerResponseListener

/-! ## what the loop passes on -/

/-- The loop returns after some of the pieces, and leaves the others; by induction on the
pieces. -/
theorem ResponseReceiverGeth.recvLoop_take {h : ResponseTools} {p : h.Parser}
    {l : HttpResponseParserListener} {cs : List Bytes} {ess : List (List ResponseEvent)}
    (hfeeds : h.Feeds p cs ess) (hcs : ∀ c ∈ cs, c ≠ [])
    (hend : ∃ es ∈ ess, .messageComplete ∈ es) (hl : l.needMoreData = true)
    (after : List SocketRead) :
    ∃ n, recvLoop h (cs.map .data ++ after) p l =
      ⟨cs.take n, .returned, (cs.drop n).map .data ++ after⟩ := by
  induction hfeeds generalizing l with
  | nil => simp at hend
  | @cons p p' c cs es ess hfeed hrest ih =>
      rw [List.map_cons, List.cons_append, recvLoop_data (hcs c List.mem_cons_self) hl hfeed]
      have hneed := l.foldl_call es
      rw [hl, Bool.true_and] at hneed
      by_cases hes : .messageComplete ∈ es
      · refine ⟨1, ?_⟩
        rw [recvLoop_done _ (by simp [hneed, hes])]
        simp
      · obtain ⟨es', hes', hmem⟩ := hend
        obtain rfl | hes' := List.mem_cons.mp hes'
        · exact absurd hmem hes
        · obtain ⟨n, hn⟩ := ih (l := es.foldl HttpResponseParserListener.call l)
            (fun x hx => hcs x (List.mem_cons_of_mem c hx)) ⟨es', hes', hmem⟩
            (by simp [hneed, hes])
          exact ⟨n + 1, by rw [hn]; simp⟩

/-- Pieces that are left take bytes. -/
theorem length_flatten_take_lt {cs : List Bytes} {n : Nat} (hcs : ∀ c ∈ cs, c ≠ [])
    (h : cs.take n ≠ cs) : (cs.take n).flatten.length < cs.flatten.length := by
  have hsplit := List.take_append_drop n cs
  cases hdrop : cs.drop n with
  | nil => exact absurd (by rwa [hdrop, List.append_nil] at hsplit) h
  | cons c rest =>
      have hmem : c ∈ cs := List.mem_of_mem_drop (hdrop ▸ List.mem_cons_self)
      have hpos := List.length_pos_iff.mpr (hcs c hmem)
      conv_rhs => rw [← hsplit, hdrop]
      simp only [List.flatten_append, List.flatten_cons, List.length_append]
      omega

/-- Of an answer that comes whole some of the pieces are passed on: all of them when its first
response ends in the last piece, else fewer. -/
theorem recvResponse_take {h : ResponseTools} {s : ResponseStream} {cs : List Bytes}
    (hf : h.Follows s) (hcs : ∀ c ∈ cs, c ≠ []) (hwire : cs.flatten = s.wire)
    (after : List SocketRead) :
    ∃ n, ResponseReceiverGeth.recvResponse h (cs.map .data ++ after) =
        ⟨cs.take n, .returned, (cs.drop n).map .data ++ after⟩ ∧
      (cs.take n = cs ↔ cs.dropLast.flatten.length < s.first.wire.length) := by
  obtain ⟨ess, hfeeds, hmarks⟩ := hf cs hcs hwire
  obtain ⟨more, hlayout⟩ := s.layout_eq
  have hpos : 0 < s.first.wire.length := List.length_pos_iff.mpr s.first.wire_ne_nil
  have hlength : cs.flatten.length = size s.layout := by rw [s.size_layout, hwire]
  have hne : cs ≠ [] := fun hnil => s.wire_ne_nil (by rw [← hwire, hnil, List.flatten_nil])
  have hend : ∃ es ∈ ess, .messageComplete ∈ es := by
    have hheard := heard_whole s.layout hne hlength
    have hcomplete : .complete ∈ (deliverAll s.layout cs).flatten := by
      rw [← none_mem_heard, hheard, s.heard_layout]
      simp
    obtain ⟨es, hes, hmem⟩ := List.mem_flatten.mp hcomplete
    have hmark := List.mem_map_of_mem (f := fun es => decide (.complete ∈ es)) hes
    rw [← hmarks, List.mem_map] at hmark
    obtain ⟨es', hes', hdecide⟩ := hmark
    exact ⟨es', hes', by simpa [hmem] using hdecide⟩
  obtain ⟨n, hn⟩ := ResponseReceiverGeth.recvLoop_take (l := {}) hfeeds hcs hend rfl after
  refine ⟨n, hn, ?_⟩
  rw [hlayout] at hmarks hlength
  rw [← s.first.size_parts] at hpos ⊢
  rw [← ResponseReceiverGeth.recvLoop_eq_iff (l := {}) hfeeds hmarks
    s.first.complete_not_mem_parts hpos hcs hlength rfl after, hn]
  refine ⟨fun hall => ?_, fun hall => congrArg Receipt.passed hall⟩
  rw [Receipt.ext_iff]
  refine ⟨hall, rfl, ?_⟩
  have hdrop : cs.drop n = [] := by
    have hsplit := List.take_append_drop n cs
    rw [hall] at hsplit
    exact List.append_right_eq_self.mp hsplit
  rw [hdrop]
  rfl

namespace SyncController

/-- **Whatever the cut.**  The verdict on an answer is that of the content of the final response,
when the first response, interim or final, ends in the last piece; else there is none. -/
theorem testPool_eq {text : SyncText} {h : ResponseTools} {tools : ListenerTools}
    {s : ResponseStream} {cs : List Bytes} (htext : text.Decodes) (hf : h.Follows s)
    (ht : tools.Follows s) (hcs : ∀ c ∈ cs, c ≠ []) (hwire : cs.flatten = s.wire)
    (after : List SocketRead) (now : Int) :
    testPool text h tools (cs.map .data ++ after) now =
      if cs.dropLast.flatten.length < s.first.wire.length then
        verdict now (SyncControllerResponseListener.onMessageComplete text
          { body := s.final.body.content })
      else none := by
  obtain ⟨n, hreceipt, hn⟩ := recvResponse_take hf hcs hwire after
  have hprefix : (cs.take n).flatten <+: s.wire :=
    ⟨(cs.drop n).flatten, by rw [← List.flatten_append, List.take_append_drop, hwire]⟩
  obtain ⟨es, hfeed, htrace⟩ :=
    ht (cs.take n) (fun c hc => hcs c (List.mem_of_mem_take hc)) hprefix
  have hlength : cs.flatten.length = size s.layout := by rw [s.size_layout, hwire]
  rw [testPool, hreceipt]
  simp only [hfeed, if_true]
  rw [SyncControllerResponseListener.foldl_call, htrace]
  split
  next hlast =>
    have hne : cs ≠ [] := fun hnil => s.wire_ne_nil (by rw [← hwire, hnil, List.flatten_nil])
    rw [hn.mpr hlast, heard_whole s.layout hne hlength, s.heard_layout, List.foldl_append,
      SyncControllerResponseListener.foldl_listen_gather htext]
    rfl
  next hlast =>
    -- pieces are left, and with them the end of the final response
    have hlt : (cs.take n).flatten.length < size s.partsBeforeEnd := by
      rw [s.size_partsBeforeEnd, ← hwire]
      exact length_flatten_take_lt hcs fun hall => hlast (hn.mp hall)
    have hbefore := heard_prefix hlt
    rw [← s.layout_eq_append, s.heard_partsBeforeEnd] at hbefore
    rw [verdict, SyncControllerResponseListener.blockTimestamp_foldl_prefix htext hbefore]
    rfl

/-- UTF-8, and nothing else. -/
def utf8Only : SyncText where
  codec
    | .utf8, b => Bytes.decode b
    | _, _ => none
  floatText := id
  decimal := fun _ => none

theorem utf8Only_decodes : utf8Only.Decodes := decode_str

/-- Block 16, of second 1000. -/
def block : List (PyStr × Json) :=
  [(PyStr.ofString "number", .str (PyStr.ofString (PyInt.hex 16))),
    (PyStr.ofString "timestamp", .str (PyStr.ofString (PyInt.hex 1000)))]

/-- The answer that has it. -/
def blockData : List (PyStr × Json) :=
  [(PyStr.ofString "id", .int 1), (PyStr.ofString "result", .obj block)]

theorem storable_blockData : Json.Storable utf8Only.floatText (.obj blockData) := by
  refine .obj (by decide) (by decide) fun m hm => ?_
  obtain rfl | rfl := List.mem_pair.mp hm
  · exact .int 1
  · refine .obj (by decide) (by decide) fun m hm => ?_
    obtain rfl | rfl := List.mem_pair.mp hm
    · exact .str (by decide)
    · exact .str (by decide)

/-- The response with this content. -/
def blockResponse : Response where
  version := str "HTTP/1.1"
  status := str "200"
  reason := str "OK"
  fields := [{ name := str "Content-Length", value := str "61" }]
  body := .sized (str (Json.dumps (.obj blockData)))

theorem interim_of_mem_nil : ∀ r ∈ ([] : List Response), r.Interim :=
  fun _ hr => absurd hr List.not_mem_nil

/-- The response alone. -/
def blockStream : ResponseStream where
  interims := []
  final := blockResponse
  interim := interim_of_mem_nil
  wellFormed := by
    refine ⟨by decide, by decide, by decide, by decide, by decide, fun f hf => ?_, ?_⟩
    · obtain rfl := List.mem_singleton.mp hf
      exact ⟨by decide, by decide, by decide, by decide, by decide, by decide, by decide⟩
    · have hsized : Response.Delimited blockResponse.fields blockResponse.body :=
        ⟨by decide, by decide, by decide⟩
      exact hsized

/-- In three pieces, the last of them from the middle of the content. -/
theorem testPool_eq_sized :
    testPool utf8Only (.scripted blockStream) (.scripted blockStream)
      ([blockStream.wire.take 20, (blockStream.wire.take 60).drop 20, blockStream.wire.drop 60].map
        .data ++ []) 1059 =
      verdict 1059 (SyncControllerResponseListener.onMessageComplete utf8Only
        { body := str (Json.dumps (.obj blockData)) }) := by
  have hwire : [blockStream.wire.take 20, (blockStream.wire.take 60).drop 20,
      blockStream.wire.drop 60].flatten = blockStream.wire := by decide
  have hverdict := testPool_eq utf8Only_decodes (ResponseTools.scripted_follows blockStream)
    (ListenerTools.scripted_follows blockStream) (by decide) hwire [] 1059
  rw [hverdict, if_pos (by decide)]
  rfl

/-- **A block.**  A node that answers with a block is in sync exactly when the block is younger
than a minute, however the answer is cut. -/
theorem testPool_block {text : SyncText} {h : ResponseTools} {tools : ListenerTools}
    {s : ResponseStream} {cs : List Bytes} {blockData block : List (PyStr × Json)}
    {number timestamp : Nat} (htext : text.Decodes) (hf : h.Follows s) (ht : tools.Follows s)
    (hcs : ∀ c ∈ cs, c ≠ []) (hwire : cs.flatten = s.wire)
    (hfirst : cs.dropLast.flatten.length < s.first.wire.length)
    (hcontent : Json.loadsBytes text.codec text.floatText s.final.body.content =
      some (.obj blockData))
    (hresult : Json.get? blockData "result" = some (.obj block))
    (hnumber : Json.get? block "number" = some (.str (PyStr.ofString (PyInt.hex number))))
    (htimestamp : Json.get? block "timestamp" =
      some (.str (PyStr.ofString (PyInt.hex timestamp))))
    (hpos : 0 < timestamp) (after : List SocketRead) (now : Int) :
    testPool text h tools (cs.map .data ++ after) now =
      some (decide (now < timestamp + 60)) := by
  have hblock : block ≠ [] := by
    rintro rfl
    cases hnumber
  have hread : SyncControllerResponseListener.onMessageComplete text
      { body := s.final.body.content } =
        { body := s.final.body.content, blockNumber := number, blockTimestamp := timestamp } := by
    rw [SyncControllerResponseListener.onMessageComplete]
    simp only [hcontent, hresult, Option.getD_some]
    simp [Json.isTruthy, hblock, SyncControllerResponseListener.readResult,
      SyncControllerResponseListener.hexMember, hnumber, htimestamp, PyInt.ofHex_hex]
  rw [testPool_eq htext hf ht hcs hwire after now, if_pos hfirst, hread, verdict]
  simp only [maxDelaySeconds]
  rw [if_neg (by omega)]
  rfl

/-- In two pieces, at second 1059. -/
theorem testPool_block_sized :
    testPool utf8Only (.scripted blockStream) (.scripted blockStream)
      ([blockStream.wire.take 50, blockStream.wire.drop 50].map .data ++ []) 1059 =
        some (decide ((1059 : Int) < (1000 : Nat) + 60)) := by
  have hresult : Json.get? blockData "result" = some (.obj block) := rfl
  have hnumber : Json.get? block "number" = some (.str (PyStr.ofString (PyInt.hex 16))) := rfl
  have htimestamp : Json.get? block "timestamp" =
      some (.str (PyStr.ofString (PyInt.hex 1000))) := rfl
  exact testPool_block utf8Only_decodes (ResponseTools.scripted_follows blockStream)
    (ListenerTools.scripted_follows blockStream) (by decide) (by simp)
    (by decide) (Json.loadsBytes_dumps utf8Only_decodes storable_blockData) hresult
    hnumber htimestamp (by decide) [] 1059

end SyncController

end Web3Proxy
