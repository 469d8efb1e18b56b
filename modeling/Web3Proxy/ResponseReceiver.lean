import Web3Proxy.Lib.Http.Stream
import Web3Proxy.RequestReader

/-!
# Web3Proxy.ResponseReceiver

Receiving a response from an endpoint (`receiver.py`): the listener that the HTTP parser calls
back, and the loop that hands on what the socket delivers.

As in `Web3Proxy.RequestReader` the parser is a parameter and a socket is the list of what its
reads return.  The callback that gets the pieces returns; the handler of `handle_client`,
which may raise, is in `Web3Proxy.HandleClient`.

* `receivesAll_iff` — the callback gets a whole answer, and nothing is left unread, exactly
  when the first response of the answer ends in the last piece;
* `not_receivesAll` — after an interim response in a piece of its own the final response is
  left on the connection.
-/

namespace Web3Proxy

open Py Bytes Http

/-! ## the listener -/

/-- `HttpResponseParserListener`. -/
structure HttpResponseParserListener where
  needMoreData : Bool := true
  chunkCompleted : Bool := false
deriving DecidableEq, Repr

/-- The callbacks that the listener has. -/
inductive ResponseEvent where
  | messageComplete
  | chunkHeader
  | chunkComplete
deriving DecidableEq, Repr

namespace HttpResponseParserListener

variable (l : HttpResponseParserListener)

/-- `on_message_complete()`. -/
def onMessageComplete : HttpResponseParserListener := { l with needMoreData := false }

/-- `on_chunk_header()`. -/
def onChunkHeader : HttpResponseParserListener := { l with chunkCompleted := false }

/-- `on_chunk_complete()`. -/
def onChunkComplete : HttpResponseParserListener := { l with chunkCompleted := false }

/-- The callback for what the parser reports. -/
def call (l : HttpResponseParserListener) : ResponseEvent → HttpResponseParserListener
  | .messageComplete => l.onMessageComplete
  | .chunkHeader => l.onChunkHeader
  | .chunkComplete => l.onChunkComplete

/-- No more data is needed after the end of a message. -/
theorem foldl_call (es : List ResponseEvent) :
    (es.foldl call l).needMoreData = (l.needMoreData && decide (.messageComplete ∉ es)) := by
  induction es generalizing l with
  | nil => simp
  | cons e es ih => cases e <;> simp [ih, call, onMessageComplete, onChunkHeader, onChunkComplete]

end HttpResponseParserListener

/-! ## the parser -/

/-- `httptools.HttpResponseParser`: `feedData` is the callbacks that a piece of data leads to,
and the parser afterwards, or `none` when it then raises. -/
structure ResponseTools where
  Parser : Type
  new : Parser
  feedData : Parser → Bytes → List ResponseEvent × Option Parser

namespace ResponseTools

/-- Feeding the pieces one after another makes these calls, and every piece is accepted. -/
inductive Feeds (h : ResponseTools) : h.Parser → List Bytes → List (List ResponseEvent) → Prop
  | nil (p : h.Parser) : Feeds h p [] []
  | cons {p p' : h.Parser} {c : Bytes} {cs : List Bytes} {es : List ResponseEvent}
      {ess : List (List ResponseEvent)} (hfeed : h.feedData p c = (es, some p'))
      (hrest : Feeds h p' cs ess) : Feeds h p (c :: cs) (es :: ess)

/-- What is relied on of `httptools` for an answer: however it is cut, the parser accepts each
piece and calls `on_message_complete` with the pieces in which responses end, interim ones
included. -/
def Follows (h : ResponseTools) (s : ResponseStream) : Prop :=
  ∀ cs : List Bytes, (∀ c ∈ cs, c ≠ []) → cs.flatten = s.wire →
    ∃ ess, h.Feeds h.new cs ess ∧
      ess.map (fun es => decide (.messageComplete ∈ es)) =
        (deliverAll s.layout cs).map fun es => decide (.complete ∈ es)

/-- A parser that knows what is sent. -/
def scripted (s : ResponseStream) : ResponseTools where
  Parser := List Item
  new := s.layout
  feedData is c :=
    ((deliver c.length is).1.filterMap fun e =>
      if e = .complete then some .messageComplete else none, some (deliver c.length is).2)

theorem scripted_follows (s : ResponseStream) : (scripted s).Follows s := by
  intro cs _ _
  suffices hfeeds : ∀ (cs : List Bytes) (is : List Item), ∃ ess, (scripted s).Feeds is cs ess ∧
      ess.map (fun es => decide (.messageComplete ∈ es)) =
        (deliverAll is cs).map fun es => decide (.complete ∈ es) from hfeeds cs s.layout
  intro cs
  induction cs with
  | nil => exact fun is => ⟨[], .nil (h := scripted s) is, rfl⟩
  | cons c cs ih =>
      intro is
      obtain ⟨ess, hfeeds, hmarks⟩ := ih (deliver c.length is).2
      refine ⟨_, .cons rfl hfeeds, ?_⟩
      rw [List.map_cons, hmarks, deliverAll, List.map_cons]
      congr 1
      simp [List.mem_filterMap]

end ResponseTools

/-! ## ResponseReceiverGeth -/

/-- How `recv_response` ends. -/
inductive ReceiveOutcome where
  | returned
  | connectionClosed
  | ioError
  | parserError
deriving DecidableEq, Repr

/-- What `recv_response` comes to: the arguments of the callback, its end, and what is left to
read from the socket. -/
@[ext] structure Receipt where
  passed : List Bytes
  outcome : ReceiveOutcome
  rest : List SocketRead
deriving DecidableEq, Repr

namespace ResponseReceiverGeth

/-- The loop of `recv_response`.  A socket that delivers nothing more is not ready. -/
def recvLoop (h : ResponseTools) :
    List SocketRead → h.Parser → HttpResponseParserListener → Receipt
  | [], _, l =>
      if l.needMoreData then { passed := [], outcome := .connectionClosed, rest := [] }
      else { passed := [], outcome := .returned, rest := [] }
  | r :: rest, p, l =>
      if l.needMoreData then
        match r with
        | .notReady => { passed := [], outcome := .connectionClosed, rest }
        | .ioError => { passed := [], outcome := .ioError, rest }
        | .data bytes =>
            if bytes = [] then { passed := [], outcome := .connectionClosed, rest }
            else match h.feedData p bytes with
              | (_, none) => { passed := [], outcome := .parserError, rest }
              | (es, some p) =>
                  let receipt := recvLoop h rest p (es.foldl HttpResponseParserListener.call l)
                  { receipt with passed := bytes :: receipt.passed }
      else { passed := [], outcome := .returned, rest := r :: rest }

/-- `recv_response(callback)`. -/
def recvResponse (h : ResponseTools) (sock : List SocketRead) : Receipt :=
  recvLoop h sock h.new {}

/-! ## where the loop ends -/

variable {h : ResponseTools} {p : h.Parser} {l : HttpResponseParserListener}

theorem recvLoop_done (sock : List SocketRead) (hl : l.needMoreData = false) :
    recvLoop h sock p l = { passed := [], outcome := .returned, rest := sock } := by
  cases sock with
  | nil => simp [recvLoop, hl]
  | cons r rest => simp [recvLoop, hl]

theorem recvLoop_data {p' : h.Parser} {c : Bytes} {es : List ResponseEvent} (hc : c ≠ [])
    (hl : l.needMoreData = true) (hfeed : h.feedData p c = (es, some p')) (rest : List SocketRead) :
    recvLoop h (.data c :: rest) p l =
      { recvLoop h rest p' (es.foldl HttpResponseParserListener.call l) with
        passed := c :: (recvLoop h rest p' (es.foldl HttpResponseParserListener.call l)).passed } := by
  simp [recvLoop, hl, hc, hfeed]

/-- The loop goes through the pieces up to the one in which a message ends; by induction on the
pieces, along the layout of what is still to come. -/
theorem recvLoop_eq_iff {is more : List Item} {cs : List Bytes} {ess : List (List ResponseEvent)}
    (hfeeds : h.Feeds p cs ess)
    (hmarks : ess.map (fun es => decide (.messageComplete ∈ es)) =
      (deliverAll (is ++ .complete :: more) cs).map fun es => decide (.complete ∈ es))
    (his : .complete ∉ is) (hpos : 0 < size is) (hcs : ∀ c ∈ cs, c ≠ [])
    (hsize : cs.flatten.length = size (is ++ .complete :: more)) (hl : l.needMoreData = true)
    (after : List SocketRead) :
    recvLoop h (cs.map .data ++ after) p l = ⟨cs, .returned, after⟩ ↔
      cs.dropLast.flatten.length < size is := by
  have htotal : size is ≤ size (is ++ .complete :: more) := by
    simp [size]
  induction hfeeds generalizing is l with
  | nil p =>
      simp only [List.flatten_nil, List.length_nil] at hsize
      omega
  | @cons p p' c cs es ess hfeed hrest ih =>
      rw [deliverAll, List.map_cons, List.map_cons, List.cons.injEq, decide_eq_decide] at hmarks
      obtain ⟨hmark, hmarks⟩ := hmarks
      rw [List.flatten_cons, List.length_append] at hsize
      rw [List.map_cons, List.cons_append, recvLoop_data (hcs c List.mem_cons_self) hl hfeed]
      have hneed := l.foldl_call es
      rw [hl, Bool.true_and] at hneed
      by_cases hlt : c.length < size is
      · -- no message ends in this piece
        obtain ⟨hev, is', hlayout, his', hsize'⟩ :=
          @complete_not_mem_of_lt c.length is (.complete :: more) his hlt
        have hne : cs ≠ [] := by
          rintro rfl
          simp only [List.flatten_nil, List.length_nil] at hsize
          omega
        rw [hlayout] at hmarks
        have hsplit : size (is' ++ .complete :: more) = size (is ++ .complete :: more) - c.length := by
          rw [← hlayout, size_deliver]
        have hiff := ih (l := es.foldl HttpResponseParserListener.call l) hmarks his' (by omega)
          (fun x hx => hcs x (List.mem_cons_of_mem c hx)) (by omega)
          (by rw [hneed, decide_eq_true_eq, hmark]; exact hev) (by rw [hsplit]; omega)
        rw [List.dropLast_cons_of_ne_nil hne, List.flatten_cons, List.length_append]
        rw [hsize'] at hiff
        constructor
        · intro heq
          have hlast := hiff.mp (by simpa [Receipt.ext_iff] using heq)
          omega
        · intro hlast
          rw [hiff.mpr (by omega)]
      · -- the first message ends in it
        have hdone : (es.foldl HttpResponseParserListener.call l).needMoreData = false := by
          rw [hneed, decide_eq_false_iff_not, not_not, hmark]
          exact complete_mem_of_le (Nat.le_of_not_lt hlt)
        rw [recvLoop_done _ hdone]
        cases cs with
        | nil => simpa using hpos
        | cons c' cs =>
            rw [List.dropLast_cons_of_ne_nil (List.cons_ne_nil c' cs), List.flatten_cons,
              List.length_append]
            refine iff_of_false (fun heq => ?_) (by omega)
            have hpassed := congrArg Receipt.passed heq
            simp at hpassed

end ResponseReceiverGeth

/-! ## results -/

/-- The callback gets the pieces, each once and in order, and `recv_response` returns when it
has got the last one, whatever the connection delivers afterwards. -/
def ReceivesAll (h : ResponseTools) (cs : List Bytes) : Prop :=
  ∀ after, ResponseReceiverGeth.recvResponse h (cs.map .data ++ after) = ⟨cs, .returned, after⟩

/-- **Completeness.**  An answer that comes in pieces is received to its end exactly when its
first response, interim or final, ends in the last piece. -/
theorem receivesAll_iff {h : ResponseTools} {s : ResponseStream} {cs : List Bytes}
    (hf : h.Follows s) (hcs : ∀ c ∈ cs, c ≠ []) (hwire : cs.flatten = s.wire) :
    ReceivesAll h cs ↔ cs.dropLast.flatten.length < s.first.wire.length := by
  obtain ⟨ess, hfeeds, hmarks⟩ := hf cs hcs hwire
  obtain ⟨more, hlayout⟩ := s.layout_eq
  have hpos : 0 < size s.first.parts := by
    rw [Response.size_parts]
    exact List.length_pos_iff.mpr s.first.wire_ne_nil
  have hsize : cs.flatten.length = size (s.first.parts ++ .complete :: more) := by
    rw [← hlayout, s.size_layout, hwire]
  rw [hlayout] at hmarks
  have hiff (after : List SocketRead) :=
    ResponseReceiverGeth.recvLoop_eq_iff (l := {}) hfeeds hmarks s.first.complete_not_mem_parts hpos
      hcs hsize rfl after
  rw [← s.first.size_parts]
  exact ⟨fun hall => (hiff []).mp (hall []), fun hlt after => (hiff after).mpr hlt⟩

/-- Without interim responses an answer is received to its end. -/
theorem receivesAll_of_no_interims {h : ResponseTools} {s : ResponseStream} {cs : List Bytes}
    (hf : h.Follows s) (hcs : ∀ c ∈ cs, c ≠ []) (hwire : cs.flatten = s.wire)
    (hnone : s.interims = []) : ReceivesAll h cs := by
  refine (receivesAll_iff hf hcs hwire).mpr ?_
  have hfirst : s.first.wire = s.wire := by
    simp [ResponseStream.first, ResponseStream.wire, ResponseStream.responses, hnone]
  have hne : cs ≠ [] := by
    rintro rfl
    exact s.first.wire_ne_nil (hfirst.trans hwire.symm)
  have hlast : 0 < (cs.getLast hne).length :=
    List.length_pos_iff.mpr (hcs _ (List.getLast_mem hne))
  rw [hfirst, ← hwire]
  conv_rhs => rw [← List.dropLast_append_getLast hne]
  rw [List.flatten_append, List.length_append, List.flatten_singleton]
  omega

/-- `HTTP/1.1 100 Continue`. -/
def continueResponse : Response where
  version := str "HTTP/1.1"
  status := str "100"
  reason := str "Continue"
  fields := []
  body := .sized []

/-- A final response without content. -/
def noContent : Response where
  version := str "HTTP/1.1"
  status := str "200"
  reason := str "OK"
  fields := [{ name := str "Content-Length", value := str "0" }]
  body := .sized []

/-- Both, one after the other. -/
def continued : ResponseStream where
  interims := [continueResponse]
  final := noContent
  interim := by
    intro r hr
    obtain rfl := List.mem_singleton.mp hr
    exact ⟨by decide, by decide, by decide, by decide, by decide, by simp [continueResponse],
      by decide, rfl⟩
  wellFormed := by
    refine ⟨by decide, by decide, by decide, by decide, by decide, fun f hf => ?_, ?_⟩
    · obtain rfl := List.mem_singleton.mp hf
      exact ⟨by decide, by decide, by decide, by decide, by decide, by decide, by decide⟩
    · have hsized : Response.Delimited noContent.fields noContent.body :=
        ⟨by decide, by decide, by decide⟩
      exact hsized

/-- Both in one piece. -/
theorem receivesAll_iff_continued :
    (ReceivesAll (.scripted continued) [continued.wire] ↔
      [continued.wire].dropLast.flatten.length < continued.first.wire.length) ∧
      [continued.wire].dropLast.flatten.length < continued.first.wire.length :=
  ⟨receivesAll_iff (ResponseTools.scripted_follows continued) (by decide) (by decide), by decide⟩

/-- In a piece each: `recv_response` returns after the interim response, and the final one
is left on the connection. -/
theorem not_receivesAll :
    (ResponseTools.scripted continued).Follows continued ∧
      [continueResponse.wire, noContent.wire].flatten = continued.wire ∧
      ResponseReceiverGeth.recvResponse (.scripted continued)
          [.data continueResponse.wire, .data noContent.wire] =
        ⟨[continueResponse.wire], .returned, [.data noContent.wire]⟩ ∧
      ¬ ReceivesAll (.scripted continued) [continueResponse.wire, noContent.wire] := by
  have hreceipt : ResponseReceiverGeth.recvResponse (.scripted continued)
      [.data continueResponse.wire, .data noContent.wire] =
        ⟨[continueResponse.wire], .returned, [.data noContent.wire]⟩ := by
    decide
  refine ⟨ResponseTools.scripted_follows continued, by decide, hreceipt, fun hall => ?_⟩
  have hpassed := congrArg Receipt.passed ((hall []).symm.trans hreceipt)
  revert hpassed
  decide

end Web3Proxy
