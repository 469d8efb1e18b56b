import Web3Proxy.ErrorResponses.Spec
import Web3Proxy.RPCResponse

/-!
# Web3Proxy.RPCResponse.Spec

What the constructor of `RPCResponse` makes of the replies of the proxy itself: it
raises nothing on a plain text (`new_httpInternalServerError`), on a JSON reply it
raises exactly when its decoder does (`new_badRequestWeb3`), and on the reply to an unknown
key only if that is no JSON (`new_unauthorizedInvalidAPIKey`).
-/

namespace Web3Proxy

open Py Bytes Http PyStr

namespace RPCResponse

/-! ## header lines -/

theorem decodeUtf8_str (s : String) : decodeUtf8 (str s) = .ok s := by
  rw [decodeUtf8, decode_str]

/-- A line of a header is split at its first colon. -/
theorem parseHeader_of_decode {l : Bytes} {text : String} (h : decode l = some text)
    (d : Dict String String) :
    parseHeader d l = .ok (d.set
      (String.ofList ((partition [':'] text.toList).1.map Char.toLower))
      (String.ofList (PyStr.strip (partition [':'] text.toList).2))) := by
  rw [parseHeader, decodeUtf8, h]
  rfl

theorem parseHeader_line {name value : String} (hname : ':' ∉ name.toList)
    (headers : Dict String String) :
    parseHeader headers (str (name ++ ":" ++ value)) =
      .ok (headers.set (String.ofList (name.toList.map Char.toLower))
        (String.ofList (PyStr.strip value.toList))) := by
  have hcolon : (name ++ ":" ++ value).toList = name.toList ++ [':'] ++ value.toList := by
    rw [String.toList_append, String.toList_append]
    rfl
  rw [parseHeader_of_decode (decode_str _), hcolon, partition_append hname]

/-- A digit is no white space. -/
theorem isSpace_of_isDigit {c : Char} (hc : c.isDigit = true) : PyStr.isSpace c = false := by
  have hall : ∀ d : Fin 10, PyStr.isSpace (Char.ofNat (48 + d)) = false := by decide
  simp only [Char.isDigit, Bool.and_eq_true, decide_eq_true_eq] at hc
  have hlow : 48 ≤ c.toNat := UInt32.le_iff_toNat_le.mp hc.1
  have hhigh : c.toNat ≤ 57 := UInt32.le_iff_toNat_le.mp hc.2
  have hspace := hall ⟨c.toNat - 48, by omega⟩
  have hcode : 48 + (c.toNat - 48) = c.toNat := by omega
  rwa [hcode, Char.ofNat_toNat] at hspace

theorem dropWhile_eq_self {α : Type} {p : α → Bool} {l : List α} (h : ∀ x ∈ l, p x = false) :
    l.dropWhile p = l := by
  cases l with
  | nil => rfl
  | cons x l => simp [h x List.mem_cons_self]

/-- White space before a numeral is stripped. -/
theorem strip_toString (n : Nat) :
    PyStr.strip (" " ++ toString n).toList = (toString n).toList := by
  have hdigits : ∀ c ∈ (toString n).toList, PyStr.isSpace c = false := by
    intro c hc
    rw [Nat.toString_eq_repr, Nat.toList_repr] at hc
    exact isSpace_of_isDigit (Nat.isDigit_of_mem_toDigits (by decide) (by decide) hc)
  have hblank : (" " ++ toString n).toList.dropWhile PyStr.isSpace =
      (toString n).toList.dropWhile PyStr.isSpace := by
    rw [String.toList_append]
    rfl
  rw [PyStr.strip, hblank, dropWhile_eq_self hdigits,
    dropWhile_eq_self fun c hc => hdigits c (List.mem_reverse.mp hc), List.reverse_reverse]

/-- `int` of a numeral. -/
theorem toInt_numeral {b : Bytes} {n : Nat} (h : numeral 10 b = some n) :
    toInt b = .ok (n : Int) := by
  have hdigit : ∀ x ∈ b, Bytes.isSpace x = false ∧ x ≠ 45 ∧ x ≠ 43 ∧ (x == 95) = false := by
    intro x hx
    obtain ⟨d, hd, rfl⟩ := mem_numeral h hx
    have hall : ∀ d : Fin 10, Bytes.isSpace (48 + UInt8.ofNat d) = false ∧
        48 + UInt8.ofNat d ≠ 45 ∧ 48 + UInt8.ofNat d ≠ 43 ∧
          ((48 + UInt8.ofNat d : UInt8) == 95) = false := by decide
    exact hall ⟨d, hd⟩
  have hstrip : Bytes.strip b = b := by
    rw [Bytes.strip, dropWhile_eq_self fun x hx => (hdigit x hx).1,
      dropWhile_eq_self fun x hx => (hdigit x (List.mem_reverse.mp hx)).1, List.reverse_reverse]
  have hsplit : b.splitOn 95 = [b] :=
    List.splitOnP_eq_singleton fun x hx => (hdigit x hx).2.2.2
  have hminus : b.head? ≠ some 45 := fun h => (hdigit 45 (List.mem_of_head? h)).2.1 rfl
  have hplus : b.head? ≠ some 43 := fun h => (hdigit 43 (List.mem_of_head? h)).2.2.1 rfl
  have hne : b ≠ [] := by
    rintro rfl
    cases h
  simp [toInt, hstrip, hminus, hplus, hsplit, hne, h]

/-- The headers of a JSON reply, as they are stored. -/
def replyHeaders (now : String) (len : Nat) : Dict String String :=
  ((Dict.empty.set "content-type" "application/json").set "date"
    (String.ofList (PyStr.strip (" " ++ now).toList))).set "content-length" (toString len)

/-- The lines of the header of a JSON reply. -/
def replyLines (now : String) (len : Nat) : List Bytes :=
  [str ("Content-Type" ++ ":" ++ " application/json"), str ("Date" ++ ":" ++ (" " ++ now)),
    str ("Content-Length" ++ ":" ++ (" " ++ toString len))]

theorem foldlM_replyLines (now : String) (len : Nat) :
    (replyLines now len).foldlM parseHeader .empty = .ok (replyHeaders now len) := by
  have htype (headers : Dict String String) :
      parseHeader headers (str ("Content-Type" ++ ":" ++ " application/json")) =
        .ok (headers.set "content-type" "application/json") := by
    have hname : String.ofList ("Content-Type".toList.map Char.toLower) = "content-type" := by
      decide
    have hvalue : String.ofList (PyStr.strip " application/json".toList) = "application/json" := by
      decide
    rw [parseHeader_line (by decide), hname, hvalue]
  have hdate (headers : Dict String String) :
      parseHeader headers (str ("Date" ++ ":" ++ (" " ++ now))) =
        .ok (headers.set "date" (String.ofList (PyStr.strip (" " ++ now).toList))) := by
    have hname : String.ofList ("Date".toList.map Char.toLower) = "date" := by decide
    rw [parseHeader_line (by decide), hname]
  have hlength (headers : Dict String String) :
      parseHeader headers (str ("Content-Length" ++ ":" ++ (" " ++ toString len))) =
        .ok (headers.set "content-length" (toString len)) := by
    have hname : String.ofList ("Content-Length".toList.map Char.toLower) = "content-length" := by
      decide
    rw [parseHeader_line (by decide), hname, strip_toString, String.ofList_toList]
  rw [replyLines, List.foldlM_cons, htype]
  show (replyLines now len).tail.foldlM parseHeader _ = _
  rw [replyLines, List.tail_cons, List.foldlM_cons, hdate]
  show [_].foldlM parseHeader _ = _
  rw [List.foldlM_cons, hlength]
  rfl

theorem badRequestWeb3_lines (now : String) (code : Int) (message : PyStr) (id : Option RequestId)
    {json : PyStr}
    (hjson : ErrorResponses.web3Json code message (ErrorResponses.formatId id) = json) :
    ErrorResponses.badRequestWeb3 now code message id =
      str "HTTP/1.1 200 OK" ++ (replyLines now ((utf8 json).length + 1)).flatMap (crlf ++ ·) ++
        crlf ++ crlf ++ (utf8 json ++ str "\n") := by
  have hfields : "\r\nContent-Type: application/json\r\nDate: " =
      "\r\n" ++ ("Content-Type" ++ ":" ++ " application/json") ++ "\r\n" ++ "Date" ++ ":" ++ " " := rfl
  have hsize : "\r\nContent-Length: " = "\r\n" ++ "Content-Length" ++ ":" ++ " " := rfl
  have hend : "\r\n\r\n" = "\r\n" ++ "\r\n" := rfl
  have hstatus : "HTTP/1.1 " ++ toString 200 ++ " " ++ "OK" = "HTTP/1.1 200 OK" := by decide
  have hcrlf : crlf = str "\r\n" := by decide
  rw [ErrorResponses.badRequestWeb3, hjson, hfields, hsize, hend, hstatus, replyLines, hcrlf]
  simp only [List.flatMap_cons, List.flatMap_nil, List.append_nil, str_append, List.append_assoc]

/-- No line of the header ends before its end. -/
theorem replyLines_ne {now : String} (hnow : IsFieldText now) (len : Nat) :
    (∀ l ∈ str "HTTP/1.1 200 OK" :: replyLines now len, 13 ∉ l) ∧
      ∀ l ∈ replyLines now len, l ≠ [] := by
  have hdate : 13 ∉ str ("Date" ++ ":" ++ (" " ++ now)) := by
    have hname : 13 ∉ str ("Date" ++ ":") := by decide
    have hblank : 13 ∉ str " " := by decide
    have hvalue : 13 ∉ str now := fun h => (isFieldChar_ne (hnow 13 h)).1 rfl
    rw [str_append ("Date" ++ ":"), str_append " ", List.mem_append, List.mem_append, not_or,
      not_or]
    exact ⟨hname, hblank, hvalue⟩
  have hlength : 13 ∉ str ("Content-Length" ++ ":" ++ (" " ++ toString len)) := by
    have hname : 13 ∉ str ("Content-Length" ++ ":") := by decide
    have hblank : 13 ∉ str " " := by decide
    have hvalue : 13 ∉ str (toString len) := by
      intro h
      obtain ⟨d, hd, heq⟩ := mem_toString h
      have hall : ∀ d : Fin 10, 13 ≠ 48 + UInt8.ofNat d := by decide
      exact hall ⟨d, hd⟩ heq
    rw [str_append ("Content-Length" ++ ":"), str_append " ", List.mem_append, List.mem_append,
      not_or, not_or]
    exact ⟨hname, hblank, hvalue⟩
  have htype : 13 ∉ str ("Content-Type" ++ ":" ++ " application/json") := by decide
  constructor
  · simp only [replyLines, List.forall_mem_cons]
    exact ⟨by decide, htype, hdate, hlength, by simp⟩
  · have hne {name value : String} (h : str name ≠ []) : str (name ++ ":" ++ value) ≠ [] := by
      simp [str_append, h]
    simp only [replyLines, List.forall_mem_cons]
    exact ⟨hne (by decide), hne (by decide), hne (by decide), by simp⟩

variable {now : String} (loads : String → Option Json)

theorem get?_replyHeaders (len : Nat) (name : String) :
    (replyHeaders now len).get? name =
      if name = "content-length" then some (toString len)
      else if name = "date" then some (String.ofList (PyStr.strip (" " ++ now).toList))
      else if name = "content-type" then some "application/json"
      else none := by
  rw [replyHeaders, Dict.get?_set, Dict.get?_set, Dict.get?_set]
  rfl

/-- The content of a JSON reply is decoded. -/
theorem processContent_reply (json : String) :
    processContent loads (replyHeaders now ((str json).length + 1)) (str json ++ str "\n") =
      match loads (json ++ "\n") with
      | none => .error .valueError
      | some value => .ok (.json value) := by
  have hcompressed : isCompressed (replyHeaders now ((str json).length + 1)) = false := by
    rw [isCompressed, get?_replyHeaders, if_neg (by decide), if_neg (by decide), if_neg (by decide)]
    decide
  have hchunked : isChunked (replyHeaders now ((str json).length + 1)) = false := by
    rw [isChunked, get?_replyHeaders, if_neg (by decide), if_neg (by decide), if_neg (by decide)]
    decide
  have htype : (((replyHeaders now ((str json).length + 1)).get? "content-type").getD "").toList.map
      Char.toLower ≠ "text/plain".toList := by
    rw [get?_replyHeaders, if_neg (by decide), if_neg (by decide), if_pos rfl]
    decide
  have hcomplete : verifyCompletion (str json ++ str "\n")
      (replyHeaders now ((str json).length + 1)) = .ok true := by
    have hfeed : (str "\n").length = 1 := by decide
    rw [verifyCompletion, hchunked, get?_replyHeaders, if_pos rfl]
    show (do
      let contentLength ← toInt (str (toString ((str json).length + 1)))
      return decide (((str json ++ str "\n").length : Int) = contentLength)) = _
    rw [toInt_numeral (numeral_toString _), List.length_append, hfeed]
    simp
  have hne : json ++ "\n" ≠ "" := by
    intro h
    have hlength := congrArg String.length h
    rw [String.length_append] at hlength
    cases hlength
  rw [processContent, hcompressed, ← str_append, decodeUtf8_str]
  show (if json ++ "\n" ≠ "" ∧ _ ∧ _ then _ else _) = _
  rw [hchunked, if_pos ⟨hne, rfl, htype⟩, str_append, hcomplete]
  rfl

/-- A response whose header is read line by line is taken apart if its content is. -/
theorem new_lines {line version status body : Bytes} {lines : List Bytes} {code : Int}
    {text protocol : String} {headers : Dict String String}
    (hstart : (str "HTTP").isPrefixOf line = true) (hlines : ∀ l ∈ line :: lines, 13 ∉ l)
    (hne : ∀ l ∈ lines, l ≠ []) (hsome : lines ≠ [])
    (hversion : partition [32] line = (version, status))
    (hcode : toInt (status.take 3) = .ok code) (hstatus : decodeUtf8 (status.drop 4) = .ok text)
    (hprotocol : decodeUtf8 version = .ok protocol)
    (hheaders : lines.foldlM parseHeader .empty = .ok headers) :
    RPCResponse.new loads (line ++ lines.flatMap (crlf ++ ·) ++ crlf ++ crlf ++ body) =
      (processContent loads headers body).map fun content => {
        raw := line ++ lines.flatMap (crlf ++ ·) ++ crlf ++ crlf ++ body
        statusCode := some code
        status := some text
        protocol := some protocol
        headers := some headers
        content } := by
  obtain ⟨l, ls, rfl⟩ := List.exists_cons_of_ne_nil hsome
  have hprefix : (str "HTTP").isPrefixOf
      (line ++ (l :: ls).flatMap (crlf ++ ·) ++ crlf ++ crlf ++ body) = true := by
    rw [List.isPrefixOf_iff_prefix] at hstart ⊢
    simp only [List.append_assoc]
    exact hstart.trans (List.prefix_append _ _)
  have hhead := @partition_head line body (l :: ls) hlines hne
  have hflat : (l :: ls).flatMap (crlf ++ ·) = crlf ++ (l ++ ls.flatMap (crlf ++ ·)) := by
    rw [List.flatMap_cons, List.append_assoc]
  have hline : partition crlf (line ++ (crlf ++ (l ++ ls.flatMap (crlf ++ ·)))) =
      (line, l ++ ls.flatMap (crlf ++ ·)) := by
    rw [← List.append_assoc]
    exact partition_append (hlines line List.mem_cons_self)
  have hsplit := @splitCrlf_lines l ls fun k hk => hlines k (List.mem_cons_of_mem _ hk)
  have hlast : (l :: ls).getLast? ≠ some [] := fun h => hne [] (List.mem_of_getLast? h) rfl
  have hparse : parseHeaders (l ++ ls.flatMap (crlf ++ ·)) = .ok headers := by
    rw [parseHeaders, hsplit]
    show List.foldlM _ _ (if _ then _ else _) = _
    rw [if_neg hlast]
    exact hheaders
  rw [RPCResponse.new, if_pos hprefix, parseResponse, hhead, hflat]
  dsimp only
  rw [hline]
  dsimp only
  rw [hversion]
  dsimp only
  rw [hcode, hstatus, hprotocol, hparse]
  show (processContent loads headers body >>= fun content => _) = _
  cases processContent loads headers body with
  | error e => rfl
  | ok content => rfl

/-- **The reply is taken apart** exactly when its JSON is decoded. -/
theorem new_badRequestWeb3 (hnow : IsFieldText now) {code : Int} {message : PyStr}
    {id : Option RequestId} {json : String}
    (hjson : ErrorResponses.web3Json code message (ErrorResponses.formatId id) = ofString json) :
    RPCResponse.new loads (ErrorResponses.badRequestWeb3 now code message id) =
      match loads (json ++ "\n") with
      | none => .error .valueError
      | some value => .ok {
          raw := ErrorResponses.badRequestWeb3 now code message id
          statusCode := some 200
          status := some "OK"
          protocol := some "HTTP/1.1"
          headers := some (replyHeaders now ((str json).length + 1))
          content := .json value } := by
  obtain ⟨hlines, hne⟩ := replyLines_ne hnow ((str json).length + 1)
  have hversion : partition [32] (str "HTTP/1.1 200 OK") = (str "HTTP/1.1", str "200 OK") := by
    decide
  have hcode : toInt ((str "200 OK").take 3) = .ok 200 := by decide
  have hstatus : decodeUtf8 ((str "200 OK").drop 4) = .ok "OK" := by
    have hdrop : (str "200 OK").drop 4 = str "OK" := by decide
    rw [hdrop, decodeUtf8_str]
  have hnew := @new_lines loads _ _ _ (str json ++ str "\n") _ _ _ _ _ (by decide) hlines hne
    (by simp [replyLines]) hversion hcode hstatus (decodeUtf8_str _) (foldlM_replyLines now _)
  rw [badRequestWeb3_lines now code message id hjson, utf8_ofString, hnew, processContent_reply]
  cases loads (json ++ "\n") with
  | none => rfl
  | some value => rfl

/-- The content of a plain text is not decoded. -/
theorem new_httpInternalServerError :
    ∃ r, RPCResponse.new loads ErrorResponses.httpInternalServerError = .ok r := ⟨_, rfl⟩

/-! ## the reply to an unknown key -/

/-- The line of a field whose value is behind a blank. -/
def textLine (f : String × String) : Bytes := str (f.1 ++ ":" ++ (" " ++ f.2))

/-- The dictionary of the fields. -/
def textHeaders (fs : List (String × String)) (headers : Dict String String) : Dict String String :=
  fs.foldl (fun headers f => headers.set (String.ofList (f.1.toList.map Char.toLower))
    (String.ofList (PyStr.strip (" " ++ f.2).toList))) headers

theorem foldlM_textLine {fs : List (String × String)} (hfs : ∀ f ∈ fs, ':' ∉ f.1.toList)
    (headers : Dict String String) :
    (fs.map textLine).foldlM parseHeader headers = .ok (textHeaders fs headers) := by
  induction fs generalizing headers with
  | nil => rfl
  | cons f fs ih =>
      rw [List.map_cons, List.foldlM_cons, textLine, parseHeader_line (hfs f List.mem_cons_self)]
      exact ih (fun f' hf' => hfs f' (List.mem_cons_of_mem _ hf')) _

theorem textLine_ne {f : String × String} (hname : 13 ∉ str f.1) (hvalue : IsFieldText f.2) :
    13 ∉ textLine f ∧ textLine f ≠ [] := by
  have hcolon : 13 ∉ str ":" := by decide
  have hblank : 13 ∉ str " " := by decide
  have hvalue : 13 ∉ str f.2 := fun h => (isFieldChar_ne (hvalue 13 h)).1 rfl
  have hne : str ":" ≠ [] := by decide
  rw [textLine, str_append, str_append, str_append]
  constructor
  · simp [hname, hcolon, hblank, hvalue]
  · simp [hne]

/-- The fields of the reply to an unknown key, from `Content-Length` on. -/
def unauthorizedRest : List (String × String) :=
  [("Content-Length", "39"), ("Connection", "keep-alive"), ("Vary", "Origin"),
    ("Www-Authenticate", "Basic realm=\"Auth failure, invalid authentication id\""),
    ("X-Content-Type-Options", "nosniff")]

/-- The fields of the reply to an unknown key. -/
def unauthorizedFields (now : String) : List (String × String) :=
  [("Content-Type", "text/plain; charset=utf-8"), ("Date", now)] ++ unauthorizedRest

theorem unauthorized_lines (now : String) :
    ErrorResponses.unauthorizedInvalidAPIKey now =
      str "HTTP/1.1 401 Unauthorized" ++ ((unauthorizedFields now).map textLine).flatMap (crlf ++ ·) ++
        crlf ++ crlf ++ str ("\x7b\"error\": \"invalid authentication id\"\x7d" ++ "\n") := by
  have hfirst : "HTTP/1.1 401 Unauthorized\r\nContent-Type: text/plain; charset=utf-8\r\nDate: " =
      "HTTP/1.1 401 Unauthorized" ++ "\r\n" ++ "Content-Type" ++ ":" ++ " " ++
        "text/plain; charset=utf-8" ++ "\r\n" ++ "Date" ++ ":" ++ " " := rfl
  have hsize : "\r\nContent-Length: " = "\r\n" ++ "Content-Length" ++ ":" ++ " " := rfl
  have hafter : "\r\nConnection: keep-alive\r\nVary: Origin\r\nWww-Authenticate: " =
      "\r\n" ++ "Connection" ++ ":" ++ " " ++ "keep-alive" ++ "\r\n" ++ "Vary" ++ ":" ++ " " ++
        "Origin" ++ "\r\n" ++ "Www-Authenticate" ++ ":" ++ " " := rfl
  have hauth : "Basic realm=\"Auth failure, invalid authentication id\"\r\nX-Content-Type-Options: " =
      "Basic realm=\"Auth failure, invalid authentication id\"" ++ "\r\n" ++
        "X-Content-Type-Options" ++ ":" ++ " " := rfl
  have hend : "nosniff\r\n\r\n" = "nosniff" ++ "\r\n" ++ "\r\n" := rfl
  have hlength : toString ("\x7b\"error\": \"invalid authentication id\"\x7d".length + 1) = "39" := by
    decide
  have hcrlf : crlf = str "\r\n" := by decide
  rw [ErrorResponses.unauthorizedInvalidAPIKey, hlength, hfirst, hsize, hafter, hauth, hend,
    unauthorizedFields, unauthorizedRest, hcrlf]
  simp only [textLine, List.cons_append, List.nil_append, List.map_cons, List.map_nil,
    List.flatMap_cons, List.flatMap_nil, List.append_nil, str_append, List.append_assoc]

/-- The length that the reply gives is read. -/
theorem get?_unauthorized (headers : Dict String String) :
    (textHeaders unauthorizedRest headers).get? "content-length" = some "39" := by
  simp only [textHeaders, unauthorizedRest, List.foldl_cons, List.foldl_nil, Dict.get?_set]
  rw [if_neg (by decide), if_neg (by decide), if_neg (by decide),
    if_neg (by decide), if_pos (by decide)]
  decide

/-- Content of a known length is taken apart if it is JSON. -/
theorem processContent_ok {headers : Dict String String} {text : String} {length : Int}
    (hlength : ∃ value, headers.get? "content-length" = some value ∧ toInt (str value) = .ok length)
    (hloads : ∃ value, loads text = some value) :
    ∃ content, processContent loads headers (str text) = .ok content := by
  obtain ⟨value, hvalue⟩ := hloads
  obtain ⟨len, hget, hint⟩ := hlength
  rw [processContent, decodeUtf8_str]
  split
  · exact ⟨_, rfl⟩
  · simp only [bind, Except.bind]
    split
    · have hcomplete : ∃ b, verifyCompletion (str text) headers = .ok b := by
        rw [verifyCompletion, hget]
        dsimp only
        rw [hint]
        split
        · exact ⟨_, rfl⟩
        · exact ⟨_, rfl⟩
      obtain ⟨b, hb⟩ := hcomplete
      rw [hb, hvalue]
      cases b with
      | false => exact ⟨_, rfl⟩
      | true => exact ⟨_, rfl⟩
    · exact ⟨_, rfl⟩

/-- The reply to an unknown key is taken apart if what it says is JSON. -/
theorem new_unauthorizedInvalidAPIKey (hnow : IsFieldText now)
    (hloads : ∃ value,
      loads ("\x7b\"error\": \"invalid authentication id\"\x7d" ++ "\n") = some value) :
    ∃ r, RPCResponse.new loads (ErrorResponses.unauthorizedInvalidAPIKey now) = .ok r := by
  have hfields : ∀ f ∈ unauthorizedFields now,
      ':' ∉ f.1.toList ∧ 13 ∉ str f.1 ∧ IsFieldText f.2 := by
    simp only [unauthorizedFields, unauthorizedRest, List.cons_append, List.nil_append,
      List.forall_mem_cons]
    exact ⟨by decide, ⟨by decide, by decide, hnow⟩, by decide, by decide, by decide, by decide,
      by decide, by simp⟩
  have hlines : ∀ l ∈ (unauthorizedFields now).map textLine, 13 ∉ l ∧ l ≠ [] :=
    List.forall_mem_map.mpr fun f hf => textLine_ne (hfields f hf).2.1 (hfields f hf).2.2
  have hline : 13 ∉ str "HTTP/1.1 401 Unauthorized" := by decide
  have hversion : partition [32] (str "HTTP/1.1 401 Unauthorized") =
      (str "HTTP/1.1", str "401 Unauthorized") := by decide
  have hcode : toInt ((str "401 Unauthorized").take 3) = .ok 401 := by decide
  have hstatus : decodeUtf8 ((str "401 Unauthorized").drop 4) = .ok "Unauthorized" := by
    have hdrop : (str "401 Unauthorized").drop 4 = str "Unauthorized" := by decide
    rw [hdrop, decodeUtf8_str]
  have hnew := @new_lines loads (str "HTTP/1.1 401 Unauthorized") _ _
    (str ("\x7b\"error\": \"invalid authentication id\"\x7d" ++ "\n"))
    ((unauthorizedFields now).map textLine) 401 _ _ _ (by decide)
    (List.forall_mem_cons.mpr ⟨hline, fun l hl => (hlines l hl).1⟩) (fun l hl => (hlines l hl).2)
    (by simp [unauthorizedFields]) hversion hcode hstatus (decodeUtf8_str _)
    (foldlM_textLine (fun f hf => (hfields f hf).1) _)
  have hget : (textHeaders (unauthorizedFields now) .empty).get? "content-length" = some "39" := by
    rw [unauthorizedFields, textHeaders, List.foldl_append]
    exact get?_unauthorized _
  obtain ⟨content, hcontent⟩ := @processContent_ok loads (textHeaders (unauthorizedFields now) .empty)
    _ 39 ⟨_, hget, by decide⟩ hloads
  rw [unauthorized_lines, hnew, hcontent]
  exact ⟨_, rfl⟩

end RPCResponse

end Web3Proxy
