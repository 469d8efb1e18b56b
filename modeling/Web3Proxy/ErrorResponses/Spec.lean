import Web3Proxy.ErrorResponses
import Web3Proxy.Lib.Http.Response

/-!
# Web3Proxy.ErrorResponses.Spec

Each reply that the proxy makes itself is one complete response: `isResponse_httpError`,
`isResponse_badRequestWeb3`, `isResponse_unauthorizedInvalidAPIKey` and
`isResponse_optionsResponse`.
-/

namespace Web3Proxy

open Bytes Http PyStr

/-! ## replies as texts -/

/-- A field, given by texts. -/
def textField (f : String × String) : Field := Field.spaced (str f.1) (str f.2)

/-- The name of a field that says nothing of the framing. -/
abbrev IsPlainName (name : String) : Prop :=
  str name ≠ [] ∧ (∀ x ∈ str name, isTchar x = true) ∧ lower (str name) ≠ str "transfer-encoding" ∧
    lower (str name) ≠ str "content-length"

/-- A text that may stand in a header field. -/
abbrev IsFieldText (value : String) : Prop := ∀ x ∈ str value, isFieldChar x = true

/-- A date that may stand in a header field, as those of `formatdate`. -/
structure HttpDate where
  text : String
  legal : IsFieldText text

theorem textField_isPlain {f : String × String} (hname : IsPlainName f.1)
    (hvalue : IsFieldText f.2) :
    (textField f).IsPlain := by
  obtain ⟨hne, hname, hcoding, hsize⟩ := hname
  exact Field.spaced_isPlain hne hname hcoding hsize hvalue

/-- The field lines of a reply. -/
def fieldLines : List (String × String) → String
  | [] => ""
  | f :: fs => f.1 ++ ": " ++ f.2 ++ "\r\n" ++ fieldLines fs

theorem str_fieldLines (fs : List (String × String)) :
    str (fieldLines fs) = (fs.map textField).flatMap Field.wire := by
  induction fs with
  | nil => rfl
  | cons f fs ih =>
      rw [fieldLines, str_append, ih, List.map_cons, List.flatMap_cons, textField, Field.wire_spaced]
      simp only [str_append]
      rfl

theorem wire_contentLength (n : Nat) :
    (Field.contentLength n).wire = str ("Content-Length: " ++ toString n ++ "\r\n") := by
  have hname : str "Content-Length: " = str "Content-Length" ++ [58] ++ [32] := by decide
  simp only [Field.wire, Field.line, Field.contentLength, str_append, hname, List.append_nil]
  rfl

/-- A reply whose header has the length of the content between other fields. -/
theorem carries_reply {bytes : Bytes} (status reason : String) (content : Bytes)
    (before after : List (String × String))
    (hbytes : bytes = str ("HTTP/1.1 " ++ status ++ " " ++ reason ++ "\r\n" ++ fieldLines before ++
      "Content-Length: " ++ toString content.length ++ "\r\n" ++ fieldLines after ++ "\r\n") ++
        content)
    (hlength : (str status).length = 3) (hstatus : ∀ x ∈ str status, (digitValue x).isSome)
    (hfinal : (str status).head? ≠ some 49)
    (hbody : str status ≠ str "204" ∧ str status ≠ str "304")
    (hreason : IsFieldText reason)
    (hfields : ∀ f ∈ before ++ after, IsPlainName f.1 ∧ IsFieldText f.2) :
    Carries content bytes := by
  have hplain (fs : List (String × String)) (hfs : ∀ f ∈ fs, IsPlainName f.1 ∧ IsFieldText f.2) :
      ∀ f ∈ fs.map textField, f.IsPlain :=
    List.forall_mem_map.mpr fun f hf => textField_isPlain (hfs f hf).1 (hfs f hf).2
  have hres : Carries content (str "HTTP/1.1" ++ [32] ++ str status ++ [32] ++ str reason ++ crlf ++
      ((before.map textField).flatMap Field.wire ++ (Field.contentLength content.length).wire ++
        (after.map textField).flatMap Field.wire) ++ crlf ++ content) :=
    carries_sized hlength hstatus hfinal hbody hreason
      (hplain before fun f hf => hfields f (List.mem_append_left _ hf))
      (hplain after fun f hf => hfields f (List.mem_append_right _ hf))
  have hversion : str "HTTP/1.1 " = str "HTTP/1.1" ++ [32] := by decide
  have heq : bytes = str "HTTP/1.1" ++ [32] ++ str status ++ [32] ++ str reason ++ crlf ++
      ((before.map textField).flatMap Field.wire ++ (Field.contentLength content.length).wire ++
        (after.map textField).flatMap Field.wire) ++ crlf ++ content := by
    rw [hbytes, wire_contentLength, ← str_fieldLines, ← str_fieldLines]
    simp only [str_append, hversion, List.append_assoc]
    rfl
  rw [heq]
  exact hres

theorem isResponse_reply {bytes : Bytes} (status reason content : String)
    (before after : List (String × String))
    (hbytes : bytes = str ("HTTP/1.1 " ++ status ++ " " ++ reason ++ "\r\n" ++ fieldLines before ++
      "Content-Length: " ++ toString (str content).length ++ "\r\n" ++ fieldLines after ++ "\r\n" ++
      content))
    (hlength : (str status).length = 3) (hstatus : ∀ x ∈ str status, (digitValue x).isSome)
    (hfinal : (str status).head? ≠ some 49)
    (hbody : str status ≠ str "204" ∧ str status ≠ str "304")
    (hreason : IsFieldText reason)
    (hfields : ∀ f ∈ before ++ after, IsPlainName f.1 ∧ IsFieldText f.2) : IsResponse bytes :=
  (carries_reply status reason (str content) before after (hbytes.trans (str_append ..)) hlength
    hstatus hfinal hbody hreason hfields).isResponse

/-! ## the replies -/

namespace ErrorResponses

theorem isResponse_httpError (code : ErrorCode) {message : String}
    (hascii : (str message).length = message.length) : IsResponse (httpError code message) := by
  apply isResponse_reply (toString code.number) code.reason (message ++ "\n")
    [("Content-Type", "text/plain")] []
  · have hlength : (str (message ++ "\n")).length = message.length + 1 := by
      rw [str_append, List.length_append, hascii]
      rfl
    have hfields : "\r\nContent-Type: text/plain\r\nContent-Length: " =
        "\r\n" ++ "Content-Type" ++ ": " ++ "text/plain" ++ "\r\n" ++ "Content-Length: " := rfl
    have hend : "\r\n\r\n" = "\r\n" ++ "\r\n" := rfl
    rw [hlength, httpError, hfields, hend]
    simp only [fieldLines, String.append_assoc, String.append_empty]
  · cases code <;> decide
  · cases code <;> decide
  · cases code <;> decide
  · cases code <;> decide
  · cases code <;> decide
  · decide

/-- The body of a JSON reply is the JSON and a line feed. -/
theorem carries_badRequestWeb3 {now : String} (hnow : IsFieldText now) (code : Int) (message : PyStr)
    (id : Option RequestId) :
    Carries (utf8 (web3Json code message (formatId id)) ++ str "\n")
      (badRequestWeb3 now code message id) := by
  apply carries_reply (toString 200) "OK" (utf8 (web3Json code message (formatId id)) ++ str "\n")
    [("Content-Type", "application/json"), ("Date", now)] []
  · have hlength : (utf8 (web3Json code message (formatId id)) ++ str "\n").length =
        (utf8 (web3Json code message (formatId id))).length + 1 := by
      rw [List.length_append]
      rfl
    have hfields : "\r\nContent-Type: application/json\r\nDate: " =
        "\r\n" ++ "Content-Type" ++ ": " ++ "application/json" ++ "\r\n" ++ "Date" ++ ": " := rfl
    have hsize : "\r\nContent-Length: " = "\r\n" ++ "Content-Length: " := rfl
    have hend : "\r\n\r\n" = "\r\n" ++ "\r\n" := rfl
    rw [hlength, badRequestWeb3, hfields, hsize, hend]
    simp only [fieldLines, String.append_assoc, String.append_empty, List.append_assoc]
  · decide
  · decide
  · decide
  · decide
  · decide
  · intro f hf
    simp only [List.append_nil, List.mem_cons, List.not_mem_nil, or_false] at hf
    obtain rfl | rfl := hf
    · decide
    · exact ⟨(by decide : IsPlainName "Date"), hnow⟩

theorem isResponse_badRequestWeb3 {now : String} (hnow : IsFieldText now) (code : Int)
    (message : PyStr) (id : Option RequestId) : IsResponse (badRequestWeb3 now code message id) :=
  (carries_badRequestWeb3 hnow code message id).isResponse

theorem isResponse_unauthorizedInvalidAPIKey {now : String} (hnow : IsFieldText now) :
    IsResponse (unauthorizedInvalidAPIKey now) := by
  apply isResponse_reply "401" "Unauthorized" "\x7b\"error\": \"invalid authentication id\"\x7d\n"
    [("Content-Type", "text/plain; charset=utf-8"), ("Date", now)]
    [("Connection", "keep-alive"), ("Vary", "Origin"),
      ("Www-Authenticate", "Basic realm=\"Auth failure, invalid authentication id\""),
      ("X-Content-Type-Options", "nosniff")]
  · have hfields : "HTTP/1.1 401 Unauthorized\r\nContent-Type: text/plain; charset=utf-8\r\nDate: " =
        "HTTP/1.1 " ++ "401" ++ " " ++ "Unauthorized" ++ "\r\n" ++ "Content-Type" ++ ": " ++
          "text/plain; charset=utf-8" ++ "\r\n" ++ "Date" ++ ": " := rfl
    have hsize : "\r\nContent-Length: " = "\r\n" ++ "Content-Length: " := rfl
    have hafter : "\r\nConnection: keep-alive\r\nVary: Origin\r\nWww-Authenticate: " =
        "\r\n" ++ "Connection" ++ ": " ++ "keep-alive" ++ "\r\n" ++ "Vary" ++ ": " ++ "Origin" ++
          "\r\n" ++ "Www-Authenticate" ++ ": " := rfl
    have hauth : "Basic realm=\"Auth failure, invalid authentication id\"\r\nX-Content-Type-Options: " =
        "Basic realm=\"Auth failure, invalid authentication id\"" ++ "\r\n" ++
          "X-Content-Type-Options" ++ ": " := rfl
    have hend : "nosniff\r\n\r\n" = "nosniff" ++ "\r\n" ++ "\r\n" := rfl
    have hdata : "\x7b\"error\": \"invalid authentication id\"\x7d\n" =
        "\x7b\"error\": \"invalid authentication id\"\x7d" ++ "\n" := rfl
    have hlength : (str "\x7b\"error\": \"invalid authentication id\"\x7d\n").length =
        "\x7b\"error\": \"invalid authentication id\"\x7d".length + 1 := by decide
    rw [unauthorizedInvalidAPIKey, hlength, hdata, hfields, hsize, hafter, hauth, hend]
    simp only [fieldLines, String.append_assoc, String.append_empty]
  · decide
  · decide
  · decide
  · decide
  · decide
  · intro f hf
    simp only [List.cons_append, List.nil_append, List.mem_cons, List.not_mem_nil, or_false] at hf
    obtain rfl | rfl | rfl | rfl | rfl | rfl := hf
    · decide
    · exact ⟨(by decide : IsPlainName "Date"), hnow⟩
    · decide
    · decide
    · decide
    · decide

end ErrorResponses

namespace OptionsResponses

theorem isResponse_optionsResponse : IsResponse optionsResponse := by
  apply isResponse_reply "200" "OK" ""
    [("Access-Control-Allow-Headers", "Content-Type"),
      ("Access-Control-Allow-Methods", "POST, OPTIONS"), ("Access-Control-Allow-Origin", "*")] []
  · rfl
  · decide
  · decide
  · decide
  · decide
  · decide
  · decide

end OptionsResponses

end Web3Proxy
