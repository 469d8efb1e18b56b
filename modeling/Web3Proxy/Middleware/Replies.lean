import Web3Proxy.ErrorResponses.Spec
import Web3Proxy.Middleware
import Web3Proxy.RequestReader.Spec

/-!
# Web3Proxy.Middleware.Replies

What comes out of the default chain of readers, whatever the client has sent
(`readDefault_proper`): a reply is one complete response, and the origin of a request
may stand in a header field.
-/

namespace Web3Proxy

open Py Bytes Http PyStr

/-- The origin that is stored in the request may stand in a header field. -/
def RPCRequest.LegalOrigin (req : RPCRequest) : Prop :=
  ∀ origin, req.corsOrigin = some origin → ∀ x ∈ origin, isFieldChar x = true

/-- A reply is one complete response, and a request has a legal origin. -/
def ReadOutcome.Proper : ReadOutcome → Prop
  | .failure err _ => IsResponse err
  | .success req => req.LegalOrigin
  | .drop => True
  | .raise _ => True

/-- A reader that makes proper outcomes. -/
def Reader.Proper (reader : Reader) : Prop := ∀ req, req.LegalOrigin → (reader req).Proper

/-! ## the parser -/

/-- In the states `I` the parser reports field values of legal characters. -/
def HttpTools.ReportsLegal (h : HttpTools) (I : h.Parser → Prop) : Prop :=
  ∀ p data, I p →
    (∀ name value, .field name value ∈ (h.feedData p data).1 → ∀ x ∈ value, isFieldChar x = true) ∧
      ∀ p', (h.feedData p data).2 = some p' → I p'

/-- The parser reports field values of legal characters. -/
def HttpTools.LegalValues (h : HttpTools) : Prop :=
  ∃ I : h.Parser → Prop, I h.new ∧ h.ReportsLegal I

/-- A parser that knows what is sent does so, for well-formed requests. -/
theorem HttpTools.scripted_legalValues {ms : List Message} (hms : ∀ m ∈ ms, m.WellFormed) :
    (scripted ms).LegalValues := by
  refine ⟨fun is => ∀ f ∈ fieldPairs (is.flatMap Item.report), ∀ x ∈ f.2, isFieldChar x = true,
    fun f hf => ?_, fun is data his => ⟨fun name value hmem => ?_, fun p' hp' => ?_⟩⟩
  · -- at the start these are the fields of the requests
    have hpairs : ∀ ms : List Message,
        fieldPairs ((ms.flatMap Message.layout).flatMap Item.report) =
        ms.flatMap fun m => (m.fields ++ m.body.trailer).map Field.pair := by
      intro ms
      induction ms with
      | nil => rfl
      | cons m ms ih => rw [List.flatMap_cons, List.flatMap_append, fieldPairs_append,
          fieldPairs_layout, ih, List.flatMap_cons]
    simp only [scripted, hpairs] at hf
    obtain ⟨m, hm, hf⟩ := List.mem_flatMap.mp hf
    obtain ⟨field, hfield, rfl⟩ := List.mem_map.mp hf
    exact ((hms m hm).field field hfield).value
  · apply his (name, value)
    rw [← fieldPairs_deliver data.length is]
    exact List.mem_append_left _ (mem_fieldPairs.mpr hmem)
  · cases hp'
    intro f hf
    apply his f
    rw [← fieldPairs_deliver data.length is]
    exact List.mem_append_right _ hf

theorem HttpRequestParserListener.call_legalOrigin {e : Event} {l : HttpRequestParserListener}
    (he : ∀ name value, e = .field name value → ∀ x ∈ value, isFieldChar x = true)
    (hl : l.req.LegalOrigin) : (call e l).state.req.LegalOrigin := by
  cases e with
  | target url =>
      simp only [call, onUrl]
      split
      · exact hl
      · split
        · split
          · exact hl
          · exact hl
        · split
          · exact hl
          · exact hl
  | field name value =>
      simp only [call, onHeader, Result.state_ok]
      split
      · exact hl
      · split
        · exact hl
        · split
          · intro origin horigin
            cases horigin
            exact he name value rfl
          · exact hl
  | data body => exact hl
  | complete => exact hl

/-- What is fed keeps the origin legal. -/
theorem HttpTools.feed_legalOrigin {h : HttpTools} {I : h.Parser → Prop}
    (hI : h.ReportsLegal I) {p p' : h.Parser} {data : Bytes} {l l' : HttpRequestParserListener}
    (hp : I p)
    (hl : l.req.LegalOrigin) (hfeed : h.feed p data l = .ok p' l') :
    I p' ∧ l'.req.LegalOrigin := by
  obtain ⟨hvalues, hparser⟩ := hI p data hp
  have hstate := forEach_state (P := fun l : HttpRequestParserListener => l.req.LegalOrigin)
    (fun e he l hl => HttpRequestParserListener.call_legalOrigin
      (fun name value heq => hvalues name value (heq ▸ he)) hl) hl
  unfold feed at hfeed
  simp only at hfeed
  split at hfeed
  · cases hfeed
  · next u l₁ hcalls =>
    rw [hcalls] at hstate
    split at hfeed
    · cases hfeed
    · next p₁ hp₁ =>
      cases hfeed
      exact ⟨hparser _ hp₁, hstate⟩

namespace RequestReader

/-- The loop ends with a legal origin. -/
theorem readLoop_legalOrigin {h : HttpTools} {I : h.Parser → Prop}
    (hI : h.ReportsLegal I) (cs : List SocketRead) {p : h.Parser}
    {l : HttpRequestParserListener} (hp : I p)
    (hl : l.req.LegalOrigin) {q : h.Parser} {req : RPCRequest} {rest : List SocketRead}
    (hread : readLoop h cs p l = .complete q req rest) : req.LegalOrigin := by
  induction cs generalizing p l with
  | nil =>
      unfold readLoop at hread
      split at hread
      · cases hread
      · cases hread
        exact hl
  | cons r cs ih =>
      unfold readLoop at hread
      split at hread
      · cases r with
        | notReady => cases hread
        | ioError => cases hread
        | data bytes =>
            simp only at hread
            split at hread
            · cases hread
            · split at hread
              · next p' l' hfeed =>
                have hp' : I p' ∧ l'.req.LegalOrigin := HttpTools.feed_legalOrigin hI hp hl hfeed
                exact ih hp'.1 hp'.2 hread
              · cases hread
      · cases hread
        exact hl

end RequestReader

/-! ## the chain -/

section Chain

variable {cfg : ReaderConfig} {nextReader : Option Reader} {req req' : RPCRequest}

theorem failure_ne_success {errRes : Bytes} : failure cfg errRes req ≠ .success req' := by
  unfold failure
  split <;> simp

theorem failureReply_ne_success {reply : Except PyError Bytes} :
    failureReply cfg reply req ≠ .success req' := by
  cases reply with
  | error e => exact ReadOutcome.noConfusion
  | ok errRes => exact failure_ne_success

/-- What goes back has been made. -/
theorem failureReply_eq_failure {reply : Except PyError Bytes} {errRes : Bytes}
    (h : failureReply cfg reply req = .failure errRes req') : reply = .ok errRes := by
  cases reply with
  | error e => cases h
  | ok errRes' =>
      rw [failureReply, failure] at h
      split at h
      · cases h
      · cases h
        rfl

/-- A JSON reply is taken apart if it can be encoded. -/
theorem failureWeb3_eq (cfg : ReaderConfig) (code : Int) (message : PyStr) (req : RPCRequest) :
    failureWeb3 cfg code message req =
      if isEncodable (ErrorResponses.web3Json code message (ErrorResponses.formatId req.id)) then
        failure cfg (ErrorResponses.badRequestWeb3 cfg.now code message req.id) req
      else .raise .unicodeEncodeError := by
  rw [failureWeb3, ErrorResponses.tryBadRequestWeb3]
  split
  · rfl
  · rfl

theorem failure_proper {errRes : Bytes} (h : IsResponse errRes) :
    (failure cfg errRes req).Proper := by
  unfold failure
  split
  · exact trivial
  · exact h

theorem failureWeb3_proper (hnow : IsFieldText cfg.now) (code : Int) (message : PyStr) :
    (failureWeb3 cfg code message req).Proper := by
  rw [failureWeb3_eq]
  split
  · exact failure_proper (ErrorResponses.isResponse_badRequestWeb3 hnow code message req.id)
  · exact trivial

theorem continueWith_proper (hnext : ∀ next ∈ nextReader, Reader.Proper next)
    (hreq : req.LegalOrigin) : (continueWith nextReader req).Proper := by
  cases nextReader with
  | none => exact hreq
  | some next => exact hnext next rfl req hreq

theorem AuthRequestReader.readRequest_proper (auth : ClientPermissions)
    (hnow : IsFieldText cfg.now) (hnext : ∀ next ∈ nextReader, Reader.Proper next) :
    Reader.Proper (AuthRequestReader.readRequest cfg auth nextReader) := by
  intro req hreq
  have hunauthorized : (unauthorized cfg req).Proper :=
    failure_proper (ErrorResponses.isResponse_unauthorizedInvalidAPIKey hnow)
  have hcall : (callNext nextReader req).Proper := by
    cases nextReader with
    | none => exact trivial
    | some next => exact hnext next rfl req hreq
  unfold AuthRequestReader.readRequest
  grind

theorem AcceptJSONRPCContentReader.readRequest_proper (hnow : IsFieldText cfg.now)
    (hnext : ∀ next ∈ nextReader, Reader.Proper next) :
    Reader.Proper (AcceptJSONRPCContentReader.readRequest cfg nextReader) := by
  intro req hreq
  unfold AcceptJSONRPCContentReader.readRequest
  split
  · unfold readTokens
    split
    · exact trivial
    · split
      · exact trivial
      · exact failureWeb3_proper hnow _ _
      · exact continueWith_proper hnext hreq
  · unfold readParsed
    split
    · exact failureWeb3_proper hnow _ _
    · split
      · exact failureWeb3_proper hnow _ _
      · exact failure_proper (ErrorResponses.isResponse_httpError _ rfl)
      · split
        · exact continueWith_proper hnext hreq
        · exact trivial

theorem AcceptMethodRequestReader.readRequest_proper (call : CallPermissions)
    (hnow : IsFieldText cfg.now) (hnext : ∀ next ∈ nextReader, Reader.Proper next) :
    Reader.Proper (AcceptMethodRequestReader.readRequest cfg call nextReader) := by
  intro req hreq
  unfold AcceptMethodRequestReader.readRequest
  split
  · exact continueWith_proper hnext hreq
  · split
    · exact trivial
    · exact failureWeb3_proper hnow _ _
    · exact continueWith_proper hnext hreq

theorem defaultReaders_proper (cli : ClientPermissions) (call : CallPermissions)
    (hnow : IsFieldText cfg.now) :
    ∀ next ∈ defaultReaders cfg cli call, Reader.Proper next := by
  intro next hnext
  cases hnext
  apply AuthRequestReader.readRequest_proper cli hnow
  intro next hnext
  cases hnext
  apply AcceptJSONRPCContentReader.readRequest_proper hnow
  intro next hnext
  cases hnext
  exact AcceptMethodRequestReader.readRequest_proper call hnow (by simp)

theorem RequestReader.dispatch_proper (hnext : ∀ next ∈ nextReader, Reader.Proper next)
    (hreq : req.LegalOrigin) : (dispatch nextReader req).Proper := by
  unfold dispatch
  split
  · split
    · exact ErrorResponses.isResponse_httpError _ rfl
    · cases nextReader with
      | none => exact hreq
      | some next => exact hnext next rfl req hreq
  · split
    · exact hreq
    · exact ErrorResponses.isResponse_httpError _ (by decide)

/-- **The default chain makes proper outcomes.** -/
theorem readDefault_proper {h : HttpTools} (hlegal : h.LegalValues) (hnow : IsFieldText cfg.now)
    (cli : ClientPermissions) (call : CallPermissions) (cs : List SocketRead) :
    (readDefault cfg h cli call cs).1.Proper := by
  obtain ⟨I, hnew, hI⟩ := hlegal
  unfold readDefault RequestReader.readRequest
  split
  · exact trivial
  · exact ErrorResponses.isResponse_httpError _ rfl
  · next p req rest hread =>
    have hreq : req.LegalOrigin := RequestReader.readLoop_legalOrigin hI cs hnew
      (fun origin horigin => by cases horigin) hread
    exact RequestReader.dispatch_proper (defaultReaders_proper cli call hnow) hreq

end Chain

end Web3Proxy
