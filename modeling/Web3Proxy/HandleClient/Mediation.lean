import Web3Proxy.HandleClient.Spec
import Web3Proxy.Lib.Trans
import Web3Proxy.Middleware.Replies

/-!
# Web3Proxy.HandleClient.Mediation

Complete mediation: with the default chain of readers, nothing is written to an
endpoint but requests that have passed every reader.

* `readDefault_success` — what the default chain lets through has a `Clearance`;
* `always_mediated` — in every run, whatever the client sends and however the run's
  calls end, each message written to an endpoint is the request that was cleared, with
  the content that was validated.
-/

namespace Web3Proxy

open Py Bytes PyStr

/-! ## what the readers check -/

/-- What the readers have found out about a request that they let through. -/
structure Clearance (cfg : ReaderConfig) (m : Managers) where
  userApiKey : String
  content : Bytes
  json : Json
  method : String
  registered : m.client.isAuthorized userApiKey = true
  parsed : AcceptJSONRPCContentReader.loads cfg (some content) = some json
  format : JSONRPCFormatValidator.validate json = .ok ()
  params : JSONRPCContentValidator.validate cfg.text json = .ok ()
  methodCount : JSONRPCMethodValidator.validate json = .ok ()
  method_eq : AcceptJSONRPCContentReader.member json "method" = some (.str (ofString method))
  allowed : m.call.isAllowed userApiKey (some method) = .ok true

/-- The clearance is for this request. -/
def Clearance.Covers {cfg : ReaderConfig} {m : Managers} (clr : Clearance cfg m)
    (req : RPCRequest) : Prop :=
  req.userApiKey = some clr.userApiKey ∧ req.content = some clr.content

/-! ## the readers -/

section Readers

variable {cfg : ReaderConfig} {nextReader : Option Reader} {req req' : RPCRequest}

/-- What `AuthRequestReader` lets through has a registered key. -/
theorem AuthRequestReader.readRequest_success {auth : ClientPermissions}
    (hmode : cfg.mode ≠ .sim)
    (h : AuthRequestReader.readRequest cfg auth nextReader req = .success req') :
    ∃ key, req.userApiKey = some key ∧ auth.isAuthorized key = true ∧
      ∃ next, nextReader = some next ∧ next req = .success req' := by
  unfold AuthRequestReader.readRequest at h
  split at h
  · rw [if_pos hmode] at h
    exact absurd h failure_ne_success
  · next key hkey =>
    split at h
    · exact absurd h failure_ne_success
    · next hauth =>
      have hauth' : auth.isAuthorized key = true := by simpa using hauth
      refine ⟨key, (Option.filter_eq_some_iff.mp hkey).1, hauth', ?_⟩
      unfold callNext at h
      split at h
      · next next => exact ⟨next, rfl, h⟩
      · cases h

/-- What `AcceptJSONRPCContentReader` lets through has passed the three validators. -/
theorem AcceptJSONRPCContentReader.readRequest_success
    (hparser : cfg.jsonRpcRequestParserEnabled = true)
    (h : AcceptJSONRPCContentReader.readRequest cfg nextReader req = .success req') :
    ∃ content json method id, req.content = some content ∧
      loads cfg (some content) = some json ∧ validate cfg json = .ok () ∧
      member json "method" = some (.str method) ∧
      continueWith nextReader { req with method := method.asString, id } = .success req' := by
  rw [readRequest_enabled _ _ hparser] at h
  unfold readParsed at h
  split at h
  · exact absurd h failureReply_ne_success
  · next json hjson =>
    obtain ⟨content, hcontent⟩ : ∃ content, req.content = some content := by
      cases hc : req.content with
      | none => simp [hc, loads] at hjson
      | some content => exact ⟨content, rfl⟩
    rw [hcontent] at hjson
    split at h
    · exact absurd h failureReply_ne_success
    · exact absurd h failure_ne_success
    · next hvalid =>
      split at h
      · next method id hmethod hid =>
        exact ⟨content, json, method, idOf id, hcontent, hjson, hvalid, hmethod, h⟩
      · cases h

/-- The three validators, one after the other. -/
theorem AcceptJSONRPCContentReader.validate_ok {json : Json} (h : validate cfg json = .ok ()) :
    JSONRPCFormatValidator.validate json = .ok () ∧
      JSONRPCContentValidator.validate cfg.text json = .ok () ∧
      JSONRPCMethodValidator.validate json = .ok () := by
  unfold validate at h
  cases hformat : JSONRPCFormatValidator.validate json with
  | error e => simp [hformat, bind, Except.bind] at h
  | ok =>
      cases hparams : JSONRPCContentValidator.validate cfg.text json with
      | error e => simp [hformat, hparams, bind, Except.bind] at h
      | ok => simpa [hformat, hparams, bind, Except.bind] using h

/-- A method that is in the table has no surrogates. -/
theorem JSONRPCMethodValidator.isEncodable_of_validate {json : Json} {method : PyStr}
    (h : validate json = .ok ())
    (hmethod : AcceptJSONRPCContentReader.member json "method" = some (.str method)) :
    method.isEncodable = true := by
  cases json with
  | obj members =>
      have hget : Json.get? members "method" = some (.str method) := hmethod
      unfold validate at h
      cases hparams : JSONRPCContentValidator.params (.obj members) with
      | error e => simp [hparams, bind, Except.bind] at h
      | ok params =>
          cases hlength : paramsLength params with
          | error e => simp [hparams, hlength, bind, Except.bind] at h
          | ok length =>
              simp only [hparams, hlength, hget, bind, Except.bind] at h
              unfold check at h
              split at h
              · cases h
              · next condition hcondition =>
                obtain ⟨c, hc, -⟩ := Option.map_eq_some_iff.mp hcondition
                have hname : ofString c.1 = method := by simpa using List.find?_some hc
                rw [← hname]
                exact isEncodable_ofString c.1
  | _ => cases hmethod

/-- What `AcceptMethodRequestReader` lets through was allowed. -/
theorem AcceptMethodRequestReader.readRequest_success {call : CallPermissions}
    (hmode : cfg.mode ≠ .sim)
    (h : AcceptMethodRequestReader.readRequest cfg call nextReader req = .success req') :
    ∃ key, req.userApiKey = some key ∧ call.isAllowed key (some req.method) = .ok true ∧
      ∃ priority constantPool,
        continueWith nextReader { req with priority, constantPool } = .success req' := by
  unfold AcceptMethodRequestReader.readRequest at h
  rw [if_neg hmode] at h
  split at h
  · cases h
  · exact absurd h failureReply_ne_success
  · next priority constantPool haccept =>
    obtain ⟨key, hkey⟩ : ∃ key, req.userApiKey = some key := by
      cases hkey : req.userApiKey with
      | none => simp [accept, hkey] at haccept
      | some key => exact ⟨key, rfl⟩
    refine ⟨key, hkey, ?_, priority, constantPool, h⟩
    cases hallowed : call.isAllowed key (some req.method) with
    | error e => simp [accept, hkey, hallowed, bind, Except.bind] at haccept
    | ok allowed =>
        cases allowed with
        | true => rfl
        | false =>
            simp [accept, hkey, hallowed, bind, Except.bind, pure, Except.pure] at haccept

/-- What the default chain lets through has passed the three readers behind the first;
`OPTIONS` requests are let through by the first. -/
theorem readDefault_dispatched {h : HttpTools} {m : Managers} {cs rest : List SocketRead}
    (hread : readDefault cfg h m.client m.call cs = (.success req, rest)) :
    req.httpMethod = some (str "OPTIONS") ∨ ∃ req₁,
      AuthRequestReader.readRequest cfg m.client
        (some (AcceptJSONRPCContentReader.readRequest cfg
          (some (AcceptMethodRequestReader.readRequest cfg m.call none)))) req₁ = .success req := by
  unfold readDefault RequestReader.readRequest at hread
  split at hread
  · simp at hread
  · simp at hread
  · next p req₀ rest₀ _ =>
    rw [Prod.mk.injEq] at hread
    replace hread := hread.1
    generalize { req₀ with httpMethod := some (h.getMethod p) } = req₁ at hread
    unfold RequestReader.dispatch at hread
    split at hread
    · right
      split at hread
      · cases hread
      · exact ⟨_, hread⟩
    · split at hread
      · next hoptions =>
        left
        cases hread
        exact hoptions
      · cases hread

/-- **The default chain lets through what has a clearance.** -/
theorem readDefault_success {h : HttpTools} {m : Managers} {cs rest : List SocketRead}
    (hmode : cfg.mode ≠ .sim) (hparser : cfg.jsonRpcRequestParserEnabled = true)
    (hread : readDefault cfg h m.client m.call cs = (.success req, rest)) :
    req.httpMethod = some (str "OPTIONS") ∨ ∃ clr : Clearance cfg m, clr.Covers req := by
  obtain hoptions | ⟨req₁, hread⟩ := readDefault_dispatched hread
  · exact Or.inl hoptions
  · right
    obtain ⟨key, hkey, hauth, _, hnext, hread⟩ :=
      AuthRequestReader.readRequest_success hmode hread
    cases hnext
    obtain ⟨content, json, method, id, hcontent, hparsed, hvalid, hmethod, hread⟩ :=
      AcceptJSONRPCContentReader.readRequest_success hparser hread
    obtain ⟨key', hkey', hallowed, priority, constantPool, hread⟩ :=
      AcceptMethodRequestReader.readRequest_success hmode hread
    obtain rfl : key' = key := by
      simpa using (hkey.symm.trans hkey').symm
    cases hread
    have ⟨hformat, hparams, hcount⟩ := AcceptJSONRPCContentReader.validate_ok hvalid
    rw [← ofString_asString (JSONRPCMethodValidator.isEncodable_of_validate hcount hmethod)] at hmethod
    exact ⟨⟨key', content, json, method.asString, hauth, hparsed, hformat, hparams, hcount, hmethod,
      hallowed⟩, hkey, hcontent⟩

end Readers

/-! ## the system -/

namespace Mediation

/-- A run, with the state managers that its readers have asked. -/
structure State where
  run : Run := {}
  managers : Option Managers := none

/-- A step of a run: the reading, from what the socket delivers and what the managers
say, or another call, however it ends. -/
inductive Label where
  | read (cs : List SocketRead) (managers : Managers)
  | call (a : Answer)

variable (cfg : ReaderConfig) (h : HttpTools) (env : ProxyEnv)

/-- One call of the run.  The outcome of the reading is that of the default chain. -/
def step (s : State) : Label → Option State
  | .read cs m =>
      let outcome := (readDefault cfg h m.client m.call cs).1
      (s.run.step env (.read outcome)).map fun run => { run, managers := some m }
  | .call (.read _) => none
  | .call a => (s.run.step env a).map fun run => { s with run }

/-- The message to the endpoint is the request of the run, which was cleared; after
the header of a sender it has the content that was validated. -/
def Mediated (s : State) (bytes : Bytes) : Prop :=
  ∃ m, s.managers = some m ∧ ∃ clr : Clearance cfg m, clr.Covers s.run.req ∧
    ∃ c headers, s.run.req.headers = some headers ∧
      bytes = (env.sender c).head s.run.req headers ++ clr.content

/-! ## invariant -/

/-- What holds of every state of a run. -/
structure Inv (s : State) : Prop where
  unread : s.run.pc = .readRequest → s.run.written = []
  cleared : s.run.pc.isSending → ∃ m, s.managers = some m ∧
    ∃ clr : Clearance cfg m, clr.Covers s.run.req
  senderOk : s.run.SenderOk env
  mediated : ∀ bytes ∈ s.run.written, Mediated cfg env s bytes

variable {cfg h env}

theorem step_cases {s s' : State} {l : Label} (hstep : step cfg h env s l = some s') :
    (∃ cs m, Run.Move env s.run (.read (readDefault cfg h m.client m.call cs).1) s'.run ∧
      s'.managers = some m) ∨
    ∃ a, (∀ outcome, a ≠ .read outcome) ∧ Run.Move env s.run a s'.run ∧ s'.managers = s.managers := by
  unfold step at hstep
  split at hstep
  · next cs m =>
    obtain ⟨run, hrun, rfl⟩ := Option.map_eq_some_iff.mp hstep
    exact Or.inl ⟨cs, m, Run.step_move hrun, rfl⟩
  · cases hstep
  · next a hread =>
    obtain ⟨run, hrun, rfl⟩ := Option.map_eq_some_iff.mp hstep
    exact Or.inr ⟨a, hread, Run.step_move hrun, rfl⟩

/-- A clearance does not depend on what was last queried. -/
theorem Mediated.congr {s s' : State} {bytes : Bytes} {last : Option Bytes}
    (hm : s'.managers = s.managers) (hreq : s'.run.req = { s.run.req with lastQueriedBytes := last })
    (hmed : Mediated cfg env s bytes) : Mediated cfg env s' bytes := by
  obtain ⟨m, hman, clr, hcovers, c, headers, hheaders, hbytes⟩ := hmed
  refine ⟨m, hm.trans hman, clr, ?_, c, headers, ?_, ?_⟩
  · rw [hreq]
    exact hcovers
  · rw [hreq]
    exact hheaders
  · rw [hreq]
    exact hbytes

/-- The reading keeps the invariant: what it lets through is cleared. -/
theorem Inv.read {s s' : State} {cs : List SocketRead} {m : Managers} (hmode : cfg.mode ≠ .sim)
    (hparser : cfg.jsonRpcRequestParserEnabled = true) (hi : Inv cfg env s)
    (hmove : Run.Move env s.run (.read (readDefault cfg h m.client m.call cs).1) s'.run)
    (hm : s'.managers = some m) : Inv cfg env s' := by
  have hpc := hmove.pc_ne
  have hsender := hmove.senderOk hi.senderOk
  obtain ⟨hpcs, hrun⟩ := hmove.pc_of_read
  have hwritten : s'.run.written = [] := by
    rw [hrun, Run.afterRead_written]
    exact hi.unread hpcs
  refine ⟨fun hread => absurd hread hpc, fun hsending => ?_, hsender, by simp [hwritten]⟩
  rw [hrun] at hsending ⊢
  obtain ⟨req, houtcome, hoptions⟩ := Run.afterRead_isSending hsending
  obtain hopt | ⟨clr, hcovers⟩ := readDefault_success hmode hparser (Prod.ext houtcome rfl)
  · exact absurd hopt hoptions
  · refine ⟨m, hm, clr, ?_⟩
    rw [houtcome]
    simpa [Run.afterRead, hoptions] using hcovers

/-- Every other call keeps the invariant. -/
theorem Inv.call {s s' : State} {a : Answer} (hi : Inv cfg env s)
    (ha : ∀ outcome, a ≠ .read outcome) (hmove : Run.Move env s.run a s'.run)
    (hm : s'.managers = s.managers) : Inv cfg env s' := by
  have hread := hmove.pc_ne_of_call ha
  obtain ⟨last, hreq⟩ := hmove.req_eq hread
  have hcongr (bytes : Bytes) (hmed : Mediated cfg env s bytes) : Mediated cfg env s' bytes :=
    hmed.congr hm hreq
  refine ⟨fun hpc => absurd hpc hmove.pc_ne, fun hsending => ?_, hmove.senderOk hi.senderOk, ?_⟩
  · obtain hs | hs := hmove.isSending hsending
    · obtain ⟨m, hman, clr, hcovers⟩ := hi.cleared hs
      refine ⟨m, hm.trans hman, clr, ?_⟩
      rw [hreq]
      exact hcovers
    · exact absurd hs hread
  · intro bytes hbytes
    obtain ⟨-, hwritten⟩ | ⟨hsend, handler, sent, req, hhandler, hsent, -, hwritten⟩ :=
      hmove.frame hread
    · rw [hwritten] at hbytes
      exact hcongr bytes (hi.mediated bytes hbytes)
    · obtain hold | hnew : bytes ∈ s.run.written ∨ bytes = sent := by
        cases hwritten with
        | inl hsame => exact Or.inl (hsame ▸ hbytes)
        | inr happ => simpa [happ] using hbytes
      · exact hcongr bytes (hi.mediated bytes hold)
      · subst hnew
        apply hcongr
        -- what is sent is the request as it was cleared
        obtain ⟨m, hman, clr, hkey, hcontent⟩ := hi.cleared (Pc.isSending_of_isSend hsend)
        obtain ⟨c, hc⟩ := hi.senderOk handler hhandler
        obtain ⟨headers, content, hheaders, hcontent', hbytes', -⟩ := RequestSender.request_ok hsent
        obtain rfl : clr.content = content := by
          simpa using hcontent.symm.trans hcontent'
        exact ⟨m, hman, clr, ⟨hkey, hcontent⟩, c, headers, hheaders, hc ▸ hbytes'⟩

/-- **Complete mediation.**  In every run of `handle_client`, each message that is
written to an endpoint is the request of a registered key, validated and allowed. -/
theorem always_mediated (hmode : cfg.mode ≠ .sim)
    (hparser : cfg.jsonRpcRequestParserEnabled = true) (ls : List Label) :
    Trans.Always (step cfg h env) (fun s => ∀ bytes ∈ s.run.written, Mediated cfg env s bytes)
      {} ls := by
  apply Trans.always_of_invariant (I := Inv cfg env)
  · intro s l s' hi hstep
    obtain ⟨cs, m, hmove, hm⟩ | ⟨a, ha, hmove, hm⟩ := step_cases hstep
    · exact hi.read hmode hparser hmove hm
    · exact hi.call ha hmove hm
  · intro s hi
    exact hi.mediated
  · exact ⟨fun _ => rfl, by simp [Pc.isSending], by simp [Run.SenderOk], by simp⟩

/-! ## a run that writes -/

/-- The content of a request for the block number. -/
def blockNumberContent : String :=
  "\x7b\"jsonrpc\": \"2.0\", \"method\": \"eth_blockNumber\", \"id\": 1\x7d"

/-- A request for the block number, with a registered key. -/
def blockNumber : Http.Message where
  method := str "POST"
  target := str "/key"
  fields := [{ name := str "Content-Length", value := str "56" }]
  body := .sized (str blockNumberContent)

/-- The configuration of a proxy with the parser. -/
def blockNumberConfig : ReaderConfig where
  mode := .prod
  jsonRpcRequestParserEnabled := true
  text :=
    { loads := Json.loads id
      isWord := fun c => c.isAlphanum || c = '_'
      isSpace := Char.isWhitespace }
  now := ""

/-- One user, with calls left. -/
def blockNumberManagers : Managers :=
  let s : StateManager := (({} : StateManager).registerUser "key" (createPlan 1 1 0 none)).2
  { auth := s, allowed := s, priority := s, pool := s }

/-- An endpoint on this machine. -/
def localhost : ProxyEnv where
  now := ""
  sender _ := RequestSender.new "localhost" ""
  parse _ := .incomplete

/-- The request is read and sent over an idle connection. -/
def blockNumberRun : List Label :=
  [.read [.data blockNumber.wire] blockNumberManagers, .call (.connection 0), .call .ok, .call .ok]

theorem always_mediated_blockNumber :
    ((Trans.run (step blockNumberConfig (.scripted [blockNumber]) localhost) {}
        blockNumberRun).map fun s => s.run.written.length) = some 1 ∧
      Trans.Always (step blockNumberConfig (.scripted [blockNumber]) localhost)
        (fun s => ∀ bytes ∈ s.run.written, Mediated blockNumberConfig localhost s bytes)
        {} blockNumberRun :=
  ⟨by decide +kernel, always_mediated (by decide) rfl blockNumberRun⟩

end Mediation

end Web3Proxy
