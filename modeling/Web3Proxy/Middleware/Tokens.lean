import Mathlib.Data.List.Induction
import Web3Proxy.Middleware

/-!
# Web3Proxy.Middleware.Tokens

What the scanner of the disabled parser finds (`readTokens_eq`): of the tokens that begin
with a key the last one counts, and each of them must be readable.
-/

namespace Web3Proxy

open Py Bytes PyStr

namespace AcceptJSONRPCContentReader

variable (cfg : ReaderConfig)

/-- The token begins with the key and a colon, after at most one blank. -/
def hasKey (key : String) (tok : Bytes) : Bool :=
  (str ("\"" ++ key ++ "\":")).isPrefixOf tok || (str (" \"" ++ key ++ "\":")).isPrefixOf tok

/-- The token is none that is looked at, or what is cut out of it is a text. -/
def isReadable (tok : Bytes) : Bool :=
  !(hasKey "id" tok || hasKey "method" tok) || (tokenValue cfg tok).isSome

/-- The keys that the scanner looks for. -/
def scannedKeys : List String := ["id", "method"]

/-- What is cut out of the last token that begins with the key. -/
def lastValue (key : String) (toks : List Bytes) : Option String :=
  (toks.filter (hasKey key)).getLast?.bind (tokenValue cfg)

variable {cfg}

theorem isReadable_iff {tok : Bytes} : isReadable cfg tok = true ↔
    ∀ key ∈ scannedKeys, hasKey key tok = true → (tokenValue cfg tok).isSome = true := by
  rw [isReadable, scannedKeys, List.forall_mem_cons, List.forall_mem_singleton]
  cases hasKey "id" tok <;> cases hasKey "method" tok <;> simp

theorem lastValue_concat (key : String) (toks : List Bytes) (tok : Bytes) :
    lastValue cfg key (toks ++ [tok]) =
      if hasKey key tok then tokenValue cfg tok else lastValue cfg key toks := by
  unfold lastValue
  rw [List.filter_append, List.filter_cons, List.filter_nil]
  split
  · rw [List.getLast?_concat, Option.bind_some]
  · rw [List.append_nil]

/-- A step of the loop, on a token that is readable and on one that is not. -/
theorem scan_eq (found : Option String × Option String) (tok : Bytes) :
    scan cfg found tok =
      if isReadable cfg tok then
        .ok (if hasKey "method" tok then tokenValue cfg tok else found.1,
          if hasKey "id" tok then tokenValue cfg tok else found.2)
      else .error .unicodeDecodeError := by
  have hid : ((str "\"id\":").isPrefixOf tok || (str " \"id\":").isPrefixOf tok) =
      hasKey "id" tok := rfl
  have hmethod : ((str "\"method\":").isPrefixOf tok || (str " \"method\":").isPrefixOf tok) =
      hasKey "method" tok := rfl
  unfold scan isReadable
  simp only [hid, hmethod]
  cases hasKey "id" tok <;> cases hasKey "method" tok <;> cases tokenValue cfg tok <;> rfl

/-- **What the loop over the tokens finds.** -/
theorem foldlM_scan (toks : List Bytes) :
    toks.foldlM (scan cfg) (none, none) =
      if toks.all (isReadable cfg) then
        .ok (lastValue cfg "method" toks, lastValue cfg "id" toks)
      else .error .unicodeDecodeError := by
  induction toks using List.reverseRecOn with
  | nil => rfl
  | append_singleton toks tok ih =>
      rw [List.foldlM_append, ih, List.all_append, lastValue_concat, lastValue_concat]
      split
      · next hall =>
        show [tok].foldlM (scan cfg) _ = _
        rw [List.foldlM_cons, scan_eq, hall, Bool.true_and, List.all_cons, List.all_nil, Bool.and_true]
        split
        · rfl
        · rfl
      · next hall =>
        rw [Bool.not_eq_true] at hall
        rw [hall, Bool.false_and]
        rfl

/-- **The disabled parser**: it needs readable tokens, and a method in one of them. -/
theorem readTokens_eq {nextReader : Option Reader} {req : RPCRequest} {content : Bytes}
    (hcontent : req.content = some content) :
    readTokens cfg nextReader req =
      if (content.splitOn 44).all (isReadable cfg) then
        match lastValue cfg "method" (content.splitOn 44) with
        | none => failureWeb3 cfg (-32600) (ofString "Missing method field") req
        | some method => continueWith nextReader { req with
            method
            id := (lastValue cfg "id" (content.splitOn 44)).map fun id => .str (ofString id) }
      else .raise .unicodeDecodeError := by
  cases req
  cases hcontent
  unfold readTokens
  dsimp only
  rw [foldlM_scan]
  by_cases hreadable : (content.splitOn 44).all (isReadable cfg) = true
  · rw [if_pos hreadable, if_pos hreadable]
    cases lastValue cfg "method" (content.splitOn 44) with
    | none => rfl
    | some method => rfl
  · rw [if_neg hreadable, if_neg hreadable]

end AcceptJSONRPCContentReader

end Web3Proxy
