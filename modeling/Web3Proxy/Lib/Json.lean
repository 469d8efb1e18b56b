import Web3Proxy.Lib.Dict
import Web3Proxy.Lib.PyStr

/-!
# Web3Proxy.Lib.Json

The values of Python's `json` module, and its decoder `json.loads` (`json.decoder`,
`json.scanner`) on the characters of a text.

The decoder is strict, as by default: no control characters in strings.  `NaN`,
`Infinity` and `-Infinity` are numbers to it, an escaped surrogate may stand alone, and
of members with the same name the last one counts.  What `repr` makes of a `float` is a
parameter; limits on recursion and on the length of integers are left out.
-/

/-- A value that `json.loads` returns.  A float is given by what `str` makes of it. -/
inductive Json where
  | null
  | bool (b : Bool)
  | int (n : Int)
  | float (text : String)
  | str (s : PyStr)
  | arr (items : List Json)
  | obj (members : List (PyStr × Json))

/-- The types of these values. -/
inductive PyType where
  | noneType
  | bool
  | int
  | float
  | str
  | list
  | dict
deriving DecidableEq, Repr

namespace Json

/-- `type(value)`. -/
def type : Json → PyType
  | .null => .noneType
  | .bool _ => .bool
  | .int _ => .int
  | .float _ => .float
  | .str _ => .str
  | .arr _ => .list
  | .obj _ => .dict

theorem type_eq_str {value : Json} : value.type = .str ↔ ∃ s, value = .str s := by
  cases value <;> simp [type]

theorem type_eq_list {value : Json} : value.type = .list ↔ ∃ items, value = .arr items := by
  cases value <;> simp [type]

/-- `content.get(key)`, for a `dict`. -/
def get? (members : List (PyStr × Json)) (key : String) : Option Json :=
  members.lookup (PyStr.ofString key)

/-- `dict(pairs)`. -/
def dict (pairs : List (PyStr × Json)) : List (PyStr × Json) :=
  (pairs.foldl (fun (d : Dict PyStr Json) p => d.set p.1 p.2) Dict.empty).items

theorem get?_items (d : Dict PyStr Json) (key : String) :
    get? d.items key = d.get? (PyStr.ofString key) := (d.get?_eq_lookup inferInstance).symm

/-- Of members with the same key the last one counts. -/
theorem get?_dict (pairs : List (PyStr × Json)) (key : String) :
    get? (dict pairs) key = get? pairs.reverse key := by
  rw [dict, get?_items, Dict.get?_foldl_set inferInstance]
  exact Option.or_none

theorem get?_dict_append (as bs : List (PyStr × Json)) (key : String) :
    get? (dict (as ++ bs)) key = (get? (dict bs) key).or (get? (dict as) key) := by
  rw [get?_dict, get?_dict, get?_dict, List.reverse_append, get?, List.lookup_append]
  rfl

/-! ## white space -/

/-- `WHITESPACE`. -/
def isWhitespace (c : Char) : Bool := c = ' ' || c = '\t' || c = '\n' || c = '\r'

/-- What follows the white space. -/
def skip (cs : List Char) : List Char := cs.dropWhile isWhitespace

/-- What follows a character that must come next. -/
def expect (c : Char) (cs : List Char) : Option (List Char) :=
  if cs.head? = some c then some cs.tail else none

/-! ## strings -/

/-- `BACKSLASH`. -/
def backslash : List (Char × Char) :=
  [('"', '"'), ('\\', '\\'), ('/', '/'), ('b', '\x08'), ('f', '\x0c'), ('n', '\n'), ('r', '\r'),
    ('t', '\t')]

/-- The value of a hexadecimal digit. -/
def hexDigit (c : Char) : Option Nat :=
  if '0' ≤ c ∧ c ≤ '9' then some (c.toNat - 48)
  else if 'a' ≤ c ∧ c ≤ 'f' then some (c.toNat - 87)
  else if 'A' ≤ c ∧ c ≤ 'F' then some (c.toNat - 55)
  else none

/-- `_decode_uXXXX`, on the four digits. -/
def codeUnit (a b c d : Char) : Option CodePoint := do
  let n := (((← hexDigit a) * 16 + (← hexDigit b)) * 16 + (← hexDigit c)) * 16 + (← hexDigit d)
  if h : 0xD800 ≤ n ∧ n < 0xE000 then some (.surrogate ⟨n - 0xD800, by omega⟩)
  else some (.scalar (Char.ofNat n))

/-- The characters of a string up to its closing quote, each escaped surrogate by
itself, and what follows the quote. -/
def scanChars : List Char → Option (PyStr × List Char)
  | '\\' :: 'u' :: a :: b :: c :: d :: cs => do
      let unit ← codeUnit a b c d
      let (s, rest) ← scanChars cs
      return (unit :: s, rest)
  | '\\' :: c :: cs => do
      let char ← backslash.lookup c
      let (s, rest) ← scanChars cs
      return (.scalar char :: s, rest)
  | c :: cs =>
      if c = '"' then some ([], cs)
      else if c < ' ' then none
      else (scanChars cs).map fun r => (.scalar c :: r.1, r.2)
  | [] => none

/-- Surrogate pairs become one character. -/
def joinPairs : PyStr → PyStr
  | .surrogate h :: .surrogate l :: s =>
      if h < 1024 ∧ 1024 ≤ l then
        .scalar (Char.ofNat (0x10000 + h * 1024 + (l - 1024))) :: joinPairs s
      else .surrogate h :: joinPairs (.surrogate l :: s)
  | c :: s => c :: joinPairs s
  | [] => []

/-- `scanstring(s, end)`, behind the opening quote. -/
def scanString (cs : List Char) : Option (PyStr × List Char) :=
  (scanChars cs).map fun r => (joinPairs r.1, r.2)

/-! ## numbers and constants -/

variable (floatText : String → String)

/-- `0|[1-9][0-9]*` and what follows. -/
def scanDigits (cs : List Char) : Option (List Char × List Char) :=
  match cs with
  | '0' :: rest => some (['0'], rest)
  | _ =>
      let digits := cs.takeWhile Char.isDigit
      if digits = [] then none else some (digits, cs.dropWhile Char.isDigit)

/-- `(\.[0-9]+)?` and what follows. -/
def scanFraction (cs : List Char) : List Char × List Char :=
  match cs with
  | '.' :: rest =>
      let digits := rest.takeWhile Char.isDigit
      if digits = [] then ([], cs) else ('.' :: digits, rest.dropWhile Char.isDigit)
  | _ => ([], cs)

/-- `([eE][-+]?[0-9]+)?` and what follows. -/
def scanExponent (cs : List Char) : List Char × List Char :=
  match cs with
  | e :: rest =>
      if e = 'e' ∨ e = 'E' then
        let sign := (rest.take 1).filter fun c => c = '-' ∨ c = '+'
        let digits := (rest.drop sign.length).takeWhile Char.isDigit
        if digits = [] then ([], cs)
        else (e :: sign ++ digits, (rest.drop sign.length).dropWhile Char.isDigit)
      else ([], cs)
  | [] => ([], cs)

/-- `_match_number`. -/
def scanNumber (cs : List Char) : Option (Json × List Char) := do
  let sign := if cs.head? = some '-' then ['-'] else []
  let (digits, rest) ← scanDigits (cs.drop sign.length)
  let (fraction, rest) := scanFraction rest
  let (exponent, rest) := scanExponent rest
  if fraction = [] ∧ exponent = [] then
    let n : Int := (Nat.ofDigitChars 10 digits 0 : Nat)
    return (.int (if sign = [] then n else -n), rest)
  else
    return (.float (floatText (String.ofList (sign ++ digits ++ fraction ++ exponent))), rest)

/-- `null`, `true`, `false` and the constants of `parse_constant`. -/
def constants : List (String × Json) :=
  [("null", .null), ("true", .bool true), ("false", .bool false), ("NaN", .float "nan"),
    ("Infinity", .float "inf"), ("-Infinity", .float "-inf")]

/-- One of the constants, and what follows. -/
def scanConstant (cs : List Char) : Option (Json × List Char) :=
  (constants.find? fun c => c.1.toList.isPrefixOf cs).map fun c => (c.2, cs.drop c.1.length)

/-! ## values -/

mutual

/-- `scan_once(string, idx)`, with at most `fuel` nested calls. -/
def scanOnce : Nat → List Char → Option (Json × List Char)
  | 0, _ => none
  | _ + 1, [] => none
  | fuel + 1, c :: cs =>
      if c = '"' then (scanString cs).map fun r => (.str r.1, r.2)
      else if c = '{' then
        match expect '}' (skip cs) with
        | some rest => some (.obj [], rest)
        | none => (scanMembers fuel (skip cs)).map fun r => (.obj (dict r.1), r.2)
      else if c = '[' then
        match expect ']' (skip cs) with
        | some rest => some (.arr [], rest)
        | none => (scanItems fuel (skip cs)).map fun r => (.arr r.1, r.2)
      else (scanConstant (c :: cs)).or (scanNumber floatText (c :: cs))

/-- The loop of `JSONObject`. -/
def scanMembers : Nat → List Char → Option (List (PyStr × Json) × List Char)
  | 0, _ => none
  | fuel + 1, cs => do
      let (key, cs) ← scanString (← expect '"' cs)
      let (value, cs) ← scanOnce fuel (skip (← expect ':' (skip cs)))
      match expect '}' (skip cs) with
      | some rest => return ([(key, value)], rest)
      | none =>
          let (members, rest) ← scanMembers fuel (skip (← expect ',' (skip cs)))
          return ((key, value) :: members, rest)

/-- The loop of `JSONArray`. -/
def scanItems : Nat → List Char → Option (List Json × List Char)
  | 0, _ => none
  | fuel + 1, cs => do
      let (value, cs) ← scanOnce fuel cs
      match expect ']' (skip cs) with
      | some rest => return ([value], rest)
      | none =>
          let (items, rest) ← scanItems fuel (skip (← expect ',' (skip cs)))
          return (value :: items, rest)

end

/-- `decode(s)`, on the characters. -/
def decode (cs : List Char) : Option Json := do
  let (value, rest) ← scanOnce floatText (2 * cs.length + 1) (skip cs)
  if skip rest = [] then some value else none

/-- `json.loads(s)`; `none` when this raises. -/
def loads (s : String) : Option Json :=
  if s.toList.head? = some '\ufeff' then none else decode floatText s.toList

end Json
