import Mathlib.Data.Rat.Floor
import Mathlib.Data.Rat.Lemmas
import Mathlib.Tactic.Common

/-!
# The Python values and operations the program relies on

Floats of the source are exact rationals here, integers are `ℤ`, and strings are
sequences of Unicode scalar values. Exceptions are values. What Python takes from
its Unicode tables is a parameter, fixed on ASCII.
-/

namespace StackMigrate

/-- The exceptions the modelled code raises, catches or lets through. -/
inductive PyException
  | valueError (message : String)
  | attributeError (message : String)
  | zeroDivisionError
  | osError (message : String)
  | unsafeDiffPathError (message : String)
  /-- Raised by a collaborator; known only by its `repr`. -/
  | foreign (repr : String)
  deriving DecidableEq, Repr

/-- A JSON value as the interpreter holds it. A float is known by its `repr`. -/
inductive Json
  | null
  | bool (b : Bool)
  | int (n : ℤ)
  | float (repr : String)
  | str (s : String)
  | arr (items : List Json)
  | obj (fields : List (String × Json))
  deriving Repr

namespace Json

/-- Truth value testing, `bool(v)`. -/
def truthy : Json → Bool
  | null => false
  | bool b => b
  | int n => n ≠ 0
  | float r => r ≠ "0.0" ∧ r ≠ "-0.0"
  | str s => s ≠ ""
  | arr items => !items.isEmpty
  | obj fields => !fields.isEmpty

/-- `v.get(name)` for a value that is a dict; `none` when the key is missing. -/
def get? (fields : List (String × Json)) (name : String) : Option Json := fields.lookup name

end Json

/-- The escape of one character inside a string literal delimited by `quote`. -/
def reprChar (quote c : Char) : List Char :=
  if c = quote ∨ c = '\\' then ['\\', c]
  else if c = '\n' then ['\\', 'n']
  else if c = '\r' then ['\\', 'r']
  else if c = '\t' then ['\\', 't']
  else if c.toNat < 32 ∨ c.toNat = 127 then
    ['\\', 'x', Nat.digitChar (c.toNat / 16), Nat.digitChar (c.toNat % 16)]
  else [c]

/-- `repr` of a string whose characters outside ASCII are all printable. -/
def reprStr (s : String) : String :=
  let quote := if '\'' ∈ s.toList ∧ '"' ∉ s.toList then '"' else '\''
  String.ofList (quote :: s.toList.flatMap (reprChar quote) ++ [quote])

mutual

/-- `repr` of a JSON value. -/
def Json.pyRepr : Json → String
  | .null => "None"
  | .bool b => if b then "True" else "False"
  | .int n => toString n
  | .float r => r
  | .str s => reprStr s
  | .arr items => "[" ++ String.intercalate ", " (reprItems items) ++ "]"
  | .obj fields => "\x7b" ++ String.intercalate ", " (reprFields fields) ++ "\x7d"

def reprItems : List Json → List String
  | [] => []
  | v :: vs => v.pyRepr :: reprItems vs

def reprFields : List (String × Json) → List String
  | [] => []
  | (name, v) :: rest => (reprStr name ++ ": " ++ v.pyRepr) :: reprFields rest

end

/-- `str(v)`: a string is itself, everything else prints as its `repr`. -/
def Json.pyStr : Json → String
  | .str s => s
  | v => v.pyRepr

/-- Nearest integer, ties to even. -/
def roundHalfEven (x : ℚ) : ℤ :=
  let below := ⌊x⌋
  let rest := x - below
  if rest < 1 / 2 then below
  else if 1 / 2 < rest then below + 1
  else if below % 2 = 0 then below else below + 1

/-- The format specification `.{digits}f`. -/
def formatFixed (digits : ℕ) (x : ℚ) : String :=
  let scaled := (toString (roundHalfEven (|x| * 10 ^ digits)).natAbs).toList
  let padded := List.replicate (digits + 1 - scaled.length) '0' ++ scaled
  let whole := padded.take (padded.length - digits)
  let fraction := padded.drop (padded.length - digits)
  (if x < 0 then "-" else "") ++ String.ofList whole ++
    (if digits = 0 then "" else "." ++ String.ofList fraction)

/-- `s.startswith(p)`. -/
def startsWith (s p : String) : Bool := p.toList.isPrefixOf s.toList

/-- `s.endswith(p)`. -/
def endsWith (s p : String) : Bool := p.toList.isSuffixOf s.toList

/-- `s.split(c)` for a single character. -/
def splitOnChar (s : String) (c : Char) : List String := (s.toList.splitOn c).map String.ofList

/-- What the string operations read from Python's Unicode tables. Non-ASCII
characters are left to the tables; the laws pin the ASCII range. -/
class UnicodeData where
  /-- `str.isalnum` of one character; with the underscore, the class `\w`. -/
  isAlnum : Char → Bool
  /-- `str.lower`. -/
  lower : String → String
  isAlnum_ascii : ∀ c : Char, c.toNat < 128 → isAlnum c = c.isAlphanum
  lower_ascii : ∀ s : String, (∀ c ∈ s.toList, c.toNat < 128) →
    lower s = String.ofList (s.toList.map Char.toLower)

/-- Tables that know the ASCII range only. -/
@[reducible] def asciiTables : UnicodeData where
  isAlnum := Char.isAlphanum
  lower s := String.ofList (s.toList.map Char.toLower)
  isAlnum_ascii _ _ := rfl
  lower_ascii _ _ := rfl

/-- The regular-expression class `\w`. -/
def isWordChar [UnicodeData] (c : Char) : Bool := UnicodeData.isAlnum c || c == '_'

end StackMigrate
