/-
JSON values, their text, and the reader of that text.

`stringify` is `JSON.stringify` without indentation and `parse` is
`JSON.parse`: the reader skips whitespace, takes exactly one value and
rejects everything else. Both work on lists of characters; how a text
becomes bytes is Lib/Utf8.lean's business.

# Two representation choices

- An object keeps its members in text order. Reading a member
  (`Json.get`) takes the last one of that name, which is what a
  duplicated name means to `JSON.parse`.
- A number is kept as its numeral, so no rounding enters: two numerals
  are the same number here only when they are spelled the same.

A string holds scalar values; a lone surrogate escape reads as U+FFFD.
-/
import Mathlib.Data.List.Basic
import Mathlib.Tactic.Common

namespace OneHarness.Lib

-- ======== numerals

/-- The characters a JSON number is made of. -/
def isNumeralChar (c : Char) : Bool :=
  c.isDigit || c == '-' || c == '+' || c == '.' || c == 'e' || c == 'E'

/-- Drop an optional minus sign. -/
def dropMinus : List Char → List Char
  | '-' :: r => r
  | r => r

/-- Drop an optional exponent sign. -/
def dropSign : List Char → List Char
  | '+' :: r => r
  | '-' :: r => r
  | r => r

/-- Consume one or more digits. -/
def digits1 : List Char → Option (List Char)
  | c :: r => if c.isDigit then some (r.dropWhile Char.isDigit) else none
  | [] => none

/-- Consume the integer part: no leading zeros. -/
def intPart : List Char → Option (List Char)
  | '0' :: r => some r
  | r => digits1 r

/-- Consume an optional fraction. -/
def fracPart : List Char → Option (List Char)
  | '.' :: r => digits1 r
  | r => some r

/-- Consume an optional exponent. -/
def expPart : List Char → Option (List Char)
  | 'e' :: r => digits1 (dropSign r)
  | 'E' :: r => digits1 (dropSign r)
  | r => some r

/-- The text is a JSON number. -/
def isNumeral (cs : List Char) : Bool :=
  cs.all isNumeralChar
    && (((intPart (dropMinus cs)).bind fracPart).bind expPart == some [])

/-- A JSON number, as its text. -/
structure Numeral where
  text : List Char
  valid : isNumeral text = true
deriving DecidableEq

-- ======== values

/-- A JSON value. -/
inductive Json where
  | null
  | bool (b : Bool)
  | num (n : Numeral)
  | str (s : String)
  | arr (xs : List Json)
  | obj (ms : List (String × Json))

namespace Json

/-- The last member of that name. -/
def getLast? (k : String) : List (String × Json) → Option Json
  | [] => none
  | (k', v) :: ms =>
    match getLast? k ms with
    | some w => some w
    | none => if k' = k then some v else none

/-- Property access on a value: only objects have members. -/
def get (j : Json) (k : String) : Option Json :=
  match j with
  | .obj ms => getLast? k ms
  | _ => none

-- ======== the writer

/-- A lower-case hexadecimal digit. -/
def hexDigit (n : Nat) : Char :=
  if n < 10 then Char.ofNat (48 + n) else Char.ofNat (87 + n)

/-- One character inside a string literal. -/
def escapeChar (c : Char) : List Char :=
  if c = '"' then ['\\', '"']
  else if c = '\\' then ['\\', '\\']
  else if c = '\n' then ['\\', 'n']
  else if c = '\r' then ['\\', 'r']
  else if c = '\t' then ['\\', 't']
  else if c = '\x08' then ['\\', 'b']
  else if c = '\x0c' then ['\\', 'f']
  else if c.toNat < 32 then
    ['\\', 'u', '0', '0', hexDigit (c.toNat / 16), hexDigit (c.toNat % 16)]
  else [c]

/-- A string literal. -/
def quote (s : String) : List Char :=
  '"' :: (s.toList.flatMap escapeChar ++ ['"'])

mutual

/-- `JSON.stringify(value)`. -/
def stringify : Json → List Char
  | .null => ['n', 'u', 'l', 'l']
  | .bool true => ['t', 'r', 'u', 'e']
  | .bool false => ['f', 'a', 'l', 's', 'e']
  | .num n => n.text
  | .str s => quote s
  | .arr xs => '[' :: (stringifyElems xs ++ [']'])
  | .obj ms => '{' :: (stringifyMembers ms ++ ['}'])

/-- The elements of an array, comma separated. -/
def stringifyElems : List Json → List Char
  | [] => []
  | x :: xs =>
    match xs with
    | [] => stringify x
    | _ :: _ => stringify x ++ ',' :: stringifyElems xs

/-- The members of an object, comma separated. -/
def stringifyMembers : List (String × Json) → List Char
  | [] => []
  | (k, v) :: ms =>
    match ms with
    | [] => quote k ++ ':' :: stringify v
    | _ :: _ => quote k ++ ':' :: (stringify v ++ ',' :: stringifyMembers ms)

end

-- ======== the reader

/-- JSON whitespace. -/
def isWs (c : Char) : Bool := c == ' ' || c == '\t' || c == '\n' || c == '\r'

/-- Skip whitespace. -/
def skipWs (cs : List Char) : List Char := cs.dropWhile isWs

/-- The value of a hexadecimal digit. -/
def hexVal (c : Char) : Option Nat :=
  if c.isDigit then some (c.toNat - 48)
  else if 'a' ≤ c ∧ c ≤ 'f' then some (c.toNat - 87)
  else if 'A' ≤ c ∧ c ≤ 'F' then some (c.toNat - 55)
  else none

/-- The code unit of a `\u` escape's four digits. -/
def hex4 (a b c d : Char) : Option Nat := do
  let a ← hexVal a
  let b ← hexVal b
  let c ← hexVal c
  let d ← hexVal d
  return ((a * 16 + b) * 16 + c) * 16 + d

/-- The character of a one-letter escape. -/
def simpleEscape (c : Char) : Option Char :=
  if c = '"' then some '"'
  else if c = '\\' then some '\\'
  else if c = '/' then some '/'
  else if c = 'b' then some '\x08'
  else if c = 'f' then some '\x0c'
  else if c = 'n' then some '\n'
  else if c = 'r' then some '\r'
  else if c = 't' then some '\t'
  else none

/-- The inside of a string literal up to its closing quote, as code
units (a character outside the basic plane stands for itself). -/
def parseUnits : List Char → Option (List Nat × List Char)
  | [] => none
  | '"' :: r => some ([], r)
  | '\\' :: 'u' :: a :: b :: c :: d :: r => do
      let u ← hex4 a b c d
      let (us, r') ← parseUnits r
      return (u :: us, r')
  | '\\' :: e :: r => do
      let c ← simpleEscape e
      let (us, r') ← parseUnits r
      return (c.toNat :: us, r')
  | c :: r =>
    if c = '\\' ∨ c.toNat < 32 then none
    else do
      let (us, r') ← parseUnits r
      return (c.toNat :: us, r')

/-- One code unit on its own: a lone surrogate is replaced. -/
def scalar (u : Nat) : Char := if u.isValidChar then Char.ofNat u else '\uFFFD'

/-- Join surrogate pairs. -/
def joinUnits : List Nat → List Char
  | h :: l :: us =>
    if 0xD800 ≤ h ∧ h < 0xDC00 ∧ 0xDC00 ≤ l ∧ l < 0xE000 then
      scalar (0x10000 + (h - 0xD800) * 0x400 + (l - 0xDC00)) :: joinUnits us
    else scalar h :: joinUnits (l :: us)
  | [u] => [scalar u]
  | [] => []

/-- The rest of a string literal after its opening quote. -/
def parseString (cs : List Char) : Option (String × List Char) :=
  (parseUnits cs).map fun p => (String.ofList (joinUnits p.1), p.2)

/-- A number: the longest run of number characters, which must be one. -/
def parseNumber (cs : List Char) : Option (Numeral × List Char) :=
  let t := cs.takeWhile isNumeralChar
  if h : isNumeral t = true then some (⟨t, h⟩, cs.dropWhile isNumeralChar)
  else none

mutual

/-- One value at the head of the text, whitespace before it skipped. -/
def parseValue : Nat → List Char → Option (Json × List Char)
  | 0, _ => none
  | fuel + 1, cs =>
    match skipWs cs with
    | '{' :: r =>
      match skipWs r with
      | '}' :: r' => some (.obj [], r')
      | r' => (parseMembers fuel r').map fun p => (.obj p.1, p.2)
    | '[' :: r =>
      match skipWs r with
      | ']' :: r' => some (.arr [], r')
      | r' => (parseElems fuel r').map fun p => (.arr p.1, p.2)
    | '"' :: r => (parseString r).map fun p => (.str p.1, p.2)
    | 'n' :: 'u' :: 'l' :: 'l' :: r => some (.null, r)
    | 't' :: 'r' :: 'u' :: 'e' :: r => some (.bool true, r)
    | 'f' :: 'a' :: 'l' :: 's' :: 'e' :: r => some (.bool false, r)
    | r => (parseNumber r).map fun p => (.num p.1, p.2)

/-- The elements of a nonempty array, through its closing bracket. -/
def parseElems : Nat → List Char → Option (List Json × List Char)
  | 0, _ => none
  | fuel + 1, cs =>
    match parseValue fuel cs with
    | none => none
    | some (v, r) =>
      match skipWs r with
      | ']' :: r' => some ([v], r')
      | ',' :: r' => (parseElems fuel r').map fun p => (v :: p.1, p.2)
      | _ => none

/-- The members of a nonempty object, through its closing brace. -/
def parseMembers : Nat → List Char → Option (List (String × Json) × List Char)
  | 0, _ => none
  | fuel + 1, cs =>
    match skipWs cs with
    | '"' :: r =>
      match parseString r with
      | none => none
      | some (k, r) =>
        match skipWs r with
        | ':' :: r =>
          match parseValue fuel r with
          | none => none
          | some (v, r) =>
            match skipWs r with
            | '}' :: r' => some ([(k, v)], r')
            | ',' :: r' =>
              (parseMembers fuel r').map
                fun p => ((k, v) :: p.1, p.2)
            | _ => none
        | _ => none
    | _ => none

end

/-- `JSON.parse(text)`; `none` is the `SyntaxError`. -/
def parse (cs : List Char) : Option Json :=
  match parseValue (2 * cs.length + 2) cs with
  | some (v, r) => if skipWs r = [] then some v else none
  | none => none

end Json
end OneHarness.Lib
