/-
The repair of JSON texts whose string literals have characters that must not
stand there.

One pass over the text, with one bit of state: whether it is inside a string
literal. There a control character is written as its escape, and a backslash
that starts no escape is doubled. An escape is copied whole, and the index
moved on behind it.
-/
import OneHarness.Lib.Json.Basic

namespace OneHarness.Ai

open Lib

def VALID_JSON_ESCAPES : List Char :=
  ['"', '\\', '/', 'b', 'f', 'n', 'r', 't', 'u']

def isControlCharacter (char : Char) : Bool := decide (char.toNat ≤ 0x1f)

def escapeControlCharacter (char : Char) : List Char :=
  if char = '\x08' then ['\\', 'b']
  else if char = '\x0c' then ['\\', 'f']
  else if char = '\n' then ['\\', 'n']
  else if char = '\r' then ['\\', 'r']
  else if char = '\t' then ['\\', 't']
  else
    let digits := Nat.toDigits 16 char.toNat
    '\\' :: 'u' :: (List.replicate (4 - digits.length) '0' ++ digits)

def isHexDigit (char : Char) : Bool :=
  char.isDigit || decide ('a' ≤ char ∧ char ≤ 'f')
    || decide ('A' ≤ char ∧ char ≤ 'F')

/-- `/^[0-9a-fA-F]{4}$/`. -/
def isUnicodeDigits (digits : List Char) : Bool :=
  digits.length = 4 && digits.all isHexDigit

/-- The loop from an index on, that many characters of which it is to move
over. -/
def repairLoop : (inString : Bool) → (skipped : Nat) → List Char → List Char
  | _, _, [] => []
  | inString, skipped + 1, _ :: rest => repairLoop inString skipped rest
  | false, 0, char :: rest => char :: repairLoop (char = '"') 0 rest
  | true, 0, char :: rest =>
    if char = '"' then char :: repairLoop false 0 rest
    else if char = '\\' then
      match rest with
      | [] => ['\\', '\\']
      | nextChar :: digits =>
        if nextChar = 'u' ∧ isUnicodeDigits (digits.take 4) then
          '\\' :: 'u' :: (digits.take 4 ++ repairLoop true 5 rest)
        else if nextChar ∈ VALID_JSON_ESCAPES then
          '\\' :: nextChar :: repairLoop true 1 rest
        else '\\' :: '\\' :: repairLoop true 0 rest
    else
      (if isControlCharacter char then escapeControlCharacter char
        else [char]) ++ repairLoop true 0 rest

def repairJson (json : List Char) : List Char := repairLoop false 0 json

/-- The value; `none` is a `SyntaxError`. -/
def parseJsonWithRepair (json : List Char) : Option Json :=
  match Json.parse json with
  | some value => some value
  | none =>
    let repairedJson := repairJson json
    if repairedJson ≠ json then Json.parse repairedJson else none

end OneHarness.Ai
