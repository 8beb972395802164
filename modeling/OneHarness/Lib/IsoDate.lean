/-
`new Date(text).getTime()` on the date-time string format of the
language: `YYYY-MM-DDTHH:mm:ss.sssZ`, what `toISOString` writes, with
the parts the format lets one leave out.

Milliseconds since the epoch; `none` is `NaN`. A time without an offset
is read as UTC.
-/
import Mathlib.Data.List.Basic
import Mathlib.Tactic.Common

namespace OneHarness.Lib.IsoDate

/-- Exactly `n` digits. -/
def digits : Nat → List Char → Option (Nat × List Char)
  | 0, cs => some (0, cs)
  | n + 1, c :: cs => do
      if c.isDigit then
        let (v, r) ← digits n cs
        return ((c.toNat - 48) * 10 ^ n + v, r)
      else none
  | _ + 1, [] => none

/-- `n` digits in a range, after a separator. -/
def field (sep : Char) (n lo hi : Nat) (cs : List Char) :
    Option (Nat × List Char) :=
  match cs with
  | c :: r =>
    if c = sep then
      (digits n r).filter fun p => decide (lo ≤ p.1) && decide (p.1 ≤ hi)
    else none
  | [] => none

/-- A field that may be left out. -/
def optField (sep : Char) (n lo hi default : Nat) (cs : List Char) :
    Option (Nat × List Char) :=
  if cs.head? = some sep then field sep n lo hi cs else some (default, cs)

/-- Days from the epoch to a day of the proleptic Gregorian calendar. -/
def daysFromCivil (y : Int) (m d : Nat) : Int :=
  let y' := if m ≤ 2 then y - 1 else y
  let era := y'.fdiv 400
  let yoe := y' - era * 400
  let mp : Int := if m > 2 then (m : Int) - 3 else (m : Int) + 9
  let doy := (153 * mp + 2).fdiv 5 + (d : Int) - 1
  let doe := yoe * 365 + yoe.fdiv 4 - yoe.fdiv 100 + doy
  era * 146097 + doe - 719468

/-- The year: four digits, or a sign and six. -/
def year : List Char → Option (Int × List Char)
  | '+' :: r => (digits 6 r).map fun p => ((p.1 : Int), p.2)
  | '-' :: r =>
    ((digits 6 r).filter fun p => p.1 != 0).map fun p => (-(p.1 : Int), p.2)
  | r => (digits 4 r).map fun p => ((p.1 : Int), p.2)

/-- The fraction of a second, in milliseconds; further digits are cut. -/
def millis : List Char → Option (Nat × List Char)
  | '.' :: c :: r =>
    if c.isDigit then
      let ds := (c :: r).takeWhile Char.isDigit
      (digits 3 (ds ++ ['0', '0']) |>.map Prod.fst).map
        fun v => (v, (c :: r).dropWhile Char.isDigit)
    else none
  | ['.'] => none
  | r => some (0, r)

/-- The offset from UTC in minutes; nothing may follow it. -/
def offset : List Char → Option Int
  | [] => some 0
  | ['Z'] => some 0
  | c :: r => do
      let sign : Int ←
        if c = '+' then some 1 else if c = '-' then some (-1) else none
      let (h, r) ← field c 2 0 23 (c :: r)
      let (m, r) ← field ':' 2 0 59 r
      if r = [] then return sign * (60 * h + m) else none

/-- The time of day in milliseconds UTC. -/
def timeOfDay : List Char → Option Int
  | 'T' :: r => do
      let (h, r) ← field 'T' 2 0 24 ('T' :: r)
      let (m, r) ← field ':' 2 0 59 r
      let (s, r) ← optField ':' 2 0 59 0 r
      let (ms, r) ← millis r
      if h = 24 && (m, s, ms) != (0, 0, 0) then none
      else
        let off ← offset r
        return ((((h : Int) * 60 + m - off) * 60 + s) * 1000 + ms)
  | [] => some 0
  | _ => none

/-- `new Date(text).getTime()`. -/
def getTime (text : String) : Option Int := do
  let (y, r) ← year text.toList
  let (m, r) ← optField '-' 2 1 12 1 r
  let (d, r) ← optField '-' 2 1 31 1 r
  let t ← timeOfDay r
  return daysFromCivil y m d * 86400000 + t

example : getTime "1970-01-01T00:00:00.000Z" = some 0 := by decide
example : getTime "2025-01-01T00:00:01.250Z" = some 1735689601250 := by
  decide +kernel
example : getTime "yesterday" = none := by decide

end OneHarness.Lib.IsoDate
