/-
When a scheduled job runs: the texts a schedule is given as, and the search
for the next minute that a cron expression matches.

# The search

goes minute by minute on the local clock, from the minute after an instant,
for 366 days; no match by then is an error. The first search is made when a
schedule is accepted, the next ones when an occurrence is claimed.

`Date.parse` of anything but an ISO text is up to the engine: `dateParse` is
a parameter.
-/
import OneHarness.Lib.LocalTime
import OneHarness.Session.Manager

namespace OneHarness.Cron

open Lib LocalTime Session

inductive AgentCronScheduleKind where
  | once | cron | interval
deriving DecidableEq

structure AgentCronSchedule where
  kind : AgentCronScheduleKind
  expression : String
  intervalMs : Option Nat
deriving DecidableEq

/-- What is thrown on the way from a text to a date. -/
inductive CronError where
  | emptySchedule
  | intervalTooShort
  | invalidOneShot
  | oneShotNotInFuture
  | unsupportedSchedule
  | invalidField (field : String)
  | invalidRange (rangeText : String)
  | invalidNumber (value : String)
  | numberOutOfRange (value : String)
  | noMatchWithinYear (expression : String)
  | invalidInterval (expression : String)
  /-- `toISOString` of an invalid date. -/
  | invalidTimeValue
deriving DecidableEq

def CronError.message : CronError → String
  | .emptySchedule => "Cron schedule cannot be empty"
  | .intervalTooShort => "Recurring interval must be at least 10 seconds"
  | .invalidOneShot => "Invalid one-shot schedule. Use: at <ISO date>"
  | .oneShotNotInFuture => "One-shot schedule must be in the future"
  | .unsupportedSchedule =>
    "Unsupported cron schedule. Use 'in 10m', 'at <ISO date>', @hourly, "
      ++ "or five fields: minute hour day month weekday"
  | .invalidField field => "Invalid cron field: " ++ field
  | .invalidRange rangeText => "Invalid cron range: " ++ rangeText
  | .invalidNumber value => "Invalid cron number: " ++ value
  | .numberOutOfRange value => "Cron number out of range: " ++ value
  | .noMatchWithinYear expression =>
    "Cron schedule did not match within one year: " ++ expression
  | .invalidInterval expression => "Invalid interval schedule: " ++ expression
  | .invalidTimeValue => "Invalid time value"

-- ======== cron expressions

structure CronFields where
  minute : List Nat
  hour : List Nat
  dayOfMonth : List Nat
  month : List Nat
  dayOfWeek : List Nat

/-- The number that digits denote. -/
def parseInt (digits : List Char) : Nat :=
  digits.foldl (fun n c => 10 * n + (c.toNat - 48)) 0

def parseCronNumber (value : List Char) (min max : Nat) :
    Except CronError Nat :=
  if value.isEmpty || !value.all Char.isDigit then
    .error (.invalidNumber (String.ofList value))
  else
    let parsed := parseInt value
    if parsed < min || max < parsed then
      .error (.numberOutOfRange (String.ofList value))
    else .ok parsed

/-- The start and the end of a range of values. -/
def parseCronRange (rangeText : List Char) (min max : Nat) :
    Except CronError (Nat × Nat) :=
  if rangeText = ['*'] then .ok (min, max)
  else if rangeText.contains '-' then do
    let ends := rangeText.splitOn '-'
    let start ← parseCronNumber (ends.getD 0 []) min max
    let stop ← parseCronNumber (ends.getD 1 []) min max
    if stop < start then
      .error (.invalidRange (String.ofList rangeText))
    else return (start, stop)
  else do
    let start ← parseCronNumber rangeText min max
    return (start, start)

/-- The values of one part of a field: every `step`th of a range. -/
def parseCronPart (field part : List Char) (min max : Nat) :
    Except CronError (List Nat) :=
  if part.isEmpty then .error (.invalidField (String.ofList field))
  else do
    let pieces := part.splitOn '/'
    let step ← match pieces[1]? with
      | none => .ok 1
      | some stepText => parseCronNumber stepText 1 max
    let range ← parseCronRange (pieces.getD 0 []) min max
    return (List.range (range.2 + 1)).filter fun value =>
      range.1 ≤ value && (value - range.1) % step = 0

def parseCronField (field : List Char) (min max : Nat) :
    Except CronError (List Nat) := do
  let parts ← (field.splitOn ',').mapM fun part =>
    parseCronPart field part min max
  return parts.flatten

/-- `text.split(/\s+/)` of a trimmed text; an empty one has no words. -/
def words (text : String) : List (List Char) :=
  (text.toList.splitOnP isTrimmed).filter fun word => !word.isEmpty

def parseCronExpression (expression : String) : Except CronError CronFields :=
  match words (trim expression) with
  | [minute, hour, dayOfMonth, month, dayOfWeek] => do
      return {
        minute := ← parseCronField minute 0 59
        hour := ← parseCronField hour 0 23
        dayOfMonth := ← parseCronField dayOfMonth 1 31
        month := ← parseCronField month 1 12
        dayOfWeek := ← parseCronField dayOfWeek 0 7 }
  | _ => .error .unsupportedSchedule

/-- Whether a clock reading matches. -/
def matchesCronFields (l : Int) (fields : CronFields) : Bool :=
  let day := weekday l
  let dayMatches := fields.dayOfWeek.contains day
    || (day == 0 && fields.dayOfWeek.contains 7)
  fields.minute.contains (minutes l) && fields.hour.contains (hours l)
    && fields.dayOfMonth.contains (monthDate l).2
    && fields.month.contains (monthDate l).1 && dayMatches

-- ======== the search

/-- The loop of `nextCronRunAfter`: the candidate is the instant of the
reading that the clock was last set to. -/
def searchFrom (zone : TimeZone) (fields : CronFields) (deadline l : Int) :
    Option Instant :=
  if zone.utc l ≤ deadline then
    match timeClip (zone.utc l) with
    | none => none
    | some candidate =>
      if matchesCronFields (zone.localTime (zone.utc l)) fields then
        some candidate
      else
        searchFrom zone fields deadline
          (zone.localTime (zone.utc l) + msPerMinute)
  else none
termination_by (deadline + 1 - zone.utc l).toNat
decreasing_by
  have hadvances := zone.advances l
  omega

/-- The reading of the minute after an instant. -/
def minuteAfter (zone : TimeZone) (after : Instant) : Int :=
  zone.localTime (zone.utc (floorMinute (zone.localTime after.1)))
    + msPerMinute

/-- The end of the search. -/
def deadlineAfter (zone : TimeZone) (after : Instant) : Int :=
  zone.utc (minuteAfter zone after) + 366 * 24 * 60 * msPerMinute

/-- The search after an instant for the fields of an expression. -/
def nextMatchAfter (zone : TimeZone) (expression : String)
    (fields : CronFields) (after : Instant) : Except CronError Instant :=
  match timeClip (zone.utc (floorMinute (zone.localTime after.1))) with
  | none => .error (.noMatchWithinYear expression)
  | some _ =>
    match searchFrom zone fields (deadlineAfter zone after)
        (minuteAfter zone after) with
    | some candidate => .ok candidate
    | none => .error (.noMatchWithinYear expression)

def nextCronRunAfter (zone : TimeZone) (expression : String)
    (after : Instant) : Except CronError Instant := do
  let fields ← parseCronExpression expression
  nextMatchAfter zone expression fields after

/-- The next run, in milliseconds; the date may be invalid. -/
def nextRunAtForSchedule (zone : TimeZone) (schedule : AgentCronSchedule)
    (after : Instant) : Except CronError (Option Int) :=
  match schedule.kind with
  | .once => .ok none
  | .interval =>
    match schedule.intervalMs with
    | some intervalMs =>
      if intervalMs = 0 then .error (.invalidInterval schedule.expression)
      else .ok (some (after.1 + intervalMs))
    | none => .error (.invalidInterval schedule.expression)
  | .cron => do
      let next ← nextCronRunAfter zone schedule.expression after
      return some next.1

/-- `date.toISOString()`. -/
def toISOString (ms : Int) : Except CronError Instant :=
  match timeClip ms with
  | some date => .ok date
  | none => .error .invalidTimeValue

-- ======== texts of schedules

/-- The text after a prefix, in whatever case. -/
def dropPrefix? (keyword : String) (text : List Char) : Option (List Char) :=
  if (text.take keyword.length).map Char.toLower = keyword.toList then
    some (text.drop keyword.length)
  else none

/-- `/^keyword\s+(\d+)\s*(unit)$/i`: the amount and the unit. -/
def matchAmount (keyword : String) (units : List String) (text : List Char) :
    Option (Nat × String) := do
  let rest ← dropPrefix? keyword text
  let digits := rest.dropWhile isTrimmed
  let amount := digits.takeWhile Char.isDigit
  let unit := String.ofList
    (((digits.dropWhile Char.isDigit).dropWhile isTrimmed).map Char.toLower)
  if (rest.head?.any isTrimmed) && !amount.isEmpty && units.contains unit then
    return (parseInt amount, unit)
  else none

def minuteUnits : List String := ["m", "min", "mins", "minute", "minutes"]
def hourUnits : List String := ["h", "hr", "hrs", "hour", "hours"]
def dayUnits : List String := ["d", "day", "days"]
def secondUnits : List String := ["s", "sec", "secs", "second", "seconds"]

/-- The milliseconds of a unit. -/
def multiplier (unit : String) : Nat :=
  if unit.startsWith "s" then 1000
  else if unit.startsWith "m" then 60000
  else if unit.startsWith "h" then 60 * 60000
  else 24 * 60 * 60000

def stripMatchingQuotes (value : List Char) : List Char :=
  if 2 ≤ value.length
      && (value.head? = some '"' && value.getLast? = some '"'
        || value.head? = some '\'' && value.getLast? = some '\'') then
    (value.drop 1).dropLast
  else value

def normalizeCronAlias (text : String) : String :=
  if text = "@hourly" then "0 * * * *"
  else if text = "@daily" then "0 0 * * *"
  else if text = "@weekly" then "0 0 * * 0"
  else if text = "@monthly" then "0 0 1 * *"
  else text

/-- The schedule, and its first run in milliseconds; the date may be
invalid. -/
def parseAgentCronSchedule (zone : TimeZone)
    (dateParse : String → Option Instant) (input : String) (now : Instant) :
    Except CronError (AgentCronSchedule × Int) :=
  let chars := stripMatchingQuotes (trim input).toList
  let text := String.ofList chars
  if chars.isEmpty then .error .emptySchedule
  else
    match matchAmount "in" (minuteUnits ++ hourUnits ++ dayUnits) chars with
    | some (amount, unit) =>
      .ok (⟨.once, text, none⟩, now.1 + (amount * multiplier unit : Nat))
    | none =>
      match (matchAmount "every"
            (secondUnits ++ minuteUnits ++ hourUnits) chars).or
          (matchAmount "each" (secondUnits ++ minuteUnits ++ hourUnits)
            chars) with
      | some (amount, unit) =>
        let intervalMs := amount * multiplier unit
        if intervalMs < 10 * 1000 then .error .intervalTooShort
        else .ok (⟨.interval, text, some intervalMs⟩,
          now.1 + (intervalMs : Nat))
      | none =>
        if (dropPrefix? "at " chars).isSome then
          match dateParse (trim (String.ofList (chars.drop 3))) with
          | none => .error .invalidOneShot
          | some date =>
            if date.1 ≤ now.1 then .error .oneShotNotInFuture
            else .ok (⟨.once, text, none⟩, date.1)
        else do
          let expression := normalizeCronAlias text
          let next ← nextCronRunAfter zone expression now
          return (⟨.cron, expression, none⟩, next.1)

end OneHarness.Cron
