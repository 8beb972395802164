/-
The edit tool's replacements: every old text is looked for in the same
content, as it is and else with both normalized, and all are replaced at
once.

A text is its code units. Unicode normalization (`nfkc`) is a parameter.
-/
import OneHarness.Lib.Replace
import OneHarness.Lib.Search
import OneHarness.Lib.Splice
import OneHarness.Lib.Utf16
import Mathlib.Data.List.DropRight
import Mathlib.Data.List.SplitOn

namespace OneHarness.Tools.EditDiff

open Lib

abbrev Text := List Nat

def units (s : String) : Text := Utf16.encode s.toList

-- ======== normalization

def newline : Nat := 0x0a

/-- `text.replace(/\r\n/g, "\n").replace(/\r/g, "\n")`. -/
def normalizeToLF (text : Text) : Text :=
  (Replace.replaceAll
    (fun rest => if [0x0d, 0x0a] <+: rest then some (2, [newline]) else none)
    0 text).map fun u => if u = 0x0d then newline else u

/-- What `trimEnd` takes for white space. -/
def isTrimmed (u : Nat) : Bool :=
  0x09 ≤ u && u ≤ 0x0d || 0x2000 ≤ u && u ≤ 0x200a ||
    u ∈ [0x20, 0xa0, 0x1680, 0x2028, 0x2029, 0x202f, 0x205f, 0x3000, 0xfeff]

def trimEnd (line : Text) : Text := line.rdropWhile isTrimmed

/-- Quotes, dashes and spaces in ASCII. -/
def toAscii (u : Nat) : Nat :=
  if u ∈ [0x2018, 0x2019, 0x201a, 0x201b] then 0x27
  else if u ∈ [0x201c, 0x201d, 0x201e, 0x201f] then 0x22
  else if 0x2010 ≤ u ∧ u ≤ 0x2015 ∨ u = 0x2212 then 0x2d
  else if u = 0xa0 ∨ 0x2002 ≤ u ∧ u ≤ 0x200a
    ∨ u ∈ [0x202f, 0x205f, 0x3000] then 0x20
  else u

def trimLines (text : Text) : Text :=
  [newline].intercalate ((text.splitOn newline).map trimEnd)

section
variable (nfkc : Text → Text)

def normalizeForFuzzyMatch (text : Text) : Text :=
  (trimLines (nfkc text)).map toAscii

-- ======== matching

structure FuzzyMatchResult where
  index : Nat
  matchLength : Nat
  usedFuzzyMatch : Bool
  contentForReplacement : Text

def fuzzyFindText (content oldText : Text) : Option FuzzyMatchResult :=
  match Search.indexOf oldText content with
  | some exactIndex => some ⟨exactIndex, oldText.length, false, content⟩
  | none =>
    let fuzzyContent := normalizeForFuzzyMatch nfkc content
    let fuzzyOldText := normalizeForFuzzyMatch nfkc oldText
    (Search.indexOf fuzzyOldText fuzzyContent).map fun fuzzyIndex =>
      ⟨fuzzyIndex, fuzzyOldText.length, true, fuzzyContent⟩

def startsWith (word rest : Text) : Option Nat :=
  if word.isPrefixOf rest then some word.length else none

/-- `text.split(separator).length`. -/
def splitLength (separator text : Text) : Nat :=
  if separator = [] then text.length
  else (Replace.matchAll (startsWith separator) 0 0 text).length + 1

def countOccurrences (content oldText : Text) : Int :=
  (splitLength (normalizeForFuzzyMatch nfkc oldText)
    (normalizeForFuzzyMatch nfkc content) : Int) - 1

end

-- ======== errors

inductive EditError where
  | notFound (editIndex totalEdits : Nat)
  | duplicate (editIndex totalEdits : Nat) (occurrences : Int)
  | emptyOldText (editIndex totalEdits : Nat)
  | overlapping (previous current : Nat)
  | noChange (totalEdits : Nat)
deriving DecidableEq

def EditError.message (path : String) : EditError → String
  | .notFound editIndex totalEdits =>
    if totalEdits = 1 then
      s!"Could not find the exact text in {path}. The old text must " ++
        "match exactly including all whitespace and newlines."
    else
      s!"Could not find edits[{editIndex}] in {path}. The oldText must " ++
        "match exactly including all whitespace and newlines."
  | .duplicate editIndex totalEdits occurrences =>
    if totalEdits = 1 then
      s!"Found {occurrences} occurrences of the text in {path}. The text " ++
        "must be unique. Please provide more context to make it unique."
    else
      s!"Found {occurrences} occurrences of edits[{editIndex}] in " ++
        s!"{path}. Each oldText must be unique. Please provide more " ++
        "context to make it unique."
  | .emptyOldText editIndex totalEdits =>
    if totalEdits = 1 then s!"oldText must not be empty in {path}."
    else s!"edits[{editIndex}].oldText must not be empty in {path}."
  | .overlapping previous current =>
    s!"edits[{previous}] and edits[{current}] overlap in {path}. Merge " ++
      "them into one edit or target disjoint regions."
  | .noChange totalEdits =>
    if totalEdits = 1 then
      s!"No changes made to {path}. The replacement produced identical " ++
        "content. This might indicate an issue with special characters " ++
        "or the text not existing as expected."
    else
      s!"No changes made to {path}. The replacements produced identical " ++
        "content."

-- ======== edits

structure Edit where
  oldText : Text
  newText : Text
deriving DecidableEq

structure MatchedEdit where
  editIndex : Nat
  matchIndex : Nat
  matchLength : Nat
  newText : Text

def MatchedEdit.span (edit : MatchedEdit) : Splice.Span Nat :=
  ⟨edit.matchIndex, edit.matchLength, edit.newText⟩

structure AppliedEditsResult where
  baseContent : Text
  newContent : Text
deriving DecidableEq

def normalizeEdit (edit : Edit) : Edit :=
  ⟨normalizeToLF edit.oldText, normalizeToLF edit.newText⟩

def firstOverlap : List MatchedEdit → Option (MatchedEdit × MatchedEdit)
  | [] | [_] => none
  | previous :: current :: rest =>
    if previous.matchIndex + previous.matchLength > current.matchIndex then
      some (previous, current)
    else firstOverlap (current :: rest)

section
variable (nfkc : Text → Text)

/-- The content the edits are made in: normalized as soon as one of them
needs it. -/
def baseContent (normalizedContent : Text) (edits : List Edit) : Text :=
  if edits.any fun edit =>
      (fuzzyFindText nfkc normalizedContent edit.oldText).any
        (·.usedFuzzyMatch) then
    normalizeForFuzzyMatch nfkc normalizedContent
  else normalizedContent

def matchEdit (baseContent : Text) (totalEdits : Nat) (edit : Edit)
    (editIndex : Nat) : Except EditError MatchedEdit :=
  match fuzzyFindText nfkc baseContent edit.oldText with
  | none => .error (.notFound editIndex totalEdits)
  | some matchResult =>
    let occurrences := countOccurrences nfkc baseContent edit.oldText
    if occurrences > 1 then
      .error (.duplicate editIndex totalEdits occurrences)
    else
      .ok ⟨editIndex, matchResult.index, matchResult.matchLength,
        edit.newText⟩

/-- The edits from this index on. -/
def matchEdits (baseContent : Text) (totalEdits : Nat) :
    List Edit → Nat → Except EditError (List MatchedEdit)
  | [], _ => .ok []
  | edit :: edits, editIndex =>
    match matchEdit nfkc baseContent totalEdits edit editIndex with
    | .error error => .error error
    | .ok matched =>
      (matchEdits baseContent totalEdits edits (editIndex + 1)).map
        (matched :: ·)

def applyEditsToNormalizedContent (normalizedContent : Text)
    (edits : List Edit) : Except EditError AppliedEditsResult :=
  let normalizedEdits := edits.map normalizeEdit
  match normalizedEdits.findIdx? (·.oldText.length = 0) with
  | some i => .error (.emptyOldText i normalizedEdits.length)
  | none =>
    let baseContent := baseContent nfkc normalizedContent normalizedEdits
    match matchEdits nfkc baseContent normalizedEdits.length
        normalizedEdits 0 with
    | .error error => .error error
    | .ok matchedEdits =>
      let sorted := matchedEdits.mergeSort
        fun a b => a.matchIndex ≤ b.matchIndex
      match firstOverlap sorted with
      | some (previous, current) =>
        .error (.overlapping previous.editIndex current.editIndex)
      | none =>
        let newContent := Splice.spliceAll
          (sorted.map MatchedEdit.span) baseContent
        if baseContent = newContent then
          .error (.noChange normalizedEdits.length)
        else .ok ⟨baseContent, newContent⟩

end

end OneHarness.Tools.EditDiff
