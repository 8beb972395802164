/-
The session file: the lines entries are written as, the reader that
loads them, and the repair that runs when a file is opened.

A file is the bytes a path has on the `Disk`. The reader decodes every
line on its own and skips what is not JSON; what a line holds is taken
for an entry by its type alone, so a JSON value that is no entry has no
typed reading and `loadEntriesFromFile` answers `none` there.

The repair reads a bounded window at the end of the file first and scans
the whole of it only when that looks damaged. Nothing else writes the
file meanwhile, so the source's re-check of size and mtime before the
rename always passes.
-/
import OneHarness.Lib.Lines
import OneHarness.Lib.Utf8
import OneHarness.Session.Codec

namespace OneHarness.Session

open Lib Lib.Lines

-- ======== the disk

/-- The bytes of every file that exists. -/
abbrev Disk := String → Option (List UInt8)

/-- Replace or create a file. -/
def Disk.write (disk : Disk) (path : String) (bytes : List UInt8) : Disk :=
  fun p => if p = path then some bytes else disk p

/-- Delete a file. -/
def Disk.remove (disk : Disk) (path : String) : Disk :=
  fun p => if p = path then none else disk p

@[simp] theorem Disk.write_self (disk : Disk) (path : String)
    (bytes : List UInt8) : disk.write path bytes path = some bytes := by
  rw [Disk.write, if_pos rfl]

theorem Disk.write_ne (disk : Disk) {path p : String} (bytes : List UInt8)
    (h : p ≠ path) : disk.write path bytes p = disk p := by
  rw [Disk.write, if_neg h]

@[simp] theorem Disk.remove_self (disk : Disk) (path : String) :
    disk.remove path path = none := by
  rw [Disk.remove, if_pos rfl]

-- ======== the lines

/-- `JSON.stringify(entry)`, as bytes. -/
def entryText (f : FileEntry) : List UInt8 :=
  Utf8.encode (Json.stringify (toJson f))

/-- One line of the file: the text of an entry and its newline. -/
def entryLine (f : FileEntry) : List UInt8 := entryText f ++ [newline]

/-- The content `_rewriteFile` writes. -/
def fileText (fs : List FileEntry) : List UInt8 :=
  List.intercalate [newline] (fs.map entryText) ++ [newline]

-- ======== the reader

/-- `JSON.parse(line.toString("utf8"))`. -/
def parseLine (line : List UInt8) : Option Json :=
  Json.parse (Utf8.decode line)

/-- `parsesAsJson`. -/
def parsesAsJson (line : List UInt8) : Bool := (parseLine line).isSome

/-- `parseEntriesFromBuffer`: malformed and blank lines are skipped. -/
def parseEntriesFromBuffer (buffer : List UInt8) : List Json :=
  (pieces buffer).filterMap parseLine

/-- The aggregate usage an entry records for a target. -/
def attributedUsage (targetId : String) (f : FileEntry) : Option Usage :=
  match f with
  | .entry { body := .childUsageAttributed a, .. } =>
    if a.targetId = targetId then some (cloneUsage a.aggregateUsage) else none
  | _ => none

/-- The last usage the entries record for a target. -/
def lastAttributedUsage (targetId : String) (fs : List FileEntry) :
    Option Usage :=
  (fs.filterMap (attributedUsage targetId)).getLast?

/-- `target.message.usage = usage`, on an assistant message. -/
def setUsage (usage : Usage) (e : SessionEntry) : SessionEntry :=
  match e.body with
  | .message (.assistant m) =>
    { e with body := .message (.assistant { m with usage := usage }) }
  | _ => e

/-- The entry is an assistant message of that id. -/
def FileEntry.isAssistantOf (id : String) : FileEntry → Bool
  | .session _ => false
  | .entry e => e.assistant?.isSome && e.id == id

/-- `applyChildUsageAttributions` on the rest of the entries: the map of
assistant messages holds the last one of each id, and the last
attribution to an id wins. -/
def applyAttributionsFrom (all : List FileEntry) :
    List FileEntry → List FileEntry
  | [] => []
  | .session h :: fs => .session h :: applyAttributionsFrom all fs
  | .entry e :: fs =>
    let target := e.assistant?.isSome && !fs.any (·.isAssistantOf e.id)
    let e' := match target, lastAttributedUsage e.id all with
      | true, some usage => setUsage usage e
      | _, _ => e
    .entry e' :: applyAttributionsFrom all fs

/-- `applyChildUsageAttributions(entries)`. -/
def applyChildUsageAttributions (fs : List FileEntry) : List FileEntry :=
  applyAttributionsFrom fs fs

/-- `finalizeLoadedEntries`: nothing is loaded without a header. -/
def finalizeLoadedEntries (fs : List FileEntry) : List FileEntry :=
  match fs with
  | .session _ :: _ => applyChildUsageAttributions fs
  | _ => []

/-- `loadEntriesFromFile`; `none` is a file with a line that is JSON but
no entry. -/
def loadEntriesFromFile (disk : Disk) (filePath : String) :
    Option (List FileEntry) :=
  match disk filePath with
  | none => some []
  | some buffer =>
    ((parseEntriesFromBuffer buffer).mapM ofJson).map finalizeLoadedEntries

-- ======== the repair

/-- `REPAIR_SUSPICION_WINDOW_BYTES`. -/
def repairSuspicionWindowBytes : Nat := 1024 * 1024

/-- `tailLooksDamaged`, on the bytes of the file. -/
def tailLooksDamaged (file : List UInt8) : Bool :=
  let size := file.length
  if size = 0 then false
  else
    let windowBytes := min size repairSuspicionWindowBytes
    let window := file.drop (size - windowBytes)
    if window.contains 0 then true
    else if window.getLast? ≠ some newline then true
    else
      -- `lastIndexOf` from the byte before the last one; from the only
      -- byte when there is no other
      let head := if windowBytes = 1 then window else window.dropLast
      if !head.contains newline && windowBytes < size then true
      else
        let lastLine := (head.reverse.takeWhile (· != newline)).reverse
        !lastLine.isEmpty && !parsesAsJson lastLine

/-- The variables of the repair scan. -/
structure RepairScan where
  keptLines : List (List UInt8)
  recoveredNulLines : Nat
  droppedLines : Nat
  repairedTail : Bool
  dirty : Bool

namespace RepairScan

def init : RepairScan where
  keptLines := []
  recoveredNulLines := 0
  droppedLines := 0
  repairedTail := false
  dirty := false

/-- One line of the scan: whether it is terminated, and whether it ends
the file. -/
def step (s : RepairScan) (raw : List UInt8) (terminated last : Bool) :
    RepairScan :=
  let line := raw.dropWhile (· == 0)
  if line.length < raw.length then
    if !line.isEmpty && parsesAsJson line then
      { s with
        dirty := true
        keptLines := s.keptLines ++ [line]
        recoveredNulLines := s.recoveredNulLines + 1 }
    else
      { s with dirty := true, droppedLines := s.droppedLines + 1 }
  else if !terminated then
    if !line.isEmpty && parsesAsJson line then
      { s with
        dirty := true
        keptLines := s.keptLines ++ [line]
        repairedTail := true }
    else
      { s with dirty := true, droppedLines := s.droppedLines + 1 }
  else if last && !line.isEmpty && !parsesAsJson line then
    { s with dirty := true, droppedLines := s.droppedLines + 1 }
  else
    { s with keptLines := s.keptLines ++ [line] }

/-- The scan over the lines and the remainder of a file. -/
def run (rest : List UInt8) : RepairScan → List (List UInt8) → RepairScan
  | s, [] => if rest.isEmpty then s else s.step rest false true
  | s, l :: ls => run rest (s.step l true (ls.isEmpty && rest.isEmpty)) ls

end RepairScan

/-- The scan of a whole file. -/
def scanDamage (file : List UInt8) : RepairScan :=
  RepairScan.run (splitLines file).2 .init (splitLines file).1

/-- What the repair writes: the kept lines, decoded and encoded again. -/
def repairedText (keptLines : List (List UInt8)) : List UInt8 :=
  if keptLines.isEmpty then []
  else
    List.intercalate [newline]
      (keptLines.map fun l => Utf8.encode (Utf8.decode l)) ++ [newline]

/-- `repairJsonlDamage`. -/
def repairJsonlDamage (disk : Disk) (filePath : String) : Disk :=
  match disk filePath with
  | none => disk
  | some file =>
    if !tailLooksDamaged file then disk
    else
      let scan := scanDamage file
      if !scan.dirty then disk
      else disk.write filePath (repairedText scan.keptLines)

end OneHarness.Session
