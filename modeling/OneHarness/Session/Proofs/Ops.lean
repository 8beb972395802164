/-
Running the operations: what one step of each leaves behind.

An `Op` either returns or throws, and a sequence of two throws where the
first to throw does (`bind_eq_ok`, `bind_eq_error`). Everything else here
says what a primitive does to the machine, so that no later proof unfolds
one.
-/
import OneHarness.Session.Manager

namespace OneHarness.Session

open Lib

-- ======== sequencing

section Op

variable {α β : Type}

theorem bind_eq_ok {x : Op α} {f : α → Op β} {m m' : Machine} {b : β} :
    (x >>= f) m = .ok b m' ↔ ∃ a m₁, x m = .ok a m₁ ∧ f a m₁ = .ok b m' := by
  change EStateM.bind x f m = _ ↔ _
  unfold EStateM.bind
  cases x m with
  | ok a m₁ =>
    refine ⟨fun h => ⟨a, m₁, rfl, h⟩, ?_⟩
    rintro ⟨a', m₁', heq, h⟩
    cases heq
    exact h
  | error e m₁ =>
    constructor
    · intro h
      cases h
    · rintro ⟨a', m₁', heq, h⟩
      cases heq

theorem bind_of_ok {x : Op α} {f : α → Op β} {m m₁ : Machine} {a : α}
    (h : x m = .ok a m₁) : (x >>= f) m = f a m₁ := by
  change EStateM.bind x f m = _
  unfold EStateM.bind
  rw [h]

theorem bind_of_error {x : Op α} {f : α → Op β} {m m₁ : Machine} {e : String}
    (h : x m = .error e m₁) : (x >>= f) m = .error e m₁ := by
  change EStateM.bind x f m = _
  unfold EStateM.bind
  rw [h]

@[simp] theorem get_bind (f : Machine → Op β) (m : Machine) :
    ((get : Op Machine) >>= f) m = f m m := rfl

@[simp] theorem pure_apply (a : α) (m : Machine) :
    (pure a : Op α) m = .ok a m := rfl

@[simp] theorem modifyManager_bind (f : SessionManager → SessionManager)
    (g : Unit → Op β) (m : Machine) :
    (modifyManager f >>= g) m = g () { m with manager := f m.manager } := rfl

@[simp] theorem setFlushed_bind (flushed : Bool) (g : Unit → Op β)
    (m : Machine) :
    (setFlushed flushed >>= g) m
      = g () { m with manager := { m.manager with flushed := flushed } } :=
  rfl

/-- A handler sees the state at the throw. -/
theorem tryCatch_apply (x : Op α) (handle : String → Op α) (m : Machine) :
    (tryCatch x handle) m
      = match x m with
        | .ok a m' => .ok a m'
        | .error e m' => handle e m' := by
  change EStateM.tryCatch x handle m = _
  unfold EStateM.tryCatch
  cases x m <;> rfl

end Op

-- ======== writing

/-- The file of a persisted session. -/
structure PersistedAt (s : SessionManager) (file : String) : Prop where
  persist : s.persist = true
  sessionFile : s.sessionFile = some file

variable {m m' : Machine} {file : String}

section
variable (h : PersistedAt m.manager file)
include h

theorem rewriteFile_eq (throws : Bool) :
    rewriteFile throws m
      = if throws then .error "writeFileAtomicSync" m
        else .ok () { m with
          disk := m.disk.write file (fileText m.manager.fileEntries) } := by
  unfold rewriteFile
  rw [h.persist, h.sessionFile]

omit h in
/-- A rewrite changes no field of the manager. -/
theorem rewriteFile_manager {throws : Bool} {u : Unit}
    (h : rewriteFile throws m = .ok u m') : m'.manager = m.manager := by
  unfold rewriteFile at h
  split at h
  case h_1 =>
    split at h
    · cases h
    · cases h
      rfl
  case h_2 =>
    cases h
    rfl

/-- Rewriting and marking the file flushed. -/
theorem rewrite_flush_eq (throws : Bool) :
    (rewriteFile throws >>= fun _ => setFlushed true) m
      = if throws then .error "writeFileAtomicSync" m
        else .ok ()
          { disk := m.disk.write file (fileText m.manager.fileEntries)
            manager := { m.manager with flushed := true } } := by
  cases throws with
  | true => exact bind_of_error (rewriteFile_eq h true)
  | false => exact bind_of_ok (rewriteFile_eq h false)

theorem flushNow_eq (throws : Bool) :
    flushNow throws m
      = if m.manager.flushed && (m.disk file).isSome then .ok () m
        else if throws then .error "writeFileAtomicSync" m
        else .ok ()
          { disk := m.disk.write file (fileText m.manager.fileEntries)
            manager := { m.manager with flushed := true } } := by
  unfold flushNow
  rw [get_bind, h.persist, h.sessionFile]
  simp only []
  split
  · rfl
  · exact rewrite_flush_eq h throws

/-- The three things persisting an entry can do: defer, rewrite the whole
file, or append its line. -/
theorem persistEntry_eq (io : Io) (entry : SessionEntry) :
    persistEntry io entry m
      = if !m.manager.hasAssistantEntry && !persistsWithoutAssistant entry then
          .ok () { m with manager := { m.manager with flushed := false } }
        else if !m.manager.flushed || (m.disk file).isNone then
          if io.writeFileAtomicSync 0 then .error "writeFileAtomicSync" m
          else .ok ()
            { disk := m.disk.write file (fileText m.manager.fileEntries)
              manager := { m.manager with flushed := true } }
        else
          appendFile io.appendFileSync file (entryLine (.entry entry)) m := by
  unfold persistEntry
  rw [get_bind, h.persist, h.sessionFile]
  simp only []
  split
  · rfl
  · split
    · exact rewrite_flush_eq h _
    · rfl

end

-- ======== small examples

/-- A quiet environment that draws one id. -/
def ioOf (uuid : String) : Io where
  now := "2025-01-01T00:01:00.000Z"
  randomUUID := fun _ _ => uuid
  createSessionId := fun _ => "t"
  captureGitContext := fun _ => none
  newRlmDepth := .ok none
  resolveSessionRlmDepth := fun _ _ => .ofNat 0
  appendFileSync := none
  writeFileAtomicSync := fun _ => false

/-- A header of the current version. -/
def headerOf (id : String) : SessionHeader where
  version := some currentSessionVersion
  id := id
  timestamp := "2025-01-01T00:00:00.000Z"
  cwd := "/"
  parentSession := none
  rlmDepth := none
  git := none

/-- A user message, as an entry. -/
def userEntry (id : String) (parentId : Option String) (text : String) :
    SessionEntry where
  id := id
  parentId := parentId
  timestamp := "2025-01-01T00:00:00.000Z"
  body := .message (.user { content := .text text, timestamp := .ofNat 0 })

/-- A usage record that counts `n` input tokens. -/
def usageOf (n : Nat) : Usage where
  input := .ofNat n
  output := .ofNat 0
  cacheRead := .ofNat 0
  cacheWrite := .ofNat 0
  totalTokens := .ofNat n
  cost :=
    { input := .ofNat 0
      output := .ofNat 0
      cacheRead := .ofNat 0
      cacheWrite := .ofNat 0
      total := .ofNat 0 }

/-- An answer, as a message. -/
def answer (usage : Usage) : AgentMessage :=
  .assistant
    { content := []
      api := "api"
      provider := "p"
      model := "m"
      responseModel := none
      responseId := none
      diagnostics := none
      usage := usage
      stopReason := .stop
      stopReasonRaw := none
      errorMessage := none
      timestamp := .ofNat 0 }

/-- An answer, as an entry. -/
def answerEntry (id : String) (parentId : Option String) (usage : Usage) :
    SessionEntry where
  id := id
  parentId := parentId
  timestamp := "2025-01-01T00:00:00.000Z"
  body := .message (answer usage)

/-- A session file of one answer. -/
def answeredFile : List FileEntry :=
  [.session (headerOf "s"), .entry (answerEntry "a" none (usageOf 1))]

/-- A disk that holds these lines. -/
def diskOf (fs : List FileEntry) : Disk := fun p =>
  if p = "/s.jsonl" then some (fs.flatMap entryLine) else none

/-- A question to append. -/
def question : AgentMessage :=
  .user { content := .text "more", timestamp := .ofNat 1 }

end OneHarness.Session
