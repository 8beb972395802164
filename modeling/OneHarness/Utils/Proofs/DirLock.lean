/-
When the lock excludes, along any run of its attempts.

# What a step does to the lock

Only four steps of an attempt change what is at the lock path or who holds
it (`Effect`): a link publishes a candidate where nothing was, a recheck
accepts one that landed unnoticed, a reclaim moves aside whatever is there,
and a restore puts something back where nothing was.

# The run

The publications can do no harm as long as every holder's file is at the
path. So a run excludes all along exactly as long as no reclaim moves the
file of a live holder, and no recheck accepts a file that has been moved
(`excludes_along_iff`). Nothing in the reclaim sees to that: between the
judgement of a lock and its rename the path may have come into the hands of
another.
-/
import OneHarness.Utils.DirLock
import OneHarness.Lib.Run

namespace OneHarness.Utils.DirLock

open Lib World

-- ======== the holders

variable (lock : Option Node) (running : List Nat)

namespace World

/-- The attempt holds the lock, and this is the file it published. -/
def Holds (w : World) (a file : Nat) : Prop :=
  ∃ attempt, w.attempts[a]? = some attempt
    ∧ attempt.phase.holds = true ∧ attempt.file = some file

/-- At most one attempt holds the lock, and its file is at the path. -/
structure Excludes (w : World) : Prop where
  one : ∀ a b file other, w.Holds a file → w.Holds b other → a = b
  inPlace : ∀ a file, w.Holds a file → w.names.get .lock = some file

/-- The reclaim finds no holder's file at the path, the recheck finds the
file it accepts there. -/
def StepFits (w : World) (a : Nat) (attempt : Attempt) (reply : Reply) : Prop :=
  match attempt.phase with
  | .reclaiming _ => reply ≠ .failed →
      ∀ b file, w.Holds b file → w.names.get .lock ≠ some file
  | .rechecking _ => reply = .ok →
      ∀ file, w.names.get (.candidate (token a attempt)) = some file →
        w.nlink file = 2 → w.names.get .lock = some file
  | _ => True

def Fits (w : World) : Event → Prop
  | .step a reply => ∀ attempt, w.attempts[a]? = some attempt →
      w.StepFits a attempt reply
  | _ => True

/-- Every candidate is the file of the attempt that wrote it, and no file
is the candidate of two. -/
structure WellFormed (w : World) : Prop where
  made : ∀ (a file : Nat) (attempt : Attempt), w.attempts[a]? = some attempt →
    attempt.file = some file →
      ∃ (node : Node) (text : String),
        w.nodes[file]? = some node ∧ node.content = .file text
  own : ∀ (a b file : Nat) (attempt other : Attempt),
    w.attempts[a]? = some attempt →
    w.attempts[b]? = some other → attempt.file = some file →
      other.file = some file → a = b
  candidate : ∀ t file, w.names.get (.candidate t) = some file →
    ∃ attempt, w.attempts[t.attempt]? = some attempt
      ∧ t = token t.attempt attempt ∧ attempt.file = some file
  holder : ∀ (a : Nat) (attempt : Attempt), w.attempts[a]? = some attempt →
    attempt.phase.holds = true → ∃ file, attempt.file = some file

theorem Holds.unique {w : World} (hw : WellFormed w) {a b file : Nat}
    (ha : w.Holds a file) (hb : w.Holds b file) : a = b := by
  obtain ⟨attempt, hget, -, hfile⟩ := ha
  obtain ⟨other, hget', -, hfile'⟩ := hb
  exact hw.own a b file attempt other hget hget' hfile hfile'

/-- With every holder's file at the path there is one holder at most. -/
theorem Excludes.of_inPlace {w : World} (hw : WellFormed w)
    (h : ∀ a file, w.Holds a file → w.names.get .lock = some file) :
    Excludes w := by
  refine ⟨?_, h⟩
  intro a b file other ha hb
  have heq : file = other :=
    Option.some.inj ((h a file ha).symm.trans (h b other hb))
  subst heq
  exact ha.unique hw hb

-- ======== a step's effect

/-- The world after a step of an attempt. -/
def put (w : World) (names : JsMap Name Nat) (a : Nat) (attempt : Attempt) :
    World :=
  { w with names := names, attempts := w.attempts.set a attempt }

/-- The attempt keeps its file, the candidates are those there were. -/
structure Keeps (w : World) (a : Nat) (attempt : Attempt)
    (names : JsMap Name Nat) (attempt' : Attempt) : Prop where
  file : attempt'.file = attempt.file
  candidates : ∀ t file, names.get (.candidate t) = some file →
    w.names.get (.candidate t) = some file
  token : attempt'.retryOnSweptCandidate = attempt.retryOnSweptCandidate
    ∨ w.names.get (.candidate (token a attempt)) = none

/-- What a step of an attempt may do. -/
inductive Effect (w : World) (a : Nat) (attempt : Attempt) (reply : Reply) :
    World → Prop where
  | quiet {names attempt'} (keeps : Keeps w a attempt names attempt')
      (lock : names.get .lock = w.names.get .lock)
      (holds : attempt'.phase.holds = true → attempt.phase.holds = true) :
      Effect w a attempt reply (w.put names a attempt')
  | publishes {names attempt' file} (keeps : Keeps w a attempt names attempt')
      (free : w.names.get .lock = none)
      (candidate : w.names.get (.candidate (token a attempt)) = some file)
      (lock : names.get .lock = some file) :
      Effect w a attempt reply (w.put names a attempt')
  | accepts {attempt' error file}
      (keeps : Keeps w a attempt w.names attempt')
      (phase : attempt.phase = .rechecking error) (ok : reply = .ok)
      (candidate : w.names.get (.candidate (token a attempt)) = some file)
      (landed : w.nlink file = 2) (holds : attempt'.phase.holds = true) :
      Effect w a attempt reply (w.put w.names a attempt')
  | moves {names attempt' captured file}
      (keeps : Keeps w a attempt names attempt')
      (phase : attempt.phase = .reclaiming captured)
      (moved : reply ≠ .failed) (before : w.names.get .lock = some file)
      (lock : names.get .lock = none)
      (holds : attempt'.phase.holds = false) :
      Effect w a attempt reply (w.put names a attempt')
  | restores {names attempt'} (keeps : Keeps w a attempt names attempt')
      (free : ∀ file, w.names.get .lock = some file →
        (w.nodes[file]?.map fun node => node.content.isEmptyDir) = some true)
      (holds : attempt'.phase.holds = false) :
      Effect w a attempt reply (w.put names a attempt')

variable {w : World} {a : Nat} {attempt : Attempt} {reply : Reply}
  {b file pid : Nat} {pinned : Option Nat} {phase : Phase}
  {names : JsMap Name Nat} {name : Name} {captured : Captured}
  {attempt' other : Attempt} {w' : World}

/-- Nothing but the phase and the open file of the attempt changes. -/
theorem Effect.goto (h : phase.holds = true → attempt.phase.holds = true) :
    Effect w a attempt reply
      (w.goto a { attempt with pinned := pinned } phase) :=
  @Effect.quiet w a attempt reply w.names _
    ⟨rfl, fun _ _ h => h, .inl rfl⟩ rfl h

/-- Names that are no candidates come and go. -/
theorem Keeps.of_names (h : ∀ t file, names.get (.candidate t) = some file →
      w.names.get (.candidate t) = some file) :
    Keeps w a attempt names { attempt with pinned := pinned, phase := phase } :=
  ⟨rfl, h, .inl rfl⟩

theorem candidate_set (h : ∀ t, name ≠ .candidate t) (t : Token) :
    (names.set name file).get (.candidate t) = names.get (.candidate t) :=
  JsMap.get_set_ne names file (h t)

theorem candidate_of_delete {t : Token}
    (h : (names.delete name).get (.candidate t) = some file) :
    names.get (.candidate t) = some file := by
  rw [JsMap.get_delete] at h
  by_cases hname : name = .candidate t
  · rw [if_pos hname] at h
    cases h
  · rwa [if_neg hname] at h

-- ======== what each step does

/-- The link has taken effect. -/
theorem Effect.linked (hlock : w.names.get .lock = none)
    (hcand : w.names.get (.candidate (token a attempt)) = some file) :
    Effect w a attempt reply (w.put (w.names.set .lock file) a
      { attempt with pinned := pinned, phase := phase }) := by
  apply Effect.publishes _ hlock hcand (JsMap.get_set_self _ _ _)
  apply Keeps.of_names
  intro t f h
  have hne : ∀ t, Name.lock ≠ .candidate t := nofun
  rwa [candidate_set hne] at h

theorem link_effect : Effect w a attempt reply (w.link a attempt reply) := by
  unfold link
  cases reply with
  | failed => exact Effect.goto nofun
  | ok =>
    cases hcand : w.names.get (.candidate (token a attempt)) with
    | none => exact Effect.goto nofun
    | some file =>
      cases hlock : w.names.get .lock with
      | some other => exact Effect.goto nofun
      | none => exact Effect.linked hlock hcand
  | lost eexist =>
    cases hcand : w.names.get (.candidate (token a attempt)) with
    | none => exact Effect.goto nofun
    | some file =>
      cases hlock : w.names.get .lock with
      | some other => exact Effect.goto nofun
      | none => exact Effect.linked hlock hcand

theorem recheck_effect {error : LinkError}
    (hphase : attempt.phase = .rechecking error) :
    Effect w a attempt reply (w.recheck a attempt error reply) := by
  unfold recheck
  cases reply with
  | failed => exact Effect.goto nofun
  | lost eexist => exact Effect.goto nofun
  | ok =>
    cases hcand : w.names.get (.candidate (token a attempt)) with
    | some file =>
      show Effect w a attempt .ok (if w.nlink file = 2 then _ else _)
      by_cases hlink : w.nlink file = 2
      · rw [if_pos hlink]
        exact Effect.accepts (Keeps.of_names fun _ _ h => h) hphase rfl
          hcand hlink rfl
      · rw [if_neg hlink]
        by_cases herror : error = .EEXIST
        · rw [if_pos herror]
          exact Effect.goto nofun
        · rw [if_neg herror]
          exact Effect.goto nofun
    | none =>
      show Effect w a attempt .ok (if attempt.retryOnSweptCandidate then _
        else _)
      by_cases hretry : attempt.retryOnSweptCandidate = true
      · rw [if_pos hretry]
        exact @Effect.quiet w a attempt _ w.names _
          ⟨rfl, fun _ _ h => h, .inr hcand⟩ rfl nofun
      · rw [if_neg hretry]
        by_cases herror : error = .EEXIST
        · rw [if_pos herror]
          exact Effect.goto nofun
        · rw [if_neg herror]
          exact Effect.goto nofun

theorem capture_effect :
    Effect w a attempt reply (w.capture a attempt reply) := by
  unfold capture
  cases reply with
  | failed => exact Effect.goto nofun
  | lost eexist => exact Effect.goto nofun
  | ok =>
    cases w.stat .lock with
    | none => exact Effect.goto nofun
    | some node =>
      show Effect w a attempt .ok (if node.ino = 0 then _ else _)
      by_cases hino : node.ino = 0
      · rw [if_pos hino]
        exact Effect.goto nofun
      · rw [if_neg hino]
        exact Effect.goto nofun

theorem pin_effect :
    Effect w a attempt reply (w.pin a attempt captured reply) := by
  unfold pin
  cases reply with
  | failed => exact Effect.goto nofun
  | lost eexist => exact Effect.goto nofun
  | ok =>
    cases w.names.get .lock with
    | none => exact Effect.goto nofun
    | some file =>
      dsimp only
      by_cases hino : w.nodes[file]?.map Node.ino = some captured.ino
      · rw [if_pos hino]
        exact Effect.goto nofun
      · rw [if_neg hino]
        exact Effect.goto nofun

theorem read_effect :
    Effect w a attempt reply (w.read a attempt captured reply) := by
  unfold read
  cases w.readOwnerRaw captured.isDir reply with
  | raw text => exact Effect.goto nofun
  | absent => exact Effect.goto nofun
  | unreadable => exact Effect.goto nofun

theorem judge_effect {owner : Option Nat} :
    Effect w a attempt reply (w.judge a attempt captured owner) := by
  unfold judge
  by_cases halive : w.ownerAlive owner = true
  · rw [if_pos halive]
    exact Effect.goto nofun
  · rw [if_neg halive]
    exact Effect.goto nofun

theorem reclaim_effect (hphase : attempt.phase = .reclaiming captured) :
    Effect w a attempt reply (w.reclaim a attempt captured reply) := by
  have hmoves : ∀ {file : Nat} {phase : Phase}, reply ≠ .failed →
      phase.holds = false → w.names.get .lock = some file →
        Effect w a attempt reply (w.put
          ((w.names.delete .lock).set (.stale (token a attempt)) file) a
          { attempt with phase := phase }) := by
    intro file phase hreply hholds hlock
    refine Effect.moves (Keeps.of_names ?_) hphase hreply hlock ?_ hholds
    · intro t f h
      have hne : ∀ t, Name.stale (token a attempt) ≠ .candidate t := nofun
      rw [candidate_set hne] at h
      exact candidate_of_delete h
    · have hne : Name.stale (token a attempt) ≠ .lock := nofun
      rw [JsMap.get_set_ne _ _ hne, JsMap.get_delete, if_pos rfl]
  unfold reclaim
  cases reply with
  | failed => exact Effect.goto nofun
  | ok =>
    cases hlock : w.names.get .lock with
    | none => exact Effect.goto nofun
    | some file => exact hmoves nofun rfl hlock
  | lost eexist =>
    cases hlock : w.names.get .lock with
    | none => exact Effect.goto nofun
    | some file => exact hmoves nofun rfl hlock

theorem probe_effect :
    Effect w a attempt reply (w.probe a attempt captured reply) := by
  unfold probe
  split
  · exact Effect.goto nofun
  · exact Effect.goto nofun

theorem verify_effect :
    Effect w a attempt reply (w.verify a attempt captured reply) := by
  unfold verify
  split
  · rename_i aside _
    by_cases hino : aside.ino = captured.ino
    · rw [if_pos hino]
      exact Effect.goto nofun
    · rw [if_neg hino]
      exact Effect.goto nofun
  · exact Effect.goto nofun

/-- A name other than the lock is gone. -/
theorem Effect.deleted (hname : name ≠ .lock)
    (h : phase.holds = true → attempt.phase.holds = true) :
    Effect w a attempt reply (w.put (w.names.delete name) a
      { attempt with pinned := pinned, phase := phase }) := by
  apply Effect.quiet (Keeps.of_names fun _ _ => candidate_of_delete) _ h
  rw [JsMap.get_delete, if_neg hname]

theorem remove_effect :
    Effect w a attempt reply (w.remove a attempt reply) := by
  unfold remove
  cases reply with
  | failed => exact Effect.goto nofun
  | ok => exact Effect.deleted nofun nofun
  | lost eexist => exact Effect.deleted nofun nofun

theorem unlink_effect :
    Effect w a attempt reply (w.unlink a attempt reply) := by
  unfold unlink
  cases reply with
  | failed => exact Effect.goto nofun
  | ok => exact Effect.deleted nofun nofun
  | lost eexist => exact Effect.deleted nofun nofun

theorem cleanup_effect {ended : Ended}
    (hphase : attempt.phase = .cleaning ended) :
    Effect w a attempt reply (w.cleanup a attempt ended reply) := by
  have hholds : (Phase.done ended).holds = true →
      attempt.phase.holds = true := by
    intro h
    rw [hphase]
    cases ended with
    | threw => exact h
    | returned result => cases result <;> exact h
  unfold cleanup
  cases reply with
  | failed => exact @Effect.goto w a attempt _ attempt.pinned _ hholds
  | ok => exact @Effect.deleted w a attempt _ attempt.pinned _ _ nofun hholds
  | lost eexist => exact @Effect.deleted w a attempt _ attempt.pinned _ _ nofun hholds

theorem Effect.restored (hholds : phase.holds = false)
    (hnames : ∀ t f, names.get (.candidate t) = some f →
      w.names.get (.candidate t) = some f)
    (hfree : ∀ file, w.names.get .lock = some file →
      (w.nodes[file]?.map fun node => node.content.isEmptyDir) = some true) :
    Effect w a attempt reply (w.put (names.set .lock file) a
      { attempt with pinned := pinned, phase := phase }) := by
  refine Effect.restores (Keeps.of_names ?_) hfree hholds
  intro t f h
  have hne : ∀ t, Name.lock ≠ .candidate t := nofun
  rw [candidate_set hne] at h
  exact hnames t f h

theorem restore_effect {isDir : Bool} :
    Effect w a attempt reply (w.restore a attempt isDir reply) := by
  have hnone : w.names.get .lock = none → ∀ file,
      w.names.get .lock = some file →
        (w.nodes[file]?.map fun node => node.content.isEmptyDir)
          = some true := by
    intro hlock file hget
    rw [hlock] at hget
    cases hget
  unfold restore
  dsimp only
  split
  · exact Effect.goto nofun
  · exact Effect.goto nofun
  · split
    · rename_i hlock
      exact Effect.restored rfl (fun _ _ => candidate_of_delete) (hnone hlock)
    · rename_i other hlock
      split
      · rename_i hempty
        apply Effect.restored rfl (fun _ _ => candidate_of_delete)
        intro file hget
        rw [← Option.some.inj (hlock.symm.trans hget)]
        exact hempty
      · exact Effect.goto nofun
    · rename_i hlock
      split
      · split
        · exact Effect.restored rfl (fun _ _ h => h) (hnone hlock)
        · exact @Effect.restored w a attempt _ _ attempt.pinned _ _ rfl
            (fun _ _ h => h) (hnone hlock)
      · exact Effect.goto nofun
    · exact Effect.goto nofun

theorem stepAttempt_effect (hget : w.attempts[a]? = some attempt) :
    Effect w a attempt reply (w.stepAttempt a attempt reply) := by
  have hidle : Effect w a attempt reply w := by
    have hput : w.put w.names a attempt = w := by
      obtain ⟨hlt, heq⟩ := List.getElem?_eq_some_iff.1 hget
      rw [put, ← heq, List.set_getElem_self]
    have h := @Effect.quiet w a attempt reply w.names attempt
      ⟨rfl, fun _ _ h => h, .inl rfl⟩ rfl id
    rwa [hput] at h
  unfold stepAttempt
  cases hphase : attempt.phase with
  | linking => exact link_effect
  | rechecking error => exact recheck_effect hphase
  | capturing => exact capture_effect
  | pinning captured => exact pin_effect
  | reading captured => exact read_effect
  | judging captured owner => exact judge_effect
  | reclaiming captured => exact reclaim_effect hphase
  | probing captured => exact probe_effect
  | verifying captured => exact verify_effect
  | removing => exact remove_effect
  | restoring isDir => exact restore_effect
  | unlinking => exact unlink_effect
  | cleaning ended => exact cleanup_effect hphase
  | sweeping => exact hidle
  | writing => exact hidle
  | done ended => exact hidle
  | released => exact hidle
  | gone => exact hidle

-- ======== the attempts left

section
variable (hget : w.attempts[a]? = some attempt)
include hget

theorem getElem?_put {names : JsMap Name Nat} {attempt' : Attempt} (b : Nat) :
    (w.put names a attempt').attempts[b]?
      = if a = b then some attempt' else w.attempts[b]? := by
  obtain ⟨hlt, -⟩ := List.getElem?_eq_some_iff.1 hget
  show (w.attempts.set a attempt')[b]? = _
  rw [List.getElem?_set]
  by_cases hb : a = b
  · rw [if_pos hb, if_pos hb, if_pos hlt]
  · rw [if_neg hb, if_neg hb]

theorem holds_put {names : JsMap Name Nat} {attempt' : Attempt} {b file : Nat} :
    (w.put names a attempt').Holds b file
      ↔ if a = b then attempt'.phase.holds = true ∧ attempt'.file = some file
        else w.Holds b file := by
  rw [Holds, getElem?_put hget]
  by_cases hb : a = b
  · rw [if_pos hb, if_pos hb]
    constructor
    · rintro ⟨other, heq, h⟩
      rw [Option.some.inj heq]
      exact h
    · intro h
      exact ⟨attempt', rfl, h⟩
  · rw [if_neg hb, if_neg hb]
    rfl

theorem Holds.self :
    w.Holds a file ↔ attempt.phase.holds = true ∧ attempt.file = some file := by
  rw [Holds, hget]
  constructor
  · rintro ⟨other, heq, h⟩
    rw [Option.some.inj heq]
    exact h
  · intro h
    exact ⟨attempt, rfl, h⟩

end

/-- A step of an attempt leaves the candidates with their attempts. -/
theorem WellFormed.put (hw : WellFormed w)
    (hget : w.attempts[a]? = some attempt)
    (hkeeps : Keeps w a attempt names attempt')
    (hholds : attempt'.phase.holds = true → ∃ file, attempt.file = some file) :
    WellFormed (w.put names a attempt') := by
  -- every attempt has the file it had
  have hback : ∀ (b : Nat) (other : Attempt),
      (w.put names a attempt').attempts[b]? = some other →
      ∃ before : Attempt, w.attempts[b]? = some before
        ∧ other.file = before.file := by
    intro b other hother
    rw [getElem?_put hget] at hother
    by_cases hb : a = b
    · rw [if_pos hb] at hother
      rw [← hb, ← Option.some.inj hother]
      exact ⟨attempt, hget, hkeeps.file⟩
    · rw [if_neg hb] at hother
      exact ⟨other, hother, rfl⟩
  refine ⟨?_, ?_, ?_, ?_⟩
  · intro b file other hother hfile
    obtain ⟨before, hbefore, heq⟩ := hback b other hother
    exact hw.made b file before hbefore (heq ▸ hfile)
  · intro b b' file other other' hother hother' hfile hfile'
    obtain ⟨before, hbefore, heq⟩ := hback b other hother
    obtain ⟨before', hbefore', heq'⟩ := hback b' other' hother'
    exact hw.own b b' file before before' hbefore hbefore' (heq ▸ hfile)
      (heq' ▸ hfile')
  · intro t file hname
    have hcand := hkeeps.candidates t file hname
    obtain ⟨other, hother, htoken, hfile⟩ := hw.candidate t file hcand
    by_cases hb : a = t.attempt
    · have heq : other = attempt := by
        rw [← hb, hget] at hother
        exact (Option.some.inj hother).symm
      subst heq
      refine ⟨attempt', ?_, ?_, ?_⟩
      · rw [getElem?_put hget, if_pos hb]
      · cases hkeeps.token with
        | inl hretry => rw [htoken, token, token, hretry]
        | inr hnone =>
          rw [htoken, ← hb] at hcand
          rw [hcand] at hnone
          cases hnone
      · rw [hkeeps.file]
        exact hfile
    · refine ⟨other, ?_, htoken, hfile⟩
      rw [getElem?_put hget, if_neg hb]
      exact hother
  · intro b other hother hphase
    rw [getElem?_put hget] at hother
    by_cases hb : a = b
    · rw [if_pos hb] at hother
      rw [← Option.some.inj hother] at hphase ⊢
      rw [hkeeps.file]
      exact hholds hphase
    · rw [if_neg hb] at hother
      exact hw.holder b other hother hphase

-- ======== one step

/-- Without a new holder, and with the path as it was, it stays good. -/
theorem Excludes.mono (hw' : WellFormed w') (h : Excludes w)
    (hlock : w'.names.get .lock = w.names.get .lock)
    (hholds : ∀ b file, w'.Holds b file → w.Holds b file) : Excludes w' := by
  apply Excludes.of_inPlace hw'
  intro b file hb
  rw [hlock]
  exact h.inPlace b file (hholds b file hb)

/-- A world where nobody holds the lock is good. -/
theorem Excludes.of_none (h : ∀ b file, ¬ w'.Holds b file) : Excludes w' :=
  ⟨fun a _ file _ ha _ => absurd ha (h a file),
    fun a file ha => absurd ha (h a file)⟩

section
variable (hw : WellFormed w) (hget : w.attempts[a]? = some attempt)
include hw hget

/-- The file that an attempt accepts is its own. -/
theorem candidate_own {file : Nat}
    (hcand : w.names.get (.candidate (token a attempt)) = some file) :
    attempt.file = some file := by
  obtain ⟨other, hother, -, hfile⟩ := hw.candidate _ file hcand
  have heq : some attempt = some other := hget.symm.trans hother
  rwa [Option.some.inj heq]

/-- A step that is good needed what it needs. -/
theorem StepFits.of_excludes (h : Excludes (w.stepAttempt a attempt reply)) :
    w.StepFits a attempt reply := by
  unfold StepFits
  split
  case h_1 captured hphase =>
    intro hreply b file hb hlock
    have hne : ¬ a = b := by
      intro heq
      subst heq
      have hself := ((Holds.self hget).1 hb).1
      rw [hphase] at hself
      cases hself
    -- the holder's file is moved aside
    have hmoved : ∃ phase pinned, w.stepAttempt a attempt reply = w.put
        ((w.names.delete .lock).set (.stale (token a attempt)) file) a
        { attempt with pinned := pinned, phase := phase } := by
      rw [stepAttempt, hphase]
      dsimp only
      unfold reclaim
      rw [hlock]
      cases reply with
      | failed => exact absurd rfl hreply
      | ok => exact ⟨_, _, rfl⟩
      | lost eexist => exact ⟨_, _, rfl⟩
    obtain ⟨phase, pinned, hmoved⟩ := hmoved
    rw [hmoved] at h
    have hb' := (@holds_put w a attempt hget
      ((w.names.delete .lock).set (.stale (token a attempt)) file)
      { attempt with pinned := pinned, phase := phase } b file).2
      (by rwa [if_neg hne])
    have hstale : Name.stale (token a attempt) ≠ .lock := nofun
    have hlock' := h.inPlace b file hb'
    rw [put, JsMap.get_set_ne _ _ hstale, JsMap.get_delete, if_pos rfl]
      at hlock'
    cases hlock'
  case h_2 error hphase =>
    intro hreply file hcand hlink
    have hstep : w.stepAttempt a attempt reply
        = w.settle a attempt (.returned .acquired) := by
      rw [stepAttempt, hphase, hreply]
      dsimp only
      unfold recheck
      rw [hcand]
      dsimp only
      rw [if_pos hlink]
    rw [hstep] at h
    apply h.inPlace a file
    apply (holds_put hget).2
    rw [if_pos rfl]
    exact ⟨rfl, candidate_own hw hget hcand⟩
  case h_3 => trivial

theorem Effect.wellFormed
    (heffect : Effect w a attempt reply w') : WellFormed w' := by
  cases heffect with
  | quiet hkeeps hlock hholds =>
    exact hw.put hget hkeeps fun h => hw.holder a attempt hget (hholds h)
  | publishes hkeeps hfree hcand hlock =>
    exact hw.put hget hkeeps fun _ => ⟨_, candidate_own hw hget hcand⟩
  | accepts hkeeps hphase hok hcand hlanded hholds =>
    exact hw.put hget hkeeps fun _ => ⟨_, candidate_own hw hget hcand⟩
  | moves hkeeps hphase hmoved hbefore hlock hholds =>
    exact hw.put hget hkeeps fun h => by rw [hholds] at h; cases h
  | restores hkeeps hfree hholds =>
    exact hw.put hget hkeeps fun h => by rw [hholds] at h; cases h

end

section
variable (hw : WellFormed w)
include hw

/-- The file of a holder is no directory. -/
theorem Holds.not_emptyDir (hb : w.Holds b file)
    (hempty : (w.nodes[file]?.map fun node => node.content.isEmptyDir)
      = some true) : False := by
  obtain ⟨other, hother, -, hfile⟩ := hb
  obtain ⟨node, text, hnode, hcontent⟩ := hw.made b file other hother hfile
  rw [hnode, Option.map_some, hcontent] at hempty
  cases hempty

/-- A step that has what it needs is good. -/
theorem Effect.excludes (h : Excludes w)
    (hget : w.attempts[a]? = some attempt)
    (heffect : Effect w a attempt reply w')
    (hfits : w.StepFits a attempt reply) : Excludes w' := by
  have hw' := heffect.wellFormed hw hget
  cases heffect with
  | quiet hkeeps hlock hholds =>
    apply h.mono hw' hlock
    intro b file hb
    rw [holds_put hget] at hb
    by_cases hab : a = b
    · rw [if_pos hab] at hb
      rw [← hab, Holds.self hget, ← hkeeps.file]
      exact ⟨hholds hb.1, hb.2⟩
    · rwa [if_neg hab] at hb
  | @publishes names attempt' file hkeeps hfree hcand hlock =>
    -- there was no holder, so there is no other now
    apply Excludes.of_inPlace hw'
    intro b f hb
    rw [holds_put hget] at hb
    by_cases hab : a = b
    · rw [if_pos hab, hkeeps.file, candidate_own hw hget hcand] at hb
      rw [← Option.some.inj hb.2]
      exact hlock
    · rw [if_neg hab] at hb
      have hplace := h.inPlace b f hb
      rw [hfree] at hplace
      cases hplace
  | @accepts attempt' error file hkeeps hphase hok hcand hlanded hholds =>
    have hlock : w.names.get .lock = some file := by
      rw [StepFits, hphase] at hfits
      exact hfits hok file hcand hlanded
    apply Excludes.of_inPlace hw'
    intro b f hb
    rw [holds_put hget] at hb
    by_cases hab : a = b
    · rw [if_pos hab, hkeeps.file, candidate_own hw hget hcand] at hb
      rw [← Option.some.inj hb.2]
      exact hlock
    · rw [if_neg hab] at hb
      exact h.inPlace b f hb
  | @moves names attempt' captured file hkeeps hphase hmoved hbefore hlock
      hholds =>
      apply Excludes.of_none
      intro b f hb
      rw [holds_put hget] at hb
      by_cases hab : a = b
      · rw [if_pos hab, hholds] at hb
        cases hb.1
      · rw [if_neg hab] at hb
        rw [StepFits, hphase] at hfits
        exact hfits hmoved b f hb (h.inPlace b f hb)
  | restores hkeeps hfree hholds =>
    apply Excludes.of_none
    intro b f hb
    rw [holds_put hget] at hb
    by_cases hab : a = b
    · rw [if_pos hab, hholds] at hb
      cases hb.1
    · rw [if_neg hab] at hb
      exact hb.not_emptyDir hw (hfree f (h.inPlace b f hb))

-- ======== the other events

omit hw in
/-- The attempts of a process that dies keep their files. -/
theorem getElem?_crash :
    (w.step (.crash pid)).attempts[b]? = some other
      ↔ ∃ before, w.attempts[b]? = some before
        ∧ other = (if before.pid = pid then
            { before with pinned := none, phase := .gone } else before) := by
  show (w.attempts.map _)[b]? = some other ↔ _
  rw [List.getElem?_map, Option.map_eq_some_iff]
  constructor
  · rintro ⟨before, hbefore, heq⟩
    exact ⟨before, hbefore, heq.symm⟩
  · rintro ⟨before, hbefore, heq⟩
    exact ⟨before, hbefore, heq.symm⟩

omit hw in
theorem crash_keeps (h : (w.step (.crash pid)).attempts[b]? = some other) :
    ∃ before, w.attempts[b]? = some before ∧ other.file = before.file
      ∧ (other.phase.holds = true → before.phase.holds = true) := by
  obtain ⟨before, hbefore, heq⟩ := getElem?_crash.1 h
  refine ⟨before, hbefore, ?_⟩
  by_cases hpid : before.pid = pid
  · rw [if_pos hpid] at heq
    subst heq
    exact ⟨rfl, nofun⟩
  · rw [if_neg hpid] at heq
    subst heq
    exact ⟨rfl, id⟩

theorem WellFormed.crash (pid : Nat) : WellFormed (w.step (.crash pid)) := by
  refine ⟨?_, ?_, ?_, ?_⟩
  · intro b file other hother hfile
    obtain ⟨before, hbefore, heq, -⟩ := crash_keeps hother
    exact hw.made b file before hbefore (heq ▸ hfile)
  · intro b b' file other other' hother hother' hfile hfile'
    obtain ⟨before, hbefore, heq, -⟩ := crash_keeps hother
    obtain ⟨before', hbefore', heq', -⟩ := crash_keeps hother'
    exact hw.own b b' file before before' hbefore hbefore' (heq ▸ hfile)
      (heq' ▸ hfile')
  · intro t file hname
    obtain ⟨before, hbefore, htoken, hfile⟩ := hw.candidate t file hname
    refine ⟨_, getElem?_crash.2 ⟨before, hbefore, rfl⟩, ?_⟩
    by_cases hpid : before.pid = pid
    · rw [if_pos hpid]
      exact ⟨htoken, hfile⟩
    · rw [if_neg hpid]
      exact ⟨htoken, hfile⟩
  · intro b other hother hholds
    obtain ⟨before, hbefore, heq, hmono⟩ := crash_keeps hother
    rw [heq]
    exact hw.holder b before hbefore (hmono hholds)

omit hw in
theorem holds_of_crash
    (h : (w.step (.crash pid)).Holds b file) : w.Holds b file := by
  obtain ⟨other, hother, hholds, hfile⟩ := h
  obtain ⟨before, hbefore, heq, hmono⟩ := crash_keeps hother
  exact ⟨before, hbefore, hmono hholds, heq ▸ hfile⟩

omit hw in
/-- An attempt begins without a file. -/
theorem getElem?_call {attempt : Attempt}
    (h : (w.attempts ++ [attempt])[b]? = some other) :
    w.attempts[b]? = some other ∨ other = attempt := by
  by_cases hb : b < w.attempts.length
  · rw [List.getElem?_append_left hb] at h
    exact .inl h
  · rw [List.getElem?_append_right (by omega)] at h
    exact .inr (List.mem_singleton.1 (List.mem_of_getElem? h))

theorem WellFormed.call {attempt : Attempt}
    (hnone : attempt.file = none) (hphase : attempt.phase.holds = false) :
    WellFormed { w with attempts := w.attempts ++ [attempt] } := by
  refine ⟨?_, ?_, ?_, ?_⟩
  · intro b file other hother hfile
    cases getElem?_call hother with
    | inl hold => exact hw.made b file other hold hfile
    | inr heq => rw [heq, hnone] at hfile; cases hfile
  · intro b b' file other other' hother hother' hfile hfile'
    cases getElem?_call hother with
    | inr heq => rw [heq, hnone] at hfile; cases hfile
    | inl hold =>
      cases getElem?_call hother' with
      | inr heq => rw [heq, hnone] at hfile'; cases hfile'
      | inl hold' =>
        exact hw.own b b' file other other' hold hold' hfile hfile'
  · intro t file hname
    obtain ⟨other, hother, h⟩ := hw.candidate t file hname
    refine ⟨other, ?_, h⟩
    obtain ⟨hlt, -⟩ := List.getElem?_eq_some_iff.1 hother
    rw [List.getElem?_append_left hlt]
    exact hother
  · intro b other hother hholds
    cases getElem?_call hother with
    | inl hold => exact hw.holder b other hold hholds
    | inr heq => rw [heq, hphase] at hholds; cases hholds

omit hw in
theorem holds_of_call {attempt : Attempt}
    (hphase : attempt.phase.holds = false)
    (h : Holds { w with attempts := w.attempts ++ [attempt] } b file) :
    w.Holds b file := by
  obtain ⟨other, hother, hholds, hfile⟩ := h
  cases getElem?_call hother with
  | inl hold => exact ⟨other, hold, hholds, hfile⟩
  | inr heq => rw [heq, hphase] at hholds; cases hholds

theorem WellFormed.sweep (t : Token) :
    WellFormed { w with names := w.names.delete (.candidate t) } :=
  ⟨hw.made, hw.own,
    fun t' file h => hw.candidate t' file (candidate_of_delete h), hw.holder⟩

/-- A new file is nobody's, and is the candidate of the attempt that wrote
it. -/
theorem WellFormed.written
    (hget : w.attempts[a]? = some attempt) {node : Node} {text : String}
    (hnode : node.content = .file text)
    (hphase : phase.holds = false) :
    WellFormed (World.put { w with nodes := w.nodes ++ [node] }
      (w.names.set (.candidate (token a attempt)) w.nodes.length) a
      { attempt with file := some w.nodes.length, phase := phase }) := by
  have hbefore : ∀ (b file : Nat) (other : Attempt),
      w.attempts[b]? = some other → other.file = some file →
        file < w.nodes.length := by
    intro b file other hother hfile
    obtain ⟨node, text, hnode, -⟩ := hw.made b file other hother hfile
    exact (List.getElem?_eq_some_iff.1 hnode).1
  have hcases : ∀ (b : Nat) (other : Attempt),
      (World.put { w with nodes := w.nodes ++ [node] }
        (w.names.set (.candidate (token a attempt)) w.nodes.length) a
        { attempt with file := some w.nodes.length, phase := phase }
          ).attempts[b]? = some other →
      a = b ∧ other = { attempt with
          file := some w.nodes.length, phase := phase }
        ∨ a ≠ b ∧ w.attempts[b]? = some other := by
    intro b other hother
    rw [@getElem?_put { w with nodes := w.nodes ++ [node] } a attempt hget]
      at hother
    by_cases hab : a = b
    · rw [if_pos hab] at hother
      exact .inl ⟨hab, (Option.some.inj hother).symm⟩
    · rw [if_neg hab] at hother
      exact .inr ⟨hab, hother⟩
  refine ⟨?_, ?_, ?_, ?_⟩
  · intro b file other hother hfile
    rcases hcases b other hother with ⟨hab, heq⟩ | ⟨hab, hold⟩
    · subst heq
      have hlen : w.nodes.length = file := Option.some.inj hfile
      refine ⟨node, text, ?_, hnode⟩
      show (w.nodes ++ [node])[file]? = _
      rw [← hlen, List.getElem?_concat_length]
    · obtain ⟨n, t, hn, hcontent⟩ := hw.made b file other hold hfile
      refine ⟨n, t, ?_, hcontent⟩
      show (w.nodes ++ [node])[file]? = _
      rw [List.getElem?_append_left (hbefore b file other hold hfile)]
      exact hn
  · intro b b' file other other' hother hother' hfile hfile'
    rcases hcases b other hother with ⟨hab, heq⟩ | ⟨hab, hold⟩
    · rcases hcases b' other' hother' with ⟨hab', heq'⟩ | ⟨hab', hold'⟩
      · exact hab.symm.trans hab'
      · subst heq
        have hlen : w.nodes.length = file := Option.some.inj hfile
        have hlt := hbefore b' file other' hold' hfile'
        omega
    · rcases hcases b' other' hother' with ⟨hab', heq'⟩ | ⟨hab', hold'⟩
      · subst heq'
        have hlen : w.nodes.length = file := Option.some.inj hfile'
        have hlt := hbefore b file other hold hfile
        omega
      · exact hw.own b b' file other other' hold hold' hfile hfile'
  · intro t file hname
    have hput := @getElem?_put { w with nodes := w.nodes ++ [node] } a attempt
      hget (w.names.set (.candidate (token a attempt)) w.nodes.length)
      { attempt with file := some w.nodes.length, phase := phase }
    rw [World.put, JsMap.get_set] at hname
    by_cases ht : Name.candidate (token a attempt) = .candidate t
    · rw [if_pos ht] at hname
      have hlen := Option.some.inj hname
      have htok : token a attempt = t := by
        injection ht
      subst htok
      refine ⟨_, (hput a).trans (if_pos rfl), rfl, congrArg some hlen⟩
    · rw [if_neg ht] at hname
      obtain ⟨other, hother, htoken, hfile⟩ := hw.candidate t file hname
      have hab : a ≠ t.attempt := by
        intro hab
        rw [← hab, hget] at hother
        rw [← hab, ← Option.some.inj hother] at htoken
        exact ht (congrArg Name.candidate htoken.symm)
      exact ⟨other, (hput t.attempt).trans ((if_neg hab).trans hother), htoken,
        hfile⟩
  · intro b other hother hholds
    rcases hcases b other hother with ⟨hab, heq⟩ | ⟨hab, hold⟩
    · rw [heq] at hholds
      rw [hphase] at hholds
      cases hholds
    · exact hw.holder b other hold hholds

/-- A world as it is written to, while nobody comes to hold the lock. -/
structure Quiet (w w' : World) : Prop where
  wellFormed : WellFormed w'
  lock : w'.names.get .lock = w.names.get .lock
  holds : ∀ b file, w'.Holds b file → w.Holds b file

theorem Quiet.refl : Quiet w w :=
  ⟨hw, rfl, fun _ _ h => h⟩

theorem write_quiet (hget : w.attempts[a]? = some attempt)
    {ino : Nat} {now : Int} : Quiet w (w.write a attempt ino now reply) := by
  have hends : Quiet w (w.goto a attempt (.done .threw)) := by
    have heffect : Effect w a attempt reply (w.goto a attempt (.done .threw)) :=
      @Effect.goto w a attempt _ attempt.pinned _ nofun
    refine ⟨heffect.wellFormed hw hget, rfl, ?_⟩
    intro b file hb
    have hb := (holds_put hget).1 hb
    by_cases hab : a = b
    · rw [if_pos hab] at hb
      cases hb.1
    · rwa [if_neg hab] at hb
  unfold write
  cases reply with
  | failed => exact hends
  | lost eexist => exact hends
  | ok =>
    dsimp only
    by_cases huse : w.inUse ino = true
    · rw [if_pos huse]
      exact Quiet.refl hw
    · rw [if_neg huse]
      refine ⟨hw.written hget rfl rfl, ?_, ?_⟩
      · have hne : Name.candidate (token a attempt) ≠ .lock := nofun
        exact JsMap.get_set_ne _ _ hne
      · intro b file hb
        have hb := (@holds_put
          { w with nodes := w.nodes ++ [⟨ino, now,
            .file (ownerText attempt.pid)⟩] } a attempt hget _ _ b file).1 hb
        by_cases hab : a = b
        · rw [if_pos hab] at hb
          cases hb.1
        · rwa [if_neg hab] at hb

/-- The holder removes its lock. -/
theorem release_excludes (h : Excludes w)
    (hget : w.attempts[a]? = some attempt)
    (hphase : attempt.phase.holds = true) :
    WellFormed (w.put (w.names.delete .lock) a
        { attempt with phase := .released })
      ∧ Excludes (w.put (w.names.delete .lock) a
        { attempt with phase := .released }) := by
  refine ⟨hw.put hget ?_ nofun, ?_⟩
  · exact @Keeps.of_names w a attempt attempt.pinned _ _
      fun _ _ => candidate_of_delete
  · obtain ⟨file, hfile⟩ := hw.holder a attempt hget hphase
    apply Excludes.of_none
    intro b other hb
    rw [holds_put hget] at hb
    by_cases hab : a = b
    · rw [if_pos hab] at hb
      cases hb.1
    · rw [if_neg hab] at hb
      exact hab (h.one a b file other ((Holds.self hget).2 ⟨hphase, hfile⟩) hb)

/-- Neither a step of an attempt nor the release of the lock. -/
def outside : Event → Bool
  | .step _ _ => false
  | .release _ => false
  | _ => true

theorem step_quiet {event : Event}
    (hout : outside event = true) : Quiet w (w.step event) := by
  cases event with
  | start pid => exact ⟨⟨hw.made, hw.own, hw.candidate, hw.holder⟩, rfl,
      fun _ _ h => h⟩
  | crash pid => exact ⟨hw.crash pid, rfl, fun _ _ => holds_of_crash⟩
  | call pid =>
    unfold step
    dsimp only
    by_cases hrun : w.running.contains pid = true
    · rw [if_pos hrun]
      exact ⟨hw.call rfl rfl, rfl, fun _ _ => holds_of_call rfl⟩
    · rw [if_neg hrun]
      exact Quiet.refl hw
  | sweep a t now =>
    unfold step
    dsimp only
    split
    · split
      · refine ⟨hw.sweep t, ?_, fun _ _ h => h⟩
        have hne : Name.candidate t ≠ .lock := nofun
        rw [JsMap.get_delete, if_neg hne]
      · exact Quiet.refl hw
    · exact Quiet.refl hw
  | write a ino now reply =>
    unfold step
    dsimp only
    cases hget : w.attempts[a]? with
    | none => exact Quiet.refl hw
    | some attempt =>
      dsimp only
      split
      · exact write_quiet hw hget
      · exact write_quiet hw hget
      · exact Quiet.refl hw
  | step a reply => cases hout
  | release a => cases hout

theorem WellFormed.step (event : Event) : WellFormed (w.step event) := by
  cases event with
  | step a reply =>
    unfold World.step
    dsimp only
    cases hget : w.attempts[a]? with
    | none => exact hw
    | some attempt => exact (stepAttempt_effect hget).wellFormed hw hget
  | release a =>
    unfold World.step
    dsimp only
    cases hget : w.attempts[a]? with
    | none => exact hw
    | some attempt =>
      dsimp only
      split
      · have hkeeps : Keeps w a attempt (w.names.delete .lock)
            { attempt with phase := .released } :=
          @Keeps.of_names w a attempt attempt.pinned _ _
            fun _ _ => candidate_of_delete
        exact hw.put hget hkeeps nofun
      · exact hw
  | start pid =>
    exact (@step_quiet w hw (.start pid) rfl).wellFormed
  | crash pid =>
    exact (@step_quiet w hw (.crash pid) rfl).wellFormed
  | call pid =>
    exact (@step_quiet w hw (.call pid) rfl).wellFormed
  | sweep a t now =>
    exact (@step_quiet w hw (.sweep a t now) rfl).wellFormed
  | write a ino now reply =>
    exact (@step_quiet w hw (.write a ino now reply) rfl).wellFormed

/-- A step from a good world leads to a good one exactly if it fits. -/
theorem step_excludes_iff (h : Excludes w)
    (event : Event) : Excludes (w.step event) ↔ w.Fits event := by
  have hquiet : Quiet w (w.step event) → w.Fits event →
      (Excludes (w.step event) ↔ w.Fits event) := by
    intro hq hfits
    exact ⟨fun _ => hfits, fun _ => h.mono hq.wellFormed hq.lock hq.holds⟩
  cases event with
  | step a reply =>
    unfold step
    dsimp only
    cases hget : w.attempts[a]? with
    | none =>
      refine ⟨fun _ => ?_, fun _ => h⟩
      intro attempt hsome
      rw [hget] at hsome
      cases hsome
    | some attempt =>
      constructor
      · intro hstep other hother
        rw [hget] at hother
        rw [← Option.some.inj hother]
        exact StepFits.of_excludes hw hget hstep
      · intro hfits
        exact (stepAttempt_effect hget).excludes hw h hget
          (hfits attempt hget)
  | release a =>
    refine ⟨fun _ => trivial, fun _ => ?_⟩
    unfold step
    dsimp only
    cases hget : w.attempts[a]? with
    | none => exact h
    | some attempt =>
      dsimp only
      split
      · rename_i hphase
        exact (release_excludes hw h hget (by rw [hphase]; rfl)).2
      · exact h
  | start pid => exact hquiet (step_quiet hw rfl) trivial
  | crash pid => exact hquiet (step_quiet hw rfl) trivial
  | call pid => exact hquiet (step_quiet hw rfl) trivial
  | sweep a t now => exact hquiet (step_quiet hw rfl) trivial
  | write a ino now reply => exact hquiet (step_quiet hw rfl) trivial

end

-- ======== the run

theorem found_attempts : (found lock running).attempts = [] := by
  cases lock with
  | none => rfl
  | some node => rfl

theorem found_candidate (t : Token) :
    (found lock running).names.get (.candidate t) = none := by
  cases lock with
  | none => rfl
  | some node =>
    show JsMap.get [(Name.lock, 0)] (.candidate t) = none
    have hne : Name.lock ≠ .candidate t := nofun
    rw [JsMap.get_cons, if_neg hne, JsMap.get_nil]

theorem found_wellFormed : WellFormed (found lock running) := by
  have hnone : ∀ b : Nat, (found lock running).attempts[b]? = none := by
    intro b
    rw [found_attempts]
    exact List.getElem?_nil
  refine ⟨?_, ?_, ?_, ?_⟩
  · intro b file other hother
    rw [hnone b] at hother
    cases hother
  · intro b b' file other other' hother
    rw [hnone b] at hother
    cases hother
  · intro t file h
    rw [found_candidate] at h
    cases h
  · intro b other hother
    rw [hnone b] at hother
    cases hother

theorem found_excludes : Excludes (found lock running) := by
  apply Excludes.of_none
  rintro b file ⟨attempt, hget, -⟩
  rw [found_attempts, List.getElem?_nil] at hget
  cases hget

/-- A run excludes all along exactly if every reclaim finds no holder's
file at the path, and every recheck finds there the file that it accepts. -/
theorem excludes_along_iff (lock : Option Node) (running : List Nat)
    (events : List Event) :
    Run.Along step Excludes (found lock running) events
      ↔ Run.Guarded step Fits (found lock running) events :=
  @Run.along_iff_guarded World Event step Excludes Fits WellFormed
    (fun _ event hw => WellFormed.step hw event)
    (fun _ event hw h => step_excludes_iff hw h event)
    (found lock running) (found_wellFormed lock running)
    (found_excludes lock running) events

/-- Three processes and the lock of a fourth, which is dead. The first
judges that lock and is slow to rename it; the second reclaims it and
acquires the lock; the first moves that one aside; the third acquires the
lock; the first cannot put the other one back. -/
def slowReclaimer : List Event :=
  [.call 1, .call 2, .write 0 11 0 .ok] ++ List.replicate 6 (.step 0 .ok)
    ++ [.write 1 12 0 .ok] ++ List.replicate 10 (.step 1 .ok)
    ++ [.call 2, .write 2 13 0 .ok, .step 2 .ok, .step 2 .ok, .step 0 .ok]
    ++ [.call 3, .write 3 14 0 .ok, .step 3 .ok, .step 3 .ok]
    ++ List.replicate 3 (.step 0 .ok)

/-- The lock of a process that is not running. -/
def deadLock : Node := ⟨7, 0, .file (ownerText 9)⟩

/-- The second and the third hold the lock for good, and the file of the
second is not at the path. -/
theorem slowReclaimer_not_excludes :
    let w := slowReclaimer.foldl step (found (some deadLock) [1, 2, 3])
    ¬ Run.Along step Excludes (found (some deadLock) [1, 2, 3]) slowReclaimer
      ∧ w.attempts.map Attempt.phase =
        [.done (.returned .held), .done (.returned .reclaimed),
          .done (.returned .acquired), .done (.returned .acquired)]
      ∧ w.attempts.map Attempt.pid = [1, 2, 2, 3]
      ∧ w.attempts.map Attempt.file = [some 1, some 2, some 3, some 4]
      ∧ w.running = [1, 2, 3]
      ∧ w.names.get .lock = some 4
      ∧ w.names.get (.stale ⟨0, false⟩) = some 3 := by
  intro w
  have hphases : w.attempts.map Attempt.phase =
      [.done (.returned .held), .done (.returned .reclaimed),
        .done (.returned .acquired), .done (.returned .acquired)] := by
    decide +kernel
  have hfiles : w.attempts.map Attempt.file
      = [some 1, some 2, some 3, some 4] := by
    decide +kernel
  have hholds : ∀ a file, (w.attempts.map Attempt.phase)[a]?
        = some (.done (.returned .acquired)) →
      (w.attempts.map Attempt.file)[a]? = some (some file) →
        w.Holds a file := by
    intro a file hphase hfile
    rw [List.getElem?_map, Option.map_eq_some_iff] at hphase hfile
    obtain ⟨attempt, hget, hphase⟩ := hphase
    obtain ⟨attempt', hget', hfile⟩ := hfile
    have heq := Option.some.inj (hget.symm.trans hget')
    refine ⟨attempt, hget, ?_, heq ▸ hfile⟩
    rw [hphase]
    rfl
  refine ⟨?_, hphases, by decide +kernel, hfiles, by decide +kernel,
    by decide +kernel, by decide +kernel⟩
  intro halong
  have h2 := hholds 2 3 (by rw [hphases]; rfl) (by rw [hfiles]; rfl)
  have h3 := hholds 3 4 (by rw [hphases]; rfl) (by rw [hfiles]; rfl)
  have heq := halong.last.one 2 3 3 4 h2 h3
  cases heq

end World
end OneHarness.Utils.DirLock
