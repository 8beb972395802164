/-
A session has one live owner, and is never locked out.

The lease directory is only ever renamed into place whole, so what is found
there is an owner (`World.Inv`), and its process either runs with the lease
unreleased in its memory, or does not run any more. The first kind refuses
the next acquisition; the second kind is renamed away by it, and so is seen
no more than once in its three attempts.
-/
import OneHarness.Session.Lease
import OneHarness.Lib.Run

namespace OneHarness.Session.Lease

open Lib Steps

variable {disk s t t' : Disk} {name n : DirectoryName} {file : OwnerFile}
  {owner : SessionLeaseOwner} {m : Machine} {pid : Nat}
  {P P' : Option OwnerFile → Prop}

-- ======== the directories

theorem get_put :
    (disk.put name file).get n = if name = n then some file else disk.get n :=
  JsMap.get_set ..

theorem get_drop :
    (disk.drop name).get n = if name = n then none else disk.get n :=
  JsMap.get_delete ..

/-- The number in the name was drawn. -/
def DirectoryName.Drawn (drawn : Nat) : DirectoryName → Prop
  | .lease => True
  | .candidate _ token => token < drawn
  | .stale _ uuid => uuid < drawn

theorem DirectoryName.Drawn.mono {k l : Nat} (hkl : k ≤ l)
    (h : name.Drawn k) : name.Drawn l := by
  cases name with
  | lease => exact trivial
  | candidate pid token => exact Nat.lt_of_lt_of_le h hkl
  | stale pid uuid => exact Nat.lt_of_lt_of_le h hkl

theorem candidate_ne_lease {token : Nat} :
    DirectoryName.candidate pid token ≠ .lease := nofun

theorem stale_ne_lease {uuid : Nat} :
    DirectoryName.stale pid uuid ≠ .lease := nofun

/-- What a section leaves behind: the lease is as `P` says, and only names
that were drawn lead anywhere. -/
structure Leaves (P : Option OwnerFile → Prop) (s t : Disk) : Prop where
  lease : P (t.get .lease)
  names : ∀ name file, t.get name = some file → name.Drawn t.drawn
  drawn : s.drawn ≤ t.drawn

namespace Leaves

section
variable (h : Leaves P s t)
include h

theorem mono (hP : P (t.get .lease) → P' (t.get .lease)) : Leaves P' s t :=
  ⟨hP h.lease, h.names, h.drawn⟩

theorem fresh (name : DirectoryName) (hname : ¬ name.Drawn t.drawn) :
    t.get name = none := by
  cases hget : t.get name with
  | none => rfl
  | some file => exact absurd (h.names name file hget) hname

theorem draw : Leaves P s { t with drawn := t.drawn + 1 } := by
  refine ⟨h.lease, ?_, Nat.le_succ_of_le h.drawn⟩
  intro name file hget
  exact (h.names name file hget).mono (Nat.le_succ _)

theorem put (hdrawn : name.Drawn t.drawn)
    (hP : P ((t.put name file).get .lease)) :
    Leaves P s (t.put name file) := by
  refine ⟨hP, ?_, h.drawn⟩
  intro n file' hget
  rw [get_put] at hget
  by_cases hn : name = n
  · subst hn
    exact hdrawn
  · rw [if_neg hn] at hget
    exact h.names n file' hget

theorem drop (hP : P ((t.drop name).get .lease)) :
    Leaves P s (t.drop name) := by
  refine ⟨hP, ?_, h.drawn⟩
  intro n file' hget
  rw [get_drop] at hget
  by_cases hn : name = n
  · rw [if_pos hn] at hget
    cases hget
  · rw [if_neg hn] at hget
    exact h.names n file' hget

theorem put_beside (hname : name ≠ .lease)
    (hdrawn : name.Drawn t.drawn) : Leaves P s (t.put name file) := by
  apply h.put hdrawn
  rw [get_put, if_neg hname]
  exact h.lease

theorem drop_beside (hname : name ≠ .lease) : Leaves P s (t.drop name) := by
  apply h.drop
  rw [get_drop, if_neg hname]
  exact h.lease

end

end Leaves

-- ======== beside the lease

variable {R : LeaseError → Disk → Prop}

theorem randomUUID_holds {I : Disk → Prop} (hI : I t) :
    Holds I randomUUID t
      (fun uuid t' => uuid = t.drawn ∧ t' = { t with drawn := t.drawn + 1 })
      R := by
  apply Holds.bind
  apply Holds.read
  apply Holds.bind
  apply Holds.step hI
  exact Holds.pure ⟨rfl, rfl⟩

section
variable (h : Leaves P s t) (hname : name ≠ .lease)
include h hname

theorem rmSync_holds (hdrawn : name.Drawn t.drawn) :
    Holds (Leaves P s) (rmSync name) t
      (fun _ t' => Leaves P s t' ∧ t'.get .lease = t.get .lease) R := by
  apply Holds.bind
  apply Holds.step h
  by_cases hfound : (t.get name).isSome
  · rw [if_pos hfound]
    have h' : Leaves P s (t.put name .absent) := h.put_beside hname hdrawn
    apply Holds.step h'
    refine ⟨h'.drop_beside hname, ?_⟩
    rw [get_drop, if_neg hname, get_put, if_neg hname]
  · rw [if_neg hfound]
    apply Holds.step h
    refine ⟨h.drop_beside hname, ?_⟩
    rw [get_drop, if_neg hname]

theorem mkdirSync_holds (hdrawn : name.Drawn t.drawn)
    (hnone : t.get name = none) :
    Holds (Leaves P s) (mkdirSync name) t
      (fun _ t' => Leaves P s t' ∧ t' = t.put name .absent) R := by
  apply Holds.bind
  apply Holds.read
  rw [hnone]
  exact Holds.step h ⟨h.put_beside hname hdrawn, rfl⟩

theorem writeOwner_holds (hdrawn : name.Drawn t.drawn) :
    Holds (Leaves P s) (writeOwner name owner) t
      (fun _ t' => Leaves P s t' ∧ t'.get name = some (.owner owner)
        ∧ t'.get .lease = t.get .lease ∧ t'.drawn = t.drawn) R := by
  apply Holds.bind
  apply Holds.step h
  have h' : Leaves P s
      (t.put name (.corrupt "Unexpected end of JSON input")) :=
    h.put_beside hname hdrawn
  apply Holds.step h'
  refine ⟨h'.put_beside hname hdrawn, ?_, ?_, rfl⟩
  · rw [get_put, if_pos rfl]
  · rw [get_put, if_neg hname, get_put, if_neg hname]

end

-- ======== the judgement

theorem readLeaseOwner_holds {I : Disk → Prop}
    (hget : t.get .lease = some (.owner owner)) :
    Holds I (readLeaseOwner m) t
      (fun found t' => found = .owner owner ∧ t' = t) R := by
  apply Holds.bind
  apply Holds.read
  rw [hget]
  exact Holds.pure ⟨rfl, rfl⟩

/-- The lease is as before, or not there. -/
def KeptOrGone (before lease : Option OwnerFile) : Prop :=
  lease = before ∨ lease = none

/-- Whatever is in the place of the lease is renamed away. -/
theorem reclaimStaleLease_holds
    (hP : P none) (h : Leaves P s t) (hget : t.get .lease = some file) :
    Holds (Leaves P s) (reclaimStaleLease m pid) t
      (fun reclaimed t' => reclaimed = true ∧ Leaves P s t'
        ∧ t'.get .lease = none) R := by
  apply Holds.bind
  apply (randomUUID_holds h).mono
  · rintro uuid t' ⟨rfl, rfl⟩
    have h₁ := h.draw
    have hnone : Disk.get { t with drawn := t.drawn + 1 }
        (.stale pid t.drawn) = none :=
      h.fresh (.stale pid t.drawn) (Nat.lt_irrefl _)
    have hdrawn : DirectoryName.Drawn (t.drawn + 1) (.stale pid t.drawn) :=
      Nat.lt_succ_self _
    apply Holds.bind
    apply Holds.attempt
    apply Holds.bind
    apply Holds.read
    have hget₁ : Disk.get { t with drawn := t.drawn + 1 } .lease
        = some file := hget
    rw [hget₁, hnone]
    have hgone : ((Disk.drop { t with drawn := t.drawn + 1 } .lease).put
        (.stale pid t.drawn) file).get .lease = none := by
      rw [get_put, if_neg stale_ne_lease, get_drop, if_pos rfl]
    apply Holds.step h₁
    have h₂ : Leaves P s
        (Disk.drop { t with drawn := t.drawn + 1 } .lease) := by
      apply h₁.drop
      rw [get_drop, if_pos rfl]
      exact hP
    apply Holds.bind
    have h₃ : Leaves P s ((Disk.drop { t with drawn := t.drawn + 1 }
        .lease).put (.stale pid t.drawn) file) :=
      h₂.put_beside stale_ne_lease hdrawn
    apply (rmSync_holds h₃ stale_ne_lease hdrawn).mono
    · rintro _ t' ⟨h', hlease⟩
      exact Holds.pure ⟨rfl, h', hlease.trans hgone⟩
    · exact fun _ _ hR => hR
  · exact fun _ _ hR => hR

-- ======== the acquisition

/-- Nothing in the place of the lease, or an owner that is not alive. -/
def Free (m : Machine) (lease : Option OwnerFile) : Prop :=
  ∀ file, lease = some file →
    ∃ owner, file = .owner owner ∧ isLeaseOwnerAlive m owner = false

/-- What an acquisition leaves in the place of the lease: what was there,
or, if that was free, nothing or its own owner. -/
def Taking (m : Machine) (pid : Nat) (s : Disk) (lease : Option OwnerFile) :
    Prop :=
  lease = s.get .lease ∨ Free m (s.get .lease) ∧
    (lease = none ∨ ∃ owner, lease = some (.owner owner) ∧ owner.pid = pid
      ∧ owner.processStartId = getProcessStartId m pid)

/-- The lease is in place with its owner, which is new. -/
structure Taken (m : Machine) (environment : Environment) (pid : Nat)
    (sessionPath : String) (s : Disk) (lease : SessionLease) (t : Disk) :
    Prop where
  leaves : Leaves (Taking m pid s) s t
  free : Free m (s.get .lease)
  returned : lease = ⟨sessionPath, lease.token, false⟩
  place : t.get .lease
    = some (.owner (newOwner m environment pid sessionPath lease.token))
  new : s.drawn ≤ lease.token
  drawn : lease.token < t.drawn

variable {environment : Environment} {sessionPath : String} {left : Nat}

theorem makeCandidate_holds (h : Leaves P s t) :
    Holds (Leaves P s) (makeCandidate m environment pid sessionPath) t
      (fun token u => Leaves P s u
        ∧ u.get (.candidate pid token)
          = some (.owner (newOwner m environment pid sessionPath token))
        ∧ u.get .lease = t.get .lease ∧ s.drawn ≤ token ∧ token < u.drawn)
      R := by
  apply Holds.bind
  apply (randomUUID_holds h).mono
  · rintro token t' ⟨rfl, rfl⟩
    have h₁ := h.draw
    have hnone : Disk.get { t with drawn := t.drawn + 1 }
        (.candidate pid t.drawn) = none :=
      h.fresh (.candidate pid t.drawn) (Nat.lt_irrefl _)
    have hdrawn : DirectoryName.Drawn (t.drawn + 1)
        (.candidate pid t.drawn) := Nat.lt_succ_self _
    apply Holds.bind
    apply (mkdirSync_holds h₁ candidate_ne_lease hdrawn hnone).mono
    · rintro _ t' ⟨h₂, rfl⟩
      apply Holds.bind
      apply (writeOwner_holds h₂ candidate_ne_lease hdrawn).mono
      · rintro _ u ⟨h₃, hcandidate, hlease, hsame⟩
        apply Holds.pure
        refine ⟨h₃, hcandidate, ?_, h.drawn, ?_⟩
        · rw [hlease, get_put, if_neg candidate_ne_lease]
          rfl
        · rw [hsame]
          exact Nat.lt_succ_self _
      · exact fun _ _ hR => hR
    · exact fun _ _ hR => hR
  · exact fun _ _ hR => hR

/-- With nothing in its place the lease is taken in one attempt. -/
theorem acquireAttempts_none (h : Leaves (Taking m pid s) s t)
    (hfree : Free m (s.get .lease)) (hnone : t.get .lease = none) :
    Holds (Leaves (Taking m pid s) s)
      (acquireAttempts m environment pid sessionPath (left + 1)) t
      (Taken m environment pid sessionPath s) (fun _ _ => False) := by
  apply Holds.bind
  apply (makeCandidate_holds h).mono
  · rintro token u ⟨hu, hcandidate, hlease, hnew, hdrawn⟩
    apply Holds.bind
    apply Holds.attempt
    apply Holds.bind
    apply Holds.read
    rw [hcandidate, hlease, hnone]
    apply Holds.step hu
    apply Holds.pure
    have hplace : ((u.drop (.candidate pid token)).put .lease
        (.owner (newOwner m environment pid sessionPath token))).get .lease
          = some (.owner (newOwner m environment pid sessionPath token)) := by
      rw [get_put, if_pos rfl]
    have htaking : Taking m pid s
        (((u.drop (.candidate pid token)).put .lease
          (.owner (newOwner m environment pid sessionPath token))).get
            .lease) :=
      .inr ⟨hfree, .inr ⟨_, hplace, rfl, rfl⟩⟩
    exact ⟨(hu.drop_beside candidate_ne_lease).put trivial htaking, hfree, rfl,
      hplace, hnew, hdrawn⟩
  · exact fun _ _ hfalse => hfalse

/-- With an owner in its place, the candidate is removed again. -/
theorem acquireAttempts_owner {Q : SessionLease → Disk → Prop}
    (h : Leaves P s t)
    (hget : t.get .lease = some (.owner owner))
    (hlive : ∀ u, Leaves P s u → u.get .lease = some (.owner owner) →
      isLeaseOwnerAlive m owner = true → R (alreadyActive sessionPath owner) u)
    (hdead : P none → isLeaseOwnerAlive m owner = false →
      ∀ u, Leaves P s u → u.get .lease = none →
        Holds (Leaves P s) (acquireAttempts m environment pid sessionPath left)
          u Q R)
    (hP : isLeaseOwnerAlive m owner = false → P none) :
    Holds (Leaves P s)
      (acquireAttempts m environment pid sessionPath (left + 1)) t Q R := by
  apply Holds.bind
  apply (makeCandidate_holds h).mono
  · rintro token u ⟨hu, hcandidate, hlease, -, hdrawn⟩
    rw [hget] at hlease
    -- the rename is refused, with an error that counts as contention
    have hfailed : ∀ error : LeaseError, error ≠ .ENOENT →
        (∀ disk : Disk, (disk.get .lease).isSome → isContention disk error) →
        Holds (Leaves P s) (renameFailed m pid sessionPath
          (.candidate pid token)
          (acquireAttempts m environment pid sessionPath left) error) u Q
          R := by
      intro error hne hcontention
      apply Holds.bind
      apply (rmSync_holds hu candidate_ne_lease hdrawn).mono
      · rintro _ u' ⟨hu', hlease'⟩
        rw [hlease] at hlease'
        apply Holds.bind
        apply Holds.read
        rw [if_neg hne, if_pos (hcontention u' (by rw [hlease']; rfl))]
        apply Holds.bind
        apply (readLeaseOwner_holds hlease').mono
        · rintro found u'' ⟨rfl, rfl⟩
          dsimp only
          cases halive : isLeaseOwnerAlive m owner with
          | true =>
            rw [LeaseOwner.live, if_pos halive]
            exact Holds.throw (hlive _ hu' hlease' halive)
          | false =>
            rw [LeaseOwner.live, halive, if_neg Bool.false_ne_true]
            apply Holds.bind
            apply (reclaimStaleLease_holds (hP halive) hu' hlease').mono
            · rintro reclaimed v ⟨rfl, hv, hnone⟩
              exact hdead (hP halive) halive v hv hnone
            · exact fun _ _ hR => hR
        · exact fun _ _ hR => hR
      · exact fun _ _ hR => hR
    apply Holds.bind
    apply Holds.attempt
    apply Holds.bind
    apply Holds.read
    rw [hcandidate, hlease]
    dsimp only
    split
    · exact Holds.throw (hfailed _ nofun fun _ hsome => hsome)
    · rw [if_neg nofun]
      exact Holds.throw (hfailed _ nofun fun _ _ => rfl)
  · exact fun _ _ hR => hR

/-- The owner in the place of the lease, and whether it is alive, if
anything is there. -/
def Judged (m : Machine) (alive : Bool) (lease : Option OwnerFile) : Prop :=
  ∃ owner, lease = some (.owner owner) ∧ isLeaseOwnerAlive m owner = alive

/-- The three attempts: the lease is taken if its place was free, and
refused for the owner that is alive otherwise. -/
theorem acquireAttempts_holds
    (hnames : ∀ name file, s.get name = some file → name.Drawn s.drawn)
    (hplace : Free m (s.get .lease) ∨ Judged m true (s.get .lease)) :
    Holds (Leaves (Taking m pid s) s)
      (acquireAttempts m environment pid sessionPath 3) s
      (Taken m environment pid sessionPath s)
      (fun _ t => Judged m true (s.get .lease)
        ∧ Leaves (· = s.get .lease) s t) := by
  rcases hplace with hfree | ⟨owner, hget, halive⟩
  · have hstart : Leaves (Taking m pid s) s s :=
      ⟨.inl rfl, hnames, Nat.le_refl _⟩
    cases hget : s.get .lease with
    | none =>
      apply (acquireAttempts_none hstart hfree hget).mono
      · exact fun _ _ h => h
      · exact fun _ _ hfalse => hfalse.elim
    | some file =>
      obtain ⟨owner, rfl, hdead⟩ := hfree file hget
      apply acquireAttempts_owner hstart hget
      · intro u _ _ halive
        cases hdead.symm.trans halive
      · intro _ _ u hu hnone
        apply (acquireAttempts_none hu hfree hnone).mono
        · exact fun _ _ h => h
        · exact fun _ _ hfalse => hfalse.elim
      · exact fun _ => .inr ⟨hfree, .inl rfl⟩
  · -- nothing but the place beside the lease changes
    have hstart : Leaves (· = s.get .lease) s s :=
      ⟨rfl, hnames, Nat.le_refl _⟩
    have hrefused : Holds (Leaves (· = s.get .lease) s)
        (acquireAttempts m environment pid sessionPath 3) s
        (Taken m environment pid sessionPath s)
        (fun _ t => Judged m true (s.get .lease)
          ∧ Leaves (· = s.get .lease) s t) := by
      apply acquireAttempts_owner hstart hget
      · exact fun u hu _ _ => ⟨⟨owner, hget, halive⟩, hu⟩
      · intro _ hdead
        cases halive.symm.trans hdead
      · intro hdead
        cases halive.symm.trans hdead
    exact hrefused.weaken fun t ht => ht.mono .inl

/-- An acquisition with leases enabled, of a path. -/
theorem acquireSessionLease_holds (pid : Nat)
    (henabled : leasesEnabled environment = true) (hpath : sessionPath ≠ "")
    (hnames : ∀ name file, s.get name = some file → name.Drawn s.drawn)
    (hplace : Free m (s.get .lease) ∨ Judged m true (s.get .lease)) :
    Holds (Leaves (Taking m pid s) s)
      (acquireSessionLease m environment pid (some sessionPath)) s
      (fun lease? t => ∃ lease, lease? = some lease
        ∧ Taken m environment pid sessionPath s lease t)
      (fun _ t => Judged m true (s.get .lease)
        ∧ Leaves (· = s.get .lease) s t) := by
  have hfilter : (some sessionPath).filter (· ≠ "") = some sessionPath := by
    rw [Option.filter_some, if_pos (decide_eq_true hpath)]
  unfold acquireSessionLease
  rw [hfilter]
  dsimp only
  rw [if_pos henabled]
  apply Holds.bind
  apply (acquireAttempts_holds hnames hplace).mono
  · exact fun lease t ht => Holds.pure ⟨lease, rfl, ht⟩
  · exact fun _ _ h => h

/-- Without a path or with leases disabled nothing is acquired. -/
theorem acquireSessionLease_disabled
    (h : ¬(leasesEnabled environment = true ∧ sessionPath ≠ "")) :
    acquireSessionLease m environment pid (some sessionPath) = pure none := by
  unfold acquireSessionLease
  rw [Option.filter_some]
  by_cases hpath : sessionPath = ""
  · rw [if_neg (by simpa using hpath)]
  · rw [if_pos (decide_eq_true hpath)]
    dsimp only
    rw [if_neg fun henabled => h ⟨henabled, hpath⟩]

-- ======== the release

namespace SessionLease

variable {lease : SessionLease}

theorem releaseGuarded_holds (hP : P none) (h : Leaves P s t)
    (hget : t.get .lease = some (.owner owner)) :
    Holds (Leaves P s) (lease.releaseGuarded m pid) t
      (fun _ u => Leaves P s u
        ∧ (owner.token = lease.token → u.get .lease = none)
        ∧ (owner.token ≠ lease.token → u = t)) R := by
  apply Holds.bind
  apply (readLeaseOwner_holds hget).mono
  · rintro found t' ⟨rfl, rfl⟩
    dsimp only
    by_cases htoken : owner.token = lease.token
    · rw [if_pos htoken]
      apply Holds.bind
      apply (reclaimStaleLease_holds hP h hget).mono
      · rintro _ u ⟨-, hu, hnone⟩
        exact Holds.pure ⟨hu, fun _ => hnone, fun hne => absurd htoken hne⟩
      · exact fun _ _ hR => hR
    · rw [if_neg htoken]
      exact Holds.pure ⟨h, fun heq => absurd heq htoken, fun _ => rfl⟩
  · exact fun _ _ hR => hR

/-- The own owner is removed. -/
theorem release_own (m : Machine) (pid : Nat)
    (hreleased : lease.released = false)
    (hnames : ∀ name file, s.get name = some file → name.Drawn s.drawn)
    (hget : s.get .lease = some (.owner owner))
    (htoken : owner.token = lease.token) :
    Holds (Leaves (KeptOrGone (s.get .lease)) s) (lease.release m pid) s
      (fun lease' t => lease' = { lease with released := true }
        ∧ Leaves (KeptOrGone (s.get .lease)) s t ∧ t.get .lease = none)
      (fun _ _ => False) := by
  unfold release
  rw [hreleased, if_neg Bool.false_ne_true]
  apply Holds.bind
  apply Holds.attempt
  apply (releaseGuarded_holds (R := fun _ _ => False) (.inr rfl)
    ⟨.inl rfl, hnames, Nat.le_refl _⟩ hget).mono
  · rintro _ t ⟨ht, hnone, -⟩
    exact Holds.pure ⟨rfl, ht, hnone htoken⟩
  · exact fun _ _ hfalse => hfalse.elim

end SessionLease

-- ======== the invariant

namespace Held

/-- The lease is not released. -/
def Unreleased (h : Held) : Prop := h.lease.released = false

end Held

variable {processStartId : String} {h : Held} {i : Nat}

namespace World

variable {win32 : Bool} {directory : String} {w : World}

/-- The owner is that of an unreleased lease of a running process. -/
structure Backed (w : World) (h : Held) (owner : SessionLeaseOwner) : Prop where
  running : w.running.get h.pid = owner.processStartId
  pid : owner.pid = h.pid
  token : owner.token = h.lease.token

structure Inv (w : World) : Prop where
  names : ∀ name file, w.disk.get name = some file → name.Drawn w.disk.drawn
  identities : ∀ pid processStartId,
    w.running.get pid = some processStartId →
      (pid, processStartId) ∈ w.started ∧ processStartId ≠ ""
  /-- A lease directory is whole, and was published by a process that had
  started; if it runs, an unreleased lease of it is behind it. -/
  lease : ∀ file, w.disk.get .lease = some file →
    ∃ owner processStartId, file = .owner owner
      ∧ owner.processStartId = some processStartId ∧ processStartId ≠ ""
      ∧ (owner.pid, processStartId) ∈ w.started
      ∧ (w.running.get owner.pid = some processStartId →
        ∃ h ∈ w.held, h.Unreleased ∧ w.Backed h owner)
  /-- An unreleased lease has its owner in place. -/
  held : ∀ h ∈ w.held, h.Unreleased →
    ∃ owner, w.disk.get .lease = some (.owner owner) ∧ w.Backed h owner
  tokens : ∀ h ∈ w.held, h.lease.token < w.disk.drawn
  distinct : (w.held.map fun h => h.lease.token).Nodup

theorem alive_of_running (hid : owner.processStartId = some processStartId)
    (h : w.running.get owner.pid = some processStartId) :
    isLeaseOwnerAlive (w.machine win32 directory) owner = true := by
  have hhas : isProcessAlive (w.machine win32 directory) owner.pid = true := by
    show (w.running.get owner.pid).isSome = true
    rw [h]
    rfl
  have hstart : getProcessStartId (w.machine win32 directory) owner.pid
      = some processStartId := h
  rw [isLeaseOwnerAlive, hhas, Bool.true_and, hid]
  cases hfilter : (some processStartId).filter (· ≠ "") with
  | none => rfl
  | some startId =>
    rw [Option.filter_some] at hfilter
    split at hfilter
    · rw [← Option.some.inj hfilter, hstart]
      exact beq_self_eq_true _
    · cases hfilter

/-- What is in the place of the lease is free, or of a live owner that an
unreleased lease is behind. -/
theorem Inv.judged (hw : w.Inv) (win32 : Bool) (directory : String) :
    Free (w.machine win32 directory) (w.disk.get .lease)
      ∨ Judged (w.machine win32 directory) true (w.disk.get .lease) := by
  cases hget : w.disk.get .lease with
  | none => exact .inl nofun
  | some file =>
    obtain ⟨owner, processStartId, rfl, hid, hne, -, -⟩ :=
      hw.lease file hget
    cases halive : isLeaseOwnerAlive (w.machine win32 directory) owner with
    | true => exact .inr ⟨owner, rfl, halive⟩
    | false =>
      left
      intro file hfile
      exact ⟨owner, (Option.some.inj hfile).symm, halive⟩

theorem Inv.unheld_of_free (hw : w.Inv)
    (hfree : Free (w.machine win32 directory) (w.disk.get .lease))
    (hmem : h ∈ w.held) : ¬ h.Unreleased := by
  intro hunreleased
  obtain ⟨owner, hget, hb⟩ := hw.held h hmem hunreleased
  obtain ⟨owner', hfile, hdead⟩ := hfree _ hget
  cases hfile
  obtain ⟨owner', processStartId, hfile, hid, -⟩ := hw.lease _ hget
  cases hfile
  have hrunning : w.running.get owner.pid = some processStartId := by
    rw [hb.pid, hb.running, hid]
  cases hdead.symm.trans (alive_of_running hid hrunning)

/-- One token is in place, so one unreleased lease is held. -/
theorem Inv.unique (hw : w.Inv) {j : Nat} {h' : Held}
    (hi : w.held[i]? = some h) (hj : w.held[j]? = some h')
    (hunreleased : h.Unreleased) (hunreleased' : h'.Unreleased) : i = j := by
  obtain ⟨owner, hget, hb⟩ := hw.held h (List.mem_of_getElem? hi) hunreleased
  obtain ⟨owner', hget', hb'⟩ :=
    hw.held h' (List.mem_of_getElem? hj) hunreleased'
  rw [hget] at hget'
  cases hget'
  have htokens : h.lease.token = h'.lease.token :=
    hb.token.symm.trans hb'.token
  apply (List.getElem?_inj (i := i) (j := j) _ hw.distinct).1
  · rw [List.getElem?_map, List.getElem?_map, hi, hj]
    exact congrArg some htokens
  · rw [List.length_map]
    exact (List.getElem?_eq_some_iff.1 hi).1

-- ======== the steps

section
variable (hw : w.Inv)
include hw

/-- A process crashed within a section: an owner it left in the place of the
lease is its own, and what others hold is where it was. -/
theorem Inv.crashed {t : Disk} {pid : Nat}
    (ht : Leaves P w.disk t)
    (hlease : ∀ file, t.get .lease = some file →
      w.disk.get .lease = some file ∨
      ∃ owner processStartId, file = .owner owner ∧ owner.pid = pid
        ∧ owner.processStartId = some processStartId ∧ processStartId ≠ ""
        ∧ (pid, processStartId) ∈ w.started)
    (hheld : ∀ h ∈ w.held, h.Unreleased → h.pid ≠ pid →
      t.get .lease = w.disk.get .lease) :
    ({ w with disk := t }.crash pid).Inv := by
  have hrunning : ∀ p id, (w.running.delete pid).get p = some id →
      p ≠ pid ∧ w.running.get p = some id := by
    intro p id hget
    rw [JsMap.get_delete] at hget
    by_cases hp : pid = p
    · rw [if_pos hp] at hget
      cases hget
    · rw [if_neg hp] at hget
      exact ⟨Ne.symm hp, hget⟩
  have hother : ∀ p, p ≠ pid →
      (w.running.delete pid).get p = w.running.get p := by
    intro p hp
    rw [JsMap.get_delete, if_neg hp.symm]
  refine ⟨ht.names, ?_, ?_, ?_, ?_, ?_⟩
  · intro p id hget
    exact hw.identities p id (hrunning p id hget).2
  · intro file hget
    rcases hlease file hget with hfile | hown
    · obtain ⟨owner, processStartId, rfl, hid, hne, hstarted, hlive⟩ :=
        hw.lease file hfile
      refine ⟨owner, processStartId, rfl, hid, hne, hstarted, ?_⟩
      intro hget'
      obtain ⟨hp, hget''⟩ := hrunning _ _ hget'
      obtain ⟨h, hmem, hunreleased, hb⟩ := hlive hget''
      have hpid : h.pid ≠ pid := by
        rw [← hb.pid]
        exact hp
      refine ⟨h, List.mem_filter.2 ⟨hmem, decide_eq_true hpid⟩, hunreleased, ?_⟩
      exact ⟨(hother _ hpid).trans hb.running, hb.pid, hb.token⟩
    · obtain ⟨owner, processStartId, rfl, rfl, hid, hne, hstarted⟩ := hown
      refine ⟨owner, processStartId, rfl, hid, hne, hstarted, ?_⟩
      intro hget'
      exact absurd rfl (hrunning _ _ hget').1
  · intro h hmem hunreleased
    obtain ⟨hmem, hpid⟩ := List.mem_filter.1 hmem
    have hpid := of_decide_eq_true hpid
    obtain ⟨owner, hfile, hb⟩ := hw.held h hmem hunreleased
    exact ⟨owner, (hheld h hmem hunreleased hpid).trans hfile,
      (hother _ hpid).trans hb.running, hb.pid, hb.token⟩
  · intro h hmem
    exact Nat.lt_of_lt_of_le (hw.tokens h (List.mem_filter.1 hmem).1) ht.drawn
  · exact hw.distinct.sublist (List.filter_sublist.map _)

theorem Inv.crash (pid : Nat) : (w.crash pid).Inv :=
  hw.crashed (P := fun _ => True) ⟨trivial, hw.names, Nat.le_refl _⟩
    (fun _ => .inl) (fun _ _ _ _ => rfl)

/-- Nothing of the lease changed. -/
theorem Inv.beside {t : Disk} (ht : Leaves (· = w.disk.get .lease) w.disk t) :
    { w with disk := t }.Inv := by
  refine ⟨ht.names, hw.identities, ?_, ?_, ?_, hw.distinct⟩
  · intro file hget
    rw [ht.lease] at hget
    obtain ⟨owner, processStartId, rfl, hid, hne, hstarted, hlive⟩ :=
      hw.lease file hget
    refine ⟨owner, processStartId, rfl, hid, hne, hstarted, ?_⟩
    intro hrunning
    obtain ⟨h, hmem, hunreleased, hb⟩ := hlive hrunning
    exact ⟨h, hmem, hunreleased, hb.running, hb.pid, hb.token⟩
  · intro h hmem hunreleased
    obtain ⟨owner, hget, hb⟩ := hw.held h hmem hunreleased
    exact ⟨owner, ht.lease.trans hget, hb.running, hb.pid, hb.token⟩
  · intro h hmem
    exact Nat.lt_of_lt_of_le (hw.tokens h hmem) ht.drawn

/-- A lease is taken where nothing unreleased was held. -/
theorem Inv.taken {t : Disk} {lease : SessionLease}
    (hrunning : w.running.get pid = some processStartId)
    (hnone : ∀ h ∈ w.held, ¬ h.Unreleased)
    (ht : Taken (w.machine win32 directory) environment pid sessionPath w.disk
      lease t) :
    (keep pid { w with disk := t } (some lease)).Inv := by
  obtain ⟨hstarted, hne⟩ := hw.identities pid processStartId hrunning
  have hunreleased : Held.Unreleased ⟨pid, lease⟩ := by
    rw [Held.Unreleased, ht.returned]
  have hb : Backed (keep pid { w with disk := t } (some lease)) ⟨pid, lease⟩
      (newOwner (w.machine win32 directory) environment pid sessionPath
        lease.token) := ⟨rfl, rfl, rfl⟩
  refine ⟨ht.leaves.names, hw.identities, ?_, ?_, ?_, ?_⟩
  · intro file hget
    have hget' : t.get .lease = some file := hget
    rw [ht.place] at hget'
    cases hget'
    refine ⟨_, processStartId, rfl, hrunning, hne, hstarted, ?_⟩
    intro _
    exact ⟨⟨pid, lease⟩, List.mem_append_right _ List.mem_cons_self,
      hunreleased, hb⟩
  · intro h hmem hun
    rcases List.mem_append.1 hmem with hmem | hmem
    · exact absurd hun (hnone h hmem)
    · rw [List.mem_singleton.1 hmem]
      exact ⟨_, ht.place, hb⟩
  · intro h hmem
    rcases List.mem_append.1 hmem with hmem | hmem
    · exact Nat.lt_of_lt_of_le (hw.tokens h hmem) ht.leaves.drawn
    · rw [List.mem_singleton.1 hmem]
      exact ht.drawn
  · rw [keep, List.map_append, List.nodup_append]
    refine ⟨hw.distinct, List.nodup_singleton _, ?_⟩
    intro token htoken token' htoken' heq
    obtain ⟨h, hmem, rfl⟩ := List.mem_map.1 htoken
    have hlt := hw.tokens h hmem
    have hnew := ht.new
    rw [heq, List.mem_singleton.1 htoken'] at hlt
    exact absurd hnew (Nat.not_le.2 hlt)

/-- An unreleased lease is released. -/
theorem Inv.released {t : Disk}
    (hi : w.held[i]? = some h) (hunreleased : h.Unreleased)
    (ht : Leaves P w.disk t) (hnone : t.get .lease = none) :
    { w with
      disk := t
      held :=
        w.held.set i ⟨h.pid, { h.lease with released := true }⟩ }.Inv := by
  have htokens : (w.held.set i ⟨h.pid, { h.lease with released := true }⟩).map
      (fun h => h.lease.token) = w.held.map fun h => h.lease.token := by
    rw [List.map_set]
    apply List.ext_getElem?
    intro j
    rw [List.getElem?_set]
    by_cases hij : i = j
    · subst hij
      have hlt := (List.getElem?_eq_some_iff.1 hi).1
      rw [if_pos rfl, List.length_map, if_pos hlt, List.getElem?_map, hi]
      rfl
    · rw [if_neg hij]
  refine ⟨ht.names, hw.identities, ?_, ?_, ?_, ?_⟩
  · intro file hget
    cases hnone.symm.trans hget
  · intro h' hmem hun
    exfalso
    obtain ⟨j, hj⟩ := List.mem_iff_getElem?.1 hmem
    have hj' : (w.held.set i
        ⟨h.pid, { h.lease with released := true }⟩)[j]? = some h' := hj
    rw [List.getElem?_set] at hj'
    by_cases hij : i = j
    · subst hij
      rw [if_pos rfl] at hj'
      split at hj'
      · cases hj'
        cases hun
      · cases hj'
    · rw [if_neg hij] at hj'
      exact hij (hw.unique hi hj' hunreleased hun)
  · intro h' hmem
    have hmem' : h'.lease.token ∈ w.held.map fun h => h.lease.token := by
      rw [← htokens]
      exact List.mem_map_of_mem hmem
    obtain ⟨h'', hmem'', heq⟩ := List.mem_map.1 hmem'
    rw [← heq]
    exact Nat.lt_of_lt_of_le (hw.tokens h'' hmem'') ht.drawn
  · show (List.map _ (w.held.set i _)).Nodup
    rw [htokens]
    exact hw.distinct

theorem Inv.started (hnone : w.running.has pid = false)
    (hfresh : (pid, processStartId) ∉ w.started) (hne : processStartId ≠ "") :
    { w with
      running := w.running.set pid processStartId
      started := (pid, processStartId) :: w.started }.Inv := by
  have hget : ∀ p, (w.running.set pid processStartId).get p
      = if pid = p then some processStartId else w.running.get p :=
    fun p => JsMap.get_set ..
  have hother : ∀ p id, w.running.get p = some id → pid ≠ p := by
    rintro p id hrunning rfl
    rw [JsMap.has, hrunning] at hnone
    cases hnone
  have hbacked : ∀ h owner id, owner.processStartId = some id →
      w.Backed h owner →
      Backed { w with
        running := w.running.set pid processStartId
        started := (pid, processStartId) :: w.started } h owner := by
    intro h owner id hid hb
    refine ⟨?_, hb.pid, hb.token⟩
    show (w.running.set pid processStartId).get h.pid = _
    rw [hget, if_neg (hother h.pid id (hb.running.trans hid))]
    exact hb.running
  refine ⟨hw.names, ?_, ?_, ?_, hw.tokens, hw.distinct⟩
  · intro p id hrunning
    have hrunning' : (w.running.set pid processStartId).get p = some id :=
      hrunning
    rw [hget] at hrunning'
    by_cases hp : pid = p
    · rw [if_pos hp] at hrunning'
      subst hp
      cases hrunning'
      exact ⟨List.mem_cons_self, hne⟩
    · rw [if_neg hp] at hrunning'
      obtain ⟨hmem, hid⟩ := hw.identities p id hrunning'
      exact ⟨List.mem_cons_of_mem _ hmem, hid⟩
  · intro file hfile
    obtain ⟨owner, id, rfl, hid, hidne, hstarted, hlive⟩ := hw.lease file hfile
    refine ⟨owner, id, rfl, hid, hidne, List.mem_cons_of_mem _ hstarted, ?_⟩
    intro hrunning
    have hrunning' : (w.running.set pid processStartId).get owner.pid
        = some id := hrunning
    rw [hget] at hrunning'
    by_cases hp : pid = owner.pid
    · rw [if_pos hp] at hrunning'
      rw [← hp, ← Option.some.inj hrunning'] at hstarted
      exact absurd hstarted hfresh
    · rw [if_neg hp] at hrunning'
      obtain ⟨h, hmem, hunreleased, hb⟩ := hlive hrunning'
      exact ⟨h, hmem, hunreleased, hbacked h owner id hid hb⟩
  · intro h hmem hunreleased
    obtain ⟨owner, hfile, hb⟩ := hw.held h hmem hunreleased
    obtain ⟨owner', id, heq, hid, -⟩ := hw.lease _ hfile
    cases heq
    exact ⟨owner, hfile, hbacked h owner id hid hb⟩

theorem Inv.acquire
    (hrunning : w.running.get pid = some processStartId) (cut : Option Nat) :
    (w.call pid (acquireSessionLease (w.machine win32 directory) environment
      pid (some sessionPath)) cut (keep pid)).Inv := by
  obtain ⟨hstarted, hne⟩ := hw.identities pid processStartId hrunning
  by_cases h : leasesEnabled environment = true ∧ sessionPath ≠ ""
  · have hholds := acquireSessionLease_holds pid h.1 h.2 hw.names
      (hw.judged win32 directory)
    cases cut with
    | some k =>
      have ht := (hholds.mono (fun _ _ ⟨_, _, ht⟩ => ht.leaves)
        fun _ _ ht => ht.2.mono .inl).after k
      apply hw.crashed ht
      · intro file hget
        rcases ht.lease with hsame | ⟨-, hnone | ⟨owner, hown, hpid, hid⟩⟩
        · left
          rw [← hsame]
          exact hget
        · cases hnone.symm.trans hget
        · right
          rw [hown] at hget
          exact ⟨owner, processStartId, (Option.some.inj hget).symm, hpid,
            hid.trans hrunning, hne, hstarted⟩
      · intro held hmem hunreleased _
        rcases ht.lease with hsame | ⟨hfree, -⟩
        · exact hsame
        · exact absurd hunreleased (hw.unheld_of_free hfree hmem)
    | none =>
      unfold call
      dsimp only
      cases hresult : (acquireSessionLease (w.machine win32 directory)
          environment pid (some sessionPath) w.disk).result with
      | ok lease? =>
        obtain ⟨lease, rfl, ht⟩ := hholds.ok lease? hresult
        exact hw.taken hrunning
          (fun held hmem => hw.unheld_of_free ht.free hmem) ht
      | error error => exact hw.beside (hholds.error error hresult).2
  · rw [acquireSessionLease_disabled h]
    cases cut with
    | some k => exact hw.crash pid
    | none => exact hw

theorem Inv.release (hi : w.held[i]? = some h) (cut : Option Nat) :
    (w.call h.pid (h.lease.release (w.machine win32 directory) h.pid) cut
      fun w lease => { w with held := w.held.set i ⟨h.pid, lease⟩ }).Inv := by
  cases hreleased : h.lease.released with
  | true =>
    rw [SessionLease.release, hreleased, if_pos rfl]
    cases cut with
    | some k => exact hw.crash h.pid
    | none =>
      show { w with held := w.held.set i ⟨h.pid, h.lease⟩ }.Inv
      have hset : w.held.set i ⟨h.pid, h.lease⟩ = w.held := by
        apply List.ext_getElem?
        intro j
        rw [List.getElem?_set]
        by_cases hij : i = j
        · subst hij
          rw [if_pos rfl, if_pos (List.getElem?_eq_some_iff.1 hi).1, hi]
        · rw [if_neg hij]
      rw [hset]
      exact hw
  | false =>
    obtain ⟨owner, hget, hb⟩ := hw.held h (List.mem_of_getElem? hi) hreleased
    have hholds := SessionLease.release_own (w.machine win32 directory) h.pid
      hreleased hw.names hget hb.token
    cases cut with
    | some k =>
      have ht := (hholds.mono (fun _ _ ht => ht.2.1)
        fun _ _ hfalse => hfalse.elim).after k
      apply hw.crashed ht
      · intro file hfile
        rcases ht.lease with hsame | hnone
        · left
          rw [← hsame]
          exact hfile
        · cases hnone.symm.trans hfile
      · intro h' hmem' hunreleased' hpid'
        obtain ⟨j, hj⟩ := List.mem_iff_getElem?.1 hmem'
        have hij := hw.unique hi hj hreleased hunreleased'
        subst hij
        rw [hi] at hj
        cases hj
        exact absurd rfl hpid'
    | none =>
      unfold call
      dsimp only
      cases hresult : (h.lease.release (w.machine win32 directory) h.pid
          w.disk).result with
      | ok lease =>
        obtain ⟨rfl, ht, hnone⟩ := hholds.ok lease hresult
        exact hw.released hi hreleased ht hnone
      | error error => exact (hholds.error error hresult).elim

theorem Inv.step (event : Event) :
    (w.step win32 directory sessionPath event).Inv := by
  cases event with
  | start pid processStartId =>
    unfold World.step
    dsimp only
    split
    · exact hw
    · rename_i hguard
      rw [Bool.or_eq_true, Bool.or_eq_true, not_or, not_or,
        Bool.not_eq_true, decide_eq_true_eq, decide_eq_true_eq] at hguard
      exact hw.started hguard.1.1 hguard.1.2 hguard.2
  | crash pid => exact hw.crash pid
  | clock now =>
    refine ⟨hw.names, hw.identities, ?_, ?_, hw.tokens, hw.distinct⟩
    · intro file hget
      obtain ⟨owner, id, hfile, hid, hne, hstarted, hlive⟩ :=
        hw.lease file hget
      refine ⟨owner, id, hfile, hid, hne, hstarted, ?_⟩
      intro hrunning
      obtain ⟨h, hmem, hunreleased, hb⟩ := hlive hrunning
      exact ⟨h, hmem, hunreleased, hb.running, hb.pid, hb.token⟩
    · intro h hmem hunreleased
      obtain ⟨owner, hget, hb⟩ := hw.held h hmem hunreleased
      exact ⟨owner, hget, hb.running, hb.pid, hb.token⟩
  | acquire pid environment cut =>
    unfold World.step
    dsimp only
    cases hrunning : w.running.get pid with
    | none =>
      rw [if_neg]
      · exact hw
      · rw [JsMap.has, hrunning]
        exact Bool.false_ne_true
    | some processStartId =>
      rw [if_pos]
      · exact hw.acquire hrunning cut
      · rw [JsMap.has, hrunning]
        rfl
  | release i cut =>
    unfold World.step
    dsimp only
    cases hi : w.held[i]? with
    | none => exact hw
    | some h => exact hw.release hi cut

end

theorem inv_initial : initial.Inv :=
  ⟨nofun, nofun, nofun, nofun, nofun, List.nodup_nil⟩

end World

end OneHarness.Session.Lease
