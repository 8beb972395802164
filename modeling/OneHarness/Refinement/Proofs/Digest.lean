/-
When an unchanged fingerprint means an unchanged digest, whatever the order in
which the entries came (`digestStable_iff`).

What is printed of an entry is part of what is hashed of it (`entryLine_eq`),
but the two are sorted by different texts, and texts may tie. Entries that tie
stay in the order they came in; so where they print differently the digest
depends on that order, and where they are hashed differently the fingerprint
does (`mergeSort_swap`, `filter_mergeSort`).
-/
import OneHarness.Refinement.Digest
import OneHarness.Refinement.Proofs.Merge
import OneHarness.Lib.Json.RoundTrip
import OneHarness.Lib.StableSort
import Mathlib.Data.List.Pairwise

namespace OneHarness.Refinement

open Lib StableSort

-- ======== statement vocabulary

/-- Every entry is filed under its own kind. -/
def Filed (state : HarnessState) : Prop :=
  ∀ kind, ∀ entry ∈ (state.entries kind).values, entry.kind = kind

/-- The entries of each kind came in another order. -/
structure Reordered (state state' : HarnessState) : Prop where
  entries : ∀ kind, (state'.entries kind).Perm (state.entries kind)
  refinements : state'.refinements = state.refinements

section
variable (le : String → String → Bool)

/-- Both render the same text, whatever the limits. -/
def SameDigest (state state' : HarnessState) (flags flags' : RenderFlags) :
    Prop :=
  ∀ limits, formatHarnessStateForPrompt le state (flags.options limits)
    = formatHarnessStateForPrompt le state' (flags'.options limits)

structure DigestStable (state : HarnessState) : Prop where
  fingerprint : ∀ state' flags flags', Filed state' →
    harnessDigestMaterial le state flags
      = harnessDigestMaterial le state' flags' →
    SameDigest le state state' flags flags'
  order : ∀ state' flags, Reordered state state' →
    harnessDigestMaterial le state flags
        = harnessDigestMaterial le state' flags
      ∧ SameDigest le state state' flags flags

/-- How entries are sorted for the digest, and for the fingerprint. -/
def byDigestKey (a b : HarnessEntry) : Bool := le (digestKey a) (digestKey b)

def byMaterialKey (a b : MaterialEntry) : Bool := le a.key b.key

/-- Of two entries of a kind that tie in the digest both print the same, and
of two that tie in the fingerprint the same is hashed. -/
def Distinguished (state : HarnessState) : Prop :=
  ∀ kind, (state.entries kind).values.Pairwise fun a b =>
    (Ties (byDigestKey le) a b → ∀ contentLimit,
      entryLine contentLimit a = entryLine contentLimit b)
    ∧ (Ties (byMaterialKey le) (materialEntry a) (materialEntry b) →
      materialEntry a = materialEntry b)

end

-- ======== what is hashed

theorem RefinementKind.name_injective {k k' : RefinementKind}
    (h : k.name = k'.name) : k = k' := by
  cases k <;> cases k' <;> first | rfl | exact absurd h (by decide)

theorem MaterialEntry.toJson_injective {a b : MaterialEntry}
    (h : a.toJson = b.toJson) : a = b := by
  have hget : ∀ name, a.toJson.get name = b.toJson.get name := fun name => by
    rw [h]
  have hobj : ∀ {x y : Option Fields}, x.map Json.obj = y.map Json.obj →
      x = y := by
    intro x y hxy
    exact Option.map_injective (fun _ _ heq => Json.obj.inj heq) hxy
  have hscope : a.scope = b.scope := by
    simpa [MaterialEntry.toJson] using hget "scope"
  have hkind : a.kind.name = b.kind.name := by
    simpa [MaterialEntry.toJson] using hget "kind"
  have hid : a.id = b.id := by
    simpa [MaterialEntry.toJson] using hget "id"
  have htitle : a.title = b.title := by
    simpa [MaterialEntry.toJson] using hget "title"
  have hpath : a.path = b.path := by
    simpa [MaterialEntry.toJson] using hget "path"
  have hversion : Numeral.ofInt a.version = Numeral.ofInt b.version := by
    simpa [MaterialEntry.toJson] using hget "version"
  have hcontent : a.content = b.content := by
    simpa [MaterialEntry.toJson] using hget "content"
  have hreference : a.reference.map Json.obj = b.reference.map Json.obj := by
    simpa [MaterialEntry.toJson] using hget "reference"
  have harguments : a.arguments.map Json.obj = b.arguments.map Json.obj := by
    simpa [MaterialEntry.toJson] using hget "arguments"
  cases a
  cases b
  rw [MaterialEntry.mk.injEq]
  exact ⟨hscope, RefinementKind.name_injective hkind, hid, htitle, hpath,
    Numeral.ofInt_injective hversion, hcontent, hobj hreference,
    hobj harguments⟩

/-- What is printed of a refinement, which is what is hashed of it. -/
def printedEvent (event : HarnessRefinementEvent) :
    String × String × List String × String :=
  (event.id, event.trigger, event.changes, event.outcome)

variable {a b : HarnessRefinementEvent}

theorem refinementMaterial_injective
    (h : refinementMaterial a = refinementMaterial b) :
    printedEvent a = printedEvent b := by
  rw [refinementMaterial, refinementMaterial] at h
  have hfields := Json.obj.inj h
  simp only [List.cons.injEq, Prod.mk.injEq, Json.str.injEq, Json.arr.injEq,
    true_and, and_true] at hfields
  obtain ⟨hid, htrigger, hchanges, houtcome⟩ := hfields
  have hstr : Function.Injective Json.str := fun _ _ heq => Json.str.inj heq
  rw [printedEvent, printedEvent, hid, htrigger, houtcome,
    List.map_injective_iff.2 hstr hchanges]

variable {α β : Type}

theorem map_eq_of_injective {γ : Type} {f : α → β} {g : α → γ}
    (hf : ∀ a b, f a = f b → g a = g b) {l l' : List α}
    (h : l.map f = l'.map f) : l.map g = l'.map g := by
  induction l generalizing l' with
  | nil =>
    cases l' with
    | nil => rfl
    | cons b l' => cases h
  | cons a l ih =>
    cases l' with
    | nil => cases h
    | cons b l' =>
      rw [List.map_cons, List.map_cons, List.cons.injEq] at h
      rw [List.map_cons, List.map_cons, hf a b h.1, ih h.2]

variable {flags flags' : RenderFlags}

/-- Equal material is equal in all its parts. -/
theorem harnessDigestMaterial_inj {le : String → String → Bool}
    {state state' : HarnessState}
    (h : harnessDigestMaterial le state flags
      = harnessDigestMaterial le state' flags') :
    flags.effective = flags'.effective
      ∧ materialEntries le state = materialEntries le state'
      ∧ state.refinements.map printedEvent
        = state'.refinements.map printedEvent := by
  have hparsed := congrArg Json.parse h
  rw [harnessDigestMaterial, harnessDigestMaterial, Json.parse_stringify,
    Json.parse_stringify] at hparsed
  have hfields := Json.obj.inj (Option.some.inj hparsed)
  simp only [List.cons.injEq, Prod.mk.injEq, Json.arr.injEq, true_and,
    and_true] at hfields
  obtain ⟨hflags, hentries, hrefinements⟩ := hfields
  refine ⟨?_, ?_, ?_⟩
  · revert hflags
    generalize flags.effective = f
    generalize flags'.effective = f'
    intro hflags
    cases f
    cases f'
    simpa [RenderFlags.toJson] using hflags
  · have hid := map_eq_of_injective
      (fun a b => MaterialEntry.toJson_injective) hentries
    simpa using hid
  · exact map_eq_of_injective
      (fun a b => refinementMaterial_injective) hrefinements

-- ======== what is printed

variable {options options' : DigestOptions} {kind : RefinementKind}
  {entries : JsMap String HarnessEntry}

variable {entries' rest : JsMap String HarnessEntry}
  {p q : String × HarnessEntry} {line : Text}

section
variable {le : String → String → Bool}

/-- The line of an entry, from what is hashed of it. -/
def materialLine (contentLimit : Int) (entry : MaterialEntry) : Text :=
  let contract (label : String) (fields : Option Fields) : Text :=
    if fields.getD [] ≠ [] then
      units (" " ++ label ++ "=") ++ compactText
        (String.ofList (Json.obj (fields.getD [])).stringify) contentLimit
    else []
  units ("- [" ++ entry.scope ++ ":" ++ entry.id ++ "] " ++ entry.title
      ++ " (" ++ entry.path ++ ", v" ++ toString entry.version ++ ")")
    ++ contract "ref" entry.reference ++ contract "args" entry.arguments
    ++ units ": " ++ compactText entry.content contentLimit

theorem entryLine_eq (contentLimit : Int) (entry : HarnessEntry) :
    entryLine contentLimit entry
      = materialLine contentLimit (materialEntry entry) := by
  rw [entryLine, materialLine, materialEntry, contractText, contractText]
  by_cases hskill : entry.kind = .skill
  · simp only [hskill, true_and, if_true, Option.getD_some]
  · simp only [hskill, false_and, if_false, Option.getD_none, ne_eq,
      not_true_eq_false]

/-- The key of an entry in the digest, from what is hashed of it. -/
def materialDigestKey (entry : MaterialEntry) : String :=
  entry.path ++ "\x00" ++ entry.title ++ "\x00" ++ entry.id

theorem refinementLine_eq
    (h : printedEvent a = printedEvent b) (contentLimit : Int) :
    refinementLine contentLimit a = refinementLine contentLimit b := by
  rw [printedEvent, printedEvent, Prod.mk.injEq, Prod.mk.injEq,
    Prod.mk.injEq] at h
  obtain ⟨hid, htrigger, hchanges, houtcome⟩ := h
  rw [refinementLine, refinementLine, hid, htrigger, hchanges, houtcome]

theorem map_sliceTo (f : α → β) (n : Int) (l : List α) :
    (sliceTo n l).map f = sliceTo n (l.map f) := by
  rw [sliceTo, sliceTo, List.length_map]
  split_ifs
  · rw [List.map_take]
  · rw [List.map_take]

theorem map_sliceFrom (f : α → β) (n : Int) (l : List α) :
    (sliceFrom n l).map f = sliceFrom n (l.map f) := by
  rw [sliceFrom, sliceFrom, List.length_map]
  split_ifs
  · rw [List.map_drop]
  · rw [List.map_drop]

theorem length_sortedEntries (entries : JsMap String HarnessEntry) :
    (sortedEntries le entries).length = entries.values.length :=
  List.length_mergeSort _

/-- The lines of a kind are those of its sorted entries, and their number. -/
theorem kindLines_congr (hipython : options.ipython = options'.ipython)
    (hentry : options.entryLimit = options'.entryLimit)
    (hcontent : options.contentLimit = options'.contentLimit)
    (h : (sortedEntries le entries).map (entryLine options.contentLimit)
      = (sortedEntries le entries').map (entryLine options.contentLimit)) :
    kindLines le options kind entries
      = kindLines le options' kind entries' := by
  have hlength := congrArg List.length h
  rw [List.length_map, List.length_map] at hlength
  have hheading : ∀ total, kindHeading options kind total
      = kindHeading options' kind total := by
    intro total
    rw [kindHeading, kindHeading, hipython]
  rw [kindLines, kindLines, hlength, hheading, hentry, map_sliceTo, h,
    ← map_sliceTo, hcontent]

theorem refinementLines_congr
    {refinements refinements' : List HarnessRefinementEvent}
    (hlimit : options.refinementLimit = options'.refinementLimit)
    (hcontent : options.contentLimit = options'.contentLimit)
    (h : refinements.map printedEvent = refinements'.map printedEvent) :
    refinementLines options refinements
      = refinementLines options' refinements' := by
  have hlength := congrArg List.length h
  rw [List.length_map, List.length_map] at hlength
  have hlines := map_eq_of_injective
    (fun a b hab => refinementLine_eq hab options.contentLimit) h
  rw [refinementLines, refinementLines, hlength, hlimit, map_sliceFrom,
    hlines, ← map_sliceFrom, hcontent]

theorem headerLines_congr
    (h : flags.effective = flags'.effective) (limits : DigestLimits) :
    headerLines (flags.options limits) = headerLines (flags'.options limits)
      ∧ flags.includeIpythonExamples = flags'.includeIpythonExamples := by
  obtain ⟨ipython, shell, refine⟩ := flags
  obtain ⟨ipython', shell', refine'⟩ := flags'
  rw [RenderFlags.effective, RenderFlags.effective] at h
  cases ipython with
  | false =>
    cases ipython' with
    | false =>
      rw [if_neg Bool.false_ne_true, if_neg Bool.false_ne_true,
        RenderFlags.mk.injEq] at h
      obtain ⟨-, rfl, rfl⟩ := h
      exact ⟨rfl, rfl⟩
    | true =>
      rw [if_neg Bool.false_ne_true, if_pos rfl, RenderFlags.mk.injEq] at h
      cases h.1
  | true =>
    cases ipython' with
    | false =>
      rw [if_neg Bool.false_ne_true, if_pos rfl, RenderFlags.mk.injEq] at h
      cases h.1
    | true =>
      rw [if_pos rfl, if_pos rfl, RenderFlags.mk.injEq] at h
      obtain ⟨-, -, rfl⟩ := h
      exact ⟨rfl, rfl⟩

-- ======== sufficiency

variable {state state' : HarnessState}

section
variable (hle : TotalPreorder le)
include hle

theorem byDigestKey_total :
    TotalPreorder (byDigestKey le) := hle.comap digestKey

omit hle in
/-- What is hashed of the entries of a kind. -/
theorem filter_materialEntries (le : String → String → Bool)
    (hfiled : Filed state) (kind : RefinementKind) :
    ((materialEntries le state).filter (·.kind = kind)).Perm
      ((state.entries kind).values.map materialEntry) := by
  have hkind : ∀ k, ((state.entries k).values.map materialEntry).filter
      (·.kind = kind) = if k = kind then
        (state.entries k).values.map materialEntry else [] := by
    intro k
    have hall : ∀ entry ∈ (state.entries k).values.map materialEntry,
        entry.kind = k := by
      intro entry hentry
      obtain ⟨e, he, rfl⟩ := List.mem_map.1 hentry
      exact hfiled k e he
    by_cases hk : k = kind
    · rw [if_pos hk, List.filter_eq_self]
      intro entry hentry
      exact decide_eq_true ((hall entry hentry).trans hk)
    · rw [if_neg hk, List.filter_eq_nil_iff]
      intro entry hentry heq
      exact hk ((hall entry hentry).symm.trans (of_decide_eq_true heq))
  refine ((List.mergeSort_perm _ _).filter _).trans ?_
  rw [List.map_flatMap, List.filter_flatMap]
  simp only [hkind]
  cases kind <;> exact List.Perm.of_eq (by simp [kinds])

/-- With the same hashed of the entries of a kind, sorting them prints the
same lines. -/
theorem sortedEntries_lines (hperm : (entries'.values.map materialEntry).Perm
      (entries.values.map materialEntry)) {contentLimit : Int}
    (hties : entries.values.Pairwise fun a b => Ties (byDigestKey le) a b →
      entryLine contentLimit a = entryLine contentLimit b) :
    (sortedEntries le entries).map (entryLine contentLimit)
      = (sortedEntries le entries').map (entryLine contentLimit) := by
  have hmaterial : ∀ entries : JsMap String HarnessEntry,
      (sortedEntries le entries).map (entryLine contentLimit)
        = ((entries.values.map materialEntry).mergeSort fun a b =>
            le (materialDigestKey a) (materialDigestKey b)).map
          (materialLine contentLimit) := by
    intro entries
    have hsorted : (sortedEntries le entries).map materialEntry
        = (entries.values.map materialEntry).mergeSort fun a b =>
          le (materialDigestKey a) (materialDigestKey b) :=
      List.map_mergeSort fun _ _ _ _ => rfl
    rw [← hsorted, List.map_map]
    exact List.map_congr_left fun entry _ => entryLine_eq contentLimit entry
  rw [hmaterial, hmaterial]
  refine map_mergeSort_of_ties (hle.comap materialDigestKey) hperm.symm
    fun a ha b hb hab => ?_
  obtain ⟨x, hx, rfl⟩ := List.mem_map.1 ha
  obtain ⟨y, hy, rfl⟩ := List.mem_map.1 hb
  rw [← entryLine_eq, ← entryLine_eq]
  have hsymm : Std.Symm fun a b => Ties (byDigestKey le) a b →
      entryLine contentLimit a = entryLine contentLimit b :=
    ⟨fun a b h hba => (h ⟨hba.2, hba.1⟩).symm⟩
  by_cases hxy : x = y
  · rw [hxy]
  · exact hties.forall hx hy hxy hab

omit hle in
theorem digestLines_congr (hheader : headerLines options = headerLines options')
    (hipython : options.ipython = options'.ipython)
    (hentry : options.entryLimit = options'.entryLimit)
    (hrefinement : options.refinementLimit = options'.refinementLimit)
    (hcontent : options.contentLimit = options'.contentLimit)
    (hentries : ∀ kind,
      (sortedEntries le (state.entries kind)).map
          (entryLine options.contentLimit)
        = (sortedEntries le (state'.entries kind)).map
          (entryLine options.contentLimit))
    (hrefinements : state.refinements.map printedEvent
      = state'.refinements.map printedEvent) :
    digestLines le state options = digestLines le state' options' := by
  have hempty : ∀ kind, (state.entries kind).isEmpty
      = (state'.entries kind).isEmpty := by
    intro kind
    have hlength := congrArg List.length (hentries kind)
    rw [List.length_map, List.length_map, length_sortedEntries,
      length_sortedEntries, JsMap.values, JsMap.values, List.length_map,
      List.length_map] at hlength
    rw [Bool.eq_iff_iff, List.isEmpty_iff_length_eq_zero,
      List.isEmpty_iff_length_eq_zero, hlength]
  have hkinds : (fun kind => kindLines le options kind (state.entries kind))
      = fun kind => kindLines le options' kind (state'.entries kind) :=
    funext fun kind => kindLines_congr hipython hentry hcontent (hentries kind)
  rw [digestLines, digestLines, hheader, hkinds,
    refinementLines_congr hrefinement hcontent hrefinements]
  simp only [hempty]

theorem Distinguished.fingerprint
    (hfiled : Filed state) (h : Distinguished le state)
    (hfiled' : Filed state')
    (hmaterial : harnessDigestMaterial le state flags
      = harnessDigestMaterial le state' flags') :
    SameDigest le state state' flags flags' := by
  intro limits
  obtain ⟨hflags, hentries, hrefinements⟩ :=
    harnessDigestMaterial_inj hmaterial
  obtain ⟨hheader, hipython⟩ := headerLines_congr hflags limits
  rw [formatHarnessStateForPrompt, formatHarnessStateForPrompt,
    digestLines_congr hheader hipython rfl rfl rfl
      (fun kind => sortedEntries_lines hle ?_ ?_) hrefinements]
  · refine (filter_materialEntries le hfiled' kind).symm.trans ?_
    rw [← hentries]
    exact filter_materialEntries le hfiled kind
  · exact (h kind).imp fun hab hties => hab.1 hties _

/-- Entries that came in another order are hashed the same: those of a kind
that tie are hashed the same, and the kinds follow each other as before. -/
theorem Distinguished.materialEntries_eq
    (h : Distinguished le state) (hreordered : Reordered state state') :
    materialEntries le state = materialEntries le state' := by
  refine mergeSort_eq_of_filters (hle.comap MaterialEntry.key) fun a => ?_
  rw [List.map_flatMap, List.map_flatMap, List.filter_flatMap,
    List.filter_flatMap]
  refine List.flatMap_congr fun kind _ => ?_
  have hperm : ((state.entries kind).values.map materialEntry).Perm
      ((state'.entries kind).values.map materialEntry) :=
    (((hreordered.entries kind).map Prod.snd).map materialEntry).symm
  refine eq_of_perm_of_forall_eq (hperm.filter _) fun b hb c hc => ?_
  obtain ⟨hb, hab⟩ := List.mem_filter.1 hb
  obtain ⟨hc, hac⟩ := List.mem_filter.1 hc
  have hbc : Ties (byMaterialKey le) b c := by
    have hab := of_decide_eq_true hab
    have hac := of_decide_eq_true hac
    exact ⟨hle.trans _ _ _ hab.2 hac.1, hle.trans _ _ _ hac.2 hab.1⟩
  obtain ⟨x, hx, rfl⟩ := List.mem_map.1 hb
  obtain ⟨y, hy, rfl⟩ := List.mem_map.1 hc
  have hsymm : Std.Symm fun x y : HarnessEntry =>
      Ties (byMaterialKey le) (materialEntry x) (materialEntry y) →
        materialEntry x = materialEntry y :=
    ⟨fun x y h hyx => (h ⟨hyx.2, hyx.1⟩).symm⟩
  by_cases hxy : x = y
  · rw [hxy]
  · exact ((h kind).imp fun hxy => hxy.2).forall hx hy hxy hbc

theorem Distinguished.order
    (h : Distinguished le state) (hreordered : Reordered state state')
    (flags : RenderFlags) :
    harnessDigestMaterial le state flags
        = harnessDigestMaterial le state' flags
      ∧ SameDigest le state state' flags flags := by
  constructor
  · rw [harnessDigestMaterial, harnessDigestMaterial,
      h.materialEntries_eq hle hreordered, hreordered.refinements]
  · intro limits
    rw [formatHarnessStateForPrompt, formatHarnessStateForPrompt,
      digestLines_congr rfl rfl rfl rfl rfl
        (fun kind => sortedEntries_lines hle ?_ ?_)
        (by rw [hreordered.refinements])]
    · exact ((hreordered.entries kind).map Prod.snd).map materialEntry
    · exact (h kind).imp fun hab hties => hab.1 hties _

end

-- ======== necessity

/-- The state with other entries of one kind. -/
def withEntries (state : HarnessState) (kind : RefinementKind)
    (entries : JsMap String HarnessEntry) : HarnessState :=
  { state with entries := Function.update state.entries kind entries }

theorem reordered_withEntries (h : entries.Perm (state.entries kind)) :
    Reordered state (withEntries state kind entries) := by
  refine ⟨fun k => ?_, rfl⟩
  show (Function.update state.entries kind entries k).Perm _
  by_cases hk : k = kind
  · subst hk
    rw [Function.update_self]
    exact h
  · rw [Function.update_of_ne hk]

/-- One kind among the others. -/
theorem flatMap_withEntries
    (f : RefinementKind → JsMap String HarnessEntry → List α)
    (state : HarnessState) (kind : RefinementKind) :
    ∃ before after, ∀ entries,
      kinds.flatMap (fun k => f k ((withEntries state kind entries).entries k))
        = before ++ f kind entries ++ after := by
  cases kind with
  | prompt =>
    exact ⟨[], [.memory, .skill, .subagent].flatMap fun k =>
      f k (state.entries k), fun entries => by
        simp [kinds, withEntries]⟩
  | memory =>
    exact ⟨[.prompt].flatMap fun k => f k (state.entries k),
      [.skill, .subagent].flatMap fun k => f k (state.entries k),
      fun entries => by simp [kinds, withEntries]⟩
  | skill =>
    exact ⟨[.prompt, .memory].flatMap fun k => f k (state.entries k),
      [.subagent].flatMap fun k => f k (state.entries k),
      fun entries => by simp [kinds, withEntries]⟩
  | subagent =>
    exact ⟨[.prompt, .memory, .skill].flatMap fun k =>
      f k (state.entries k), [], fun entries => by
        simp [kinds, withEntries]⟩

/-- What is hashed tells two entries apart that tie, by their order. -/
theorem material_swap (hle : TotalPreorder le)
    (hties : Ties (byMaterialKey le) (materialEntry p.2) (materialEntry q.2))
    (h : materialEntries le (withEntries state kind (p :: q :: rest))
      = materialEntries le (withEntries state kind (q :: p :: rest))) :
    materialEntry p.2 = materialEntry q.2 := by
  obtain ⟨before, after, hsplit⟩ := flatMap_withEntries
    (fun _ entries => entries.values.map materialEntry) state kind
  have hself : decide (Ties (byMaterialKey le) (materialEntry p.2)
      (materialEntry p.2)) = true :=
    decide_eq_true ⟨hle.comap MaterialEntry.key |>.refl _,
      hle.comap MaterialEntry.key |>.refl _⟩
  have hfilter := congrArg
    (List.filter (Ties (byMaterialKey le) (materialEntry p.2) ·)) h
  rw [materialEntries, materialEntries, List.map_flatMap, List.map_flatMap,
    hsplit, hsplit] at hfilter
  have hkeep := filter_mergeSort (hle.comap MaterialEntry.key)
    (materialEntry p.2)
  have hkept : ∀ l : List MaterialEntry,
      (l.mergeSort fun a b => le a.key b.key).filter
          (Ties (byMaterialKey le) (materialEntry p.2) ·)
        = l.filter (Ties (byMaterialKey le) (materialEntry p.2) ·) := hkeep
  rw [hkept, hkept] at hfilter
  simp only [JsMap.values, List.map_cons, List.filter_append,
    List.filter_cons, if_pos hself, if_pos (decide_eq_true hties),
    List.append_assoc] at hfilter
  have htail := List.append_cancel_left hfilter
  simp only [List.cons_append] at htail
  exact (List.cons.inj htail).1

theorem joinLines_append {us vs : List Text} (hus : us ≠ []) (hvs : vs ≠ []) :
    joinLines (us ++ vs) = joinLines us ++ 0x0a :: joinLines vs := by
  induction us with
  | nil => exact absurd rfl hus
  | cons u us ih =>
    by_cases hnil : us = []
    · subst hnil
      rw [List.singleton_append, joinLines, joinLines,
        List.intercalate_cons_of_ne_nil hvs, List.intercalate_singleton,
        List.append_assoc]
      rfl
    · have hrest : us ++ vs ≠ [] := fun h =>
        hnil (List.append_eq_nil_iff.1 h).1
      rw [List.cons_append, joinLines,
        List.intercalate_cons_of_ne_nil hrest, ← joinLines, ih hnil,
        joinLines, joinLines, joinLines,
        List.intercalate_cons_of_ne_nil hnil, List.append_assoc,
        List.append_assoc, List.append_assoc]

theorem mem_joinLines {lines : List Text} (hline : line ∈ lines)
    {u : Nat} (hu : u ∈ line) : u ∈ joinLines lines := by
  induction lines with
  | nil => cases hline
  | cons l lines ih =>
    by_cases hnil : lines = []
    · subst hnil
      rw [joinLines, List.intercalate_singleton]
      rw [List.mem_singleton] at hline
      rwa [← hline]
    · rw [joinLines, List.intercalate_cons_of_ne_nil hnil, ← joinLines]
      rcases List.mem_cons.1 hline with rfl | hline
      · exact List.mem_append_left _ (List.mem_append_left _ hu)
      · exact List.mem_append_right _ (ih hline)

/-- One line between others is read off the digest. -/
theorem line_of_digest {before after : List Text} {line' : Text}
    (hbefore : ∃ rest, before = units "# Continual Harness State" :: rest)
    (hafter : ∃ l ∈ after, 0x72 ∈ l)
    (h : Utf16.trim (joinLines (before ++ line :: after))
      = Utf16.trim (joinLines (before ++ line' :: after))) :
    line = line' := by
  obtain ⟨rest, rfl⟩ := hbefore
  obtain ⟨l, hl, hu⟩ := hafter
  have hnonempty : after ≠ [] := List.ne_nil_of_mem hl
  have hsplit : ∃ us, ∀ line : Text,
      joinLines (units "# Continual Harness State" :: rest ++ line :: after)
        = 0x23 :: us ++ line ++ 0x0a :: joinLines after := by
    have hhead : ∃ tail, joinLines (units "# Continual Harness State" :: rest)
        = 0x23 :: tail := by
      cases rest with
      | nil => exact ⟨_, rfl⟩
      | cons r rest => exact ⟨_, rfl⟩
    obtain ⟨tail, htail⟩ := hhead
    refine ⟨tail ++ [0x0a], fun line => ?_⟩
    rw [joinLines_append (List.cons_ne_nil _ _) (List.cons_ne_nil _ _), htail,
      joinLines, List.intercalate_cons_of_ne_nil hnonempty, ← joinLines]
    simp only [List.cons_append, List.append_assoc, List.nil_append]
  obtain ⟨us, hus⟩ := hsplit
  have hmem : 0x72 ∈ 0x0a :: joinLines after :=
    List.mem_cons_of_mem _ (mem_joinLines hl hu)
  have hhash : Utf16.isWhiteSpace 0x23 = false := by decide
  have hletter : Utf16.isWhiteSpace 0x72 = false := by decide
  rw [hus, hus, Utf16.trim_append_append hhash hmem hletter,
    Utf16.trim_append_append hhash hmem hletter] at h
  exact List.append_cancel_left (List.append_cancel_right h)

theorem sliceTo_append_one (before : List α) (x : α) (after : List α) :
    sliceTo (before.length + 1) (before ++ x :: after) = before ++ [x] := by
  have hlength : (before ++ [x]).length = before.length + 1 := by simp
  rw [sliceTo, if_neg (by omega),
    show ((before.length : Int) + 1).toNat = (before ++ [x]).length by omega,
    List.append_cons before x after, List.take_left]

/-- With a limit just behind `before`, one line of a kind is that of `x`. -/
theorem kindLines_split (le : String → String → Bool)
    {before : List HarnessEntry}
    (hlimit : options.entryLimit = before.length + 1) (kind : RefinementKind)
    (total : Nat) :
    ∃ front back, ∀ (entries : JsMap String HarnessEntry) x after,
      sortedEntries le entries = before ++ x :: after →
      (sortedEntries le entries).length = total →
      kindLines le options kind entries
        = front ++ entryLine options.contentLimit x :: back := by
  refine ⟨kindHeading options kind total
      :: before.map (entryLine options.contentLimit),
    overflowLine total options.entryLimit (" more " ++ kind.name ++ " entries")
      ++ [[]], fun entries x after hsorted htotal => ?_⟩
  rw [kindLines, htotal, hsorted, hlimit, sliceTo_append_one,
    List.map_append, List.map_singleton]
  simp only [List.append_assoc, List.cons_append, List.nil_append]

/-- The digest tells two entries apart that tie, by their order: cut off
between them, it holds only the first. -/
theorem digest_swap (hle : TotalPreorder le)
    (hties : Ties (byDigestKey le) p.2 q.2)
    (h : SameDigest le (withEntries state kind (p :: q :: rest))
      (withEntries state kind (q :: p :: rest)) flags flags)
    (contentLimit : Int) :
    entryLine contentLimit p.2 = entryLine contentLimit q.2 := by
  obtain ⟨before, after, hp, hq⟩ :=
    mergeSort_swap (byDigestKey_total hle) hties rest.values
  let limits : DigestLimits :=
    ⟨some (before.length + 1), none, some contentLimit⟩
  have hlimit : (flags.options limits).entryLimit = before.length + 1 := rfl
  obtain ⟨front, back, hkind⟩ :=
    kindLines_split le hlimit kind (rest.values.length + 2)
  obtain ⟨first, last, hkinds⟩ := flatMap_withEntries
    (kindLines le (flags.options limits)) state kind
  have hlines : ∀ (entries : JsMap String HarnessEntry) x more,
      entries ≠ [] → sortedEntries le entries = before ++ x :: more →
      (sortedEntries le entries).length = rest.values.length + 2 →
      digestLines le (withEntries state kind entries) (flags.options limits)
        = ((headerLines (flags.options limits)).map units ++ first ++ front)
          ++ entryLine contentLimit x :: (back ++ last
            ++ refinementLines (flags.options limits) state.refinements) := by
    intro entries x more hnonempty hsorted htotal
    have hsome : (kinds.all fun k =>
        ((withEntries state kind entries).entries k).isEmpty) = false := by
      rw [List.all_eq_false]
      refine ⟨kind, by cases kind <;> decide, ?_⟩
      show ¬(Function.update state.entries kind entries kind).isEmpty = true
      rw [Function.update_self, List.isEmpty_iff]
      exact hnonempty
    rw [digestLines, hkinds, hkind entries x more hsorted htotal, hsome,
      if_neg Bool.false_ne_true]
    simp only [List.append_assoc, List.cons_append, List.nil_append]
    rfl
  have hdigest := h limits
  rw [formatHarnessStateForPrompt, formatHarnessStateForPrompt,
    hlines (p :: q :: rest) p.2 (q.2 :: after) (List.cons_ne_nil _ _) hp
      (List.length_mergeSort _),
    hlines (q :: p :: rest) q.2 (p.2 :: after) (List.cons_ne_nil _ _) hq
      (List.length_mergeSort _)] at hdigest
  refine line_of_digest ⟨_, rfl⟩ ?_ hdigest
  refine ⟨_, List.mem_append_right _ List.mem_cons_self, ?_⟩
  exact List.mem_append_left _ (by decide)

theorem DigestStable.distinguished (hle : TotalPreorder le)
    (h : DigestStable le state) : Distinguished le state := by
  intro kind
  rw [JsMap.values, List.pairwise_map, List.pairwise_iff_forall_sublist]
  intro p q hsublist
  obtain ⟨rest, hperm⟩ := hsublist.exists_perm_append
  let flags : RenderFlags := ⟨false, false, false⟩
  have hpq := h.order _ flags (reordered_withEntries hperm.symm)
  have hqp := h.order _ flags
    (reordered_withEntries ((List.Perm.swap p q rest).trans hperm.symm))
  constructor
  · intro hties
    exact digest_swap hle hties fun limits =>
      (hpq.2 limits).symm.trans (hqp.2 limits)
  · intro hties
    exact material_swap hle hties
      (harnessDigestMaterial_inj (hpq.1.symm.trans hqp.1)).2.1

/-- Among states that file their entries by kind, an unchanged fingerprint
means an unchanged digest in any order of the entries just when entries that
tie are told apart by nothing that is printed or hashed. -/
theorem digestStable_iff (hle : TotalPreorder le) (hfiled : Filed state) :
    DigestStable le state ↔ Distinguished le state := by
  constructor
  · intro h
    exact h.distinguished hle
  · intro h
    exact ⟨fun state' flags flags' hfiled' hmaterial =>
        h.fingerprint hle hfiled hfiled' hmaterial,
      fun state' flags hreordered => h.order hle hreordered flags⟩

end

-- ======== merged states

def MergedRecords.FiledUnder (kind : RefinementKind)
    (records : MergedRecords) : Prop :=
  ∀ entry ∈ records.own.values, entry.kind = kind

variable {records : MergedRecords}

theorem MergedRecords.FiledUnder.assign
    (h : records.FiledUnder kind) (id : String)
    {entry : HarnessEntry} (hentry : entry.kind = kind) :
    (records.assign id entry).FiledUnder kind := by
  rw [MergedRecords.assign]
  split_ifs
  · exact h
  · intro e he
    obtain ⟨p, hp, rfl⟩ := List.mem_map.1 he
    rcases JsMap.mem_set hp with hp | rfl
    · exact h p.2 (List.mem_map.2 ⟨p, hp, rfl⟩)
    · exact hentry

theorem MergedRecords.FiledUnder.foldl (h : records.FiledUnder kind)
    {step : MergedRecords → String × HarnessEntry → MergedRecords}
    (hstep : ∀ records p, records.FiledUnder kind → p.2.kind = kind →
      (step records p).FiledUnder kind)
    (hentries : ∀ entry ∈ entries.values, entry.kind = kind) :
    (entries.foldl step records).FiledUnder kind := by
  induction entries generalizing records with
  | nil => exact h
  | cons p entries ih =>
    apply ih (hstep records p h (hentries p.2 List.mem_cons_self))
    exact fun entry hentry => hentries entry (List.mem_cons_of_mem _ hentry)

/-- Merging leaves every entry under its kind. -/
theorem filed_mergeHarnessStates {globalState : HarnessState}
    {localState : Option HarnessState} (hglobal : Filed globalState)
    (hlocal : ∀ state ∈ localState, Filed state) :
    Filed (mergeHarnessStates globalState localState) := by
  intro kind
  have hlocals : ∀ entry ∈ (localEntries localState kind).values,
      entry.kind = kind := by
    cases localState with
    | none => exact fun entry hentry => absurd hentry List.not_mem_nil
    | some state => exact hlocal state rfl kind
  have hempty : MergedRecords.FiledUnder kind ⟨[], none⟩ :=
    fun entry hentry => absurd hentry List.not_mem_nil
  have hglobals : ((globalState.entries kind).foldl mergeGlobal
      ⟨[], none⟩).FiledUnder kind := by
    refine hempty.foldl (fun records p h hp => ?_) (hglobal kind)
    exact h.assign p.1 hp
  show (mergeKind (globalState.entries kind)
    (localEntries localState kind)).FiledUnder kind
  rw [mergeKind]
  refine hglobals.foldl (fun records p h hp => ?_) hlocals
  exact h.assign _ hp

/-- Compared letter by letter. -/
def byLetters (a b : String) : Bool := decide (a ≤ b)

theorem byLetters_total : TotalPreorder byLetters := by
  refine ⟨fun a b c hab hbc => ?_, fun a b => ?_⟩
  · exact decide_eq_true
      (String.le_trans (of_decide_eq_true hab) (of_decide_eq_true hbc))
  · rw [Bool.or_eq_true]
    exact (String.le_total a b).imp decide_eq_true decide_eq_true

theorem filed_memories {records : JsMap String HarnessEntry}
    (h : ∀ e ∈ records.values, e.kind = .memory) :
    Filed (memories records) := by
  intro kind e he
  rw [memories] at he
  dsimp only at he
  by_cases hkind : kind = .memory
  · rw [if_pos hkind] at he
    rw [hkind]
    exact h e he
  · rw [if_neg hkind] at he
    cases he

/-- Notes with different names. -/
theorem digestStable_notes :
    DigestStable byLetters (mergeHarnessStates
      (memories [("one", mergeEntry "one" "first")])
      (some (memories [("two", mergeEntry "two" "second")]))) := by
  apply (digestStable_iff byLetters_total (filed_mergeHarnessStates ?_ ?_)).2
  · intro kind
    cases kind with
    | memory =>
      have hvalues : ((mergeHarnessStates
          (memories [("one", mergeEntry "one" "first")])
          (some (memories [("two", mergeEntry "two" "second")]))).entries
            .memory).values
          = [(mergeEntry "one" "first").scopedTo .globalScope,
            (mergeEntry "two" "second").scopedTo .localScope] := by rfl
      rw [hvalues, List.pairwise_pair]
      refine ⟨fun hties => absurd hties ?_, fun hties => absurd hties ?_⟩
      · decide +kernel
      · decide +kernel
    | prompt => exact .nil
    | skill => exact .nil
    | subagent => exact .nil
  · exact filed_memories (by decide)
  · intro state hstate
    rw [← Option.some.inj hstate]
    exact filed_memories (by decide)

/-- A global and a local note of one name are shown in the order they came
in. -/
theorem not_digestStable_sharedNote :
    ¬DigestStable byLetters
      (mergeHarnessStates (sharedNote "global") (some (sharedNote "local"))) := by
  intro h
  have hmemory := h.distinguished byLetters_total .memory
  have hvalues : ((mergeHarnessStates (sharedNote "global")
      (some (sharedNote "local"))).entries .memory).values
      = [(mergeEntry "shared" "global").scopedTo .globalScope,
        (mergeEntry "shared" "local").scopedTo .localScope] := by rfl
  rw [hvalues, List.pairwise_pair] at hmemory
  have hline := hmemory.1 ⟨byLetters_total.refl _, byLetters_total.refl _⟩ 180
  exact absurd hline (by decide +kernel)

end OneHarness.Refinement
