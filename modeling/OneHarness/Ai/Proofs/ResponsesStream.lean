/-
The fold of a Responses stream is faithful exactly if every item is announced
and no done text goes on after its deltas (`responses_stream_faithful_iff`).

Each announced entry of the ledger has its block and its pushed events
(`Entry.block`, `Entry.pushes`); the state of the fold is that of the entries
(`Inv`). An event for an open item changes its entry and, in the same way, its
block, slot and events (`Inv.update`).
-/
import OneHarness.Ai.ResponsesProtocol

namespace OneHarness.Ai.Responses

open Lib

-- ======== an entry's block

namespace Entry

variable (parseStreamingJson : Text → Arguments)

/-- The scratch buffer of the arguments. -/
def partialJson (e : Entry) (item : ResponseFunctionToolCall) : Text :=
  e.completed.getD (item.arguments ++ e.deltas.flatten)

def callId (item : ResponseFunctionToolCall) : Text :=
  item.callId ++ units "|" ++ item.id

/-- The arguments of an open call: none before anything came for it. -/
def openArguments (e : Entry) (item : ResponseFunctionToolCall) : Arguments :=
  if e.deltas = [] ∧ e.completed = none then []
  else parseStreamingJson (e.partialJson item)

def doneArguments (e : Entry) (item done : ResponseFunctionToolCall) :
    Arguments :=
  parseStreamingJson
    (orElse done.arguments
      (orElse (e.partialJson item) (units "\x7b\x7d")))

def doneThinking (e : Entry) (done : ResponseReasoningItem) : Text :=
  orElse (summaryText done) (orElse (contentText done) e.deltas.flatten)

def block (e : Entry) : Block :=
  match e.item, e.finished with
  | .reasoning _, some (.reasoning done) =>
    .thinking (e.doneThinking done) (some done)
  | .reasoning _, _ => .thinking e.deltas.flatten none
  | .message _, some (.message done) =>
    .text (messageText done) (some ⟨done.id, done.phase⟩)
  | .message _, _ => .text e.deltas.flatten none
  | .functionCall item, some (.functionCall done) =>
    .toolCall (callId item) item.name
      (e.doneArguments parseStreamingJson item done) none
  | .functionCall item, _ =>
    .toolCall (callId item) item.name
      (e.openArguments parseStreamingJson item) (some (e.partialJson item))
  | .other, _ => .text [] none

def pushes (e : Entry) : List PushKind :=
  match e.item with
  | .reasoning _ =>
    .thinkingStart :: e.deltas.map .thinkingDelta
      ++ match e.finished with
        | some (.reasoning done) => [.thinkingEnd (e.doneThinking done)]
        | _ => []
  | .message _ =>
    .textStart :: e.deltas.map .textDelta
      ++ match e.finished with
        | some (.message done) => [.textEnd (messageText done)]
        | _ => []
  | .functionCall item =>
    .toolcallStart :: (e.argumentDeltas item).map .toolcallDelta
      ++ match e.finished with
        | some (.functionCall _) =>
          [.toolcallEnd (e.block parseStreamingJson)]
        | _ => []
  | .other => []

end Entry

-- ======== the invariant

/-- The entries that the fold has a block for. -/
def Ledger.announced (l : Ledger) : List Entry :=
  l.seen.filter (·.announced)

/-- The announced entry of an output index, and the content index of its
block. -/
def Ledger.At (l : Ledger) (contentIndex : Nat) (e : Entry) : Prop :=
  l.announced[contentIndex]? = some e

structure Inv (parseStreamingJson : Text → Arguments) (l : Ledger) (s : State) :
    Prop where
  distinct : (l.entries.map (·.outputIndex)).Nodup
  content : s.content = l.announced.map (·.block parseStreamingJson)
  slots : ∀ outputIndex slot, s.slots.get outputIndex = some slot ↔
    ∃ e, l.At slot.contentIndex e ∧ e.outputIndex = outputIndex
      ∧ e.finished = none ∧ slot.item = e.item
  /-- An end without a start may be pushed for an item that is not
  announced. -/
  pushes : (∀ e ∈ l.seen, e.announced) → ∀ contentIndex,
    s.kindsAt contentIndex
      = (l.announced[contentIndex]?.map
          (·.pushes parseStreamingJson)).getD []
  /-- What is done is of the kind that was announced. -/
  kinds : ∀ e ∈ l.entries, ∀ done, e.finished = some done →
    SameItem e.item done
  stopReason : s.stopReason = .stop

variable {item : Item}

theorem SameItem.known {item' : Item} (h : SameItem item item') :
    item.known = item'.known := by
  cases item <;> cases item' <;> first | rfl | cases h

variable {k : Nat}

/-- A list changed at the one place with a key. -/
theorem map_eq_set {α : Type} {key : α → Nat} {f : α → α} {l : List α}
    (hnodup : (l.map key).Nodup) {a : α} (ha : l[k]? = some a) :
    l.map (fun x => if key x = key a then f x else x) = l.set k (f a) := by
  induction l generalizing k with
  | nil => cases ha
  | cons x l ih =>
    rw [List.map_cons, List.nodup_cons] at hnodup
    cases k with
    | zero =>
      have hx : x = a := Option.some.inj ha
      subst hx
      rw [List.map_cons, if_pos rfl, List.set_cons_zero]
      congr 1
      rw [List.map_congr_left (g := id), List.map_id]
      intro y hy
      apply if_neg
      intro heq
      exact hnodup.1 (heq ▸ List.mem_map_of_mem hy)
    | succ k =>
      have hmem : a ∈ l := List.mem_of_getElem? ha
      have hne : key x ≠ key a := fun heq =>
        hnodup.1 (heq ▸ List.mem_map_of_mem hmem)
      rw [List.map_cons, if_neg hne, List.set_cons_succ, ih hnodup.2 ha]

theorem kindsAt_push (s : State) (contentIndex : Nat) (kind : PushKind)
    (k : Nat) :
    (s.push contentIndex kind).kindsAt k
      = s.kindsAt k ++ if contentIndex = k then [kind] else [] := by
  unfold State.kindsAt State.push
  rw [List.filter_append, List.map_append]
  congr 1
  by_cases h : contentIndex = k
  · rw [if_pos h, List.filter_cons_of_pos]
    · rfl
    · exact decide_eq_true h
  · rw [if_neg h, List.filter_cons_of_neg]
    · rfl
    · exact fun heq => h (of_decide_eq_true heq)

variable {s' : State} {block : Block} {delta : Text}

namespace Inv

variable {parseStreamingJson : Text → Arguments} {l : Ledger} {s : State}
  (h : Inv parseStreamingJson l s)

include h

theorem announced_distinct : (l.announced.map (·.outputIndex)).Nodup :=
  h.distinct.sublist
    ((List.filter_sublist.trans List.filter_sublist).map _)

/-- The slot of an open entry. -/
theorem slot_of_at {e : Entry} (hat : l.At k e) (hopen : e.finished = none) :
    s.slots.get e.outputIndex = some ⟨e.item, k⟩ :=
  (h.slots _ _).2 ⟨e, hat, rfl, hopen, rfl⟩

/-- The current item, block and content index of an open entry. -/
theorem current_of_at {e : Entry} (hat : l.At k e) (hopen : e.finished = none) :
    s.current e.outputIndex = some (e.item, e.block parseStreamingJson, k) := by
  unfold State.current
  rw [h.slot_of_at hat hopen]
  have hblock : s.content[k]? = some (e.block parseStreamingJson) := by
    rw [h.content, List.getElem?_map, show l.announced[k]? = some e from hat]
    rfl
  show (s.content[k]?.bind fun block => some (e.item, block, k)) = _
  rw [hblock]
  rfl

omit h in
/-- An open item has an entry with a block, if its type is known. -/
theorem at_of_open {outputIndex : Nat} {P : Entry → Prop}
    (h : l.Open outputIndex P) (hknown : ∀ e, P e → e.item.known) :
    ∃ e k, l.At k e ∧ e.outputIndex = outputIndex ∧ e.finished = none ∧ P e := by
  obtain ⟨e, hmem, hindex, hannounced, hfinished, hP⟩ := h
  have hmem' : e ∈ l.announced :=
    List.mem_filter.2 ⟨List.mem_filter.2 ⟨hmem, hknown e hP⟩, hannounced⟩
  obtain ⟨k, hk⟩ := List.mem_iff_getElem?.1 hmem'
  exact ⟨e, k, hk, hindex, hfinished, hP⟩

omit h in
/-- The entries with a block, after a change that leaves them those. -/
theorem announced_update {outputIndex : Nat} {f : Entry → Entry}
    (hknown : ∀ e ∈ l.entries, e.outputIndex = outputIndex →
      (f e).item.known = e.item.known ∧ (f e).announced = e.announced) :
    (l.update outputIndex f).announced
      = l.announced.map fun e =>
        if e.outputIndex = outputIndex then f e else e := by
  have hsame : ∀ e ∈ l.entries,
      ((if e.outputIndex = outputIndex then f e else e).item.known
          = e.item.known)
        ∧ (if e.outputIndex = outputIndex then f e else e).announced
          = e.announced := by
    intro e he
    by_cases hindex : e.outputIndex = outputIndex
    · rw [if_pos hindex]
      exact hknown e he hindex
    · rw [if_neg hindex]
      exact ⟨rfl, rfl⟩
  unfold Ledger.announced Ledger.seen Ledger.update
  rw [List.filter_map, List.filter_map, List.filter_filter, List.filter_filter]
  congr 1
  apply List.filter_congr
  intro e he
  obtain ⟨hitem, hannounced⟩ := hsame e he
  simp only [Function.comp, hitem, hannounced]

/-- An open entry is changed, and with it its block, its slot and what was
pushed for it. -/
theorem update {e : Entry} (hat : l.At k e) (f : Entry → Entry)
    (hindex : (f e).outputIndex = e.outputIndex)
    (hknown : (f e).item.known = e.item.known)
    (hannounced : (f e).announced = e.announced)
    (hkind : ∀ done, (f e).finished = some done → SameItem (f e).item done)
    (kinds : List PushKind)
    (hpushes : (f e).pushes parseStreamingJson
      = e.pushes parseStreamingJson ++ kinds)
    (hcontent : s'.content
      = s.content.set k ((f e).block parseStreamingJson))
    (hslots : ∀ j, s'.slots.get j = if e.outputIndex = j then
        if (f e).finished = none then some ⟨(f e).item, k⟩ else none
      else s.slots.get j)
    (hkindsAt : ∀ j, s'.kindsAt j
      = s.kindsAt j ++ if k = j then kinds else [])
    (hstop : s'.stopReason = s.stopReason) :
    Inv parseStreamingJson (l.update e.outputIndex f) s' := by
  have hmem : e ∈ l.entries :=
    List.mem_of_mem_filter (List.mem_of_mem_filter (List.mem_of_getElem? hat))
  have hunique : ∀ e' ∈ l.entries, e'.outputIndex = e.outputIndex → e' = e :=
    fun e' he' heq => List.inj_on_of_nodup_map h.distinct he' hmem heq
  have hset : (l.update e.outputIndex f).announced = l.announced.set k (f e) := by
    rw [announced_update]
    · exact map_eq_set h.announced_distinct hat
    · intro e' he' heq
      rw [hunique e' he' heq]
      exact ⟨hknown, hannounced⟩
  have hlength : k < l.announced.length := by
    by_contra hle
    rw [Ledger.At, List.getElem?_eq_none (by omega)] at hat
    cases hat
  have hentries : ∀ e' ∈ (l.update e.outputIndex f).entries,
      e' = f e ∨ e' ∈ l.entries := by
    intro e' he'
    obtain ⟨e'', he'', rfl⟩ := List.mem_map.1 he'
    by_cases heq : e''.outputIndex = e.outputIndex
    · rw [if_pos heq, hunique e'' he'' heq]
      exact .inl rfl
    · rw [if_neg heq]
      exact .inr he''
  constructor
  · have hmap : (l.update e.outputIndex f).entries.map (·.outputIndex)
        = l.entries.map (·.outputIndex) := by
      show (l.entries.map _).map _ = _
      rw [List.map_map]
      apply List.map_congr_left
      intro e' he'
      dsimp only [Function.comp]
      by_cases heq : e'.outputIndex = e.outputIndex
      · rw [if_pos heq, hunique e' he' heq, hindex]
      · rw [if_neg heq]
    rw [hmap]
    exact h.distinct
  · rw [hset, hcontent, h.content, List.map_set]
  · intro j slot
    rw [hslots]
    unfold Ledger.At
    rw [hset]
    by_cases hj : e.outputIndex = j
    · rw [if_pos hj]
      constructor
      · intro hslot
        by_cases hdone : (f e).finished = none
        · rw [if_pos hdone] at hslot
          rw [← Option.some.inj hslot]
          refine ⟨f e, ?_, hindex.trans hj, hdone, rfl⟩
          rw [List.getElem?_set_self hlength]
        · rw [if_neg hdone] at hslot
          cases hslot
      · rintro ⟨e', he', hindex', hopen', hitem⟩
        by_cases hk : k = slot.contentIndex
        · rw [← hk, List.getElem?_set_self hlength] at he'
          rw [Option.some.inj he', if_pos hopen', ← hitem, hk]
        · rw [List.getElem?_set_ne hk] at he'
          exfalso
          apply hk
          have heq := hunique e'
            (List.mem_of_mem_filter (List.mem_of_mem_filter
              (List.mem_of_getElem? he'))) (hindex'.trans hj.symm)
          rw [heq] at he'
          have hnodup := h.announced_distinct.of_map
          exact (List.getElem?_inj hlength hnodup).1
            ((show l.announced[k]? = some e from hat).trans he'.symm)
    · rw [if_neg hj, h.slots]
      constructor
      · rintro ⟨e', he', hindex', hopen', hitem⟩
        refine ⟨e', ?_, hindex', hopen', hitem⟩
        have hk : k ≠ slot.contentIndex := by
          rintro rfl
          apply hj
          rw [← hindex']
          exact congrArg Entry.outputIndex
            (Option.some.inj ((show l.announced[_]? = some e from hat).symm.trans
              he'))
        rw [List.getElem?_set_ne hk]
        exact he'
      · rintro ⟨e', he', hindex', hopen', hitem⟩
        refine ⟨e', ?_, hindex', hopen', hitem⟩
        by_cases hk : k = slot.contentIndex
        · rw [← hk, List.getElem?_set_self hlength] at he'
          rw [← Option.some.inj he', hindex] at hindex'
          exact absurd hindex' hj
        · rw [List.getElem?_set_ne hk] at he'
          exact he'
  · intro hall j
    have hall' : ∀ e' ∈ l.seen, e'.announced := by
      intro e' he'
      by_cases heq : e' = e
      · rw [heq]
        exact (List.mem_filter.1 (List.mem_of_getElem? hat)).2
      · have hne : e'.outputIndex ≠ e.outputIndex := fun hindex' =>
          heq (hunique e' (List.mem_of_mem_filter he') hindex')
        have hmem' : e' ∈ (l.update e.outputIndex f).entries :=
          List.mem_map.2 ⟨e', List.mem_of_mem_filter he', if_neg hne⟩
        exact hall e' (List.mem_filter.2 ⟨hmem', (List.mem_filter.1 he').2⟩)
    rw [hkindsAt, h.pushes hall', hset]
    by_cases hj : k = j
    · subst hj
      rw [if_pos rfl, List.getElem?_set_self hlength,
        show l.announced[k]? = some e from hat]
      exact hpushes.symm
    · rw [if_neg hj, List.append_nil, List.getElem?_set_ne hj]
  · intro e' he' done hdone
    rcases hentries e' he' with rfl | he'
    · exact hkind done hdone
    · exact h.kinds e' he' done hdone
  · rw [hstop]
    exact h.stopReason

/-- The slot of an open entry, left as it is. -/
theorem slots_kept {e : Entry} (hat : l.At k e)
    (hopen : e.finished = none) (j : Nat) :
    s.slots.get j
      = if e.outputIndex = j then
          if e.finished = none then some ⟨e.item, k⟩ else none
        else s.slots.get j := by
  by_cases hj : e.outputIndex = j
  · rw [if_pos hj, if_pos hopen, ← hj, h.slot_of_at hat hopen]
  · rw [if_neg hj]

/-- The block of an entry, left as it is. -/
theorem content_kept {e : Entry} (hat : l.At k e)
    (hsame : block = e.block parseStreamingJson) :
    s.content = s.content.set k block := by
  have hblock : s.content[k]? = some block := by
    rw [h.content, List.getElem?_map, show l.announced[k]? = some e from hat,
      hsame]
    rfl
  obtain ⟨hlt, heq⟩ := List.getElem?_eq_some_iff.1 hblock
  rw [← heq, List.set_getElem_self hlt]

-- ======== the item events

variable {outputIndex : Nat}

theorem reasoningSummaryPartAdded {part : Text}
    (hallowed : l.Open outputIndex fun e => ∃ item, e.item = .reasoning item) :
    Inv parseStreamingJson
      (l.update outputIndex (.mapItem (.addSummaryPart part)))
      (reasoningSummaryPartAdded s outputIndex part) := by
  obtain ⟨e, k, hat, rfl, hopen, item, hitem⟩ := at_of_open hallowed (by
    rintro e ⟨item, hitem⟩
    rw [hitem]
    rfl)
  have hcurrent := h.current_of_at hat hopen
  obtain ⟨i, _, announced, deltas, completed, _⟩ := e
  dsimp only at hitem hopen
  subst hitem hopen
  simp only [Responses.reasoningSummaryPartAdded, hcurrent]
  apply h.update hat _ rfl rfl rfl
    (fun _ heq => by cases heq) [] (List.append_nil _).symm
  · exact h.content_kept hat rfl
  · exact fun j => JsMap.get_set _ _ j _
  · intro j
    rw [ite_self, List.append_nil]
    rfl
  · rfl

theorem reasoningSummaryTextDelta (hallowed : l.Open outputIndex fun e =>
      ∃ item, e.item = .reasoning item ∧ item.summary ≠ []) :
    Inv parseStreamingJson
      (l.update outputIndex
        fun e => (e.mapItem (.addSummaryText delta)).say delta)
      (reasoningSummaryTextDelta s outputIndex delta) := by
  obtain ⟨e, k, hat, rfl, hopen, item, hitem, hsummary⟩ :=
    at_of_open hallowed (by
      rintro e ⟨item, hitem, -⟩
      rw [hitem]
      rfl)
  have hcurrent := h.current_of_at hat hopen
  obtain ⟨i, _, announced, deltas, completed, _⟩ := e
  dsimp only at hitem hopen
  subst hitem hopen
  simp only [Responses.reasoningSummaryTextDelta, hcurrent, Entry.block,
    if_neg hsummary]
  apply h.update hat _ rfl rfl rfl (fun _ heq => by cases heq)
    [.thinkingDelta delta]
  · simp [Entry.pushes, Entry.say, Entry.mapItem, Item.addSummaryText]
  · simp [Entry.block, Entry.say, Entry.mapItem, Item.addSummaryText,
      State.setBlock, State.setItem, State.push]
  · exact fun j => JsMap.get_set _ _ j _
  · exact kindsAt_push _ _ _
  · rfl

theorem reasoningTextDelta
    (hallowed : l.Open outputIndex fun e => ∃ item, e.item = .reasoning item) :
    Inv parseStreamingJson (l.update outputIndex (.say delta))
      (reasoningTextDelta s outputIndex delta) := by
  obtain ⟨e, k, hat, rfl, hopen, item, hitem⟩ := at_of_open hallowed (by
    rintro e ⟨item, hitem⟩
    rw [hitem]
    rfl)
  have hcurrent := h.current_of_at hat hopen
  have hslots := h.slots_kept hat hopen
  obtain ⟨i, _, announced, deltas, completed, _⟩ := e
  dsimp only at hitem hopen
  subst hitem hopen
  simp only [Responses.reasoningTextDelta, hcurrent, Entry.block]
  apply h.update hat _ rfl rfl rfl (fun _ heq => by cases heq)
    [.thinkingDelta delta]
  · simp [Entry.pushes, Entry.say]
  · simp [Entry.block, Entry.say, State.setBlock, State.push]
  · exact hslots
  · exact kindsAt_push _ _ _
  · rfl

theorem contentPartAdded {part : Part}
    (hallowed : l.Open outputIndex fun e => ∃ item, e.item = .message item) :
    Inv parseStreamingJson (l.update outputIndex (.mapItem (.addPart part)))
      (contentPartAdded s outputIndex (some part)) := by
  obtain ⟨e, k, hat, rfl, hopen, item, hitem⟩ := at_of_open hallowed (by
    rintro e ⟨item, hitem⟩
    rw [hitem]
    rfl)
  have hcurrent := h.current_of_at hat hopen
  obtain ⟨i, _, announced, deltas, completed, _⟩ := e
  dsimp only at hitem hopen
  subst hitem hopen
  simp only [Responses.contentPartAdded, hcurrent]
  apply h.update hat _ rfl rfl rfl
    (fun _ heq => by cases heq) [] (List.append_nil _).symm
  · exact h.content_kept hat rfl
  · exact fun j => JsMap.get_set _ _ j _
  · intro j
    rw [ite_self, List.append_nil]
    rfl
  · rfl

theorem outputTextDelta
    (hallowed : l.Open outputIndex fun e => ∃ item last, e.item = .message item
      ∧ item.content.getLast? = some (.outputText last)) :
    Inv parseStreamingJson
      (l.update outputIndex fun e => (e.mapItem (.addText delta)).say delta)
      (outputTextDelta s outputIndex delta) := by
  obtain ⟨e, k, hat, rfl, hopen, item, last, hitem, hlast⟩ :=
    at_of_open hallowed (by
      rintro e ⟨item, -, hitem, -⟩
      rw [hitem]
      rfl)
  have hcurrent := h.current_of_at hat hopen
  obtain ⟨i, _, announced, deltas, completed, _⟩ := e
  dsimp only at hitem hopen
  subst hitem hopen
  simp only [Responses.outputTextDelta, hcurrent, Entry.block, hlast]
  apply h.update hat _ rfl
    (by simp only [Entry.say, Entry.mapItem, Item.addText, hlast]; rfl) rfl
    (fun _ heq => by cases heq) [.textDelta delta]
  · simp [Entry.pushes, Entry.say, Entry.mapItem, Item.addText, hlast]
  · simp [Entry.block, Entry.say, Entry.mapItem, Item.addText, hlast,
      State.setBlock, State.setItem, State.push]
  · simp only [Entry.say, Entry.mapItem, Item.addText, hlast]
    exact fun j => JsMap.get_set _ _ j _
  · exact kindsAt_push _ _ _
  · rfl

theorem refusalDelta
    (hallowed : l.Open outputIndex fun e => ∃ item last, e.item = .message item
      ∧ item.content.getLast? = some (.refusal last)) :
    Inv parseStreamingJson
      (l.update outputIndex fun e => (e.mapItem (.addText delta)).say delta)
      (refusalDelta s outputIndex delta) := by
  obtain ⟨e, k, hat, rfl, hopen, item, last, hitem, hlast⟩ :=
    at_of_open hallowed (by
      rintro e ⟨item, -, hitem, -⟩
      rw [hitem]
      rfl)
  have hcurrent := h.current_of_at hat hopen
  obtain ⟨i, _, announced, deltas, completed, _⟩ := e
  dsimp only at hitem hopen
  subst hitem hopen
  simp only [Responses.refusalDelta, hcurrent, Entry.block, hlast]
  apply h.update hat _ rfl
    (by simp only [Entry.say, Entry.mapItem, Item.addText, hlast]; rfl) rfl
    (fun _ heq => by cases heq) [.textDelta delta]
  · simp [Entry.pushes, Entry.say, Entry.mapItem, Item.addText, hlast]
  · simp [Entry.block, Entry.say, Entry.mapItem, Item.addText, hlast,
      State.setBlock, State.setItem, State.push]
  · simp only [Entry.say, Entry.mapItem, Item.addText, hlast]
    exact fun j => JsMap.get_set _ _ j _
  · exact kindsAt_push _ _ _
  · rfl

section
variable (hallowed : l.Open outputIndex fun e => (∃ item, e.item = .functionCall item) ∧ e.completed = none)
include hallowed

theorem functionCallArgumentsDelta :
    Inv parseStreamingJson (l.update outputIndex (.say delta))
      (functionCallArgumentsDelta parseStreamingJson s outputIndex delta) := by
  obtain ⟨e, k, hat, rfl, hopen, ⟨item, hitem⟩, hcompleted⟩ :=
    at_of_open hallowed (by
      rintro e ⟨⟨item, hitem⟩, -⟩
      rw [hitem]
      rfl)
  have hcurrent := h.current_of_at hat hopen
  have hslots := h.slots_kept hat hopen
  obtain ⟨i, _, announced, deltas, _, _⟩ := e
  dsimp only at hitem hopen hcompleted
  subst hitem hopen hcompleted
  simp only [Responses.functionCallArgumentsDelta, hcurrent, Entry.block]
  apply h.update hat _ rfl rfl rfl (fun _ heq => by cases heq)
    [.toolcallDelta delta]
  · simp [Entry.pushes, Entry.argumentDeltas, Entry.say]
  · simp [Entry.block, Entry.openArguments, Entry.partialJson, Entry.say,
      State.setBlock, State.push]
  · exact hslots
  · exact kindsAt_push _ _ _
  · rfl

theorem functionCallArgumentsDone {arguments : Text} :
    Inv parseStreamingJson
      (l.update outputIndex fun e => { e with completed := some arguments })
      (functionCallArgumentsDone parseStreamingJson s outputIndex
        arguments) := by
  obtain ⟨e, k, hat, rfl, hopen, ⟨item, hitem⟩, hcompleted⟩ :=
    at_of_open hallowed (by
      rintro e ⟨⟨item, hitem⟩, -⟩
      rw [hitem]
      rfl)
  have hcurrent := h.current_of_at hat hopen
  have hslots := h.slots_kept hat hopen
  obtain ⟨i, _, announced, deltas, _, _⟩ := e
  dsimp only at hitem hopen hcompleted
  subst hitem hopen hcompleted
  simp only [Responses.functionCallArgumentsDone, hcurrent, Entry.block,
    Entry.partialJson, Option.getD_none]
  -- The rest of the arguments is pushed as one more delta, if there is one.
  cases hrest : remainder arguments (item.arguments ++ deltas.flatten) with
  | nil =>
    rw [if_pos rfl]
    apply h.update hat _ rfl rfl rfl (fun _ heq => by cases heq) []
    · simp [Entry.pushes, Entry.argumentDeltas, hrest]
    · simp [Entry.block, Entry.openArguments, Entry.partialJson, State.setBlock]
    · exact hslots
    · intro j
      rw [ite_self, List.append_nil]
      rfl
    · rfl
  | cons c cs =>
    rw [if_neg (List.cons_ne_nil _ _)]
    apply h.update hat _ rfl rfl rfl (fun _ heq => by cases heq)
      [.toolcallDelta (c :: cs)]
    · simp [Entry.pushes, Entry.argumentDeltas, hrest]
    · simp [Entry.block, Entry.openArguments, Entry.partialJson,
        State.setBlock, State.push]
    · exact hslots
    · exact kindsAt_push _ _ _
    · rfl

end

-- ======== items that come and are done

omit h in
theorem announced_add (e : Entry) :
    (l.add e).announced
      = l.announced ++ if e.item.known ∧ e.announced then [e] else [] := by
  unfold Ledger.announced Ledger.seen Ledger.add
  rw [List.filter_append, List.filter_append]
  congr 1
  by_cases hknown : e.item.known
  · by_cases hannounced : e.announced
    · simp [hknown, hannounced]
    · simp [hknown, hannounced]
  · simp [hknown]

omit h in
theorem seen_of_add {e e' : Entry} (h : e' ∈ l.seen) : e' ∈ (l.add e).seen :=
  List.mem_filter.2
    ⟨List.mem_append_left _ (List.mem_of_mem_filter h), (List.mem_filter.1 h).2⟩

theorem distinct_add {e : Entry} (hnew : ¬ l.Has e.outputIndex) :
    ((l.add e).entries.map (·.outputIndex)).Nodup := by
  show ((l.entries ++ [e]).map _).Nodup
  rw [List.map_append, List.map_singleton, List.nodup_append_comm]
  refine List.nodup_cons.2 ⟨?_, h.distinct⟩
  intro hmem
  obtain ⟨e', he', hindex⟩ := List.mem_map.1 hmem
  exact hnew ⟨e', he', hindex⟩

omit h in
theorem not_at {e : Entry} (hnew : ¬ l.Has outputIndex)
    (hat : l.At k e) : e.outputIndex ≠ outputIndex := fun heq =>
  hnew ⟨e, List.mem_of_mem_filter (List.mem_of_mem_filter
    (List.mem_of_getElem? hat)), heq⟩

theorem slot_none (hnew : ¬ l.Has outputIndex) :
    s.slots.get outputIndex = none := by
  cases hslot : s.slots.get outputIndex with
  | none => rfl
  | some slot =>
    obtain ⟨e, hat, hindex, -⟩ := (h.slots _ _).1 hslot
    exact absurd hindex (not_at hnew hat)

/-- A new item with a block. -/
theorem start (hnew : ¬ l.Has outputIndex)
    (hknown : item.known) {kind : PushKind}
    (hblock : (Entry.opened outputIndex item).block parseStreamingJson = block)
    (hpushes : (Entry.opened outputIndex item).pushes parseStreamingJson
      = [kind]) :
    Inv parseStreamingJson (l.add (.opened outputIndex item))
      (s.start outputIndex item block kind) := by
  have hadd : (l.add (.opened outputIndex item)).announced
      = l.announced ++ [.opened outputIndex item] := by
    rw [announced_add, if_pos ⟨hknown, rfl⟩]
  have hlength : s.content.length = l.announced.length := by
    rw [h.content, List.length_map]
  constructor
  · exact h.distinct_add hnew
  · show s.content ++ [block] = _
    rw [hadd, List.map_append, h.content, ← hblock]
    rfl
  · intro j slot
    show (s.slots.set _ _).get j = _ ↔ _
    unfold Ledger.At
    rw [JsMap.get_set, hadd, hlength]
    by_cases hj : outputIndex = j
    · rw [if_pos hj]
      constructor
      · intro heq
        rw [← Option.some.inj heq]
        exact ⟨_, List.getElem?_concat_length, hj, rfl, rfl⟩
      · rintro ⟨e, hat, hindex, -, hitem⟩
        by_cases hk : slot.contentIndex < l.announced.length
        · rw [List.getElem?_append_left hk] at hat
          exact absurd (hindex.trans hj.symm) (not_at hnew hat)
        · rw [List.getElem?_append_right (by omega)] at hat
          have hzero : slot.contentIndex - l.announced.length = 0 := by
            by_contra hne
            rw [List.getElem?_eq_none (by rw [List.length_singleton]; omega)]
              at hat
            cases hat
          rw [hzero] at hat
          rw [← Option.some.inj hat] at hitem
          obtain ⟨slotItem, contentIndex⟩ := slot
          dsimp only at hzero hk hitem
          rw [hitem, show contentIndex = l.announced.length by omega]
          rfl
    · rw [if_neg hj, h.slots]
      constructor
      · rintro ⟨e, hat, hrest⟩
        have hk := (List.getElem?_eq_some_iff.1 hat).1
        exact ⟨e, (List.getElem?_append_left hk).trans hat, hrest⟩
      · rintro ⟨e, hat, hindex, hrest⟩
        refine ⟨e, ?_, hindex, hrest⟩
        rcases List.mem_append.1 (List.mem_of_getElem? hat) with hmem | hmem
        · by_cases hk : slot.contentIndex < l.announced.length
          · rwa [List.getElem?_append_left hk] at hat
          · exfalso
            rw [List.getElem?_append_right (by omega)] at hat
            rw [List.mem_singleton.1 (List.mem_of_getElem? hat)] at hindex
            exact hj hindex
        · rw [List.mem_singleton.1 hmem] at hindex
          exact absurd hindex hj
  · intro hall j
    have hold := h.pushes (fun e he => hall e (seen_of_add he)) j
    show ({ s with content := s.content ++ [block] }.push
      s.content.length kind).kindsAt j = _
    rw [kindsAt_push, hadd, hlength]
    show s.kindsAt j ++ _ = _
    rw [hold]
    by_cases hj : l.announced.length = j
    · subst hj
      rw [if_pos rfl, List.getElem?_concat_length,
        List.getElem?_eq_none (Nat.le_refl _)]
      exact hpushes.symm
    · rw [if_neg hj, List.append_nil]
      by_cases hlt : j < l.announced.length
      · rw [List.getElem?_append_left hlt]
      · rw [List.getElem?_eq_none (by omega), List.getElem?_eq_none (by
          rw [List.length_append, List.length_singleton]
          omega)]
  · intro e he done hdone
    rcases List.mem_append.1 he with he | he
    · exact h.kinds e he done hdone
    · rw [List.mem_singleton.1 he] at hdone
      cases hdone
  · exact h.stopReason

/-- A new item without a block; an end may be pushed for it. -/
theorem addSilent {e : Entry} (hnew : ¬ l.Has e.outputIndex)
    (hsilent : ¬ (e.item.known ∧ e.announced))
    (hkind : ∀ done, e.finished = some done → SameItem e.item done)
    (hcontent : s'.content = s.content)
    (hslots : ∀ j, s'.slots.get j = s.slots.get j)
    (hpushed : ¬ e.item.known → s'.pushed = s.pushed)
    (hstop : s'.stopReason = s.stopReason) :
    Inv parseStreamingJson (l.add e) s' := by
  have hadd : (l.add e).announced = l.announced := by
    rw [announced_add, if_neg hsilent, List.append_nil]
  constructor
  · exact h.distinct_add hnew
  · rw [hadd, hcontent, h.content]
  · intro j slot
    unfold Ledger.At
    rw [hslots, hadd]
    exact h.slots j slot
  · intro hall j
    have hknown : ¬ e.item.known := fun hknown =>
      hsilent ⟨hknown, hall e (List.mem_filter.2
        ⟨List.mem_append_right _ (List.mem_singleton_self e), hknown⟩)⟩
    rw [hadd, ← h.pushes (fun e he => hall e (seen_of_add he)) j]
    unfold State.kindsAt
    rw [hpushed hknown]
  · intro e' he' done hdone
    rcases List.mem_append.1 he' with he' | he'
    · exact h.kinds e' he' done hdone
    · rw [List.mem_singleton.1 he'] at hdone ⊢
      exact hkind done hdone
  · rw [hstop]
    exact h.stopReason

theorem outputItemAdded (hnew : ¬ l.Has outputIndex) :
    Inv parseStreamingJson (l.add (.opened outputIndex item))
      (outputItemAdded s outputIndex item) := by
  cases item with
  | reasoning item => exact h.start hnew rfl rfl rfl
  | message item => exact h.start hnew rfl rfl rfl
  | functionCall item =>
    refine h.start hnew rfl ?_ ?_
    · simp [Entry.block, Entry.opened, Entry.openArguments, Entry.partialJson,
        Entry.callId]
    · simp [Entry.pushes, Entry.opened, Entry.argumentDeltas]
  | other =>
    exact h.addSilent hnew (fun hboth => by cases hboth.1)
      (fun _ heq => by cases heq) rfl (fun _ => rfl) (fun _ => rfl) rfl

/-- An item of an unknown type is done. -/
theorem doneUnknown (hunknown : ¬ item.known)
    (hallowed : l.Open outputIndex fun e => SameItem e.item item)
    (hcontent : s'.content = s.content)
    (hslots : ∀ j, s'.slots.get j
      = if outputIndex = j then none else s.slots.get j)
    (hpushed : s'.pushed = s.pushed) (hstop : s'.stopReason = s.stopReason) :
    Inv parseStreamingJson
      (l.update outputIndex fun e => { e with finished := some item }) s' := by
  obtain ⟨e, hmem, rfl, -, -, hsame⟩ := hallowed
  have hunique : ∀ e' ∈ l.entries, e'.outputIndex = e.outputIndex → e' = e :=
    fun e' he' heq => List.inj_on_of_nodup_map h.distinct he' hmem heq
  have hat : ∀ e' ∈ l.announced, e'.outputIndex ≠ e.outputIndex := by
    intro e' he' heq
    have hseen := List.mem_of_mem_filter he'
    rw [hunique e' (List.mem_of_mem_filter hseen) heq] at hseen
    apply hunknown
    rw [← hsame.known]
    exact (List.mem_filter.1 hseen).2
  have hannounced : (l.update e.outputIndex fun e =>
      { e with finished := some item }).announced = l.announced := by
    rw [announced_update (f := fun e => { e with finished := some item })
      fun _ _ _ => ⟨rfl, rfl⟩, List.map_congr_left (g := id), List.map_id]
    exact fun e' he' => if_neg (hat e' he')
  constructor
  · have hmap : (l.update e.outputIndex fun e =>
        { e with finished := some item }).entries.map (·.outputIndex)
        = l.entries.map (·.outputIndex) := by
      show (l.entries.map _).map _ = _
      rw [List.map_map]
      apply List.map_congr_left
      intro e' _
      dsimp only [Function.comp]
      by_cases heq : e'.outputIndex = e.outputIndex
      · rw [if_pos heq]
      · rw [if_neg heq]
    rw [hmap]
    exact h.distinct
  · rw [hannounced, hcontent, h.content]
  · intro j slot
    unfold Ledger.At
    rw [hslots, hannounced]
    by_cases hj : e.outputIndex = j
    · rw [if_pos hj]
      constructor
      · intro heq
        cases heq
      · rintro ⟨e', he', hindex, -⟩
        exact absurd (hindex.trans hj.symm)
          (hat e' (List.mem_of_getElem? he'))
    · rw [if_neg hj]
      exact h.slots j slot
  · intro hall j
    have hall' : ∀ e' ∈ l.seen, e'.announced := by
      intro e' he'
      by_cases heq : e'.outputIndex = e.outputIndex
      · exfalso
        rw [hunique e' (List.mem_of_mem_filter he') heq] at he'
        apply hunknown
        rw [← hsame.known]
        exact (List.mem_filter.1 he').2
      · have hmem' : e' ∈ (l.update e.outputIndex fun e =>
            { e with finished := some item }).entries :=
          List.mem_map.2 ⟨e', List.mem_of_mem_filter he', if_neg heq⟩
        exact hall e' (List.mem_filter.2 ⟨hmem', (List.mem_filter.1 he').2⟩)
    rw [hannounced, ← h.pushes hall' j]
    unfold State.kindsAt
    rw [hpushed]
  · intro e' he' done hdone
    obtain ⟨e'', he'', rfl⟩ := List.mem_map.1 he'
    by_cases heq : e''.outputIndex = e.outputIndex
    · rw [if_pos heq] at hdone ⊢
      rw [← Option.some.inj hdone, hunique e'' he'' heq]
      exact hsame
    · rw [if_neg heq] at hdone ⊢
      exact h.kinds e'' he'' done hdone
  · rw [hstop]
    exact h.stopReason

/-- An item that was announced is done. -/
theorem outputItemDone
    (hallowed : l.Open outputIndex fun e => SameItem e.item item) :
    Inv parseStreamingJson
      (l.update outputIndex fun e => { e with finished := some item })
      (outputItemDone parseStreamingJson s outputIndex item) := by
  by_cases hknown : item.known
  · obtain ⟨e, k, hat, rfl, hopen, hsame⟩ := at_of_open hallowed
      fun e hsame => hsame.known.trans hknown
    have hcurrent := h.current_of_at hat hopen
    have hindex : s.currentContentIndex e.outputIndex = k := by
      unfold State.currentContentIndex
      rw [h.slot_of_at hat hopen]
      rfl
    obtain ⟨i, announcedItem, announced, deltas, completed, _⟩ := e
    dsimp only at hsame hopen hindex
    subst hopen
    cases item with
    | reasoning done =>
      cases announcedItem with
      | reasoning item =>
        simp only [Responses.outputItemDone, hcurrent, hindex,
          Option.map_some, Entry.block]
        refine h.update hat _ rfl rfl rfl ?_ [.thinkingEnd _] ?_ ?_ ?_
          (kindsAt_push _ _ _) rfl
        · intro _ heq
          rw [← Option.some.inj heq]
          exact hsame
        · simp [Entry.pushes, Entry.doneThinking]
        · rfl
        · exact JsMap.get_delete _ _
      | _ => cases hsame
    | message done =>
      cases announcedItem with
      | message item =>
        simp only [Responses.outputItemDone, hcurrent, hindex,
          Option.map_some, Entry.block]
        refine h.update hat _ rfl rfl rfl ?_ [.textEnd _] ?_ ?_ ?_
          (kindsAt_push _ _ _) rfl
        · intro _ heq
          rw [← Option.some.inj heq]
          exact hsame
        · simp [Entry.pushes]
        · rfl
        · exact JsMap.get_delete _ _
      | _ => cases hsame
    | functionCall done =>
      cases announcedItem with
      | functionCall item =>
        simp only [Responses.outputItemDone, hcurrent, hindex,
          Option.map_some, Entry.block, Option.getD_some]
        refine h.update hat _ rfl rfl rfl ?_ [.toolcallEnd _] ?_ ?_ ?_
          (kindsAt_push _ _ _) rfl
        · intro _ heq
          rw [← Option.some.inj heq]
          exact hsame
        · simp [Entry.pushes, Entry.argumentDeltas, Entry.block,
            Entry.doneArguments, Entry.partialJson]
        · rfl
        · exact JsMap.get_delete _ _
      | _ => cases hsame
    | other => cases hknown
  · cases item with
    | other =>
      exact h.doneUnknown hknown hallowed rfl (JsMap.get_delete _ _) rfl rfl
    | _ => exact absurd rfl hknown

/-- An item is done that was not announced: there is no block for it. -/
theorem outputItemDone_unannounced (hnew : ¬ l.Has outputIndex) :
    Inv parseStreamingJson (l.add (.unannounced outputIndex item))
      (Responses.outputItemDone parseStreamingJson s outputIndex item) := by
  have hcurrent : s.current outputIndex = none := by
    unfold State.current
    rw [h.slot_none hnew]
    rfl
  have hslots : ∀ j, (s.slots.delete outputIndex).get j = s.slots.get j := by
    intro j
    rw [JsMap.get_delete]
    by_cases hj : outputIndex = j
    · rw [if_pos hj, ← hj, h.slot_none hnew]
    · rw [if_neg hj]
  have hsame : ∀ done, (Entry.unannounced outputIndex item).finished = some done
      → SameItem item done := by
    intro done heq
    rw [← Option.some.inj heq]
    cases item with
    | functionCall item => exact ⟨rfl, rfl, rfl⟩
    | other => exact trivial
    | _ => exact rfl
  have hsilent : ¬ ((Entry.unannounced outputIndex item).item.known
      ∧ (Entry.unannounced outputIndex item).announced) := by
    rintro ⟨-, h⟩
    cases h
  cases item with
  | other =>
    unfold Responses.outputItemDone
    exact h.addSilent hnew hsilent hsame rfl hslots (fun _ => rfl) rfl
  | _ =>
    simp only [Responses.outputItemDone, hcurrent]
    exact h.addSilent hnew hsilent hsame rfl hslots
      (fun hunknown => absurd rfl hunknown) rfl

-- ======== the run

/-- Every event that is allowed leaves the state that of the entries. -/
theorem step {xai : Bool} {event : ResponseStreamEvent}
    (hallowed : Allowed l event)
    (hterminal : ∀ response, event ≠ .terminal response)
    (hfailed : ∀ message, event ≠ .failed message) :
    ∃ s', Responses.step parseStreamingJson s xai event = .ok s'
      ∧ Inv parseStreamingJson (l.step event) s' := by
  cases event with
  | created responseId =>
    exact ⟨_, rfl, h.distinct, h.content, h.slots, h.pushes, h.kinds,
      h.stopReason⟩
  | ignored => exact ⟨_, rfl, h⟩
  | outputItemAdded outputIndex item =>
    exact ⟨_, rfl, h.outputItemAdded hallowed⟩
  | reasoningSummaryPartAdded outputIndex part =>
    exact ⟨_, rfl, h.reasoningSummaryPartAdded hallowed⟩
  | reasoningSummaryTextDelta outputIndex delta =>
    exact ⟨_, rfl, h.reasoningSummaryTextDelta hallowed⟩
  | reasoningSummaryPartDone outputIndex =>
    exact ⟨_, rfl, h.reasoningSummaryTextDelta hallowed⟩
  | reasoningTextDelta outputIndex delta =>
    exact ⟨_, rfl, h.reasoningTextDelta hallowed⟩
  | contentPartAdded outputIndex part =>
    refine ⟨_, rfl, ?_⟩
    cases part with
    | none =>
      have hsame : Responses.contentPartAdded s outputIndex none = s := by
        unfold Responses.contentPartAdded
        rcases s.current outputIndex with - | ⟨_ | _ | _ | _, _, _⟩ <;>
          rfl
      rw [hsame]
      exact h
    | some part => exact h.contentPartAdded hallowed
  | outputTextDelta outputIndex delta =>
    exact ⟨_, rfl, h.outputTextDelta hallowed⟩
  | refusalDelta outputIndex delta => exact ⟨_, rfl, h.refusalDelta hallowed⟩
  | functionCallArgumentsDelta outputIndex delta =>
    exact ⟨_, rfl, h.functionCallArgumentsDelta hallowed⟩
  | functionCallArgumentsDone outputIndex arguments =>
    exact ⟨_, rfl, h.functionCallArgumentsDone hallowed⟩
  | outputItemDone outputIndex item =>
    refine ⟨_, rfl, ?_⟩
    simp only [Ledger.step]
    rcases hallowed with hnew | hopen
    · rw [if_neg hnew]
      exact h.outputItemDone_unannounced hnew
    · obtain ⟨e, hmem, hindex, -⟩ := id hopen
      rw [if_pos ⟨e, hmem, hindex⟩]
      exact h.outputItemDone hopen
  | terminal response => exact absurd rfl (hterminal response)
  | failed message => exact absurd rfl (hfailed message)

end Inv

theorem Inv.initial (parseStreamingJson : Text → Arguments) :
    Inv parseStreamingJson .empty .initial where
  distinct := List.nodup_nil
  content := rfl
  slots := by
    intro outputIndex slot
    constructor
    · intro heq
      cases heq
    · rintro ⟨e, hat, -⟩
      cases hat
  pushes := fun _ _ => rfl
  kinds := fun _ he => absurd he List.not_mem_nil
  stopReason := rfl

/-- The state at the end: that of the entries, with the terminal response. -/
structure Ended (parseStreamingJson : Text → Arguments) (xai : Bool)
    (l : Ledger) (s' : State) : Prop where
  state : ∃ s, Inv parseStreamingJson l s
    ∧ s' = match l.response with
      | none => s
      | some response => terminal s xai response
  status : ∀ response, l.response = some response →
    response.status = some .completed ∨ response.status = some .incomplete

theorem response_step {l : Ledger} {event : ResponseStreamEvent}
    (hterminal : ∀ response, event ≠ .terminal response) :
    (l.step event).response = l.response := by
  cases event with
  | contentPartAdded outputIndex part => cases part <;> rfl
  | outputItemDone outputIndex item =>
    simp only [Ledger.step]
    by_cases hhas : l.Has outputIndex
    · rw [if_pos hhas]
      rfl
    · rw [if_neg hhas]
      rfl
  | terminal response => exact absurd rfl (hterminal response)
  | _ => rfl

/-- A legal run leads to a state at the end. -/
theorem ended_of_legal {parseStreamingJson : Text → Arguments} {xai : Bool}
    {events : List ResponseStreamEvent} :
    ∀ {l : Ledger} {s : State}, LegalFrom l events → l.response = none →
      Inv parseStreamingJson l s →
      Ended parseStreamingJson xai (events.foldl Ledger.step l)
        (processResponsesStream parseStreamingJson xai s events).1 := by
  induction events with
  | nil =>
    intro l s _ hnone h
    constructor
    · refine ⟨s, h, ?_⟩
      rw [List.foldl_nil, hnone]
      rfl
    · intro response heq
      rw [List.foldl_nil, hnone] at heq
      cases heq
  | cons event events ih =>
    intro l s hlegal hnone h
    obtain ⟨-, -, hallowed, hrest⟩ := hlegal
    by_cases hterminal : ∃ response, event = .terminal response
    · obtain ⟨response, rfl⟩ := hterminal
      cases events with
      | nil =>
        constructor
        · exact ⟨s, ⟨h.distinct, h.content, h.slots, h.pushes, h.kinds,
            h.stopReason⟩, rfl⟩
        · intro response' heq
          rw [← Option.some.inj heq]
          exact hallowed
      | cons event events => cases hrest.1
    · by_cases hfailed : ∃ message, event = .failed message
      · obtain ⟨message, rfl⟩ := hfailed
        cases events with
        | nil =>
          constructor
          · refine ⟨s, ⟨h.distinct, h.content, h.slots, h.pushes, h.kinds,
              h.stopReason⟩, ?_⟩
            show s = match l.response with
              | none => s
              | some response => terminal s xai response
            rw [hnone]
          · intro response heq
            rw [show List.foldl Ledger.step l [.failed message]
              = { l with failed := true } from rfl] at heq
            rw [show l.response = some response from heq] at hnone
            cases hnone
        | cons event events => cases hrest.2.1
      · have hterminal' : ∀ response, event ≠ .terminal response :=
          fun response heq => hterminal ⟨response, heq⟩
        have hnext : ∃ s', step parseStreamingJson s xai event = .ok s'
            ∧ Inv parseStreamingJson (l.step event) s' :=
          h.step hallowed hterminal' fun message heq =>
            hfailed ⟨message, heq⟩
        obtain ⟨s', hstep, h'⟩ := hnext
        simp only [processResponsesStream, hstep, List.foldl_cons]
        exact ih hrest ((response_step hterminal').trans hnone) h'

-- ======== told and shown

/-- What the terminal response may change of a block. -/
def Refreshed (block block' : Block) : Prop :=
  block' = block ∨ ∃ thinking item item',
    block = .thinking thinking (some item)
      ∧ block' = .thinking thinking (some item') ∧ SameReasoning item' item

theorem Refreshed.trans {b b' b'' : Block} (h : Refreshed b b')
    (h' : Refreshed b' b'') : Refreshed b b'' := by
  rcases h with rfl | ⟨thinking, item, item', rfl, rfl, hsame⟩
  · exact h'
  · rcases h' with rfl | ⟨_, _, item'', heq, rfl, hsame'⟩
    · exact .inr ⟨thinking, item, item', rfl, rfl, hsame⟩
    · cases heq
      exact .inr ⟨thinking, item, item'', rfl, rfl, hsame'.trans hsame⟩

theorem fillEncrypted_eq_map (item : Item) :
    ∃ g : Block → Block, (∀ block, Refreshed block (g block))
      ∧ ∀ content, fillEncrypted content item = content.map g := by
  have hid : ∃ g : Block → Block, (∀ block, Refreshed block (g block))
      ∧ ∀ content : List Block, content = content.map g :=
    ⟨id, fun _ => .inl rfl, fun content => (List.map_id content).symm⟩
  cases item with
  | reasoning item =>
    cases hencrypted : item.encryptedContent with
    | none =>
      simp only [fillEncrypted, hencrypted]
      exact hid
    | some encrypted =>
      simp only [fillEncrypted, hencrypted]
      by_cases hempty : encrypted = []
      · simp only [if_pos hempty]
        exact hid
      · simp only [if_neg hempty]
        refine ⟨_, ?_, fun _ => rfl⟩
        rintro (⟨thinking, - | stored⟩ | _ | _)
        · exact .inl rfl
        · dsimp only
          by_cases hid : stored.id = item.id
              ∧ stored.encryptedContent.getD [] = []
          · rw [if_pos hid]
            exact .inr ⟨thinking, stored, _, rfl, rfl, rfl⟩
          · rw [if_neg hid]
            exact .inl rfl
        · exact .inl rfl
        · exact .inl rfl
  | _ => exact hid

theorem foldl_fillEncrypted (output : List Item) :
    ∃ g : Block → Block, (∀ block, Refreshed block (g block))
      ∧ ∀ content, output.foldl fillEncrypted content = content.map g := by
  induction output with
  | nil => exact ⟨id, fun _ => .inl rfl, fun content => (List.map_id content).symm⟩
  | cons item output ih =>
    obtain ⟨g, hg, hmap⟩ := fillEncrypted_eq_map item
    obtain ⟨g', hg', hmap'⟩ := ih
    refine ⟨g' ∘ g, fun block => (hg block).trans (hg' _), fun content => ?_⟩
    rw [List.foldl_cons, hmap, hmap', List.map_map]

theorem orElse_of_ne_nil {a : Text} (h : a ≠ []) (b : Text) : orElse a b = a :=
  if_neg h

theorem orElse_assoc (a b c : Text) :
    orElse (orElse a b) c = orElse a (orElse b c) := by
  unfold orElse
  by_cases ha : a = []
  · rw [if_pos ha, if_pos ha]
  · rw [if_neg ha, if_neg ha, if_neg ha]

variable {block' : Block}

namespace Entry

/-- No done text of the entry goes on after its deltas. -/
structure Streamed (e : Entry) : Prop where
  text : ∀ item, e.finished = some (.message item) →
    e.deltas.flatten <+: messageText item →
      e.deltas.flatten = messageText item
  arguments : ∀ item done, e.item = .functionCall item →
    e.finished = some (.functionCall done) →
    (e.argumentDeltas item).flatten <+: done.arguments →
      (e.argumentDeltas item).flatten = done.arguments

variable {parseStreamingJson : Text → Arguments} {e : Entry}

/-- The deltas that were pushed can be read back. -/
theorem deltas_unique {start : PushKind} {f : Text → PushKind}
    (hf : Function.Injective f) {ds ds' : List Text} {ends : List PushKind}
    (h : start :: ds.map f ++ ends = start :: ds'.map f ++ ends) : ds = ds' :=
  hf.list_map (List.cons.inj (List.append_cancel_right h)).2

theorem shown_block (hkinds : ∀ done, e.finished = some done →
      SameItem e.item done) :
    Shown parseStreamingJson e (e.block parseStreamingJson) := by
  obtain ⟨i, item, announced, deltas, completed, finished⟩ := e
  cases finished with
  | none => exact trivial
  | some done =>
    have hsame := hkinds done rfl
    cases done with
    | reasoning done =>
      cases item with
      | reasoning item =>
        refine ⟨_, done, rfl, rfl, fun hne => ?_⟩
        show orElse _ (orElse _ _) = _
        rw [← orElse_assoc, orElse_of_ne_nil hne]
      | _ => cases hsame
    | message done =>
      cases item with
      | message item => rfl
      | _ => cases hsame
    | functionCall done =>
      cases item with
      | functionCall item =>
        obtain ⟨hid, hcall, hname⟩ := hsame
        refine ⟨doneArguments parseStreamingJson
          ⟨i, .functionCall item, announced, deltas, completed,
            some (.functionCall done)⟩ item done, ?_, ?_⟩
        · show Block.toolCall (item.callId ++ _ ++ item.id) _ _ _ = _
          rw [hid, hcall, hname]
        · intro hne
          show parseStreamingJson (orElse _ _) = _
          rw [orElse_of_ne_nil hne]
      | _ => cases hsame
    | other => exact trivial

/-- The pushed events tell the block exactly if no done text goes on after
them. -/
theorem told_block_iff (hknown : e.item.known)
    (hkinds : ∀ done, e.finished = some done → SameItem e.item done) :
    Told e (e.block parseStreamingJson) (e.pushes parseStreamingJson)
      ↔ e.Streamed := by
  obtain ⟨i, item, announced, deltas, completed, finished⟩ := e
  cases item with
  | reasoning item =>
    constructor
    · intro _
      constructor
      · rintro done rfl
        cases hkinds _ rfl
      · rintro _ _ heq
        cases heq
    · intro _
      cases finished with
      | none => exact ⟨deltas, rfl⟩
      | some done =>
        cases done with
        | reasoning done => exact ⟨deltas, rfl⟩
        | _ => cases hkinds _ rfl
  | message item =>
    have hinj : Function.Injective PushKind.textDelta := fun a b heq => by
      cases heq
      rfl
    cases finished with
    | none =>
      constructor
      · intro _
        constructor
        · intro _ heq
          cases heq
        · intro _ _ heq
          cases heq
      · intro _
        exact ⟨deltas, rfl, fun heq => by cases heq⟩
    | some done =>
      cases done with
      | message done =>
        constructor
        · rintro ⟨deltas', heq, htext⟩
          have hdeltas : deltas = deltas' := deltas_unique hinj heq
          constructor
          · intro done' heq'
            cases heq'
            rw [← hdeltas] at htext
            exact htext rfl
          · intro _ _ heq'
            cases heq'
        · intro h
          exact ⟨deltas, rfl, fun _ => h.text done rfl⟩
      | _ => cases hkinds _ rfl
  | functionCall item =>
    have hinj : Function.Injective PushKind.toolcallDelta := fun a b heq => by
      cases heq
      rfl
    cases finished with
    | none =>
      constructor
      · intro _
        constructor
        · intro _ heq
          cases heq
        · intro _ _ _ heq
          cases heq
      · intro _
        exact ⟨argumentDeltas _ item, rfl, fun _ heq => by cases heq⟩
    | some done =>
      cases done with
      | functionCall done =>
        constructor
        · rintro ⟨deltas', heq, harguments⟩
          have hdeltas := deltas_unique hinj heq
          constructor
          · intro _ heq'
            cases heq'
          · intro item' done' heq' heq''
            cases heq'
            cases heq''
            rw [← hdeltas] at harguments
            exact harguments done rfl
        · intro h
          exact ⟨_, rfl, fun done' heq =>
            h.arguments item done' rfl heq⟩
      | _ => cases hkinds _ rfl
  | other => cases hknown

/-- What the terminal response changes of a block leaves it told. -/
theorem told_refreshed (h : Refreshed block block')
    {kinds : List PushKind} : Told e block' kinds ↔ Told e block kinds := by
  rcases h with rfl | ⟨thinking, item, item', rfl, rfl, -⟩
  · exact Iff.rfl
  · exact Iff.rfl

theorem shown_refreshed (h : Refreshed block block')
    (hshown : Shown parseStreamingJson e block) :
    Shown parseStreamingJson e block' := by
  rcases h with rfl | ⟨thinking, item, item', rfl, rfl, hsame⟩
  · exact hshown
  · obtain ⟨i, _, announced, deltas, completed, finished⟩ := e
    rcases finished with - | ⟨done | done | done | _⟩
    · exact trivial
    · obtain ⟨_, _, heq, hsame', hthinking⟩ := hshown
      cases heq
      exact ⟨_, _, rfl, hsame.trans hsame', hthinking⟩
    · cases hshown
    · obtain ⟨_, heq, -⟩ := hshown
      cases heq
    · exact trivial

theorem isToolCall_refreshed (hknown : e.item.known)
    (h : Refreshed (e.block parseStreamingJson) block') :
    block'.isToolCall = e.item.isFunctionCall := by
  have hblock : (e.block parseStreamingJson).isToolCall
      = e.item.isFunctionCall := by
    obtain ⟨i, item, announced, deltas, completed, finished⟩ := e
    rcases item with item | item | item | _
    · rcases finished with - | ⟨_ | _ | _ | _⟩ <;> rfl
    · rcases finished with - | ⟨_ | _ | _ | _⟩ <;> rfl
    · rcases finished with - | ⟨_ | _ | _ | _⟩ <;> rfl
    · cases hknown
  rw [← hblock]
  rcases h with rfl | ⟨thinking, item, item', heq, rfl, -⟩
  · rfl
  · rw [heq]
    rfl

end Entry

theorem streamed_iff {l : Ledger} :
    Streamed l ↔ (∀ e ∈ l.seen, e.announced) ∧ ∀ e ∈ l.seen, e.Streamed := by
  constructor
  · intro h
    exact ⟨h.announced, fun e he => ⟨h.text e he, h.arguments e he⟩⟩
  · rintro ⟨hannounced, h⟩
    exact ⟨hannounced, fun e he => (h e he).text, fun e he => (h e he).arguments⟩

-- ======== the result

theorem terminal_stopReason {s : State} {xai : Bool} {response : Response}
    (hstatus : response.status = some .completed
      ∨ response.status = some .incomplete) :
    (terminal s xai response).stopReason = .toolUse ↔
      response.status = some .completed
        ∧ (terminal s xai response).content.any Block.isToolCall := by
  unfold terminal
  dsimp only
  generalize (if xai then response.output.foldl fillEncrypted s.content
    else s.content) = content
  rcases hstatus with hstatus | hstatus
  · rw [hstatus]
    by_cases hany : content.any Block.isToolCall
    · rw [if_pos ⟨hany, rfl⟩]
      exact iff_of_true rfl ⟨rfl, hany⟩
    · rw [if_neg fun hboth => hany hboth.1]
      exact iff_of_false (fun heq => by cases heq) fun hboth => hany hboth.2
  · rw [hstatus, if_neg fun hboth => by cases hboth.2]
    exact iff_of_false (fun heq => by cases heq) fun hboth => by cases hboth.1

section
variable {parseStreamingJson : Text → Arguments} {xai : Bool} {l : Ledger}
  {s : State} (h : Ended parseStreamingJson xai l s)

include h

/-- The blocks are those of the entries, up to what the terminal response
changes of them. -/
theorem Ended.content : ∃ g : Block → Block, (∀ block, Refreshed block (g block))
    ∧ s.content = l.announced.map fun e => g (e.block parseStreamingJson) := by
  obtain ⟨s, hinv, rfl⟩ := h.state
  cases l.response with
  | none => exact ⟨id, fun _ => .inl rfl, hinv.content⟩
  | some response =>
    cases xai with
    | false => exact ⟨id, fun _ => .inl rfl, hinv.content⟩
    | true =>
      obtain ⟨g, hg, hmap⟩ := foldl_fillEncrypted response.output
      refine ⟨g, hg, ?_⟩
      show response.output.foldl fillEncrypted s.content = _
      rw [hmap, hinv.content, List.map_map]
      rfl

theorem Ended.kinds : ∀ e ∈ l.seen, ∀ done, e.finished = some done →
    SameItem e.item done := by
  obtain ⟨s, hinv, -⟩ := h.state
  exact fun e he => hinv.kinds e (List.mem_of_mem_filter he)

theorem Ended.kindsAt (hall : ∀ e ∈ l.seen, e.announced) (k : Nat) :
    s.kindsAt k = (l.seen[k]?.map (·.pushes parseStreamingJson)).getD [] := by
  obtain ⟨s, hinv, rfl⟩ := h.state
  have hseen : l.announced = l.seen := List.filter_eq_self.2 hall
  rw [← hseen, ← hinv.pushes hall k]
  cases l.response <;> rfl

/-- A block for each item that was seen: each was announced. -/
theorem Ended.announced_of_length (hlength : s.content.length = l.seen.length) :
    ∀ e ∈ l.seen, e.announced := by
  obtain ⟨g, -, hcontent⟩ := h.content
  rw [hcontent, List.length_map] at hlength
  exact List.filter_eq_self.1
    (List.filter_sublist.eq_of_length hlength)

theorem Ended.stopReason (hall : ∀ e ∈ l.seen, e.announced) :
    s.stopReason = .toolUse ↔
      (∃ response, l.response = some response
          ∧ response.status = some .completed)
        ∧ ∃ e ∈ l.seen, e.item.isFunctionCall := by
  obtain ⟨g, hg, hcontent⟩ := h.content
  have hseen : l.announced = l.seen := List.filter_eq_self.2 hall
  have hany : s.content.any Block.isToolCall
      ↔ ∃ e ∈ l.seen, e.item.isFunctionCall := by
    rw [hcontent, hseen, List.any_map, List.any_eq_true]
    apply exists_congr
    intro e
    apply and_congr_right
    intro he
    dsimp only [Function.comp]
    rw [Entry.isToolCall_refreshed (List.mem_filter.1 he).2 (hg _)]
  obtain ⟨s, hinv, rfl⟩ := h.state
  have hstatus := h.status
  cases hresponse : l.response with
  | none =>
    dsimp only
    rw [hinv.stopReason]
    constructor
    · intro heq
      cases heq
    · rintro ⟨⟨response, heq, -⟩, -⟩
      cases heq
  | some response =>
    rw [hresponse] at hany
    dsimp only at hany ⊢
    rw [terminal_stopReason (hstatus response hresponse), hany]
    apply and_congr_left'
    constructor
    · intro hcompleted
      exact ⟨response, rfl, hcompleted⟩
    · rintro ⟨response', heq, hcompleted⟩
      rw [Option.some.inj heq]
      exact hcompleted

end

/-- The fold of a legal run is faithful exactly if every item is announced and
no done text goes on after what was streamed of it. -/
theorem responses_stream_faithful_iff (parseStreamingJson : Text → Arguments)
    (xai : Bool) (events : List ResponseStreamEvent) (h : Legal events) :
    Faithful parseStreamingJson (Ledger.after events)
        (processResponsesStream parseStreamingJson xai .initial events).1
      ↔ Streamed (Ledger.after events) := by
  have hended : Ended parseStreamingJson xai (Ledger.after events)
      (processResponsesStream parseStreamingJson xai .initial events).1 :=
    ended_of_legal h rfl (.initial parseStreamingJson)
  generalize (processResponsesStream parseStreamingJson xai .initial events).1
    = s at hended ⊢
  generalize Ledger.after events = l at hended ⊢
  obtain ⟨g, hg, hcontent⟩ := hended.content
  have hget : (∀ e ∈ l.seen, e.announced) → ∀ (k : Nat) (e : Entry),
      l.seen[k]? = some e →
        s.content[k]? = some (g (e.block parseStreamingJson)) := by
    intro hall k e he
    rw [hcontent, show l.announced = l.seen from List.filter_eq_self.2 hall,
      List.getElem?_map, he]
    rfl
  rw [streamed_iff]
  constructor
  · intro hfaithful
    have hall := hended.announced_of_length hfaithful.blocks
    refine ⟨hall, fun e he => ?_⟩
    obtain ⟨k, hk⟩ := List.mem_iff_getElem?.1 he
    obtain ⟨-, htold⟩ := hfaithful.shown k e _ hk (hget hall k e hk)
    rw [Entry.told_refreshed (hg _), hended.kindsAt hall, hk] at htold
    exact (Entry.told_block_iff (List.mem_filter.1 he).2
      (hended.kinds e he)).1 htold
  · rintro ⟨hall, hstreamed⟩
    have hlength : s.content.length = l.seen.length := by
      rw [hcontent, List.length_map,
        show l.announced = l.seen from List.filter_eq_self.2 hall]
    constructor
    · exact hlength
    · intro k e block hk hblock
      rw [hget hall k e hk] at hblock
      cases hblock
      have he := List.mem_of_getElem? hk
      have hkinds := hended.kinds e he
      constructor
      · exact Entry.shown_refreshed (hg _) (Entry.shown_block hkinds)
      · rw [Entry.told_refreshed (hg _), hended.kindsAt hall, hk]
        exact (Entry.told_block_iff (List.mem_filter.1 he).2 hkinds).2
          (hstreamed e he)
    · intro push hpush
      rw [hlength]
      by_contra hle
      have hmem : push.kind ∈ s.kindsAt push.contentIndex :=
        List.mem_map_of_mem (List.mem_filter.2 ⟨hpush, decide_eq_true rfl⟩)
      rw [hended.kindsAt hall, List.getElem?_eq_none (by omega)] at hmem
      exact List.not_mem_nil hmem
    · exact hended.stopReason hall

def call (arguments : String) : ResponseFunctionToolCall where
  id := units "fc_1"
  callId := units "call_1"
  name := units "bash"
  arguments := units arguments

def answer (content : List Part) : ResponseOutputMessage where
  id := units "msg_1"
  content := content
  phase := none

/-- A message and a tool call, open at the same time. -/
def interleaved : List ResponseStreamEvent :=
  [.created (units "resp_1"),
   .outputItemAdded 0 (.message (answer [])),
   .contentPartAdded 0 (some (.outputText [])),
   .outputItemAdded 1 (.functionCall (call "")),
   .outputTextDelta 0 (units "ok"),
   .functionCallArgumentsDelta 1 (units "\x7b"),
   .functionCallArgumentsDone 1 (units "\x7b\x7d"),
   .outputItemDone 0 (.message (answer [.outputText (units "ok")])),
   .outputItemDone 1 (.functionCall (call "\x7b\x7d")),
   .terminal ⟨some (units "resp_1"), some .completed, []⟩]

theorem legal_interleaved : Legal interleaved := by
  refine ⟨rfl, rfl, trivial, rfl, rfl, ?_, rfl, rfl, ?_, rfl, rfl, ?_, rfl, rfl,
    ?_, rfl, rfl, ?_, rfl, rfl, ?_, rfl, rfl, ?_, rfl, rfl, ?_, rfl, rfl,
    .inl rfl, trivial⟩
  · rintro ⟨_, hmem, -⟩
    cases hmem
  · exact ⟨_, .head _, rfl, rfl, rfl, _, rfl⟩
  · show ¬ Ledger.Has _ 1
    decide
  · exact ⟨_, .head _, rfl, rfl, rfl, _, _, rfl, rfl⟩
  · exact ⟨_, .tail _ (.head _), rfl, rfl, rfl, ⟨_, rfl⟩, rfl⟩
  · exact ⟨_, .tail _ (.head _), rfl, rfl, rfl, ⟨_, rfl⟩, rfl⟩
  · exact .inr ⟨_, .head _, rfl, rfl, rfl, rfl⟩
  · exact .inr ⟨_, .tail _ (.head _), rfl, rfl, rfl, rfl, rfl, rfl⟩

theorem responses_stream_faithful_interleaved :
    Faithful (fun _ => []) (Ledger.after interleaved)
      (processResponsesStream (fun _ => []) false .initial interleaved).1 := by
  apply (responses_stream_faithful_iff _ _ _ legal_interleaved).2
  have hseen : (Ledger.after interleaved).seen =
      [⟨0, .message (answer [.outputText (units "ok")]), true, [units "ok"],
          none, some (.message (answer [.outputText (units "ok")]))⟩,
        ⟨1, .functionCall (call ""), true, [units "\x7b"],
          some (units "\x7b\x7d"), some (.functionCall (call "\x7b\x7d"))⟩] :=
    rfl
  apply streamed_iff.2
  rw [hseen]
  constructor
  · decide
  · intro e he
    rcases List.mem_cons.1 he with rfl | he
    · refine ⟨fun item heq _ => ?_, fun _ _ heq => by cases heq⟩
      cases heq
      rfl
    · rw [List.mem_singleton.1 he]
      refine ⟨(fun _ heq => by cases heq), fun item done heq heq' _ => ?_⟩
      cases heq
      cases heq'
      decide

/-- A tool call that only its done event announces: its end is pushed for a
content index that has no block, and the turn stops. -/
theorem unannounced_call_lost :
    Legal [.outputItemDone 0 (.functionCall (call "\x7b\x7d")),
        .terminal ⟨none, some .completed, []⟩]
      ∧ ¬ Faithful (fun _ => [])
        (Ledger.after [.outputItemDone 0 (.functionCall (call "\x7b\x7d")),
          .terminal ⟨none, some .completed, []⟩])
        (processResponsesStream (fun _ => []) false .initial
          [.outputItemDone 0 (.functionCall (call "\x7b\x7d")),
            .terminal ⟨none, some .completed, []⟩]).1 := by
  constructor
  · refine ⟨rfl, rfl, .inl ?_, rfl, rfl, .inl rfl, trivial⟩
    rintro ⟨_, hmem, -⟩
    cases hmem
  · intro h
    cases h.blocks

end OneHarness.Ai.Responses
