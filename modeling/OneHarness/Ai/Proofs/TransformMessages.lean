/-
Tool calls and their results in a replayed conversation.

# Windows

A turn is an assistant message and the results that follow it, up to the
next user or assistant message (`Window`). In the replay the results that
answer a call of the message should follow it, under the id the call is
replayed with, and then an answer for each call that has none (`Paired`).

# Names

Results are renamed through one map for the whole conversation. What it
gives an id is the name by the latest message that changed the id
(`latestName`), which need not be the message whose call the result
answers. The pairing holds exactly when it is, for every result
(`paired_iff`).
-/
import OneHarness.Ai.TransformMessages
import Mathlib.Data.List.Nodup
import Mathlib.Tactic.Common

namespace OneHarness.Ai

open Lib Session

variable (now : Nat → Numeral) (model : Model)
  (normalize : Option NormalizeToolCallId)

-- ======== names

/-- The id under which a message's call is replayed. -/
def normalizedId (m : AssistantMessage) (id : String) : String :=
  if isSameModel m model then id
  else match normalize with
    | none => id
    | some normalize => normalize id model m

/-- The message has a call with this id. -/
def HasCall (m : AssistantMessage) (id : String) : Prop :=
  ∃ c ∈ toolCallsOf m.content, c.id = id

instance (m : AssistantMessage) (id : String) : Decidable (HasCall m id) :=
  inferInstanceAs (Decidable (∃ c ∈ toolCallsOf m.content, c.id = id))

/-- A message's name for an id, if the message changes it. -/
def renames (m : AssistantMessage) (id : String) : Option String :=
  if HasCall m id ∧ normalizedId model normalize m id ≠ id then
    some (normalizedId model normalize m id)
  else none

/-- The name of an id after one more message. -/
def nameAfter (id : String) (last : Option String) : Message → Option String
  | .assistant m => (renames model normalize m id).or last
  | .user _ => last
  | .toolResult _ => last

/-- The name by the latest message that changes the id. -/
def latestName (messages : List Message) (id : String) : Option String :=
  messages.foldl (nameAfter model normalize id) none

/-- The id a result takes: the latest name, unless it is empty. -/
def takenId (messages : List Message) (id : String) : String :=
  match latestName model normalize messages id with
  | some name => if name = "" then id else name
  | none => id

-- ======== windows

/-- An assistant message, the results that follow it, and what follows
them. -/
structure Window (messages pre : List Message) (m : AssistantMessage)
    (ws : List ToolResultMessage) (post : List Message) : Prop where
  eq : messages = pre ++ .assistant m :: (ws.map .toolResult ++ post)
  closed : ∀ r rest, post ≠ .toolResult r :: rest

/-- A message as the replay has it. -/
def replayed (m : AssistantMessage) : AssistantMessage :=
  { m with content := (transformContent model normalize m [] m.content).1 }

/-- A result's content, for the model. -/
def imageAware (r : ToolResultMessage) : ToolResultMessage :=
  if .image ∈ model.input then r
  else { r with
    content := replaceImagesWithPlaceholder r.content
      nonVisionToolImagePlaceholder }

/-- A result in the replay, under its call's id, if it answers a call of
the message. -/
def ownResult (m : AssistantMessage) (r : ToolResultMessage) :
    Option ToolResultMessage :=
  if HasCall m r.toolCallId then
    some { imageAware model r with
      toolCallId := normalizedId model normalize m r.toolCallId }
  else none

/-- Synthetic results, made one after the other. -/
def syntheticResults : Nat → List ToolCall → List ToolResultMessage
  | _, [] => []
  | k, tc :: calls =>
    syntheticResult (now k) tc :: syntheticResults (k + 1) calls

/-- A call as the replay has it. -/
def replayedCall (m : AssistantMessage) (c : ToolCall) : ToolCall :=
  if isSameModel m model then c
  else { c with
    id := normalizedId model normalize m c.id
    thoughtSignature :=
      if truthy c.thoughtSignature then none else c.thoughtSignature }

/-- The calls of a message without a result. -/
def missing (m : AssistantMessage) (ws : List ToolResultMessage) :
    List ToolCall :=
  (toolCallsOf m.content).filter fun c => ws.all (·.toolCallId ≠ c.id)

/-- What should follow a message when `k` messages have been put out with
it: its own results and answers for the calls without one. -/
def answers (k : Nat) (m : AssistantMessage) (ws : List ToolResultMessage) :
    List ToolResultMessage :=
  let own := ws.filterMap (ownResult model normalize m)
  own ++ syntheticResults now (k + own.length)
    ((missing m ws).map (replayedCall model normalize m))

/-- What the loop of the second pass has put out after these messages. -/
def putOut (messages : List Message) : List Message :=
  (replayLoop now (firstPass model normalize []
    (downgradeUnsupportedImages messages model))).result

/-- A window is replayed as it should: its own results follow the message
one by one, under its calls' ids, then the missing answers; every call has
exactly one, and there are no others. -/
structure Paired (pre : List Message) (m : AssistantMessage)
    (ws : List ToolResultMessage) (post before after : List Message) :
    Prop where
  each : ∀ ws', ws' <+: ws →
    putOut now model normalize
        (pre ++ .assistant m :: ws'.map .toolResult)
      = before ++ .assistant (replayed model normalize m)
        :: (ws'.filterMap (ownResult model normalize m)).map .toolResult
  whole : transformMessages now
        (pre ++ .assistant m :: (ws.map .toolResult ++ post)) model normalize
      = before ++ .assistant (replayed model normalize m)
        :: (answers now model normalize (before.length + 1) m ws).map
          .toolResult ++ after
  closed : ∀ r rest, after ≠ .toolResult r :: rest
  one : ∀ c ∈ toolCallsOf m.content,
    (answers now model normalize (before.length + 1) m ws).countP
      (·.toolCallId = normalizedId model normalize m c.id) = 1
  only : ∀ r ∈ answers now model normalize (before.length + 1) m ws,
    ∃ c ∈ toolCallsOf m.content,
      r.toolCallId = normalizedId model normalize m c.id

/-- Every message that was not interrupted is replayed with its own
results. -/
def PairsResults (messages : List Message) : Prop :=
  ∀ pre m ws post, Window messages pre m ws post → isInterrupted m = false →
    ∃ before after, Paired now model normalize pre m ws post before after

/-- The conversations a replay is asked for: distinct ids within a message,
no second result for a call, and names that keep a message's calls
apart. -/
structure Admissible (messages : List Message) : Prop where
  distinct : ∀ m, .assistant m ∈ messages →
    ((toolCallsOf m.content).map (·.id)).Nodup
  once : ∀ pre m ws post, Window messages pre m ws post →
    ∀ c ∈ toolCallsOf m.content, ws.countP (·.toolCallId = c.id) ≤ 1
  injective : ∀ f, normalize = some f → ∀ m, .assistant m ∈ messages →
    ∀ c ∈ toolCallsOf m.content, ∀ d ∈ toolCallsOf m.content,
      f c.id model m = f d.id model m → c.id = d.id

/-- A result takes the id of the call of its message that it answers, and
takes none of its message's ids when it answers none. -/
structure NamedByItsCall (upTo : List Message) (m : AssistantMessage)
    (r : ToolResultMessage) : Prop where
  own : HasCall m r.toolCallId →
    takenId model normalize upTo r.toolCallId
      = normalizedId model normalize m r.toolCallId
  stray : ¬ HasCall m r.toolCallId → ∀ c ∈ toolCallsOf m.content,
    takenId model normalize upTo r.toolCallId
      ≠ normalizedId model normalize m c.id

/-- Every result of a message that was not interrupted is named by its own
call. -/
def LatestNamesOwn (messages : List Message) : Prop :=
  ∀ pre m ws post, Window messages pre m ws post → isInterrupted m = false →
    ∀ r ∈ ws,
      NamedByItsCall model normalize (pre ++ [.assistant m]) m r

-- ======== the first pass

variable {now model normalize}

variable (m : AssistantMessage)

/-- The content of a message does not depend on the map. -/
theorem transformBlock_fst
    (map map' : JsMap String String) (block : AssistantBlock) :
    (transformBlock model normalize m map block).1
      = (transformBlock model normalize m map' block).1 := by
  cases block with
  | text text signature =>
    simp only [transformBlock]
    split
    · rfl
    · rfl
  | thinking thinking signature redacted =>
    simp only [transformBlock]
    split
    · rfl
    · split
      · rfl
      · split
        · rfl
        · split
          · rfl
          · rfl
  | toolCall id name arguments signature =>
    simp only [transformBlock]
    split
    · rfl
    · cases normalize with
      | none => rfl
      | some f =>
        dsimp only
        split
        · rfl
        · rfl

theorem transformContent_fst
    (map map' : JsMap String String) (content : List AssistantBlock) :
    (transformContent model normalize m map content).1
      = (transformContent model normalize m map' content).1 := by
  induction content generalizing map map' with
  | nil => rfl
  | cons block content ih =>
    simp only [transformContent]
    rw [transformBlock_fst m map map' block, ih _ _]

@[simp] theorem toolCallsOf_nil : toolCallsOf [] = [] := rfl

theorem toolCallsOf_append (xs ys : List AssistantBlock) :
    toolCallsOf (xs ++ ys) = toolCallsOf xs ++ toolCallsOf ys :=
  List.filterMap_append

section
variable (map : JsMap String String)

/-- What a block becomes has its calls, as replayed; and the map takes the
name of a call whose id changes. -/
theorem transformBlock_spec (block : AssistantBlock) :
    toolCallsOf (transformBlock model normalize m map block).1
        = (toolCallsOf [block]).map (replayedCall model normalize m)
      ∧ ∀ id, (transformBlock model normalize m map block).2.get id
        = if (∃ c ∈ toolCallsOf [block], c.id = id)
              ∧ normalizedId model normalize m id ≠ id then
            some (normalizedId model normalize m id)
          else map.get id := by
  cases block with
  | text text signature =>
    simp only [transformBlock]
    split
    · exact ⟨rfl, fun id => by simp [toolCallsOf]⟩
    · exact ⟨rfl, fun id => by simp [toolCallsOf]⟩
  | thinking thinking signature redacted =>
    have hnone : ∀ blocks, toolCallsOf blocks = [] →
        toolCallsOf blocks = (toolCallsOf
          [.thinking thinking signature redacted]).map
            (replayedCall model normalize m)
        ∧ ∀ id, map.get id
          = if (∃ c ∈ toolCallsOf [.thinking thinking signature redacted],
                c.id = id) ∧ normalizedId model normalize m id ≠ id then
              some (normalizedId model normalize m id)
            else map.get id :=
      fun blocks hb => ⟨hb, fun id => by simp [toolCallsOf]⟩
    simp only [transformBlock]
    split
    · split
      · exact hnone _ rfl
      · exact hnone _ rfl
    · split
      · exact hnone _ rfl
      · split
        · exact hnone _ rfl
        · split
          · exact hnone _ rfl
          · exact hnone _ rfl
  | toolCall id₀ name arguments signature =>
    have hcalls : toolCallsOf [.toolCall id₀ name arguments signature]
        = [⟨id₀, name, arguments, signature⟩] := rfl
    simp only [transformBlock, hcalls, List.map_singleton,
      List.mem_singleton, exists_eq_left, replayedCall, normalizedId]
    by_cases hsame : isSameModel m model = true
    · simp [hsame, toolCallsOf]
    · cases normalize with
      | none => simp [hsame, toolCallsOf]
      | some f =>
        by_cases hf : f id₀ model m = id₀
        · simp [hsame, hf, toolCallsOf]
        · simp only [hsame, hf, toolCallsOf]
          refine ⟨by simp, fun id => ?_⟩
          by_cases hid : id₀ = id
          · subst hid
            simp [hf]
          · simp [hid, JsMap.get_set]

/-- The calls of a message keep their order. -/
theorem toolCallsOf_transformContent (content : List AssistantBlock) :
    toolCallsOf (transformContent model normalize m map content).1
      = (toolCallsOf content).map (replayedCall model normalize m) := by
  induction content generalizing map with
  | nil => rfl
  | cons block content ih =>
    have hsplit := toolCallsOf_append [block] content
    rw [List.singleton_append] at hsplit
    rw [transformContent, toolCallsOf_append, ih, hsplit, List.map_append,
      (transformBlock_spec m map block).1]

/-- What a message adds to the map. -/
theorem get_transformContent (content : List AssistantBlock) (id : String) :
    (transformContent model normalize m map content).2.get id
      = if (∃ c ∈ toolCallsOf content, c.id = id)
            ∧ normalizedId model normalize m id ≠ id then
          some (normalizedId model normalize m id)
        else map.get id := by
  induction content generalizing map with
  | nil => simp [transformContent]
  | cons block content ih =>
    have hsplit := toolCallsOf_append [block] content
    rw [List.singleton_append] at hsplit
    rw [transformContent, ih, (transformBlock_spec m map block).2, hsplit]
    by_cases hid : normalizedId model normalize m id = id
    · simp [hid]
    · by_cases hlater : ∃ c ∈ toolCallsOf content, c.id = id
      · obtain ⟨c, hc, hcid⟩ := hlater
        rw [if_pos ⟨⟨c, hc, hcid⟩, hid⟩,
          if_pos ⟨⟨c, List.mem_append_right _ hc, hcid⟩, hid⟩]
      · simp only [List.mem_append, or_and_right, exists_or, hlater,
          or_false, false_and, if_false]

-- ======== message by message

/-- The map after these messages. -/
def namesAfter (model : Model) (normalize : Option NormalizeToolCallId)
    (map : JsMap String String) (messages : List Message) :
    JsMap String String :=
  messages.foldl (fun map message =>
    (transformMessage model normalize map message).2) map

theorem firstPass_append (xs ys : List Message) :
    firstPass model normalize map (xs ++ ys)
      = firstPass model normalize map xs
        ++ firstPass model normalize (namesAfter model normalize map xs)
          ys := by
  induction xs generalizing map with
  | nil => rfl
  | cons x xs ih =>
    rw [List.cons_append, firstPass, ih, firstPass, List.cons_append]
    rfl

end

/-- The map has the latest name. -/
theorem get_namesAfter (messages : List Message) (id : String) :
    (namesAfter model normalize [] messages).get id
      = latestName model normalize messages id := by
  have hrun : ∀ (map : JsMap String String) (last : Option String),
      map.get id = last →
      (namesAfter model normalize map messages).get id
        = messages.foldl (nameAfter model normalize id) last := by
    induction messages with
    | nil => exact fun map last h => h
    | cons message messages ih =>
      intro map last h
      rw [namesAfter, List.foldl_cons, List.foldl_cons]
      apply ih
      cases message with
      | user m => exact h
      | toolResult m => exact h
      | assistant m =>
        rw [transformMessage]
        dsimp only
        rw [get_transformContent, nameAfter, renames]
        by_cases hchanged : HasCall m id
            ∧ normalizedId model normalize m id ≠ id
        · have hcall : ∃ c ∈ toolCallsOf m.content, c.id = id :=
            hchanged.1
          rw [if_pos hchanged, if_pos ⟨hcall, hchanged.2⟩]
          rfl
        · have hcall : ¬ ((∃ c ∈ toolCallsOf m.content, c.id = id)
              ∧ normalizedId model normalize m id ≠ id) := hchanged
          rw [if_neg hchanged, if_neg hcall]
          exact h
  exact hrun [] none rfl

/-- A message with its images as the model takes them. -/
def imageAwareMessage (model : Model) (message : Message) : Message :=
  if .image ∈ model.input then message else downgradeImages message

theorem downgradeUnsupportedImages_eq (messages : List Message) :
    downgradeUnsupportedImages messages model
      = messages.map (imageAwareMessage model) := by
  rw [downgradeUnsupportedImages]
  split
  · rename_i h
    have hid : imageAwareMessage model = id := by
      funext message
      rw [imageAwareMessage, if_pos h]
      rfl
    rw [hid, List.map_id]
  · rename_i h
    have hdown : imageAwareMessage model = downgradeImages := by
      funext message
      rw [imageAwareMessage, if_neg h]
    rw [hdown]

theorem imageAwareMessage_assistant :
    imageAwareMessage model (.assistant m) = .assistant m := by
  rw [imageAwareMessage]
  split
  · rfl
  · rfl

variable (upTo : List Message) (r : ToolResultMessage)

theorem imageAwareMessage_toolResult :
    imageAwareMessage model (.toolResult r)
      = .toolResult (imageAware model r) := by
  rw [imageAwareMessage, imageAware]
  split
  · rfl
  · rfl

theorem imageAwareMessage_user (m : UserMessage) :
    ∃ m', imageAwareMessage model (.user m) = .user m' := by
  rw [imageAwareMessage]
  split
  · exact ⟨m, rfl⟩
  · rw [downgradeImages]
    split
    · exact ⟨_, rfl⟩
    · exact ⟨_, rfl⟩

theorem imageAware_toolCallId :
    (imageAware model r).toolCallId = r.toolCallId := by
  rw [imageAware]
  split
  · rfl
  · rfl

/-- Images have no part in the names. -/
theorem latestName_map_imageAware (messages : List Message) (id : String) :
    latestName model normalize (messages.map (imageAwareMessage model)) id
      = latestName model normalize messages id := by
  rw [latestName, latestName, List.foldl_map]
  congr 1
  funext last message
  cases message with
  | user m =>
    obtain ⟨m', hm'⟩ := @imageAwareMessage_user model m
    rw [hm', nameAfter, nameAfter]
  | toolResult r =>
    rw [imageAwareMessage_toolResult, nameAfter, nameAfter]
  | assistant m => rw [imageAwareMessage_assistant]

/-- The state of the second pass after these messages. -/
def loopAfter (now : Nat → Numeral) (model : Model)
    (normalize : Option NormalizeToolCallId) (messages : List Message) :
    Replay :=
  replayLoop now (firstPass model normalize []
    (messages.map (imageAwareMessage model)))

/-- The messages of a continuation, as the first pass hands them on. -/
def handedOn (model : Model) (normalize : Option NormalizeToolCallId)
    (upTo messages : List Message) : List Message :=
  firstPass model normalize
    (namesAfter model normalize [] (upTo.map (imageAwareMessage model)))
    (messages.map (imageAwareMessage model))

theorem loopAfter_append (xs ys : List Message) :
    loopAfter now model normalize (xs ++ ys)
      = (handedOn model normalize xs ys).foldl (replayStep now)
          (loopAfter now model normalize xs) := by
  rw [loopAfter, List.map_append, firstPass_append, replayLoop,
    List.foldl_append]
  rfl

/-- A result is handed on under the id it takes. -/
theorem handedOn_toolResult :
    handedOn model normalize upTo [.toolResult r]
      = [.toolResult { imageAware model r with
          toolCallId := takenId model normalize upTo r.toolCallId }] := by
  rw [handedOn, List.map_singleton, imageAwareMessage_toolResult, firstPass,
    transformMessage, firstPass, renameResult, get_namesAfter,
    latestName_map_imageAware, imageAware_toolCallId, takenId]
  cases latestName model normalize upTo r.toolCallId with
  | none =>
    dsimp only
    rw [← @imageAware_toolCallId model r]
  | some name =>
    dsimp only
    by_cases hempty : name = ""
    · rw [if_neg fun h => h.1 hempty, if_pos hempty,
        ← @imageAware_toolCallId model r]
    · rw [if_neg hempty]
      by_cases hsame : name = r.toolCallId
      · rw [if_neg fun h => h.2 hsame, hsame, ← @imageAware_toolCallId model r]
      · rw [if_pos ⟨hempty, hsame⟩]

theorem handedOn_assistant :
    handedOn model normalize upTo [.assistant m]
      = [.assistant (replayed model normalize m)] := by
  rw [handedOn, List.map_singleton, imageAwareMessage_assistant, firstPass,
    transformMessage, firstPass, replayed]
  dsimp only
  rw [transformContent_fst m _ []]

variable {messages : List Message}

/-- The first pass keeps every message's role. -/
theorem handedOn_closed
    (h : ∀ r rest, messages ≠ .toolResult r :: rest) (upTo : List Message) :
    ∀ r rest, handedOn model normalize upTo messages
      ≠ .toolResult r :: rest := by
  intro r rest heq
  cases messages with
  | nil => exact absurd heq.symm (List.cons_ne_nil _ _)
  | cons message messages =>
    cases message with
    | user m =>
      obtain ⟨m', hm'⟩ := @imageAwareMessage_user model m
      rw [handedOn, List.map_cons, hm', firstPass] at heq
      exact Message.noConfusion (List.cons.inj heq).1
    | toolResult r' => exact h r' messages rfl
    | assistant m =>
      rw [handedOn, List.map_cons, imageAwareMessage_assistant,
        firstPass] at heq
      exact Message.noConfusion (List.cons.inj heq).1

-- ======== the second pass

theorem insertSyntheticFor_eq (existing : List String)
    (calls : List ToolCall) (result : List Message) :
    insertSyntheticFor now existing calls result
      = result ++ (syntheticResults now result.length
          (calls.filter fun c => c.id ∉ existing)).map .toolResult := by
  induction calls generalizing result with
  | nil => exact (List.append_nil result).symm
  | cons c calls ih =>
    rw [insertSyntheticFor]
    by_cases hc : c.id ∈ existing
    · rw [if_pos hc, ih, List.filter_cons_of_neg (by simpa using hc)]
    · rw [if_neg hc, ih, List.filter_cons_of_pos (by simpa using hc),
        syntheticResults, List.length_append, List.length_singleton,
        List.map_cons, List.append_assoc, List.singleton_append]

/-- Closing a turn answers its pending calls, and leaves none. -/
theorem insertSyntheticToolResults_result (s : Replay) :
    (insertSyntheticToolResults now s).result
      = s.result ++ (syntheticResults now s.result.length
          (s.pendingToolCalls.filter
            fun c => c.id ∉ s.existingToolResultIds)).map .toolResult := by
  rw [insertSyntheticToolResults]
  split
  · exact insertSyntheticFor_eq _ _ _
  · rename_i h
    have hnil : s.pendingToolCalls = [] := by
      cases hp : s.pendingToolCalls with
      | nil => rfl
      | cons c calls =>
        rw [hp] at h
        exact absurd (Nat.succ_pos calls.length) h
    rw [hnil]
    exact (List.append_nil _).symm

theorem insertSyntheticToolResults_pending (s : Replay) :
    (insertSyntheticToolResults now s).pendingToolCalls = [] := by
  rw [insertSyntheticToolResults]
  split
  · rfl
  · rename_i h
    cases hp : s.pendingToolCalls with
    | nil => rfl
    | cons c calls =>
      rw [hp] at h
      exact absurd (Nat.succ_pos calls.length) h

/-- A message that was not interrupted opens a turn with its calls. -/
theorem replayStep_assistant {m : AssistantMessage}
    (h : isInterrupted m = false) (s : Replay) :
    (replayStep now s (.assistant m)).pendingToolCalls = toolCallsOf m.content
      ∧ (replayStep now s (.assistant m)).result
        = (insertSyntheticToolResults now s).result ++ [.assistant m]
      ∧ (toolCallsOf m.content ≠ [] →
        (replayStep now s (.assistant m)).existingToolResultIds = []) := by
  rw [replayStep]
  dsimp only
  rw [if_neg (by rw [h]; exact Bool.false_ne_true)]
  by_cases hcalls : 0 < (toolCallsOf m.content).length
  · rw [if_pos hcalls]
    exact ⟨rfl, rfl, fun _ => rfl⟩
  · rw [if_neg hcalls]
    have hnil : toolCallsOf m.content = [] := by
      cases hc : toolCallsOf m.content with
      | nil => rfl
      | cons c calls =>
        rw [hc] at hcalls
        exact absurd (Nat.succ_pos calls.length) hcalls
    rw [hnil]
    exact ⟨insertSyntheticToolResults_pending s, rfl, fun h => absurd rfl h⟩

/-- What the loop has put out stays. -/
theorem exists_foldl_result (messages : List Message) (s : Replay) :
    ∃ more, (messages.foldl (replayStep now) s).result = s.result ++ more := by
  have hstep : ∀ (s : Replay) message, ∃ more,
      (replayStep now s message).result = s.result ++ more := by
    intro s message
    have hclose := @insertSyntheticToolResults_result now s
    cases message with
    | user m =>
      rw [replayStep]
      dsimp only
      rw [hclose, List.append_assoc]
      exact ⟨_, rfl⟩
    | toolResult r =>
      rw [replayStep]
      split
      · exact ⟨_, rfl⟩
      · exact ⟨[], (List.append_nil _).symm⟩
    | assistant m =>
      cases hm : isInterrupted m with
      | true =>
        rw [replayStep]
        dsimp only
        rw [if_pos hm, hclose]
        exact ⟨_, rfl⟩
      | false =>
        rw [(replayStep_assistant hm s).2.1, hclose, List.append_assoc]
        exact ⟨_, rfl⟩
  induction messages generalizing s with
  | nil => exact ⟨[], (List.append_nil _).symm⟩
  | cons message messages ih =>
    obtain ⟨first, hfirst⟩ := hstep s message
    obtain ⟨more, hmore⟩ := ih (replayStep now s message)
    refine ⟨first ++ more, ?_⟩
    rw [List.foldl_cons, hmore, hfirst, List.append_assoc]

/-- A user or assistant message put out is the first of what is put out
from there. -/
theorem first_run {s : Replay} {result : List Message} {x : Message}
    (hresult : s.result = result ++ [x]) (hx : ∀ r, x ≠ .toolResult r)
    (messages : List Message) :
    ∃ after, (insertSyntheticToolResults now
        (messages.foldl (replayStep now) s)).result = result ++ after
      ∧ ∀ r rest, after ≠ .toolResult r :: rest := by
  obtain ⟨more, hmore⟩ := @exists_foldl_result now messages s
  rw [insertSyntheticToolResults_result, hmore, hresult,
    List.append_assoc, List.append_assoc, List.singleton_append]
  exact ⟨_, rfl, fun r rest h => hx r (List.cons.inj h).1⟩

/-- Whatever follows a turn that is closed, results are not the first to be
put out. -/
theorem closed_run (messages : List Message) (s : Replay)
    (hpending : s.pendingToolCalls = []) :
    ∃ after, (insertSyntheticToolResults now
        (messages.foldl (replayStep now) s)).result = s.result ++ after
      ∧ ∀ r rest, after ≠ .toolResult r :: rest := by
  have hidle : insertSyntheticToolResults now s = s := by
    rw [insertSyntheticToolResults, hpending]
    rfl
  induction messages with
  | nil =>
    refine ⟨[], ?_, fun r rest h =>
      absurd h.symm (List.cons_ne_nil _ _)⟩
    rw [List.foldl_nil, hidle, List.append_nil]
  | cons message messages ih =>
    rw [List.foldl_cons]
    cases message with
    | user m =>
      refine @first_run now _ _ (.user m) ?_ (fun r h => by cases h)
        messages
      rw [replayStep, hidle]
    | toolResult r =>
      have hstep : replayStep now s (.toolResult r) = s := by
        rw [replayStep, hpending]
        rfl
      rw [hstep]
      exact ih
    | assistant m =>
      cases hm : isInterrupted m with
      | true =>
        have hstep : replayStep now s (.assistant m) = s := by
          rw [replayStep, hidle]
          exact if_pos hm
        rw [hstep]
        exact ih
      | false =>
        refine @first_run now _ _ (.assistant m) ?_ (fun r h => by cases h)
          messages
        rw [(replayStep_assistant hm s).2.1, hidle]

/-- After a turn, its missing answers come first. -/
theorem closing_run (messages : List Message) (s : Replay)
    (hclosed : ∀ r rest, messages ≠ .toolResult r :: rest) :
    ∃ after, (insertSyntheticToolResults now
        (messages.foldl (replayStep now) s)).result
        = (insertSyntheticToolResults now s).result ++ after
      ∧ ∀ r rest, after ≠ .toolResult r :: rest := by
  cases messages with
  | nil =>
    exact ⟨[], (List.append_nil _).symm, fun r rest h =>
      absurd h.symm (List.cons_ne_nil _ _)⟩
  | cons message messages =>
    rw [List.foldl_cons]
    cases message with
    | user m =>
      refine @first_run now _ _ (.user m) ?_ (fun r h => by cases h)
        messages
      rw [replayStep]
    | toolResult r => exact absurd rfl (hclosed r messages)
    | assistant m =>
      cases hm : isInterrupted m with
      | true =>
        have hstep : replayStep now s (.assistant m)
            = insertSyntheticToolResults now s := by
          rw [replayStep]
          exact if_pos hm
        rw [hstep]
        exact closed_run messages _
          (insertSyntheticToolResults_pending s)
      | false =>
        refine @first_run now _ _ (.assistant m) ?_ (fun r h => by cases h)
          messages
        rw [(replayStep_assistant hm s).2.1]

-- ======== windows

section

variable {pre : List Message} {m : AssistantMessage}

/-- The ids a message's calls are replayed under. -/
theorem map_replayedCall_id (m : AssistantMessage) (calls : List ToolCall) :
    (calls.map (replayedCall model normalize m)).map (·.id)
      = calls.map fun c => normalizedId model normalize m c.id := by
  rw [List.map_map]
  apply List.map_congr_left
  intro c _
  by_cases hsame : isSameModel m model = true
  · simp [replayedCall, normalizedId, hsame]
  · simp [replayedCall, hsame]

/-- The results of a turn that the loop puts out. -/
def kept (model : Model) (normalize : Option NormalizeToolCallId)
    (upTo : List Message) (m : AssistantMessage) (r : ToolResultMessage) :
    Option ToolResultMessage :=
  if ∃ c ∈ toolCallsOf m.content, normalizedId model normalize m c.id
      = takenId model normalize upTo r.toolCallId then
    some { imageAware model r with
      toolCallId := takenId model normalize upTo r.toolCallId }
  else none

/-- The loop inside a turn. -/
structure InTurn (pre : List Message) (m : AssistantMessage)
    (ws : List ToolResultMessage) (s : Replay) : Prop where
  pending : s.pendingToolCalls
    = (toolCallsOf m.content).map (replayedCall model normalize m)
  result : s.result = (insertSyntheticToolResults now
        (loopAfter now model normalize pre)).result
      ++ .assistant (replayed model normalize m)
      :: (ws.filterMap (kept model normalize (pre ++ [.assistant m]) m)).map
        .toolResult
  existing : toolCallsOf m.content ≠ [] → ∀ id,
    id ∈ s.existingToolResultIds
      ↔ ∃ r ∈ ws.filterMap (kept model normalize (pre ++ [.assistant m]) m),
        r.toolCallId = id

theorem filterMap_concat (f : ToolResultMessage → Option ToolResultMessage)
    (ws : List ToolResultMessage) (r : ToolResultMessage) :
    (ws ++ [r]).filterMap f = ws.filterMap f ++ (f r).toList := by
  rw [List.filterMap_append]
  cases hf : f r with
  | none =>
    rw [List.filterMap_cons_none hf]
    rfl
  | some r' =>
    rw [List.filterMap_cons_some hf]
    rfl

/-- Results name nothing. -/
theorem takenId_append_results (ws : List ToolResultMessage) (id : String) :
    takenId model normalize (upTo ++ ws.map .toolResult) id
      = takenId model normalize upTo id := by
  have hlatest : latestName model normalize (upTo ++ ws.map .toolResult) id
      = latestName model normalize upTo id := by
    rw [latestName, List.foldl_append, ← latestName]
    generalize latestName model normalize upTo id = last
    induction ws with
    | nil => rfl
    | cons r ws ih => exact ih
  rw [takenId, takenId, hlatest]

/-- The loop is in the turn while it goes over its results. -/
theorem inTurn_loopAfter (hm : isInterrupted m = false)
    (ws : List ToolResultMessage) :
    @InTurn now model normalize pre m ws
      (loopAfter now model normalize
        (pre ++ .assistant m :: ws.map .toolResult)) := by
  induction ws using List.reverseRecOn with
  | nil =>
    have hm' : isInterrupted (replayed model normalize m) = false := hm
    obtain ⟨hpending, hresult, hexisting⟩ :=
      @replayStep_assistant now _ hm' (loopAfter now model normalize pre)
    have hcalls : toolCallsOf (replayed model normalize m).content
        = (toolCallsOf m.content).map (replayedCall model normalize m) :=
      toolCallsOf_transformContent m [] m.content
    rw [List.map_nil, loopAfter_append, handedOn_assistant,
      List.foldl_cons, List.foldl_nil]
    constructor
    · rw [hpending, hcalls]
    · exact hresult
    · intro hne id
      rw [hexisting (by rw [hcalls]; simpa using hne)]
      simp
  | append_singleton ws r ih =>
    have hsplit : pre ++ .assistant m :: (ws ++ [r]).map .toolResult
        = (pre ++ .assistant m :: ws.map .toolResult)
          ++ [.toolResult r] := by
      simp
    have htaken : takenId model normalize
        (pre ++ .assistant m :: ws.map .toolResult) r.toolCallId
        = takenId model normalize (pre ++ [.assistant m])
          r.toolCallId := by
      rw [List.append_cons]
      exact takenId_append_results _ ws _
    rw [hsplit, loopAfter_append, handedOn_toolResult, List.foldl_cons,
      List.foldl_nil, htaken]
    generalize loopAfter now model normalize
      (pre ++ .assistant m :: ws.map .toolResult) = s at ih
    have hany : s.pendingToolCalls.any
          (·.id == takenId model normalize (pre ++ [.assistant m])
            r.toolCallId) = true
        ↔ ∃ c ∈ toolCallsOf m.content, normalizedId model normalize m c.id
          = takenId model normalize (pre ++ [.assistant m])
            r.toolCallId := by
      have hmem : ∀ id, s.pendingToolCalls.any (·.id == id) = true
          ↔ id ∈ s.pendingToolCalls.map (·.id) := by
        intro id
        simp [List.any_eq_true]
      rw [hmem, ih.pending, map_replayedCall_id, List.mem_map]
    have hfilter : ∀ out, kept model normalize (pre ++ [.assistant m]) m r
          = out →
        (ws ++ [r]).filterMap
            (kept model normalize (pre ++ [.assistant m]) m)
          = ws.filterMap (kept model normalize (pre ++ [.assistant m]) m)
            ++ out.toList := fun out hout =>
      hout ▸ filterMap_concat _ ws r
    rw [replayStep]
    by_cases hkept : ∃ c ∈ toolCallsOf m.content,
        normalizedId model normalize m c.id
          = takenId model normalize (pre ++ [.assistant m]) r.toolCallId
    · have hout := hfilter _ (if_pos hkept)
      rw [if_pos (hany.2 hkept)]
      constructor
      · exact ih.pending
      · rw [hout]
        show s.result ++ _ = _
        rw [ih.result, List.map_append, List.append_assoc, List.cons_append]
        rfl
      · intro hne id
        rw [hout, List.mem_cons, ih.existing hne]
        simp only [Option.toList_some, List.mem_append, List.mem_singleton]
        constructor
        · rintro (rfl | ⟨r', hr', hid⟩)
          · exact ⟨_, Or.inr rfl, rfl⟩
          · exact ⟨r', Or.inl hr', hid⟩
        · rintro ⟨r', hr' | rfl, hid⟩
          · exact Or.inr ⟨r', hr', hid⟩
          · exact Or.inl hid.symm
    · have hout := hfilter _ (if_neg hkept)
      rw [if_neg fun h => hkept (hany.1 h)]
      rw [Option.toList_none, List.append_nil] at hout
      constructor
      · exact ih.pending
      · rw [hout]
        exact ih.result
      · rw [hout]
        exact ih.existing

end

-- ======== the pairing

variable {c : ToolCall} {ws : List ToolResultMessage}

section

variable {pre : List Message} {m : AssistantMessage}

theorem putOut_eq (messages : List Message) :
    putOut now model normalize messages
      = (loopAfter now model normalize messages).result := by
  rw [putOut, downgradeUnsupportedImages_eq]
  rfl

/-- A result is kept as its own call's answer exactly when it is named by
its own call. -/
theorem kept_eq_ownResult_iff :
    kept model normalize upTo m r = ownResult model normalize m r
      ↔ NamedByItsCall model normalize upTo m r := by
  rw [kept, ownResult]
  by_cases hcall : HasCall m r.toolCallId
  · rw [if_pos hcall]
    constructor
    · intro h
      refine ⟨fun _ => ?_, fun hno => absurd hcall hno⟩
      split at h
      · rw [Option.some.injEq] at h
        exact congrArg ToolResultMessage.toolCallId h
      · exact absurd h (by simp)
    · intro h
      obtain ⟨c, hc, hid⟩ := hcall
      rw [h.own ⟨c, hc, hid⟩, if_pos ⟨c, hc, by rw [hid]⟩]
  · rw [if_neg hcall]
    constructor
    · intro h
      refine ⟨fun hyes => absurd hyes hcall, fun _ c hc heq => ?_⟩
      rw [if_pos ⟨c, hc, heq.symm⟩] at h
      exact absurd h (by simp)
    · intro h
      rw [if_neg]
      rintro ⟨c, hc, heq⟩
      exact h.stray hcall c hc heq.symm

/-- What the loop puts out within a turn. -/
theorem putOut_turn (hm : isInterrupted m = false)
    (ws : List ToolResultMessage) :
    putOut now model normalize (pre ++ .assistant m :: ws.map .toolResult)
      = (insertSyntheticToolResults now
          (loopAfter now model normalize pre)).result
        ++ .assistant (replayed model normalize m)
        :: (ws.filterMap (kept model normalize (pre ++ [.assistant m]) m)).map
          .toolResult := by
  rw [putOut_eq]
  exact (inTurn_loopAfter hm ws).result

/-- The turn goes result by result as it should when every result is named
by its own call, and only then. -/
theorem each_iff (hm : isInterrupted m = false)
    (ws : List ToolResultMessage) (before : List Message) :
    (∀ ws', ws' <+: ws →
      putOut now model normalize
          (pre ++ .assistant m :: ws'.map .toolResult)
        = before ++ .assistant (replayed model normalize m)
          :: (ws'.filterMap (ownResult model normalize m)).map .toolResult)
      ↔ before = (insertSyntheticToolResults now
            (loopAfter now model normalize pre)).result
        ∧ ∀ r ∈ ws,
          NamedByItsCall model normalize (pre ++ [.assistant m]) m r := by
  constructor
  · intro heach
    have hbefore : before = (insertSyntheticToolResults now
        (loopAfter now model normalize pre)).result := by
      have h := heach [] List.nil_prefix
      rw [putOut_turn hm] at h
      exact (List.append_inj' h rfl).1.symm
    refine ⟨hbefore, fun r hr => ?_⟩
    obtain ⟨ws', rest, rfl⟩ := List.append_of_mem hr
    -- what the loop adds for one result
    have hupTo := heach ws' (List.prefix_append _ _)
    have hwith := heach (ws' ++ [r]) ⟨rest, by simp⟩
    rw [putOut_turn hm] at hupTo hwith
    rw [filterMap_concat, filterMap_concat, List.map_append, List.map_append,
      ← List.cons_append, ← List.cons_append, ← List.append_assoc,
      ← List.append_assoc, hupTo] at hwith
    have hone := List.append_cancel_left hwith
    rw [← kept_eq_ownResult_iff]
    have hinj : Function.Injective Message.toolResult :=
      fun a b h => Message.toolResult.inj h
    have htoList := List.map_injective_iff.2 hinj hone
    cases hk : kept model normalize (pre ++ [.assistant m]) m r with
    | none =>
      rw [hk] at htoList
      cases ho : ownResult model normalize m r with
      | none => rfl
      | some r' => rw [ho] at htoList; exact absurd htoList (by simp)
    | some r' =>
      rw [hk] at htoList
      cases ho : ownResult model normalize m r with
      | none => rw [ho] at htoList; exact absurd htoList (by simp)
      | some r'' =>
        rw [ho] at htoList
        rw [(List.cons.inj htoList).1]
  · rintro ⟨rfl, hnamed⟩ ws' hws'
    rw [putOut_turn hm]
    congr 3
    apply List.filterMap_congr
    intro r hr
    exact (kept_eq_ownResult_iff _ r).2 (hnamed r (hws'.subset hr))

section
variable (h : Admissible model normalize messages)
include h

section
variable (hm : .assistant m ∈ messages) (hc : c ∈ toolCallsOf m.content)
include hm hc

/-- A message's names keep its calls apart. -/
theorem normalizedId_inj {d : ToolCall}
    (hd : d ∈ toolCallsOf m.content)
    (heq : normalizedId model normalize m c.id
      = normalizedId model normalize m d.id) : c.id = d.id := by
  simp only [normalizedId] at heq
  split at heq
  · exact heq
  · cases hn : normalize with
    | none =>
      rw [hn] at heq
      exact heq
    | some f =>
      rw [hn] at heq
      exact h.injective f hn m hm c hc d hd heq

/-- The names of results and calls meet when the ids do. -/
theorem ownResult_toolCallId_iff (r : ToolResultMessage) :
    (ownResult model normalize m r).any
        (·.toolCallId = normalizedId model normalize m c.id) = true
      ↔ r.toolCallId = c.id := by
  rw [ownResult]
  by_cases hcall : HasCall m r.toolCallId
  · rw [if_pos hcall]
    obtain ⟨d, hd, hid⟩ := hcall
    simp only [Option.any_some, decide_eq_true_iff]
    constructor
    · intro heq
      rw [← hid] at heq ⊢
      exact normalizedId_inj h hm hd hc heq
    · intro heq
      rw [heq]
  · rw [if_neg hcall]
    constructor
    · intro hfalse
      exact absurd hfalse (by simp)
    · intro heq
      exact absurd ⟨c, hc, heq.symm⟩ hcall

theorem mem_filterMap_ownResult_iff (ws : List ToolResultMessage) :
    (∃ r ∈ ws.filterMap (ownResult model normalize m),
        r.toolCallId = normalizedId model normalize m c.id)
      ↔ ∃ r ∈ ws, r.toolCallId = c.id := by
  constructor
  · rintro ⟨r', hr', hid⟩
    obtain ⟨r, hr, hown⟩ := List.mem_filterMap.1 hr'
    refine ⟨r, hr, (ownResult_toolCallId_iff h hm hc r).1 ?_⟩
    rw [hown, Option.any_some, hid, decide_eq_true rfl]
  · rintro ⟨r, hr, hid⟩
    have hany := (ownResult_toolCallId_iff h hm hc r).2 hid
    cases hown : ownResult model normalize m r with
    | none =>
      rw [hown] at hany
      exact absurd hany (by simp)
    | some r' =>
      rw [hown, Option.any_some, decide_eq_true_iff] at hany
      exact ⟨r', List.mem_filterMap.2 ⟨r, hr, hown⟩, hany⟩

end

/-- The calls the loop answers at the end of a turn are those without a
result. -/
theorem pending_filter_eq (hmem : .assistant m ∈ messages)
    {s : Replay} (hturn : @InTurn now model normalize pre m ws s)
    (hnamed : ∀ r ∈ ws,
      NamedByItsCall model normalize (pre ++ [.assistant m]) m r) :
    s.pendingToolCalls.filter (fun c => c.id ∉ s.existingToolResultIds)
      = (missing m ws).map (replayedCall model normalize m) := by
  have hkept : ws.filterMap (kept model normalize (pre ++ [.assistant m]) m)
      = ws.filterMap (ownResult model normalize m) :=
    List.filterMap_congr fun r hr =>
      (kept_eq_ownResult_iff _ r).2 (hnamed r hr)
  rw [hturn.pending, List.filter_map, missing]
  congr 1
  apply List.filter_congr
  intro c hc
  have hne : toolCallsOf m.content ≠ [] := List.ne_nil_of_mem hc
  have hid : (replayedCall model normalize m c).id
      = normalizedId model normalize m c.id := by
    have := @map_replayedCall_id model normalize m [c]
    exact (List.cons.inj this).1
  rw [Function.comp_apply, hid, Bool.eq_iff_iff, decide_eq_true_iff,
    hturn.existing hne, hkept, mem_filterMap_ownResult_iff h hmem hc,
    List.all_eq_true]
  simp

omit h in
theorem countP_syntheticResults (k : Nat) (calls : List ToolCall)
    (id : String) :
    (syntheticResults now k calls).countP (·.toolCallId = id)
      = calls.countP (·.id = id) := by
  induction calls generalizing k with
  | nil => rfl
  | cons c calls ih =>
    rw [syntheticResults, List.countP_cons, List.countP_cons, ih]
    rfl

/-- Every call has exactly one answer: its result if there is one, and
else the one made for it. -/
theorem countP_answers {post : List Message}
    (hwindow : Window messages pre m ws post) (k : Nat)
    (hc : c ∈ toolCallsOf m.content) :
    (answers now model normalize k m ws).countP
      (·.toolCallId = normalizedId model normalize m c.id) = 1 := by
  have hmem : .assistant m ∈ messages := by
    rw [hwindow.eq]
    exact List.mem_append_right _ List.mem_cons_self
  have hown : (ws.filterMap (ownResult model normalize m)).countP
        (·.toolCallId = normalizedId model normalize m c.id)
      = ws.countP (·.toolCallId = c.id) := by
    rw [List.countP_filterMap]
    apply List.countP_congr
    intro r _
    rw [decide_eq_true_iff, ← ownResult_toolCallId_iff h hmem hc r]
    cases ownResult model normalize m r with
    | none => rfl
    | some r' => rfl
  have hmissing : ((missing m ws).map (replayedCall model normalize m)).countP
        (·.id = normalizedId model normalize m c.id)
      = (toolCallsOf m.content).countP
          fun d => d.id = c.id && ws.all (·.toolCallId ≠ c.id) := by
    rw [List.countP_map, missing, List.countP_filter]
    apply List.countP_congr
    intro d hd
    have hid : (replayedCall model normalize m d).id
        = normalizedId model normalize m d.id :=
      (List.cons.inj (@map_replayedCall_id model normalize m [d])).1
    rw [Bool.and_eq_true, Bool.and_eq_true, Function.comp_apply, hid,
      decide_eq_true_iff, decide_eq_true_iff]
    constructor
    · rintro ⟨heq, hall⟩
      have heq := normalizedId_inj h hmem hd hc heq
      exact ⟨heq, heq ▸ hall⟩
    · rintro ⟨heq, hall⟩
      exact ⟨by rw [heq], heq ▸ hall⟩
  rw [answers, List.countP_append, hown, countP_syntheticResults, hmissing]
  by_cases hanswered : ∃ r ∈ ws, r.toolCallId = c.id
  · obtain ⟨r, hr, hid⟩ := hanswered
    have honce := h.once pre m ws post hwindow c hc
    have hpos : 0 < ws.countP (·.toolCallId = c.id) :=
      List.countP_pos_iff.2 ⟨r, hr, decide_eq_true hid⟩
    have hnone : (toolCallsOf m.content).countP
        (fun d => d.id = c.id && ws.all (·.toolCallId ≠ c.id)) = 0 := by
      rw [List.countP_eq_zero]
      intro d _ htrue
      rw [Bool.and_eq_true, List.all_eq_true] at htrue
      exact of_decide_eq_true (htrue.2 r hr) hid
    omega
  · have hnone : ws.countP (·.toolCallId = c.id) = 0 := by
      rw [List.countP_eq_zero]
      exact fun r hr htrue => hanswered ⟨r, hr, of_decide_eq_true htrue⟩
    have hall : ws.all (·.toolCallId ≠ c.id) = true :=
      List.all_eq_true.2 fun r hr =>
        decide_eq_true fun hid => hanswered ⟨r, hr, hid⟩
    have hcount : ((toolCallsOf m.content).map (·.id)).count c.id = 1 :=
      List.count_eq_one_of_mem (h.distinct m hmem)
        (List.mem_map.2 ⟨c, hc, rfl⟩)
    rw [hnone, Nat.zero_add, hall, ← hcount, List.count_eq_countP,
      List.countP_map]
    apply List.countP_congr
    intro d _
    simp

end

theorem mem_syntheticResults {k : Nat} {calls : List ToolCall}
    {r : ToolResultMessage} (hr : r ∈ syntheticResults now k calls) :
    ∃ c ∈ calls, r.toolCallId = c.id := by
  induction calls generalizing k with
  | nil => exact absurd hr List.not_mem_nil
  | cons c calls ih =>
    rcases List.mem_cons.1 hr with rfl | hr
    · exact ⟨c, List.mem_cons_self, rfl⟩
    · obtain ⟨d, hd, hid⟩ := ih hr
      exact ⟨d, List.mem_cons_of_mem _ hd, hid⟩

/-- Every answer is a call's. -/
theorem mem_answers {k : Nat}
    {r : ToolResultMessage} (hr : r ∈ answers now model normalize k m ws) :
    ∃ c ∈ toolCallsOf m.content,
      r.toolCallId = normalizedId model normalize m c.id := by
  rcases List.mem_append.1 hr with hr | hr
  · obtain ⟨r₀, -, hown⟩ := List.mem_filterMap.1 hr
    rw [ownResult] at hown
    split at hown
    · rename_i hcall
      obtain ⟨c, hc, hid⟩ := hcall
      rw [Option.some.injEq] at hown
      exact ⟨c, hc, by rw [← hown, hid]⟩
    · exact absurd hown (by simp)
  · obtain ⟨c', hc', hid⟩ := mem_syntheticResults hr
    obtain ⟨c, hc, rfl⟩ := List.mem_map.1 hc'
    refine ⟨c, (List.mem_filter.1 hc).1, hid.trans ?_⟩
    exact (List.cons.inj (@map_replayedCall_id model normalize m [c])).1

end

/-- Every turn is replayed with its own results exactly when every result
is named by its own call. -/
theorem pairsResults_iff {messages : List Message}
    (h : Admissible model normalize messages) :
    PairsResults now model normalize messages
      ↔ LatestNamesOwn model normalize messages := by
  constructor
  · intro hpairs pre m ws post hwindow hm
    obtain ⟨before, after, hpaired⟩ := hpairs pre m ws post hwindow hm
    exact ((each_iff hm ws before).1 hpaired.each).2
  · intro hnames pre m ws post hwindow hm
    have hnamed := hnames pre m ws post hwindow hm
    have hmem : .assistant m ∈ messages := by
      rw [hwindow.eq]
      exact List.mem_append_right _ List.mem_cons_self
    have hturn := @inTurn_loopAfter now model normalize pre m hm ws
    have hkept : ws.filterMap
        (kept model normalize (pre ++ [.assistant m]) m)
        = ws.filterMap (ownResult model normalize m) :=
      List.filterMap_congr fun r hr =>
        (kept_eq_ownResult_iff _ r).2 (hnamed r hr)
    have hclosed : ∀ r rest, handedOn model normalize
        (pre ++ .assistant m :: ws.map .toolResult) post
          ≠ .toolResult r :: rest :=
      handedOn_closed hwindow.closed _
    obtain ⟨after, hrun, hafter⟩ := @closing_run now _
      (loopAfter now model normalize
        (pre ++ .assistant m :: ws.map .toolResult)) hclosed
    refine ⟨_, after, ⟨(each_iff hm ws _).2 ⟨rfl, hnamed⟩, ?_, hafter,
      fun c hc => countP_answers h hwindow _ hc, fun r hr => mem_answers hr⟩⟩
    have hsplit : pre ++ .assistant m :: (ws.map .toolResult ++ post)
        = (pre ++ .assistant m :: ws.map .toolResult) ++ post := by
      simp
    have hall : transformMessages now
        ((pre ++ .assistant m :: ws.map .toolResult) ++ post) model normalize
        = (insertSyntheticToolResults now (loopAfter now model normalize
          ((pre ++ .assistant m :: ws.map .toolResult) ++ post))).result := by
      rw [transformMessages, downgradeUnsupportedImages_eq]
      rfl
    rw [hsplit, hall, loopAfter_append, hrun,
      insertSyntheticToolResults_result,
      pending_filter_eq h hmem hturn hnamed, hturn.result, hkept, answers]
    simp only [List.length_append, List.length_cons, List.length_map,
      List.map_append, List.append_assoc, List.cons_append]
    congr 6
    omega

-- ======== examples

/-- A message of the provider that calls one tool. -/
def callMessage (provider id : String) : AssistantMessage where
  content := [.toolCall id "read" [] none]
  api := "api"
  provider := provider
  model := "model"
  responseModel := none
  responseId := none
  diagnostics := none
  usage :=
    let zero := Numeral.ofNat 0
    ⟨zero, zero, zero, zero, zero, ⟨zero, zero, zero, zero, zero⟩⟩
  stopReason := .toolUse
  stopReasonRaw := none
  errorMessage := none
  timestamp := Numeral.ofNat 0

def resultMessage (id : String) : ToolResultMessage where
  toolCallId := id
  toolName := "read"
  content := [.text "contents" none]
  details := none
  isError := false
  timestamp := Numeral.ofNat 0

/-- The model of the provider `"here"`. -/
def hereModel : Model := ⟨"here", "api", "model", [.text]⟩

/-- A normalizer that keeps all ids apart. -/
def markedIds : NormalizeToolCallId := fun id _ _ => "n_" ++ id

/-- The time counts the messages. -/
def clock : Nat → Numeral := Numeral.ofNat

def isToolResult : Message → Bool
  | .toolResult _ => true
  | _ => false

/-- Calls of one tool each, and at most one result: nothing to keep
apart. -/
theorem admissible_of_single (hcalls : ∀ m, .assistant m ∈ messages →
      ∃ provider id, m = callMessage provider id)
    (hresults : messages.countP isToolResult ≤ 1) :
    Admissible hereModel (some markedIds) messages := by
  have hsingle : ∀ m, .assistant m ∈ messages →
      ∃ c, toolCallsOf m.content = [c] := by
    intro m hm
    obtain ⟨provider, id, rfl⟩ := hcalls m hm
    exact ⟨_, rfl⟩
  constructor
  · intro m hm
    obtain ⟨c, hc⟩ := hsingle m hm
    rw [hc]
    exact List.nodup_singleton _
  · intro pre m ws post hwindow c _
    rw [hwindow.eq, List.countP_append, List.countP_cons,
      List.countP_append, List.countP_map] at hresults
    have hle : ws.countP (·.toolCallId = c.id) ≤ ws.length :=
      List.countP_le_length
    have hall : ws.countP (isToolResult ∘ Message.toolResult) = ws.length :=
      List.countP_eq_length.2 fun _ _ => rfl
    omega
  · intro f _ m hm c hc d hd _
    obtain ⟨e, he⟩ := hsingle m hm
    rw [he, List.mem_singleton] at hc hd
    rw [hc, hd]

/-- A call and its result, from another model. -/
def exchange : List Message :=
  [.assistant (callMessage "elsewhere" "a"), .toolResult (resultMessage "a")]

/-- Another model's call, interrupted by the user, and then one of this
model under the same id, with its result. -/
def recurringId : List Message :=
  [.assistant (callMessage "elsewhere" "a"),
    .user ⟨.text "go on", Numeral.ofNat 0⟩,
    .assistant (callMessage "here" "a"), .toolResult (resultMessage "a")]

theorem pairsResults_exchange :
    PairsResults clock hereModel (some markedIds) exchange := by
  have hadmissible : Admissible hereModel (some markedIds) exchange := by
    apply admissible_of_single
    · intro m hm
      exact ⟨"elsewhere", "a", by simpa [exchange] using hm⟩
    · decide
  refine (pairsResults_iff hadmissible).2 fun pre m ws post hwindow _ => ?_
  have heq := hwindow.eq
  cases pre with
  | nil =>
    -- the window of the call
    rw [exchange, List.nil_append, List.cons.injEq] at heq
    obtain ⟨hm, hrest⟩ := heq
    obtain rfl := Message.assistant.inj hm
    intro r hr
    have hmem : Message.toolResult r ∈ ws.map .toolResult ++ post :=
      List.mem_append_left _ (List.mem_map.2 ⟨r, hr, rfl⟩)
    rw [← hrest, List.mem_singleton] at hmem
    obtain rfl := Message.toolResult.inj hmem
    have hcall : HasCall (callMessage "elsewhere" "a") "a" :=
      ⟨⟨"a", "read", [], none⟩, List.mem_cons_self, rfl⟩
    exact ⟨fun _ => by decide +kernel, fun hno => absurd hcall hno⟩
  | cons message pre =>
    -- no other message calls tools
    have hmem : Message.assistant m ∈ exchange.tail := by
      rw [heq]
      exact List.mem_append_right _ List.mem_cons_self
    exact absurd hmem (by simp [exchange])

/-- The first message renames the second one's result: it is dropped, and
the call is answered as if it had none. -/
theorem recurringId_not_paired :
    Admissible hereModel (some markedIds) recurringId
      ∧ ¬ PairsResults clock hereModel (some markedIds) recurringId := by
  constructor
  · apply admissible_of_single
    · intro m hm
      have hcases : m = callMessage "elsewhere" "a"
          ∨ m = callMessage "here" "a" := by
        simpa [recurringId] using hm
      rcases hcases with rfl | rfl
      · exact ⟨_, _, rfl⟩
      · exact ⟨_, _, rfl⟩
    · decide
  · intro hpairs
    obtain ⟨before, after, hpaired⟩ := hpairs
      [.assistant (callMessage "elsewhere" "a"),
        .user ⟨.text "go on", Numeral.ofNat 0⟩]
      (callMessage "here" "a") [resultMessage "a"] []
      ⟨rfl, fun r rest h => absurd h.symm (List.cons_ne_nil _ _)⟩ rfl
    have hnamed := ((each_iff rfl _ before).1 hpaired.each).2 _
      List.mem_cons_self
    have htaken := hnamed.own ⟨⟨"a", "read", [], none⟩,
      List.mem_cons_self, rfl⟩
    exact absurd htaken (by decide +kernel)

end OneHarness.Ai
