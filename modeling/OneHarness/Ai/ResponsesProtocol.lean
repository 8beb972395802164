/-
What the Responses API allows to come, and what a faithful fold of it is.

A ledger keeps an entry for each output item, in the order of their first
appearance: the item with the parts that it has so far, the deltas that came
for it, and how it was done. It is the protocol's own account of the events;
nothing of the fold is in it.
-/
import OneHarness.Ai.ResponsesStream

namespace OneHarness.Ai.Responses

open Lib

-- ======== the ledger

structure Entry where
  outputIndex : Nat
  /-- With the parts that it has so far. -/
  item : Item
  announced : Bool
  deltas : List Text
  /-- The text of the event that says that the arguments are done. -/
  completed : Option Text
  finished : Option Item

structure Ledger where
  entries : List Entry
  response : Option Response
  failed : Bool

def Ledger.empty : Ledger := ⟨[], none, false⟩

def Item.known : Item → Bool
  | .other => false
  | _ => true

def Item.addPart (part : Part) : Item → Item
  | .message item => .message { item with content := item.content ++ [part] }
  | item => item

def Item.addSummaryPart (part : Text) : Item → Item
  | .reasoning item =>
    .reasoning { item with summary := item.summary ++ [part] }
  | item => item

def Item.addSummaryText (delta : Text) : Item → Item
  | .reasoning item =>
    .reasoning { item with summary := appendToLast item.summary delta }
  | item => item

def Part.append (delta : Text) : Part → Part
  | outputText value => .outputText (value ++ delta)
  | refusal value => .refusal (value ++ delta)

def Item.addText (delta : Text) : Item → Item
  | .message item =>
    match item.content.getLast? with
    | some last =>
      .message
        { item with content := item.content.dropLast ++ [last.append delta] }
    | none => .message item
  | item => item

namespace Entry

def opened (outputIndex : Nat) (item : Item) : Entry :=
  ⟨outputIndex, item, true, [], none, none⟩

/-- Of an item that only its done event announces. -/
def unannounced (outputIndex : Nat) (item : Item) : Entry :=
  ⟨outputIndex, item, false, [], none, some item⟩

def say (delta : Text) (e : Entry) : Entry :=
  { e with deltas := e.deltas ++ [delta] }

def mapItem (f : Item → Item) (e : Entry) : Entry :=
  { e with item := f e.item }

end Entry

namespace Ledger

variable (l : Ledger)

def Has (outputIndex : Nat) : Prop :=
  ∃ e ∈ l.entries, e.outputIndex = outputIndex

instance (outputIndex : Nat) : Decidable (l.Has outputIndex) :=
  inferInstanceAs (Decidable (∃ e ∈ l.entries, e.outputIndex = outputIndex))

def update (outputIndex : Nat) (f : Entry → Entry) : Ledger :=
  { l with
    entries := l.entries.map fun e =>
      if e.outputIndex = outputIndex then f e else e }

def add (e : Entry) : Ledger := { l with entries := l.entries ++ [e] }

def step (l : Ledger) : ResponseStreamEvent → Ledger
  | .created _ => l
  | .ignored => l
  | .outputItemAdded outputIndex item => l.add (.opened outputIndex item)
  | .reasoningSummaryPartAdded outputIndex part =>
    l.update outputIndex (.mapItem (.addSummaryPart part))
  | .reasoningSummaryTextDelta outputIndex delta =>
    l.update outputIndex
      fun e => (e.mapItem (.addSummaryText delta)).say delta
  | .reasoningSummaryPartDone outputIndex =>
    l.update outputIndex fun e =>
      (e.mapItem (.addSummaryText (units "\n\n"))).say (units "\n\n")
  | .reasoningTextDelta outputIndex delta => l.update outputIndex (.say delta)
  | .contentPartAdded _ none => l
  | .contentPartAdded outputIndex (some part) =>
    l.update outputIndex (.mapItem (.addPart part))
  | .outputTextDelta outputIndex delta =>
    l.update outputIndex fun e => (e.mapItem (.addText delta)).say delta
  | .refusalDelta outputIndex delta =>
    l.update outputIndex fun e => (e.mapItem (.addText delta)).say delta
  | .functionCallArgumentsDelta outputIndex delta =>
    l.update outputIndex (.say delta)
  | .functionCallArgumentsDone outputIndex arguments =>
    l.update outputIndex fun e => { e with completed := some arguments }
  | .outputItemDone outputIndex item =>
    if l.Has outputIndex then
      l.update outputIndex fun e => { e with finished := some item }
    else l.add (.unannounced outputIndex item)
  | .terminal response => { l with response := some response }
  | .failed _ => { l with failed := true }

def after (events : List ResponseStreamEvent) : Ledger :=
  events.foldl step .empty

/-- The item was announced and is not done. -/
def Open (outputIndex : Nat) (P : Entry → Prop) : Prop :=
  ∃ e ∈ l.entries, e.outputIndex = outputIndex ∧ e.announced
    ∧ e.finished = none ∧ P e

end Ledger

-- ======== the protocol

/-- The done event is about the item that was announced. -/
def SameItem : Item → Item → Prop
  | .reasoning item, .reasoning item' => item.id = item'.id
  | .message item, .message item' => item.id = item'.id
  | .functionCall item, .functionCall item' =>
    item.id = item'.id ∧ item.callId = item'.callId ∧ item.name = item'.name
  | .other, .other => True
  | _, _ => False

/-- The protocol allows the event. Within an item, a delta is for the part
that was added last. -/
def Allowed (l : Ledger) : ResponseStreamEvent → Prop
  | .created _ => True
  | .ignored => True
  | .outputItemAdded outputIndex _ => ¬ l.Has outputIndex
  | .reasoningSummaryPartAdded outputIndex _ =>
    l.Open outputIndex fun e => ∃ item, e.item = .reasoning item
  | .reasoningSummaryTextDelta outputIndex _ =>
    l.Open outputIndex fun e =>
      ∃ item, e.item = .reasoning item ∧ item.summary ≠ []
  | .reasoningSummaryPartDone outputIndex =>
    l.Open outputIndex fun e =>
      ∃ item, e.item = .reasoning item ∧ item.summary ≠ []
  | .reasoningTextDelta outputIndex _ =>
    l.Open outputIndex fun e => ∃ item, e.item = .reasoning item
  | .contentPartAdded outputIndex _ =>
    l.Open outputIndex fun e => ∃ item, e.item = .message item
  | .outputTextDelta outputIndex _ =>
    l.Open outputIndex fun e => ∃ item last, e.item = .message item
      ∧ item.content.getLast? = some (.outputText last)
  | .refusalDelta outputIndex _ =>
    l.Open outputIndex fun e => ∃ item last, e.item = .message item
      ∧ item.content.getLast? = some (.refusal last)
  | .functionCallArgumentsDelta outputIndex _ =>
    l.Open outputIndex fun e =>
      (∃ item, e.item = .functionCall item) ∧ e.completed = none
  | .functionCallArgumentsDone outputIndex _ =>
    l.Open outputIndex fun e =>
      (∃ item, e.item = .functionCall item) ∧ e.completed = none
  | .outputItemDone outputIndex item =>
    ¬ l.Has outputIndex ∨ l.Open outputIndex fun e => SameItem e.item item
  | .terminal response =>
    response.status = some .completed ∨ response.status = some .incomplete
  | .failed _ => True

/-- Nothing comes after the terminal event or a failure. -/
def LegalFrom : Ledger → List ResponseStreamEvent → Prop
  | _, [] => True
  | l, event :: events =>
    l.response = none ∧ l.failed = false ∧ Allowed l event
      ∧ LegalFrom (l.step event) events

def Legal (events : List ResponseStreamEvent) : Prop :=
  LegalFrom .empty events

-- ======== the purpose

/-- The items that have a block, in the order of their first appearance. -/
def Ledger.seen (l : Ledger) : List Entry := l.entries.filter (·.item.known)

/-- The kinds of the events that are pushed for a content index. -/
def State.kindsAt (s : State) (contentIndex : Nat) : List PushKind :=
  (s.pushed.filter (·.contentIndex = contentIndex)).map (·.kind)

/-- One start, then deltas, then one end, if the item is done; and the
deltas of a text or a tool call are not a mere beginning of what was done. -/
def Told (e : Entry) (block : Block) (kinds : List PushKind) : Prop :=
  match block with
  | .thinking text _ => ∃ deltas : List Text,
      kinds = .thinkingStart :: deltas.map .thinkingDelta
        ++ if e.finished.isSome then [.thinkingEnd text] else []
  | .text text _ => ∃ deltas : List Text,
      kinds = .textStart :: deltas.map .textDelta
          ++ (if e.finished.isSome then [.textEnd text] else [])
        ∧ (e.finished.isSome → deltas.flatten <+: text →
          deltas.flatten = text)
  | .toolCall _ _ _ _ => ∃ deltas : List Text,
      kinds = .toolcallStart :: deltas.map .toolcallDelta
          ++ (if e.finished.isSome then [.toolcallEnd block] else [])
        ∧ ∀ item, e.finished = some (.functionCall item) →
          deltas.flatten <+: item.arguments → deltas.flatten = item.arguments

/-- The same, with or without the content that is encrypted. -/
def SameReasoning (item item' : ResponseReasoningItem) : Prop :=
  { item with encryptedContent := none }
    = { item' with encryptedContent := none }

/-- The block has the content of the done item. -/
def Shown (parseStreamingJson : Text → Arguments) (e : Entry)
    (block : Block) : Prop :=
  match e.finished with
  | some (.reasoning item) => ∃ thinking signature,
      block = .thinking thinking (some signature)
        ∧ SameReasoning signature item
        ∧ (orElse (summaryText item) (contentText item) ≠ [] →
          thinking = orElse (summaryText item) (contentText item))
  | some (.message item) =>
    block = .text (messageText item) (some ⟨item.id, item.phase⟩)
  | some (.functionCall item) => ∃ arguments,
      block = .toolCall (item.callId ++ units "|" ++ item.id) item.name
          arguments none
        ∧ (item.arguments ≠ [] → arguments = parseStreamingJson item.arguments)
  | _ => True

def Item.isFunctionCall : Item → Bool
  | .functionCall _ => true
  | _ => false

/-- The state is what the events say. -/
structure Faithful (parseStreamingJson : Text → Arguments) (l : Ledger)
    (s : State) : Prop where
  blocks : s.content.length = l.seen.length
  shown : ∀ contentIndex e block, l.seen[contentIndex]? = some e →
    s.content[contentIndex]? = some block →
      Shown parseStreamingJson e block
        ∧ Told e block (s.kindsAt contentIndex)
  pushed : ∀ push ∈ s.pushed, push.contentIndex < s.content.length
  stopReason : s.stopReason = .toolUse ↔
    (∃ response, l.response = some response
        ∧ response.status = some .completed)
      ∧ ∃ e ∈ l.seen, e.item.isFunctionCall

-- ======== the condition

/-- The deltas that came for a function call, with what the event goes on
with that says that the arguments are done. -/
def Entry.argumentDeltas (e : Entry) (item : ResponseFunctionToolCall) :
    List Text :=
  let streamed := item.arguments ++ e.deltas.flatten
  match e.completed.map (remainder · streamed) with
  | some (c :: cs) => e.deltas ++ [c :: cs]
  | _ => e.deltas

/-- Every item with a block is announced, and no done text goes on after the
deltas that came for it. -/
structure Streamed (l : Ledger) : Prop where
  announced : ∀ e ∈ l.seen, e.announced
  text : ∀ e ∈ l.seen, ∀ item, e.finished = some (.message item) →
    e.deltas.flatten <+: messageText item →
      e.deltas.flatten = messageText item
  arguments : ∀ e ∈ l.seen, ∀ item done, e.item = .functionCall item →
    e.finished = some (.functionCall done) →
    (e.argumentDeltas item).flatten <+: done.arguments →
      (e.argumentDeltas item).flatten = done.arguments

end OneHarness.Ai.Responses
