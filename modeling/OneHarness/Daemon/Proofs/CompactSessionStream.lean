/-
What a compact stream carries of a message.

A block has a body, the text or the arguments that deltas add to, and the
rest of its fields (`bare`). The stream carries bodies; the rest it
carries when the block starts, and for a tool call once more at its end.

# The result

Over a provider's stream, and whatever other sessions do in between, every
update is put together again as it was sent exactly when each update
leaves the rest of the blocks as it is, blocks start with empty bodies,
and only a tool call's end changes the rest of its block
(`replicated_iff`).
-/
import OneHarness.Daemon.CompactSessionStream
import Mathlib.Data.List.Basic
import Mathlib.Tactic.Common

namespace OneHarness.Daemon.CompactStream

open Lib Session

-- ======== blocks

/-- What the deltas of a block add to. -/
inductive Body where
  | text (text : String)
  | thinking (thinking : String)
  | arguments (arguments : List (String × Json))

def body : AssistantBlock → Body
  | .text text _ => .text text
  | .thinking thinking _ _ => .thinking thinking
  | .toolCall _ _ arguments _ => .arguments arguments

/-- A block with an empty body. -/
def bare : AssistantBlock → AssistantBlock
  | .text _ textSignature => .text "" textSignature
  | .thinking _ thinkingSignature redacted =>
    .thinking "" thinkingSignature redacted
  | .toolCall id name _ thoughtSignature => .toolCall id name [] thoughtSignature

variable {b : AssistantBlock}

/-- A block is its body and the rest. -/
theorem block_ext {b' : AssistantBlock} (hbody : body b = body b')
    (hbare : bare b = bare b') : b = b' := by
  cases b with
  | text text signature =>
    cases b' with
    | text text' signature' => simp_all [body, bare]
    | thinking _ _ _ => simp [body] at hbody
    | toolCall _ _ _ _ => simp [body] at hbody
  | thinking thinking signature redacted =>
    cases b' with
    | text _ _ => simp [body] at hbody
    | thinking thinking' signature' redacted' => simp_all [body, bare]
    | toolCall _ _ _ _ => simp [body] at hbody
  | toolCall id name arguments signature =>
    cases b' with
    | text _ _ => simp [body] at hbody
    | thinking _ _ _ => simp [body] at hbody
    | toolCall id' name' arguments' signature' => simp_all [body, bare]

variable {c : List AssistantBlock}

theorem blocks_ext {c' : List AssistantBlock}
    (hbody : c.map body = c'.map body) (hbare : c.map bare = c'.map bare) :
    c = c' := by
  induction c generalizing c' with
  | nil => exact (List.map_eq_nil_iff.1 hbody.symm).symm
  | cons b c ih =>
    cases c' with
    | nil => exact absurd hbody (by simp)
    | cons b' c' =>
      rw [List.map_cons, List.map_cons, List.cons.injEq] at hbody hbare
      rw [block_ext hbody.1 hbare.1, ih hbody.2 hbare.2]

-- ======== streams

/-- What a provider's event does to the bodies of the content `c`, giving
`c'`: a start adds a block of its kind, a delta or an end changes the
body of its block. The rest of the blocks is not restricted. -/
def Conforms (c c' : List AssistantBlock) :
    CompactAssistantMessageEvent → Prop
  | .textStart i => ∃ d text signature,
      c' = d ++ [.text text signature] ∧ d.map body = c.map body
        ∧ i = c.length
  | .thinkingStart i => ∃ d thinking signature redacted,
      c' = d ++ [.thinking thinking signature redacted]
        ∧ d.map body = c.map body ∧ i = c.length
  | .toolcallStart i => ∃ d id name arguments signature,
      c' = d ++ [.toolCall id name arguments signature]
        ∧ d.map body = c.map body ∧ i = c.length
  | .textDelta i delta => ∃ text, (c.map body)[i]? = some (.text text)
      ∧ c'.map body = (c.map body).set i (.text (text ++ delta))
  | .textEnd i content => ∃ text, (c.map body)[i]? = some (.text text)
      ∧ c'.map body = (c.map body).set i (.text content)
  | .thinkingDelta i delta => ∃ thinking,
      (c.map body)[i]? = some (.thinking thinking)
        ∧ c'.map body = (c.map body).set i (.thinking (thinking ++ delta))
  | .thinkingEnd i content => ∃ thinking,
      (c.map body)[i]? = some (.thinking thinking)
        ∧ c'.map body = (c.map body).set i (.thinking content)
  | .toolcallDelta i _ => ∃ old new, (c.map body)[i]? = some (.arguments old)
      ∧ c'.map body = (c.map body).set i (.arguments new)
  | .toolcallEnd i id name arguments signature => ∃ old,
      (c.map body)[i]? = some (.arguments old)
        ∧ c'.map body = (c.map body).set i (.arguments arguments)
        ∧ c'[i]? = some (.toolCall id name arguments signature)
  | .start => False
  | .done => False
  | .error => False

/-- The rest of the blocks stays as it is: a new block starts with an empty
body, and only the end of a tool call sets the rest of its block. -/
def KeepsRest (c c' : List AssistantBlock) :
    CompactAssistantMessageEvent → Prop
  | .textStart _ => c'.map bare = c.map bare ++ c'.drop c.length
  | .thinkingStart _ => c'.map bare = c.map bare ++ c'.drop c.length
  | .toolcallStart _ => c'.map bare = c.map bare ++ c'.drop c.length
  | .toolcallEnd i id name _ signature =>
    c'.map bare = (c.map bare).set i (.toolCall id name [] signature)
  | _ => c'.map bare = c.map bare

/-- A session's update of its assistant message. -/
def updateOf (s : String) :
    DaemonOutbound → Option (CompactAssistantMessageEvent × AssistantMessage)
  | .sessionEvent id (.messageUpdate (.assistant message) event) _ =>
    if id = s then some (event, message) else none
  | _ => none

/-- The message starts or ends a message of the session, or the session's
connection. -/
def Interrupts (s : String) : DaemonOutbound → Prop
  | .sessionEvent id (.messageStart _) _ => id = s
  | .sessionEvent id (.messageEnd _) _ => id = s
  | .sessionReplaced id => id = s
  | .sessionResynced id => id = s
  | .sessionClosed id => id = s
  | _ => False

/-- The content of the session's message after one more message. -/
def contentAfter (s : String) (c : List AssistantBlock)
    (message : DaemonOutbound) : List AssistantBlock :=
  ((updateOf s message).map (·.2.content)).getD c

/-- A provider's stream of one assistant message whose content is `c`, with
anything of other sessions in between. -/
def Streams (s : String) : List AssistantBlock → List DaemonOutbound → Prop
  | _, [] => True
  | c, message :: messages =>
    (∀ event m, updateOf s message = some (event, m) →
      Conforms c m.content event)
    ∧ ¬ Interrupts s message
    ∧ Streams s (contentAfter s c message) messages

/-- Every update of the stream keeps the rest of the blocks. -/
def KeepsRests (s : String) : List AssistantBlock → List DaemonOutbound → Prop
  | _, [] => True
  | c, message :: messages =>
    (∀ event m, updateOf s message = some (event, m) →
      KeepsRest c m.content event)
    ∧ KeepsRests s (contentAfter s c message) messages

/-- Every update of the session comes out with the content it went in
with. -/
def Replicated (parseStreamingJson : String → List (String × Json))
    (s : String) : Reconstructor → List DaemonOutbound → Prop
  | _, [] => True
  | r, message :: messages =>
    (∀ event m, updateOf s message = some (event, m) →
      ∃ out, (r.relay parseStreamingJson message).2 = some out
        ∧ out.message.content = m.content.map some)
    ∧ Replicated parseStreamingJson s
        (r.relay parseStreamingJson message).1 messages

-- ======== one event

variable {i : Nat}

theorem setContent_of_lt (h : i < c.length) (b : AssistantBlock) :
    setContent (c.map some) i b = (c.set i b).map some := by
  rw [setContent, if_pos (by rwa [List.length_map]), List.map_set]

theorem setContent_length (c : List AssistantBlock) (b : AssistantBlock) :
    setContent (c.map some) c.length b = (c ++ [b]).map some := by
  rw [setContent, List.length_map, if_neg (Nat.lt_irrefl _), Nat.sub_self,
    List.replicate_zero, List.append_nil, List.map_append, List.map_singleton]

variable {content : List AssistantBlock}

/-- A block changed in its body only: the content is right when the rest of
the blocks stays. -/
theorem set_eq_iff {c' : List AssistantBlock}
    {b' : AssistantBlock} (hb : content[i]? = some b)
    (hbare : bare b' = bare b)
    (hbody : c'.map body = (content.map body).set i (body b')) :
    content.set i b' = c' ↔ c'.map bare = content.map bare := by
  have hrest : (content.set i b').map bare = content.map bare := by
    obtain ⟨hi, hbi⟩ := List.getElem?_eq_some_iff.1 hb
    have hi' : i < (content.map bare).length := by rwa [List.length_map]
    have hget : (content.map bare)[i] = bare b := by
      rw [List.getElem_map, hbi]
    rw [List.map_set, hbare, ← hget, List.set_getElem_self]
  constructor
  · intro h
    rw [← h, hrest]
  · intro h
    apply blocks_ext
    · rw [List.map_set, hbody]
    · rw [hrest, h]

theorem length_eq_of_body {d : List AssistantBlock}
    (hbody : d.map body = c.map body) : c.length = d.length := by
  have hlength := congrArg List.length hbody
  rw [List.length_map, List.length_map] at hlength
  exact hlength.symm

/-- A new block: the content is right when the blocks there stay and the
block starts with an empty body. -/
theorem append_eq_iff {d : List AssistantBlock}
    (hbody : d.map body = c.map body) :
    c ++ [bare b] = d ++ [b]
      ↔ (d ++ [b]).map bare = c.map bare ++ (d ++ [b]).drop c.length := by
  have hlength := length_eq_of_body hbody
  have hidem : bare (bare b) = bare b := by cases b <;> rfl
  rw [hlength, List.drop_left, List.map_append, List.map_singleton]
  constructor
  · intro h
    obtain ⟨hcd, hb⟩ := List.append_inj h hlength
    rw [hcd, (List.cons.inj hb).1]
  · intro h
    obtain ⟨hcd, hb⟩ := List.append_inj h (by simp [hlength])
    rw [blocks_ext hbody.symm hcd.symm, (List.cons.inj hb).1]

/-- The block a body belongs to. -/
theorem exists_block {x : Body} (h : (content.map body)[i]? = some x) :
    ∃ b, content[i]? = some b ∧ body b = x ∧ i < content.length := by
  rw [List.getElem?_map, Option.map_eq_some_iff] at h
  obtain ⟨b, hb, hx⟩ := h
  exact ⟨b, hb, hx, (List.getElem?_eq_some_iff.1 hb).1⟩

theorem body_eq_text {text : String}
    (h : body b = .text text) : ∃ signature, b = .text text signature := by
  cases b with
  | text text' signature => exact ⟨signature, by rw [Body.text.inj h]⟩
  | thinking _ _ _ => exact Body.noConfusion h
  | toolCall _ _ _ _ => exact Body.noConfusion h

theorem body_eq_thinking {thinking : String} (h : body b = .thinking thinking) :
    ∃ signature redacted, b = .thinking thinking signature redacted := by
  cases b with
  | text _ _ => exact Body.noConfusion h
  | thinking thinking' signature redacted =>
    exact ⟨signature, redacted, by rw [Body.thinking.inj h]⟩
  | toolCall _ _ _ _ => exact Body.noConfusion h

theorem body_eq_arguments
    {arguments : List (String × Json)} (h : body b = .arguments arguments) :
    ∃ id name signature, b = .toolCall id name arguments signature := by
  cases b with
  | text _ _ => exact Body.noConfusion h
  | thinking _ _ _ => exact Body.noConfusion h
  | toolCall id name arguments' signature =>
    exact ⟨id, name, signature, by rw [Body.arguments.inj h]⟩

/-- The delta of an update. -/
def deltaOf (s : String) (event : CompactAssistantMessageEvent)
    (m : AssistantMessage) (eventMeta : Option Json) :
    CompactAssistantDelta where
  activeSessionId := s
  assistantMessageEvent := event
  contentStart := compactContentStart m event
  toolCallArguments := compactToolCallArguments m event
  eventMeta := eventMeta

variable {event : CompactAssistantMessageEvent} {m : AssistantMessage}

variable (parseStreamingJson : String → List (String × Json))

/-- An event of a stream is applied, and gives the content it was sent with
exactly when it keeps the rest of the blocks. -/
theorem applyEvent_conforms (s : String)
    (json : JsMap String String) (eventMeta : Option Json)
    (h : Conforms c m.content event) :
    ∃ content json', Reconstructor.applyEvent parseStreamingJson json
        (c.map some) (deltaOf s event m eventMeta)
        = some (content.map some, json')
      ∧ (content = m.content ↔ KeepsRest c m.content event) := by
  cases event with
  | start => exact h.elim
  | done => exact h.elim
  | error => exact h.elim
  | textStart i =>
    obtain ⟨d, text, signature, hcontent, hbody, rfl⟩ := h
    have hstart : compactContentStart m (.textStart c.length)
        = some (bare (.text text signature)) := by
      rw [compactContentStart, hcontent, length_eq_of_body hbody]
      simp [bare]
    refine ⟨c ++ [bare (.text text signature)], json, ?_, ?_⟩
    · rw [Reconstructor.applyEvent, deltaOf]
      dsimp only
      rw [hstart, Option.getD_some, setContent_length]
    · rw [hcontent]
      exact append_eq_iff hbody
  | thinkingStart i =>
    obtain ⟨d, thinking, signature, redacted, hcontent, hbody, rfl⟩ := h
    have hstart : compactContentStart m (.thinkingStart c.length)
        = some (bare (.thinking thinking signature redacted)) := by
      rw [compactContentStart, hcontent, length_eq_of_body hbody]
      simp [bare]
    refine ⟨c ++ [bare (.thinking thinking signature redacted)], json, ?_, ?_⟩
    · rw [Reconstructor.applyEvent, deltaOf]
      dsimp only
      rw [hstart, Option.getD_some, setContent_length]
    · rw [hcontent]
      exact append_eq_iff hbody
  | toolcallStart i =>
    obtain ⟨d, id, name, arguments, signature, hcontent, hbody, rfl⟩ := h
    have hstart : compactContentStart m (.toolcallStart c.length)
        = some (.toolCall id name [] signature) := by
      rw [compactContentStart, hcontent, length_eq_of_body hbody]
      simp
    refine ⟨c ++ [bare (.toolCall id name arguments signature)],
      json.set (toolCallKey s c.length) "", ?_, ?_⟩
    · rw [Reconstructor.applyEvent, deltaOf]
      dsimp only
      rw [hstart]
      dsimp only
      rw [setContent_length]
      rfl
    · rw [hcontent]
      exact append_eq_iff hbody
  | textDelta i delta =>
    obtain ⟨text, hold, hbody⟩ := h
    obtain ⟨b, hb, hx, hi⟩ := exists_block hold
    obtain ⟨signature, rfl⟩ := body_eq_text hx
    refine ⟨c.set i (.text (text ++ delta) signature), json, ?_,
      set_eq_iff hb rfl hbody⟩
    rw [Reconstructor.applyEvent, deltaOf]
    dsimp only
    rw [List.getElem?_map, hb, Option.map_some]
    dsimp only
    rw [setContent_of_lt hi]
  | textEnd i content =>
    obtain ⟨text, hold, hbody⟩ := h
    obtain ⟨b, hb, hx, hi⟩ := exists_block hold
    obtain ⟨signature, rfl⟩ := body_eq_text hx
    refine ⟨c.set i (.text content signature), json, ?_,
      set_eq_iff hb rfl hbody⟩
    rw [Reconstructor.applyEvent, deltaOf]
    dsimp only
    rw [List.getElem?_map, hb, Option.map_some]
    dsimp only
    rw [setContent_of_lt hi]
  | thinkingDelta i delta =>
    obtain ⟨thinking, hold, hbody⟩ := h
    obtain ⟨b, hb, hx, hi⟩ := exists_block hold
    obtain ⟨signature, redacted, rfl⟩ := body_eq_thinking hx
    refine ⟨c.set i (.thinking (thinking ++ delta) signature redacted),
      json, ?_, set_eq_iff hb rfl hbody⟩
    rw [Reconstructor.applyEvent, deltaOf]
    dsimp only
    rw [List.getElem?_map, hb, Option.map_some]
    dsimp only
    rw [setContent_of_lt hi]
  | thinkingEnd i content =>
    obtain ⟨thinking, hold, hbody⟩ := h
    obtain ⟨b, hb, hx, hi⟩ := exists_block hold
    obtain ⟨signature, redacted, rfl⟩ := body_eq_thinking hx
    refine ⟨c.set i (.thinking content signature redacted), json, ?_,
      set_eq_iff hb rfl hbody⟩
    rw [Reconstructor.applyEvent, deltaOf]
    dsimp only
    rw [List.getElem?_map, hb, Option.map_some]
    dsimp only
    rw [setContent_of_lt hi]
  | toolcallDelta i delta =>
    obtain ⟨old, new, hold, hbody⟩ := h
    obtain ⟨b, hb, hx, hi⟩ := exists_block hold
    obtain ⟨id, name, signature, rfl⟩ := body_eq_arguments hx
    -- the arguments sent along are the block's in the message
    have hnew : (m.content.map body)[i]? = some (.arguments new) := by
      rw [hbody, List.getElem?_set_self (by rwa [List.length_map])]
    obtain ⟨b', hb', hx', -⟩ := exists_block hnew
    obtain ⟨id', name', signature', rfl⟩ := body_eq_arguments hx'
    refine ⟨c.set i (.toolCall id name new signature), json, ?_,
      set_eq_iff hb rfl hbody⟩
    rw [Reconstructor.applyEvent, deltaOf]
    dsimp only
    rw [List.getElem?_map, hb, Option.map_some]
    dsimp only
    rw [compactToolCallArguments, hb']
    dsimp only
    rw [setContent_of_lt hi]
  | toolcallEnd i id name arguments signature =>
    obtain ⟨old, hold, hbody, hend⟩ := h
    obtain ⟨b, hb, hx, hi⟩ := exists_block hold
    refine ⟨c.set i (.toolCall id name arguments signature),
      json.delete (toolCallKey s i), ?_, ?_⟩
    · rw [Reconstructor.applyEvent, deltaOf]
      dsimp only
      rw [setContent_of_lt hi]
    · rw [KeepsRest]
      constructor
      · intro heq
        rw [← heq, List.map_set]
        rfl
      · intro hrest
        apply blocks_ext
        · rw [List.map_set, hbody]
          rfl
        · rw [List.map_set, hrest]
          rfl

-- ======== a stream

variable {s : String} {message : DaemonOutbound}

theorem updateOf_eq_some (h : updateOf s message = some (event, m)) :
    ∃ eventMeta, message
      = .sessionEvent s (.messageUpdate (.assistant m) event) eventMeta := by
  rw [updateOf.eq_def] at h
  split at h
  · split at h
    · rename_i hid
      rw [Option.some.injEq, Prod.mk.injEq] at h
      obtain ⟨rfl, rfl⟩ := h
      rw [hid]
      exact ⟨_, rfl⟩
    · exact absurd h (by simp)
  · exact absurd h (by simp)

/-- What is received of an update of a stream. -/
theorem relay_update {r : Reconstructor} {old : PartialMessage}
    (hget : r.partialMessages.get s = some old)
    (hold : old.content = c.map some)
    (hupdate : updateOf s message = some (event, m))
    (hconforms : Conforms c m.content event) :
    ∃ content out, (r.relay parseStreamingJson message).2 = some out
      ∧ out.message.content = content.map some
      ∧ (r.relay parseStreamingJson message).1.partialMessages.get s
        = some out.message
      ∧ (content = m.content ↔ KeepsRest c m.content event) := by
  obtain ⟨eventMeta, rfl⟩ := updateOf_eq_some hupdate
  obtain ⟨content, json, happly, hiff⟩ := applyEvent_conforms
    parseStreamingJson s r.toolCallJson eventMeta hconforms
  have hrelay : r.relay parseStreamingJson
      (.sessionEvent s (.messageUpdate (.assistant m) event) eventMeta)
      = (⟨r.partialMessages.set s { old with content := content.map some },
          json⟩,
        some {
          activeSessionId := s
          message := { old with content := content.map some }
          assistantMessageEvent := event
          eventMeta := eventMeta }) := by
    show r.reconstruct parseStreamingJson (deltaOf s event m eventMeta) = _
    have hget' : r.partialMessages.get
        (deltaOf s event m eventMeta).activeSessionId = some old := hget
    rw [Reconstructor.reconstruct, hget']
    dsimp only
    rw [hold, happly]
    rfl
  refine ⟨content, _, congrArg Prod.snd hrelay, rfl, ?_, hiff⟩
  rw [congrArg Prod.fst hrelay]
  exact JsMap.get_set_self _ _ _

/-- Other messages leave the session's message alone. -/
theorem relay_other (r : Reconstructor)
    (hupdate : updateOf s message = none) (hother : ¬ Interrupts s message) :
    (r.relay parseStreamingJson message).1.partialMessages.get s
      = r.partialMessages.get s := by
  have hclear : ∀ id, id ≠ s →
      (r.clear id).partialMessages.get s = r.partialMessages.get s := by
    intro id hid
    rw [Reconstructor.clear, JsMap.get_delete, if_neg hid]
  have hset : ∀ id (p : PartialMessage), id ≠ s →
      (r.partialMessages.set id p).get s = r.partialMessages.get s :=
    fun id p hid => JsMap.get_set_ne _ _ hid
  cases message with
  | other => rfl
  | sessionReplaced id => exact hclear id hother
  | sessionResynced id => exact hclear id hother
  | sessionClosed id => exact hclear id hother
  | sessionEvent id event eventMeta =>
    cases event with
    | other => rfl
    | messageEnd m => exact hclear id hother
    | messageStart m =>
      cases m with
      | assistant m => exact hset id _ hother
      | user m => rfl
      | toolResult m => rfl
      | bashExecution m => rfl
      | custom m => rfl
      | branchSummary m => rfl
      | compactionSummary m => rfl
    | messageUpdate m update =>
      cases m with
      | assistant m =>
        have hid : id ≠ s := by
          intro hid
          rw [updateOf, if_pos hid] at hupdate
          exact absurd hupdate (by simp)
        show (r.reconstruct parseStreamingJson
          (deltaOf id update m eventMeta)).1.partialMessages.get s = _
        rw [Reconstructor.reconstruct]
        split
        · rfl
        · split
          · rfl
          · exact hset id _ hid
      | user m => rfl
      | toolResult m => rfl
      | bashExecution m => rfl
      | custom m => rfl
      | branchSummary m => rfl
      | compactionSummary m => rfl

/-- A stream comes out as it went in exactly when its updates keep the rest
of the blocks. -/
theorem replicated_iff (parseStreamingJson : String → List (String × Json))
    (r : Reconstructor) (s : String) (start : AssistantMessage)
    (eventMeta : Option Json) (messages : List DaemonOutbound)
    (hstream : Streams s start.content messages) :
    Replicated parseStreamingJson s
        (r.relay parseStreamingJson (.sessionEvent s
          (.messageStart (.assistant start)) eventMeta)).1 messages
      ↔ KeepsRests s start.content messages := by
  -- the message kept is the one last sent
  have hrun : ∀ (r : Reconstructor) (c : List AssistantBlock)
      (old : PartialMessage), r.partialMessages.get s = some old →
      old.content = c.map some → Streams s c messages →
      (Replicated parseStreamingJson s r messages
        ↔ KeepsRests s c messages) := by
    clear hstream
    induction messages with
    | nil => exact fun _ _ _ _ _ _ => Iff.rfl
    | cons message messages ih =>
      intro r c old hget hold hstream
      obtain ⟨hconforms, hother, hrest⟩ := hstream
      rw [Replicated, KeepsRests]
      cases hupdate : updateOf s message with
      | none =>
        have hafter : contentAfter s c message = c := by
          rw [contentAfter, hupdate]
          rfl
        rw [hafter] at hrest ⊢
        have hsame := relay_other parseStreamingJson r hupdate hother
        rw [ih _ c old (hsame.trans hget) hold hrest]
        simp
      | some update =>
        obtain ⟨event, m⟩ := update
        have hafter : contentAfter s c message = m.content := by
          rw [contentAfter, hupdate]
          rfl
        rw [hafter] at hrest ⊢
        obtain ⟨content, out, hout, hcontent, hkept, hiff⟩ :=
          relay_update parseStreamingJson hget hold hupdate
            (hconforms event m hupdate)
        have hone : (∀ event' m', some (event, m) = some (event', m') →
              ∃ out, (r.relay parseStreamingJson message).2 = some out
                ∧ out.message.content = m'.content.map some)
            ↔ content = m.content := by
          constructor
          · intro h
            obtain ⟨out', hout', hsent⟩ := h event m rfl
            rw [hout, Option.some.injEq] at hout'
            rw [← hout', hcontent] at hsent
            exact List.map_injective_iff.2 (Option.some_injective _) hsent
          · rintro heq event' m' ⟨⟩
            exact ⟨out, hout, by rw [hcontent, heq]⟩
        have hkeeps : (∀ event' m', some (event, m) = some (event', m') →
              KeepsRest c m'.content event')
            ↔ KeepsRest c m.content event := by
          constructor
          · exact fun h => h event m rfl
          · rintro h event' m' ⟨⟩
            exact h
        rw [hone, hkeeps, hiff]
        apply and_congr_right
        intro hrestKept
        exact ih _ m.content out.message hkept
          (by rw [hcontent, hiff.2 hrestKept]) hrest
  exact hrun _ start.content (.ofMessage start)
    (JsMap.get_set_self _ _ _) rfl hstream

-- ======== examples

/-- An assistant message with this content. -/
def messageWith (content : List AssistantBlock) : AssistantMessage where
  content := content
  api := "api"
  provider := "provider"
  model := "model"
  responseModel := none
  responseId := none
  diagnostics := none
  usage :=
    let zero := Numeral.ofNat 0
    ⟨zero, zero, zero, zero, zero, ⟨zero, zero, zero, zero, zero⟩⟩
  stopReason := .stop
  stopReasonRaw := none
  errorMessage := none
  timestamp := Numeral.ofNat 0

/-- An update of the session `"s"`. -/
def update (event : CompactAssistantMessageEvent)
    (content : List AssistantBlock) : DaemonOutbound :=
  .sessionEvent "s" (.messageUpdate (.assistant (messageWith content)) event)
    none

theorem Streams.update {messages : List DaemonOutbound}
    (h : Conforms c content event) (hrest : Streams "s" content messages) :
    Streams "s" c (update event content :: messages) := by
  refine ⟨?_, id, hrest⟩
  rintro event' m' ⟨⟩
  exact h

/-- A text of one delta. -/
def textStream : List DaemonOutbound :=
  [update (.textStart 0) [.text "" none],
    update (.textDelta 0 "hi") [.text "hi" none],
    update (.textEnd 0 "hi") [.text "hi" none]]

/-- A thought whose signature comes between its delta and its end. -/
def signedStream : List DaemonOutbound :=
  [update (.thinkingStart 0) [.thinking "" (some "") none],
    update (.thinkingDelta 0 "hm") [.thinking "hm" (some "") none],
    update (.thinkingEnd 0 "hm") [.thinking "hm" (some "signed") none]]

theorem replicated_textStream :
    Replicated (fun _ => []) "s"
      ((⟨[], []⟩ : Reconstructor).relay (fun _ => []) (.sessionEvent "s"
        (.messageStart (.assistant (messageWith []))) none)).1 textStream := by
  apply (replicated_iff (fun _ => []) ⟨[], []⟩ "s" (messageWith []) none
    textStream ?_).2
  · refine ⟨?_, ?_, ?_, trivial⟩
    · rintro event m ⟨⟩
      rfl
    · rintro event m ⟨⟩
      rfl
    · rintro event m ⟨⟩
      rfl
  · refine Streams.update ⟨[], "", none, rfl, rfl, rfl⟩
      (Streams.update ⟨"", rfl, rfl⟩ (Streams.update ⟨"hi", rfl, rfl⟩ trivial))

/-- The end of the thought carries its text and not the signature. -/
theorem signedStream_not_replicated :
    Streams "s" (messageWith []).content signedStream
      ∧ ¬ Replicated (fun _ => []) "s"
        ((⟨[], []⟩ : Reconstructor).relay (fun _ => []) (.sessionEvent "s"
          (.messageStart (.assistant (messageWith []))) none)).1
        signedStream := by
  constructor
  · exact Streams.update ⟨[], "", some "", none, rfl, rfl, rfl⟩
      (Streams.update ⟨"", rfl, rfl⟩ (Streams.update ⟨"hm", rfl, rfl⟩ trivial))
  · intro h
    obtain ⟨out, hout, hsent⟩ := h.2.2.1 _ _ rfl
    obtain rfl := Option.some.inj hout
    have hsignature : (some "" : Option String) = some "signed" := by
      injection hsent with hblock _
      injection hblock with hblock
      injection hblock
    exact absurd hsignature (by decide)

end OneHarness.Daemon.CompactStream
