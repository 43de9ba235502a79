import Eider.Guarantees.ResponseItems
import Eider.Lib.Runs
import Eider.Source.ResponseInput

/-!
# The output of a response as input

Every input item stands for at most one message, and the parser coalesces these: assistant
messages next to each other are one turn. So the items of a response read as one turn, put
between the turns around it.

An output item says text, reasoning or a call. The stream keeps what has been said: what is in
the output and in the open items is what the events said, kind by kind.
-/
namespace Eider.Guarantees.ResponseHistory
open Lib Source Source.Responses List Option Prod
open Guarantees.ResponseItems (transcript terminalResponse)

variable {h : History} {message : ChatMessage} {item : Value} {items : List OutputItem}

/-! ## Turns -/

theorem appendTaken_assoc (a b c : Option Text) :
    appendTaken (appendTaken a b) c = appendTaken a (appendTaken b c) := by
  cases a <;> cases b <;> cases c <;> simp [appendTaken, appendText]

/-- Assistant messages are merged, other messages never. -/
def turns : Merging ChatMessage where
  kind message := decide (message.role = .assistant)
  merge message message' :=
    { message with
      content := appendTaken message.content message'.content
      reasoningContent := appendTaken message.reasoningContent message'.reasoningContent
      toolCalls := message.toolCalls ++ message'.toolCalls }
  kind_merge _ _ h _ := h
  merge_assoc := by
    intro a b c
    simp only [appendTaken_assoc, List.append_assoc]

/-- Text that is absent when there is none. -/
def present (text : Text) : Option Text := if text = [] then none else some text

theorem appendTaken_present (text text' : Text) :
    appendTaken (present text) (present text') = present (text ++ text') := by
  unfold present
  by_cases h : text = [] <;> by_cases h' : text' = [] <;> simp [appendTaken, appendText, h, h']

/-- The assistant message of what has been said. -/
def turn (text reasoning : Text) (calls : List HistoryToolCall) : ChatMessage :=
  .assistantToolCalls (present text) (present reasoning) calls

theorem merge_turn (text text' reasoning reasoning' : Text) (calls calls' : List HistoryToolCall) :
    turns.merge (turn text reasoning calls) (turn text' reasoning' calls') =
      turn (text ++ text') (reasoning ++ reasoning') (calls ++ calls') := by
  simp only [turns, turn, ChatMessage.assistantToolCalls, appendTaken_present]

/-! ## The parser coalesces -/

/-- A message as an input item gives it: no assistant message answers a call. -/
def Plain (message : ChatMessage) : Prop := message.role = .assistant → message.toolCallId = none

/-- A message behind those that have been read. -/
def addMessage (h : History) (message : ChatMessage) : History :=
  if message.role = .assistant then h.appendAssistantMessage message
  else { h.flushAssistantMessage with
    messages := h.flushAssistantMessage.messages ++ [message] }

/-- The messages, with the one that may still grow. -/
def flushed (h : History) : List ChatMessage := h.messages ++ h.assistant.toList

/-- What grows is an assistant message, and no assistant message stands before it. -/
structure Growing (h : History) : Prop where
  assistant : ∀ message ∈ h.assistant, message.role = .assistant
  messages : ∀ message ∈ h.messages.getLast?, message.role ≠ .assistant

theorem growing_empty : Growing ⟨[], none⟩ where
  assistant := by intro message h; cases h
  messages := by intro message h; cases h

theorem addMessage_growing (hgrowing : Growing h) (message : ChatMessage) :
    Growing (addMessage h message) := by
  unfold addMessage
  split
  · refine ⟨?_, hgrowing.messages⟩
    intro grown hgrown
    cases hassistant : h.assistant with
    | none =>
      simp only [History.appendAssistantMessage, History.pendingAssistant, hassistant] at hgrown
      cases hgrown
      rfl
    | some pending =>
      simp only [History.appendAssistantMessage, History.pendingAssistant, hassistant] at hgrown
      cases hgrown
      exact hgrowing.assistant pending hassistant
  · rename_i hrole
    refine ⟨fun grown hgrown => (not_mem_none grown hgrown).elim, ?_⟩
    intro last hlast
    simp only [getLast?_append_cons, getLast?_singleton, mem_def, some.injEq] at hlast
    exact hlast ▸ hrole

theorem flushed_addMessage (hgrowing : Growing h) (hplain : Plain message) :
    flushed (addMessage h message) = turns.joinRuns (flushed h) [message] := by
  unfold addMessage
  by_cases hrole : message.role = .assistant
  · rw [if_pos hrole]
    cases hassistant : h.assistant with
    | none =>
      have hgrown : (h.appendAssistantMessage message).assistant = some message := by
        obtain ⟨role, content, reasoning, calls, id⟩ := message
        cases hrole
        cases hplain rfl
        cases content <;> cases reasoning <;>
          simp [History.appendAssistantMessage, History.pendingAssistant, hassistant,
            ChatMessage.assistantToolCalls, appendTaken, appendText]
      have hseam : turns.joinRuns h.messages [message] = h.messages ++ [message] := by
        apply turns.joinRuns_eq_append
        intro last hlast _ _
        exact .inl (decide_eq_false (hgrowing.messages last hlast))
      rw [flushed, flushed, hgrown, hassistant, toList_none, append_nil, hseam]
      rfl
    | some pending =>
      have hpending : turns.kind pending = true :=
        decide_eq_true (hgrowing.assistant pending hassistant)
      have hmessage : turns.kind message = true := decide_eq_true hrole
      have hgrown : (h.appendAssistantMessage message).assistant =
          some (turns.merge pending message) := by
        simp [History.appendAssistantMessage, History.pendingAssistant, hassistant, turns]
      rw [flushed, flushed, hgrown, hassistant, toList_some, toList_some,
        turns.joinRuns_concat, turns.joinRuns_merge hpending hmessage]
      rfl
  · have hkind : turns.kind message = false := decide_eq_false hrole
    rw [if_neg hrole, turns.joinRuns_eq_append]
    · simp [flushed, History.flushAssistantMessage]
    · intro _ _ _ hhead
      cases hhead
      exact .inr hkind

section
variable (fromStr : Text → Except Text (BTreeMap Text Value)) (toString : Value → Text)

/-- The message of an input item, if it gives one. -/
def readItem (item : Value) : Except ApiError (List ChatMessage) := do
  let kind ← itemKind item
  if kind = ("message" : Text) then return [← parseMessage item]
  else if kind = ("function_call" : Text) then
    return [.assistantToolCalls none none [← parseFunctionCall fromStr item]]
  else if kind = ("function_call_output" : Text) then
    return [← parseFunctionOutput toString item]
  else if kind = ("reasoning" : Text) then
    match ← parseReasoning item with
    | some reasoning => return [.assistantToolCalls none (some reasoning) []]
    | none => return []
  else throw (.invalid "input" ["unsupported input item type ", .debug kind])

variable {toString} in
theorem parseFunctionOutput_role (h : parseFunctionOutput toString item = .ok message) :
    message.role = .tool := by
  unfold parseFunctionOutput at h
  obtain ⟨callId, -, h⟩ := bind_ok h
  split at h
  · cases h
    rfl
  · cases h
    rfl
  · cases h

theorem parseMessage_plain (h : parseMessage item = .ok message) : Plain message := by
  obtain ⟨_, -, h⟩ := bind_ok h
  obtain ⟨role, -, h⟩ := bind_ok h
  obtain ⟨content, -, h⟩ := bind_ok h
  intro hrole
  split at h
  · obtain ⟨callId, -, h⟩ := bind_ok h
    cases h
    cases hrole
  · cases h
    rfl

variable {fromStr toString} in
theorem readItem_plain {messages : List ChatMessage}
    (h : readItem fromStr toString item = .ok messages) : ∀ message ∈ messages, Plain message := by
  unfold readItem at h
  obtain ⟨kind, -, h⟩ := bind_ok h
  split at h
  · obtain ⟨message, hmessage, h⟩ := bind_ok h
    cases h
    exact forall_mem_singleton.mpr (parseMessage_plain hmessage)
  split at h
  · obtain ⟨call, -, h⟩ := bind_ok h
    cases h
    exact forall_mem_singleton.mpr fun _ => rfl
  split at h
  · obtain ⟨message, hmessage, h⟩ := bind_ok h
    cases h
    refine forall_mem_singleton.mpr fun hrole => ?_
    cases hrole.symm.trans (parseFunctionOutput_role hmessage)
  split at h
  · obtain ⟨reasoning, -, h⟩ := bind_ok h
    cases reasoning with
    | none =>
      cases h
      exact fun _ hmem => absurd hmem not_mem_nil
    | some reasoning =>
      cases h
      exact forall_mem_singleton.mpr fun _ => rfl
  · cases h

theorem addMessage_reasoning (h : History) (reasoning : Text) :
    addMessage h (.assistantToolCalls none (some reasoning) []) =
      { h with
        assistant := some { h.pendingAssistant with
          reasoningContent := appendText h.pendingAssistant.reasoningContent reasoning } } := by
  simp [addMessage, History.appendAssistantMessage, ChatMessage.assistantToolCalls, appendTaken]

/-- An item is read on its own, and its message comes behind the others. -/
theorem parseInputItem_eq (h : History) (item : Value) :
    parseInputItem fromStr toString h item =
      (readItem fromStr toString item).map fun messages => messages.foldl addMessage h := by
  unfold parseInputItem readItem
  cases itemKind item with
  | error error => rfl
  | ok kind =>
    change (if _ then _ else _ : Except ApiError History) = Except.map _ (if _ then _ else _)
    split
    · cases parseMessage item with
      | error error => rfl
      | ok message =>
        by_cases hrole : message.role = .assistant
        · simp [Bind.bind, Except.bind, Pure.pure, Except.pure, Except.map, addMessage, hrole]
        · simp [Bind.bind, Except.bind, Pure.pure, Except.pure, Except.map, addMessage, hrole]
    split
    · cases parseFunctionCall fromStr item with
      | error error => rfl
      | ok call => rfl
    split
    · cases houtput : parseFunctionOutput toString item with
      | error error => rfl
      | ok message =>
        have hrole : message.role ≠ .assistant := by
          rw [parseFunctionOutput_role houtput]
          decide
        simp [Bind.bind, Except.bind, Pure.pure, Except.pure, Except.map, addMessage, hrole]
    split
    · cases parseReasoning item with
      | error error => rfl
      | ok reasoning =>
        cases reasoning with
        | none => rfl
        | some reasoning => exact congrArg Except.ok (addMessage_reasoning h reasoning).symm
    · rfl

theorem foldlM_parseInputItem (h : History) (items : List Value) :
    items.foldlM (parseInputItem fromStr toString) h =
      (items.mapM (readItem fromStr toString)).map fun messages =>
        messages.flatten.foldl addMessage h := by
  induction items generalizing h with
  | nil => rfl
  | cons item items ih =>
    rw [foldlM_cons, mapM_cons, parseInputItem_eq]
    cases readItem fromStr toString item with
    | error error => rfl
    | ok messages =>
      change items.foldlM (parseInputItem fromStr toString) (messages.foldl addMessage h) = _
      rw [ih]
      cases items.mapM (readItem fromStr toString) with
      | error error => rfl
      | ok rest => exact congrArg Except.ok (foldl_append).symm

variable {fromStr toString} in
theorem mapM_readItem_plain {items : List Value} {messages : List (List ChatMessage)}
    (h : items.mapM (readItem fromStr toString) = .ok messages) :
    ∀ message ∈ messages.flatten, Plain message := by
  induction items generalizing messages with
  | nil =>
    cases h
    exact fun _ hmem => absurd hmem not_mem_nil
  | cons item items ih =>
    rw [mapM_cons] at h
    obtain ⟨first, hfirst, h⟩ := bind_ok h
    obtain ⟨rest, hrest, h⟩ := bind_ok h
    cases h
    rw [flatten_cons]
    exact forall_mem_append.mpr ⟨readItem_plain hfirst, ih hrest⟩

theorem flushed_foldl (hgrowing : Growing h) {messages : List ChatMessage}
    (hplain : ∀ message ∈ messages, Plain message) :
    flushed (messages.foldl addMessage h) =
      messages.foldl (fun joined message => turns.joinRuns joined [message]) (flushed h) := by
  induction messages generalizing h with
  | nil => rfl
  | cons message messages ih =>
    obtain ⟨hfirst, hrest⟩ := forall_mem_cons.mp hplain
    rw [foldl_cons, foldl_cons, ih (addMessage_growing hgrowing message) hrest,
      flushed_addMessage hgrowing hfirst]

theorem parseInputItems_eq (items : List Value) :
    parseInputItems fromStr toString items =
      (items.mapM (readItem fromStr toString)).map fun messages =>
        turns.coalesce messages.flatten := by
  unfold parseInputItems
  rw [foldlM_parseInputItem]
  cases hread : items.mapM (readItem fromStr toString) with
  | error error => rfl
  | ok messages =>
    exact congrArg Except.ok (flushed_foldl growing_empty (mapM_readItem_plain hread))

/-- Items after items: the messages are put together, and what fails fails alone. -/
theorem parseInputItems_append (items more : List Value) :
    parseInputItems fromStr toString (items ++ more) = do
      let messages ← parseInputItems fromStr toString items
      let messages' ← parseInputItems fromStr toString more
      return turns.joinRuns messages messages' := by
  rw [parseInputItems_eq, parseInputItems_eq, parseInputItems_eq, mapM_append]
  cases items.mapM (readItem fromStr toString) with
  | error error => rfl
  | ok messages =>
    cases more.mapM (readItem fromStr toString) with
    | error error => rfl
    | ok messages' =>
      change Except.ok (turns.coalesce (messages ++ messages').flatten) = Except.ok _
      rw [flatten_append, turns.coalesce_append]

end

/-! ## Output items -/

section
variable (fromStr : Text → Except Text (BTreeMap Text Value)) (toString : Value → Text)
variable (printId : Text → Nat → Text)

def itemText : OutputItem → Text
  | .message _ _ content => content.flatten
  | _ => []

def itemReasoning : OutputItem → Text
  | .reasoning _ _ summary => summary.flatten
  | _ => []

/-- The call of an item, with its arguments read back. -/
def itemCalls : OutputItem → List HistoryToolCall
  | .functionCall _ _ callId name arguments =>
    match fromStr arguments with
    | .ok arguments => [⟨printId "call" callId, ⟨name, arguments⟩⟩]
    | .error _ => []
  | _ => []

/-- A finished item: it says something, and the arguments of a call can be read. -/
inductive Finished : OutputItem → Prop
  | message (id : Nat) (text : Text) (h : text ≠ []) :
    Finished (messageItem id .completed text)
  | reasoning (id : Nat) (text : Text) (h : text ≠ []) :
    Finished (reasoningItem id .completed text)
  | call (id callId : Nat) (name arguments : Text) (read : BTreeMap Text Value)
    (h : fromStr arguments = .ok read) :
    Finished (functionItem id callId name arguments .completed)

/-- The turn that items make up. -/
def itemsTurn (items : List OutputItem) : ChatMessage :=
  turn (items.flatMap itemText) (items.flatMap itemReasoning)
    (items.flatMap (itemCalls fromStr printId))

theorem parseReasoning_reasoningItem (id : Nat) {text : Text} (h : text ≠ []) :
    parseReasoning ((reasoningItem id .completed text).toValue printId) = .ok (some text) := by
  have hread : parseReasoning ((reasoningItem id .completed text).toValue printId) =
      .ok (if text.isEmpty then none else some text) := rfl
  rw [hread, if_neg (mt List.isEmpty_iff.mp h)]

theorem parseFunctionCall_functionItem (id callId : Nat) (name arguments : Text)
    {read : BTreeMap Text Value} (h : fromStr arguments = .ok read) :
    parseFunctionCall fromStr ((functionItem id callId name arguments .completed).toValue printId) =
      .ok ⟨printId "call" callId, ⟨name, read⟩⟩ := by
  change (match fromStr arguments with | .ok arguments => _ | .error error => _) = _
  rw [h]
  rfl

theorem readItem_finished {item : OutputItem} (h : Finished fromStr item) :
    readItem fromStr toString (item.toValue printId) =
      .ok [itemsTurn fromStr printId [item]] := by
  cases h with
  | message id text h =>
    have hread : readItem fromStr toString ((messageItem id .completed text).toValue printId) =
        .ok [.text .assistant text] := rfl
    rw [hread]
    simp [itemsTurn, turn, itemText, itemReasoning, itemCalls, messageItem, present, h,
      ChatMessage.text, ChatMessage.assistantToolCalls]
  | reasoning id text h =>
    have hread : readItem fromStr toString ((reasoningItem id .completed text).toValue printId) =
        (do match ← parseReasoning ((reasoningItem id .completed text).toValue printId) with
            | some reasoning => return [.assistantToolCalls none (some reasoning) []]
            | none => return []) := rfl
    rw [hread, parseReasoning_reasoningItem printId id h]
    simp [itemsTurn, turn, itemText, itemReasoning, itemCalls, reasoningItem, present, h]
    rfl
  | call id callId name arguments read h =>
    have hread : readItem fromStr toString
        ((functionItem id callId name arguments .completed).toValue printId) = (do
          return [.assistantToolCalls none none [← parseFunctionCall fromStr
            ((functionItem id callId name arguments .completed).toValue printId)]]) := rfl
    rw [hread, parseFunctionCall_functionItem fromStr printId id callId name arguments h]
    simp [itemsTurn, turn, itemText, itemReasoning, itemCalls, functionItem, present, h]

theorem mapM_readItem_finished (h : ∀ item ∈ items, Finished fromStr item) :
    (items.map (OutputItem.toValue printId)).mapM (readItem fromStr toString) =
      .ok (items.map fun item => [itemsTurn fromStr printId [item]]) := by
  induction items with
  | nil => rfl
  | cons item items ih =>
    obtain ⟨hfirst, hrest⟩ := forall_mem_cons.mp h
    rw [map_cons, mapM_cons, readItem_finished fromStr toString printId hfirst, ih hrest]
    rfl

theorem coalesce_itemsTurn (hitems : items ≠ []) :
    turns.coalesce (items.map fun item => itemsTurn fromStr printId [item]) =
      [itemsTurn fromStr printId items] := by
  induction items with
  | nil => exact absurd rfl hitems
  | cons item items ih =>
    rw [map_cons, ← singleton_append, turns.coalesce_append]
    cases items with
    | nil => rfl
    | cons item' items =>
      rw [ih (cons_ne_nil item' items)]
      change turns.joinRuns [itemsTurn fromStr printId [item]] _ = _
      rw [turns.joinRuns_merge rfl rfl, itemsTurn, itemsTurn, merge_turn]
      simp [itemsTurn]

theorem parseInputItems_items (hitems : items ≠ []) (h : ∀ item ∈ items, Finished fromStr item) :
    parseInputItems fromStr toString (items.map (OutputItem.toValue printId)) =
      .ok [itemsTurn fromStr printId items] := by
  have hsingle : (items.map fun item => [itemsTurn fromStr printId [item]]).flatten =
      items.map fun item => itemsTurn fromStr printId [item] := by
    rw [← flatMap_def, map_eq_flatMap]
  rw [parseInputItems_eq, mapM_readItem_finished fromStr toString printId h]
  change Except.ok (turns.coalesce _) = _
  rw [hsingle, coalesce_itemsTurn fromStr printId hitems]

end

/-! ## What the stream says -/

def spokenText : ChatOutputEvent → Text
  | .text delta => delta
  | _ => []

def spokenReasoning : ChatOutputEvent → Text
  | .reasoning delta => delta
  | _ => []

def spokenCalls (printId : Text → Nat → Text) : ChatOutputEvent → List HistoryToolCall
  | .toolCall call => [⟨printId "call" call.id, call.function⟩]
  | _ => []

/-- The turn that events make up. -/
def eventsTurn (printId : Text → Nat → Text) (input : List ChatOutputEvent) : ChatMessage :=
  turn (input.flatMap spokenText) (input.flatMap spokenReasoning)
    (input.flatMap (spokenCalls printId))

/-- The text of an open item, if there is one. -/
def openTextOf (item : Option OpenItem) : Text := (item.map OpenItem.text).getD []

/-- What is in the output and in the open items is what the events said. -/
structure Saying (fromStr : Text → Except Text (BTreeMap Text Value)) (printId : Text → Nat → Text)
    (s : ResponseStream) (input : List ChatOutputEvent) : Prop where
  finished : ∀ item ∈ s.output, Finished fromStr item
  textOpen : ∀ item ∈ s.text, item.text ≠ []
  reasoningOpen : ∀ item ∈ s.reasoning, item.text ≠ []
  text : s.output.flatMap itemText ++ openTextOf s.text = input.flatMap spokenText
  reasoning :
    s.output.flatMap itemReasoning ++ openTextOf s.reasoning = input.flatMap spokenReasoning
  calls : s.output.flatMap (itemCalls fromStr printId) = input.flatMap (spokenCalls printId)

namespace Saying
variable {fromStr : Text → Except Text (BTreeMap Text Value)} {printId : Text → Nat → Text}
variable {toJson : BTreeMap Text Value → Text}
variable {s : ResponseStream} {input : List ChatOutputEvent}

theorem new (fromStr : Text → Except Text (BTreeMap Text Value)) (printId : Text → Nat → Text)
    (model : Text) (parallelToolCalls : Bool) (responseId createdAt : Nat) :
    Saying fromStr printId (ResponseStream.new model parallelToolCalls responseId createdAt) [] where
  finished := fun _ hmem => absurd hmem not_mem_nil
  textOpen := fun item hmem => (not_mem_none item hmem).elim
  reasoningOpen := fun item hmem => (not_mem_none item hmem).elim
  text := rfl
  reasoning := rfl
  calls := rfl

theorem closeReasoning (h : Saying fromStr printId s input) :
    Saying fromStr printId s.closeReasoning.1 input ∧ s.closeReasoning.1.reasoning = none := by
  unfold ResponseStream.closeReasoning
  cases hopen : s.reasoning with
  | none => exact ⟨h, hopen⟩
  | some item =>
    have hitem := h.reasoningOpen item hopen
    have hreasoning := h.reasoning
    rw [hopen] at hreasoning
    refine ⟨?_, rfl⟩
    exact { h with
      finished := forall_mem_append.mpr
        ⟨h.finished, forall_mem_singleton.mpr (.reasoning item.id item.text hitem)⟩
      reasoningOpen := fun item hmem => (not_mem_none item hmem).elim
      text := by
        rw [← h.text, flatMap_append]
        simp [itemText, reasoningItem]
      reasoning := by
        rw [← hreasoning, flatMap_append]
        simp [itemReasoning, reasoningItem, openTextOf]
      calls := by
        rw [← h.calls, flatMap_append]
        simp [itemCalls, reasoningItem] }

theorem closeText (h : Saying fromStr printId s input) :
    Saying fromStr printId s.closeText.1 input ∧ s.closeText.1.text = none ∧
      s.closeText.1.reasoning = s.reasoning := by
  unfold ResponseStream.closeText
  cases hopen : s.text with
  | none => exact ⟨h, hopen, rfl⟩
  | some item =>
    have hitem := h.textOpen item hopen
    have htext := h.text
    rw [hopen] at htext
    refine ⟨?_, rfl, rfl⟩
    exact { h with
      finished := forall_mem_append.mpr
        ⟨h.finished, forall_mem_singleton.mpr (.message item.id item.text hitem)⟩
      textOpen := fun item hmem => (not_mem_none item hmem).elim
      text := by
        rw [← htext, flatMap_append]
        simp [itemText, messageItem, openTextOf]
      reasoning := by
        rw [← h.reasoning, flatMap_append]
        simp [itemReasoning, messageItem]
      calls := by
        rw [← h.calls, flatMap_append]
        simp [itemCalls, messageItem] }

theorem pushReasoning (h : Saying fromStr printId s input) (itemId : Nat) (delta : Text) :
    Saying fromStr printId (s.pushReasoning itemId delta).1 (input ++ [.reasoning delta]) := by
  unfold ResponseStream.pushReasoning
  split
  · rename_i hempty
    rw [List.isEmpty_iff] at hempty
    subst hempty
    exact { h with
      text := by rw [h.text]; simp [spokenText]
      reasoning := by rw [h.reasoning]; simp [spokenReasoning]
      calls := by rw [h.calls]; simp [spokenCalls] }
  · rename_i hempty
    have hdelta : delta ≠ [] := mt isEmpty_iff.mpr hempty
    have htext : (s.openReasoning itemId).1.text = openTextOf s.reasoning := by
      unfold ResponseStream.openReasoning openTextOf
      cases s.reasoning <;> rfl
    exact { h with
      reasoningOpen := by
        intro item hitem
        cases hitem
        exact append_ne_nil_of_right_ne_nil _ hdelta
      text := by
        rw [flatMap_append, ← h.text]
        simp [spokenText]
      reasoning := by
        rw [flatMap_append, ← h.reasoning, ← htext]
        simp [spokenReasoning, openTextOf]
      calls := by
        rw [flatMap_append, ← h.calls]
        simp [spokenCalls] }

theorem pushText (h : Saying fromStr printId s input) (itemId : Nat) (delta : Text) :
    Saying fromStr printId (s.pushText itemId delta).1 (input ++ [.text delta]) := by
  unfold ResponseStream.pushText
  split
  · rename_i hempty
    rw [List.isEmpty_iff] at hempty
    subst hempty
    exact { h with
      text := by rw [h.text]; simp [spokenText]
      reasoning := by rw [h.reasoning]; simp [spokenReasoning]
      calls := by rw [h.calls]; simp [spokenCalls] }
  · rename_i hempty
    have hdelta : delta ≠ [] := mt isEmpty_iff.mpr hempty
    have htext : (s.openText itemId).1.text = openTextOf s.text := by
      unfold ResponseStream.openText openTextOf
      cases s.text <;> rfl
    exact { h with
      textOpen := by
        intro item hitem
        cases hitem
        exact append_ne_nil_of_right_ne_nil _ hdelta
      text := by
        rw [flatMap_append, ← h.text, ← htext]
        simp [spokenText, openTextOf]
      reasoning := by
        rw [flatMap_append, ← h.reasoning]
        simp [spokenReasoning]
      calls := by
        rw [flatMap_append, ← h.calls]
        simp [spokenCalls] }

theorem pushTool (h : Saying fromStr printId s input) (itemId : Nat) {call : ChatToolCall}
    (hround : fromStr (toJson call.function.arguments) = .ok call.function.arguments) :
    Saying fromStr printId (s.pushTool toJson itemId call).1 (input ++ [.toolCall call]) := by
  obtain ⟨hclosed, -⟩ := h.closeReasoning
  obtain ⟨hclosed, -, -⟩ := hclosed.closeText
  unfold ResponseStream.pushTool
  exact { hclosed with
    finished := forall_mem_append.mpr
      ⟨hclosed.finished, forall_mem_singleton.mpr (.call itemId call.id _ _ _ hround)⟩
    text := by
      rw [flatMap_append, flatMap_append, ← hclosed.text]
      simp [itemText, functionItem, spokenText]
    reasoning := by
      rw [flatMap_append, flatMap_append, ← hclosed.reasoning]
      simp [itemReasoning, functionItem, spokenReasoning]
    calls := by
      rw [flatMap_append, flatMap_append, ← hclosed.calls]
      simp [itemCalls, functionItem, spokenCalls, hround] }

theorem push (h : Saying fromStr printId s input) (itemId : Nat) {event : ChatOutputEvent}
    (hround : ∀ call, event = .toolCall call →
      fromStr (toJson call.function.arguments) = .ok call.function.arguments) :
    Saying fromStr printId (s.push toJson itemId (.output event)).1 (input ++ [event]) := by
  cases event with
  | reasoning delta => exact h.pushReasoning itemId delta
  | text delta => exact h.closeReasoning.1.pushText itemId delta
  | toolCall call => exact h.pushTool itemId (hround call rfl)

/-- The end closes what is open: the output says it all. -/
theorem finish (h : Saying fromStr printId s input) (finishReason : ChatFinishReason)
    (usage : ChatUsage) :
    ∃ response, (s.finish finishReason usage).2.getLast?.bind terminalResponse = some response ∧
      (∀ item ∈ response.output, Finished fromStr item) ∧
      itemsTurn fromStr printId response.output = eventsTurn printId input := by
  obtain ⟨hclosed, hreasoning⟩ := h.closeReasoning
  obtain ⟨hclosed, htext, hsame⟩ := hclosed.closeText
  have hturn : itemsTurn fromStr printId s.closeReasoning.1.closeText.1.output =
      eventsTurn printId input := by
    rw [itemsTurn, eventsTurn, ← hclosed.text, ← hclosed.reasoning, ← hclosed.calls, htext, hsame,
      hreasoning]
    simp [openTextOf]
  unfold ResponseStream.finish
  rw [getLast?_append_cons, getLast?_singleton]
  split
  · exact ⟨_, rfl, hclosed.finished, hturn⟩
  · exact ⟨_, rfl, hclosed.finished, hturn⟩

/-- The terminal response of a whole run of the stream. -/
theorem transcript (h : Saying fromStr printId s input) (rest : List (Nat × ChatOutputEvent))
    (hround : ∀ call, .toolCall call ∈ rest.map snd →
      fromStr (toJson call.function.arguments) = .ok call.function.arguments)
    (lastId : Nat) (finishReason : ChatFinishReason) (usage : ChatUsage) :
    ∃ response, (transcript toJson s rest lastId finishReason usage).getLast?.bind
        terminalResponse = some response ∧
      (∀ item ∈ response.output, Finished fromStr item) ∧
      itemsTurn fromStr printId response.output =
        eventsTurn printId (input ++ rest.map snd) := by
  induction rest generalizing s input with
  | nil =>
    have hlast : ResponseItems.transcript toJson s [] lastId finishReason usage =
        (s.finish finishReason usage).2 := append_nil _
    rw [hlast, map_nil, append_nil]
    exact h.finish finishReason usage
  | cons head rest ih =>
    obtain ⟨itemId, event⟩ := head
    have hhead : ∀ call, event = .toolCall call →
        fromStr (toJson call.function.arguments) = .ok call.function.arguments :=
      fun call hcall => hround call (by simp [hcall])
    have hnext := h.push itemId hhead
    obtain ⟨response, hresponse, hfinished, hturn⟩ :=
      ih hnext fun call hcall => hround call (mem_cons_of_mem _ hcall)
    refine ⟨response, ?_, hfinished, by rw [hturn, append_assoc]; rfl⟩
    rw [ResponseItems.Writing.transcript_cons, getLast?_append]
    obtain ⟨last, hlast, -⟩ := bind_eq_some_iff.mp hresponse
    rw [hlast] at hresponse ⊢
    exact hresponse

end Saying

/-! ## Results -/

/-- An event that says something. -/
def Speaks : ChatOutputEvent → Prop
  | .reasoning delta => delta ≠ []
  | .text delta => delta ≠ []
  | .toolCall _ => True

theorem present_eq_none {text : Text} (h : present text = none) : text = [] := by
  unfold present at h
  split at h
  · assumption
  · cases h

theorem output_ne_nil {fromStr : Text → Except Text (BTreeMap Text Value)}
    {printId : Text → Nat → Text} {input : List ChatOutputEvent}
    (hturn : itemsTurn fromStr printId items = eventsTurn printId input)
    (hspeaks : ∃ event ∈ input, Speaks event) : items ≠ [] := by
  rintro rfl
  obtain ⟨event, hmem, hspeaks⟩ := hspeaks
  have htext := present_eq_none (congrArg ChatMessage.content hturn).symm
  have hreasoning := present_eq_none (congrArg ChatMessage.reasoningContent hturn).symm
  have hcalls : input.flatMap (spokenCalls printId) = [] :=
    (congrArg ChatMessage.toolCalls hturn).symm
  rw [flatMap_eq_nil_iff] at htext hreasoning hcalls
  cases event with
  | reasoning delta => exact hspeaks (hreasoning _ hmem)
  | text delta => exact hspeaks (htext _ hmem)
  | toolCall call => exact absurd (hcalls _ hmem) (cons_ne_nil _ _)

/-- The output of a response is read as the turn that its events made up. Between other items
it is put between their messages: assistant messages next to it are merged with it, messages
of other roles never, and these stay as they are. -/
theorem response_history (toJson : BTreeMap Text Value → Text)
    (fromStr : Text → Except Text (BTreeMap Text Value)) (toString : Value → Text)
    (printId : Text → Nat → Text) (model : Text) (parallelToolCalls : Bool)
    (responseId createdAt : Nat) (input : List (Nat × ChatOutputEvent)) (lastId : Nat)
    (finishReason : ChatFinishReason) (usage : ChatUsage)
    (hround : ∀ call, .toolCall call ∈ input.map snd →
      fromStr (toJson call.function.arguments) = .ok call.function.arguments)
    (hspeaks : ∃ event ∈ input.map snd, Speaks event) :
    ∃ response, (transcript toJson
        (ResponseStream.new model parallelToolCalls responseId createdAt) input lastId finishReason
        usage).getLast?.bind terminalResponse = some response ∧
      parseInputItems fromStr toString (response.output.map (OutputItem.toValue printId)) =
        .ok [eventsTurn printId (input.map snd)] ∧
      (∀ before after, parseInputItems fromStr toString
          (before ++ response.output.map (OutputItem.toValue printId) ++ after) = do
        let messages ← parseInputItems fromStr toString before
        let messages' ← parseInputItems fromStr toString after
        return turns.joinRuns
          (turns.joinRuns messages [eventsTurn printId (input.map snd)]) messages') ∧
      ∀ before after messages messages',
        parseInputItems fromStr toString before = .ok messages →
        parseInputItems fromStr toString after = .ok messages' →
        ∃ result, parseInputItems fromStr toString
            (before ++ response.output.map (OutputItem.toValue printId) ++ after) = .ok result ∧
          result.filter (fun message => !turns.kind message) =
            messages.filter (fun message => !turns.kind message) ++
              messages'.filter (fun message => !turns.kind message) ∧
          ((∀ message ∈ messages.getLast?, message.role ≠ .assistant) →
            (∀ message ∈ messages'.head?, message.role ≠ .assistant) →
            result = messages ++ [eventsTurn printId (input.map snd)] ++ messages') := by
  have hnew := Saying.new fromStr printId model parallelToolCalls responseId createdAt
  obtain ⟨response, hresponse, hfinished, hturn⟩ :=
    hnew.transcript input hround lastId finishReason usage
  have hparse := parseInputItems_items fromStr toString printId
    (output_ne_nil hturn hspeaks) hfinished
  rw [hturn] at hparse
  have hbetween : ∀ before after, parseInputItems fromStr toString
      (before ++ response.output.map (OutputItem.toValue printId) ++ after) = do
        let messages ← parseInputItems fromStr toString before
        let messages' ← parseInputItems fromStr toString after
        return turns.joinRuns
          (turns.joinRuns messages [eventsTurn printId (input.map snd)]) messages' := by
    intro before after
    rw [parseInputItems_append, parseInputItems_append, hparse]
    cases parseInputItems fromStr toString before with
    | error error => rfl
    | ok messages => rfl
  refine ⟨response, hresponse, hparse, hbetween, ?_⟩
  intro before after messages messages' hbefore hafter
  refine ⟨_, (hbetween before after).trans (by rw [hbefore, hafter]; rfl), ?_, ?_⟩
  · rw [turns.filter_joinRuns, turns.filter_joinRuns]
    simp [turns, eventsTurn, turn, ChatMessage.assistantToolCalls]
  · intro hlast hhead
    have hbehind : ∀ turn, turns.joinRuns messages [turn] = messages ++ [turn] := fun turn =>
      turns.joinRuns_eq_append fun message hmem _ _ => .inl (decide_eq_false (hlast message hmem))
    rw [hbehind]
    exact turns.joinRuns_eq_append fun _ _ message hmem =>
      .inr (decide_eq_false (hhead message hmem))

/-- Reasoning, text and a call without arguments. -/
theorem response_history_call :
    ∃ response, (transcript (fun _ => "{}") (ResponseStream.new "eider" false 0 0)
        [(1, .reasoning "a"), (2, .text "b"), (3, .toolCall ⟨7, ⟨"f", .empty⟩⟩)] 4 .toolCalls
        ⟨1, 0, 4, 1⟩).getLast?.bind terminalResponse = some response ∧
      parseInputItems (fun text => if text = ("{}" : Text) then .ok .empty else .error "json")
          (fun _ => "null") (response.output.map (OutputItem.toValue nextIdText)) =
        .ok [.assistantToolCalls (some "b") (some "a")
          [⟨"call_0000000000000007", ⟨"f", .empty⟩⟩]] := by
  obtain ⟨response, hresponse, hparse, -⟩ := response_history (fun _ => "{}")
    (fun text => if text = ("{}" : Text) then .ok .empty else .error "json") (fun _ => "null")
    nextIdText "eider" false 0 0
    [(1, .reasoning "a"), (2, .text "b"), (3, .toolCall ⟨7, ⟨"f", .empty⟩⟩)] 4 .toolCalls
    ⟨1, 0, 4, 1⟩ (by simp) ⟨.reasoning "a", by simp, by simp [Speaks]⟩
  exact ⟨response, hresponse, hparse⟩

def isText : ChatOutputEvent → Bool
  | .text _ => true
  | _ => false

/-- An empty text delta is a text delta, and the content is absent all the same. -/
theorem empty_text_is_absent :
    ¬ ∀ (toJson : BTreeMap Text Value → Text) (fromStr : Text → Except Text (BTreeMap Text Value))
      (toString : Value → Text) (printId : Text → Nat → Text) (model : Text)
      (parallelToolCalls : Bool) (responseId createdAt : Nat)
      (input : List (Nat × ChatOutputEvent)) (lastId : Nat) (finishReason : ChatFinishReason)
      (usage : ChatUsage),
      (∀ call, .toolCall call ∈ input.map snd →
        fromStr (toJson call.function.arguments) = .ok call.function.arguments) →
      (∃ event ∈ input.map snd, Speaks event) →
      ∃ response message, (transcript toJson
          (ResponseStream.new model parallelToolCalls responseId createdAt) input lastId
          finishReason usage).getLast?.bind terminalResponse = some response ∧
        parseInputItems fromStr toString (response.output.map (OutputItem.toValue printId)) =
          .ok [message] ∧
        message.content = if (input.map snd).any isText then
          some ((input.map snd).flatMap spokenText) else none := by
  intro hall
  have hrun : ∃ response, (transcript (fun _ => "{}") (ResponseStream.new "eider" false 0 0)
        [(1, .text []), (2, .reasoning "a")] 3 .eos ⟨1, 0, 2, 1⟩).getLast?.bind terminalResponse =
        some response ∧
      parseInputItems (fun _ => .ok .empty) (fun _ => "null")
          (response.output.map (OutputItem.toValue nextIdText)) =
        .ok [.assistantToolCalls none (some "a") []] := ⟨_, rfl, rfl⟩
  obtain ⟨response, hresponse, hparse⟩ := hrun
  obtain ⟨response', message, hresponse', hparse', hcontent⟩ := hall (fun _ => "{}")
    (fun _ => .ok .empty) (fun _ => "null") nextIdText "eider" false 0 0
    [(1, .text []), (2, .reasoning "a")] 3 .eos ⟨1, 0, 2, 1⟩ (by simp)
    ⟨.reasoning "a", by simp, by simp [Speaks]⟩
  cases hresponse.symm.trans hresponse'
  cases hparse.symm.trans hparse'
  cases hcontent

end Eider.Guarantees.ResponseHistory
