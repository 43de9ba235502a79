import Eider.Source.ResponseStream
import Eider.Guarantees.DeclaredTools

/-!
# The items of a response stream

A well-formed stream is a row of blocks, one for each entry of the terminal response's
`output` and in that order: the item is added, its deltas follow, it is done. So no two
items are open at once, none is added or done twice, and the index of a block is the place
of its item. Put together, the items say what the input events said.

`push_reasoning` is the only push that leaves an open item of the other kind open. A
reasoning delta behind text that no tool call has closed opens a second item under the
index of the text (`reasoning_after_text`). The stream is well formed if and only if there
is no such delta (`stream_wellFormed_iff`).
-/
namespace Eider.Guarantees.ResponseItems
open Lib Lib.Run Source Source.Responses List
open Guarantees.DeclaredTools (Emitting emitNext Input)

/-! ## Well-formed streams -/

/-- The life of one output item. A call sends its arguments as one delta. -/
inductive Block where
  | reasoning (id : Nat) (deltas : List Text)
  | message (id : Nat) (deltas : List Text)
  | functionCall (id callId : Nat) (name arguments : Text)

/-- The item is added and its deltas are sent. -/
def Block.opening (index : Nat) : Block → List StreamEvent
  | .reasoning id deltas =>
    .outputItemAdded index (reasoningItem id .inProgress []) ::
      .reasoningSummaryPartAdded id index 0 [] ::
        deltas.map (.reasoningSummaryTextDelta id index 0)
  | .message id deltas =>
    .outputItemAdded index (messageItem id .inProgress []) ::
      .contentPartAdded id index 0 [] :: deltas.map (.outputTextDelta id index 0)
  | .functionCall id callId name arguments =>
    [.outputItemAdded index (functionItem id callId name [] .inProgress),
      .functionCallArgumentsDelta id index arguments]

/-- The finished item: its text is what its deltas concatenate to. -/
def Block.item : Block → OutputItem
  | .reasoning id deltas => reasoningItem id .completed deltas.flatten
  | .message id deltas => messageItem id .completed deltas.flatten
  | .functionCall id callId name arguments => functionItem id callId name arguments .completed

/-- The item is done. -/
def Block.closing (index : Nat) : Block → List StreamEvent
  | .reasoning id deltas =>
    [.reasoningSummaryTextDone id index 0 deltas.flatten,
      .reasoningSummaryPartDone id index 0 deltas.flatten,
      .outputItemDone index (Block.reasoning id deltas).item]
  | .message id deltas =>
    [.outputTextDone id index 0 deltas.flatten, .contentPartDone id index 0 deltas.flatten,
      .outputItemDone index (Block.message id deltas).item]
  | .functionCall id callId name arguments =>
    [.functionCallArgumentsDone id index name arguments,
      .outputItemDone index (Block.functionCall id callId name arguments).item]

def Block.events (index : Nat) (block : Block) : List StreamEvent :=
  block.opening index ++ block.closing index

/-- Blocks one after the other, with increasing indices. -/
def layout : Nat → List Block → List StreamEvent
  | _, [] => []
  | index, block :: blocks => block.events index ++ layout (index + 1) blocks

/-- What a reader of the response takes in. -/
inductive Mark where
  | reasoning (c : Char)
  | text (c : Char)
  | call (id : Nat) (name arguments : Text)
deriving DecidableEq

def marksOfItem : OutputItem → List Mark
  | .message _ _ content => content.flatten.map .text
  | .reasoning _ _ summary => summary.flatten.map .reasoning
  | .functionCall _ _ callId name arguments => [.call callId name arguments]

section
variable (toJson : BTreeMap Text Value → Text)

def marksOf : ChatOutputEvent → List Mark
  | .reasoning t => t.map .reasoning
  | .text t => t.map .text
  | .toolCall call => [.call call.id call.function.name (toJson call.function.arguments)]

/-- The response of a terminal event. -/
def terminalResponse : StreamEvent → Option Response
  | .responseCompleted response => some response
  | .responseIncomplete response => some response
  | _ => none

/-- The stream is a row of blocks and the terminal event, whose output lists the items of
the blocks; the items spell out the input. -/
def WellFormed (events : List StreamEvent) (input : List ChatOutputEvent) : Prop :=
  ∃ blocks terminal response, events = layout 0 blocks ++ [terminal] ∧
    terminalResponse terminal = some response ∧
    response.output = blocks.map Block.item ∧
    response.output.flatMap marksOfItem = input.flatMap (marksOf toJson)

/-- The events of a whole response: output events, each with the counter value that its
push finds, and then `Finished`. -/
def transcript (s : ResponseStream) (input : List (Nat × ChatOutputEvent)) (lastId : Nat)
    (finishReason : ChatFinishReason) (usage : ChatUsage) : List StreamEvent :=
  (s.pushAll toJson (input.map (fun event => (event.1, .output event.2)) ++
    [(lastId, .finished finishReason usage)])).2

end

/-- No reasoning comes behind text that no tool call has closed. `textOpen` says whether
there is such text before the events. -/
def orderly (textOpen : Bool) : List ChatOutputEvent → Bool
  | [] => true
  | .reasoning t :: rest => (t.isEmpty || !textOpen) && orderly textOpen rest
  | .text t :: rest => orderly (textOpen || !t.isEmpty) rest
  | .toolCall _ :: rest => orderly false rest

/-! ## Layouts -/

variable (index : Nat)

theorem layout_append (blocks more : List Block) :
    layout index (blocks ++ more) = layout index blocks ++ layout (index + blocks.length) more := by
  induction blocks generalizing index with
  | nil => rfl
  | cons block blocks ih =>
    rw [cons_append, layout, layout, ih, append_assoc, length_cons,
      show index + 1 + blocks.length = index + (blocks.length + 1) by omega]

theorem layout_concat (blocks : List Block) (block : Block) :
    layout 0 (blocks ++ [block]) = layout 0 blocks ++ block.events blocks.length := by
  rw [layout_append, layout, layout, append_nil, Nat.zero_add]

def addedIndex : StreamEvent → Option Nat
  | .outputItemAdded index _ => some index
  | _ => none

theorem addedIndex_deltas {event : Text → StreamEvent} (h : ∀ delta, addedIndex (event delta) = none)
    (deltas : List Text) : (deltas.map event).filterMap addedIndex = [] := by
  rw [filterMap_map, filterMap_eq_nil_iff]
  exact fun delta _ => h delta

theorem addedIndex_opening (block : Block) :
    (block.opening index).filterMap addedIndex = [index] := by
  cases block with
  | functionCall => rfl
  | reasoning id deltas =>
    exact congrArg (index :: ·) (addedIndex_deltas (fun _ => rfl) deltas)
  | message id deltas => exact congrArg (index :: ·) (addedIndex_deltas (fun _ => rfl) deltas)

theorem addedIndex_events (block : Block) :
    (block.events index).filterMap addedIndex = [index] := by
  have hclosing : (block.closing index).filterMap addedIndex = [] := by cases block <;> rfl
  rw [Block.events, filterMap_append, addedIndex_opening, hclosing, append_nil]

theorem addedIndex_layout (blocks : List Block) :
    (layout index blocks).filterMap addedIndex = List.range' index blocks.length := by
  induction blocks generalizing index with
  | nil => rfl
  | cons block blocks ih =>
    rw [layout, filterMap_append, addedIndex_events, ih, length_cons, range'_succ, singleton_append]

theorem WellFormed.added_nodup {toJson : BTreeMap Text Value → Text} {events : List StreamEvent}
    {input : List ChatOutputEvent} (h : WellFormed toJson events input) :
    (events.filterMap addedIndex).Nodup := by
  obtain ⟨blocks, terminal, response, rfl, hterminal, -, -⟩ := h
  have hlast : addedIndex terminal = none := by
    cases terminal <;> first | rfl | cases hterminal
  rw [filterMap_append, addedIndex_layout, filterMap_cons_none hlast, filterMap_nil, append_nil]
  exact nodup_range'

/-! ## Streams in the making -/

/-- The block that is open. -/
inductive Current where
  | idle
  | reasoning (id : Nat) (deltas : List Text)
  | text (id : Nat) (deltas : List Text)

namespace Current

def block : Current → Option Block
  | .idle => none
  | .reasoning id deltas => some (.reasoning id deltas)
  | .text id deltas => some (.message id deltas)

def isText : Current → Bool
  | .text _ _ => true
  | _ => false

def reasoningItem (index : Nat) : Current → Option OpenItem
  | .reasoning id deltas => some ⟨id, index, deltas.flatten⟩
  | _ => none

def textItem (index : Nat) : Current → Option OpenItem
  | .text id deltas => some ⟨id, index, deltas.flatten⟩
  | _ => none

end Current

/-- What has been sent is a row of finished blocks and the opening of the current one. -/
structure Writing (toJson : BTreeMap Text Value → Text) (s : ResponseStream)
    (sent : List StreamEvent) (input : List ChatOutputEvent) (blocks : List Block)
    (current : Current) : Prop where
  output : s.output = blocks.map Block.item
  reasoning : s.reasoning = current.reasoningItem blocks.length
  text : s.text = current.textItem blocks.length
  sent : sent = layout 0 blocks ++ (current.block.map (Block.opening blocks.length)).getD []
  marks : (blocks ++ current.block.toList).flatMap (fun block => marksOfItem block.item) =
    input.flatMap (marksOf toJson)

namespace Writing
variable {toJson : BTreeMap Text Value → Text} {s : ResponseStream} {sent : List StreamEvent}
variable {input : List ChatOutputEvent} {blocks : List Block} {current : Current}

theorem new (toJson : BTreeMap Text Value → Text) (model : Text) (parallelToolCalls : Bool)
    (responseId createdAt : Nat) :
    Writing toJson (ResponseStream.new model parallelToolCalls responseId createdAt) [] [] []
      .idle where
  output := rfl
  reasoning := rfl
  text := rfl
  sent := rfl
  marks := rfl

section
variable (h : Writing toJson s sent input blocks current)
include h

theorem length_output : s.output.length = blocks.length := by
  rw [h.output, length_map]

theorem marks_concat (event : ChatOutputEvent) : (input ++ [event]).flatMap (marksOf toJson) =
      (blocks ++ current.block.toList).flatMap (fun block => marksOfItem block.item) ++
        marksOf toJson event := by
  rw [flatMap_append, ← h.marks, flatMap_singleton]

theorem silent {event : ChatOutputEvent} (hevent : marksOf toJson event = []) :
    Writing toJson s (sent ++ []) (input ++ [event]) blocks current := { h with
  sent := by rw [append_nil, h.sent]
  marks := by rw [h.marks_concat, hevent, append_nil] }

theorem closeReasoning :
    ∃ blocks' current', Writing toJson s.closeReasoning.1 (sent ++ s.closeReasoning.2) input blocks'
      current' ∧ current'.isText = current.isText ∧ ∀ index, current'.reasoningItem index = none := by
  cases current with
  | reasoning id deltas =>
    have hopen : s.reasoning = some ⟨id, blocks.length, deltas.flatten⟩ := h.reasoning
    refine ⟨blocks ++ [.reasoning id deltas], .idle, ?_, rfl, fun _ => rfl⟩
    unfold ResponseStream.closeReasoning
    rw [hopen]
    exact { h with
      output := by rw [map_append, ← h.output]; rfl
      reasoning := rfl
      sent := by
        rw [layout_concat, h.sent]
        simp [Current.block, Block.events, Block.closing, Block.item]
      marks := by
        rw [← h.marks]
        simp [Current.block] }
  | idle =>
    have hclosed : s.reasoning = none := h.reasoning
    refine ⟨blocks, .idle, ?_, rfl, fun _ => rfl⟩
    unfold ResponseStream.closeReasoning
    rw [hclosed, append_nil]
    exact h
  | text id deltas =>
    have hclosed : s.reasoning = none := h.reasoning
    refine ⟨blocks, .text id deltas, ?_, rfl, fun _ => rfl⟩
    unfold ResponseStream.closeReasoning
    rw [hclosed, append_nil]
    exact h

theorem closeText (hreasoning : ∀ index, current.reasoningItem index = none) :
    ∃ blocks', Writing toJson s.closeText.1 (sent ++ s.closeText.2) input blocks' .idle := by
  cases current with
  | reasoning id deltas => cases hreasoning 0
  | idle =>
    have hclosed : s.text = none := h.text
    refine ⟨blocks, ?_⟩
    unfold ResponseStream.closeText
    rw [hclosed, append_nil]
    exact h
  | text id deltas =>
    have hopen : s.text = some ⟨id, blocks.length, deltas.flatten⟩ := h.text
    refine ⟨blocks ++ [.message id deltas], ?_⟩
    unfold ResponseStream.closeText
    rw [hopen]
    exact { h with
      output := by rw [map_append, ← h.output]; rfl
      text := rfl
      sent := by
        rw [layout_concat, h.sent]
        simp [Current.block, Block.events, Block.closing, Block.item]
      marks := by
        rw [← h.marks]
        simp [Current.block] }

theorem closeAll :
    ∃ blocks', Writing toJson s.closeReasoning.1.closeText.1
      (sent ++ s.closeReasoning.2 ++ s.closeReasoning.1.closeText.2) input blocks' .idle := by
  obtain ⟨_, _, hclosed, -, hreasoning⟩ := h.closeReasoning
  exact hclosed.closeText hreasoning

theorem pushText
    (hreasoning : ∀ index, current.reasoningItem index = none) (itemId : Nat) (delta : Text) :
    ∃ blocks' current', Writing toJson (s.pushText itemId delta).1
      (sent ++ (s.pushText itemId delta).2) (input ++ [.text delta]) blocks' current' ∧
      current'.isText = (current.isText || !delta.isEmpty) := by
  unfold ResponseStream.pushText
  split
  · rename_i hempty
    rw [List.isEmpty_iff] at hempty
    subst hempty
    exact ⟨blocks, current, h.silent rfl, (Bool.or_false _).symm⟩
  · rename_i hempty
    cases current with
    | reasoning id deltas => cases hreasoning 0
    | idle =>
      have hclosed : s.text = none := h.text
      refine ⟨blocks, .text itemId [delta], ?_, by simp [Current.isText, hempty]⟩
      unfold ResponseStream.openText
      rw [hclosed, h.length_output]
      exact { h with
        text := by simp [Current.textItem]
        sent := by
          rw [h.sent]
          simp [Current.block, Block.opening]
        marks := by
          rw [h.marks_concat]
          simp [Current.block, Block.item, messageItem, marksOfItem, marksOf] }
    | text id deltas =>
      have hopen : s.text = some ⟨id, blocks.length, deltas.flatten⟩ := h.text
      refine ⟨blocks, .text id (deltas ++ [delta]), ?_, rfl⟩
      unfold ResponseStream.openText
      rw [hopen]
      exact { h with
        text := by simp [Current.textItem]
        sent := by
          rw [h.sent]
          simp [Current.block, Block.opening]
        marks := by
          rw [h.marks_concat]
          simp [Current.block, Block.item, messageItem, marksOfItem, marksOf] }

/-- Reasoning is taken in order as long as no text is open. -/
theorem pushReasoning (itemId : Nat) (delta : Text)
    (hdelta : (delta.isEmpty || !current.isText) = true) :
    ∃ blocks' current', Writing toJson (s.pushReasoning itemId delta).1
      (sent ++ (s.pushReasoning itemId delta).2) (input ++ [.reasoning delta]) blocks' current' ∧
      current'.isText = current.isText := by
  unfold ResponseStream.pushReasoning
  split
  · rename_i hempty
    rw [List.isEmpty_iff] at hempty
    subst hempty
    exact ⟨blocks, current, h.silent rfl, rfl⟩
  · rename_i hempty
    cases current with
    | text id deltas => simp [Current.isText, hempty] at hdelta
    | idle =>
      have hclosed : s.reasoning = none := h.reasoning
      refine ⟨blocks, .reasoning itemId [delta], ?_, rfl⟩
      unfold ResponseStream.openReasoning
      rw [hclosed, h.length_output]
      exact { h with
        reasoning := by simp [Current.reasoningItem]
        sent := by
          rw [h.sent]
          simp [Current.block, Block.opening]
        marks := by
          rw [h.marks_concat]
          simp [Current.block, Block.item, reasoningItem, marksOfItem, marksOf] }
    | reasoning id deltas =>
      have hopen : s.reasoning = some ⟨id, blocks.length, deltas.flatten⟩ := h.reasoning
      refine ⟨blocks, .reasoning id (deltas ++ [delta]), ?_, rfl⟩
      unfold ResponseStream.openReasoning
      rw [hopen]
      exact { h with
        reasoning := by simp [Current.reasoningItem]
        sent := by
          rw [h.sent]
          simp [Current.block, Block.opening]
        marks := by
          rw [h.marks_concat]
          simp [Current.block, Block.item, reasoningItem, marksOfItem, marksOf] }

theorem pushTool (itemId : Nat) (call : ChatToolCall) :
    ∃ blocks', Writing toJson (s.pushTool toJson itemId call).1
      (sent ++ (s.pushTool toJson itemId call).2) (input ++ [.toolCall call]) blocks' .idle := by
  obtain ⟨closed, hclosed⟩ := h.closeAll
  refine ⟨closed ++ [.functionCall itemId call.id call.function.name
    (toJson call.function.arguments)], ?_⟩
  unfold ResponseStream.pushTool
  dsimp only
  rw [hclosed.length_output]
  exact { hclosed with
    output := by
      rw [map_append, ← hclosed.output]
      rfl
    sent := by
      have hsent := hclosed.sent
      simp only [Current.block, Option.map_none, Option.getD_none, append_nil] at hsent
      rw [layout_concat, ← hsent]
      simp [Current.block, Block.events, Block.opening, Block.closing, Block.item,
        ResponseStream.functionEvents]
    marks := by
      rw [hclosed.marks_concat]
      simp [Current.block, Block.item, functionItem, marksOfItem, marksOf] }

theorem finish (finishReason : ChatFinishReason)
    (usage : ChatUsage) : WellFormed toJson (sent ++ (s.finish finishReason usage).2) input := by
  obtain ⟨closed, hclosed⟩ := h.closeAll
  have hsent := hclosed.sent
  have hmarks := hclosed.marks
  simp only [Current.block, Option.map_none, Option.getD_none, Option.toList_none,
    append_nil] at hsent hmarks
  have hitems : s.closeReasoning.1.closeText.1.output.flatMap marksOfItem =
      input.flatMap (marksOf toJson) := by
    rw [hclosed.output, flatMap_map]
    exact hmarks
  unfold ResponseStream.finish
  rw [← append_assoc, ← append_assoc, hsent]
  split
  · exact ⟨closed, _, _, rfl, rfl, hclosed.output, hitems⟩
  · exact ⟨closed, _, _, rfl, rfl, hclosed.output, hitems⟩

omit h in
theorem pushReasoning_clash {id : Nat} {deltas : List Text}
    (h : Writing toJson s sent input blocks (.text id deltas)) (itemId : Nat) {delta : Text}
    (hdelta : delta.isEmpty = false) :
    ¬ ((sent ++ (s.pushReasoning itemId delta).2).filterMap addedIndex).Nodup := by
  have hclosed : s.reasoning = none := h.reasoning
  have hsent : sent.filterMap addedIndex =
      range' 0 blocks.length ++ [blocks.length] := by
    rw [h.sent, filterMap_append, addedIndex_layout]
    exact congrArg _ (addedIndex_opening blocks.length (.message id deltas))
  unfold ResponseStream.pushReasoning ResponseStream.openReasoning
  rw [hclosed, hdelta, h.length_output, filterMap_append, hsent]
  simp [addedIndex, nodup_append]

omit h in
/-- The events of the pushes that follow come behind those already sent. -/
theorem transcript_cons (s : ResponseStream) (itemId : Nat) (event : ChatOutputEvent)
    (rest : List (Nat × ChatOutputEvent)) (lastId : Nat) (finishReason : ChatFinishReason)
    (usage : ChatUsage) :
    transcript toJson s ((itemId, event) :: rest) lastId finishReason usage =
      (s.push toJson itemId (.output event)).2 ++
        transcript toJson (s.push toJson itemId (.output event)).1 rest lastId finishReason usage :=
  rfl

theorem push (itemId : Nat) {event : ChatOutputEvent} {rest : List ChatOutputEvent}
    (horderly : orderly current.isText (event :: rest) = true) :
    ∃ blocks' current', Writing toJson (s.push toJson itemId (.output event)).1
      (sent ++ (s.push toJson itemId (.output event)).2) (input ++ [event]) blocks' current' ∧
      orderly current'.isText rest = true := by
  cases event with
  | reasoning delta =>
    rw [orderly, Bool.and_eq_true] at horderly
    obtain ⟨blocks', current', hnext, htext⟩ := h.pushReasoning itemId delta horderly.1
    exact ⟨blocks', current', hnext, by rw [htext]; exact horderly.2⟩
  | text delta =>
    obtain ⟨_, _, hclosed, hsame, hreasoning⟩ := h.closeReasoning
    obtain ⟨blocks', current', hnext, htext⟩ := hclosed.pushText hreasoning itemId delta
    refine ⟨blocks', current', ?_, by rw [htext, hsame]; exact horderly⟩
    rw [append_assoc] at hnext
    exact hnext
  | toolCall call =>
    obtain ⟨blocks', hnext⟩ := h.pushTool itemId call
    exact ⟨blocks', .idle, hnext, horderly⟩

variable (rest : List (Nat × ChatOutputEvent))

theorem orderly_wellFormed
    (horderly : orderly current.isText (rest.map Prod.snd) = true) (lastId : Nat)
    (finishReason : ChatFinishReason) (usage : ChatUsage) :
    WellFormed toJson (sent ++ transcript toJson s rest lastId finishReason usage)
      (input ++ rest.map Prod.snd) := by
  induction rest generalizing s sent input blocks current with
  | nil =>
    rw [map_nil, append_nil]
    have hfinish := h.finish finishReason usage
    have hlast : transcript toJson s [] lastId finishReason usage =
        (s.finish finishReason usage).2 := append_nil _
    rwa [hlast]
  | cons head rest ih =>
    obtain ⟨itemId, event⟩ := head
    obtain ⟨_, _, hnext, hrest⟩ := h.push itemId horderly
    have hwhole := ih hnext hrest
    rw [transcript_cons, ← append_assoc, map_cons, ← singleton_append, ← append_assoc]
    exact hwhole

theorem clash_of_not_orderly
    (horderly : orderly current.isText (rest.map Prod.snd) = false) (lastId : Nat)
    (finishReason : ChatFinishReason) (usage : ChatUsage) :
    ¬ ((sent ++ transcript toJson s rest lastId finishReason usage).filterMap addedIndex).Nodup := by
  induction rest generalizing s sent input blocks current with
  | nil => cases horderly
  | cons head rest ih =>
    obtain ⟨itemId, event⟩ := head
    rw [transcript_cons, ← append_assoc]
    cases event with
    | reasoning delta =>
      rw [map_cons, orderly, Bool.and_eq_false_iff] at horderly
      by_cases hdelta : (delta.isEmpty || !current.isText) = true
      · obtain ⟨_, _, hnext, htext⟩ := h.pushReasoning itemId delta hdelta
        refine ih hnext ?_
        rw [htext]
        exact horderly.resolve_left (by simp [hdelta])
      · -- The text is open and the delta is not empty: the index is already taken.
        rw [Bool.not_eq_true, Bool.or_eq_false_iff] at hdelta
        cases current with
        | idle => cases hdelta.2
        | reasoning id deltas => cases hdelta.2
        | text id deltas =>
          intro hnodup
          rw [filterMap_append] at hnodup
          exact h.pushReasoning_clash itemId hdelta.1 (nodup_append.mp hnodup).1
    | text delta =>
      obtain ⟨_, _, hclosed, hsame, hreasoning⟩ := h.closeReasoning
      obtain ⟨_, _, hnext, htext⟩ := hclosed.pushText hreasoning itemId delta
      rw [append_assoc] at hnext
      refine ih hnext ?_
      rw [htext, hsame]
      exact horderly
    | toolCall call =>
      obtain ⟨_, hnext⟩ := h.pushTool itemId call
      exact ih hnext horderly

end

end Writing

/-! ## Results -/

/-- The response stream is well formed exactly for the orderly event sequences. -/
theorem stream_wellFormed_iff (toJson : BTreeMap Text Value → Text) (model : Text)
    (parallelToolCalls : Bool) (responseId createdAt : Nat) (input : List (Nat × ChatOutputEvent))
    (lastId : Nat) (finishReason : ChatFinishReason) (usage : ChatUsage) :
    WellFormed toJson (transcript toJson
        (ResponseStream.new model parallelToolCalls responseId createdAt) input lastId finishReason
        usage) (input.map Prod.snd) ↔
      orderly false (input.map Prod.snd) = true := by
  have hnew := Writing.new toJson model parallelToolCalls responseId createdAt
  constructor
  · intro hwhole
    by_contra horderly
    rw [Bool.not_eq_true] at horderly
    exact hnew.clash_of_not_orderly input horderly lastId finishReason usage hwhole.added_nodup
  · intro horderly
    exact hnew.orderly_wellFormed input horderly lastId finishReason usage

/-- The parser reopens reasoning behind text, and the stream is then not well formed. -/
theorem reasoning_after_text :
    ¬ ∀ (fromStr : Text → Except Text Value) (tools : List ChatTool) (startsInReasoning : Bool)
      (ids : Nat) (p : ChatOutputParser) (inputs : List Input) (t : Emitting)
      (toJson : BTreeMap Text Value → Text) (model : Text) (parallelToolCalls : Bool)
      (responseId createdAt : Nat) (itemIds : List Nat) (lastId : Nat)
      (finishReason : ChatFinishReason) (usage : ChatUsage),
      ChatOutputParser.new tools startsInReasoning ids = .ok p →
      Path (emitNext fromStr) (fun _ _ => True) (p, []) inputs t → itemIds.length = t.2.length →
      WellFormed toJson (transcript toJson
        (ResponseStream.new model parallelToolCalls responseId createdAt) (itemIds.zip t.2) lastId
        finishReason usage) t.2 := by
  intro hall
  have hrun : ∃ p t, ChatOutputParser.new [] false 1 = .ok p ∧
      run (emitNext fun _ => .error []) (p, []) [.push "a<think>b</think>".toList] = some t ∧
      t.2 = [.text "a", .reasoning "b"] :=
    ⟨_, _, rfl, rfl, rfl⟩
  obtain ⟨p, t, made, hrun, hevents⟩ := hrun
  have hwhole := hall _ _ _ _ p _ t (fun _ => []) "eider" false 0 0 [1, 2] 3 .eos ⟨1, 0, 4, 2⟩ made
    (.of_run hrun) (by rw [hevents]; rfl)
  rw [hevents] at hwhole
  have hnodup := hwhole.added_nodup
  revert hnodup
  decide

end Eider.Guarantees.ResponseItems
