import Eider.Lib.Await
import Eider.Source.Scheduler.Tick

/-!
Generation sessions (`infer/src/execution/generation.rs`, lines 31 to 195 and 215 to
380).

A session of Qwen3.6 has a scheduler of its own: of a tick, only what becomes of its
single request is modelled, which has no tool grammar and no drafts. The tokens that the
model selects are a parameter, and so is the decode stream of the tokenizer. Calls of the
model that fail, and logits, are left out.
-/
namespace Eider.Source.Generation
open Lib.Await
open Source.Qwen36 (Request SampledToken Sampling newRequest prefillChunkTokens fairShare)

inductive GenerationFinishReason where
  | eos
  | stopSequence (sequence : Text)
  | length
  | toolCalls
deriving DecidableEq, Repr

structure GeneratedToken where
  id : Nat
  text : Text
  finishReason : Option GenerationFinishReason
deriving DecidableEq, Repr

/-- `GenerationConfig`, as far as sessions read it. -/
structure GenerationConfig where
  sampling : Sampling
  maxNewTokens : Nat
  eosTokenIds : List Nat
  stopSequences : List Text

def GenerationConfig.validate (c : GenerationConfig) : Except CudaError Unit :=
  if c.sampling.valid = false then .error (.format "sampling" "invalid sampling parameters")
  else if c.stopSequences.any List.isEmpty then
    .error (.format "stop sequence" "stop sequences must not be empty: \"\"")
  else .ok ()

/-- What the sessions use from outside: the decode stream, and the tokens selected. -/
structure Outside (δ φ : Type) where
  vocab : Nat
  decodeStream : δ
  decode : δ → Nat → Except String (δ × Option Text)
  select : Nat → SampledToken φ

/-- The checks that both constructors begin with, with the capacity of the session. -/
def checkSession (vocab : Nat) (promptTokens : List Nat) (config : GenerationConfig) :
    Except CudaError Nat :=
  match config.validate with
  | .error e => .error e
  | .ok () =>
    if promptTokens = [] then
      .error (.format "generation prompt" "prompt tokenized to zero tokens")
    else
      match promptTokens.find? fun token => decide (vocab ≤ token) with
      | some token =>
        .error (.shape "generation prompt token" s!"token < {vocab}" (toString token))
      | none =>
        if 2 ^ 64 ≤ promptTokens.length + config.maxNewTokens then
          .error (.shape "generation capacity" "prompt + completion length without overflow"
            s!"{promptTokens.length} + {config.maxNewTokens}")
        else .ok (max (promptTokens.length + config.maxNewTokens) 1)

/-- The chunk that the decode stream completes with a token, if it completes one, behind
the stop buffer. -/
def pushToken {δ φ : Type} (outside : Outside δ φ) (stream : δ) (buffer : StopBuffer) (id : Nat) :
    Except CudaError (δ × Option (StopBuffer × StopOutput)) :=
  match outside.decode stream id with
  | .error detail => .error (.format "tokenizer decode stream" detail)
  | .ok (stream, none) => .ok (stream, none)
  | .ok (stream, some chunk) => .ok (stream, some (buffer.push chunk))

/-! ## Qwen3.6 -/

section
variable {K φ : Type}

/-- The admission of a waiting request. -/
def admitRequest (r : Request K φ) : Request K φ :=
  if r.lifecycle = .waiting then
    { r with lifecycle := if r.prefillableTokens = 0 then .decoding else .prefilling }
  else r

/-- A tick for the single request: it is admitted, and then decodes one token or
prefills a chunk. The cache of a session retains no prefixes. -/
def tickRequest (capacity : Nat) (select : Nat → SampledToken φ) (r : Request K φ) :
    Option ScheduledToken × Request K φ :=
  let r := admitRequest r
  match r.lifecycle with
  | .decoding =>
    let (r, token) := r.applySample (select r.generatedTokens.length) false
    (some token, r)
  | .prefilling =>
    let position := r.promptPosition + prefillChunkTokens r.prefillableTokens
      (fairShare capacity 1) r.promptPosition r.prefixTarget r.prefixRetained
    (none, { r with
      promptPosition := position
      prefixRetained := r.prefixRetained || r.prefixTarget ≠ 0
      lifecycle := if position + 1 = r.promptTokens.length then .decoding else .prefilling })
  | _ => (none, r)

/-- A tick of the session's scheduler; a cancelled request is gone. -/
def tickScheduler (capacity : Nat) (select : Nat → SampledToken φ) (r : Option (Request K φ)) :
    Option ScheduledToken × Option (Request K φ) :=
  match r with
  | none => (none, none)
  | some r =>
    let (token, r) := tickRequest capacity select r
    (token, some r)

end

/-- `Qwen36GenerationSession`; the scheduler stands for its request. -/
structure Qwen36GenerationSession (K φ δ : Type) where
  prefillTokenCapacity : Nat
  scheduler : Option (Request K φ)
  decodeStream : δ
  history : List Nat
  stopBuffer : StopBuffer
  generatedTokens : Nat
  finishReason : Option GenerationFinishReason

namespace Qwen36GenerationSession
variable {K φ δ : Type}

def new (outside : Outside δ φ) (promptTokens : List Nat) (config : GenerationConfig) :
    Except CudaError (Qwen36GenerationSession K φ δ) := do
  let maxTokens ← checkSession outside.vocab promptTokens config
  return {
    prefillTokenCapacity := min maxTokens 2048
    scheduler := some (newRequest 0 promptTokens
      ⟨config.sampling, config.maxNewTokens, config.eosTokenIds⟩ none)
    decodeStream := outside.decodeStream
    history := promptTokens
    stopBuffer := .new config.stopSequences
    generatedTokens := 0
    finishReason := if config.maxNewTokens = 0 then some .length else none }

/-- The reason of the scheduler, as the session reports it. -/
def mapFinish : RequestFinishReason → GenerationFinishReason
  | .eos => .eos
  | .length => .length
  | .toolCalls => .toolCalls

/-- `next_token` behind the loop that waits for a token. -/
def takeToken (outside : Outside δ φ) (s : Qwen36GenerationSession K φ δ)
    (sampled : ScheduledToken) :
    Except CudaError (Option GeneratedToken) × Qwen36GenerationSession K φ δ :=
  let s := { s with
    generatedTokens := s.generatedTokens + 1
    history := s.history ++ [sampled.id] }
  let scheduled := sampled.finishReason.map mapFinish
  let pushed : Except CudaError
      (Text × Option GenerationFinishReason × Qwen36GenerationSession K φ δ) :=
    if scheduled = some .eos then
      let (buffer, text) := s.stopBuffer.finish
      .ok (text, scheduled, { s with stopBuffer := buffer })
    else
      match pushToken outside s.decodeStream s.stopBuffer sampled.id with
      | .error e => .error e
      | .ok (stream, none) => .ok ([], scheduled, { s with decodeStream := stream })
      | .ok (stream, some (buffer, output)) =>
        -- the reason of the scheduler is replaced, also when nothing matched
        .ok (output.text, output.matched.map .stopSequence,
          { s with decodeStream := stream, stopBuffer := buffer })
  match pushed with
  | .error e => (.error e, s)
  | .ok (text, reason, s) =>
    let (text, s) :=
      if reason = some .length ∨ reason = some .toolCalls then
        let (buffer, tail) := s.stopBuffer.finish
        (text ++ tail, { s with stopBuffer := buffer })
      else (text, s)
    let s := match reason with
      | none => s
      | some reason => { s with
          finishReason := some reason
          scheduler := if sampled.finishReason.isNone then none else s.scheduler }
    (.ok (some ⟨sampled.id, text, reason⟩), s)

/-- `next_token`; `none` says that the ticks ran out. -/
def nextToken (outside : Outside δ φ) (ticks : Nat) (s : Qwen36GenerationSession K φ δ) :
    Option (Except CudaError (Option GeneratedToken) × Qwen36GenerationSession K φ δ) :=
  if s.finishReason.isSome then some (.ok none, s)
  else
    match await (tickScheduler s.prefillTokenCapacity outside.select) ticks s.scheduler with
    | none => none
    | some (sampled, scheduler) => some (takeToken outside { s with scheduler := scheduler } sampled)

end Qwen36GenerationSession

/-! ## Nemotron 3 -/

structure Nemotron3GenerationSession (δ : Type) where
  decodeStream : δ
  config : GenerationConfig
  promptTokens : List Nat
  history : List Nat
  stopBuffer : StopBuffer
  prefilled : Bool
  lastToken : Option Nat
  generatedTokens : Nat
  finishReason : Option GenerationFinishReason

namespace Nemotron3GenerationSession
variable {δ φ : Type} (outside : Outside δ φ)

def new (promptTokens : List Nat) (config : GenerationConfig) :
    Except CudaError (Nemotron3GenerationSession δ) := do
  let _ ← checkSession outside.vocab promptTokens config
  return {
    decodeStream := outside.decodeStream
    config := config
    promptTokens := promptTokens
    history := promptTokens
    stopBuffer := .new config.stopSequences
    prefilled := false
    lastToken := none
    generatedTokens := 0
    finishReason := if config.maxNewTokens = 0 then some .length else none }

variable (s : Nemotron3GenerationSession δ)

def nextInputToken : Except CudaError Nat × Nemotron3GenerationSession δ :=
  if s.prefilled then
    match s.lastToken with
    | none => (.error (.format "generation session" "prefilled session has no generated token"), s)
    | some token => (.ok token, s)
  else (.ok (s.promptTokens.getLastD 0), { s with prefilled := true })

/-- `next_token` behind the selection of a token. -/
def takeToken (id : Nat) :
    Except CudaError (Option GeneratedToken) × Nemotron3GenerationSession δ :=
  let s := { s with
    generatedTokens := s.generatedTokens + 1
    lastToken := some id
    history := s.history ++ [id] }
  let pushed : Except CudaError
      (Text × Option GenerationFinishReason × Nemotron3GenerationSession δ) :=
    if s.config.eosTokenIds.contains id then
      let (buffer, text) := s.stopBuffer.finish
      .ok (text, some .eos, { s with stopBuffer := buffer })
    else
      match pushToken outside s.decodeStream s.stopBuffer id with
      | .error e => .error e
      | .ok (stream, none) => .ok ([], none, { s with decodeStream := stream })
      | .ok (stream, some (buffer, output)) =>
        .ok (output.text, output.matched.map .stopSequence,
          { s with decodeStream := stream, stopBuffer := buffer })
  match pushed with
  | .error e => (.error e, s)
  | .ok (text, reason, s) =>
    let (text, reason, s) :=
      if reason = none ∧ s.generatedTokens = s.config.maxNewTokens then
        let (buffer, tail) := s.stopBuffer.finish
        (text ++ tail, some GenerationFinishReason.length, { s with stopBuffer := buffer })
      else (text, reason, s)
    let s := match reason with
      | none => s
      | some reason => { s with finishReason := some reason }
    (.ok (some ⟨id, text, reason⟩), s)

def nextToken : Except CudaError (Option GeneratedToken) × Nemotron3GenerationSession δ :=
  if s.finishReason.isSome then (.ok none, s)
  else
    match s.nextInputToken with
    | (.error e, s) => (.error e, s)
    | (.ok _, s) => s.takeToken outside (outside.select s.generatedTokens).id

end Nemotron3GenerationSession

end Eider.Source.Generation
