import Eider.Source.MuseGlimmer.Sequence

/-!
The Muse Glimmer chat service (`infer/src/execution/muse_glimmer_serving.rs`, lines 60 to 735).

The pool keeps a sequence under the id that its request holds; here the request holds the
sequence itself. The output codec and the response filter behind it are the type `ω`. A tick
gets what comes from outside: the answers of the sequence cache, the blocks of the drafter,
the samples, and the one call that fails. The pages of a restored prefix hold the rows of
the first tokens of the prompt, and the drafter's checkpoint the same number of rows.
The report of a tick names whole requests where the source names their ids and counts.
-/
namespace Eider.Source.MuseGlimmer
open Lib Lib.ByteReader
open Source.Qwen36 (SchedulerConfig raise attempt expect)

/-- `RequestConfig`, with what the service asks of the sampling parameters. -/
structure Generation (τ : Type) where
  validSampling : Bool
  usesFastArgmax : Bool
  maxNewTokens : Nat
  eosTokenIds : List τ

/-- `MuseGlimmerDFlashStats`, without durations. -/
structure DFlashStats where
  cycles : Nat
  draftedTokens : Nat
  acceptedDrafts : Nat
  emittedTokens : Nat
  targetPosition : Nat
  dflashPosition : Nat
deriving DecidableEq, Repr

/-- `ActiveRequest`, with the id it is kept under and its sequence. `opened` is the output as
`add_request` has made it, which nothing reads. -/
structure ActiveRequest (τ ω : Type) where
  id : Nat
  prompt : List τ
  promptPosition : Nat
  prefixTarget : Nat
  prefixRetained : Bool
  generation : Generation τ
  generatedTokens : Nat
  lastToken : Option τ
  dflashEnabled : Bool
  pendingDflashToken : Option τ
  dflashStats : DFlashStats
  promptLogitsReady : Bool
  sequence : Option (Sequence τ)
  history : List τ
  output : ω
  usage : ChatUsage
  opened : ω

/-- The output codec with the response filter behind it: what a token does to it and whether
it ends the request, and the reason that the end of the text gives instead. -/
structure Codec (τ ω : Type) where
  isReasoning : ω → Bool
  pushToken : ω → τ → ω × Option ChatFinishReason
  finish : ω → (truncated : Bool) → Option ChatFinishReason

/-- What a tick gets from outside. An admitted request starts behind a restored prefix. -/
structure TickInput (τ : Type) where
  admission : (request : Nat) → Option Nat
  draft : (request : Nat) → DraftBlock τ
  sampled : (request : Nat) → τ
  fault : Option (Nat × Site)

/-- The call of a request that fails. -/
def TickInput.faultOf {τ : Type} (input : TickInput τ) (id : Nat) : Option Site :=
  match input.fault with
  | some (request, site) => if request = id then some site else none
  | none => none

/-- `EngineTick`: the requests behind a draft, those behind a prompt chunk, and those that
are finished. -/
structure Tick (τ ω : Type) where
  draftProgress : List (ActiveRequest τ ω)
  prefilled : List (Nat × Nat)
  finished : List (ActiveRequest τ ω × ChatFinishReason)

def Tick.empty {τ ω : Type} : Tick τ ω := ⟨[], [], []⟩

/-- `MuseGlimmerChatService`, with the report that the current tick is filling. -/
structure ChatService (τ ω : Type) where
  maxPositionEmbeddings : Nat
  hasDflash : Bool
  config : SchedulerConfig
  nextId : Nat
  waiting : List Nat
  requests : BTreeMap Nat (ActiveRequest τ ω)
  retainsPrefixes : Bool
  tick : Tick τ ω

/-- A call on one request. -/
abbrev Requesting (τ ω : Type) := EStateM (Fault CudaError) (ActiveRequest τ ω)

/-- A call of the service: `?` keeps what the service has become, a panic ends it. -/
abbrev Serving (τ ω : Type) := EStateM (Fault CudaError) (ChatService τ ω)

section
variable {τ ω α : Type}

/-- A program under a lease of the sequence. -/
def onSequence (program : Sequencing τ α) : Requesting τ ω α := fun request =>
  match request.sequence with
  | none => .error (.panicked "request is admitted") request
  | some sequence =>
    match program sequence with
    | .ok a sequence => .ok a { request with sequence := some sequence }
    | .error e sequence => .error e { request with sequence := some sequence }

/-! ## Prefill -/

section
variable (fault : Option Site) (request : ActiveRequest τ ω)

/-- The DFlash loop of `prefill`, sixteen tokens at a time. -/
def prefillDflash (chunk : Nat) : Sequencing τ Unit :=
  (List.range ((chunk + (blockSize - 1)) / blockSize)).forM fun block =>
    let chunkStart := request.promptPosition + blockSize * block
    let chunkEnd := min (chunkStart + blockSize) (request.promptPosition + chunk)
    dflashPrefillChunk fault block ((request.prompt.take chunkEnd).drop chunkStart)
      (chunkEnd = request.prompt.length)

/-- One prompt token; only the last one runs the head. -/
def prefillToken (offset : Nat) (token : τ) : Sequencing τ Unit :=
  if request.promptPosition + offset + 1 = request.prompt.length then forwardOne fault offset token
  else forwardHidden fault offset token

/-- The loop of `prefill` without DFlash. -/
def prefillTokens (chunk : Nat) : Sequencing τ Unit :=
  ((request.prompt.drop request.promptPosition).take chunk).zipIdx.forM fun entry =>
    prefillToken fault request entry.2 entry.1

def checkpointReady : Bool :=
  !request.prefixRetained && request.prefixTarget ≠ 0 &&
    request.promptPosition ≥ request.prefixTarget

variable (retainsPrefixes : Bool)

/-- `retain_request_prefix`, seen from the request. Its failures are only logged. -/
def retainRequestPrefix (request : ActiveRequest τ ω) : ActiveRequest τ ω :=
  if !retainsPrefixes || request.sequence.any fun s => s.position = request.prefixTarget then
    { request with prefixRetained := true }
  else request

/-- A request behind its chunk. -/
def prefilledRequest (chunk : Nat) (request : ActiveRequest τ ω) : ActiveRequest τ ω :=
  let stop := request.promptPosition + chunk
  let moved := { request with
    promptPosition := stop
    promptLogitsReady := stop = request.prompt.length }
  if checkpointReady moved then retainRequestPrefix retainsPrefixes moved else moved

/-- The body of the prefill loop, for a chunk that is not empty. -/
def prefillChunk (chunk : Nat) : Requesting τ ω Unit := do
  let request ← get
  onSequence (if request.dflashEnabled then prefillDflash fault request chunk
    else prefillTokens fault request chunk)
  modify (prefilledRequest retainsPrefixes chunk)

end

/-! ## Decoding -/

section
variable (codec : Codec τ ω) (argmax : List τ → τ) (fault : Option Site)

def countToken (token : τ) (request : ActiveRequest τ ω) : ActiveRequest τ ω :=
  { request with
    generatedTokens := request.generatedTokens + 1
    lastToken := some token
    history := request.history ++ [token]
    usage := { request.usage with
      completionTokens := request.usage.completionTokens + 1
      reasoningTokens := if codec.isReasoning request.output
        then request.usage.reasoningTokens + 1 else request.usage.reasoningTokens } }

def endsAt [DecidableEq τ] (request : ActiveRequest τ ω) (reason : Option ChatFinishReason)
    (token : τ) : Option ChatFinishReason :=
  match reason with
  | some reason => some reason
  | none =>
    if request.generation.eosTokenIds.contains token then some .eos
    else if request.generatedTokens = request.generation.maxNewTokens then some .length
    else none

/-- The emission of one token. A token whose text does not decode is counted all the same. -/
def emitToken [DecidableEq τ] (index : Nat) (token : τ) :
    Requesting τ ω (Option ChatFinishReason) := do
  modify (countToken codec token)
  reach fault (.pushToken index) "ChatOutputCodec::push_token"
  let request ← get
  let pushed := codec.pushToken request.output token
  set { request with output := pushed.1 }
  return endsAt request pushed.2 token

/-- The loop over the tokens of a cycle: how many were emitted, and why it ended there. -/
def emitTokens [DecidableEq τ] : Nat → List τ → Requesting τ ω (Nat × Option ChatFinishReason)
  | index, [] => return (index, none)
  | index, token :: tokens => do
    match ← emitToken codec fault index token with
    | some reason => return (index + 1, some reason)
    | none => emitTokens (index + 1) tokens

/-- The anchor of the next cycle. -/
def takeAnchor : Requesting τ ω τ := do
  let request ← get
  match request.pendingDflashToken with
  | some token =>
    set { request with pendingDflashToken := none }
    return token
  | none =>
    if request.promptLogitsReady then
      set { request with promptLogitsReady := false }
      onSequence (argmaxWithLogit fault argmax)
    else raise (.format "Muse Glimmer DFlash serving"
      "missing prompt logits or pending target token")

def DFlashStats.recordCycle (stats : DFlashStats) (cycle : DFlashCycle τ) (emitted : Nat) :
    DFlashStats where
  cycles := stats.cycles + 1
  draftedTokens := stats.draftedTokens + cycle.draftedTokens
  acceptedDrafts := stats.acceptedDrafts + cycle.acceptedDrafts
  emittedTokens := stats.emittedTokens + emitted
  targetPosition := cycle.targetPosition
  dflashPosition := cycle.dflashPosition

def generateDflash [DecidableEq τ] (block : DraftBlock τ) :
    Requesting τ ω (Option ChatFinishReason) := do
  let anchor ← takeAnchor argmax fault
  let cycle ← onSequence (dflashCycle fault argmax block anchor)
  modify fun request => { request with pendingDflashToken := some cycle.nextToken }
  let emitted ← emitTokens codec fault 0 cycle.tokens
  modify fun request => { request with
    dflashStats := request.dflashStats.recordCycle cycle emitted.1 }
  return emitted.2

/-- The logits of the next token: those of the prompt, or those behind the last token. -/
def advance : Requesting τ ω Unit := do
  let request ← get
  if request.promptLogitsReady then set { request with promptLogitsReady := false }
  else
    let token ← expect request.lastToken "generated token exists after prompt logits"
    onSequence (forwardOne fault 0 token)

/-- The next token of a request without DFlash. -/
def sampleToken (sampled : τ) : Requesting τ ω τ := do
  if (← get).generation.usesFastArgmax then onSequence (argmaxWithLogit fault argmax)
  else
    onSequence checkLogits
    reach fault .sample "Sampler::sample"
    return sampled

def generateOne [DecidableEq τ] (block : DraftBlock τ) (sampled : τ) :
    Requesting τ ω (Option ChatFinishReason) := do
  if (← get).dflashEnabled then generateDflash codec argmax fault block
  else
    advance fault
    let token ← sampleToken argmax fault sampled
    emitToken codec fault 0 token

end

end

/-! ## The service -/

section
variable {τ ω α : Type}

/-- A call on a request of the map, which keeps what the request has become. -/
def onRequest (message : String) (id : Nat) (program : Requesting τ ω α) : Serving τ ω α := fun s =>
  match s.requests.get id with
  | none => .error (.panicked message) s
  | some request =>
    match program request with
    | .ok a request => .ok a { s with requests := s.requests.insert id request }
    | .error e request => .error e { s with requests := s.requests.insert id request }

def report (f : Tick τ ω → Tick τ ω) : Serving τ ω Unit :=
  modify fun s => { s with tick := f s.tick }

section
variable (codec : Codec τ ω) (argmax : List τ → τ) (input : TickInput τ)
variable (request : ActiveRequest τ ω)

def requestCapacity : Nat :=
  max (request.prompt.length + request.generation.maxNewTokens +
    (if request.dflashEnabled then 1 else 0) * 15) 1

def drafterLayers : Nat := 5

/-- A new sequence behind a restored prefix. -/
def restoredSequence (hasDflash : Bool) (request : ActiveRequest τ ω) (cached : Nat) :
    Sequence τ where
  maxTokens := requestCapacity request
  position := cached
  cache := ⟨request.prompt.take cached, none⟩
  drafter := if hasDflash then List.replicate drafterLayers cached else []
  hidden := []
  logits := []
  rows := []
  batchLogitsRow := none

def admittedRequest (hasDflash : Bool) (cached : Nat) (request : ActiveRequest τ ω) :
    ActiveRequest τ ω :=
  { request with
    promptPosition := cached
    prefixRetained := cached = request.prefixTarget && cached ≠ 0
    sequence := some (restoredSequence hasDflash request cached)
    usage := { request.usage with cachedPromptTokens := cached } }

/-- The body of the admission loop; the result says whether the loop goes on. -/
def admitRequest (id : Nat) : Serving τ ω Bool := do
  let fault := input.faultOf id
  let s ← get
  let _ ← expect (s.requests.get id) "waiting request exists"
  reach fault .newSequenceState "MuseGlimmerModel::new_sequence_state"
  reach fault .newPageTable "Sm12xPageTable::new"
  reach fault .admission "SequenceCache::admit"
  match input.admission id with
  | none =>
    set { s with waiting := id :: s.waiting }
    return false
  | some cached =>
    reach fault .synchronizeAdmission "CudaStream::synchronize"
    onRequest "waiting request exists" id (modify (admittedRequest s.hasDflash cached))
    return true

variable (s : ChatService τ ω)

/-- `sequences.len()`. -/
def ChatService.activeSequences : Nat :=
  (s.requests.values.filter fun request => request.sequence.isSome).length

/-- The loop of `admit`. Each turn takes one request from the queue, so the length of the
queue bounds the turns. -/
def admitLoop : Nat → Serving τ ω Unit
  | 0 => pure ()
  | turns + 1 => do
    let s ← get
    if s.activeSequences < s.config.maxActiveSequences then
      match s.waiting with
      | [] => pure ()
      | id :: rest =>
        set { s with waiting := rest }
        if ← admitRequest input id then admitLoop turns else pure ()
    else pure ()

/-- `admit`. -/
def admitRequests : Serving τ ω Unit := do
  admitLoop input (← get).waiting.length

def decodable : Bool :=
  request.sequence.isSome && request.promptPosition = request.prompt.length &&
    request.generatedTokens < request.generation.maxNewTokens

def decodeIds : List Nat :=
  ((s.requests.values.filter decodable).take s.config.decodeCapacity).map ActiveRequest.id

/-- The draft progress of a request behind its cycle. -/
def recordDraft (tick : Tick τ ω) : Tick τ ω :=
  if request.dflashEnabled then
    { tick with draftProgress := tick.draftProgress ++ [request] }
  else tick

/-- One turn of the decode loop. -/
def decodeRequest [DecidableEq τ] (id : Nat) : Serving τ ω (Option ChatFinishReason) := do
  let reason ← onRequest "decode request exists" id
    (generateOne codec argmax (input.faultOf id) (input.draft id) (input.sampled id))
  let request ← expect ((← get).requests.get id) "decode request exists"
  report (recordDraft request)
  return reason

/-- The decode loop: the requests it ends. -/
def decodeLoop [DecidableEq τ] : List Nat → Serving τ ω (List (Nat × ChatFinishReason))
  | [] => return []
  | id :: rest => do
    let reason ← decodeRequest codec argmax input id
    let terminal ← decodeLoop rest
    return (reason.toList.map fun reason => (id, reason)) ++ terminal

def prefillIds : List Nat :=
  ((s.requests.values.filter fun request => request.sequence.isSome &&
    request.generation.maxNewTokens ≠ 0 && request.promptPosition < request.prompt.length).take
      s.config.prefillSequenceCapacity).map ActiveRequest.id

/-- The chunk of a request, for its share of the budget. -/
def prefillRows (fairShare : Nat) : Nat :=
  let available := request.prompt.length - request.promptPosition
  let rows := min available fairShare
  if !request.prefixRetained && request.promptPosition < request.prefixTarget then
    min rows (request.prefixTarget - request.promptPosition)
  else rows

/-- `prefill`. -/
def prefillLoop : List Nat → Nat → Serving τ ω Unit
  | [], _ => pure ()
  | id :: rest, budget => do
    let s ← get
    let request ← expect (s.requests.get id) "prefill request exists"
    let chunk := prefillRows request ((budget + rest.length) / (rest.length + 1))
    if chunk = 0 then prefillLoop rest budget
    else
      onRequest "prefill request exists" id
        (prefillChunk (input.faultOf id) s.retainsPrefixes chunk)
      report fun tick => { tick with
        prefilled := tick.prefilled ++ [(id, request.promptPosition + chunk)] }
      prefillLoop rest (budget - chunk)

def emptyRequests : List (Nat × ChatFinishReason) :=
  (s.requests.values.filter fun request =>
    request.sequence.isSome && request.generation.maxNewTokens = 0).map fun request =>
      (request.id, .length)

def finishOutput (fault : Option Site) (output : ω) :
    ChatFinishReason → Serving τ ω ChatFinishReason
  | .eos => do
    reach fault .finishOutput "ChatOutputCodec::finish"
    return (codec.finish output false).getD .eos
  | .length => do
    reach fault .finishOutput "ChatOutputCodec::finish_truncated"
    return (codec.finish output true).getD .length
  | reason => return reason

def finishRequest (id : Nat) (reason : ChatFinishReason) : Serving τ ω Unit := do
  let fault := input.faultOf id
  let request ← expect ((← get).requests.get id) "terminal request exists"
  let reason ← finishOutput codec fault request.output reason
  modify fun s => { s with requests := s.requests.erase id }
  let _ ← expect request.sequence "terminal request is admitted"
  reach fault .finishSequence "MuseGlimmerSequence::finish"
  report fun tick => { tick with finished := tick.finished ++ [(request, reason)] }

/-- The map of the ended requests. -/
def terminalRequests (ended empty : List (Nat × ChatFinishReason)) :
    BTreeMap Nat ChatFinishReason :=
  empty.foldl (fun terminal pair =>
    if terminal.contains pair.1 then terminal else terminal.insert pair.1 pair.2)
    (ended.foldl (fun terminal pair => terminal.insert pair.1 pair.2) .empty)

/-- `tick_with_lifecycle`. -/
def tick [DecidableEq τ] : Serving τ ω Unit := do
  modify fun s => { s with tick := .empty }
  admitRequests input
  let ended ← decodeLoop codec argmax input (decodeIds (← get))
  let s ← get
  prefillLoop input (prefillIds s) s.config.prefillTokenCapacity
  let terminal := terminalRequests ended (emptyRequests (← get))
  terminal.entries.forM fun entry => finishRequest codec input entry.1 entry.2

end

/-! ## Requests from outside -/

def checkRequest (config : SchedulerConfig) (prompt : List τ) (generation : Generation τ) :
    Except CudaError Unit := do
  let total := prompt.length + generation.maxNewTokens
  rejectIf (prompt = []) (.format "Muse Glimmer chat prompt" "prompt tokenized to zero tokens")
  rejectIf (2 ^ 64 ≤ total) (.shape "Muse Glimmer request capacity"
    "prompt + completion without overflow" s!"{prompt.length} + {generation.maxNewTokens}")
  rejectIf (config.maxContextTokens < total) (.shape "Muse Glimmer request capacity"
    s!"at most {config.maxContextTokens} tokens" s!"{total} tokens")

/-- `retained_prompt_prefix_tokens`, for pages of 128 tokens. -/
def retainedPromptPrefixTokens (promptTokens : Nat) : Nat := (promptTokens - 1) / 128 * 128

def newRequest (s : ChatService τ ω) (prompt : List τ) (generation : Generation τ) (output : ω) :
    ActiveRequest τ ω where
  id := s.nextId
  prompt := prompt
  promptPosition := 0
  prefixTarget := retainedPromptPrefixTokens prompt.length
  prefixRetained := false
  generation := generation
  generatedTokens := 0
  lastToken := none
  dflashEnabled := s.hasDflash && generation.usesFastArgmax &&
    decide (prompt.length + generation.maxNewTokens + 15 < 2 ^ 64 ∧
      prompt.length + generation.maxNewTokens + 15 ≤ s.maxPositionEmbeddings)
  pendingDflashToken := none
  dflashStats := ⟨0, 0, 0, 0, 0, 0⟩
  promptLogitsReady := false
  sequence := none
  history := prompt
  output := output
  usage := ⟨prompt.length, 0, 0, 0⟩
  opened := output

/-- `add_request`, with the id it returns. `rendered` is the prompt, or the error of the stop
sequences or of the template; a sampler or a codec that cannot be built, `none`, is found
behind the new id. -/
def addRequest (rendered : Except CudaError (List τ)) (generation : Generation τ)
    (output : Option ω) : Serving τ ω Nat := do
  attempt (rejectIf (generation.validSampling = false)
    (.format "sampling" "invalid sampling parameters"))
  let prompt ← attempt rendered
  let s ← get
  attempt (checkRequest s.config prompt generation)
  attempt (rejectIf (2 ^ 64 ≤ s.nextId + 1)
    (.format "Muse Glimmer request ID" "request ID space exhausted"))
  set { s with nextId := s.nextId + 1 }
  match output with
  | none => raise (.device "ChatOutputCodec::new")
  | some output =>
    modify fun t => { t with
      requests := t.requests.insert s.nextId (newRequest s prompt generation output)
      waiting := t.waiting ++ [s.nextId] }
    return s.nextId

/-- `cancel_request`. The errors of the release are only logged. -/
def cancelRequest (id : Nat) : Serving τ ω Unit :=
  modify fun s =>
    if s.requests.contains id then
      { s with
        requests := s.requests.erase id
        waiting := s.waiting.filter fun waiting => waiting ≠ id }
    else s

/-- `new_with_cache_config`, once the cache is built. -/
def ChatService.new (maxPositionEmbeddings : Nat) (hasDflash : Bool) (config : SchedulerConfig)
    (maxRetainedBytes : Nat) : ChatService τ ω where
  maxPositionEmbeddings := maxPositionEmbeddings
  hasDflash := hasDflash
  config := config
  nextId := 1
  waiting := []
  requests := .empty
  retainsPrefixes := maxRetainedBytes ≠ 0
  tick := .empty

inductive Action (τ ω : Type) where
  | addRequest (rendered : Except CudaError (List τ)) (generation : Generation τ)
      (output : Option ω)
  | tick (input : TickInput τ)
  | cancelRequest (id : Nat)

def Action.call [DecidableEq τ] (codec : Codec τ ω) (argmax : List τ → τ) :
    Action τ ω → Serving τ ω Unit
  | .addRequest rendered generation output => do
    let _ ← MuseGlimmer.addRequest rendered generation output
  | .tick input => MuseGlimmer.tick codec argmax input
  | .cancelRequest id => MuseGlimmer.cancelRequest id

/-- One step of a run; a panic ends it. -/
def step [DecidableEq τ] (codec : Codec τ ω) (argmax : List τ → τ) (s : ChatService τ ω)
    (action : Action τ ω) : Option (ChatService τ ω) :=
  match action.call codec argmax s with
  | .ok _ s => some s
  | .error (.failed _) s => some s
  | .error (.panicked _) _ => none

end

end Eider.Source.MuseGlimmer
