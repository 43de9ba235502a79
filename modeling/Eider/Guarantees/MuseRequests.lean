import Eider.Guarantees.MuseSequence
import Eider.Source.MuseGlimmer.Service

/-!
What a tick does to one request of the Muse Glimmer service. A steady request knows what it
has fed to its sequence, the sequence is settled behind these tokens, and the request has a
next input. Prompt chunks and generated tokens keep it steady; a call that fails does too
if it comes before the first rows of its append, or behind the bookkeeping of its token.
-/
namespace Eider.Guarantees.MuseRequests
open Lib Lib.ByteReader Source Source.MuseGlimmer List Ensures
open Guarantees.MuseSequence
open Source.Qwen36 (expect)

variable {τ ω : Type}

/-- The tokens that a request has fed to its sequence, by its own cursor. -/
def fed (r : ActiveRequest τ ω) : List τ :=
  if r.promptPosition < r.prompt.length then r.prompt.take r.promptPosition
  else if r.dflashEnabled = true ∨ r.generatedTokens = 0 then r.history
  else r.history.dropLast

/-- What a request feeds or samples next. -/
inductive NextInput (argmax : List τ → τ) (r : ActiveRequest τ ω) (s : Sequence τ) : Prop where
  | prompt (position : r.promptPosition < r.prompt.length) (pending : r.pendingDflashToken = none)
      (logits : r.promptLogitsReady = false)
  | logits (position : r.promptPosition = r.prompt.length) (pending : r.pendingDflashToken = none)
      (ready : r.promptLogitsReady = true) (first : r.generatedTokens = 0)
      (current : currentLogits s = some r.history)
  | pending (position : r.promptPosition = r.prompt.length) (drafting : r.dflashEnabled = true)
      (token : r.pendingDflashToken = some (argmax r.history))
  | last (position : r.promptPosition = r.prompt.length) (drafting : r.dflashEnabled = false)
      (used : r.promptLogitsReady = false) (later : 0 < r.generatedTokens)
      (token : ∃ token, r.lastToken = some token ∧ r.history.getLast? = some token)

/-- The sequence of a request stands where its cursor says, and the request can go on. -/
structure Standing (argmax : List τ → τ) (layers : Nat) (r : ActiveRequest τ ω)
    (s : Sequence τ) : Prop where
  settled : Settled (requestCapacity r) layers (fed r) s
  next : NextInput argmax r s

/-- A request between two ticks. -/
structure Steady (argmax : List τ → τ) (layers : Nat) (r : ActiveRequest τ ω) : Prop where
  nonempty : r.prompt ≠ []
  position : r.promptPosition ≤ r.prompt.length
  history : ∃ emitted, r.history = r.prompt ++ emitted ∧ emitted.length = r.generatedTokens
  early : r.promptPosition < r.prompt.length → r.generatedTokens = 0
  budget : r.generatedTokens ≤ r.generation.maxNewTokens
  drafting : r.dflashEnabled = true → 0 < layers ∧ r.generation.usesFastArgmax = true
  returned : r.dflashEnabled = true →
    r.dflashStats.cycles + r.dflashStats.acceptedDrafts = r.generatedTokens
  standing : ∀ s, r.sequence = some s → Standing argmax layers r s

/-- A request and what it has become: the same request, with no token taken back. -/
structure Later (r r' : ActiveRequest τ ω) : Prop where
  id : r'.id = r.id
  prompt : r'.prompt = r.prompt
  generation : r'.generation = r.generation
  drafting : r'.dflashEnabled = r.dflashEnabled
  opened : r'.opened = r.opened
  history : r.history <+: r'.history
  admitted : r.sequence.isSome = true → r'.sequence.isSome = true
  position : r.sequence.isSome = true → r.promptPosition ≤ r'.promptPosition

theorem Later.refl (r : ActiveRequest τ ω) : Later r r :=
  ⟨rfl, rfl, rfl, rfl, rfl, prefix_rfl, fun h => h, fun _ => Nat.le_refl _⟩

theorem Later.trans {r r' r'' : ActiveRequest τ ω} (h : Later r r') (h' : Later r' r'') :
    Later r r'' where
  id := h'.id.trans h.id
  prompt := h'.prompt.trans h.prompt
  generation := h'.generation.trans h.generation
  drafting := h'.drafting.trans h.drafting
  opened := h'.opened.trans h.opened
  history := h.history.trans h'.history
  admitted hr := h'.admitted (h.admitted hr)
  position hr := (h.position hr).trans (h'.position (h.admitted hr))

/-- The calls of an admission. -/
def admissionSite (site : Site) : Prop :=
  site = .newSequenceState ∨ site = .newPageTable ∨ site = .admission ∨ site = .synchronizeAdmission

/-- The calls whose failure leaves a request as it was, or with its token counted. -/
def harmless (site : Site) : Prop :=
  earlySites 0 site ∨ (∃ index, site = .pushToken index) ∨ site = .finishOutput ∨
    site = .finishSequence ∨ admissionSite site

/-- The call that fails, if there is one, is harmless. -/
def Harmless (fault : Option Site) : Prop := ∀ site, fault = some site → harmless site

/-- A call behind the admission fails. -/
def Struck (fault : Option Site) : Prop := ∃ site, fault = some site ∧ ¬ admissionSite site

theorem struck_forward {fault : Option Site} {append : Nat} {site : Site}
    (hfault : fault = some site) (hsite : forwardSites append site) : Struck fault := by
  refine ⟨site, hfault, ?_⟩
  unfold admissionSite
  obtain (h | h | ⟨layer, h⟩ | h) | h := hsite <;> subst h <;> simp

theorem not_harmless_append {append : Nat} {site : Site} (hpos : 0 < append)
    (hsite : forwardSites append site) : ¬ harmless site := by
  intro hharmless
  unfold harmless earlySites admissionSite at hharmless
  obtain (h | h | ⟨layer, h⟩ | h) | h := hsite <;> subst h <;> simp at hharmless <;> omega

theorem early_of_harmless {site : Site} (hharmless : harmless site) (hsite : forwardSites 0 site) :
    earlySites 0 site := by
  obtain h | hrest := hharmless
  · exact h
  · unfold admissionSite at hrest
    obtain (h | h | ⟨layer, h⟩ | h) | h := hsite <;> subst h <;> simp at hrest

variable {t : Sequence τ}

section
variable {argmax : List τ → τ} {fault : Option Site} {capacity layers : Nat} {rows : List τ}
variable {s : Sequence τ} {r : ActiveRequest τ ω} {chunk : Nat}

/-- What a failed part of a prefill leaves. -/
def Kept (fault : Option Site) (keeps : Sequence τ → Prop) (e : Fault CudaError)
    (t : Sequence τ) : Prop :=
  Struck fault ∧ (∃ call, e = .failed (.device call)) ∧ keeps t

theorem kept_of_failed {append : Nat} {sites : Site → Prop} {keeps : Sequence τ → Prop}
    {e : Fault CudaError} (hharmless : Harmless fault)
    (hsites : ∀ site, sites site → forwardSites append site)
    (h : Failed fault sites (earlySites append) keeps e t) : append = 0 ∧ Kept fault keeps e t := by
  obtain ⟨site, call, hfault, hsite, he, hkeeps⟩ := h
  have hsafe := hharmless site hfault
  obtain rfl | hpos := Nat.eq_zero_or_pos append
  · exact ⟨rfl, struck_forward hfault (hsites site hsite), ⟨call, he⟩, hkeeps (early_of_harmless hsafe (hsites site hsite))⟩
  · exact absurd hsafe (not_harmless_append hpos (hsites site hsite))

theorem take_append_window (prompt : List τ) {start stop : Nat} (h : start ≤ stop) :
    prompt.take start ++ (prompt.take stop).drop start = prompt.take stop := by
  have hstart : prompt.take start = (prompt.take stop).take start := by
    rw [take_take, Nat.min_eq_left h]
  rw [hstart, take_append_drop]

/-- Where the DFlash loop stands before a block. -/
def blockStart (r : ActiveRequest τ ω) (chunk block : Nat) : Nat :=
  min (r.promptPosition + blockSize * block) (r.promptPosition + chunk)

/-- What a prefill leaves: the rows of the prompt so far, and the logits of a whole prompt. -/
structure Prefilled (capacity layers : Nat) (prompt : List τ) (stop : Nat) (t : Sequence τ) :
    Prop where
  settled : Settled capacity layers (prompt.take stop) t
  logits : stop = prompt.length → currentLogits t = some prompt

theorem currentLogits_block {tokens : List τ} (hpos : 0 < tokens.length)
    (hrow : t.batchLogitsRow = some (tokens.length - 1)) (hrows : t.rows = blockRows rows tokens) :
    currentLogits t = some (rows ++ tokens) := by
  unfold currentLogits
  rw [hrow, hrows, blockRows]
  dsimp only
  rw [getElem?_map, getElem?_range (by omega)]
  have hlast : tokens.length - 1 + 1 = tokens.length := by omega
  simp [hlast]

theorem prefillBlock_ensures {chunk block : Nat} (hharmless : Harmless fault)
    (hstop : r.promptPosition + chunk ≤ r.prompt.length) (hcapacity : r.prompt.length ≤ capacity)
    (hblock : blockSize * block < chunk)
    (h : Settled capacity layers (r.prompt.take (blockStart r chunk block)) s) :
    Ensures (dflashPrefillChunk fault block
        ((r.prompt.take (min (r.promptPosition + blockSize * block + blockSize)
          (r.promptPosition + chunk))).drop (r.promptPosition + blockSize * block))
        (min (r.promptPosition + blockSize * block + blockSize)
          (r.promptPosition + chunk) = r.prompt.length)) s
      (fun _ t => Prefilled capacity layers r.prompt (blockStart r chunk (block + 1)) t)
      (fun e t => block = 0 ∧
        Kept fault (Settled capacity layers (r.prompt.take (blockStart r chunk block))) e t) := by
  have hstart : blockStart r chunk block = r.promptPosition + blockSize * block := by
    unfold blockStart
    omega
  have hnext : min (r.promptPosition + blockSize * block + blockSize) (r.promptPosition + chunk) =
      blockStart r chunk (block + 1) := by
    unfold blockStart
    rw [Nat.mul_add, Nat.mul_one, Nat.add_assoc]
  rw [hnext, ← hstart]
  have hle : blockStart r chunk block ≤ blockStart r chunk (block + 1) := by
    omega
  have hlength : ((r.prompt.take (blockStart r chunk (block + 1))).drop
      (blockStart r chunk block)).length =
        blockStart r chunk (block + 1) - blockStart r chunk block := by
    have hbound : blockStart r chunk (block + 1) ≤ r.prompt.length :=
      (Nat.min_le_right _ _).trans hstop
    simp [Nat.min_eq_left hbound]
  have hsize : 0 < blockStart r chunk (block + 1) - blockStart r chunk block ∧
      blockStart r chunk (block + 1) - blockStart r chunk block ≤ blockSize := by
    unfold blockStart blockSize at *
    omega
  refine (dflashPrefillChunk_ensures h (by omega) ?_).mono (fun _ t ht => ?_) fun e t he => ?_
  · rw [hlength, length_take]
    omega
  · obtain ⟨hsettled, hlogits⟩ := ht
    rw [take_append_window _ hle] at hsettled
    refine ⟨hsettled, fun hend => ?_⟩
    obtain ⟨hrow, hrows⟩ := hlogits (by simpa using hend)
    have hcurrent := currentLogits_block (by omega) hrow hrows
    rw [take_append_window _ hle, hend, take_length] at hcurrent
    exact hcurrent
  · exact kept_of_failed hharmless (fun _ => .inl) he

theorem prefillDflash_ensures (hharmless : Harmless fault) (hchunk : 0 < chunk)
    (hstop : r.promptPosition + chunk ≤ r.prompt.length) (hcapacity : r.prompt.length ≤ capacity)
    (h : Settled capacity layers (r.prompt.take r.promptPosition) s) :
    Ensures (prefillDflash fault r chunk) s
      (fun _ t => Prefilled capacity layers r.prompt (r.promptPosition + chunk) t)
      (Kept fault (Settled capacity layers (r.prompt.take r.promptPosition))) := by
  have hzero : blockStart r chunk 0 = r.promptPosition := by simp [blockStart]
  have hblocks : blockStart r chunk ((chunk + (blockSize - 1)) / blockSize) =
      r.promptPosition + chunk := by
    unfold blockStart blockSize
    omega
  unfold prefillDflash
  rw [range_eq_range']
  generalize hcount : (chunk + (blockSize - 1)) / blockSize = count at hblocks ⊢
  refine (Ensures.forM (I := fun rest t => ∃ block, rest = range' block (count - block) ∧
      block ≤ count ∧ Settled capacity layers (r.prompt.take (blockStart r chunk block)) t ∧
      (0 < block → Prefilled capacity layers r.prompt (blockStart r chunk block) t))
    ?_ ⟨0, by simp, Nat.zero_le _, by rwa [hzero], by simp⟩).imp fun _ t ht => ?_
  · rintro block rest t ⟨k, hrest, hle, hsettled, -⟩
    obtain hlast | hmore : count - k = 0 ∨ 0 < count - k := by omega
    · rw [hlast] at hrest
      cases hrest
    · obtain ⟨left, hleft⟩ : ∃ left, count - k = left + 1 := ⟨count - k - 1, by omega⟩
      rw [hleft, range'_succ] at hrest
      injection hrest with hblock hrest
      subst hblock
      have hinside : blockSize * block < chunk := by
        unfold blockSize at *
        omega
      refine (prefillBlock_ensures hharmless hstop hcapacity hinside hsettled).mono
        (fun _ u hu => ⟨block + 1, ?_, by omega, hu.settled, fun _ => hu⟩) fun e u hu => ?_
      · rw [hrest]
        congr 1
        omega
      · obtain ⟨rfl, hkept⟩ := hu
        rwa [hzero] at hkept
  · obtain ⟨block, hrest, hle, -, hfilled⟩ := ht
    have hend : block = count := by
      by_contra hne
      obtain ⟨left, hleft⟩ : ∃ left, count - block = left + 1 := ⟨count - block - 1, by omega⟩
      rw [hleft, range'_succ] at hrest
      cases hrest
    subst hend
    rw [← hblocks]
    refine hfilled ?_
    unfold blockSize at hcount
    omega

theorem take_succ_getElem (prompt : List τ) {position : Nat} (h : position < prompt.length) :
    prompt.take position ++ [prompt[position]] = prompt.take (position + 1) := by
  rw [take_succ_eq_append_getElem h]

theorem prefillToken_ensures {offset : Nat} {token : τ} (hharmless : Harmless fault)
    (hcapacity : r.prompt.length ≤ capacity)
    (htoken : r.prompt[r.promptPosition + offset]? = some token)
    (h : Settled capacity layers (r.prompt.take (r.promptPosition + offset)) s) :
    Ensures (prefillToken fault r offset token) s
      (fun _ t => Prefilled capacity layers r.prompt (r.promptPosition + offset + 1) t)
      (fun e t => offset = 0 ∧
        Kept fault (Settled capacity layers (r.prompt.take (r.promptPosition + offset))) e t) := by
  obtain ⟨hinside, htoken⟩ := List.getElem?_eq_some_iff.mp htoken
  have hroom : (r.prompt.take (r.promptPosition + offset)).length < capacity := by
    rw [List.length_take]
    omega
  have hrows : r.prompt.take (r.promptPosition + offset) ++ [token] =
      r.prompt.take (r.promptPosition + offset + 1) := by
    rw [← htoken, take_succ_getElem]
  unfold prefillToken
  split
  · refine (forwardOne_ensures h hroom).mono (fun _ t ht => ?_) fun e t he =>
      kept_of_failed hharmless (fun _ => id) he
    obtain ⟨hsettled, hlogits, hrow⟩ := ht
    rw [hrows] at hsettled hlogits
    refine ⟨hsettled, fun hend => ?_⟩
    rw [currentLogits, hrow, hlogits, hend, take_length]
  · rename_i hlast
    refine (forwardHidden_ensures h hroom).mono (fun _ t ht => ?_) fun e t he =>
      kept_of_failed hharmless (fun _ => .inl) he
    rw [hrows] at ht
    exact ⟨ht.1, fun hend => absurd hend hlast⟩

theorem prefillTokens_ensures (hharmless : Harmless fault) (hchunk : 0 < chunk)
    (hstop : r.promptPosition + chunk ≤ r.prompt.length) (hcapacity : r.prompt.length ≤ capacity)
    (h : Settled capacity layers (r.prompt.take r.promptPosition) s) :
    Ensures (prefillTokens fault r chunk) s
      (fun _ t => Prefilled capacity layers r.prompt (r.promptPosition + chunk) t)
      (Kept fault (Settled capacity layers (r.prompt.take r.promptPosition))) := by
  unfold prefillTokens
  have hlength : ((r.prompt.drop r.promptPosition).take chunk).length = chunk := by
    rw [length_take, length_drop]
    omega
  have hentry : ∀ k, k < chunk → ∃ token, r.prompt[r.promptPosition + k]? = some token ∧
      ((r.prompt.drop r.promptPosition).take chunk).zipIdx[k]? = some (token, k) := by
    intro k hk
    refine ⟨r.prompt[r.promptPosition + k], by simp, ?_⟩
    simp [hk, show r.promptPosition + k < r.prompt.length by omega]
  generalize hentries : ((r.prompt.drop r.promptPosition).take chunk).zipIdx = entries at hentry
  have hsize : entries.length = chunk := by rw [← hentries, length_zipIdx, hlength]
  refine (Ensures.forM (I := fun rest t => ∃ offset, rest = entries.drop offset ∧
      offset ≤ chunk ∧ Settled capacity layers (r.prompt.take (r.promptPosition + offset)) t ∧
      (0 < offset → Prefilled capacity layers r.prompt (r.promptPosition + offset) t))
    ?_ ⟨0, by simp, Nat.zero_le _, h, by simp⟩).imp fun _ t ht => ?_
  · rintro ⟨token, index⟩ rest t ⟨offset, hrest, hle, hsettled, -⟩
    obtain hend | hmore : offset = chunk ∨ offset < chunk := by omega
    · rw [drop_of_length_le (by omega)] at hrest
      cases hrest
    · obtain ⟨token', htoken, hget⟩ := hentry offset hmore
      rw [drop_eq_getElem_cons (by omega)] at hrest
      injection hrest with hhead hrest
      rw [getElem?_eq_getElem (by omega), ← hhead] at hget
      cases hget
      refine (prefillToken_ensures hharmless hcapacity htoken hsettled).mono
        (fun _ u hu => ⟨index + 1, hrest, by omega, hu.settled, fun _ => hu⟩) fun e u hu => ?_
      obtain ⟨rfl, hkept⟩ := hu
      exact hkept
  · obtain ⟨offset, hrest, hle, -, hfilled⟩ := ht
    have hend : offset = chunk := by
      have hnil := congrArg length hrest
      rw [length_drop, length_nil] at hnil
      omega
    subst hend
    exact hfilled hchunk

/-! ## Requests -/

theorem onSequence_ensures {α : Type} {program : Sequencing τ α} {P : α → Sequence τ → Prop}
    {E : Fault CudaError → Sequence τ → Prop} (hsequence : r.sequence = some s)
    (h : Ensures program s P E) :
    Ensures (onSequence program : Requesting τ ω α) r
      (fun a r' => ∃ t, P a t ∧ r' = { r with sequence := some t })
      (fun e r' => ∃ t, E e t ∧ r' = { r with sequence := some t }) := by
  unfold Ensures at h ⊢
  unfold onSequence
  rw [hsequence]
  dsimp only
  cases hrun : program s with
  | ok a t =>
    rw [hrun] at h
    exact ⟨t, h, rfl⟩
  | error e t =>
    rw [hrun] at h
    exact ⟨t, h, rfl⟩

theorem prompt_le_capacity (r : ActiveRequest τ ω) : r.prompt.length ≤ requestCapacity r := by
  unfold requestCapacity
  omega

theorem Steady.withSequence (h : Steady argmax layers r) (hstanding : Standing argmax layers r t) :
    Steady argmax layers { r with sequence := some t } := { h with
  standing _ hs := by
    cases hs
    exact ⟨hstanding.settled, by
      cases hstanding.next with
      | prompt position pending logits => exact .prompt position pending logits
      | logits position pending ready first current => exact .logits position pending ready first current
      | pending position drafting token => exact .pending position drafting token
      | last position drafting used later token => exact .last position drafting used later token⟩ }

theorem fed_prompt (hposition : r.promptPosition < r.prompt.length) :
    fed r = r.prompt.take r.promptPosition := if_pos hposition

/-- A request behind a chunk of its prompt. -/
def behindChunk (chunk : Nat) (retained : Bool) (t : Sequence τ) (r : ActiveRequest τ ω) :
    ActiveRequest τ ω :=
  { r with
    promptPosition := r.promptPosition + chunk
    promptLogitsReady := r.promptPosition + chunk = r.prompt.length
    prefixRetained := retained
    sequence := some t }

theorem prefilledRequest_eq (retains : Bool) (chunk : Nat) (t : Sequence τ)
    (r : ActiveRequest τ ω) :
    ∃ retained, prefilledRequest retains chunk { r with sequence := some t } =
      behindChunk chunk retained t r := by
  unfold prefilledRequest retainRequestPrefix
  dsimp only
  split
  · split
    · exact ⟨true, rfl⟩
    · exact ⟨r.prefixRetained, rfl⟩
  · exact ⟨r.prefixRetained, rfl⟩

theorem steady_behindChunk {retained : Bool} (h : Steady argmax layers r)
    (hpending : r.pendingDflashToken = none) (hposition : r.promptPosition < r.prompt.length)
    (hstop : r.promptPosition + chunk ≤ r.prompt.length)
    (hfilled : Prefilled (requestCapacity r) layers r.prompt (r.promptPosition + chunk) t) :
    Steady argmax layers (behindChunk chunk retained t r) := { h with
  position := hstop
  early _ := h.early hposition
  standing u hu := by
    cases hu
    have hfirst := h.early hposition
    obtain ⟨emitted, hhistory, hemitted⟩ := h.history
    have hprompt : r.history = r.prompt := by
      rw [hfirst, length_eq_zero_iff] at hemitted
      rw [hhistory, hemitted, append_nil]
    by_cases hend : r.promptPosition + chunk = r.prompt.length
    · have hfed : fed (behindChunk chunk retained t r) = r.prompt.take (r.promptPosition + chunk) := by
        unfold fed
        rw [if_neg (by simp only [behindChunk]; omega), if_pos (.inr hfirst), hend, take_length]
        exact hprompt
      refine ⟨hfed ▸ hfilled.settled, .logits hend hpending (decide_eq_true hend) hfirst ?_⟩
      exact (hfilled.logits hend).trans (congrArg some hprompt.symm)
    · have hlt : (behindChunk chunk retained t r).promptPosition <
          (behindChunk chunk retained t r).prompt.length := by
        simp only [behindChunk]
        omega
      exact ⟨fed_prompt hlt ▸ hfilled.settled, .prompt hlt hpending (decide_eq_false hend)⟩ }

theorem prefillChunk_ensures {retains : Bool} (hharmless : Harmless fault)
    (h : Steady argmax layers r) (hsequence : r.sequence = some s)
    (hposition : r.promptPosition < r.prompt.length) (hchunk : 0 < chunk)
    (hstop : r.promptPosition + chunk ≤ r.prompt.length) :
    Ensures (prefillChunk fault retains chunk) r
      (fun _ r' => Steady argmax layers r' ∧ ∃ retained t, r' = behindChunk chunk retained t r)
      (fun e r' => Reported e ∧ Struck fault ∧ Steady argmax layers r' ∧
        ∃ t, r' = { r with sequence := some t }) := by
  have hstanding := h.standing s hsequence
  have hsettled := fed_prompt hposition ▸ hstanding.settled
  obtain ⟨hpending, hlogits⟩ : r.pendingDflashToken = none ∧ r.promptLogitsReady = false := by
    cases hstanding.next with
    | prompt position pending logits => exact ⟨pending, logits⟩
    | logits position => omega
    | pending position => omega
    | last position => omega
  refine get_bind ?_
  have hprefill : Ensures (if r.dflashEnabled then prefillDflash fault r chunk
      else prefillTokens fault r chunk) s
      (fun _ t => Prefilled (requestCapacity r) layers r.prompt (r.promptPosition + chunk) t)
      (Kept fault (Settled (requestCapacity r) layers (r.prompt.take r.promptPosition))) := by
    split
    · exact prefillDflash_ensures hharmless hchunk hstop (prompt_le_capacity r) hsettled
    · exact prefillTokens_ensures hharmless hchunk hstop (prompt_le_capacity r) hsettled
  refine Ensures.bind ((onSequence_ensures hsequence hprefill).mono (fun _ _ ht => ht)
    fun e r' he => ?_) fun _ r' hr' => ?_
  · obtain ⟨t, ⟨hfault, ⟨call, he⟩, hkept⟩, rfl⟩ := he
    exact ⟨⟨_, he⟩, hfault, h.withSequence ⟨fed_prompt hposition ▸ hkept, .prompt hposition hpending hlogits⟩,
      t, rfl⟩
  · obtain ⟨t, hfilled, rfl⟩ := hr'
    obtain ⟨retained, heq⟩ := prefilledRequest_eq retains chunk t r
    refine Ensures.modify ?_
    rw [heq]
    exact ⟨steady_behindChunk h hpending hposition hstop hfilled, retained, t, rfl⟩

end

/-! ## Decoding without DFlash -/

section
variable {argmax : List τ → τ} {layers : Nat} {r : ActiveRequest τ ω}

theorem history_ne_nil (h : Steady argmax layers r) : r.history ≠ [] := by
  obtain ⟨emitted, hhistory, -⟩ := h.history
  rw [hhistory]
  simp [h.nonempty]

theorem history_length (h : Steady argmax layers r) :
    r.history.length = r.prompt.length + r.generatedTokens := by
  obtain ⟨emitted, hhistory, hlength⟩ := h.history
  rw [hhistory, length_append, hlength]

theorem history_lt_capacity (h : Steady argmax layers r)
    (hmore : r.generatedTokens < r.generation.maxNewTokens) :
    r.history.length < requestCapacity r := by
  rw [history_length h]
  unfold requestCapacity
  omega

end

section
variable {codec : Codec τ ω} {argmax : List τ → τ} {fault : Option Site}
variable {layers : Nat} {s : Sequence τ} {r : ActiveRequest τ ω}

/-- The request has been fed its history, and its logits are those behind it. -/
structure AtLogits (layers : Nat) (r : ActiveRequest τ ω) (t : Sequence τ) : Prop where
  settled : Settled (requestCapacity r) layers r.history t
  current : currentLogits t = some r.history

theorem advance_ensures (hharmless : Harmless fault) (h : Steady argmax layers r)
    (hsequence : r.sequence = some s) (hdrafting : r.dflashEnabled = false)
    (hposition : r.promptPosition = r.prompt.length)
    (hmore : r.generatedTokens < r.generation.maxNewTokens) :
    Ensures (advance fault) r
      (fun _ r' => ∃ t, AtLogits layers r t ∧
        r' = { r with promptLogitsReady := false, sequence := some t })
      (fun e r' => Reported e ∧ Struck fault ∧ ∃ t, Standing argmax layers r t ∧
        r' = { r with sequence := some t }) := by
  have hstanding := h.standing s hsequence
  have hdone : ¬ r.promptPosition < r.prompt.length := by omega
  refine get_bind ?_
  cases hstanding.next with
  | prompt position => omega
  | pending position drafting => simp [hdrafting] at drafting
  | logits position pending ready first current =>
    rw [if_pos ready]
    refine Ensures.set ⟨s, ⟨?_, current⟩, by rw [hsequence]⟩
    have hfed : fed r = r.history := by rw [fed, if_neg hdone, if_pos (.inr first)]
    exact hfed ▸ hstanding.settled
  | last position drafting used later token =>
    obtain ⟨token, hlast, hget⟩ := token
    have hne := history_ne_nil h
    have hfed : fed r = r.history.dropLast := by
      rw [fed, if_neg hdone, if_neg (by simp [hdrafting]; omega)]
    have hsettled := hfed ▸ hstanding.settled
    have hhistory : r.history.dropLast ++ [token] = r.history := by
      rw [getLast?_eq_some_getLast hne] at hget
      cases hget
      exact dropLast_append_getLast hne
    have hroom : r.history.dropLast.length < requestCapacity r := by
      have hlt := history_lt_capacity h hmore
      rw [length_dropLast]
      omega
    have hexpect : expect r.lastToken "generated token exists after prompt logits" =
        (pure token : Requesting τ ω τ) := by
      rw [hlast]
      rfl
    rw [if_neg (by simp [used]), hexpect]
    have hforward : Ensures (forwardOne fault 0 token) s _ _ := forwardOne_ensures hsettled hroom
    refine (onSequence_ensures hsequence hforward).mono (fun _ r' hr' => ?_) fun e r' hr' => ?_
    · obtain ⟨t, ⟨ht, hlogits, hrow⟩, rfl⟩ := hr'
      rw [hhistory] at ht hlogits
      refine ⟨t, ⟨ht, ?_⟩, by rw [← used]⟩
      rw [currentLogits, hrow, hlogits]
    · obtain ⟨t, hfailed, rfl⟩ := hr'
      obtain ⟨-, hfault, ⟨call, he⟩, hkept⟩ := kept_of_failed hharmless (fun _ => id) hfailed
      exact ⟨⟨_, he⟩, hfault, t, ⟨hfed ▸ hkept, .last position drafting used later ⟨token, hlast, hget⟩⟩, rfl⟩

theorem sampleToken_ensures {sampled : τ} (hharmless : Harmless fault) (h : AtLogits layers r t)
    (hne : r.history ≠ []) (q : ActiveRequest τ ω) (hsequence : q.sequence = some t) :
    Ensures (sampleToken argmax fault sampled) q
      (fun _ q' => ∃ u, Settled (requestCapacity r) layers r.history u ∧
        q' = { q with sequence := some u })
      (fun _ _ => False) := by
  have hposition : t.position ≠ 0 := by
    rw [h.settled.position]
    exact mt length_eq_zero_iff.mp hne
  refine get_bind ?_
  split
  · have hargmax : Ensures (argmaxWithLogit fault argmax) t _ _ :=
      argmaxWithLogit_ensures h.current hposition
    refine (onSequence_ensures hsequence hargmax).mono (fun _ q' hq' => ?_) fun e q' he => ?_
    · obtain ⟨u, ⟨-, rfl⟩, rfl⟩ := hq'
      exact ⟨{ t with batchLogitsRow := none }, { h.settled with }, rfl⟩
    · obtain ⟨u, ⟨site, call, hfault, rfl, -⟩, -⟩ := he
      have hsafe := hharmless _ hfault
      simp [harmless, earlySites, admissionSite] at hsafe
  · refine Ensures.bind (P := fun _ q' => q' = q) ?_ fun _ q' hq' => ?_
    · refine (onSequence_ensures hsequence (checkLogits_ensures (P := fun _ u => u = t)
        (E := fun _ _ => False) hposition rfl)).mono (fun _ q' hq' => ?_) fun e q' he => ?_
      · obtain ⟨u, rfl, rfl⟩ := hq'
        rw [← hsequence]
      · obtain ⟨u, hfalse, -⟩ := he
        exact hfalse
    · subst hq'
      refine Ensures.bind (reach_ensures (P := fun _ p => p = q') rfl fun hfault => ?_)
        fun _ p hp => ?_
      · have hsafe := hharmless _ hfault
        simp [harmless, earlySites, admissionSite] at hsafe
      · subst hp
        exact ⟨t, h.settled, by rw [← hsequence]⟩

theorem steady_counted {token : τ} {output : ω} (h : Steady argmax layers r)
    (hdrafting : r.dflashEnabled = false) (hposition : r.promptPosition = r.prompt.length)
    (hmore : r.generatedTokens < r.generation.maxNewTokens)
    (hsettled : Settled (requestCapacity r) layers r.history t) :
    Steady argmax layers { countToken codec token
      { r with promptLogitsReady := false, sequence := some t } with output := output } := { h with
  history := by
    obtain ⟨emitted, hhistory, hlength⟩ := h.history
    refine ⟨emitted ++ [token], ?_, ?_⟩
    · show r.history ++ [token] = r.prompt ++ (emitted ++ [token])
      rw [hhistory, append_assoc]
    · show _ = r.generatedTokens + 1
      rw [length_append, hlength, length_singleton]
  early hlt := absurd (hposition ▸ hlt) (Nat.lt_irrefl _)
  budget := hmore
  returned hd := by
    rw [hdrafting] at hd
    cases hd
  standing u hu := by
    cases hu
    refine ⟨?_, .last hposition hdrafting rfl (Nat.succ_pos _) ⟨token, rfl, ?_⟩⟩
    · have hfed : fed ({ countToken codec token
          { r with promptLogitsReady := false, sequence := some t } with output := output }) =
            r.history := by
        unfold fed
        rw [if_neg (by simp [countToken, hposition]), if_neg (by simp [countToken, hdrafting])]
        simp [countToken]
      rw [hfed]
      exact hsettled
    · simp [countToken] }

section
variable [DecidableEq τ]

theorem emitToken_ensures {index : Nat} {token : τ} :
    Ensures (emitToken codec fault index token) r
      (fun reason r' => r' = { countToken codec token r with
          output := (codec.pushToken r.output token).1 } ∧
        reason = endsAt r' (codec.pushToken r.output token).2 token)
      (fun e r' => Reported e ∧ fault = some (.pushToken index) ∧ r' = countToken codec token r) := by
  refine modify_bind ?_
  refine Ensures.bind (reach_ensures (P := fun _ r' => r' = countToken codec token r) rfl
    fun hfault => ⟨⟨_, rfl⟩, hfault, rfl⟩) fun _ r' hr' => ?_
  subst hr'
  exact get_bind (set_bind ⟨rfl, rfl⟩)

theorem endsAt_none {reason : Option ChatFinishReason} {token : τ}
    (h : endsAt r reason token = none) : r.generatedTokens ≠ r.generation.maxNewTokens := by
  intro hfull
  unfold endsAt at h
  rw [if_pos hfull] at h
  split at h
  · cases h
  · split at h <;> cases h

theorem generateOne_ensures {block : DraftBlock τ} {sampled : τ} (hharmless : Harmless fault)
    (h : Steady argmax layers r) (hsequence : r.sequence = some s)
    (hdrafting : r.dflashEnabled = false) (hposition : r.promptPosition = r.prompt.length)
    (hmore : r.generatedTokens < r.generation.maxNewTokens) :
    Ensures (generateOne codec argmax fault block sampled) r
      (fun reason r' => Steady argmax layers r' ∧ Later r r' ∧ r'.sequence.isSome = true ∧
        r.history.length < r'.history.length ∧ r'.promptPosition = r'.prompt.length ∧
        (reason = none → r'.generatedTokens < r'.generation.maxNewTokens))
      (fun e r' => Reported e ∧ Struck fault ∧ Steady argmax layers r' ∧ Later r r' ∧
        r'.sequence.isSome = true) := by
  refine get_bind ?_
  rw [if_neg (by simp [hdrafting])]
  refine Ensures.bind ((advance_ensures hharmless h hsequence hdrafting hposition hmore).mono
    (fun _ _ ht => ht) fun e r' he => ?_) fun _ r' hr' => ?_
  · obtain ⟨he, hfault, t, hstanding, rfl⟩ := he
    exact ⟨he, hfault, h.withSequence hstanding, ⟨rfl, rfl, rfl, rfl, rfl, prefix_rfl, fun _ => rfl,
      fun _ => Nat.le_refl _⟩, rfl⟩
  obtain ⟨t, hlogits, rfl⟩ := hr'
  refine Ensures.bind ((sampleToken_ensures hharmless hlogits (history_ne_nil h) _ rfl).mono
    (fun _ _ ht => ht) fun _ _ hfalse => hfalse.elim) fun token r' hr' => ?_
  obtain ⟨u, hsettled, rfl⟩ := hr'
  have hlater : ∀ output, Later r { countToken codec token
      { r with promptLogitsReady := false, sequence := some u } with output := output } := fun _ =>
    ⟨rfl, rfl, rfl, rfl, rfl, prefix_append _ _, fun _ => rfl, fun _ => Nat.le_refl _⟩
  refine (emitToken_ensures).mono (fun _ r' hr' => ?_) fun e r' he => ?_
  · obtain ⟨rfl, hreason⟩ := hr'
    refine ⟨steady_counted (r := r) h hdrafting hposition hmore hsettled, hlater _, rfl, ?_,
      hposition, fun hnone => ?_⟩
    · simp [countToken]
    · have hne := endsAt_none (hreason.symm.trans hnone)
      simp only [countToken] at hne ⊢
      omega
  · obtain ⟨he, hfault, rfl⟩ := he
    exact ⟨he, ⟨_, hfault, by simp [admissionSite]⟩,
      steady_counted (r := r) h hdrafting hposition hmore hsettled, hlater r.output, rfl⟩

end

end

end Eider.Guarantees.MuseRequests
