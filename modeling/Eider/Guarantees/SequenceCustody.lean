import Eider.Guarantees.FlintCustody
import Eider.Guarantees.PagedCustody

/-!
The custody of cache sequences in the Flint, Ling 3, BitNet and Bonsai services together, and
the two ways to lose one: an admission that fails behind the queue, and in the Flint service a
last text that does not decode behind the removal of its request.
-/
namespace Eider.Guarantees.SequenceCustody
open Lib Lib.Run Source Option
open Source.Qwen36 (SchedulerConfig RequestConfig)

variable {S ω : Type}

/-- What a state of the Ling 3, BitNet and Bonsai services keeps, and its failing ticks. -/
structure PagedInCustody (family : PagedServing.Family)
    (x : PagedServing.ChatService S ω × List Nat) : Prop where
  accounted : PagedCustody.Accounted x.1
  cancellable : PagedCustody.Cancellable x
  released : ∀ calls e t, PagedCustody.TickClear family calls x.1 →
    PagedServing.tick family calls x.1 = .error (.failed e) t → PagedCustody.Released x.1 t

/-- What a state of the Flint service keeps, and its failing ticks. -/
structure FlintInCustody (x : Flint.FlintChatService S ω × List Nat) : Prop where
  accounted : FlintCustody.Accounted x.1
  cancellable : FlintCustody.Cancellable x
  released : ∀ calls e t, FlintCustody.TickClear calls x.1 →
    Flint.tick calls x.1 = .error (.failed e) t → FlintCustody.Released x.1 t

/-- In every run whose ticks fail at no call of an admission, and in the Flint service at no
last text, every active sequence has one owner, also behind the ticks that fail elsewhere. -/
theorem sequences_in_custody (S ω : Type) (config : SchedulerConfig) (maxRetainedBytes : Nat) :
    (∀ family actions (x : PagedServing.ChatService S ω × List Nat),
      Path (PagedServing.step family) (PagedCustody.Clear family) (.new family config, []) actions
        x → PagedInCustody family x) ∧
    ∀ actions (x : Flint.FlintChatService S ω × List Nat),
      Path Flint.step FlintCustody.Clear (.new config maxRetainedBytes, []) actions x →
        FlintInCustody x := by
  constructor
  · intro family actions x hrun
    have hregistered := PagedCustody.run_registered hrun
    refine ⟨hregistered.kept.accounted, hregistered.cancellable, ?_⟩
    intro calls e t hclear hfailed
    have htick := PagedCustody.tick_followed hregistered.kept hclear
    unfold Ensures at htick
    rw [hfailed] at htick
    exact PagedCustody.Followed.released hregistered.kept htick
  · intro actions x hrun
    have hregistered := FlintCustody.run_registered hrun
    refine ⟨FlintCustody.accounted hregistered.kept, hregistered.cancellable, ?_⟩
    intro calls e t hclear hfailed
    have htick := FlintCustody.tick_followed hregistered.kept hclear
    unfold Ensures at htick
    rw [hfailed] at htick
    exact FlintCustody.Followed.released hregistered.kept htick

/-! ## Runs with a failing call -/

/-- Space for one sequence. -/
def oneSlot : SchedulerConfig := ⟨1, 1, 1, 16, 1, 64, 0⟩

/-- A request for one token. -/
def oneToken : RequestConfig := ⟨⟨true, true, true, false⟩, 1, [2]⟩

/-- The calls of a tick of the paged services, all of which return. -/
def pagedCalls : PagedServing.Calls Unit Unit where
  newState _ _ := .ok ()
  newWorkspace _ := .ok ()
  prepareDecodeGraphs _ state := .ok state
  newPageTable _ _ := .ok ()
  admission _ := .ok (some 64)
  synchronizeAdmission _ := .ok ()
  deviceBytes _ := 64
  prefill _ _ state := (state, .ok ())
  decodeToken _ _ state := (state, .ok ())
  argmaxWithLogit _ _ := .ok 2
  logitsToHost _ _ := .ok ()
  sample _ _ _ := .ok 2
  isReasoning _ := false
  pushToken _ output _ := (output, .ok none)
  finishOutput _ output _ := (output, .ok none)
  finishSequence _ := .ok ()

/-- The calls of a tick of the Flint service, all of which return. -/
def flintCalls : Flint.Calls Unit Unit where
  newSequenceState _ _ := .ok ()
  admission _ state := .ok (some (64, state))
  synchronizeAdmission _ := .ok ()
  initializeSampling _ _ state := .ok state
  position _ := 0
  deviceBytes _ := 64
  forwardDecodeBatch batch := (batch.map Prod.fst, .ok ())
  forward _ _ state := (state, .ok ())
  sample _ _ state := (state, .ok 2)
  retainPrefix _ _ state := state
  isReasoning _ := false
  sawTools _ := false
  pushToken _ output _ := (output, .ok none)
  finishOutput _ output _ := (output, .ok none)
  finishSequence _ := .ok ()

/-- A request whose prefill fails once, and whose end fails once. -/
def pagedActions : List (PagedServing.Action Unit Unit) :=
  [.addRequest false (.ok [1]) oneToken (some ()),
    .tick { pagedCalls with prefill := fun _ _ state => (state, .error (.device "prefill")) },
    .tick pagedCalls,
    .tick { pagedCalls with
      finishOutput := fun _ output _ => (output, .error (.device "ChatOutputCodec::finish")) }]

/-- A request whose prefill fails once, beside one that waits. -/
def flintActions : List (Flint.Action Unit Unit) :=
  [.addRequest (.ok [1]) oneToken 0 (some ()), .addRequest (.ok [1]) oneToken 0 (some ()),
    .tick { flintCalls with forward := fun _ _ state => (state, .error (.device "forward")) },
    .tick flintCalls, .tick flintCalls, .tick flintCalls]

/-- Whether a tick of the paged services is clear. -/
def checkPaged (x : PagedServing.ChatService Unit Unit × List Nat) :
    PagedServing.Action Unit Unit → Bool
  | .tick calls =>
    let free := x.1.config.maxActiveSequences - x.1.sequences.size
    let taken := PagedCustody.admissions calls free x.1.waiting
    (taken.all fun id => (x.1.requests.get id).all fun r =>
      PagedCustody.admissionReturns .ling3 calls id (PagedServing.requestCapacity r)) &&
      x.1.nextSequenceId + (taken.filter (PagedCustody.admits calls)).length < 2 ^ 64
  | _ => true

theorem clear_of_checkPaged {x : PagedServing.ChatService Unit Unit × List Nat}
    {action : PagedServing.Action Unit Unit} (h : checkPaged x action = true) :
    PagedCustody.Clear .ling3 x action := by
  cases action with
  | tick calls =>
    simp only [checkPaged, Bool.and_eq_true, List.all_eq_true, decide_eq_true_eq] at h
    refine ⟨fun id hid r hr => ?_, h.2⟩
    have hreturns := h.1 id hid
    rwa [hr] at hreturns
  | addRequest => trivial
  | cancelRequest => trivial

/-- Whether a tick of the Flint service takes no request off the queue whose calls fail. -/
def checkFlint (x : Flint.FlintChatService Unit Unit × List Nat) :
    Flint.Action Unit Unit → Bool
  | .tick calls =>
    let free := x.1.config.maxActiveSequences - x.1.activeSequenceCount
    (FlintCustody.admissions calls x.1.requests free x.1.waiting).all fun id =>
      (x.1.requests.get id).all fun r => FlintCustody.admissionReturns calls id r
  | _ => true

theorem clear_of_checkFlint {x : Flint.FlintChatService Unit Unit × List Nat}
    {action : Flint.Action Unit Unit} (hmem : action ∈ flintActions)
    (h : checkFlint x action = true) : FlintCustody.Clear x action := by
  cases action with
  | tick calls =>
    simp only [checkFlint, List.all_eq_true] at h
    refine ⟨fun id hid r hr => ?_, fun id output truncated => ?_⟩
    · have hreturns := h id hid
      rwa [hr] at hreturns
    · simp only [flintActions, List.mem_cons, Flint.Action.tick.injEq, reduceCtorEq, false_or,
        List.not_mem_nil, or_false] at hmem
      obtain rfl | rfl | rfl | rfl := hmem <;> rfl
  | addRequest => trivial
  | cancelRequest => trivial

theorem sequences_in_custody_failing :
    (∃ x, Path (PagedServing.step .ling3) (PagedCustody.Clear .ling3) (.new .ling3 oneSlot, [])
      pagedActions x ∧ PagedInCustody .ling3 x) ∧
    ∃ x, Path Flint.step FlintCustody.Clear (.new oneSlot 0, []) flintActions x ∧
      FlintInCustody x := by
  constructor
  · have hrun : (runWhere (PagedServing.step .ling3) checkPaged (.new .ling3 oneSlot, [])
        pagedActions).isSome = true := by decide +kernel
    obtain ⟨x, hx⟩ := isSome_iff_exists.mp hrun
    have path := Path.of_runWhere hx fun _ _ _ h => clear_of_checkPaged h
    exact ⟨x, path, (sequences_in_custody Unit Unit oneSlot 0).1 .ling3 pagedActions x path⟩
  · have hrun : (runWhere Flint.step checkFlint (.new oneSlot 0, []) flintActions).isSome =
        true := by decide +kernel
    obtain ⟨x, hx⟩ := isSome_iff_exists.mp hrun
    have path := Path.of_runWhere hx fun _ hmem _ h => clear_of_checkFlint hmem h
    exact ⟨x, path, (sequences_in_custody Unit Unit oneSlot 0).2 flintActions x path⟩

/-- The active sequences behind a call. -/
def activeBehind (call : Flint.Serving Unit Unit Unit) (s : Flint.FlintChatService Unit Unit) :
    List Nat :=
  match call s with
  | .ok _ t => t.cache.active.keys
  | .error _ t => t.cache.active.keys

/-- A last text of the Flint service that does not decode: the sequence stays active without
a request, also when every id is cancelled. An admission of Ling 3 that fails: the request
neither waits nor owns a sequence. -/
theorem failed_calls_lose_custody :
    (∃ actions, ∃ x : Flint.FlintChatService Unit Unit × List Nat,
      Path Flint.step (fun _ _ => True) (.new oneSlot 0, []) actions x ∧
        ¬ FlintCustody.Accounted x.1 ∧ ¬ FlintCustody.Cancellable x) ∧
    ∃ actions, ∃ x : PagedServing.ChatService Unit Unit × List Nat,
      Path (PagedServing.step .ling3) (fun _ _ => True) (.new .ling3 oneSlot, []) actions x ∧
        ¬ PagedCustody.Accounted x.1 := by
  constructor
  · let actions : List (Flint.Action Unit Unit) :=
      [.addRequest (.ok [1]) oneToken 0 (some ()), .tick flintCalls,
        .tick { flintCalls with
          finishOutput := fun _ output _ => (output, .error (.device "ChatOutputCodec::finish")) }]
    have hrun : (run Flint.step (.new oneSlot 0, []) actions).map
        (fun x => ((x.1.cache.active.keys, x.1.requests.keys),
          activeBehind (x.2.forM Flint.cancelRequest) x.1)) = some (([0], []), [0]) := by
      decide +kernel
    obtain ⟨x, hx, hkeys⟩ := map_eq_some_iff.mp hrun
    obtain ⟨⟨hactive, hrequests⟩, hcancelled⟩ := And.imp_left Prod.mk.inj (Prod.mk.inj hkeys)
    have hnone : ∀ id, x.1.requests.get id = none := by
      intro id
      have hnot : id ∉ x.1.requests.keys := by rw [hrequests]; exact List.not_mem_nil
      rwa [BTreeMap.mem_keys_iff, not_isSome_iff_eq_none] at hnot
    refine ⟨actions, x, Path.of_run hx, ?_, ?_⟩
    · intro haccounted
      obtain ⟨id, ⟨r, hget, -⟩, -⟩ := haccounted.owned 0 (by rw [hactive]; exact List.mem_cons_self)
      rw [hnone id] at hget
      cases hget
    · intro hcancellable
      obtain ⟨t, hcancel, hempty, -⟩ := hcancellable x.2 (List.Subset.refl _)
      unfold activeBehind at hcancelled
      rw [hcancel] at hcancelled
      dsimp only at hcancelled
      rw [hempty] at hcancelled
      cases hcancelled
  · let actions : List (PagedServing.Action Unit Unit) :=
      [.addRequest false (.ok [1]) oneToken (some ()),
        .tick { pagedCalls with newState := fun _ _ => .error (.device "Ling3Model::new_state") }]
    have hrun : (run (PagedServing.step .ling3) (.new .ling3 oneSlot, []) actions).map
        (fun x => (x.1.waiting, (x.1.requests.get 1).map (PagedCustody.cacheSequence x.1))) =
          some ([], some none) := by decide +kernel
    obtain ⟨x, hx, hstate⟩ := map_eq_some_iff.mp hrun
    obtain ⟨hwaiting, hrequest⟩ := Prod.mk.inj hstate
    obtain ⟨r, hget, hnone⟩ := map_eq_some_iff.mp hrequest
    refine ⟨actions, x, Path.of_run hx, fun haccounted => ?_⟩
    have hcount := haccounted.waits 1 r hget hnone
    rw [hwaiting] at hcount
    cases hcount

end Eider.Guarantees.SequenceCustody
