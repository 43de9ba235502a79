import Eider.Guarantees.GemmaWaves
import Eider.Guarantees.SequenceCursor

/-!
The decision branch capacity over runs of both services (`infer/src/execution/scheduler.rs`,
lines 1841 to 1887; `infer/src/execution/gemma4_serving.rs`, 632 to 673).

A second wave is forked beside the first one, which may still be live. Where every wave has
room, the capacity bounds the live branches of every group.
-/
namespace Eider.Guarantees.LiveBranches
open Lib.Run Source
open Source.Qwen36 (SchedulerConfig DecisionRequest DecisionBranch TextModel Scheduler)
open Guarantees.BatchAtomicity (emptyCache)
open Guarantees.SequenceCursor (singleCache steadyModel steadyDevice quietTick)

variable {n : Nat} {β κ φ C R K : Type}

/-- In every run whose waves have room, no decision group of either service has more live
branches than the decision capacity. -/
theorem waves_with_room_keep_capacity (config : SchedulerConfig) :
    (∀ (model : TextModel n β κ φ C R K) (cache : C) (s t : Scheduler n β φ C K)
        (actions : List (Qwen36.Action K φ)),
      Scheduler.new config cache = .ok s →
      Path (Qwen36.step model) (BranchWaves.Fits model) s actions t →
      ∀ id group, t.decisions.get id = some group →
        group.activeBranches.length ≤ config.decisionBranchCapacity) ∧
    ∀ (model : Gemma4.Model) (labels : List Nat) (maxRetainedBytes : Nat)
        (s : Gemma4.ChatService φ) (t : Gemma4.ChatService φ × List Nat)
        (actions : List (Gemma4.Action model.vocab φ)),
      Gemma4.ChatService.new model labels config maxRetainedBytes = .ok s →
      Path (Gemma4.step model) (GemmaWaves.Fits model) (s, []) actions t →
      ∀ id group, t.1.decisions.get id = some group →
        group.activeBranches.length ≤ config.decisionBranchCapacity := by
  constructor
  · intro model cache s t actions hnew path
    exact (BranchWaves.branches_bounded hnew path).groups
  · intro model labels maxRetainedBytes s t actions hnew path
    exact (GemmaWaves.branches_bounded hnew path).groups

/-! ## A small instance -/

def labels : List Nat := List.range 64

def question (name : String) : DecisionBranch := ⟨name, [2], [0, 1], ["yes", "no"]⟩

/-- Two questions behind one prefix token. -/
def twoQuestions : DecisionRequest :=
  ⟨"eider-decision-v1", [1], labels, [question "first", question "second"]⟩

/-- Three sequences, and so many decision branches. -/
def branchConfig (capacity : Nat) : SchedulerConfig := ⟨1, capacity, 1, 4, 3, 16, 0⟩

/-- A cache whose sequences can be forked. -/
def forkingCache : Qwen36.PrefixCache 0 Unit (Nat → CacheEntry Nat) :=
  { singleCache with
    branch := fun c source _ =>
      match (List.range 8).find? fun id => (c id).rows = [] with
      | some id => (Function.update c id ⟨(c source).rows, none⟩, .ok (some id))
      | none => (c, .ok none) }

def forkingModel : TextModel 0 Unit Nat Nat (Nat → CacheEntry Nat) (Nat × Nat) Unit :=
  { steadyModel with
    device := { steadyDevice with vocab := 64 }
    prefixes := forkingCache }

/-- A model that answers no request in one tree. -/
def chainModel : Gemma4.Model := ⟨1, 64, 1, 16, fun _ => false⟩

def chainTick : Gemma4.Action 64 Nat :=
  .tick {
    failing := none
    restoredPages := fun _ => 0
    wouldBlock := fun _ => false
    chargedBytes := 0
    sampled := fun _ => 0
    isReasoning := fun _ => false
    pushed := fun _ => none
    finished := fun _ => none
    parentBlocks := false
    branchBlocks := fun _ => false
    treeLogits := []
    labelLogits := [[0, 1]] }

/-- The request and the ticks in which its sequence is admitted and prefilled and its
branches are forked. -/
def forkedRun : List (Qwen36.Action Unit Nat) :=
  [.prepareDecisionReadout labels, .addDecision twoQuestions, quietTick [], quietTick [],
    quietTick []]

def forkedChain : List (Gemma4.Action 64 Nat) :=
  [.addDecision twoQuestions, chainTick, chainTick, chainTick]

/-- Both questions are forked in one wave, where the capacity holds two. -/
theorem two_questions_fill_capacity :
    (∃ s t : Scheduler 0 Unit Nat (Nat → CacheEntry Nat) Unit,
      Scheduler.new (branchConfig 2) emptyCache = .ok s ∧
      Path (Qwen36.step forkingModel) (BranchWaves.Fits forkingModel) s forkedRun t ∧
      (t.decisions.get 0).map (fun g => g.activeBranches.length) = some 2 ∧
      ∀ id group, t.decisions.get id = some group → group.activeBranches.length ≤ 2) ∧
    ∃ (s : Gemma4.ChatService Nat) (t : Gemma4.ChatService Nat × List Nat),
      Gemma4.ChatService.new chainModel labels (branchConfig 2) 0 = .ok s ∧
      Path (Gemma4.step chainModel) (GemmaWaves.Fits chainModel) (s, []) forkedChain t ∧
      (t.1.decisions.get 1).map (fun g => g.activeBranches.length) = some 2 ∧
      ∀ id group, t.1.decisions.get id = some group → group.activeBranches.length ≤ 2 := by
  obtain ⟨scheduler, service⟩ := @waves_with_room_keep_capacity 0 Unit Nat Nat
    (Nat → CacheEntry Nat) (Nat × Nat) Unit (branchConfig 2)
  constructor
  · have hrun : ∃ s : Scheduler 0 Unit Nat (Nat → CacheEntry Nat) Unit,
        Scheduler.new (branchConfig 2) emptyCache = .ok s ∧
        (runWhere (Qwen36.step forkingModel) (fun s a => decide (BranchWaves.Fits forkingModel s a))
          s forkedRun).map (fun t => (t.decisions.get 0).map fun g => g.activeBranches.length) =
        some (some 2) := ⟨_, rfl, by decide +kernel⟩
    obtain ⟨s, hnew, hmap⟩ := hrun
    obtain ⟨t, ht, hlive⟩ := Option.map_eq_some_iff.mp hmap
    have path := Path.of_runWhere ht fun a _ s h => of_decide_eq_true h
    exact ⟨s, t, hnew, path, hlive, scheduler forkingModel emptyCache s t _ hnew path⟩
  · have hrun : ∃ s : Gemma4.ChatService Nat,
        Gemma4.ChatService.new chainModel labels (branchConfig 2) 0 = .ok s ∧
        (runWhere (Gemma4.step chainModel) (fun x a => decide (GemmaWaves.Fits chainModel x a))
          (s, []) forkedChain).map
          (fun t => (t.1.decisions.get 1).map fun g => g.activeBranches.length) =
        some (some 2) := ⟨_, rfl, by decide +kernel⟩
    obtain ⟨s, hnew, hmap⟩ := hrun
    obtain ⟨t, ht, hlive⟩ := Option.map_eq_some_iff.mp hmap
    have path := Path.of_runWhere ht fun a _ s h => of_decide_eq_true h
    exact ⟨s, t, hnew, path, hlive, service chainModel labels 0 s t _ hnew path⟩

/-- Where the capacity holds one branch, the next tick forks the second question while the
first one is live. -/
theorem second_wave_exceeds_capacity :
    (∃ s t : Scheduler 0 Unit Nat (Nat → CacheEntry Nat) Unit,
      Scheduler.new (branchConfig 1) emptyCache = .ok s ∧
      Path (Qwen36.step forkingModel) (fun _ _ => True) s (forkedRun ++ [quietTick []]) t ∧
      (t.decisions.get 0).map (fun g => g.activeBranches.length) = some 2) ∧
    ∃ (s : Gemma4.ChatService Nat) (t : Gemma4.ChatService Nat × List Nat),
      Gemma4.ChatService.new chainModel labels (branchConfig 1) 0 = .ok s ∧
      Path (Gemma4.step chainModel) (fun _ _ => True) (s, []) (forkedChain ++ [chainTick]) t ∧
      (t.1.decisions.get 1).map (fun g => g.activeBranches.length) = some 2 := by
  constructor
  · have hrun : ∃ s : Scheduler 0 Unit Nat (Nat → CacheEntry Nat) Unit,
        Scheduler.new (branchConfig 1) emptyCache = .ok s ∧
        (run (Qwen36.step forkingModel) s (forkedRun ++ [quietTick []])).map
          (fun t => (t.decisions.get 0).map fun g => g.activeBranches.length) =
        some (some 2) := ⟨_, rfl, by decide +kernel⟩
    obtain ⟨s, hnew, hmap⟩ := hrun
    obtain ⟨t, ht, hlive⟩ := Option.map_eq_some_iff.mp hmap
    exact ⟨s, t, hnew, .of_run ht, hlive⟩
  · have hrun : ∃ s : Gemma4.ChatService Nat,
        Gemma4.ChatService.new chainModel labels (branchConfig 1) 0 = .ok s ∧
        (run (Gemma4.step chainModel) (s, []) (forkedChain ++ [chainTick])).map
          (fun t => (t.1.decisions.get 1).map fun g => g.activeBranches.length) =
        some (some 2) := ⟨_, rfl, by decide +kernel⟩
    obtain ⟨s, hnew, hmap⟩ := hrun
    obtain ⟨t, ht, hlive⟩ := Option.map_eq_some_iff.mp hmap
    exact ⟨s, t, hnew, .of_run ht, hlive⟩

end Eider.Guarantees.LiveBranches
