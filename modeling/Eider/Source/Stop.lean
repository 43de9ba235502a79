import Eider.Source.Text

/-!
Incremental matching of stop sequences (`eider-runtime/src/stop.rs`).
-/
namespace Eider.Source
open Lib.Search

structure StopOutput where
  text : Text
  matched : Option Text
deriving DecidableEq, Repr

structure StopBuffer where
  sequences : List Text
  pending : Text
deriving DecidableEq, Repr

namespace StopBuffer

def new (sequences : List Text) : StopBuffer := ⟨sequences, []⟩

/-- The order of `earliest_match`: the smaller index, then the longer sequence. -/
def before (left right : Nat × Text) : Bool :=
  left.1 < right.1 || (left.1 == right.1 && right.2.length < left.2.length)

/-- `Iterator::min_by` with that order: the first of the least candidates. -/
def minBy : List (Nat × Text) → Option (Nat × Text)
  | [] => none
  | candidate :: rest =>
    some (rest.foldl (fun least next => if before next least then next else least) candidate)

variable (b : StopBuffer)

def earliestMatch : Option (Nat × Text) :=
  minBy (b.sequences.filterMap fun sequence =>
    (find sequence b.pending).map fun index => (index, sequence))

/-- Length of the longest end of the pending text that some sequence starts
with. -/
def holdback : Nat :=
  ((List.range (b.pending.length + 1)).filterMap fun index =>
    if b.sequences.any fun sequence => (b.pending.drop index).isPrefixOf sequence then
      some (b.pending.length - index)
    else none).foldl max 0

/-- `self.pending.push_str(chunk)`. -/
def feed (chunk : Text) : StopBuffer := { b with pending := b.pending ++ chunk }

/-- `push` behind `push_str`. -/
def release : StopBuffer × StopOutput :=
  match b.earliestMatch with
  | some (index, sequence) => ({ b with pending := [] }, ⟨b.pending.take index, some sequence⟩)
  | none =>
    let emitted := b.pending.length - b.holdback
    ({ b with pending := b.pending.drop emitted }, ⟨b.pending.take emitted, none⟩)

def push (chunk : Text) : StopBuffer × StopOutput := (b.feed chunk).release

def finish : StopBuffer × Text := ({ b with pending := [] }, b.pending)

/-! ## Candidates -/

theorem foldl_least_mem (rest : List (Nat × Text)) (candidate : Nat × Text) :
    rest.foldl (fun least next => if before next least then next else least) candidate ∈
      candidate :: rest := by
  induction rest generalizing candidate with
  | nil => simp
  | cons next rest ih =>
    rw [List.foldl_cons]
    split
    · exact List.mem_cons_of_mem _ (ih next)
    · have hmem := ih candidate
      rw [List.mem_cons] at hmem ⊢
      exact hmem.imp_right (List.mem_cons_of_mem _)

theorem foldl_least_index_le (rest : List (Nat × Text)) (candidate : Nat × Text) :
    ∀ other ∈ candidate :: rest,
      (rest.foldl (fun least next => if before next least then next else least) candidate).1 ≤
        other.1 := by
  induction rest generalizing candidate with
  | nil => simp
  | cons next rest ih =>
    intro other hmem
    rw [List.foldl_cons]
    split
    · rename_i hbefore
      have hle : next.1 ≤ candidate.1 := by
        simp only [before, Bool.or_eq_true, decide_eq_true_eq, Bool.and_eq_true,
          beq_iff_eq] at hbefore
        omega
      rw [List.mem_cons] at hmem
      obtain rfl | hmem := hmem
      · exact (ih next next List.mem_cons_self).trans hle
      · exact ih next other hmem
    · rename_i hbefore
      have hle : candidate.1 ≤ next.1 := by
        simp only [before, Bool.or_eq_true, decide_eq_true_eq, Bool.and_eq_true,
          beq_iff_eq, not_or] at hbefore
        omega
      rw [List.mem_cons, List.mem_cons] at hmem
      obtain rfl | rfl | hmem := hmem
      · exact ih other other List.mem_cons_self
      · exact (ih candidate candidate List.mem_cons_self).trans hle
      · exact ih candidate other (List.mem_cons_of_mem _ hmem)

/-- The match found is an occurrence of one of the sequences, and none occurs
before it. -/
theorem earliestMatch_eq_some {b : StopBuffer} {index : Nat} {sequence : Text}
    (hne : ∀ s ∈ b.sequences, s ≠ []) (h : b.earliestMatch = some (index, sequence)) :
    sequence ∈ b.sequences ∧ sequence <+: b.pending.drop index ∧
      ∀ s ∈ b.sequences, ∀ i < index, ¬ s <+: b.pending.drop i := by
  unfold earliestMatch at h
  generalize hcandidates : (b.sequences.filterMap fun sequence =>
    (find sequence b.pending).map fun index => (index, sequence)) = candidates at h
  cases candidates with
  | nil => cases h
  | cons candidate rest =>
    have heq := Option.some.inj h
    have hmem := foldl_least_mem rest candidate
    rw [heq, ← hcandidates, List.mem_filterMap] at hmem
    obtain ⟨s, hs, hfind⟩ := hmem
    obtain ⟨i, hi, hpair⟩ := Option.map_eq_some_iff.mp hfind
    obtain ⟨rfl, rfl⟩ := Prod.mk.inj hpair
    refine ⟨hs, ((find_eq_some_iff (hne s hs)).mp hi).1, fun other hother j hj hoccurs => ?_⟩
    -- Any other occurrence is a candidate at or before `j`.
    have hsome : find other b.pending ≠ none := fun hnone =>
      (find_eq_none_iff (hne other hother)).mp hnone j hoccurs
    obtain ⟨k, hk⟩ := Option.ne_none_iff_exists'.mp hsome
    have hkj : k ≤ j := by
      by_contra hlt
      exact ((find_eq_some_iff (hne other hother)).mp hk).2 j (by omega) hoccurs
    have hcandidate : (k, other) ∈ candidate :: rest := by
      rw [← hcandidates, List.mem_filterMap]
      exact ⟨other, hother, by rw [hk]; rfl⟩
    have hle := foldl_least_index_le rest candidate (k, other) hcandidate
    rw [heq] at hle
    simp only at hle
    omega

theorem earliestMatch_eq_none {b : StopBuffer} (hne : ∀ s ∈ b.sequences, s ≠ [])
    (h : b.earliestMatch = none) : ∀ s ∈ b.sequences, ∀ i, ¬ s <+: b.pending.drop i := by
  unfold earliestMatch at h
  generalize hcandidates : (b.sequences.filterMap fun sequence =>
    (find sequence b.pending).map fun index => (index, sequence)) = candidates at h
  cases candidates with
  | cons candidate rest => cases h
  | nil =>
    intro s hs
    have hnone := List.filterMap_eq_nil_iff.mp hcandidates s hs
    exact (find_eq_none_iff (hne s hs)).mp (Option.map_eq_none_iff.mp hnone)

/-! ## What is held back -/

/-- An end of the pending text that some sequence starts with is held back. -/
theorem le_holdback {b : StopBuffer} {index : Nat} {sequence : Text}
    (hindex : index ≤ b.pending.length) (hmem : sequence ∈ b.sequences)
    (h : b.pending.drop index <+: sequence) : b.pending.length - index ≤ b.holdback := by
  unfold holdback
  apply (le_foldl_max _ 0).2.1
  refine List.mem_filterMap.mpr ⟨index, List.mem_range.mpr (by omega), ?_⟩
  rw [if_pos]
  exact List.any_eq_true.mpr ⟨sequence, hmem, List.isPrefixOf_iff_prefix.mpr h⟩

end StopBuffer

end Eider.Source
