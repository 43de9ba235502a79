import Eider.Guarantees.StopText

/-!
# A stop buffer and the chunks it is pushed

What the buffer emits up to a match never has a stop sequence in it, is the input up to that
match, and without a match is the whole input once the held back end is flushed. A match empties
the buffer, so a caller that pushes on begins anew: the laws hold of every emission, from the
beginning or from behind a match up to its own match.

The buffer answers with the first sequence that is complete. When one sequence occurs in another
and ends before it, a cut behind the shorter one lets it win, and the text in front of it differs
as well. Without such a pair of sequences the emission does not depend on the cuts, and with one
it does (`stop_buffer_laws`).
-/
namespace Eider.Guarantees.StopChunks
open Lib.Search Source Guarantees.StopText List

variable {b : StopBuffer} {sequence : Text} {b' : StopBuffer} {emitted chunk : Text}
variable {sequences : List Text} {s t : Text}

/-- The pushes of the chunks: the buffer and what each push gives. -/
def pushAll : StopBuffer → List Text → StopBuffer × List StopOutput
  | b, [] => (b, [])
  | b, chunk :: rest =>
    let (b, output) := b.push chunk
    let (b, outputs) := pushAll b rest
    (b, output :: outputs)

/-- The text emitted up to the first match, and the sequence matched. -/
def emission : List StopOutput → Text × Option Text
  | [] => ([], none)
  | ⟨text, some sequence⟩ :: _ => (text, some sequence)
  | ⟨text, none⟩ :: rest =>
    let (more, matched) := emission rest
    (text ++ more, matched)

/-- The buffer behind some chunks. -/
def behind (sequences : List Text) (before : List Text) : StopBuffer :=
  (pushAll (StopBuffer.new sequences) before).1

/-- An emission begins behind the chunks: there are none, or the last of them gave a match. -/
def Begins (sequences : List Text) (before : List Text) : Prop :=
  before = [] ∨ ∃ output, (pushAll (StopBuffer.new sequences) before).2.getLast? = some output ∧
    output.matched ≠ none

/-- The emission of the chunks that follow `before`. -/
def result (sequences : List Text) (before chunks : List Text) : Text × Option Text :=
  emission (pushAll (behind sequences before) chunks).2

/-! ## The longest match -/

theorem foldl_least_longest (rest : List (Nat × Text)) (candidate : Nat × Text) :
    ∀ other ∈ candidate :: rest,
      let least := rest.foldl
        (fun least next => if StopBuffer.before next least then next else least) candidate
      least.1 < other.1 ∨ (least.1 = other.1 ∧ other.2.length ≤ least.2.length) := by
  induction rest generalizing candidate with
  | nil =>
    intro other hother
    rw [mem_singleton.mp hother]
    exact .inr ⟨rfl, Nat.le_refl _⟩
  | cons next rest ih =>
    intro other hother
    rw [foldl_cons]
    have hchosen := ih (if StopBuffer.before next candidate then next else candidate)
    have hself := hchosen _ mem_cons_self
    simp only [StopBuffer.before, Bool.or_eq_true, decide_eq_true_eq, Bool.and_eq_true,
      beq_iff_eq] at hself hchosen ⊢
    simp only [mem_cons] at hother
    rcases hother with rfl | rfl | hother
    · split at hself <;> split <;> omega
    · split at hself <;> split <;> omega
    · exact hchosen other (mem_cons_of_mem _ hother)

/-- Among the sequences at the place of the match, the longest is found. -/
theorem earliestMatch_longest {index : Nat} (hne : ∀ s ∈ b.sequences, s ≠ [])
    (h : b.earliestMatch = some (index, sequence)) :
    ∀ s ∈ b.sequences, s <+: b.pending.drop index → s.length ≤ sequence.length := by
  intro s hs hoccurs
  have hfirst := (StopBuffer.earliestMatch_eq_some hne h).2.2
  have hfind : find s b.pending = some index :=
    (find_eq_some_iff (hne s hs)).mpr ⟨hoccurs, fun j hj => hfirst s hs j hj⟩
  unfold StopBuffer.earliestMatch at h
  have hcandidate : (index, s) ∈ b.sequences.filterMap fun sequence =>
      (find sequence b.pending).map fun index => (index, sequence) :=
    mem_filterMap.mpr ⟨s, hs, by rw [hfind]; rfl⟩
  generalize (b.sequences.filterMap fun sequence =>
    (find sequence b.pending).map fun index => (index, sequence)) = candidates at h hcandidate
  cases candidates with
  | nil => cases hcandidate
  | cons candidate rest =>
    have hleast := foldl_least_longest rest candidate _ hcandidate
    have heq := Option.some.inj h
    simp only [heq] at hleast
    omega

/-- The first match in `seen`: no sequence begins before it, and none at its place is longer. -/
structure Matches (sequences : List Text) (seen emitted sequence : Text) : Prop where
  mem : sequence ∈ sequences
  occurs : emitted ++ sequence <+: seen
  first : ∀ s ∈ sequences, ∀ i < emitted.length, ¬ s <+: seen.drop i
  longest : ∀ s ∈ sequences, s <+: seen.drop emitted.length → s.length ≤ sequence.length

theorem push_matches {text : Text} (hne : ∀ s ∈ b.sequences, s ≠ []) (h : Streaming b emitted)
    (hpush : b.push chunk = (b', ⟨text, some sequence⟩)) :
    Matches b.sequences ((emitted ++ b.pending) ++ chunk) (emitted ++ text) sequence := by
  obtain ⟨hmem, hoccurs, hfirst⟩ := push_matched hne h hpush
  refine ⟨hmem, hoccurs, hfirst, ?_⟩
  unfold StopBuffer.push StopBuffer.release at hpush
  split at hpush
  · rename_i index found hsome
    simp only [Prod.mk.injEq, StopOutput.mk.injEq, Option.some.injEq] at hpush
    obtain ⟨-, rfl, rfl⟩ := hpush
    have hindex := occurs_lt_length (hne found hmem)
      (StopBuffer.earliestMatch_eq_some (b := b.feed chunk) hne hsome).2.1
    intro s hs hat
    refine earliestMatch_longest (b := b.feed chunk) hne hsome s hs ?_
    have hlength : (emitted ++ (b.feed chunk).pending.take index).length =
        emitted.length + index := by
      rw [length_append, length_take, Nat.min_eq_left (by omega)]
    rw [hlength, append_assoc, drop_emitted (by omega), Nat.add_sub_cancel_left] at hat
    exact hat
  · simp at hpush

/-! ## What is held back -/

/-- What the buffer holds is nothing or the beginning of a sequence. -/
def HoldsBeginning (b : StopBuffer) : Prop := b.pending = [] ∨ ∃ s ∈ b.sequences, b.pending <+: s

theorem push_holdsBeginning {text : Text} (hpush : b.push chunk = (b', ⟨text, none⟩)) :
    HoldsBeginning b' := by
  unfold StopBuffer.push StopBuffer.release at hpush
  split at hpush
  · simp at hpush
  · obtain ⟨rfl, -⟩ := hpush
    generalize hfed : b.feed chunk = fed
    rcases (le_foldl_max ((range (fed.pending.length + 1)).filterMap fun index =>
      if fed.sequences.any fun sequence => (fed.pending.drop index).isPrefixOf sequence then
        some (fed.pending.length - index) else none) 0).2.2 with hzero | hmem
    · left
      rw [drop_eq_nil_iff]
      have hheld : fed.holdback = 0 := hzero
      omega
    · right
      obtain ⟨index, hrange, hindex⟩ := mem_filterMap.mp hmem
      split at hindex
      · rename_i hany
        obtain ⟨s, hs, hprefix⟩ := any_eq_true.mp hany
        have hheld : fed.pending.length - index = fed.holdback := Option.some.inj hindex
        have hplace : fed.pending.length - fed.holdback = index := by
          have := mem_range.mp hrange
          omega
        rw [hplace]
        exact ⟨s, hs, isPrefixOf_iff_prefix.mp hprefix⟩
      · cases hindex

/-! ## Runs -/

/-- What the pushes of the chunks lead to, behind `before`. -/
inductive Outcome (sequences : List Text) (input : Text) :
    StopBuffer × Text × Option Text → Prop where
  | streaming {b : StopBuffer} {emitted : Text} (streams : Streaming b emitted)
      (same : b.sequences = sequences) (whole : emitted ++ b.pending = input)
      (holds : HoldsBeginning b) : Outcome sequences input (b, emitted, none)
  | stopped {b : StopBuffer} {emitted sequence seen : Text} (reached : seen <+: input)
      (found : Matches sequences seen emitted sequence) :
      Outcome sequences input (b, emitted, some sequence)

theorem pushAll_outcome (chunks : List Text) (hne : ∀ s ∈ b.sequences, s ≠ [])
    (h : Streaming b emitted) (hholds : HoldsBeginning b) :
    Outcome b.sequences (emitted ++ b.pending ++ chunks.flatten)
      ((pushAll b chunks).1, emitted ++ (emission (pushAll b chunks).2).1,
        (emission (pushAll b chunks).2).2) := by
  induction chunks generalizing b emitted with
  | nil =>
    rw [pushAll, flatten_nil, append_nil, emission, append_nil]
    exact .streaming h rfl rfl hholds
  | cons chunk rest ih =>
    rw [pushAll, flatten_cons, ← append_assoc]
    cases hpush : b.push chunk with
    | mk b' output =>
      obtain ⟨text, matched⟩ := output
      cases matched with
      | some sequence => exact .stopped (prefix_append _ _) (push_matches hne h hpush)
      | none =>
        obtain ⟨hstreams, hsequences, hwhole⟩ := push_unmatched hne h hpush
        have hrest := ih (by rwa [hsequences]) hstreams (push_holdsBeginning hpush)
        rw [hsequences, hwhole, append_assoc emitted text] at hrest
        exact hrest

/-- A push keeps the sequences, and a match leaves nothing pending. -/
theorem push_keeps (b : StopBuffer) (chunk : Text) : (b.push chunk).1.sequences = b.sequences ∧
    ((b.push chunk).2.matched ≠ none → (b.push chunk).1.pending = []) := by
  unfold StopBuffer.push StopBuffer.release
  split
  · exact ⟨rfl, fun _ => rfl⟩
  · exact ⟨rfl, fun h => absurd rfl h⟩

theorem pushAll_keeps (chunks : List Text) (b : StopBuffer) :
    (pushAll b chunks).1.sequences = b.sequences ∧
      ∀ output, (pushAll b chunks).2.getLast? = some output → output.matched ≠ none →
        (pushAll b chunks).1.pending = [] := by
  induction chunks generalizing b with
  | nil => exact ⟨rfl, fun output h => by cases h⟩
  | cons chunk rest ih =>
    obtain ⟨hkept, hempty⟩ := push_keeps b chunk
    obtain ⟨hsequences, hlast⟩ := ih (b.push chunk).1
    refine ⟨hsequences.trans hkept, fun output h hmatched => ?_⟩
    cases rest with
    | nil =>
      obtain rfl := Option.some.inj h
      exact hempty hmatched
    | cons next rest => exact hlast output (by simpa [pushAll, getLast?_cons_cons] using h) hmatched

theorem behind_eq {before : List Text} (h : Begins sequences before) :
    behind sequences before = StopBuffer.new sequences := by
  rcases h with rfl | ⟨output, hlast, hmatched⟩
  · rfl
  · obtain ⟨hsequences, hpending⟩ := pushAll_keeps before (StopBuffer.new sequences)
    exact congrArg₂ StopBuffer.mk hsequences (hpending output hlast hmatched)

section
variable (hne : ∀ s ∈ sequences, s ≠ []) {before before' chunks chunks' : List Text}
include hne

theorem new_outcome (hbegins : Begins sequences before) (chunks : List Text) :
    Outcome sequences chunks.flatten ((pushAll (behind sequences before) chunks).1,
      result sequences before chunks) := by
  unfold result
  rw [behind_eq hbegins]
  exact pushAll_outcome (b := StopBuffer.new sequences) chunks hne (streaming_new hne) (.inl rfl)

omit hne in
theorem infix_iff : s <:+: t ↔ ∃ i, s <+: t.drop i := by
  constructor
  · intro h
    obtain ⟨left, right, rfl⟩ := h
    refine ⟨left.length, ?_⟩
    rw [append_assoc, drop_left]
    exact prefix_append s right
  · intro h
    obtain ⟨i, hi⟩ := h
    exact hi.isInfix.trans (drop_suffix i t).isInfix

omit hne in
theorem absent_iff : Absent sequences t ↔ ∀ s ∈ sequences, ¬ s <:+: t := by
  unfold Absent
  simp only [infix_iff, not_exists]

theorem Matches.absent {seen : Text}
    (h : Matches sequences seen emitted sequence) : Absent sequences emitted := by
  intro s hs i hoccurs
  obtain ⟨rest, hseen⟩ := h.occurs
  have hpos := length_pos_iff.mpr (hne s hs)
  have hend := occurs_lt_length (hne s hs) hoccurs
  refine h.first s hs i (by omega) ?_
  rw [← hseen, append_assoc]
  exact occurs_append _ (hne s hs) hoccurs

/-- What the buffer owes its caller for the chunks that follow `before`. -/
structure Correct (sequences before chunks : List Text) : Prop where
  clean : ∀ s ∈ sequences, ¬ s <:+: (result sequences before chunks).1
  front : (result sequences before chunks).1 <+: chunks.flatten
  matched : ∀ s, (result sequences before chunks).2 = some s →
    s ∈ sequences ∧ (result sequences before chunks).1 ++ s <+: chunks.flatten
  flushed : (result sequences before chunks).2 = none →
    (result sequences before chunks).1 ++ (pushAll (behind sequences before) chunks).1.finish.2 =
      chunks.flatten ∧ ∀ s ∈ sequences, ¬ s <:+: chunks.flatten

theorem result_correct (hbegins : Begins sequences before) (chunks : List Text) :
    Correct sequences before chunks := by
  have houtcome := new_outcome hne hbegins chunks
  generalize hresult : result sequences before chunks = found at houtcome
  generalize hbuffer : (pushAll (behind sequences before) chunks).1 = last at houtcome
  cases houtcome with
  | @streaming _ emitted streams same whole holds =>
    have habsent : Absent sequences chunks.flatten := by
      rw [← whole, ← same]
      exact streams.none
    constructor
    · rw [hresult, ← absent_iff]
      rw [← whole] at habsent
      exact habsent.left
    · rw [hresult, ← whole]
      exact prefix_append _ _
    · intro s hs
      rw [hresult] at hs
      cases hs
    · intro _
      rw [hresult, hbuffer]
      exact ⟨whole, absent_iff.mp habsent⟩
  | @stopped _ emitted sequence seen reached found =>
    constructor
    · rw [hresult, ← absent_iff]
      exact found.absent hne
    · rw [hresult]
      exact ((prefix_append emitted sequence).trans found.occurs).trans reached
    · intro s hs
      rw [hresult] at hs ⊢
      obtain rfl := Option.some.inj hs
      exact ⟨found.mem, found.occurs.trans reached⟩
    · intro hs
      rw [hresult] at hs
      cases hs

/-! ## Cuts -/

/-- A sequence occurs in another one and ends before it. -/
def Nested (sequences : List Text) : Prop :=
  ∃ s ∈ sequences, ∃ t ∈ sequences, ∃ i, t <+: s.drop i ∧ i + t.length < s.length

omit hne in
theorem prefix_eq_take (h : s <+: t) : s = t.take s.length :=
  (prefix_iff_eq_take.mp h)

omit hne in
/-- Two buffers without a match hold the same end back. -/
theorem emitted_le {emitted' : Text} (hstreams : Streaming b' emitted')
    (hsame : b.sequences = sequences) (hsame' : b'.sequences = sequences)
    (hwhole : emitted ++ b.pending = emitted' ++ b'.pending) (hholds : HoldsBeginning b) :
    emitted'.length ≤ emitted.length := by
  by_contra hless
  have hlength := congrArg length hwhole
  simp only [length_append] at hlength
  rcases hholds with hnil | ⟨s, hs, hbegins⟩
  · rw [hnil, length_nil] at hlength
    omega
  · refine hstreams.open_end s (by rwa [hsame', ← hsame]) emitted.length (by omega) ?_
    rw [← hwhole, drop_left]
    exact hbegins

/-- Without a match the emitted text is a function of the input. -/
theorem result_of_none (hbegins : Begins sequences before) (hbegins' : Begins sequences before')
    (hinput : chunks.flatten = chunks'.flatten) (h : (result sequences before chunks).2 = none) :
    result sequences before' chunks' = result sequences before chunks := by
  have houtcome := new_outcome hne hbegins chunks
  have houtcome' := new_outcome hne hbegins' chunks'
  have hfree := ((result_correct hne hbegins chunks).flushed h).2
  generalize result sequences before chunks = found at houtcome h
  generalize result sequences before' chunks' = found' at houtcome'
  generalize (pushAll (behind sequences before) chunks).1 = b at houtcome
  generalize (pushAll (behind sequences before') chunks').1 = b' at houtcome'
  cases houtcome with
  | stopped reached found => cases h
  | @streaming b emitted streams same whole holds =>
    cases houtcome' with
    | @stopped b' emitted' sequence seen reached found =>
      have hwithin : sequence <:+: chunks.flatten := by
        rw [hinput]
        exact (infix_append emitted' sequence []).trans
          (by simpa using (found.occurs.trans reached).isInfix)
      exact absurd hwithin (hfree sequence found.mem)
    | @streaming b' emitted' streams' same' whole' holds' =>
      have hboth : emitted ++ b.pending = emitted' ++ b'.pending := by
        rw [whole, whole', hinput]
      have hle := emitted_le streams' same same' hboth holds
      have hge := emitted_le streams same' same hboth.symm holds'
      have hprefix := prefix_append emitted b.pending
      have hprefix' := prefix_append emitted' b'.pending
      rw [hboth] at hprefix
      have heq : emitted = emitted' :=
        (prefix_of_prefix_length_le hprefix hprefix' hge).eq_of_length (by omega)
      rw [heq]

omit hne in
/-- Matches in two beginnings of one input agree, unless sequences are nested. -/
theorem Matches.agree {seen seen' emitted' sequence' : Text} (hflat : ¬ Nested sequences)
    (h : Matches sequences seen emitted sequence)
    (h' : Matches sequences seen' emitted' sequence') (hle : seen <+: seen') :
    emitted = emitted' ∧ sequence = sequence' := by
  have hoccurs := h.occurs.trans hle
  have hoccurs' := h'.occurs
  have hat : sequence <+: seen'.drop emitted.length := by
    obtain ⟨rest, hrest⟩ := hoccurs
    rw [← hrest, append_assoc, drop_left]
    exact prefix_append _ _
  have hat' : sequence' <+: seen'.drop emitted'.length := by
    obtain ⟨rest, hrest⟩ := hoccurs'
    rw [← hrest, append_assoc, drop_left]
    exact prefix_append _ _
  have hnested : ∀ i, sequence <+: sequence'.drop i → sequence'.length ≤ i + sequence.length := by
    intro i hi
    by_contra hshort
    exact hflat ⟨sequence', h'.mem, sequence, h.mem, i, hi, by omega⟩
  -- The match in the longer text begins no later, as the other one is in that text too.
  have hnot : emitted'.length ≤ emitted.length := by
    by_contra hlate
    exact h'.first sequence h.mem emitted.length (by omega) hat
  have hlength : emitted.length + sequence.length ≤ seen.length := by
    simpa using h.occurs.length_le
  have hplace : emitted.length = emitted'.length := by
    by_contra hdifferent
    obtain ⟨i, hi⟩ := Nat.exists_eq_add_of_le hnot
    -- It is not complete in the shorter text, where nothing begins so early.
    have hlong : seen.length < emitted'.length + sequence'.length := by
      by_contra hshort
      refine h.first sequence' h'.mem emitted'.length (by omega) ?_
      have hboth : emitted' ++ sequence' <+: seen :=
        prefix_of_prefix_length_le hoccurs' hle (by rw [length_append]; omega)
      obtain ⟨rest, hrest⟩ := hboth
      rw [← hrest, append_assoc, drop_left]
      exact prefix_append _ _
    have hinside : sequence <+: sequence'.drop i := by
      refine prefix_of_prefix_length_le hat ?_ (by rw [length_drop]; omega)
      rw [hi, ← drop_drop]
      exact hat'.drop i
    have := hnested i hinside
    omega
  have hsame : sequence = sequence' := by
    rw [← hplace] at hat'
    have hlonger := h'.longest sequence h.mem (hplace ▸ hat)
    have hinside := prefix_of_prefix_length_le hat hat' hlonger
    have := hnested 0 (by simpa using hinside)
    exact hinside.eq_of_length (by omega)
  have hfront : emitted <+: seen' := (prefix_append _ _).trans hoccurs
  have hfront' : emitted' <+: seen' := (prefix_append _ _).trans hoccurs'
  exact ⟨(prefix_of_prefix_length_le hfront hfront' hplace.le).eq_of_length hplace, hsame⟩

/-- Without nested sequences the result does not depend on the cuts. -/
theorem result_eq (hflat : ¬ Nested sequences) (hbegins : Begins sequences before)
    (hbegins' : Begins sequences before') (hinput : chunks.flatten = chunks'.flatten) :
    result sequences before chunks = result sequences before' chunks' := by
  by_cases hnone : (result sequences before chunks).2 = none
  · exact (result_of_none hne hbegins hbegins' hinput hnone).symm
  · by_cases hnone' : (result sequences before' chunks').2 = none
    · exact result_of_none hne hbegins' hbegins hinput.symm hnone'
    · have houtcome := new_outcome hne hbegins chunks
      have houtcome' := new_outcome hne hbegins' chunks'
      generalize result sequences before chunks = found at houtcome hnone
      generalize result sequences before' chunks' = found' at houtcome' hnone'
      cases houtcome with
      | streaming streams same whole holds => exact absurd rfl hnone
      | @stopped _ emitted sequence seen reached found =>
        cases houtcome' with
        | streaming streams same whole holds => exact absurd rfl hnone'
        | @stopped _ emitted' sequence' seen' reached' found' =>
          rw [← hinput] at reached'
          rcases prefix_or_prefix_of_prefix reached reached' with hle | hle
          · obtain ⟨rfl, rfl⟩ := found.agree hflat found' hle
            rfl
          · obtain ⟨rfl, rfl⟩ := found'.agree hflat found hle
            rfl

theorem result_of_first (rest : List Text) (hs : s ∈ sequences)
    {i : Nat} (hoccurs : s <+: chunk.drop i) :
    ∃ emitted sequence, result sequences [] (chunk :: rest) = (emitted, some sequence) ∧
      Matches sequences chunk emitted sequence := by
  unfold result behind
  rw [pushAll, pushAll]
  cases hpush : (StopBuffer.new sequences).push chunk with
  | mk b output =>
    obtain ⟨text, matched⟩ := output
    cases matched with
    | some sequence =>
      have hmatches := push_matches hne (streaming_new hne) hpush
      exact ⟨text, sequence, rfl, by simpa [StopBuffer.new] using hmatches⟩
    | none =>
      obtain ⟨hstreams, hsequences, hwhole⟩ := push_unmatched hne (streaming_new hne) hpush
      have habsent := hstreams.none
      rw [hwhole, hsequences] at habsent
      exact absurd hoccurs (by simpa [StopBuffer.new] using habsent s hs i)

/-- Of two nested sequences the cut decides which one is found. -/
theorem result_ne_of_nested (hnested : Nested sequences) :
    ∃ chunks chunks' : List Text, chunks.flatten = chunks'.flatten ∧
      (result sequences [] chunks).2 ≠ (result sequences [] chunks').2 := by
  obtain ⟨s, hs, t, ht, i, hoccurs, hshort⟩ := hnested
  refine ⟨[s], [s.take (i + t.length), s.drop (i + t.length)], by simp, ?_⟩
  obtain ⟨emitted, sequence, hwhole, hfound⟩ := result_of_first hne [] hs (i := 0)
    (prefix_refl s)
  have hinside : t <+: (s.take (i + t.length)).drop i := by
    rw [drop_take, Nat.add_sub_cancel_left, ← prefix_eq_take hoccurs]
  obtain ⟨emitted', sequence', hcut, hfound'⟩ :=
    result_of_first hne [s.drop (i + t.length)] ht hinside
  rw [hwhole, hcut]
  intro heq
  obtain rfl := Option.some.inj heq
  -- In one piece the sequence is found at the beginning, so the longest is no shorter than it.
  have hfirst : emitted = [] := by
    by_contra hsome
    exact hfound.first s hs 0 (length_pos_iff.mpr hsome) (prefix_refl s)
  have hlong := hfound.longest s hs (by rw [hfirst]; exact prefix_refl s)
  have hlength := hfound'.occurs.length_le
  rw [length_append, length_take] at hlength
  omega

end

/-- Of the chunks that are pushed from the beginning or from behind a match, whatever was pushed
before: the text emitted up to their first match has no stop sequence in it, is the front of their
text, and is the whole of it with what is flushed where there is no match. Where there is none it
does not depend on the cuts either, and the text emitted and the sequence matched are independent
of them exactly when no stop sequence occurs in another one and ends before it. -/
theorem stop_buffer_laws {sequences : List Text} (hne : ∀ s ∈ sequences, s ≠ []) :
    (∀ before chunks, Begins sequences before → Correct sequences before chunks) ∧
    (∀ before before' chunks chunks' : List Text, Begins sequences before →
      Begins sequences before' → chunks.flatten = chunks'.flatten →
      (result sequences before chunks).2 = none →
      result sequences before' chunks' = result sequences before chunks) ∧
    ((∀ before before' chunks chunks' : List Text, Begins sequences before →
      Begins sequences before' → chunks.flatten = chunks'.flatten →
      result sequences before chunks = result sequences before' chunks') ↔ ¬ Nested sequences) := by
  refine ⟨fun _ chunks hbegins => result_correct hne hbegins chunks,
    fun _ _ _ _ hbegins hbegins' => result_of_none hne hbegins hbegins', ?_, ?_⟩
  · intro hall hnested
    obtain ⟨chunks, chunks', hinput, hdifferent⟩ := result_ne_of_nested hne hnested
    exact hdifferent (congrArg Prod.snd (hall [] [] chunks chunks' (.inl rfl) (.inl rfl) hinput))
  · exact fun hflat _ _ _ _ hbegins hbegins' hinput => result_eq hne hflat hbegins hbegins' hinput

/-- Two emissions, the second behind the match of the first; the rest of the chunk that gave the
match is dropped. -/
theorem plain_sequences_laws :
    result ["END".toList] [] ["hello E".toList, "ND tail".toList, "more".toList] =
      ("hello ".toList, some "END".toList) ∧
    result ["END".toList] ["hello E".toList, "ND tail".toList] ["more".toList] =
      ("more".toList, none) ∧
    Correct ["END".toList] [] ["hello E".toList, "ND tail".toList, "more".toList] ∧
    Correct ["END".toList] ["hello E".toList, "ND tail".toList] ["more".toList] :=
  ⟨by decide, by decide, (stop_buffer_laws (by decide)).1 _ _ (.inl rfl),
    (stop_buffer_laws (by decide)).1 _ _ (.inr ⟨_, rfl, by decide⟩)⟩

/-- The same input, cut behind the sequence that ends first. -/
theorem cut_decides_match :
    ¬ ∀ sequences : List Text, (∀ s ∈ sequences, s ≠ []) →
      ∀ chunks chunks' : List Text, chunks.flatten = chunks'.flatten →
        result sequences [] chunks = result sequences [] chunks' := by
  intro hall
  have heq := hall ["bc".toList, "abcd".toList] (by decide) ["abcd".toList]
    ["abc".toList, "d".toList] (by decide)
  have hdifferent : result ["bc".toList, "abcd".toList] [] ["abcd".toList] ≠
      result ["bc".toList, "abcd".toList] [] ["abc".toList, "d".toList] := by decide
  exact hdifferent heq

end Eider.Guarantees.StopChunks
