import Mathlib.MeasureTheory.Integral.Bochner.Set
import Mathlib.MeasureTheory.Measure.Lebesgue.Basic

/-!
# Programs with uniform draws

`Draw K α` is a program that may ask for numbers and then returns a value; `run` feeds it a
stream. Over the reals, `expect m g` is the expectation of `g` on the result when every draw
is uniform on `[0, 1)` and independent of the others: one integral for each draw.

For programs that may fail, `value` counts a failure as zero. `Yields m P` says that a program
does not fail, that its results meet `P` and that its expectations are sums over finitely many
of them: such programs can be sequenced, and their value is linear. A draw that chooses by
weights (`pick`) or is compared with a probability makes such a program of others.
-/
namespace Eider.Lib

inductive Draw (K α : Type) where
  | done (a : α)
  | draw (next : K → Draw K α)

namespace Draw

variable {K α β : Type}

def bind : Draw K α → (α → Draw K β) → Draw K β
  | .done a, f => f a
  | .draw next, f => .draw fun u => (next u).bind f

instance : Monad (Draw K) where
  pure := .done
  bind := bind

/-- The result on a stream of draws. -/
def run : Draw K α → (Nat → K) → α
  | .done a, _ => a
  | .draw next, stream => (next (stream 0)).run fun i => stream (i + 1)

/-! ## Choosing by weights -/

section
variable [LT K] [DecidableRel fun x y : K => x < y] [Sub K]

/-- The first entry whose weight the number does not reach, which falls by every weight passed. -/
def pick : List (α × K) → α → K → α
  | [], last, _ => last
  | (a, weight) :: rest, last, u => if u < weight then a else pick rest last (u - weight)

attribute [grind =] pick

end

/-! ## Expectations -/

open MeasureTheory List

noncomputable def expect : Draw ℝ α → (α → ℝ) → ℝ
  | .done a, g => g a
  | .draw next, g => ∫ u in Set.Ico (0 : ℝ) 1, (next u).expect g

theorem expect_draw (next : ℝ → Draw ℝ α) (g : α → ℝ) :
    (Draw.draw next).expect g = ∫ u in Set.Ico (0 : ℝ) 1, (next u).expect g := rfl

theorem expect_bind (m : Draw ℝ α) (f : α → Draw ℝ β) (g : β → ℝ) :
    (m.bind f).expect g = m.expect fun a => (f a).expect g := by
  induction m with
  | done a => rfl
  | draw next ih =>
    unfold bind expect
    simp only [ih]

theorem expect_const (m : Draw ℝ α) (c : ℝ) : (m.expect fun _ => c) = c := by
  induction m with
  | done a => rfl
  | draw next ih =>
    unfold expect
    simp [ih]

variable (law : List (α × ℝ))

/-- The sum of the values by their weights. -/
noncomputable def mean (g : α → ℝ) : ℝ := (law.map fun x => x.2 * g x.1).sum

theorem mean_append (law more : List (α × ℝ)) (g : α → ℝ) :
    mean (law ++ more) g = mean law g + mean more g := by
  simp [mean]

theorem mean_scale (c : ℝ) (g : α → ℝ) :
    mean (law.map fun x => (x.1, c * x.2)) g = c * mean law g := by
  induction law with
  | nil => simp [mean]
  | cons x law ih =>
    simp only [mean, map_cons, sum_cons] at ih ⊢
    rw [ih]
    ring

theorem mean_linear (c : ℝ) (g h : α → ℝ) :
    (mean law fun a => c * g a + h a) = c * mean law g + mean law h := by
  induction law with
  | nil => simp [mean]
  | cons x law ih =>
    simp only [mean, map_cons, sum_cons] at ih ⊢
    rw [ih]
    ring

theorem mean_map (f : α → β) (law : List (α × ℝ)) (g : β → ℝ) :
    mean (law.map fun x => (f x.1, x.2)) g = mean law fun a => g (f a) := by
  simp [mean, Function.comp_def]

/-- The weight of a value. -/
noncomputable def mass [DecidableEq α] : List (α × ℝ) → α → ℝ
  | [], _ => 0
  | x :: law, a => (if x.1 = a then x.2 else 0) + mass law a

attribute [grind =] mass

variable {law : List (α × ℝ)}

theorem mean_eq_sum [DecidableEq α] {s : Finset α} (h : ∀ x ∈ law, x.1 ∈ s)
    (g : α → ℝ) : mean law g = ∑ a ∈ s, mass law a * g a := by
  induction law with
  | nil => simp [mean, mass]
  | cons x law ih =>
    have hhead : ∑ a ∈ s, (if x.1 = a then x.2 else 0) * g a = x.2 * g x.1 := by
      rw [Finset.sum_eq_single x.1]
      · rw [if_pos rfl]
      · intro a _ hne
        rw [if_neg hne.symm, zero_mul]
      · exact fun hnot => absurd (h x mem_cons_self) hnot
    have htail := ih fun y hy => h y (mem_cons_of_mem _ hy)
    simp only [mass, add_mul, Finset.sum_add_distrib, hhead, ← htail]
    simp [mean]

theorem mass_nonneg [DecidableEq α] (h : ∀ x ∈ law, 0 ≤ x.2) (a : α) : 0 ≤ mass law a := by
  induction law with
  | nil => exact le_refl 0
  | cons x law ih =>
    refine add_nonneg ?_ (ih fun y hy => h y (mem_cons_of_mem _ hy))
    split
    · exact h x mem_cons_self
    · exact le_refl 0

theorem mass_eq_zero [DecidableEq α] {a : α} (h : ∀ x ∈ law, x.1 ≠ a) : mass law a = 0 := by
  induction law with
  | nil => rfl
  | cons x law ih =>
    rw [mass, if_neg (h x mem_cons_self), zero_add]
    exact ih fun y hy => h y (mem_cons_of_mem _ hy)

/-- A value that occurs once has the weight of its entry. -/
theorem mass_eq_of_mem [DecidableEq α] (hnodup : (law.map Prod.fst).Nodup) {a : α} {weight : ℝ}
    (hmem : (a, weight) ∈ law) : mass law a = weight := by
  induction law with
  | nil => cases hmem
  | cons x law ih =>
    rw [map_cons, nodup_cons] at hnodup
    rcases mem_cons.mp hmem with rfl | htail
    · rw [mass, if_pos rfl, mass_eq_zero, add_zero]
      intro y hy heq
      exact hnodup.1 (mem_map.mpr ⟨y, hy, heq⟩)
    · rw [mass, if_neg, zero_add, ih hnodup.2 htail]
      intro heq
      exact hnodup.1 (mem_map.mpr ⟨_, htail, heq.symm⟩)

/-! ## The law of a choice -/

/-- The sum of the weights. -/
def total (entries : List (α × ℝ)) : ℝ := (entries.map Prod.snd).sum

variable {entries : List (α × ℝ)}

theorem total_nonneg (hnonneg : ∀ x ∈ entries, 0 ≤ x.2) : 0 ≤ total entries := by
  refine sum_nonneg ?_
  intro weight hweight
  obtain ⟨x, hx, rfl⟩ := mem_map.mp hweight
  exact hnonneg x hx

theorem integral_pick (hnonneg : ∀ x ∈ entries, 0 ≤ x.2) (last : α) (g : α → ℝ) (start : ℝ) :
    IntegrableOn (fun u => g (pick entries last (u - start)))
      (Set.Ico start (start + total entries)) ∧
    ∫ u in Set.Ico start (start + total entries), g (pick entries last (u - start)) =
      mean entries g := by
  induction entries generalizing start with
  | nil => simp [total, mean]
  | cons entry rest ih =>
    obtain ⟨a, weight⟩ := entry
    have hweight : 0 ≤ weight := hnonneg _ mem_cons_self
    have hrest : ∀ x ∈ rest, 0 ≤ x.2 := fun x hx => hnonneg x (mem_cons_of_mem _ hx)
    obtain ⟨hintegrable, hintegral⟩ := ih hrest (start + weight)
    have hend : start + total ((a, weight) :: rest) = start + weight + total rest := by
      simp [total, add_assoc]
    have hunion : Set.Ico start (start + total ((a, weight) :: rest)) =
        Set.Ico start (start + weight) ∪ Set.Ico (start + weight) (start + weight + total rest) := by
      have hnonnegRest := total_nonneg hrest
      rw [hend, Set.Ico_union_Ico_eq_Ico (by linarith) (by linarith)]
    -- Below the first weight its entry is chosen, and from there on the rest decides.
    have hfirst : Set.EqOn (fun _ => g a)
        (fun u => g (pick ((a, weight) :: rest) last (u - start)))
        (Set.Ico start (start + weight)) := by
      intro u hu
      have hlt : u - start < weight := by linarith [hu.2]
      simp only [pick, if_pos hlt]
    have hsecond : Set.EqOn (fun u => g (pick rest last (u - (start + weight))))
        (fun u => g (pick ((a, weight) :: rest) last (u - start)))
        (Set.Ico (start + weight) (start + weight + total rest)) := by
      intro u hu
      have hge : ¬ u - start < weight := by linarith [hu.1]
      have hsub : u - (start + weight) = u - start - weight := by ring
      simp only [pick, if_neg hge, hsub]
    have hleft : IntegrableOn (fun u => g (pick ((a, weight) :: rest) last (u - start)))
        (Set.Ico start (start + weight)) :=
      (integrableOn_const (by simp)).congr_fun hfirst measurableSet_Ico
    have hright : IntegrableOn (fun u => g (pick ((a, weight) :: rest) last (u - start)))
        (Set.Ico (start + weight) (start + weight + total rest)) :=
      hintegrable.congr_fun hsecond measurableSet_Ico
    rw [hunion]
    refine ⟨hleft.union hright, ?_⟩
    rw [setIntegral_union (Set.Ico_disjoint_Ico_same) measurableSet_Ico hleft hright,
      ← setIntegral_congr_fun measurableSet_Ico hfirst,
      ← setIntegral_congr_fun measurableSet_Ico hsecond, hintegral]
    simp [mean, hweight]

theorem pick_scale {c : ℝ} (hc : 0 < c) (entries : List (α × ℝ)) (last : α) (u : ℝ) :
    pick entries last (u * c) = pick (entries.map fun x => (x.1, c⁻¹ * x.2)) last u := by
  induction entries generalizing u with
  | nil => rfl
  | cons entry rest ih =>
    obtain ⟨a, weight⟩ := entry
    have hlt : u * c < weight ↔ u < c⁻¹ * weight := by
      rw [← div_eq_inv_mul, lt_div_iff₀ hc]
    have hrest : u * c - weight = (u - c⁻¹ * weight) * c := by
      field_simp
    rw [map_cons, pick, pick]
    by_cases h : u * c < weight
    · rw [if_pos h, if_pos (hlt.mp h)]
    · rw [if_neg h, if_neg (fun h' => h (hlt.mpr h')), hrest, ih]

theorem total_scale (c : ℝ) (entries : List (α × ℝ)) :
    total (entries.map fun x => (x.1, c * x.2)) = c * total entries := by
  induction entries with
  | nil => simp [total]
  | cons entry rest ih =>
    simp only [total, map_cons, sum_cons] at ih ⊢
    rw [ih]
    ring

/-- A draw chooses each entry with its share of the weights. -/
theorem integral_pick_scaled (hnonneg : ∀ x ∈ entries, 0 ≤ x.2) (hpos : 0 < total entries)
    (last : α) (g : α → ℝ) :
    ∫ u in Set.Ico (0 : ℝ) 1, g (pick entries last (u * total entries)) =
      (total entries)⁻¹ * mean entries g := by
  have hshares : ∀ x ∈ entries.map fun x => (x.1, (total entries)⁻¹ * x.2), 0 ≤ x.2 := by
    intro x hx
    obtain ⟨y, hy, rfl⟩ := mem_map.mp hx
    exact mul_nonneg (inv_nonneg.mpr hpos.le) (hnonneg y hy)
  have hintegral := (integral_pick hshares last g 0).2
  rw [total_scale, inv_mul_cancel₀ hpos.ne', zero_add, mean_scale] at hintegral
  simp only [sub_zero] at hintegral
  rw [← hintegral]
  simp only [pick_scale hpos]

/-- A draw is below a number of the unit interval with that probability. -/
theorem integral_coin {r : ℝ} (hnonneg : 0 ≤ r) (hle : r ≤ 1) (g : Bool → ℝ) :
    ∫ u in Set.Ico (0 : ℝ) 1, g (decide (u < r)) = r * g true + (1 - r) * g false := by
  have hentries : ∀ x ∈ [(true, r), (false, 1 - r)], 0 ≤ x.2 := by
    intro x hx
    simp only [mem_cons, not_mem_nil, or_false] at hx
    rcases hx with rfl | rfl
    · exact hnonneg
    · linarith
  have hpick : ∀ u : ℝ, pick [(true, r), (false, 1 - r)] false (u - 0) = decide (u < r) := by
    intro u
    rw [sub_zero, pick, pick, pick]
    by_cases h : u < r <;> simp [h]
  have hintegral := (integral_pick hentries false g 0).2
  simp only [hpick] at hintegral
  simpa [total, mean] using hintegral

/-! ## Programs that may fail -/

variable {ε : Type}

/-- The expectation, where a failure counts as zero. -/
noncomputable def value (m : ExceptT ε (Draw ℝ) α) (g : α → ℝ) : ℝ :=
  m.run.expect fun r => r.toOption.elim 0 g

/-- The program does not fail, its results meet `P`, and expectations are finite sums. -/
def Yields (m : ExceptT ε (Draw ℝ) α) (P : α → Prop) : Prop :=
  ∃ law : List (α × ℝ), (∀ x ∈ law, P x.1) ∧
    ∀ g : Except ε α → ℝ, m.run.expect g = mean law fun a => g (.ok a)

section
variable {m : ExceptT ε (Draw ℝ) α} {f : α → ExceptT ε (Draw ℝ) β} {P : α → Prop} {Q : β → Prop}

theorem expect_run_bind (m : ExceptT ε (Draw ℝ) α) (f : α → ExceptT ε (Draw ℝ) β)
    (g : Except ε β → ℝ) : (m >>= f).run.expect g =
      m.run.expect fun r => match r with
        | .ok a => (f a).run.expect g
        | .error e => g (.error e) := by
  refine (expect_bind m.run _ g).trans ?_
  congr 1
  funext r
  cases r with
  | ok a => rfl
  | error e => rfl

theorem value_bind (m : ExceptT ε (Draw ℝ) α) (f : α → ExceptT ε (Draw ℝ) β) (g : β → ℝ) :
    value (m >>= f) g = value m fun a => value (f a) g := by
  unfold value
  rw [expect_run_bind]
  congr 1
  funext r
  cases r with
  | ok a => rfl
  | error e => rfl

@[simp] theorem value_pure (a : α) (g : α → ℝ) :
    value (pure a : ExceptT ε (Draw ℝ) α) g = g a := rfl

theorem yields_pure {a : α} (h : P a) : Yields (pure a : ExceptT ε (Draw ℝ) α) P := by
  refine ⟨[(a, 1)], ?_, fun g => ?_⟩
  · exact forall_mem_singleton.mpr h
  · simp only [mean, map_cons, map_nil, sum_cons, sum_nil, one_mul, add_zero]
    rfl

theorem Yields.mono {P' : α → Prop} (h : Yields m P) (hweaker : ∀ a, P a → P' a) : Yields m P' := by
  obtain ⟨law, hP, hlaw⟩ := h
  exact ⟨law, fun x hx => hweaker x.1 (hP x hx), hlaw⟩

theorem mean_flatMap (law : List (α × ℝ)) (next : α → List (β × ℝ)) (g : β → ℝ) :
    mean (law.flatMap fun x => (next x.1).map fun y => (y.1, x.2 * y.2)) g =
      mean law fun a => mean (next a) g := by
  induction law with
  | nil => rfl
  | cons x law ih =>
    rw [flatMap_cons, mean_append, ih, mean_scale]
    rfl

theorem mean_congr {g h : α → ℝ} (heq : ∀ x ∈ law, g x.1 = h x.1) : mean law g = mean law h := by
  unfold mean
  congr 1
  refine map_congr_left fun x hx => ?_
  rw [heq x hx]

/-- A program behind each of finitely many weighted results. -/
theorem yields_mix (law : List (α × ℝ)) (f : α → ExceptT ε (Draw ℝ) β)
    {m : ExceptT ε (Draw ℝ) β} (hf : ∀ x ∈ law, Yields (f x.1) Q)
    (hm : ∀ g, m.run.expect g = mean law fun a => (f a).run.expect g) : Yields m Q := by
  have hall : ∀ a, (∃ x ∈ law, x.1 = a) → Yields (f a) Q := by
    rintro a ⟨x, hx, rfl⟩
    exact hf x hx
  choose! next hQ hnext using hall
  refine ⟨law.flatMap fun x => (next x.1).map fun y => (y.1, x.2 * y.2), ?_, fun g => ?_⟩
  · intro y hy
    obtain ⟨x, hx, hy⟩ := mem_flatMap.mp hy
    obtain ⟨z, hz, rfl⟩ := mem_map.mp hy
    exact hQ x.1 ⟨x, hx, rfl⟩ z hz
  · rw [hm, mean_flatMap]
    exact mean_congr fun x hx => hnext x.1 ⟨x, hx, rfl⟩ g

theorem Yields.bind (hm : Yields m P) (hf : ∀ a, P a → Yields (f a) Q) : Yields (m >>= f) Q := by
  obtain ⟨law, hP, hlaw⟩ := hm
  refine yields_mix law f (fun x hx => hf x.1 (hP x hx)) fun g => ?_
  rw [expect_run_bind, hlaw]

theorem Yields.expect_eq (h : Yields m P) (g : Except ε α → ℝ) :
    m.run.expect g = value m fun a => g (.ok a) := by
  obtain ⟨law, -, hlaw⟩ := h
  unfold value
  rw [hlaw, hlaw]
  rfl

theorem Yields.value_congr (h : Yields m P) {g g' : α → ℝ} (heq : ∀ a, P a → g a = g' a) :
    value m g = value m g' := by
  obtain ⟨law, hP, hlaw⟩ := h
  unfold value
  rw [hlaw, hlaw]
  exact mean_congr fun x hx => heq x.1 (hP x hx)

theorem Yields.value_const (h : Yields m P) (c : ℝ) : (value m fun _ => c) = c := by
  rw [← h.expect_eq fun _ => c, expect_const]

theorem Yields.value_linear (h : Yields m P) (c : ℝ) (g g' : α → ℝ) :
    (value m fun a => c * g a + g' a) = c * value m g + value m g' := by
  obtain ⟨law, -, hlaw⟩ := h
  unfold value
  rw [hlaw, hlaw, hlaw]
  exact mean_linear law c g g'

theorem expect_coin {r : ℝ} (hnonneg : 0 ≤ r) (hle : r ≤ 1) (x y : Draw ℝ α) (g : α → ℝ) :
    (Draw.draw fun u => if u < r then x else y).expect g =
      r * x.expect g + (1 - r) * y.expect g := by
  have hbool : ∀ u : ℝ, (if u < r then x else y).expect g =
      (fun b : Bool => if b then x.expect g else y.expect g) (decide (u < r)) := by
    intro u
    by_cases h : u < r <;> simp [h]
  rw [expect_draw]
  simp only [hbool]
  rw [integral_coin hnonneg hle fun b => if b then x.expect g else y.expect g]
  simp

theorem value_coin {r : ℝ} (hnonneg : 0 ≤ r) (hle : r ≤ 1) (x y : ExceptT ε (Draw ℝ) α)
    (g : α → ℝ) : value (ExceptT.mk (.draw fun u => if u < r then x.run else y.run)) g =
      r * value x g + (1 - r) * value y g :=
  expect_coin hnonneg hle x.run y.run _

theorem yields_coin {r : ℝ} (hnonneg : 0 ≤ r) (hle : r ≤ 1) {x y : ExceptT ε (Draw ℝ) α}
    (hx : r ≠ 0 → Yields x P) (hy : Yields y P) :
    Yields (ExceptT.mk (.draw fun u => if u < r then x.run else y.run)) P := by
  have hexpect := fun g => expect_coin hnonneg hle x.run y.run g
  by_cases hzero : r = 0
  · obtain ⟨law, hP, hlaw⟩ := hy
    refine ⟨law, hP, fun g => ?_⟩
    refine (hexpect g).trans ?_
    rw [hlaw, hzero]
    ring
  · have hbranches : ∀ b : Bool, Yields (if b then x else y) P := by
      intro b
      cases b with
      | true => exact hx hzero
      | false => exact hy
    refine yields_mix [(true, r), (false, 1 - r)] (fun b : Bool => if b then x else y)
      (fun b _ => hbranches b.1) fun g => ?_
    refine (hexpect g).trans ?_
    simp [mean]

theorem expect_pick (hnonneg : ∀ x ∈ entries, 0 ≤ x.2) (hpos : 0 < total entries) (last : α)
    (k : α → Draw ℝ β) (g : β → ℝ) :
    (Draw.draw fun u => k (pick entries last (u * total entries))).expect g =
      (total entries)⁻¹ * mean entries fun a => (k a).expect g := by
  exact integral_pick_scaled hnonneg hpos last fun a => (k a).expect g

end

end Draw

end Eider.Lib
