import Mathlib.Data.List.Infix
import Mathlib.Data.List.Basic
import Mathlib.Data.List.Perm.Basic

/-!
# Substring search over lists

`find` is the index of the first occurrence, `firstMin` the first minimum of a
list of candidates, and `longestMarkerPrefixSuffix` the longest end of a text
that may still grow into a marker. The markers of interest are bracketed
(`Bracketed`): two occurrences of such markers cannot overlap, so a search that
is continued after more text has arrived agrees with a search of the whole text.
-/
namespace Eider.Lib.Search
open List Option

variable {α : Type*}

/-- A marker `o … c` whose two brackets occur only at its ends. -/
def Bracketed (o c : α) (marker : List α) : Prop :=
  ∃ mid, marker = o :: (mid ++ [c]) ∧ o ∉ mid ++ [c] ∧ c ∉ mid

variable {o c : α}

/-- The middle of a bracketed marker is what stands between its ends. -/
theorem Bracketed.intro {marker : List α} (h : marker = o :: (marker.tail.dropLast ++ [c]) ∧
      o ∉ marker.tail.dropLast ++ [c] ∧ c ∉ marker.tail.dropLast) : Bracketed o c marker :=
  ⟨marker.tail.dropLast, h⟩

/-! ## Occurrences -/

theorem Bracketed.ne_nil {marker : List α} (h : Bracketed o c marker) : marker ≠ [] := by
  obtain ⟨mid, rfl, -, -⟩ := h
  exact cons_ne_nil _ _

variable {needle hay : List α} {i : Nat}

/-- An occurrence of a nonempty text starts inside the searched text. -/
theorem occurs_lt_length (hn : needle ≠ [])
    (h : needle <+: hay.drop i) : i + needle.length ≤ hay.length := by
  have hl := h.length_le
  have hp : 0 < needle.length := length_pos_iff.mpr hn
  rw [length_drop] at hl
  omega

theorem occurs_append (tail : List α) (hn : needle ≠ [])
    (h : needle <+: hay.drop i) : needle <+: (hay ++ tail).drop i := by
  have hb := occurs_lt_length hn h
  rw [drop_append_of_le_length (by omega)]
  exact h.trans (prefix_append _ _)

/-- An occurrence that ends inside the left part is an occurrence there. -/
theorem occurs_of_append {tail : List α} (hb : i + needle.length ≤ hay.length)
    (h : needle <+: (hay ++ tail).drop i) : needle <+: hay.drop i := by
  rw [drop_append_of_le_length (by omega)] at h
  exact prefix_of_prefix_length_le h (prefix_append _ _)
    (by rw [length_drop]; omega)

theorem occurs_shift {left : List α} :
    needle <+: (left ++ hay).drop (left.length + i) ↔ needle <+: hay.drop i := by
  simp

variable {m : List α}

/-- Bracketed markers do not overlap: an occurrence that starts before another
one ends before it. -/
theorem bracketed_no_overlap {n : List α} {j : Nat} (hm : Bracketed o c m)
    (hn : Bracketed o c n) (hij : i < j) (hi : m <+: hay.drop i) (hj : n <+: hay.drop j) :
    i + m.length ≤ j := by
  by_contra hlt
  obtain ⟨mid, rfl, hmt, -⟩ := hm
  obtain ⟨nid, rfl, -, -⟩ := hn
  obtain ⟨k, rfl⟩ : ∃ k, j = i + (k + 1) := ⟨j - i - 1, by omega⟩
  obtain ⟨r, hr⟩ := hi
  obtain ⟨s, hs⟩ := hj
  have hk : k < (mid ++ [c]).length := by simp only [length_cons] at hlt; omega
  -- the opening bracket of the later marker is a letter of the earlier marker's tail
  have hd : hay.drop (i + (k + 1)) = (mid ++ [c]).drop k ++ r := by
    rw [← drop_drop, ← hr, cons_append, drop_succ_cons, drop_append_of_le_length (by omega)]
  rw [hd, drop_eq_getElem_cons hk] at hs
  simp only [cons_append, cons.injEq] at hs
  exact hmt (hs.1 ▸ getElem_mem hk)

/-- No bracketed marker is a proper prefix of another one. -/
theorem bracketed_prefix_eq {n : List α} (hm : Bracketed o c m) (hn : Bracketed o c n)
    (h : m <+: n) : m = n := by
  obtain ⟨mid, rfl, -, -⟩ := hm
  obtain ⟨nid, rfl, -, hc⟩ := hn
  obtain ⟨r, hr⟩ := h
  rcases eq_nil_or_concat r with rfl | ⟨r', x, rfl⟩
  · simpa using hr
  · -- the closing bracket of `m` would be an inner letter of `n`
    have hr' : mid ++ ([c] ++ r') ++ [x] = nid ++ [c] := by simpa using hr
    have := (append_inj' hr' rfl).1
    exact absurd (this ▸ by simp) hc

/-- An occurrence cannot stretch over an element that it does not have. -/
theorem not_occurs_across {l r : List α} {c : α} {j : Nat} (hc : c ∉ needle) (hj : j ≤ l.length)
    (h : needle <+: (l ++ c :: r).drop j) : needle <+: l.drop j := by
  by_cases hb : j + needle.length ≤ l.length
  · exact occurs_of_append hb h
  · obtain ⟨tail, htail⟩ := h
    have hget : needle[l.length - j]? = some c := by
      have hlt : l.length - j < needle.length := by omega
      have hsame := congrArg (·[l.length - j]?) htail
      simp only [getElem?_drop] at hsame
      rw [getElem?_append_left hlt, show j + (l.length - j) = l.length by omega] at hsame
      simpa using hsame
    exact absurd (mem_of_getElem? hget) hc

/-! ## Searching -/

variable [DecidableEq α]

/-- Index of the first occurrence of `needle`. -/
def find (needle : List α) : List α → Option Nat
  | [] => if needle.isEmpty then some 0 else none
  | c :: rest =>
    if needle.isPrefixOf (c :: rest) then some 0 else (find needle rest).map (· + 1)

/-- Index of the last occurrence of `needle`. -/
def rfind (needle : List α) : List α → Option Nat
  | [] => if needle.isEmpty then some 0 else none
  | c :: rest =>
    match rfind needle rest with
    | some i => some (i + 1)
    | none => if needle.isPrefixOf (c :: rest) then some 0 else none

/-- The first candidate of least key. -/
def firstMin {γ : Type*} : List (Nat × γ) → Option (Nat × γ)
  | [] => none
  | x :: xs =>
    match firstMin xs with
    | none => some x
    | some y => if x.1 ≤ y.1 then some x else some y

/-- Length of the longest end of `text` that is a proper nonempty prefix of
`marker`. -/
def longestMarkerPrefixSuffix (text marker : List α) : Nat :=
  ((List.range marker.length).reverse.find? fun l =>
    l != 0 && (marker.take l).isSuffixOf text).getD 0

/-- Longest held-back end over a family of markers. -/
def held (markers : List (List α)) (text : List α) : Nat :=
  (markers.map (longestMarkerPrefixSuffix text)).foldl max 0

attribute [grind =] find firstMin

/-! ## First occurrence -/

section
variable (hn : needle ≠ [])
include hn

theorem find_eq_some_iff :
    find needle hay = some i ↔
      needle <+: hay.drop i ∧ ∀ j < i, ¬ needle <+: hay.drop j := by
  induction hay generalizing i with
  | nil => simp [find, hn]
  | cons c rest ih =>
    rw [find]
    by_cases hp : needle <+: c :: rest
    · rw [if_pos (List.isPrefixOf_iff_prefix.mpr hp)]
      constructor
      · rintro ⟨⟩
        exact ⟨hp, fun j hj => absurd hj (Nat.not_lt_zero j)⟩
      · rintro ⟨-, hmin⟩
        cases i with
        | zero => rfl
        | succ i => exact absurd hp (hmin 0 (Nat.succ_pos i))
    · rw [if_neg (fun h => hp (List.isPrefixOf_iff_prefix.mp h))]
      cases i with
      | zero => simp [hp]
      | succ i =>
        simp only [map_eq_some_iff, Nat.add_right_cancel_iff, exists_eq_right, ih, drop_succ_cons]
        refine and_congr_right fun _ => ⟨fun h j hj => ?_, fun h j hj => ?_⟩
        · cases j with
          | zero => exact hp
          | succ j => exact h j (by omega)
        · exact h (j + 1) (by omega)

theorem find_eq_none_iff : find needle hay = none ↔ ∀ i, ¬ needle <+: hay.drop i := by
  constructor
  · intro h i hi
    induction i using Nat.strong_induction_on with
    | _ i ih =>
      have : find needle hay = some i := (find_eq_some_iff hn).mpr ⟨hi, fun j hj hp => ih j hj hp⟩
      rw [h] at this
      cases this
  · intro h
    cases hf : find needle hay with
    | none => rfl
    | some i => exact absurd ((find_eq_some_iff hn).mp hf).1 (h i)

theorem find_eq_none_iff_not_within : find needle hay = none ↔ ¬ needle <:+: hay := by
  rw [find_eq_none_iff hn]
  constructor
  · rintro h ⟨front, back, rfl⟩
    refine h front.length ?_
    rw [append_assoc, drop_left]
    exact prefix_append _ _
  · intro h i hi
    exact h (hi.isInfix.trans (drop_suffix i hay).isInfix)

omit hn in
/-- More text after a match does not move the first match. -/
theorem find_append_of_some (tail : List α) (hn : needle ≠ [])
    (h : find needle hay = some i) : find needle (hay ++ tail) = some i := by
  obtain ⟨hi, hmin⟩ := (find_eq_some_iff hn).mp h
  have hb := occurs_lt_length hn hi
  refine (find_eq_some_iff hn).mpr ⟨occurs_append tail hn hi, fun j hj hp => ?_⟩
  exact hmin j hj (occurs_of_append (by omega) hp)

theorem find_append_shift {left : List α}
    (h : ∀ j < left.length, ¬ needle <+: (left ++ hay).drop j) :
    find needle (left ++ hay) = (find needle hay).map (left.length + ·) := by
  cases hf : find needle hay with
  | none =>
    rw [map_none, find_eq_none_iff hn]
    intro i hi
    by_cases hl : i < left.length
    · exact h i hl hi
    · obtain ⟨k, rfl⟩ : ∃ k, i = left.length + k := ⟨i - left.length, by omega⟩
      exact (find_eq_none_iff hn).mp hf k (occurs_shift.mp hi)
  | some i =>
    obtain ⟨hi, hmin⟩ := (find_eq_some_iff hn).mp hf
    rw [map_some, find_eq_some_iff hn]
    refine ⟨occurs_shift.mpr hi, fun j hj hp => ?_⟩
    by_cases hl : j < left.length
    · exact h j hl hp
    · obtain ⟨k, rfl⟩ : ∃ k, j = left.length + k := ⟨j - left.length, by omega⟩
      exact hmin k (by omega) (occurs_shift.mp hp)

/-- A search over a text that is split by an element outside the needle. -/
theorem find_append_cons {l r : List α} {c : α} (hc : c ∉ needle) :
    find needle (l ++ c :: r) = (find needle l).or ((find needle r).map (l.length + 1 + ·)) := by
  cases hl : find needle l with
  | some i => simpa using find_append_of_some (c :: r) hn hl
  | none =>
    have hnone := (find_eq_none_iff hn).mp hl
    have hleft : ∀ j < (l ++ [c]).length, ¬ needle <+: (l ++ [c] ++ r).drop j := by
      intro j hj hp
      rw [append_assoc] at hp
      rw [length_append, length_singleton] at hj
      exact hnone j (not_occurs_across hc (by omega) hp)
    have hshift := find_append_shift hn hleft
    simpa using hshift

theorem find_lt_length (h : find needle hay = some i) : i + needle.length ≤ hay.length :=
  occurs_lt_length hn ((find_eq_some_iff hn).mp h).1

end

/-! ## Least candidates -/

section

variable {γ : Type*} {xs : List (Nat × γ)}

theorem firstMin_eq_none_iff : firstMin xs = none ↔ xs = [] := by
  cases xs with
  | nil => simp [firstMin]
  | cons x xs =>
    simp only [firstMin, reduceCtorEq, iff_false]
    split
    · simp
    · split <;> simp

theorem firstMin_mem {x : Nat × γ} (h : firstMin xs = some x) : x ∈ xs := by
  induction xs generalizing x with
  | nil => simp [firstMin] at h
  | cons y ys ih =>
    rw [firstMin] at h
    split at h
    · cases h
      exact mem_cons_self
    · rename_i z hz
      split at h
      · cases h
        exact mem_cons_self
      · cases h
        exact mem_cons_of_mem _ (ih hz)

theorem firstMin_le {x : Nat × γ} (h : firstMin xs = some x) : ∀ y ∈ xs, x.1 ≤ y.1 := by
  induction xs generalizing x with
  | nil => simp [firstMin] at h
  | cons z zs ih =>
    rw [firstMin] at h
    split at h
    · rename_i hz
      cases h
      intro y hy
      rw [firstMin_eq_none_iff.mp hz, mem_singleton] at hy
      rw [hy]
    · rename_i w hw
      intro y hy
      rcases mem_cons.mp hy with rfl | hy
      · split at h <;> cases h <;> omega
      · have := ih hw y hy
        split at h <;> cases h <;> omega

theorem firstMin_map_shift (k : Nat) (xs : List (Nat × γ)) :
    firstMin (xs.map fun x => (k + x.1, x.2)) = (firstMin xs).map fun x => (k + x.1, x.2) := by
  induction xs with
  | nil => rfl
  | cons x xs ih =>
    rw [map_cons, firstMin, firstMin, ih]
    cases firstMin xs with
    | none => rfl
    | some y =>
      simp only [map_some, Nat.add_le_add_iff_left]
      split <;> rfl

/-- The least candidate of two lists; a tie goes to the first list. -/
theorem firstMin_append (xs ys : List (Nat × γ)) :
    firstMin (xs ++ ys) =
      match firstMin xs, firstMin ys with
      | none, b => b
      | some x, none => some x
      | some x, some y => if x.1 ≤ y.1 then some x else some y := by
  induction xs with
  | nil => simp [firstMin]
  | cons z zs ih =>
    rw [cons_append, firstMin, ih, firstMin]
    cases firstMin zs with
    | none => cases firstMin ys <;> simp
    | some x =>
      cases firstMin ys with
      | none => simp only; split <;> rfl
      | some y =>
        by_cases h1 : x.1 ≤ y.1 <;> by_cases h2 : z.1 ≤ x.1 <;> by_cases h3 : z.1 ≤ y.1 <;>
          simp [h1, h2, h3] <;> omega

theorem firstMin_map_label {δ : Type*} (f : γ → δ) (xs : List (Nat × γ)) :
    firstMin (xs.map fun x => (x.1, f x.2)) = (firstMin xs).map fun x => (x.1, f x.2) := by
  induction xs with
  | nil => rfl
  | cons x xs ih =>
    rw [map_cons, firstMin, ih, firstMin]
    cases firstMin xs with
    | none => rfl
    | some y =>
      simp only [map_some]
      split <;> rfl

end

/-! ## Earliest marker -/

section

variable {γ : Type*}

/-- The first marker of a family in `text`: index, marker and its label. -/
def earliest (markers : List (List α × γ)) (text : List α) : Option (Nat × List α × γ) :=
  firstMin (markers.filterMap fun m => (find m.1 text).map fun i => (i, m.1, m.2))

omit [DecidableEq α] in
/-- Candidates that appear later than the least one do not displace it. -/
theorem firstMin_filterMap_ext {β δ : Type*} {f g : β → Option (Nat × δ)} {x : Nat × δ}
    (l : List β) (h : firstMin (l.filterMap f) = some x)
    (keep : ∀ b ∈ l, ∀ v, f b = some v → g b = some v)
    (fresh : ∀ b ∈ l, f b = none → ∀ v, g b = some v → x.1 < v.1) :
    firstMin (l.filterMap g) = some x := by
  induction l generalizing x with
  | nil => simp [firstMin] at h
  | cons b l ih =>
    have hkeep := fun d hd => keep d (mem_cons_of_mem b hd)
    have hfresh := fun d hd => fresh d (mem_cons_of_mem b hd)
    cases hf : f b with
    | none =>
      rw [filterMap_cons_none hf] at h
      have ht := ih h hkeep hfresh
      cases hg : g b with
      | none => rwa [filterMap_cons_none hg]
      | some v =>
        have hv := fresh b mem_cons_self hf v hg
        rw [filterMap_cons_some hg, firstMin, ht]
        exact if_neg (by omega)
    | some v =>
      have hg := keep b mem_cons_self v hf
      rw [filterMap_cons_some hf, firstMin] at h
      rw [filterMap_cons_some hg, firstMin]
      cases hm : firstMin (l.filterMap f) with
      | none =>
        rw [hm] at h
        cases h
        cases hm' : firstMin (l.filterMap g) with
        | none => rfl
        | some y =>
          obtain ⟨d, hd, hgd⟩ := mem_filterMap.mp (firstMin_mem hm')
          have hfd : f d = none := by
            by_contra hne
            obtain ⟨w, hw⟩ := ne_none_iff_exists'.mp hne
            have : w ∈ l.filterMap f := mem_filterMap.mpr ⟨d, hd, hw⟩
            rw [firstMin_eq_none_iff.mp hm] at this
            cases this
          have := hfresh d hd hfd y hgd
          exact if_pos (by omega)
      | some y =>
        rw [hm] at h
        by_cases hle : v.1 ≤ y.1
        · simp only [hle, if_true, some.injEq] at h
          subst h
          cases hm' : firstMin (l.filterMap g) with
          | none => rfl
          | some z =>
            have hz : v.1 ≤ z.1 := by
              obtain ⟨d, hd, hgd⟩ := mem_filterMap.mp (firstMin_mem hm')
              cases hfd : f d with
              | none => exact Nat.le_of_lt (hfresh d hd hfd z hgd)
              | some w =>
                have hwz := hkeep d hd w hfd
                rw [hgd, some.injEq] at hwz
                rw [hwz]
                exact hle.trans (firstMin_le hm w (mem_filterMap.mpr ⟨d, hd, hfd⟩))
            exact if_pos hz
        · simp only [hle, if_false, some.injEq] at h
          subst h
          rw [ih hm hkeep hfresh]
          exact if_neg hle

variable {markers : List (List α × γ)} {text : List α}

theorem earliest_eq_none_iff (hm : ∀ m ∈ markers, m.1 ≠ []) :
    earliest markers text = none ↔ ∀ m ∈ markers, ∀ i, ¬ m.1 <+: text.drop i := by
  rw [earliest, firstMin_eq_none_iff, filterMap_eq_nil_iff]
  refine forall₂_congr fun m hmem => ?_
  rw [map_eq_none_iff, find_eq_none_iff (hm m hmem)]

theorem earliest_eq_some {b : γ} (h : earliest markers text = some (i, m, b)) :
    (m, b) ∈ markers ∧ find m text = some i := by
  obtain ⟨⟨m', b'⟩, hmem, hf⟩ := mem_filterMap.mp (firstMin_mem h)
  obtain ⟨k, hk, heq⟩ := map_eq_some_iff.mp hf
  cases heq
  exact ⟨hmem, hk⟩

theorem earliest_append_of_some {o c : α} {r : Nat × List α × γ} (tail : List α)
    (hm : ∀ m ∈ markers, Bracketed o c m.1)
    (h : earliest markers text = some r) : earliest markers (text ++ tail) = some r := by
  obtain ⟨i, m, b⟩ := r
  obtain ⟨hmem, hi⟩ := earliest_eq_some h
  have hb : Bracketed o c m := hm _ hmem
  have hocc := ((find_eq_some_iff hb.ne_nil).mp hi).1
  have hlen := find_lt_length hb.ne_nil hi
  refine firstMin_filterMap_ext markers h ?_ ?_
  · rintro ⟨n, d⟩ hn v hv
    obtain ⟨j, hj, rfl⟩ := map_eq_some_iff.mp hv
    exact map_eq_some_iff.mpr ⟨j, find_append_of_some tail (hm _ hn).ne_nil hj, rfl⟩
  · rintro ⟨n, d⟩ hn hnone v hv
    have hnb : Bracketed o c n := hm _ hn
    obtain ⟨j, hj, rfl⟩ := map_eq_some_iff.mp hv
    have hnot := (find_eq_none_iff hnb.ne_nil).mp (map_eq_none_iff.mp hnone)
    have hjo := ((find_eq_some_iff hnb.ne_nil).mp hj).1
    have hlong : text.length < j + n.length := by
      by_contra hle
      exact hnot j (occurs_of_append (by omega) hjo)
    by_contra hle
    rcases Nat.lt_or_eq_of_le (Nat.le_of_not_lt hle) with hlt | rfl
    · have := bracketed_no_overlap hnb hb hlt hjo (occurs_append tail hb.ne_nil hocc)
      omega
    · -- two markers at one index: the shorter is a prefix of the longer
      have hpre : m <+: n :=
        prefix_of_prefix_length_le (occurs_append tail hb.ne_nil hocc) hjo (by omega)
      have := bracketed_prefix_eq hb hnb hpre
      subst this
      omega

theorem earliest_append_shift {left : List α} (hm : ∀ m ∈ markers, m.1 ≠ [])
    (h : ∀ m ∈ markers, ∀ j < left.length, ¬ m.1 <+: (left ++ hay).drop j) :
    earliest markers (left ++ hay) =
      (earliest markers hay).map fun r => (left.length + r.1, r.2) := by
  rw [earliest, earliest, ← firstMin_map_shift, map_filterMap]
  congr 1
  refine filterMap_congr fun m hmem => ?_
  rw [find_append_shift (hm m hmem) (h m hmem), Option.map_map, Option.map_map]
  rfl

/-- The earliest marker of two families; a tie goes to the first family. -/
theorem earliest_append (xs ys : List (List α × γ)) (text : List α) :
    earliest (xs ++ ys) text =
      match earliest xs text, earliest ys text with
      | none, b => b
      | some x, none => some x
      | some x, some y => if x.1 ≤ y.1 then some x else some y := by
  simp only [earliest, filterMap_append, firstMin_append]
  split <;> simp_all

theorem earliest_map_label {δ : Type*} (f : γ → δ) (markers : List (List α × γ)) (text : List α) :
    earliest (markers.map fun m => (m.1, f m.2)) text =
      (earliest markers text).map fun r => (r.1, r.2.1, f r.2.2) := by
  rw [earliest, earliest, ← firstMin_map_label fun r : List α × γ => (r.1, f r.2),
    map_filterMap, filterMap_map]
  congr 1
  refine filterMap_congr fun m _ => ?_
  simp only [Function.comp, Option.map_map]
  rfl

end

/-! ## Held-back ends -/

theorem longestMarkerPrefixSuffix_spec (text marker : List α) :
    longestMarkerPrefixSuffix text marker = 0 ∨
      (0 < longestMarkerPrefixSuffix text marker ∧
        longestMarkerPrefixSuffix text marker < marker.length ∧
        marker.take (longestMarkerPrefixSuffix text marker) <:+ text) := by
  rw [longestMarkerPrefixSuffix]
  cases hf : ((range marker.length).reverse.find? fun l =>
      l != 0 && (marker.take l).isSuffixOf text) with
  | none => exact Or.inl rfl
  | some l =>
    have hp := find?_some hf
    have hr := mem_of_find?_eq_some hf
    simp only [bne_iff_ne, ne_eq, Bool.and_eq_true, isSuffixOf_iff_suffix] at hp
    rw [mem_reverse, mem_range] at hr
    exact Or.inr ⟨Nat.pos_of_ne_zero hp.1, hr, hp.2⟩

theorem le_longestMarkerPrefixSuffix {text marker : List α} {l : Nat} (h0 : 0 < l)
    (hl : l < marker.length) (hs : marker.take l <:+ text) :
    l ≤ longestMarkerPrefixSuffix text marker := by
  have key : ∀ n, l < n → l ≤ (((range n).reverse.find? fun l =>
      l != 0 && (marker.take l).isSuffixOf text).getD 0) := by
    intro n
    induction n with
    | zero => intro h; omega
    | succ n ih =>
      intro hn
      rw [range_succ, reverse_append, reverse_singleton, singleton_append, find?_cons]
      split
      · simp only [getD_some]; omega
      · rename_i hfalse
        refine ih (Nat.lt_of_le_of_ne (Nat.le_of_lt_succ hn) fun heq => ?_)
        subst heq
        simp [Nat.ne_of_gt h0, isSuffixOf_iff_suffix.mpr hs] at hfalse
  exact key _ hl

theorem le_foldl_max (xs : List Nat) (a : Nat) :
    a ≤ xs.foldl max a ∧ (∀ x ∈ xs, x ≤ xs.foldl max a) ∧
      (xs.foldl max a = a ∨ xs.foldl max a ∈ xs) := by
  induction xs generalizing a with
  | nil => simp
  | cons x xs ih =>
    obtain ⟨h1, h2, h3⟩ := ih (max a x)
    rw [foldl_cons]
    refine ⟨by omega, ?_, ?_⟩
    · intro y hy
      rcases mem_cons.mp hy with rfl | hy
      · omega
      · exact h2 y hy
    · rcases h3 with h3 | h3
      · rcases Nat.le_total a x with hax | hax
        · exact Or.inr (by rw [h3, Nat.max_eq_right hax]; exact mem_cons_self)
        · exact Or.inl (by rw [h3, Nat.max_eq_left hax])
      · exact Or.inr (mem_cons_of_mem _ h3)

variable (markers : List (List α))

/-- The held-back end is nothing or a proper nonempty prefix of some marker. -/
theorem held_spec (text : List α) :
    held markers text = 0 ∨ ∃ m ∈ markers, 0 < held markers text ∧
      held markers text < m.length ∧ m.take (held markers text) <:+ text := by
  rcases (le_foldl_max (markers.map (longestMarkerPrefixSuffix text)) 0).2.2 with h | h
  · exact Or.inl h
  · obtain ⟨m, hm, heq⟩ := mem_map.mp h
    change longestMarkerPrefixSuffix text m = held markers text at heq
    rcases longestMarkerPrefixSuffix_spec text m with h0 | h1
    · exact Or.inl (heq ▸ h0)
    · exact Or.inr ⟨m, hm, heq ▸ h1⟩

theorem le_held {markers : List (List α)} {text : List α} {l : Nat} (hm : m ∈ markers) (h0 : 0 < l)
    (hl : l < m.length) (hs : m.take l <:+ text) : l ≤ held markers text :=
  (le_longestMarkerPrefixSuffix h0 hl hs).trans
    ((le_foldl_max _ 0).2.1 _ (mem_map_of_mem hm))

theorem held_le_length (text : List α) : held markers text ≤ text.length := by
  rcases held_spec markers text with h | ⟨m, -, -, hl, hs⟩
  · omega
  · have := hs.length_le
    rw [length_take] at this
    omega

theorem held_perm {markers markers' : List (List α)} (h : markers.Perm markers')
    (text : List α) : held markers text = held markers' text :=
  (h.map _).foldl_eq 0

/-- Before the held-back end no marker can start, whatever text follows. -/
theorem no_occurrence_before_held {markers : List (List α)} {text : List α} (tail : List α)
    (hm : ∀ m ∈ markers, ∀ i, ¬ m <+: text.drop i) (hmem : m ∈ markers) {j : Nat}
    (hj : j < text.length - held markers text) : ¬ m <+: (text ++ tail).drop j := by
  intro hp
  by_cases hin : j + m.length ≤ text.length
  · exact hm m hmem j (occurs_of_append hin hp)
  · -- the rest of `text` from `j` is a proper prefix of the marker
    rw [drop_append_of_le_length (by omega)] at hp
    have hpre : text.drop j <+: m :=
      prefix_of_prefix_length_le (prefix_append _ _) hp
        (by rw [length_drop]; omega)
    have htake : m.take (text.length - j) = text.drop j := by
      rw [prefix_iff_eq_take.mp hpre, length_drop]
    have hsa : m.take (text.length - j) <:+ text := htake ▸ drop_suffix j text
    have := le_held hmem (by omega) (by omega) hsa
    omega

/-- A later held-back end is computed from the earlier held-back end. -/
theorem held_append (text tail : List α) :
    held markers (text ++ tail) =
      held markers (text.drop (text.length - held markers text) ++ tail) := by
  have hlen := held_le_length markers text
  have hsuf : text.drop (text.length - held markers text) ++ tail <:+ text ++ tail :=
    ⟨text.take (text.length - held markers text), by
      rw [← append_assoc, take_append_drop]⟩
  apply Nat.le_antisymm
  · rcases held_spec markers (text ++ tail) with h | ⟨m, hmem, h0, hl, hs⟩
    · omega
    · refine le_held hmem h0 hl (suffix_of_suffix_length_le hs hsuf ?_)
      rw [length_take, length_append, length_drop]
      -- the part of the held end that lies in `text` was already held back there
      obtain ⟨r, hr⟩ := hs
      rcases append_eq_append_iff.mp hr with ⟨a, hra, ha⟩ | ⟨a, -, ha⟩
      · have hla := congrArg length ha
        rw [length_append, length_take] at hla
        by_cases hz : a.length = 0
        · omega
        · have hta : m.take a.length = a := by
            have := congrArg (take a.length) ha
            rwa [take_take, take_left, Nat.min_eq_left (by omega)] at this
          have hsa : m.take a.length <:+ text := by
            rw [hta, hra]
            exact suffix_append _ _
          have := le_held hmem (by omega) (by omega) hsa
          omega
      · have hla := congrArg length ha
        rw [length_append, length_take] at hla
        omega
  · rcases held_spec markers (text.drop (text.length - held markers text) ++ tail) with
      h | ⟨m, hmem, h0, hl, hs⟩
    · omega
    · exact le_held hmem h0 hl (hs.trans hsuf)

end Eider.Lib.Search
