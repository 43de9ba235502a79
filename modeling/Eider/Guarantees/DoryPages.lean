import Mathlib.Data.List.TakeDrop
import Eider.Source.Dory.BranchPlan

/-!
# The pages of a packed decision wave

Every branch of a wave takes whole pages of its own behind the pages of the prefix, as
many as its first row's place in a page and its length ask for. `plan_pages` says so of
every plan that `DoryBranchPlan::new` makes: each packed row is written where the page
table of its segment puts its absolute position, branches share no page, and none is
written into a page that holds a prefix row. No index leaves its table and no cast to 32
bits loses a bit.
-/
namespace Eider.Guarantees.DoryPages
open Lib Source Source.Dory List

/-! ## Writing tables -/

variable {pages values : List Nat}

theorem getElem?_overwrite {start i : Nat} : (overwrite pages start values)[i]? =
      pages[i]?.map fun page => if start ≤ i then values.getD (i - start) page else page := by
  rw [overwrite, getElem?_mapIdx]

@[simp] theorem length_overwrite (pages values : List Nat) (start : Nat) :
    (overwrite pages start values).length = pages.length := by
  simp [overwrite]

theorem getElem?_overwrite_inside {start i value : Nat}
    (h : values[i]? = some value) (hlength : start + i < pages.length) :
    (overwrite pages start values)[start + i]? = some value := by
  rw [getElem?_overwrite, getElem?_eq_getElem hlength]
  simp [getD_eq_getElem?_getD, h]

theorem getElem?_overwrite_outside {start i : Nat} (h : i < start ∨ start + values.length ≤ i) :
    (overwrite pages start values)[i]? = pages[i]? := by
  rw [getElem?_overwrite]
  cases hpage : pages[i]? with
  | none => rfl
  | some page =>
    split
    · have hnone : values[i - start]? = none := getElem?_eq_none (by omega)
      simp [getD_eq_getElem?_getD, hnone]
    · rfl

/-! ## Pages and rows of a branch -/

/-- The first page of a branch. -/
def branchPage (prefixLen : Nat) (lengths : List Nat) (branch : Nat) : Nat :=
  divCeil prefixLen 64 + ((lengths.take branch).map (pageCount prefixLen)).sum

/-- The first packed row of a branch. -/
def firstRow (prefixRows : Nat) (lengths : List Nat) (branch : Nat) : Nat :=
  prefixRows + (lengths.take branch).sum

section
variable {prefixLen prefixRows length branch : Nat} {lengths : List Nat}

theorem take_succ_of {k : Nat} (h : lengths[k]? = some length) :
    lengths.take (k + 1) = lengths.take k ++ [length] := by
  rw [take_add_one, h]
  rfl

theorem branchPage_succ {k : Nat} (h : lengths[k]? = some length) :
    branchPage prefixLen lengths (k + 1) =
      branchPage prefixLen lengths k + pageCount prefixLen length := by
  simp [branchPage, take_succ_of h, Nat.add_assoc]

theorem firstRow_succ {k : Nat} (h : lengths[k]? = some length) :
    firstRow prefixRows lengths (k + 1) = firstRow prefixRows lengths k + length := by
  simp [firstRow, take_succ_of h, Nat.add_assoc]

theorem branchPage_mono {k k' : Nat} (h : k ≤ k') :
    branchPage prefixLen lengths k ≤ branchPage prefixLen lengths k' := by
  obtain ⟨d, rfl⟩ := Nat.exists_eq_add_of_le h
  simp only [branchPage, take_add, map_append, sum_append]
  omega

/-- The pages of a branch hold its rows and no whole page more. -/
theorem pageCount_bounds :
    prefixLen % 64 + length ≤ pageCount prefixLen length * 64 ∧
      pageCount prefixLen length * 64 ≤ prefixLen % 64 + length + 63 := by
  simp only [pageCount, divCeil]
  omega

theorem prefixPages_bounds :
    prefixLen ≤ divCeil prefixLen 64 * 64 ∧
      divCeil prefixLen 64 * 64 + prefixLen % 64 ≤ prefixLen + 64 := by
  simp only [divCeil]
  omega

/-- The page of a branch row, counted from the start of its segment. -/
theorem page_of_row {row : Nat} (h : row < length) :
    (prefixLen % 64 + row) / 64 < pageCount prefixLen length := by
  have := (@pageCount_bounds prefixLen length).1
  omega

theorem position_page (row : Nat) :
    (prefixLen + row) / 64 = prefixLen / 64 + (prefixLen % 64 + row) / 64 ∧
      (prefixLen + row) % 64 = (prefixLen % 64 + row) % 64 := by
  omega

theorem branchPage_le (k : Nat) (hk : k ≤ lengths.length) :
    branchPage prefixLen lengths k * 64 ≤
      divCeil prefixLen 64 * 64 + (lengths.take k).sum + k * (prefixLen % 64 + 63) := by
  induction k with
  | zero => simp [branchPage]
  | succ k ih =>
    have hlength : lengths[k]? = some lengths[k] := getElem?_eq_getElem hk
    have hbounds := (@pageCount_bounds prefixLen lengths[k]).2
    rw [branchPage_succ hlength, take_succ_of hlength, sum_append, sum_singleton]
    rw [Nat.succ_mul]
    omega

/-- The room that a wave takes: at most 126 rows of padding a branch, and one more. -/
theorem branchPage_room (h : lengths ≠ []) :
    branchPage prefixLen lengths lengths.length * 64 ≤
      prefixLen + lengths.sum + 126 * lengths.length + 1 := by
  have hle := @branchPage_le prefixLen lengths lengths.length (le_refl _)
  have hlead := (@prefixPages_bounds prefixLen).2
  have hpos : 1 ≤ lengths.length := length_pos_iff.mpr h
  rw [take_length] at hle
  obtain ⟨n, hn⟩ : ∃ n, lengths.length = n + 1 := ⟨lengths.length - 1, by omega⟩
  have hmod : n * (prefixLen % 64 + 63) ≤ n * 126 := Nat.mul_le_mul_left n (by omega)
  rw [hn] at hle ⊢
  rw [Nat.succ_mul] at hle
  omega

end

/-! ## Building a plan -/

/-- What a plan records of a branch. -/
structure BranchPlaced (prefixLen prefixRows stride segments : Nat) (lengths : List Nat)
    (b : PlanBuild) (branch length : Nat) : Prop where
  first : b.offsets[branch + segments]? = some (firstRow prefixRows lengths branch)
  last : b.offsets[branch + segments + 1]? = some (firstRow prefixRows lengths (branch + 1))
  used : b.used[branch + segments]? = some (prefixLen + length)
  position : ∀ r < length,
    b.positions[firstRow prefixRows lengths branch + r]? = some (prefixLen + r)
  destination : ∀ r < length, b.destinations[firstRow prefixRows lengths branch + r]? =
    some (branchPage prefixLen lengths branch * 64 + prefixLen % 64 + r)
  shared : ∀ q < prefixLen / 64, b.pages[(branch + segments) * stride + q]? = some q
  own : ∀ q < pageCount prefixLen length,
    b.pages[(branch + segments) * stride + (prefixLen / 64 + q)]? =
      some (branchPage prefixLen lengths branch + q)

/-- What a plan records of a prefix whose queries are in the batch. -/
structure PrefixPlaced (prefixLen : Nat) (b : PlanBuild) : Prop where
  first : b.offsets[0]? = some 0
  last : b.offsets[1]? = some prefixLen
  used : b.used[0]? = some prefixLen
  position : ∀ r < prefixLen, b.positions[r]? = some r
  destination : ∀ r < prefixLen, b.destinations[r]? = some r
  page : ∀ q < divCeil prefixLen 64, b.pages[q]? = some q

/-- The vectors behind the first `k` branches. -/
structure Built (prefixLen prefixRows stride segments : Nat) (lengths : List Nat) (k : Nat)
    (b : PlanBuild) : Prop where
  nextPage : b.nextPage = branchPage prefixLen lengths k
  pages_length : b.pages.length = stride * (lengths.length + segments)
  positions_length : b.positions.length = firstRow prefixRows lengths k
  destinations_length : b.destinations.length = firstRow prefixRows lengths k
  used_length : b.used.length = k + segments
  offsets_length : b.offsets.length = k + segments + 1
  offset : b.offsets[k + segments]? = some (firstRow prefixRows lengths k)
  placed : ∀ branch length, branch < k → lengths[branch]? = some length →
    BranchPlaced prefixLen prefixRows stride segments lengths b branch length
  prefixPlaced : segments = 1 → PrefixPlaced prefixLen b

/-- The vectors grow at their ends, and the tables before a bound stay. -/
structure Extends (b b' : PlanBuild) (bound : Nat) : Prop where
  positions : ∀ i value : Nat, b.positions[i]? = some value → b'.positions[i]? = some value
  destinations : ∀ i value : Nat,
    b.destinations[i]? = some value → b'.destinations[i]? = some value
  offsets : ∀ i value : Nat, b.offsets[i]? = some value → b'.offsets[i]? = some value
  used : ∀ i value : Nat, b.used[i]? = some value → b'.used[i]? = some value
  pages : ∀ i : Nat, i < bound → b'.pages[i]? = b.pages[i]?

section
variable {prefixLen prefixRows stride segments : Nat} {lengths : List Nat} {k : Nat}
  {b b' : PlanBuild} {bound : Nat} {branch length : Nat}

theorem getElem?_append_of_some {xs ys : List Nat} {i value : Nat} (h : xs[i]? = some value) :
    (xs ++ ys)[i]? = some value := by
  rw [List.getElem?_append_left (List.getElem?_eq_some_iff.mp h).1, h]

theorem BranchPlaced.extend
    (h : BranchPlaced prefixLen prefixRows stride segments lengths b branch length)
    (hextends : Extends b b' bound) (hbound : (branch + segments + 1) * stride ≤ bound)
    (hstride : prefixLen / 64 + pageCount prefixLen length ≤ stride) :
    BranchPlaced prefixLen prefixRows stride segments lengths b' branch length where
  first := hextends.offsets _ _ h.first
  last := hextends.offsets _ _ h.last
  used := hextends.used _ _ h.used
  position r hr := hextends.positions _ _ (h.position r hr)
  destination r hr := hextends.destinations _ _ (h.destination r hr)
  shared q hq := by
    rw [Nat.succ_mul] at hbound
    rw [hextends.pages _ (by omega)]
    exact h.shared q hq
  own q hq := by
    rw [Nat.succ_mul] at hbound
    rw [hextends.pages _ (by omega)]
    exact h.own q hq

theorem PrefixPlaced.extend (h : PrefixPlaced prefixLen b) (hextends : Extends b b' bound)
    (hbound : divCeil prefixLen 64 ≤ bound) : PrefixPlaced prefixLen b' where
  first := hextends.offsets _ _ h.first
  last := hextends.offsets _ _ h.last
  used := hextends.used _ _ h.used
  position r hr := hextends.positions _ _ (h.position r hr)
  destination r hr := hextends.destinations _ _ (h.destination r hr)
  page q hq := by
    rw [hextends.pages _ (by omega)]
    exact h.page q hq

theorem getElem?_range_map {n i : Nat} {f : Nat → Nat} (h : i < n) :
    ((List.range n).map f)[i]? = some (f i) := by
  simp [h]

theorem asU32_of_lt {n : Nat} (h : n < 2 ^ 32) : asU32 n = n := Nat.mod_eq_of_lt h

theorem range_map_asU32 {n : Nat} {f : Nat → Nat} (h : ∀ i < n, f i < 2 ^ 32) :
    ((List.range n).map fun i => asU32 (f i)) = (List.range n).map f := by
  apply map_congr_left
  intro i hi
  exact asU32_of_lt (h i (mem_range.mp hi))

/-- The vectors behind one more branch, where no cast loses a bit. -/
def afterBranch (prefixLen stride segments branch length : Nat) (b : PlanBuild) : PlanBuild where
  pages := overwrite
    (overwrite b.pages ((branch + segments) * stride) (List.range (prefixLen / 64)))
    ((branch + segments) * stride + prefixLen / 64)
    ((List.range (pageCount prefixLen length)).map fun page => b.nextPage + page)
  positions := b.positions ++ (List.range length).map fun row => prefixLen + row
  destinations := b.destinations ++
    (List.range length).map fun row => b.nextPage * 64 + prefixLen % 64 + row
  offsets := b.offsets ++ [b.positions.length + length]
  used := b.used ++ [prefixLen + length]
  nextPage := b.nextPage + pageCount prefixLen length

theorem addBranch_eq (hlength : 1 ≤ length)
    (hpages : (branch + segments + 1) * stride ≤ b.pages.length)
    (hstride : prefixLen / 64 + pageCount prefixLen length ≤ stride)
    (hlead : prefixLen ≤ b.nextPage * 64)
    (hnext : (b.nextPage + pageCount prefixLen length) * 64 < 2 ^ 32)
    (hrows : b.positions.length + length < 2 ^ 32) :
    addBranch prefixLen stride segments branch length b =
      some (afterBranch prefixLen stride segments branch length b) := by
  have hcount := (@pageCount_bounds prefixLen length).1
  have hshared : (range (prefixLen / 64)).map asU32 = range (prefixLen / 64) := by
    have hsmall : ∀ i < prefixLen / 64, i < 2 ^ 32 := fun i hi => by omega
    rw [range_map_asU32 hsmall, map_id']
  have hown := range_map_asU32 (n := pageCount prefixLen length) (f := fun page => b.nextPage + page)
    fun i hi => by omega
  have hpositions := range_map_asU32 (n := length) (f := fun row => prefixLen + row)
    fun i hi => by omega
  have hdestinations := range_map_asU32 (n := length)
    (f := fun row => b.nextPage * 64 + prefixLen % 64 + row) fun i hi => by omega
  have hfirst : (branch + segments + 1) * stride ≤ b.pages.length ∧
      0 + (range (prefixLen / 64)).length ≤ stride := by
    refine ⟨hpages, ?_⟩
    rw [length_range]
    omega
  have hsecond : (branch + segments + 1) * stride ≤
        (overwrite b.pages ((branch + segments) * stride) (range (prefixLen / 64))).length ∧
      prefixLen / 64 + ((range (pageCount prefixLen length)).map
        fun page => b.nextPage + page).length ≤ stride := by
    simpa using ⟨hpages, hstride⟩
  have hend : (b.positions ++ (range length).map fun row => prefixLen + row).length =
      b.positions.length + length := by simp
  simp only [addBranch, hshared, hown, hpositions, hdestinations, writeTable, if_pos hfirst,
    Nat.add_zero, Option.bind_eq_bind, Option.bind_some, if_pos hsecond, hend,
    asU32_of_lt hrows, asU32_of_lt (show prefixLen + length < 2 ^ 32 by omega), afterBranch]

theorem afterBranch_extends :
    Extends b (afterBranch prefixLen stride segments branch length b)
      ((branch + segments) * stride) where
  positions _ _ h := getElem?_append_of_some h
  destinations _ _ h := getElem?_append_of_some h
  offsets _ _ h := getElem?_append_of_some h
  used _ _ h := getElem?_append_of_some h
  pages i hi := by
    simp only [afterBranch]
    rw [getElem?_overwrite_outside (.inl (by omega)), getElem?_overwrite_outside (.inl hi)]

section
variable (h : Built prefixLen prefixRows stride segments lengths k b)
include h

theorem afterBranch_placed {length : Nat} (hlength : lengths[k]? = some length)
    (hpages : (k + segments + 1) * stride ≤ b.pages.length)
    (hstride : prefixLen / 64 + pageCount prefixLen length ≤ stride) :
    BranchPlaced prefixLen prefixRows stride segments lengths
      (afterBranch prefixLen stride segments k length b) k length where
  first := getElem?_append_of_some h.offset
  last := by
    simp only [afterBranch]
    rw [getElem?_append_right (by rw [h.offsets_length]), h.offsets_length,
      h.positions_length, firstRow_succ hlength]
    simp
  used := by
    simp only [afterBranch]
    rw [getElem?_append_right (by rw [h.used_length]), h.used_length]
    simp
  position r hr := by
    simp only [afterBranch]
    rw [getElem?_append_right (by rw [h.positions_length]; omega), h.positions_length,
      Nat.add_sub_cancel_left, getElem?_range_map hr]
  destination r hr := by
    simp only [afterBranch]
    rw [getElem?_append_right (by rw [h.destinations_length]; omega), h.destinations_length,
      Nat.add_sub_cancel_left, getElem?_range_map hr, h.nextPage]
  shared q hq := by
    rw [Nat.succ_mul] at hpages
    simp only [afterBranch]
    rw [getElem?_overwrite_outside (.inl (by omega))]
    exact getElem?_overwrite_inside (getElem?_range hq) (by omega)
  own q hq := by
    rw [Nat.succ_mul] at hpages
    rw [← Nat.add_assoc, ← h.nextPage]
    exact getElem?_overwrite_inside (getElem?_range_map hq) (by rw [length_overwrite]; omega)

theorem afterBranch_built {length : Nat} (hlength : lengths[k]? = some length)
    (hpages : (k + segments + 1) * stride ≤ b.pages.length)
    (hstride : ∀ branch length : Nat, lengths[branch]? = some length →
      prefixLen / 64 + pageCount prefixLen length ≤ stride)
    (hlead : segments = 1 → divCeil prefixLen 64 ≤ stride) :
    Built prefixLen prefixRows stride segments lengths (k + 1)
      (afterBranch prefixLen stride segments k length b) where
  nextPage := by
    rw [branchPage_succ hlength, ← h.nextPage]
    rfl
  pages_length := by simpa [afterBranch] using h.pages_length
  positions_length := by
    rw [firstRow_succ hlength, ← h.positions_length]
    simp [afterBranch]
  destinations_length := by
    rw [firstRow_succ hlength, ← h.destinations_length]
    simp [afterBranch]
  used_length := by
    have hused := h.used_length
    simp only [afterBranch, length_append, length_singleton]
    omega
  offsets_length := by
    have hoffsets := h.offsets_length
    simp only [afterBranch, length_append, length_singleton]
    omega
  offset := by
    rw [Nat.add_right_comm]
    exact (afterBranch_placed h hlength hpages (hstride k length hlength)).last
  placed branch other hbranch hother := by
    rcases Nat.eq_or_lt_of_le (Nat.lt_succ_iff.mp hbranch) with rfl | hearlier
    · have heq : length = other := Option.some.inj (hlength.symm.trans hother)
      subst heq
      exact afterBranch_placed h hlength hpages (hstride branch length hlength)
    · have hbound : (branch + segments + 1) * stride ≤ (k + segments) * stride :=
        Nat.mul_le_mul_right stride (by omega)
      exact (h.placed branch other hearlier hother).extend afterBranch_extends hbound
        (hstride branch other hother)
  prefixPlaced hone := by
    have hbound : divCeil prefixLen 64 ≤ (k + segments) * stride := by
      have hscale : 1 * stride ≤ (k + segments) * stride := Nat.mul_le_mul_right stride (by omega)
      omega
    exact (h.prefixPlaced hone).extend afterBranch_extends hbound

/-- The loop over the branches ends with all of them placed. -/
theorem addBranches_built (hpos : 0 ∉ lengths)
    (hstride : ∀ branch length : Nat, lengths[branch]? = some length →
      prefixLen / 64 + pageCount prefixLen length ≤ stride)
    (hlead : segments = 1 → divCeil prefixLen 64 ≤ stride)
    (hrows : prefixRows + lengths.sum < 2 ^ 32)
    (hpages : branchPage prefixLen lengths lengths.length * 64 < 2 ^ 32) (hk : k ≤ lengths.length) :
    ∃ b', addBranches prefixLen stride segments k (lengths.drop k) b = some b' ∧
      Built prefixLen prefixRows stride segments lengths lengths.length b' := by
  obtain ⟨n, hn⟩ : ∃ n, lengths.length - k = n := ⟨_, rfl⟩
  induction n generalizing k b with
  | zero =>
    have hend : k = lengths.length := by omega
    subst hend
    refine ⟨b, ?_, h⟩
    rw [drop_length]
    rfl
  | succ n ih =>
    have hlt : k < lengths.length := by omega
    have hlength : lengths[k]? = some lengths[k] := getElem?_eq_getElem hlt
    have hnonzero : 1 ≤ lengths[k] := by
      have hmem : lengths[k] ∈ lengths := getElem_mem hlt
      rcases Nat.eq_zero_or_pos lengths[k] with hzero | hone
      · exact absurd (hzero ▸ hmem) hpos
      · exact hone
    have hsegment : (k + segments + 1) * stride ≤ b.pages.length := by
      rw [h.pages_length, Nat.mul_comm]
      exact Nat.mul_le_mul_left stride (by omega)
    have hnext : branchPage prefixLen lengths (k + 1) =
        branchPage prefixLen lengths k + pageCount prefixLen lengths[k] := branchPage_succ hlength
    have hlast : branchPage prefixLen lengths (k + 1) ≤
        branchPage prefixLen lengths lengths.length := branchPage_mono (by omega)
    have hrow : firstRow prefixRows lengths (k + 1) =
        firstRow prefixRows lengths k + lengths[k] := firstRow_succ hlength
    have hrowLe : firstRow prefixRows lengths (k + 1) ≤ prefixRows + lengths.sum := by
      have hsplit : (lengths.take (k + 1)).sum + (lengths.drop (k + 1)).sum = lengths.sum := by
        rw [← sum_append, take_append_drop]
      rw [firstRow]
      omega
    have hfirst : divCeil prefixLen 64 ≤ b.nextPage := by
      rw [h.nextPage]
      exact Nat.le_add_right _ _
    have hprefixLen := (@prefixPages_bounds prefixLen).1
    have hstep : addBranch prefixLen stride segments k lengths[k] b =
        some (afterBranch prefixLen stride segments k lengths[k] b) := by
      refine addBranch_eq hnonzero hsegment (hstride k _ hlength) (by omega) ?_ ?_
      · rw [h.nextPage]
        omega
      · rw [h.positions_length]
        omega
    rw [drop_eq_getElem_cons hlt, addBranches, hstep]
    exact ih (afterBranch_built h hlength hsegment hstride hlead) (by omega) (by omega)

end

end

/-! ## The plan -/

section
variable {prefixLen prefixRows stride : Nat} {lengths : List Nat} {supported includePrefix : Bool}
  {fromHost : Nat → Except CudaError Unit} {p : DoryBranchPlan}

/-- The segments of a wave: the first position and the number of rows of each. -/
def segmentsOf (prefixLen : Nat) (lengths : List Nat) (includePrefix : Bool) : List (Nat × Nat) :=
  (if includePrefix ∧ 0 < prefixLen then [(0, prefixLen)] else []) ++
    lengths.map fun length => (prefixLen, length)

/-- The index of the segment of the first branch. -/
def firstSegment (prefixLen : Nat) (includePrefix : Bool) : Nat :=
  if includePrefix ∧ 0 < prefixLen then 1 else 0

theorem startPlan_built (hlead : prefixLen < 2 ^ 32)
    (hstride : divCeil prefixLen 64 ≤ stride) (hrows : prefixRows = 0 ∨ prefixRows = prefixLen) :
    ∃ b, startPlan prefixLen prefixRows stride
        (lengths.length + if 0 < prefixRows then 1 else 0) = some b ∧
      Built prefixLen prefixRows stride (if 0 < prefixRows then 1 else 0) lengths 0 b := by
  unfold startPlan
  split
  · have heq : prefixRows = prefixLen := by omega
    have hfits : divCeil prefixLen 64 ≤
        (replicate (stride * (lengths.length + 1)) 0).length := by
      rw [length_replicate, Nat.mul_add, Nat.mul_one]
      omega
    have hpages : (range (divCeil prefixLen 64)).map asU32 =
        range (divCeil prefixLen 64) := by
      have hsmall : ∀ i < divCeil prefixLen 64, i < 2 ^ 32 := fun i hi => by
        simp only [divCeil] at hi
        omega
      rw [range_map_asU32 hsmall, map_id']
    rw [if_pos hfits, hpages, asU32_of_lt hlead]
    refine ⟨_, rfl, ?_⟩
    refine ⟨by simp [branchPage], by simp, by simp [firstRow, heq], by simp [firstRow, heq], rfl, rfl,
      by simp [firstRow, heq], fun branch length hbranch => by omega, fun _ => ?_⟩
    refine ⟨rfl, rfl, rfl, ?_, ?_, ?_⟩
    · exact fun r hr => getElem?_range hr
    · exact fun r hr => getElem?_range hr
    · intro q hq
      have hinside : (overwrite (replicate (stride * (lengths.length + 1)) 0) 0
          (range (divCeil prefixLen 64)))[0 + q]? = some q :=
        getElem?_overwrite_inside (getElem?_range hq) (by omega)
      simpa using hinside
  · have heq : prefixRows = 0 := by omega
    refine ⟨_, rfl, ?_⟩
    refine ⟨by simp [branchPage], by simp, by simp [firstRow, heq], by simp [firstRow, heq], rfl, rfl,
      by simp [firstRow, heq], fun branch length hbranch => by omega, fun hone => by omega⟩

/-- The rows of a wave stand where the page tables of their segments say. -/
structure Placed (p : DoryBranchPlan) (prefixLen : Nat) (lengths : List Nat)
    (includePrefix : Bool) : Prop where
  /-- Each row of a segment has its absolute position, and is written where the page
  table of the segment puts that position, at an index inside the table. -/
  rows : ∀ segment start length : Nat,
    (segmentsOf prefixLen lengths includePrefix)[segment]? = some (start, length) →
      ∃ first : Nat, p.offsets[segment]? = some first ∧
        p.offsets[segment + 1]? = some (first + length) ∧ first + length ≤ p.rows ∧
        p.lengths[segment]? = some (start + length) ∧
        ∀ r < length, p.positions[first + r]? = some (start + r) ∧
          (start + r) / 64 < p.stride ∧
          segment * p.stride + (start + r) / 64 < p.pages.length ∧
          p.destinations[first + r]? = some (p.address segment (start + r)) ∧
          p.address segment (start + r) < p.capacity
  /-- Rows of different branches are on different pages. -/
  apart : ∀ i j a b : Nat, i ≠ j → lengths[i]? = some a → lengths[j]? = some b →
    ∀ r < a, ∀ r' < b,
      p.address (i + firstSegment prefixLen includePrefix) (prefixLen + r) / 64 ≠
        p.address (j + firstSegment prefixLen includePrefix) (prefixLen + r') / 64
  /-- No branch writes into a page of the prefix, not even its partial page. -/
  behind : ∀ i a : Nat, lengths[i]? = some a → ∀ r < a,
    divCeil prefixLen 64 ≤
      p.address (i + firstSegment prefixLen includePrefix) (prefixLen + r) / 64
  /-- The full pages of the prefix are read in place. -/
  shared : ∀ i a : Nat, lengths[i]? = some a → ∀ q < prefixLen / 64 * 64,
    p.address (i + firstSegment prefixLen includePrefix) q = q
  /-- The copy of the partial page is the first page of the branch's own. -/
  tail : ∀ i a : Nat, lengths[i]? = some a → ∀ q, prefixLen / 64 * 64 ≤ q → q < prefixLen →
    p.address (i + firstSegment prefixLen includePrefix) q =
      p.pages.getD ((i + firstSegment prefixLen includePrefix) * p.stride + prefixLen / 64) 0 * 64 +
        (q - prefixLen / 64 * 64)
  /-- The room that the wave takes. -/
  room : p.capacity ≤ prefixLen + lengths.sum + 126 * lengths.length + 1

theorem getD_of_some {xs : List Nat} {i value : Nat} (h : xs[i]? = some value) :
    xs.getD i 0 = value := by
  rw [getD_eq_getElem?_getD, h]
  rfl

section
variable {segments branch length : Nat} {b : PlanBuild}

theorem address_own (hpages : p.pages = b.pages) (hstride : p.stride = stride)
    (h : BranchPlaced prefixLen prefixRows stride segments lengths b branch length) {r : Nat}
    (hr : r < length) :
    p.address (branch + segments) (prefixLen + r) =
      branchPage prefixLen lengths branch * 64 + prefixLen % 64 + r := by
  have hpage := getD_of_some (h.own _ (page_of_row hr))
  have hposition := @position_page prefixLen r
  rw [DoryBranchPlan.address, hpages, hstride, hposition.1, hpage]
  omega

theorem address_shared (hpages : p.pages = b.pages) (hstride : p.stride = stride)
    (h : BranchPlaced prefixLen prefixRows stride segments lengths b branch length) {q : Nat}
    (hq : q < prefixLen / 64 * 64) : p.address (branch + segments) q = q := by
  have hpage := getD_of_some (h.shared (q / 64) (by omega))
  rw [DoryBranchPlan.address, hpages, hstride, hpage]
  omega

theorem address_prefixRow (hpages : p.pages = b.pages) (h : PrefixPlaced prefixLen b) {q : Nat}
    (hq : q < prefixLen) : p.address 0 q = q := by
  have hpage := getD_of_some (h.page (q / 64) (by simp only [divCeil]; omega))
  rw [DoryBranchPlan.address, hpages, Nat.zero_mul, Nat.zero_add, hpage]
  omega

end

theorem firstSegment_eq {includePrefix : Bool} :
    (if 0 < (if includePrefix then prefixLen else 0) then 1 else 0) =
      firstSegment prefixLen includePrefix := by
  cases includePrefix <;> simp [firstSegment]

theorem segmentsOf_cases {segment start length : Nat}
    (h : (segmentsOf prefixLen lengths includePrefix)[segment]? = some (start, length)) :
    (firstSegment prefixLen includePrefix = 1 ∧ segment = 0 ∧ start = 0 ∧ length = prefixLen) ∨
      ∃ branch, segment = branch + firstSegment prefixLen includePrefix ∧ start = prefixLen ∧
        lengths[branch]? = some length := by
  unfold segmentsOf firstSegment at *
  split at h
  · rename_i hlead
    rw [if_pos hlead]
    cases segment with
    | zero =>
      simp only [cons_append, getElem?_cons_zero, Option.some.injEq, Prod.mk.injEq] at h
      exact .inl ⟨rfl, rfl, h.1.symm, h.2.symm⟩
    | succ branch =>
      simp only [cons_append, nil_append, getElem?_cons_succ, getElem?_map,
        Option.map_eq_some_iff, Prod.mk.injEq] at h
      obtain ⟨other, hother, rfl, rfl⟩ := h
      exact .inr ⟨branch, rfl, rfl, hother⟩
  · rename_i hlead
    rw [if_neg hlead]
    simp only [nil_append, getElem?_map, Option.map_eq_some_iff, Prod.mk.injEq] at h
    obtain ⟨other, hother, rfl, rfl⟩ := h
    exact .inr ⟨segment, rfl, rfl, hother⟩

/-- The pages of a branch end where those of the next begin. -/
theorem own_lt {i a r : Nat} (ha : lengths[i]? = some a) (hr : r < a) :
    branchPage prefixLen lengths i * 64 + prefixLen % 64 + r <
      branchPage prefixLen lengths (i + 1) * 64 := by
  have hcount := (@pageCount_bounds prefixLen a).1
  rw [branchPage_succ ha]
  omega

theorem own_apart {i j a r r' : Nat} (hij : i < j) (ha : lengths[i]? = some a) (hr : r < a) :
    (branchPage prefixLen lengths i * 64 + prefixLen % 64 + r) / 64 <
      (branchPage prefixLen lengths j * 64 + prefixLen % 64 + r') / 64 := by
  have hlt := @own_lt prefixLen lengths i a r ha hr
  have hmono : branchPage prefixLen lengths (i + 1) ≤ branchPage prefixLen lengths j :=
    branchPage_mono hij
  omega

section
variable {b : PlanBuild}

/-- A plan made from placed branches. -/
structure MadeFrom (b : PlanBuild) (prefixRows stride : Nat) (lengths : List Nat)
    (p : DoryBranchPlan) : Prop where
  rows : p.rows = prefixRows + lengths.sum
  capacity : p.capacity = b.nextPage * 64
  stride : p.stride = stride
  positions : p.positions = b.positions
  destinations : p.destinations = b.destinations
  offsets : p.offsets = b.offsets
  lengths : p.lengths = b.used
  pages : p.pages = b.pages

theorem placed_of_built
    (hb : Built prefixLen prefixRows stride (firstSegment prefixLen includePrefix) lengths
      lengths.length b) (hp : MadeFrom b prefixRows stride lengths p) (hne : lengths ≠ [])
    (hprefixRows : firstSegment prefixLen includePrefix = 1 → prefixRows = prefixLen)
    (hstride : ∀ branch length : Nat, lengths[branch]? = some length →
      prefixLen / 64 + pageCount prefixLen length ≤ stride)
    (hlead : divCeil prefixLen 64 ≤ stride) : Placed p prefixLen lengths includePrefix where
  rows segment start length hsegment := by
    have hend : ∀ i a : Nat, lengths[i]? = some a → i + 1 ≤ lengths.length := fun i a ha =>
      (List.getElem?_eq_some_iff.mp ha).1
    have hcapacity : p.capacity = branchPage prefixLen lengths lengths.length * 64 := by
      rw [hp.capacity, hb.nextPage]
    have hpages : p.pages.length = stride * (lengths.length + firstSegment prefixLen includePrefix) := by
      rw [hp.pages, hb.pages_length]
    rcases segmentsOf_cases hsegment with ⟨hone, rfl, rfl, rfl⟩ | ⟨branch, rfl, rfl, hlength⟩
    · have hplaced := hb.prefixPlaced hone
      have hcover := (@prefixPages_bounds length).1
      have hlast : divCeil length 64 ≤ branchPage length lengths lengths.length :=
        Nat.le_add_right _ _
      have hfits : stride * 1 ≤ stride * (lengths.length + firstSegment length includePrefix) :=
        Nat.mul_le_mul_left stride (by omega)
      refine ⟨0, ?_, ?_, ?_, ?_, ?_⟩
      · rw [hp.offsets]
        exact hplaced.first
      · rw [hp.offsets]
        simpa using hplaced.last
      · rw [hp.rows]
        omega
      · rw [hp.lengths, Nat.zero_add]
        exact hplaced.used
      · intro r hr
        simp only [Nat.zero_add, Nat.zero_mul]
        rw [address_prefixRow hp.pages hplaced hr, hp.positions, hp.destinations, hp.stride]
        exact ⟨hplaced.position r hr, by omega, by omega, hplaced.destination r hr, by omega⟩
    · have hlt := hend branch length hlength
      have hplaced := hb.placed branch length hlt hlength
      have hfits := hstride branch length hlength
      have hrowNext : firstRow prefixRows lengths (branch + 1) =
          firstRow prefixRows lengths branch + length := firstRow_succ hlength
      have hrowLe : firstRow prefixRows lengths (branch + 1) ≤ prefixRows + lengths.sum := by
        have hsplit : (lengths.take (branch + 1)).sum + (lengths.drop (branch + 1)).sum =
            lengths.sum := by
          rw [← sum_append, take_append_drop]
        rw [firstRow]
        omega
      have htable : (branch + firstSegment start includePrefix + 1) * stride ≤
          stride * (lengths.length + firstSegment start includePrefix) := by
        rw [Nat.mul_comm]
        exact Nat.mul_le_mul_left stride (by omega)
      rw [Nat.succ_mul] at htable
      have hnextPage : branchPage start lengths (branch + 1) ≤
          branchPage start lengths lengths.length := branchPage_mono hlt
      refine ⟨firstRow prefixRows lengths branch, ?_, ?_, ?_, ?_, ?_⟩
      · rw [hp.offsets]
        exact hplaced.first
      · rw [hp.offsets, ← hrowNext]
        exact hplaced.last
      · rw [hp.rows]
        omega
      · rw [hp.lengths]
        exact hplaced.used
      · intro r hr
        have hpage := @page_of_row start length r hr
        have hown := @own_lt start lengths branch length r hlength hr
        rw [address_own hp.pages hp.stride hplaced hr, hp.positions, hp.destinations, hp.stride]
        exact ⟨hplaced.position r hr, by omega, by omega, hplaced.destination r hr, by omega⟩
  apart i j a a' hij ha ha' r hr r' hr' := by
    have hi := hb.placed i a (List.getElem?_eq_some_iff.mp ha).1 ha
    have hj := hb.placed j a' (List.getElem?_eq_some_iff.mp ha').1 ha'
    rw [address_own hp.pages hp.stride hi hr, address_own hp.pages hp.stride hj hr']
    rcases Nat.lt_or_gt_of_ne hij with hlt | hgt
    · exact Nat.ne_of_lt (own_apart hlt ha hr)
    · exact Nat.ne_of_gt (own_apart hgt ha' hr')
  behind i a ha r hr := by
    have hi := hb.placed i a (List.getElem?_eq_some_iff.mp ha).1 ha
    have hfirst : divCeil prefixLen 64 ≤ branchPage prefixLen lengths i := Nat.le_add_right _ _
    rw [address_own hp.pages hp.stride hi hr]
    omega
  shared i a ha q hq :=
    address_shared hp.pages hp.stride
      (hb.placed i a (List.getElem?_eq_some_iff.mp ha).1 ha) hq
  tail i a ha q hq hq' := by
    have hpage : q / 64 = prefixLen / 64 := by omega
    rw [DoryBranchPlan.address, hpage]
    omega
  room := by
    rw [hp.capacity, hb.nextPage]
    exact branchPage_room hne

/-- The plan that the constructor makes of a wave, if it accepts it. -/
theorem new_placed (hsmall : prefixLen ≤ 1048576)
    (hrows : (if includePrefix then prefixLen else 0) + lengths.sum ≤ 65535) (hne : lengths ≠ [])
    (hcount : lengths.length ≤ 64) (hpos : 0 ∉ lengths) :
    ∃ b, (startPlan prefixLen (if includePrefix then prefixLen else 0)
          (divCeil (prefixLen + lengths.foldl max 0) 64)
          (lengths.length + if 0 < (if includePrefix then prefixLen else 0) then 1 else 0)).bind
        (addBranches prefixLen (divCeil (prefixLen + lengths.foldl max 0) 64)
          (if 0 < (if includePrefix then prefixLen else 0) then 1 else 0) 0 lengths) = some b ∧
      ∀ p, MadeFrom b (if includePrefix then prefixLen else 0)
          (divCeil (prefixLen + lengths.foldl max 0) 64) lengths p →
        Placed p prefixLen lengths includePrefix := by
  have hmax := Search.le_foldl_max lengths 0
  have hstride : ∀ branch length : Nat, lengths[branch]? = some length →
      prefixLen / 64 + pageCount prefixLen length ≤
        divCeil (prefixLen + lengths.foldl max 0) 64 := by
    intro branch length hlength
    have hle := hmax.2.1 length (mem_of_getElem? hlength)
    simp only [pageCount, divCeil]
    omega
  have hlead : divCeil prefixLen 64 ≤ divCeil (prefixLen + lengths.foldl max 0) 64 := by
    simp only [divCeil]
    omega
  have hrowsOr : (if includePrefix then prefixLen else 0) = 0 ∨
      (if includePrefix then prefixLen else 0) = prefixLen := by
    cases includePrefix <;> simp
  have hroom := @branchPage_room prefixLen lengths hne
  obtain ⟨start, hstart, hbuilt⟩ := @startPlan_built prefixLen _ _ lengths
    (show prefixLen < 2 ^ 32 by omega) hlead hrowsOr
  obtain ⟨b, hbranches, hdone⟩ := addBranches_built hbuilt hpos hstride (fun _ => hlead)
    (by omega) (by omega) (Nat.zero_le _)
  refine ⟨b, ?_, ?_⟩
  · rw [hstart, Option.bind_some]
    exact hbranches
  · intro p hp
    rw [firstSegment_eq] at hdone
    refine placed_of_built hdone hp hne ?_ hstride hlead
    intro hone
    unfold firstSegment at hone
    split at hone
    · rename_i h
      rw [if_pos h.1]
    · omega

/-- No index leaves its table, and every plan places its rows. -/
theorem plan_pages :
    DoryBranchPlan.new supported fromHost prefixLen lengths includePrefix ≠ none ∧
      ∀ p, DoryBranchPlan.new supported fromHost prefixLen lengths includePrefix = some (.ok p) →
        Placed p prefixLen lengths includePrefix := by
  rw [DoryBranchPlan.new]
  by_cases hover : 2 ^ 64 ≤ (if includePrefix then prefixLen else 0) + lengths.sum
  · simp only [if_pos hover]
    exact ⟨nofun, nofun⟩
  · by_cases hinvalid : !supported ∨ 1048576 < prefixLen ∨
        (if includePrefix then prefixLen else 0) + lengths.sum = 0 ∨
        65535 < (if includePrefix then prefixLen else 0) + lengths.sum ∨ lengths = [] ∨
        64 < lengths.length ∨ 0 ∈ lengths
    · simp only [if_neg hover, if_pos hinvalid]
      exact ⟨nofun, nofun⟩
    · have hvalid := hinvalid
      simp only [not_or, Nat.not_lt] at hvalid
      obtain ⟨-, hsmall, -, hrows, hne, hcount, hpos⟩ := hvalid
      obtain ⟨b, hb, hplaced⟩ := new_placed hsmall hrows hne hcount hpos
      obtain ⟨start, hstart, hbranches⟩ := Option.bind_eq_some_iff.mp hb
      simp only [if_neg hover, if_neg hinvalid, hstart, hbranches, Option.bind_eq_bind,
        Option.bind_some]
      refine ⟨nofun, ?_⟩
      intro p hp
      simp only [Option.some.injEq, bind, Except.bind, pure, Except.pure] at hp
      split at hp
      · cases hp
      · cases hp
        exact hplaced _ ⟨rfl, rfl, rfl, rfl, rfl, rfl, rfl, rfl⟩

end

end

end Eider.Guarantees.DoryPages
