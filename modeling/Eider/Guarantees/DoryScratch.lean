import Mathlib.Order.Lattice
import Mathlib.Tactic.Ring
import Eider.Source.Dory.Workspace

/-!
# The attention scratch of Dory

`reserve_attention` makes the scratch large enough for its own capacity and for at most
15 rows. A build with flash attention asks for 2057 values a head, and two more, when a
single row is processed, and neither evaluation covers that. `scratch_covers_iff`: the
scratch covers every chunk exactly if the build has no flash attention, the workspace
takes one row only, or the rows, at most 15 of them, times the splits of the largest
context reserved so far are eight or more.

The kernel itself is not modelled, only the sizes that `dory_attention` checks.
-/
namespace Eider.Guarantees.DoryScratch
open Source Source.Dory

variable {n : Nat} {w : DoryPrefillWorkspace} {largest : Nat}

/-! ## Saturating products -/

theorem saturatingMul_mono {a b a' b' : Nat} (ha : a ≤ a') (hb : b ≤ b') :
    saturatingMul a b ≤ saturatingMul a' b' :=
  min_le_min_right _ (Nat.mul_le_mul ha hb)

/-- An earlier saturation does not show in the product. -/
theorem saturatingMul_saturatingMul (a b c : Nat) :
    saturatingMul (saturatingMul a b) c = saturatingMul (a * b) c := by
  simp only [saturatingMul]
  rcases Nat.eq_zero_or_pos c with rfl | hc
  · simp
  · rcases Nat.le_total (a * b) usizeMax with hle | hle
    · rw [min_eq_left hle]
    · have hfull : usizeMax ≤ usizeMax * c := Nat.le_mul_of_pos_right _ hc
      have hmore : usizeMax * c ≤ a * b * c := Nat.mul_le_mul_right c hle
      rw [min_eq_right hle, min_eq_right hfull, min_eq_right (hfull.trans hmore)]

/-! ## The length of the scratch -/

/-- The scratch of the fallback kernel. -/
def fallbackLen (rows qheads splits : Nat) : Nat := min (rows * qheads * splits * 258) usizeMax

theorem fallback_eq (rows qheads splits : Nat) :
    saturatingMul (saturatingMul (saturatingMul rows qheads) splits) 258 =
      fallbackLen rows qheads splits := by
  rw [saturatingMul_saturatingMul rows, saturatingMul_saturatingMul (rows * qheads)]
  rfl

theorem fallbackLen_mono {r r' q s s' : Nat} (hr : r ≤ r') (hs : s ≤ s') :
    fallbackLen r q s ≤ fallbackLen r' q s' :=
  min_le_min_right _ (Nat.mul_le_mul_right _ (Nat.mul_le_mul (Nat.mul_le_mul_right _ hr) hs))

theorem divCeil_mono {a b : Nat} (h : a ≤ b) : divCeil a 256 ≤ divCeil b 256 :=
  Nat.div_le_div_right (by omega)

theorem attentionSplits_full (context : Nat) : attentionSplits context 0 = divCeil context 256 := by
  simp [attentionSplits]

/-- A window or a shorter history needs no more splits. -/
theorem attentionSplits_le {context : Nat} (window : Nat) (h : n ≤ context) :
    attentionSplits n window ≤ divCeil context 256 :=
  divCeil_mono ((min_le_left _ _).trans h)

variable {flash : Bool} {c : DoryConfig} {q rows context : Nat}

theorem workspaceLen_plain (n window : Nat) :
    doryAttentionWorkspaceLen false rows q n window =
      fallbackLen rows q (attentionSplits n window) := by
  simp [doryAttentionWorkspaceLen, fallback_eq]

theorem workspaceLen_single (hq : q ≤ 64) (n window : Nat) :
    doryAttentionWorkspaceLen true 1 q n window = 2057 * q + 2 := by
  simp only [doryAttentionWorkspaceLen, hq, decide_true, Bool.and_self, beq_self_eq_true, if_true]
  omega

theorem workspaceLen_few (h : 2 ≤ rows) (h' : rows ≤ 15) (n window : Nat) :
    doryAttentionWorkspaceLen true rows q n window =
      fallbackLen rows q (attentionSplits n window) := by
  have hone : (rows == 1) = false := by simp; omega
  have hmany : decide (16 ≤ rows) = false := by simp; omega
  simp [doryAttentionWorkspaceLen, hone, hmany, fallback_eq]

theorem workspaceLen_many (h : 16 ≤ rows) (n window : Nat) :
    doryAttentionWorkspaceLen true rows q n window =
      saturatingAdd (saturatingMul rows q) 1 := by
  have hone : (rows == 1) = false := by simp; omega
  simp [doryAttentionWorkspaceLen, hone, h]

theorem workspaceLen_mono {n' : Nat} (h : n ≤ n') (window : Nat) :
    doryAttentionWorkspaceLen flash rows q n window ≤
      doryAttentionWorkspaceLen flash rows q n' 0 := by
  have hsplits : attentionSplits n window ≤ attentionSplits n' 0 := by
    rw [attentionSplits_full]
    exact attentionSplits_le window h
  unfold doryAttentionWorkspaceLen
  split
  · exact le_refl _
  · split
    · exact le_refl _
    · exact saturatingMul_mono (saturatingMul_mono (le_refl _) hsplits) (le_refl _)

theorem attentionWorkspaceLen_mono :
    Monotone (DoryPrefillWorkspace.attentionWorkspaceLen flash c rows) := fun _ _ h =>
  max_le_max (workspaceLen_mono h 0) (workspaceLen_mono h 0)

/-! ## Reservations -/

/-- One call of `reserve_attention`, with what the allocation returns and the identity
that the workspace gets if it grows. -/
structure Reservation where
  context : Nat
  alloc : Nat → Except CudaError Unit
  identity : Nat

/-- A call. -/
def reserve (flash : Bool) (c : DoryConfig) (w : DoryPrefillWorkspace) (r : Reservation) :
    Except CudaError Unit × DoryPrefillWorkspace :=
  w.reserveAttention flash r.alloc r.identity c r.context

/-- The workspace behind a sequence of calls, successful or not. -/
def reserveAll (flash : Bool) (c : DoryConfig) (w : DoryPrefillWorkspace) :
    List Reservation → DoryPrefillWorkspace
  | [] => w
  | r :: rest => reserveAll flash c (reserve flash c w r).2 rest

/-- The largest context among `largest` and those reserved successfully. -/
def largestContext (flash : Bool) (c : DoryConfig) (w : DoryPrefillWorkspace) (largest : Nat) :
    List Reservation → Nat
  | [] => largest
  | r :: rest =>
    let (result, w') := reserve flash c w r
    let largest := if result.isOk then max largest r.context else largest
    largestContext flash c w' largest rest

/-- The scratch is as long as the capacity asks for at the context. -/
def Fitted (flash : Bool) (c : DoryConfig) (rows context : Nat) (w : DoryPrefillWorkspace) : Prop :=
  w.capacity = rows ∧ w.scratch = DoryPrefillWorkspace.attentionWorkspaceLen flash c rows context

theorem reserve_fitted (r : Reservation) (h : Fitted flash c rows largest w) :
    Fitted flash c rows (if (reserve flash c w r).1.isOk then max largest r.context else largest)
      (reserve flash c w r).2 := by
  obtain ⟨hcapacity, hscratch⟩ := h
  have hmax : DoryPrefillWorkspace.attentionWorkspaceLen flash c rows (max largest r.context) =
      max (DoryPrefillWorkspace.attentionWorkspaceLen flash c rows largest)
        (DoryPrefillWorkspace.attentionWorkspaceLen flash c rows r.context) :=
    attentionWorkspaceLen_mono.map_max
  simp only [reserve, DoryPrefillWorkspace.reserveAttention, hcapacity, hscratch]
  split
  · rename_i hgrows
    split
    · simp [Fitted, Except.isOk, Except.toBool, hcapacity, hscratch]
    · refine ⟨rfl, ?_⟩
      simp only [Except.isOk, Except.toBool, if_true]
      rw [hmax, max_eq_right hgrows.le]
  · rename_i hfits
    refine ⟨hcapacity, ?_⟩
    simp only [Except.isOk, Except.toBool, if_true]
    rw [hmax, max_eq_left (Nat.le_of_not_lt hfits), hscratch]

theorem reserveAll_fitted (rs : List Reservation) (h : Fitted flash c rows largest w) :
    Fitted flash c rows (largestContext flash c w largest rs) (reserveAll flash c w rs) := by
  induction rs generalizing w largest with
  | nil => exact h
  | cons r rest ih => exact ih (reserve_fitted r h)

/-! ## Coverage -/

/-- No chunk that fits the workspace is rejected for its scratch, at any history up to
the context and any window. -/
def Covers (flash : Bool) (c : DoryConfig) (w : DoryPrefillWorkspace) (context : Nat) : Prop :=
  ∀ rows n window : Nat, 1 ≤ rows → rows ≤ w.capacity → rows ≤ n → n ≤ context →
    ¬ w.scratch < doryAttentionWorkspaceLen flash rows c.numAttentionHeads n window

theorem covers_of_le (h : ∀ r n window : Nat, 1 ≤ r → r ≤ w.capacity → r ≤ n → n ≤ context →
      doryAttentionWorkspaceLen flash r c.numAttentionHeads n window ≤ w.scratch) :
    Covers flash c w context := fun r n window hpos hcapacity hn hcontext =>
  Nat.not_lt.mpr (h r n window hpos hcapacity hn hcontext)

theorem covers_plain (h : Fitted false c rows largest w) (hlargest : context ≤ largest) :
    Covers false c w context := by
  obtain ⟨hcapacity, hscratch⟩ := h
  refine covers_of_le fun r n window _ hr _ hn => ?_
  rw [hscratch, workspaceLen_plain]
  calc
    fallbackLen r c.numAttentionHeads (attentionSplits n window) ≤
        fallbackLen rows c.numAttentionHeads (divCeil largest 256) :=
      fallbackLen_mono (hcapacity ▸ hr) (attentionSplits_le window (hn.trans hlargest))
    _ = doryAttentionWorkspaceLen false rows c.numAttentionHeads largest 0 := by
      rw [workspaceLen_plain, attentionSplits_full]
    _ ≤ _ := le_max_left _ _

/-- With flash attention, two rows or more are covered. -/
theorem several_rows_covered {r : Nat} (window : Nat) (hr : 2 ≤ r) (hrows : r ≤ rows)
    (hn : n ≤ largest) :
    doryAttentionWorkspaceLen true r c.numAttentionHeads n window ≤
      DoryPrefillWorkspace.attentionWorkspaceLen true c rows largest := by
  rcases Nat.lt_or_ge r 16 with hfew | hmany
  · rw [workspaceLen_few hr (by omega)]
    calc
      fallbackLen r c.numAttentionHeads (attentionSplits n window) ≤
          fallbackLen (min rows 15) c.numAttentionHeads (divCeil largest 256) :=
        fallbackLen_mono (by omega) (attentionSplits_le window hn)
      _ = doryAttentionWorkspaceLen true (min rows 15) c.numAttentionHeads largest 0 := by
        rw [workspaceLen_few (by omega) (by omega), attentionSplits_full]
      _ ≤ _ := le_max_right _ _
  · rw [workspaceLen_many hmany]
    calc
      saturatingAdd (saturatingMul r c.numAttentionHeads) 1 ≤
          saturatingAdd (saturatingMul rows c.numAttentionHeads) 1 :=
        min_le_min_right _ (Nat.add_le_add_right (saturatingMul_mono hrows (le_refl _)) 1)
      _ = doryAttentionWorkspaceLen true rows c.numAttentionHeads largest 0 := by
        rw [workspaceLen_many (by omega)]
      _ ≤ _ := le_max_left _ _

/-- With flash attention, a single row is covered exactly if the workspace takes no
more or the fallback's scratch is eight rows or splits long. -/
theorem single_row_covered_iff (hq : 1 ≤ q) (hq' : q ≤ 32) (hc : c.numAttentionHeads = q)
    (hrows : 1 ≤ rows) (hlargest : 1 ≤ largest) :
    2057 * q + 2 ≤ DoryPrefillWorkspace.attentionWorkspaceLen true c rows largest ↔
      rows = 1 ∨ 8 ≤ min rows 15 * divCeil largest 256 := by
  have hsplits : 1 ≤ divCeil largest 256 := by
    unfold divCeil
    omega
  rcases Nat.eq_or_lt_of_le hrows with hone | htwo
  · subst hone
    simp [DoryPrefillWorkspace.attentionWorkspaceLen, hc, workspaceLen_single (show q ≤ 64 by omega)]
  · have hfew : doryAttentionWorkspaceLen true (min rows 15) c.numAttentionHeads largest 0 =
        fallbackLen (min rows 15) q (divCeil largest 256) := by
      rw [workspaceLen_few (by omega) (by omega), hc, attentionSplits_full]
    constructor
    · intro hcovered
      refine .inr (Nat.le_of_not_lt fun hsmall => ?_)
      have hseven : min rows 15 ≤ 7 := by
        have := Nat.mul_le_mul_left (min rows 15) hsplits
        omega
      have hcap : rows = min rows 15 := by omega
      have hlen : DoryPrefillWorkspace.attentionWorkspaceLen true c rows largest =
          fallbackLen (min rows 15) q (divCeil largest 256) := by
        rw [DoryPrefillWorkspace.attentionWorkspaceLen, hfew, ← hfew, ← hcap, max_self]
      have hshort : min rows 15 * q * divCeil largest 256 * 258 ≤ 7 * 258 * q := by
        calc
          min rows 15 * q * divCeil largest 256 * 258 =
              min rows 15 * divCeil largest 256 * (258 * q) := by ring
          _ ≤ 7 * (258 * q) := Nat.mul_le_mul_right _ (by omega)
          _ = 7 * 258 * q := by ring
      rw [hlen, fallbackLen] at hcovered
      omega
    · rintro (hone | henough)
      · omega
      · refine le_trans ?_ (le_max_right _ _)
        rw [hfew, fallbackLen]
        refine le_min ?_ (by unfold usizeMax; omega)
        calc
          2057 * q + 2 ≤ 8 * (258 * q) := by omega
          _ ≤ min rows 15 * divCeil largest 256 * (258 * q) := Nat.mul_le_mul_right _ henough
          _ = min rows 15 * q * divCeil largest 256 * 258 := by ring

/-- The capacity and the context reserve enough for a single row. -/
def SingleRowFits (flash : Bool) (rows largest : Nat) : Prop :=
  flash = false ∨ rows = 1 ∨ 8 ≤ min rows 15 * divCeil largest 256

instance (flash : Bool) (rows largest : Nat) : Decidable (SingleRowFits flash rows largest) :=
  inferInstanceAs (Decidable (_ ∨ _ ∨ _))

theorem covers_iff (hc : c.validWidths = true) (hrows : 1 ≤ rows)
    (h : Fitted flash c rows largest w) (hlargest : context ≤ largest) :
    Covers flash c w context ↔ context = 0 ∨ SingleRowFits flash rows largest := by
  cases flash with
  | false =>
    have hcovers := covers_plain h hlargest
    simp [SingleRowFits, hcovers]
  | true =>
    obtain ⟨hcapacity, hscratch⟩ := h
    simp only [DoryConfig.validWidths, Bool.and_eq_true, decide_eq_true_eq, bne_iff_ne] at hc
    have hq : 1 ≤ c.numAttentionHeads := by omega
    have hq' : c.numAttentionHeads ≤ 32 := by omega
    rcases Nat.eq_zero_or_pos context with rfl | hpos
    · have hcovers : Covers true c w 0 := fun r n window hr _ hn hn' => by omega
      simp [hcovers]
    · have hiff := single_row_covered_iff (c := c) hq hq' rfl hrows (le_trans hpos hlargest)
      have hne : context ≠ 0 := by omega
      simp only [SingleRowFits, hne, false_or, Bool.true_eq_false]
      rw [← hiff]
      constructor
      · intro hcovers
        have hone := hcovers 1 1 0 (le_refl 1) (by omega) (le_refl 1) hpos
        rw [workspaceLen_single (by omega), hscratch] at hone
        exact Nat.le_of_not_lt hone
      · intro hone
        refine covers_of_le fun r n window hr hr' _ hn => ?_
        rw [hscratch]
        rcases Nat.eq_or_lt_of_le hr with heq | htwo
        · rw [← heq, workspaceLen_single (by omega)]
          exact hone
        · exact several_rows_covered window htwo (by omega) (hn.trans hlargest)

theorem new_fitted {gemm : Except CudaError Unit} {alloc : Nat → Except CudaError Unit}
    {identity initial : Nat}
    (made : DoryPrefillWorkspace.new flash gemm alloc identity c rows initial = .ok w) :
    (1 ≤ rows ∧ rows ≤ 65535) ∧ Fitted flash c rows initial w := by
  simp only [DoryPrefillWorkspace.new, bind, Except.bind, pure, Except.pure] at made
  split at made
  · cases made
  · repeat' split at made
    all_goals cases made
    exact ⟨by omega, rfl, rfl⟩

/-- **Attention scratch.** Behind a successful reservation for `last.context`, after any
sequence of calls on a new workspace, no chunk is rejected for its scratch exactly if a
single row fits the scratch of the largest context reserved so far. -/
theorem scratch_covers_iff {gemm : Except CudaError Unit} {alloc : Nat → Except CudaError Unit}
    {identity initial : Nat} {w : DoryPrefillWorkspace} (hc : c.validWidths = true)
    (made : DoryPrefillWorkspace.new flash gemm alloc identity c rows initial = .ok w)
    (earlier : List Reservation) (last : Reservation)
    (reserved : (reserve flash c (reserveAll flash c w earlier) last).1 = .ok ()) :
    Covers flash c (reserve flash c (reserveAll flash c w earlier) last).2 last.context ↔
      last.context = 0 ∨ SingleRowFits flash rows
        (max (largestContext flash c w initial earlier) last.context) := by
  obtain ⟨⟨hrows, -⟩, hfitted⟩ := new_fitted made
  have hbehind := reserve_fitted last (reserveAll_fitted earlier hfitted)
  rw [reserved] at hbehind
  exact covers_iff hc hrows hbehind (le_max_right _ _)

/-- The widths of the smallest checkpoint. -/
def smallWidths : DoryConfig := ⟨64, 64, 256, 1, 1, 262144⟩

def allocates : Nat → Except CudaError Unit := fun _ => .ok ()

/-- A workspace of three rows, reserved for 700 tokens, covers every chunk. -/
theorem three_rows_long_context :
    ∃ w, DoryPrefillWorkspace.new true (.ok ()) allocates 1 smallWidths 3 256 = .ok w ∧
      Covers true smallWidths (reserve true smallWidths w ⟨700, allocates, 2⟩).2 700 := by
  have made : DoryPrefillWorkspace.new true (.ok ()) allocates 1 smallWidths 3 256 =
      .ok ⟨1, 3, 774⟩ := by decide +kernel
  have hcovers := scratch_covers_iff (by decide) made [] ⟨700, allocates, 2⟩ (by rfl)
  exact ⟨_, made, hcovers.mpr (.inr (by decide))⟩

/-- A workspace of three rows, reserved for four tokens, rejects the chunk of one row
behind a history of three. -/
theorem single_row_rejected :
    ∃ w, DoryPrefillWorkspace.new true (.ok ()) allocates 1 smallWidths 3 256 = .ok w ∧
      (reserve true smallWidths w ⟨4, allocates, 2⟩).1 = .ok () ∧
      (reserve true smallWidths w ⟨4, allocates, 2⟩).2.scratch = 774 ∧
      doryAttentionWorkspaceLen true 1 smallWidths.numAttentionHeads 4 0 = 2059 ∧
      ¬ Covers true smallWidths (reserve true smallWidths w ⟨4, allocates, 2⟩).2 4 := by
  have made : DoryPrefillWorkspace.new true (.ok ()) allocates 1 smallWidths 3 256 =
      .ok ⟨1, 3, 774⟩ := by decide +kernel
  refine ⟨_, made, by decide +kernel, by decide +kernel, by decide +kernel, ?_⟩
  intro hcovers
  exact hcovers 1 4 0 (by decide) (by decide) (by decide) (by decide) (by decide +kernel)

end Eider.Guarantees.DoryScratch
