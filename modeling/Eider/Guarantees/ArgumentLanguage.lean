import Mathlib.Data.List.Sigma
import Mathlib.Data.Nat.Bitwise
import Eider.Source.ArgumentGrammar
import Eider.Source.Batch

/-!
The argument lists that the Qwen tool grammar admits for a tool, among the rules of any
number of tools: the required parameters once each, then a selection of the optional ones
without repetition. Up to six of either stand in any order, more of them in the order of
the properties.
-/
namespace Eider.Guarantees.ArgumentLanguage
open Lib Source List

variable {production : Production} {w : List (Nat × Nat)} {parameters : List Nat} {seen : Nat}

/-! ## The rule of a name -/

/-- The alternatives of each name of a tool. -/
def alternativesOf (rules : ArgumentRules) : RuleName → List Alternative
  | .args tool => argsAlternatives tool rules
  | .required tool =>
    if rules.required.length > maxPermutedParameters then
      [rules.required.map fun parameter => .terminal (tool, parameter)]
    else [[.nonterminal (.requiredState tool 0)]]
  | .requiredState tool seen => requiredAlternatives tool rules.required seen
  | .optional tool => [[.nonterminal (.optionalState tool 0)]]
  | .optionalState tool seen =>
    if rules.optional.length > maxPermutedParameters then
      listedAlternatives tool rules.optional seen
    else optionalAlternatives tool rules.optional seen

/-- The tool of a name. -/
def toolOf : RuleName → Nat
  | .args tool | .required tool | .requiredState tool _ | .optional tool | .optionalState tool _ => tool

variable {rules : ArgumentRules}

theorem buildRequiredStates_spec {tool : Nat}
    (h : production ∈ buildRequiredStates tool rules.required) :
    toolOf production.name = tool ∧ production.alternatives = alternativesOf rules production.name := by
  unfold buildRequiredStates at h
  split at h
  · rename_i hmany
    rw [mem_singleton.mp h]
    exact ⟨rfl, (if_pos hmany).symm⟩
  · rename_i hfew
    obtain hstate | hstart := mem_append.mp h
    · obtain ⟨seen, -, rfl⟩ := mem_map.mp hstate
      exact ⟨rfl, rfl⟩
    · rw [mem_singleton.mp hstart]
      exact ⟨rfl, (if_neg hfew).symm⟩

theorem buildOptionalStates_spec {tool : Nat}
    (h : production ∈ buildOptionalStates tool rules.optional) :
    toolOf production.name = tool ∧ production.alternatives = alternativesOf rules production.name := by
  unfold buildOptionalStates at h
  split at h
  · rename_i hmany
    obtain hstate | hstart := mem_append.mp h
    · obtain ⟨position, -, rfl⟩ := mem_map.mp hstate
      exact ⟨rfl, (if_pos hmany).symm⟩
    · rw [mem_singleton.mp hstart]
      exact ⟨rfl, rfl⟩
  · rename_i hfew
    obtain hstate | hstart := mem_append.mp h
    · obtain ⟨seen, -, rfl⟩ := mem_map.mp hstate
      exact ⟨rfl, (if_neg hfew).symm⟩
    · rw [mem_singleton.mp hstart]
      exact ⟨rfl, rfl⟩

theorem argumentProductions_spec {tool : Nat} (h : production ∈ argumentProductions tool rules) :
    toolOf production.name = tool ∧ production.alternatives = alternativesOf rules production.name := by
  obtain hfront | hoptional := mem_append.mp h
  · obtain rfl | hrequired := mem_cons.mp hfront
    · exact ⟨rfl, rfl⟩
    · exact buildRequiredStates_spec hrequired
  · split at hoptional
    · cases hoptional
    · exact buildOptionalStates_spec hoptional

section
variable {tools : List ArgumentRules} {tool : Nat} {rules : ArgumentRules}

theorem mem_toolProductions :
    production ∈ toolProductions tools ↔
      ∃ tool rules, tools[tool]? = some rules ∧ production ∈ argumentProductions tool rules := by
  unfold toolProductions
  rw [mem_flatMap]
  constructor
  · rintro ⟨⟨rules, tool⟩, hentry, hproduction⟩
    exact ⟨tool, rules, mem_zipIdx_iff_getElem?.mp hentry, hproduction⟩
  · rintro ⟨tool, rules, hget, hproduction⟩
    exact ⟨(rules, tool), mem_zipIdx_iff_getElem?.mpr hget, hproduction⟩

theorem mem_rules_iff {initial : Nat} {rule : ContextFreeRule (Nat × Nat) RuleName} :
    rule ∈ (argumentGrammar tools initial).rules ↔
      ∃ production ∈ toolProductions tools, production.name = rule.input ∧
        rule.output ∈ production.alternatives := by
  simp only [mem_toFinset, mem_flatMap, mem_map]
  constructor
  · rintro ⟨production, hmem, alternative, halternative, rfl⟩
    exact ⟨production, hmem, rfl, halternative⟩
  · rintro ⟨production, hmem, hname, halternative⟩
    refine ⟨production, hmem, rule.output, halternative, ?_⟩
    rw [hname]

theorem yields_name_iff {initial : Nat} {name : RuleName} (htool : tools[tool]? = some rules)
    (hname : ⟨name, alternativesOf rules name⟩ ∈ argumentProductions tool rules) :
    Yields (argumentGrammar tools initial) [.nonterminal name] w ↔
      ∃ alternative ∈ alternativesOf rules name, Yields (argumentGrammar tools initial) alternative w := by
  rw [Yields.nonterminal_iff]
  constructor
  · rintro ⟨rule, hmem, rfl, houtput⟩
    obtain ⟨production, hproduction, hsame, halternative⟩ := mem_rules_iff.mp hmem
    obtain ⟨other, otherRules, hother, hwritten⟩ := mem_toolProductions.mp hproduction
    obtain ⟨hothertool, halternatives⟩ := argumentProductions_spec hwritten
    have htoolof : toolOf rule.input = tool := (argumentProductions_spec hname).1
    obtain rfl : other = tool := by rw [← hothertool, hsame, htoolof]
    obtain rfl : otherRules = rules := Option.some.inj (hother.symm.trans htool)
    rw [halternatives, hsame] at halternative
    exact ⟨rule.output, halternative, houtput⟩
  · rintro ⟨alternative, halternative, houtput⟩
    refine ⟨⟨name, alternative⟩, mem_rules_iff.mpr ⟨⟨name, alternativesOf rules name⟩, ?_, rfl,
      halternative⟩, rfl, houtput⟩
    exact mem_toolProductions.mpr ⟨tool, rules, htool, hname⟩

end

/-! ## Masks -/

/-- The parameters whose bit a mask does not have. -/
def unseen (parameters : List Nat) (seen : Nat) : List Nat :=
  (parameters.zipIdx.filter fun entry => seen &&& (1 <<< entry.2) = 0).map Prod.fst

theorem and_bit_eq_zero_iff (seen bit : Nat) : seen &&&
    (1 <<< bit) = 0 ↔ seen.testBit bit = false := by
  rw [Nat.one_shiftLeft, Nat.and_two_pow]
  cases seen.testBit bit with
  | true => simp
  | false => simp

theorem testBit_with (seen bit other : Nat) :
    (seen ||| (1 <<< bit)).testBit other = (seen.testBit other || decide (bit = other)) := by
  rw [Nat.testBit_or, Nat.one_shiftLeft, Nat.testBit_two_pow]

theorem lt_of_mem_zipIdx {entry : Nat × Nat} (h : entry ∈ parameters.zipIdx) :
    entry.2 < parameters.length :=
  (List.getElem?_eq_some_iff.mp (List.mem_zipIdx_iff_getElem?.mp h)).1

theorem mem_unseen {parameter : Nat} (h : parameter ∈ unseen parameters seen) :
    ∃ bit, (parameter, bit) ∈ parameters.zipIdx ∧ seen &&& (1 <<< bit) = 0 := by
  obtain ⟨⟨_, bit⟩, hentry, rfl⟩ := mem_map.mp h
  obtain ⟨hmem, hbit⟩ := mem_filter.mp hentry
  exact ⟨bit, hmem, of_decide_eq_true hbit⟩

/-- The mask with one more bit has seen one more parameter. -/
theorem unseen_perm {parameter bit : Nat} (hmem : (parameter, bit) ∈ parameters.zipIdx)
    (hbit : seen &&& (1 <<< bit) = 0) :
    (unseen parameters seen).Perm (parameter :: unseen parameters (seen ||| (1 <<< bit))) := by
  have hnodup : (parameters.zipIdx.filter fun entry => seen &&& (1 <<< entry.2) = 0).Nodup :=
    (nodup_zipIdx_map_snd parameters).of_map.filter _
  have hentry : (parameter, bit) ∈ parameters.zipIdx.filter fun entry => seen &&& (1 <<< entry.2) = 0 :=
    mem_filter.mpr ⟨hmem, decide_eq_true hbit⟩
  have hperm := (perm_cons_erase hentry).map Prod.fst
  rw [hnodup.erase_eq_filter, filter_filter, map_cons] at hperm
  have hrest : (parameters.zipIdx.filter fun entry => (seen ||| (1 <<< bit)) &&& (1 <<< entry.2) = 0) =
      parameters.zipIdx.filter fun entry =>
        entry != (parameter, bit) && decide (seen &&& (1 <<< entry.2) = 0) := by
    apply filter_congr
    rintro ⟨other, place⟩ hother
    have hsame : (other, place) = (parameter, bit) ↔ bit = place := by
      constructor
      · intro h
        exact (Prod.mk.inj h).2.symm
      · rintro rfl
        have hget := mem_zipIdx_iff_getElem?.mp hother
        rw [mem_zipIdx_iff_getElem?.mp hmem] at hget
        have hfirst : parameter = other := Option.some.inj hget
        rw [hfirst]
    simp only [and_bit_eq_zero_iff, testBit_with, Bool.or_eq_false_iff, decide_eq_false_iff_not]
    by_cases hplace : bit = place
    · simp [hplace, hsame.mpr hplace]
    · have hne : ((other, place) != (parameter, bit)) = true := bne_iff_ne.mpr fun h => hplace (hsame.mp h)
      simp [hplace, hne]
  unfold unseen
  rw [hrest]
  exact hperm

theorem fullMask_testBit (parameters : List Nat) (bit : Nat) :
    (fullMask parameters).testBit bit = decide (bit < parameters.length) := by
  unfold fullMask
  rw [Nat.one_shiftLeft, Nat.testBit_two_pow_sub_one]

theorem le_fullMask_iff : seen ≤ fullMask parameters ↔ seen < 2 ^ parameters.length := by
  have hpos := Nat.two_pow_pos parameters.length
  unfold fullMask
  omega

theorem unseen_full (parameters : List Nat) : unseen parameters (fullMask parameters) = [] := by
  rw [eq_nil_iff_forall_not_mem]
  intro parameter hparameter
  obtain ⟨bit, hmem, hbit⟩ := mem_unseen hparameter
  rw [and_bit_eq_zero_iff, fullMask_testBit, decide_eq_false_iff_not] at hbit
  exact hbit (lt_of_mem_zipIdx hmem)

theorem eq_fullMask (hseen : seen ≤ fullMask parameters) (h : unseen parameters seen = []) :
    seen = fullMask parameters := by
  apply Nat.eq_of_testBit_eq
  intro bit
  rw [fullMask_testBit]
  by_cases hbit : bit < parameters.length
  · rw [decide_eq_true hbit]
    by_contra hclear
    have hmem : (parameters[bit], bit) ∈ parameters.zipIdx :=
      mem_zipIdx_iff_getElem?.mpr (getElem?_eq_getElem hbit)
    have hzero := (and_bit_eq_zero_iff seen bit).mpr (Bool.eq_false_of_not_eq_true hclear)
    have hperm := unseen_perm hmem hzero
    rw [h] at hperm
    exact cons_ne_nil _ _ hperm.nil_eq.symm
  · rw [decide_eq_false hbit]
    apply Nat.testBit_lt_two_pow
    exact (le_fullMask_iff.mp hseen).trans_le (Nat.pow_le_pow_right (by omega) (by omega))

theorem with_le_fullMask {entry : Nat × Nat} (hseen : seen ≤ fullMask parameters)
    (hmem : entry ∈ parameters.zipIdx) : seen ||| (1 <<< entry.2) ≤ fullMask parameters := by
  rw [le_fullMask_iff] at hseen ⊢
  apply Nat.or_lt_two_pow hseen
  rw [Nat.one_shiftLeft]
  exact Nat.pow_lt_pow_right (by omega) (lt_of_mem_zipIdx hmem)

/-! ## The states -/

section
variable {tools : List ArgumentRules} {tool initial : Nat} {rules : ArgumentRules}

/-- Parameters of a tool. -/
def named (tool : Nat) (parameters : List Nat) : List (Nat × Nat) :=
  parameters.map fun parameter => (tool, parameter)

theorem yields_unseen_iff {state : Nat → RuleName} :
    (∃ alternative ∈ unseenAlternatives state tool parameters seen,
        Yields (argumentGrammar tools initial) alternative w) ↔
      ∃ entry ∈ parameters.zipIdx, seen &&& (1 <<< entry.2) = 0 ∧ ∃ v, w = (tool, entry.1) :: v ∧
        Yields (argumentGrammar tools initial)
          [.nonterminal (state (seen ||| (1 <<< entry.2)))] v := by
  constructor
  · rintro ⟨alternative, hmem, hyields⟩
    obtain ⟨entry, hentry, rfl⟩ := mem_map.mp hmem
    obtain ⟨hmem, hbit⟩ := mem_filter.mp hentry
    obtain ⟨v, rfl, hv⟩ := Yields.terminal_cons_iff.mp hyields
    exact ⟨entry, hmem, of_decide_eq_true hbit, v, rfl, hv⟩
  · rintro ⟨entry, hmem, hbit, v, rfl, hv⟩
    refine ⟨_, mem_map_of_mem (mem_filter.mpr ⟨hmem, decide_eq_true hbit⟩), ?_⟩
    exact Yields.terminal_cons_iff.mpr ⟨v, rfl, hv⟩

theorem requiredState_mem (hfew : rules.required.length ≤ maxPermutedParameters)
    (hseen : seen ≤ fullMask rules.required) :
    ⟨.requiredState tool seen, alternativesOf rules (.requiredState tool seen)⟩ ∈
      argumentProductions tool rules := by
  unfold argumentProductions buildRequiredStates
  rw [if_neg (by omega)]
  refine mem_append_left _ (mem_cons_of_mem _ (mem_append_left _ ?_))
  exact mem_map.mpr ⟨seen, mem_range.mpr (by omega), rfl⟩

section
variable (htool : tools[tool]? = some rules)
include htool

theorem requiredState_iff (hfew : rules.required.length ≤ maxPermutedParameters)
    (hseen : seen ≤ fullMask rules.required) :
    Yields (argumentGrammar tools initial) [.nonterminal (.requiredState tool seen)] w ↔
      ∃ u, u.Perm (unseen rules.required seen) ∧ w = named tool u := by
  generalize hcount : (unseen rules.required seen).length = count
  induction count generalizing seen w with
  | zero =>
    have hnone := length_eq_zero_iff.mp hcount
    have hfull := eq_fullMask hseen hnone
    rw [yields_name_iff htool (requiredState_mem hfew hseen), hnone]
    simp only [alternativesOf, requiredAlternatives, if_pos hfull, mem_singleton,
      exists_eq_left, perm_nil]
    exact Yields.nil_iff
  | succ count ih =>
    have hopen : seen ≠ fullMask rules.required := by
      rintro rfl
      rw [unseen_full] at hcount
      cases hcount
    rw [yields_name_iff htool (requiredState_mem hfew hseen)]
    simp only [alternativesOf, requiredAlternatives, if_neg hopen]
    rw [yields_unseen_iff]
    constructor
    · rintro ⟨entry, hmem, hbit, v, rfl, hv⟩
      have hperm := unseen_perm hmem hbit
      have hrest : (unseen rules.required (seen ||| (1 <<< entry.2))).length = count := by
        have hlength := hperm.length_eq
        rw [hcount, length_cons] at hlength
        omega
      obtain ⟨u, hu, rfl⟩ := (ih (with_le_fullMask hseen hmem) hrest).mp hv
      exact ⟨entry.1 :: u, (hu.cons _).trans hperm.symm, rfl⟩
    · rintro ⟨u, hu, rfl⟩
      cases u with
      | nil =>
        rw [← hu.nil_eq] at hcount
        cases hcount
      | cons parameter u =>
        obtain ⟨bit, hmem, hbit⟩ := mem_unseen (hu.mem_iff.mp (mem_cons_self ..))
        have hperm := unseen_perm hmem hbit
        have hrest : (unseen rules.required (seen ||| (1 <<< bit))).length = count := by
          have hlength := hperm.length_eq
          rw [hcount, length_cons] at hlength
          omega
        refine ⟨(parameter, bit), hmem, hbit, named tool u, rfl, ?_⟩
        exact (ih (with_le_fullMask hseen hmem) hrest).mpr ⟨u, (hu.trans hperm).cons_inv, rfl⟩

omit htool in
theorem optionalState_mem (hsome : rules.optional ≠ [])
    (hfew : rules.optional.length ≤ maxPermutedParameters)
    (hseen : seen ≤ fullMask rules.optional) :
    ⟨.optionalState tool seen, alternativesOf rules (.optionalState tool seen)⟩ ∈
      argumentProductions tool rules := by
  have hstate : alternativesOf rules (.optionalState tool seen) =
      optionalAlternatives tool rules.optional seen := if_neg (by omega)
  unfold argumentProductions buildOptionalStates
  rw [if_neg (by simpa using hsome), if_neg (by omega), hstate]
  refine mem_append_right _ (mem_append_left _ ?_)
  exact mem_map.mpr ⟨seen, mem_range.mpr (by omega), rfl⟩

theorem optionalState_iff (hsome : rules.optional ≠ [])
    (hfew : rules.optional.length ≤ maxPermutedParameters)
    (hseen : seen ≤ fullMask rules.optional) :
    Yields (argumentGrammar tools initial) [.nonterminal (.optionalState tool seen)] w ↔
      ∃ u, u.Subperm (unseen rules.optional seen) ∧ w = named tool u := by
  have hstate : alternativesOf rules (.optionalState tool seen) =
      optionalAlternatives tool rules.optional seen := if_neg (by omega)
  generalize hcount : (unseen rules.optional seen).length = count
  induction count using Nat.strong_induction_on generalizing seen w with
  | h count ih =>
    rw [yields_name_iff htool (optionalState_mem hsome hfew hseen), hstate]
    unfold optionalAlternatives
    rw [exists_mem_cons_iff, yields_unseen_iff, Yields.nil_iff]
    -- One parameter more leaves a smaller state.
    have hnext : ∀ entry ∈ rules.optional.zipIdx, seen &&& (1 <<< entry.2) = 0 → ∀ v,
        Yields (argumentGrammar tools initial)
            [.nonterminal (.optionalState tool (seen ||| (1 <<< entry.2)))] v ↔
          ∃ u, u.Subperm (unseen rules.optional (seen ||| (1 <<< entry.2))) ∧ v = named tool u := by
      intro entry hmem hbit v
      have hlength := (unseen_perm hmem hbit).length_eq
      rw [hcount, length_cons] at hlength
      exact ih _ (by omega) (with_le_fullMask hseen hmem) (if_neg (by omega)) rfl
    constructor
    · rintro (rfl | ⟨entry, hmem, hbit, v, rfl, hv⟩)
      · exact ⟨[], nil_subperm, rfl⟩
      · obtain ⟨u, hu, rfl⟩ := (hnext entry hmem hbit v).mp hv
        refine ⟨entry.1 :: u, ?_, rfl⟩
        exact ((subperm_cons entry.1).mpr hu).trans (unseen_perm hmem hbit).symm.subperm
    · rintro ⟨u, hu, rfl⟩
      cases u with
      | nil => exact .inl rfl
      | cons parameter u =>
        obtain ⟨bit, hmem, hbit⟩ := mem_unseen (hu.subset (mem_cons_self ..))
        have hrest := (subperm_cons parameter).mp (hu.trans (unseen_perm hmem hbit).subperm)
        exact .inr ⟨(parameter, bit), hmem, hbit, named tool u, rfl,
          (hnext _ hmem hbit _).mpr ⟨u, hrest, rfl⟩⟩

omit htool in
theorem listedState_mem {position : Nat} (hmany : maxPermutedParameters < rules.optional.length)
    (hposition : position ≤ rules.optional.length) :
    ⟨.optionalState tool position, alternativesOf rules (.optionalState tool position)⟩ ∈
      argumentProductions tool rules := by
  have hstate : alternativesOf rules (.optionalState tool position) =
      listedAlternatives tool rules.optional position := if_pos hmany
  have hsome : rules.optional ≠ [] := by
    rintro hnone
    rw [hnone] at hmany
    exact absurd hmany (by decide)
  unfold argumentProductions buildOptionalStates
  rw [if_neg (by simpa using hsome), if_pos hmany, hstate]
  refine mem_append_right _ (mem_append_left _ ?_)
  exact mem_map.mpr ⟨position, mem_range.mpr (by omega), rfl⟩

theorem listedState_iff (hmany : maxPermutedParameters < rules.optional.length) {position : Nat}
    (hposition : position ≤ rules.optional.length) :
    Yields (argumentGrammar tools initial) [.nonterminal (.optionalState tool position)] w ↔
      ∃ u, u.Sublist (rules.optional.drop position) ∧ w = named tool u := by
  have hstate : ∀ place, alternativesOf rules (.optionalState tool place) =
      listedAlternatives tool rules.optional place := fun _ => if_pos hmany
  generalize hcount : rules.optional.length - position = count
  induction count generalizing position w with
  | zero =>
    have hend : rules.optional[position]? = none := getElem?_eq_none (by omega)
    rw [yields_name_iff htool (listedState_mem hmany hposition), hstate,
      drop_eq_nil_of_le (by omega)]
    simp only [listedAlternatives, hend, mem_singleton, exists_eq_left, sublist_nil]
    exact Yields.nil_iff
  | succ count ih =>
    have hlt : position < rules.optional.length := by omega
    have hhere := getElem?_eq_getElem hlt
    have hnext : ∀ v, Yields (argumentGrammar tools initial)
          [.nonterminal (.optionalState tool (position + 1))] v ↔
        ∃ u, u.Sublist (rules.optional.drop (position + 1)) ∧ v = named tool u :=
      fun v => ih (by omega) (by omega)
    rw [yields_name_iff htool (listedState_mem hmany hposition), hstate, drop_eq_getElem_cons hlt]
    simp only [listedAlternatives, hhere]
    rw [exists_mem_cons_iff, exists_mem_cons_iff, hnext, Yields.terminal_cons_iff]
    simp only [not_mem_nil, false_and, exists_false, or_false, hnext]
    constructor
    · rintro (⟨u, hu, rfl⟩ | ⟨v, rfl, u, hu, rfl⟩)
      · exact ⟨u, hu.cons _, rfl⟩
      · exact ⟨rules.optional[position] :: u, hu.cons_cons _, rfl⟩
    · rintro ⟨u, hu, rfl⟩
      cases hu with
      | cons _ hrest => exact .inl ⟨u, hrest, rfl⟩
      | cons_cons _ hrest => exact .inr ⟨_, rfl, _, hrest, rfl⟩

omit htool in
theorem unseen_zero (parameters : List Nat) : unseen parameters 0 = parameters := by
  unfold unseen
  rw [filter_eq_self.mpr fun entry _ => by simp, zipIdx_map_fst]

/-- The orders of the required parameters. -/
def RequiredOrder (required u : List Nat) : Prop :=
  if required.length ≤ maxPermutedParameters then u.Perm required else u = required

/-- The selections of optional parameters. -/
def OptionalOrder (optional u : List Nat) : Prop :=
  if optional.length ≤ maxPermutedParameters then u.Subperm optional else u.Sublist optional

theorem required_iff :
    Yields (argumentGrammar tools initial) [.nonterminal (.required tool)] w ↔
      ∃ u, RequiredOrder rules.required u ∧ w = named tool u := by
  by_cases hfew : rules.required.length ≤ maxPermutedParameters
  · have hrule : alternativesOf rules (.required tool) =
        [[.nonterminal (.requiredState tool 0)]] := if_neg (by omega)
    have hmem : ⟨.required tool, alternativesOf rules (.required tool)⟩ ∈
        argumentProductions tool rules := by
      rw [hrule]
      unfold argumentProductions buildRequiredStates
      rw [if_neg (by omega)]
      refine mem_append_left _ (mem_cons_of_mem _ (mem_append_right _ ?_))
      exact mem_singleton_self _
    unfold RequiredOrder
    rw [yields_name_iff htool hmem, hrule]
    simp only [mem_singleton, exists_eq_left, if_pos hfew]
    rw [requiredState_iff htool hfew (Nat.zero_le _), unseen_zero]
  · have hrule : alternativesOf rules (.required tool) =
        [rules.required.map fun parameter => .terminal (tool, parameter)] := if_pos (by omega)
    have hmem : ⟨.required tool, alternativesOf rules (.required tool)⟩ ∈
        argumentProductions tool rules := by
      rw [hrule]
      unfold argumentProductions buildRequiredStates
      rw [if_pos (by omega)]
      exact mem_append_left _ (mem_cons_of_mem _ (mem_singleton_self _))
    have hterminals : (rules.required.map fun parameter =>
        (.terminal (tool, parameter) : GrammarSymbol)) = (named tool rules.required).map .terminal := by
      rw [named, map_map]
      rfl
    unfold RequiredOrder
    rw [yields_name_iff htool hmem, hrule]
    simp only [mem_singleton, exists_eq_left, if_neg hfew, hterminals]
    exact Yields.terminals_iff

theorem optional_iff (hsome : rules.optional ≠ []) :
    Yields (argumentGrammar tools initial) [.nonterminal (.optional tool)] w ↔
      ∃ u, OptionalOrder rules.optional u ∧ w = named tool u := by
  have hmem : ⟨.optional tool, alternativesOf rules (.optional tool)⟩ ∈
      argumentProductions tool rules := by
    unfold argumentProductions buildOptionalStates
    rw [if_neg (by simpa using hsome)]
    refine mem_append_right _ ?_
    split
    · exact mem_append_right _ (mem_singleton_self _)
    · exact mem_append_right _ (mem_singleton_self _)
  rw [yields_name_iff htool hmem]
  simp only [alternativesOf, mem_singleton, exists_eq_left]
  unfold OptionalOrder
  by_cases hfew : rules.optional.length ≤ maxPermutedParameters
  · simp only [if_pos hfew]
    rw [optionalState_iff htool hsome hfew (Nat.zero_le _), unseen_zero]
  · simp only [if_neg hfew]
    rw [listedState_iff htool (by omega) (Nat.zero_le _), drop_zero]

theorem args_iff :
    w ∈ (argumentGrammar tools tool).language ↔
      ∃ u v, w = named tool (u ++ v) ∧ RequiredOrder rules.required u ∧
        OptionalOrder rules.optional v := by
  have hmem : ⟨.args tool, alternativesOf rules (.args tool)⟩ ∈ argumentProductions tool rules :=
    mem_append_left _ (mem_cons_self ..)
  have hinitial : w ∈ (argumentGrammar tools tool).language ↔
      Yields (argumentGrammar tools tool) [.nonterminal (.args tool)] w := mem_language_iff_yields
  rw [hinitial, yields_name_iff htool hmem]
  simp only [alternativesOf, argsAlternatives, mem_singleton, exists_eq_left]
  by_cases hnone : rules.optional = []
  · rw [if_pos (by simpa using hnone), required_iff htool]
    constructor
    · rintro ⟨u, hu, rfl⟩
      refine ⟨u, [], by rw [append_nil], hu, ?_⟩
      unfold OptionalOrder
      split
      · exact nil_subperm
      · exact nil_sublist _
    · rintro ⟨u, v, rfl, hu, hv⟩
      have hempty : v = [] := by
        unfold OptionalOrder at hv
        rw [hnone, if_pos (by decide)] at hv
        exact subperm_nil.mp hv
      exact ⟨u, hu, by rw [hempty, append_nil]⟩
  · rw [if_neg (by simpa using hnone)]
    have hcut : Yields (argumentGrammar tools tool)
          ([.nonterminal (RuleName.required tool)] ++ [.nonterminal (RuleName.optional tool)]) w ↔
        ∃ x y, w = x ++ y ∧ Yields (argumentGrammar tools tool) [.nonterminal (.required tool)] x ∧
          Yields (argumentGrammar tools tool) [.nonterminal (.optional tool)] y := Yields.append_iff
    change Yields (argumentGrammar tools tool)
      ([.nonterminal (RuleName.required tool)] ++ [.nonterminal (RuleName.optional tool)]) w ↔ _
    rw [hcut]
    simp only [required_iff htool, optional_iff htool hnone]
    constructor
    · rintro ⟨_, _, rfl, ⟨u, hu, rfl⟩, v, hv, rfl⟩
      exact ⟨u, v, map_append.symm, hu, hv⟩
    · rintro ⟨u, v, rfl, hu, hv⟩
      exact ⟨_, _, map_append, ⟨u, hu, rfl⟩, v, hv, rfl⟩

end

end

/-! ## The parameters of a schema -/

/-- The places of the properties that a schema requires and does not require, in the order
of the properties. -/
structure ListsProperties (schema : Value) (rules : ArgumentRules) : Prop where
  required : ∀ place, place ∈ rules.required ↔
    ∃ property, (schemaProperties schema)[place]? = some property ∧ property.1 ∈ schemaRequired schema
  optional : ∀ place, place ∈ rules.optional ↔
    ∃ property, (schemaProperties schema)[place]? = some property ∧ property.1 ∉ schemaRequired schema
  requiredOrder : rules.required.Pairwise (· < ·)
  optionalOrder : rules.optional.Pairwise (· < ·)

theorem mem_places {properties : List (Text × Value)} {p : Text → Bool} {place : Nat} :
    place ∈ ((properties.map Prod.fst).zipIdx.filter fun name => p name.1).map Prod.snd ↔
      ∃ property, properties[place]? = some property ∧ p property.1 = true := by
  rw [mem_map]
  constructor
  · rintro ⟨⟨name, _⟩, hentry, rfl⟩
    obtain ⟨hmem, hp⟩ := mem_filter.mp hentry
    have hget := mem_zipIdx_iff_getElem?.mp hmem
    rw [getElem?_map] at hget
    obtain ⟨property, hproperty, rfl⟩ := Option.map_eq_some_iff.mp hget
    exact ⟨property, hproperty, hp⟩
  · rintro ⟨property, hget, hp⟩
    refine ⟨(property.1, place), mem_filter.mpr ⟨mem_zipIdx_iff_getElem?.mpr ?_, hp⟩, rfl⟩
    rw [getElem?_map, hget]
    rfl

theorem places_sorted (names : List Text) (p : Text → Bool) :
    ((names.zipIdx.filter fun name => p name.1).map Prod.snd).Pairwise (· < ·) := by
  have hall : (names.zipIdx.map Prod.snd).Pairwise (· < ·) := by
    rw [zipIdx_map_snd]
    exact pairwise_lt_range'
  exact hall.sublist (filter_sublist.map Prod.snd)

theorem buildArguments_lists {schema : Value} {rules : ArgumentRules}
    (h : buildArguments schema = .ok rules) : ListsProperties schema rules := by
  unfold buildArguments at h
  dsimp only at h
  split at h
  · cases h
  · obtain ⟨parameters, -, h⟩ := bind_ok h
    cases h
    constructor
    · intro place
      simpa using mem_places (p := fun name => (schemaRequired schema).contains name)
    · intro place
      simpa using mem_places (p := fun name => !(schemaRequired schema).contains name)
    · exact places_sorted _ fun name => (schemaRequired schema).contains name
    · exact places_sorted _ fun name => !(schemaRequired schema).contains name

/-- An argument list without a missing, a repeated or an unknown parameter. -/
structure Complete (schema : Value) (tool : Nat) (rules : ArgumentRules) (w : List (Nat × Nat)) :
    Prop where
  required : ∀ parameter ∈ rules.required, (tool, parameter) ∈ w
  once : w.Nodup
  known : ∀ entry ∈ w, entry.1 = tool ∧ entry.2 < (schemaProperties schema).length

theorem complete_of_orders {schema : Value} {tool : Nat} {rules : ArgumentRules} {u v : List Nat}
    (hlists : ListsProperties schema rules) (hu : RequiredOrder rules.required u)
    (hv : OptionalOrder rules.optional v) : Complete schema tool rules (named tool (u ++ v)) := by
  have hrequired : u.Perm rules.required := by
    unfold RequiredOrder at hu
    split at hu
    · exact hu
    · exact .of_eq hu
  have hoptional : v.Subperm rules.optional := by
    unfold OptionalOrder at hv
    split at hv
    · exact hv
    · exact hv.subperm
  have hapart : ∀ parameter ∈ u, parameter ∉ v := by
    intro parameter hleft hright
    obtain ⟨property, hget, hmem⟩ := (hlists.required _).mp (hrequired.mem_iff.mp hleft)
    obtain ⟨other, hother, hnotmem⟩ := (hlists.optional _).mp (hoptional.subset hright)
    rw [hget] at hother
    cases hother
    exact hnotmem hmem
  constructor
  · intro parameter hparameter
    exact mem_map_of_mem (mem_append_left _ (hrequired.mem_iff.mpr hparameter))
  · apply List.Nodup.map (Prod.mk_right_injective tool)
    rw [nodup_append']
    refine ⟨hrequired.nodup_iff.mpr (hlists.requiredOrder.imp fun h => h.ne),
      ?_, hapart⟩
    obtain ⟨selected, hperm, hsublist⟩ := hoptional
    exact hperm.nodup_iff.mp ((hlists.optionalOrder.imp fun h => h.ne).sublist hsublist)
  · intro entry hentry
    obtain ⟨parameter, hmem, rfl⟩ := mem_map.mp hentry
    refine ⟨rfl, ?_⟩
    obtain hleft | hright := mem_append.mp hmem
    · obtain ⟨property, hget, -⟩ := (hlists.required _).mp (hrequired.mem_iff.mp hleft)
      exact (List.getElem?_eq_some_iff.mp hget).1
    · obtain ⟨property, hget, -⟩ := (hlists.optional _).mp (hoptional.subset hright)
      exact (List.getElem?_eq_some_iff.mp hget).1

/-- For every tool among any number of them, the argument rule admits exactly the orders of
its required parameters followed by the selections of its optional ones, so no argument
list misses a required parameter, repeats one or has an unknown one. -/
theorem argument_language {schemas : List Value} {tools : List ArgumentRules}
    (built : schemas.mapM buildArguments = .ok tools) {tool : Nat} {schema : Value}
    (hschema : schemas[tool]? = some schema) :
    ∃ rules, tools[tool]? = some rules ∧ ListsProperties schema rules ∧
      (∀ w, w ∈ (argumentGrammar tools tool).language ↔
        ∃ u v, w = named tool (u ++ v) ∧ RequiredOrder rules.required u ∧
          OptionalOrder rules.optional v) ∧
      ∀ w ∈ (argumentGrammar tools tool).language, Complete schema tool rules w := by
  have hall := List.forall₂_iff_get.mp (mapM_ok built)
  obtain ⟨hlt, rfl⟩ := List.getElem?_eq_some_iff.mp hschema
  have hlt' : tool < tools.length := hall.1 ▸ hlt
  have hlists : ListsProperties schemas[tool] tools[tool] := buildArguments_lists (hall.2 tool hlt hlt')
  have htool := List.getElem?_eq_getElem hlt'
  refine ⟨tools[tool], htool, hlists, fun w => args_iff htool, fun w hw => ?_⟩
  obtain ⟨u, v, rfl, hu, hv⟩ := (args_iff htool).mp hw
  exact complete_of_orders hlists hu hv

/-- A tool with an optional parameter in front of a required one. -/
def lookupSchema : Value :=
  .object [("properties", .object [("limit", .object []), ("query", .object [])]),
    ("required", .array [.string "query"])]

/-- The required parameter alone, then both; the optional one alone is no argument list. -/
theorem lookup_arguments : ∃ tools, [lookupSchema].mapM buildArguments = .ok tools ∧
    [(0, 1)] ∈ (argumentGrammar tools 0).language ∧
    [(0, 1), (0, 0)] ∈ (argumentGrammar tools 0).language ∧
    [(0, 0)] ∉ (argumentGrammar tools 0).language := by
  have hbuilt : ∃ tools, [lookupSchema].mapM buildArguments = .ok tools ∧
      (tools[0]?).map (fun rules => (rules.required, rules.optional)) = some ([1], [0]) :=
    ⟨_, rfl, rfl⟩
  obtain ⟨tools, built, hplaces⟩ := hbuilt
  have hschema : [lookupSchema][0]? = some lookupSchema := rfl
  obtain ⟨rules, htool, hlists, hlanguage, hcomplete⟩ := argument_language built hschema
  rw [htool] at hplaces
  obtain ⟨hrequired, hoptional⟩ := Prod.mk.inj (Option.some.inj hplaces)
  refine ⟨tools, built, (hlanguage _).mpr ⟨[1], [], rfl, ?_, ?_⟩,
    (hlanguage _).mpr ⟨[1], [0], rfl, ?_, ?_⟩, fun hmem => ?_⟩
  · rw [hrequired]
    exact List.Perm.refl _
  · rw [hoptional]
    exact nil_subperm
  · rw [hrequired]
    exact List.Perm.refl _
  · rw [hoptional]
    exact List.Subperm.refl _
  · have hmissing := (hcomplete _ hmem).required 1 (by rw [hrequired]; exact mem_singleton_self 1)
    exact absurd hmissing (by decide)

end Eider.Guarantees.ArgumentLanguage
