import Mathlib.Computability.ContextFreeGrammar

/-!
# Words of a context-free grammar, symbol by symbol

`Yields g s w` reads the word `w` off the string of symbols `s` from left to right, with a
rule of `g` for each nonterminal. It says of terminal words what the rewriting of
`ContextFreeGrammar` says, and follows the rules of the grammar where rewriting may pick
any place of the string.
-/
namespace Eider.Lib

variable {T : Type*} {g : ContextFreeGrammar T}

/-- The string of symbols derives the word. -/
inductive Yields (g : ContextFreeGrammar T) : List (Symbol T g.NT) → List T → Prop
  | nil : Yields g [] []
  | terminal {s : List (Symbol T g.NT)} {w : List T} (t : T) (rest : Yields g s w) :
      Yields g (.terminal t :: s) (t :: w)
  | rule {s : List (Symbol T g.NT)} {u v : List T} {r : ContextFreeRule T g.NT}
      (mem : r ∈ g.rules) (output : Yields g r.output u) (rest : Yields g s v) :
      Yields g (.nonterminal r.input :: s) (u ++ v)

namespace Yields
variable {s s' : List (Symbol T g.NT)} {w w' u v : List T}

theorem append (h : Yields g s w) (h' : Yields g s' w') : Yields g (s ++ s') (w ++ w') := by
  induction h with
  | nil => exact h'
  | terminal t _ ih => exact .terminal t ih
  | @rule s u v r mem output _ _ ih =>
    rw [List.cons_append, List.append_assoc]
    exact .rule mem output ih

theorem of_append (s : List (Symbol T g.NT)) (h : Yields g (s ++ s') w) :
    ∃ u v, w = u ++ v ∧ Yields g s u ∧ Yields g s' v := by
  induction s generalizing w with
  | nil => exact ⟨[], w, rfl, .nil, h⟩
  | cons symbol rest ih =>
    cases h with
    | terminal t hrest =>
      obtain ⟨u, v, rfl, hu, hv⟩ := ih hrest
      exact ⟨t :: u, v, rfl, .terminal t hu, hv⟩
    | rule mem output hrest =>
      rename_i first _ _
      obtain ⟨u, v, rfl, hu, hv⟩ := ih hrest
      exact ⟨first ++ u, v, (List.append_assoc ..).symm, .rule mem output hu, hv⟩

theorem of_terminals (w : List T) : Yields g (w.map .terminal) w := by
  induction w with
  | nil => exact .nil
  | cons t rest ih => exact .terminal t ih

theorem terminals_iff {terminals : List T} :
    Yields g (terminals.map .terminal) w ↔ w = terminals := by
  constructor
  · intro h
    induction terminals generalizing w with
    | nil =>
      cases h
      rfl
    | cons t rest ih =>
      cases h with
      | terminal _ hrest => rw [ih hrest]
  · rintro rfl
    exact of_terminals w

theorem nil_iff : Yields g [] w ↔ w = [] := by
  constructor
  · intro h
    cases h
    rfl
  · rintro rfl
    exact .nil

theorem terminal_cons_iff {t : T} :
    Yields g (.terminal t :: s) w ↔ ∃ v, w = t :: v ∧ Yields g s v := by
  constructor
  · intro h
    cases h with
    | terminal _ hrest => exact ⟨_, rfl, hrest⟩
  · rintro ⟨v, rfl, hv⟩
    exact .terminal t hv

theorem nonterminal_iff {a : g.NT} :
    Yields g [.nonterminal a] w ↔ ∃ r ∈ g.rules, r.input = a ∧ Yields g r.output w := by
  constructor
  · intro h
    cases h with
    | @rule _ u v r mem output hrest =>
      rw [nil_iff.mp hrest, List.append_nil]
      exact ⟨r, mem, rfl, output⟩
  · rintro ⟨r, hmem, rfl, houtput⟩
    have hrule := rule hmem houtput .nil
    rwa [List.append_nil] at hrule

theorem append_iff : Yields g (s ++ s') w ↔ ∃ u v, w = u ++ v ∧ Yields g s u ∧ Yields g s' v := by
  constructor
  · exact of_append s
  · rintro ⟨u, v, rfl, hu, hv⟩
    exact hu.append hv

/-! ## Rewriting -/

theorem derives (h : Yields g s w) : g.Derives s (w.map .terminal) := by
  induction h with
  | nil => exact .refl []
  | terminal t _ ih => exact ih.append_left [.terminal t]
  | @rule s u v r mem _ _ ihoutput ihrest =>
    have hfirst : g.Derives (.nonterminal r.input :: s) (r.output ++ s) :=
      ContextFreeGrammar.Produces.single ⟨r, mem, .head s⟩
    have houtput : g.Derives (r.output ++ s) (u.map .terminal ++ s) := ihoutput.append_right s
    have hrest : g.Derives (u.map .terminal ++ s) (u.map .terminal ++ v.map .terminal) :=
      ihrest.append_left _
    rw [List.map_append]
    exact (hfirst.trans houtput).trans hrest

theorem of_produces (hstep : g.Produces s s') (h : Yields g s' w) : Yields g s w := by
  obtain ⟨r, hmem, hrewrites⟩ := hstep
  obtain ⟨p, q, rfl, rfl⟩ := hrewrites.exists_parts
  obtain ⟨front, v, rfl, hfront, hv⟩ := append_iff.mp h
  obtain ⟨u, middle, rfl, hu, hmiddle⟩ := append_iff.mp hfront
  have hnonterminal : Yields g [.nonterminal r.input] middle :=
    nonterminal_iff.mpr ⟨r, hmem, rfl, hmiddle⟩
  exact (hu.append hnonterminal).append hv

theorem of_derives (h : g.Derives s (w.map .terminal)) : Yields g s w := by
  induction h using Relation.ReflTransGen.head_induction_on with
  | refl => exact of_terminals w
  | head hstep _ ih => exact of_produces hstep ih

end Yields

theorem mem_language_iff_yields {w : List T} :
    w ∈ g.language ↔ Yields g [.nonterminal g.initial] w := by
  exact ⟨Yields.of_derives, Yields.derives⟩

end Eider.Lib
