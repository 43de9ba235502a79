import Eider.Source.ToolConstraint

/-!
# The trigger of the lazy tool grammar

Before a trigger the grammar keeps an end of the committed tokens: it drops the oldest one while
their pieces are longer than the longest trigger and 32 bytes, and never the last. A trigger may
begin in a token that has gone by the time it is complete. The commit that completes the first
trigger hands over the tokens from the one with the trigger's first byte on exactly when that
token is the last or the last but one, or the pieces from it on, without the last one, are no
longer than the bound (`trigger_hands_over_iff`).
-/
namespace Eider.Guarantees.ToolTrigger
open Lib.Search Source Source.ToolGrammar List

variable {K : Type} (calls : Constraint K)

/-! ## Triggers in a text -/

/-- No trigger occurs. -/
def NoTrigger (triggers : List (List UInt8)) (text : List UInt8) : Prop :=
  ∀ trigger ∈ triggers, ∀ i, ¬ trigger <+: text.drop i

/-- The first place where a trigger begins. -/
def TriggerAt (triggers : List (List UInt8)) (text : List UInt8) (start : Nat) : Prop :=
  (∃ trigger ∈ triggers, trigger <+: text.drop start) ∧
    ∀ i < start, ∀ trigger ∈ triggers, ¬ trigger <+: text.drop i

section
variable {triggers : List (List UInt8)} {text : List UInt8} {start : Nat}

theorem findBytes_eq_find {trigger : List UInt8} (hne : trigger ≠ []) :
    findBytes text trigger = find trigger text := by
  unfold findBytes
  rw [if_neg (by simpa using hne)]

theorem min_findBytes_eq_none (hne : ∀ trigger ∈ triggers, trigger ≠ []) :
    (triggers.filterMap (findBytes text)).min? = none ↔ NoTrigger triggers text := by
  rw [min?_eq_none_iff, filterMap_eq_nil_iff]
  refine forall₂_congr fun trigger hmem => ?_
  rw [findBytes_eq_find (hne trigger hmem), find_eq_none_iff (hne trigger hmem)]

theorem min_findBytes_eq_some (hne : ∀ trigger ∈ triggers, trigger ≠ []) :
    (triggers.filterMap (findBytes text)).min? = some start ↔ TriggerAt triggers text start := by
  rw [min?_eq_some_iff]
  constructor
  · intro h
    obtain ⟨hmem, hleast⟩ := h
    obtain ⟨trigger, htrigger, hfound⟩ := mem_filterMap.mp hmem
    rw [findBytes_eq_find (hne trigger htrigger), find_eq_some_iff (hne trigger htrigger)] at hfound
    refine ⟨⟨trigger, htrigger, hfound.1⟩, ?_⟩
    intro i hi other hother hoccurs
    cases hfind : findBytes text other with
    | none =>
      rw [findBytes_eq_find (hne other hother), find_eq_none_iff (hne other hother)] at hfind
      exact hfind i hoccurs
    | some j =>
      have hle := hleast j (mem_filterMap.mpr ⟨other, hother, hfind⟩)
      rw [findBytes_eq_find (hne other hother), find_eq_some_iff (hne other hother)] at hfind
      exact hfind.2 i (by omega) hoccurs
  · intro h
    obtain ⟨⟨trigger, htrigger, hoccurs⟩, hbefore⟩ := h
    have hfound : findBytes text trigger = some start := by
      rw [findBytes_eq_find (hne trigger htrigger), find_eq_some_iff (hne trigger htrigger)]
      exact ⟨hoccurs, fun j hj => hbefore j hj trigger htrigger⟩
    refine ⟨mem_filterMap.mpr ⟨trigger, htrigger, hfound⟩, ?_⟩
    intro j hj
    obtain ⟨other, hother, hfind⟩ := mem_filterMap.mp hj
    rw [findBytes_eq_find (hne other hother), find_eq_some_iff (hne other hother)] at hfind
    by_contra hless
    exact hbefore j (by omega) other hother hfind.1

theorem NoTrigger.right {left : List UInt8} (h : NoTrigger triggers (left ++ text)) :
    NoTrigger triggers text := by
  intro trigger hmem i hoccurs
  refine h trigger hmem (left.length + i) ?_
  rwa [drop_length_add_append]

theorem TriggerAt.right {left : List UInt8} (h : TriggerAt triggers (left ++ text) start)
    (hle : left.length ≤ start) : TriggerAt triggers text (start - left.length) := by
  obtain ⟨hoccurs, hbefore⟩ := h
  obtain ⟨i, rfl⟩ := Nat.exists_eq_add_of_le hle
  rw [drop_length_add_append] at hoccurs
  rw [Nat.add_sub_cancel_left]
  refine ⟨hoccurs, ?_⟩
  intro j hj trigger hmem hfound
  refine hbefore (left.length + j) (by omega) trigger hmem ?_
  rwa [drop_length_add_append]

end

/-! ## Pieces of tokens -/

variable (k : K) (tokens : List Nat)

/-- The tokens with their pieces. -/
def withPieces : List (Nat × List UInt8) :=
  tokens.map fun token => (token, calls.decode k token)

/-- The text of tokens. -/
def textOf : List UInt8 := tokens.flatMap (calls.decode k)

@[simp] theorem flatMap_withPieces :
    (withPieces calls k tokens).flatMap Prod.snd = textOf calls k tokens := by
  simp [withPieces, textOf, flatMap_map]

@[simp] theorem textOf_append (xs ys : List Nat) :
    textOf calls k (xs ++ ys) = textOf calls k xs ++ textOf calls k ys := by
  simp [textOf]

theorem textOf_take_drop (i : Nat) :
    textOf calls k (tokens.take i) ++ textOf calls k (tokens.drop i) = textOf calls k tokens := by
  rw [← textOf_append, take_append_drop]

/-- The token at the place has the byte. -/
def HoldsByte (place byte : Nat) : Prop :=
  (textOf calls k (tokens.take place)).length ≤ byte ∧
    byte < (textOf calls k (tokens.take (place + 1))).length

theorem firstTriggerToken_eq {start : Nat} (pending : List (Nat × List UInt8)) (index done i : Nat)
    (hlow : done + ((pending.take i).flatMap Prod.snd).length ≤ start)
    (hhigh : start < done + ((pending.take (i + 1)).flatMap Prod.snd).length) :
    firstTriggerToken start index done pending = some (index + i) := by
  induction pending generalizing index done i with
  | nil =>
    simp only [take_nil, flatMap_nil] at hlow hhigh
    omega
  | cons first rest ih =>
    obtain ⟨token, piece⟩ := first
    rw [firstTriggerToken]
    cases i with
    | zero =>
      have hin : start < done + piece.length := by simpa using hhigh
      rw [if_pos hin, Nat.add_zero]
    | succ i =>
      simp only [take_succ_cons, flatMap_cons, length_append] at hlow hhigh
      rw [if_neg (by omega), ih (index + 1) (done + piece.length) i (by omega) (by omega)]
      congr 1
      omega

/-! ## Trimming -/

/-- The loop drops the least number of tokens that leaves no more than the bound, or one
token. -/
theorem trimPending_spec (keep : Nat) (pending : List (Nat × List UInt8)) :
    ∃ dropped ≤ pending.length,
      trimPending keep (pending.flatMap Prod.snd) pending =
        ((pending.drop dropped).flatMap Prod.snd, pending.drop dropped) ∧
      ∀ i < pending.length, dropped ≤ i ↔
        ((pending.drop i).flatMap Prod.snd).length ≤ keep ∨ pending.length ≤ i + 1 := by
  induction pending with
  | nil => exact ⟨0, Nat.le_refl 0, rfl, by simp⟩
  | cons first rest ih =>
    obtain ⟨token, piece⟩ := first
    cases rest with
    | nil => exact ⟨0, Nat.zero_le _, rfl, by simp⟩
    | cons next rest =>
      unfold trimPending
      by_cases hlong : keep < (((token, piece) :: next :: rest).flatMap Prod.snd).length
      · obtain ⟨dropped, hle, htrim, hiff⟩ := ih
        refine ⟨dropped + 1, by simpa using hle, ?_, ?_⟩
        · rw [if_pos hlong, flatMap_cons, drop_left]
          exact htrim
        · intro i hi
          cases i with
          | zero =>
            simp only [drop_zero, length_cons] at hlong ⊢
            omega
          | succ i =>
            rw [Nat.add_le_add_iff_right, hiff i (by simpa using hi), drop_succ_cons,
              length_cons (a := (token, piece)), Nat.add_le_add_iff_right]
      · refine ⟨0, Nat.zero_le _, by rw [if_neg hlong]; rfl, ?_⟩
        intro i hi
        refine iff_of_true (Nat.zero_le i) (.inl ?_)
        have hsplit := congrArg (fun xs => (xs.flatMap Prod.snd).length)
          (take_append_drop i ((token, piece) :: next :: rest))
        simp only [flatMap_append, length_append] at hsplit
        omega

/-! ## Commits before a trigger -/

/-- What `build` returns: an inactive grammar with triggers that are not empty. -/
structure Fresh (g : ToolGrammar K) : Prop where
  inactive : g.active = false
  buffer : g.triggerBuffer = []
  pending : g.pendingTokens = []
  triggers : ∀ trigger ∈ g.triggers, trigger ≠ []

/-- The bound of the loop. -/
def bound (g : ToolGrammar K) : Nat := ((g.triggers.map List.length).max?).getD 0 + 32

/-- The commits of several tokens. -/
def commitAll : ToolGrammar K → List Nat → ToolGrammar K × Except CudaError Unit
  | g, [] => (g, .ok ())
  | g, token :: rest =>
    match g.commit calls token with
    | (g, .error e) => (g, .error e)
    | (g, .ok ()) => commitAll g rest

/-- The tokens that a commit hands over to the constraint, if it sees a trigger. -/
def forcedTokens (g : ToolGrammar K) (token : Nat) : Option (List Nat) :=
  let piece := calls.decode g.constraint token
  let pending := g.pendingTokens ++ [(token, piece)]
  ((g.triggers.filterMap (findBytes (g.triggerBuffer ++ piece))).min?).map fun start =>
    (pending.drop ((firstTriggerToken start 0 0 pending).getD 0)).map Prod.fst

variable {calls}

/-- The grammar is active behind a commit exactly when the constraint has taken the tokens handed
over; then it is the constraint that was started with them. -/
theorem commit_handsOver {g : ToolGrammar K} {token : Nat} {tokens : List Nat}
    (hinactive : g.active = false) (h : forcedTokens calls g token = some tokens) :
    (g.commit calls token).1.constraint =
      (calls.forceTokens (calls.startWithoutPrompt g.constraint) tokens).1 ∧
    ((g.commit calls token).1.active = true ↔
      (calls.forceTokens (calls.startWithoutPrompt g.constraint) tokens).2 = .ok ()) ∧
    ((g.commit calls token).2 = .ok () ↔
      (calls.forceTokens (calls.startWithoutPrompt g.constraint) tokens).2 = .ok ()) := by
  obtain ⟨start, hstart, rfl⟩ := Option.map_eq_some_iff.mp h
  have hcommit : g.commit calls token = g.commitInactive calls token := by
    simp [commit, hinactive]
  rw [hcommit]
  unfold commitInactive
  dsimp only
  rw [hstart]
  dsimp only
  split <;> rename_i hforced
  · rw [hforced]
    exact ⟨rfl, by simp [hinactive], by simp⟩
  · rw [hforced]
    exact ⟨rfl, by simp, by simp⟩

/-- Without a trigger the commit only trims what is pending. -/
theorem commit_waits {g : ToolGrammar K} {token : Nat} (hinactive : g.active = false)
    (h : forcedTokens calls g token = none) :
    g.commit calls token =
      ({ g with
        triggerBuffer := (trimPending (bound g) (g.triggerBuffer ++ calls.decode g.constraint token)
          (g.pendingTokens ++ [(token, calls.decode g.constraint token)])).1
        pendingTokens := (trimPending (bound g) (g.triggerBuffer ++ calls.decode g.constraint token)
          (g.pendingTokens ++ [(token, calls.decode g.constraint token)])).2 }, .ok ()) := by
  have hnone := Option.map_eq_none_iff.mp h
  have hcommit : g.commit calls token = g.commitInactive calls token := by
    simp [commit, hinactive]
  rw [hcommit]
  unfold commitInactive
  dsimp only
  rw [hnone]
  rfl

/-- The grammar behind commits without a trigger: `kept` tokens have been dropped. -/
structure Waiting (calls : Constraint K) (g₀ g : ToolGrammar K) (tokens : List Nat) (kept : Nat) :
    Prop where
  constraint : g.constraint = g₀.constraint
  triggers : g.triggers = g₀.triggers
  inactive : g.active = false
  pending : g.pendingTokens = withPieces calls g₀.constraint (tokens.drop kept)
  buffer : g.triggerBuffer = textOf calls g₀.constraint (tokens.drop kept)
  within : kept ≤ tokens.length
  kept_iff : ∀ i < tokens.length, kept ≤ i ↔
    (textOf calls g₀.constraint (tokens.drop i)).length ≤ bound g₀ ∨ tokens.length ≤ i + 1

theorem waiting_start {g₀ : ToolGrammar K} (h : Fresh g₀) : Waiting calls g₀ g₀ [] 0 := { h with
  constraint := rfl
  triggers := rfl
  within := Nat.le_refl 0
  kept_iff := by simp }

section
variable {g₀ g : ToolGrammar K} {tokens : List Nat} {kept : Nat}

section
variable (h : Waiting calls g₀ g tokens kept)
include h

theorem Waiting.buffer_append (token : Nat) :
    g.triggerBuffer ++ calls.decode g.constraint token =
      textOf calls g₀.constraint ((tokens ++ [token]).drop kept) := by
  rw [drop_append_of_le_length h.within, textOf_append, h.buffer, h.constraint]
  simp [textOf]

theorem Waiting.pending_append (token : Nat) :
    g.pendingTokens ++ [(token, calls.decode g.constraint token)] =
      withPieces calls g₀.constraint ((tokens ++ [token]).drop kept) := by
  rw [drop_append_of_le_length h.within, h.pending, h.constraint]
  simp [withPieces]

theorem Waiting.bound_eq : bound g = bound g₀ := by
  rw [bound, h.triggers, bound]

theorem Waiting.commit (hne : ∀ trigger ∈ g₀.triggers, trigger ≠ []) {token : Nat}
    (hquiet : NoTrigger g₀.triggers (textOf calls g₀.constraint (tokens ++ [token]))) :
    ∃ g' kept', g.commit calls token = (g', .ok ()) ∧
      Waiting calls g₀ g' (tokens ++ [token]) kept' := by
  have hnone : forcedTokens calls g token = none := by
    unfold forcedTokens
    rw [Option.map_eq_none_iff, h.buffer_append token, h.triggers, min_findBytes_eq_none hne]
    rw [← textOf_take_drop calls g₀.constraint (tokens ++ [token]) kept] at hquiet
    exact hquiet.right
  obtain ⟨dropped, hle, htrim, hiff⟩ := trimPending_spec (bound g₀)
    (withPieces calls g₀.constraint ((tokens ++ [token]).drop kept))
  rw [flatMap_withPieces] at htrim
  have hwithin := h.within
  have hlength : (withPieces calls g₀.constraint ((tokens ++ [token]).drop kept)).length =
      tokens.length + 1 - kept := by simp [withPieces]
  have hdrop : ∀ i, (withPieces calls g₀.constraint ((tokens ++ [token]).drop kept)).drop i =
      withPieces calls g₀.constraint ((tokens ++ [token]).drop (kept + i)) := by
    intro i
    rw [withPieces, ← map_drop, drop_drop, withPieces]
  refine ⟨_, kept + dropped, commit_waits h.inactive hnone, ?_⟩
  rw [h.buffer_append token, h.pending_append token, h.bound_eq, htrim, hdrop dropped,
    flatMap_withPieces]
  exact { h with
    pending := rfl
    buffer := rfl
    within := by
      rw [length_append, length_singleton]
      omega
    kept_iff := by
      intro i hi
      rw [length_append, length_singleton] at hi ⊢
      by_cases hkept : kept ≤ i
      · obtain ⟨j, rfl⟩ := Nat.exists_eq_add_of_le hkept
        have hplace := hiff j (by omega)
        rw [hdrop j, flatMap_withPieces, hlength] at hplace
        rw [Nat.add_le_add_iff_left, hplace]
        refine or_congr_right ?_
        omega
      · -- A token that was dropped before stays dropped, as the text behind it only grows.
        have hgone := mt (h.kept_iff i (by omega)).mpr hkept
        rw [drop_append_of_le_length (by omega), textOf_append, length_append]
        omega }

/-- A commit that completes a trigger: the tokens handed over are those from the one with the
trigger's first byte on exactly when that token is still pending. -/
theorem Waiting.forcedTokens_iff
    (hne : ∀ trigger ∈ g₀.triggers, trigger ≠ []) {token start first : Nat}
    (htrigger : TriggerAt g₀.triggers (textOf calls g₀.constraint (tokens ++ [token])) start)
    (hfirst : HoldsByte calls g₀.constraint (tokens ++ [token]) first start) :
    forcedTokens calls g token = some ((tokens ++ [token]).drop first) ↔ kept ≤ first := by
  have hwithin := h.within
  constructor
  · intro hforced
    obtain ⟨found, hfound, htokens⟩ := Option.map_eq_some_iff.mp hforced
    rw [h.pending_append token] at htokens
    have hlength := congrArg length htokens
    simp only [withPieces, length_map, length_drop, length_append, length_singleton] at hlength
    omega
  · intro hkept
    have hsplit := textOf_take_drop calls g₀.constraint (tokens ++ [token]) kept
    have hoffset : (textOf calls g₀.constraint ((tokens ++ [token]).take kept)).length ≤ start := by
      refine le_trans ?_ hfirst.1
      have hprefix : (tokens ++ [token]).take kept <+: (tokens ++ [token]).take first :=
        take_prefix_take_left hkept
      obtain ⟨rest, hrest⟩ := hprefix
      rw [← hrest, textOf_append, length_append]
      omega
    rw [← hsplit] at htrigger
    have hstart := htrigger.right hoffset
    have hparts : ∀ j, textOf calls g₀.constraint ((tokens ++ [token]).take (kept + j)) =
        textOf calls g₀.constraint ((tokens ++ [token]).take kept) ++
          textOf calls g₀.constraint (((tokens ++ [token]).drop kept).take j) := by
      intro j
      rw [take_add, textOf_append]
    obtain ⟨j, rfl⟩ := Nat.exists_eq_add_of_le hkept
    have hlow := hfirst.1
    have hhigh := hfirst.2
    rw [hparts, length_append] at hlow
    rw [Nat.add_assoc, hparts, length_append] at hhigh
    have hpieces : ∀ i, ((withPieces calls g₀.constraint ((tokens ++ [token]).drop kept)).take
        i).flatMap Prod.snd = textOf calls g₀.constraint (((tokens ++ [token]).drop kept).take i) := by
      intro i
      rw [withPieces, ← map_take]
      exact flatMap_withPieces calls g₀.constraint _
    unfold forcedTokens
    dsimp only
    rw [h.buffer_append token, h.pending_append token, h.triggers,
      (min_findBytes_eq_some hne).mpr hstart, Option.map_some,
      firstTriggerToken_eq _ 0 0 j (by rw [hpieces]; omega) (by rw [hpieces]; omega)]
    simp [withPieces, ← map_drop, Function.comp_def]

end

end

theorem commitAll_waits {g₀ : ToolGrammar K} (hfresh : Fresh g₀) (tokens : List Nat)
    (hquiet : NoTrigger g₀.triggers (textOf calls g₀.constraint tokens)) :
    ∃ g kept, commitAll calls g₀ tokens = (g, .ok ()) ∧ Waiting calls g₀ g tokens kept := by
  have hrun : ∀ (rest done : List Nat) (g : ToolGrammar K) (kept : Nat),
      NoTrigger g₀.triggers (textOf calls g₀.constraint (done ++ rest)) →
      Waiting calls g₀ g done kept →
      ∃ g' kept', commitAll calls g rest = (g', .ok ()) ∧
        Waiting calls g₀ g' (done ++ rest) kept' := by
    intro rest
    induction rest with
    | nil =>
      intro done g kept _ h
      exact ⟨g, kept, rfl, by simpa using h⟩
    | cons token rest ih =>
      intro done g kept hquiet h
      have hnext : NoTrigger g₀.triggers (textOf calls g₀.constraint (done ++ [token])) := by
        intro trigger hmem i hoccurs
        refine hquiet trigger hmem i ?_
        rw [append_cons, textOf_append, drop_append]
        exact hoccurs.trans (prefix_append _ _)
      obtain ⟨middle, kept', hone, hmiddle⟩ := h.commit hfresh.triggers hnext
      obtain ⟨last, kept'', hall, hlast⟩ :=
        ih (done ++ [token]) middle kept' (by simpa using hquiet) hmiddle
      refine ⟨last, kept'', ?_, by simpa using hlast⟩
      rw [commitAll, hone]
      exact hall
  simpa using hrun tokens [] g₀ 0 (by simpa using hquiet) (waiting_start hfresh)

/-! ## The commit that completes a trigger -/

/-- The commit starts the constraint with the tokens, and the grammar is active if they are
accepted. -/
structure StartsWith (calls : Constraint K) (g : ToolGrammar K) (token : Nat) (tokens : List Nat) :
    Prop where
  handed : forcedTokens calls g token = some tokens
  constraint : (g.commit calls token).1.constraint =
    (calls.forceTokens (calls.startWithoutPrompt g.constraint) tokens).1
  active : (g.commit calls token).1.active = true ↔
    (calls.forceTokens (calls.startWithoutPrompt g.constraint) tokens).2 = .ok ()

/-- Tokens without a trigger leave the grammar inactive. A token behind them that completes the
first trigger starts the constraint with the tokens from the one with the trigger's first byte
on, exactly when that one is among the last two or the text from it up to the new token is within
the bound. -/
theorem trigger_hands_over_iff {g₀ : ToolGrammar K} (hfresh : Fresh g₀) (tokens : List Nat)
    (hquiet : NoTrigger g₀.triggers (textOf calls g₀.constraint tokens)) :
    ∃ g, commitAll calls g₀ tokens = (g, .ok ()) ∧ g.active = false ∧
      g.constraint = g₀.constraint ∧ ∀ token,
        (NoTrigger g₀.triggers (textOf calls g₀.constraint (tokens ++ [token])) →
          (g.commit calls token).2 = .ok () ∧ (g.commit calls token).1.active = false) ∧
        ∀ start first,
          TriggerAt g₀.triggers (textOf calls g₀.constraint (tokens ++ [token])) start →
          HoldsByte calls g₀.constraint (tokens ++ [token]) first start →
          (StartsWith calls g token ((tokens ++ [token]).drop first) ↔
            (textOf calls g₀.constraint (tokens.drop first)).length ≤ bound g₀ ∨
              tokens.length ≤ first + 1) := by
  obtain ⟨g, kept, hall, h⟩ := commitAll_waits hfresh tokens hquiet
  refine ⟨g, hall, h.inactive, h.constraint, fun token => ⟨?_, ?_⟩⟩
  · intro hstill
    obtain ⟨g', kept', hcommit, h'⟩ := h.commit hfresh.triggers hstill
    rw [hcommit]
    exact ⟨rfl, h'.inactive⟩
  · intro start first htrigger hfirst
    have hkept : kept ≤ first ↔ (textOf calls g₀.constraint (tokens.drop first)).length ≤ bound g₀ ∨
        tokens.length ≤ first + 1 := by
      by_cases hinside : first < tokens.length
      · exact h.kept_iff first hinside
      · have hwithin := h.within
        exact iff_of_true (by omega) (.inr (by omega))
    rw [← hkept, ← h.forcedTokens_iff hfresh.triggers htrigger hfirst]
    constructor
    · exact fun hstarts => hstarts.handed
    · intro hforced
      obtain ⟨hconstraint, hactive, -⟩ := commit_handsOver h.inactive hforced
      exact ⟨hforced, hconstraint, hactive⟩

/-! A constraint that takes everything, and a grammar with the trigger `<tool_call>`. Token 0 is
44 dashes and the beginning of the trigger, the rest of it is token 3 or tokens 1 and 2. -/

def asciiBytes (s : String) : List UInt8 := s.toList.map fun c => UInt8.ofNat c.toNat

def spellingCalls : Constraint Unit where
  decode := fun _ token =>
    if token = 0 then List.replicate 44 45 ++ asciiBytes "<tool_"
    else if token = 1 then asciiBytes "c"
    else if token = 2 then asciiBytes "all>" else asciiBytes "call>"
  hasPendingStop := fun _ => false
  startWithoutPrompt := id
  forceTokens := fun k _ => (k, .ok ())
  computeMask := fun k => (k, .ok none)
  stepMask := fun _ => none
  commitToken := fun k _ => (k, .ok ())

def spellingGrammar : ToolGrammar Unit where
  constraint := ()
  maskWords := 1
  triggers := [asciiBytes "<tool_call>"]
  triggerBuffer := []
  pendingTokens := []
  active := false
  maskPending := false

theorem spellingGrammar_fresh : Fresh spellingGrammar where
  inactive := rfl
  buffer := rfl
  pending := rfl
  triggers := by decide

theorem spelling_quiet (tokens : List Nat)
    (h : (spellingGrammar.triggers.filterMap (findBytes (textOf spellingCalls () tokens))).min? =
      none) : NoTrigger spellingGrammar.triggers (textOf spellingCalls () tokens) :=
  (min_findBytes_eq_none spellingGrammar_fresh.triggers).mp h

theorem spelling_trigger (tokens : List Nat)
    (h : (spellingGrammar.triggers.filterMap (findBytes (textOf spellingCalls () tokens))).min? =
      some 44) : TriggerAt spellingGrammar.triggers (textOf spellingCalls () tokens) 44 :=
  (min_findBytes_eq_some spellingGrammar_fresh.triggers).mp h

theorem spelling_first (rest : List Nat) : HoldsByte spellingCalls () (0 :: rest) 0 44 := by
  unfold HoldsByte
  simp [textOf, spellingCalls, asciiBytes]

/-- The token with the first byte of the trigger is dropped before the trigger is complete, and
the grammar never sees it. -/
theorem spelled_trigger_is_missed :
    ¬ ∀ (calls : Constraint Unit) (g₀ : ToolGrammar Unit), Fresh g₀ →
      ∀ (tokens : List Nat) (token start first : Nat),
        NoTrigger g₀.triggers (textOf calls g₀.constraint tokens) →
        TriggerAt g₀.triggers (textOf calls g₀.constraint (tokens ++ [token])) start →
        HoldsByte calls g₀.constraint (tokens ++ [token]) first start →
        StartsWith calls (commitAll calls g₀ tokens).1 token ((tokens ++ [token]).drop first) := by
  intro hall
  have hstarts := hall spellingCalls spellingGrammar spellingGrammar_fresh [0, 1] 2 44 0
    (spelling_quiet [0, 1] (by decide +kernel)) (spelling_trigger _ (by decide +kernel))
    (spelling_first _)
  have hmissed : forcedTokens spellingCalls (commitAll spellingCalls spellingGrammar [0, 1]).1 2 =
      none := by decide +kernel
  rw [hstarts.handed] at hmissed
  cases hmissed

/-- A trigger whose first byte lies in the token before is handed over from that token on. -/
theorem spelled_trigger_condition :
    ∃ g, commitAll spellingCalls spellingGrammar [0] = (g, .ok ()) ∧ g.active = false ∧
      StartsWith spellingCalls g 3 [0, 3] := by
  obtain ⟨g, hall, hinactive, -, hnext⟩ := trigger_hands_over_iff spellingGrammar_fresh [0]
    (spelling_quiet [0] (by decide +kernel))
  exact ⟨g, hall, hinactive, ((hnext 3).2 44 0 (spelling_trigger _ (by decide +kernel))
    (spelling_first _)).mpr (.inr le_rfl)⟩

end Eider.Guarantees.ToolTrigger
