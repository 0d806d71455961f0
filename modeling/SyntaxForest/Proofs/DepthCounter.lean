import SyntaxForest.Matching.Matcher
import Mathlib.Tactic.SplitIfs

/-!
# The counter of levels

`Matching.matchNode` is told how many levels are left.  A matcher may as well keep one counter for
the whole match, which goes up when a node is entered and down when the node is done with, and
compare it with the limit.  Whatever happens in between, the counter is back where it was, so that
it always is the number of levels above the node (`Matching.counts_countedNode`).  Hence the counter
makes no difference (`Matching.doMatch_eq_counted`).

What one level does is the same in both cases, `Matching.matchLevel`; only the way to enter the
nodes below is another.  `Counts depth x y` says that `x`, begun with the counter at `depth`, does
what `y` does and leaves the counter there.
-/

namespace SyntaxForest

namespace Matching

/-- A part of a match that keeps count of the levels. -/
abbrev Counted := StateT Nat Matching

/-- Match a pattern node, with a counter for the levels above it. -/
def countedNode (pattern candidate : Arena) (maxDepth : Nat) :
    Nat → NodeId → Option NodeId → Counted Bool
  | 0, _, _ => throw .endless
  | fuel + 1, p, c => do
    if maxDepth ≤ (← get) then
      warn maxDepth p
      return false
    else
      modify (· + 1)
      let matched ←
        matchLevel pattern candidate (countedNode pattern candidate maxDepth fuel) p c
      modify (· - 1)
      return matched

/-- Match the pattern at `p` with the candidate at `c`, with a counter that starts at zero. -/
def doMatchCounted (pattern : Arena) (p : NodeId) (candidate : Arena) (c : NodeId)
    (maxDepth : Nat) : Matching Bool := do
  let cp ← checkpoint
  if ← (countedNode pattern candidate maxDepth (maxDepth + 1) p (some c)).run' 0 then return true
  else
    restore cp
    return false

/-- Begun at `depth`, the part `x` does what `y` does, and the counter is at `depth` again. -/
def Counts {α : Type} (depth : Nat) (x : Counted α) (y : Matching α) : Prop :=
  x.run depth = y >>= fun v => pure (v, depth)

section Counts

variable {α β : Type} {depth : Nat}

theorem counts_pure (v : α) : Counts depth (pure v) (pure v) := rfl

/-- What has nothing to do with the counter leaves it alone. -/
theorem counts_lift (y : Matching α) : Counts depth (liftM y) (liftM y) := rfl

theorem Counts.bind {x : Counted α} {y : Matching α} {f : α → Counted β} {g : α → Matching β}
    (hx : Counts depth x y) (hf : ∀ v, Counts depth (f v) (g v)) :
    Counts depth (x >>= f) (y >>= g) := by
  unfold Counts at hx hf ⊢
  rw [StateT.run_bind, hx, bind_assoc, bind_assoc]
  simp only [pure_bind, hf]

theorem counts_allM {f : α → Counted Bool} {g : α → Matching Bool}
    (hf : ∀ x, Counts depth (f x) (g x)) : ∀ xs : List α, Counts depth (xs.allM f) (xs.allM g)
  | [] => counts_pure true
  | x :: xs => by
    rw [List.allM, List.allM]
    refine (hf x).bind fun v => ?_
    cases v with
    | false => exact counts_pure false
    | true => exact counts_allM hf xs

end Counts

/-! ### One level -/

section Level

variable {P C : Arena} {depth : Nat} {enter : NodeId → Option NodeId → Counted Bool}
  {enter' : NodeId → Option NodeId → Matching Bool}
  (henter : ∀ p c, Counts depth (enter p c) (enter' p c))

include henter

theorem counts_matchRole (p c : NodeId) (r : RoleId) :
    Counts depth (matchRole P C enter p c r) (matchRole P C enter' p c r) := by
  unfold matchRole
  cases r.cardinality with
  | single =>
    refine (counts_lift _).bind fun p' => (counts_lift _).bind fun c' => ?_
    cases p' with
    | none => cases c' <;> exact counts_pure _
    | some p' => exact henter p' c'
  | many =>
    refine (counts_lift _).bind fun ps => (counts_lift _).bind fun cs => ?_
    split_ifs
    · exact counts_allM (fun x => henter x.1 (some x.2)) (ps.zip cs)
    · exact counts_pure false

theorem counts_matchConcrete (p : NodeId) (k : Kind) (c : NodeId) :
    Counts depth (matchConcrete P C enter p k c) (matchConcrete P C enter' p k c) := by
  unfold matchConcrete
  refine (counts_lift _).bind fun k' => ?_
  split_ifs
  · exact counts_allM (counts_matchRole henter p c) k.comparedRoles
  · exact counts_pure false

theorem counts_tryEach (c : Option NodeId) : ∀ ps : List NodeId,
    Counts depth (tryEach enter c ps) (tryEach enter' c ps)
  | [] => counts_pure false
  | p :: ps => by
    rw [tryEach, tryEach]
    refine (counts_lift _).bind fun cp => (henter p c).bind fun v => ?_
    cases v with
    | false => exact (counts_lift _).bind fun _ => counts_tryEach c ps
    | true => exact counts_pure true

theorem counts_matchPlaceholder (p : NodeId) (x : Placeholder) (c : Option NodeId) :
    Counts depth (matchPlaceholder P C enter p x c) (matchPlaceholder P C enter' p x c) := by
  cases x with
  | any group =>
    cases c with
    | none => exact counts_pure false
    | some c => exact counts_lift (bindOptional C group c)
  | anyOrNull group =>
    cases c with
    | none => exact counts_pure true
    | some c => exact counts_lift (bindOptional C group c)
  | backreference group =>
    refine (counts_lift (binding? group)).bind fun b => ?_
    cases b with
    | none => exact counts_pure false
    | some b =>
      cases c with
      | none => exact counts_pure false
      | some c => exact counts_lift (agrees C b c)
  | named group =>
    refine (counts_lift (ask (P.child? p .patternChild))).bind fun inner => ?_
    cases inner with
    | none => exact counts_pure false
    | some inner =>
      cases c with
      | none => exact counts_pure false
      | some c =>
        refine (henter inner (some c)).bind fun v => ?_
        cases v with
        | false => exact counts_pure false
        | true => exact counts_lift (Matching.bind C group c)
  | choice =>
    exact (counts_lift (ask (P.childrenUnder p .alternative))).bind fun ps =>
      counts_tryEach henter c ps

/-- **One level**: it leaves the counter alone if the nodes below do. -/
theorem counts_matchLevel (p : NodeId) (c : Option NodeId) :
    Counts depth (matchLevel P C enter p c) (matchLevel P C enter' p c) := by
  unfold matchLevel
  refine (counts_lift _).bind fun k => ?_
  cases k with
  | pattern x => exact counts_matchPlaceholder henter p x c
  | token _ | identifier _ | expression _ | statement _ =>
    cases c with
    | none => exact counts_pure false
    | some c => exact counts_matchConcrete henter p _ c

end Level

/-! ### All levels -/

variable {P C : Arena}

/-- **All levels**: with the counter at the number of levels above the node, there are as many left
as the limit allows, and the counter is put back. -/
theorem counts_countedNode {maxDepth : Nat} {left depth : Nat} (h : depth + left = maxDepth)
    (p : NodeId) (c : Option NodeId) :
    Counts depth (countedNode P C maxDepth (left + 1) p c) (matchNode P C maxDepth left p c) := by
  induction left generalizing depth p c with
  | zero =>
    rw [Counts, countedNode, StateT.run_bind, StateT.run_get, pure_bind,
      if_pos (show maxDepth ≤ depth by omega)]
    rfl
  | succ left ih =>
    have hbelow := counts_matchLevel (P := P) (C := C)
      (ih (show depth + 1 + left = maxDepth by omega)) p c
    rw [Counts] at hbelow
    rw [Counts, countedNode, StateT.run_bind, StateT.run_get, pure_bind,
      if_neg (show ¬ maxDepth ≤ depth by omega), StateT.run_bind, StateT.run_modify, pure_bind,
      StateT.run_bind, hbelow, bind_assoc]
    simp only [pure_bind, StateT.run_bind, StateT.run_modify, StateT.run_pure, Nat.add_sub_cancel]
    rfl

/-- **The counter makes no difference.** -/
theorem doMatch_eq_counted (p c : NodeId) (maxDepth : Nat) :
    doMatch P p C c maxDepth = doMatchCounted P p C c maxDepth := by
  have hcounts := counts_countedNode (P := P) (C := C) (Nat.zero_add maxDepth) p (some c)
  rw [Counts] at hcounts
  have hnode : (countedNode P C maxDepth (maxDepth + 1) p (some c)).run' 0 =
      matchNode P C maxDepth maxDepth p (some c) := by
    show (·.1) <$> (countedNode P C maxDepth (maxDepth + 1) p (some c)).run 0 = _
    rw [hcounts]
    simp
  rw [doMatch, doMatchCounted, hnode]

end Matching

end SyntaxForest
