import SyntaxForest.Proofs.Captures

/-!
# How captures are laid out

`Captures.Made m origins` says that binding alone has made the captures `m` of the empty ones, and
that `origins` are the arenas of the bound nodes, each as it was when the node was bound.  Such
captures are `Orderly`: the trail lists each group of the table once; the copies are the roots of
the private arena, and what is below them divides its ids into blocks, one after the other, with
nothing left over; and each copy is still equal to what was bound.

One more binding keeps all of this.  The copy is put behind the old records, which stay as they are
(`Edit.isPrefix_of_importFrom`), so the old blocks stay where they are; and it is in one piece
(`Edit.liesAt_of_importFrom`), so what is added to the arena is one block more.

Going back may cut the private arena off.  The copies that are kept are still equal to what was
bound if and only if nothing that they reach is cut off (`CopiesAgree.back_iff`).
-/

namespace SyntaxForest

namespace Arena

/-! ### Blocks of ids -/

/-- What is at or below the first of the nodes are the ids from `start` up to some id, where the
block of the second node starts, and so on; the last block ends where the arena ends. -/
def Tiles (a : Arena) : Nat → List NodeId → Prop
  | start, [] => start = a.size
  | start, x :: xs => x = start ∧ ∃ stop : Nat, start < stop ∧
      (∀ n : Nat, a.AtOrBelow x n ↔ start ≤ n ∧ n < stop) ∧ Tiles a stop xs

theorem Tiles.le_size {a : Arena} :
    ∀ {xs : List NodeId} {start : Nat}, a.Tiles start xs → start ≤ a.size
  | [], _, h => Nat.le_of_eq h
  | _ :: _, _, ⟨_, _, hlt, _, hrest⟩ => Nat.le_trans (Nat.le_of_lt hlt) hrest.le_size

section Block

variable {a b : Arena} (ha : a.WellFormed) (hb : b.WellFormed) (hab : a.IsPrefix b)
  (hlt : a.size < b.size) (hblock : ∀ n : Nat, b.AtOrBelow a.size n ↔ a.size ≤ n ∧ n < b.size)

include ha hb hab hlt hblock

/-- What is added to an arena in one piece is one block more. -/
theorem Tiles.append_block :
    ∀ {xs : List NodeId} {start : Nat}, a.Tiles start xs → b.Tiles start (xs ++ [a.size])
  | [], start, h => by
    obtain rfl : start = a.size := h
    exact ⟨rfl, b.size, hlt, hblock, rfl⟩
  | x :: xs, start, ⟨hx, stop, hstop, hbelow, hrest⟩ => by
    -- the node is an old one, so nothing has come below it
    have hold : start < a.size := Nat.lt_of_lt_of_le hstop hrest.le_size
    subst hx
    refine ⟨rfl, stop, hstop, fun n => ?_, hrest.append_block⟩
    rw [ha.atOrBelow_iff_of_isPrefix hb hab hold, hbelow]

/-- What is added to an arena in one piece is one root more. -/
theorem parent?_eq_none_iff_of_block {n : Nat} :
    b.parent? n = .ok none ↔ a.parent? n = .ok none ∨ n = a.size := by
  simp only [parent?_eq_ok_iff]
  rcases Nat.lt_trichotomy n a.size with hn | rfl | hn
  · obtain ⟨d, hd⟩ := exists_node?_of_lt hn
    rw [hd, hab n d hd]
    simp [Nat.ne_of_lt hn]
  · obtain ⟨d, hd⟩ := exists_node?_of_lt hlt
    exact iff_of_true ⟨d, hd, ha.parent_eq_none_of_block hb hab hblock hd⟩ (.inr rfl)
  · refine iff_of_false ?_ ?_
    · -- the other new nodes are below the first
      rintro ⟨d, hd, hnone⟩
      rcases (hblock n).mpr ⟨Nat.le_of_lt hn, lt_size_of_node? hd⟩ with rfl | hbelow
      · exact Nat.lt_irrefl _ hn
      · exact Ancestor.not_of_root hd hnone hbelow
    · rintro (⟨d, hd, -⟩ | rfl)
      · exact Nat.lt_asymm hn (lt_size_of_node? hd)
      · exact Nat.lt_irrefl _ hn

end Block

end Arena

namespace Captures

variable {m m' : Captures} {C : Arena} {Z : NodeId → Prop} {origins : List Arena} {g : String}

/-! ### The arenas of the bound nodes -/

/-- What one more binding keeps, growth keeps, with the candidate for the origin of every new
binding. -/
theorem Grown.carry {I : Captures → List Arena → Prop} (h : Grown C Z m m') (hm : I m origins)
    (hbind : ∀ {m : Captures} {origins : List Arena} {a : Arena} {g : String} {c : NodeId}
      {t : Tree}, I m origins → m.find? g = none → t.IsAt C c →
      Edit.importFrom C c m.arena = .ok m.arena.size a →
      I (m.record ⟨g, c, m.arena.size⟩ a) (origins ++ [C])) :
    I m' (origins ++ List.replicate (m'.size - m.size) C) := by
  induction h with
  | refl =>
    rw [Nat.sub_self, List.replicate_zero, List.append_nil]
    exact hm
  | @bind m₁ a g c t hgrown hg _ ht hcopy ih =>
    rw [size_record, Nat.succ_sub hgrown.precedes.size_le, List.replicate_succ',
      ← List.append_assoc]
    exact hbind ih hg ht hcopy

/-- What all captures have, whatever they have gone back to: the trail lists each group of the table
once, and the private arena describes a forest. -/
structure Sound (m : Captures) : Prop where
  keyed : m.Keyed
  wellFormed : m.arena.WellFormed

namespace Sound

theorem empty : Captures.empty.Sound := ⟨keyed_empty, Arena.wellFormed_empty⟩

theorem grown (hm : m.Sound) (hC : C.WellFormed) (h : Grown C Z m m') : m'.Sound := by
  induction h with
  | refl => exact hm
  | @bind m₁ a g c t _ hg _ ht hcopy ih =>
    refine ⟨ih.keyed.record hg a, ?_⟩
    have hkept := Edit.keeps_importFrom hC c m₁.arena ih.wellFormed
    rwa [Edit.after_of_ok hcopy] at hkept

theorem back (hm : m.Sound) (cp : Checkpoint) : (m.back cp).Sound :=
  ⟨hm.keyed.back cp, wellFormed_back hm.wellFormed cp⟩

end Sound

/-- Each copy is equal to the node that was bound, in the arena it was bound in. -/
def CopiesAgree (m : Captures) (origins : List Arena) : Prop :=
  List.Forall₂ (fun b C => Arena.structurallyEqual C b.node m.arena b.copy = .ok true) m.bindings
    origins

theorem CopiesAgree.bind {a : Arena} {c : NodeId} {t : Tree} (h : m.CopiesAgree origins)
    (hm : m.Keyed) (hg : m.find? g = none) (ht : t.IsAt C c)
    (hcopy : Edit.importFrom C c m.arena = .ok m.arena.size a) :
    (m.record ⟨g, c, m.arena.size⟩ a).CopiesAgree (origins ++ [C]) := by
  rw [CopiesAgree, hm.bindings_record hg]
  refine List.rel_append (h.imp fun b D heq => ?_) (.cons ?_ .nil)
  · obtain ⟨u, hnode, hu⟩ := Arena.structurallyEqual_eq_true_iff.mp heq
    exact Arena.structurallyEqual_eq_true_iff.mpr
      ⟨u, hnode, hu.mono (Edit.isPrefix_of_importFrom ht hcopy)⟩
  · exact Arena.structurallyEqual_eq_true_iff.mpr
      ⟨t, ht, (Edit.liesAt_of_importFrom ht hcopy).isAt⟩

/-- If going back to the checkpoint cuts the arena off, all that the copies it keeps reach comes
before the cut. -/
def Spares (m : Captures) (cp : Checkpoint) : Prop :=
  m.Cuts cp → ∀ b ∈ m.bindings.take cp.bindings, ∀ n : Nat, m.arena.Reaches b.copy n → n < cp.nodes

/-- **Going back** to any checkpoint keeps the copies equal to what was bound if and only if it
spares them. -/
theorem CopiesAgree.back_iff (h : m.CopiesAgree origins) (hm : m.Keyed) (cp : Checkpoint) :
    (m.back cp).CopiesAgree (origins.take cp.bindings) ↔ m.Spares cp := by
  have hkept := List.forall₂_take cp.bindings h
  rw [CopiesAgree, hm.bindings_back]
  by_cases hcuts : m.Cuts cp
  · rw [back_of_cuts hcuts, Spares, forall_prop_of_true hcuts]
    constructor
    · intro hagree b hb n hn
      obtain ⟨C, -, heq⟩ := exists_of_forall₂_left hagree hb
      obtain ⟨t, -, ht⟩ := Arena.structurallyEqual_eq_true_iff.mp heq
      exact Arena.lt_of_isAt_cut ht hn
    · intro hspares
      refine ((List.forall₂_and_left _ _).mpr ⟨hspares, hkept⟩).imp fun b C hb => ?_
      obtain ⟨hcut, heq⟩ := hb
      obtain ⟨t, hnode, ht⟩ := Arena.structurallyEqual_eq_true_iff.mp heq
      exact Arena.structurallyEqual_eq_true_iff.mpr ⟨t, hnode, Arena.isAt_cut ht hcut⟩
  · -- nothing is cut off
    rw [back_of_not_cuts hcuts]
    exact iff_of_true hkept fun h => absurd h hcuts

/-! ### Captures that were made -/

/-- Binding alone makes the captures of the empty ones; the nodes were bound in these arenas. -/
inductive Made : Captures → List Arena → Prop
  | empty : Made .empty []
  | bind {m : Captures} {origins : List Arena} {C a : Arena} {g : String} {c : NodeId} {t : Tree}
    (h : Made m origins) (hC : C.WellFormed) (hg : m.find? g = none) (ht : t.IsAt C c)
    (hcopy : Edit.importFrom C c m.arena = .ok m.arena.size a) :
    Made (m.record ⟨g, c, m.arena.size⟩ a) (origins ++ [C])

/-- The shape that captures have. -/
structure Orderly (m : Captures) (origins : List Arena) : Prop extends Sound m where
  /-- The roots of the private arena are the copies. -/
  root_iff : ∀ n : Nat, m.arena.parent? n = .ok none ↔ n ∈ m.bindings.map (·.copy)
  /-- The copies divide it into blocks, in the order of the bindings. -/
  tiles : m.arena.Tiles 0 (m.bindings.map (·.copy))
  copiesAgree : m.CopiesAgree origins

namespace Made

theorem length_origins (h : Made m origins) : origins.length = m.size := by
  induction h with
  | empty => rfl
  | bind _ _ _ _ _ ih => simp [ih]

theorem grown (h : Made m origins) (hC : C.WellFormed) (hgrown : Grown C Z m m') :
    Made m' (origins ++ List.replicate (m'.size - m.size) C) :=
  hgrown.carry h fun hm hg ht hcopy => hm.bind hC hg ht hcopy

/-- **The shape of captures**: the empty ones have it, and one more binding keeps it. -/
theorem orderly (h : Made m origins) : m.Orderly origins := by
  induction h with
  | empty =>
    refine ⟨.empty, fun n => ?_, rfl, .nil⟩
    rw [Arena.parent?_eq_ok_iff]
    simp [Captures.empty, Arena.empty, bindings, Arena.node?]
  | @bind m origins C a g c t _ hC hg ht hcopy ih =>
    have hab := Edit.isPrefix_of_importFrom ht hcopy
    have hsize := Edit.size_of_importFrom ht hcopy
    have hlt : m.arena.size < a.size := by
      have := t.size_pos
      omega
    have hsound : (m.record ⟨g, c, m.arena.size⟩ a).Sound :=
      ih.toSound.grown hC ((Grown.refl (Z := fun _ => True)).bind hg trivial ht hcopy)
    have hw : a.WellFormed := hsound.wellFormed
    -- the copy takes the ids from the old end to the new one
    have hblock : ∀ n : Nat, a.AtOrBelow m.arena.size n ↔ m.arena.size ≤ n ∧ n < a.size := by
      intro n
      rw [← hw.reaches_iff hlt, (Edit.liesAt_of_importFrom ht hcopy).reaches_iff, hsize]
    have hbindings := ih.keyed.bindings_record (b := ⟨g, c, m.arena.size⟩) hg a
    refine ⟨hsound, fun n => ?_, ?_, ih.copiesAgree.bind ih.keyed hg ht hcopy⟩
    · rw [hbindings]
      show a.parent? n = .ok none ↔ _
      rw [Arena.parent?_eq_none_iff_of_block ih.wellFormed hw hab hlt hblock, ih.root_iff,
        List.map_append, List.mem_append]
      simp
    · rw [hbindings, List.map_append]
      exact ih.tiles.append_block ih.wellFormed hw hab hlt hblock

end Made

end Captures

end SyntaxForest
