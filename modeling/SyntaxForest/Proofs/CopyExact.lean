import SyntaxForest.Proofs.Reachable

/-!
# Copies are exact

What is known of a copy by trees (`Edit.importFrom_of_isAt`) is put here in terms of what a user sees
of it.  The copy is a new root with the next id, and it stands for the same tree as its original.
The nodes that were there before are as they were.  The new ids are those that a walk from the copy
comes by, and there are as many of them as a walk from the original comes by
(`Edit.exists_isCopy`).

A copy within an arena is the copy out of a snapshot of the arena, id by id, though it reads from
the arena that it extends (`Edit.cloneSubtree_eq_importFrom`).
-/

namespace SyntaxForest

namespace Arena

/-- The arena `b` is `T` with a copy of the subtree at the node `n` of `S`. -/
structure IsCopy (S : Arena) (n : NodeId) (T b : Arena) : Prop where
  /-- The copy is a root. -/
  root : b.parent? T.size = .ok none
  /-- The copy and its original stand for the same tree. -/
  tree : ∃ t : Tree, t.IsAt S n ∧ t.IsAt b T.size
  /-- The nodes that were there before are as they were. -/
  old : ∀ m < T.size, b.node? m = T.node? m
  /-- The new ids are the copy and what is below it, as many as the original and what is below. -/
  block : ∃ originals copies, S.descendants n = .ok originals ∧ b.descendants T.size = .ok copies ∧
    originals.Nodup ∧ copies.Nodup ∧ (∀ m : Nat, m ∈ copies ↔ T.size ≤ m ∧ m < b.size) ∧
      copies.length = originals.length ∧ b.size = T.size + originals.length

/-- A walk lists the nodes of a tree once each. -/
theorem WellFormed.exists_descendants {a : Arena} (hw : a.WellFormed) {n : Nat} {t : Tree}
    (ht : t.IsAt a n) :
    ∃ ns, a.descendants n = .ok ns ∧ ns.Nodup ∧ ns.length = t.size ∧
      ∀ m : Nat, m ∈ ns ↔ a.AtOrBelow n m := by
  obtain ⟨ns, hrec, hns⟩ := hw.exists_preorder_eq_descendants ht.lt_size
  exact ⟨ns, hns, nodup_preorder hw hrec, length_preorder ht hrec, mem_preorder_iff hw hrec⟩

end Arena

namespace Edit

open Arena

/-- **Importing** a node of a well-formed arena into another one succeeds, and makes a copy. -/
theorem exists_isCopy {T S : Arena} (hT : T.WellFormed) (hS : S.WellFormed) {n : Nat}
    (hn : n < S.size) : ∃ b, importFrom S n T = .ok T.size b ∧ IsCopy S n T b := by
  obtain ⟨t, ht⟩ := hS.exists_isAt hn
  obtain ⟨b, hrun, hprefix, htree, hwf, hsize, hlies, -⟩ := importFrom_of_isAt ht T
  have hb : b.WellFormed := hwf hS hT
  -- what the copy reaches, going down, is what is at or below it, going up
  have hblock : ∀ m : Nat, b.AtOrBelow T.size m ↔ T.size ≤ m ∧ m < b.size := by
    intro m
    rw [← hb.reaches_iff htree.lt_size, hlies.reaches_iff, hsize]
  obtain ⟨originals, horiginals, hnodup, hlength, -⟩ := hS.exists_descendants ht
  obtain ⟨copies, hcopies, hnodup', hlength', hmem⟩ := hb.exists_descendants htree
  refine ⟨b, hrun, ?_, ⟨t, ht, htree⟩, fun m hm => ?_, originals, copies, horiginals, hcopies,
    hnodup, hnodup', fun m => ?_, ?_, ?_⟩
  · obtain ⟨d, hd⟩ := exists_node?_of_lt htree.lt_size
    exact parent?_eq_ok_iff.mpr ⟨d, hd, hT.parent_eq_none_of_block hb hprefix hblock hd⟩
  · obtain ⟨d, hd⟩ := exists_node?_of_lt hm
    rw [hd, hprefix m d hd]
  · rw [hmem m, hblock m]
  · rw [hlength, hlength']
  · rw [hlength, hsize]

/-- **Copies are exact**, and the two ways to make them agree: importing a node makes a copy of it,
and a copy within an arena leaves the arena that importing from a snapshot would leave. -/
theorem copies_are_exact {T S : Arena} (hT : T.WellFormed) (hS : S.WellFormed) {n : Nat}
    (hn : n < S.size) :
    (∃ b, importFrom S n T = .ok T.size b ∧ IsCopy S n T b) ∧
      cloneSubtree n S = importFrom S n S :=
  ⟨exists_isCopy hT hS hn, cloneSubtree_eq_importFrom hS n⟩

/-- A statement of four nodes is copied behind a label of three. -/
theorem copies_are_exact_statement :
    let S := (Call.newExpressionStatement 0).after ((Call.newIdentifierExpression "x").after .empty)
    let T := (Call.newLabel "L").after .empty
    2 < S.size ∧ T.size = 3 ∧ S.descendants 2 = .ok [2, 0, 1, 3] ∧
      (∃ b, importFrom S 2 T = .ok 3 b ∧ IsCopy S 2 T b ∧ b.size = 7) ∧
      cloneSubtree 2 S = importFrom S 2 S := by
  intro S T
  have hS : S.Reachable :=
    .call (.newExpressionStatement 0) (.call (.newIdentifierExpression "x") .empty)
  have hT : T.Reachable := .call (.newLabel "L") .empty
  have hwalk : S.descendants 2 = .ok [2, 0, 1, 3] := rfl
  obtain ⟨⟨b, hrun, hcopy⟩, hclone⟩ :=
    copies_are_exact hT.wellFormed hS.wellFormed (n := 2) (by decide)
  obtain ⟨originals, -, horiginals, -, -, -, -, -, hsize⟩ := hcopy.block
  cases hwalk.symm.trans horiginals
  exact ⟨by decide, rfl, hwalk, ⟨b, hrun, hcopy, hsize⟩, hclone⟩

end Edit

end SyntaxForest
