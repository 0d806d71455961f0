import SyntaxForest.Proofs.Refusal

/-!
# When an attachment is accepted

The check before an attachment looks upwards: it follows the parent links of the receiving node and
refuses the child if it meets it.  What one wants to know is said downwards: the receiving node must
not be one of the descendants of the child.  In a well-formed arena the two agree.

* `WellFormed.exists_leadsTo_eq_ok`: the walk upwards ends.  It never meets a node twice, since no
  node is above itself, so it takes no more steps than there are nodes.
* `WellFormed.exists_isAncestorOf_eq_ok`: it finds `x` if and only if `x` is above the node.
* `WellFormed.covers_iff`: what is at or below a node is what its descendants list.
* `fault?_look_checkAttach`: so the check passes if and only if the child is `Eligible` for the role
  and does not cover the receiving node, and finds a cycle if and only if the child is eligible and
  does cover it.

Each operation makes tests of its own before the check, and nothing that comes after the check can
fail (`fault?_look_bind`).  `AttachmentRules` collects the operations.
-/

namespace SyntaxForest

namespace Arena

variable {a : Arena} {n c x : Nat} {r : RoleId}

/-! ### The walk along parent links -/

/-- The walk ends.  The nodes `seen` on the way are all different and all below the node it has
reached, and there is fuel for the nodes that are left. -/
theorem WellFormed.exists_leadsTo_eq_ok (hw : a.WellFormed) (x : NodeId) :
    ∀ (fuel : Nat) {n : Nat} (seen : List Nat), n < a.size → seen.Nodup →
      (∀ m ∈ seen, a.Ancestor n m) → a.size < seen.length + fuel →
      ∃ found, a.leadsTo x fuel n = .ok found
  | 0, n, seen, hn, hnodup, hseen, hfuel => by
    have hle : seen.length ≤ a.size := by
      refine length_le_size_of_nodup hnodup fun m hm => ?_
      obtain ⟨d, p, hd, -⟩ := (hseen m hm).exists_parent
      exact lt_size_of_node? hd
    omega
  | fuel + 1, n, seen, hn, hnodup, hseen, hfuel => by
    obtain ⟨d, hd⟩ := exists_node?_of_lt hn
    cases hp : d.parent with
    | none => exact ⟨false, leadsTo_succ_of_root hd hp x fuel⟩
    | some p =>
      rw [leadsTo_succ_of_parent hd hp]
      split_ifs with hx
      · exact ⟨true, rfl⟩
      · have hfresh : n ∉ seen := fun hmem => hw.acyclic n (hseen n hmem)
        have hbelow : ∀ m ∈ n :: seen, a.Ancestor p m := by
          intro m hm
          rcases List.mem_cons.mp hm with rfl | hm
          · exact .parent hd hp
          · exact Ancestor.trans (.parent hd hp) (hseen m hm)
        refine hw.exists_leadsTo_eq_ok x fuel (n :: seen) (hw.parent_lt n p d hd hp)
          (List.nodup_cons.mpr ⟨hfresh, hnodup⟩) hbelow ?_
        rw [List.length_cons]
        omega

/-- **The walk upwards** ends, and it says whether `x` is above the node. -/
theorem WellFormed.exists_isAncestorOf_eq_ok (hw : a.WellFormed) (hn : n < a.size) (x : NodeId) :
    ∃ found, a.isAncestorOf x n = .ok found ∧ (found = true ↔ a.Ancestor x n) := by
  obtain ⟨found, hfound⟩ :=
    hw.exists_leadsTo_eq_ok x (a.size + 1) [] hn List.nodup_nil (by simp) (by simp)
  exact ⟨found, hfound, ancestor_iff_of_leadsTo hfound⟩

theorem WellFormed.isAncestorOf_eq_true_iff (hw : a.WellFormed) {x : Nat} :
    a.isAncestorOf x n = .ok true ↔ a.Ancestor x n := by
  constructor
  · intro h
    exact (ancestor_iff_of_leadsTo h).mp rfl
  · intro h
    obtain ⟨d, p, hd, -⟩ := h.exists_parent
    obtain ⟨found, hwalk, hfound⟩ := hw.exists_isAncestorOf_eq_ok (lt_size_of_node? hd) x
    rw [hwalk, hfound.mpr h]

/-! ### What the rules speak of -/

/-- The node is a root, and of a category that the role takes. -/
structure Eligible (a : Arena) (r : RoleId) (c : NodeId) : Prop where
  admitted : ∃ k, a.kind c = .ok k ∧ r.admits k.category = true
  root : a.isRoot c = .ok true

/-- The descendants of `c`, among them `c` itself, include `m`. -/
def Covers (a : Arena) (c m : NodeId) : Prop := ∃ ns, a.descendants c = .ok ns ∧ m ∈ ns

theorem isRoot_eq_ok_iff {found : Bool} :
    a.isRoot n = .ok found ↔ ∃ d, a.node? n = some d ∧ d.parent.isNone = found := by
  constructor
  · intro h
    cases hp : a.parent? n with
    | error e => simp [isRoot, hp, bind, Except.bind] at h
    | ok p =>
      obtain ⟨d, hd, rfl⟩ := parent?_eq_ok_iff.mp hp
      simp only [isRoot, hp, bind, Except.bind, pure, Except.pure, Except.ok.injEq] at h
      exact ⟨d, hd, h⟩
  · rintro ⟨d, hd, rfl⟩
    simp only [isRoot, parent?_eq_ok_iff.mpr ⟨d, hd, rfl⟩, bind, Except.bind]
    rfl

theorem eligible_iff : a.Eligible r c ↔
    ∃ e, a.node? c = some e ∧ e.parent = none ∧ r.admits e.kind.category = true := by
  constructor
  · rintro ⟨⟨k, hk, hadm⟩, hroot⟩
    obtain ⟨e, he, hnone⟩ := isRoot_eq_ok_iff.mp hroot
    rw [kind_of_node? he] at hk
    obtain rfl := Except.ok.inj hk
    exact ⟨e, he, Option.isNone_iff_eq_none.mp hnone, hadm⟩
  · rintro ⟨e, he, hnone, hadm⟩
    exact ⟨⟨e.kind, kind_of_node? he, hadm⟩,
      isRoot_eq_ok_iff.mpr ⟨e, he, Option.isNone_iff_eq_none.mpr hnone⟩⟩

theorem WellFormed.covers_iff (hw : a.WellFormed) (hc : c < a.size) :
    a.Covers c n ↔ a.AtOrBelow c n := by
  obtain ⟨ns, hns, hmem⟩ := exists_descendants_eq_ok hw hc
  constructor
  · rintro ⟨ms, hms, hn⟩
    obtain rfl := Except.ok.inj (hns.symm.trans hms)
    exact (hmem n).mp hn
  · intro hn
    exact ⟨ns, hns, (hmem n).mpr hn⟩

/-! ### The check -/

theorem checkAttach_of_eligible (h : a.Eligible r c) :
    a.checkAttach n r c = if c = n then .error (.cycle n c) else do
      if ← a.isAncestorOf c n then .error (.cycle n c) else return () := by
  obtain ⟨e, he, hroot, hadm⟩ := eligible_iff.mp h
  unfold checkAttach
  rw [node_of_node? he]
  simp only [bind, Except.bind, hadm, if_true, hroot]

/-- An eligible child is refused if the receiving node is at or below it. -/
theorem WellFormed.checkAttach_of_atOrBelow (hw : a.WellFormed) (hn : n < a.size)
    (h : a.Eligible r c) (hcn : a.AtOrBelow c n) :
    a.checkAttach n r c = .error (.cycle n c) := by
  rw [checkAttach_of_eligible h]
  rcases hcn with rfl | habove
  · rw [if_pos rfl]
  · have hne : c ≠ n := by
      rintro rfl
      exact hw.acyclic c habove
    obtain ⟨found, hwalk, hfound⟩ := hw.exists_isAncestorOf_eq_ok hn c
    rw [if_neg hne, hwalk, hfound.mpr habove]
    rfl

/-- An eligible child is accepted otherwise. -/
theorem WellFormed.checkAttach_of_not_atOrBelow (hw : a.WellFormed) (hn : n < a.size)
    (h : a.Eligible r c) (hcn : ¬ a.AtOrBelow c n) : a.checkAttach n r c = .ok () := by
  have hne : c ≠ n := fun heq => hcn (.inl heq.symm)
  obtain ⟨found, hwalk, hfound⟩ := hw.exists_isAncestorOf_eq_ok hn c
  have hfalse : found = false := by
    rw [← Bool.not_eq_true, hfound]
    exact fun habove => hcn (.inr habove)
  rw [checkAttach_of_eligible h, if_neg hne, hwalk, hfalse]
  rfl

/-- A child that is not eligible is refused before the check for cycles. -/
theorem checkAttach_of_not_eligible (hc : c < a.size) (h : ¬ a.Eligible r c) :
    ∃ e, a.checkAttach n r c = .error e ∧ ∀ p q, e ≠ .cycle p q := by
  obtain ⟨d, hd⟩ := exists_node?_of_lt hc
  unfold checkAttach
  rw [node_of_node? hd]
  by_cases hadm : r.admits d.kind.category = true
  · cases hp : d.parent with
    | none => exact absurd (eligible_iff.mpr ⟨d, hd, hp, hadm⟩) h
    | some p =>
      refine ⟨.alreadyAttached c p, ?_, by simp⟩
      simp only [bind, Except.bind, hadm, if_true, hp]
  · refine ⟨.slotMismatch r d.kind.category, ?_, by simp⟩
    simp only [bind, Except.bind, if_neg hadm]

end Arena

namespace Edit

open Arena

variable {α β : Type} {a : Arena} {n c : Nat} {r : RoleId}

/-! ### The fault of an edit that begins with a check -/

theorem fault?_of_error {x : Edit α} {b : Arena} {e : Fault} (h : x a = .error e b) :
    x.fault? a = some e := by
  rw [fault?, h]

/-- An edit without a fault ends with a value. -/
theorem exists_eq_ok_of_fault? {x : Edit α} (h : x.fault? a = none) :
    ∃ v, x a = .ok v (x.after a) := by
  cases hr : x a with
  | ok v b => exact ⟨v, by rw [after_of_ok hr]⟩
  | error e b =>
    rw [fault?_of_error hr] at h
    cases h

/-- If nothing can fail after the check, the fault is that of the check. -/
theorem fault?_look_bind {f : Arena → Except Fault α} {g : α → Edit β}
    (hg : ∀ v, f a = .ok v → ∃ w b, g v a = .ok w b) :
    (look f >>= g).fault? a = (look f).fault? a := by
  cases hf : f a with
  | ok v =>
    obtain ⟨w, b, hrest⟩ := hg v hf
    rw [fault?_of_ok ((bind_of_ok (look_of_ok hf)).trans hrest), fault?_of_ok (look_of_ok hf)]
  | error e =>
    rw [fault?_of_error (bind_of_error (look_of_error hf)), fault?_of_error (look_of_error hf)]

/-- **The check**, for nodes of a well-formed arena. -/
theorem fault?_look_checkAttach (hw : a.WellFormed) (hn : n < a.size) (hc : c < a.size) :
    ((look (·.checkAttach n r c)).fault? a = none ↔ a.Eligible r c ∧ ¬ a.Covers c n) ∧
      ∀ p q, (look (·.checkAttach n r c)).fault? a = some (.cycle p q) ↔
        (p = n ∧ q = c) ∧ a.Eligible r c ∧ a.Covers c n := by
  rw [hw.covers_iff hc]
  by_cases hel : a.Eligible r c
  · by_cases hcn : a.AtOrBelow c n
    · rw [fault?_of_error (look_of_error (hw.checkAttach_of_atOrBelow hn hel hcn))]
      simp [hel, hcn, eq_comm]
    · rw [fault?_of_ok (look_of_ok (hw.checkAttach_of_not_atOrBelow hn hel hcn))]
      simp [hel, hcn]
  · obtain ⟨e, he, hcycle⟩ := checkAttach_of_not_eligible (n := n) hc hel
    rw [fault?_of_error (look_of_error he)]
    simp [hel, hcycle]

/-! ### The operations -/

theorem fault?_addChild (hr : r.isMany = true) :
    (addChild n r c).fault? a = (look (·.checkAttach n r c)).fault? a := by
  unfold addChild
  rw [if_pos hr]
  exact fault?_look_bind fun _ _ => ⟨_, _, rfl⟩

theorem addChild_of_single (hr : r.isMany = false) :
    addChild n r c a = .error (.notMultiValued r) a := by
  unfold addChild
  rw [if_neg (by simp [hr])]
  rfl

theorem setChild_of_many (hr : r.isMany = true) :
    setChild n r (some c) a = .error (.notSingleValued r) a := by
  unfold setChild
  rw [if_pos hr]
  rfl

theorem setChild_of_single (hr : r.isMany = false) :
    setChild n r (some c) = look (·.child? n r) >>= fun o =>
      if o = some c then pure none
      else look (·.checkAttach n r c) >>= fun _ => putChild n r c none := by
  unfold setChild
  rw [if_neg (by simp [hr])]

theorem setChild_of_same (hr : r.isMany = false) (h : a.child? n r = .ok (some c)) :
    setChild n r (some c) a = .ok none a := by
  rw [setChild_of_single hr, bind_of_ok (look_of_ok h), if_pos rfl]
  rfl

theorem fault?_setChild (hn : n < a.size) (hr : r.isMany = false)
    (hother : a.child? n r ≠ .ok (some c)) :
    (setChild n r (some c)).fault? a = (look (·.checkAttach n r c)).fault? a := by
  obtain ⟨o, ho⟩ := exists_child?_eq_ok hn r
  have hne : o ≠ some c := by
    rintro rfl
    exact hother ho
  rw [fault?, setChild_of_single hr, bind_of_ok (look_of_ok ho), if_neg hne, ← fault?]
  exact fault?_look_bind fun _ _ => exists_putChild_eq_ok hn r c none

theorem fault?_insertChildBefore {anchor : Nat} (hn : n < a.size)
    (hparent : a.parent? anchor = .ok (some n)) :
    (insertChildBefore n anchor r c).fault? a = (look (·.checkAttach n r c)).fault? a := by
  unfold insertChildBefore
  rw [fault?, bind_of_ok (look_of_ok hparent), if_pos rfl, ← fault?]
  refine fault?_look_bind fun _ _ => ?_
  split_ifs
  · exact ⟨_, _, rfl⟩
  · exact exists_putChild_eq_ok hn r c (some anchor)

theorem insertChildBefore_of_not_child {anchor : Nat} (hanchor : anchor < a.size)
    (hparent : a.parent? anchor ≠ .ok (some n)) :
    insertChildBefore n anchor r c a = .error (.notAChild n anchor) a := by
  obtain ⟨d, hd⟩ := exists_node?_of_lt hanchor
  have hread : a.parent? anchor = .ok d.parent := parent?_eq_ok_iff.mpr ⟨d, hd, rfl⟩
  have hne : d.parent ≠ some n := by
    intro heq
    rw [heq] at hread
    exact hparent hread
  unfold insertChildBefore
  rw [bind_of_ok (look_of_ok hread), if_neg hne]
  rfl

theorem fault?_replaceWith {y : Nat} {place : Place} (hne : n ≠ y)
    (hplace : a.place? n = .ok (some place)) :
    (replaceWith n y).fault? a =
      (look (·.checkAttach place.parent place.role y)).fault? a := by
  unfold replaceWith
  rw [if_neg hne, fault?, bind_of_ok (look_of_ok hplace), ← fault?]
  exact fault?_look_bind fun _ _ => ⟨_, _, rfl⟩

theorem replaceWith_of_root {y : Nat} (hne : n ≠ y) (hroot : a.parent? n = .ok none) :
    replaceWith n y a = .error (.detached n) a := by
  unfold replaceWith
  rw [if_neg hne, bind_of_ok (look_of_ok (place?_of_root hroot))]
  rfl

end Edit

namespace Arena

/-! ### The rules -/

/-- For nodes of the arena: when each operation that attaches a child succeeds, when it reports a
cycle, and that the walk along parent links ends. -/
structure AttachmentRules (a : Arena) : Prop where
  /-- A single child may be put where it already is; otherwise the check decides. -/
  setChild : ∀ (n : Nat) (r : RoleId) (c : Nat), n < a.size → c < a.size →
    ((Edit.setChild n r (some c)).fault? a = none ↔
      r.isMany = false ∧
        (a.child? n r = .ok (some c) ∨ a.Eligible r c ∧ ¬ a.Covers c n)) ∧
    ∀ p q : Nat, (Edit.setChild n r (some c)).fault? a = some (.cycle p q) ↔
      (p = n ∧ q = c) ∧ r.isMany = false ∧ a.Eligible r c ∧ a.Covers c n
  /-- Only a role for a list takes one child more. -/
  addChild : ∀ (n : Nat) (r : RoleId) (c : Nat), n < a.size → c < a.size →
    ((Edit.addChild n r c).fault? a = none ↔
      r.isMany = true ∧ a.Eligible r c ∧ ¬ a.Covers c n) ∧
    ∀ p q : Nat, (Edit.addChild n r c).fault? a = some (.cycle p q) ↔
      (p = n ∧ q = c) ∧ r.isMany = true ∧ a.Eligible r c ∧ a.Covers c n
  /-- The anchor has to be a child of the receiving node; the role may be any. -/
  insertChildBefore : ∀ (n anchor : Nat) (r : RoleId) (c : Nat),
    n < a.size → anchor < a.size → c < a.size →
    ((Edit.insertChildBefore n anchor r c).fault? a = none ↔
      a.parent? anchor = .ok (some n) ∧ a.Eligible r c ∧ ¬ a.Covers c n) ∧
    ∀ p q : Nat, (Edit.insertChildBefore n anchor r c).fault? a = some (.cycle p q) ↔
      (p = n ∧ q = c) ∧ a.parent? anchor = .ok (some n) ∧ a.Eligible r c ∧ a.Covers c n
  /-- A node may replace itself, root or not; otherwise its parent and its role decide. -/
  replaceWith : ∀ x y : Nat, x < a.size → y < a.size →
    ((Edit.replaceWith x y).fault? a = none ↔
      x = y ∨ ∃ p r, a.parent? x = .ok (some p) ∧ a.roleOf? x = .ok (some r) ∧
        a.Eligible r y ∧ ¬ a.Covers y p) ∧
    ∀ p q : Nat, (Edit.replaceWith x y).fault? a = some (.cycle p q) ↔
      (x ≠ y ∧ q = y) ∧ ∃ r, a.parent? x = .ok (some p) ∧ a.roleOf? x = .ok (some r) ∧
        a.Eligible r y ∧ a.Covers y p
  /-- The walk upwards ends, and finds exactly the nodes that cover the node, itself apart. -/
  isAncestorOf : ∀ x n : Nat, x < a.size → n < a.size →
    ∃ found, a.isAncestorOf x n = .ok found ∧ (found = true ↔ x ≠ n ∧ a.Covers x n)

variable {a : Arena}

/-- The place of a node that has a parent. -/
theorem WellFormed.exists_place?_of_parent (hw : a.WellFormed) {x p : Nat}
    (h : a.parent? x = .ok (some p)) :
    ∃ place : Place, a.place? x = .ok (some place) ∧ place.parent = p := by
  obtain ⟨d, hd, hp⟩ := parent?_eq_ok_iff.mp h
  obtain ⟨e, he⟩ := exists_node?_of_lt (hw.parent_lt x p d hd hp)
  obtain ⟨c, hc, rfl⟩ := List.mem_map.mp ((hw.listed_iff x p d e hd he).mpr hp)
  obtain ⟨before, after, hsplit⟩ := List.append_of_mem hc
  exact ⟨_, place?_of_listed hw he hsplit, rfl⟩

/-- What is a child already is no root. -/
theorem WellFormed.not_eligible_of_child? (hw : a.WellFormed) {n c : Nat} {r s : RoleId}
    (h : a.child? n r = .ok (some c)) : ¬ a.Eligible s c := by
  intro hel
  obtain ⟨d, hd, hfirst⟩ := child?_eq_ok_iff.mp h
  obtain ⟨e, he, hparent, -⟩ := exists_node?_of_listed hw hd (ChildList.mem_of_firstUnder? hfirst)
  obtain ⟨f, hf, hroot, -⟩ := eligible_iff.mp hel
  obtain rfl := Option.some.inj (he.symm.trans hf)
  rw [hroot] at hparent
  cases hparent

/-- The rules hold in well-formed arenas. -/
theorem WellFormed.attachmentRules (hw : a.WellFormed) : a.AttachmentRules where
  setChild n r c hn hc := by
    cases hr : r.isMany with
    | true =>
      rw [Edit.fault?_of_error (Edit.setChild_of_many hr)]
      simp
    | false =>
      by_cases hsame : a.child? n r = .ok (some c)
      · rw [Edit.fault?_of_ok (Edit.setChild_of_same hr hsame)]
        simp [hsame, hw.not_eligible_of_child? hsame]
      · rw [Edit.fault?_setChild hn hr hsame]
        simpa [hsame] using Edit.fault?_look_checkAttach hw hn hc
  addChild n r c hn hc := by
    cases hr : r.isMany with
    | true =>
      rw [Edit.fault?_addChild hr]
      simpa using Edit.fault?_look_checkAttach hw hn hc
    | false =>
      rw [Edit.fault?_of_error (Edit.addChild_of_single hr)]
      simp
  insertChildBefore n anchor r c hn hanchor hc := by
    by_cases hparent : a.parent? anchor = .ok (some n)
    · rw [Edit.fault?_insertChildBefore hn hparent]
      simpa [hparent] using Edit.fault?_look_checkAttach hw hn hc
    · rw [Edit.fault?_of_error (Edit.insertChildBefore_of_not_child hanchor hparent)]
      simp [hparent]
  replaceWith x y hx hy := by
    by_cases hxy : x = y
    · have hidle : Edit.replaceWith x y a = .ok () a := by
        rw [Edit.replaceWith, if_pos hxy]
        rfl
      rw [Edit.fault?_of_ok hidle]
      simp [hxy]
    · obtain ⟨d, hd⟩ := exists_node?_of_lt hx
      have hread : a.parent? x = .ok d.parent := parent?_eq_ok_iff.mpr ⟨d, hd, rfl⟩
      cases hp : d.parent with
      | none =>
        rw [hp] at hread
        rw [Edit.fault?_of_error (Edit.replaceWith_of_root hxy hread)]
        simp [hxy, hread]
      | some p =>
        rw [hp] at hread
        obtain ⟨place, hplace, rfl⟩ := hw.exists_place?_of_parent hread
        have hlt := hw.parent_lt x place.parent d hd hp
        rw [Edit.fault?_replaceWith hxy hplace, hread, roleOf?_of_place? hplace]
        obtain ⟨hnone, hcycle⟩ := Edit.fault?_look_checkAttach (r := place.role) hw hlt hy
        refine ⟨?_, fun p q => ?_⟩
        · rw [hnone]
          simp [hxy]
        · rw [hcycle]
          constructor
          · rintro ⟨⟨rfl, rfl⟩, hel, hcovers⟩
            exact ⟨⟨hxy, rfl⟩, _, rfl, rfl, hel, hcovers⟩
          · rintro ⟨⟨-, rfl⟩, r, hparent, hrole, hel, hcovers⟩
            cases hparent
            cases hrole
            exact ⟨⟨rfl, rfl⟩, hel, hcovers⟩
  isAncestorOf x n hx hn := by
    obtain ⟨found, hwalk, hfound⟩ := hw.exists_isAncestorOf_eq_ok hn x
    refine ⟨found, hwalk, ?_⟩
    rw [hfound, hw.covers_iff hx]
    constructor
    · intro habove
      refine ⟨?_, .inr habove⟩
      rintro rfl
      exact hw.acyclic x habove
    · rintro ⟨hne, rfl | habove⟩
      · exact absurd rfl hne
      · exact habove

/-- **When an attachment is accepted**: in every arena that calls lead to, each operation accepts
exactly what is eligible and does not cover the receiving node, and reports a cycle exactly when
that last condition is the one that fails. -/
theorem attachmentRules_of_reachable (h : a.Reachable) : a.AttachmentRules :=
  h.wellFormed.attachmentRules

/-- The name `0` is in the statement `2`, which is in the block `4`; beside it is the empty block
`7`.  That the outer block covers the name, and itself, shows in the cycles that are refused; the
empty block may be added to it and may take the place of the statement, and the name may be put
where it is. -/
theorem attachmentRules_of_reachable_blocks :
    let a := Call.newBlock.after ((Call.newBlockOf [2]).after
      ((Call.newExpressionStatement 0).after ((Call.newIdentifierExpression "x").after .empty)))
    a.Reachable ∧
      (Edit.addChild 0 .statement 4).fault? a = some (.cycle 0 4) ∧ a.Covers 4 0 ∧
      (Edit.replaceWith 2 4).fault? a = some (.cycle 4 4) ∧ a.Covers 4 4 ∧
      (Edit.addChild 4 .statement 7).fault? a = none ∧ a.Eligible .statement 7 ∧ ¬ a.Covers 7 4 ∧
      (Edit.replaceWith 2 7).fault? a = none ∧
      (Edit.setChild 2 .expression (some 0)).fault? a = none := by
  intro a
  have hreachable : a.Reachable := .call .newBlock (.call (.newBlockOf [2])
    (.call (.newExpressionStatement 0) (.call (.newIdentifierExpression "x") .empty)))
  have hrules := attachmentRules_of_reachable hreachable
  have hname : (Edit.addChild 0 .statement 4).fault? a = some (.cycle 0 4) := by decide +kernel
  have hself : (Edit.replaceWith 2 4).fault? a = some (.cycle 4 4) := by decide +kernel
  have hadd : (Edit.addChild 4 .statement 7).fault? a = none := by decide +kernel
  obtain ⟨-, -, -, hcovers⟩ :=
    ((hrules.addChild 0 .statement 4 (by decide) (by decide)).2 0 4).mp hname
  obtain ⟨-, -, -, -, -, hcoversSelf⟩ :=
    ((hrules.replaceWith 2 4 (by decide) (by decide)).2 4 4).mp hself
  obtain ⟨-, heligible, hapart⟩ :=
    (hrules.addChild 4 .statement 7 (by decide) (by decide)).1.mp hadd
  refine ⟨hreachable, hname, hcovers, hself, hcoversSelf, hadd, heligible, hapart, ?_, ?_⟩
  · exact (hrules.replaceWith 2 7 (by decide) (by decide)).1.mpr
      (.inr ⟨4, .statement, by decide +kernel, by decide +kernel, heligible, hapart⟩)
  · exact (hrules.setChild 2 .expression 0 (by decide) (by decide)).1.mpr
      ⟨rfl, .inl (by decide +kernel)⟩

end Arena

end SyntaxForest
