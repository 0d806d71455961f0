import SyntaxForest.Proofs.Undo

/-!
# Going from sibling to sibling

A node does not know where it stands among its siblings.  Every step looks the node up in the child
list of its parent, by its id, and takes the list apart there.  In a well-formed arena the node is
listed once, so what is found is where the node is listed (`WellFormed.place?_eq_ok_iff`).

* `Adjacent x y` says that a child list has `y` right behind `x`.  A step forwards from `x` and a
  step backwards from `y` both look for it (`WellFormed.nextSibling?_eq_ok_iff`,
  `WellFormed.prevSibling?_eq_ok_iff`).
* A walk from the first child passes the child list from left to right.  The induction is on what
  is left of the list (`WellFormed.passes_iff`).
* The role of a node is the one it is listed under (`WellFormed.listed_under_iff`).

`Navigable` collects what this means for the readers.
-/

namespace SyntaxForest.Arena

variable {a : Arena} {n p x y : Nat} {d : Node}

/-! ### Places -/

/-- The place of a node is where it is listed, and there is no other. -/
theorem WellFormed.place?_eq_ok_iff (hw : a.WellFormed) {place : Place} :
    a.place? x = .ok (some place) ↔ ∃ d, a.node? place.parent = some d ∧
      d.children = place.before ++ ⟨place.role, x⟩ :: place.after := by
  constructor
  · exact place?_eq_ok_some
  · rintro ⟨d, hd, hchildren⟩
    exact place?_of_listed hw hd hchildren

/-- What is computed from the place of a node is an answer if there is one. -/
theorem place?_map_eq_ok_iff {α : Type} {f : Option Place → α} {v : α} :
    (do return f (← a.place? x) : Except Fault α) = .ok v ↔
      ∃ place, a.place? x = .ok place ∧ f place = v := by
  cases a.place? x with
  | error e => simp [bind, Except.bind]
  | ok place => simp [bind, Except.bind, pure, Except.pure]

/-! ### Steps -/

/-- Some child list has `y` right behind `x`. -/
def Adjacent (a : Arena) (x y : NodeId) : Prop :=
  ∃ p d before r s after, a.node? p = some d ∧
    d.children = before ++ ⟨r, x⟩ :: ⟨s, y⟩ :: after

/-- **A step forwards** finds the node right behind. -/
theorem WellFormed.nextSibling?_eq_ok_iff (hw : a.WellFormed) :
    a.nextSibling? x = .ok (some y) ↔ a.Adjacent x y := by
  rw [nextSibling?, place?_map_eq_ok_iff]
  constructor
  · rintro ⟨place, hplace, hnext⟩
    obtain ⟨place, rfl, hhead⟩ := Option.bind_eq_some_iff.mp hnext
    obtain ⟨⟨s, z⟩, hz, rfl⟩ := Option.map_eq_some_iff.mp hhead
    obtain ⟨after, hafter⟩ := List.head?_eq_some_iff.mp hz
    obtain ⟨d, hd, hchildren⟩ := hw.place?_eq_ok_iff.mp hplace
    rw [hafter] at hchildren
    exact ⟨_, d, _, _, s, after, hd, hchildren⟩
  · rintro ⟨p, d, before, r, s, after, hd, hchildren⟩
    exact ⟨_, place?_of_listed hw hd hchildren, rfl⟩

/-- **A step backwards** finds the node right before. -/
theorem WellFormed.prevSibling?_eq_ok_iff (hw : a.WellFormed) :
    a.prevSibling? y = .ok (some x) ↔ a.Adjacent x y := by
  rw [prevSibling?, place?_map_eq_ok_iff]
  constructor
  · rintro ⟨place, hplace, hprevious⟩
    obtain ⟨place, rfl, hlast⟩ := Option.bind_eq_some_iff.mp hprevious
    obtain ⟨⟨r, z⟩, hz, rfl⟩ := Option.map_eq_some_iff.mp hlast
    obtain ⟨before, hbefore⟩ := List.getLast?_eq_some_iff.mp hz
    obtain ⟨d, hd, hchildren⟩ := hw.place?_eq_ok_iff.mp hplace
    rw [hbefore, List.append_assoc] at hchildren
    exact ⟨_, d, before, r, _, _, hd, hchildren⟩
  · rintro ⟨p, d, before, r, s, after, hd, hchildren⟩
    -- the same list, taken apart one entry further on
    have hlater : d.children = (before ++ [⟨r, x⟩]) ++ ⟨s, y⟩ :: after := by
      rw [hchildren, List.append_assoc, List.singleton_append]
    exact ⟨_, place?_of_listed hw hd hlater, by simp⟩

/-! ### Walks -/

/-- Going on from sibling to sibling, beginning with the given node, passes these nodes and then
comes to an end. -/
inductive Passes (a : Arena) : Option NodeId → List NodeId → Prop
  | done : Passes a none []
  | step {x : NodeId} {next : Option NodeId} {xs : List NodeId} (h : a.nextSibling? x = .ok next)
    (rest : Passes a next xs) : Passes a (some x) (x :: xs)

/-- **A walk** passes what is left of the child list, in order. -/
theorem WellFormed.passes_iff (hw : a.WellFormed) (hp : a.node? p = some d)
    (before after : ChildList) (hd : d.children = before ++ after) (xs : List NodeId) :
    a.Passes (after.head?.map (·.node)) xs ↔ xs = after.map (·.node) := by
  induction after generalizing before xs with
  | nil =>
    constructor
    · rintro ⟨⟩
      rfl
    · rintro rfl
      exact .done
  | cons c after ih =>
    have hnext : a.nextSibling? c.node = .ok (after.head?.map (·.node)) :=
      nextSibling?_of_listed hw hp hd
    -- the entry that was passed goes to what is behind the walk
    have hrest := ih (before ++ [c]) (by rw [hd, List.append_assoc, List.singleton_append])
    constructor
    · rintro (_ | ⟨h, rest⟩)
      obtain rfl := Except.ok.inj (hnext.symm.trans h)
      rw [(hrest _).mp rest, List.map_cons]
    · rintro rfl
      exact .step hnext ((hrest _).mpr rfl)

/-! ### Roles -/

/-- A node is listed below its parent, under its role, and nowhere else. -/
theorem WellFormed.listed_under_iff (hw : a.WellFormed) {parent : Option NodeId}
    {role : Option RoleId} (hparent : a.parent? x = .ok parent) (hrole : a.roleOf? x = .ok role)
    {cs : ChildList} (hcs : a.children p = .ok cs) (r : RoleId) :
    (⟨r, x⟩ : Child) ∈ cs ↔ parent = some p ∧ role = some r := by
  obtain ⟨d, hd, rfl⟩ := children_eq_ok_iff.mp hcs
  constructor
  · intro hmem
    obtain ⟨e, he, hp, -⟩ := exists_node?_of_listed hw hd hmem
    obtain ⟨before, after, hsplit⟩ := List.append_of_mem hmem
    have hfound := roleOf?_of_place? (place?_of_listed hw hd hsplit)
    have hread := parent?_eq_ok_iff.mpr ⟨e, he, hp⟩
    exact ⟨Except.ok.inj (hparent.symm.trans hread), Except.ok.inj (hrole.symm.trans hfound)⟩
  · rintro ⟨rfl, rfl⟩
    obtain ⟨place, hplace, rfl⟩ := hw.exists_place?_of_parent hparent
    obtain ⟨e, he, hchildren⟩ := place?_eq_ok_some hplace
    cases hrole.symm.trans (roleOf?_of_place? hplace)
    obtain rfl := Option.some.inj (hd.symm.trans he)
    rw [hchildren]
    exact List.mem_append_right _ List.mem_cons_self

/-- The role of a node is what detaching it returns; roots have none. -/
theorem WellFormed.exists_roleOf?_eq_ok (hw : a.WellFormed) (hx : x < a.size) :
    ∃ parent role b, a.parent? x = .ok parent ∧ a.roleOf? x = .ok role ∧
      (role.isSome ↔ parent.isSome) ∧ Edit.detach x a = .ok role b := by
  obtain ⟨d, hd⟩ := exists_node?_of_lt hx
  have hparent : a.parent? x = .ok d.parent := parent?_eq_ok_iff.mpr ⟨d, hd, rfl⟩
  cases hp : d.parent with
  | none =>
    rw [hp] at hparent
    refine ⟨none, none, a, hparent, ?_, Iff.rfl, Edit.detach_of_root hparent⟩
    rw [roleOf?, place?_of_root hparent]
    rfl
  | some p =>
    rw [hp] at hparent
    obtain ⟨place, hplace, -⟩ := hw.exists_place?_of_parent hparent
    exact ⟨some p, some place.role, _, hparent, roleOf?_of_place? hplace, by simp,
      Edit.detach_of_place hplace⟩

/-! ### The readers together -/

/-- The ways from a node to its siblings and its parent fit together. -/
structure Navigable (a : Arena) : Prop where
  /-- A step forwards and a step backwards undo each other. -/
  next_iff_prev : ∀ x y : Nat,
    a.nextSibling? x = .ok (some y) ↔ a.prevSibling? y = .ok (some x)
  /-- Every node can be asked for its siblings. -/
  siblings : ∀ x : Nat, x < a.size →
    ∃ next previous, a.nextSibling? x = .ok next ∧ a.prevSibling? x = .ok previous
  /-- From the first child on, the siblings are the child list, from left to right, and no more. -/
  children : ∀ n : Nat, n < a.size → ∃ first cs, a.firstChild? n = .ok first ∧
    a.children n = .ok cs ∧ ∀ xs, a.Passes first xs ↔ xs = cs.map (·.node)
  /-- A node has a role if it has a parent.  It is the one that the node is listed under, below its
  parent and nowhere else, and detaching the node returns it. -/
  role : ∀ x : Nat, x < a.size → ∃ parent role b, a.parent? x = .ok parent ∧
    a.roleOf? x = .ok role ∧ (role.isSome ↔ parent.isSome) ∧
    (∀ p cs r, a.children p = .ok cs → ((⟨r, x⟩ : Child) ∈ cs ↔ parent = some p ∧ role = some r)) ∧
    Edit.detach x a = .ok role b

theorem WellFormed.navigable (hw : a.WellFormed) : a.Navigable where
  next_iff_prev x y := hw.nextSibling?_eq_ok_iff.trans hw.prevSibling?_eq_ok_iff.symm
  siblings x hx := by
    obtain ⟨place, hplace⟩ : ∃ place, a.place? x = .ok place := by
      obtain ⟨-, role, -, -, hrole, -⟩ := hw.exists_roleOf?_eq_ok hx
      obtain ⟨place, hplace, -⟩ := place?_map_eq_ok_iff.mp hrole
      exact ⟨place, hplace⟩
    exact ⟨_, _, place?_map_eq_ok_iff.mpr ⟨place, hplace, rfl⟩,
      place?_map_eq_ok_iff.mpr ⟨place, hplace, rfl⟩⟩
  children n hn := by
    obtain ⟨d, hd⟩ := exists_node?_of_lt hn
    have hcs := children_of_node? hd
    refine ⟨d.children.head?.map (·.node), d.children, ?_, hcs, fun xs => ?_⟩
    · rw [firstChild?, hcs]
      rfl
    · exact hw.passes_iff hd [] d.children rfl xs
  role x hx := by
    obtain ⟨parent, role, b, hparent, hrole, hboth, hdetach⟩ := hw.exists_roleOf?_eq_ok hx
    exact ⟨parent, role, b, hparent, hrole, hboth,
      fun p cs r hcs => hw.listed_under_iff hparent hrole hcs r, hdetach⟩

/-- **Sibling navigation is consistent** in every arena that calls lead to: forwards and backwards
undo each other, the siblings of a first child are the children of its parent in order, and the role
of a node is the one under which its parent lists it, so that detaching returns it. -/
theorem navigable_of_reachable (h : a.Reachable) : a.Navigable := h.wellFormed.navigable

/-- The block `0` gets the goto `3`, and the label `7` before it; then another goto, `10`, takes the
place of the first, and the label is detached.  What is left are the braces `1` and `2` with the
second goto between them. -/
theorem navigable_of_reachable_edited :
    let filled := (Call.addStatement 0 3).after ((Call.newGoto "L").after
      (Call.newBlock.after .empty))
    let labelled := (Call.insertChildBefore 0 3 .statement 7).after ((Call.newLabel "M").after
      filled)
    let a := (Call.detach 7).after ((Call.replaceWith 3 10).after (Call.newGotoDefault.after
      labelled))
    a.Reachable ∧ a.Passes (some 1) [1, 10, 2] ∧ a.prevSibling? 2 = .ok (some 10) ∧
      a.roleOf? 3 = .ok none ∧ ∃ b, Edit.detach 10 a = .ok (some .statement) b := by
  intro filled labelled a
  have hreachable : a.Reachable := .call (.detach 7) (.call (.replaceWith 3 10)
    (.call .newGotoDefault (.call (.insertChildBefore 0 3 .statement 7) (.call (.newLabel "M")
      (.call (.addStatement 0 3) (.call (.newGoto "L") (.call .newBlock .empty)))))))
  have h := navigable_of_reachable hreachable
  obtain ⟨first, cs, hfirst, hcs, hpasses⟩ := h.children 0 (by decide)
  cases (show a.firstChild? 0 = .ok (some 1) by decide +kernel).symm.trans hfirst
  cases (show a.children 0 = .ok [⟨.lbrace, 1⟩, ⟨.statement, 10⟩, ⟨.rbrace, 2⟩] by
    decide +kernel).symm.trans hcs
  obtain ⟨_, role, b, -, hrole, -, -, hdetach⟩ := h.role 10 (by decide)
  cases (show a.roleOf? 10 = .ok (some .statement) by decide +kernel).symm.trans hrole
  exact ⟨hreachable, (hpasses _).mpr rfl, (h.next_iff_prev 10 2).mp (by decide +kernel),
    by decide +kernel, b, hdetach⟩

end SyntaxForest.Arena
