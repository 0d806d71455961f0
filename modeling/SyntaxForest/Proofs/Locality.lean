import SyntaxForest.Proofs.Acceptance
import SyntaxForest.Proofs.CopyExact
import SyntaxForest.Proofs.EditFrame
import SyntaxForest.Proofs.Lockstep

/-!
# Edits are local

An edit changes the child list of one node by one entry at most, and gives parents to no nodes but
those it adds or takes away.  `EditedAt a b p` says so of the arenas before and after an edit at
`p`.  The single writes keep it (`EditedAt.setParent`, `editedAt_setChildren`), so every edit has it
that is made of them, and every call that changes a node (`Call.editedAt_after`).

All else follows from it in well-formed arenas.

* `EditedAt.isAt`: a node has the tree that it had before, unless `p` is at or below it.  The nodes
  that it reaches are not `p`, so their kinds and child lists are what they were.
* `EditedAt.not_atOrBelow_of_listed`: `p` is not at or below its children, neither those that it had
  before nor those that it has now.  So what an edit attaches, detaches or replaces keeps its tree.
* `Confined.undisturbed`: edits at nodes of a set that has the parents of its members change no tree
  outside of the set.  The nodes of a copy are such a set.
-/

namespace SyntaxForest

namespace ChildList

/-- The lists differ in one entry at most.  It was inserted or removed, or its node was replaced;
the others have their roles and their order. -/
inductive OneChange : ChildList → ChildList → Prop
  | same (cs : ChildList) : OneChange cs cs
  | inserted (before after : ChildList) (x : Child) :
    OneChange (before ++ after) (before ++ x :: after)
  | removed (before after : ChildList) (x : Child) :
    OneChange (before ++ x :: after) (before ++ after)
  | replaced (before after : ChildList) (r : RoleId) (o c : NodeId) :
    OneChange (before ++ ⟨r, o⟩ :: after) (before ++ ⟨r, c⟩ :: after)

theorem oneChange_insertBefore (entry : Child) (anchor : Option NodeId) (cs : ChildList) :
    OneChange cs (insertBefore entry anchor cs) := by
  obtain ⟨before, after, rfl, hins⟩ := exists_insertBefore entry anchor cs
  rw [hins]
  exact .inserted before after entry

theorem oneChange_concat (cs : ChildList) (entry : Child) : OneChange cs (cs ++ [entry]) := by
  have h := OneChange.inserted cs [] entry
  rwa [List.append_nil] at h

end ChildList

namespace Arena

/-! ### Edits at one node -/

/-- The arena `b` comes of `a` by an edit at the node `p`: its child list has changed in one entry
at most, the other nodes have their kinds and child lists, and whoever has got another parent is a
root now or a child of `p`. -/
structure EditedAt (a b : Arena) (p : NodeId) : Prop where
  changed : ∃ d e, a.node? p = some d ∧ b.node? p = some e ∧
    ChildList.OneChange d.children e.children
  others : ∀ (m : Nat) (d : Node), m ≠ p → a.node? m = some d →
    ∃ e, b.node? m = some e ∧ e.kind = d.kind ∧ e.children = d.children
  parents : ∀ (m : Nat) (d e : Node), a.node? m = some d → b.node? m = some e →
    e.parent = d.parent ∨ e.parent = none ∨ e.parent = some p

section Writes

variable {a b : Arena} {p : Nat} {d : Node}

theorem EditedAt.refl (hp : a.node? p = some d) : a.EditedAt a p where
  changed := ⟨d, d, hp, hp, .same _⟩
  others m e _ he := ⟨e, he, rfl, rfl⟩
  parents m e f he hf := by
    cases he.symm.trans hf
    exact .inl rfl

theorem editedAt_setChildren (hp : a.node? p = some d) {cs : ChildList}
    (h : ChildList.OneChange d.children cs) : a.EditedAt (a.setChildren p fun _ => cs) p where
  changed := ⟨d, { d with children := cs }, hp, by rw [node?_setChildren, if_pos rfl, hp]; rfl, h⟩
  others m e hm he := ⟨e, by rw [node?_setChildren, if_neg (Ne.symm hm), he], rfl, rfl⟩
  parents m e f he hf := by
    rw [node?_setChildren, he] at hf
    split_ifs at hf <;> cases hf <;> exact .inl rfl

/-- The other kind of a node is not seen in the child lists. -/
theorem editedAt_setKind (hp : a.node? p = some d) (k : Kind) : a.EditedAt (a.setKind p k) p where
  changed := ⟨d, { d with kind := k }, hp, by rw [node?_setKind, if_pos rfl, hp]; rfl, .same _⟩
  others m e hm he := ⟨e, by rw [node?_setKind, if_neg (Ne.symm hm), he], rfl, rfl⟩
  parents m e f he hf := by
    rw [node?_setKind, he] at hf
    split_ifs at hf <;> cases hf <;> exact .inl rfl

/-- A parent is taken away, or it is the edited node. -/
theorem EditedAt.setParent (h : a.EditedAt b p) (c : NodeId) {q : Option NodeId}
    (hq : q = none ∨ q = some p) : a.EditedAt (b.setParent c q) p := by
  have hrecord : ∀ (m : Nat) (e : Node), b.node? m = some e →
      ∃ f, (b.setParent c q).node? m = some f ∧ f.kind = e.kind ∧ f.children = e.children := by
    intro m e he
    rw [node?_setParent, he]
    split_ifs
    · exact ⟨_, rfl, rfl, rfl⟩
    · exact ⟨e, rfl, rfl, rfl⟩
  constructor
  case changed =>
    obtain ⟨d, e, hd, he, hchange⟩ := h.changed
    obtain ⟨f, hf, -, hchildren⟩ := hrecord p e he
    exact ⟨d, f, hd, hf, by rwa [hchildren]⟩
  case others =>
    intro m d hm hd
    obtain ⟨e, he, hkind, hchildren⟩ := h.others m d hm hd
    obtain ⟨f, hf, hkind', hchildren'⟩ := hrecord m e he
    exact ⟨f, hf, hkind'.trans hkind, hchildren'.trans hchildren⟩
  case parents =>
    intro m d f hd hf
    rw [node?_setParent] at hf
    split_ifs at hf
    · obtain ⟨e, -, rfl⟩ := Option.map_eq_some_iff.mp hf
      exact .inr hq
    · exact h.parents m d f hd hf

/-- What was allocated before the edit is no node of the arena from before. -/
theorem EditedAt.of_push {k : Kind} (h : (a.push k).EditedAt b p) (hp : p < a.size) :
    a.EditedAt b p where
  changed := by
    obtain ⟨d, e, hd, he, hchange⟩ := h.changed
    rw [node?_push_of_ne a k (Nat.ne_of_lt hp)] at hd
    exact ⟨d, e, hd, he, hchange⟩
  others m d hm hd := h.others m d hm (node?_push_of_some hd)
  parents m d e hd he := h.parents m d e (node?_push_of_some hd) he

end Writes

namespace EditedAt

variable {a b : Arena} {p : Nat}

/-- **A tree is unchanged** if the edited node is not in it. -/
theorem isAt (hw : a.WellFormed) (h : a.EditedAt b p) {t : Tree} :
    ∀ {m : Nat}, t.IsAt a m → ¬ a.AtOrBelow m p → t.IsAt b m := by
  induction t using Tree.induction with
  | h t ih =>
    intro m ht hm
    obtain ⟨d, hd, hkind, hbelow⟩ := Tree.isAt_iff.mp ht
    have hne : m ≠ p := by
      rintro rfl
      exact hm (.refl a m)
    obtain ⟨e, he, hkind', hchildren⟩ := h.others m d hne hd
    refine Tree.isAt_iff.mpr ⟨e, he, hkind'.trans hkind, ?_⟩
    rw [hchildren]
    -- a child that has `p` at or below it would make `m` such a node
    have hclear : ∀ c ∈ d.children, ¬ a.AtOrBelow c.node p :=
      fun c hc hcp => hm ((hw.atOrBelow_child hd hc).trans hcp)
    have hboth := (List.forall₂_and_left _ _).mpr ⟨ih, hbelow⟩
    refine (((List.forall₂_and_left _ _).mpr ⟨hclear, hboth.flip⟩).imp ?_).flip
    rintro c x ⟨hc, hx, hrole, hat⟩
    exact ⟨hrole, hx hat hc⟩

theorem alike (hw : a.WellFormed) (h : a.EditedAt b p) {m : Nat} (hlt : m < a.size)
    (hm : ¬ a.AtOrBelow m p) : a.Alike b m m := by
  obtain ⟨t, ht⟩ := hw.exists_isAt hlt
  exact ⟨t, ht, h.isAt hw ht hm⟩

/-- What is above the edited node stays there. -/
theorem ancestor (ha : a.WellFormed) (hb : b.WellFormed) (h : a.EditedAt b p) {x n : Nat}
    (hx : a.Ancestor x n) (hn : a.AtOrBelow n p) : b.Ancestor x n := by
  -- a node at or above `p` is not a child of `p`, so it is listed where it was
  have hparent : ∀ {n q : Nat} {d : Node}, a.node? n = some d → d.parent = some q →
      a.AtOrBelow n p → ∃ e, b.node? n = some e ∧ e.parent = some q := by
    intro n q d hd hq hn
    have hqp : q ≠ p := by
      rintro rfl
      rcases hn with rfl | hn
      · exact ha.acyclic q (.parent hd hq)
      · exact ha.acyclic q (Ancestor.trans (.parent hd hq) hn)
    obtain ⟨f, hf⟩ := exists_node?_of_lt (ha.parent_lt n q d hd hq)
    obtain ⟨g, hg, -, hchildren⟩ := h.others q f hqp hf
    have hlisted := (ha.listed_iff n q d f hd hf).mpr hq
    rw [← hchildren] at hlisted
    obtain ⟨c, hc, rfl⟩ := List.mem_map.mp hlisted
    obtain ⟨e, he, hparent, -⟩ := exists_node?_of_listed hb hg hc
    exact ⟨e, he, hparent⟩
  induction hx with
  | parent hd hq =>
    obtain ⟨e, he, hparent⟩ := hparent hd hq hn
    exact .parent he hparent
  | above hd hq _ ih =>
    obtain ⟨e, he, hparent⟩ := hparent hd hq hn
    exact .above he hparent (ih (AtOrBelow.trans (.inr (.parent hd hq)) hn))

/-- The edited node is not at or below its children, those from before and those from after. -/
theorem not_atOrBelow_of_listed (ha : a.WellFormed) (hb : b.WellFormed) (h : a.EditedAt b p)
    {d e : Node} (hd : a.node? p = some d) (he : b.node? p = some e) {c : Child}
    (hc : c ∈ d.children ++ e.children) : ¬ a.AtOrBelow c.node p := by
  rcases List.mem_append.mp hc with hc | hc
  · obtain ⟨-, -, -, hne⟩ := exists_node?_of_listed ha hd hc
    rintro (heq | habove)
    · exact hne heq.symm
    · exact ha.not_ancestor_of_listed hd hc habove
  · obtain ⟨-, -, -, hne⟩ := exists_node?_of_listed hb he hc
    rintro (heq | habove)
    · exact hne heq.symm
    · exact hb.not_ancestor_of_listed he hc (h.ancestor ha hb habove (.refl a p))

end EditedAt

end Arena

/-! ### The edits -/

namespace Edit

open Arena

variable {α : Type} {a b : Arena} {n c : Nat} {r : RoleId} {d : Node}

theorem editedAt_putChild {anchor v : Option NodeId} (hn : a.node? n = some d)
    (h : putChild n r c anchor a = .ok v b) : a.EditedAt b n := by
  cases hfirst : d.children.firstUnder? r with
  | none =>
    rw [putChild_of_empty hn hfirst] at h
    cases h
    exact (editedAt_setChildren hn (ChildList.oneChange_insertBefore _ _ _)).setParent c (.inr rfl)
  | some o =>
    obtain ⟨before, after, hd, hr⟩ := ChildList.exists_of_firstUnder? hfirst
    rw [putChild_of_taken hn hd hr, relink_relink] at h
    cases h
    refine ((editedAt_setChildren hn ?_).setParent o (.inl rfl)).setParent c (.inr rfl)
    rw [hd]
    exact .replaced before after r o c

theorem editedAt_takeChild {v : Option NodeId} (h : takeChild n r a = .ok v b) :
    a.EditedAt b n := by
  obtain ⟨old, a₁, hlook, -⟩ := bind_eq_ok h
  obtain ⟨hold, rfl⟩ := look_eq_ok hlook
  obtain ⟨d, hn, rfl⟩ := child?_eq_ok_iff.mp hold
  cases hfirst : d.children.firstUnder? r with
  | none =>
    rw [takeChild_of_empty hn hfirst] at h
    cases h
    exact .refl hn
  | some o =>
    obtain ⟨before, after, hd, htake⟩ := takeChild_of_taken hn hfirst
    rw [htake] at h
    cases h
    refine (editedAt_setChildren hn ?_).setParent o (.inl rfl)
    rw [hd]
    exact .removed before after ⟨r, o⟩

theorem editedAt_setChild {child v : Option NodeId} (h : setChild n r child a = .ok v b) :
    a.EditedAt b n := by
  unfold setChild at h
  split_ifs at h
  · cases h
  · cases child with
    | none => exact editedAt_takeChild h
    | some c =>
      obtain ⟨current, a₁, hlook, hrest⟩ := bind_eq_ok h
      obtain ⟨hcurrent, rfl⟩ := look_eq_ok hlook
      obtain ⟨d, hn, -⟩ := child?_eq_ok_iff.mp hcurrent
      split_ifs at hrest
      · cases hrest
        exact .refl hn
      · obtain ⟨_, a₂, hcheck, hput⟩ := bind_eq_ok hrest
        obtain ⟨-, rfl⟩ := look_eq_ok hcheck
        exact editedAt_putChild hn hput

theorem editedAt_addChild {v : Unit} (h : addChild n r c a = .ok v b) : a.EditedAt b n := by
  unfold addChild at h
  split_ifs at h
  · obtain ⟨_, a₁, hlook, hlink⟩ := bind_eq_ok h
    obtain ⟨hcheck, rfl⟩ := look_eq_ok hlook
    obtain ⟨d, hn⟩ := (attachable_of_checkAttach hcheck).receiver
    cases hlink
    change a₁.EditedAt (a₁.link n r c) n
    rw [link_eq_relink hn]
    exact (editedAt_setChildren hn (ChildList.oneChange_concat _ _)).setParent c (.inr rfl)
  · cases h

theorem editedAt_insertChildBefore {anchor : NodeId} {v : Option NodeId}
    (h : insertChildBefore n anchor r c a = .ok v b) : a.EditedAt b n := by
  obtain ⟨hparent, hcheck⟩ := checkAttach_of_insertChildBefore h
  obtain ⟨d, hn⟩ := (attachable_of_checkAttach hcheck).receiver
  cases hmany : r.isMany with
  | true =>
    rw [insertChildBefore_of_many hmany hparent hn hcheck] at h
    cases h
    exact (editedAt_setChildren hn (ChildList.oneChange_insertBefore _ _ _)).setParent c (.inr rfl)
  | false =>
    rw [insertChildBefore_of_single hmany hparent hcheck] at h
    exact editedAt_putChild hn h

theorem editedAt_setIdentifier {name : String} {anchor : Option NodeId} {v : Unit}
    (hn : a.node? n = some d) (h : setIdentifier n name anchor a = .ok v b) : a.EditedAt b n := by
  unfold setIdentifier at h
  split_ifs at h
  · obtain ⟨old, b', htake, hdone⟩ := bind_eq_ok h
    cases hdone
    exact editedAt_takeChild htake
  · obtain ⟨x, a₁, halloc, hrest⟩ := bind_eq_ok h
    cases halloc
    obtain ⟨old, b', hput, hdone⟩ := bind_eq_ok hrest
    cases hdone
    exact (editedAt_putChild (node?_push_of_some hn) hput).of_push (lt_size_of_node? hn)

theorem editedAt_setLabelBefore {anchor : RoleId} {label : String} {v : Unit}
    (h : setLabelBefore anchor n label a = .ok v b) : a.EditedAt b n := by
  obtain ⟨found, a₁, hlook, hset⟩ := bind_eq_ok h
  obtain ⟨hfound, rfl⟩ := look_eq_ok hlook
  obtain ⟨d, hn⟩ := exists_node?_of_token? hfound
  exact editedAt_setIdentifier hn hset

/-- Renaming writes the kind of the node and nothing else. -/
theorem eq_setKind_of_rename {name : String} {v : Unit} (h : rename n name a = .ok v b) :
    n < a.size ∧ b = a.setKind n (.identifier name) := by
  obtain ⟨k, a₁, hlook, hrest⟩ := bind_eq_ok h
  obtain ⟨hk, rfl⟩ := look_eq_ok hlook
  obtain ⟨d, hn, -⟩ := kind_eq_ok_iff.mp hk
  cases hrest
  exact ⟨lt_size_of_node? hn, rfl⟩

theorem editedAt_rename {name : String} {v : Unit} (h : rename n name a = .ok v b) :
    a.EditedAt b n := by
  obtain ⟨hlt, rfl⟩ := eq_setKind_of_rename h
  obtain ⟨d, hn⟩ := exists_node?_of_lt hlt
  exact editedAt_setKind hn _

theorem editedAt_setExpression {child v : Option NodeId} (h : setExpression n child a = .ok v b) :
    a.EditedAt b n := by
  obtain ⟨anchor, a₁, hanchor, hfilled⟩ := bind_eq_ok h
  obtain ⟨-, rfl⟩ := look_eq_ok hanchor
  obtain ⟨current, a₂, hcurrent, hset⟩ := bind_eq_ok hfilled
  obtain ⟨-, rfl⟩ := look_eq_ok hcurrent
  split at hset
  · exact editedAt_insertChildBefore hset
  · exact editedAt_setChild hset

theorem editedAt_addStatement {v : Unit} (h : addStatement n c a = .ok v b) : a.EditedAt b n := by
  obtain ⟨brace, a₁, hbrace, hadd⟩ := bind_eq_ok h
  obtain ⟨-, rfl⟩ := look_eq_ok hbrace
  split at hadd
  · obtain ⟨old, b', hinsert, hdone⟩ := bind_eq_ok hadd
    cases hdone
    exact editedAt_insertChildBefore hinsert
  · exact editedAt_addChild hadd

/-- A place that was read for a node without a parent is none. -/
theorem eq_none_of_place? {place : Option Place} (hroot : (a.node? n).bind (·.parent) = none)
    (h : a.place? n = .ok place) : place = none := by
  cases hn : a.node? n with
  | none =>
    have hout : a.place? n = .error (.outOfRange a.size n) := by
      simp [place?, parent?, node, hn, bind, Except.bind]
    cases hout.symm.trans h
  | some d =>
    rw [hn] at hroot
    have hfree := place?_of_root (parent?_eq_ok_iff.mpr ⟨d, hn, hroot⟩)
    exact (Except.ok.inj (hfree.symm.trans h)).symm

theorem editedAt_detach {p : Nat} {v : Option RoleId} (hw : a.WellFormed)
    (hparent : a.parent? n = .ok (some p)) (h : detach n a = .ok v b) : a.EditedAt b p := by
  obtain ⟨place, hplace, rfl⟩ := hw.exists_place?_of_parent hparent
  obtain ⟨e, he, hchildren⟩ := place?_eq_ok_some hplace
  rw [detach_of_place hplace] at h
  cases h
  refine (editedAt_setChildren he ?_).setParent n (.inl rfl)
  rw [hchildren]
  exact .removed place.before place.after ⟨place.role, n⟩

theorem editedAt_replaceWith {p y : Nat} {v : Unit} (hw : a.WellFormed)
    (hparent : a.parent? n = .ok (some p)) (h : replaceWith n y a = .ok v b) : a.EditedAt b p := by
  obtain ⟨place, hplace, rfl⟩ := hw.exists_place?_of_parent hparent
  obtain ⟨e, he, hchildren⟩ := place?_eq_ok_some hplace
  by_cases hne : n = y
  · rw [replaceWith, if_pos hne] at h
    cases h
    exact .refl he
  · have hcheck := checkAttach_of_replaceWith hne hplace h
    rw [replaceWith_of_place hne hplace hcheck, relink_relink] at h
    cases h
    refine ((editedAt_setChildren he ?_).setParent n (.inl rfl)).setParent y (.inr rfl)
    rw [hchildren]
    exact .replaced place.before place.after place.role n y

end Edit

/-! ### The calls -/

namespace Call

open Arena Edit

/-- Whether the call changes the links or the name of a node that is there. -/
def mutates : Call → Bool
  | setChild .. | addChild .. | insertChildBefore .. | detach .. | replaceWith ..
  | setGotoLabel .. | setLabel .. | setName .. | rename .. | setLabelExpression ..
  | setExpression .. | addStatement .. => true
  | _ => false

/-- The node that a call is to change: the one whose children are edited, which is the parent of a
node that is detached or replaced, or the identifier that is renamed.  There is none for a root that
is to be detached or replaced. -/
def affected? : Call → Arena → Option NodeId
  | setChild n _ _, _ | addChild n _ _, _ | insertChildBefore n _ _ _, _ | setGotoLabel n _, _
  | setLabel n _, _ | setName n _, _ | rename n _, _ | setLabelExpression n _, _
  | setExpression n _, _ | addStatement n _, _ => some n
  | detach n, a | replaceWith n _, a => (a.node? n).bind (·.parent)
  | _, _ => none

variable {a : Arena}

/-- A call at a given node, if the edit behind it is one at that node. -/
theorem editedAt_of_fixed {α : Type} {x : Edit α} {n : Nat} (hok : x.fault? a = none)
    (hx : ∀ v b, x a = .ok v b → a.EditedAt b n) :
    (some n = none → x.after a = a) ∧ ∀ p, some n = some p → a.EditedAt (x.after a) p := by
  refine ⟨by simp, fun p hp => ?_⟩
  obtain rfl := Option.some.inj hp
  obtain ⟨v, hrun⟩ := exists_eq_ok_of_fault? hok
  exact hx v _ hrun

/-- A call at the parent of a node, if the edit behind it is one there, and fails or does nothing
where there is no parent. -/
theorem editedAt_of_parent {α : Type} {x : Edit α} {n : Nat} (hok : x.fault? a = none)
    (hroot : ∀ v b, x a = .ok v b → (a.node? n).bind (·.parent) = none → b = a)
    (hx : ∀ v b p, x a = .ok v b → a.parent? n = .ok (some p) → a.EditedAt b p) :
    ((a.node? n).bind (·.parent) = none → x.after a = a) ∧
      ∀ p, (a.node? n).bind (·.parent) = some p → a.EditedAt (x.after a) p := by
  obtain ⟨v, hrun⟩ := exists_eq_ok_of_fault? hok
  refine ⟨hroot v _ hrun, fun p hp => ?_⟩
  obtain ⟨d, hd, hparent⟩ := Option.bind_eq_some_iff.mp hp
  exact hx v _ p hrun (parent?_eq_ok_iff.mpr ⟨d, hd, hparent⟩)

theorem eq_of_detach_root {n : Nat} {v : Option RoleId} {b : Arena}
    (h : Edit.detach n a = .ok v b) (hroot : (a.node? n).bind (·.parent) = none) : b = a := by
  obtain ⟨place, a₁, hlook, hrest⟩ := bind_eq_ok h
  obtain ⟨hplace, rfl⟩ := look_eq_ok hlook
  obtain rfl := eq_none_of_place? hroot hplace
  cases hrest
  rfl

theorem eq_of_replaceWith_root {n y : Nat} {v : Unit} {b : Arena}
    (h : Edit.replaceWith n y a = .ok v b) (hroot : (a.node? n).bind (·.parent) = none) :
    b = a := by
  unfold Edit.replaceWith at h
  split_ifs at h
  · cases h
    rfl
  · obtain ⟨place, a₁, hlook, hrest⟩ := bind_eq_ok h
    obtain ⟨hplace, rfl⟩ := look_eq_ok hlook
    obtain rfl := eq_none_of_place? hroot hplace
    cases hrest

/-- The call does not set a name on a node that is not there yet. -/
def NamesOld (call : Call) (a : Arena) : Prop := ∀ n name, call = setName n name → n < a.size

theorem namesOld_of_apt {call : Call} (hapt : call.Apt a) : call.NamesOld a := by
  rintro n name rfl
  obtain ⟨k, hk, -⟩ := cast_eq_ok_iff.mp hapt
  obtain ⟨d, hn, -⟩ := kind_eq_ok_iff.mp hk
  exact lt_size_of_node? hn

/-- A name can be set on a node that is not there, if at all, only at the cost of the forest. -/
theorem namesOld_of_isForest (hw : a.WellFormed) {call : Call} (hok : call.fault? a = none)
    (hforest : (call.after a).IsForest) : call.NamesOld a := by
  rintro n name rfl
  have hself := (isForest_setName_iff hw name).mp hforest
  obtain ⟨v, hrun⟩ := exists_eq_ok_of_fault? hok
  by_contra hn
  change Edit.setIdentifier n name none a = _ at hrun
  rw [Edit.setIdentifier] at hrun
  split_ifs at hrun with hname
  · have hmissing : a.node? n = none := node?_eq_none_iff.mpr (Nat.le_of_not_lt hn)
    obtain ⟨old, b, htake, -⟩ := bind_eq_ok hrun
    obtain ⟨old', c, hlook, -⟩ := bind_eq_ok htake
    rw [look_of_error (child?_of_none hmissing _)] at hlook
    cases hlook
  · obtain ⟨x, b, halloc, hrest⟩ := bind_eq_ok hrun
    cases halloc
    have hne : n ≠ a.size := fun heq => hname (hself heq)
    have hmissing : (a.push (.identifier name)).node? n = none := by
      rw [node?_eq_none_iff, size_push]
      exact Nat.lt_of_le_of_ne (Nat.le_of_not_lt hn) hne.symm
    obtain ⟨old, c, hput, -⟩ := bind_eq_ok hrest
    rw [putChild_of_none hmissing] at hput
    cases hput

/-- A call after which there is a forest keeps the arena well formed. -/
theorem wellFormed_after_of_isForest (hw : a.WellFormed) {call : Call}
    (hforest : (call.after a).IsForest) : (call.after a).WellFormed := by
  cases call with
  | setName n name => exact Edit.wellFormed_setName hw ((isForest_setName_iff hw name).mp hforest)
  | rename n name =>
    exact Edit.wellFormed_rename hw ((isForest_rename_iff hw name).mp hforest) name
  | _ => exact wellFormed_after trivial hw

/-- **One call**: if it succeeds, it is an edit at the node that it is to change, or changes nothing
if there is none. -/
theorem editedAt_after (hw : a.WellFormed) {call : Call} (hold : call.NamesOld a)
    (hcall : call.mutates = true) (hok : call.fault? a = none) :
    (call.affected? a = none → call.after a = a) ∧
      ∀ p, call.affected? a = some p → a.EditedAt (call.after a) p := by
  cases call with
  | setChild n r child => exact editedAt_of_fixed hok fun _ _ => editedAt_setChild
  | addChild n r c => exact editedAt_of_fixed hok fun _ _ => editedAt_addChild
  | insertChildBefore n anchor r c =>
    exact editedAt_of_fixed hok fun _ _ => editedAt_insertChildBefore
  | detach n =>
    exact editedAt_of_parent hok (fun _ _ => eq_of_detach_root) fun _ _ _ h hp =>
      editedAt_detach hw hp h
  | replaceWith x y =>
    exact editedAt_of_parent hok (fun _ _ => eq_of_replaceWith_root) fun _ _ _ h hp =>
      editedAt_replaceWith hw hp h
  | setGotoLabel n label => exact editedAt_of_fixed hok fun _ _ => editedAt_setLabelBefore
  | setLabel n label => exact editedAt_of_fixed hok fun _ _ => editedAt_setLabelBefore
  | setName n name =>
    obtain ⟨d, hn⟩ := exists_node?_of_lt (hold n name rfl)
    exact editedAt_of_fixed hok fun _ _ => editedAt_setIdentifier hn
  | rename n name => exact editedAt_of_fixed hok fun _ _ => editedAt_rename
  | setLabelExpression n child => exact editedAt_of_fixed hok fun _ _ => editedAt_setExpression
  | setExpression n child => exact editedAt_of_fixed hok fun _ _ => editedAt_setExpression
  | addStatement n c => exact editedAt_of_fixed hok fun _ _ => editedAt_addStatement
  | _ => cases hcall

/-- The one edit that allocates first does not fail on a node that is there. -/
theorem allocatesFirst_of_mutates {call : Call} {e : Fault} (hold : call.NamesOld a)
    (hcall : call.mutates = true) (he : call.fault? a = some e) : call.allocatesFirst = false := by
  cases call with
  | setName n name =>
    cases he.symm.trans (fault?_setName (hold n name rfl) name)
  | _ => first | rfl | cases hcall

/-- A call that may have failed is an edit at the node that it is to change, or changes nothing. -/
theorem editedAt_or_eq (hw : a.WellFormed) {call : Call} (hold : call.NamesOld a)
    (hcall : call.mutates = true) :
    call.after a = a ∨ ∃ p, call.affected? a = some p ∧ a.EditedAt (call.after a) p := by
  cases hfault : call.fault? a with
  | some e => exact .inl (after_of_fault hw (allocatesFirst_of_mutates hold hcall hfault) hfault)
  | none =>
    obtain ⟨hnone, hsome⟩ := editedAt_after hw hold hcall hfault
    cases haffected : call.affected? a with
    | none => exact .inl (hnone haffected)
    | some p => exact .inr ⟨p, rfl, hsome p haffected⟩

end Call

/-! ### Runs that keep to a set of nodes -/

namespace Arena

/-- A run of calls leads from `b` to this arena, each of which changes a node of the set, if it
changes one. -/
inductive Confined (ids : NodeId → Prop) (b : Arena) : Arena → Prop
  | refl : Confined ids b b
  | call (call : Call) {c : Arena} (h : Confined ids b c) (hcall : call.mutates = true)
    (hids : ∀ p, call.affected? c = some p → ids p) (hapt : call.Apt c := by trivial) :
    Confined ids b (call.after c)

/-- The set has the parents of its members. -/
def Upward (ids : NodeId → Prop) (a : Arena) : Prop :=
  ∀ (n p : Nat) (d : Node), ids n → a.node? n = some d → d.parent = some p → ids p

section Confined

variable {ids : NodeId → Prop} {a b c : Arena}

theorem Upward.of_ancestor (h : Upward ids a) {x n : Nat} (hx : a.Ancestor x n) (hn : ids n) :
    ids x := by
  induction hx with
  | parent hd hp => exact h _ _ _ hn hd hp
  | above hd hp _ ih => exact ih (h _ _ _ hn hd hp)

theorem Upward.of_atOrBelow (h : Upward ids a) {x n : Nat} (hx : a.AtOrBelow x n) (hn : ids n) :
    ids x := by
  rcases hx with rfl | hx
  · exact hn
  · exact h.of_ancestor hx hn

/-- The parent that an edit at a member gives to a node is this member. -/
theorem Upward.of_editedAt (h : Upward ids a) {p : Nat} (hedit : a.EditedAt b p) (hp : ids p)
    (hlt : ∀ n, ids n → n < a.size) : Upward ids b := by
  intro n q e hn he hq
  obtain ⟨d, hd⟩ := exists_node?_of_lt (hlt n hn)
  rcases hedit.parents n d e hd he with hsame | hnone | hnew
  · exact h n q d hn hd (hsame ▸ hq)
  · cases hnone.symm.trans hq
  · cases hnew.symm.trans hq
    exact hp

/-- What a run keeps that changes members of the set only: the trees of the others. -/
structure Undisturbed (ids : NodeId → Prop) (b c : Arena) : Prop where
  wellFormed : c.WellFormed
  upward : Upward ids c
  size_le : b.size ≤ c.size
  alike : ∀ m < b.size, ¬ ids m → b.Alike c m m

theorem EditedAt.size_le {p : Nat} (h : a.EditedAt b p) : a.size ≤ b.size := by
  by_contra hlt
  obtain ⟨d, hd⟩ := exists_node?_of_lt (Nat.lt_of_not_le hlt)
  obtain ⟨f, g, hf, hg, -⟩ := h.changed
  have hne : b.size ≠ p := by
    rintro rfl
    exact Nat.lt_irrefl _ (lt_size_of_node? hg)
  obtain ⟨e, he, -⟩ := h.others b.size d hne hd
  exact Nat.lt_irrefl _ (lt_size_of_node? he)

/-- **One step** of such a run. -/
theorem Undisturbed.call (h : Undisturbed ids b c) (hlt : ∀ n, ids n → n < b.size) {call : Call}
    (hapt : call.Apt c) (hcall : call.mutates = true)
    (hids : ∀ p, call.affected? c = some p → ids p) : Undisturbed ids b (call.after c) := by
  have hw := Call.wellFormed_after hapt h.wellFormed
  rcases Call.editedAt_or_eq h.wellFormed (Call.namesOld_of_apt hapt) hcall with hsame | ⟨p, hp, hedit⟩
  · rwa [hsame]
  · have hmember := hids p hp
    refine ⟨hw, h.upward.of_editedAt hedit hmember fun n hn => ?_,
      Nat.le_trans h.size_le hedit.size_le, fun m hm hout => ?_⟩
    · exact Nat.lt_of_lt_of_le (hlt n hn) h.size_le
    · obtain ⟨t, ht, ht'⟩ := h.alike m hm hout
      exact ⟨t, ht, hedit.isAt h.wellFormed ht'
        fun hbelow => hout (h.upward.of_atOrBelow hbelow hmember)⟩

/-- **Every run**: changes in a set that has the parents of its members change no tree outside. -/
theorem Confined.undisturbed (hb : b.WellFormed) (hup : Upward ids b)
    (hlt : ∀ n, ids n → n < b.size) (h : Confined ids b c) : Undisturbed ids b c := by
  induction h with
  | refl =>
    refine ⟨hb, hup, Nat.le_refl _, fun m hm _ => ?_⟩
    obtain ⟨t, ht⟩ := hb.exists_isAt hm
    exact ⟨t, ht, ht⟩
  | call call _ hcall hids hapt ih => exact ih.call hlt hapt hcall hids

/-- The nodes of a copy have their parents among them, but for the root, which has none. -/
theorem upward_of_isCopy {S T : Arena} {n : NodeId} (hb : b.WellFormed) (h : IsCopy S n T b) :
    Upward (fun k => T.size ≤ k ∧ k < b.size) b := by
  obtain ⟨originals, copies, -, hcopies, -, -, hblock, -⟩ := h.block
  obtain ⟨root, hroot, hnone⟩ := parent?_eq_ok_iff.mp h.root
  obtain ⟨ns, hns, hmem⟩ := exists_descendants_eq_ok hb (lt_size_of_node? hroot)
  obtain rfl := Except.ok.inj (hcopies.symm.trans hns)
  intro m p d hm hd hp
  rcases (hmem m).mp ((hblock m).mpr hm) with rfl | habove
  · cases hroot.symm.trans hd
    cases hnone.symm.trans hp
  · refine (hblock p).mp ((hmem p).mpr ?_)
    rcases (Ancestor.iff_of_parent hd hp).mp habove with rfl | habove
    · exact .refl b _
    · exact .inr habove

theorem lt_size_of_cloneSubtree {n copy : Nat} (h : Edit.cloneSubtree n a = .ok copy b) :
    n < a.size := by
  by_contra hout
  rw [Edit.cloneSubtree_of_none (node?_eq_none_iff.mpr (Nat.not_lt.mp hout))] at h
  cases h

/-- Changes to a copy leave the trees alone that were there before it was made. -/
theorem alike_of_confined {n copy : Nat} (ha : a.WellFormed)
    (hcopy : Edit.cloneSubtree n a = .ok copy b)
    (h : Confined (fun k => a.size ≤ k ∧ k < b.size) b c) {m : Nat} (hm : m < a.size) :
    a.Alike c m m := by
  obtain ⟨b', hrun, hcopied⟩ := Edit.exists_isCopy ha ha (lt_size_of_cloneSubtree hcopy)
  rw [Edit.cloneSubtree_eq_importFrom ha, hrun] at hcopy
  obtain ⟨rfl, rfl⟩ : a.size = copy ∧ b' = b := by
    cases hcopy
    exact ⟨rfl, rfl⟩
  have hb : b'.WellFormed := by
    have hkept := Edit.keeps_importFrom ha n a ha
    rwa [Edit.after_of_ok hrun] at hkept
  have hpre : a.IsPrefix b' := by
    have hkept := Edit.isPrefix_importFrom ha n (a := a)
    rwa [Edit.after_of_ok hrun] at hkept
  have hrest := h.undisturbed hb (upward_of_isCopy hb hcopied) fun k hk => hk.2
  obtain ⟨t, ht, ht'⟩ := hrest.alike m (Nat.lt_of_lt_of_le hm hpre.size_le)
    fun hk => absurd hk.1 (Nat.not_le.mpr hm)
  obtain ⟨u, hu⟩ := ha.exists_isAt hm
  obtain rfl := (hu.mono hpre).unique ht
  exact ⟨_, hu, ht'⟩

end Confined

/-! ### What can be read off the arenas -/

/-- An edit at `p`, as the child lists and the trees show it. -/
structure LocalChange (a b : Arena) (p : NodeId) : Prop where
  /-- The child list of `p` has changed in one entry at most. -/
  list : ∃ cs ds, a.children p = .ok cs ∧ b.children p = .ok ds ∧ ChildList.OneChange cs ds
  /-- The other nodes have their child lists. -/
  lists : ∀ m < a.size, m ≠ p → b.children m = a.children m
  /-- Nodes other than `p` and those above it have their trees. -/
  trees : ∀ m < a.size, m ≠ p → a.isAncestorOf m p = .ok false → a.Alike b m m
  /-- So have the nodes that `p` lists or has listed, unless they were allocated by the edit. -/
  parts : ∀ cs ds (c : Child), a.children p = .ok cs → b.children p = .ok ds → c ∈ cs ++ ds →
    c.node < a.size → a.Alike b c.node c.node

theorem EditedAt.localChange {a b : Arena} {p : Nat} (ha : a.WellFormed) (hb : b.WellFormed)
    (h : a.EditedAt b p) : a.LocalChange b p := by
  obtain ⟨d, e, hd, he, hchange⟩ := h.changed
  have hp : p < a.size := lt_size_of_node? hd
  refine ⟨⟨d.children, e.children, children_of_node? hd, children_of_node? he, hchange⟩, ?_, ?_, ?_⟩
  · intro m hm hne
    obtain ⟨f, hf⟩ := exists_node?_of_lt hm
    obtain ⟨g, hg, -, hchildren⟩ := h.others m f hne hf
    rw [children_of_node? hg, children_of_node? hf, hchildren]
  · intro m hm hne habove
    refine h.alike ha hm ?_
    obtain ⟨found, hwalk, hfound⟩ := ha.exists_isAncestorOf_eq_ok hp m
    obtain rfl := Except.ok.inj (hwalk.symm.trans habove)
    rintro (heq | hup)
    · exact hne heq.symm
    · exact absurd (hfound.mpr hup) (by simp)
  · intro cs ds c hcs hds hc hlt
    obtain rfl := Except.ok.inj ((children_of_node? hd).symm.trans hcs)
    obtain rfl := Except.ok.inj ((children_of_node? he).symm.trans hds)
    exact h.alike ha hlt (h.not_atOrBelow_of_listed ha hb hd he hc)

/-- **Edits are local**: in every arena that calls lead to, a call that succeeds, and leaves a forest
behind as all calls with handles of the arena do, changes the child list of the node that it is to
change, by one entry at most, and no other, and changes the trees of that node and of those above it
only; renaming changes no child list at all.  So whatever is done to
the nodes of a copy, the trees that were there before it was made stay what they are. -/
theorem localChange_of_reachable {a : Arena} (h : a.Reachable) :
    (∀ call : Call, (call.after a).IsForest → call.mutates = true → call.fault? a = none →
      (call.affected? a = none → call.after a = a) ∧
      ∀ p, call.affected? a = some p → a.LocalChange (call.after a) p) ∧
    (∀ (n : NodeId) (name : String), (Call.rename n name).fault? a = none →
      ∀ m, ((Call.rename n name).after a).children m = a.children m) ∧
    ∀ (n copy : NodeId) (b c : Arena), Edit.cloneSubtree n a = .ok copy b →
      Confined (fun k => a.size ≤ k ∧ k < b.size) b c →
      n < a.size ∧ ∀ m < a.size, a.Alike c m m := by
  have hw := h.wellFormed
  refine ⟨fun call hforest hcall hok => ?_, fun n name hok m => ?_, fun n copy b c hcopy hrun => ?_⟩
  · have hold := Call.namesOld_of_isForest hw hok hforest
    obtain ⟨hnone, hsome⟩ := Call.editedAt_after hw hold hcall hok
    exact ⟨hnone, fun p hp =>
      (hsome p hp).localChange hw (Call.wellFormed_after_of_isForest hw hforest)⟩
  · obtain ⟨v, hrename⟩ := Edit.exists_eq_ok_of_fault? hok
    obtain ⟨-, heq⟩ := Edit.eq_setKind_of_rename hrename
    change ((Edit.rename n name).after a).children m = a.children m
    rw [heq, children_setKind]
  · exact ⟨lt_size_of_cloneSubtree hcopy, fun m hm => alike_of_confined hw hcopy hrun hm⟩

/-- The block `4` holds the statement `2` of the name `x`.  Taking the expression `0` away from the
statement changes the trees `2` and `4`, and not that of the expression.  In the copy `7` of the
block, the copy `11` of the expression is detached and the copy `13` of its name is another name
then; the block `4` does not see it. -/
theorem localChange_of_reachable_block :
    let a := (Call.newBlockOf [2]).after ((Call.newExpressionStatement 0).after
      ((Call.newIdentifierExpression "x").after .empty))
    let b := (Call.cloneSubtree 4).after a
    let c := (Call.rename 13 "y").after ((Call.detach 11).after b)
    a.LocalChange ((Call.setExpression 2 none).after a) 2 ∧
      a.Alike ((Call.setExpression 2 none).after a) 0 0 ∧
      ((Call.setExpression 2 none).after a).children 2 = .ok [⟨.semicolon, 3⟩] ∧
      c.kind 13 = .ok (.identifier "y") ∧ c.parent? 11 = .ok none ∧ a.Alike c 4 4 := by
  intro a b c
  have hreachable : a.Reachable := .call (.newBlockOf [2]) (.call (.newExpressionStatement 0)
    (.call (.newIdentifierExpression "x") .empty))
  obtain ⟨hcalls, -, hcopies⟩ := localChange_of_reachable hreachable
  have hforest : ((Call.setExpression 2 none).after a).IsForest :=
    (Reachable.call (.setExpression 2 none) hreachable).wellFormed.isForest
  have hlocal := (hcalls (.setExpression 2 none) hforest rfl (by decide +kernel)).2 2 rfl
  obtain ⟨copy, hcopy⟩ : ∃ copy, Edit.cloneSubtree 4 a = .ok copy b :=
    Edit.exists_eq_ok_of_fault? (by decide +kernel)
  have hconfined : Confined (fun k => a.size ≤ k ∧ k < b.size) b c := by
    have hname : ((Call.detach 11).after b).cast .identifier 13 = .ok (some 13) := by
      decide +kernel
    refine .call (.rename 13 "y") (.call (.detach 11) .refl rfl fun p hp => ?_) rfl (fun p hp => ?_)
      hname
    · obtain rfl : p = 9 := by
        have hparent : (Call.detach 11).affected? b = some 9 := by decide +kernel
        exact Option.some.inj (hp.symm.trans hparent)
      decide +kernel
    · obtain rfl := Option.some.inj hp
      decide +kernel
  refine ⟨hlocal, hlocal.trees 0 (by decide) (by decide) (by decide +kernel), by decide +kernel,
    by decide +kernel, by decide +kernel, ?_⟩
  exact (hcopies 4 copy b c hcopy hconfined).2 4 (by decide)

end Arena

end SyntaxForest
