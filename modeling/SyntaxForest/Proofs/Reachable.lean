import SyntaxForest.Handle
import SyntaxForest.Proofs.ConstructForest
import SyntaxForest.Proofs.CopyTree

/-!
# Reachable arenas

`Call` lists what a user can do to an arena, with every argument a user can give; a call that
fails is a call like any other, and what it leaves behind is the arena to go on with.  `Reachable`
arenas are those that a run of calls makes of the empty one.  Importing is a step of its own,
since the arena that is imported from has a run of its own.

Calls are given any ids, and the checks of the edits see to it that no harm is done.  Two setters
write without looking, `setName` and `rename`.  They are given a handle of the arena they work on
(`Call.Apt`): the node is what the setter is for.  That a handle which was had once stays one is
shown in `Proofs.Handles`.

No step loses well-formedness (`Call.wellFormed_after`, `Edit.keeps_importFrom`), so no run does
(`Reachable.wellFormed`).  `isForest_of_reachable` says what this means for the answers that the
readers of an arena give, and what the two setters make of an id that is no handle: `setName`
breaks the forest at the one id that it is about to allocate, `rename` where an identifier is out of
place.
-/

namespace SyntaxForest

/-- What a user can do to an arena. -/
inductive Call
  | alloc (k : Kind)
  | newToken (t : Token)
  | newIdentifier (name : String)
  | newLiteral (value : Literal)
  | newIdentifierExpression (name : String)
  | newBinary (left : NodeId) (op : Operator) (right : NodeId)
  | newGoto (label : String)
  | newGotoCase (expression : NodeId)
  | newGotoDefault
  | newLabel (label : String)
  | newBlock
  | newBlockOf (statements : List NodeId)
  | newExpressionStatement (expression : NodeId)
  | newAny (group : Option String)
  | newAnyOrNull (group : Option String)
  | newBackreference (group : String)
  | newNamed (group : String) (inner : NodeId)
  | newChoice (alternatives : List NodeId)
  | setChild (n : NodeId) (r : RoleId) (child : Option NodeId)
  | addChild (n : NodeId) (r : RoleId) (c : NodeId)
  | insertChildBefore (n anchor : NodeId) (r : RoleId) (c : NodeId)
  | detach (n : NodeId)
  | replaceWith (x y : NodeId)
  | setGotoLabel (n : NodeId) (label : String)
  | setLabel (n : NodeId) (label : String)
  | setName (n : NodeId) (name : String)
  | rename (n : NodeId) (name : String)
  | setLabelExpression (n : NodeId) (child : Option NodeId)
  | setExpression (n : NodeId) (child : Option NodeId)
  | addStatement (n c : NodeId)
  | cloneSubtree (n : NodeId)

/-- A handle can be had on the nodes whose kinds the view fits. -/
theorem Arena.cast_eq_ok_iff {a : Arena} {view : View} {n : Nat} :
    a.cast view n = .ok (some n) ↔ ∃ k, a.kind n = .ok k ∧ view.fits k = true := by
  rw [cast]
  cases hk : a.kind n with
  | error e => simp [bind, Except.bind]
  | ok k =>
    cases hfits : view.fits k <;> simp [bind, Except.bind, pure, Except.pure, hfits]

theorem View.exists_of_fits_identifier {k : Kind} (h : View.identifier.fits k = true) :
    ∃ name, k = .identifier name := by
  cases k with
  | identifier name => exact ⟨name, rfl⟩
  | _ => cases h

namespace Call

/-- The arena that a call leaves behind, whether it succeeds or fails. -/
def after : Call → Arena → Arena
  | alloc k => (Edit.alloc k).after
  | newToken t => (Edit.newToken t).after
  | newIdentifier name => (Edit.newIdentifier name).after
  | newLiteral value => (Edit.newLiteral value).after
  | newIdentifierExpression name => (Edit.newIdentifierExpression name).after
  | newBinary left op right => (Edit.newBinary left op right).after
  | newGoto label => (Edit.newGoto label).after
  | newGotoCase expression => (Edit.newGotoCase expression).after
  | newGotoDefault => Edit.newGotoDefault.after
  | newLabel label => (Edit.newLabel label).after
  | newBlock => Edit.newBlock.after
  | newBlockOf statements => (Edit.newBlockOf statements).after
  | newExpressionStatement expression => (Edit.newExpressionStatement expression).after
  | newAny group => (Edit.newAny group).after
  | newAnyOrNull group => (Edit.newAnyOrNull group).after
  | newBackreference group => (Edit.newBackreference group).after
  | newNamed group inner => (Edit.newNamed group inner).after
  | newChoice alternatives => (Edit.newChoice alternatives).after
  | setChild n r child => (Edit.setChild n r child).after
  | addChild n r c => (Edit.addChild n r c).after
  | insertChildBefore n anchor r c => (Edit.insertChildBefore n anchor r c).after
  | detach n => (Edit.detach n).after
  | replaceWith x y => (Edit.replaceWith x y).after
  | setGotoLabel n label => (Edit.setGotoLabel n label).after
  | setLabel n label => (Edit.setLabel n label).after
  | setName n name => (Edit.setName n name).after
  | rename n name => (Edit.rename n name).after
  | setLabelExpression n child => (Edit.setLabelExpression n child).after
  | setExpression n child => (Edit.setExpression n child).after
  | addStatement n c => (Edit.addStatement n c).after
  | cloneSubtree n => (Edit.cloneSubtree n).after

/-- A setter that writes without looking is given a handle of the arena: a name is set on an
identifier expression, and what is renamed is an identifier.  All other calls may be given
anything. -/
def Apt : Call → Arena → Prop
  | setName n _, a => a.cast .identifierExpression n = .ok (some n)
  | rename n _, a => a.cast .identifier n = .ok (some n)
  | _, _ => True

/-- **One step**: no call loses well-formedness. -/
theorem wellFormed_after {call : Call} {a : Arena} (hcall : call.Apt a) (hw : a.WellFormed) :
    (call.after a).WellFormed := by
  cases call with
  | alloc k => exact Edit.keeps_alloc k a hw
  | newToken t => exact Edit.keeps_alloc _ a hw
  | newIdentifier name => exact Edit.keeps_alloc _ a hw
  | newLiteral value => exact Edit.keeps_alloc _ a hw
  | newIdentifierExpression name => exact Edit.keeps_newIdentifierExpression name a hw
  | newBinary left op right => exact Edit.keeps_newBinary left op right a hw
  | newGoto label => exact Edit.keeps_newGoto label a hw
  | newGotoCase expression => exact Edit.keeps_newGotoCase expression a hw
  | newGotoDefault => exact Edit.keeps_newGotoDefault a hw
  | newLabel label => exact Edit.keeps_newLabel label a hw
  | newBlock => exact Edit.keeps_newBlock a hw
  | newBlockOf statements => exact Edit.keeps_newBlockOf statements a hw
  | newExpressionStatement expression => exact Edit.keeps_newExpressionStatement expression a hw
  | newAny group => exact Edit.keeps_alloc _ a hw
  | newAnyOrNull group => exact Edit.keeps_alloc _ a hw
  | newBackreference group => exact Edit.keeps_alloc _ a hw
  | newNamed group inner => exact Edit.keeps_newNamed group inner a hw
  | newChoice alternatives => exact Edit.keeps_newChoice alternatives a hw
  | setChild n r child => exact Edit.keeps_setChild n r child a hw
  | addChild n r c => exact Edit.keeps_addChild n r c a hw
  | insertChildBefore n anchor r c => exact Edit.keeps_insertChildBefore n anchor r c a hw
  | detach n => exact Edit.keeps_detach n a hw
  | replaceWith x y => exact Edit.keeps_replaceWith x y a hw
  | setGotoLabel n label => exact Edit.keeps_setLabelBefore .semicolon n label a hw
  | setLabel n label => exact Edit.keeps_setLabelBefore .colon n label a hw
  | setName n name =>
    obtain ⟨k, hk, -⟩ := Arena.cast_eq_ok_iff.mp hcall
    obtain ⟨d, hd, -⟩ := Arena.kind_eq_ok_iff.mp hk
    have hlt := Arena.lt_size_of_node? hd
    exact Edit.wellFormed_setName hw fun heq => absurd heq (Nat.ne_of_lt hlt)
  | rename n name =>
    obtain ⟨k, hk, hfits⟩ := Arena.cast_eq_ok_iff.mp hcall
    obtain ⟨old, rfl⟩ := View.exists_of_fits_identifier hfits
    exact Edit.wellFormed_rename hw (fun r hr => Arena.admits_of_roleOf? hw hr hk) name
  | setLabelExpression n child => exact Edit.keeps_setExpression n child a hw
  | setExpression n child => exact Edit.keeps_setExpression n child a hw
  | addStatement n c => exact Edit.keeps_addStatement n c a hw
  | cloneSubtree n => exact Edit.keeps_cloneSubtree n a hw

end Call

namespace Arena

/-- Some run of calls leads from the empty arena to this one. -/
inductive Reachable : Arena → Prop
  | empty : Reachable .empty
  | call (c : Call) {a : Arena} (h : Reachable a) (hc : c.Apt a := by trivial) :
    Reachable (c.after a)
  | importFrom {source : Arena} (hsource : Reachable source) (n : NodeId) {a : Arena}
    (h : Reachable a) : Reachable ((Edit.importFrom source n).after a)

/-- **Every run**: reachable arenas are well formed. -/
theorem Reachable.wellFormed {a : Arena} (h : a.Reachable) : a.WellFormed := by
  induction h with
  | empty => exact wellFormed_empty
  | call c _ hc ih => exact Call.wellFormed_after hc ih
  | importFrom _ n _ ihsource ih => exact Edit.keeps_importFrom ihsource n _ ih

/-! ### What the readers answer -/

/-- The answers of the readers describe a forest. -/
structure IsForest (a : Arena) : Prop where
  /-- Parents are nodes of the arena. -/
  parent_lt : ∀ n p : Nat, a.parent? n = .ok (some p) → p < a.size
  /-- Children are nodes of the arena. -/
  child_lt : ∀ (n : Nat) (cs : ChildList), a.children n = .ok cs → ∀ c ∈ cs, c.node < a.size
  /-- The child list of `p` has `n` once if `p` is its parent, and not at all otherwise. -/
  count_eq : ∀ (n p : Nat) (q : Option NodeId) (cs : ChildList), a.parent? n = .ok q →
    a.children p = .ok cs → (cs.map (·.node)).count n = if q = some p then 1 else 0
  /-- No chain of parent links leads from a node to itself. -/
  acyclic : ∀ n : Nat, ¬ a.Ancestor n n
  /-- A role that holds a single child labels at most one entry. -/
  single : ∀ (p : Nat) (r : RoleId) (cs : List NodeId), r.isMany = false →
    a.childrenUnder p r = .ok cs → cs.length ≤ 1
  /-- Every child is of a category that its role takes. -/
  admitted : ∀ (p : Nat) (cs : ChildList) (c : Child) (k : Kind), a.children p = .ok cs → c ∈ cs →
    a.kind c.node = .ok k → c.role.admits k.category = true

theorem WellFormed.isForest {a : Arena} (hw : a.WellFormed) : a.IsForest where
  parent_lt n p h := by
    obtain ⟨d, hd, hp⟩ := parent?_eq_ok_iff.mp h
    exact hw.parent_lt n p d hd hp
  child_lt n cs h c hc := by
    obtain ⟨d, hd, rfl⟩ := children_eq_ok_iff.mp h
    exact hw.child_lt n d c hd hc
  count_eq n p q cs hn hp := by
    obtain ⟨d, hd, rfl⟩ := parent?_eq_ok_iff.mp hn
    obtain ⟨e, he, rfl⟩ := children_eq_ok_iff.mp hp
    have hiff := hw.listed_iff n p d e hd he
    split_ifs with hq
    · exact List.count_eq_one_of_mem (hw.listed_once p e he) (hiff.mpr hq)
    · exact List.count_eq_zero_of_not_mem fun hmem => hq (hiff.mp hmem)
  acyclic := hw.acyclic
  single p r cs hr h := by
    obtain ⟨e, he, rfl⟩ := childrenUnder_eq_ok_iff.mp h
    exact hw.single_once p e r he (RoleId.cardinality_of_isMany_false hr)
  admitted p cs c k hp hc hk := by
    obtain ⟨e, he, rfl⟩ := children_eq_ok_iff.mp hp
    obtain ⟨d, hd, rfl⟩ := kind_eq_ok_iff.mp hk
    exact hw.admitted p e c d he hc hd

/-! ### Setters that write without looking -/

section Blind

variable {a : Arena} {n : Nat}

/-- Set as the name of the node it is, a new node is its own parent. -/
theorem parent?_setName_self {name : String} (hname : name.isEmpty = false) :
    ((Call.setName a.size name).after a).parent? a.size = .ok (some a.size) := by
  have hself := node?_push_self a (.identifier name)
  have hput := Edit.putChild_of_empty hself (r := .identifier) rfl a.size none
  have hafter : (Call.setName a.size name).after a = (a.push (.identifier name)).relink a.size
      (ChildList.insertBefore ⟨.identifier, a.size⟩ none []) a.size (some a.size) := by
    change (Edit.setIdentifier a.size name none).after a = _
    rw [Edit.setIdentifier, if_neg (by simp [hname]), Edit.after_bind_of_ok (Edit.alloc_apply _ a),
      Edit.after_bind_of_ok hput]
    rfl
  refine parent?_eq_ok_iff.mpr ⟨⟨.identifier name, some a.size, [⟨.identifier, a.size⟩]⟩, ?_, rfl⟩
  rw [hafter, relink, node?_setParent, if_pos rfl, node?_setChildren, if_pos rfl, hself]
  rfl

/-- Setting a name, on whatever id, keeps the forest unless the id is that of the new name. -/
theorem isForest_setName_iff (hw : a.WellFormed) (name : String) :
    ((Call.setName n name).after a).IsForest ↔ (n = a.size → name.isEmpty = true) := by
  constructor
  · rintro hforest rfl
    by_contra hname
    obtain ⟨d, hd, hp⟩ := parent?_eq_ok_iff.mp (parent?_setName_self (Bool.not_eq_true _ ▸ hname))
    exact hforest.acyclic a.size (.parent hd hp)
  · intro hself
    exact (Edit.wellFormed_setName hw hself).isForest

/-- Renaming, on whatever id, keeps the forest unless the node sits under a role that takes no
identifiers. -/
theorem isForest_rename_iff (hw : a.WellFormed) (name : String) :
    ((Call.rename n name).after a).IsForest ↔
      ∀ r, a.roleOf? n = .ok (some r) → r.admits .identifier = true := by
  constructor
  · intro hforest r hr
    obtain ⟨p, e, hp, hlisted⟩ := exists_listed_of_roleOf? hr
    obtain ⟨d, hd, -, -⟩ := exists_node?_of_listed hw hp hlisted
    have hk := kind_of_node? hd
    rw [Call.after, Edit.after_of_ok (Edit.rename_of_kind hk name)] at hforest
    have hchildren : (a.setKind n (.identifier name)).children p = .ok e.children := by
      rw [children_setKind, children_of_node? hp]
    exact hforest.admitted p e.children ⟨r, n⟩ _ hchildren hlisted (kind_setKind_self hk _)
  · intro hrole
    exact (Edit.wellFormed_rename hw hrole name).isForest

end Blind

end Arena

end SyntaxForest
