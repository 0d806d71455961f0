import SyntaxForest.Proofs.Reachable

/-!
# Which ids roles have makes no difference

The roles of the grammar are defined when they are needed first, and a program may have defined
roles of its own by then.  In such a program the role that the constants call `RoleId.keyword` has
another id.  A `Relabelling` says which id stands for which: different roles have different ids, and
an id carries the cardinality and the category of its role.

Nothing that an edit does depends on the ids beyond that.  `Edit.Relabels σ f x y` says that `y`
does to a relabelled arena what `x` does to the arena, with the answers relabelled by `f`.  Parts
that are put together keep this (`Edit.Relabels.bind`), so it is shown along the definitions.
`Call.relabel_after` collects the general edits: with the relabelled roles they lead from the
relabelled arena to the relabelled arena.
-/

namespace SyntaxForest

/-- Other ids for the roles, with the same cardinalities and categories. -/
structure Relabelling where
  id : RoleId → RoleId
  injective : Function.Injective id
  cardinality_id : ∀ r, (id r).cardinality = r.cardinality
  accepts_id : ∀ r, (id r).accepts = r.accepts

namespace Relabelling

variable (σ : Relabelling)

@[simp] theorem id_inj {r s : RoleId} : σ.id r = σ.id s ↔ r = s := σ.injective.eq_iff

@[simp] theorem isMany_id (r : RoleId) : (σ.id r).isMany = r.isMany := by
  rw [RoleId.isMany, RoleId.isMany, σ.cardinality_id]

@[simp] theorem admits_id (r : RoleId) (c : Category) : (σ.id r).admits c = r.admits c := by
  rw [RoleId.admits, RoleId.admits, σ.accepts_id]

end Relabelling

/-! ### Child lists -/

namespace ChildList

variable (σ : Relabelling)

def relabel (cs : ChildList) : ChildList := cs.map fun c => ⟨σ.id c.role, c.node⟩

@[simp] theorem relabel_nil : relabel σ [] = [] := rfl

@[simp] theorem relabel_cons (c : Child) (cs : ChildList) :
    relabel σ (c :: cs) = ⟨σ.id c.role, c.node⟩ :: relabel σ cs := rfl

@[simp] theorem relabel_append (cs ds : ChildList) :
    relabel σ (cs ++ ds) = relabel σ cs ++ relabel σ ds := List.map_append

theorem firstUnder?_relabel (cs : ChildList) (r : RoleId) :
    (relabel σ cs).firstUnder? (σ.id r) = cs.firstUnder? r := by
  simp [firstUnder?, relabel, List.find?_map, Function.comp_def, Option.map_map]

theorem eraseUnder_relabel (cs : ChildList) (r : RoleId) :
    (relabel σ cs).eraseUnder (σ.id r) = relabel σ (cs.eraseUnder r) := by
  induction cs with
  | nil => rfl
  | cons c cs ih =>
    rw [eraseUnder] at ih ⊢
    rw [eraseUnder] at ih ⊢
    by_cases hc : c.role = r
    · simp [hc]
    · simp [hc, ih]

theorem insertBefore_relabel (r : RoleId) (n : NodeId) (anchor : Option NodeId) (cs : ChildList) :
    insertBefore ⟨σ.id r, n⟩ anchor (relabel σ cs) = relabel σ (insertBefore ⟨r, n⟩ anchor cs) := by
  induction cs with
  | nil => rfl
  | cons c cs ih =>
    rw [relabel_cons, insertBefore, insertBefore, ih]
    split_ifs <;> rfl

theorem replaceUnder_relabel (r : RoleId) (n : NodeId) (cs : ChildList) :
    replaceUnder (σ.id r) n (relabel σ cs) = relabel σ (replaceUnder r n cs) := by
  induction cs with
  | nil => rfl
  | cons c cs ih =>
    rw [relabel_cons, replaceUnder, replaceUnder, ih]
    by_cases hc : c.role = r
    · simp [hc]
    · simp [hc]

theorem put_relabel (cs : ChildList) (r : RoleId) (n : NodeId) (anchor : Option NodeId) :
    (relabel σ cs).put (σ.id r) n anchor = relabel σ (cs.put r n anchor) := by
  rw [put, put, firstUnder?_relabel]
  cases cs.firstUnder? r with
  | none => exact insertBefore_relabel σ r n anchor cs
  | some o => exact replaceUnder_relabel σ r n cs

theorem split?_relabel (n : NodeId) (cs : ChildList) :
    split? n (relabel σ cs) =
      (split? n cs).map fun (before, role, after) =>
        (relabel σ before, σ.id role, relabel σ after) := by
  induction cs with
  | nil => rfl
  | cons c cs ih =>
    rw [relabel_cons, split?, split?, ih]
    split_ifs
    · rfl
    · cases split? n cs <;> rfl

end ChildList

/-! ### Arenas -/

/-- The fault, with the ids in it relabelled. -/
def Fault.relabel (σ : Relabelling) : Fault → Fault
  | slotMismatch role found => slotMismatch (σ.id role) found
  | notSingleValued role => notSingleValued (σ.id role)
  | notMultiValued role => notMultiValued (σ.id role)
  | fault => fault

/-- An answer, with what is in it relabelled by `f`. -/
def answer {α : Type} (σ : Relabelling) (f : α → α) : Except Fault α → Except Fault α
  | .ok v => .ok (f v)
  | .error e => .error (e.relabel σ)

theorem answer_bind {α β : Type} {σ : Relabelling} {f : α → α} {g : β → β} {x y : Except Fault α}
    {k l : α → Except Fault β} (hx : y = answer σ f x) (hk : ∀ v, l (f v) = answer σ g (k v)) :
    y >>= l = answer σ g (x >>= k) := by
  subst hx
  cases x with
  | ok v => exact hk v
  | error e => rfl

def Node.relabel (σ : Relabelling) (d : Node) : Node :=
  { d with children := d.children.relabel σ }

def Arena.Place.relabel (σ : Relabelling) (place : Arena.Place) : Arena.Place :=
  ⟨place.parent, place.before.relabel σ, σ.id place.role, place.after.relabel σ⟩

namespace Arena

variable (σ : Relabelling)

/-- The arena with other ids in its child lists. -/
def relabel (a : Arena) : Arena := ⟨a.nodes.map (Node.relabel σ)⟩

@[simp] theorem size_relabel (a : Arena) : (a.relabel σ).size = a.size := by
  simp [relabel, size]

@[simp] theorem node?_relabel (a : Arena) (n : NodeId) :
    (a.relabel σ).node? n = (a.node? n).map (Node.relabel σ) := by
  simp [relabel, node?]

@[simp] theorem relabel_empty : empty.relabel σ = empty := by
  simp [relabel, empty]

theorem relabel_push (a : Arena) (k : Kind) : (a.relabel σ).push k = (a.push k).relabel σ := by
  simp [relabel, push, Node.relabel]

theorem relabel_update (a : Arena) (n : NodeId) {f g : Node → Node}
    (h : ∀ d, g (d.relabel σ) = (f d).relabel σ) :
    (a.relabel σ).update n g = (a.update n f).relabel σ := by
  refine Arena.ext_node? fun m => ?_
  rw [node?_update, node?_relabel, node?_relabel, node?_update]
  split_ifs
  · cases a.node? m with
    | none => rfl
    | some d => exact congrArg some (h d)
  · rfl

theorem relabel_setParent (a : Arena) (n : NodeId) (p : Option NodeId) :
    (a.relabel σ).setParent n p = (a.setParent n p).relabel σ :=
  relabel_update σ a n fun _ => rfl

theorem relabel_setChildren (a : Arena) (n : NodeId) {f g : ChildList → ChildList}
    (h : ∀ cs, g (cs.relabel σ) = (f cs).relabel σ) :
    (a.relabel σ).setChildren n g = (a.setChildren n f).relabel σ :=
  relabel_update σ a n fun d => by simp [Node.relabel, h]

/-! Readers. -/

theorem node_relabel (a : Arena) (n : NodeId) :
    (a.relabel σ).node n = answer σ (Node.relabel σ) (a.node n) := by
  rw [node, node, node?_relabel, size_relabel]
  cases a.node? n <;> rfl

theorem parent?_relabel (a : Arena) (n : NodeId) :
    (a.relabel σ).parent? n = answer σ (fun p => p) (a.parent? n) :=
  answer_bind (node_relabel σ a n) fun _ => rfl

theorem children_relabel (a : Arena) (n : NodeId) :
    (a.relabel σ).children n = answer σ (ChildList.relabel σ) (a.children n) :=
  answer_bind (node_relabel σ a n) fun _ => rfl

theorem child?_relabel (a : Arena) (n : NodeId) (r : RoleId) :
    (a.relabel σ).child? n (σ.id r) = answer σ (fun c => c) (a.child? n r) :=
  answer_bind (children_relabel σ a n) fun cs =>
    congrArg Except.ok (ChildList.firstUnder?_relabel σ cs r)

theorem place?_relabel (a : Arena) (n : NodeId) :
    (a.relabel σ).place? n = answer σ (Option.map (Place.relabel σ)) (a.place? n) := by
  refine answer_bind (parent?_relabel σ a n) fun p => ?_
  cases p with
  | none => rfl
  | some p =>
    refine answer_bind (children_relabel σ a p) fun cs => ?_
    rw [ChildList.split?_relabel]
    cases ChildList.split? n cs <;> rfl

theorem leadsTo_relabel (a : Arena) (x : NodeId) (fuel : Nat) (n : NodeId) :
    (a.relabel σ).leadsTo x fuel n = answer σ (fun b => b) (a.leadsTo x fuel n) := by
  induction fuel generalizing n with
  | zero => rfl
  | succ fuel ih =>
    refine answer_bind (parent?_relabel σ a n) fun p => ?_
    cases p with
    | none => rfl
    | some p =>
      show (if p = x then _ else _) = answer σ _ (if p = x then _ else _)
      split_ifs
      · rfl
      · exact ih p

theorem checkAttach_relabel (a : Arena) (n : NodeId) (r : RoleId) (c : NodeId) :
    (a.relabel σ).checkAttach n (σ.id r) c = answer σ (fun u => u) (a.checkAttach n r c) := by
  refine answer_bind (node_relabel σ a c) fun ⟨k, p, cs⟩ => ?_
  show (if (σ.id r).admits k.category then _ else _) =
    answer σ _ (if r.admits k.category then _ else _)
  rw [σ.admits_id]
  by_cases hadm : r.admits k.category = true
  · rw [if_pos hadm, if_pos hadm]
    cases p with
    | some p => rfl
    | none =>
      show (if c = n then _ else _) = answer σ _ (if c = n then _ else _)
      by_cases hself : c = n
      · rw [if_pos hself, if_pos hself]
        rfl
      · rw [if_neg hself, if_neg hself]
        refine answer_bind (f := fun b => b) ?_ fun above => ?_
        · rw [isAncestorOf, size_relabel]
          exact leadsTo_relabel σ a c _ n
        · cases above <;> rfl
  · rw [if_neg hadm, if_neg hadm]
    rfl

end Arena

/-! ### Edits -/

namespace Edit

open Arena

variable {α β : Type} {σ : Relabelling}

/-- What `y` does to a relabelled arena is what `x` does to the arena. -/
def Relabels (σ : Relabelling) (f : α → α) (x y : Edit α) : Prop :=
  ∀ a : Arena, y (a.relabel σ) = match x a with
    | .ok v b => .ok (f v) (b.relabel σ)
    | .error e b => .error (e.relabel σ) (b.relabel σ)

theorem relabels_pure {f : α → α} {v w : α} (h : w = f v) :
    Relabels σ f (pure v : Edit α) (pure w) := by
  intro a
  rw [h]
  rfl

theorem relabels_throw {f : α → α} {e e' : Fault} (h : e' = e.relabel σ) :
    Relabels σ f (throw e : Edit α) (throw e') := by
  intro a
  rw [h]
  rfl

theorem relabels_look {f : α → α} {q r : Arena → Except Fault α}
    (h : ∀ a : Arena, r (a.relabel σ) = answer σ f (q a)) : Relabels σ f (look q) (look r) := by
  intro a
  rw [look, look, h a]
  cases q a <;> rfl

theorem relabels_write {q r : Arena → Arena}
    (h : ∀ a : Arena, r (a.relabel σ) = (q a).relabel σ) :
    Relabels σ (fun u => u) (write q) (write r) := by
  intro a
  rw [write_apply, write_apply, h a]

theorem Relabels.bind {f : α → α} {g : β → β} {x y : Edit α} {k l : α → Edit β}
    (hx : Relabels σ f x y) (hk : ∀ v, Relabels σ g (k v) (l (f v))) :
    Relabels σ g (x >>= k) (y >>= l) := by
  intro a
  have hfirst := hx a
  cases hr : x a with
  | ok v b =>
    rw [hr] at hfirst
    rw [bind_of_ok hfirst, bind_of_ok hr]
    exact hk v b
  | error e b =>
    rw [hr] at hfirst
    rw [bind_of_error hfirst, bind_of_error hr]

theorem Relabels.after_eq {f : α → α} {x y : Edit α} (h : Relabels σ f x y) (a : Arena) :
    y.after (a.relabel σ) = (x.after a).relabel σ := by
  rw [after, after, h a]
  cases x a <;> rfl

variable (σ) (n c : NodeId) (r : RoleId)

theorem relabels_setParent (p : Option NodeId) :
    Relabels σ (fun u => u) (write (·.setParent n p)) (write (·.setParent n p)) :=
  relabels_write fun a => relabel_setParent σ a n p

theorem relabels_setChildren {f g : ChildList → ChildList}
    (h : ∀ cs : ChildList, g (cs.relabel σ) = (f cs).relabel σ) :
    Relabels σ (fun u => u) (write (·.setChildren n f)) (write (·.setChildren n g)) :=
  relabels_write fun a => relabel_setChildren σ a n h

theorem relabels_putChild (anchor : Option NodeId) :
    Relabels σ (fun o => o) (putChild n r c anchor) (putChild n (σ.id r) c anchor) := by
  refine (relabels_look fun a => child?_relabel σ a n r).bind fun old => ?_
  refine (relabels_setChildren σ n fun cs => ChildList.put_relabel σ cs r c anchor).bind fun _ => ?_
  cases old with
  | none => exact (relabels_setParent σ c _).bind fun _ => relabels_pure rfl
  | some o =>
    exact (relabels_setParent σ o none).bind fun _ =>
      (relabels_setParent σ c _).bind fun _ => relabels_pure rfl

theorem relabels_takeChild :
    Relabels σ (fun o => o) (takeChild n r) (takeChild n (σ.id r)) := by
  refine (relabels_look fun a => child?_relabel σ a n r).bind fun old => ?_
  cases old with
  | none => exact relabels_pure rfl
  | some o =>
    exact (relabels_setChildren σ n fun cs => ChildList.eraseUnder_relabel σ cs r).bind fun _ =>
      (relabels_setParent σ o none).bind fun _ => relabels_pure rfl

theorem relabels_setChild (child : Option NodeId) :
    Relabels σ (fun o => o) (setChild n r child) (setChild n (σ.id r) child) := by
  unfold setChild
  rw [σ.isMany_id]
  split_ifs
  · exact relabels_throw rfl
  · cases child with
    | none => exact relabels_takeChild σ n r
    | some c =>
      refine (relabels_look fun a => child?_relabel σ a n r).bind fun old => ?_
      split_ifs
      · exact relabels_pure rfl
      · exact (relabels_look fun a => checkAttach_relabel σ a n r c).bind fun _ =>
          relabels_putChild σ n c r none

theorem relabels_addChild :
    Relabels σ (fun u => u) (addChild n r c) (addChild n (σ.id r) c) := by
  rw [addChild, addChild, σ.isMany_id]
  split_ifs
  · refine (relabels_look fun a => checkAttach_relabel σ a n r c).bind fun _ => ?_
    refine relabels_write fun a => ?_
    rw [Arena.link, Arena.link, relabel_setChildren σ a n (f := (· ++ [⟨r, c⟩])) (by simp),
      relabel_setParent]
  · exact relabels_throw rfl

theorem relabels_insertChildBefore (anchor : NodeId) :
    Relabels σ (fun o => o) (insertChildBefore n anchor r c)
      (insertChildBefore n anchor (σ.id r) c) := by
  refine (relabels_look fun a => parent?_relabel σ a anchor).bind fun p => ?_
  rw [σ.isMany_id]
  split_ifs
  · refine (relabels_look fun a => checkAttach_relabel σ a n r c).bind fun _ => ?_
    refine (relabels_setChildren σ n fun cs =>
      ChildList.insertBefore_relabel σ r c (some anchor) cs).bind fun _ => ?_
    exact (relabels_setParent σ c _).bind fun _ => relabels_pure rfl
  · exact (relabels_look fun a => checkAttach_relabel σ a n r c).bind fun _ =>
      relabels_putChild σ n c r (some anchor)
  · exact relabels_throw rfl

/-- The role that is returned is the relabelled one. -/
theorem relabels_detach : Relabels σ (Option.map σ.id) (detach n) (detach n) := by
  refine (relabels_look fun a => place?_relabel σ a n).bind fun place => ?_
  cases place with
  | none => exact relabels_pure rfl
  | some place =>
    refine (relabels_setChildren σ place.parent fun _ => ?_).bind fun _ =>
      (relabels_setParent σ n none).bind fun _ => relabels_pure rfl
    exact (ChildList.relabel_append σ _ _).symm

theorem relabels_replaceWith (x y : NodeId) :
    Relabels σ (fun u => u) (replaceWith x y) (replaceWith x y) := by
  rw [replaceWith]
  split_ifs
  · exact relabels_pure rfl
  · refine (relabels_look fun a => place?_relabel σ a x).bind fun place => ?_
    cases place with
    | none => exact relabels_throw rfl
    | some place =>
      refine (relabels_look fun a => checkAttach_relabel σ a _ place.role y).bind fun _ => ?_
      refine (relabels_setChildren σ place.parent fun _ => ?_).bind fun _ => ?_
      · exact (ChildList.relabel_append σ place.before (⟨place.role, y⟩ :: place.after)).symm
      · exact (relabels_setParent σ y _).bind fun _ => relabels_setParent σ x none

end Edit

namespace Call

open Edit

/-- The call is one of the general edits, which know no role but the one that they are given. -/
def isGeneral : Call → Bool
  | alloc _ | setChild .. | addChild .. | insertChildBefore .. | detach .. | replaceWith .. => true
  | _ => false

/-- The call with another id for the role that it is given. -/
def relabel (σ : Relabelling) : Call → Call
  | setChild n r child => setChild n (σ.id r) child
  | addChild n r c => addChild n (σ.id r) c
  | insertChildBefore n anchor r c => insertChildBefore n anchor (σ.id r) c
  | call => call

/-- **Ids make no difference**: a general edit that is given the relabelled role leads from the
relabelled arena to the relabelled arena. -/
theorem relabel_after (σ : Relabelling) {call : Call} (hcall : call.isGeneral = true) (a : Arena) :
    (call.relabel σ).after (a.relabel σ) = (call.after a).relabel σ := by
  cases call with
  | alloc k => exact Arena.relabel_push σ a k
  | setChild n r child => exact (relabels_setChild σ n r child).after_eq a
  | addChild n r c => exact (relabels_addChild σ n c r).after_eq a
  | insertChildBefore n anchor r c => exact (relabels_insertChildBefore σ n c r anchor).after_eq a
  | detach n => exact (relabels_detach σ n).after_eq a
  | replaceWith x y => exact (relabels_replaceWith σ x y).after_eq a
  | _ => cases hcall

end Call

end SyntaxForest
