import SyntaxForest.Proofs.CopyTree
import SyntaxForest.Proofs.Equality

/-!
# Work lists

Comparing and copying go down a tree.  They are defined by recursion on the depth.  The same can be
done in a loop with a stack of what is still to do: the loop takes what is on top, deals with it,
and puts what it finds below on the stack, so that the last child is next.

`WorkList.exists_loop_eq` says in general that the two come to the same: if the recursion does not
run out of depth, then the loop ends, after some number of rounds, with the same answer or the same
fault, and in the same state.  It is shown for a stack with more work on it, where the loop goes on
with the rest once the item on top is done with (`WorkList.exists_loop_cons`).

* `Arena.exists_compareLoop_eq_of_wellFormed`: the loop that compares gives the answer of
  `structurallyEqual`.
* `Edit.exists_importLoop_eq` and `Edit.exists_cloneLoop_eq`: the loops that copy do what
  `importFrom` and `cloneSubtree` do, down to the order in which ids are given out.
-/

namespace SyntaxForest

/-! ### Loops and recursions -/

/-- What comes next depends on the outcome of the step only. -/
theorem Edit.bind_congr_of_eq {α β : Type} {x y : Edit α} {f : α → Edit β} {a b : Arena}
    (h : x a = y b) : (x >>= f) a = (y >>= f) b := by
  show EStateM.bind x f a = EStateM.bind y f b
  rw [EStateM.bind, EStateM.bind, h]

namespace WorkList

open Edit

variable {ι : Type}

/-- Go on with `y` after a yes. -/
def andThen (x y : Edit Bool) : Edit Bool := do
  if ← x then y else return false

section AndThen

variable {x y : Edit Bool} {a b : Arena} {e : Fault}

theorem andThen_of_true (h : x a = .ok true b) : andThen x y a = y b := by
  rw [andThen, bind_of_ok h]
  rfl

theorem andThen_of_false (h : x a = .ok false b) : andThen x y a = .ok false b := by
  rw [andThen, bind_of_ok h]
  rfl

theorem andThen_of_error (h : x a = .error e b) : andThen x y a = .error e b := by
  rw [andThen, bind_of_error h]

theorem andThen_congr {z : Edit Bool} (h : x a = z b) : andThen x y a = andThen z y b :=
  bind_congr_of_eq h

theorem andThen_return_true (x : Edit Bool) : andThen x (return true) = x := by
  funext a
  cases h : x a with
  | error e b => exact andThen_of_error h
  | ok v b =>
    cases v with
    | false => exact andThen_of_false h
    | true => exact andThen_of_true h

end AndThen

section Visits

variable (visit : ι → Edit (Option (List ι)))

/-- Visit what is on top of the stack and put what there is below it in its place, until the stack
is empty or a visit ends the loop; in at most `fuel` rounds. -/
def loop : Nat → List ι → Edit Bool
  | 0, _ => throw .endless
  | _ + 1, [] => return true
  | fuel + 1, x :: later => do
    match ← visit x with
    | some below => loop fuel (below ++ later)
    | none => return false

/-- Visit an item and then, in turn, all there is below it, at most `fuel` levels down. -/
def descend : Nat → ι → Edit Bool
  | 0, _ => throw .endless
  | fuel + 1, x => do
    match ← visit x with
    | some below => below.allM (descend fuel)
    | none => return false

variable {visit}

theorem allM_cons (f : ι → Edit Bool) (x : ι) (xs : List ι) :
    (x :: xs).allM f = andThen (f x) (xs.allM f) := by
  rw [List.allM, andThen]
  congr 1
  funext v
  cases v <;> rfl

/-- If every one of the items is done with in some rounds, then so are all of them. -/
theorem exists_loop_append {fuel : Nat}
    (hone : ∀ x a, (∀ b, descend visit fuel x a ≠ .error .endless b) → ∃ k, ∀ j later,
      loop visit (k + j) (x :: later) a = andThen (descend visit fuel x) (loop visit j later) a)
    (xs : List ι) (a : Arena) (h : ∀ b, xs.allM (descend visit fuel) a ≠ .error .endless b) :
    ∃ k, ∀ j later, loop visit (k + j) (xs ++ later) a =
      andThen (xs.allM (descend visit fuel)) (loop visit j later) a := by
  induction xs generalizing a with
  | nil => exact ⟨0, fun j later => by rw [Nat.zero_add]; rfl⟩
  | cons x xs ih =>
    rw [allM_cons] at h ⊢
    cases hx : descend visit fuel x a with
    | error e b =>
      rw [andThen_of_error hx] at h
      obtain ⟨k, hk⟩ := hone x a (by rwa [hx])
      refine ⟨k, fun j later => ?_⟩
      rw [List.cons_append, hk, andThen_of_error hx, andThen_of_error (andThen_of_error hx)]
    | ok v b =>
      obtain ⟨k, hk⟩ := hone x a (by simp [hx])
      cases v with
      | false =>
        refine ⟨k, fun j later => ?_⟩
        rw [List.cons_append, hk, andThen_of_false hx, andThen_of_false (andThen_of_false hx)]
      | true =>
        rw [andThen_of_true hx] at h
        obtain ⟨l, hl⟩ := ih b h
        refine ⟨k + l, fun j later => ?_⟩
        rw [List.cons_append, Nat.add_assoc, hk, andThen_of_true hx, hl]
        exact (andThen_congr (andThen_of_true hx)).symm

/-- **One item**: the loop is done with it in some rounds, and goes on with the rest of the stack in
the state in which the recursion ends. -/
theorem exists_loop_cons {fuel : Nat} {x : ι} {a : Arena}
    (h : ∀ b, descend visit fuel x a ≠ .error .endless b) : ∃ k, ∀ j later,
      loop visit (k + j) (x :: later) a =
        andThen (descend visit fuel x) (loop visit j later) a := by
  induction fuel generalizing x a with
  | zero => exact absurd rfl (h a)
  | succ fuel ih =>
    -- one round for the item itself, and then the rounds for what it puts on the stack
    cases hvisit : visit x a with
    | error e b =>
      have hx : descend visit (fuel + 1) x a = .error e b := by rw [descend, bind_of_error hvisit]
      refine ⟨1, fun j later => ?_⟩
      rw [andThen_of_error hx, Nat.add_comm, loop, bind_of_error hvisit]
    | ok below b =>
      cases below with
      | none =>
        have hx : descend visit (fuel + 1) x a = .ok false b := by
          rw [descend, bind_of_ok hvisit]
          rfl
        refine ⟨1, fun j later => ?_⟩
        rw [andThen_of_false hx, Nat.add_comm, loop, bind_of_ok hvisit]
        rfl
      | some below =>
        have hx : descend visit (fuel + 1) x a = below.allM (descend visit fuel) b := by
          rw [descend, bind_of_ok hvisit]
        rw [hx] at h
        obtain ⟨k, hk⟩ := exists_loop_append (fun y c hy => ih hy) below b h
        refine ⟨k + 1, fun j later => ?_⟩
        rw [Nat.add_right_comm, loop, bind_of_ok hvisit, andThen_congr hx]
        exact hk j later

/-- **The loop does what the recursion does**, if the recursion does not run out of depth. -/
theorem exists_loop_eq {fuel : Nat} {x : ι} {a : Arena}
    (h : ∀ b, descend visit fuel x a ≠ .error .endless b) :
    ∃ k, ∀ j, k ≤ j → loop visit j [x] a = descend visit fuel x a := by
  obtain ⟨k, hk⟩ := exists_loop_cons h
  refine ⟨k + 1, fun j hj => ?_⟩
  obtain ⟨i, rfl⟩ := Nat.exists_eq_add_of_le hj
  have hempty : loop visit (i + 1) [] = (return true) := rfl
  rw [Nat.add_assoc, Nat.add_comm 1, hk, hempty, andThen_return_true]

end Visits

end WorkList

/-! ### Comparing -/

section Settled

variable {α β : Type}

theorem settled_bind (x : Except Fault α) (f : α → Except Fault β) :
    (settled (x >>= f) : Edit β) = settled x >>= fun v => settled (f v) := by
  cases x <;> rfl

theorem settled_allM (f : α → Except Fault Bool) : ∀ xs : List α,
    (settled (xs.allM f) : Edit Bool) = xs.allM fun x => settled (f x)
  | [] => rfl
  | x :: xs => by
    rw [List.allM, List.allM, settled_bind]
    congr 1
    funext v
    cases v with
    | false => rfl
    | true => exact settled_allM f xs

theorem allM_map (g : β → α) (f : α → Except Fault Bool) : ∀ xs : List β,
    (xs.map g).allM f = xs.allM fun x => f (g x)
  | [] => rfl
  | x :: xs => by
    rw [List.map_cons, List.allM, List.allM, allM_map g f xs]

theorem eq_error_of_settled {x : Except Fault α} {e : Fault} {a b : Arena}
    (h : (settled x : Edit α) a = .error e b) : x = .error e := by
  cases x with
  | error e' =>
    cases h
    rfl
  | ok v => cases h

theorem settled_inj {x y : Except Fault α} (a : Arena)
    (h : (settled x : Edit α) a = settled y a) : x = y := by
  cases x with
  | error e =>
    cases y with
    | error e' =>
      cases h
      rfl
    | ok w => cases h
  | ok v =>
    cases y with
    | error e' => cases h
    | ok w =>
      cases h
      rfl

end Settled

namespace Arena

variable {a b : Arena}

/-- Put pairs of children on a stack, unless there is a pair with different roles. -/
def pushPairs : ChildList → ChildList → List (NodeId × NodeId) → Option (List (NodeId × NodeId))
  | c :: cs, d :: ds, stack =>
    if c.role = d.role then pushPairs cs ds ((c.node, d.node) :: stack) else none
  | _, _, stack => some stack

/-- Compare the pairs on the stack, and what is below them, in at most `fuel` rounds. -/
def compareLoop (a b : Arena) : Nat → List (NodeId × NodeId) → Except Fault Bool
  | 0, _ => .error .endless
  | _ + 1, [] => return true
  | fuel + 1, (x, y) :: later => do
    let d ← a.node x
    let e ← b.node y
    if d.kind = e.kind ∧ d.children.length = e.children.length then
      match pushPairs d.children e.children later with
      | some stack => compareLoop a b fuel stack
      | none => return false
    else return false

/-- The pairs of children, last first. -/
def pairs (cs ds : ChildList) : List (NodeId × NodeId) :=
  (cs.zip ds).reverse.map fun (c, d) => (c.node, d.node)

theorem pushPairs_eq : ∀ {cs ds : ChildList}, cs.length = ds.length → ∀ stack,
    pushPairs cs ds stack =
      if cs.map (·.role) = ds.map (·.role) then some (pairs cs ds ++ stack) else none
  | [], [], _, stack => rfl
  | c :: cs, d :: ds, h, stack => by
    rw [pushPairs, pushPairs_eq (Nat.succ.inj h)]
    by_cases hrole : c.role = d.role
    · simp [hrole, pairs]
    · simp [hrole]

/-- What there is below a pair, if the two nodes do not differ by themselves. -/
def visitPair (a b : Arena) (p : NodeId × NodeId) :
    Except Fault (Option (List (NodeId × NodeId))) := do
  let d ← a.node p.1
  let e ← b.node p.2
  if d.kind = e.kind ∧ d.children.map (·.role) = e.children.map (·.role) then
    return some (pairs d.children e.children)
  else return none

theorem compareLoop_cons (fuel : Nat) (p : NodeId × NodeId) (later : List (NodeId × NodeId)) :
    compareLoop a b (fuel + 1) (p :: later) = visitPair a b p >>= fun
      | some below => compareLoop a b fuel (below ++ later)
      | none => return false := by
  rw [compareLoop, visitPair]
  cases a.node p.1 with
  | error e => rfl
  | ok d =>
    cases b.node p.2 with
    | error e => rfl
    | ok e =>
      simp only [bind, Except.bind]
      by_cases hlength : d.children.length = e.children.length
      · rw [pushPairs_eq hlength]
        by_cases hkind : d.kind = e.kind <;>
          by_cases hroles : d.children.map (·.role) = e.children.map (·.role) <;>
            simp [hkind, hroles, hlength, pure, Except.pure]
      · have hroles : d.children.map (·.role) ≠ e.children.map (·.role) := fun h =>
          hlength (by simpa using congrArg List.length h)
        simp [hlength, hroles, pure, Except.pure]

theorem equalBelow_succ (fuel : Nat) (p : NodeId × NodeId) :
    equalBelow a b (fuel + 1) p.1 p.2 = visitPair a b p >>= fun
      | some below => below.allM fun q => equalBelow a b fuel q.1 q.2
      | none => return false := by
  rw [equalBelow, visitPair]
  cases a.node p.1 with
  | error e => rfl
  | ok d =>
    cases b.node p.2 with
    | error e => rfl
    | ok e =>
      simp only [bind, Except.bind]
      split_ifs
      · exact (allM_map (fun z : Child × Child => (z.1.node, z.2.node))
          (fun q => equalBelow a b fuel q.1 q.2) _).symm
      · rfl

theorem settled_compareLoop (fuel : Nat) (stack : List (NodeId × NodeId)) :
    settled (compareLoop a b fuel stack) =
      WorkList.loop (fun p => settled (visitPair a b p)) fuel stack := by
  induction fuel generalizing stack with
  | zero => rfl
  | succ fuel ih =>
    cases stack with
    | nil => rfl
    | cons p later =>
      rw [compareLoop_cons, WorkList.loop, settled_bind]
      congr 1
      funext below
      cases below with
      | none => rfl
      | some below => exact ih (below ++ later)

theorem settled_equalBelow (fuel : Nat) (p : NodeId × NodeId) :
    settled (equalBelow a b fuel p.1 p.2) =
      WorkList.descend (fun p => settled (visitPair a b p)) fuel p := by
  induction fuel generalizing p with
  | zero => rfl
  | succ fuel ih =>
    rw [equalBelow_succ, WorkList.descend, settled_bind]
    congr 1
    funext below
    cases below with
    | none => rfl
    | some below =>
      show settled (below.allM fun q => equalBelow a b fuel q.1 q.2) = _
      rw [settled_allM]
      exact congrArg (below.allM ·) (funext ih)

/-- **Comparing in a loop** gives the answer of `structurallyEqual`. -/
theorem exists_compareLoop_eq {x y : NodeId} (h : structurallyEqual a x b y ≠ .error .endless) :
    ∃ k, ∀ j, k ≤ j → compareLoop a b j [(x, y)] = structurallyEqual a x b y := by
  have hsettled := settled_equalBelow (a := a) (b := b) (a.size + 1) (x, y)
  have hdepth : ∀ c, WorkList.descend (fun p => settled (visitPair a b p)) (a.size + 1) (x, y) a ≠
      .error .endless c := fun c hc => h (eq_error_of_settled ((congrFun hsettled a).trans hc))
  obtain ⟨k, hk⟩ := WorkList.exists_loop_eq hdepth
  refine ⟨k, fun j hj => settled_inj a ?_⟩
  rw [settled_compareLoop, hk j hj, ← hsettled]
  rfl

/-- The depth suffices for comparisons of well-formed arenas. -/
theorem structurallyEqual_ne_endless (ha : a.WellFormed) (hb : b.WellFormed) (x y : NodeId) :
    structurallyEqual a x b y ≠ .error .endless := by
  cases hx : a.node? x with
  | none =>
    rw [structurallyEqual, equalBelow, node, hx]
    intro h
    cases h
  | some d =>
    cases hy : b.node? y with
    | none =>
      rw [structurallyEqual, equalBelow, node_of_node? hx, node, hy]
      intro h
      cases h
    | some e =>
      obtain ⟨t, ht⟩ := ha.exists_isAt (lt_size_of_node? hx)
      obtain ⟨u, hu⟩ := hb.exists_isAt (lt_size_of_node? hy)
      obtain ⟨v, hv, -⟩ := structurallyEqual_of_isAt ht hu
      rw [hv]
      intro h
      cases h

theorem exists_compareLoop_eq_of_wellFormed (ha : a.WellFormed) (hb : b.WellFormed)
    (x y : NodeId) :
    ∃ k, ∀ j, k ≤ j → compareLoop a b j [(x, y)] = structurallyEqual a x b y :=
  exists_compareLoop_eq (structurallyEqual_ne_endless ha hb x y)

end Arena

/-! ### Copying -/

namespace Edit

variable {fetch : NodeId → Edit Node}

/-- Give `copy` a copy of each of the children, and put each child with its copy on the stack. -/
def pushCopies (fetch : NodeId → Edit Node) (copy : NodeId) :
    ChildList → List (NodeId × NodeId) → Edit (List (NodeId × NodeId))
  | [], stack => return stack
  | c :: cs, stack => do
    let d ← fetch c.node
    let x ← alloc d.kind
    link copy c.role x
    pushCopies fetch copy cs ((c.node, x) :: stack)

/-- Copy what is below the nodes on the stack to below their copies, in at most `fuel` rounds. -/
def copyLoop (fetch : NodeId → Edit Node) : Nat → List (NodeId × NodeId) → Edit Unit
  | 0, _ => throw .endless
  | _ + 1, [] => return
  | fuel + 1, (n, copy) :: later => do
    let d ← fetch n
    let stack ← pushCopies fetch copy d.children later
    copyLoop fetch fuel stack

/-- Copy a subtree in a loop. -/
def copyTreeLoop (fetch : NodeId → Edit Node) (fuel : Nat) (n : NodeId) : Edit NodeId := do
  let d ← fetch n
  let copy ← alloc d.kind
  copyLoop fetch fuel [(n, copy)]
  return copy

theorem pushCopies_eq (copy : NodeId) : ∀ (cs : ChildList) (stack : List (NodeId × NodeId)),
    pushCopies fetch copy cs stack = do
      let pairs ← copyChildren fetch copy cs
      return pairs.reverse ++ stack
  | [], stack => rfl
  | c :: cs, stack => by
    rw [pushCopies, copyChildren]
    simp only [pushCopies_eq copy cs, bind_assoc, pure_bind, List.reverse_cons, List.append_assoc,
      List.singleton_append]

section Answers

variable {ι : Type} {f : ι → Edit Bool} (hf : ∀ x a v b, f x a = .ok v b → v = true)
include hf

theorem eq_true_of_allM_edit {xs : List ι} {a b : Arena} {v : Bool}
    (h : xs.allM f a = .ok v b) : v = true := by
  induction xs generalizing a with
  | nil =>
    cases h
    rfl
  | cons x xs ih =>
    rw [WorkList.allM_cons] at h
    cases hx : f x a with
    | error e c =>
      rw [WorkList.andThen_of_error hx] at h
      cases h
    | ok w c =>
      obtain rfl := hf x a w c hx
      rw [WorkList.andThen_of_true hx] at h
      exact ih h

/-- If the answers are all yes, nothing depends on them. -/
theorem forM_eq_allM (xs : List ι) : (xs.forM fun x => do let _ ← f x; return) = (do
    let _ ← xs.allM f
    return) := by
  induction xs with
  | nil => rfl
  | cons x xs ih =>
    rw [List.forM, ih, WorkList.allM_cons]
    funext a
    cases hx : f x a with
    | error e c =>
      rw [bind_of_error (WorkList.andThen_of_error hx), bind_of_error (bind_of_error hx)]
    | ok w c =>
      obtain rfl := hf x a w c hx
      have hfirst : (do let _ ← f x; return : Edit Unit) a = .ok () c := bind_of_ok hx
      rw [bind_of_ok hfirst]
      exact (bind_congr_of_eq (WorkList.andThen_of_true hx)).symm

end Answers

/-- What there is below a node, once its children are copied. -/
def visitCopy (fetch : NodeId → Edit Node) (p : NodeId × NodeId) :
    Edit (Option (List (NodeId × NodeId))) := do
  let d ← fetch p.1
  let pairs ← copyChildren fetch p.2 d.children
  return some pairs.reverse

theorem copyLoop_eq (fuel : Nat) (stack : List (NodeId × NodeId)) :
    copyLoop fetch fuel stack = do
      let _ ← WorkList.loop (visitCopy fetch) fuel stack
      return := by
  induction fuel generalizing stack with
  | zero => rfl
  | succ fuel ih =>
    cases stack with
    | nil => rfl
    | cons p later =>
      rw [copyLoop, WorkList.loop, visitCopy]
      simp only [pushCopies_eq, bind_assoc, pure_bind, ih]

/-- Nothing ends the copying before its time. -/
theorem eq_true_of_descend {fuel : Nat} {p : NodeId × NodeId} {a b : Arena} {v : Bool}
    (h : WorkList.descend (visitCopy fetch) fuel p a = .ok v b) : v = true := by
  induction fuel generalizing p a b v with
  | zero => cases h
  | succ fuel ih =>
    rw [WorkList.descend, visitCopy] at h
    simp only [bind_assoc, pure_bind] at h
    obtain ⟨d, a₁, -, h⟩ := bind_eq_ok h
    obtain ⟨pairs, a₂, -, h⟩ := bind_eq_ok h
    exact eq_true_of_allM_edit (fun q c w e hq => ih hq) h

theorem copyBelow_eq (fuel : Nat) (p : NodeId × NodeId) :
    copyBelow fetch fuel p.1 p.2 = do
      let _ ← WorkList.descend (visitCopy fetch) fuel p
      return := by
  induction fuel generalizing p with
  | zero => rfl
  | succ fuel ih =>
    rw [copyBelow, WorkList.descend, visitCopy]
    simp only [bind_assoc, pure_bind, ih]
    refine bind_congr fun d => bind_congr fun pairs => ?_
    exact forM_eq_allM (fun q a v b hq => eq_true_of_descend hq) pairs.reverse

/-- **Copying in a loop** does what copying by recursion does: the nodes of the copy, their ids and
the faults are the same. -/
theorem exists_copyTreeLoop_eq {fuel : Nat} {n : NodeId} {a : Arena}
    (h : ∀ b, copyTree fetch fuel n a ≠ .error .endless b) :
    ∃ k, ∀ j, k ≤ j → copyTreeLoop fetch j n a = copyTree fetch fuel n a := by
  unfold copyTree at h ⊢
  unfold copyTreeLoop
  cases hfetch : fetch n a with
  | error e b => exact ⟨0, fun j _ => by rw [bind_of_error hfetch, bind_of_error hfetch]⟩
  | ok d b =>
    rw [bind_of_ok hfetch, bind_of_ok (alloc_apply d.kind b), copyBelow_eq fuel (n, b.size)] at h
    obtain ⟨k, hk⟩ := WorkList.exists_loop_eq fun c hc => h c (bind_of_error (bind_of_error hc))
    refine ⟨k, fun j hj => ?_⟩
    rw [bind_of_ok hfetch, bind_of_ok hfetch, bind_of_ok (alloc_apply d.kind b),
      bind_of_ok (alloc_apply d.kind b), copyLoop_eq, copyBelow_eq fuel (n, b.size)]
    exact bind_congr_of_eq (bind_congr_of_eq (hk j hj))

/-- The depth suffices for copies out of a well-formed arena. -/
theorem importFrom_ne_endless {S : Arena} (hS : S.WellFormed) (n : NodeId) (a b : Arena) :
    importFrom S n a ≠ .error .endless b := by
  cases hn : S.node? n with
  | none =>
    rw [importFrom_of_none hn]
    intro h
    cases h
  | some d =>
    obtain ⟨t, ht⟩ := hS.exists_isAt (Arena.lt_size_of_node? hn)
    obtain ⟨c, hc, -⟩ := importFrom_of_isAt ht a
    rw [hc]
    intro h
    cases h

theorem exists_importLoop_eq {S : Arena} (hS : S.WellFormed) (n : NodeId) (a : Arena) :
    ∃ k, ∀ j, k ≤ j → copyTreeLoop (fun m => settled (S.node m)) j n a = importFrom S n a :=
  exists_copyTreeLoop_eq (importFrom_ne_endless hS n a)

theorem exists_cloneLoop_eq {a : Arena} (hw : a.WellFormed) (n : NodeId) :
    ∃ k, ∀ j, k ≤ j → copyTreeLoop (fun m => look (·.node m)) j n a = cloneSubtree n a := by
  have hdepth : ∀ b, cloneSubtree n a ≠ .error .endless b := by
    rw [cloneSubtree_eq_importFrom hw]
    exact importFrom_ne_endless hw n a
  exact exists_copyTreeLoop_eq hdepth

end Edit

end SyntaxForest
