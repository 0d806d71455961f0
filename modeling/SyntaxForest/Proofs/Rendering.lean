import SyntaxForest.Dump
import SyntaxForest.Proofs.Walk

/-!
# The text of a tree

A dump shows the tree that a node stands for, and nothing else of the arena.  `Tree.written` is the
text of a tree, character by character, and `dump_of_isAt` says that the dump of a node is the text
of its tree.  In a well-formed arena every node stands for a tree, so every node has a dump.

Hiding tokens is a matter of the tree alone: the text of a tree with its tokens hidden is the whole
text of the tree with its tokens taken out (`Tree.written_hidden`).  A tree that is a token itself
is not taken out, in the one case as in the other.
-/

namespace SyntaxForest

/-! ### Text -/

/-- What a child adds to the text of its parent, given its role, its kind and its own text. -/
def DumpOptions.entry (options : DumpOptions) (reg : Registry) (r : RoleId) (k : Kind)
    (text : List Char) : List Char :=
  if !options.showTokens && k.isToken then []
  else ' ' :: (if options.showRoles then (reg.name r).toList ++ ['='] else []) ++ text

mutual

/-- The text of a tree. -/
def Tree.written (reg : Registry) (options : DumpOptions) : Tree → List Char
  | .node k below =>
    match k.leafText? with
    | some text => text.toList
    | none => '(' :: (k.heading.toList ++ below.written reg options ++ [')'])

/-- The text of all the trees, as the children of one node. -/
def Forest.written (reg : Registry) (options : DumpOptions) : Forest → List Char
  | .nil => []
  | .cons r tree rest =>
    options.entry reg r tree.kind (tree.written reg options) ++ rest.written reg options

end

theorem Forest.written_eq (reg : Registry) (options : DumpOptions) : ∀ ts : Forest,
    ts.written reg options =
      ts.toList.flatMap fun x => options.entry reg x.1 x.2.kind (x.2.written reg options)
  | .nil => rfl
  | .cons r tree rest => by
    rw [written, toList, List.flatMap_cons, written_eq reg options rest]

namespace Tree

variable {reg : Registry} {options : DumpOptions}

/-- Of a token and of an identifier only the kind is written. -/
theorem written_of_leaf {t : Tree} {text : String} (h : t.kind.leafText? = some text) :
    t.written reg options = text.toList := by
  obtain ⟨k, ts⟩ := t
  have hk : k.leafText? = some text := h
  rw [written, hk]

/-- All other trees are written in parentheses. -/
theorem written_of_composite {t : Tree} (h : t.kind.leafText? = none) :
    t.written reg options = '(' :: (t.kind.heading.toList ++
      (t.branches.flatMap fun x => options.entry reg x.1 x.2.kind (x.2.written reg options)) ++
        [')']) := by
  obtain ⟨k, ts⟩ := t
  have hk : k.leafText? = none := h
  rw [written, hk, Forest.written_eq]
  rfl

end Tree

/-! ### Dumps -/

theorem mapM_eq_ok_of_forall₂ {α β ε : Type} {f : α → Except ε β} {xs : List α} (ys : List β)
    (h : List.Forall₂ (fun x y => f x = .ok y) xs ys) : xs.mapM f = .ok ys := by
  induction h with
  | nil => rfl
  | cons hxy _ ih =>
    rw [List.mapM_cons, hxy, ih]
    rfl

theorem ok_bind {α β ε : Type} (v : α) (f : α → Except ε β) : (Except.ok v >>= f) = f v := rfl

namespace Arena

variable {a : Arena} {reg : Registry} {options : DumpOptions}

/-- What a child is found to add to the text of its parent. -/
theorem entry_eq_ok {x : Except Fault Kind} {y : Except Fault String} {k : Kind} {text : List Char}
    (hx : x = .ok k) (hy : y = .ok (String.ofList text)) (r : RoleId) :
    (do
      if !options.showTokens && (← x).isToken then return ""
      else
        let text ← y
        return " " ++ (if options.showRoles then reg.name r ++ "=" else "") ++ text) =
      (.ok (String.ofList (options.entry reg r k text)) : Except Fault String) := by
  subst hx hy
  simp only [bind, Except.bind, pure, Except.pure, DumpOptions.entry]
  split_ifs
  · rfl
  · refine congrArg Except.ok (String.toList_injective ?_)
    simp
  · refine congrArg Except.ok (String.toList_injective ?_)
    simp

theorem dumpBelow_of_isAt {t : Tree} : ∀ {fuel n : Nat}, t.IsAt a n → t.depth ≤ fuel →
    dumpBelow reg options a fuel n = .ok (String.ofList (t.written reg options)) := by
  induction t using Tree.induction with
  | h t ih =>
    intro fuel n ht hfuel
    cases fuel with
    | zero => exact absurd t.depth_pos (Nat.not_lt.mpr hfuel)
    | succ fuel =>
      obtain ⟨d, hd, hkind, hbelow⟩ := Tree.isAt_iff.mp ht
      rw [dumpBelow, node_of_node? hd, ok_bind]
      cases hleaf : t.kind.leafText? with
      | some text =>
        rw [hkind, hleaf, Tree.written_of_leaf hleaf, String.ofList_toList]
        rfl
      | none =>
        rw [hkind, hleaf, Tree.written_of_composite hleaf]
        have hdump : ∀ x ∈ t.branches, ∀ m, x.2.IsAt a m →
            dumpBelow reg options a fuel m = .ok (String.ofList (x.2.written reg options)) :=
          fun x hx m hm => ih x hx hm (by have := Tree.depth_lt_of_mem hx; omega)
        rw [mapM_eq_ok_of_forall₂ (t.branches.map fun x =>
          String.ofList (options.entry reg x.1 x.2.kind (x.2.written reg options)))]
        · refine congrArg Except.ok (String.toList_injective ?_)
          simp [List.flatMap_map]
        · -- each child adds its entry to the text
          refine List.forall₂_map_right_iff.mpr
            (((List.forall₂_and_left _ _).mpr ⟨hdump, hbelow⟩).imp ?_).flip
          rintro ⟨r, u⟩ c ⟨hu, rfl, hc⟩
          exact entry_eq_ok (hc.kind_eq_ok) (hu c.node hc) c.role

/-- **The dump of a node** is the text of the tree that it stands for. -/
theorem dump_of_isAt {t : Tree} {n : Nat} (h : t.IsAt a n) (reg : Registry)
    (options : DumpOptions) :
    a.dump reg options n = .ok (String.ofList (t.written reg options)) :=
  dumpBelow_of_isAt h (Nat.le_succ_of_le h.depth_le_size)

end Arena

/-! ### Taking tokens out -/

mutual

/-- The tree without the tokens that are below its root, and without all that is below them. -/
def Tree.withoutTokens : Tree → Tree
  | .node k below => .node k below.withoutTokens

/-- The trees that are not tokens, each without the tokens that are below its root. -/
def Forest.withoutTokens : Forest → Forest
  | .nil => .nil
  | .cons r tree rest =>
    if tree.kind.isToken then rest.withoutTokens
    else .cons r tree.withoutTokens rest.withoutTokens

end

theorem Forest.toList_withoutTokens : ∀ ts : Forest, ts.withoutTokens.toList =
    (ts.toList.filter fun x => !x.2.kind.isToken).map fun x => (x.1, x.2.withoutTokens)
  | .nil => rfl
  | .cons r tree rest => by
    rw [withoutTokens, toList, List.filter_cons]
    cases htoken : tree.kind.isToken with
    | true => simp [toList_withoutTokens rest]
    | false => simp [toList, toList_withoutTokens rest]

namespace Tree

@[simp] theorem kind_withoutTokens (t : Tree) : t.withoutTokens.kind = t.kind := by
  obtain ⟨k, ts⟩ := t
  rfl

theorem branches_withoutTokens (t : Tree) : t.withoutTokens.branches =
    (t.branches.filter fun x => !x.2.kind.isToken).map fun x => (x.1, x.2.withoutTokens) := by
  obtain ⟨k, ts⟩ := t
  exact Forest.toList_withoutTokens ts

/-- The entries of hidden tokens are empty, and those of other children do not hide anything. -/
theorem flatMap_entry_hidden {reg : Registry} {roles : Bool} {f g : RoleId × Tree → List Char} :
    ∀ {xs : List (RoleId × Tree)}, (∀ x ∈ xs, f x = g x) →
      (xs.flatMap fun x => DumpOptions.entry ⟨roles, false⟩ reg x.1 x.2.kind (f x)) =
        (xs.filter fun x => !x.2.kind.isToken).flatMap fun x =>
          DumpOptions.entry ⟨roles, true⟩ reg x.1 x.2.kind (g x)
  | [], _ => rfl
  | x :: xs, h => by
    rw [List.flatMap_cons, List.filter_cons,
      flatMap_entry_hidden fun y hy => h y (List.mem_cons_of_mem _ hy)]
    cases htoken : x.2.kind.isToken with
    | true => simp [DumpOptions.entry, htoken]
    | false => simp [DumpOptions.entry, htoken, h x List.mem_cons_self]

/-- **Hiding tokens** is writing the tree without its tokens. -/
theorem written_hidden (reg : Registry) (roles : Bool) (t : Tree) :
    t.written reg ⟨roles, false⟩ = t.withoutTokens.written reg ⟨roles, true⟩ := by
  induction t using Tree.induction with
  | h t ih =>
    cases hleaf : t.kind.leafText? with
    | some text =>
      rw [written_of_leaf hleaf, written_of_leaf ((kind_withoutTokens t).symm ▸ hleaf)]
    | none =>
      have hleaf' : t.withoutTokens.kind.leafText? = none := by rw [kind_withoutTokens, hleaf]
      rw [written_of_composite hleaf, written_of_composite hleaf', kind_withoutTokens,
        branches_withoutTokens, List.flatMap_map, flatMap_entry_hidden ih]
      simp only [kind_withoutTokens]

end Tree

end SyntaxForest
