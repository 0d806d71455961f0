import SyntaxForest.Proofs.Reachable

/-!
# Calls that fail spare what is there

An edit of one step decides before it writes, so a refusal leaves the arena exactly as it was
(`Edit.Clean`).  This is put together along the definitions: a part that only reads may come before
a clean one, and a part that cannot fail (`Edit.Sure`) may come after it.

A constructor has allocated by the time it can fail, and so has `setName` given the id of no
node.  What it leaves behind then are the nodes there
were, as they were, and new ones that link to one another only (`Arena.Beside`).  Either the check
of the given children fails, and none of them has been written to; or it succeeds, and what follows
cannot fail.  For a block this needs an argument, since each statement is checked once more when it
is added: the block is a root and stays one, and adding a statement does not change the others
(`exists_addEach_eq_ok`).

`Call.intact_of_fault` collects the calls.
-/

namespace SyntaxForest

namespace Edit

variable {α β : Type}

/-! ### Edits that fail without a trace -/

/-- The edit leaves the arena as it was if it fails. -/
def Clean (x : Edit α) : Prop := ∀ ⦃a b : Arena⦄ ⦃e : Fault⦄, x a = .error e b → b = a

/-- The edit leaves the arena as it was, whether or not it fails. -/
def Still (x : Edit α) : Prop := ∀ a, x.after a = a

/-- The edit does not fail. -/
def Sure (x : Edit α) : Prop := ∀ a, ∃ v b, x a = .ok v b

theorem still_look (f : Arena → Except Fault α) : Still (look f) := fun a => after_look f a

theorem Still.clean {x : Edit α} (hx : Still x) : Clean x := by
  intro a b e h
  rw [← after_of_error h, hx a]

theorem Sure.clean {x : Edit α} (hx : Sure x) : Clean x := by
  intro a b e h
  obtain ⟨v, c, hok⟩ := hx a
  cases hok.symm.trans h

theorem clean_pure (v : α) : Clean (pure v : Edit α) := by
  intro a b e h
  cases h

theorem clean_throw (e : Fault) : Clean (throw e : Edit α) := by
  intro a b e' h
  cases h
  rfl

theorem sure_pure (v : α) : Sure (pure v : Edit α) := fun a => ⟨v, a, rfl⟩

theorem sure_write (f : Arena → Arena) : Sure (write f) := fun a => ⟨(), f a, rfl⟩

theorem Sure.bind {x : Edit α} {f : α → Edit β} (hx : Sure x) (hf : ∀ v, Sure (f v)) :
    Sure (x >>= f) := by
  intro a
  obtain ⟨v, b, hfirst⟩ := hx a
  obtain ⟨w, c, hrest⟩ := hf v b
  exact ⟨w, c, by rw [bind_of_ok hfirst, hrest]⟩

/-- A part that only reads may come first. -/
theorem Still.bind {x : Edit α} {f : α → Edit β} (hx : Still x) (hf : ∀ v, Clean (f v)) :
    Clean (x >>= f) := by
  intro a b e h
  have hsame := hx a
  cases hr : x a with
  | ok v c =>
    rw [after_of_ok hr] at hsame
    subst hsame
    rw [bind_of_ok hr] at h
    exact hf v h
  | error e' c =>
    rw [bind_of_error hr] at h
    cases h
    rwa [after_of_error hr] at hsame

/-- A part that cannot fail may come last. -/
theorem Clean.bind {x : Edit α} {f : α → Edit β} (hx : Clean x) (hf : ∀ v, Sure (f v)) :
    Clean (x >>= f) := by
  intro a b e h
  cases hr : x a with
  | ok v c =>
    obtain ⟨w, d, hrest⟩ := hf v c
    rw [bind_of_ok hr] at h
    cases hrest.symm.trans h
  | error e' c =>
    rw [bind_of_error hr] at h
    cases h
    exact hx hr

/-! ### The single edits -/

theorem clean_putChild (n : NodeId) (r : RoleId) (c : NodeId) (anchor : Option NodeId) :
    Clean (putChild n r c anchor) := by
  refine (still_look _).bind fun old => ?_
  refine ((sure_write _).bind fun _ => ?_).clean
  cases old with
  | none => exact (sure_write _).bind fun _ => sure_pure none
  | some o => exact (sure_write _).bind fun _ => (sure_write _).bind fun _ => sure_pure (some o)

theorem clean_takeChild (n : NodeId) (r : RoleId) : Clean (takeChild n r) := by
  refine (still_look _).bind fun old => ?_
  cases old with
  | none => exact clean_pure none
  | some o =>
    exact ((sure_write _).bind fun _ => (sure_write _).bind fun _ => sure_pure (some o)).clean

theorem clean_setChild (n : NodeId) (r : RoleId) (child : Option NodeId) :
    Clean (setChild n r child) := by
  unfold setChild
  split_ifs
  · exact clean_throw _
  · cases child with
    | none => exact clean_takeChild n r
    | some c =>
      refine (still_look _).bind fun current => ?_
      split_ifs
      · exact clean_pure none
      · exact (still_look _).bind fun _ => clean_putChild n r c none

theorem clean_addChild (n : NodeId) (r : RoleId) (c : NodeId) : Clean (addChild n r c) := by
  unfold addChild
  split_ifs
  · exact (still_look _).bind fun _ => (sure_write _).clean
  · exact clean_throw _

theorem clean_insertChildBefore (n anchor : NodeId) (r : RoleId) (c : NodeId) :
    Clean (insertChildBefore n anchor r c) := by
  refine (still_look _).bind fun parent => ?_
  split_ifs
  · exact (still_look _).bind fun _ =>
      ((sure_write _).bind fun _ => (sure_write _).bind fun _ => sure_pure none).clean
  · exact (still_look _).bind fun _ => clean_putChild n r c (some anchor)
  · exact clean_throw _

theorem clean_detach (n : NodeId) : Clean (detach n) := by
  refine (still_look _).bind fun place => ?_
  cases place with
  | none => exact clean_pure none
  | some place =>
    exact ((sure_write _).bind fun _ => (sure_write _).bind fun _ => sure_pure _).clean

theorem clean_replaceWith (x y : NodeId) : Clean (replaceWith x y) := by
  unfold replaceWith
  split_ifs
  · exact clean_pure ()
  · refine (still_look _).bind fun place => ?_
    cases place with
    | none => exact clean_throw _
    | some place =>
      exact (still_look _).bind fun _ =>
        ((sure_write _).bind fun _ => (sure_write _).bind fun _ => sure_write _).clean

/-! ### The setters -/

theorem clean_setExpression (n : NodeId) (child : Option NodeId) :
    Clean (setExpression n child) := by
  refine (still_look _).bind fun anchor => (still_look _).bind fun current => ?_
  split
  · exact clean_insertChildBefore n _ .expression _
  · exact clean_setChild n .expression child

theorem clean_addStatement (n c : NodeId) : Clean (addStatement n c) := by
  refine (still_look _).bind fun brace => ?_
  split
  · exact (clean_insertChildBefore n _ .statement c).bind fun _ => sure_pure ()
  · exact clean_addChild n .statement c

theorem exists_putChild_eq_ok {a : Arena} {n : Nat} (hn : n < a.size) (r : RoleId) (c : NodeId)
    (anchor : Option NodeId) : ∃ v b, putChild n r c anchor a = .ok v b := by
  obtain ⟨d, hd⟩ := Arena.exists_node?_of_lt hn
  cases hfirst : d.children.firstUnder? r with
  | none => exact ⟨_, _, putChild_of_empty hd hfirst c anchor⟩
  | some o =>
    obtain ⟨before, after, hchildren, hr⟩ := ChildList.exists_of_firstUnder? hfirst
    exact ⟨_, _, putChild_of_taken hd hchildren hr c anchor⟩

theorem exists_takeChild_eq_ok {a : Arena} {n : Nat} (hn : n < a.size) (r : RoleId) :
    ∃ v b, takeChild n r a = .ok v b := by
  obtain ⟨d, hd⟩ := Arena.exists_node?_of_lt hn
  cases hfirst : d.children.firstUnder? r with
  | none => exact ⟨_, _, takeChild_of_empty hd hfirst⟩
  | some o =>
    obtain ⟨before, after, -, htake⟩ := takeChild_of_taken hd hfirst
    exact ⟨_, _, htake⟩

/-- Naming a node that is there does not fail, so that no identifier is allocated in vain. -/
theorem exists_setIdentifier_eq_ok {a : Arena} {n : Nat} (hn : n < a.size) (name : String)
    (anchor : Option NodeId) : ∃ b, setIdentifier n name anchor a = .ok () b := by
  unfold setIdentifier
  split_ifs
  · obtain ⟨v, b, htake⟩ := exists_takeChild_eq_ok hn .identifier
    exact ⟨b, by rw [bind_of_ok htake]; rfl⟩
  · have hn' : n < (a.push (.identifier name)).size := by
      rw [Arena.size_push]
      omega
    obtain ⟨v, b, hput⟩ := exists_putChild_eq_ok hn' .identifier a.size anchor
    exact ⟨b, by rw [bind_of_ok (alloc_apply _ a), bind_of_ok hput]; rfl⟩

/-- Once the anchor is found, nothing fails any more. -/
theorem clean_setLabelBefore (anchor : RoleId) (n : NodeId) (label : String) :
    Clean (setLabelBefore anchor n label) := by
  intro a b e h
  cases hanchor : a.token? n anchor with
  | error e' =>
    rw [setLabelBefore, bind_of_error (look_of_error hanchor)] at h
    cases h
    rfl
  | ok x =>
    obtain ⟨d, hd⟩ := Arena.exists_node?_of_token? hanchor
    obtain ⟨c, hset⟩ := exists_setIdentifier_eq_ok (Arena.lt_size_of_node? hd) label x
    rw [setLabelBefore, bind_of_ok (look_of_ok hanchor)] at h
    cases hset.symm.trans h

theorem clean_rename (n : NodeId) (name : String) : Clean (rename n name) :=
  (still_look _).bind fun _ => (sure_write _).clean

end Edit

/-! ### What a constructor leaves behind -/

namespace Arena

/-- The arena `b` has the records of `a` and more, and the others link to one another only. -/
structure Beside (a b : Arena) : Prop where
  isPrefix : a.IsPrefix b
  parent_ge : ∀ (n p : Nat) (d : Node), a.size ≤ n → b.node? n = some d → d.parent = some p →
    a.size ≤ p
  child_ge : ∀ (n : Nat) (d : Node) (c : Child), a.size ≤ n → b.node? n = some d →
    c ∈ d.children → a.size ≤ c.node

namespace Beside

variable {a b : Arena}

theorem refl (a : Arena) : a.Beside a where
  isPrefix := .refl a
  parent_ge _ _ _ hn hd _ := absurd (lt_size_of_node? hd) (Nat.not_lt.mpr hn)
  child_ge _ _ _ hn hd _ := absurd (lt_size_of_node? hd) (Nat.not_lt.mpr hn)

theorem push (h : a.Beside b) (k : Kind) : a.Beside (b.push k) where
  isPrefix := h.isPrefix.trans (isPrefix_push b k)
  parent_ge n p d hn hd hp := by
    rw [node?_push] at hd
    split_ifs at hd
    · cases hd
      cases hp
    · exact h.parent_ge n p d hn hd hp
  child_ge n d c hn hd hc := by
    rw [node?_push] at hd
    split_ifs at hd
    · cases hd
      cases hc
    · exact h.child_ge n d c hn hd hc

/-- A new leaf below a new node. -/
theorem sprout (h : a.Beside b) {n : Nat} (hn : a.size ≤ n) (hlt : n < b.size) (r : RoleId)
    (k : Kind) : a.Beside (b.sprout n r k) := by
  obtain ⟨e, he⟩ := exists_node?_of_lt hlt
  have hsize := h.isPrefix.size_le
  refine ⟨h.isPrefix.of_frame fun i hi => ?_, fun m p d hm hd hp => ?_, fun m d c hm hd hc => ?_⟩
  · exact node?_sprout_of_lt r k n (Nat.lt_of_lt_of_le hi hsize) (by omega)
  · rcases eq_of_node?_sprout he hd with ⟨rfl, rfl⟩ | ⟨rfl, rfl⟩ | hd
    · exact h.parent_ge m p e hm he hp
    · cases hp
      exact hn
    · exact h.parent_ge m p d hm hd hp
  · rcases eq_of_node?_sprout he hd with ⟨rfl, rfl⟩ | ⟨rfl, rfl⟩ | hd
    · rcases List.mem_append.mp hc with hc | hc
      · exact h.child_ge m e c hm he hc
      · obtain rfl := List.mem_singleton.mp hc
        exact hsize
    · cases hc
    · exact h.child_ge m d c hm hd hc

end Beside

end Arena

namespace Edit

variable {α β : Type} {a b : Arena}

open Arena

/-- What the edit leaves behind if it fails from `b` is beside `a`. -/
def Spares (a : Arena) (x : Edit α) (b : Arena) : Prop := ∀ e c, x b = .error e c → a.Beside c

theorem Clean.spares {x : Edit α} (hx : Clean x) (hb : a.Beside b) : Spares a x b := by
  intro e c h
  rwa [hx h]

theorem spares_bind {x : Edit α} {f : α → Edit β} {v : α} {c : Arena} (hx : x b = .ok v c)
    (hf : Spares a (f v) c) : Spares a (x >>= f) b := by
  intro e d h
  rw [bind_of_ok hx] at h
  exact hf e d h

/-- A constructor starts with a new node. -/
theorem spares_alloc {k : Kind} {f : NodeId → Edit α} (hf : Spares a (f a.size) (a.push k)) :
    Spares a (alloc k >>= f) a :=
  spares_bind (alloc_apply k a) hf

theorem sure_appendToken (n : NodeId) (r : RoleId) (t : Token) : Sure (appendToken n r t) :=
  fun a => ⟨(), _, appendToken_apply n r t a⟩

theorem sure_forM {f : α → Edit Unit} (hf : ∀ x, Sure (f x)) : ∀ xs : List α, Sure (xs.forM f)
  | [] => sure_pure ()
  | x :: xs => (hf x).bind fun _ => sure_forM hf xs

section Constructors

theorem spares_newBinary (l : NodeId) (op : Operator) (r : NodeId) (a : Arena) :
    Spares a (newBinary l op r) a := by
  refine spares_alloc (Clean.spares ?_ ((Beside.refl a).push _))
  refine (still_look _).bind fun _ => Sure.clean ?_
  exact (sure_write _).bind fun _ => (sure_appendToken _ _ _).bind fun _ =>
    (sure_write _).bind fun _ => sure_pure _

theorem spares_newNamed (group : String) (inner : NodeId) (a : Arena) :
    Spares a (newNamed group inner) a :=
  spares_alloc (((clean_setChild _ _ _).bind fun _ => sure_pure _).spares ((Beside.refl a).push _))

theorem spares_newChoice (alternatives : List NodeId) (a : Arena) :
    Spares a (newChoice alternatives) a := by
  refine spares_alloc (Clean.spares ?_ ((Beside.refl a).push _))
  refine (still_look _).bind fun _ => Sure.clean ?_
  exact (sure_forM (fun _ => sure_write _) alternatives).bind fun _ => sure_pure _

theorem spares_newExpressionStatement (expression : NodeId) (a : Arena) :
    Spares a (newExpressionStatement expression) a := by
  refine spares_alloc (Clean.spares ?_ ((Beside.refl a).push _))
  exact (clean_setChild _ _ _).bind fun _ => (sure_appendToken _ _ _).bind fun _ => sure_pure _

/-- The new node with the first of its tokens. -/
theorem beside_token (a : Arena) (k : Kind) (r : RoleId) (t : Token) :
    a.Beside ((a.push k).sprout a.size r (.token t)) :=
  ((Beside.refl a).push k).sprout (Nat.le_refl _) (by rw [size_push]; omega) r (.token t)

/-- The new node with two tokens. -/
theorem beside_tokens (a : Arena) (k : Kind) (r r' : RoleId) (t t' : Token) :
    a.Beside (((a.push k).sprout a.size r (.token t)).sprout a.size r' (.token t')) :=
  (beside_token a k r t).sprout (Nat.le_refl _) (by rw [size_sprout, size_push]; omega) r'
    (.token t')

theorem spares_newGotoCase (expression : NodeId) (a : Arena) :
    Spares a (newGotoCase expression) a := by
  refine spares_alloc (spares_bind (appendToken_apply _ _ _ _)
    (spares_bind (appendToken_apply _ _ _ _) (Clean.spares ?_ (beside_tokens a _ _ _ _ _))))
  exact (clean_setChild _ _ _).bind fun _ => (sure_appendToken _ _ _).bind fun _ => sure_pure _

theorem spares_newGoto (label : String) (a : Arena) : Spares a (newGoto label) a :=
  spares_alloc (spares_bind (appendToken_apply _ _ _ _) (spares_bind (appendToken_apply _ _ _ _)
    (((clean_setLabelBefore _ _ _).bind fun _ => sure_pure _).spares (beside_tokens a _ _ _ _ _))))

theorem spares_newLabel (label : String) (a : Arena) : Spares a (newLabel label) a :=
  spares_alloc (spares_bind (appendToken_apply _ _ _ _)
    (((clean_setLabelBefore _ _ _).bind fun _ => sure_pure _).spares (beside_token a _ _ _)))

/-- An identifier that is not attached in the end is a root. -/
theorem spares_setName (n : NodeId) (name : String) (a : Arena) : Spares a (setName n name) a := by
  unfold setName setIdentifier
  split_ifs
  · exact ((clean_takeChild n .identifier).bind fun _ => sure_pure _).spares (Beside.refl a)
  · exact spares_alloc (((clean_putChild n .identifier a.size none).bind fun _ => sure_pure _).spares
      ((Beside.refl a).push _))

/-! ### Blocks -/

/-- The node `n` is a root, and `brace` its closing brace. -/
structure IsOpen (b : Arena) (n brace : NodeId) : Prop where
  root : ∃ d, b.node? n = some d ∧ d.parent = none ∧ d.children.firstUnder? .rbrace = some brace
  brace : ∃ e, b.node? brace = some e ∧ e.kind.isToken = true ∧ e.parent = some n

/-- Roots that may be added to a block, and are different nodes. -/
structure Addable (b : Arena) (n : NodeId) (cs : List NodeId) : Prop where
  ne : ∀ c ∈ cs, c ≠ n
  root : ∀ c ∈ cs, ∃ e, b.node? c = some e ∧ e.parent = none ∧
    RoleId.statement.admits e.kind.category = true
  nodup : cs.Nodup

theorem IsOpen.brace_ne {b : Arena} {n brace : Nat} (h : IsOpen b n brace) : brace ≠ n := by
  obtain ⟨d, hd, hroot, -⟩ := h.root
  obtain ⟨e, he, -, hparent⟩ := h.brace
  rintro rfl
  cases hd.symm.trans he
  cases hroot.symm.trans hparent

/-- A statement goes before the closing brace. -/
theorem addStatement_of_isOpen {b : Arena} {n brace c : Nat} {d : Node} (h : IsOpen b n brace)
    (hd : b.node? n = some d) (hcheck : b.checkAttach n .statement c = .ok ()) :
    addStatement n c b = .ok () (b.relink n
      (ChildList.insertBefore ⟨.statement, c⟩ (some brace) d.children) c (some n)) := by
  obtain ⟨d', hd', -, hfirst⟩ := h.root
  obtain rfl : d = d' := Option.some.inj (hd.symm.trans hd')
  obtain ⟨e, he, htoken, hparent⟩ := h.brace
  unfold addStatement
  rw [bind_of_ok (look_of_ok (token?_of_node? hd hfirst he htoken))]
  show (insertChildBefore n brace .statement c >>= _ : Edit Unit) b = _
  rw [bind_of_ok (insertChildBefore_of_many rfl (parent?_eq_ok_iff.mpr ⟨e, he, hparent⟩) hd hcheck)]
  rfl

/-- Adding a statement leaves the block open, and the others as they are. -/
theorem exists_addStatement_eq_ok {b : Arena} {n brace c : Nat} {cs : List NodeId}
    (h : IsOpen b n brace) (hcs : Addable b n (c :: cs)) :
    ∃ b', addStatement n c b = .ok () b' ∧ IsOpen b' n brace ∧ Addable b' n cs := by
  obtain ⟨d, hd, hnroot, hfirst⟩ := id h.root
  obtain ⟨e, he, htoken, hparent⟩ := id h.brace
  obtain ⟨f, hf, hroot, hadm⟩ := hcs.root c List.mem_cons_self
  have hne := hcs.ne c List.mem_cons_self
  obtain ⟨hnew, hnodup⟩ := List.nodup_cons.mp hcs.nodup
  have hcheck := checkAttach_of_root hd hnroot hf hroot hadm hne
  refine ⟨_, addStatement_of_isOpen h hd hcheck, ⟨?_, ?_⟩, ?_, fun x hx => ?_, hnodup⟩
  · refine ⟨_, node?_relink_self hd hne _ _, hnroot, ?_⟩
    have hrole : RoleId.statement ≠ .rbrace := by decide
    exact (ChildList.firstUnder?_insertBefore_of_ne hrole _ _).trans hfirst
  · -- the brace has a parent, so it is not what was added
    have hbc : brace ≠ c := by
      rintro rfl
      cases he.symm.trans hf
      cases hparent.symm.trans hroot
    refine ⟨e, ?_, htoken, hparent⟩
    rw [node?_relink hd hf hne, if_neg h.brace_ne, if_neg hbc, he]
  · exact fun x hx => hcs.ne x (List.mem_cons_of_mem _ hx)
  · have hxc : x ≠ c := by
      rintro rfl
      exact hnew hx
    obtain ⟨g, hg, hgroot⟩ := hcs.root x (List.mem_cons_of_mem _ hx)
    refine ⟨g, ?_, hgroot⟩
    rw [node?_relink hd hf hne, if_neg (hcs.ne x (List.mem_cons_of_mem _ hx)), if_neg hxc, hg]

/-- **Adding statements** that have been checked together does not fail. -/
theorem exists_addEach_eq_ok {n brace : Nat} : ∀ {cs : List NodeId} {b : Arena},
    IsOpen b n brace → Addable b n cs → ∃ b', cs.forM (addStatement n) b = .ok () b'
  | [], b, _, _ => ⟨b, rfl⟩
  | c :: cs, b, h, hcs => by
    obtain ⟨b₁, hfirst, hopen, hrest⟩ := exists_addStatement_eq_ok h hcs
    obtain ⟨b', hadded⟩ := exists_addEach_eq_ok hopen hrest
    refine ⟨b', ?_⟩
    show (addStatement n c >>= _ : Edit Unit) b = _
    rw [bind_of_ok hfirst]
    exact hadded

/-- The arena with a new block, which is empty. -/
def pushBlock (a : Arena) : Arena :=
  ((a.push (.statement .block)).sprout a.size .lbrace (.token .lbrace)).sprout a.size .rbrace
    (.token .rbrace)

theorem newBlock_apply (a : Arena) : newBlock a = .ok a.size (pushBlock a) := rfl

theorem isOpen_pushBlock (a : Arena) : IsOpen (pushBlock a) a.size (a.size + 2) := by
  have hblock := node?_sprout_self .lbrace (.token .lbrace) (node?_push_self a (.statement .block))
  have hbrace := node?_sprout_new .rbrace (.token .rbrace) hblock
  rw [size_sprout, size_push] at hbrace
  refine ⟨⟨_, node?_sprout_self .rbrace (.token .rbrace) hblock, rfl, ?_⟩, _, hbrace, rfl, rfl⟩
  rw [size_sprout, size_push]
  rfl

/-- A block either refuses its statements before it has added one of them, or adds them all. -/
theorem spares_newBlockOf (statements : List NodeId) (a : Arena) :
    Spares a (newBlockOf statements) a := by
  refine spares_bind (newBlock_apply a) fun e c h => ?_
  cases hcheck : (pushBlock a).checkAttachAll a.size (statements.map (⟨.statement, ·⟩)) with
  | error e' =>
    rw [bind_of_error (look_of_error hcheck)] at h
    cases h
    exact beside_tokens a _ _ _ _ _
  | ok _ =>
    obtain ⟨hall, hnodup⟩ := attachable_of_checkAttachEach hcheck
    obtain ⟨b, hadded⟩ := exists_addEach_eq_ok (isOpen_pushBlock a)
      ⟨fun x hx => (hall x hx).ne, fun x hx => (hall x hx).root, hnodup⟩
    rw [bind_of_ok (look_of_ok hcheck), bind_of_ok hadded] at h
    cases h

end Constructors

/-! ### The fault of a call -/

/-- The fault that an edit ends with, if it fails. -/
def fault? (x : Edit α) (a : Arena) : Option Fault :=
  match x a with
  | .ok _ _ => none
  | .error e _ => some e

theorem fault?_of_ok {x : Edit α} {b : Arena} {v : α} (h : x a = .ok v b) : x.fault? a = none := by
  rw [fault?, h]

theorem eq_error_of_fault {x : Edit α} {e : Fault} (h : x.fault? a = some e) :
    x a = .error e (x.after a) := by
  cases hr : x a with
  | ok v b =>
    rw [fault?, hr] at h
    cases h
  | error e' b =>
    rw [fault?, hr] at h
    cases h
    rw [after_of_error hr]

theorem Clean.after_of_fault {x : Edit α} {e : Fault} (hx : Clean x) (h : x.fault? a = some e) :
    x.after a = a :=
  hx (eq_error_of_fault h)

theorem Spares.beside_of_fault {x : Edit α} {e : Fault} (hx : Spares a x a)
    (h : x.fault? a = some e) : a.Beside (x.after a) :=
  hx e _ (eq_error_of_fault h)

/-- A copy fails on a node that is not there, and then it has not begun. -/
theorem after_cloneSubtree_of_fault {e : Fault} {n : NodeId} (hw : a.WellFormed)
    (h : (cloneSubtree n).fault? a = some e) : (cloneSubtree n).after a = a := by
  cases hn : a.node? n with
  | none => exact after_of_error (cloneSubtree_of_none hn)
  | some d =>
    obtain ⟨t, ht⟩ := hw.exists_isAt (lt_size_of_node? hn)
    obtain ⟨b, himport, -⟩ := importFrom_of_isAt ht a
    have hfault := eq_error_of_fault h
    rw [cloneSubtree_of_isAt ht] at hfault
    cases himport.symm.trans hfault

end Edit

namespace Call

open Edit

/-- The fault that a call ends with, if it fails. -/
def fault? : Call → Arena → Option Fault
  | alloc k => (Edit.alloc k).fault?
  | newToken t => (Edit.newToken t).fault?
  | newIdentifier name => (Edit.newIdentifier name).fault?
  | newLiteral value => (Edit.newLiteral value).fault?
  | newIdentifierExpression name => (Edit.newIdentifierExpression name).fault?
  | newBinary left op right => (Edit.newBinary left op right).fault?
  | newGoto label => (Edit.newGoto label).fault?
  | newGotoCase expression => (Edit.newGotoCase expression).fault?
  | newGotoDefault => Edit.newGotoDefault.fault?
  | newLabel label => (Edit.newLabel label).fault?
  | newBlock => Edit.newBlock.fault?
  | newBlockOf statements => (Edit.newBlockOf statements).fault?
  | newExpressionStatement expression => (Edit.newExpressionStatement expression).fault?
  | newAny group => (Edit.newAny group).fault?
  | newAnyOrNull group => (Edit.newAnyOrNull group).fault?
  | newBackreference group => (Edit.newBackreference group).fault?
  | newNamed group inner => (Edit.newNamed group inner).fault?
  | newChoice alternatives => (Edit.newChoice alternatives).fault?
  | setChild n r child => (Edit.setChild n r child).fault?
  | addChild n r c => (Edit.addChild n r c).fault?
  | insertChildBefore n anchor r c => (Edit.insertChildBefore n anchor r c).fault?
  | detach n => (Edit.detach n).fault?
  | replaceWith x y => (Edit.replaceWith x y).fault?
  | setGotoLabel n label => (Edit.setGotoLabel n label).fault?
  | setLabel n label => (Edit.setLabel n label).fault?
  | setName n name => (Edit.setName n name).fault?
  | rename n name => (Edit.rename n name).fault?
  | setLabelExpression n child => (Edit.setLabelExpression n child).fault?
  | setExpression n child => (Edit.setExpression n child).fault?
  | addStatement n c => (Edit.addStatement n c).fault?
  | cloneSubtree n => (Edit.cloneSubtree n).fault?

/-- Whether the call allocates before it looks at what it is given, so that it may fail with a new
node already there. -/
def allocatesFirst : Call → Bool
  | setChild .. | addChild .. | insertChildBefore .. | detach .. | replaceWith ..
  | setGotoLabel .. | setLabel .. | rename .. | setLabelExpression .. | setExpression ..
  | addStatement .. | cloneSubtree .. => false
  | _ => true

/-- A call that looks first fails without a trace. -/
theorem after_of_fault {a : Arena} (hw : a.WellFormed) {call : Call} {e : Fault}
    (hcall : call.allocatesFirst = false) (he : call.fault? a = some e) : call.after a = a := by
  cases call with
  | setChild n r child => exact (clean_setChild n r child).after_of_fault he
  | addChild n r c => exact (clean_addChild n r c).after_of_fault he
  | insertChildBefore n anchor r c =>
    exact (clean_insertChildBefore n anchor r c).after_of_fault he
  | detach n => exact (clean_detach n).after_of_fault he
  | replaceWith x y => exact (clean_replaceWith x y).after_of_fault he
  | setGotoLabel n label => exact (clean_setLabelBefore .semicolon n label).after_of_fault he
  | setLabel n label => exact (clean_setLabelBefore .colon n label).after_of_fault he
  | rename n name => exact (clean_rename n name).after_of_fault he
  | setLabelExpression n child => exact (clean_setExpression n child).after_of_fault he
  | setExpression n child => exact (clean_setExpression n child).after_of_fault he
  | addStatement n c => exact (clean_addStatement n c).after_of_fault he
  | cloneSubtree n => exact after_cloneSubtree_of_fault hw he
  | _ => cases hcall

/-- A call that allocates first leaves what it has made beside the rest. -/
theorem beside_of_fault {a : Arena} {call : Call} {e : Fault}
    (hcall : call.allocatesFirst = true) (he : call.fault? a = some e) :
    a.Beside (call.after a) := by
  -- without children to refuse there is no fault
  cases call with
  | alloc k => cases he
  | newToken t => cases he
  | newIdentifier name => cases he
  | newLiteral value => cases he
  | newIdentifierExpression name => cases he
  | newBinary left op right => exact (spares_newBinary left op right a).beside_of_fault he
  | newGoto label => exact (spares_newGoto label a).beside_of_fault he
  | newGotoCase expression => exact (spares_newGotoCase expression a).beside_of_fault he
  | newGotoDefault => cases he
  | newLabel label => exact (spares_newLabel label a).beside_of_fault he
  | newBlock => cases he
  | newBlockOf statements => exact (spares_newBlockOf statements a).beside_of_fault he
  | newExpressionStatement expression =>
    exact (spares_newExpressionStatement expression a).beside_of_fault he
  | newAny group => cases he
  | newAnyOrNull group => cases he
  | newBackreference group => cases he
  | newNamed group inner => exact (spares_newNamed group inner a).beside_of_fault he
  | newChoice alternatives => exact (spares_newChoice alternatives a).beside_of_fault he
  | setName n name => exact (spares_setName n name a).beside_of_fault he
  | _ => cases hcall

/-- A name can be set on every node that is there. -/
theorem fault?_setName {a : Arena} {n : Nat} (hn : n < a.size) (name : String) :
    (setName n name).fault? a = none := by
  obtain ⟨b, hset⟩ := exists_setIdentifier_eq_ok hn name none
  exact fault?_of_ok hset

/-- **A call that fails spares what is there**: an edit leaves the arena exactly as it was.  A
constructor adds nodes that link to one another only, and so does `setName`, which fails only on
the id of no node. -/
theorem intact_of_fault {a : Arena} (h : a.Reachable) (call : Call) {e : Fault}
    (he : call.fault? a = some e) :
    (call.allocatesFirst = false → call.after a = a) ∧
      (call.allocatesFirst = true → a.Beside (call.after a)) ∧
      ∀ n name, call = setName n name → a.size ≤ n := by
  refine ⟨fun hcall => after_of_fault h.wellFormed hcall he, fun hcall => beside_of_fault hcall he,
    ?_⟩
  rintro n name rfl
  by_contra hn
  cases he.symm.trans (fault?_setName (Nat.lt_of_not_le hn) name)

/-- A block is asked to hold a statement twice, which is refused when its braces are there; then the
statement is asked to hold itself. -/
theorem intact_of_fault_twice :
    let a := Call.newGotoDefault.after .empty
    let left := (newBlockOf [0, 0]).after a
    (newBlockOf [0, 0]).fault? a = some (.alreadyAttached 0 4) ∧
      a.size = 4 ∧ left.size = 7 ∧ a.Beside left ∧
      (addChild 0 .statement 0).fault? a = some (.cycle 0 0) ∧
      (addChild 0 .statement 0).after a = a := by
  have h := Arena.Reachable.call .newGotoDefault .empty
  exact ⟨rfl, rfl, rfl, (intact_of_fault h (newBlockOf [0, 0]) rfl).2.1 rfl, rfl,
    (intact_of_fault h (addChild 0 .statement 0) rfl).1 rfl⟩

end Call

end SyntaxForest
