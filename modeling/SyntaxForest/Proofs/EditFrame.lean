import SyntaxForest.Proofs.Refusal

/-!
# What edits leave alone

An edit writes links: it gives a node another child list, and other nodes another parent.  New
tokens and identifiers may come with them.  The roles in the new list were in the old one, or the
edit was given them, or they are those that it uses itself (`Call.roles`).  `LinkStable R n I` says
that the property `I` of arenas is not lost by such writes at `n`, as long as the roles that come
new are in `R`.  Every
edit that writes links at one node is followed once, for all such properties (`LinkStable.setChild`
and its like).  A constructor does nothing else once its node is there, so it is followed in the
same way (`Makes.raises`).

What a record shows besides links is not touched, and neither are the child lists of other nodes.
`Shows m f v` is such a fact about the record of `m`, and `Apart f m n` is what makes it safe from
new links at `n`: the kind of `m` is always safe (`apart_kind`), its child list if `m` is not `n`
(`apart_children`).

For calls this gives that nodes stay (`Call.size_le_after`) and keep their kinds, unless an
identifier is renamed (`Call.kind_after`).
-/

namespace SyntaxForest

namespace ChildList

variable {R : RoleId → Prop} {cs before after : ChildList} {r : RoleId}

/-- The roles in `ds` are those of `cs`, or they are in `R`. -/
def Within (R : RoleId → Prop) (cs ds : ChildList) : Prop :=
  ∀ x ∈ ds, R x.role ∨ x.role ∈ cs.map (·.role)

theorem within_of_subset {ds : ChildList} (h : ds ⊆ cs) : Within R cs ds :=
  fun _ hx => .inr (List.mem_map_of_mem (h hx))

/-- One entry among those that were there. -/
theorem within_of_split (hbefore : before ⊆ cs) (hafter : after ⊆ cs)
    (hr : R r ∨ r ∈ cs.map (·.role)) (c : NodeId) : Within R cs (before ++ ⟨r, c⟩ :: after) := by
  intro x hx
  rcases List.mem_append.mp hx with hx | hx
  · exact within_of_subset hbefore x hx
  · rcases List.mem_cons.mp hx with rfl | hx
    · exact hr
    · exact within_of_subset hafter x hx

theorem within_append (hr : R r) (c : NodeId) (cs : ChildList) : Within R cs (cs ++ [⟨r, c⟩]) :=
  within_of_split (List.Subset.refl cs) (List.nil_subset cs) (.inl hr) c

theorem within_insertBefore (hr : R r) (c : NodeId) (anchor : Option NodeId) (cs : ChildList) :
    Within R cs (insertBefore ⟨r, c⟩ anchor cs) := by
  obtain ⟨before, after, rfl, hins⟩ := exists_insertBefore ⟨r, c⟩ anchor cs
  rw [hins]
  exact within_of_split (List.subset_append_left _ _) (List.subset_append_right _ _) (.inl hr) c

theorem within_put (hr : R r) (c : NodeId) (anchor : Option NodeId) (cs : ChildList) :
    Within R cs (put cs r c anchor) := by
  unfold put
  cases hfirst : cs.firstUnder? r with
  | none => exact within_insertBefore hr c anchor cs
  | some o =>
    obtain ⟨before, after, rfl, hbefore⟩ := exists_of_firstUnder? hfirst
    show Within R _ (replaceUnder r c _)
    rw [replaceUnder_append c hbefore]
    exact within_of_split (by simp) (by simp) (.inl hr) c

theorem within_eraseUnder (r : RoleId) (cs : ChildList) : Within R cs (eraseUnder cs r) :=
  within_of_subset List.eraseP_subset

end ChildList

namespace Arena

variable {β : Type}

/-- The node `m` is there, and `f` finds `v` in its record. -/
def Shows (m : NodeId) (f : Node → β) (v : β) (a : Arena) : Prop :=
  ∃ d, a.node? m = some d ∧ f d = v

theorem shows_kind_iff {a : Arena} {m : NodeId} {k : Kind} :
    a.Shows m Node.kind k ↔ a.kind m = .ok k :=
  kind_eq_ok_iff.symm

theorem shows_children_iff {a : Arena} {m : NodeId} {cs : ChildList} :
    a.Shows m Node.children cs ↔ a.children m = .ok cs :=
  children_eq_ok_iff.symm

/-- What `f` finds at `m` does not change with links at `n`. -/
structure Apart (f : Node → β) (m n : NodeId) : Prop where
  parent : ∀ d p, f { d with parent := p } = f d
  children : n = m → ∀ d cs, f { d with children := cs } = f d

theorem apart_kind (m n : NodeId) : Apart Node.kind m n :=
  ⟨fun _ _ => rfl, fun _ _ _ => rfl⟩

theorem apart_children {m n : NodeId} (h : n ≠ m) : Apart Node.children m n :=
  ⟨fun _ _ => rfl, fun heq => absurd heq h⟩

namespace Shows

variable {a : Arena} {m n : Nat} {f : Node → β} {v : β}

theorem of_isPrefix {b : Arena} (hab : a.IsPrefix b) (h : a.Shows m f v) : b.Shows m f v := by
  obtain ⟨d, hd, hv⟩ := h
  exact ⟨d, hab m d hd, hv⟩

theorem push (h : a.Shows m f v) (k : Kind) : (a.push k).Shows m f v :=
  h.of_isPrefix (isPrefix_push a k)

theorem setParent (h : a.Shows m f v) (hf : Apart f m n) (c : NodeId) (p : Option NodeId) :
    (a.setParent c p).Shows m f v := by
  obtain ⟨d, hd, hv⟩ := h
  rw [Shows, node?_setParent, hd]
  split_ifs
  · exact ⟨_, rfl, (hf.parent d p).trans hv⟩
  · exact ⟨d, rfl, hv⟩

theorem setChildren (h : a.Shows m f v) (hf : Apart f m n) (g : ChildList → ChildList) :
    (a.setChildren n g).Shows m f v := by
  obtain ⟨d, hd, hv⟩ := h
  rw [Shows, node?_setChildren, hd]
  split_ifs with hn
  · exact ⟨_, rfl, (hf.children hn d _).trans hv⟩
  · exact ⟨d, rfl, hv⟩

end Shows

end Arena

namespace Edit

open Arena

/-- New links at `n`, and new tokens and identifiers, do not take the property away, if all roles
that come new into the child list of `n` are in `R`. -/
structure LinkStable (R : RoleId → Prop) (n : NodeId) (I : Arena → Prop) : Prop where
  pushToken : ∀ a t, I a → I (a.push (.token t))
  pushIdentifier : ∀ a name, I a → I (a.push (.identifier name))
  setParent : ∀ a c p, I a → I (a.setParent c p)
  setChildren : ∀ a g,
    (∀ d, a.node? n = some d → ChildList.Within R d.children (g d.children)) →
      I a → I (a.setChildren n g)

/-- Any role may come new where no role is looked at. -/
theorem linkStable_shows {β : Type} {f : Node → β} {m n : NodeId} {v : β} (hf : Apart f m n) :
    LinkStable (fun _ => True) n (Shows m f v) where
  pushToken _ _ h := h.push _
  pushIdentifier _ _ h := h.push _
  setParent _ c p h := h.setParent hf c p
  setChildren _ g _ h := h.setChildren hf g

namespace LinkStable

variable {R : RoleId → Prop} {n : NodeId} {I : Arena → Prop} (h : LinkStable R n I)
include h

theorem write_setParent (c : NodeId) (p : Option NodeId) : Keeps I (write (·.setParent c p)) :=
  fun a => h.setParent a c p

theorem write_setChildren {g : ChildList → ChildList} (hg : ∀ cs, ChildList.Within R cs (g cs)) :
    Keeps I (write (·.setChildren n g)) :=
  fun a => h.setChildren a g fun d _ => hg d.children

/-! ### Links of one node -/

theorem takeChild (r : RoleId) : Keeps I (takeChild n r) := by
  refine keeps_bind (keeps_look _) fun old => ?_
  cases old with
  | none => exact keeps_pure _
  | some o =>
    exact keeps_bind (h.write_setChildren (ChildList.within_eraseUnder r)) fun _ =>
      keeps_bind (h.write_setParent _ _) fun _ => keeps_pure _

section Roles

variable {r : RoleId} (hr : R r)
include hr

theorem link (c : NodeId) : Keeps I (link n r c) :=
  fun a ha => h.setParent _ c _ (h.write_setChildren (ChildList.within_append hr c) a ha)

theorem putChild (c : NodeId) (anchor : Option NodeId) : Keeps I (putChild n r c anchor) := by
  refine keeps_bind (keeps_look _) fun old =>
    keeps_bind (h.write_setChildren (ChildList.within_put hr c anchor)) fun _ => ?_
  cases old with
  | none => exact keeps_bind (h.write_setParent _ _) fun _ => keeps_pure _
  | some o =>
    exact keeps_bind (h.write_setParent _ _) fun _ =>
      keeps_bind (h.write_setParent _ _) fun _ => keeps_pure _

theorem setChild (child : Option NodeId) : Keeps I (setChild n r child) := by
  unfold Edit.setChild
  split_ifs
  · exact keeps_throw _
  · cases child with
    | none => exact h.takeChild r
    | some c =>
      refine keeps_bind (keeps_look _) fun current => ?_
      split_ifs
      · exact keeps_pure _
      · exact keeps_bind (keeps_look _) fun _ => h.putChild hr c none

theorem addChild (c : NodeId) : Keeps I (addChild n r c) := by
  unfold Edit.addChild
  split_ifs
  · exact keeps_bind (keeps_look _) fun _ => h.link hr c
  · exact keeps_throw _

theorem insertChildBefore (anchor c : NodeId) : Keeps I (insertChildBefore n anchor r c) := by
  refine keeps_bind (keeps_look _) fun parent => ?_
  split_ifs
  · have hlist := ChildList.within_insertBefore hr c (some anchor)
    exact keeps_bind (keeps_look _) fun _ => keeps_bind (h.write_setChildren hlist) fun _ =>
      keeps_bind (h.write_setParent _ _) fun _ => keeps_pure _
  · exact keeps_bind (keeps_look _) fun _ => h.putChild hr c (some anchor)
  · exact keeps_throw _

theorem appendToken (t : Token) : Keeps I (appendToken n r t) :=
  keeps_bind (fun a => h.pushToken a t) fun x => h.link hr x

end Roles

/-! ### Setters -/

theorem setIdentifier (hrole : R .identifier) (name : String) (anchor : Option NodeId) :
    Keeps I (setIdentifier n name anchor) := by
  unfold Edit.setIdentifier
  split_ifs
  · exact keeps_bind (h.takeChild _) fun _ => keeps_pure _
  · exact keeps_bind (fun a => h.pushIdentifier a name) fun x =>
      keeps_bind (h.putChild hrole x anchor) fun _ => keeps_pure _

theorem setLabelBefore (hrole : R .identifier) (anchor : RoleId) (label : String) :
    Keeps I (setLabelBefore anchor n label) :=
  keeps_bind (keeps_look _) fun found => h.setIdentifier hrole label found

theorem setExpression (hrole : R .expression) (child : Option NodeId) :
    Keeps I (setExpression n child) := by
  refine keeps_bind (keeps_look _) fun anchor => keeps_bind (keeps_look _) fun current => ?_
  split
  · exact h.insertChildBefore hrole _ _
  · exact h.setChild hrole child

theorem addStatement (hrole : R .statement) (c : NodeId) : Keeps I (addStatement n c) := by
  refine keeps_bind (keeps_look _) fun brace => ?_
  split
  · exact keeps_bind (h.insertChildBefore hrole _ c) fun _ => keeps_pure _
  · exact h.addChild hrole c

end LinkStable

/-! ### Constructors, once their node is there -/

section Constructors

variable {R : RoleId → Prop} {a : Arena} {I : Arena → Prop}

theorem after_alloc_bind {α : Type} {k : Kind} {f : NodeId → Edit α} (ha : I (a.push k))
    (hf : Keeps I (f a.size)) : I ((alloc k >>= f).after a) := by
  rw [after_bind_of_ok (alloc_apply k a)]
  exact hf _ ha

variable (h : LinkStable R a.size I) (hR : ∀ r ∈ RoleId.shared, R r)
include h hR

theorem raise_newIdentifierExpression (name : String) (ha : I (a.push (.expression .identifier))) :
    I ((newIdentifierExpression name).after a) :=
  after_alloc_bind ha (keeps_bind (x := newIdentifier name) (fun a => h.pushIdentifier a name)
    fun x => keeps_bind (h.link (hR _ (by decide)) x) fun _ => keeps_pure _)

theorem raise_newBinary (l : NodeId) (op : Operator) (r : NodeId)
    (ha : I (a.push (.expression (.binary op)))) : I ((newBinary l op r).after a) :=
  after_alloc_bind ha (keeps_bind (keeps_look _) fun _ =>
    keeps_bind (h.link (hR _ (by decide)) l) fun _ =>
    keeps_bind (h.appendToken (hR _ (by decide)) _) fun _ =>
    keeps_bind (h.link (hR _ (by decide)) r) fun _ => keeps_pure _)

theorem raise_newGoto (label : String) (ha : I (a.push (.statement .goto))) :
    I ((newGoto label).after a) :=
  after_alloc_bind ha (keeps_bind (h.appendToken (hR _ (by decide)) _) fun _ =>
    keeps_bind (h.appendToken (hR _ (by decide)) _) fun _ =>
    keeps_bind (h.setLabelBefore (hR _ (by decide)) _ label) fun _ => keeps_pure _)

theorem raise_newGotoCase (hcase : R .caseKeyword) (expression : NodeId)
    (ha : I (a.push (.statement .gotoCase))) : I ((newGotoCase expression).after a) :=
  after_alloc_bind ha (keeps_bind (h.appendToken (hR _ (by decide)) _) fun _ =>
    keeps_bind (h.appendToken hcase _) fun _ =>
    keeps_bind (h.setChild (hR _ (by decide)) _) fun _ =>
    keeps_bind (h.appendToken (hR _ (by decide)) _) fun _ => keeps_pure _)

theorem raise_newGotoDefault (hdefault : R .defaultKeyword)
    (ha : I (a.push (.statement .gotoDefault))) : I (newGotoDefault.after a) :=
  after_alloc_bind ha (keeps_bind (h.appendToken (hR _ (by decide)) _) fun _ =>
    keeps_bind (h.appendToken hdefault _) fun _ =>
    keeps_bind (h.appendToken (hR _ (by decide)) _) fun _ => keeps_pure _)

theorem raise_newLabel (label : String) (ha : I (a.push (.statement .label))) :
    I ((newLabel label).after a) :=
  after_alloc_bind ha (keeps_bind (h.appendToken (hR _ (by decide)) _) fun _ =>
    keeps_bind (h.setLabelBefore (hR _ (by decide)) _ label) fun _ => keeps_pure _)

theorem raise_newBlock (ha : I (a.push (.statement .block))) : I (newBlock.after a) :=
  after_alloc_bind ha (keeps_bind (h.appendToken (hR _ (by decide)) _) fun _ =>
    keeps_bind (h.appendToken (hR _ (by decide)) _) fun _ => keeps_pure _)

theorem raise_newBlockOf (statements : List NodeId) (ha : I (a.push (.statement .block))) :
    I ((newBlockOf statements).after a) := by
  have hblock : newBlock a = .ok a.size (newBlock.after a) := rfl
  unfold newBlockOf
  rw [after_bind_of_ok hblock]
  have hrole := hR .statement (by decide)
  exact keeps_bind (keeps_look _) (fun _ => keeps_bind (keeps_forM (h.addStatement hrole) statements)
    fun _ => keeps_pure _) _ (raise_newBlock h hR ha)

theorem raise_newExpressionStatement (expression : NodeId)
    (ha : I (a.push (.statement .expression))) :
    I ((newExpressionStatement expression).after a) :=
  after_alloc_bind ha (keeps_bind (h.setChild (hR _ (by decide)) _) fun _ =>
    keeps_bind (h.appendToken (hR _ (by decide)) _) fun _ => keeps_pure _)

theorem raise_newNamed (group : String) (inner : NodeId)
    (ha : I (a.push (.pattern (.named group)))) : I ((newNamed group inner).after a) :=
  after_alloc_bind ha (keeps_bind (h.setChild (hR _ (by decide)) _) fun _ => keeps_pure _)

theorem raise_newChoice (alternatives : List NodeId) (ha : I (a.push (.pattern .choice))) :
    I ((newChoice alternatives).after a) :=
  after_alloc_bind ha (keeps_bind (keeps_look _) fun _ =>
    keeps_bind (keeps_forM (h.link (hR _ (by decide))) alternatives) fun _ => keeps_pure _)

end Constructors

end Edit

/-- The roles that a constructor of the kind asks for: some of its own, and then those that many
kinds have. -/
def Kind.ownRoles : Kind → List RoleId
  | .expression .identifier | .expression (.binary _) | .pattern (.named _) | .pattern .choice =>
    RoleId.shared
  | .statement .gotoCase => .caseKeyword :: RoleId.shared
  | .statement .gotoDefault => .defaultKeyword :: RoleId.shared
  | .statement _ => RoleId.shared
  | _ => []

namespace Edit

open Arena

/-- The edit is a constructor of statements or of identifier expressions, of the kind `k`. -/
inductive Constructs : Edit NodeId → Kind → Prop
  | goto (label : String) : Constructs (newGoto label) (.statement .goto)
  | gotoCase (expression : NodeId) : Constructs (newGotoCase expression) (.statement .gotoCase)
  | gotoDefault : Constructs newGotoDefault (.statement .gotoDefault)
  | label (label : String) : Constructs (newLabel label) (.statement .label)
  | block : Constructs newBlock (.statement .block)
  | blockOf (statements : List NodeId) : Constructs (newBlockOf statements) (.statement .block)
  | expression (expression : NodeId) :
    Constructs (newExpressionStatement expression) (.statement .expression)
  | identifier (name : String) :
    Constructs (newIdentifierExpression name) (.expression .identifier)

/-- The edit is a constructor, of the kind `k`. -/
inductive Makes : Edit NodeId → Kind → Prop
  | constructs {make : Edit NodeId} {k : Kind} (h : Constructs make k) : Makes make k
  | token (t : Token) : Makes (newToken t) (.token t)
  | identifier (name : String) : Makes (newIdentifier name) (.identifier name)
  | literal (value : Literal) : Makes (newLiteral value) (.expression (.primitive value))
  | binary (l : NodeId) (op : Operator) (r : NodeId) :
    Makes (newBinary l op r) (.expression (.binary op))
  | any (group : Option String) : Makes (newAny group) (.pattern (.any group))
  | anyOrNull (group : Option String) : Makes (newAnyOrNull group) (.pattern (.anyOrNull group))
  | backreference (group : String) :
    Makes (newBackreference group) (.pattern (.backreference group))
  | named (group : String) (inner : NodeId) : Makes (newNamed group inner) (.pattern (.named group))
  | choice (alternatives : List NodeId) : Makes (newChoice alternatives) (.pattern .choice)

/-- **A constructor** makes its node, and then only writes links at it. -/
theorem Makes.raises {make : Edit NodeId} {k : Kind} (hmake : Makes make k) {R : RoleId → Prop}
    {a : Arena} {I : Arena → Prop} (h : LinkStable R a.size I) (hR : ∀ r ∈ k.ownRoles, R r)
    (ha : I (a.push k)) : I (make.after a) := by
  cases hmake with
  | token t => exact ha
  | identifier name => exact ha
  | literal value => exact ha
  | binary l op r => exact raise_newBinary h hR l op r ha
  | any group => exact ha
  | anyOrNull group => exact ha
  | backreference group => exact ha
  | named group inner => exact raise_newNamed h hR group inner ha
  | choice alternatives => exact raise_newChoice h hR alternatives ha
  | constructs hmake =>
    cases hmake with
    | goto label => exact raise_newGoto h hR label ha
    | gotoCase expression =>
      obtain ⟨hcase, hshared⟩ := List.forall_mem_cons.mp hR
      exact raise_newGotoCase h hshared hcase expression ha
    | gotoDefault =>
      obtain ⟨hdefault, hshared⟩ := List.forall_mem_cons.mp hR
      exact raise_newGotoDefault h hshared hdefault ha
    | label label => exact raise_newLabel h hR label ha
    | block => exact raise_newBlock h hR ha
    | blockOf statements => exact raise_newBlockOf h hR statements ha
    | expression expression => exact raise_newExpressionStatement h hR expression ha
    | identifier name => exact raise_newIdentifierExpression h hR name ha

/-! ### Places and copies -/

section Places

variable {R : RoleId → Prop} {I : Arena → Prop} (h : ∀ n, LinkStable R n I)
include h

theorem keeps_stable_detach (n : NodeId) : Keeps I (detach n) := by
  intro a ha
  refine after_look_bind ha fun place hplace => ?_
  cases place with
  | none => exact ha
  | some place =>
    obtain ⟨e, he, hchildren⟩ := place?_eq_ok_some hplace
    refine (h place.parent).setParent _ n none ((h place.parent).setChildren a _ ?_ ha)
    intro d hd
    obtain rfl := Option.some.inj (he.symm.trans hd)
    rw [hchildren]
    exact ChildList.within_of_subset (by simp)

theorem keeps_stable_replaceWith (x y : NodeId) : Keeps I (replaceWith x y) := by
  unfold replaceWith
  split_ifs
  · exact keeps_pure _
  · intro a ha
    refine after_look_bind ha fun place hplace => ?_
    cases place with
    | none => exact ha
    | some place =>
      obtain ⟨e, he, hchildren⟩ := place?_eq_ok_some hplace
      have hp := h place.parent
      refine after_look_bind ha fun _ _ => hp.setParent _ _ _ (hp.setParent _ _ _
        (hp.setChildren a _ (fun d hd => ?_) ha))
      obtain rfl := Option.some.inj (he.symm.trans hd)
      rw [hchildren]
      exact ChildList.within_of_split (by simp) (by simp) (.inr (by simp)) y

end Places

/-- What is copied comes after everything else, if it comes at all. -/
theorem isPrefix_importFrom {source a : Arena} (hs : source.WellFormed) (n : NodeId) :
    a.IsPrefix ((importFrom source n).after a) := by
  cases hn : source.node? n with
  | none =>
    rw [after_of_error (importFrom_of_none hn a)]
    exact .refl a
  | some d =>
    obtain ⟨t, ht⟩ := hs.exists_isAt (lt_size_of_node? hn)
    obtain ⟨b, himport, hab, -⟩ := importFrom_of_isAt ht a
    rwa [after_of_ok himport]

theorem isPrefix_cloneSubtree {a : Arena} (hw : a.WellFormed) (n : NodeId) :
    a.IsPrefix ((cloneSubtree n).after a) := by
  rw [after, cloneSubtree_eq_importFrom hw, ← after]
  exact isPrefix_importFrom hw n

theorem kind_of_keeps {α : Type} {m : NodeId} {k : Kind} {x : Edit α} {a b : Arena} {v : α}
    (hx : Keeps (Shows m Node.kind k) x) (hrun : x a = .ok v b) (hk : a.kind m = .ok k) :
    b.kind m = .ok k := by
  rw [← shows_kind_iff] at hk ⊢
  rw [← after_of_ok hrun]
  exact hx a hk

/-- A new name is written to the node, or nothing is. -/
theorem after_rename (n : NodeId) (name : String) (a : Arena) :
    (rename n name).after a = a ∨
      (rename n name).after a = a.setKind n (.identifier name) :=
  after_look_bind (I := fun b => b = a ∨ b = a.setKind n (.identifier name)) (.inl rfl)
    fun _ _ => .inr rfl

end Edit

namespace Call

open Arena Edit

/-- The kind of the node that a constructor makes. -/
def root? : Call → Option Kind
  | alloc k => some k
  | newToken t => some (.token t)
  | newIdentifier name => some (.identifier name)
  | newLiteral value => some (.expression (.primitive value))
  | newIdentifierExpression _ => some (.expression .identifier)
  | newBinary _ op _ => some (.expression (.binary op))
  | newGoto _ => some (.statement .goto)
  | newGotoCase _ => some (.statement .gotoCase)
  | newGotoDefault => some (.statement .gotoDefault)
  | newLabel _ => some (.statement .label)
  | newBlock | newBlockOf _ => some (.statement .block)
  | newExpressionStatement _ => some (.statement .expression)
  | newAny group => some (.pattern (.any group))
  | newAnyOrNull group => some (.pattern (.anyOrNull group))
  | newBackreference group => some (.pattern (.backreference group))
  | newNamed group _ => some (.pattern (.named group))
  | newChoice _ => some (.pattern .choice)
  | _ => none

/-- A constructor as an edit. -/
theorem exists_makes {call : Call} {k : Kind} (hroot : call.root? = some k)
    (halloc : ∀ k, call ≠ .alloc k) :
    ∃ make, Makes make k ∧ ∀ a, call.after a = make.after a ∧ call.fault? a = make.fault? a := by
  cases call with
  | alloc k => exact absurd rfl (halloc k)
  | newToken t => cases hroot; exact ⟨_, .token t, fun _ => ⟨rfl, rfl⟩⟩
  | newIdentifier name => cases hroot; exact ⟨_, .identifier name, fun _ => ⟨rfl, rfl⟩⟩
  | newLiteral value => cases hroot; exact ⟨_, .literal value, fun _ => ⟨rfl, rfl⟩⟩
  | newIdentifierExpression name =>
    cases hroot
    exact ⟨_, .constructs (.identifier name), fun _ => ⟨rfl, rfl⟩⟩
  | newBinary left op right => cases hroot; exact ⟨_, .binary left op right, fun _ => ⟨rfl, rfl⟩⟩
  | newGoto label => cases hroot; exact ⟨_, .constructs (.goto label), fun _ => ⟨rfl, rfl⟩⟩
  | newGotoCase expression =>
    cases hroot
    exact ⟨_, .constructs (.gotoCase expression), fun _ => ⟨rfl, rfl⟩⟩
  | newGotoDefault => cases hroot; exact ⟨_, .constructs .gotoDefault, fun _ => ⟨rfl, rfl⟩⟩
  | newLabel label => cases hroot; exact ⟨_, .constructs (.label label), fun _ => ⟨rfl, rfl⟩⟩
  | newBlock => cases hroot; exact ⟨_, .constructs .block, fun _ => ⟨rfl, rfl⟩⟩
  | newBlockOf statements =>
    cases hroot
    exact ⟨_, .constructs (.blockOf statements), fun _ => ⟨rfl, rfl⟩⟩
  | newExpressionStatement expression =>
    cases hroot
    exact ⟨_, .constructs (.expression expression), fun _ => ⟨rfl, rfl⟩⟩
  | newAny group => cases hroot; exact ⟨_, .any group, fun _ => ⟨rfl, rfl⟩⟩
  | newAnyOrNull group => cases hroot; exact ⟨_, .anyOrNull group, fun _ => ⟨rfl, rfl⟩⟩
  | newBackreference group => cases hroot; exact ⟨_, .backreference group, fun _ => ⟨rfl, rfl⟩⟩
  | newNamed group inner => cases hroot; exact ⟨_, .named group inner, fun _ => ⟨rfl, rfl⟩⟩
  | newChoice alternatives => cases hroot; exact ⟨_, .choice alternatives, fun _ => ⟨rfl, rfl⟩⟩
  | _ => cases hroot

/-- The roles that a call may put children under: the one that it is given, or those that it asks
for itself. -/
def roles (call : Call) : List RoleId :=
  match call with
  | alloc _ => []
  | setChild _ r _ | addChild _ r _ | insertChildBefore _ _ r _ => [r]
  | setGotoLabel .. | setLabel .. | setName .. | setLabelExpression .. | setExpression ..
  | addStatement .. => RoleId.shared
  | _ => (call.root?.map Kind.ownRoles).getD []

theorem roles_of_root {call : Call} {k : Kind} (hroot : call.root? = some k)
    (halloc : ∀ k, call ≠ .alloc k) : call.roles = k.ownRoles := by
  cases call with
  | alloc k => exact absurd rfl (halloc k)
  | _ => cases hroot <;> rfl

/-- A node that is made, by a constructor or without one, comes first. -/
theorem raises {call : Call} {k : Kind} (hcall : call.root? = some k) {R : RoleId → Prop}
    {a : Arena} {I : Arena → Prop} (h : LinkStable R a.size I) (hR : ∀ r ∈ call.roles, R r)
    (ha : I (a.push k)) : I (call.after a) := by
  by_cases halloc : ∃ k, call = .alloc k
  · obtain ⟨k, rfl⟩ := halloc
    cases hcall
    exact ha
  · push Not at halloc
    obtain ⟨make, hmakes, hmake⟩ := exists_makes hcall halloc
    rw [roles_of_root hcall halloc] at hR
    rw [(hmake a).1]
    exact hmakes.raises h hR ha

/-- Any call but a renaming keeps what new links anywhere, new nodes and copies cannot take away. -/
theorem keeps_of_stable {R : RoleId → Prop} {I : Arena → Prop} (h : ∀ n, LinkStable R n I)
    (hpush : ∀ a k, I a → I (a.push k))
    (hclone : ∀ a n, a.WellFormed → I a → I ((Edit.cloneSubtree n).after a)) {call : Call}
    (hcall : ∀ n name, call ≠ rename n name) (hR : ∀ r ∈ call.roles, R r) {a : Arena}
    (hw : a.WellFormed) (ha : I a) : I (call.after a) := by
  cases hroot : call.root? with
  | some k => exact raises hroot (h _) hR (hpush a k ha)
  | none =>
    have hidentifier : RoleId.identifier ∈ RoleId.shared := by decide
    have hexpression : RoleId.expression ∈ RoleId.shared := by decide
    have hstatement : RoleId.statement ∈ RoleId.shared := by decide
    cases call with
    | setChild n r child => exact (h n).setChild (hR r List.mem_cons_self) child a ha
    | addChild n r c => exact (h n).addChild (hR r List.mem_cons_self) c a ha
    | insertChildBefore n anchor r c =>
      exact (h n).insertChildBefore (hR r List.mem_cons_self) anchor c a ha
    | detach n => exact keeps_stable_detach h n a ha
    | replaceWith x y => exact keeps_stable_replaceWith h x y a ha
    | setGotoLabel n label => exact (h n).setLabelBefore (hR _ hidentifier) .semicolon label a ha
    | setLabel n label => exact (h n).setLabelBefore (hR _ hidentifier) .colon label a ha
    | setName n name => exact (h n).setIdentifier (hR _ hidentifier) name none a ha
    | rename n name => exact absurd rfl (hcall n name)
    | setLabelExpression n child => exact (h n).setExpression (hR _ hexpression) child a ha
    | setExpression n child => exact (h n).setExpression (hR _ hexpression) child a ha
    | addStatement n c => exact (h n).addStatement (hR _ hstatement) c a ha
    | cloneSubtree n => exact hclone a n hw ha
    | _ => cases hroot

/-- What is said of records that are there is not taken away, whatever the roles are. -/
theorem keeps_of_prefix_closed {I : Arena → Prop} (h : ∀ n, LinkStable (fun _ => True) n I)
    (hlonger : ∀ a b, a.IsPrefix b → I a → I b) {call : Call}
    (hcall : ∀ n name, call ≠ rename n name) {a : Arena} (hw : a.WellFormed) (ha : I a) :
    I (call.after a) :=
  keeps_of_stable h (fun a k => hlonger a _ (isPrefix_push a k))
    (fun a n hw => hlonger a _ (isPrefix_cloneSubtree hw n)) hcall (fun _ _ => trivial) hw ha

/-- **Nodes stay**, whatever is called. -/
theorem size_le_after {a : Arena} (hw : a.WellFormed) (call : Call) :
    a.size ≤ (call.after a).size := by
  by_cases hcall : ∃ n name, call = rename n name
  · obtain ⟨n, name, rfl⟩ := hcall
    rcases after_rename n name a with hsame | hnew
    · rw [after, hsame]
    · rw [after, hnew, size_setKind]
  · push Not at hcall
    refine keeps_of_prefix_closed (I := fun b => a.size ≤ b.size) (fun n => ⟨?_, ?_, ?_, ?_⟩)
      (fun b c hbc hb => hb.trans hbc.size_le) hcall hw (Nat.le_refl _)
    · intro b t hb
      rw [size_push]
      omega
    · intro b name hb
      rw [size_push]
      omega
    · intro b c p hb
      rwa [size_setParent]
    · intro b g _ hb
      rwa [size_setChildren]

/-- **Nodes keep their kinds**, unless they are renamed. -/
theorem kind_after_of_ne {a : Arena} (hw : a.WellFormed) {call : Call} {m : NodeId} {k : Kind}
    (hcall : ∀ name, call ≠ rename m name) (hk : a.kind m = .ok k) :
    (call.after a).kind m = .ok k := by
  rw [← shows_kind_iff] at hk ⊢
  by_cases hrename : ∃ n name, call = rename n name
  · obtain ⟨n, name, rfl⟩ := hrename
    have hne : n ≠ m := fun heq => hcall name (by rw [heq])
    rcases after_rename n name a with hsame | hnew
    · rwa [after, hsame]
    · obtain ⟨d, hd, hv⟩ := hk
      rw [after, hnew]
      exact ⟨d, by rw [node?_setKind, if_neg hne, hd], hv⟩
  · push Not at hrename
    exact keeps_of_prefix_closed (fun n => linkStable_shows (apart_kind m n))
      (fun b c hbc hb => hb.of_isPrefix hbc) hrename hw hk

/-- Only identifiers are renamed. -/
theorem kind_after {a : Arena} (hw : a.WellFormed) {call : Call} (hcall : call.Apt a) {m : NodeId}
    {k : Kind} (hname : ∀ name, k ≠ .identifier name) (hk : a.kind m = .ok k) :
    (call.after a).kind m = .ok k := by
  refine kind_after_of_ne hw ?_ hk
  rintro name rfl
  obtain ⟨k', hk', hfits⟩ := cast_eq_ok_iff.mp hcall
  obtain rfl := Except.ok.inj (hk.symm.trans hk')
  obtain ⟨old, rfl⟩ := View.exists_of_fits_identifier hfits
  exact hname old rfl

end Call

end SyntaxForest
