import SyntaxForest.Construct
import SyntaxForest.Proofs.EditForest

/-!
# Setters and constructors keep a forest

A setter that takes a child goes through the checked edits.  A setter that takes a text allocates
an identifier and puts it into its slot unchecked; the new node is a leaf, so it may be attached
to every node that was there before (`wellFormed_setIdentifier`).

A constructor starts from a new node, which stays a root until the constructor is done.  `Raising`
says so, and keeps account of the roles that are in use: a root has nothing above it, so any other
root may be linked below it as long as its role takes it and is not taken (`Raising.link`,
`Raising.appendLeaf`).  That the children given to a constructor are roots and all different is
what `checkAttachAll` has found out (`attachable_of_checkAttachAll`).
-/

namespace SyntaxForest

namespace Arena

/-! ### Tokens -/

/-- A slot that holds a token has been found to hold one. -/
theorem token?_of_node? {a : Arena} {n x : Nat} {d e : Node} {r : RoleId}
    (hn : a.node? n = some d) (hfirst : d.children.firstUnder? r = some x)
    (hx : a.node? x = some e) (htoken : e.kind.isToken = true) : a.token? n r = .ok (some x) := by
  unfold token? childIf?
  rw [child?_of_node? hn, hfirst]
  simp only [bind, Except.bind, kind_of_node? hx, htoken, if_true]
  rfl

/-- Only a node can be asked for a token. -/
theorem exists_node?_of_token? {a : Arena} {n : Nat} {r : RoleId} {x : Option NodeId}
    (h : a.token? n r = .ok x) : ∃ d, a.node? n = some d := by
  unfold token? childIf? at h
  cases hchild : a.child? n r with
  | error e =>
    rw [hchild] at h
    cases h
  | ok c =>
    obtain ⟨d, hd, -⟩ := child?_eq_ok_iff.mp hchild
    exact ⟨d, hd⟩

/-! ### A new node and its children -/

/-- In a well-formed arena, `n` is a root with children under the given roles. -/
structure Raising (a : Arena) (n : NodeId) (roles : List RoleId) : Prop where
  wellFormed : a.WellFormed
  root : ∃ d, a.node? n = some d ∧ d.parent = none ∧ d.children.map (·.role) = roles

theorem raising_push {a : Arena} (hw : a.WellFormed) (k : Kind) : (a.push k).Raising a.size [] :=
  ⟨wellFormed_push hw k, { kind := k }, node?_push_self a k, rfl, rfl⟩

namespace Raising

variable {a : Arena} {n : Nat} {roles : List RoleId}

/-- A root may be linked under a role that takes it and is not in use. -/
theorem link (h : a.Raising n roles) {c : Nat} {e : Node} {r : RoleId} (hc : a.node? c = some e)
    (hroot : e.parent = none) (hne : c ≠ n) (hadm : r.admits e.kind.category = true)
    (hnew : r.cardinality = .single → r ∉ roles) : (a.link n r c).Raising n (roles ++ [r]) := by
  obtain ⟨d, hn, hnroot, rfl⟩ := h.root
  refine ⟨wellFormed_link h.wellFormed (attachable_of_root hn hnroot hc hroot hadm hne) hn hnew,
    { d with children := d.children ++ [⟨r, c⟩] }, ?_, hnroot, ?_⟩
  · rw [link_eq_relink hn]
    exact node?_relink_self hn hne _ _
  · simp

/-- A new leaf may be appended under a role that takes it and is not in use. -/
theorem appendLeaf (h : a.Raising n roles) {k : Kind} {r : RoleId}
    (hadm : r.admits k.category = true) (hnew : r ∉ roles) :
    ((a.push k).link n r a.size).Raising n (roles ++ [r]) := by
  obtain ⟨d, hn, hnroot, hroles⟩ := h.root
  have hpush : (a.push k).Raising n roles :=
    ⟨wellFormed_push h.wellFormed k, d, node?_push_of_some hn, hnroot, hroles⟩
  refine hpush.link (node?_push_self a k) rfl ?_ hadm fun _ => hnew
  have := lt_size_of_node? hn
  omega

end Raising

/-! ### Checking several children at once -/

theorem attachable_of_checkAttachAfter {a : Arena} {n : Nat} :
    ∀ {cs : ChildList} {seen : List NodeId}, a.checkAttachAfter n seen cs = .ok () →
      (∀ x ∈ cs, a.Attachable n x.role x.node ∧ x.node ∉ seen) ∧ (cs.map (·.node)).Nodup
  | [], seen, _ => by simp
  | x :: cs, seen, h => by
    unfold checkAttachAfter at h
    split_ifs at h with hseen
    cases hx : a.checkAttach n x.role x.node with
    | error e => rw [hx] at h; cases h
    | ok _ =>
      rw [hx] at h
      obtain ⟨hall, hnodup⟩ := attachable_of_checkAttachAfter h
      constructor
      · intro y hy
        rcases List.mem_cons.mp hy with rfl | hy
        · exact ⟨attachable_of_checkAttach hx, hseen⟩
        · exact ⟨(hall y hy).1, fun hmem => (hall y hy).2 (List.mem_cons_of_mem _ hmem)⟩
      · rw [List.map_cons, List.nodup_cons]
        refine ⟨?_, hnodup⟩
        intro hmem
        obtain ⟨y, hy, hyx⟩ := List.mem_map.mp hmem
        exact (hall y hy).2 (hyx ▸ List.mem_cons_self)

/-- Entries that pass the check together may be attached each, and are different nodes. -/
theorem attachable_of_checkAttachAll {a : Arena} {n : Nat} {cs : ChildList}
    (h : a.checkAttachAll n cs = .ok ()) :
    (∀ x ∈ cs, a.Attachable n x.role x.node) ∧ (cs.map (·.node)).Nodup := by
  obtain ⟨hall, hnodup⟩ := attachable_of_checkAttachAfter h
  exact ⟨fun x hx => (hall x hx).1, hnodup⟩

/-- The same for nodes that are all meant for one role. -/
theorem attachable_of_checkAttachEach {a : Arena} {n : Nat} {r : RoleId} {cs : List NodeId}
    (h : a.checkAttachAll n (cs.map (⟨r, ·⟩)) = .ok ()) :
    (∀ c ∈ cs, a.Attachable n r c) ∧ cs.Nodup := by
  obtain ⟨hall, hnodup⟩ := attachable_of_checkAttachAll h
  refine ⟨fun c hc => hall ⟨r, c⟩ (List.mem_map.mpr ⟨c, hc, rfl⟩), ?_⟩
  simpa [List.map_map, Function.comp_def] using hnodup

end Arena

namespace Edit

open Arena

/-! ### Setters -/

/-- **Naming** a node that is there keeps a forest. -/
theorem wellFormed_setIdentifier {a : Arena} (hw : a.WellFormed) {n : Nat} {d : Node}
    (hn : a.node? n = some d) (name : String) (anchor : Option NodeId) :
    ((setIdentifier n name anchor).after a).WellFormed := by
  unfold setIdentifier
  split_ifs
  · exact keeps_bind (keeps_takeChild n .identifier) (fun _ => keeps_pure _) a hw
  · -- the new identifier is a leaf, and not the node itself
    have hne : a.size ≠ n := by
      have := lt_size_of_node? hn
      omega
    have hput := wellFormed_putChild (wellFormed_push hw (.identifier name))
      (attachable_of_leaf (wellFormed_push hw _) (node?_push_of_some hn) (node?_push_self a _) rfl
        rfl (r := .identifier) rfl hne) anchor
    rw [after_bind_of_ok (alloc_apply _ a)]
    refine after_bind (fun v b hr => ?_) fun e b hr => ?_
    · rwa [after_of_ok hr] at hput
    · rwa [after_of_error hr] at hput

theorem keeps_setLabelBefore (anchor : RoleId) (n : NodeId) (label : String) :
    Keeps WellFormed (setLabelBefore anchor n label) := by
  intro a hw
  refine after_look_bind hw fun found hfound => ?_
  obtain ⟨d, hn⟩ := exists_node?_of_token? hfound
  exact wellFormed_setIdentifier hw hn label found

/-- The name is put below a node that is there, or is left a root if there is none; what it cannot
be put below is itself. -/
theorem wellFormed_setName {a : Arena} (hw : a.WellFormed) {n : Nat} {name : String}
    (hself : n = a.size → name.isEmpty = true) : ((setName n name).after a).WellFormed := by
  cases hn : a.node? n with
  | some d => exact wellFormed_setIdentifier hw hn name none
  | none =>
    unfold setName setIdentifier
    split_ifs with hempty
    · exact keeps_bind (keeps_takeChild n .identifier) (fun _ => keeps_pure _) a hw
    · have hne : n ≠ a.size := fun heq => hempty (hself heq)
      have hn' : (a.push (.identifier name)).node? n = none := by
        rw [node?_push, if_neg hne, hn]
      rw [after_bind_of_ok (alloc_apply _ a),
        after_bind_of_error (putChild_of_none hn' .identifier a.size none)]
      exact wellFormed_push hw _

/-- Renaming writes over whatever kind is there. -/
theorem rename_of_kind {a : Arena} {n : Nat} {k : Kind} (hk : a.kind n = .ok k) (name : String) :
    rename n name a = .ok () (a.setKind n (.identifier name)) := by
  rw [rename, bind_of_ok (look_of_ok hk)]
  rfl

/-- Another name is an identifier too, so the role under which the node is listed has to take
identifiers. -/
theorem wellFormed_rename {a : Arena} (hw : a.WellFormed) {n : Nat}
    (hrole : ∀ r, a.roleOf? n = .ok (some r) → r.admits .identifier = true) (name : String) :
    ((rename n name).after a).WellFormed := by
  refine after_look_bind hw fun k hk => ?_
  refine wellFormed_setKind hw fun p e r hp hlisted => hrole r ?_
  exact roleOf?_of_listed hw hp hlisted

theorem keeps_setExpression (n : NodeId) (child : Option NodeId) :
    Keeps WellFormed (setExpression n child) := by
  refine keeps_bind (keeps_look _) fun anchor => keeps_bind (keeps_look _) fun current => ?_
  split
  · exact keeps_insertChildBefore n _ .expression _
  · exact keeps_setChild n .expression child

theorem keeps_addStatement (n c : NodeId) : Keeps WellFormed (addStatement n c) := by
  refine keeps_bind (keeps_look _) fun brace => ?_
  split
  · exact keeps_bind (keeps_insertChildBefore n _ .statement c) fun _ => keeps_pure _
  · exact keeps_addChild n .statement c

/-! ### Steps of a constructor -/

section Steps

variable {a : Arena} {n : Nat} {roles : List RoleId}

theorem appendToken_apply (n : NodeId) (r : RoleId) (t : Token) (a : Arena) :
    appendToken n r t a = .ok () ((a.push (.token t)).link n r a.size) := rfl

/-- After a slot of the new node was set, the node still is a root, and no other role has come
into use. -/
theorem raising_setChild (h : a.Raising n roles) {r : RoleId} {c : Nat} {v : Option NodeId}
    {b : Arena} (hb : setChild n r (some c) a = .ok v b) :
    ∃ roles', b.Raising n roles' ∧ ∀ s ∈ roles', s = r ∨ s ∈ roles := by
  obtain ⟨d, hn, hnroot, rfl⟩ := h.root
  have hwf : b.WellFormed := by
    rw [← after_of_ok hb]
    exact keeps_setChild n r (some c) a h.wellFormed
  suffices hd : ∃ cs, b.node? n = some { d with children := cs } ∧
      ∀ x ∈ cs, x.role = r ∨ x ∈ d.children by
    obtain ⟨cs, hbn, hcs⟩ := hd
    refine ⟨cs.map (·.role), ⟨hwf, _, hbn, hnroot, rfl⟩, ?_⟩
    intro s hs
    obtain ⟨x, hx, rfl⟩ := List.mem_map.mp hs
    rcases hcs x hx with hr | hold
    · exact .inl hr
    · exact .inr (List.mem_map.mpr ⟨x, hold, rfl⟩)
  unfold setChild at hb
  split_ifs at hb
  · cases hb
  · obtain ⟨current, a₁, hlook, hset⟩ := bind_eq_ok hb
    obtain ⟨-, rfl⟩ := look_eq_ok hlook
    split_ifs at hset
    · -- the child was in the slot already
      cases hset
      exact ⟨d.children, hn, fun x hx => .inr hx⟩
    · obtain ⟨_, a₂, hlook, hput⟩ := bind_eq_ok hset
      obtain ⟨hcheck, rfl⟩ := look_eq_ok hlook
      have hne := (attachable_of_checkAttach hcheck).ne
      cases hfirst : d.children.firstUnder? r with
      | none =>
        obtain ⟨before, after, hd, hins⟩ :=
          ChildList.exists_insertBefore ⟨r, c⟩ none d.children
        rw [putChild_of_empty hn hfirst, hins] at hput
        cases hput
        refine ⟨_, node?_relink_self hn hne _ _, ?_⟩
        rw [hd]
        simp only [List.mem_append, List.mem_cons]
        rintro x (hx | rfl | hx)
        · exact .inr (.inl hx)
        · exact .inl rfl
        · exact .inr (.inr hx)
      | some o =>
        obtain ⟨before, after, hd, hr⟩ := ChildList.exists_of_firstUnder? hfirst
        have hon : o ≠ n := by
          obtain ⟨-, -, -, hon⟩ := exists_node?_of_listed h.wellFormed hn (c := o) (r := r)
            (by simp [hd])
          exact hon
        rw [putChild_of_taken hn hd hr] at hput
        cases hput
        refine ⟨_, node?_relink_self (node?_relink_self hn hon _ _) hne _ _, ?_⟩
        rw [hd]
        simp only [List.mem_append, List.mem_cons]
        rintro x (hx | rfl | hx)
        · exact .inr (.inl hx)
        · exact .inl rfl
        · exact .inr (.inr (.inr hx))

/-- Linking roots to the new node one after the other, under a role for many. -/
theorem wellFormed_linkEach (r : RoleId) (hmany : r.cardinality = .many)
    (hadm : ∀ c, r.admits c = true) :
    ∀ (cs : List NodeId) {a : Arena} {roles : List RoleId}, a.Raising n roles →
      (∀ c ∈ cs, c ≠ n ∧ ∃ e, a.node? c = some e ∧ e.parent = none) → cs.Nodup →
      ((cs.forM (link n r)).after a).WellFormed
  | [], a, roles, h, _, _ => h.wellFormed
  | c :: cs, a, roles, h, hroots, hnodup => by
    obtain ⟨hne, e, hc, hroot⟩ := hroots c List.mem_cons_self
    refine wellFormed_linkEach r hmany hadm cs
      (h.link hc hroot hne (hadm _) fun hs => absurd (hmany.symm.trans hs) (by decide)) ?_
      (List.nodup_cons.mp hnodup).2
    intro x hx
    obtain ⟨hxn, f, hf, hfroot⟩ := hroots x (List.mem_cons_of_mem _ hx)
    have hxc : x ≠ c := by
      rintro rfl
      exact (List.nodup_cons.mp hnodup).1 hx
    exact ⟨hxn, f, by rw [node?_link_of_ne a r hxn hxc, hf], hfroot⟩

end Steps

/-! ### Constructors -/

theorem keeps_newIdentifierExpression (name : String) :
    Keeps WellFormed (newIdentifierExpression name) := by
  intro a hw
  exact ((raising_push hw _).appendLeaf (k := .identifier name) (r := .identifier) rfl
    (by simp)).wellFormed

theorem keeps_newBinary (l : NodeId) (op : Operator) (r : NodeId) :
    Keeps WellFormed (newBinary l op r) := by
  intro a hw
  have h := raising_push hw (.expression (.binary op))
  refine after_look_bind (f := (·.checkAttachAll a.size [⟨.left, l⟩, ⟨.right, r⟩])) h.wellFormed
    fun _ hcheck => ?_
  obtain ⟨hall, hnodup⟩ := attachable_of_checkAttachAll hcheck
  have hl := hall ⟨.left, l⟩ (by simp)
  have hr := hall ⟨.right, r⟩ (by simp)
  have hlr : r ≠ l := by
    rintro rfl
    simp at hnodup
  obtain ⟨e, he, heroot, headm⟩ := hl.root
  obtain ⟨f, hf, hfroot, hfadm⟩ := hr.root
  have h₁ := h.link (r := .left) he heroot hl.ne headm (by simp)
  have h₂ := h₁.appendLeaf (k := .token (.operator op)) (r := .operator) rfl (by decide)
  -- the right operand is still as it was: the links made since are of other nodes
  have hf₁ : ((a.push (.expression (.binary op))).link a.size .left l).node? r = some f := by
    rw [node?_link_of_ne _ _ hr.ne hlr, hf]
  refine (h₂.link (c := r) (e := f) (r := .right) ?_ hfroot hr.ne hfadm (by decide)).wellFormed
  rw [node?_link_of_ne _ _ hr.ne (Nat.ne_of_lt (lt_size_of_node? hf₁)), node?_push_of_some hf₁]

theorem keeps_newGoto (label : String) : Keeps WellFormed (newGoto label) := by
  intro a hw
  have h₁ := (raising_push hw (.statement .goto)).appendLeaf (k := .token .goto) (r := .keyword)
    rfl (by simp)
  have h₂ := h₁.appendLeaf (k := .token .semicolon) (r := .semicolon) rfl (by decide)
  unfold newGoto
  rw [after_bind_of_ok (alloc_apply _ a), after_bind_of_ok (appendToken_apply _ _ _ _),
    after_bind_of_ok (appendToken_apply _ _ _ _)]
  exact keeps_bind (keeps_setLabelBefore .semicolon a.size label) (fun _ => keeps_pure _) _
    h₂.wellFormed

/-- A constructor that sets the expression of its new node and appends the semicolon. -/
theorem wellFormed_setExpression_semicolon {a : Arena} {n : Nat} {roles : List RoleId}
    (h : a.Raising n roles) (hnew : RoleId.semicolon ∉ roles) (expression : NodeId) :
    ((do
      let _ ← setChild n .expression (some expression)
      appendToken n .semicolon .semicolon
      return n : Edit NodeId).after a).WellFormed := by
  refine after_bind (fun v b hb => ?_) fun e b hb => ?_
  · obtain ⟨roles', h', hroles⟩ := raising_setChild h hb
    refine (h'.appendLeaf (k := .token .semicolon) (r := .semicolon) rfl ?_).wellFormed
    intro hmem
    rcases hroles _ hmem with hs | hs
    · cases hs
    · exact hnew hs
  · rw [← after_of_error hb]
    exact keeps_setChild n .expression (some expression) a h.wellFormed

theorem keeps_newGotoCase (expression : NodeId) : Keeps WellFormed (newGotoCase expression) := by
  intro a hw
  have h₁ := (raising_push hw (.statement .gotoCase)).appendLeaf (k := .token .goto)
    (r := .keyword) rfl (by simp)
  have h₂ := h₁.appendLeaf (k := .token .case) (r := .caseKeyword) rfl (by decide)
  unfold newGotoCase
  rw [after_bind_of_ok (alloc_apply _ a), after_bind_of_ok (appendToken_apply _ _ _ _),
    after_bind_of_ok (appendToken_apply _ _ _ _)]
  exact wellFormed_setExpression_semicolon h₂ (by decide) expression

theorem keeps_newGotoDefault : Keeps WellFormed newGotoDefault := by
  intro a hw
  have h₁ := (raising_push hw (.statement .gotoDefault)).appendLeaf (k := .token .goto)
    (r := .keyword) rfl (by simp)
  have h₂ := h₁.appendLeaf (k := .token .default) (r := .defaultKeyword) rfl (by decide)
  exact (h₂.appendLeaf (k := .token .semicolon) (r := .semicolon) rfl (by decide)).wellFormed

theorem keeps_newLabel (label : String) : Keeps WellFormed (newLabel label) := by
  intro a hw
  have h := (raising_push hw (.statement .label)).appendLeaf (k := .token .colon) (r := .colon)
    rfl (by simp)
  unfold newLabel
  rw [after_bind_of_ok (alloc_apply _ a), after_bind_of_ok (appendToken_apply _ _ _ _)]
  exact keeps_bind (keeps_setLabelBefore .colon a.size label) (fun _ => keeps_pure _) _ h.wellFormed

theorem keeps_newBlock : Keeps WellFormed newBlock := by
  intro a hw
  have h := (raising_push hw (.statement .block)).appendLeaf (k := .token .lbrace) (r := .lbrace)
    rfl (by simp)
  exact (h.appendLeaf (k := .token .rbrace) (r := .rbrace) rfl (by decide)).wellFormed

/-- Every statement is checked again when it is added, so nothing is left to show. -/
theorem keeps_newBlockOf (statements : List NodeId) : Keeps WellFormed (newBlockOf statements) :=
  keeps_bind keeps_newBlock fun n => keeps_bind (keeps_look _) fun _ =>
    keeps_bind (keeps_forM (keeps_addStatement n) statements) fun _ => keeps_pure _

theorem keeps_newExpressionStatement (expression : NodeId) :
    Keeps WellFormed (newExpressionStatement expression) := by
  intro a hw
  unfold newExpressionStatement
  rw [after_bind_of_ok (alloc_apply _ a)]
  exact wellFormed_setExpression_semicolon (raising_push hw (.statement .expression)) (by simp)
    expression

theorem keeps_newNamed (group : String) (inner : NodeId) :
    Keeps WellFormed (newNamed group inner) :=
  keeps_bind (keeps_alloc _) fun n =>
    keeps_bind (keeps_setChild n .patternChild (some inner)) fun _ => keeps_pure _

theorem keeps_newChoice (alternatives : List NodeId) :
    Keeps WellFormed (newChoice alternatives) := by
  intro a hw
  have h := raising_push hw (.pattern .choice)
  refine after_look_bind
    (f := (·.checkAttachAll a.size (alternatives.map (⟨.alternative, ·⟩)))) h.wellFormed
    fun _ hcheck => ?_
  obtain ⟨hall, hnodup⟩ := attachable_of_checkAttachEach hcheck
  have hroots : ∀ c ∈ alternatives, c ≠ a.size ∧
      ∃ e, (a.push (.pattern .choice)).node? c = some e ∧ e.parent = none := by
    intro c hc
    obtain ⟨e, he, hroot, -⟩ := (hall c hc).root
    exact ⟨(hall c hc).ne, e, he, hroot⟩
  have hlinked := wellFormed_linkEach .alternative rfl (fun _ => rfl) alternatives h hroots hnodup
  refine after_bind (fun v b hb => ?_) fun e b hb => ?_
  · rwa [after_of_ok hb] at hlinked
  · rwa [after_of_error hb] at hlinked

end Edit

end SyntaxForest
