import SyntaxForest.Proofs.Enclosure

/-!
# The order of the grammar

A constructor lays its node out in the order of the grammar, and the setters of the node keep that
order.  So does whoever detaches or replaces a value: what may not be touched are the tokens, and
the list as a whole.  `Tended` runs are those that keep to this.  Calls that leave the child list of
the node as it is may come in between, whatever else they do.

`InOrder` is what such a run keeps: the node has its kind, its tokens are where its constructor has
put them, and all between them is under the role of its values.  A step keeps it
(`InOrder.of_tends`), hence a run (`InOrder.of_tended`), and every constructor begins with it
(`Constructs.exists_inOrder`).  `in_grammar_order` adds what can be read after a setter.
-/

namespace SyntaxForest

open Arena

namespace Edit

/-! ### Constructors -/

/-- If the edit succeeds, it returns `n`. -/
def Returns (n : NodeId) (x : Edit NodeId) : Prop := ∀ a m b, x a = .ok m b → m = n

theorem returns_pure (n : NodeId) : Returns n (pure n) := by
  intro a m b h
  cases h
  rfl

theorem Returns.bind {α : Type} {n : NodeId} {x : Edit α} {f : α → Edit NodeId}
    (hf : ∀ v, Returns n (f v)) : Returns n (x >>= f) := by
  intro a m b h
  obtain ⟨v, c, -, hrest⟩ := bind_eq_ok h
  exact hf v c m b hrest

/-- Once its node is there, the steps of a constructor end with it. -/
theorem eq_size_of_alloc_bind {k : Kind} {f : NodeId → Edit NodeId} {a b : Arena} {n : NodeId}
    (hf : Returns a.size (f a.size)) (hmade : (alloc k >>= f) a = .ok n b) : n = a.size := by
  rw [bind_of_ok (alloc_apply k a)] at hmade
  exact hf _ _ _ hmade

/-- **What a constructor returns** is its own node. -/
theorem Makes.eq_size {make : Edit NodeId} {k : Kind} {a b : Arena} {n : NodeId}
    (h : Makes make k) (hmade : make a = .ok n b) : n = a.size := by
  have hleaf : ∀ k, alloc k a = .ok n b → n = a.size := by
    intro k hmade
    cases hmade
    rfl
  cases h with
  | token t => exact hleaf _ hmade
  | identifier name => exact hleaf _ hmade
  | literal value => exact hleaf _ hmade
  | any group => exact hleaf _ hmade
  | anyOrNull group => exact hleaf _ hmade
  | backreference group => exact hleaf _ hmade
  | binary l op r =>
    exact eq_size_of_alloc_bind (.bind fun _ => .bind fun _ => .bind fun _ => .bind fun _ =>
      returns_pure _) hmade
  | named group inner => exact eq_size_of_alloc_bind (.bind fun _ => returns_pure _) hmade
  | choice alternatives =>
    exact eq_size_of_alloc_bind (.bind fun _ => .bind fun _ => returns_pure _) hmade
  | constructs h =>
    cases h with
    | goto label =>
      exact eq_size_of_alloc_bind (.bind fun _ => .bind fun _ => .bind fun _ =>
        returns_pure _) hmade
    | gotoCase expression =>
      exact eq_size_of_alloc_bind (.bind fun _ => .bind fun _ => .bind fun _ => .bind fun _ =>
        returns_pure _) hmade
    | gotoDefault =>
      exact eq_size_of_alloc_bind (.bind fun _ => .bind fun _ => .bind fun _ =>
        returns_pure _) hmade
    | label label =>
      exact eq_size_of_alloc_bind (.bind fun _ => .bind fun _ => returns_pure _) hmade
    | block => exact eq_size_of_alloc_bind (.bind fun _ => .bind fun _ => returns_pure _) hmade
    | blockOf statements =>
      unfold newBlockOf at hmade
      rw [bind_of_ok (newBlock_apply a)] at hmade
      exact Returns.bind (fun _ => .bind fun _ => returns_pure _) _ _ _ hmade
    | expression expression =>
      exact eq_size_of_alloc_bind (.bind fun _ => .bind fun _ => returns_pure _) hmade
    | identifier name =>
      exact eq_size_of_alloc_bind (.bind fun _ => .bind fun _ => returns_pure _) hmade

end Edit

namespace Call

/-- The call is a setter of `n`, which is of the kind `k`. -/
inductive Sets (n : NodeId) : Kind → Call → Prop
  | gotoLabel (label : String) : Sets n (.statement .goto) (.setGotoLabel n label)
  | label (label : String) : Sets n (.statement .label) (.setLabel n label)
  | name (name : String) : Sets n (.expression .identifier) (.setName n name)
  | labelExpression (child : Option NodeId) :
    Sets n (.statement .gotoCase) (.setLabelExpression n child)
  | expression (child : Option NodeId) : Sets n (.statement .expression) (.setExpression n child)
  | statement (c : NodeId) : Sets n (.statement .block) (.addStatement n c)

theorem Sets.apt {n : NodeId} {k : Kind} {call : Call} (h : call.Sets n k) {a : Arena}
    (hk : a.kind n = .ok k) : call.Apt a := by
  cases h with
  | name name => exact cast_eq_ok_iff.mpr ⟨_, hk, rfl⟩
  | _ => trivial

/-- The call is a setter of `n`, which is of the kind `k`, or it detaches or replaces a value of
`n`, or it leaves the child list of `n` alone. -/
inductive Tends (n : NodeId) (k : Kind) (a : Arena) : Call → Prop
  | setter {call : Call} (h : call.Sets n k) : Tends n k a call
  | detach {x : NodeId} {r : RoleId} (hr : k.layout.value = some r)
    (hx : ∃ xs, a.childrenUnder n r = .ok xs ∧ x ∈ xs) : Tends n k a (.detach x)
  | replaceWith {x : NodeId} {r : RoleId} (hr : k.layout.value = some r)
    (hx : ∃ xs, a.childrenUnder n r = .ok xs ∧ x ∈ xs) (y : NodeId) :
    Tends n k a (.replaceWith x y)
  | other {call : Call} (h : (call.after a).children n = a.children n)
    (hapt : call.Apt a := by trivial) : Tends n k a call

end Call

namespace Arena

/-- A run leads from `b` to this arena, in which the child list of `n`, which is of the kind `k`, is
touched by the setters of `n` only, and where values are detached or replaced. -/
inductive Tended (n : NodeId) (k : Kind) (b : Arena) : Arena → Prop
  | refl : Tended n k b b
  | call (call : Call) {c : Arena} (h : Tended n k b c) (hcall : call.Tends n k c) :
    Tended n k b (call.after c)
  | importFrom {c source : Arena} (h : Tended n k b c) (hsource : source.Reachable)
    (m : NodeId) : Tended n k b ((Edit.importFrom source m).after c)

/-- The node `n` is of the kind `k` and laid out accordingly. -/
structure InOrder (a : Arena) (n : NodeId) (k : Kind) (e : Enclosure) : Prop where
  wellFormed : a.WellFormed
  not_identifier : ∀ name, k ≠ .identifier name
  kind : a.kind n = .ok k
  laid : a.Laid n k.layout e

namespace InOrder

variable {a b c : Arena} {n : NodeId} {k : Kind} {e : Enclosure}

/-- A step that is refused changes nothing, so only its success has to be looked at. -/
theorem laid_after {α : Type} {x : Edit α} (h : a.InOrder n k e) (hx : Edit.Clean x)
    (hok : ∀ v b, x a = .ok v b → b.Laid n k.layout e) : (x.after a).Laid n k.layout e := by
  cases hrun : x a with
  | ok v b =>
    rw [Edit.after_of_ok hrun]
    exact hok v b hrun
  | error f b =>
    rw [Edit.after_of_error hrun, hx hrun]
    exact h.laid

/-- The setters of expressions do the same. -/
theorem slotSet_of_setExpression (h : a.InOrder n k e)
    (hk : k = .statement .gotoCase ∨ k = .statement .expression) {child v : Option NodeId}
    (hset : Edit.setExpression n child a = .ok v b) :
    b.Laid n k.layout e ∧ SlotSet a b n .expression child v := by
  refine h.laid.setExpression h.wellFormed (Kind.distinct_layout _) ?_ ?_ hset
  · rcases hk with rfl | rfl <;> rfl
  · rcases hk with rfl | rfl <;> rfl

/-- So do the setters of labels, but for the token that comes after. -/
theorem exists_setLabelBefore (h : a.InOrder n k e) {r : RoleId}
    (hk : k = .statement .goto ∧ r = .semicolon ∨ k = .statement .label ∧ r = .colon)
    (label : String) :
    ∃ b, Edit.setLabelBefore r n label a = .ok () b ∧ b.Laid n k.layout e ∧
      b.name? n = .ok (if label.isEmpty then none else some label) := by
  refine h.laid.setLabelBefore h.wellFormed (Kind.distinct_layout _) ?_ ?_ label
  · rcases hk with ⟨rfl, rfl⟩ | ⟨rfl, rfl⟩ <;> rfl
  · rcases hk with ⟨rfl, rfl⟩ | ⟨rfl, rfl⟩ <;> rfl

theorem exists_statements_of_addStatement (h : a.InOrder n (.statement .block) e) {c : NodeId}
    (hadd : Edit.addStatement n c a = .ok () b) :
    b.Laid n (Kind.statement .block).layout e ∧
      ∃ ss, a.statements n = .ok ss ∧ b.statements n = .ok (ss ++ [c]) :=
  h.laid.addStatement h.wellFormed (Kind.distinct_layout _) rfl rfl hadd

/-- The layout is all that has to be checked of a call. -/
theorem after (h : a.InOrder n k e) {call : Call} (hapt : call.Apt a)
    (hlaid : (call.after a).Laid n k.layout e) : (call.after a).InOrder n k e where
  wellFormed := Call.wellFormed_after hapt h.wellFormed
  not_identifier := h.not_identifier
  kind := Call.kind_after h.wellFormed hapt h.not_identifier h.kind
  laid := hlaid

theorem laid_after_setLabelBefore (h : a.InOrder n k e) {r : RoleId}
    (hk : k = .statement .goto ∧ r = .semicolon ∨ k = .statement .label ∧ r = .colon)
    (label : String) : ((Edit.setLabelBefore r n label).after a).Laid n k.layout e := by
  obtain ⟨b, hset, hlaid, -⟩ := h.exists_setLabelBefore hk label
  rwa [Edit.after_of_ok hset]

/-- **One setter** keeps the order. -/
theorem of_sets (h : a.InOrder n k e) {call : Call} (hcall : call.Sets n k) :
    (call.after a).InOrder n k e := by
  refine h.after (hcall.apt h.kind) ?_
  cases hcall with
  | gotoLabel label => exact h.laid_after_setLabelBefore (.inl ⟨rfl, rfl⟩) label
  | label label => exact h.laid_after_setLabelBefore (.inr ⟨rfl, rfl⟩) label
  | name name =>
    obtain ⟨b, hset, hlaid, -⟩ := h.laid.setName h.wellFormed name
    rwa [Call.after, Edit.after_of_ok hset]
  | labelExpression child =>
    exact h.laid_after (Edit.clean_setExpression n child)
      fun v b hset => (h.slotSet_of_setExpression (.inl rfl) hset).1
  | expression child =>
    exact h.laid_after (Edit.clean_setExpression n child)
      fun v b hset => (h.slotSet_of_setExpression (.inr rfl) hset).1
  | statement c =>
    exact h.laid_after (Edit.clean_addStatement n c)
      fun v b hadd => (h.exists_statements_of_addStatement hadd).1

theorem keeps_addEach (cs : List NodeId) :
    Edit.Keeps (fun a => a.InOrder n (.statement .block) e) (cs.forM (Edit.addStatement n)) :=
  Edit.keeps_forM (fun c _ h => h.of_sets (.statement c)) cs

/-- **One step** keeps the order. -/
theorem of_tends (h : a.InOrder n k e) {call : Call} (hcall : call.Tends n k a) :
    (call.after a).InOrder n k e := by
  cases hcall with
  | setter hsets => exact h.of_sets hsets
  | detach hr hx =>
    obtain ⟨xs, hxs, hx⟩ := hx
    exact h.after trivial (h.laid.detach h.wellFormed k.distinct_layout hr hxs hx)
  | replaceWith hr hx y =>
    obtain ⟨xs, hxs, hx⟩ := hx
    exact h.after trivial (h.laid.replaceWith h.wellFormed k.distinct_layout hr hxs hx y)
  | other hsame hapt =>
    obtain ⟨cs, hcs, hholds⟩ := h.laid.children
    refine h.after hapt (h.laid.of_children (fun m t => ?_) (hsame.trans hcs) hholds)
    exact Call.kind_after h.wellFormed hapt (fun name heq => by cases heq)

theorem of_isPrefix (h : a.InOrder n k e) (hw : b.WellFormed) (hab : a.IsPrefix b) :
    b.InOrder n k e := by
  have hkind : ∀ m k', a.kind m = .ok k' → b.kind m = .ok k' := by
    intro m k' hk
    rw [← shows_kind_iff] at hk ⊢
    exact hk.of_isPrefix hab
  obtain ⟨d, hd, hholds⟩ := h.laid.exists_node?
  exact ⟨hw, h.not_identifier, hkind n k h.kind,
    h.laid.of_children (fun m t => hkind m _) (children_of_node? (hab n d hd)) hholds⟩

/-- **Every run** keeps the order. -/
theorem of_tended (h : b.InOrder n k e) (hrun : b.Tended n k c) :
    c.InOrder n k e := by
  induction hrun with
  | refl => exact h
  | call call _ hcall ih => exact ih.of_tends hcall
  | importFrom _ hsource m ih =>
    exact ih.of_isPrefix (Edit.keeps_importFrom hsource.wellFormed m _ ih.wellFormed)
      (Edit.isPrefix_importFrom hsource.wellFormed m)

end InOrder

/-! ### How a node begins -/

/-- In a well-formed arena, `n` is of the kind `k` and has the given tokens for children. -/
structure Bare (a : Arena) (n : NodeId) (k : Kind) (es : ChildList) : Prop where
  wellFormed : a.WellFormed
  kind : a.kind n = .ok k
  children : a.children n = .ok es
  token : ∀ x ∈ es, ∃ t, a.kind x.node = .ok (.token t)

section Begin

variable {a : Arena} {n : Nat} {k : Kind} {es : ChildList} {l : Layout} {e : Enclosure}

theorem bare_push (hw : a.WellFormed) (k : Kind) : (a.push k).Bare a.size k [] where
  wellFormed := wellFormed_push hw k
  kind := kind_of_node? (node?_push_self a k)
  children := children_of_node? (node?_push_self a k)
  token x hx := by cases hx

/-- Kinds stay when a leaf sprouts. -/
theorem kind_sprout {m : Nat} {k k' : Kind} {r : RoleId} (hk : a.kind m = .ok k) :
    (a.sprout n r k').kind m = .ok k := by
  rw [← shows_kind_iff] at hk ⊢
  exact ((hk.push k').setChildren (apart_kind m n) _).setParent (apart_kind m n) _ _

theorem Bare.sprout (h : a.Bare n k es) (r : RoleId) (t : Token) (roles : List RoleId)
    (hadm : r.admits .token = true) (hroles : es.map (·.role) = roles) (hnew : r ∉ roles) :
    (a.sprout n r (.token t)).Bare n k (es ++ [⟨r, a.size⟩]) := by
  obtain ⟨d, hd, rfl⟩ := children_eq_ok_iff.mp h.children
  rw [← hroles] at hnew
  refine ⟨wellFormed_sprout h.wellFormed hd hadm fun _ => hnew, kind_sprout h.kind,
    children_of_node? (node?_sprout_self r _ hd), fun x hx => ?_⟩
  rcases List.mem_append.mp hx with hx | hx
  · obtain ⟨t', ht'⟩ := h.token x hx
    exact ⟨t', kind_sprout ht'⟩
  · obtain rfl := List.mem_singleton.mp hx
    exact ⟨t, kind_of_node? (node?_sprout_new r _ hd)⟩

/-- A node without values is laid out. -/
theorem Bare.laid (h : a.Bare n k e.entries) (he : e.Fits l) : a.Laid n l e where
  fits := he
  token := h.token
  children := ⟨_, h.children, [], by simp [Enclosure.entries], by simp⟩

/-- The closing token may come after the values. -/
theorem Laid.close {os : List RoleId} {value : Option RoleId}
    (h : a.Laid n ⟨os, value, none⟩ ⟨es, none⟩) (r : RoleId) (t : Token) :
    (a.sprout n r (.token t)).Laid n ⟨os, value, some r⟩ ⟨es, some ⟨r, a.size⟩⟩ := by
  obtain ⟨d, hd, vs, hvs, hrole⟩ := h.exists_node?
  have hb := node?_sprout_self r (.token t) hd
  refine ⟨⟨h.fits.opening, rfl⟩, fun x hx => ?_, _, children_of_node? hb, vs, ?_, hrole⟩
  · rcases List.mem_append.mp hx with hx | hx
    · obtain ⟨t', ht'⟩ := h.token x (List.mem_append_left _ hx)
      exact ⟨t', kind_sprout ht'⟩
    · obtain rfl := List.mem_singleton.mp hx
      exact ⟨t, kind_of_node? (node?_sprout_new r _ hd)⟩
  · simp [hvs]

/-- The constructors that end with a setter of their node. -/
theorem InOrder.of_setter {b : Arena} {m : NodeId} {x : Edit Unit} {call : Call}
    (h : a.InOrder n k e) (hcall : call.Sets n k)
    (hmade : (do x; return n : Edit NodeId) a = .ok m b) (hx : call.after a = x.after a) :
    b.InOrder m k e := by
  obtain ⟨_, b', hset, hdone⟩ := Edit.bind_eq_ok hmade
  cases hdone
  have hafter := h.of_sets hcall
  rwa [hx, Edit.after_of_ok hset] at hafter

/-- The constructors that set the expression of their node and append the semicolon. -/
theorem Bare.exists_inOrder_of_setChild {b : Arena} {m x : NodeId} {os : List RoleId}
    (h : a.Bare n k es) (hb : b.WellFormed) (hname : ∀ name, k ≠ .identifier name)
    (hlayout : k.layout = ⟨os, some .expression, some .semicolon⟩) (hes : es.map (·.role) = os)
    (hl : Layout.Distinct ⟨os, some .expression, none⟩)
    (hmade : (do
      let _ ← Edit.setChild n .expression (some x)
      Edit.appendToken n .semicolon .semicolon
      return n : Edit NodeId) a = .ok m b) :
    ∃ e, b.InOrder m k e := by
  obtain ⟨v, a₁, hset, hrest⟩ := Edit.bind_eq_ok hmade
  rw [Edit.bind_of_ok (Edit.appendToken_apply n _ _ a₁)] at hrest
  cases hrest
  have hempty : a.Laid n ⟨os, some .expression, none⟩ ⟨es, none⟩ :=
    Bare.laid (by rwa [Enclosure.entries, Option.toList_none, List.append_nil]) ⟨hes, rfl⟩
  obtain ⟨hlaid, -⟩ := hempty.setChild h.wellFormed hl rfl rfl (fun _ => .inr rfl) hset
  have hkind := Edit.kind_of_keeps
    ((Edit.linkStable_shows (apart_kind n n)).setChild trivial (some x)) hset h.kind
  refine ⟨⟨es, some ⟨.semicolon, a₁.size⟩⟩, hb, hname, kind_sprout hkind, ?_⟩
  rw [hlayout]
  exact hlaid.close .semicolon .semicolon

end Begin

end Arena

namespace Edit.Constructs

variable {make : Edit NodeId} {k : Kind} {a b : Arena} {n : NodeId}

theorem keeps_wellFormed (h : Constructs make k) : Keeps WellFormed make := by
  cases h with
  | goto label => exact keeps_newGoto label
  | gotoCase expression => exact keeps_newGotoCase expression
  | gotoDefault => exact keeps_newGotoDefault
  | label label => exact keeps_newLabel label
  | block => exact keeps_newBlock
  | blockOf statements => exact keeps_newBlockOf statements
  | expression expression => exact keeps_newExpressionStatement expression
  | identifier name => exact keeps_newIdentifierExpression name

theorem inOrder_pushBlock (hw : a.WellFormed) :
    (pushBlock a).InOrder a.size (.statement .block)
      ⟨[⟨.lbrace, a.size + 1⟩], some ⟨.rbrace, a.size + 2⟩⟩ := by
  have hbare := ((bare_push hw (.statement .block)).sprout .lbrace .lbrace [] rfl rfl
    (by decide)).sprout .rbrace .rbrace [.lbrace] rfl rfl (by decide)
  rw [size_sprout, size_push] at hbare
  exact ⟨hbare.wellFormed, by simp, hbare.kind, Bare.laid hbare ⟨rfl, rfl⟩⟩

/-- **A constructor** that succeeds has laid its node out. -/
theorem exists_inOrder (h : Constructs make k) (hw : a.WellFormed) (hmade : make a = .ok n b) :
    ∃ e, b.InOrder n k e := by
  have hb : b.WellFormed := by
    rw [← after_of_ok hmade]
    exact h.keeps_wellFormed a hw
  cases h with
  | goto label =>
    have hbare := ((bare_push hw (.statement .goto)).sprout .keyword .goto [] rfl rfl
      (by decide)).sprout .semicolon .semicolon [.keyword] rfl rfl (by decide)
    have hbegin : InOrder _ _ _ ⟨[⟨.keyword, _⟩], some ⟨.semicolon, _⟩⟩ :=
      ⟨hbare.wellFormed, by simp, hbare.kind, Bare.laid hbare ⟨rfl, rfl⟩⟩
    unfold newGoto at hmade
    rw [bind_of_ok (alloc_apply _ a), bind_of_ok (appendToken_apply _ _ _ _),
      bind_of_ok (appendToken_apply _ _ _ _)] at hmade
    exact ⟨_, hbegin.of_setter (.gotoLabel label) hmade rfl⟩
  | label label =>
    have hbare := (bare_push hw (.statement .label)).sprout .colon .colon [] rfl rfl (by decide)
    have hbegin : InOrder _ _ _ ⟨[], some ⟨.colon, _⟩⟩ :=
      ⟨hbare.wellFormed, by simp, hbare.kind, Bare.laid hbare ⟨rfl, rfl⟩⟩
    unfold newLabel at hmade
    rw [bind_of_ok (alloc_apply _ a), bind_of_ok (appendToken_apply _ _ _ _)] at hmade
    exact ⟨_, hbegin.of_setter (.label label) hmade rfl⟩
  | gotoCase expression =>
    have hbare := ((bare_push hw (.statement .gotoCase)).sprout .keyword .goto [] rfl rfl
      (by decide)).sprout .caseKeyword .case [.keyword] rfl rfl (by decide)
    unfold newGotoCase at hmade
    rw [bind_of_ok (alloc_apply _ a), bind_of_ok (appendToken_apply _ _ _ _),
      bind_of_ok (appendToken_apply _ _ _ _)] at hmade
    exact hbare.exists_inOrder_of_setChild hb (by simp) rfl rfl (by decide) hmade
  | expression expression =>
    have hbare := bare_push hw (.statement .expression)
    unfold newExpressionStatement at hmade
    rw [bind_of_ok (alloc_apply _ a)] at hmade
    exact hbare.exists_inOrder_of_setChild hb (by simp) rfl rfl (by decide) hmade
  | gotoDefault =>
    have hbare := (((bare_push hw (.statement .gotoDefault)).sprout .keyword .goto [] rfl rfl
      (by decide)).sprout .defaultKeyword .default [.keyword] rfl rfl (by decide)).sprout
      .semicolon .semicolon [.keyword, .defaultKeyword] rfl rfl (by decide)
    cases hmade
    exact ⟨⟨[⟨.keyword, _⟩, ⟨.defaultKeyword, _⟩], some ⟨.semicolon, _⟩⟩, hb, by simp, hbare.kind,
      Bare.laid hbare ⟨rfl, rfl⟩⟩
  | block =>
    cases (newBlock_apply a).symm.trans hmade
    exact ⟨_, inOrder_pushBlock hw⟩
  | blockOf statements =>
    unfold newBlockOf at hmade
    rw [bind_of_ok (newBlock_apply a)] at hmade
    obtain ⟨_, a₁, hlook, hrest⟩ := bind_eq_ok hmade
    obtain ⟨-, rfl⟩ := look_eq_ok hlook
    obtain ⟨_, b', hadded, hdone⟩ := bind_eq_ok hrest
    cases hdone
    have hafter := InOrder.keeps_addEach statements _ (inOrder_pushBlock hw)
    rw [after_of_ok hadded] at hafter
    exact ⟨_, hafter⟩
  | identifier name =>
    cases hmade
    have hnode := node?_sprout_self .identifier (.identifier name)
      (node?_push_self a (.expression .identifier))
    refine ⟨⟨[], none⟩, hb, by simp, kind_of_node? hnode, ⟨rfl, rfl⟩, by simp [Enclosure.entries],
      _, children_of_node? hnode, [⟨.identifier, _⟩], rfl, ?_⟩
    intro x hx
    obtain rfl := List.mem_singleton.mp hx
    rfl

end Edit.Constructs

namespace Call

/-- The setters of a node write links at it. -/
theorem Sets.keeps {n : NodeId} {k : Kind} {call : Call} (h : call.Sets n k) {I : Arena → Prop}
    (hI : Edit.LinkStable (fun _ => True) n I) {a : Arena} (ha : I a) : I (call.after a) := by
  cases h with
  | gotoLabel label => exact hI.setLabelBefore trivial .semicolon label a ha
  | label label => exact hI.setLabelBefore trivial .colon label a ha
  | name name => exact hI.setIdentifier trivial name none a ha
  | labelExpression child => exact hI.setExpression trivial child a ha
  | expression child => exact hI.setExpression trivial child a ha
  | statement c => exact hI.addStatement trivial c a ha

/-- The setters of a node leave the child lists of the others alone. -/
theorem Sets.children_after {n m : NodeId} {k : Kind} {call : Call} (h : call.Sets n k)
    (hm : m ≠ n) {a : Arena} {cs : ChildList} (hcs : a.children m = .ok cs) :
    (call.after a).children m = .ok cs := by
  rw [← shows_children_iff] at hcs ⊢
  exact h.keeps (Edit.linkStable_shows (apart_children (Ne.symm hm))) hcs

end Call

namespace Arena

/-- What the setters of `n`, which is of the kind `k`, have set can be read.  Those that take a text
do not fail. -/
structure ReadsBack (a : Arena) (n : NodeId) (k : Kind) : Prop where
  gotoLabel : k = .statement .goto → ∀ label : String, ∃ b,
    Edit.setGotoLabel n label a = .ok () b ∧
      b.name? n = .ok (if label.isEmpty then none else some label)
  label : k = .statement .label → ∀ label : String, ∃ b,
    Edit.setLabel n label a = .ok () b ∧
      b.name? n = .ok (if label.isEmpty then none else some label)
  name : k = .expression .identifier → ∀ name : String, ∃ b,
    Edit.setName n name a = .ok () b ∧ b.name? n = .ok (if name.isEmpty then none else some name)
  /-- What is returned was there before and is there no longer. -/
  labelExpression : k = .statement .gotoCase → ∀ child displaced b,
    Edit.setLabelExpression n child a = .ok displaced b → b.expression? n = .ok child ∧
      ∃ old, a.expression? n = .ok old ∧ displaced = if old = child then none else old
  expression : k = .statement .expression → ∀ child displaced b,
    Edit.setExpression n child a = .ok displaced b → b.expression? n = .ok child ∧
      ∃ old, a.expression? n = .ok old ∧ displaced = if old = child then none else old
  statement : k = .statement .block → ∀ c b, Edit.addStatement n c a = .ok () b →
    ∃ ss, a.statements n = .ok ss ∧ b.statements n = .ok (ss ++ [c])
  /-- No other child list changes. -/
  elsewhere : ∀ call : Call, call.Sets n k → ∀ m ≠ n, ∀ cs, a.children m = .ok cs →
    (call.after a).children m = .ok cs

theorem InOrder.readsBack {a : Arena} {n : NodeId} {k : Kind} {e : Enclosure}
    (h : a.InOrder n k e) : a.ReadsBack n k where
  gotoLabel hk label := by
    obtain ⟨b, hset, -, hname⟩ := h.exists_setLabelBefore (.inl ⟨hk, rfl⟩) label
    exact ⟨b, hset, hname⟩
  label hk label := by
    obtain ⟨b, hset, -, hname⟩ := h.exists_setLabelBefore (.inr ⟨hk, rfl⟩) label
    exact ⟨b, hset, hname⟩
  name hk name := by
    subst hk
    obtain ⟨b, hset, -, hname⟩ := h.laid.setName h.wellFormed name
    exact ⟨b, hset, hname⟩
  labelExpression hk child displaced b hset := by
    obtain ⟨-, hreads, hdisplaced⟩ := h.slotSet_of_setExpression (.inl hk) hset
    exact ⟨hreads, hdisplaced⟩
  expression hk child displaced b hset := by
    obtain ⟨-, hreads, hdisplaced⟩ := h.slotSet_of_setExpression (.inr hk) hset
    exact ⟨hreads, hdisplaced⟩
  statement hk c b hadd := by
    subst hk
    exact (h.exists_statements_of_addStatement hadd).2
  elsewhere call hcall m hm cs hcs := hcall.children_after hm hcs

/-- **The order of the grammar**: whatever the setters of a node were called with, and whatever has
become of its values, its children are its values between the tokens that its constructor has given
it, in the order of the grammar of its kind; and what is set can be read. -/
theorem in_grammar_order {make : Edit NodeId} {k : Kind} {a b : Arena} {n : NodeId}
    (ha : a.Reachable) (hmake : Edit.Constructs make k) (hmade : make a = .ok n b) :
    ∃ e : Enclosure, ∀ c, b.Tended n k c →
      c.kind n = .ok k ∧
      (∃ cs, c.children n = .ok cs ∧ e.Holds k.layout.value cs ∧
        k.layout.Reads (cs.map (·.role))) ∧
      (∀ x ∈ e.entries, ∃ t, c.kind x.node = .ok (.token t)) ∧
      c.ReadsBack n k := by
  obtain ⟨e, hbegin⟩ := hmake.exists_inOrder ha.wellFormed hmade
  refine ⟨e, fun c hrun => ?_⟩
  have h := hbegin.of_tended hrun
  obtain ⟨cs, hcs, hholds⟩ := h.laid.children
  obtain ⟨cs', hcs', hreads⟩ := h.laid.exists_reads h.wellFormed
  cases hcs.symm.trans hcs'
  exact ⟨h.kind, ⟨cs, hcs, hholds, hreads⟩, h.laid.token, h.readsBack⟩

/-- The label of a goto is replaced by a placeholder, the slot is emptied, a block refuses to hold
itself, and the slot is filled again. -/
theorem in_grammar_order_refilled :
    let goto := (Call.newGoto "a").after .empty
    let replaced := (Call.replaceWith 3 4).after ((Call.newAny none).after goto)
    let emptied := (Call.newBlock).after ((Call.setGotoLabel 0 "").after replaced)
    let refilled := (Call.setGotoLabel 0 "b").after ((Call.addStatement 5 5).after emptied)
    replaced.children 0 = .ok [⟨.keyword, 1⟩, ⟨.identifier, 4⟩, ⟨.semicolon, 2⟩] ∧
      emptied.name? 0 = .ok none ∧ (Call.addStatement 5 5).fault? emptied = some (.cycle 5 5) ∧
      (∃ cs, refilled.children 0 = .ok cs ∧
        (Kind.statement .goto).layout.Reads (cs.map (·.role))) ∧
      refilled.name? 0 = .ok (some "b") := by
  intro goto replaced emptied refilled
  have hmade : Edit.newGoto "a" .empty = .ok 0 goto := rfl
  obtain ⟨e, h⟩ := in_grammar_order .empty (.goto "a") hmade
  have hany : ((Call.newAny none).after goto).children 0 = goto.children 0 := by decide +kernel
  have hlabel : ∃ xs, ((Call.newAny none).after goto).childrenUnder 0 .identifier = .ok xs ∧
      3 ∈ xs := ⟨[3], by decide +kernel, List.mem_cons_self⟩
  have hblock : emptied.children 0 = ((Call.setGotoLabel 0 "").after replaced).children 0 := by
    decide +kernel
  have hrefused : ((Call.addStatement 5 5).after emptied).children 0 = emptied.children 0 := by
    decide +kernel
  have hreplaced : goto.Tended 0 (.statement .goto) replaced :=
    .call (.replaceWith 3 4) (.call (.newAny none) .refl (.other hany)) (.replaceWith rfl hlabel 4)
  have hemptied : goto.Tended 0 (.statement .goto) emptied :=
    .call .newBlock (.call (.setGotoLabel 0 "") hreplaced (.setter (.gotoLabel ""))) (.other hblock)
  obtain ⟨-, ⟨cs, hcs, -, hreads⟩, -⟩ := h refilled
    (.call (.setGotoLabel 0 "b") (.call (.addStatement 5 5) hemptied (.other hrefused))
      (.setter (.gotoLabel "b")))
  exact ⟨by decide +kernel, by decide +kernel, by decide +kernel, ⟨cs, hcs, hreads⟩,
    by decide +kernel⟩

end Arena

end SyntaxForest
