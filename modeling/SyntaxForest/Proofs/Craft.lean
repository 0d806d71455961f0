import SyntaxForest.Proofs.Adoption
import SyntaxForest.Proofs.GrammarOrder
import SyntaxForest.Proofs.Readability

/-!
# Nodes that were made by hand

Constructors and the setters that know the grammar make and keep nodes whose children are in the
order of the grammar of their kinds (`Kind.grammar`), with tokens where the grammar has tokens, and
with the token of its operator in every binary expression: such a node is `Regular`.  Other edits
can make other nodes.  So can a constructor that fails.

`Crafted a made` is a run of calls that keeps account of the nodes that are made in the first way.
A constructor that succeeds adds what it allocates, and so does a setter; any other call, and any
call that fails, strikes the nodes off that it changes.  The nodes that are left are regular
(`Crafted.regular`).

One step of the first way is at one node, the one that is made or set.  It leaves the kinds and the
child lists of all others alone, and what it allocates besides are tokens and identifiers without
children (`Sown`).
-/

namespace SyntaxForest

open Arena

/-! ### Grammar -/

namespace Kind

/-- The grammar of all kinds. -/
def grammar : Kind → Layout
  | expression (.binary _) => ⟨[.left, .operator, .right], none, none⟩
  | pattern (.named _) => ⟨[], some .patternChild, none⟩
  | pattern .choice => ⟨[], some .alternative, none⟩
  | k => k.layout

theorem isGrammar_grammar : IsGrammar grammar where
  congr k l h := by
    rcases eq_or_binary_of_withoutOperator h with rfl | ⟨op, op', rfl, rfl⟩
    · rfl
    · rfl
  leaf k hk := by
    cases k with
    | token t => rfl
    | identifier name => rfl
    | _ => exact absurd rfl hk

/-- Values are not tokens. -/
theorem accepts_value_grammar {k : Kind} {r : RoleId} (h : k.grammar.value = some r) :
    r.accepts ≠ some .token := by
  cases k with
  | token t => cases h
  | identifier name => cases h
  | expression shape =>
    cases shape <;> cases h
    decide
  | statement shape => cases shape <;> cases h <;> decide
  | pattern p => cases p <;> cases h <;> decide

/-- What encloses the values of a node is tokens. -/
theorem accepts_of_mem_layout {k : Kind} :
    ∀ r ∈ k.layout.opening ++ k.layout.closing.toList, r.accepts = some .token := by
  cases k with
  | token t => simp [layout]
  | identifier name => simp [layout]
  | expression shape => cases shape <;> simp [layout]
  | statement shape => cases shape <;> decide
  | pattern p => simp [layout]

end Kind

/-! ### Regular nodes -/

namespace Arena

/-- The children of the record are in the order of the grammar of its kind, with tokens where the
grammar has tokens. -/
structure Follows (a : Arena) (d : Node) : Prop where
  orders : d.kind.grammar.Orders (d.children.map (·.role))
  token : ∀ c ∈ d.children, c.role.accepts = some .token → ∃ t, a.kind c.node = .ok (.token t)
  /-- The token of a binary expression is the one for its operator. -/
  operator : ∀ op, d.kind = .expression (.binary op) → ∀ c ∈ d.children, c.role = .operator →
    a.kind c.node = .ok (.token (.operator op))

/-- The node is there, and its children follow the grammar. -/
def Regular (a : Arena) (m : NodeId) : Prop := ∃ d, a.node? m = some d ∧ a.Follows d

variable {a b : Arena} {d e : Node} {k : Kind} {m n : Nat}

/-- Tokens stay tokens, so only kind and children count. -/
theorem Follows.mono (h : a.Follows d)
    (htoken : ∀ c t, a.kind c = .ok (.token t) → b.kind c = .ok (.token t))
    (hkind : e.kind = d.kind) (hchildren : e.children = d.children) : b.Follows e where
  orders := by
    rw [hkind, hchildren]
    exact h.orders
  token c hc haccepts := by
    obtain ⟨t, ht⟩ := h.token c (hchildren ▸ hc) haccepts
    exact ⟨t, htoken _ t ht⟩
  operator op hop c hc hrole :=
    htoken _ _ (h.operator op (hkind ▸ hop) c (hchildren ▸ hc) hrole)

/-- Where the grammar has values only, there need not be any. -/
theorem follows_of_childless (a : Arena) (hopening : d.kind.grammar.opening = [])
    (hclosing : d.kind.grammar.closing = none) (hchildren : d.children = []) : a.Follows d where
  orders := ⟨[], by rw [hopening, hclosing, hchildren]; rfl, by simp⟩
  token c hc := by simp [hchildren] at hc
  operator op _ c hc := by simp [hchildren] at hc

/-- Nodes without parentheses have no children. -/
theorem follows_iff_of_leaf (a : Arena) (hleaf : d.kind.leafText? ≠ none) :
    a.Follows d ↔ d.children = [] := by
  have hgrammar := Kind.isGrammar_grammar.leaf d.kind hleaf
  constructor
  · intro h
    have hroles := h.orders
    rw [hgrammar] at hroles
    exact List.map_eq_nil_iff.mp hroles.eq_nil
  · exact follows_of_childless a (by rw [hgrammar]) (by rw [hgrammar])

/-- What is laid out is regular, binary expressions apart. -/
theorem Laid.regular {e : Enclosure} (h : a.Laid n k.grammar e) (hk : a.kind n = .ok k)
    (hop : ∀ op, k ≠ .expression (.binary op)) : a.Regular n := by
  obtain ⟨d, hd, vs, hvs, hrole⟩ := h.exists_node?
  obtain ⟨d', hd', rfl⟩ := kind_eq_ok_iff.mp hk
  obtain rfl : d = d' := Option.some.inj (hd.symm.trans hd')
  refine ⟨d, hd, ⟨vs.map (·.role), ?_, ?_⟩, fun c hc haccepts => ?_,
    fun op heq => absurd heq (hop op)⟩
  · rw [hvs, List.map_append, List.map_append, h.fits.opening, ← h.fits.closing, Option.toList_map]
  · intro r hr
    obtain ⟨x, hx, rfl⟩ := List.mem_map.mp hr
    exact hrole x hx
  · rw [hvs, List.append_assoc, List.mem_append, List.mem_append] at hc
    rcases hc with hc | hc | hc
    · exact h.token c (List.mem_append_left _ hc)
    · exact absurd haccepts (Kind.accepts_value_grammar (hrole c hc))
    · exact h.token c (List.mem_append_right _ hc)

/-- What is regular is laid out, if its kind is one of those with setters. -/
theorem Regular.exists_laid (h : a.Regular n) (hk : a.kind n = .ok k)
    (hgrammar : k.grammar = k.layout) : ∃ e, a.Laid n k.layout e := by
  obtain ⟨d, hd, hfollows⟩ := h
  obtain ⟨d', hd', rfl⟩ := kind_eq_ok_iff.mp hk
  obtain rfl : d = d' := Option.some.inj (hd.symm.trans hd')
  obtain ⟨values, hroles, hvalues⟩ := hfollows.orders
  rw [hgrammar] at hroles hvalues
  -- the list of children is taken apart as the list of roles is
  obtain ⟨front, cs, hfront, hfirst, hcs⟩ := List.map_eq_append_iff.mp hroles
  obtain ⟨os, vs, rfl, hos, hvs⟩ := List.map_eq_append_iff.mp hfirst
  have hclosing : ∃ x : Option Child, cs = x.toList ∧ x.map (·.role) = d.kind.layout.closing := by
    cases hclose : d.kind.layout.closing with
    | none =>
      rw [hclose, Option.toList_none, List.map_eq_nil_iff] at hcs
      exact ⟨none, hcs, rfl⟩
    | some r =>
      rw [hclose, Option.toList_some, List.map_eq_singleton_iff] at hcs
      obtain ⟨x, rfl, rfl⟩ := hcs
      exact ⟨some x, rfl, rfl⟩
  obtain ⟨closing, rfl, hclosing⟩ := hclosing
  have hmem : ∀ x ∈ os ++ closing.toList, x ∈ d.children ∧
      x.role ∈ d.kind.layout.opening ++ d.kind.layout.closing.toList := by
    intro x hx
    refine ⟨?_, ?_⟩
    · rw [hfront]
      simp only [List.mem_append] at hx ⊢
      tauto
    · rw [← hos, ← hcs, ← List.map_append]
      exact List.mem_map_of_mem hx
  refine ⟨⟨os, closing⟩, ⟨hos, hclosing⟩, fun x hx => ?_, d.children, children_of_node? hd, vs,
    hfront, fun x hx => ?_⟩
  · obtain ⟨hchild, hrole⟩ := hmem x hx
    exact hfollows.token x hchild (Kind.accepts_of_mem_layout _ hrole)
  · exact hvalues _ (by rw [← hvs]; exact List.mem_map_of_mem hx)

/-! ### What is sown around a node -/

/-- Apart from `n`, the records are what they were in `a`, parents aside, or they are new tokens and
identifiers. -/
def Sown (a : Arena) (n : NodeId) (b : Arena) : Prop :=
  ∀ m d, m ≠ n → b.node? m = some d →
    (∃ e, a.node? m = some e ∧ d.kind = e.kind ∧ d.children = e.children) ∨
      d.kind.leafText? ≠ none ∧ d.children = []

theorem sown_refl (a : Arena) (n : NodeId) : Sown a n a :=
  fun _ d _ hd => .inl ⟨d, hd, rfl, rfl⟩

theorem sown_push (a : Arena) (k : Kind) : Sown a a.size (a.push k) := by
  intro m d hm hd
  rw [node?_push_of_ne a k hm] at hd
  exact .inl ⟨d, hd, rfl, rfl⟩

theorem Sown.push_leaf (h : Sown a n b) (hleaf : k.leafText? ≠ none) : Sown a n (b.push k) := by
  intro m d hm hd
  rw [node?_push] at hd
  split_ifs at hd with hnew
  · cases hd
    exact .inr ⟨hleaf, rfl⟩
  · exact h m d hm hd

theorem linkStable_sown (a : Arena) (n : NodeId) :
    Edit.LinkStable (fun _ => True) n (Sown a n) where
  pushToken b t h := h.push_leaf (by simp [Kind.leafText?])
  pushIdentifier b name h := h.push_leaf (by simp [Kind.leafText?])
  setParent b c p h := by
    intro m d hm hd
    rw [node?_setParent] at hd
    split_ifs at hd
    · obtain ⟨e, he, rfl⟩ := Option.map_eq_some_iff.mp hd
      exact h m e hm he
    · exact h m d hm hd
  setChildren b g _ h := by
    intro m d hm hd
    rw [node?_setChildren, if_neg (Ne.symm hm)] at hd
    exact h m d hm hd

/-- The nodes around `n` are regular: the old ones if they were, the new ones in any case. -/
theorem Sown.regular (h : Sown a n b) (hne : m ≠ n) (hm : m < b.size)
    (htoken : ∀ c t, a.kind c = .ok (.token t) → b.kind c = .ok (.token t))
    (hold : m < a.size → a.Regular m) : b.Regular m := by
  obtain ⟨d, hd⟩ := exists_node?_of_lt hm
  refine ⟨d, hd, ?_⟩
  rcases h m d hne hd with ⟨e, he, hkind, hchildren⟩ | ⟨hleaf, hchildren⟩
  · obtain ⟨e', he', hfollows⟩ := hold (lt_size_of_node? he)
    obtain rfl := Option.some.inj (he.symm.trans he')
    exact hfollows.mono htoken hkind hchildren
  · exact (follows_iff_of_leaf b hleaf).mpr hchildren

end Arena

/-! ### Constructors -/

namespace Edit

variable {a : Arena} {k : Kind}

theorem Constructs.regular {make : Edit NodeId} (h : Constructs make k) (hw : a.WellFormed)
    (hok : make.fault? a = none) : (make.after a).Regular a.size := by
  obtain ⟨n, hmade⟩ := exists_eq_ok_of_fault? hok
  obtain rfl := (Makes.constructs h).eq_size hmade
  obtain ⟨e, horder⟩ := h.exists_inOrder hw hmade
  have hgrammar : k.grammar = k.layout ∧ ∀ op, k ≠ .expression (.binary op) := by
    cases h <;> exact ⟨rfl, by simp⟩
  refine Laid.regular (e := e) ?_ horder.kind hgrammar.2
  rw [hgrammar.1]
  exact horder.laid

theorem regular_alloc (hopening : k.grammar.opening = []) (hclosing : k.grammar.closing = none) :
    ((alloc k).after a).Regular a.size :=
  ⟨_, node?_push_self a k, follows_of_childless _ hopening hclosing rfl⟩

/-- What is checked for a new root was there before. -/
theorem lt_size_of_checkAttachAll {entries : ChildList}
    (h : (a.push k).checkAttachAll a.size entries = .ok ()) : ∀ x ∈ entries, x.node < a.size := by
  intro x hx
  have hx := (attachable_of_checkAttachAll h).1 x hx
  obtain ⟨d, hd, -⟩ := hx.root
  have hlt := lt_size_of_node? hd
  rw [size_push] at hlt
  exact Nat.lt_of_le_of_ne (Nat.le_of_lt_succ hlt) hx.ne

theorem regular_newBinary {l r : NodeId} {op : Operator}
    (hok : (newBinary l op r).fault? a = none) : ((newBinary l op r).after a).Regular a.size := by
  obtain ⟨n, hmade⟩ := exists_eq_ok_of_fault? hok
  -- the check of the operands comes first, so they were there
  have hlt : l < a.size ∧ r < a.size := by
    unfold newBinary at hmade
    rw [bind_of_ok (alloc_apply _ a)] at hmade
    obtain ⟨_, b, hlook, -⟩ := bind_eq_ok hmade
    have hlt := lt_size_of_checkAttachAll (look_eq_ok hlook).1
    exact ⟨hlt ⟨.left, l⟩ (by simp), hlt ⟨.right, r⟩ (by simp)⟩
  have hadopts := adopts_newBinary hlt.1 hlt.2 op
  obtain ⟨b, hb, hraised⟩ := hadopts.raised (hadopts.succeeds_iff.mp hok)
  have htoken : b.kind (a.size + 1) = .ok (.token (.operator op)) :=
    kind_of_node? (hraised.token 0 (.operator op) rfl)
  rw [after_of_ok hb]
  refine ⟨_, hraised.root, ⟨[], rfl, by simp⟩, ?_, ?_⟩
  · intro c hc haccepts
    simp only [List.mem_cons, List.not_mem_nil, or_false] at hc
    rcases hc with rfl | rfl | rfl
    · cases haccepts
    · exact ⟨_, htoken⟩
    · cases haccepts
  · intro op' hop c hc hrole
    cases hop
    simp only [List.mem_cons, List.not_mem_nil, or_false] at hc
    rcases hc with rfl | rfl | rfl
    · cases hrole
    · exact htoken
    · cases hrole

theorem regular_newChoice {cs : List NodeId} (hok : (newChoice cs).fault? a = none) :
    ((newChoice cs).after a).Regular a.size := by
  obtain ⟨n, hmade⟩ := exists_eq_ok_of_fault? hok
  have hlt : ∀ c ∈ cs, c < a.size := by
    unfold newChoice at hmade
    rw [bind_of_ok (alloc_apply _ a)] at hmade
    obtain ⟨_, b, hlook, -⟩ := bind_eq_ok hmade
    intro c hc
    exact lt_size_of_checkAttachAll (look_eq_ok hlook).1 ⟨.alternative, c⟩ (List.mem_map_of_mem hc)
  have hadopts := adopts_newChoice hlt
  obtain ⟨b, hb, hraised⟩ := hadopts.raised (hadopts.succeeds_iff.mp hok)
  have hrole : ∀ c ∈ cs.map (Child.mk .alternative), c.role = .alternative := by simp
  rw [after_of_ok hb]
  refine ⟨_, hraised.root, ⟨(cs.map (Child.mk .alternative)).map (·.role), ?_, ?_⟩, ?_, ?_⟩
  · exact (List.append_nil _).symm
  · intro r hr
    obtain ⟨c, hc, rfl⟩ := List.mem_map.mp hr
    exact congrArg some (hrole c hc).symm
  · intro c hc haccepts
    rw [hrole c hc] at haccepts
    cases haccepts
  · intro op hop
    cases hop

theorem regular_newNamed {group : String} {inner : NodeId} (hw : a.WellFormed)
    (hok : (newNamed group inner).fault? a = none) :
    ((newNamed group inner).after a).Regular a.size := by
  obtain ⟨n, hmade⟩ := exists_eq_ok_of_fault? hok
  have hbare := bare_push hw (.pattern (.named group))
  have hempty : (a.push (.pattern (.named group))).Laid a.size ⟨[], some .patternChild, none⟩
      ⟨[], none⟩ := Bare.laid hbare ⟨rfl, rfl⟩
  unfold newNamed at hmade
  rw [bind_of_ok (alloc_apply _ a)] at hmade
  obtain ⟨v, b, hset, hdone⟩ := bind_eq_ok hmade
  obtain ⟨hlaid, -⟩ := hempty.setChild hbare.wellFormed (by decide) rfl rfl (fun _ => .inr rfl) hset
  have hkind := kind_of_keeps
    ((linkStable_shows (apart_kind a.size a.size)).setChild trivial (some inner)) hset hbare.kind
  have hb : b = (newNamed group inner).after a := by
    cases hdone
    rfl
  rw [← hb]
  exact Laid.regular (k := .pattern (.named group)) hlaid hkind (by simp)

theorem Makes.regular {make : Edit NodeId} (h : Makes make k) (hw : a.WellFormed)
    (hok : make.fault? a = none) : (make.after a).Regular a.size := by
  cases h with
  | constructs h => exact h.regular hw hok
  | token t => exact regular_alloc rfl rfl
  | identifier name => exact regular_alloc rfl rfl
  | literal value => exact regular_alloc rfl rfl
  | binary l op r => exact regular_newBinary hok
  | any group => exact regular_alloc rfl rfl
  | anyOrNull group => exact regular_alloc rfl rfl
  | backreference group => exact regular_alloc rfl rfl
  | named group inner => exact regular_newNamed hw hok
  | choice alternatives => exact regular_newChoice hok

end Edit

/-! ### Calls that know the grammar -/

namespace Call

open Arena Edit

/-- The call is a constructor, or a setter that is given a handle on a node it is for.  The other
calls take any kind, role or place. -/
def isTyped : Call → Arena → Bool
  | alloc _, _ | setChild .., _ | addChild .., _ | insertChildBefore .., _ | detach _, _
  | replaceWith .., _ | cloneSubtree _, _ => false
  | setGotoLabel n _, a => a.cast .gotoStatement n = .ok (some n)
  | setLabel n _, a => a.cast .labelStatement n = .ok (some n)
  | setName n _, a => a.cast .identifierExpression n = .ok (some n)
  | rename n _, a => a.cast .identifier n = .ok (some n)
  | setLabelExpression n _, a => a.cast .gotoCaseStatement n = .ok (some n)
  | setExpression n _, a => a.cast .expressionStatement n = .ok (some n)
  | addStatement n _, a => a.cast .blockStatement n = .ok (some n)
  | _, _ => true

/-- The view of a statement or of an identifier expression fits no other kind. -/
theorem eq_of_fits_handler {k k' : Kind}
    (hk : (∃ shape, k = .statement shape) ∨ k = .expression .identifier)
    (h : k.handler.view.fits k' = true) : k' = k := by
  rcases hk with ⟨shape, rfl⟩ | rfl
  · cases k' with
    | statement shape' => cases shape <;> cases shape' <;> first | rfl | cases h
    | _ => cases shape <;> cases h
  · cases k' with
    | expression shape' => cases shape' <;> first | rfl | cases h
    | _ => cases h

theorem kind_of_cast {a : Arena} {n : Nat} (k : Kind)
    (hk : (∃ shape, k = .statement shape) ∨ k = .expression .identifier)
    (h : decide (a.cast k.handler.view n = .ok (some n)) = true) : a.kind n = .ok k := by
  obtain ⟨k', hk', hfits⟩ := cast_eq_ok_iff.mp (of_decide_eq_true h)
  rw [hk', eq_of_fits_handler hk hfits]

theorem cases_of_isTyped {call : Call} {a : Arena} (h : call.isTyped a = true) :
    (∃ k, call.root? = some k) ∨ (∃ n k, call.Sets n k ∧ a.kind n = .ok k) ∨
      ∃ n name, call = rename n name := by
  have hsets : ∀ {n k}, call.Sets n k → a.kind n = .ok k →
      (∃ k, call.root? = some k) ∨ (∃ n k, call.Sets n k ∧ a.kind n = .ok k) ∨
        ∃ n name, call = rename n name :=
    fun hsets hk => .inr (.inl ⟨_, _, hsets, hk⟩)
  cases call with
  | setGotoLabel n label =>
    exact hsets (.gotoLabel label) (kind_of_cast (.statement .goto) (.inl ⟨_, rfl⟩) h)
  | setLabel n label =>
    exact hsets (.label label) (kind_of_cast (.statement .label) (.inl ⟨_, rfl⟩) h)
  | setName n name =>
    exact hsets (.name name) (kind_of_cast (.expression .identifier) (.inr rfl) h)
  | rename n name => exact .inr (.inr ⟨n, name, rfl⟩)
  | setLabelExpression n child =>
    exact hsets (.labelExpression child) (kind_of_cast (.statement .gotoCase) (.inl ⟨_, rfl⟩) h)
  | setExpression n child =>
    exact hsets (.expression child) (kind_of_cast (.statement .expression) (.inl ⟨_, rfl⟩) h)
  | addStatement n c =>
    exact hsets (.statement c) (kind_of_cast (.statement .block) (.inl ⟨_, rfl⟩) h)
  | alloc k => cases h
  | setChild n r child => cases h
  | addChild n r c => cases h
  | insertChildBefore n anchor r c => cases h
  | detach n => cases h
  | replaceWith x y => cases h
  | cloneSubtree n => cases h
  | _ => exact .inl ⟨_, rfl⟩

theorem apt_of_isTyped {call : Call} {a : Arena} (h : call.isTyped a = true) : call.Apt a := by
  cases call with
  | setName n name =>
    have hcast : a.cast .identifierExpression n = .ok (some n) := of_decide_eq_true h
    exact hcast
  | rename n name =>
    have hcast : a.cast .identifier n = .ok (some n) := of_decide_eq_true h
    exact hcast
  | _ => trivial

variable {call : Call} {a : Arena} {n : Nat} {k : Kind}

/-- **A constructor** that succeeds makes a regular node. -/
theorem regular_root (htyped : call.isTyped a = true) (hroot : call.root? = some k)
    (hw : a.WellFormed) (hok : call.fault? a = none) : (call.after a).Regular a.size := by
  have halloc : ∀ k, call ≠ .alloc k := by
    rintro k rfl
    cases htyped
  obtain ⟨make, hmakes, hmake⟩ := exists_makes hroot halloc
  rw [(hmake a).2] at hok
  rw [(hmake a).1]
  exact hmakes.regular hw hok

/-- The kinds of nodes that have setters are laid out as the grammar says. -/
theorem Sets.grammar_eq (hsets : call.Sets n k) :
    k.grammar = k.layout ∧ (∀ op, k ≠ .expression (.binary op)) ∧
      ∀ name, k ≠ .identifier name := by
  cases hsets <;> exact ⟨rfl, by simp, by simp⟩

/-- **A setter** keeps its node regular. -/
theorem Sets.regular_self (hsets : call.Sets n k) (hw : a.WellFormed) (hk : a.kind n = .ok k)
    (hn : a.Regular n) : (call.after a).Regular n := by
  obtain ⟨hgrammar, hop, hname⟩ := hsets.grammar_eq
  obtain ⟨e, hlaid⟩ := hn.exists_laid hk hgrammar
  have hafter := InOrder.of_sets ⟨hw, hname, hk, hlaid⟩ hsets
  refine Laid.regular (e := e) ?_ hafter.kind hop
  rw [hgrammar]
  exact hafter.laid

theorem token_after (hw : a.WellFormed) (hapt : call.Apt a) (c : NodeId) (t : Token)
    (h : a.kind c = .ok (.token t)) : (call.after a).kind c = .ok (.token t) :=
  kind_after hw hapt (by simp) h

/-- A new name makes no difference. -/
theorem regular_rename {m : Nat} {name : String} (hw : a.WellFormed)
    (hapt : (rename n name).Apt a) (hm : a.Regular m) : ((rename n name).after a).Regular m := by
  obtain ⟨d, hd, hfollows⟩ := hm
  rcases after_rename n name a with hsame | hnew
  · rw [after, hsame]
    exact ⟨d, hd, hfollows⟩
  · have htoken := token_after hw hapt
    rw [after, hnew] at htoken ⊢
    by_cases hmn : n = m
    · subst hmn
      -- an identifier that is regular has no children, whatever its name
      obtain ⟨k, hk, hfits⟩ := cast_eq_ok_iff.mp hapt
      obtain ⟨d', hd', hkind⟩ := kind_eq_ok_iff.mp hk
      obtain rfl := Option.some.inj (hd.symm.trans hd')
      obtain ⟨old, rfl⟩ := View.exists_of_fits_identifier hfits
      have hchildren : d.children = [] :=
        (follows_iff_of_leaf a (by simp [hkind, Kind.leafText?])).mp hfollows
      refine ⟨{ d with kind := .identifier name }, by rw [node?_setKind, if_pos rfl, hd]; rfl, ?_⟩
      exact (follows_iff_of_leaf _ (by simp [Kind.leafText?])).mpr hchildren
    · exact ⟨d, by rw [node?_setKind, if_neg hmn, hd], hfollows.mono htoken rfl rfl⟩

/-- **One call** that knows the grammar keeps regular nodes regular, and what it adds is regular. -/
theorem regular_after {m : Nat} (htyped : call.isTyped a = true) (hw : a.WellFormed)
    (hok : call.fault? a = none) (hm : m < (call.after a).size)
    (hold : m < a.size → a.Regular m) : (call.after a).Regular m := by
  have hapt := apt_of_isTyped htyped
  have htoken := token_after hw hapt
  rcases cases_of_isTyped htyped with ⟨k, hroot⟩ | ⟨n, k, hsets, hk⟩ | ⟨n, name, rfl⟩
  · by_cases hself : m = a.size
    · rw [hself]
      exact regular_root htyped hroot hw hok
    · have hsown := raises hroot (linkStable_sown a a.size) (fun _ _ => trivial) (sown_push a k)
      exact hsown.regular hself hm htoken hold
  · by_cases hself : m = n
    · subst hself
      obtain ⟨d, hd, -⟩ := kind_eq_ok_iff.mp hk
      exact hsets.regular_self hw hk (hold (lt_size_of_node? hd))
    · exact (hsets.keeps (linkStable_sown a n) (sown_refl a n)).regular hself hm htoken hold
  · have hsize : ((rename n name).after a).size = a.size := by
      rcases after_rename n name a with hsame | hnew
      · rw [after, hsame]
      · rw [after, hnew, size_setKind]
    exact regular_rename hw hapt (hold (hsize ▸ hm))

/-- The arena after the calls. -/
def afterAll (calls : List Call) (a : Arena) : Arena := calls.foldl (fun b call => call.after b) a

/-- The calls know the grammar, and all of them succeed. -/
def allSucceed : List Call → Arena → Bool
  | [], _ => true
  | call :: calls, a => call.isTyped a && (call.fault? a).isNone && allSucceed calls (call.after a)

end Call

/-! ### Runs that keep account -/

namespace Arena

/-- A run leads to this arena, in which the nodes `made` were made by constructors that succeeded,
and changed by setters that succeeded, if at all. -/
inductive Crafted : Arena → (NodeId → Prop) → Prop
  | empty : Crafted .empty fun _ => False
  | typed {a : Arena} {made : NodeId → Prop} (h : Crafted a made) (call : Call)
    (htyped : call.isTyped a = true) (hok : call.fault? a = none) :
    Crafted (call.after a) fun m => made m ∨ a.size ≤ m ∧ m < (call.after a).size
  /-- Any call, whether it succeeds or not: what it changes counts no longer. -/
  | call {a : Arena} {made : NodeId → Prop} (h : Crafted a made) (call : Call)
    (hapt : call.Apt a := by trivial) : Crafted (call.after a) fun m =>
      made m ∧ (call.after a).kind m = a.kind m ∧ (call.after a).children m = a.children m
  | importFrom {a source : Arena} {made : NodeId → Prop} (h : Crafted a made)
    (hsource : source.Reachable) (n : NodeId) :
    Crafted ((Edit.importFrom source n).after a) made

namespace Crafted

variable {a : Arena} {made : NodeId → Prop}

theorem reachable (h : Crafted a made) : a.Reachable := by
  induction h with
  | empty => exact .empty
  | typed _ call htyped _ ih => exact .call call ih (Call.apt_of_isTyped htyped)
  | call _ call hapt ih => exact .call call ih hapt
  | importFrom _ hsource n ih => exact .importFrom hsource n ih

/-- **Whatever is made** in a run is regular at its end. -/
theorem regular (h : Crafted a made) : ∀ m, made m → a.Regular m := by
  induction h with
  | empty => simp
  | @typed a made h call htyped hok ih =>
    intro m hm
    have hw := h.reachable.wellFormed
    have hlt : m < (call.after a).size := by
      rcases hm with hm | ⟨-, hm⟩
      · obtain ⟨d, hd, -⟩ := ih m hm
        exact Nat.lt_of_lt_of_le (lt_size_of_node? hd) (call.size_le_after hw)
      · exact hm
    refine Call.regular_after htyped hw hok hlt fun hold => ?_
    rcases hm with hm | ⟨hnew, -⟩
    · exact ih m hm
    · exact absurd hold (Nat.not_lt.mpr hnew)
  | @call a made h call hapt ih =>
    rintro m ⟨hm, hkind, hchildren⟩
    obtain ⟨d, hd, hfollows⟩ := ih m hm
    rw [kind_of_node? hd] at hkind
    rw [children_of_node? hd] at hchildren
    obtain ⟨e, he, hek⟩ := kind_eq_ok_iff.mp hkind
    obtain ⟨e', he', hec⟩ := children_eq_ok_iff.mp hchildren
    obtain rfl := Option.some.inj (he.symm.trans he')
    exact ⟨e, he, hfollows.mono (Call.token_after h.reachable.wellFormed hapt) hek hec⟩
  | @importFrom a source made h hsource n ih =>
    -- a copy is put behind what is there
    intro m hm
    obtain ⟨d, hd, hfollows⟩ := ih m hm
    have hlonger : a.IsPrefix _ := Edit.isPrefix_importFrom hsource.wellFormed n
    refine ⟨d, hlonger m d hd, hfollows.mono (fun c t hc => ?_) rfl rfl⟩
    rw [← shows_kind_iff] at hc ⊢
    exact hc.of_isPrefix hlonger

/-- Everything that is there after such calls is made, apart from what was there before. -/
theorem exists_afterAll (calls : List Call) : ∀ {a : Arena} {made : NodeId → Prop},
    Crafted a made → Call.allSucceed calls a = true →
      ∃ made', Crafted (Call.afterAll calls a) made' ∧ (∀ m, made m → made' m) ∧
        ∀ m, a.size ≤ m → m < (Call.afterAll calls a).size → made' m := by
  induction calls with
  | nil =>
    intro a made h _
    refine ⟨made, h, fun m hm => hm, fun m hle hlt => ?_⟩
    exact absurd hlt (Nat.not_lt.mpr hle)
  | cons call calls ih =>
    intro a made h hsucceed
    simp only [Call.allSucceed, Bool.and_eq_true, Option.isNone_iff_eq_none] at hsucceed
    obtain ⟨⟨htyped, hok⟩, hrest⟩ := hsucceed
    obtain ⟨made', hcrafted, hkept, hnew⟩ := ih (h.typed call htyped hok) hrest
    refine ⟨made', hcrafted, fun m hm => hkept m (.inl hm), fun m hle hlt => ?_⟩
    by_cases hm : m < (call.after a).size
    · exact hkept m (.inr ⟨hle, hm⟩)
    · exact hnew m (Nat.le_of_not_lt hm) hlt

end Crafted

end Arena

end SyntaxForest
