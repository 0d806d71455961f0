import SyntaxForest.Proofs.Craft
import SyntaxForest.Proofs.Skeleton

/-!
# Faithful dumps

Nodes that stand for the same tree have the same dumps, whatever is shown.  The converse is about
trees that are made by hand, with words for names: their nodes are regular, so their trees are
`Tree.Tidy` all the way down, and can be read off the text (`Tree.eq_of_written`).  With tokens the
text tells everything (`dump_faithful`).

Without tokens it tells less.  What is written then is the tree without tokens
(`Tree.written_hidden`), which follows the grammar without tokens, and can be read in the same way.
But the operator of a binary expression is written in its token only.  So the text tells everything
but the operators (`dump_hidden_eq_iff`), and there are trees that differ in an operator and have
the same text (`dump_hides_operator`).
-/

namespace SyntaxForest

/-! ### Trees of regular nodes -/

namespace Tree

/-- What a regular node looks like from its tree. -/
structure Tidy (t : Tree) : Prop where
  ordered : t.kind.grammar.Orders (t.branches.map (·.1))
  token : ∀ x ∈ t.branches, x.1.accepts = some .token → x.2.kind.isToken = true
  admitted : ∀ x ∈ t.branches, x.1.admits x.2.kind.category = true
  operator : ∀ op, t.kind = .expression (.binary op) → ∀ x ∈ t.branches, x.1 = .operator →
    x.2.kind = .token (.operator op)

theorem IsAt.throughout {a : Arena} (hw : a.WellFormed) {P : Tree → Prop} {t : Tree} :
    ∀ {n : NodeId}, t.IsAt a n → (∀ m u, a.AtOrBelow n m → u.IsAt a m → P u) →
      t.Throughout P := by
  induction t using Tree.induction with
  | h t ih =>
    intro n ht hP
    obtain ⟨d, hd, -, hbelow⟩ := Tree.isAt_iff.mp ht
    refine .intro (hP n t (.refl a n) ht) fun x hx => ?_
    obtain ⟨c, hc, -, hxc⟩ := exists_of_forall₂_left hbelow hx
    exact ih x hx hxc fun m u hm => hP m u ((hw.atOrBelow_child hd hc).trans hm)

theorem IsAt.tidy {a : Arena} (hw : a.WellFormed) {t : Tree} {n : NodeId} (ht : t.IsAt a n)
    (hn : a.Regular n) : t.Tidy := by
  obtain ⟨d, hd, hkind, hbelow⟩ := Tree.isAt_iff.mp ht
  obtain ⟨d', hd', hfollows⟩ := hn
  obtain rfl := Option.some.inj (hd.symm.trans hd')
  have hroles : t.branches.map (·.1) = d.children.map (·.role) := by
    rw [← List.forall₂_eq_eq_eq, List.forall₂_map_left_iff, List.forall₂_map_right_iff]
    exact hbelow.imp fun x c hxc => hxc.1.symm
  -- a branch is a child with the tree that it stands for
  have hchild : ∀ x ∈ t.branches, ∃ c ∈ d.children, c.role = x.1 ∧ a.kind c.node = .ok x.2.kind ∧
      c.role.admits x.2.kind.category = true := by
    intro x hx
    obtain ⟨c, hc, hrole, hxc⟩ := exists_of_forall₂_left hbelow hx
    obtain ⟨e, he, hek⟩ := Arena.kind_eq_ok_iff.mp hxc.kind_eq_ok
    exact ⟨c, hc, hrole, hxc.kind_eq_ok, hek ▸ hw.admitted n d c e hd hc he⟩
  constructor
  case ordered =>
    rw [hroles, ← hkind]
    exact hfollows.orders
  case token =>
    intro x hx haccepts
    obtain ⟨c, hc, hrole, hk, -⟩ := hchild x hx
    obtain ⟨u, hu⟩ := hfollows.token c hc (hrole ▸ haccepts)
    rw [Except.ok.inj (hk.symm.trans hu)]
    rfl
  case admitted =>
    intro x hx
    obtain ⟨c, -, hrole, -, hadm⟩ := hchild x hx
    exact hrole ▸ hadm
  case operator =>
    intro op hop x hx hoperator
    obtain ⟨c, hc, hrole, hk, -⟩ := hchild x hx
    have hu := hfollows.operator op (hkind.trans hop) c hc (hrole.trans hoperator)
    exact Except.ok.inj (hk.symm.trans hu)

variable {t u : Tree}

theorem Tidy.showsOperator (h : t.Tidy) : t.ShowsOperator := by
  intro op hop
  have hroles : RoleId.operator ∈ t.branches.map (·.1) := by
    obtain ⟨values, hvalues, -⟩ := h.ordered
    rw [hvalues, hop]
    simp [Kind.grammar]
  obtain ⟨x, hx, hrole⟩ := List.mem_map.mp hroles
  exact ⟨x.2, by rwa [← hrole], h.operator op hop⟩

end Tree

/-! ### The grammar without tokens -/

/-- The roles of a layout, in order. -/
def Layout.roles (l : Layout) : List RoleId := l.opening ++ l.value.toList ++ l.closing.toList

/-- What is left of a layout if there are no tokens. -/
def Layout.withoutTokens (l : Layout) : Layout where
  opening := l.opening.filter (·.accepts ≠ some .token)
  value := l.value
  closing := l.closing.filter (·.accepts ≠ some .token)

theorem Kind.isGrammar_withoutTokens : IsGrammar fun k => k.grammar.withoutTokens where
  congr k l h := by rw [isGrammar_grammar.congr k l h]
  leaf k hk := by rw [isGrammar_grammar.leaf k hk]; rfl

/-- The roles of the children that a node always has ask for something. -/
theorem Kind.accepts_fixed_grammar (k : Kind) :
    ∀ r ∈ k.grammar.opening ++ k.grammar.closing.toList, r.accepts ≠ none := by
  cases k with
  | token t => simp [grammar, layout]
  | identifier name => simp [grammar, layout]
  | expression shape =>
    cases shape <;> simp [grammar, layout]
    decide
  | statement shape => cases shape <;> decide
  | pattern p => cases p <;> simp [grammar, layout]

/-- **What a match compares** is what the grammar has apart from tokens, in its order. -/
theorem Kind.comparedRoles_eq (k : Kind) (hk : ∀ p, k ≠ .pattern p) :
    k.comparedRoles = k.grammar.withoutTokens.roles := by
  cases k with
  | token t => rfl
  | identifier name => rfl
  | expression shape => cases shape <;> rfl
  | statement shape => cases shape <;> rfl
  | pattern p => exact absurd rfl (hk p)

/-- Slots that carry meaning are not for tokens. -/
theorem Kind.accepts_comparedRoles (k : Kind) :
    ∀ r ∈ k.comparedRoles, r.accepts ≠ none ∧ r.accepts ≠ some .token := by
  cases k with
  | token t => simp [comparedRoles]
  | identifier name => simp [comparedRoles]
  | expression shape => cases shape <;> simp [comparedRoles] <;> decide
  | statement shape => cases shape <;> decide
  | pattern p => simp [comparedRoles]

namespace Tree

variable {t u : Tree}

/-- Under a role that asks for something, tokens are where tokens are asked for. -/
theorem Tidy.isToken_iff (h : t.Tidy) {x : RoleId × Tree} (hx : x ∈ t.branches)
    (hasks : x.1.accepts ≠ none) : x.2.kind.isToken = true ↔ x.1.accepts = some .token := by
  refine ⟨fun htoken => ?_, h.token x hx⟩
  have hadm := h.admitted x hx
  have hcategory : x.2.kind.category = .token := by simpa [Kind.isToken] using htoken
  obtain ⟨c, hc⟩ := Option.ne_none_iff_exists'.mp hasks
  rw [RoleId.admits, hcategory, hc, Category.fits] at hadm
  simpa [hc] using hadm

/-- Tokens are left out by their kinds, which is the same as by their roles. -/
theorem map_role_filter {xs : List (RoleId × Tree)}
    (h : ∀ x ∈ xs, x.2.kind.isToken = true ↔ x.1.accepts = some .token) :
    (xs.filter fun x => !x.2.kind.isToken).map (·.1) =
      (xs.map (·.1)).filter (·.accepts ≠ some .token) := by
  rw [List.filter_map]
  congr 1
  refine List.filter_congr fun x hx => ?_
  simp [← h x hx]

theorem Tidy.ordered_withoutTokens (h : t.Tidy) :
    t.kind.grammar.withoutTokens.Orders (t.withoutTokens.branches.map (·.1)) := by
  obtain ⟨values, hroles, hvalues⟩ := h.ordered
  obtain ⟨front, cs, hfront, hfirst, hcs⟩ := List.map_eq_append_iff.mp hroles
  obtain ⟨os, vs, rfl, hos, hvs⟩ := List.map_eq_append_iff.mp hfirst
  -- the values are of no consequence: any number of them follows the layout
  have hfixed : ∀ x ∈ os ++ cs, x.2.kind.isToken = true ↔ x.1.accepts = some .token := by
    intro x hx
    refine h.isToken_iff ?_ (t.kind.accepts_fixed_grammar _ ?_)
    · rw [hfront]
      simp only [List.mem_append] at hx ⊢
      tauto
    · rw [← hos, ← hcs, ← List.map_append]
      exact List.mem_map_of_mem hx
  have hos' := map_role_filter fun x hx => hfixed x (List.mem_append_left _ hx)
  have hcs' := map_role_filter fun x hx => hfixed x (List.mem_append_right _ hx)
  refine ⟨(vs.filter fun x => !x.2.kind.isToken).map (·.1), ?_, fun r hr => ?_⟩
  · rw [branches_withoutTokens, List.map_map, hfront, List.filter_append, List.filter_append,
      List.map_append, List.map_append, Layout.withoutTokens, ← hos, ← hos', Option.toList_filter,
      ← hcs, ← hcs']
    rfl
  · obtain ⟨x, hx, rfl⟩ := List.mem_map.mp hr
    exact hvalues _ (by rw [← hvs]; exact List.mem_map_of_mem (List.mem_of_mem_filter hx))

/-- Slots that are not for tokens lose nothing. -/
theorem Tidy.under_withoutTokens (h : t.Tidy) {r : RoleId} (hasks : r.accepts ≠ none)
    (hr : r.accepts ≠ some .token) :
    t.withoutTokens.under r = (t.under r).map withoutTokens := by
  have hkept : (t.branches.filter fun x => !x.2.kind.isToken).filter (·.1 = r) =
      t.branches.filter (·.1 = r) := by
    rw [List.filter_filter]
    refine List.filter_congr fun x hx => ?_
    by_cases hxr : x.1 = r
    · have hnot : ¬ x.2.kind.isToken = true := by
        rw [h.isToken_iff hx (hxr ▸ hasks), hxr]
        exact hr
      simp [hxr, hnot]
    · simp [hxr]
  simp only [under, branches_withoutTokens, List.filter_map, List.map_map, Function.comp_def, hkept]

/-- **The skeleton** has no tokens in it. -/
theorem skeleton_withoutTokens (h : t.Throughout Tidy) : t.withoutTokens.skeleton = t.skeleton := by
  induction h with
  | @intro t here _ ih =>
    rw [skeleton_eq, skeleton_eq, kind_withoutTokens]
    congr 1
    refine List.flatMap_congr fun r hr => ?_
    obtain ⟨hasks, hnot⟩ := t.kind.accepts_comparedRoles r hr
    rw [here.under_withoutTokens hasks hnot, List.map_map]
    refine List.map_congr_left fun u hu => ?_
    exact congrArg (r, ·) (ih (r, u) (mem_under_iff.mp hu))

end Tree

/-! ### Names of roles -/

/-- The roles of the grammar have their definitions in every registry that begins with the standard
one, and their names are made of letters. -/
theorem Kind.isAlpha_name {reg : Registry} (hreg : Registry.standard.names <+: reg.names) (k : Kind)
    {roles : List RoleId} (h : k.grammar.Orders roles) :
    ∀ r ∈ roles, ∀ c ∈ (reg.name r).toList, c.isAlpha = true := by
  have hstandard : ∀ r ∈ k.grammar.opening ++ k.grammar.value.toList ++ k.grammar.closing.toList,
      r ∈ Registry.standard.entries.map (·.id) := by
    cases k with
    | token t => simp [grammar, layout]
    | identifier name => simp [grammar, layout]
    | expression shape => cases shape <;> simp [grammar, layout] <;> decide
    | statement shape => cases shape <;> decide
    | pattern p => cases p <;> simp [grammar, layout] <;> decide
  -- as a `Bool`, for `decide` to compute it
  have hletters : ∀ r ∈ Registry.standard.entries.map (·.id),
      r.index < Registry.standard.names.length ∧
        (Registry.standard.name r).toList.all Char.isAlpha = true := by
    decide
  obtain ⟨values, rfl, hvalues⟩ := h
  intro r hr
  have hmem : r ∈ k.grammar.opening ++ k.grammar.value.toList ++ k.grammar.closing.toList := by
    simp only [List.mem_append] at hr ⊢
    rcases hr with (hr | hr) | hr
    · exact .inl (.inl hr)
    · exact .inl (.inr (by simp [hvalues r hr]))
    · exact .inr hr
  obtain ⟨hindex, halpha⟩ := hletters r (hstandard r hmem)
  have hname : reg.name r = Registry.standard.name r := by
    obtain ⟨more, hmore⟩ := hreg
    rw [Registry.name_eq, Registry.name_eq, ← hmore, List.getElem?_append_left hindex]
  rw [hname]
  exact List.all_eq_true.mp halpha

namespace Tree

variable {reg : Registry} {roles : Bool} {t : Tree}

/-- A tree of regular nodes with words for names. -/
def Plain (t : Tree) : Prop := t.Tidy ∧ t.kind.isWorded = true

theorem Plain.legible (h : t.Plain) : t.Legible reg false Kind.grammar :=
  ⟨h.2, h.1.ordered, by simp⟩

theorem legible_withoutTokens (hreg : Registry.standard.names <+: reg.names)
    (h : t.Throughout Plain) :
    t.withoutTokens.Throughout (Legible reg roles fun k => k.grammar.withoutTokens) := by
  induction h with
  | @intro t here _ ih =>
    refine .intro ⟨?_, ?_, fun _ x hx => ?_⟩ fun x hx => ?_
    · rw [kind_withoutTokens]
      exact here.2
    · rw [kind_withoutTokens]
      exact here.1.ordered_withoutTokens
    · rw [branches_withoutTokens] at hx
      obtain ⟨y, hy, rfl⟩ := List.mem_map.mp hx
      have hrole := List.mem_map_of_mem (f := Prod.fst) (List.mem_of_mem_filter hy)
      exact t.kind.isAlpha_name hreg here.1.ordered _ hrole
    · rw [branches_withoutTokens] at hx
      obtain ⟨y, hy, rfl⟩ := List.mem_map.mp hx
      exact ih y (List.mem_of_mem_filter hy)

end Tree

namespace Arena

/-- Every node of the tree was made by a constructor, and changed by setters only. -/
def Handmade (a : Arena) (n : NodeId) : Prop :=
  ∃ made, Crafted a made ∧ ∀ m, a.AtOrBelow n m → made m

/-- The names and groups of the tree are words. -/
def Worded (a : Arena) (n : NodeId) : Prop :=
  ∀ m, a.AtOrBelow n m → ∀ k, a.kind m = .ok k → k.isWorded = true

variable {a b : Arena} {n x y : NodeId} {t u : Tree}

theorem Handmade.exists_isAt (h : a.Handmade n) : ∃ t : Tree, t.IsAt a n := by
  obtain ⟨made, hcrafted, hmade⟩ := h
  obtain ⟨d, hd, -⟩ := hcrafted.regular n (hmade n (.refl a n))
  exact hcrafted.reachable.wellFormed.exists_isAt (lt_size_of_node? hd)

/-- All that is used of a tree made by hand. -/
theorem Handmade.plain (h : a.Handmade n) (hwords : a.Worded n) (ht : t.IsAt a n) :
    t.Throughout Tree.Plain := by
  obtain ⟨made, hcrafted, hmade⟩ := h
  have hw := hcrafted.reachable.wellFormed
  exact ht.throughout hw fun m u hm hu =>
    ⟨hu.tidy hw (hcrafted.regular m (hmade m hm)), hwords m hm _ hu.kind_eq_ok⟩

theorem dump_eq_iff (ht : t.IsAt a x) (hu : u.IsAt b y) (reg : Registry) (options : DumpOptions) :
    a.dump reg options x = b.dump reg options y ↔
      t.written reg options = u.written reg options := by
  rw [dump_of_isAt ht, dump_of_isAt hu]
  constructor
  · intro h
    exact String.ofList_injective (Except.ok.inj h)
  · intro h
    rw [h]

/-- **Faithful dumps**: equal trees have equal dumps, whatever is shown; and trees that are made by
hand, with words for names, are equal if their default dumps are. -/
theorem dump_faithful (a b : Arena) (x y : NodeId) (reg : Registry) :
    (a.structurallyEqual x b y = .ok true →
      ∀ options, ∃ text, a.dump reg options x = .ok text ∧ b.dump reg options y = .ok text) ∧
    (a.Handmade x → b.Handmade y → a.Worded x → b.Worded y →
      a.dump reg {} x = b.dump reg {} y → a.structurallyEqual x b y = .ok true) := by
  constructor
  · intro h options
    obtain ⟨t, ht, hu⟩ := structurallyEqual_eq_true_iff.mp h
    exact ⟨_, dump_of_isAt ht reg options, dump_of_isAt hu reg options⟩
  · intro hx hy hxw hyw h
    obtain ⟨t, ht⟩ := hx.exists_isAt
    obtain ⟨u, hu⟩ := hy.exists_isAt
    have hplain := hx.plain hxw ht
    have hplain' := hy.plain hyw hu
    have hsame := (Tree.written_eq_iff Kind.isGrammar_grammar (hplain.imp fun _ h => h.legible)
      (hplain'.imp fun _ h => h.legible)).mp ((dump_eq_iff ht hu reg {}).mp h)
    have heq := Tree.eq_of_withoutOperators (hplain.imp fun _ h => h.1.showsOperator)
      (hplain'.imp fun _ h => h.1.showsOperator) hsame
    exact structurallyEqual_eq_true_iff.mpr ⟨t, ht, heq ▸ hu⟩

/-- What is made by calls that know the grammar and succeed is made by hand. -/
theorem handmade_of_allSucceed {calls : List Call} {made : NodeId → Prop} (h : Crafted a made)
    (hcalls : Call.allSucceed calls a = true) (ns : List NodeId)
    (hns : (Call.afterAll calls a).descendants n = .ok ns)
    (hlt : n < (Call.afterAll calls a).size)
    (hnew : ∀ m ∈ ns, a.size ≤ m ∧ m < (Call.afterAll calls a).size) :
    (Call.afterAll calls a).Handmade n := by
  obtain ⟨made', hcrafted, -, hmade⟩ := h.exists_afterAll calls hcalls
  obtain ⟨ns', hns', hmem⟩ := exists_descendants_eq_ok hcrafted.reachable.wellFormed hlt
  cases hns.symm.trans hns'
  refine ⟨made', hcrafted, fun m hm => ?_⟩
  obtain ⟨hle, hlt⟩ := hnew m ((hmem m).mpr hm)
  exact hmade m hle hlt

/-- Whether the names of a tree are words can be checked node by node. -/
theorem Handmade.worded (h : a.Handmade n) (ns : List NodeId) (hns : a.descendants n = .ok ns)
    (hwords : ∀ m ∈ ns, (a.kind m).toOption.all (·.isWorded) = true) : a.Worded n := by
  obtain ⟨t, ht⟩ := h.exists_isAt
  obtain ⟨made, hcrafted, -⟩ := h
  obtain ⟨ns', hns', hmem⟩ := exists_descendants_eq_ok hcrafted.reachable.wellFormed ht.lt_size
  cases hns.symm.trans hns'
  intro m hm k hk
  have hword := hwords m ((hmem m).mpr hm)
  rwa [hk] at hword

/-- A statement is made in one go.  Another one comes after a block that was refused a literal in the
place of a statement, begins with that literal, and gets the same expression later. -/
theorem dump_faithful_revised :
    let sum := Call.afterAll [.newLiteral (.int 1), .newLiteral (.str "\""), .newBinary 0 .add 1,
      .newExpressionStatement 2] .empty
    let refused := (Call.newBlockOf [0]).after ((Call.newLiteral .null).after .empty)
    let revised := Call.afterAll [.newExpressionStatement 0, .newLiteral (.int 1),
      .newLiteral (.str "\""), .newBinary 6 .add 7, .setExpression 4 (some 8)] refused
    sum.Handmade 4 ∧ revised.Handmade 4 ∧ sum.Worded 4 ∧ revised.Worded 4 ∧
      sum.dump .standard {} 4 = revised.dump .standard {} 4 ∧
      sum.structurallyEqual 4 revised 4 = .ok true := by
  intro sum refused revised
  have hsum : sum.Handmade 4 := handmade_of_allSucceed .empty (by decide) [4, 2, 0, 3, 1, 5] rfl
    (by decide) (by decide)
  have hbelow : revised.descendants 4 = .ok [4, 8, 6, 9, 7, 5] := by decide +kernel
  have hrevised : revised.Handmade 4 :=
    handmade_of_allSucceed ((Crafted.empty.call (.newLiteral .null)).call (.newBlockOf [0]))
      (by decide +kernel) _ hbelow (by decide +kernel) (by decide +kernel)
  have hsumWords := hsum.worded _ rfl (by decide)
  have hrevisedWords := hrevised.worded _ hbelow (by decide +kernel)
  have hdump : sum.dump .standard {} 4 = revised.dump .standard {} 4 := by decide +kernel
  exact ⟨hsum, hrevised, hsumWords, hrevisedWords, hdump,
    (dump_faithful sum revised 4 4 .standard).2 hsum hrevised hsumWords hrevisedWords hdump⟩

/-- **What a dump without tokens tells**: of trees that are made by hand, with words for names,
everything but tokens and operators.  So trees with the same operators agree in all other nodes. -/
theorem dump_hidden_eq_iff (hx : a.Handmade x) (hy : b.Handmade y) (hxw : a.Worded x)
    (hyw : b.Worded y) (ht : t.IsAt a x) (hu : u.IsAt b y) {reg : Registry}
    (hreg : Registry.standard.names <+: reg.names) (roles : Bool) :
    (a.dump reg ⟨roles, false⟩ x = b.dump reg ⟨roles, false⟩ y ↔
      t.withoutTokens.withoutOperators = u.withoutTokens.withoutOperators) ∧
    (a.dump reg ⟨roles, false⟩ x = b.dump reg ⟨roles, false⟩ y →
      t.withoutTokens.operators = u.withoutTokens.operators →
        t.withoutTokens = u.withoutTokens ∧ t.skeleton = u.skeleton) := by
  have hplain := hx.plain hxw ht
  have hplain' := hy.plain hyw hu
  have hiff : a.dump reg ⟨roles, false⟩ x = b.dump reg ⟨roles, false⟩ y ↔
      t.withoutTokens.withoutOperators = u.withoutTokens.withoutOperators := by
    rw [dump_eq_iff ht hu, Tree.written_hidden, Tree.written_hidden]
    exact Tree.written_eq_iff Kind.isGrammar_withoutTokens (Tree.legible_withoutTokens hreg hplain)
      (Tree.legible_withoutTokens hreg hplain')
  refine ⟨hiff, fun hdump hops => ?_⟩
  have hsame : t.withoutTokens = u.withoutTokens :=
    (Tree.eq_of_operators (hiff.mp hdump) (congrArg (· ++ []) hops)).1
  refine ⟨hsame, ?_⟩
  rw [← Tree.skeleton_withoutTokens (hplain.imp fun _ h => h.1), hsame,
    Tree.skeleton_withoutTokens (hplain'.imp fun _ h => h.1)]

/-- Choices between a group for a token and a sum.  The dumps do not show that the tokens differ. -/
theorem dump_hidden_eq_iff_choice :
    let choice := fun t => Call.afterAll [.newToken t, .newNamed "g" 0, .newLiteral (.int 1),
      .newLiteral (.int 2), .newBinary 2 .add 3, .newChoice [1, 4]] .empty
    (choice .semicolon).dump .standard ⟨true, false⟩ 6 =
        (choice .colon).dump .standard ⟨true, false⟩ 6 ∧
      (choice .semicolon).kind 0 ≠ (choice .colon).kind 0 ∧
      ((choice .semicolon).tree? 6).map Tree.withoutTokens =
        ((choice .colon).tree? 6).map Tree.withoutTokens := by
  intro choice
  have hleft : (choice .semicolon).Handmade 6 := handmade_of_allSucceed .empty (by decide)
    [6, 1, 0, 4, 2, 5, 3] rfl (by decide) (by decide)
  have hright : (choice .colon).Handmade 6 := handmade_of_allSucceed .empty (by decide)
    [6, 1, 0, 4, 2, 5, 3] rfl (by decide) (by decide)
  obtain ⟨t, ht, htop⟩ : ∃ t, (choice .semicolon).tree? 6 = some t ∧
    t.withoutTokens.operators = [.add] := ⟨_, rfl, rfl⟩
  obtain ⟨u, hu, huop⟩ : ∃ u, (choice .colon).tree? 6 = some u ∧
    u.withoutTokens.operators = [.add] := ⟨_, rfl, rfl⟩
  have hdump : (choice .semicolon).dump .standard ⟨true, false⟩ 6 =
      (choice .colon).dump .standard ⟨true, false⟩ 6 := by decide +kernel
  have h := (dump_hidden_eq_iff hleft hright (hleft.worded _ rfl (by decide))
    (hright.worded _ rfl (by decide)) (tree?_eq_some_iff.mp ht) (tree?_eq_some_iff.mp hu)
    ⟨[], rfl⟩ true).2 hdump (htop.trans huop.symm)
  refine ⟨hdump, by decide, ?_⟩
  rw [ht, hu, Option.map_some, Option.map_some, h.1]

/-- A sum and a difference have the same dump without tokens. -/
theorem dump_hides_operator :
    let binary := fun op => Call.afterAll [.newLiteral (.int 1), .newLiteral (.int 2),
      .newBinary 0 op 1] .empty
    (binary .add).Handmade 2 ∧ (binary .sub).Handmade 2 ∧ (binary .add).Worded 2 ∧
      (binary .sub).Worded 2 ∧
      (binary .add).dump .standard ⟨false, false⟩ 2 =
        .ok "(BinaryExpression (PrimitiveExpression 1) (PrimitiveExpression 2))" ∧
      (binary .sub).dump .standard ⟨false, false⟩ 2 =
        .ok "(BinaryExpression (PrimitiveExpression 1) (PrimitiveExpression 2))" ∧
      (binary .add).kind 2 ≠ (binary .sub).kind 2 := by
  intro binary
  have hadd : (binary .add).Handmade 2 :=
    handmade_of_allSucceed .empty (by decide) [2, 0, 3, 1] rfl (by decide) (by decide)
  have hsub : (binary .sub).Handmade 2 :=
    handmade_of_allSucceed .empty (by decide) [2, 0, 3, 1] rfl (by decide) (by decide)
  exact ⟨hadd, hsub, hadd.worded _ rfl (by decide), hsub.worded _ rfl (by decide),
    by decide +kernel, by decide +kernel, by decide⟩

end Arena

end SyntaxForest
