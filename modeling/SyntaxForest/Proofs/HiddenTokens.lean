import SyntaxForest.Proofs.Reachable
import SyntaxForest.Proofs.Rendering

/-!
# Hiding tokens is taking them out

A dump that hides tokens leaves them out as it goes.  The other way to a text without tokens is to
detach every token first and to show all that is left.  Both give the same text, whatever the order
is in which the tokens are detached.

The order does not matter because of what one detachment does: it drops one node from all child
lists, and changes no kind (`Pruned`, `exists_detach_eq_ok`).  So a run of detachments drops all its
nodes, in whatever order they come (`exists_detachAll_eq_ok`).  A token may be below another token,
or below an identifier, which is written without its children: such a token is dropped from a list
that no dump looks at.  If the tokens below a node are dropped, then the node stands for its tree
without tokens (`Pruned.isAt_withoutTokens`), and that the text of this tree is the text with tokens
hidden is `Tree.written_hidden`.
-/

namespace SyntaxForest

namespace Edit

/-- Detach the nodes one after the other. -/
def detachAll : List NodeId → Edit Unit
  | [] => return ()
  | m :: ms => do
    let _ ← detach m
    detachAll ms

end Edit

namespace Arena

/-- The arena `b` has the nodes of `a`, with the nodes in `gone` dropped from all child lists. -/
structure Pruned (a b : Arena) (gone : List NodeId) : Prop where
  wellFormed : b.WellFormed
  size_eq : b.size = a.size
  node : ∀ (m : Nat) (d : Node), a.node? m = some d → ∃ e, b.node? m = some e ∧ e.kind = d.kind ∧
    e.children = d.children.filter (·.node ∉ gone)

variable {a b c : Arena}

theorem Pruned.refl (hw : a.WellFormed) : a.Pruned a [] :=
  ⟨hw, rfl, fun _ d hd => ⟨d, hd, rfl, by simp⟩⟩

theorem Pruned.trans {xs ys : List NodeId} (hab : a.Pruned b xs) (hbc : b.Pruned c ys) :
    a.Pruned c (xs ++ ys) := by
  refine ⟨hbc.wellFormed, hbc.size_eq.trans hab.size_eq, fun m d hd => ?_⟩
  obtain ⟨e, he, hkind, hchildren⟩ := hab.node m d hd
  obtain ⟨f, hf, hkind', hchildren'⟩ := hbc.node m e he
  refine ⟨f, hf, hkind'.trans hkind, ?_⟩
  rw [hchildren', hchildren, List.filter_filter]
  refine List.filter_congr fun x _ => ?_
  simp [Bool.and_comm]

/-- A child list without the entry at which it is taken apart. -/
theorem filter_ne_of_split {before after : ChildList} {r : RoleId} {m : NodeId}
    (hnodup : ((before ++ ⟨r, m⟩ :: after : ChildList).map (·.node)).Nodup) :
    (before ++ ⟨r, m⟩ :: after : ChildList).filter (·.node ∉ [m]) = before ++ after := by
  rw [List.map_append, List.map_cons, List.nodup_middle, List.nodup_cons,
    ← List.map_append] at hnodup
  have hkept : ∀ x ∈ before ++ after, x.node ∉ [m] := by
    intro x hx hm
    rw [List.mem_singleton] at hm
    exact hnodup.1 (List.mem_map.mpr ⟨x, hx, hm⟩)
  rw [List.filter_append, List.filter_cons_of_neg (by simp), ← List.filter_append,
    List.filter_eq_self.mpr fun x hx => decide_eq_true (hkept x hx)]

/-- A node that is not listed has nothing to be dropped from. -/
theorem filter_ne_of_not_listed {cs : ChildList} {m : NodeId} (h : m ∉ cs.map (·.node)) :
    cs.filter (·.node ∉ [m]) = cs := by
  refine List.filter_eq_self.mpr fun x hx => decide_eq_true fun hm => h ?_
  rw [List.mem_singleton] at hm
  exact List.mem_map.mpr ⟨x, hx, hm⟩

/-- **One detachment** drops the node from all child lists. -/
theorem exists_detach_eq_ok (hw : a.WellFormed) {m : Nat} (hm : m < a.size) :
    ∃ r b, Edit.detach m a = .ok r b ∧ a.Pruned b [m] := by
  obtain ⟨d, hd⟩ := exists_node?_of_lt hm
  cases hparent : d.parent with
  | none =>
    have hroot := parent?_eq_ok_iff.mpr ⟨d, hd, hparent⟩
    refine ⟨none, a, Edit.detach_of_root hroot, hw, rfl, fun p e he => ⟨e, he, rfl, ?_⟩⟩
    exact (filter_ne_of_not_listed (not_listed_of_root hw hd hparent he)).symm
  | some p =>
    obtain ⟨e, he⟩ := exists_node?_of_lt (hw.parent_lt m p d hd hparent)
    obtain ⟨x, hx, rfl⟩ := List.mem_map.mp ((hw.listed_iff m p d e hd he).mpr hparent)
    obtain ⟨before, after, hsplit⟩ := List.append_of_mem hx
    have hne : x.node ≠ p := by
      obtain ⟨-, -, -, hne⟩ := exists_node?_of_listed hw he hx
      exact hne
    refine ⟨_, _, Edit.detach_of_place (place?_of_listed hw he hsplit),
      wellFormed_relink_none hw he hsplit, size_relink .., fun q f hf => ?_⟩
    by_cases hqp : q = p
    · subst hqp
      obtain rfl : e = f := Option.some.inj (he.symm.trans hf)
      refine ⟨_, node?_relink_self he hne _ _, rfl, ?_⟩
      have hnodup := hw.listed_once q e he
      rw [hsplit] at hnodup ⊢
      exact (filter_ne_of_split hnodup).symm
    · -- only the parent lists the node
      have hnot : x.node ∉ f.children.map (·.node) := by
        intro hlisted
        have := (hw.listed_iff x.node q d f hd hf).mp hlisted
        rw [hparent, Option.some.injEq] at this
        exact hqp this.symm
      have hkept := (filter_ne_of_not_listed hnot).symm
      rw [node?_relink he hd hne, if_neg hqp]
      split_ifs with hq
      · subst hq
        obtain rfl : d = f := Option.some.inj (hd.symm.trans hf)
        exact ⟨_, rfl, rfl, hkept⟩
      · exact ⟨f, hf, rfl, hkept⟩

/-- **A run of detachments** drops all its nodes from all child lists. -/
theorem exists_detachAll_eq_ok : ∀ (ms : List NodeId) {a : Arena}, a.WellFormed →
    (∀ m ∈ ms, m < a.size) → ∃ b, Edit.detachAll ms a = .ok () b ∧ a.Pruned b ms
  | [], a, hw, _ => ⟨a, rfl, .refl hw⟩
  | m :: ms, a, hw, hms => by
    obtain ⟨r, b, hdetach, hab⟩ := exists_detach_eq_ok hw (hms m List.mem_cons_self)
    obtain ⟨c, hrest, hbc⟩ := exists_detachAll_eq_ok ms hab.wellFormed fun x hx =>
      hab.size_eq ▸ hms x (List.mem_cons_of_mem _ hx)
    refine ⟨c, ?_, hab.trans hbc⟩
    rw [Edit.detachAll, Edit.bind_of_ok hdetach, hrest]

/-- If the tokens below a node are dropped, it stands for its tree without tokens. -/
theorem Pruned.isAt_withoutTokens {gone : List NodeId} (h : a.Pruned b gone) (hw : a.WellFormed)
    {t : Tree} : ∀ {n : Nat}, t.IsAt a n →
      (∀ m k, a.Ancestor n m → a.kind m = .ok k → (m ∈ gone ↔ k.isToken = true)) →
        t.withoutTokens.IsAt b n := by
  induction t using Tree.induction with
  | h t ih =>
    intro n ht hgone
    obtain ⟨d, hd, hkind, hbelow⟩ := Tree.isAt_iff.mp ht
    obtain ⟨e, he, hkind', hchildren⟩ := h.node n d hd
    refine Tree.isAt_iff.mpr ⟨e, he, by rw [hkind', hkind, Tree.kind_withoutTokens], ?_⟩
    rw [Tree.branches_withoutTokens, hchildren, List.forall₂_map_left_iff]
    -- what is kept of the branches stands at what is kept of the children
    have hkept : List.Forall₂ (fun x c => x.2.kind.isToken = decide (c.node ∈ gone) ∧
        c.role = x.1 ∧ x.2.withoutTokens.IsAt b c.node) t.branches d.children := by
      refine forall₂_of_mem hbelow ?_
      rintro x hx c hc ⟨hrole, hat⟩
      have hchild : a.Ancestor n c.node := by
        obtain ⟨e, he, hp, -⟩ := exists_node?_of_listed hw hd hc
        exact .parent he hp
      have htoken := hgone c.node _ hchild hat.kind_eq_ok
      refine ⟨?_, hrole, ih x hx hat fun m k hm => hgone m k (hchild.trans hm)⟩
      simp [htoken]
    exact (List.rel_filter (fun x c hxc => by simp [hxc.1]) hkept).imp fun x c hxc => hxc.2

/-- **Hiding tokens is taking them out**: if every token below a node is detached, in whatever
order, then the dump of the node shows what its dump showed before with tokens hidden. -/
theorem dump_detachAll_eq_dump_hidden (h : a.Reachable) (reg : Registry) (roles : Bool) {n : Nat}
    (hn : n < a.size) {ms : List NodeId}
    (hms : ∀ m, m ∈ ms ↔ a.Ancestor n m ∧ ∃ k, a.kind m = .ok k ∧ k.isToken = true) :
    ∃ b text, Edit.detachAll ms a = .ok () b ∧ b.dump reg ⟨roles, true⟩ n = .ok text ∧
      a.dump reg ⟨roles, false⟩ n = .ok text := by
  have hw := h.wellFormed
  obtain ⟨t, ht⟩ := hw.exists_isAt hn
  have hlt : ∀ m ∈ ms, m < a.size := by
    intro m hm
    obtain ⟨-, k, hk, -⟩ := (hms m).mp hm
    obtain ⟨d, hd, -⟩ := kind_eq_ok_iff.mp hk
    exact lt_size_of_node? hd
  obtain ⟨b, hdetach, hpruned⟩ := exists_detachAll_eq_ok ms hw hlt
  have hgone : ∀ m k, a.Ancestor n m → a.kind m = .ok k → (m ∈ ms ↔ k.isToken = true) := by
    intro m k hbelow hk
    rw [hms]
    constructor
    · rintro ⟨-, k', hk', htoken⟩
      rwa [Except.ok.inj (hk.symm.trans hk')]
    · exact fun htoken => ⟨hbelow, k, hk, htoken⟩
  refine ⟨b, _, hdetach, dump_of_isAt (hpruned.isAt_withoutTokens hw ht hgone) reg _, ?_⟩
  rw [dump_of_isAt ht, Tree.written_hidden]

/-- A goto to a label, with a brace below its identifier and a colon below its semicolon. -/
def overgrownGoto : Arena :=
  (Call.setChild 2 .operator (some 5)).after <| (Call.setChild 3 .operator (some 4)).after <|
    (Call.newToken .colon).after <| (Call.newToken .lbrace).after <|
      (Call.newGoto "L1").after .empty

theorem reachable_overgrownGoto : overgrownGoto.Reachable :=
  .call _ (.call _ (.call _ (.call _ (.call _ .empty))))

theorem mem_tokens_overgrownGoto (m : NodeId) : m ∈ [2, 5, 4, 1] ↔
    overgrownGoto.Ancestor 0 m ∧ ∃ k, overgrownGoto.kind m = .ok k ∧ k.isToken = true := by
  obtain ⟨ns, hns, hbelow⟩ :=
    exists_descendants_eq_ok reachable_overgrownGoto.wellFormed (n := 0) (by decide)
  obtain rfl : [0, 1, 3, 4, 2, 5] = ns := by
    have hlisted : overgrownGoto.descendants 0 = .ok [0, 1, 3, 4, 2, 5] := by decide
    exact Except.ok.inj (hlisted.symm.trans hns)
  constructor
  · intro hm
    have hlisted : m ≠ 0 ∧ m ∈ [0, 1, 3, 4, 2, 5] := by revert m; decide
    refine ⟨((hbelow m).mp hlisted.2).resolve_left hlisted.1, ?_⟩
    simp only [List.mem_cons, List.not_mem_nil, or_false] at hm
    rcases hm with rfl | rfl | rfl | rfl <;> exact ⟨_, rfl, rfl⟩
  · rintro ⟨habove, k, hk, htoken⟩
    have hothers : ∀ x ∈ [0, 1, 3, 4, 2, 5], x ∈ [2, 5, 4, 1] ∨
        overgrownGoto.kind x = .ok (.statement .goto) ∨
        overgrownGoto.kind x = .ok (.identifier "L1") := by decide
    rcases hothers m ((hbelow m).mpr (.inr habove)) with hm | hm | hm
    · exact hm
    · cases hk.symm.trans hm
      cases htoken
    · cases hk.symm.trans hm
      cases htoken

/-- The semicolon is detached before the colon that is below it, and what is left is the label. -/
theorem dump_detachAll_eq_dump_hidden_overgrown :
    ∃ b, Edit.detachAll [2, 5, 4, 1] overgrownGoto = .ok () b ∧
      b.dump .standard ⟨true, true⟩ 0 = .ok "(GotoStatement Identifier=L1)" ∧
      overgrownGoto.dump .standard ⟨true, false⟩ 0 = .ok "(GotoStatement Identifier=L1)" := by
  obtain ⟨b, text, hdetach, hdump, hhidden⟩ := dump_detachAll_eq_dump_hidden
    reachable_overgrownGoto .standard true (by decide) mem_tokens_overgrownGoto
  have htext : overgrownGoto.dump .standard ⟨true, false⟩ 0 =
      .ok "(GotoStatement Identifier=L1)" := by decide +kernel
  obtain rfl := Except.ok.inj (hhidden.symm.trans htext)
  exact ⟨b, hdetach, hdump, hhidden⟩

end Arena

end SyntaxForest
