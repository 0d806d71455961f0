import SyntaxForest.Proofs.Acceptance

/-!
# Walks and links

There are three ways to say what is below a node.  The walk by a stack lists it
(`Arena.descendants`), a visitor that visits every child of what it visits logs it (`Arena.walk`),
and the chain of parent links of any other node leads to the node or does not
(`Arena.isAncestorOf`).  In a well-formed arena the three agree.

* `visits_of_preorder`: the log of a visitor has the nodes that the recursion lists, in the same
  order.  The depth at which it starts is of no account.
* `WellFormed.exists_unfolded`: the list for a node is the node, and then the lists for its
  children, one after the other.
* `WellFormed.isAncestorOf_eq`: the walk upwards from a node answers whether the list has it.

`Toured` collects what is known of the list.
-/

namespace SyntaxForest.Arena

variable {a : Arena}

/-! ### The log of a visitor -/

theorem visits_of_preorder : ∀ {fuel n : Nat} {ns : List NodeId}, a.preorder fuel n = .ok ns →
    ∀ depth : Nat, ∃ log, a.visits fuel depth n = .ok log ∧ log.map (·.node) = ns
  | 0, _, _, h => by cases h
  | fuel + 1, n, _, h => by
    intro depth
    obtain ⟨d, nss, hd, rfl, hbelow⟩ := preorder_succ_eq_ok h
    have hchildren : ∀ c ∈ d.children, ∃ log, a.visits fuel (depth + 1) c.node = .ok log := by
      intro c hc
      obtain ⟨ms, -, hms⟩ := exists_of_forall₂_left hbelow hc
      obtain ⟨log, hlog, -⟩ := visits_of_preorder hms (depth + 1)
      exact ⟨log, hlog⟩
    obtain ⟨logs, hlogs⟩ := exists_mapM_eq_ok hchildren
    have hnodes : List.Forall₂ (fun log ms => log.map Visit.node = ms) logs nss := by
      refine forall₂_of_common (fun c log ms hlog hms => ?_) (forall₂_of_mapM_eq_ok hlogs) hbelow
      obtain ⟨log', hlog', hmap⟩ := visits_of_preorder hms (depth + 1)
      obtain rfl := Except.ok.inj (hlog.symm.trans hlog')
      exact hmap
    have heq : logs.map (List.map Visit.node) = nss :=
      List.forall₂_eq_eq_eq ▸ List.forall₂_map_left_iff.mpr hnodes
    refine ⟨⟨depth, d.kind.handler, n⟩ :: logs.flatten, ?_, ?_⟩
    · rw [visits, node_of_node? hd]
      simp only [bind, Except.bind, hlogs]
      rfl
    · rw [List.map_cons, List.map_flatten, heq]

/-! ### The list for a node and the lists for its children -/

theorem WellFormed.exists_unfolded (hw : a.WellFormed) {fuel r : Nat} {ns : List NodeId}
    (h : a.preorder (fuel + 1) r = .ok ns) :
    ∃ cs nss, a.children r = .ok cs ∧
      List.Forall₂ (fun (c : Child) ms => a.descendants c.node = .ok ms) cs nss ∧
      ns = r :: nss.flatten := by
  obtain ⟨d, nss, hd, rfl, hbelow⟩ := preorder_succ_eq_ok h
  have hlt : ∀ c ∈ d.children, c.node < a.size := fun c hc => hw.child_lt r d c hd hc
  refine ⟨d.children, nss, children_of_node? hd, ?_, rfl⟩
  refine ((List.forall₂_and_left _ _).mpr ⟨hlt, hbelow⟩).imp ?_
  rintro c ms ⟨hc, hms⟩
  exact hw.descendants_of_preorder hc hms

/-! ### The walk downwards and the walk upwards -/

/-- The walk upwards from another node finds `r` if the list for `r` has the node. -/
theorem WellFormed.isAncestorOf_eq (hw : a.WellFormed) {r n : Nat} {ns : List NodeId}
    (hmem : n ∈ ns ↔ a.AtOrBelow r n) (hn : n < a.size) (hne : n ≠ r) :
    a.isAncestorOf r n = .ok (decide (n ∈ ns)) := by
  obtain ⟨found, hwalk, hfound⟩ := hw.exists_isAncestorOf_eq_ok hn r
  have hiff : found = true ↔ n ∈ ns := by
    rw [hfound, hmem]
    exact ⟨.inr, fun h => h.resolve_left hne⟩
  rw [hwalk, Bool.eq_iff_iff.mpr (hiff.trans (decide_eq_true_iff).symm)]

/-- The list `ns` is what a walk from `r` comes by, whichever way it is looked at. -/
structure Toured (a : Arena) (r : NodeId) (ns : List NodeId) : Prop where
  /-- The walk by a stack comes to its end and lists these nodes. -/
  listed : a.descendants r = .ok ns
  /-- They are `r`, and then those that the walks from its children list, in order. -/
  unfolded : ∃ cs nss, a.children r = .ok cs ∧
    List.Forall₂ (fun (c : Child) ms => a.descendants c.node = .ok ms) cs nss ∧
    ns = r :: nss.flatten
  /-- A visitor that visits every child sees the same nodes in the same order. -/
  visited : ∃ log, a.walk r = .ok log ∧ log.map (·.node) = ns
  /-- No node comes twice. -/
  nodup : ns.Nodup
  /-- All of them are nodes of the arena. -/
  inRange : ∀ n ∈ ns, n < a.size
  /-- The parent links of any other node lead to `r` exactly if the node is listed. -/
  ancestors : ∀ n : Nat, n < a.size → n ≠ r → a.isAncestorOf r n = .ok (decide (n ∈ ns))

/-- **Walks agree with the links**: in every arena that calls lead to, the walk from a node comes to
its end, lists the node and then what the walks from its children list, which is what a visitor
sees, lists no node twice, and lists another node exactly if the first node is above it. -/
theorem exists_toured_of_reachable (h : a.Reachable) {r : Nat} (hr : r < a.size) :
    ∃ ns, a.Toured r ns := by
  have hw := h.wellFormed
  obtain ⟨ns, hrec, hlisted⟩ := hw.exists_preorder_eq_descendants hr
  obtain ⟨log, hlog, hnodes⟩ := visits_of_preorder hrec 0
  exact ⟨ns, {
    listed := hlisted
    unfolded := hw.exists_unfolded hrec
    visited := ⟨log, hlog, hnodes⟩
    nodup := nodup_preorder hw hrec
    inRange := fun n hn => lt_size_of_preorder hw hr hrec hn
    ancestors := fun n hn hne => hw.isAncestorOf_eq (mem_preorder_iff hw hrec n) hn hne }⟩

/-- The block `8` holds the goto `4`, which came second, before the statement `2`.  The name of the
goto was set last, so its id is the highest below it; the token `12` of another statement is not
below the block. -/
theorem exists_toured_of_reachable_block :
    let a := Call.newGotoDefault.after ((Call.newBlockOf [4, 2]).after ((Call.newGoto "L").after
      ((Call.newExpressionStatement 0).after ((Call.newIdentifierExpression "x").after .empty))))
    ∃ ns, a.Toured 8 ns ∧ ns = [8, 9, 4, 5, 7, 6, 2, 0, 1, 3, 10] ∧
      a.isAncestorOf 8 1 = .ok true ∧ a.isAncestorOf 8 12 = .ok false := by
  intro a
  have hreachable : a.Reachable := .call .newGotoDefault (.call (.newBlockOf [4, 2])
    (.call (.newGoto "L") (.call (.newExpressionStatement 0)
      (.call (.newIdentifierExpression "x") .empty))))
  obtain ⟨ns, h⟩ := exists_toured_of_reachable hreachable (r := 8) (by decide)
  have hwalk : a.descendants 8 = .ok [8, 9, 4, 5, 7, 6, 2, 0, 1, 3, 10] := by decide +kernel
  obtain rfl := Except.ok.inj (h.listed.symm.trans hwalk)
  exact ⟨_, h, rfl, h.ancestors 1 (by decide) (by decide), h.ancestors 12 (by decide) (by decide)⟩

end SyntaxForest.Arena
