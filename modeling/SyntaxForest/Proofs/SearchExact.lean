import SyntaxForest.Matching.Search
import SyntaxForest.Proofs.Acceptance
import SyntaxForest.Proofs.MatchShape

/-!
# Searches find exactly the matches

A search matches each candidate with nothing captured before.  Only the warnings go from one match
to the next, and a match does not read them: the matches from two lists of warnings go together,
with nodes that are the same ones (`exists_doMatch_fresh`).  So there is one answer for each
candidate (`match?`), and a search picks the candidates that have one (`exists_findMatches_eq`).
What it lists is in the order of the walk and without repetitions, since the walk is.

The walks from two roots that are alike list nodes at the same places (`forall₂_preorder`), and the
answers for nodes at the same places bind the same groups at the same places (`rel_match?`).  So
both searches list the same, but for the ids.
-/

namespace SyntaxForest

open Arena

/-! ### Captures that grow from nothing -/

namespace Captures

variable {C C' : Arena} {R : Nat → Nat → Prop} {m m' n n' : Captures}

/-- The captures bind the same groups in the same order, to nodes that are related. -/
def BoundAlike (R : Nat → Nat → Prop) (m m' : Captures) : Prop :=
  List.Forall₂ (fun b b' => b.group = b'.group ∧ R b.node b'.node) m.bindings m'.bindings

theorem GrownAlike.boundAlike (h : GrownAlike C C' R empty empty n n') : n.BoundAlike R n' := by
  induction h with
  | refl => exact .nil
  | bind hgrown hg hg' hc _ _ _ _ ih =>
    rw [BoundAlike, (hgrown.left.keyed keyed_empty).bindings_record hg,
      (hgrown.right.keyed keyed_empty).bindings_record hg']
    exact List.rel_append ih (.cons ⟨rfl, hc⟩ .nil)

/-- Captures that grow by the same nodes of the same arena stay the same. -/
theorem GrownAlike.eq_of_same (hR : ∀ x y, R x y → x = y) (h : GrownAlike C C R m m n n') :
    n = n' := by
  induction h with
  | refl => rfl
  | bind _ _ _ hc _ _ hcopy hcopy' ih =>
    subst ih
    obtain rfl := hR _ _ hc
    cases hcopy.symm.trans hcopy'
    rfl

end Captures

/-! ### Walks that go together -/

namespace Arena

variable {a b : Arena} {R : Nat → Nat → Prop}

/-- The walks from related nodes list related nodes. -/
theorem forall₂_preorder (h : Lockstep a b R) : ∀ {fuel fuel' x y : Nat} {ns ms : List NodeId},
    R x y → a.preorder fuel x = .ok ns → b.preorder fuel' y = .ok ms → List.Forall₂ R ns ms
  | 0, _, _, _, _, _, _, hns, _ => by cases hns
  | _ + 1, 0, _, _, _, _, _, _, hms => by cases hms
  | fuel + 1, fuel' + 1, x, y, ns, ms, hxy, hns, hms => by
    obtain ⟨d, nss, hd, rfl, hbelow⟩ := preorder_succ_eq_ok hns
    obtain ⟨e, mss, he, rfl, hbelow'⟩ := preorder_succ_eq_ok hms
    refine .cons hxy (List.rel_flatten ?_)
    -- along the children, which are related one by one
    have hchildren := h.children hxy hd he
    generalize d.children = cs at hchildren hbelow
    generalize e.children = ds at hchildren hbelow'
    clear hns hms
    induction hchildren generalizing nss mss with
    | nil =>
      cases hbelow
      cases hbelow'
      exact .nil
    | cons hc _ ih =>
      cases hbelow with
      | cons hfirst hrest =>
        cases hbelow' with
        | cons hfirst' hrest' =>
          exact .cons (forall₂_preorder h hc.2 hfirst hfirst') (ih _ _ hrest hrest')

/-- The nodes at or below `n`, each next to itself. -/
def SameBelow (a : Arena) (n x y : Nat) : Prop := x = y ∧ x < a.size ∧ a.AtOrBelow n x

theorem lockstep_sameBelow (hw : a.WellFormed) (n : Nat) : Lockstep a a (a.SameBelow n) where
  alike := by
    rintro x y ⟨rfl, hx, -⟩
    obtain ⟨t, ht⟩ := hw.exists_isAt hx
    exact ⟨t, ht, ht⟩
  children := by
    rintro x y d e ⟨rfl, -, hbelow⟩ hd he
    obtain rfl := Option.some.inj (hd.symm.trans he)
    refine List.forall₂_same.mpr fun c hc => ⟨rfl, rfl, hw.child_lt x d c hd hc, ?_⟩
    exact hbelow.trans (hw.atOrBelow_child hd hc)

end Arena

namespace Matching

variable {P C C' : Arena} {p n n' : Nat}

/-! ### One answer for each candidate -/

/-- The captures of a match from nothing captured before, if there is a match. -/
def match? (P : Arena) (p : NodeId) (C : Arena) (n : NodeId) : Option Captures :=
  match doMatch P p C n defaultMaxDepth ⟨{}, []⟩ with
  | .ok true run => some run.captures
  | _ => none

theorem match?_of_ok {matched : Bool} {run : Run}
    (h : doMatch P p C n defaultMaxDepth ⟨{}, []⟩ = .ok matched run) :
    match? P p C n = if matched then some run.captures else none := by
  rw [match?, h]
  cases matched <;> rfl

theorem match?_eq_some_iff {m : Captures} : match? P p C n = some m ↔
    ∃ warnings, doMatch P p C n defaultMaxDepth ⟨{}, []⟩ = .ok true ⟨m, warnings⟩ := by
  constructor
  · intro h
    cases hrun : doMatch P p C n defaultMaxDepth ⟨{}, []⟩ with
    | error e run =>
      rw [match?, hrun] at h
      cases h
    | ok matched run =>
      rw [match?_of_ok hrun] at h
      cases matched with
      | false => cases h
      | true =>
        cases h
        exact ⟨run.warnings, rfl⟩
  · rintro ⟨warnings, h⟩
    rw [match?_of_ok h]
    rfl

/-- **Warnings are not read**: the matches from any warnings and from none have the same answer and
the same captures, which bind nodes at or below the candidate. -/
theorem exists_doMatch_fresh (hP : P.WellFormed) (hC : C.WellFormed) (hp : p < P.size)
    (hn : n < C.size) (warnings : List DepthWarning) :
    ∃ matched run run', doMatch P p C n defaultMaxDepth ⟨{}, warnings⟩ = .ok matched run ∧
      doMatch P p C n defaultMaxDepth ⟨{}, []⟩ = .ok matched run' ∧
      run.captures = run'.captures ∧ ∀ b ∈ run'.captures.bindings, C.AtOrBelow n b.node := by
  obtain ⟨t, ht⟩ := hP.exists_isAt hp
  have hpattern : P.Alike P p p := ⟨t, ht, ht⟩
  have hsame : C.SameBelow n n n := ⟨rfl, hn, .refl C n⟩
  have hempty : (⟨{}, warnings⟩ : Run).captures.Similar (⟨{}, []⟩ : Run).captures :=
    Captures.similar_empty
  obtain ⟨matched, run, run', hrun, hrun', htogether⟩ :=
    inStep_doMatch (lockstep_alike P P) (lockstep_sameBelow hC n) hpattern hsame defaultMaxDepth
      hempty
  have heq := htogether.grown.eq_of_same fun _ _ h => h.1
  refine ⟨matched, run, run', hrun, hrun', heq, fun b hb => ?_⟩
  have hbound : run.captures.BoundAlike (C.SameBelow n) run'.captures :=
    htogether.grown.boundAlike
  rw [heq] at hbound
  exact (List.forall₂_same.mp hbound b hb).2.2.2

theorem atOrBelow_of_match? (hP : P.WellFormed) (hC : C.WellFormed) (hp : p < P.size)
    (hn : n < C.size) {m : Captures} (h : match? P p C n = some m) {b : Binding}
    (hb : b ∈ m.bindings) : C.AtOrBelow n b.node := by
  obtain ⟨matched, run, run', -, hrun, -, hbelow⟩ := exists_doMatch_fresh hP hC hp hn []
  rw [match?_of_ok hrun] at h
  cases matched with
  | false => cases h
  | true =>
    cases h
    exact hbelow b hb

/-- The answers for related candidates bind the same groups to related nodes. -/
theorem rel_match? {R : Nat → Nat → Prop} (hC : Lockstep C C' R) (hp : P.Alike P p p)
    (hn : R n n') : Option.Rel (Captures.BoundAlike R) (match? P p C n) (match? P p C' n') := by
  have hempty : (⟨{}, []⟩ : Run).captures.Similar (⟨{}, []⟩ : Run).captures :=
    Captures.similar_empty
  obtain ⟨matched, run, run', hrun, hrun', htogether⟩ :=
    inStep_doMatch (lockstep_alike P P) hC hp hn defaultMaxDepth hempty
  rw [match?_of_ok hrun, match?_of_ok hrun']
  cases matched with
  | false => exact .none
  | true => exact .some htogether.grown.boundAlike

end Matching

/-! ### Searches -/

namespace Search

open Matching

variable {P C C' : Arena} {p : Nat}

/-- The entry for a candidate that has an answer. -/
def hit? (P : Arena) (p : NodeId) (C : Arena) (n : NodeId) : Option (NodeId × Captures) :=
  (match? P p C n).map (n, ·)

theorem exists_matches?_eq (hP : P.WellFormed) (hC : C.WellFormed) (hp : p < P.size) {n : Nat}
    (hn : n < C.size) (warnings : List DepthWarning) :
    ∃ warnings', matches? P p C n warnings = .ok (match? P p C n) warnings' := by
  obtain ⟨matched, run, run', hrun, hrun', heq, -⟩ := exists_doMatch_fresh hP hC hp hn warnings
  refine ⟨run.warnings, ?_⟩
  rw [matches?, hrun, match?_of_ok hrun', ← heq]

theorem bind_of_ok {α β : Type} {x : Search α} {f : α → Search β} {v : α}
    {warnings warnings' : List DepthWarning} (h : x warnings = .ok v warnings') :
    (x >>= f) warnings = f v warnings' := by
  show EStateM.bind x f warnings = _
  rw [EStateM.bind, h]

theorem run'_of_ok {α : Type} {x : Search α} {v : α} {warnings warnings' : List DepthWarning}
    (h : x warnings = .ok v warnings') : x.run' warnings = some v := by
  delta EStateM.run' EStateM.run
  rw [h]

/-- One candidate after the other is matched as if it were alone. -/
theorem exists_matchesAmong_eq (hP : P.WellFormed) (hC : C.WellFormed) (hp : p < P.size) :
    ∀ {ns : List NodeId}, (∀ n ∈ ns, n < C.size) → ∀ warnings : List DepthWarning,
      ∃ warnings', matchesAmong P p C ns warnings = .ok (ns.filterMap (hit? P p C)) warnings'
  | [], _, warnings => ⟨warnings, rfl⟩
  | n :: ns, hns, warnings => by
    obtain ⟨warnings₁, hfirst⟩ :=
      exists_matches?_eq hP hC hp (hns n List.mem_cons_self) warnings
    obtain ⟨warnings₂, hrest⟩ := exists_matchesAmong_eq hP hC hp
      (fun m hm => hns m (List.mem_cons_of_mem n hm)) warnings₁
    refine ⟨warnings₂, ?_⟩
    cases hanswer : match? P p C n with
    | none =>
      rw [hanswer] at hfirst
      rw [List.filterMap_cons_none (by rw [hit?, hanswer]; rfl)]
      rw [matchesAmong, bind_of_ok hfirst]
      exact hrest
    | some m =>
      rw [hanswer] at hfirst
      rw [List.filterMap_cons_some (by rw [hit?, hanswer]; rfl)]
      rw [matchesAmong, bind_of_ok hfirst]
      exact bind_of_ok hrest

/-- **A search** goes over the walk from its root. -/
theorem exists_findMatches_eq (hP : P.WellFormed) (hC : C.WellFormed) (hp : p < P.size)
    {root : Nat} (hroot : root < C.size) (warnings : List DepthWarning) :
    ∃ ns warnings', C.preorder (C.size + 1) root = .ok ns ∧ C.descendants root = .ok ns ∧
      findMatches P p C root warnings = .ok (ns.filterMap (hit? P p C)) warnings' := by
  obtain ⟨ns, hrec, hwalk⟩ := hC.exists_preorder_eq_descendants hroot
  obtain ⟨warnings', hfound⟩ := exists_matchesAmong_eq hP hC hp
    (fun n hn => lt_size_of_preorder hC hroot hrec hn) warnings
  refine ⟨ns, warnings', hrec, hwalk, ?_⟩
  rw [findMatches, hwalk]
  exact hfound

/-! ### What is found -/

/-- The nodes of the entries are the candidates that have an answer. -/
theorem map_fst_filterMap_hit? (ns : List NodeId) :
    (ns.filterMap (hit? P p C)).map (·.1) = ns.filter fun n => (match? P p C n).isSome := by
  induction ns with
  | nil => rfl
  | cons n ns ih =>
    cases hanswer : match? P p C n with
    | none =>
      rw [List.filterMap_cons_none (by rw [hit?, hanswer]; rfl), ih, List.filter_cons_of_neg]
      simp [hanswer]
    | some m =>
      rw [List.filterMap_cons_some (by rw [hit?, hanswer]; rfl), List.map_cons, ih,
        List.filter_cons_of_pos]
      simp [hanswer]

theorem mem_filterMap_hit?_iff {ns : List NodeId} {n : NodeId} {m : Captures} :
    (n, m) ∈ ns.filterMap (hit? P p C) ↔ n ∈ ns ∧ match? P p C n = some m := by
  simp only [List.mem_filterMap, hit?, Option.map_eq_some_iff, Prod.mk.injEq]
  constructor
  · rintro ⟨k, hk, m', hm', rfl, rfl⟩
    exact ⟨hk, hm'⟩
  · rintro ⟨hn, hm⟩
    exact ⟨n, hn, m, hm, rfl, rfl⟩

/-- The entries are for the matches at and below `root`, and for nothing else. -/
structure Finds (P : Arena) (p : NodeId) (C : Arena) (root : NodeId)
    (found : List (NodeId × Captures)) : Prop where
  /-- They are in the order of the walk. -/
  preorder : ∃ ns, C.descendants root = .ok ns ∧ (found.map (·.1)).Sublist ns
  /-- No node has two entries. -/
  nodup : (found.map (·.1)).Nodup
  /-- A node has an entry exactly if it is at or below `root` and a match with nothing captured
  before succeeds there; the entry has what this match captures. -/
  mem_iff : ∀ n m, (n, m) ∈ found ↔ (n = root ∨ C.isAncestorOf root n = .ok true) ∧
    ∃ warnings, doMatch P p C n defaultMaxDepth ⟨{}, []⟩ = .ok true ⟨m, warnings⟩
  /-- An entry binds nodes at and below its own node. -/
  inside : ∀ n m, (n, m) ∈ found →
    ∃ ns, C.descendants n = .ok ns ∧ ∀ b ∈ m.bindings, b.node ∈ ns

theorem finds_filterMap (hP : P.WellFormed) (hC : C.WellFormed) (hp : p < P.size) {root : Nat}
    (hroot : root < C.size) {fuel : Nat} {ns : List NodeId} (hrec : C.preorder fuel root = .ok ns)
    (hwalk : C.descendants root = .ok ns) : Finds P p C root (ns.filterMap (hit? P p C)) := by
  have hlt : ∀ {n}, n ∈ ns → n < C.size := fun hn => lt_size_of_preorder hC hroot hrec hn
  have hreached : ∀ n, n ∈ ns ↔ n = root ∨ C.isAncestorOf root n = .ok true := by
    intro n
    rw [mem_preorder_iff hC hrec]
    exact or_congr Iff.rfl hC.isAncestorOf_eq_true_iff.symm
  constructor
  case preorder =>
    rw [map_fst_filterMap_hit?]
    exact ⟨ns, hwalk, List.filter_sublist⟩
  case nodup =>
    rw [map_fst_filterMap_hit?]
    exact (nodup_preorder hC hrec).filter _
  case mem_iff =>
    intro n m
    rw [mem_filterMap_hit?_iff, hreached, match?_eq_some_iff]
  case inside =>
    intro n m hentry
    obtain ⟨hn, hm⟩ := mem_filterMap_hit?_iff.mp hentry
    obtain ⟨ks, hks, hmem⟩ := exists_descendants_eq_ok hC (hlt hn)
    exact ⟨ks, hks, fun b hb => (hmem b.node).mpr (atOrBelow_of_match? hP hC hp (hlt hn) hm hb)⟩

/-- The entries are for nodes at the same places below the roots, and bind the same groups in the
same order to nodes at the same places. -/
def FoundAlike (C C' : Arena) (root root' : NodeId) (found found' : List (NodeId × Captures)) :
    Prop :=
  List.Forall₂ (fun e e' => C.SamePlace C' root root' e.1 e'.1 ∧
    e.2.BoundAlike (C.SamePlace C' root root') e'.2) found found'

theorem foundAlike_filterMap (hp : P.Alike P p p) {root root' : Nat} {ns ns' : List NodeId}
    (h : List.Forall₂ (C.Peers C' root root') ns ns') :
    FoundAlike C C' root root' (ns.filterMap (hit? P p C)) (ns'.filterMap (hit? P p C')) := by
  refine List.rel_filterMap (fun n n' hn => ?_) h
  have hanswer := rel_match? (lockstep_peers C C' root root') hp hn
  rw [hit?, hit?]
  generalize match? P p C n = m at hanswer ⊢
  generalize match? P p C' n' = m' at hanswer ⊢
  cases hanswer with
  | none => exact .none
  | some hbound => exact .some ⟨hn.2, hbound.imp fun b b' hb => ⟨hb.1, hb.2.2⟩⟩

/-- **Searches find exactly the matches**, in arenas that calls lead to: a search comes to its end
with entries for the nodes at and below its root where a match from nothing succeeds, in the order
of the walk, each with what this match captures.  From a root that is structurally equal, in such an
arena, a search finds the same at the same places. -/
theorem findMatches_exact (hP : P.Reachable) (hC : C.Reachable) (hp : p < P.size) {root : Nat}
    (hroot : root < C.size) (warnings : List DepthWarning) :
    ∃ found rest, findMatches P p C root warnings = .ok found rest ∧ Finds P p C root found ∧
      ∀ (C' : Arena) (root' : NodeId) (warnings' : List DepthWarning), C'.Reachable →
        C.structurallyEqual root C' root' = .ok true →
        ∃ found' rest', findMatches P p C' root' warnings' = .ok found' rest' ∧
          FoundAlike C C' root root' found found' := by
  obtain ⟨ns, rest, hrec, hwalk, hfound⟩ :=
    exists_findMatches_eq hP.wellFormed hC.wellFormed hp hroot warnings
  refine ⟨_, rest, hfound, finds_filterMap hP.wellFormed hC.wellFormed hp hroot hrec hwalk, ?_⟩
  intro C' root' warnings' hC' hequal
  have halike : C.Alike C' root root' := structurallyEqual_eq_true_iff.mp hequal
  have hroot' : root' < C'.size := lt_size_of_structurallyEqual hequal
  obtain ⟨ns', rest', hrec', -, hfound'⟩ :=
    exists_findMatches_eq hP.wellFormed hC'.wellFormed hp hroot' warnings'
  obtain ⟨u, hu⟩ := hP.wellFormed.exists_isAt hp
  refine ⟨_, rest', hfound', foundAlike_filterMap ⟨u, hu, hu⟩ ?_⟩
  exact forall₂_preorder (lockstep_peers C C' root root') (.refl halike) hrec hrec'

/-- The candidate at `12` is the sum of two sums, at `8` and `10`, of equal names. -/
def sumOfSums : Arena :=
  (Call.newBinary 8 .add 10).after ((Call.newBinary 4 .add 6).after ((Call.newBinary 0 .add 2).after
    ((Call.newIdentifierExpression "x").after ((Call.newIdentifierExpression "x").after
      ((Call.newIdentifierExpression "x").after ((Call.newIdentifierExpression "x").after
        .empty))))))

theorem reachable_sumOfSums : sumOfSums.Reachable :=
  .call (.newBinary 8 .add 10) (.call (.newBinary 4 .add 6) (.call (.newBinary 0 .add 2)
    (.call (.newIdentifierExpression "x") (.call (.newIdentifierExpression "x")
      (.call (.newIdentifierExpression "x") (.call (.newIdentifierExpression "x") .empty))))))

/-- All three sums have equal operands, and the group is bound anew for each of them.  The copy `14`
of the whole has the same matches at the same places. -/
theorem findMatches_exact_sums :
    ∃ found rest, findMatches doublePattern 2 sumOfSums 12 [] = .ok found rest ∧
      Finds doublePattern 2 sumOfSums 12 found ∧
      (found.map fun e => (e.1, e.2.get? "g")) = [(12, some 8), (8, some 0), (10, some 4)] ∧
      ∃ found' rest', findMatches doublePattern 2 ((Call.cloneSubtree 12).after sumOfSums) 14 [] =
          .ok found' rest' ∧
        FoundAlike sumOfSums ((Call.cloneSubtree 12).after sumOfSums) 12 14 found found' := by
  obtain ⟨found, rest, hfound, hfinds, halike⟩ := findMatches_exact reachable_doublePattern
    reachable_sumOfSums (p := 2) (by decide) (by decide : 12 < sumOfSums.size) []
  have hentries : (found.map fun e => (e.1, e.2.get? "g")) =
      [(12, some 8), (8, some 0), (10, some 4)] := by
    have heval : ((findMatches doublePattern 2 sumOfSums 12).run' []).map
        (·.map fun e => (e.1, e.2.get? "g")) = some [(12, some 8), (8, some 0), (10, some 4)] := by
      decide +kernel
    rw [run'_of_ok hfound] at heval
    exact Option.some.inj heval
  exact ⟨found, rest, hfound, hfinds, hentries, halike _ 14 [] (.call (.cloneSubtree 12)
    reachable_sumOfSums) (by decide +kernel)⟩

end Search

end SyntaxForest
