import SyntaxForest.Proofs.Agenda

/-!
# Patterns without placeholders

A pattern without placeholders is compared with the candidate and captures nothing.  What is
compared is the `skeleton` of a tree: the kinds, and the trees under the roles that carry meaning,
in the order of the grammar.  Tokens are not in it, and neither is anything else under other roles.

One skeleton `Covers` another if they are equal, except that where the first has no name the second
may have one, at any depth.  Covering is reflexive and transitive (`Covers.refl`, `Covers.trans`).
It is what the matcher decides: a part of a match that has no placeholders to look at comes to an
end, leaves the captures alone, and answers a question about trees (`Decides`).  The question that a
pattern node of the tree `s` puts to a node of the tree `t`, with so many levels left, is
`Fits depth s t`; one level of it (`fits_succ_iff`) is one level of the matcher
(`decides_matchLevel`).
-/

namespace SyntaxForest

/-! ### The trees under a role -/

namespace Tree

/-- The trees under a role, in order. -/
def under (t : Tree) (r : RoleId) : List Tree := (t.branches.filter (·.1 = r)).map (·.2)

theorem mem_under_iff {t u : Tree} {r : RoleId} : u ∈ t.under r ↔ (r, u) ∈ t.branches := by
  simp only [under, List.mem_map, List.mem_filter, decide_eq_true_eq]
  constructor
  · rintro ⟨x, ⟨hx, rfl⟩, rfl⟩
    exact hx
  · intro h
    exact ⟨(r, u), ⟨h, rfl⟩, rfl⟩

/-- The children under a role stand for the trees under it. -/
theorem IsAt.under {a : Arena} {t : Tree} {n : Nat} {d : Node} (ht : t.IsAt a n)
    (hn : a.node? n = some d) (r : RoleId) :
    List.Forall₂ (fun u x => u.IsAt a x) (t.under r) (d.children.allUnder r) := by
  obtain ⟨e, he, -, hbelow⟩ := Tree.isAt_iff.mp ht
  obtain rfl : d = e := Option.some.inj (hn.symm.trans he)
  refine List.rel_map (fun x c hx => ?_) (List.rel_filter (fun x c hx => ?_) hbelow)
  · exact hx.2
  · simp [hx.1]

theorem depth_le_succ_iff {t : Tree} {depth : Nat} :
    t.depth ≤ depth + 1 ↔ ∀ r, ∀ u ∈ t.under r, u.depth ≤ depth := by
  constructor
  · intro h r u hu
    have hlt : u.depth < t.depth := depth_lt_of_mem (mem_under_iff.mp hu)
    omega
  · intro h
    rcases t.depth_eq_one_or with hone | ⟨x, hx, hdepth⟩
    · omega
    · have hle := h x.1 x.2 (mem_under_iff.mpr hx)
      omega

end Tree

theorem ChildList.firstUnder?_eq_head? (cs : ChildList) (r : RoleId) :
    cs.firstUnder? r = (cs.allUnder r).head? := by
  rw [firstUnder?, allUnder, List.head?_map, List.head?_filter]

/-! ### Skeletons -/

mutual

/-- What a match compares of a tree: the kinds, and what is under the compared roles, role by
role. -/
def Tree.skeleton : Tree → Tree
  | .node k below =>
    .make k (k.comparedRoles.flatMap fun r => below.skeletons.filter (·.1 = r))

/-- The skeletons of the trees, with their roles. -/
def Forest.skeletons : Forest → List (RoleId × Tree)
  | .nil => []
  | .cons r tree rest => (r, tree.skeleton) :: rest.skeletons

end

theorem Forest.skeletons_eq : ∀ ts : Forest,
    ts.skeletons = ts.toList.map fun x => (x.1, x.2.skeleton)
  | .nil => rfl
  | .cons _ _ rest => by rw [skeletons, toList, List.map_cons, skeletons_eq rest]

/-- Sorting by role loses nothing under the roles that are sorted by. -/
theorem filter_flatMap_filter {α : Type} (xs : List (RoleId × α)) (r : RoleId) :
    ∀ {rs : List RoleId}, rs.Nodup → (rs.flatMap fun s => xs.filter (·.1 = s)).filter (·.1 = r) =
      if r ∈ rs then xs.filter (·.1 = r) else []
  | [], _ => rfl
  | s :: rs, hnodup => by
    obtain ⟨hs, hrs⟩ := List.nodup_cons.mp hnodup
    rw [List.flatMap_cons, List.filter_append, filter_flatMap_filter xs r hrs, List.filter_filter]
    by_cases hr : r = s
    · subst hr
      simp [hs]
    · have hnone : xs.filter (fun x => decide (x.1 = r) && decide (x.1 = s)) = [] := by
        refine List.filter_eq_nil_iff.mpr fun x _ => ?_
        simp only [Bool.and_eq_true, decide_eq_true_eq]
        rintro ⟨rfl, h⟩
        exact hr h
      rw [hnone, List.nil_append]
      simp [hr]

namespace Tree

@[simp] theorem kind_skeleton (t : Tree) : t.skeleton.kind = t.kind := by
  obtain ⟨k, below⟩ := t
  rfl

theorem skeleton_eq (t : Tree) : t.skeleton =
    make t.kind
      (t.kind.comparedRoles.flatMap fun r => (t.under r).map fun u => (r, u.skeleton)) := by
  obtain ⟨k, below⟩ := t
  rw [skeleton, Forest.skeletons_eq]
  refine congrArg (make k) (List.flatMap_congr fun r _ => ?_)
  rw [under, List.filter_map, List.map_map]
  refine List.map_congr_left fun x hx => ?_
  exact Prod.ext (by simpa using List.of_mem_filter hx) rfl

theorem under_skeleton (t : Tree) (r : RoleId) :
    t.skeleton.under r = if r ∈ t.kind.comparedRoles then (t.under r).map skeleton else [] := by
  obtain ⟨k, below⟩ := t
  unfold under
  rw [skeleton, branches_make, filter_flatMap_filter _ _ k.nodup_comparedRoles,
    Forest.skeletons_eq, List.filter_map]
  show _ = if r ∈ k.comparedRoles then _ else _
  split_ifs
  · simp [branches, Function.comp_def]
  · rfl

/-! ### Covering -/

/-- The trees are equal, except that the first may lack a name where the second has one. -/
inductive Covers : Tree → Tree → Prop
  | intro {s t : Tree} (hkind : s.kind = t.kind)
    (hslots : ∀ r, (r = .identifier → s.under r ≠ []) →
      List.Forall₂ Covers (s.under r) (t.under r)) : Covers s t

namespace Covers

theorem refl (t : Tree) : t.Covers t := by
  induction t using Tree.induction with
  | h t ih =>
    refine .intro rfl fun r _ => List.forall₂_same.mpr fun u hu => ?_
    exact ih (r, u) (mem_under_iff.mp hu)

theorem trans {s : Tree} : ∀ {t u : Tree}, s.Covers t → t.Covers u → s.Covers u := by
  induction s using Tree.induction with
  | h s ih =>
    rintro t u ⟨hkind, hslots⟩ ⟨hkind', hslots'⟩
    refine .intro (hkind.trans hkind') fun r hname => ?_
    have hfirst := hslots r hname
    -- a name that `s` has is one that `t` has too
    have hname' : r = .identifier → t.under r ≠ [] := by
      intro hr hnil
      rw [hnil, List.forall₂_nil_right_iff] at hfirst
      exact hname hr hfirst
    have hbelow : ∀ x ∈ s.under r, ∀ y z, x.Covers y → y.Covers z → x.Covers z :=
      fun x hx _ _ => ih (r, x) (mem_under_iff.mp hx)
    refine forall₂_of_common (fun y x z hx hz => ?_)
      ((List.forall₂_and_left _ _).mpr ⟨hbelow, hfirst⟩).flip (hslots' r hname')
    exact hx.1 y z hx.2 hz

end Covers

/-- What covering means for skeletons, one level down. -/
theorem covers_skeleton_iff {s t : Tree} : s.skeleton.Covers t.skeleton ↔
    s.kind = t.kind ∧ ∀ r ∈ s.kind.comparedRoles, (r = .identifier → s.under r ≠ []) →
      List.Forall₂ (fun u v => u.skeleton.Covers v.skeleton) (s.under r) (t.under r) := by
  constructor
  · rintro ⟨hkind, hslots⟩
    rw [kind_skeleton, kind_skeleton] at hkind
    refine ⟨hkind, fun r hr hname => ?_⟩
    have hslot := hslots r
    rw [under_skeleton, under_skeleton, ← hkind, if_pos hr, if_pos hr, List.forall₂_map_left_iff,
      List.forall₂_map_right_iff] at hslot
    exact hslot fun hid => by simpa using hname hid
  · rintro ⟨hkind, hslots⟩
    refine .intro (by simp [hkind]) fun r hname => ?_
    rw [under_skeleton, under_skeleton, ← hkind] at *
    by_cases hr : r ∈ s.kind.comparedRoles
    · rw [if_pos hr] at hname
      rw [if_pos hr, if_pos hr, List.forall₂_map_left_iff, List.forall₂_map_right_iff]
      exact hslots r hr fun hid => by simpa using hname hid
    · rw [if_neg hr, if_neg hr]
      exact .nil

/-- How deep a skeleton is, one level down. -/
theorem depth_skeleton_le_succ_iff {t : Tree} {depth : Nat} : t.skeleton.depth ≤ depth + 1 ↔
    ∀ r ∈ t.kind.comparedRoles, ∀ u ∈ t.under r, u.skeleton.depth ≤ depth := by
  rw [depth_le_succ_iff]
  refine forall_congr' fun r => ?_
  rw [under_skeleton]
  by_cases hr : r ∈ t.kind.comparedRoles <;> simp [hr]

end Tree

namespace Matching

open Arena

/-! ### Parts of a match that only compare -/

/-- The part `x` of a match comes to an end, leaves the captures as they are, and answers whether
`Q` holds. -/
def Decides (Q : Prop) (x : Matching Bool) : Prop :=
  ∀ run : Run, ∃ v run', x run = .ok v run' ∧ run'.captures = run.captures ∧ (v = true ↔ Q)

section Parts

variable {Q Q' : Prop}

theorem Decides.congr {x : Matching Bool} (hx : Decides Q x) (h : Q' ↔ Q) : Decides Q' x := by
  intro run
  obtain ⟨v, run', hrun, hsame, hv⟩ := hx run
  exact ⟨v, run', hrun, hsame, hv.trans h.symm⟩

theorem decides_pure {v : Bool} (h : v = true ↔ Q) : Decides Q (pure v) :=
  fun run => ⟨v, run, rfl, rfl, h⟩

theorem decides_settled {α : Type} {e : Except Fault α} {v : α} {f : α → Matching Bool}
    (he : e = .ok v) (hf : Decides Q (f v)) : Decides Q (settled e >>= f) := by
  intro run
  rw [seq_of_ok (settled_of_ok he run)]
  exact hf run

theorem decides_allM_cons {α : Type} {f : α → Matching Bool} {x : α} {xs : List α}
    (hx : Decides Q (f x)) (hxs : Decides Q' (xs.allM f)) :
    Decides (Q ∧ Q') ((x :: xs).allM f) := by
  intro run
  obtain ⟨v, run₁, hfirst, hsame, hv⟩ := hx run
  cases v with
  | false =>
    refine ⟨false, run₁, ?_, hsame, ⟨nofun, fun h => hv.mpr h.1⟩⟩
    show (f x >>= _ : Matching Bool) run = _
    rw [seq_of_ok hfirst]
    rfl
  | true =>
    obtain ⟨w, run₂, hrest, hsame', hw⟩ := hxs run₁
    refine ⟨w, run₂, by rw [allM_cons_of_true hfirst, hrest], hsame'.trans hsame, ?_⟩
    rw [hw, and_iff_right (hv.mp rfl)]

theorem decides_allM {α : Type} {f : α → Matching Bool} {Q : α → Prop} : ∀ {xs : List α},
    (∀ x ∈ xs, Decides (Q x) (f x)) → Decides (∀ x ∈ xs, Q x) (xs.allM f)
  | [], _ => decides_pure (by simp)
  | x :: xs, h => by
    have hrest := decides_allM fun y hy => h y (List.mem_cons_of_mem x hy)
    exact (decides_allM_cons (h x List.mem_cons_self) hrest).congr List.forall_mem_cons

end Parts

/-! ### One level -/

/-- The skeleton of `s` has at most so many levels, and covers that of `t`. -/
def Fits (depth : Nat) (s t : Tree) : Prop :=
  s.skeleton.depth ≤ depth ∧ s.skeleton.Covers t.skeleton

/-- The trees `us` under a role fit the trees `vs` under it, or there is no name. -/
def SlotFits (depth : Nat) (r : RoleId) (us vs : List Tree) : Prop :=
  (r = .identifier → us ≠ []) → List.Forall₂ (Fits depth) us vs

theorem fits_succ_iff {depth : Nat} {s t : Tree} : Fits (depth + 1) s t ↔
    s.kind = t.kind ∧ ∀ r ∈ s.kind.comparedRoles, SlotFits depth r (s.under r) (t.under r) := by
  rw [Fits, Tree.depth_skeleton_le_succ_iff, Tree.covers_skeleton_iff, and_left_comm]
  refine and_congr_right fun _ => ?_
  rw [← forall₂_and]
  refine forall₂_congr fun r _ => ?_
  rw [SlotFits, show Fits depth = fun u v => u.skeleton.depth ≤ depth ∧ _ from rfl,
    List.forall₂_and_left]
  -- where there is no name, nothing is too deep
  by_cases hname : r = .identifier → s.under r ≠ []
  · rw [imp_iff_right hname, imp_iff_right hname]
  · have hnil : s.under r = [] := by
      rw [Classical.not_imp, not_not] at hname
      exact hname.2
    simp [hnil]

/-- Entering `q` compares the tree `u` with the candidate, and matches no empty slot. -/
structure Compares (C : Arena) (enter : NodeId → Option NodeId → Matching Bool) (depth : Nat)
    (q : NodeId) (u : Tree) : Prop where
  present : ∀ {x : NodeId} {v : Tree}, v.IsAt C x → Decides (Fits depth u v) (enter q (some x))
  absent : Decides False (enter q none)

section Level

variable {P C : Arena} {enter : NodeId → Option NodeId → Matching Bool} {depth : Nat}

/-- Lists are compared entry by entry. -/
theorem decides_zip : ∀ {us vs : List Tree} {qs xs : List NodeId},
    List.Forall₂ (Compares C enter depth) qs us → List.Forall₂ (fun v x => v.IsAt C x) vs xs →
      us.length = vs.length →
        Decides (List.Forall₂ (Fits depth) us vs)
          ((qs.zip xs).allM fun y => enter y.1 (some y.2))
  | [], [], _, _, .nil, .nil, _ => decides_pure (by simp)
  | _ :: _, _ :: _, _, _, .cons hu hus, .cons hv hvs, hlength => by
    have hrest := decides_zip hus hvs (Nat.succ.inj hlength)
    refine Decides.congr ?_ List.forall₂_cons
    exact decides_allM_cons (f := fun y : NodeId × NodeId => enter y.1 (some y.2))
      (hu.present hv) hrest

variable {p c : NodeId} {d : Node} {s t : Tree} (hP : P.WellFormed) (hC : C.WellFormed)
  (hs : s.IsAt P p) (ht : t.IsAt C c) (hd : P.node? p = some d)
  (hbelow : ∀ r, ∀ q ∈ d.children.allUnder r, ∀ u : Tree, u.IsAt P q → Compares C enter depth q u)

include hP hC hs ht hd hbelow

theorem decides_matchRole (r : RoleId) :
    Decides (SlotFits depth r (s.under r) (t.under r)) (matchRole P C enter p c r) := by
  obtain ⟨e, he, -, -⟩ := Tree.isAt_iff.mp ht
  have hvs := ht.under he r
  have hus : List.Forall₂ (Compares C enter depth) (d.children.allUnder r) (s.under r) :=
    ((List.forall₂_and_left _ _).mpr ⟨hbelow r, (hs.under hd r).flip⟩).imp
      fun q u h => h.1 u h.2
  unfold matchRole
  cases hcard : r.cardinality with
  | single =>
    have hsingle := hP.single_once p d r hd hcard
    have hsingle' := hC.single_once c e r he hcard
    refine decides_settled (child?_of_node? hd r) (decides_settled (child?_of_node? he r) ?_)
    rw [ChildList.firstUnder?_eq_head?, ChildList.firstUnder?_eq_head?]
    generalize d.children.allUnder r = qs at hus hsingle ⊢
    generalize e.children.allUnder r = xs at hvs hsingle' ⊢
    generalize s.under r = us at hus ⊢
    generalize t.under r = vs at hvs ⊢
    -- there is at most one tree on each side
    cases hus with
    | nil =>
      cases hvs with
      | nil => exact decides_pure (by simp [SlotFits])
      | cons hv hvs => exact decides_pure (by simp [SlotFits])
    | @cons q u qs us hu hus =>
      obtain rfl : qs = [] := by simpa using hsingle
      cases hus
      cases hvs with
      | nil => exact hu.absent.congr (by simp [SlotFits])
      | @cons v x vs xs hv hvs =>
        obtain rfl : xs = [] := by simpa using hsingle'
        cases hvs
        exact (hu.present hv).congr (by simp [SlotFits])
  | many =>
    have hid : r ≠ .identifier := by
      rintro rfl
      cases hcard
    refine decides_settled (childrenUnder_of_node? hd r)
      (decides_settled (childrenUnder_of_node? he r) ?_)
    have hlength : (s.under r).length = (t.under r).length ↔
        (d.children.allUnder r).length = (e.children.allUnder r).length := by
      rw [hus.length_eq, hvs.length_eq]
    have hslot : SlotFits depth r (s.under r) (t.under r) ↔
        List.Forall₂ (Fits depth) (s.under r) (t.under r) := by
      simp [SlotFits, hid]
    split_ifs with h
    · exact (decides_zip hus hvs (hlength.mpr h)).congr hslot
    · refine decides_pure ⟨nofun, fun hfits => ?_⟩
      exact absurd (hlength.mp (hslot.mp hfits).length_eq) h

theorem decides_matchConcrete :
    Decides (Fits (depth + 1) s t) (matchConcrete P C enter p s.kind c) := by
  obtain ⟨e, he, hkind, -⟩ := Tree.isAt_iff.mp ht
  refine decides_settled (kind_of_node? he) ?_
  rw [hkind]
  split_ifs with h
  · have hroles := decides_allM fun r (_ : r ∈ s.kind.comparedRoles) =>
      decides_matchRole hP hC hs ht hd hbelow r
    exact hroles.congr (fits_succ_iff.trans (and_iff_right h.symm))
  · exact decides_pure ⟨nofun, fun hfits => absurd (fits_succ_iff.mp hfits).1.symm h⟩

omit ht in
/-- **One level** without a placeholder, given that those below it compare trees. -/
theorem compares_matchLevel (hplain : ∀ x, s.kind ≠ .pattern x) :
    Compares C (matchLevel P C enter) (depth + 1) p s := by
  constructor
  · intro c t ht run
    rw [matchLevel_of_ordinary hs.kind_eq_ok hplain]
    exact decides_matchConcrete hP hC hs ht hd hbelow run
  · intro run
    exact ⟨false, run, matchLevel_of_absent hs.kind_eq_ok hplain, rfl, by simp⟩

end Level

/-! ### A whole match -/

section Whole

variable {P C : Arena}

/-- There are no placeholders at or below `p`. -/
def PlaceholderFree (P : Arena) (p : NodeId) : Prop :=
  ∀ q, P.AtOrBelow p q → ∀ x, P.kind q ≠ .ok (.pattern x)

theorem PlaceholderFree.of_child (hP : P.WellFormed) {p q : NodeId} {d : Node} {r : RoleId}
    (h : PlaceholderFree P p) (hd : P.node? p = some d) (hq : q ∈ d.children.allUnder r) :
    PlaceholderFree P q := by
  have hchild := hP.atOrBelow_child hd (ChildList.mem_allUnder_iff.mp hq)
  exact fun x hx => h x (hchild.trans hx)

/-- **Every level** of a pattern without placeholders compares trees. -/
theorem compares_matchNode (hP : P.WellFormed) (hC : C.WellFormed) (maxDepth : Nat) :
    ∀ (depth : Nat) {p : NodeId} {s : Tree}, s.IsAt P p → PlaceholderFree P p →
      Compares C (matchNode P C maxDepth depth) depth p s
  | 0, p, s, _, _ => by
    have hwarn : ∀ c, Decides False (matchNode P C maxDepth 0 p c) :=
      fun c run => ⟨false, _, rfl, rfl, by simp⟩
    refine ⟨fun _ => (hwarn _).congr (iff_false_intro fun hfits => ?_), hwarn none⟩
    exact absurd s.skeleton.depth_pos (Nat.not_lt.mpr hfits.1)
  | depth + 1, p, s, hs, hfree => by
    obtain ⟨d, hd, hkind, -⟩ := Tree.isAt_iff.mp hs
    refine compares_matchLevel hP hC hs hd (fun r q hq u hu => ?_) fun x hx => ?_
    · exact compares_matchNode hP hC maxDepth depth hu (hfree.of_child hP hd hq)
    · exact hfree p (.refl P p) x (by rw [kind_of_node? hd, hkind, hx])

/-- A whole match compares the trees of its two nodes. -/
theorem decides_doMatch (hP : P.WellFormed) (hC : C.WellFormed) {p c : NodeId} {s t : Tree}
    (hs : s.IsAt P p) (ht : t.IsAt C c) (hfree : PlaceholderFree P p) (maxDepth : Nat) :
    Decides (Fits maxDepth s t) (doMatch P p C c maxDepth) := by
  intro run
  obtain ⟨v, run', hrun, hsame, hv⟩ :=
    (compares_matchNode hP hC maxDepth maxDepth hs hfree).present ht run
  cases v with
  | true => exact ⟨true, run', doMatch_of_true hrun, hsame, hv⟩
  | false =>
    exact ⟨false, run', doMatch_of_false_of_same hrun hsame, hsame, hv⟩

/-- Two parts that answer the same question give the same answers. -/
theorem Decides.same {Q : Prop} {x y : Matching Bool} (hx : Decides Q x) (hy : Decides Q y)
    (run run' : Run) : ∃ v run₁ run₁', x run = .ok v run₁ ∧ y run' = .ok v run₁' := by
  obtain ⟨v, run₁, hrun, -, hv⟩ := hx run
  obtain ⟨w, run₁', hrun', -, hw⟩ := hy run'
  obtain rfl : v = w := Bool.eq_iff_iff.mpr (hv.trans hw.symm)
  exact ⟨v, run₁, run₁', hrun, hrun'⟩

/-- If the answer was yes once, then the answer to the question is yes. -/
theorem Decides.of_true {Q : Prop} {x : Matching Bool} (hx : Decides Q x) {run run' : Run}
    (h : x run = .ok true run') : Q := by
  obtain ⟨v, run₁, hrun, -, hv⟩ := hx run
  cases hrun.symm.trans h
  exact hv.mp rfl

/-- **Matching without placeholders compares skeletons.**  A match of a pattern without placeholders
comes to an end and leaves the captures alone, whatever they are.  If the limit is not below the
depth of the pattern's skeleton, its answer is whether that skeleton covers the candidate's.  So

* what is structurally equal to the pattern is matched,
* nothing but the two skeletons has an influence on the answer, and
* if a pattern matches a second one, and that one matches a third node, then the first one matches
  the third node. -/
theorem doMatch_compares_skeletons (hP : P.WellFormed) (hC : C.WellFormed) {p c : NodeId}
    (hp : p < P.size) (hc : c < C.size) (hfree : PlaceholderFree P p) (maxDepth : Nat) :
    ∃ s t : Tree, s.IsAt P p ∧ t.IsAt C c ∧
      Decides (s.skeleton.depth ≤ maxDepth ∧ s.skeleton.Covers t.skeleton)
        (doMatch P p C c maxDepth) ∧
      (P.structurallyEqual p C c = .ok true →
        Decides (s.skeleton.depth ≤ maxDepth) (doMatch P p C c maxDepth)) ∧
      (∀ (P' C' : Arena) (p' c' : NodeId) (s' t' : Tree), P'.WellFormed → C'.WellFormed →
        PlaceholderFree P' p' → s'.IsAt P' p' → t'.IsAt C' c' →
        s'.skeleton = s.skeleton → t'.skeleton = t.skeleton →
          ∀ run run', ∃ v run₁ run₁', doMatch P p C c maxDepth run = .ok v run₁ ∧
            doMatch P' p' C' c' maxDepth run' = .ok v run₁') ∧
      (∀ (D : Arena) (x : NodeId) (maxDepth' : Nat) (run run₁ run' run₁' : Run), D.WellFormed →
        x < D.size → PlaceholderFree C c → doMatch P p C c maxDepth run = .ok true run₁ →
        doMatch C c D x maxDepth' run' = .ok true run₁' →
          Decides True (doMatch P p D x maxDepth)) := by
  obtain ⟨s, hs⟩ := hP.exists_isAt hp
  obtain ⟨t, ht⟩ := hC.exists_isAt hc
  have hmatch := decides_doMatch hP hC hs ht hfree maxDepth
  refine ⟨s, t, hs, ht, hmatch, fun hequal => ?_, ?_, ?_⟩
  · obtain ⟨u, hu, hu'⟩ := structurallyEqual_eq_true_iff.mp hequal
    obtain rfl : s = u := hs.unique hu
    obtain rfl : s = t := hu'.unique ht
    exact hmatch.congr (and_iff_left (.refl _)).symm
  · intro P' C' p' c' s' t' hP' hC' hfree' hs' ht' hskeleton hskeleton' run run'
    have hmatch' := decides_doMatch hP' hC' hs' ht' hfree' maxDepth
    rw [Fits, hskeleton, hskeleton'] at hmatch'
    exact hmatch.same hmatch' run run'
  · intro D x maxDepth' run run₁ run' run₁' hD hx hfree' hfirst hsecond
    obtain ⟨u, hu⟩ := hD.exists_isAt hx
    have hcovers := hmatch.of_true hfirst
    have hcovers' := (decides_doMatch hC hD ht hu hfree' maxDepth').of_true hsecond
    -- the first match has shown that the limit is no obstacle to the pattern
    have hfits : Fits maxDepth s u := ⟨hcovers.1, hcovers.2.trans hcovers'.2⟩
    exact (decides_doMatch hP hD hs hu hfree maxDepth).congr (iff_of_true trivial hfits)

theorem placeholderFree_of_all {P : Arena} (h : ∀ d ∈ P.nodes.toList, d.kind.category ≠ .pattern)
    (p : NodeId) : PlaceholderFree P p := by
  intro q _ x hx
  obtain ⟨d, hd, hkind⟩ := kind_eq_ok_iff.mp hx
  refine h d (Array.mem_toList_iff.mpr (Array.mem_of_getElem? hd)) ?_
  rw [hkind]
  rfl

/-- A block around a goto. -/
def blockOfGoto (label : String) : Arena :=
  (Call.newBlockOf [0]).after ((Call.newGoto label).after .empty)

theorem reachable_blockOfGoto (label : String) : (blockOfGoto label).Reachable :=
  .call (.newBlockOf [0]) (.call (.newGoto label) .empty)

/-- The goto without a label stands for the goto with a label, also where that one has lost its
semicolon; not the other way round. -/
theorem doMatch_compares_skeletons_goto :
    let bare := (Call.detach 2).after (blockOfGoto "a")
    (∃ run', doMatch (blockOfGoto "") 3 (blockOfGoto "a") 4 2 heldName = .ok true run') ∧
      (∃ run', doMatch (blockOfGoto "a") 4 bare 4 3 {} = .ok true run') ∧
      (∃ run', doMatch (blockOfGoto "a") 4 (blockOfGoto "") 3 3 {} = .ok false run') ∧
      Decides True (doMatch (blockOfGoto "") 3 bare 4 2) := by
  intro bare
  have hreachable : bare.Reachable := .call (.detach 2) (reachable_blockOfGoto "a")
  have hbare := hreachable.wellFormed
  obtain ⟨run₁, hfirst⟩ :
      ∃ run', doMatch (blockOfGoto "") 3 (blockOfGoto "a") 4 2 heldName = .ok true run' := ⟨_, rfl⟩
  obtain ⟨run₂, hsecond⟩ :
      ∃ run', doMatch (blockOfGoto "a") 4 bare 4 3 {} = .ok true run' := ⟨_, rfl⟩
  obtain ⟨s, t, -, -, -, -, -, htrans⟩ := doMatch_compares_skeletons
    (reachable_blockOfGoto "").wellFormed (reachable_blockOfGoto "a").wellFormed (p := 3) (c := 4)
    (by decide) (by decide) (placeholderFree_of_all (by decide) 3) 2
  exact ⟨⟨run₁, hfirst⟩, ⟨run₂, hsecond⟩, ⟨_, rfl⟩, htrans bare 4 3 _ _ _ _ hbare (by decide)
    (placeholderFree_of_all (by decide) 4) hfirst hsecond⟩

end Whole

end Matching

end SyntaxForest
