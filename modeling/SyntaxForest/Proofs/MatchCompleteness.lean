import SyntaxForest.Proofs.MatchSoundness

/-!
# An instance is matched

The matcher binds a group where it first meets it, and never takes that back unless a choice makes
it.  In patterns without choices this costs nothing: if the candidate is an instance for some
assignment `s`, then each binding is forced, since every placeholder of a group has to meet the
tree that `s` gives to the group.  So the captures never leave `s`, no comparison fails, and the
match succeeds (`doMatch_of_instance`).  A reference back is the other exception: it does not match
where its group is not bound yet, whatever `s` has to say.

What is captured in the end is `s`, cut down to the groups that were bound before or that the
match has come across.  `Meets` says which groups those are: the groups of the placeholders that
are met by a node, and not by an empty slot.

The limit is no obstacle if no path down the pattern has more nodes than it allows (`NestsWithin`).
-/

namespace SyntaxForest

/-! ### Which part of a pattern is entered -/

/-- The roles of the children that a match goes on to from a pattern node of this kind. -/
def Kind.enteredRoles : Kind → List RoleId
  | pattern (.named _) => [.patternChild]
  | pattern .choice => [.alternative]
  | k => k.comparedRoles

namespace Matching

/-- A match may go on from the pattern node `p` to `q`. -/
def Enters (P : Arena) (p q : NodeId) : Prop :=
  ∃ d, P.node? p = some d ∧ ∃ r ∈ d.kind.enteredRoles, q ∈ d.children.allUnder r

/-- No path down the pattern from `p` has more than the given number of nodes. -/
def NestsWithin (P : Arena) : Nat → NodeId → Prop
  | 0, _ => False
  | depth + 1, p => ∀ q, Enters P p q → NestsWithin P depth q

/-- There are no choices and no references back at or below `p`. -/
def Straight (P : Arena) (p : NodeId) : Prop :=
  ∀ q, P.AtOrBelow p q → P.kind q ≠ .ok (.pattern .choice) ∧
    ∀ g, P.kind q ≠ .ok (.pattern (.backreference g))

mutual

/-- A match of the pattern at `p` with the candidate `c` comes across a placeholder of the group
`g` that is met by a node. -/
inductive Meets (P C : Arena) : NodeId → Option NodeId → String → Prop
  | any {p c : NodeId} {g : String} (hk : P.kind p = .ok (.pattern (.any (some g)))) :
    Meets P C p (some c) g
  | anyOrNull {p c : NodeId} {g : String} (hk : P.kind p = .ok (.pattern (.anyOrNull (some g)))) :
    Meets P C p (some c) g
  | named {p c : NodeId} {g : String} (hk : P.kind p = .ok (.pattern (.named g))) :
    Meets P C p (some c) g
  | inner {p q c : NodeId} {g g' : String} (hk : P.kind p = .ok (.pattern (.named g')))
    (hq : P.child? p .patternChild = .ok (some q)) (h : Meets P C q (some c) g) :
    Meets P C p (some c) g
  | slot {p c : NodeId} {k : Kind} {r : RoleId} {g : String} (hk : P.kind p = .ok k)
    (hr : r ∈ k.comparedRoles) (h : SlotMeets P C p c r g) : Meets P C p (some c) g

/-- The same for what the pattern `p` and the node `c` have under the role `r`. -/
inductive SlotMeets (P C : Arena) : NodeId → NodeId → RoleId → String → Prop
  | present {p c q : NodeId} {x : Option NodeId} {r : RoleId} {g : String}
    (hr : r.cardinality = .single) (hp : P.child? p r = .ok (some q)) (hc : C.child? c r = .ok x)
    (h : Meets P C q x g) : SlotMeets P C p c r g
  | listed {p c q x : NodeId} {qs xs : List NodeId} {r : RoleId} {g : String}
    (hr : r.cardinality = .many) (hp : P.childrenUnder p r = .ok qs)
    (hc : C.childrenUnder c r = .ok xs) (hqx : (q, x) ∈ qs.zip xs) (h : Meets P C q (some x) g) :
    SlotMeets P C p c r g

end

section Meets

variable {P C : Arena} {p c q : NodeId} {x : Option NodeId} {r : RoleId} {g : String}

/-- The groups met at a node, by its kind. -/
theorem meets_iff {k : Kind} (hk : P.kind p = .ok k) : Meets P C p (some c) g ↔
    k = .pattern (.any (some g)) ∨ k = .pattern (.anyOrNull (some g)) ∨ k = .pattern (.named g) ∨
      (∃ g' q, k = .pattern (.named g') ∧ P.child? p .patternChild = .ok (some q) ∧
        Meets P C q (some c) g) ∨
      ∃ r ∈ k.comparedRoles, SlotMeets P C p c r g := by
  constructor
  · intro h
    cases h with
    | any hk' => exact .inl (Except.ok.inj (hk.symm.trans hk'))
    | anyOrNull hk' => exact .inr (.inl (Except.ok.inj (hk.symm.trans hk')))
    | named hk' => exact .inr (.inr (.inl (Except.ok.inj (hk.symm.trans hk'))))
    | inner hk' hq h =>
      exact .inr (.inr (.inr (.inl ⟨_, _, Except.ok.inj (hk.symm.trans hk'), hq, h⟩)))
    | slot hk' hr h =>
      obtain rfl := Except.ok.inj (hk.symm.trans hk')
      exact .inr (.inr (.inr (.inr ⟨_, hr, h⟩)))
  · rintro (rfl | rfl | rfl | ⟨g', q, rfl, hq, h⟩ | ⟨r, hr, h⟩)
    · exact .any hk
    · exact .anyOrNull hk
    · exact .named hk
    · exact .inner hk hq h
    · exact .slot hk hr h

theorem not_slotMeets_of_none (hr : r.cardinality = .single) (hp : P.child? p r = .ok none) :
    ¬ SlotMeets P C p c r g := by
  intro h
  cases h with
  | present _ hp' => cases hp.symm.trans hp'
  | listed hr' => cases hr.symm.trans hr'

theorem slotMeets_iff_of_single (hr : r.cardinality = .single) (hp : P.child? p r = .ok (some q))
    (hc : C.child? c r = .ok x) : SlotMeets P C p c r g ↔ Meets P C q x g := by
  refine ⟨fun h => ?_, .present hr hp hc⟩
  cases h with
  | present _ hp' hc' h =>
    cases hp.symm.trans hp'
    cases hc.symm.trans hc'
    exact h
  | listed hr' => cases hr.symm.trans hr'

theorem slotMeets_iff_of_many {qs xs : List NodeId} (hr : r.cardinality = .many)
    (hp : P.childrenUnder p r = .ok qs) (hc : C.childrenUnder c r = .ok xs) :
    SlotMeets P C p c r g ↔ ∃ y ∈ qs.zip xs, Meets P C y.1 (some y.2) g := by
  refine ⟨fun h => ?_, fun ⟨y, hy, h⟩ => .listed hr hp hc hy h⟩
  cases h with
  | present hr' => cases hr.symm.trans hr'
  | listed _ hp' hc' hqx h =>
    cases hp.symm.trans hp'
    cases hc.symm.trans hc'
    exact ⟨_, hqx, h⟩

end Meets

open Captures Arena

/-! ### Parts of a match that cannot fail -/

/-- The captures are intact, and every tree in them is the one that `s` has for its group. -/
def Follows (s : Assignment) (m : Captures) : Prop := m.Intact ∧ s.Extends m.assignment

/-- As long as the captures follow `s`, the part `x` answers yes, and the captures follow `s`
afterwards; the groups that `G` holds of are bound then, and those that were bound before. -/
def Succeeds (s : Assignment) (G : String → Prop) (x : Matching Bool) : Prop :=
  ∀ ⦃run : Run⦄, Follows s run.captures → ∃ run', x run = .ok true run' ∧
    Follows s run'.captures ∧
      ∀ g, run'.captures.isBound g = true ↔ run.captures.isBound g = true ∨ G g

section Parts

variable {C : Arena} {s : Assignment} {G G' : String → Prop}

theorem Succeeds.congr {x : Matching Bool} (h : Succeeds s G x) (hG : ∀ g, G' g ↔ G g) :
    Succeeds s G' x := by
  intro run hrun
  obtain ⟨run', hx, hfollows, hbound⟩ := h hrun
  exact ⟨run', hx, hfollows, fun g => by rw [hbound g, hG g]⟩

theorem succeeds_pure (hG : ∀ g, ¬ G g) : Succeeds s G (pure true) :=
  fun run hrun => ⟨run, rfl, hrun, fun g => by simp [hG g]⟩

/-- One part after the other. -/
theorem Succeeds.seq {x y : Matching Bool} (hx : Succeeds s G x) (hy : Succeeds s G' y) :
    Succeeds s (fun g => G g ∨ G' g) (do if ← x then y else return false) := by
  intro run hrun
  obtain ⟨run₁, hfirst, hfollows, hbound⟩ := hx hrun
  obtain ⟨run₂, hsecond, hfollows', hbound'⟩ := hy hfollows
  refine ⟨run₂, by rw [seq_of_ok hfirst]; exact hsecond, hfollows', fun g => ?_⟩
  rw [hbound' g, hbound g, or_assoc]

theorem succeeds_settled {α : Type} {e : Except Fault α} {v : α} {f : α → Matching Bool}
    (he : e = .ok v) (hf : Succeeds s G (f v)) : Succeeds s G (settled e >>= f) := by
  intro run hrun
  rw [seq_of_ok (settled_of_ok he run)]
  exact hf hrun

theorem succeeds_allM {α : Type} {f : α → Matching Bool} {G : α → String → Prop} :
    ∀ {xs : List α}, (∀ x ∈ xs, Succeeds s (G x) (f x)) →
      Succeeds s (fun g => ∃ x ∈ xs, G x g) (xs.allM f)
  | [], _ => succeeds_pure (by simp)
  | x :: xs, h => by
    intro run hrun
    obtain ⟨run₁, hfirst, hfollows, hbound⟩ := h x List.mem_cons_self hrun
    obtain ⟨run₂, hrest, hfollows', hbound'⟩ :=
      succeeds_allM (fun y hy => h y (List.mem_cons_of_mem _ hy)) hfollows
    refine ⟨run₂, by rw [allM_cons_of_true hfirst, hrest], hfollows', fun g => ?_⟩
    rw [hbound' g, hbound g, or_assoc]
    exact or_congr_right (List.exists_mem_cons_iff (G · g) x xs).symm

/-- **A forced binding**: if the node is what `s` has for the group, then binding the group to it
succeeds, whether or not the group is bound already. -/
theorem succeeds_bind {g : String} {c : NodeId} (h : s.Holds C g c) :
    Succeeds s (· = g) (bind C g c) := by
  intro run hrun
  obtain ⟨t, ht, hs⟩ := h
  obtain ⟨v, run', hbind, hgrown, hyes, hassign, hbound⟩ := exists_bind_eq_ok ht hrun.1 g
  -- a tree that the group remembers already is one of `s`, and `s` has only `t` for it
  have hv : v = true := hyes.mpr fun u hu => by
    have := (hrun.2 g u hu).symm.trans hs
    exact Option.some.inj this
  subst hv
  refine ⟨run', hbind, ⟨hgrown.intact hrun.1, fun g' u hu => ?_⟩, hbound⟩
  rcases (hbound g').mp (isBound_of_assignment hu) with hold | rfl
  · obtain ⟨w, hw⟩ := hrun.1.exists_assignment hold
    rw [← (hgrown.assignment_mono hw).symm.trans hu]
    exact hrun.2 g' w hw
  · rw [← (hassign rfl).symm.trans hu, hs]

theorem succeeds_bindOptional {group : Option String} {c : NodeId}
    (h : ∀ g, group = some g → s.Holds C g c) :
    Succeeds s (fun g => group = some g) (bindOptional C group c) := by
  cases group with
  | none => exact succeeds_pure (by simp)
  | some g => exact (succeeds_bind (h g rfl)).congr fun g' => by rw [Option.some_inj, eq_comm]

end Parts

/-! ### One level -/

section Level

variable {P C : Arena} {s : Assignment} {enter : NodeId → Option NodeId → Matching Bool}
  {p : NodeId}
  (henter : ∀ q x, Enters P p q → Instance P C s q x → Succeeds s (Meets P C q x) (enter q x))

theorem enters_of_child? {q : NodeId} {k : Kind} {r : RoleId} (hk : P.kind p = .ok k)
    (hr : r ∈ k.enteredRoles) (hq : P.child? p r = .ok (some q)) : Enters P p q := by
  obtain ⟨d, hd, rfl⟩ := kind_eq_ok_iff.mp hk
  obtain ⟨e, he, hfirst⟩ := child?_eq_ok_iff.mp hq
  obtain rfl : d = e := Option.some.inj (hd.symm.trans he)
  exact ⟨d, hd, r, hr, ChildList.mem_allUnder_iff.mpr (ChildList.mem_of_firstUnder? hfirst)⟩

theorem enters_of_childrenUnder {q : NodeId} {qs : List NodeId} {k : Kind} {r : RoleId}
    (hk : P.kind p = .ok k) (hr : r ∈ k.enteredRoles) (hqs : P.childrenUnder p r = .ok qs)
    (hq : q ∈ qs) : Enters P p q := by
  obtain ⟨d, hd, rfl⟩ := kind_eq_ok_iff.mp hk
  obtain ⟨e, he, rfl⟩ := childrenUnder_eq_ok_iff.mp hqs
  obtain rfl : d = e := Option.some.inj (hd.symm.trans he)
  exact ⟨d, hd, r, hr, hq⟩

include henter

theorem succeeds_matchRole {c : NodeId} {k : Kind} {r : RoleId} (hk : P.kind p = .ok k)
    (hr : r ∈ k.enteredRoles) (h : SlotInstance P C s p c r) :
    Succeeds s (SlotMeets P C p c r) (matchRole P C enter p c r) := by
  unfold matchRole
  cases h with
  | empty hcard hp hc =>
    rw [hcard]
    refine succeeds_settled hp (succeeds_settled hc (succeeds_pure fun g hg => ?_))
    exact not_slotMeets_of_none hcard hp hg
  | @unnamed _ _ x hp hc =>
    refine succeeds_settled hp (succeeds_settled hc ?_)
    cases x with
    | none => exact succeeds_pure fun g hg => not_slotMeets_of_none rfl hp hg
    | some x => exact succeeds_pure fun g hg => not_slotMeets_of_none rfl hp hg
  | @present _ _ q x _ hcard hp hc hq =>
    rw [hcard]
    refine succeeds_settled hp (succeeds_settled hc ?_)
    exact (henter q x (enters_of_child? hk hr hp) hq).congr fun g =>
      slotMeets_iff_of_single hcard hp hc
  | @listed _ _ qs xs _ hcard hp hc hlength hqs =>
    rw [hcard]
    refine succeeds_settled hp (succeeds_settled hc ?_)
    simp only [if_pos hlength]
    refine (succeeds_allM (f := fun y => enter y.1 (some y.2)) fun y hy => ?_).congr fun g =>
      slotMeets_iff_of_many hcard hp hc
    exact henter y.1 (some y.2) (enters_of_childrenUnder hk hr hp (List.of_mem_zip hy).1)
      (hqs y.1 y.2 hy)

theorem succeeds_matchConcrete {c : NodeId} {k : Kind} (hk : P.kind p = .ok k)
    (hplain : ∀ x, k ≠ .pattern x) (hc : C.kind c = .ok k)
    (hslots : ∀ r ∈ k.comparedRoles, SlotInstance P C s p c r) :
    Succeeds s (Meets P C p (some c)) (matchConcrete P C enter p k c) := by
  -- only placeholders are entered by other roles than they are compared by
  have hentered : k.enteredRoles = k.comparedRoles := by
    cases k with
    | pattern x => exact absurd rfl (hplain x)
    | _ => rfl
  refine succeeds_settled hc ?_
  simp only [if_true]
  have hroles := succeeds_allM fun r hr =>
    succeeds_matchRole henter hk (hentered ▸ hr) (hslots r hr)
  refine hroles.congr fun g => ?_
  rw [meets_iff hk]
  simp [hplain]

/-- **One level** of a pattern without choices and references back, given that it cannot fail
below. -/
theorem succeeds_matchLevel {c : Option NodeId} (hstraight : Straight P p)
    (h : Instance P C s p c) : Succeeds s (Meets P C p c) (matchLevel P C enter p c) := by
  cases h with
  | any hk hgroup =>
    refine succeeds_settled hk ((succeeds_bindOptional hgroup).congr fun g => ?_)
    rw [meets_iff hk]
    simp [Kind.comparedRoles]
  | anyOrNull hk hgroup =>
    refine succeeds_settled hk ((succeeds_bindOptional hgroup).congr fun g => ?_)
    rw [meets_iff hk]
    simp [Kind.comparedRoles]
  | absent hk => exact succeeds_settled hk (succeeds_pure fun g hg => by cases hg)
  | backreference hk => exact absurd hk ((hstraight p (.refl P p)).2 _)
  | choice hk => exact absurd hk (hstraight p (.refl P p)).1
  | @named _ q c g hk hq hinner hgroup =>
    refine succeeds_settled hk (succeeds_settled hq ?_)
    -- the groups inside are bound first, and the group of the node itself last
    have hbelow := henter q (some c) (enters_of_child? hk (by simp [Kind.enteredRoles]) hq) hinner
    refine (hbelow.seq (succeeds_bind hgroup)).congr fun g' => ?_
    rw [meets_iff hk]
    simp [Kind.comparedRoles, hq, or_comm, eq_comm]
  | @concrete _ c k hk hplain hc hslots =>
    refine succeeds_settled hk ?_
    have hconcrete := succeeds_matchConcrete henter hk hplain hc hslots
    cases k with
    | pattern x => exact absurd rfl (hplain x)
    | token t => exact hconcrete
    | identifier name => exact hconcrete
    | expression e => exact hconcrete
    | statement shape => exact hconcrete

end Level

/-! ### A whole match -/

section Whole

variable {P C : Arena}

theorem Straight.of_enters (hP : P.WellFormed) {p q : NodeId} (h : Straight P p)
    (hq : Enters P p q) : Straight P q := by
  obtain ⟨d, hd, r, -, hmem⟩ := hq
  have hchild := hP.atOrBelow_child hd (ChildList.mem_allUnder_iff.mp hmem)
  exact fun x hx => h x (hchild.trans hx)

/-- **Every level** of a pattern that is not too deep succeeds on its instances. -/
theorem succeeds_matchNode (hP : P.WellFormed) (s : Assignment) (maxDepth : Nat) :
    ∀ {depth : Nat} {p : NodeId} {c : Option NodeId}, Straight P p → NestsWithin P depth p →
      Instance P C s p c → Succeeds s (Meets P C p c) (matchNode P C maxDepth depth p c)
  | 0, _, _, _, hdepth, _ => hdepth.elim
  | _ + 1, _, _, hstraight, hdepth, h =>
    succeeds_matchLevel (fun _ _ hq hx =>
      succeeds_matchNode hP s maxDepth (hstraight.of_enters hP hq) (hdepth _ hq) hx) hstraight h

/-- **Completeness** for patterns without choices and references back: if the candidate is an
instance for an assignment that extends what was captured before, and the pattern is not too deep,
then the match succeeds.  What is captured afterwards are the trees that the assignment has for
the groups that were bound before and for those that the match has met. -/
theorem doMatch_of_instance (hP : P.WellFormed) {p c : NodeId} {maxDepth : Nat} {run : Run}
    {s : Assignment} (hm : run.captures.Intact) (hs : s.Extends run.captures.assignment)
    (hstraight : Straight P p) (hdepth : NestsWithin P maxDepth p)
    (h : Instance P C s p (some c)) :
    ∃ run', doMatch P p C c maxDepth run = .ok true run' ∧
      ∀ g t, run'.captures.assignment g = some t ↔
        s g = some t ∧ (run.captures.isBound g = true ∨ Meets P C p (some c) g) := by
  obtain ⟨run', hrun, hfollows, hbound⟩ :=
    succeeds_matchNode hP s maxDepth hstraight hdepth h ⟨hm, hs⟩
  refine ⟨run', doMatch_of_true hrun, fun g t => ?_⟩
  rw [← hbound g]
  refine ⟨fun ht => ⟨hfollows.2 g t ht, isBound_of_assignment ht⟩, fun ⟨ht, hg⟩ => ?_⟩
  -- a group that is bound has some tree, and it cannot be another one than that of `s`
  obtain ⟨u, hu⟩ := hfollows.1.exists_assignment hg
  rw [hu, ← hfollows.2 g u hu, ht]

theorem mem_of_kind_doublePattern {q : Nat} {k : Kind} (hk : doublePattern.kind q = .ok k) :
    k ∈ [.pattern (.any (some "g")), .expression (.binary .add), .token (.operator .add)] := by
  obtain ⟨d, hd, rfl⟩ := kind_eq_ok_iff.mp hk
  have hq : q < 4 := lt_size_of_node? hd
  have hcases : q = 0 ∨ q = 1 ∨ q = 2 ∨ q = 3 := by omega
  rcases hcases with rfl | rfl | rfl | rfl <;> cases hd <;> decide

theorem straight_doublePattern : Straight doublePattern 2 := by
  refine fun q _ => ⟨fun hk => ?_, fun g hk => ?_⟩
  · simpa using mem_of_kind_doublePattern hk
  · simpa using mem_of_kind_doublePattern hk

theorem nestsWithin_doublePattern : NestsWithin doublePattern 2 2 := by
  rintro q ⟨d, hd, r, hr, hq⟩ q' ⟨d', hd', r', hr', -⟩
  cases hd
  have hoperand : q = 0 ∨ q = 1 := by
    rcases List.mem_cons.mp hr with rfl | hr
    · exact .inl (List.mem_singleton.mp hq)
    · obtain rfl := List.mem_singleton.mp hr
      exact .inr (List.mem_singleton.mp hq)
  rcases hoperand with rfl | rfl <;> cases hd' <;> cases hr'

/-- Both operands are the name that the group stands for. -/
theorem instance_double {s : Assignment} {t : Tree} (ht : (sumOf "x" "x").tree? 0 = some t)
    (hs : s "g" = some t) : Instance doublePattern (sumOf "x" "x") s 2 (some 4) := by
  have hoperand : ∀ {p c : Nat}, doublePattern.kind p = .ok (.pattern (.any (some "g"))) →
      (sumOf "x" "x").tree? c = some t → Instance doublePattern (sumOf "x" "x") s p (some c) := by
    refine fun hk hc => .any hk fun g hg => ?_
    obtain rfl := Option.some.inj hg
    exact ⟨t, tree?_eq_some_iff.mp hc, hs⟩
  refine .concrete (k := .expression (.binary .add)) rfl nofun rfl fun r hr => ?_
  rcases List.mem_cons.mp hr with rfl | hr
  · exact .present rfl (q := 0) rfl rfl (hoperand rfl ht)
  · obtain rfl := List.mem_singleton.mp hr
    exact .present rfl (q := 1) rfl rfl (hoperand rfl (ht ▸ rfl))

/-- The group is met at the left operand. -/
theorem meets_double : Meets doublePattern (sumOf "x" "x") 2 (some 4) "g" :=
  .slot (k := .expression (.binary .add)) rfl List.mem_cons_self
    (.present rfl (q := 0) (x := some 0) rfl rfl (.any rfl))

/-- The assignment that keeps what is held, and gives the left operand to the group.  That is also
the tree that the group has captured after the match. -/
theorem doMatch_of_instance_double :
    ∃ s : Assignment, s.Extends heldName.captures.assignment ∧ Straight doublePattern 2 ∧
      NestsWithin doublePattern 2 2 ∧ Instance doublePattern (sumOf "x" "x") s 2 (some 4) ∧
      ∃ run', doMatch doublePattern 2 (sumOf "x" "x") 4 2 heldName = .ok true run' ∧
        run'.captures.assignment "g" =
          some (.make (.expression .identifier) [(.identifier, .make (.identifier "x") [])]) ∧
        ∀ g t, run'.captures.assignment g = some t ↔ s g = some t ∧
          (heldName.captures.isBound g = true ∨
            Meets doublePattern (sumOf "x" "x") 2 (some 4) g) := by
  let t : Tree := .make (.expression .identifier) [(.identifier, .make (.identifier "x") [])]
  have ht : (sumOf "x" "x").tree? 0 = some t := rfl
  let s : Assignment := fun g => if g = "g" then some t else heldName.captures.assignment g
  have hs : s.Extends heldName.captures.assignment := by
    intro g u hu
    have hg : g ≠ "g" := by
      rintro rfl
      cases hu
    exact (if_neg hg).trans hu
  have hinstance := instance_double (s := s) ht (if_pos rfl)
  obtain ⟨run', hrun, hcaptured⟩ := doMatch_of_instance reachable_doublePattern.wellFormed
    intact_heldName hs straight_doublePattern nestsWithin_doublePattern hinstance
  exact ⟨s, hs, straight_doublePattern, nestsWithin_doublePattern, hinstance, run', hrun,
    (hcaptured "g" t).mpr ⟨if_pos rfl, .inr meets_double⟩, hcaptured⟩

end Whole

end Matching

end SyntaxForest
