import SyntaxForest.Proofs.MatchCompleteness

/-!
# Matching again

A match that has succeeded succeeds again, from the captures that it has left and from all captures
that remember as much (`Recalls`).  What the first match has bound, the second one finds bound, to a
tree that agrees; and a reference back that has found its group finds it again.  The two runs need
not be the same, for a choice may now have an earlier alternative that matches, since more groups
are bound than the first time.  But that is no reason to fail: the alternative which matched the
first time is still there, and it is tried from captures that remember all that it had bound.

`Repeatable` says this of a part of a match.  It is put together from the parts of a level to a
level (`repeatable_matchLevel`), and by induction from the levels below to a whole pattern
(`repeatable_matchNode`).  Without choices nothing is left to be bound the second time, so that the
captures stay what they are; this is carried along as the part under `plain`.
-/

namespace SyntaxForest

/-! ### Captures that remember as much -/

namespace Captures

variable {m m' n n' : Captures} {C : Arena} {Z : NodeId → Prop}

/-- The captures `n` are intact and have all the trees of `m`, and maybe more. -/
structure Recalls (n m : Captures) : Prop where
  intact : n.Intact
  assigned : n.assignment.Extends m.assignment

theorem Recalls.refl (hm : m.Intact) : m.Recalls m := ⟨hm, fun _ _ h => h⟩

/-- What is remembered of grown captures is remembered of the captures before. -/
theorem Recalls.of_grown (h : n.Recalls m') (hgrown : Grown C Z m m') : n.Recalls m :=
  ⟨h.intact, Matching.extends_of_grown hgrown h.assigned⟩

/-- Growth forgets nothing. -/
theorem Recalls.grown (h : n.Recalls m) (hgrown : Grown C Z n n') : n'.Recalls m :=
  ⟨hgrown.intact h.intact, fun g t ht => hgrown.assignment_mono (h.assigned g t ht)⟩

end Captures

namespace Matching

open Captures Arena

/-! ### Parts that succeed again -/

/-- If `x` answers yes, then it does so again from all captures that recall what it has left behind;
and if `plain` holds, it leaves those captures as they are. -/
def Repeatable (plain : Prop) (x : Matching Bool) : Prop :=
  ∀ ⦃run run' again : Run⦄, run.captures.Intact → x run = .ok true run' →
    again.captures.Recalls run'.captures →
      ∃ again', x again = .ok true again' ∧ (plain → again'.captures = again.captures)

section Parts

variable {C : Arena} {Z : NodeId → Prop} {ok plain : Prop}

theorem repeatable_pure (v : Bool) : Repeatable plain (pure v) := by
  intro run run' again _ h _
  cases h
  exact ⟨again, rfl, fun _ => rfl⟩

/-- What was read may be used about the arena it was read from. -/
theorem repeatable_settled_bind {α : Type} {e : Except Fault α} {f : α → Matching Bool}
    (hf : ∀ v, e = .ok v → Repeatable plain (f v)) : Repeatable plain (settled e >>= f) := by
  intro run run' again hm h hrecalls
  obtain ⟨v, hv, hrest⟩ := settled_seq_eq_ok h
  rw [seq_of_ok (settled_of_ok hv again)]
  exact hf v hv hm hrest hrecalls

/-- One part, and then another one if it matches. -/
theorem Repeatable.seq {x : Matching Bool} {f : Bool → Matching Bool} (hx : Repeatable plain x)
    (hf : Repeatable plain (f true)) (hfalse : f false = pure false) (hgrows : Grows C Z x)
    (hgrows' : Grows C Z (f true)) : Repeatable plain (x >>= f) := by
  intro run run' again hm h hrecalls
  obtain ⟨v, run₁, hfirst, hrest⟩ := seq_eq_ok h
  cases v with
  | false =>
    rw [hfalse] at hrest
    cases hrest
  | true =>
    have hm₁ : run₁.captures.Intact := (hgrows hfirst).intact hm
    -- what the second part has left is more than the first one has left
    obtain ⟨again₁, hagain, hsame⟩ := hx hm hfirst (hrecalls.of_grown (hgrows' hrest))
    have hrecalls₁ := hrecalls.grown (hgrows hagain)
    obtain ⟨again₂, hagain', hsame'⟩ := hf hm₁ hrest hrecalls₁
    refine ⟨again₂, by rw [seq_of_ok hagain, hagain'], fun hplain => ?_⟩
    rw [hsame' hplain, hsame hplain]

theorem repeatable_allM {α : Type} {f : α → Matching Bool} : ∀ {xs : List α},
    (∀ x ∈ xs, Behaves C Z ok (f x)) → (∀ x ∈ xs, Repeatable plain (f x)) →
      Repeatable plain (xs.allM f)
  | [], _, _ => repeatable_pure true
  | x :: xs, hbehaves, h => by
    have hrest : ∀ y ∈ xs, Behaves C Z ok (f y) := fun y hy =>
      hbehaves y (List.mem_cons_of_mem _ hy)
    refine (h x List.mem_cons_self).seq ?_ rfl (hbehaves x List.mem_cons_self).grows
      (behaves_allM hrest).grows
    exact repeatable_allM hrest fun y hy => h y (List.mem_cons_of_mem _ hy)

/-- A group that stands for the tree at a node agrees with the node. -/
theorem exists_agrees_of_holds {g : String} {c : NodeId} {run : Run}
    (h : run.captures.assignment.Holds C g c) :
    ∃ b, run.captures.find? g = some b ∧ agrees C b c run = .ok true run := by
  obtain ⟨t, ht, hassign⟩ := h
  obtain ⟨b, hb, hcopy⟩ := assignment_eq_some_iff.mp hassign
  obtain ⟨v, hv, hiff⟩ := exists_agrees_eq_ok ht hcopy
  exact ⟨b, hb, by rw [hv, hiff.mpr rfl]⟩

/-- A group that was bound by the first match is compared by the second one. -/
theorem repeatable_bind (hC : C.WellFormed) (g : String) (c : NodeId) :
    Repeatable plain (bind C g c) := by
  intro run run' again hm h hrecalls
  have hholds := sound_bind hC g c hm h _ hrecalls.assigned
  obtain ⟨b, hb, hagrees⟩ := exists_agrees_of_holds hholds
  exact ⟨again, by rw [bind_of_bound hb, hagrees], fun _ => rfl⟩

theorem repeatable_bindOptional (hC : C.WellFormed) (g : Option String) (c : NodeId) :
    Repeatable plain (bindOptional C g c) := by
  cases g with
  | none => exact repeatable_pure true
  | some g => exact repeatable_bind hC g c

theorem repeatable_backreference {P : Arena} {enter : NodeId → Option NodeId → Matching Bool}
    (hC : C.WellFormed) (p : NodeId) (g : String) (c : Option NodeId) :
    Repeatable plain (matchPlaceholder P C enter p (.backreference g) c) := by
  intro run run' again hm h hrecalls
  cases c with
  | none => cases backreference_of_absent.symm.trans h
  | some c =>
    cases hb : run.captures.find? g with
    | none => cases (backreference_of_unbound hb (some c)).symm.trans h
    | some b =>
      rw [backreference_of_bound hb] at h
      have hholds := sound_agrees hC hb hm h hrecalls.assigned
      obtain ⟨b', hb', hagrees⟩ := exists_agrees_of_holds hholds
      exact ⟨again, by rw [backreference_of_bound hb', hagrees], fun _ => rfl⟩

end Parts

/-! ### One level -/

section Level

variable {P C : Arena} {enter : NodeId → Option NodeId → Matching Bool} {plain : Prop} {p : NodeId}
  (hP : P.WellFormed) (hC : C.WellFormed)
  (hbehaves : ∀ q c, Behaves C (Region C c) (InRange P C q c) (enter q c))
  (henter : ∀ q c, Enters P p q → InRange P C q c → Repeatable plain (enter q c))

include hP hC hbehaves henter

theorem repeatable_matchRole {c : NodeId} {k : Kind} {r : RoleId} (hk : P.kind p = .ok k)
    (hr : r ∈ k.enteredRoles) : Repeatable plain (matchRole P C enter p c r) := by
  unfold matchRole
  cases r.cardinality with
  | single =>
    refine repeatable_settled_bind fun q hq => repeatable_settled_bind fun x hx => ?_
    cases q with
    | none => cases x <;> exact repeatable_pure _
    | some q =>
      refine henter q x (enters_of_child? hk hr hq) ⟨(hP.atOrBelow_of_child? hq).2, ?_⟩
      rintro y rfl
      exact (hC.atOrBelow_of_child? hx).2
  | many =>
    refine repeatable_settled_bind fun qs hqs => repeatable_settled_bind fun xs hxs => ?_
    split_ifs
    · have hsteps : ∀ y ∈ qs.zip xs, Behaves C (C.AtOrBelow c) False (enter y.1 (some y.2)) := by
        intro y hy
        refine (hbehaves y.1 (some y.2)).mono (fun n hn => hn.below ?_) False.elim
        rintro z ⟨⟩
        exact (hC.atOrBelow_of_childrenUnder hxs (List.of_mem_zip hy).2).1
      refine repeatable_allM hsteps fun y hy => ?_
      have hq := (List.of_mem_zip hy).1
      refine henter y.1 (some y.2) (enters_of_childrenUnder hk hr hqs hq)
        ⟨(hP.atOrBelow_of_childrenUnder hqs hq).2, ?_⟩
      rintro z ⟨⟩
      exact (hC.atOrBelow_of_childrenUnder hxs (List.of_mem_zip hy).2).2
    · exact repeatable_pure false

theorem repeatable_matchConcrete {k : Kind} (hk : P.kind p = .ok k)
    (hroles : k.enteredRoles = k.comparedRoles) (c : NodeId) :
    Repeatable plain (matchConcrete P C enter p k c) := by
  refine repeatable_settled_bind fun k' _ => ?_
  split_ifs
  · exact repeatable_allM (fun r _ => behaves_matchRole hP hC hbehaves p c r) fun r hr =>
      repeatable_matchRole hP hC hbehaves henter hk (hroles ▸ hr)
  · exact repeatable_pure false

omit hP hC in
/-- The alternative that matched the first time is tried again unless an earlier one matches, and
those that do not match leave the captures as they were. -/
theorem repeatable_tryEach {c : Option NodeId} (hchoice : ¬ plain) : ∀ {qs : List NodeId},
    (∀ q ∈ qs, Enters P p q ∧ InRange P C q c) → Repeatable plain (tryEach enter c qs)
  | [], _ => fun _ _ _ _ h _ => by cases h
  | q :: qs, hqs => by
    intro run run' again hm h hrecalls
    obtain ⟨hq, hrange⟩ := hqs q List.mem_cons_self
    obtain ⟨v, run₁, hfirst, -⟩ := seq_eq_ok (x := enter q c) h
    cases v with
    | true =>
      cases (tryEach_of_true hfirst).symm.trans h
      obtain ⟨again₁, hagain, -⟩ := henter q c hq hrange hm hfirst hrecalls
      exact ⟨again₁, tryEach_of_true hagain, fun hplain => absurd hplain hchoice⟩
    | false =>
      rw [tryEach_of_false hfirst ((hbehaves q c).grows hfirst).precedes hm.closed] at h
      obtain ⟨w, again₁, hagain⟩ := (hbehaves q c).total hrange hrecalls.intact
      cases w with
      | true => exact ⟨again₁, tryEach_of_true hagain, fun hplain => absurd hplain hchoice⟩
      | false =>
        rw [tryEach_of_false hagain ((hbehaves q c).grows hagain).precedes hrecalls.intact.closed]
        exact repeatable_tryEach hchoice (fun x hx => hqs x (List.mem_cons_of_mem _ hx))
          (by exact hm) h (by exact hrecalls)

theorem repeatable_matchPlaceholder {placeholder : Placeholder} {c : Option NodeId}
    (hk : P.kind p = .ok (.pattern placeholder)) (hrange : InRange P C p c)
    (hplain : plain → placeholder ≠ .choice) :
    Repeatable plain (matchPlaceholder P C enter p placeholder c) := by
  cases placeholder with
  | any g =>
    cases c with
    | none => exact repeatable_pure false
    | some c => exact repeatable_bindOptional hC g c
  | anyOrNull g =>
    cases c with
    | none => exact repeatable_pure true
    | some c => exact repeatable_bindOptional hC g c
  | backreference g => exact repeatable_backreference hC p g c
  | named g =>
    refine repeatable_settled_bind fun q hq => ?_
    cases q with
    | none => exact repeatable_pure false
    | some q =>
      cases c with
      | none => exact repeatable_pure false
      | some c =>
        -- the group is bound after what is inside of it
        have hinner := henter q (some c) (enters_of_child? hk List.mem_cons_self hq)
          ⟨(hP.atOrBelow_of_child? hq).2, hrange.2⟩
        have hgrows : Grows C (Region C (some c)) (bind C g c) := fun _ _ _ h =>
          ((behaves_bind hC g c).grows h).mono fun n hn => ⟨c, rfl, .inl hn⟩
        exact hinner.seq (repeatable_bind hC g c) rfl (hbehaves q (some c)).grows hgrows
  | choice =>
    refine repeatable_settled_bind fun qs hqs => ?_
    refine repeatable_tryEach hbehaves henter (fun h => hplain h rfl) fun q hq => ?_
    exact ⟨enters_of_childrenUnder hk List.mem_cons_self hqs hq,
      (hP.atOrBelow_of_childrenUnder hqs hq).2, hrange.2⟩

/-- **One level**, given that the levels below it succeed again. -/
theorem repeatable_matchLevel {c : Option NodeId} (hrange : InRange P C p c)
    (hplain : plain → P.kind p ≠ .ok (.pattern .choice)) :
    Repeatable plain (matchLevel P C enter p c) := by
  refine repeatable_settled_bind fun k hk => ?_
  cases k with
  | pattern placeholder =>
    refine repeatable_matchPlaceholder hP hC hbehaves henter hk hrange fun h hchoice => ?_
    exact hplain h (hchoice ▸ hk)
  | token _ | identifier _ | expression _ | statement _ =>
    cases c with
    | none => exact repeatable_pure false
    | some c => exact repeatable_matchConcrete hP hC hbehaves henter hk rfl c

end Level

/-! ### A whole match -/

section Whole

variable {P C : Arena}

/-- There are no choices at or below `p`. -/
def ChoiceFree (P : Arena) (p : NodeId) : Prop :=
  ∀ q, P.AtOrBelow p q → P.kind q ≠ .ok (.pattern .choice)

theorem ChoiceFree.of_enters (hP : P.WellFormed) {p q : NodeId} (h : ChoiceFree P p)
    (hq : Enters P p q) : ChoiceFree P q := by
  obtain ⟨d, hd, r, -, hmem⟩ := hq
  have hchild := hP.atOrBelow_child hd (ChildList.mem_allUnder_iff.mp hmem)
  exact fun x hx => h x (hchild.trans hx)

/-- **Every level** succeeds again. -/
theorem repeatable_matchNode (hP : P.WellFormed) (hC : C.WellFormed) (maxDepth : Nat) :
    ∀ (depth : Nat) {p : NodeId} {c : Option NodeId}, InRange P C p c →
      Repeatable (ChoiceFree P p) (matchNode P C maxDepth depth p c)
  | 0, _, _, _ => fun _ _ _ _ h _ => by cases h
  | depth + 1, p, c, hrange => by
    refine repeatable_matchLevel hP hC (behaves_matchNode hP hC maxDepth depth) ?_ hrange
      fun hfree => hfree p (.refl P p)
    intro q x hq hrange' run run' again hm h hrecalls
    obtain ⟨again', hagain, hsame⟩ := repeatable_matchNode hP hC maxDepth depth hrange' hm h hrecalls
    exact ⟨again', hagain, fun hfree => hsame (hfree.of_enters hP hq)⟩

/-- **Matching again** succeeds.  Take a match that has succeeded.  The captures that it has left
are intact, and from them, and from all intact captures that have at least their trees, the same
match succeeds again.  It only adds to the captures, so that no group is lost or bound anew; and if
there are no choices in the pattern, it adds nothing. -/
theorem doMatch_again (hP : P.WellFormed) (hC : C.WellFormed) {p c : NodeId} (hp : p < P.size)
    (hc : c < C.size) {maxDepth : Nat} {run run' : Run} (hm : run.captures.Intact)
    (h : doMatch P p C c maxDepth run = .ok true run') :
    run'.captures.Recalls run'.captures ∧
    ∀ again : Run, again.captures.Recalls run'.captures →
      ∃ again', doMatch P p C c maxDepth again = .ok true again' ∧
        again.captures.Precedes again'.captures ∧
        (∀ g b, again.captures.find? g = some b → again'.captures.find? g = some b) ∧
        (ChoiceFree P p → again'.captures = again.captures) := by
  have hbehaves := behaves_matchNode hP hC maxDepth maxDepth p (some c)
  have hrange : InRange P C p (some c) := ⟨hp, fun x hx => Option.some.inj hx ▸ hc⟩
  have hnode := matchNode_of_doMatch h
  have hm' : run'.captures.Intact := (hbehaves.grows hnode).intact hm
  refine ⟨.refl hm', fun again hrecalls => ?_⟩
  obtain ⟨again', hagain, hsame⟩ :=
    repeatable_matchNode hP hC maxDepth maxDepth hrange hm hnode hrecalls
  have hgrown := hbehaves.grows hagain
  exact ⟨again', doMatch_of_true hagain, hgrown.precedes, fun g b => hgrown.find?_eq, hsame⟩

/-- The pattern at `3` is for what the group `g` remembers, which it then calls `k`, and otherwise
for any node, which it calls `g`. -/
def laterPattern : Arena :=
  (Call.newChoice [1, 2]).after ((Call.newAny (some "g")).after
    ((Call.newNamed "k" 0).after ((Call.newBackreference "g").after .empty)))

theorem wellFormed_laterPattern : laterPattern.WellFormed :=
  (Reachable.call (.newChoice [1, 2]) (.call (.newAny (some "g"))
    (.call (.newNamed "k" 0) (.call (.newBackreference "g") .empty)))).wellFormed

/-- The second match takes the first alternative, which the first match could not take, and binds
another group; a sum of equal operands binds nothing more the second time. -/
theorem doMatch_again_later :
    (∃ run' again', doMatch laterPattern 3 (sumOf "x" "x") 0 3 heldName = .ok true run' ∧
      run'.captures.bindings.map (·.group) = ["h", "g"] ∧
      doMatch laterPattern 3 (sumOf "x" "x") 0 3 run' = .ok true again' ∧
      again'.captures.bindings.map (·.group) = ["h", "g", "k"] ∧
      run'.captures.Precedes again'.captures) ∧
    ∃ run' again', doMatch doublePattern 2 (sumOf "x" "x") 4 2 heldName = .ok true run' ∧
      doMatch doublePattern 2 (sumOf "x" "x") 4 2 run' = .ok true again' ∧
      again'.captures = run'.captures := by
  constructor
  · obtain ⟨run', again', hrun, hgroups, hagain, hgroups'⟩ : ∃ run' again',
        doMatch laterPattern 3 (sumOf "x" "x") 0 3 heldName = .ok true run' ∧
        run'.captures.bindings.map (·.group) = ["h", "g"] ∧
        doMatch laterPattern 3 (sumOf "x" "x") 0 3 run' = .ok true again' ∧
        again'.captures.bindings.map (·.group) = ["h", "g", "k"] := ⟨_, _, rfl, rfl, rfl, rfl⟩
    obtain ⟨hself, hrepeats⟩ := doMatch_again wellFormed_laterPattern (wellFormed_sumOf "x" "x")
      (by decide) (by decide) intact_heldName hrun
    obtain ⟨again₁, hagain₁, hprecedes, -⟩ := hrepeats run' hself
    cases hagain.symm.trans hagain₁
    exact ⟨run', again', hrun, hgroups, hagain, hgroups', hprecedes⟩
  · obtain ⟨run', hrun⟩ : ∃ run',
        doMatch doublePattern 2 (sumOf "x" "x") 4 2 heldName = .ok true run' := ⟨_, rfl⟩
    obtain ⟨hself, hrepeats⟩ := doMatch_again reachable_doublePattern.wellFormed
      (wellFormed_sumOf "x" "x") (by decide) (by decide) intact_heldName hrun
    obtain ⟨again', hagain, -, -, hsame⟩ := hrepeats run' hself
    exact ⟨run', again', hrun, hagain, hsame fun q hq => (straight_doublePattern q hq).1⟩

end Whole

end Matching

end SyntaxForest
