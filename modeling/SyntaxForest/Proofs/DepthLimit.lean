import SyntaxForest.Proofs.MatchCompleteness

/-!
# What the depth limit does to a match

A pattern node beyond the limit is not entered, and a warning names it.  To the node above it this is
a mismatch like any other, and so it is up to the top, with one exception: a choice goes on to its
next alternative.  So a match that has given a warning fails, unless the node of the warning was
reached through an alternative of a choice that is not its last (`Forgiven`).

`Warns` is what is known of the warnings of one part of a match: the nodes that they may name, and
those that they may name if the part matches.  A warning counts the levels of the pattern, so that
the nodes it may name are those to which as many steps lead as the limit allows (`Descends`).
-/

namespace SyntaxForest

namespace Matching

open Arena

/-! ### Steps down a pattern -/

/-- The given number of steps down the pattern leads from the one node to the other. -/
inductive Descends (P : Arena) : Nat → NodeId → NodeId → Prop
  | refl (p : NodeId) : Descends P 0 p p
  | step {depth : Nat} {p q x : NodeId} (hq : Enters P p q) (h : Descends P depth q x) :
    Descends P (depth + 1) p x

/-- The same, with a step on the way from a choice to an alternative that is not its last. -/
inductive Forgiven (P : Arena) : Nat → NodeId → NodeId → Prop
  | alternative {depth : Nat} {p q x : NodeId} {before later : List NodeId}
    (hk : P.kind p = .ok (.pattern .choice))
    (hqs : P.childrenUnder p .alternative = .ok (before ++ q :: later)) (hlater : later ≠ [])
    (h : Descends P depth q x) : Forgiven P (depth + 1) p x
  | step {depth : Nat} {p q x : NodeId} (hq : Enters P p q) (h : Forgiven P depth q x) :
    Forgiven P (depth + 1) p x

/-- The pattern at `p` leaves nothing to choose: no choice that can be reached from `p` has a second
alternative. -/
def Decided (P : Arena) (p : NodeId) : Prop :=
  ∀ depth q qs, Descends P depth p q → P.kind q = .ok (.pattern .choice) →
    P.childrenUnder q .alternative = .ok qs → qs.length ≤ 1

theorem Decided.not_forgiven {P : Arena} {depth : Nat} {p x : NodeId} (hp : Decided P p) :
    ¬ Forgiven P depth p x := by
  intro h
  induction h with
  | @alternative _ p q _ before later hk hqs hlater _ =>
    have hlength := hp 0 p _ (.refl p) hk hqs
    have hpos := List.length_pos_iff.mpr hlater
    simp only [List.length_append, List.length_cons] at hlength
    omega
  | step hq _ ih => exact ih fun depth q' qs hq' => hp (depth + 1) q' qs (.step hq hq')

/-! ### Parts that give no warnings -/

/-- The part `x` of a match leaves the warnings alone, whether it succeeds or fails. -/
def Silent {α : Type} (x : Matching α) : Prop := ∀ run, (after x run).warnings = run.warnings

section Silent

variable {α β : Type}

theorem silent_pure (v : α) : Silent (pure v : Matching α) := fun _ => rfl

theorem after_seq_of_ok {x : Matching α} {f : α → Matching β} {run run' : Run} {v : α}
    (h : x run = .ok v run') : after (x >>= f) run = after (f v) run' := by
  rw [after, seq_of_ok h, after]

theorem Silent.bind {x : Matching α} {f : α → Matching β} (hx : Silent x)
    (hf : ∀ v, Silent (f v)) : Silent (x >>= f) := by
  intro run
  have hfirst := hx run
  cases hr : x run with
  | ok v run₁ =>
    rw [after_of_ok hr] at hfirst
    rw [after_seq_of_ok hr, hf v run₁, hfirst]
  | error e run₁ =>
    rw [after_of_error hr] at hfirst
    rw [after_of_error (seq_of_error hr), hfirst]

theorem silent_agrees (C : Arena) (b : Binding) (c : NodeId) : Silent (agrees C b c) := by
  intro run
  unfold after agrees settled
  cases run.captures.arena.structurallyEqual b.copy C c <;> rfl

theorem silent_restore (cp : Checkpoint) : Silent (restore cp) := by
  intro run
  unfold after restore
  cases run.captures.restore cp <;> rfl

theorem silent_capture (C : Arena) (g : String) (c : NodeId) : Silent (capture C g c) := by
  intro run
  unfold after capture
  cases Edit.importFrom C c run.captures.arena <;> rfl

theorem silent_bind (C : Arena) (g : String) (c : NodeId) : Silent (bind C g c) := by
  refine Silent.bind (fun _ => rfl) fun b => ?_
  cases b with
  | some b => exact silent_agrees C b c
  | none => exact (silent_capture C g c).bind fun _ => silent_pure true

theorem silent_bindOptional (C : Arena) (g : Option String) (c : NodeId) :
    Silent (bindOptional C g c) := by
  cases g with
  | none => exact silent_pure true
  | some g => exact silent_bind C g c

theorem silent_backreference (P C : Arena) (enter : NodeId → Option NodeId → Matching Bool)
    (p : NodeId) (g : String) (c : Option NodeId) :
    Silent (matchPlaceholder P C enter p (.backreference g) c) := by
  refine Silent.bind (fun _ => rfl) fun b => ?_
  cases b with
  | none => exact silent_pure false
  | some b =>
    cases c with
    | none => exact silent_pure false
    | some c => exact silent_agrees C b c

end Silent

/-! ### The warnings of a part -/

/-- The warnings that the part `x` gives name nodes for which `R` holds; and if the part matches,
nodes for which `F` holds. -/
def Warns (maxDepth : Nat) (R F : NodeId → Prop) (x : Matching Bool) : Prop :=
  ∀ ⦃run run' : Run⦄ ⦃v : Bool⦄, x run = .ok v run' → ∃ ws, run'.warnings = run.warnings ++ ws ∧
    ∀ w ∈ ws, w.maxDepth = maxDepth ∧ R w.pattern ∧ (v = true → F w.pattern)

/-- The part gives no warnings. -/
def Quiet {α : Type} (x : Matching α) : Prop :=
  ∀ ⦃run run' : Run⦄ ⦃v : α⦄, x run = .ok v run' → run'.warnings = run.warnings

section Parts

variable {α : Type} {maxDepth : Nat} {R F R' F' : NodeId → Prop} {x : Matching Bool}

theorem Silent.quiet {x : Matching α} (h : Silent x) : Quiet x := by
  intro run run' v hrun
  rw [← after_of_ok hrun, h run]

theorem Quiet.warns (h : Quiet x) : Warns maxDepth R F x := by
  intro run run' v hrun
  exact ⟨[], by rw [h hrun, List.append_nil], by simp⟩

theorem quiet_pure (v : α) : Quiet (pure v : Matching α) := (silent_pure v).quiet

theorem Warns.mono (h : Warns maxDepth R F x) (hR : ∀ n, R n → R' n) (hF : ∀ n, F n → F' n) :
    Warns maxDepth R' F' x := by
  intro run run' v hrun
  obtain ⟨ws, hws, hall⟩ := h hrun
  refine ⟨ws, hws, fun w hw => ?_⟩
  obtain ⟨hdepth, hr, hf⟩ := hall w hw
  exact ⟨hdepth, hR _ hr, fun hv => hF _ (hf hv)⟩

theorem warns_settled_bind {e : Except Fault α} {f : α → Matching Bool}
    (hf : ∀ v, e = .ok v → Warns maxDepth R F (f v)) : Warns maxDepth R F (settled e >>= f) := by
  intro run run' v hrun
  obtain ⟨u, he, hrest⟩ := settled_seq_eq_ok hrun
  exact hf u he hrest

/-- A part that is followed by another one if it matches, and is the last one otherwise. -/
theorem Warns.bind {f : Bool → Matching Bool} (hx : Warns maxDepth R F x)
    (htrue : Warns maxDepth R F (f true)) (hfalse : f false = pure false) :
    Warns maxDepth R F (x >>= f) := by
  intro run run' v hrun
  obtain ⟨u, run₁, hfirst, hrest⟩ := seq_eq_ok hrun
  obtain ⟨ws, hws, hall⟩ := hx hfirst
  cases u with
  | false =>
    rw [hfalse] at hrest
    cases hrest
    exact ⟨ws, hws, hall⟩
  | true =>
    obtain ⟨ws', hws', hall'⟩ := htrue hrest
    refine ⟨ws ++ ws', by rw [hws', hws, List.append_assoc], fun w hw => ?_⟩
    rcases List.mem_append.mp hw with hw | hw
    · obtain ⟨hdepth, hr, hf⟩ := hall w hw
      exact ⟨hdepth, hr, fun _ => hf rfl⟩
    · exact hall' w hw

theorem warns_allM {f : α → Matching Bool} : ∀ {xs : List α},
    (∀ y ∈ xs, Warns maxDepth R F (f y)) → Warns maxDepth R F (xs.allM f)
  | [], _ => (quiet_pure true).warns
  | y :: ys, h => by
    refine Warns.bind (h y List.mem_cons_self) ?_ rfl
    exact warns_allM fun z hz => h z (List.mem_cons_of_mem _ hz)

end Parts

/-! ### One level -/

section Level

variable {P C : Arena} {enter : NodeId → Option NodeId → Matching Bool} {maxDepth : Nat}
  {R F : NodeId → NodeId → Prop} {p : NodeId}

/-- A match may go on from `p` to a node with the property. -/
def Below (P : Arena) (p : NodeId) (R : NodeId → NodeId → Prop) (x : NodeId) : Prop :=
  ∃ q, Enters P p q ∧ R q x

variable (henter : ∀ q c, Warns maxDepth (R q) (F q) (enter q c))

include henter

theorem warns_enter {q : NodeId} (hq : Enters P p q) (c : Option NodeId) :
    Warns maxDepth (Below P p R) (Below P p F) (enter q c) :=
  (henter q c).mono (fun _ hx => ⟨q, hq, hx⟩) fun _ hx => ⟨q, hq, hx⟩

theorem warns_matchRole {k : Kind} {r : RoleId} (hk : P.kind p = .ok k) (hr : r ∈ k.enteredRoles)
    (c : NodeId) : Warns maxDepth (Below P p R) (Below P p F) (matchRole P C enter p c r) := by
  unfold matchRole
  cases r.cardinality with
  | single =>
    refine warns_settled_bind fun q hq => warns_settled_bind fun x _ => ?_
    cases q with
    | none => cases x <;> exact (quiet_pure _).warns
    | some q => exact warns_enter henter (enters_of_child? hk hr hq) x
  | many =>
    refine warns_settled_bind fun qs hqs => warns_settled_bind fun xs _ => ?_
    split_ifs
    · refine warns_allM fun y hy => ?_
      exact warns_enter henter (enters_of_childrenUnder hk hr hqs (List.of_mem_zip hy).1) _
    · exact (quiet_pure false).warns

theorem warns_matchConcrete {k : Kind} (hk : P.kind p = .ok k)
    (hroles : k.enteredRoles = k.comparedRoles) (c : NodeId) :
    Warns maxDepth (Below P p R) (Below P p F) (matchConcrete P C enter p k c) := by
  refine warns_settled_bind fun k' _ => ?_
  split_ifs
  · exact warns_allM fun r hr => warns_matchRole henter hk (hroles ▸ hr) c
  · exact (quiet_pure false).warns

/-- Alternatives that are tried in turn.  What one of them has warned of does not count any more if
a later one matches. -/
theorem warns_tryEach (c : Option NodeId) : ∀ ps : List NodeId,
    Warns maxDepth (fun x => ∃ q ∈ ps, R q x)
      (fun x => ∃ before q later, ps = before ++ q :: later ∧ (F q x ∨ later ≠ [] ∧ R q x))
      (tryEach enter c ps)
  | [] => (quiet_pure false).warns
  | q :: ps => by
    intro run run' v hrun
    obtain ⟨u, run₁, hfirst, hrest⟩ := seq_eq_ok (x := enter q c) hrun
    obtain ⟨ws, hws, hall⟩ := henter q c hfirst
    cases u with
    | true =>
      cases hrest
      refine ⟨ws, hws, fun w hw => ?_⟩
      obtain ⟨hdepth, hr, hf⟩ := hall w hw
      exact ⟨hdepth, ⟨q, List.mem_cons_self, hr⟩, fun hv => ⟨[], q, ps, rfl, .inl (hf hv)⟩⟩
    | false =>
      obtain ⟨_, run₂, hback, hnext⟩ := seq_eq_ok (x := restore run.captures.checkpoint) hrest
      obtain ⟨ws', hws', hall'⟩ := warns_tryEach c ps hnext
      have hsum : run'.warnings = run.warnings ++ (ws ++ ws') := by
        rw [hws', (silent_restore _).quiet hback, ← List.append_assoc, ← hws]
      refine ⟨ws ++ ws', hsum, fun w hw => ?_⟩
      rcases List.mem_append.mp hw with hw | hw
      · obtain ⟨hdepth, hr, -⟩ := hall w hw
        refine ⟨hdepth, ⟨q, List.mem_cons_self, hr⟩, fun hv => ?_⟩
        -- some alternative comes after this one, since one has matched
        have hps : ps ≠ [] := by
          rintro rfl
          subst hv
          cases hnext
        exact ⟨[], q, ps, rfl, .inr ⟨hps, hr⟩⟩
      · obtain ⟨hdepth, ⟨q', hq', hr⟩, hf⟩ := hall' w hw
        refine ⟨hdepth, ⟨q', List.mem_cons_of_mem _ hq', hr⟩, fun hv => ?_⟩
        obtain ⟨before, q'', later, rfl, hcase⟩ := hf hv
        exact ⟨q :: before, q'', later, rfl, hcase⟩

/-- What a node may have warned of and still match: what the nodes below it may, and as a choice
also what an alternative before the last has warned of. -/
def Passed (P : Arena) (p : NodeId) (R F : NodeId → NodeId → Prop) (x : NodeId) : Prop :=
  Below P p F x ∨ P.kind p = .ok (.pattern .choice) ∧ ∃ before q later,
    P.childrenUnder p .alternative = .ok (before ++ q :: later) ∧ later ≠ [] ∧ R q x

theorem warns_matchPlaceholder {placeholder : Placeholder}
    (hk : P.kind p = .ok (.pattern placeholder)) (c : Option NodeId) :
    Warns maxDepth (Below P p R) (Passed P p R F)
      (matchPlaceholder P C enter p placeholder c) := by
  cases placeholder with
  | any g =>
    cases c with
    | none => exact (quiet_pure false).warns
    | some c => exact (silent_bindOptional C g c).quiet.warns
  | anyOrNull g =>
    cases c with
    | none => exact (quiet_pure true).warns
    | some c => exact (silent_bindOptional C g c).quiet.warns
  | backreference g => exact (silent_backreference P C enter p g c).quiet.warns
  | named g =>
    refine warns_settled_bind fun inner hinner => ?_
    cases inner with
    | none => exact (quiet_pure false).warns
    | some inner =>
      cases c with
      | none => exact (quiet_pure false).warns
      | some c =>
        have hq := enters_of_child? hk List.mem_cons_self hinner
        have hwarns : Warns maxDepth (Below P p R) (Passed P p R F) (enter inner (some c)) :=
          (warns_enter henter hq (some c)).mono (fun _ hx => hx) fun _ hx => .inl hx
        exact hwarns.bind (silent_bind C g c).quiet.warns rfl
  | choice =>
    refine warns_settled_bind fun qs hqs => ?_
    refine (warns_tryEach henter c qs).mono (fun x hx => ?_) fun x hx => ?_
    · obtain ⟨q, hq, hr⟩ := hx
      exact ⟨q, enters_of_childrenUnder hk List.mem_cons_self hqs hq, hr⟩
    · obtain ⟨before, q, later, rfl, hf | ⟨hlater, hr⟩⟩ := hx
      · have hq : q ∈ before ++ q :: later := List.mem_append_right _ List.mem_cons_self
        exact .inl ⟨q, enters_of_childrenUnder hk List.mem_cons_self hqs hq, hf⟩
      · exact .inr ⟨hk, before, q, later, hqs, hlater, hr⟩

/-- **One level**, given what is known of the levels below it. -/
theorem warns_matchLevel (c : Option NodeId) :
    Warns maxDepth (Below P p R) (Passed P p R F) (matchLevel P C enter p c) := by
  refine warns_settled_bind fun k hk => ?_
  split
  next placeholder _ => exact warns_matchPlaceholder henter hk c
  next => exact (quiet_pure false).warns
  next c hconcrete =>
    have hroles : k.enteredRoles = k.comparedRoles := by
      cases k with
      | pattern placeholder => exact absurd rfl (hconcrete placeholder)
      | _ => rfl
    exact (warns_matchConcrete henter hk hroles c).mono (fun _ hx => hx) fun _ hx => .inl hx

end Level

/-! ### A whole match -/

section Whole

variable {P C : Arena}

/-- **Every level**: warnings name the nodes beyond the limit. -/
theorem warns_matchNode (maxDepth : Nat) : ∀ (depth : Nat) (p : NodeId) (c : Option NodeId),
    Warns maxDepth (Descends P depth p) (Forgiven P depth p) (matchNode P C maxDepth depth p c)
  | 0, p, c => by
    intro run run' v h
    cases h
    refine ⟨[⟨maxDepth, p⟩], rfl, fun w hw => ?_⟩
    obtain rfl := List.mem_singleton.mp hw
    exact ⟨rfl, .refl p, nofun⟩
  | depth + 1, p, c => by
    refine (warns_matchLevel (warns_matchNode maxDepth depth) c).mono (fun x hx => ?_) fun x hx => ?_
    · obtain ⟨q, hq, h⟩ := hx
      exact .step hq h
    · rcases hx with ⟨q, hq, h⟩ | ⟨hk, before, q, later, hqs, hlater, h⟩
      · exact .step hq h
      · exact .alternative hk hqs hlater h

theorem warns_doMatch (P C : Arena) (p c maxDepth : Nat) :
    Warns maxDepth (Descends P maxDepth p) (Forgiven P maxDepth p)
      (doMatch P p C c maxDepth) := by
  intro run run' v hrun
  obtain ⟨u, run₁, hmatch, hrest⟩ :=
    seq_eq_ok (x := matchNode P C maxDepth maxDepth p (some c)) hrun
  obtain ⟨ws, hws, hall⟩ := warns_matchNode maxDepth maxDepth p (some c) hmatch
  -- going back to the captures from before leaves the warnings as they are
  cases u with
  | true =>
    cases hrest
    exact ⟨ws, hws, hall⟩
  | false =>
    obtain ⟨_, run₂, hback, hend⟩ := seq_eq_ok (x := restore run.captures.checkpoint) hrest
    cases hend
    rw [(silent_restore _).quiet hback]
    exact ⟨ws, hws, hall⟩

/-- **The limit and the outcome.**  A match of nodes that are there returns.  The warnings it gives
name the nodes beyond the limit, and if it succeeds, each of them was reached through an alternative
of a choice that is not its last.  So in a pattern that leaves nothing to choose, a match that gives
a warning fails. -/
theorem forgiven_of_doMatch (P C : Arena) (p c maxDepth : Nat) (run : Run) :
    (P.WellFormed → C.WellFormed → p < P.size → c < C.size → run.captures.Intact →
      ∃ v run', doMatch P p C c maxDepth run = .ok v run') ∧
    ∀ v run', doMatch P p C c maxDepth run = .ok v run' →
      ∃ ws, run'.warnings = run.warnings ++ ws ∧
        (∀ w ∈ ws, w.maxDepth = maxDepth ∧ Descends P maxDepth p w.pattern) ∧
        (v = true → ∀ w ∈ ws, Forgiven P maxDepth p w.pattern) ∧
        (Decided P p → ws ≠ [] → v = false) := by
  refine ⟨fun hP hC hp hc hm => (behaves_doMatch hP hC p c maxDepth).total ⟨hp, hc⟩ hm, ?_⟩
  intro v run' hrun
  obtain ⟨ws, hws, hall⟩ := warns_doMatch P C p c maxDepth hrun
  refine ⟨ws, hws, fun w hw => ⟨(hall w hw).1, (hall w hw).2.1⟩,
    fun hv w hw => (hall w hw).2.2 hv, fun hdecided hne => ?_⟩
  obtain ⟨w, hw⟩ := List.exists_mem_of_ne_nil ws hne
  cases v with
  | false => rfl
  | true => exact absurd ((hall w hw).2.2 rfl) hdecided.not_forgiven

end Whole

/-! ### A choice with a fallback -/

/-- A choice between a group around any node, and any node. -/
def fallbackPattern : Arena :=
  (Call.newChoice [1, 2]).after ((Call.newAny none).after
    ((Call.newNamed "g" 0).after ((Call.newAny none).after .empty)))

/-- The number one. -/
def oneCandidate : Arena := (Call.newLiteral (.int 1)).after .empty

theorem wellFormed_fallbackPattern : fallbackPattern.WellFormed :=
  (Reachable.call (.newChoice [1, 2]) (.call (.newAny none)
    (.call (.newNamed "g" 0) (.call (.newAny none) .empty)))).wellFormed

theorem wellFormed_oneCandidate : oneCandidate.WellFormed :=
  (Reachable.call (.newLiteral (.int 1)) .empty).wellFormed

/-- With two levels the group cannot be entered, which costs a warning; then the fallback
matches. -/
theorem matches_with_warning : ∃ run', doMatch fallbackPattern 3 oneCandidate 0 2 {} = .ok true run' ∧
    run'.warnings = [⟨2, 0⟩] :=
  ⟨_, rfl, rfl⟩

/-- The group alone leaves nothing to choose. -/
theorem decided_fallbackPattern : Decided fallbackPattern 1 := by
  have hgroup : fallbackPattern.node? 1 =
      some ⟨.pattern (.named "g"), some 3, [⟨.patternChild, 0⟩]⟩ := rfl
  have hinner : fallbackPattern.node? 0 = some ⟨.pattern (.any none), some 1, []⟩ := rfl
  intro depth q qs hq hk _
  cases hq with
  | refl => cases (kind_of_node? hgroup).symm.trans hk
  | step hq h =>
    obtain ⟨d, hd, r, hr, hmem⟩ := hq
    cases hgroup.symm.trans hd
    obtain rfl := List.mem_singleton.mp hr
    obtain rfl := List.mem_singleton.mp hmem
    cases h with
    | refl => cases (kind_of_node? hinner).symm.trans hk
    | step hq _ =>
      obtain ⟨d, hd, r, hr, -⟩ := hq
      cases hinner.symm.trans hd
      cases hr

/-- With two levels the choice is matched in spite of its warning, which came from its first
alternative; with one level the group alone gives the same warning, and is not matched. -/
theorem forgiven_of_doMatch_fallback :
    (∃ run', doMatch fallbackPattern 3 oneCandidate 0 2 {} = .ok true run' ∧
      Forgiven fallbackPattern 2 3 0) ∧
    ∃ run', doMatch fallbackPattern 1 oneCandidate 0 1 {} = .ok false run' ∧
      run'.warnings = [⟨1, 0⟩] := by
  have hm : ({} : Run).captures.Intact := Captures.intact_empty
  constructor
  · obtain ⟨run', hrun, hwarnings⟩ : ∃ run',
        doMatch fallbackPattern 3 oneCandidate 0 2 {} = .ok true run' ∧
          run'.warnings = [⟨2, 0⟩] := ⟨_, rfl, rfl⟩
    obtain ⟨ws, hws, -, hforgiven, -⟩ :=
      (forgiven_of_doMatch fallbackPattern oneCandidate 3 0 2 {}).2 true run' hrun
    obtain rfl : ws = [⟨2, 0⟩] := hws.symm.trans hwarnings
    exact ⟨run', hrun, hforgiven rfl _ List.mem_cons_self⟩
  · obtain ⟨hreturns, hlimit⟩ := forgiven_of_doMatch fallbackPattern oneCandidate 1 0 1 {}
    obtain ⟨v, run', hrun⟩ := hreturns wellFormed_fallbackPattern wellFormed_oneCandidate
      (by decide) (by decide) hm
    obtain ⟨ws, hws, -, -, hfails⟩ := hlimit v run' hrun
    have hwarnings : run'.warnings = [⟨1, 0⟩] := by
      cases hrun
      rfl
    obtain rfl : ws = [⟨1, 0⟩] := hws.symm.trans hwarnings
    obtain rfl := hfails decided_fallbackPattern (by simp)
    exact ⟨run', hrun, hwarnings⟩

end Matching

end SyntaxForest
