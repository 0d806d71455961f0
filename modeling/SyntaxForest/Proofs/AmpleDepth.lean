import SyntaxForest.Proofs.DepthLimit

/-!
# A limit that is not reached cannot be seen

The limit of a match is nothing but the number of levels that are left, and nothing reads that
number except to see whether it is zero.  So two matches with different limits do the same until
the one with the smaller limit gives a warning; and if it never gives one, they do the same to the
end, whether they answer or break off.

`Outlasts ample x y` says this of a part `x` of a match and the same part `y` with more levels left.
It comes with two facts that are proved along with it: warnings are only ever added, so that a run
that ends without new ones has had none on the way; and if the pattern has no more levels than are
left (`ample`), there are none.  As always it is put together from the parts of a level to a level
(`outlasts_matchLevel`), and by induction from the levels below to a whole pattern
(`outlasts_matchNode`).
-/

namespace SyntaxForest

namespace Matching

open Arena

/-! ### Depth as a number of steps -/

/-- A pattern nests within a limit if every path down from it has fewer steps. -/
theorem nestsWithin_iff {P : Arena} : ∀ {depth : Nat} {p : NodeId},
    NestsWithin P depth p ↔ ∀ steps q, Descends P steps p q → steps < depth
  | 0, p => by
    refine ⟨False.elim, fun h => ?_⟩
    exact absurd (h 0 p (.refl p)) (Nat.lt_irrefl 0)
  | depth + 1, p => by
    constructor
    · intro h steps q hq
      cases hq with
      | refl => exact Nat.succ_pos depth
      | step hfirst hrest =>
        have hlt := nestsWithin_iff.mp (h _ hfirst) _ _ hrest
        omega
    · intro h q hq
      refine nestsWithin_iff.mpr fun steps x hx => ?_
      have hlt := h (steps + 1) x (.step hq hx)
      omega

/-- The pattern nodes that a match may go on to from `p`. -/
def entered (P : Arena) (p : NodeId) : List NodeId :=
  match P.node? p with
  | some d => d.kind.enteredRoles.flatMap d.children.allUnder
  | none => []

theorem mem_entered_iff {P : Arena} {p q : NodeId} : q ∈ entered P p ↔ Enters P p q := by
  unfold entered Enters
  cases P.node? p with
  | none => simp
  | some d => simp

/-- Whether a pattern nests within a limit can be computed. -/
instance decidableNestsWithin (P : Arena) :
    ∀ (depth : Nat) (p : NodeId), Decidable (NestsWithin P depth p)
  | 0, _ => isFalse id
  | depth + 1, p =>
    have : ∀ q, Decidable (NestsWithin P depth q) := decidableNestsWithin P depth
    decidable_of_iff (∀ q ∈ entered P p, NestsWithin P depth q)
      (forall_congr' fun _ => imp_congr_left mem_entered_iff)

/-! ### More levels left -/

/-- The part `x` of a match only adds warnings.  Where it adds none, the part `y` does the same; and
if `ample` holds, it adds none. -/
structure Outlasts {α : Type} (ample : Prop) (x y : Matching α) : Prop where
  adds : ∀ run, run.warnings <+: (after x run).warnings
  same : ∀ run, (after x run).warnings = run.warnings → y run = x run
  silent : ample → Silent x

section Combinators

variable {α β : Type} {ample : Prop}

theorem Silent.outlasts {x : Matching α} (hx : Silent x) : Outlasts ample x x where
  adds run := by rw [hx run]
  same _ _ := rfl
  silent _ := hx

theorem outlasts_pure (v : α) : Outlasts ample (pure v : Matching α) (pure v) :=
  (silent_pure v).outlasts

theorem Outlasts.bind {x y : Matching α} {f g : α → Matching β} (hx : Outlasts ample x y)
    (hf : ∀ v, Outlasts ample (f v) (g v)) : Outlasts ample (x >>= f) (y >>= g) where
  adds run := by
    have hfirst := hx.adds run
    cases hr : x run with
    | ok v run₁ =>
      rw [after_of_ok hr] at hfirst
      rw [after_seq_of_ok hr]
      exact hfirst.trans ((hf v).adds run₁)
    | error e run₁ =>
      rw [after_of_error hr] at hfirst
      rwa [after_of_error (seq_of_error hr)]
  same run hquiet := by
    have hfirst := hx.adds run
    cases hr : x run with
    | ok v run₁ =>
      rw [after_of_ok hr] at hfirst
      rw [after_seq_of_ok hr] at hquiet
      -- what the second step leaves is no more than there was, so the first step added nothing
      have hrest := (hf v).adds run₁
      have hnone : run₁.warnings = run.warnings := by
        refine (hfirst.eq_of_length (Nat.le_antisymm hfirst.length_le ?_)).symm
        rw [← hquiet]
        exact hrest.length_le
      have hsame : y run = .ok v run₁ := by
        rw [hx.same run (by rw [after_of_ok hr, hnone]), hr]
      rw [seq_of_ok hr, seq_of_ok hsame]
      exact (hf v).same run₁ (by rw [hquiet, hnone])
    | error e run₁ =>
      rw [after_of_error (seq_of_error hr)] at hquiet
      have hsame : y run = .error e run₁ := by
        rw [hx.same run (by rw [after_of_error hr, hquiet]), hr]
      rw [seq_of_error hr, seq_of_error hsame]
  silent h := (hx.silent h).bind fun v => (hf v).silent h

/-- What was read may be used about the arena it was read from. -/
theorem outlasts_settled_bind {e : Except Fault α} {f g : α → Matching β}
    (hf : ∀ v, e = .ok v → Outlasts ample (f v) (g v)) :
    Outlasts ample (settled e >>= f) (settled e >>= g) := by
  cases e with
  | ok v => exact hf v rfl
  | error e =>
    exact ⟨fun _ => List.prefix_refl _, fun _ _ => rfl, fun _ _ => rfl⟩

theorem outlasts_allM {f g : α → Matching Bool} : ∀ {xs : List α},
    (∀ x ∈ xs, Outlasts ample (f x) (g x)) → Outlasts ample (xs.allM f) (xs.allM g)
  | [], _ => outlasts_pure true
  | x :: xs, h => by
    rw [List.allM, List.allM]
    refine (h x List.mem_cons_self).bind fun v => ?_
    cases v with
    | false => exact outlasts_pure false
    | true => exact outlasts_allM fun y hy => h y (List.mem_cons_of_mem _ hy)

end Combinators

/-! ### One level -/

section Level

variable {P C : Arena} {enter enter' : NodeId → Option NodeId → Matching Bool} {ample : Prop}
  {p : NodeId} (henter : ∀ q c, Enters P p q → Outlasts ample (enter q c) (enter' q c))

include henter

theorem outlasts_matchRole {k : Kind} {r : RoleId} (hk : P.kind p = .ok k)
    (hr : r ∈ k.enteredRoles) (c : NodeId) :
    Outlasts ample (matchRole P C enter p c r) (matchRole P C enter' p c r) := by
  unfold matchRole
  cases r.cardinality with
  | single =>
    refine outlasts_settled_bind fun q hq => outlasts_settled_bind fun x _ => ?_
    cases q with
    | none => cases x <;> exact outlasts_pure _
    | some q => exact henter q x (enters_of_child? hk hr hq)
  | many =>
    refine outlasts_settled_bind fun qs hqs => outlasts_settled_bind fun xs _ => ?_
    split_ifs
    · refine outlasts_allM fun y hy => ?_
      exact henter y.1 (some y.2) (enters_of_childrenUnder hk hr hqs (List.of_mem_zip hy).1)
    · exact outlasts_pure false

theorem outlasts_matchConcrete {k : Kind} (hk : P.kind p = .ok k)
    (hroles : k.enteredRoles = k.comparedRoles) (c : NodeId) :
    Outlasts ample (matchConcrete P C enter p k c) (matchConcrete P C enter' p k c) := by
  refine outlasts_settled_bind fun k' _ => ?_
  split_ifs
  · exact outlasts_allM fun r hr => outlasts_matchRole henter hk (hroles ▸ hr) c
  · exact outlasts_pure false

/-- Both runs go back to the same captures before the next alternative, since both have had the same
run so far. -/
theorem outlasts_tryEach (c : Option NodeId) : ∀ {qs : List NodeId}, (∀ q ∈ qs, Enters P p q) →
    Outlasts ample (tryEach enter c qs) (tryEach enter' c qs)
  | [], _ => outlasts_pure false
  | q :: qs, hqs => by
    have hcheckpoint : Silent checkpoint := fun _ => rfl
    refine hcheckpoint.outlasts.bind fun cp => ?_
    refine (henter q c (hqs q List.mem_cons_self)).bind fun matched => ?_
    cases matched with
    | true => exact outlasts_pure true
    | false =>
      have hrestore : Silent (restore cp) := silent_restore cp
      refine hrestore.outlasts.bind fun _ => ?_
      exact outlasts_tryEach c fun x hx => hqs x (List.mem_cons_of_mem _ hx)

theorem outlasts_matchPlaceholder {placeholder : Placeholder}
    (hk : P.kind p = .ok (.pattern placeholder)) (c : Option NodeId) :
    Outlasts ample (matchPlaceholder P C enter p placeholder c)
      (matchPlaceholder P C enter' p placeholder c) := by
  cases placeholder with
  | any g =>
    cases c with
    | none => exact outlasts_pure false
    | some c => exact (silent_bindOptional C g c).outlasts
  | anyOrNull g =>
    cases c with
    | none => exact outlasts_pure true
    | some c => exact (silent_bindOptional C g c).outlasts
  | backreference g => exact (silent_backreference P C enter p g c).outlasts
  | named g =>
    refine outlasts_settled_bind fun q hq => ?_
    cases q with
    | none => exact outlasts_pure false
    | some q =>
      cases c with
      | none => exact outlasts_pure false
      | some c =>
        have hinner := henter q (some c) (enters_of_child? hk List.mem_cons_self hq)
        refine hinner.bind fun matched => ?_
        cases matched with
        | false => exact outlasts_pure false
        | true => exact (silent_bind C g c).outlasts
  | choice =>
    refine outlasts_settled_bind fun qs hqs => outlasts_tryEach henter c fun q hq => ?_
    exact enters_of_childrenUnder hk List.mem_cons_self hqs hq

/-- **One level**, given what is known of the levels below it. -/
theorem outlasts_matchLevel (c : Option NodeId) :
    Outlasts ample (matchLevel P C enter p c) (matchLevel P C enter' p c) := by
  refine outlasts_settled_bind fun k hk => ?_
  cases k with
  | pattern placeholder => exact outlasts_matchPlaceholder henter hk c
  | token _ | identifier _ | expression _ | statement _ =>
    cases c with
    | none => exact outlasts_pure false
    | some c => exact outlasts_matchConcrete henter hk rfl c

end Level

/-! ### A whole match -/

section Whole

variable {P C : Arena}

/-- **Every level**: at the smaller limit there is a warning, and above it the two matches are one
level on top of those below. -/
theorem outlasts_matchNode (maxDepth maxDepth' : Nat) : ∀ {depth depth' : Nat}, depth ≤ depth' →
    ∀ (p : NodeId) (c : Option NodeId), Outlasts (NestsWithin P depth p)
      (matchNode P C maxDepth depth p c) (matchNode P C maxDepth' depth' p c)
  | 0, _, _, p, c => by
    have hafter : ∀ run, (after (matchNode P C maxDepth 0 p c) run).warnings =
        run.warnings ++ [⟨maxDepth, p⟩] := fun _ => rfl
    refine ⟨fun run => ?_, fun run hquiet => ?_, False.elim⟩
    · rw [hafter]
      exact List.prefix_append _ _
    · rw [hafter] at hquiet
      simp at hquiet
  | depth + 1, 0, hle, _, _ => absurd hle (Nat.not_succ_le_zero depth)
  | depth + 1, depth' + 1, hle, p, c => by
    refine outlasts_matchLevel (fun q x hq => ?_) c
    have hbelow := outlasts_matchNode maxDepth maxDepth' (Nat.le_of_succ_le_succ hle) q x
    exact ⟨hbelow.adds, hbelow.same, fun hnests => hbelow.silent (hnests q hq)⟩

/-- **A whole match**: of two that fail alike, both go back to the same captures. -/
theorem outlasts_doMatch {maxDepth maxDepth' : Nat} (hle : maxDepth ≤ maxDepth') (p c : NodeId) :
    Outlasts (NestsWithin P maxDepth p) (doMatch P p C c maxDepth)
      (doMatch P p C c maxDepth') := by
  have hcheckpoint : Silent checkpoint := fun _ => rfl
  refine hcheckpoint.outlasts.bind fun cp => ?_
  refine (outlasts_matchNode maxDepth maxDepth' hle p (some c)).bind fun matched => ?_
  cases matched with
  | true => exact outlasts_pure true
  | false =>
    have hrestore : Silent (restore cp) := silent_restore cp
    exact hrestore.outlasts.bind fun _ => outlasts_pure false

/-- **A limit that is not reached cannot be seen.**  If a match gives no warning, then with every
larger limit it has the same outcome and leaves the same run behind: the same captures, and no
warning either.  And it gives none if no path down the pattern has more nodes than the limit, where
a path has one node more than it has steps; so from that limit on all limits are the same. -/
theorem doMatch_limit_unseen (P C : Arena) (p c maxDepth : Nat) (run : Run) :
    ((after (doMatch P p C c maxDepth) run).warnings = run.warnings →
      ∀ maxDepth', maxDepth ≤ maxDepth' →
        doMatch P p C c maxDepth' run = doMatch P p C c maxDepth run) ∧
    ((∀ steps q, Descends P steps p q → steps + 1 ≤ maxDepth) →
      (after (doMatch P p C c maxDepth) run).warnings = run.warnings ∧
      ∀ maxDepth', maxDepth ≤ maxDepth' →
        doMatch P p C c maxDepth' run = doMatch P p C c maxDepth run) := by
  have hsame : (after (doMatch P p C c maxDepth) run).warnings = run.warnings →
      ∀ maxDepth', maxDepth ≤ maxDepth' →
        doMatch P p C c maxDepth' run = doMatch P p C c maxDepth run :=
    fun hquiet maxDepth' hle => (outlasts_doMatch hle p c).same run hquiet
  refine ⟨hsame, fun hpaths => ?_⟩
  have hnests : NestsWithin P maxDepth p := nestsWithin_iff.mpr hpaths
  have hquiet := (outlasts_doMatch (C := C) (Nat.le_refl maxDepth) p c).silent hnests run
  exact ⟨hquiet, hsame hquiet⟩

/-- The choice with a fallback has three levels, so three levels and a thousand are the same.  A sum
is not matched by a number, which is seen before there is a need for a second level. -/
theorem doMatch_limit_unseen_fallback :
    (∃ run', doMatch fallbackPattern 3 oneCandidate 0 3 {} = .ok true run' ∧
      run'.captures.get? "g" = some 0 ∧ run'.warnings = [] ∧
      doMatch fallbackPattern 3 oneCandidate 0 1000 {} = .ok true run') ∧
    ¬ NestsWithin doublePattern 1 2 ∧
    ∃ run', doMatch doublePattern 2 oneCandidate 0 1 {} = .ok false run' ∧ run'.warnings = [] ∧
      doMatch doublePattern 2 oneCandidate 0 1000 {} = .ok false run' := by
  refine ⟨?_, by decide, ?_⟩
  · obtain ⟨run', hrun, hget, hquiet⟩ : ∃ run',
        doMatch fallbackPattern 3 oneCandidate 0 3 {} = .ok true run' ∧
          run'.captures.get? "g" = some 0 ∧ run'.warnings = [] := ⟨_, rfl, rfl, rfl⟩
    have hnests : NestsWithin fallbackPattern 3 3 := by decide
    have hlimit := (doMatch_limit_unseen fallbackPattern oneCandidate 3 0 3 {}).2
      (nestsWithin_iff.mp hnests)
    exact ⟨run', hrun, hget, hquiet, (hlimit.2 1000 (by omega)).trans hrun⟩
  · obtain ⟨run', hrun, hquiet⟩ : ∃ run',
        doMatch doublePattern 2 oneCandidate 0 1 {} = .ok false run' ∧ run'.warnings = [] :=
      ⟨_, rfl, rfl⟩
    have hlimit := (doMatch_limit_unseen doublePattern oneCandidate 2 0 1 {}).1
      (by rw [after_of_ok hrun, hquiet])
    exact ⟨run', hrun, hquiet, (hlimit 1000 (by omega)).trans hrun⟩

end Whole

end Matching

end SyntaxForest
