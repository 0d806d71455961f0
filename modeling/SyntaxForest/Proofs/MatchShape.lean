import SyntaxForest.Proofs.Lockstep
import SyntaxForest.Proofs.MatchGrowth

/-!
# Matching sees nothing but shape

Two matches do the same if their patterns are alike, their candidates are alike, and their captures
are `Similar`: if they bind the same groups in the same order, with copies that are equal.  The
arenas may be different ones, and so may be all ids.

What it means to do the same is `Together`: the captures of both grow, each time by one group bound
to related nodes (`GrownAlike`), and both give as many warnings.  Since both captures grow, going
back finds again captures that are similar.  `InStep` says of two parts of a match that they go
together and give the same answer.  As everything that is read of related nodes is related
(`Arena.Lockstep`), it is put together along the definitions, from the parts of a level to a level
(`inStep_matchLevel`), and by induction from the levels below to a whole pattern
(`inStep_matchNode`).

For the result, nodes of the candidates are related if they are alike and at the same place
(`Arena.Peers`).
-/

namespace SyntaxForest

/-! ### Captures that grow in the same way -/

namespace Captures

variable {m m' n n' l l' : Captures} {C C' : Arena} {R : Nat → Nat → Prop}

/-- In both captures the trail lists each group of the table once, and no node of the private arena
names a node that is not there; and the two bind the same groups in the same order, with copies that
are equal. -/
structure Similar (m m' : Captures) : Prop where
  keyed : m.Keyed
  keyed' : m'.Keyed
  closed : m.arena.Closed
  closed' : m'.arena.Closed
  copies : List.Forall₂ (fun b b' => b.group = b'.group ∧
    m.arena.structurallyEqual b.copy m'.arena b'.copy = .ok true) m.bindings m'.bindings

theorem similar_empty : empty.Similar empty :=
  ⟨keyed_empty, keyed_empty, Arena.closed_empty, Arena.closed_empty, .nil⟩

/-- A group is bound in neither of them, or in both, with copies of the same tree. -/
theorem Similar.find?_cases (h : m.Similar m') (g : String) :
    (m.find? g = none ∧ m'.find? g = none) ∨
      ∃ b b', m.find? g = some b ∧ m'.find? g = some b' ∧
        m.arena.Alike m'.arena b.copy b'.copy := by
  have hfind : Option.Rel _ (m.bindings.find? (·.group = g)) (m'.bindings.find? (·.group = g)) :=
    rel_find? (fun b b' hb => by rw [hb.1]) h.copies
  rw [← h.keyed.find?_eq, ← h.keyed'.find?_eq] at hfind
  generalize m.find? g = b at hfind ⊢
  generalize m'.find? g = b' at hfind ⊢
  cases hfind with
  | none => exact .inl ⟨rfl, rfl⟩
  | some hb => exact .inr ⟨_, _, rfl, rfl, Arena.structurallyEqual_eq_true_iff.mp hb.2⟩

/-- Both captures grow, each time by one group that is bound to related nodes. -/
inductive GrownAlike (C C' : Arena) (R : Nat → Nat → Prop) (m m' : Captures) :
    Captures → Captures → Prop
  | refl : GrownAlike C C' R m m' m m'
  | bind {n n' : Captures} {a a' : Arena} {g : String} {c c' : Nat} {t : Tree}
    (h : GrownAlike C C' R m m' n n') (hg : n.find? g = none) (hg' : n'.find? g = none)
    (hc : R c c') (ht : t.IsAt C c) (ht' : t.IsAt C' c')
    (hcopy : Edit.importFrom C c n.arena = .ok n.arena.size a)
    (hcopy' : Edit.importFrom C' c' n'.arena = .ok n'.arena.size a') :
    GrownAlike C C' R m m' (n.record ⟨g, c, n.arena.size⟩ a) (n'.record ⟨g, c', n'.arena.size⟩ a')

namespace GrownAlike

theorem trans (h : GrownAlike C C' R m m' n n') (h' : GrownAlike C C' R n n' l l') :
    GrownAlike C C' R m m' l l' := by
  induction h' with
  | refl => exact h
  | bind _ hg hg' hc ht ht' hcopy hcopy' ih => exact ih.bind hg hg' hc ht ht' hcopy hcopy'

theorem left (h : GrownAlike C C' R m m' n n') : Grown C (fun _ => True) m n := by
  induction h with
  | refl => exact .refl
  | bind _ hg _ _ ht _ hcopy _ ih => exact ih.bind hg trivial ht hcopy

theorem right (h : GrownAlike C C' R m m' n n') : Grown C' (fun _ => True) m' n' := by
  induction h with
  | refl => exact .refl
  | bind _ _ hg' _ _ ht' _ hcopy' ih => exact ih.bind hg' trivial ht' hcopy'

theorem similar (h : GrownAlike C C' R m m' n n') (hm : m.Similar m') : n.Similar n' := by
  refine ⟨h.left.keyed hm.keyed, h.right.keyed hm.keyed', h.left.closed hm.closed,
    h.right.closed hm.closed', ?_⟩
  induction h with
  | refl => exact hm.copies
  | bind hgrown hg hg' _ ht ht' hcopy hcopy' ih =>
    have hab := Edit.isPrefix_of_importFrom ht hcopy
    have hab' := Edit.isPrefix_of_importFrom ht' hcopy'
    have hnew := Arena.structurallyEqual_eq_true_iff.mpr ⟨_,
      (Edit.liesAt_of_importFrom ht hcopy).isAt, (Edit.liesAt_of_importFrom ht' hcopy').isAt⟩
    rw [(hgrown.left.keyed hm.keyed).bindings_record hg,
      (hgrown.right.keyed hm.keyed').bindings_record hg']
    -- the old copies are where they were
    refine List.rel_append (ih.imp fun b b' hb => ?_) (.cons ⟨rfl, hnew⟩ .nil)
    obtain ⟨u, hu, hu'⟩ := Arena.structurallyEqual_eq_true_iff.mp hb.2
    exact ⟨hb.1, Arena.structurallyEqual_eq_true_iff.mpr ⟨u, hu.mono hab, hu'.mono hab'⟩⟩

/-- The nodes that are newly bound are related. -/
theorem related (h : GrownAlike C C' R m m' n n') (hm : m.Keyed) (hm' : m'.Keyed) :
    List.Forall₂ (fun b b' => R b.node b'.node) (n.bindings.drop m.size)
      (n'.bindings.drop m'.size) := by
  induction h with
  | refl =>
    rw [List.drop_of_length_le (Nat.le_of_eq hm.length_bindings),
      List.drop_of_length_le (Nat.le_of_eq hm'.length_bindings)]
    exact .nil
  | bind hgrown hg hg' hc _ _ _ _ ih =>
    have hn := hgrown.left.keyed hm
    have hn' := hgrown.right.keyed hm'
    rw [hn.bindings_record hg, hn'.bindings_record hg',
      List.drop_append_of_le_length (hn.length_bindings ▸ hgrown.left.precedes.size_le),
      List.drop_append_of_le_length (hn'.length_bindings ▸ hgrown.right.precedes.size_le)]
    exact List.rel_append ih (.cons hc .nil)

end GrownAlike

end Captures

namespace Matching

open Captures Arena

/-! ### Parts that go together -/

/-- Both runs have given as many warnings. -/
def WarnedAlike (run run' run₁ run₁' : Run) : Prop :=
  ∃ new new', run₁.warnings = run.warnings ++ new ∧ run₁'.warnings = run'.warnings ++ new' ∧
    new.length = new'.length

theorem WarnedAlike.refl (run run' : Run) : WarnedAlike run run' run run' :=
  ⟨[], [], (List.append_nil _).symm, (List.append_nil _).symm, rfl⟩

theorem WarnedAlike.trans {run run' run₁ run₁' run₂ run₂' : Run}
    (h : WarnedAlike run run' run₁ run₁') (h' : WarnedAlike run₁ run₁' run₂ run₂') :
    WarnedAlike run run' run₂ run₂' := by
  obtain ⟨new, new', hnew, hnew', hlength⟩ := h
  obtain ⟨more, more', hmore, hmore', hlength'⟩ := h'
  refine ⟨new ++ more, new' ++ more', ?_, ?_, ?_⟩
  · rw [hmore, hnew, List.append_assoc]
  · rw [hmore', hnew', List.append_assoc]
  · rw [List.length_append, List.length_append, hlength, hlength']

/-- Both runs have bound the same groups to related nodes, and have given as many warnings. -/
structure Together (C C' : Arena) (R : Nat → Nat → Prop) (run run' run₁ run₁' : Run) : Prop where
  grown : GrownAlike C C' R run.captures run'.captures run₁.captures run₁'.captures
  warned : WarnedAlike run run' run₁ run₁'

/-- From similar captures, both parts of a match come to an end with the same answer, and go
together. -/
def InStep {α : Type} (C C' : Arena) (R : Nat → Nat → Prop) (x x' : Matching α) : Prop :=
  ∀ ⦃run run' : Run⦄, run.captures.Similar run'.captures →
    ∃ v run₁ run₁', x run = .ok v run₁ ∧ x' run' = .ok v run₁' ∧ Together C C' R run run' run₁ run₁'

section Combinators

variable {α β : Type} {C C' : Arena} {R : Nat → Nat → Prop}

theorem Together.refl (run run' : Run) : Together C C' R run run' run run' :=
  ⟨.refl, .refl run run'⟩

theorem Together.trans {run run' run₁ run₁' run₂ run₂' : Run}
    (h : Together C C' R run run' run₁ run₁') (h' : Together C C' R run₁ run₁' run₂ run₂') :
    Together C C' R run run' run₂ run₂' :=
  ⟨h.grown.trans h'.grown, h.warned.trans h'.warned⟩

theorem inStep_pure (v : α) : InStep C C' R (pure v) (pure v) :=
  fun run run' _ => ⟨v, run, run', rfl, rfl, .refl run run'⟩

theorem InStep.bind {x x' : Matching α} {f f' : α → Matching β} (hx : InStep C C' R x x')
    (hf : ∀ v, InStep C C' R (f v) (f' v)) : InStep C C' R (x >>= f) (x' >>= f') := by
  intro run run' hm
  obtain ⟨v, run₁, run₁', hfirst, hfirst', htogether⟩ := hx hm
  obtain ⟨w, run₂, run₂', hrest, hrest', htogether'⟩ := hf v (htogether.grown.similar hm)
  exact ⟨w, run₂, run₂', by rw [seq_of_ok hfirst, hrest], by rw [seq_of_ok hfirst', hrest'],
    htogether.trans htogether'⟩

/-- What is read may differ, as long as what follows is in step. -/
theorem inStep_settled_bind {γ : Type} {e e' : Except Fault α} {v v' : α}
    {f f' : α → Matching γ} (he : e = .ok v) (he' : e' = .ok v')
    (hf : InStep C C' R (f v) (f' v')) : InStep C C' R (settled e >>= f) (settled e' >>= f') := by
  subst he he'
  exact hf

theorem inStep_allM {f : α → Matching Bool} {f' : β → Matching Bool} {xs : List α} {ys : List β}
    (h : List.Forall₂ (fun x y => InStep C C' R (f x) (f' y)) xs ys) :
    InStep C C' R (xs.allM f) (ys.allM f') := by
  induction h with
  | nil => exact inStep_pure true
  | cons hfirst _ ih =>
    rw [List.allM, List.allM]
    refine hfirst.bind fun v => ?_
    cases v with
    | false => exact inStep_pure false
    | true => exact ih

end Combinators

/-! ### One level -/

section Level

variable {P P' C C' : Arena} {Q R : Nat → Nat → Prop}
  {enter enter' : NodeId → Option NodeId → Matching Bool}

/-- Comparing copies of one tree with nodes that are alike has one answer. -/
theorem exists_agrees_alike {b b' : Binding} {c c' : Nat} {run run' : Run}
    (hb : run.captures.arena.Alike run'.captures.arena b.copy b'.copy) (hc : C.Alike C' c c') :
    ∃ v, agrees C b c run = .ok v run ∧ agrees C' b' c' run' = .ok v run' := by
  obtain ⟨u, hu, hu'⟩ := hb
  obtain ⟨t, ht, ht'⟩ := hc
  obtain ⟨v, hv, hiff⟩ := exists_agrees_eq_ok ht hu
  obtain ⟨v', hv', hiff'⟩ := exists_agrees_eq_ok ht' hu'
  have hsame : v' = v := by rw [Bool.eq_iff_iff, hiff, hiff']
  exact ⟨v, hv, by rw [hv', hsame]⟩

variable (hC : Lockstep C C' R)

include hC

theorem inStep_bind {c c' : Nat} (hc : R c c') (g : String) :
    InStep C C' R (bind C g c) (bind C' g c') := by
  intro run run' hm
  rcases hm.find?_cases g with ⟨hb, hb'⟩ | ⟨b, b', hb, hb', hcopies⟩
  · -- both make a copy of the same tree
    obtain ⟨t, ht, ht'⟩ := hC.alike hc
    obtain ⟨a, hcopy, hrun⟩ := exists_bind_of_unbound ht hb
    obtain ⟨a', hcopy', hrun'⟩ := exists_bind_of_unbound ht' hb'
    exact ⟨true, _, _, hrun, hrun', GrownAlike.refl.bind hb hb' hc ht ht' hcopy hcopy',
      .refl run run'⟩
  · obtain ⟨v, hv, hv'⟩ := exists_agrees_alike hcopies (hC.alike hc)
    exact ⟨v, run, run', by rw [bind_of_bound hb, hv], by rw [bind_of_bound hb', hv'],
      .refl run run'⟩

theorem inStep_bindOptional {c c' : Nat} (hc : R c c') (g : Option String) :
    InStep C C' R (bindOptional C g c) (bindOptional C' g c') := by
  cases g with
  | none => exact inStep_pure true
  | some g => exact inStep_bind hC hc g

theorem inStep_backreference {c c' : Option NodeId} (hc : Option.Rel R c c') (p p' : NodeId)
    (g : String) :
    InStep C C' R (matchPlaceholder P C enter p (.backreference g) c)
      (matchPlaceholder P' C' enter' p' (.backreference g) c') := by
  intro run run' hm
  cases hc with
  | none =>
    exact ⟨false, run, run', backreference_of_absent, backreference_of_absent, .refl run run'⟩
  | some hc =>
    rcases hm.find?_cases g with ⟨hb, hb'⟩ | ⟨b, b', hb, hb', hcopies⟩
    · exact ⟨false, run, run', backreference_of_unbound hb _, backreference_of_unbound hb' _,
        .refl run run'⟩
    · obtain ⟨v, hv, hv'⟩ := exists_agrees_alike hcopies (hC.alike hc)
      exact ⟨v, run, run', by rw [backreference_of_bound hb, hv],
        by rw [backreference_of_bound hb', hv'], .refl run run'⟩

variable (hP : Lockstep P P' Q) (henter : ∀ ⦃p p' : Nat⦄ ⦃c c' : Option NodeId⦄, Q p p' →
  Option.Rel R c c' → InStep C C' R (enter p c) (enter' p' c'))

include hP henter

theorem inStep_matchRole {p p' c c' : Nat} (hp : Q p p') (hc : R c c') (r : RoleId) :
    InStep C C' R (matchRole P C enter p c r) (matchRole P' C' enter' p' c' r) := by
  unfold matchRole
  cases r.cardinality with
  | single =>
    obtain ⟨x, x', hx, hx', hslot⟩ := hP.exists_child? hp r
    obtain ⟨y, y', hy, hy', hslot'⟩ := hC.exists_child? hc r
    refine inStep_settled_bind hx hx' (inStep_settled_bind hy hy' ?_)
    cases hslot with
    | none =>
      cases hslot' with
      | none => exact inStep_pure true
      | some _ => exact inStep_pure _
    | some hentry => exact henter hentry hslot'
  | many =>
    -- the lists are of the same lengths in both runs, so they are compared in both or in neither
    obtain ⟨xs, xs', hxs, hxs', hslots⟩ := hP.exists_childrenUnder hp r
    obtain ⟨ys, ys', hys, hys', hslots'⟩ := hC.exists_childrenUnder hc r
    refine inStep_settled_bind hxs hxs' (inStep_settled_bind hys hys' ?_)
    rw [← hslots.length_eq, ← hslots'.length_eq]
    split_ifs
    · exact inStep_allM ((rel_zip hslots hslots').imp fun x y h => henter h.1 (.some h.2))
    · exact inStep_pure false

theorem inStep_matchConcrete {p p' c c' : Nat} (hp : Q p p') (hc : R c c') (k : Kind) :
    InStep C C' R (matchConcrete P C enter p k c) (matchConcrete P' C' enter' p' k c') := by
  obtain ⟨k', hk, hk'⟩ := hC.exists_kind hc
  refine inStep_settled_bind hk hk' ?_
  split_ifs
  · exact inStep_allM (List.forall₂_same.mpr fun r _ => inStep_matchRole hC hP henter hp hc r)
  · exact inStep_pure false

omit hC hP in
/-- Both runs go back to captures that are similar before the next alternative. -/
theorem inStep_tryEach {c c' : Option NodeId} (hc : Option.Rel R c c') {ps ps' : List NodeId}
    (hps : List.Forall₂ Q ps ps') :
    InStep C C' R (tryEach enter c ps) (tryEach enter' c' ps') := by
  induction hps with
  | nil => exact inStep_pure false
  | cons hp _ ih =>
    intro run run' hm
    obtain ⟨v, run₁, run₁', hfirst, hfirst', htogether⟩ := henter hp hc hm
    cases v with
    | true =>
      exact ⟨true, run₁, run₁', tryEach_of_true hfirst, tryEach_of_true hfirst', htogether⟩
    | false =>
      -- warnings stay, so those of this alternative count with those of the others
      rw [tryEach_of_false hfirst htogether.grown.left.precedes hm.closed,
        tryEach_of_false hfirst' htogether.grown.right.precedes hm.closed']
      obtain ⟨w, run₂, run₂', hrest, hrest', htogether'⟩ := @ih
        { run₁ with captures := run.captures } { run₁' with captures := run'.captures } hm
      exact ⟨w, run₂, run₂', hrest, hrest', htogether'.grown,
        htogether.warned.trans htogether'.warned⟩

theorem inStep_matchPlaceholder {p p' : Nat} {c c' : Option NodeId} (hp : Q p p')
    (hc : Option.Rel R c c') (placeholder : Placeholder) :
    InStep C C' R (matchPlaceholder P C enter p placeholder c)
      (matchPlaceholder P' C' enter' p' placeholder c') := by
  cases placeholder with
  | any g =>
    cases hc with
    | none => exact inStep_pure false
    | some hc => exact inStep_bindOptional hC hc g
  | anyOrNull g =>
    cases hc with
    | none => exact inStep_pure true
    | some hc => exact inStep_bindOptional hC hc g
  | backreference g => exact inStep_backreference hC hc p p' g
  | named g =>
    obtain ⟨x, x', hx, hx', hinner⟩ := hP.exists_child? hp .patternChild
    refine inStep_settled_bind hx hx' ?_
    cases hinner with
    | none => exact inStep_pure false
    | some hinner =>
      cases hc with
      | none => exact inStep_pure false
      | some hc =>
        refine (henter hinner (.some hc)).bind fun matched => ?_
        split_ifs
        · exact inStep_bind hC hc g
        · exact inStep_pure false
  | choice =>
    obtain ⟨ps, ps', hps, hps', halternatives⟩ := hP.exists_childrenUnder hp .alternative
    exact inStep_settled_bind hps hps' (inStep_tryEach henter hc halternatives)

/-- **One level**, given that the levels below are in step. -/
theorem inStep_matchLevel {p p' : Nat} {c c' : Option NodeId} (hp : Q p p')
    (hc : Option.Rel R c c') :
    InStep C C' R (matchLevel P C enter p c) (matchLevel P' C' enter' p' c') := by
  obtain ⟨k, hk, hk'⟩ := hP.exists_kind hp
  refine inStep_settled_bind hk hk' ?_
  cases k with
  | pattern placeholder => exact inStep_matchPlaceholder hC hP henter hp hc placeholder
  | token _ | identifier _ | expression _ | statement _ =>
    -- an ordinary node is not matched by an empty slot
    cases hc with
    | none => exact inStep_pure false
    | some hc => exact inStep_matchConcrete hC hP henter hp hc _

end Level

/-! ### A whole match -/

section Whole

variable {P P' C C' : Arena} {Q R : Nat → Nat → Prop}

/-- **Every level**: beyond the limit both runs give a warning, and the other levels are one level
on top of those below. -/
theorem inStep_matchNode (hP : Lockstep P P' Q) (hC : Lockstep C C' R) (maxDepth : Nat) :
    ∀ (depth : Nat) ⦃p p' : Nat⦄ ⦃c c' : Option NodeId⦄, Q p p' → Option.Rel R c c' →
      InStep C C' R (matchNode P C maxDepth depth p c) (matchNode P' C' maxDepth depth p' c')
  | 0, p, p', _, _, _, _ => fun _ _ _ =>
    ⟨false, _, _, rfl, rfl, .refl, [⟨maxDepth, p⟩], [⟨maxDepth, p'⟩], rfl, rfl, rfl⟩
  | depth + 1, _, _, _, _, hp, hc =>
    inStep_matchLevel hC hP (inStep_matchNode hP hC maxDepth depth) hp hc

/-- **A whole match**: of two that fail, both go back to where they started. -/
theorem inStep_doMatch (hP : Lockstep P P' Q) (hC : Lockstep C C' R) {p p' c c' : Nat}
    (hp : Q p p') (hc : R c c') (maxDepth : Nat) :
    InStep C C' R (doMatch P p C c maxDepth) (doMatch P' p' C' c' maxDepth) := by
  intro run run' hm
  obtain ⟨matched, run₁, run₁', hrun, hrun', htogether⟩ :=
    inStep_matchNode hP hC maxDepth maxDepth hp (.some hc) hm
  cases matched with
  | true => exact ⟨true, run₁, run₁', doMatch_of_true hrun, doMatch_of_true hrun', htogether⟩
  | false =>
    exact ⟨false, _, _, doMatch_of_false hrun htogether.grown.left.precedes hm.closed,
      doMatch_of_false hrun' htogether.grown.right.precedes hm.closed', .refl, htogether.warned⟩

/-- **Matching sees nothing but shape**.  Take two patterns that are structurally equal, two
candidates that are, and captures that are similar.  Then both matches have the same answer and give
as many warnings, the captures that they leave are similar again, and whatever one of them has newly
bound is at the same place below its candidate as what the other has. -/
theorem doMatch_depends_on_shape {p p' c c' : Nat} {run run' : Run}
    (hpattern : P.structurallyEqual p P' p' = .ok true)
    (hcandidate : C.structurallyEqual c C' c' = .ok true)
    (hcaptures : run.captures.Similar run'.captures) (maxDepth : Nat) :
    ∃ matched run₁ run₁', doMatch P p C c maxDepth run = .ok matched run₁ ∧
      doMatch P' p' C' c' maxDepth run' = .ok matched run₁' ∧ WarnedAlike run run' run₁ run₁' ∧
      run₁.captures.Similar run₁'.captures ∧
      List.Forall₂ (fun b b' => C.SamePlace C' c c' b.node b'.node)
        (run₁.captures.bindings.drop run.captures.size)
        (run₁'.captures.bindings.drop run'.captures.size) := by
  have hp : P.Alike P' p p' := structurallyEqual_eq_true_iff.mp hpattern
  have hc : C.Peers C' c c' c c' := .refl (structurallyEqual_eq_true_iff.mp hcandidate)
  obtain ⟨matched, run₁, run₁', hrun, hrun', htogether⟩ :=
    inStep_doMatch (lockstep_alike P P') (lockstep_peers C C' c c') hp hc maxDepth hcaptures
  exact ⟨matched, run₁, run₁', hrun, hrun', htogether.warned, htogether.grown.similar hcaptures,
    (htogether.grown.related hcaptures.keyed hcaptures.keyed').imp fun b b' hb => hb.2⟩

end Whole

/-! ### The same sum elsewhere -/

/-- The pattern for a sum of equal operands again, at `3`. -/
def movedPattern : Arena :=
  (Call.newBinary 1 .add 2).after ((Call.newAny (some "g")).after
    ((Call.newAny (some "g")).after ((Call.newLiteral .null).after .empty)))

/-- The sum of two names again, at `5`. -/
def movedSum (x y : String) : Arena :=
  (Call.newBinary 1 .add 3).after ((Call.newIdentifierExpression y).after
    ((Call.newIdentifierExpression x).after ((Call.newLiteral .null).after .empty)))

/-- A run in which the same group remembers the same name, bound elsewhere. -/
def movedName : Run :=
  { captures := Captures.empty.record ⟨"h", 7, 1⟩
      ((Call.newIdentifierExpression "z").after ((Call.newLiteral .null).after .empty)) }

theorem similar_heldName_movedName : heldName.captures.Similar movedName.captures where
  keyed := keyed_empty.record rfl _
  keyed' := keyed_empty.record rfl _
  closed := (Reachable.call (.newIdentifierExpression "z") .empty).wellFormed.closed
  closed' := (Reachable.call (.newIdentifierExpression "z")
    (.call (.newLiteral .null) .empty)).wellFormed.closed
  copies := .cons ⟨rfl, rfl⟩ .nil

/-- Both matches bind the left operand, which has one id in the one and another in the other. -/
theorem doMatch_depends_on_shape_moved :
    ∃ run₁ run₁', doMatch doublePattern 2 (sumOf "x" "x") 4 2 heldName = .ok true run₁ ∧
      doMatch movedPattern 3 (movedSum "x" "x") 5 2 movedName = .ok true run₁' ∧
      run₁.captures.get? "g" = some 0 ∧ run₁'.captures.get? "g" = some 1 ∧
      run₁.captures.Similar run₁'.captures ∧
      List.Forall₂ (fun b b' => (sumOf "x" "x").SamePlace (movedSum "x" "x") 4 5 b.node b'.node)
        (run₁.captures.bindings.drop 1) (run₁'.captures.bindings.drop 1) := by
  have hpattern : doublePattern.structurallyEqual 2 movedPattern 3 = .ok true := rfl
  have hcandidate : (sumOf "x" "x").structurallyEqual 4 (movedSum "x" "x") 5 = .ok true := rfl
  obtain ⟨matched, run₁, run₁', hrun, hrun', -, hagain, hplaces⟩ :=
    doMatch_depends_on_shape hpattern hcandidate similar_heldName_movedName 2
  have heval : ∃ run₂, doMatch doublePattern 2 (sumOf "x" "x") 4 2 heldName = .ok true run₂ ∧
      run₂.captures.get? "g" = some 0 := ⟨_, rfl, rfl⟩
  have heval' : ∃ run₂, doMatch movedPattern 3 (movedSum "x" "x") 5 2 movedName = .ok true run₂ ∧
      run₂.captures.get? "g" = some 1 := ⟨_, rfl, rfl⟩
  obtain ⟨run₂, h, hget⟩ := heval
  obtain ⟨run₂', h', hget'⟩ := heval'
  cases h.symm.trans hrun
  cases h'.symm.trans hrun'
  exact ⟨_, _, hrun, hrun', hget, hget', hagain, hplaces⟩

end Matching

end SyntaxForest
