import SyntaxForest.Proofs.MatchGrowth

/-!
# A match is an instance

`Instance P C s p c` says what it means for a candidate to be an instance of a pattern, given the
trees `s` that the groups stand for.  There is no order in it, no captures and no limit: a choice
has some alternative that fits, and all the placeholders of one group see the same `s`.

The matcher is sound for it: if it answers yes, then the candidate is an instance for the trees
that are captured in the end (`instance_of_doMatch`).  What a part of the match has bound is not
what the captures are in the end, but a part of it, since from then on they only grow.  So the
statement to prove of each part is about all the assignments that extend what has been captured
when the part is done (`Sound`).
-/

namespace SyntaxForest

/-! ### Instances -/

/-- The assignment `s` has all the trees of `s'`, and maybe more. -/
def Assignment.Extends (s s' : Assignment) : Prop := ∀ g t, s' g = some t → s g = some t

/-- The group stands for the tree at the node `c`. -/
def Assignment.Holds (s : Assignment) (C : Arena) (g : String) (c : NodeId) : Prop :=
  ∃ t : Tree, t.IsAt C c ∧ s g = some t

mutual

/-- The candidate `c`, a node of `C` or none at all, is an instance of the pattern at `p`. -/
inductive Instance (P C : Arena) (s : Assignment) : NodeId → Option NodeId → Prop
  /-- Any node will do, as long as it is what the group stands for. -/
  | any {p c : NodeId} {group : Option String} (hk : P.kind p = .ok (.pattern (.any group)))
    (hgroup : ∀ g, group = some g → s.Holds C g c) : Instance P C s p (some c)
  | anyOrNull {p c : NodeId} {group : Option String}
    (hk : P.kind p = .ok (.pattern (.anyOrNull group)))
    (hgroup : ∀ g, group = some g → s.Holds C g c) : Instance P C s p (some c)
  | absent {p : NodeId} {group : Option String}
    (hk : P.kind p = .ok (.pattern (.anyOrNull group))) : Instance P C s p none
  | backreference {p c : NodeId} {g : String} (hk : P.kind p = .ok (.pattern (.backreference g)))
    (hgroup : s.Holds C g c) : Instance P C s p (some c)
  /-- The inner pattern fits, and the group stands for the node too. -/
  | named {p q c : NodeId} {g : String} (hk : P.kind p = .ok (.pattern (.named g)))
    (hq : P.child? p .patternChild = .ok (some q)) (h : Instance P C s q (some c))
    (hgroup : s.Holds C g c) : Instance P C s p (some c)
  /-- Some alternative fits. -/
  | choice {p q : NodeId} {c : Option NodeId} {qs : List NodeId}
    (hk : P.kind p = .ok (.pattern .choice)) (hqs : P.childrenUnder p .alternative = .ok qs)
    (hq : q ∈ qs) (h : Instance P C s q c) : Instance P C s p c
  /-- An ordinary node fits nodes of its kind with slots that fit. -/
  | concrete {p c : NodeId} {k : Kind} (hk : P.kind p = .ok k) (hplain : ∀ x, k ≠ .pattern x)
    (hc : C.kind c = .ok k) (hslots : ∀ r ∈ k.comparedRoles, SlotInstance P C s p c r) :
    Instance P C s p (some c)

/-- What the node `c` has under the role `r` is an instance of what the pattern `p` has there. -/
inductive SlotInstance (P C : Arena) (s : Assignment) : NodeId → NodeId → RoleId → Prop
  | empty {p c : NodeId} {r : RoleId} (hr : r.cardinality = .single)
    (hp : P.child? p r = .ok none) (hc : C.child? c r = .ok none) : SlotInstance P C s p c r
  /-- A pattern without a name is for nodes of any name. -/
  | unnamed {p c : NodeId} {x : Option NodeId} (hp : P.child? p .identifier = .ok none)
    (hc : C.child? c .identifier = .ok x) : SlotInstance P C s p c .identifier
  | present {p c q : NodeId} {x : Option NodeId} {r : RoleId} (hr : r.cardinality = .single)
    (hp : P.child? p r = .ok (some q)) (hc : C.child? c r = .ok x) (h : Instance P C s q x) :
    SlotInstance P C s p c r
  /-- As many children, and one by one they fit. -/
  | listed {p c : NodeId} {qs xs : List NodeId} {r : RoleId} (hr : r.cardinality = .many)
    (hp : P.childrenUnder p r = .ok qs) (hc : C.childrenUnder c r = .ok xs)
    (hlength : qs.length = xs.length)
    (h : ∀ q x, (q, x) ∈ qs.zip xs → Instance P C s q (some x)) : SlotInstance P C s p c r

end

namespace Matching

open Captures Arena

/-! ### Sound parts of a match -/

/-- If `x` answers yes, then `Q` holds of all the assignments that extend what is captured then. -/
def Sound (Q : Assignment → Prop) (x : Matching Bool) : Prop :=
  ∀ ⦃run run' : Run⦄, run.captures.Intact → x run = .ok true run' →
    ∀ s : Assignment, s.Extends run'.captures.assignment → Q s

section Parts

variable {C : Arena} {Z : NodeId → Prop} {ok : Prop}

theorem extends_of_grown {m m' : Captures} (h : Grown C Z m m') {s : Assignment}
    (hs : s.Extends m'.assignment) : s.Extends m.assignment :=
  fun g t hg => hs g t (h.assignment_mono hg)

theorem sound_allM {α : Type} {f : α → Matching Bool} {Q : α → Assignment → Prop} :
    ∀ {xs : List α}, (∀ x ∈ xs, Behaves C Z ok (f x)) → (∀ x ∈ xs, Sound (Q x) (f x)) →
      Sound (fun s => ∀ x ∈ xs, Q x s) (xs.allM f)
  | [], _, _ => by
    intro _ _ _ _ s _ x hx
    cases hx
  | x :: xs, hbehaves, hsound => by
    intro run run' hm h s hs
    obtain ⟨run₁, hfirst, hrest⟩ := allM_cons_eq_ok h
    have hbelow := fun y hy => hbehaves y (List.mem_cons_of_mem x hy)
    have hm₁ := ((hbehaves x List.mem_cons_self).grows hfirst).intact hm
    -- the later steps only add to what the first one has bound
    have hgrown := (behaves_allM hbelow).grows hrest
    rw [List.forall_mem_cons]
    exact ⟨hsound x List.mem_cons_self hm hfirst s (extends_of_grown hgrown hs),
      sound_allM hbelow (fun y hy => hsound y (List.mem_cons_of_mem x hy)) hm₁ hrest s hs⟩

theorem sound_bind (hC : C.WellFormed) (g : String) (c : Nat) :
    Sound (·.Holds C g c) (bind C g c) := by
  intro run run' hm h s hs
  obtain ⟨t, ht⟩ := hC.exists_isAt (lt_size_of_bind h)
  obtain ⟨v, run₁, hrun, -, -, hassign, -⟩ := exists_bind_eq_ok ht hm g
  cases hrun.symm.trans h
  exact ⟨t, ht, hs g t (hassign rfl)⟩

theorem sound_bindOptional (hC : C.WellFormed) (group : Option String) (c : Nat) :
    Sound (fun s => ∀ g, group = some g → s.Holds C g c) (bindOptional C group c) := by
  intro run run' hm h s hs g hg
  subst hg
  exact sound_bind hC g c hm h s hs

theorem sound_agrees (hC : C.WellFormed) {g : String} {b : Binding} {c : Nat} {run run' : Run}
    (hb : run.captures.find? g = some b) (hm : run.captures.Intact)
    (h : agrees C b c run = .ok true run') {s : Assignment}
    (hs : s.Extends run'.captures.assignment) : s.Holds C g c := by
  obtain ⟨t, ht⟩ := hC.exists_isAt (lt_size_of_agrees h)
  obtain ⟨u, hu⟩ := hm.copies g b hb
  obtain ⟨v, hv, hiff⟩ := exists_agrees_eq_ok ht hu
  cases hv.symm.trans h
  refine ⟨t, ht, hs g t ?_⟩
  rw [← hiff.mp rfl]
  exact assignment_eq_some_iff.mpr ⟨b, hb, hu⟩

end Parts

/-! ### One level -/

section Level

variable {P C : Arena} {enter : NodeId → Option NodeId → Matching Bool}
  (hC : C.WellFormed) (hbehaves : ∀ p c, Behaves C (Region C c) (InRange P C p c) (enter p c))
  (henter : ∀ p c, Sound (fun s => Instance P C s p c) (enter p c))

include hC hbehaves henter

theorem sound_matchRole (p c : Nat) (r : RoleId) :
    Sound (fun s => SlotInstance P C s p c r) (matchRole P C enter p c r) := by
  intro run run' hm hrun s hs
  unfold matchRole at hrun
  cases hr : r.cardinality with
  | single =>
    rw [hr] at hrun
    obtain ⟨p', hp', hrun⟩ := settled_seq_eq_ok hrun
    obtain ⟨c', hc', h⟩ := settled_seq_eq_ok hrun
    cases p' with
    | some p' => exact .present hr hp' hc' (henter p' c' hm h s hs)
    | none =>
      cases c' with
      | none => exact .empty hr hp' hc'
      | some c' =>
        have hname : decide (r = .identifier) = true := (EStateM.Result.ok.inj h).1
        obtain rfl := of_decide_eq_true hname
        exact .unnamed hp' hc'
  | many =>
    rw [hr] at hrun
    obtain ⟨ps, hps, hrun⟩ := settled_seq_eq_ok hrun
    obtain ⟨cs, hcs, h⟩ := settled_seq_eq_ok hrun
    split_ifs at h with hlength
    · refine .listed hr hps hcs hlength fun q x hqx => ?_
      -- only the growth of the steps matters here, not that they come to an end
      have hsteps : ∀ y ∈ ps.zip cs, Behaves C (C.AtOrBelow c) False (enter y.1 (some y.2)) := by
        intro y hy
        refine (hbehaves y.1 (some y.2)).mono (fun n hn => hn.below ?_) False.elim
        rintro z ⟨⟩
        exact (hC.atOrBelow_of_childrenUnder hcs (List.of_mem_zip hy).2).1
      exact sound_allM hsteps (fun y _ => henter y.1 (some y.2)) hm h s hs (q, x) hqx
    · cases h

theorem sound_matchConcrete (hP : P.WellFormed) {p c : Nat} {k : Kind} (hk : P.kind p = .ok k)
    (hplain : ∀ x, k ≠ .pattern x) :
    Sound (fun s => Instance P C s p (some c)) (matchConcrete P C enter p k c) := by
  intro run run' hm hrun s hs
  obtain ⟨k', hc, h⟩ := settled_seq_eq_ok hrun
  split_ifs at h with hsame
  · subst hsame
    refine .concrete hk hplain hc ?_
    exact sound_allM (fun r _ => behaves_matchRole hP hC hbehaves p c r)
      (fun r _ => sound_matchRole hC hbehaves henter p c r) hm h s hs
  · cases h

omit hC in
/-- The alternative that fits is the first one that the matcher says yes to; those before it have
left nothing behind. -/
theorem sound_tryEach (c : Option NodeId) : ∀ ps : List NodeId,
    Sound (fun s => ∃ p ∈ ps, Instance P C s p c) (tryEach enter c ps)
  | [] => fun _ _ _ h => by cases h
  | p :: ps => by
    intro run run' hm h s hs
    obtain ⟨v, run₁, hv, -⟩ := seq_eq_ok (x := enter p c) h
    cases v with
    | true =>
      cases (tryEach_of_true hv).symm.trans h
      exact ⟨p, List.mem_cons_self, henter p c hm hv s hs⟩
    | false =>
      rw [tryEach_of_false hv ((hbehaves p c).grows hv).precedes hm.closed] at h
      obtain ⟨q, hq, hinstance⟩ := sound_tryEach c ps (by exact hm) h s hs
      exact ⟨q, List.mem_cons_of_mem _ hq, hinstance⟩

theorem sound_matchPlaceholder {p : Nat} {placeholder : Placeholder}
    (hk : P.kind p = .ok (.pattern placeholder)) (c : Option NodeId) :
    Sound (fun s => Instance P C s p c) (matchPlaceholder P C enter p placeholder c) := by
  intro run run' hm h s hs
  cases placeholder with
  | any group =>
    cases c with
    | none => cases h
    | some c => exact .any hk (sound_bindOptional hC group c hm h s hs)
  | anyOrNull group =>
    cases c with
    | none => exact .absent hk
    | some c => exact .anyOrNull hk (sound_bindOptional hC group c hm h s hs)
  | backreference g =>
    cases c with
    | none =>
      rw [backreference_of_absent] at h
      cases h
    | some c =>
      cases hb : run.captures.find? g with
      | none =>
        rw [backreference_of_unbound hb] at h
        cases h
      | some b =>
        rw [backreference_of_bound hb] at h
        exact .backreference hk (sound_agrees hC hb hm h hs)
  | named g =>
    obtain ⟨inner, hinner, hrest⟩ := settled_seq_eq_ok h
    cases inner with
    | none => cases hrest
    | some q =>
      cases c with
      | none => cases hrest
      | some c =>
        obtain ⟨v, run₁, hq, hbind⟩ := seq_eq_ok hrest
        cases v with
        | false => cases hbind
        | true =>
          -- the group is bound last, and binding it takes nothing away
          have hm₁ := ((hbehaves q (some c)).grows hq).intact hm
          have hgrown := (behaves_bind hC g c).grows hbind
          exact .named hk hinner (henter q (some c) hm hq s (extends_of_grown hgrown hs))
            (sound_bind hC g c hm₁ hbind s hs)
  | choice =>
    obtain ⟨ps, hps, hrest⟩ := settled_seq_eq_ok h
    obtain ⟨q, hq, hinstance⟩ := sound_tryEach hbehaves henter c ps hm hrest s hs
    exact .choice hk hps hq hinstance

/-- **One level**, given that the levels below it are sound. -/
theorem sound_matchLevel (hP : P.WellFormed) (p : Nat) (c : Option NodeId) :
    Sound (fun s => Instance P C s p c) (matchLevel P C enter p c) := by
  intro run run' hm hrun s hs
  obtain ⟨k, hk, h⟩ := settled_seq_eq_ok hrun
  split at h
  · exact sound_matchPlaceholder hC hbehaves henter hk c hm h s hs
  · cases h
  next c hplain =>
    exact sound_matchConcrete hC hbehaves henter hP hk (fun x hx => hplain x hx) hm h s hs

end Level

/-! ### A whole match -/

section Whole

variable {P C : Arena}

/-- **Every level** is sound. -/
theorem sound_matchNode (hP : P.WellFormed) (hC : C.WellFormed) (maxDepth : Nat) :
    ∀ (depth p : Nat) (c : Option NodeId),
      Sound (fun s => Instance P C s p c) (matchNode P C maxDepth depth p c)
  | 0, _, _ => fun _ _ _ h => by cases h
  | depth + 1, p, c => sound_matchLevel hC (behaves_matchNode hP hC maxDepth depth)
      (sound_matchNode hP hC maxDepth depth) hP p c

/-- **Soundness**: if a match succeeds, the candidate is an instance of the pattern for the trees
that are captured afterwards.  Every group that is bound then has a tree, and it is the tree from
before if the group was bound before. -/
theorem instance_of_doMatch (hP : P.WellFormed) (hC : C.WellFormed) {p c : NodeId} {maxDepth : Nat}
    {run run' : Run} (hm : run.captures.Intact)
    (h : doMatch P p C c maxDepth run = .ok true run') :
    Instance P C run'.captures.assignment p (some c) ∧ run'.captures.Intact ∧
      run'.captures.assignment.Extends run.captures.assignment := by
  have hnode := matchNode_of_doMatch h
  have hgrown := (behaves_matchNode hP hC maxDepth maxDepth p (some c)).grows hnode
  exact ⟨sound_matchNode hP hC maxDepth maxDepth p (some c) hm hnode _ fun _ _ ht => ht,
    hgrown.intact hm, extends_of_grown hgrown fun _ _ ht => ht⟩

/-- The pattern at `8` is for a sum of equal operands or, if they are different, of any two. -/
def eitherPattern : Arena :=
  (Call.newChoice [2, 6]).after ((Call.newBinary 4 .add 5).after
    ((Call.newAny (some "k")).after ((Call.newAny (some "g")).after doublePattern)))

theorem reachable_eitherPattern : eitherPattern.Reachable :=
  .call (.newChoice [2, 6]) (.call (.newBinary 4 .add 5)
    (.call (.newAny (some "k")) (.call (.newAny (some "g")) reachable_doublePattern)))

/-- The first alternative binds the left operand and then fails; the second one binds both. -/
theorem instance_of_doMatch_either :
    ∃ run', doMatch eitherPattern 8 (sumOf "x" "y") 4 3 heldName = .ok true run' ∧
      run'.captures.bindings.map (fun b => (b.group, b.node)) = [("h", 5), ("g", 0), ("k", 2)] ∧
      Instance eitherPattern (sumOf "x" "y") run'.captures.assignment 8 (some 4) := by
  obtain ⟨run', h, hbindings⟩ : ∃ run',
      doMatch eitherPattern 8 (sumOf "x" "y") 4 3 heldName = .ok true run' ∧
      run'.captures.bindings.map (fun b => (b.group, b.node)) = [("h", 5), ("g", 0), ("k", 2)] :=
    ⟨_, rfl, rfl⟩
  exact ⟨run', h, hbindings, (instance_of_doMatch reachable_eitherPattern.wellFormed
    (wellFormed_sumOf "x" "y") intact_heldName h).1⟩

end Whole

end Matching

end SyntaxForest
