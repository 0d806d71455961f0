import SyntaxForest.Proofs.Captures
import SyntaxForest.Proofs.Reachable
import SyntaxForest.Proofs.Walk

/-!
# What a match leaves behind

If a part of a match succeeds, the captures have grown, by bindings of nodes at or below the
candidate (`Grows`).  If it breaks off, they have grown too; and if the ids are in range, the only
faults are those of comparisons with copies (`Blames`).  `Behaves` says both of a part of the
matcher.  So there is no fault if the captures are intact (`Behaves.total`).  It is put together
along the definitions: from the parts of a level to a level (`behaves_matchLevel`), and by induction
from the levels below to a whole pattern (`behaves_matchNode`).  A choice fits in because going back
undoes what an alternative has bound (`Precedes.restore`), so what is left at the end is the growth
of the last alternative alone.  That going back does not break off itself is where the private arena
has to be closed.

`doMatch_outcome` is what this means for a whole match: one that fails has changed nothing, and
one that succeeds has only added to the captures.
-/

namespace SyntaxForest.Matching

open Captures Arena

/-! ### Parts that let captures grow -/

/-- The run that a part of a match leaves behind, whether it succeeds or fails. -/
def after {α : Type} (x : Matching α) (run : Run) : Run :=
  match x run with
  | .ok _ run' => run'
  | .error _ run' => run'

theorem after_of_ok {α : Type} {x : Matching α} {run run' : Run} {v : α} (h : x run = .ok v run') :
    after x run = run' := by
  rw [after, h]

theorem after_of_error {α : Type} {x : Matching α} {run run' : Run} {e : Fault}
    (h : x run = .error e run') : after x run = run' := by
  rw [after, h]

/-- A step that fails is the last one. -/
theorem seq_of_error {α β : Type} {x : Matching α} {f : α → Matching β} {run run' : Run} {e : Fault}
    (h : x run = .error e run') : (x >>= f) run = .error e run' := by
  show EStateM.bind x f run = .error e run'
  rw [EStateM.bind, h]

section Back

variable {m : Captures} {run run' : Run}

/-- Going back to an earlier stage of the captures. -/
theorem restore_of_precedes (hstage : m.Precedes run.captures) (hm : m.arena.Closed) :
    restore m.checkpoint run = .ok () { run with captures := m } := by
  rw [restore, hstage.restore hm]

theorem eq_of_restore_of_precedes (hstage : m.Precedes run.captures)
    (h : restore m.checkpoint run = .ok () run') : run' = { run with captures := m } := by
  unfold restore at h
  cases hback : run.captures.restore m.checkpoint with
  | error e n =>
    rw [hback] at h
    cases h
  | ok _ n =>
    rw [hback] at h
    cases h
    rw [hstage.eq_of_restore hback]

end Back

/-- If the part `x` of a match succeeds, then all that it has done to captures is to bind nodes
in `Z`. -/
def Grows {α : Type} (C : Arena) (Z : NodeId → Prop) (x : Matching α) : Prop :=
  ∀ ⦃run run' : Run⦄ ⦃v : α⦄, x run = .ok v run' → Grown C Z run.captures run'.captures

/-- The fault is that of comparing a copy with a node that stands for a tree. -/
def Blames (C : Arena) (m : Captures) (e : Fault) : Prop :=
  ∃ (g : String) (b : Binding) (c : NodeId) (t : Tree), m.find? g = some b ∧ t.IsAt C c ∧
    m.arena.structurallyEqual b.copy C c = .error e

/-- Comparisons with copies that are intact have an answer. -/
theorem Blames.not_intact {C : Arena} {m : Captures} {e : Fault} (h : Blames C m e) :
    ¬ m.Intact := by
  obtain ⟨g, b, c, t, hb, ht, he⟩ := h
  intro hm
  obtain ⟨u, hu⟩ := hm.copies g b hb
  obtain ⟨v, hv, -⟩ := structurallyEqual_of_isAt hu ht
  rw [he] at hv
  cases hv

/-- The part `x` of a match only binds nodes in `Z`, and so it does if it breaks off, provided that
the private arena is closed; and if `ok` holds, then the captures are to blame for its faults. -/
structure Behaves {α : Type} (C : Arena) (Z : NodeId → Prop) (ok : Prop) (x : Matching α) :
    Prop where
  grows : Grows C Z x
  breaks : ∀ ⦃run run' : Run⦄ ⦃e : Fault⦄, run.captures.arena.Closed → x run = .error e run' →
    Grown C Z run.captures run'.captures ∧ (ok → Blames C run'.captures e)

theorem settled_of_ok {α : Type} {e : Except Fault α} {v : α} (h : e = .ok v) (run : Run) :
    (settled e : Matching α) run = .ok v run := by
  rw [h]
  rfl

theorem ask_of_ok {α : Type} {e : Except Fault α} {v : α} (h : e = .ok v) (run : Run) :
    (liftM (ask e) : Matching α) run = .ok v run :=
  settled_of_ok h run

theorem settled_eq_ok {α : Type} {e : Except Fault α} {v : α} {run run' : Run}
    (h : (settled e : Matching α) run = .ok v run') : e = .ok v ∧ run' = run := by
  cases e with
  | error e => cases h
  | ok w =>
    cases h
    exact ⟨rfl, rfl⟩

/-- A successful sequence that starts with a look has found something. -/
theorem settled_seq_eq_ok {α β : Type} {e : Except Fault α} {f : α → Matching β} {run run' : Run}
    {w : β} (h : (settled e >>= f) run = .ok w run') : ∃ v, e = .ok v ∧ f v run = .ok w run' := by
  obtain ⟨v, run₁, hread, hrest⟩ := seq_eq_ok h
  obtain ⟨hv, rfl⟩ := settled_eq_ok hread
  exact ⟨v, hv, hrest⟩

theorem allM_cons_of_true {α : Type} {f : α → Matching Bool} {x : α} {run run' : Run}
    (h : f x run = .ok true run') (xs : List α) : (x :: xs).allM f run = xs.allM f run' := by
  show (f x >>= _ : Matching Bool) run = _
  rw [seq_of_ok h]

/-- All answers are yes only if the first one is, and then the others are. -/
theorem allM_cons_eq_ok {α : Type} {f : α → Matching Bool} {x : α} {xs : List α} {run run' : Run}
    (h : (x :: xs).allM f run = .ok true run') :
    ∃ run₁, f x run = .ok true run₁ ∧ xs.allM f run₁ = .ok true run' := by
  obtain ⟨v, run₁, hfirst, hrest⟩ := seq_eq_ok (x := f x) h
  cases v with
  | false => cases hrest
  | true => exact ⟨run₁, hfirst, hrest⟩

section Combinators

variable {α β : Type} {C : Arena} {Z Z' : NodeId → Prop} {ok ok' : Prop}

/-- On intact captures there is nothing to blame. -/
theorem Behaves.total {x : Matching α} (hx : Behaves C Z ok x) (hok : ok) ⦃run : Run⦄
    (hm : run.captures.Intact) : ∃ v run', x run = .ok v run' := by
  cases hr : x run with
  | ok v run' => exact ⟨v, run', rfl⟩
  | error e run' =>
    obtain ⟨hgrown, hblames⟩ := hx.breaks hm.closed hr
    exact absurd (hgrown.intact hm) (hblames hok).not_intact

/-- Whether it succeeds or breaks off, it has only bound nodes. -/
theorem Behaves.grown_after {x : Matching α} (hx : Behaves C Z ok x) {run : Run}
    (hm : run.captures.arena.Closed) : Grown C Z run.captures (after x run).captures := by
  cases hr : x run with
  | ok v run' =>
    rw [after_of_ok hr]
    exact hx.grows hr
  | error e run' =>
    rw [after_of_error hr]
    exact (hx.breaks hm hr).1

theorem behaves_pure (v : α) : Behaves C Z ok (pure v : Matching α) where
  grows _ _ _ h := by
    cases h
    exact .refl
  breaks _ _ _ _ h := by cases h

theorem Behaves.bind {x : Matching α} {f : α → Matching β} (hx : Behaves C Z ok x)
    (hf : ∀ v, Behaves C Z ok (f v)) : Behaves C Z ok (x >>= f) where
  grows run run' w h := by
    obtain ⟨v, run₁, hfirst, hrest⟩ := seq_eq_ok h
    exact (hx.grows hfirst).trans ((hf v).grows hrest)
  breaks run run' e hm h := by
    cases hr : x run with
    | ok v run₁ =>
      rw [seq_of_ok hr] at h
      have hgrown := hx.grows hr
      obtain ⟨hrest, hblames⟩ := (hf v).breaks (hgrown.closed hm) h
      exact ⟨hgrown.trans hrest, hblames⟩
    | error e' run₁ =>
      rw [seq_of_error hr] at h
      cases h
      exact hx.breaks hm hr

/-- What was read may be used about the arena it was read from. -/
theorem behaves_settled_bind {e : Except Fault α} {f : α → Matching β} (he : ok → ∃ v, e = .ok v)
    (hf : ∀ v, e = .ok v → Behaves C Z ok (f v)) : Behaves C Z ok (settled e >>= f) where
  grows run run' w h := by
    obtain ⟨v, hv, hrest⟩ := settled_seq_eq_ok h
    exact (hf v hv).grows hrest
  breaks run run' e' hm h := by
    cases e with
    | ok v => exact (hf v rfl).breaks hm h
    | error e =>
      cases h
      refine ⟨.refl, fun hok => ?_⟩
      obtain ⟨v, hv⟩ := he hok
      cases hv

theorem Behaves.mono {x : Matching α} (hx : Behaves C Z ok x) (hZ : ∀ n, Z n → Z' n)
    (hok : ok' → ok) : Behaves C Z' ok' x where
  grows _ _ _ h := (hx.grows h).mono hZ
  breaks _ _ _ hm h := by
    obtain ⟨hgrown, hblames⟩ := hx.breaks hm h
    exact ⟨hgrown.mono hZ, fun h => hblames (hok h)⟩

theorem behaves_allM {f : α → Matching Bool} : ∀ {xs : List α},
    (∀ x ∈ xs, Behaves C Z ok (f x)) → Behaves C Z ok (xs.allM f)
  | [], _ => behaves_pure true
  | x :: xs, h => by
    rw [List.allM]
    refine (h x List.mem_cons_self).bind fun v => ?_
    cases v with
    | false => exact behaves_pure false
    | true => exact behaves_allM fun y hy => h y (List.mem_cons_of_mem _ hy)

end Combinators

/-! ### One level -/

section Level

variable {P C : Arena} {enter : NodeId → Option NodeId → Matching Bool}

/-- The nodes at or below a candidate, if there is one. -/
def Region (C : Arena) (c : Option NodeId) (n : NodeId) : Prop := ∃ x, c = some x ∧ C.AtOrBelow x n

theorem Region.below {x : Option NodeId} {c n : NodeId} (h : Region C x n)
    (hx : ∀ y, x = some y → C.AtOrBelow c y) : C.AtOrBelow c n := by
  obtain ⟨y, rfl, hn⟩ := h
  exact (hx y rfl).trans hn

/-- The pattern node is there, and so is the candidate unless it is absent. -/
def InRange (P C : Arena) (p : NodeId) (c : Option NodeId) : Prop :=
  p < P.size ∧ ∀ x, c = some x → x < C.size

/-- A comparison binds nothing, and its only fault is that of the copy. -/
theorem agrees_eq_error {b : Binding} {c : Nat} {run run' : Run} {e : Fault}
    (h : agrees C b c run = .error e run') :
    run' = run ∧ run.captures.arena.structurallyEqual b.copy C c = .error e := by
  unfold agrees at h
  cases heq : run.captures.arena.structurallyEqual b.copy C c with
  | ok v =>
    rw [heq] at h
    cases h
  | error e' =>
    rw [heq] at h
    cases h
    exact ⟨rfl, rfl⟩

/-- What is done by comparing with the copy of a group. -/
theorem agrees_outcome {Z : NodeId → Prop} {g : String} {b : Binding} {c : Nat} {run : Run}
    (hC : C.WellFormed) (hb : run.captures.find? g = some b) :
    (∀ ⦃run' : Run⦄ ⦃v : Bool⦄, agrees C b c run = .ok v run' →
      Grown C Z run.captures run'.captures) ∧
    ∀ ⦃run' : Run⦄ ⦃e : Fault⦄, agrees C b c run = .error e run' →
      Grown C Z run.captures run'.captures ∧ (c < C.size → Blames C run'.captures e) := by
  constructor
  · intro run' v h
    obtain ⟨-, rfl⟩ := settled_eq_ok h
    exact .refl
  · intro run' e h
    obtain ⟨rfl, he⟩ := agrees_eq_error h
    refine ⟨.refl, fun hc => ?_⟩
    obtain ⟨t, ht⟩ := hC.exists_isAt hc
    exact ⟨g, b, c, t, hb, ht, he⟩

theorem behaves_bind (hC : C.WellFormed) (g : String) (c : Nat) :
    Behaves C (· = c) (c < C.size) (bind C g c) := by
  have hunbound : ∀ {run : Run}, run.captures.find? g = none → c < C.size →
      ∃ run', bind C g c run = .ok true run' ∧ Grown C (· = c) run.captures run'.captures := by
    intro run hg hc
    obtain ⟨t, ht⟩ := hC.exists_isAt hc
    obtain ⟨a, hcopy, hrun⟩ := exists_bind_of_unbound ht hg
    exact ⟨_, hrun, Grown.refl.bind hg rfl ht hcopy⟩
  constructor
  · intro run run' v h
    cases hg : run.captures.find? g with
    | some b =>
      rw [bind_of_bound hg] at h
      exact (agrees_outcome hC hg).1 h
    | none =>
      obtain ⟨run₁, hrun, hgrown⟩ := hunbound hg (lt_size_of_bind h)
      rw [hrun] at h
      cases h
      exact hgrown
  · intro run run' e _ h
    cases hg : run.captures.find? g with
    | some b =>
      rw [bind_of_bound hg] at h
      exact (agrees_outcome hC hg).2 h
    | none =>
      by_cases hc : c < C.size
      · obtain ⟨run₁, hrun, -⟩ := hunbound hg hc
        rw [hrun] at h
        cases h
      · -- a node that is not there is noticed before anything is copied
        have hnone := Arena.node?_eq_none_iff.mpr (Nat.not_lt.mp hc)
        have hcapture : capture C g c run = .error (.outOfRange C.size c) run := by
          rw [capture, Edit.importFrom_of_none hnone]
        rw [bind_of_unbound hg, seq_of_error hcapture] at h
        cases h
        exact ⟨.refl, fun h => absurd h hc⟩

theorem behaves_bindOptional (hC : C.WellFormed) (g : Option String) (c : Nat) :
    Behaves C (· = c) (c < C.size) (bindOptional C g c) := by
  cases g with
  | none => exact behaves_pure true
  | some g => exact behaves_bind hC g c

section TryEach

variable {p : NodeId} {c : Option NodeId} {ps : List NodeId} {run run' : Run}

theorem tryEach_of_true (h : enter p c run = .ok true run') :
    tryEach enter c (p :: ps) run = .ok true run' := by
  show (enter p c >>= _ : Matching Bool) run = _
  rw [seq_of_ok h]
  rfl

theorem tryEach_of_error {e : Fault} (h : enter p c run = .error e run') :
    tryEach enter c (p :: ps) run = .error e run' := by
  show (enter p c >>= _ : Matching Bool) run = _
  rw [seq_of_error h]

/-- The next alternative starts from the captures that this one started from. -/
theorem tryEach_of_false (h : enter p c run = .ok false run')
    (hstage : run.captures.Precedes run'.captures) (hm : run.captures.arena.Closed) :
    tryEach enter c (p :: ps) run = tryEach enter c ps { run' with captures := run.captures } := by
  show (enter p c >>= _ : Matching Bool) run = _
  rw [seq_of_ok h]
  show (restore run.captures.checkpoint >>= _ : Matching Bool) run' = _
  rw [seq_of_ok (restore_of_precedes hstage hm)]

/-- If there is a next alternative at all, it starts from the captures that this one started
from. -/
theorem tryEach_of_false_eq_ok {run'' : Run} {v : Bool} (h : enter p c run = .ok false run')
    (hstage : run.captures.Precedes run'.captures)
    (hrun : tryEach enter c (p :: ps) run = .ok v run'') :
    tryEach enter c ps { run' with captures := run.captures } = .ok v run'' := by
  obtain ⟨matched, run₁, hfirst, hrest⟩ := seq_eq_ok (x := enter p c) hrun
  cases hfirst.symm.trans h
  obtain ⟨_, run₂, hback, hnext⟩ := seq_eq_ok (x := restore run.captures.checkpoint) hrest
  rw [eq_of_restore_of_precedes hstage hback] at hnext
  exact hnext

end TryEach

section Backreference

variable {p : NodeId} {g : String} {run : Run}

theorem backreference_of_bound {b : Binding} (h : run.captures.find? g = some b) (c : NodeId) :
    matchPlaceholder P C enter p (.backreference g) (some c) run = agrees C b c run := by
  show (binding? g >>= _ : Matching Bool) run = _
  rw [seq_of_ok (binding?_of_find? h)]
  rfl

theorem backreference_of_unbound (h : run.captures.find? g = none) (c : Option NodeId) :
    matchPlaceholder P C enter p (.backreference g) c run = .ok false run := by
  show (binding? g >>= _ : Matching Bool) run = _
  rw [seq_of_ok (binding?_of_find? h)]
  rfl

theorem backreference_of_absent :
    matchPlaceholder P C enter p (.backreference g) none run = .ok false run := by
  cases h : run.captures.find? g with
  | none => exact backreference_of_unbound h none
  | some b =>
    show (binding? g >>= _ : Matching Bool) run = _
    rw [seq_of_ok (binding?_of_find? h)]
    rfl

/-- A reference back binds nothing: it compares, or there is nothing to compare. -/
theorem behaves_backreference (hC : C.WellFormed) (p : NodeId) (g : String) (c : Option NodeId) :
    Behaves C (Region C c) (InRange P C p c)
      (matchPlaceholder P C enter p (.backreference g) c) := by
  cases c with
  | none =>
    constructor
    · intro run run' v h
      rw [backreference_of_absent] at h
      cases h
      exact .refl
    · intro run run' e _ h
      rw [backreference_of_absent] at h
      cases h
  | some c =>
    -- what it does depends on the captures of the run it starts from
    constructor
    · intro run run' v h
      cases hb : run.captures.find? g with
      | none =>
        rw [backreference_of_unbound hb] at h
        cases h
        exact .refl
      | some b =>
        rw [backreference_of_bound hb] at h
        exact (agrees_outcome hC hb).1 h
    · intro run run' e _ h
      cases hb : run.captures.find? g with
      | none =>
        rw [backreference_of_unbound hb] at h
        cases h
      | some b =>
        rw [backreference_of_bound hb] at h
        obtain ⟨hgrown, hblames⟩ := (agrees_outcome hC hb).2 h
        exact ⟨hgrown, fun hrange => hblames (hrange.2 c rfl)⟩

end Backreference

variable (hP : P.WellFormed) (hC : C.WellFormed)
  (henter : ∀ p c, Behaves C (Region C c) (InRange P C p c) (enter p c))

include hP hC henter

theorem behaves_matchRole (p c : Nat) (r : RoleId) :
    Behaves C (C.AtOrBelow c) (p < P.size ∧ c < C.size) (matchRole P C enter p c r) := by
  unfold matchRole
  cases r.cardinality with
  | single =>
    refine behaves_settled_bind (fun h => exists_child?_eq_ok h.1 r) fun p' hp' =>
      behaves_settled_bind (fun h => exists_child?_eq_ok h.2 r) fun c' hc' => ?_
    cases p' with
    | none =>
      cases c' with
      | none => exact behaves_pure true
      | some c' => exact behaves_pure _
    | some p' =>
      have hbelow : ∀ x, c' = some x → C.AtOrBelow c x ∧ x < C.size := by
        rintro x rfl
        exact hC.atOrBelow_of_child? hc'
      exact (henter p' c').mono (fun n hn => hn.below fun x hx => (hbelow x hx).1)
        fun _ => ⟨(hP.atOrBelow_of_child? hp').2, fun x hx => (hbelow x hx).2⟩
  | many =>
    refine behaves_settled_bind (fun h => exists_childrenUnder_eq_ok h.1 r) fun ps hps =>
      behaves_settled_bind (fun h => exists_childrenUnder_eq_ok h.2 r) fun cs hcs => ?_
    split_ifs
    · refine behaves_allM fun x hx => ?_
      have hp := hP.atOrBelow_of_childrenUnder hps (List.of_mem_zip hx).1
      have hbelow : ∀ y, some x.2 = some y → C.AtOrBelow c y ∧ y < C.size := by
        rintro y ⟨⟩
        exact hC.atOrBelow_of_childrenUnder hcs (List.of_mem_zip hx).2
      exact (henter x.1 (some x.2)).mono (fun n hn => hn.below fun y hy => (hbelow y hy).1)
        fun _ => ⟨hp.2, fun y hy => (hbelow y hy).2⟩
    · exact behaves_pure false

theorem behaves_matchConcrete (p : Nat) (k : Kind) (c : Nat) :
    Behaves C (C.AtOrBelow c) (p < P.size ∧ c < C.size) (matchConcrete P C enter p k c) := by
  refine behaves_settled_bind (fun h => exists_kind_eq_ok h.2) fun k' _ => ?_
  split_ifs
  · exact behaves_allM fun r _ => behaves_matchRole hP hC henter p c r
  · exact behaves_pure false

omit hP hC in
/-- An alternative that does not match leaves the captures to the next one as it found them. -/
theorem behaves_tryEach (c : Option NodeId) : ∀ ps : List NodeId,
    Behaves C (Region C c) (∀ p ∈ ps, InRange P C p c) (tryEach enter c ps)
  | [] => behaves_pure false
  | p :: ps => by
    have hrest := behaves_tryEach c ps
    have hfirst := henter p c
    constructor
    · intro run run' v h
      obtain ⟨matched, run₁, hr, -⟩ := seq_eq_ok (x := enter p c) h
      have hgrown := hfirst.grows hr
      cases matched with
      | true =>
        rw [tryEach_of_true hr] at h
        cases h
        exact hgrown
      | false =>
        -- the rest starts from `run.captures`, so its growth is the whole growth
        have hnext := hrest.grows (tryEach_of_false_eq_ok hr hgrown.precedes h)
        exact hnext
    · intro run run' e hm h
      cases hr : enter p c run with
      | error e' run₁ =>
        rw [tryEach_of_error hr] at h
        cases h
        obtain ⟨hgrown, hblames⟩ := hfirst.breaks hm hr
        exact ⟨hgrown, fun hrange => hblames (hrange p List.mem_cons_self)⟩
      | ok w run₁ =>
        cases w with
        | true =>
          rw [tryEach_of_true hr] at h
          cases h
        | false =>
          rw [tryEach_of_false hr (hfirst.grows hr).precedes hm] at h
          have hback : ({ run₁ with captures := run.captures } : Run).captures.arena.Closed := hm
          obtain ⟨hgrown, hblames⟩ := hrest.breaks hback h
          exact ⟨hgrown, fun hrange =>
            hblames fun q hq => hrange q (List.mem_cons_of_mem _ hq)⟩

theorem behaves_matchPlaceholder (p : Nat) (placeholder : Placeholder) (c : Option NodeId) :
    Behaves C (Region C c) (InRange P C p c) (matchPlaceholder P C enter p placeholder c) := by
  have hregion : ∀ {c : Nat} {x : Matching Bool}, Behaves C (· = c) (c < C.size) x →
      Behaves C (Region C (some c)) (InRange P C p (some c)) x :=
    fun hx => hx.mono (fun n hn => ⟨_, rfl, .inl hn⟩) fun h => h.2 _ rfl
  cases placeholder with
  | any g =>
    cases c with
    | none => exact behaves_pure false
    | some c => exact hregion (behaves_bindOptional hC g c)
  | anyOrNull g =>
    cases c with
    | none => exact behaves_pure true
    | some c => exact hregion (behaves_bindOptional hC g c)
  | backreference g => exact behaves_backreference hC p g c
  | named g =>
    refine behaves_settled_bind (fun h => exists_child?_eq_ok h.1 _) fun inner hinner => ?_
    cases inner with
    | none => exact behaves_pure false
    | some inner =>
      cases c with
      | none => exact behaves_pure false
      | some c =>
        refine Behaves.bind ?_ fun matched => ?_
        · exact (henter inner (some c)).mono (fun _ hn => hn) fun h =>
            ⟨(hP.atOrBelow_of_child? hinner).2, h.2⟩
        · split_ifs
          · exact hregion (behaves_bind hC g c)
          · exact behaves_pure false
  | choice =>
    refine behaves_settled_bind (fun h => exists_childrenUnder_eq_ok h.1 _) fun ps hps => ?_
    exact (behaves_tryEach henter c ps).mono (fun _ hn => hn) fun h q hq =>
      ⟨(hP.atOrBelow_of_childrenUnder hps hq).2, h.2⟩

/-- **One level**, given what is known of the levels below it. -/
theorem behaves_matchLevel (p : Nat) (c : Option NodeId) :
    Behaves C (Region C c) (InRange P C p c) (matchLevel P C enter p c) := by
  refine behaves_settled_bind (fun h => exists_kind_eq_ok h.1) fun k _ => ?_
  split
  · exact behaves_matchPlaceholder hP hC henter p _ c
  · exact behaves_pure false
  next c _ =>
    exact (behaves_matchConcrete hP hC henter p k c).mono (fun n hn => ⟨c, rfl, hn⟩)
      fun h => ⟨h.1, h.2 c rfl⟩

end Level

/-! ### A whole match -/

section Whole

variable {P C : Arena}

/-- **Every level**: a pattern beyond the limit only costs a warning, and the others are one level
on top of those below. -/
theorem behaves_matchNode (hP : P.WellFormed) (hC : C.WellFormed) (maxDepth : Nat) :
    ∀ (depth p : Nat) (c : Option NodeId),
      Behaves C (Region C c) (InRange P C p c) (matchNode P C maxDepth depth p c)
  | 0, p, c => by
    constructor
    · intro run run' v h
      cases h
      exact .refl
    · intro run run' e _ h
      cases h
  | depth + 1, p, c =>
    behaves_matchLevel hP hC (behaves_matchNode hP hC maxDepth depth) p c

variable {p c : NodeId} {maxDepth : Nat} {run run' : Run}

theorem doMatch_of_true (h : matchNode P C maxDepth maxDepth p (some c) run = .ok true run') :
    doMatch P p C c maxDepth run = .ok true run' := by
  show (matchNode P C maxDepth maxDepth p (some c) >>= _ : Matching Bool) run = _
  rw [seq_of_ok h]
  rfl

theorem doMatch_of_false (h : matchNode P C maxDepth maxDepth p (some c) run = .ok false run')
    (hstage : run.captures.Precedes run'.captures) (hm : run.captures.arena.Closed) :
    doMatch P p C c maxDepth run = .ok false { run' with captures := run.captures } := by
  show (matchNode P C maxDepth maxDepth p (some c) >>= _ : Matching Bool) run = _
  rw [seq_of_ok h]
  show (restore run.captures.checkpoint >>= _ : Matching Bool) run' = _
  rw [seq_of_ok (restore_of_precedes hstage hm)]
  rfl

/-- If nothing was bound, there is nothing to take back. -/
theorem doMatch_of_false_of_same
    (h : matchNode P C maxDepth maxDepth p (some c) run = .ok false run')
    (hsame : run'.captures = run.captures) : doMatch P p C c maxDepth run = .ok false run' := by
  have hback : restore run.captures.checkpoint run' = .ok () run' := by
    rw [restore, ← hsame, Captures.restore_checkpoint]
  show (matchNode P C maxDepth maxDepth p (some c) >>= _ : Matching Bool) run = _
  rw [seq_of_ok h]
  show (restore run.captures.checkpoint >>= _ : Matching Bool) run' = _
  rw [seq_of_ok hback]
  rfl

/-- A match comes to an end if the pattern matches, or if it does not and what it has bound can be
taken back. -/
theorem doMatch_eq_ok {v : Bool} (h : doMatch P p C c maxDepth run = .ok v run') :
    ∃ run₁, matchNode P C maxDepth maxDepth p (some c) run = .ok v run₁ ∧
      (v = true → run' = run₁) ∧
      (v = false → run.captures.Precedes run₁.captures →
        run' = { run₁ with captures := run.captures }) := by
  obtain ⟨matched, run₁, hnode, hrest⟩ :=
    seq_eq_ok (x := matchNode P C maxDepth maxDepth p (some c)) h
  cases matched with
  | true =>
    cases hrest
    exact ⟨_, hnode, fun _ => rfl, nofun⟩
  | false =>
    obtain ⟨_, run₂, hback, hend⟩ := seq_eq_ok (x := restore run.captures.checkpoint) hrest
    cases hend
    exact ⟨run₁, hnode, nofun, fun _ hstage => eq_of_restore_of_precedes hstage hback⟩

theorem doMatch_of_error {e : Fault}
    (h : matchNode P C maxDepth maxDepth p (some c) run = .error e run') :
    doMatch P p C c maxDepth run = .error e run' := by
  show (matchNode P C maxDepth maxDepth p (some c) >>= _ : Matching Bool) run = _
  rw [seq_of_error h]

/-- **A whole match** only binds nodes at or below the candidate; and a fault of a match of nodes
that are there is that of comparing a copy. -/
theorem behaves_doMatch (hP : P.WellFormed) (hC : C.WellFormed) (p c maxDepth : Nat) :
    Behaves C (C.AtOrBelow c) (p < P.size ∧ c < C.size) (doMatch P p C c maxDepth) := by
  have hnode : Behaves C (C.AtOrBelow c) (p < P.size ∧ c < C.size)
      (matchNode P C maxDepth maxDepth p (some c)) := by
    refine (behaves_matchNode hP hC maxDepth maxDepth p (some c)).mono (fun n hn => ?_) fun h => ?_
    · exact hn.below fun x hx => by cases hx; exact .refl C c
    · exact ⟨h.1, fun x hx => Option.some.inj hx ▸ h.2⟩
  constructor
  · intro run run' v h
    obtain ⟨run₁, hr, htrue, hfalse⟩ := doMatch_eq_ok h
    have hgrown := hnode.grows hr
    cases v with
    | true =>
      rw [htrue rfl]
      exact hgrown
    | false =>
      rw [hfalse rfl hgrown.precedes]
      exact .refl
  · intro run run' e hm h
    cases hr : matchNode P C maxDepth maxDepth p (some c) run with
    | error e' run₁ =>
      rw [doMatch_of_error hr] at h
      cases h
      exact hnode.breaks hm hr
    | ok matched run₁ =>
      cases matched with
      | true =>
        rw [doMatch_of_true hr] at h
        cases h
      | false =>
        rw [doMatch_of_false hr (hnode.grows hr).precedes hm] at h
        cases h

/-- A match that succeeds is a pattern that matches. -/
theorem matchNode_of_doMatch (h : doMatch P p C c maxDepth run = .ok true run') :
    matchNode P C maxDepth maxDepth p (some c) run = .ok true run' := by
  obtain ⟨run₁, hr, htrue, -⟩ := doMatch_eq_ok h
  rw [htrue rfl]
  exact hr

/-- **The outcome of a match** of nodes that are there.  If it fails, the captures are exactly what
they were: the table, the trail and the private arena.  If it succeeds, the trail and the arena
begin with the old ones, every group that was bound is bound as it was, and every group that is new
is bound to a node among the descendants of the candidate, with a copy of the same structure. -/
theorem doMatch_outcome (hP : P.WellFormed) (hC : C.WellFormed) (hp : p < P.size) (hc : c < C.size)
    (maxDepth : Nat) (hm : run.captures.Intact) :
    ∃ matched run', doMatch P p C c maxDepth run = .ok matched run' ∧
      (matched = false → run'.captures = run.captures) ∧
      (matched = true → run.captures.trail <+: run'.captures.trail ∧
        (∀ g b, run.captures.find? g = some b → run'.captures.find? g = some b) ∧
        run.captures.arena.IsPrefix run'.captures.arena ∧
        ∃ ns, C.descendants c = .ok ns ∧ ∀ g b, run.captures.find? g = none →
          run'.captures.find? g = some b →
            b.node ∈ ns ∧ C.structurallyEqual b.node run'.captures.arena b.copy = .ok true) := by
  have hbehaves := behaves_doMatch hP hC p c maxDepth
  obtain ⟨matched, run', hrun⟩ := hbehaves.total ⟨hp, hc⟩ hm
  refine ⟨matched, run', hrun, fun hfalse => ?_, fun _ => ?_⟩
  · obtain ⟨run₁, hnode, -, hback⟩ := doMatch_eq_ok hrun
    have hgrown := (behaves_matchNode hP hC maxDepth maxDepth p (some c)).grows hnode
    rw [hback hfalse hgrown.precedes]
  · have hgrown := hbehaves.grows hrun
    obtain ⟨ns, hns, hmem⟩ := exists_descendants_eq_ok hC hc
    refine ⟨hgrown.precedes.trail, fun g b => hgrown.find?_eq, hgrown.arena, ns, hns, ?_⟩
    -- the copy of a new binding stands for the tree of its node, so the two compare as equal
    intro g b hold hnew
    obtain ⟨hbelow, t, ht, hcopy⟩ := hgrown.of_find? hold hnew
    obtain ⟨v, hv, hiff⟩ := structurallyEqual_of_isAt ht hcopy
    exact ⟨(hmem _).mpr hbelow, by rw [hv, hiff.mpr rfl]⟩

end Whole

/-! ### A sum of two equal operands -/

/-- The pattern at `2` is for a sum whose operands are the same, whatever they are. -/
def doublePattern : Arena :=
  (Call.newBinary 0 .add 1).after
    ((Call.newAny (some "g")).after ((Call.newAny (some "g")).after .empty))

/-- The candidate at `4` is the sum of two names. -/
def sumOf (x y : String) : Arena :=
  (Call.newBinary 0 .add 2).after
    ((Call.newIdentifierExpression y).after ((Call.newIdentifierExpression x).after .empty))

/-- A run in which another group remembers the name `z`. -/
def heldName : Run :=
  { captures := Captures.empty.record ⟨"h", 5, 0⟩ ((Call.newIdentifierExpression "z").after .empty) }

theorem reachable_doublePattern : doublePattern.Reachable :=
  .call (.newBinary 0 .add 1) (.call (.newAny (some "g")) (.call (.newAny (some "g")) .empty))

theorem wellFormed_sumOf (x y : String) : (sumOf x y).WellFormed :=
  (Reachable.call (.newBinary 0 .add 2) (.call (.newIdentifierExpression y)
    (.call (.newIdentifierExpression x) .empty))).wellFormed

theorem intact_heldName : heldName.captures.Intact := by
  have hw := (Reachable.call (.newIdentifierExpression "z") .empty).wellFormed
  refine ⟨hw.closed, fun g b hb => ?_⟩
  obtain ⟨-, rfl⟩ : g = "h" ∧ ⟨"h", 5, 0⟩ = b := by
    rw [heldName, find?_record] at hb
    split_ifs at hb with hg
    · exact ⟨hg, Option.some.inj hb⟩
    · cases hb
  exact hw.exists_isAt (by decide)

/-- The left operand is bound before the right one turns out to be another; and where the operands
are equal, the group is bound to the left one. -/
theorem doMatch_outcome_double :
    (∃ run', doMatch doublePattern 2 (sumOf "x" "y") 4 2 heldName = .ok false run' ∧
      run'.captures = heldName.captures) ∧
    ∃ run', doMatch doublePattern 2 (sumOf "x" "x") 4 2 heldName = .ok true run' ∧
      run'.captures.get? "g" = some 0 ∧ heldName.captures.trail <+: run'.captures.trail ∧
      heldName.captures.arena.IsPrefix run'.captures.arena := by
  constructor
  · obtain ⟨matched, run', hrun, hfalse, -⟩ := doMatch_outcome reachable_doublePattern.wellFormed
      (wellFormed_sumOf "x" "y") (p := 2) (c := 4) (by decide) (by decide) 2 intact_heldName
    obtain rfl : false = matched := by
      have heval : ∃ run₁, doMatch doublePattern 2 (sumOf "x" "y") 4 2 heldName = .ok false run₁ :=
        ⟨_, rfl⟩
      obtain ⟨run₁, h⟩ := heval
      cases h.symm.trans hrun
      rfl
    exact ⟨run', hrun, hfalse rfl⟩
  · obtain ⟨matched, run', hrun, -, htrue⟩ := doMatch_outcome reachable_doublePattern.wellFormed
      (wellFormed_sumOf "x" "x") (p := 2) (c := 4) (by decide) (by decide) 2 intact_heldName
    obtain ⟨rfl, hget⟩ : true = matched ∧ run'.captures.get? "g" = some 0 := by
      have heval : ∃ run₁, doMatch doublePattern 2 (sumOf "x" "x") 4 2 heldName = .ok true run₁ ∧
          run₁.captures.get? "g" = some 0 := ⟨_, rfl, rfl⟩
      obtain ⟨run₁, h, hget⟩ := heval
      cases h.symm.trans hrun
      exact ⟨rfl, hget⟩
    obtain ⟨htrail, -, harena, -⟩ := htrue rfl
    exact ⟨run', hrun, hget, htrail, harena⟩

end SyntaxForest.Matching
