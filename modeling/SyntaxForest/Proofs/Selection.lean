import SyntaxForest.Proofs.Agenda
import SyntaxForest.Proofs.MatchSoundness
import SyntaxForest.Proofs.Planting

/-!
# A choice takes the first alternative that matches

A match that succeeds has taken one alternative of each choice that it has entered.  Put these
alternatives in the places of the choices, and the result is a pattern for which there is nothing to
choose.  `Resolves P C maxDepth depth p c m m' t` says what a successful match of `p` with `c` does:
it leads from the captures `m` to the captures `m'`, and `t` is the pattern with its choices
made.  At a choice, all the alternatives before the one that is taken do not match from `m`, and the
one that is taken does; nothing else of them enters the relation.

* Every successful match is resolved (`exists_resolves`).  What an alternative has bound before it
  failed is undone, so that each one starts from the captures that the choice was entered with.
* The resolved pattern matches, wherever it stands, from the same captures and with the same result
  (`Resolves.leads`).  It has fewer levels, since the choices are gone; so the limit is no obstacle.
* The resolved pattern is admissible (`Resolves.sound`), so that it stands somewhere
  (`exists_reachable_isAt`).  An alternative need not be of a category that the role above the
  choice takes, but one that matches is a placeholder or of the kind of its candidate, and that one
  has the same role.

Warnings are given but never looked at (`Heedless`), and so they are left out of the account.
-/

namespace SyntaxForest

namespace Matching

open Captures Arena

/-! ### Warnings are not looked at -/

/-- From the captures `m`, the part `x` gives the answer `v` and leaves the captures `m'`, whatever
warnings there are. -/
def Leads {α : Type} (x : Matching α) (m : Captures) (v : α) (m' : Captures) : Prop :=
  ∀ ws, ∃ ws', x ⟨m, ws⟩ = .ok v ⟨m', ws'⟩

/-- What the part `x` does, it does whatever warnings there are. -/
def Heedless {α : Type} (x : Matching α) : Prop :=
  ∀ ⦃run run' : Run⦄ ⦃v : α⦄, x run = .ok v run' → Leads x run.captures v run'.captures

section Heedless

variable {α β : Type}

theorem Leads.seq {x : Matching α} {f : α → Matching β} {m m₁ m' : Captures} {v : α} {w : β}
    (hx : Leads x m v m₁) (hf : Leads (f v) m₁ w m') : Leads (x >>= f) m w m' := by
  intro ws
  obtain ⟨ws₁, hfirst⟩ := hx ws
  obtain ⟨ws₂, hrest⟩ := hf ws₁
  exact ⟨ws₂, by rw [seq_of_ok hfirst, hrest]⟩

theorem heedless_pure (v : α) : Heedless (pure v : Matching α) := by
  intro run run' w h
  cases h
  exact fun ws => ⟨ws, rfl⟩

theorem Heedless.bind {x : Matching α} {f : α → Matching β} (hx : Heedless x)
    (hf : ∀ v, Heedless (f v)) : Heedless (x >>= f) := by
  intro run run' w h
  obtain ⟨v, run₁, hfirst, hrest⟩ := seq_eq_ok h
  exact (hx hfirst).seq (hf v hrest)

/-- A step that looks at the captures and changes them, and does nothing else. -/
theorem heedless_step (f : Captures → α) (g : Captures → Captures) :
    Heedless (fun run => .ok (f run.captures) { run with captures := g run.captures }) := by
  intro run run' v h
  cases h
  exact fun ws => ⟨ws, rfl⟩

theorem heedless_binding? (g : String) : Heedless (binding? g) := heedless_step (·.find? g) id

theorem heedless_settled (e : Except Fault α) : Heedless (settled e : Matching α) := by
  intro run run' v h
  obtain ⟨rfl, rfl⟩ := settled_eq_ok h
  exact fun ws => ⟨ws, rfl⟩

theorem heedless_allM {f : α → Matching Bool} (hf : ∀ x, Heedless (f x)) :
    ∀ xs : List α, Heedless (xs.allM f)
  | [] => heedless_pure true
  | x :: xs => by
    refine (hf x).bind fun v => ?_
    cases v with
    | false => exact heedless_pure false
    | true => exact heedless_allM hf xs

theorem heedless_agrees (C : Arena) (b : Binding) (c : NodeId) : Heedless (agrees C b c) := by
  intro run run' v h
  obtain ⟨heq, rfl⟩ := settled_eq_ok h
  exact fun ws => ⟨ws, settled_of_ok heq _⟩

theorem heedless_capture (C : Arena) (g : String) (c : NodeId) : Heedless (capture C g c) := by
  intro run run' v h ws
  unfold capture at h ⊢
  cases hcopy : Edit.importFrom C c run.captures.arena with
  | error e a =>
    rw [hcopy] at h
    cases h
  | ok copy a =>
    rw [hcopy] at h
    cases h
    exact ⟨ws, by simp only⟩

theorem heedless_restore (cp : Checkpoint) : Heedless (restore cp) := by
  intro run run' v h ws
  unfold restore at h ⊢
  cases hback : run.captures.restore cp with
  | error e m =>
    rw [hback] at h
    cases h
  | ok _ m =>
    rw [hback] at h
    cases h
    exact ⟨ws, by simp only⟩

theorem heedless_bind (C : Arena) (g : String) (c : NodeId) : Heedless (bind C g c) := by
  refine (heedless_binding? g).bind fun b => ?_
  cases b with
  | some b => exact heedless_agrees C b c
  | none => exact (heedless_capture C g c).bind fun _ => heedless_pure true

theorem heedless_bindOptional (C : Arena) (g : Option String) (c : NodeId) :
    Heedless (bindOptional C g c) := by
  cases g with
  | none => exact heedless_pure true
  | some g => exact heedless_bind C g c

variable {P C : Arena} {enter : NodeId → Option NodeId → Matching Bool}
  (henter : ∀ q x, Heedless (enter q x))

include henter

theorem heedless_matchRole (p c : NodeId) (r : RoleId) :
    Heedless (matchRole P C enter p c r) := by
  unfold matchRole
  cases r.cardinality with
  | single =>
    refine (heedless_settled _).bind fun q => (heedless_settled _).bind fun x => ?_
    cases q with
    | none => cases x <;> exact heedless_pure _
    | some q => exact henter q x
  | many =>
    refine (heedless_settled _).bind fun qs => (heedless_settled _).bind fun xs => ?_
    split_ifs
    · exact heedless_allM (fun y : NodeId × NodeId => henter y.1 (some y.2)) _
    · exact heedless_pure false

theorem heedless_tryEach (c : Option NodeId) : ∀ ps : List NodeId, Heedless (tryEach enter c ps)
  | [] => heedless_pure false
  | p :: ps => by
    have hcheckpoint : Heedless checkpoint := heedless_step (·.checkpoint) id
    refine hcheckpoint.bind fun cp => (henter p c).bind fun v => ?_
    cases v with
    | true => exact heedless_pure true
    | false => exact (heedless_restore cp).bind fun _ => heedless_tryEach c ps

theorem heedless_matchPlaceholder (p : NodeId) (x : Placeholder) (c : Option NodeId) :
    Heedless (matchPlaceholder P C enter p x c) := by
  cases x with
  | any g =>
    cases c with
    | none => exact heedless_pure false
    | some c => exact heedless_bindOptional C g c
  | anyOrNull g =>
    cases c with
    | none => exact heedless_pure true
    | some c => exact heedless_bindOptional C g c
  | backreference g =>
    refine (heedless_binding? g).bind fun b => ?_
    cases b with
    | none => exact heedless_pure false
    | some b =>
      cases c with
      | none => exact heedless_pure false
      | some c => exact heedless_agrees C b c
  | named g =>
    refine (heedless_settled _).bind fun q => ?_
    cases q with
    | none => exact heedless_pure false
    | some q =>
      cases c with
      | none => exact heedless_pure false
      | some c =>
        refine (henter q (some c)).bind fun v => ?_
        cases v with
        | false => exact heedless_pure false
        | true => exact heedless_bind C g c
  | choice => exact (heedless_settled _).bind fun qs => heedless_tryEach henter c qs

theorem heedless_matchLevel (p : NodeId) (c : Option NodeId) :
    Heedless (matchLevel P C enter p c) := by
  refine (heedless_settled _).bind fun k => ?_
  cases k with
  | pattern x => exact heedless_matchPlaceholder henter p x c
  | token _ | identifier _ | expression _ | statement _ =>
    cases c with
    | none => exact heedless_pure false
    | some c =>
      refine (heedless_settled _).bind fun k' => ?_
      split_ifs
      · exact heedless_allM (heedless_matchRole henter p c) _
      · exact heedless_pure false

omit henter in
theorem heedless_matchNode (P C : Arena) (maxDepth : Nat) :
    ∀ (depth : Nat) (p : NodeId) (c : Option NodeId),
      Heedless (matchNode P C maxDepth depth p c)
  | 0, _, _ => by
    intro run run' v h
    cases h
    exact fun ws => ⟨_, rfl⟩
  | depth + 1, p, c => heedless_matchLevel (heedless_matchNode P C maxDepth depth) p c

end Heedless

/-! ### Patterns with their choices made -/

/-- What can be said of a pattern node and its candidate: which captures they lead from, which ones
they lead to, and the pattern with its choices made. -/
abbrev Resolution := NodeId → Option NodeId → Captures → Captures → Tree → Prop

/-- The pairs match in turn, each from the captures that the one before it has left; the pattern
nodes are resolved to the trees that `τ` has for them. -/
inductive Turns (S : Resolution) (τ : NodeId → Tree) :
    List (NodeId × Option NodeId) → Captures → Captures → Prop
  | nil {m : Captures} : Turns S τ [] m m
  | cons {q : NodeId} {x : Option NodeId} {ys : List (NodeId × Option NodeId)}
    {m m₁ m' : Captures} (h : S q x m m₁ (τ q)) (hrest : Turns S τ ys m₁ m') :
    Turns S τ ((q, x) :: ys) m m'

/-- The tree `t` is the node `d` with the trees that `τ` has for its children below it.  Unless a
child is among the `entered` ones, that is the tree it stands for. -/
structure Rebuilt (P : Arena) (d : Node) (τ : NodeId → Tree) (entered : List NodeId) (t : Tree) :
    Prop where
  kind_eq : t.kind = d.kind
  branches_eq : t.branches = d.children.map fun y => (y.role, τ y.node)
  kept : ∀ y ∈ d.children, y.node ∉ entered → (τ y.node).IsAt P y.node

/-- **One level** of a pattern with its choices made, given the levels below. -/
inductive LevelResolves (P C : Arena) (enter : NodeId → Option NodeId → Matching Bool)
    (S : Resolution) (p : NodeId) : Option NodeId → Captures → Captures → Tree → Prop
  /-- A placeholder with no pattern inside stays what it is. -/
  | leaf {c : Option NodeId} {m m' : Captures} {t : Tree} {x : Placeholder}
    (hk : P.kind p = .ok (.pattern x)) (hnamed : ∀ g, x ≠ .named g) (hchoice : x ≠ .choice)
    (h : Leads (matchPlaceholder P C enter p x c) m true m') (ht : t.IsAt P p) :
    LevelResolves P C enter S p c m m' t
  /-- The pattern inside is resolved, and then the group is bound. -/
  | named {c q : NodeId} {m m₁ m' : Captures} {t : Tree} {τ : NodeId → Tree} {d : Node}
    {g : String} (hd : P.node? p = some d) (hk : d.kind = .pattern (.named g))
    (hq : d.children.firstUnder? .patternChild = some q) (h : S q (some c) m m₁ (τ q))
    (hbind : Leads (bind C g c) m₁ true m') (ht : Rebuilt P d τ [q] t) :
    LevelResolves P C enter S p (some c) m m' t
  /-- The first alternative that matches from `m` takes the place of the choice. -/
  | choice {c : Option NodeId} {q : NodeId} {m m' : Captures} {t : Tree} {before later : List NodeId}
    (hk : P.kind p = .ok (.pattern .choice))
    (hqs : P.childrenUnder p .alternative = .ok (before ++ q :: later))
    (hbefore : ∀ y ∈ before, ∃ m₁, Leads (enter y c) m false m₁)
    (htaken : Leads (enter q c) m true m') (h : S q c m m' t) : LevelResolves P C enter S p c m m' t
  /-- What an ordinary node goes on to is resolved, and the rest stays what it is. -/
  | ordinary {c : NodeId} {m m' : Captures} {t : Tree} {τ : NodeId → Tree} {d e : Node}
    {ys : List (NodeId × Option NodeId)} (hd : P.node? p = some d) (he : C.node? c = some e)
    (hplain : ∀ x, d.kind ≠ .pattern x) (hkind : e.kind = d.kind)
    (hys : agenda d.children e.children d.kind.comparedRoles = some ys) (h : Turns S τ ys m m')
    (ht : Rebuilt P d τ (ys.map (·.1)) t) : LevelResolves P C enter S p (some c) m m' t

/-- With `depth` levels left, the pattern at `p` matches the candidate `c` and leads from the
captures `m` to `m'`.  With every choice on the way replaced by the alternative that is taken, the
pattern is `t`. -/
def Resolves (P C : Arena) (maxDepth : Nat) : Nat → Resolution
  | 0 => fun _ _ _ _ _ => False
  | depth + 1 => LevelResolves P C (matchNode P C maxDepth depth) (Resolves P C maxDepth depth)

/-! ### Every match that succeeds is resolved -/

theorem Turns.congr {S : Resolution} {τ τ' : NodeId → Tree} {ys : List (NodeId × Option NodeId)}
    {m m' : Captures} (h : Turns S τ ys m m') (hτ : ∀ q ∈ ys.map (·.1), τ' q = τ q) :
    Turns S τ' ys m m' := by
  induction h with
  | nil => exact .nil
  | cons hfirst _ ih =>
    rw [List.map_cons, List.forall_mem_cons] at hτ
    exact .cons (by rw [hτ.1]; exact hfirst) (ih hτ.2)

/-- There is a tree for every node. -/
theorem exists_trees {P : Arena} (hP : P.WellFormed) :
    ∃ τ : NodeId → Tree, ∀ q < P.size, (τ q).IsAt P q := by
  have hall : ∀ q : NodeId, ∃ t : Tree, q < P.size → t.IsAt P q := by
    intro q
    by_cases hq : q < P.size
    · obtain ⟨t, ht⟩ := hP.exists_isAt hq
      exact ⟨t, fun _ => ht⟩
    · exact ⟨.node (.identifier "") .nil, fun h => absurd h hq⟩
  choose τ hτ using hall
  exact ⟨τ, hτ⟩

/-- A node is rebuilt from other trees for the nodes that are entered. -/
theorem rebuilt_make {P : Arena} (hP : P.WellFormed) {p : NodeId} {d : Node}
    (hd : P.node? p = some d) {τ₀ τ : NodeId → Tree} (hτ₀ : ∀ q < P.size, (τ₀ q).IsAt P q)
    {qs : List NodeId} (hτ : ∀ q, q ∉ qs → τ q = τ₀ q) :
    Rebuilt P d τ qs (.make d.kind (d.children.map fun y => (y.role, τ y.node))) where
  kind_eq := rfl
  branches_eq := Tree.branches_make _ _
  kept y hy hout := by
    rw [hτ _ hout]
    exact hτ₀ _ (hP.child_lt p d y hd hy)

section Level

variable {P C : Arena} {enter : NodeId → Option NodeId → Matching Bool} {S : Resolution}
  {run run' : Run}
  (henter : ∀ ⦃q : NodeId⦄ ⦃x : Option NodeId⦄ ⦃run run' : Run⦄, enter q x run = .ok true run' →
    ∃ t, S q x run.captures run'.captures t)

include henter

/-- The pairs are resolved one after the other.  None of the pattern nodes comes twice, so that
there is one tree for each. -/
theorem exists_turns (τ₀ : NodeId → Tree) : ∀ {ys : List (NodeId × Option NodeId)} {run : Run},
    (ys.map (·.1)).Nodup → ys.allM (fun y => enter y.1 y.2) run = .ok true run' →
      ∃ τ, Turns S τ ys run.captures run'.captures ∧ ∀ q, q ∉ ys.map (·.1) → τ q = τ₀ q
  | [], run, _, h => by
    cases h
    exact ⟨τ₀, .nil, fun _ _ => rfl⟩
  | (q, x) :: ys, run, hnodup, h => by
    obtain ⟨hq, hnodup⟩ := List.nodup_cons.mp hnodup
    obtain ⟨run₁, hfirst, hrest⟩ := allM_cons_eq_ok h
    obtain ⟨t, ht⟩ := henter hfirst
    obtain ⟨τ, hturns, hτ⟩ := exists_turns τ₀ hnodup hrest
    refine ⟨Function.update τ q t, .cons ?_ (hturns.congr fun q' hq' => ?_), fun q' hq' => ?_⟩
    · rwa [Function.update_self]
    · exact Function.update_of_ne (fun heq : q' = q => hq (by rwa [heq] at hq')) t τ
    · rw [List.map_cons, List.mem_cons, not_or] at hq'
      rw [Function.update_of_ne hq'.1, hτ q' hq'.2]

variable (hheedless : ∀ q x, Heedless (enter q x)) (hgrows : ∀ q x, Grows C (Region C x) (enter q x))

include hheedless hgrows in
/-- **The first alternative that matches** is taken, and those before it do not match from the same
captures. -/
theorem exists_taken {c : Option NodeId} : ∀ {ps : List NodeId} {run : Run},
    tryEach enter c ps run = .ok true run' → ∃ before q later t, ps = before ++ q :: later ∧
      (∀ y ∈ before, ∃ m₁, Leads (enter y c) run.captures false m₁) ∧
      Leads (enter q c) run.captures true run'.captures ∧ S q c run.captures run'.captures t
  | [], _, h => by cases h
  | p :: ps, run, h => by
    obtain ⟨v, run₁, hfirst, -⟩ := seq_eq_ok (x := enter p c) h
    cases v with
    | true =>
      cases (tryEach_of_true hfirst).symm.trans h
      obtain ⟨t, ht⟩ := henter hfirst
      exact ⟨[], p, ps, t, rfl, by simp, hheedless p c hfirst, ht⟩
    | false =>
      have hnext := tryEach_of_false_eq_ok hfirst (hgrows p c hfirst).precedes h
      obtain ⟨before, q, later, t, rfl, hbefore, htaken, ht⟩ := exists_taken hnext
      refine ⟨p :: before, q, later, t, rfl, ?_, htaken, ht⟩
      exact List.forall_mem_cons.mpr ⟨⟨_, hheedless p c hfirst⟩, hbefore⟩

variable (hP : P.WellFormed)

include hP

theorem exists_levelResolves_named {p : NodeId} {c : Option NodeId} {g : String}
    (hk : P.kind p = .ok (.pattern (.named g)))
    (h : matchPlaceholder P C enter p (.named g) c run = .ok true run') :
    ∃ t, LevelResolves P C enter S p c run.captures run'.captures t := by
  obtain ⟨d, hd, hkind⟩ := kind_eq_ok_iff.mp hk
  obtain ⟨q, hq, hrest⟩ := settled_seq_eq_ok h
  obtain rfl : d.children.firstUnder? .patternChild = q :=
    Except.ok.inj ((child?_of_node? hd _).symm.trans hq)
  cases hfirst : d.children.firstUnder? .patternChild with
  | none =>
    rw [hfirst] at hrest
    cases hrest
  | some q =>
    rw [hfirst] at hrest
    cases c with
    | none => cases hrest
    | some c =>
      obtain ⟨v, run₁, hinner, hbind⟩ := seq_eq_ok (x := enter q (some c)) hrest
      cases v with
      | false => cases hbind
      | true =>
        obtain ⟨t, ht⟩ := henter hinner
        obtain ⟨τ₀, hτ₀⟩ := exists_trees hP
        refine ⟨_, .named (τ := Function.update τ₀ q t) hd hkind hfirst ?_
          (heedless_bind C g c hbind) (rebuilt_make hP hd hτ₀ fun q' hq' => ?_)⟩
        · rwa [Function.update_self]
        · exact Function.update_of_ne (List.ne_of_not_mem_cons hq') t τ₀

theorem exists_levelResolves_ordinary {p c : NodeId} {d : Node} (hd : P.node? p = some d)
    (hplain : ∀ x, d.kind ≠ .pattern x)
    (h : matchConcrete P C enter p d.kind c run = .ok true run') :
    ∃ t, LevelResolves P C enter S p (some c) run.captures run'.captures t := by
  obtain ⟨k, hk, -⟩ := settled_seq_eq_ok h
  obtain ⟨e, he, -⟩ := kind_eq_ok_iff.mp hk
  obtain ⟨hkind, ys, hys, hrun⟩ := (matchConcrete_eq_ok hd he).mp h
  obtain ⟨τ₀, hτ₀⟩ := exists_trees hP
  obtain ⟨τ, hturns, hτ⟩ := exists_turns henter τ₀
    (nodup_of_agenda (hP.listed_once p d hd) d.kind.nodup_comparedRoles hys) hrun
  exact ⟨_, .ordinary hd he hplain hkind hys hturns (rebuilt_make hP hd hτ₀ hτ)⟩

include hheedless hgrows

/-- **One level** that matches is resolved, given that the levels below are. -/
theorem exists_levelResolves {p : NodeId} {c : Option NodeId}
    (h : matchLevel P C enter p c run = .ok true run') :
    ∃ t, LevelResolves P C enter S p c run.captures run'.captures t := by
  obtain ⟨k, hk, -⟩ := settled_seq_eq_ok h
  obtain ⟨d, hd, rfl⟩ := kind_eq_ok_iff.mp hk
  by_cases hplain : ∀ x, d.kind ≠ .pattern x
  · cases c with
    | none => cases (matchLevel_of_absent hk hplain).symm.trans h
    | some c =>
      rw [matchLevel_of_ordinary hk hplain] at h
      exact exists_levelResolves_ordinary henter hP hd hplain h
  · obtain ⟨x, hx⟩ : ∃ x, d.kind = .pattern x := by simpa using hplain
    rw [hx] at hk
    rw [matchLevel_of_placeholder hk] at h
    cases x with
    | any g | anyOrNull g | backreference g =>
      obtain ⟨t, ht⟩ := hP.exists_isAt (lt_size_of_node? hd)
      exact ⟨t, .leaf hk nofun nofun (heedless_matchPlaceholder hheedless p _ c h) ht⟩
    | named g => exact exists_levelResolves_named henter hP hk h
    | choice =>
      obtain ⟨qs, hqs, hrest⟩ := settled_seq_eq_ok h
      obtain ⟨before, q, later, t, rfl, hbefore, htaken, ht⟩ :=
        exists_taken henter hheedless hgrows hrest
      exact ⟨t, .choice hk hqs hbefore htaken ht⟩

end Level

/-- **Every match that succeeds is resolved.** -/
theorem exists_resolves {P C : Arena} (hP : P.WellFormed) (hC : C.WellFormed) (maxDepth : Nat) :
    ∀ (depth : Nat) ⦃p : NodeId⦄ ⦃c : Option NodeId⦄ ⦃run run' : Run⦄,
      matchNode P C maxDepth depth p c run = .ok true run' →
        ∃ t, Resolves P C maxDepth depth p c run.captures run'.captures t
  | 0, _, _, _, _, h => by cases h
  | depth + 1, _, _, _, _, h =>
    exists_levelResolves (exists_resolves hP hC maxDepth depth)
      (heedless_matchNode P C maxDepth depth)
      (fun q x => (behaves_matchNode hP hC maxDepth depth q x).grows) hP h

/-! ### The resolved pattern matches -/

section Matches

variable {P C P' : Arena} {S : Resolution} {enter enter' : NodeId → Option NodeId → Matching Bool}

/-- The children of a node that stands for a rebuilt tree stand for the trees it was rebuilt
from. -/
theorem Rebuilt.related {d : Node} {τ : NodeId → Tree} {qs : List NodeId} {t : Tree} {p' : NodeId}
    (h : Rebuilt P d τ qs t) (ht : t.IsAt P' p') :
    ∃ d', P'.node? p' = some d' ∧ d'.kind = d.kind ∧
      d.children.Related (fun q q' => (τ q).IsAt P' q') d'.children := by
  obtain ⟨d', hd', hkind, hbelow⟩ := Tree.isAt_iff.mp ht
  rw [h.branches_eq, List.forall₂_map_left_iff] at hbelow
  exact ⟨d', hd', hkind.trans h.kind_eq, hbelow.imp fun y y' hy => ⟨hy.1.symm, hy.2⟩⟩

/-- A placeholder without a pattern inside is the same in every pattern. -/
theorem matchPlaceholder_of_leaf {x : Placeholder} (hnamed : ∀ g, x ≠ .named g)
    (hchoice : x ≠ .choice) (p p' : NodeId) (c : Option NodeId) :
    matchPlaceholder P' C enter' p' x c = matchPlaceholder P C enter p x c := by
  cases x with
  | any g => cases c <;> rfl
  | anyOrNull g => cases c <;> rfl
  | backreference g => rfl
  | named g => exact absurd rfl (hnamed g)
  | choice => exact absurd rfl hchoice

variable (hS : ∀ ⦃q : NodeId⦄ ⦃x : Option NodeId⦄ ⦃m m' : Captures⦄ ⦃u : Tree⦄, S q x m m' u →
  ∀ ⦃q' : NodeId⦄, u.IsAt P' q' → Leads (enter' q' x) m true m')

include hS

theorem Turns.leads {τ : NodeId → Tree} {ys : List (NodeId × Option NodeId)} {m m' : Captures}
    (h : Turns S τ ys m m') : ∀ {zs : List (NodeId × Option NodeId)},
      SameTurns (fun q q' => (τ q).IsAt P' q') ys zs →
        Leads (zs.allM fun z => enter' z.1 z.2) m true m' := by
  induction h with
  | nil =>
    intro zs hzs
    cases hzs
    exact fun ws => ⟨ws, rfl⟩
  | @cons q x ys m m₁ m' hfirst _ ih =>
    intro zs hzs
    obtain ⟨z, zs, ⟨hz, hx⟩, hrest, rfl⟩ := List.forall₂_cons_left_iff.mp hzs
    intro ws
    obtain ⟨ws₁, hrun⟩ := hS hfirst hz ws
    obtain ⟨ws₂, hrun'⟩ := ih hrest ws₁
    rw [show x = z.2 from hx] at hrun
    exact ⟨ws₂, (allM_cons_of_true (f := fun z => enter' z.1 z.2) (x := z) hrun zs).trans hrun'⟩

variable (hsame : ∀ ⦃q : NodeId⦄ ⦃x : Option NodeId⦄ ⦃m m' : Captures⦄ ⦃u : Tree⦄, S q x m m' u →
  ∀ ⦃q' : NodeId⦄, u.IsAt P' q' → Leads (matchLevel P' C enter' q' x) m true m')

include hsame

/-- **One level** of the resolved pattern matches, given that what is resolved further down matches
both one level down and, in the place of a choice, on this level. -/
theorem LevelResolves.leads {p p' : NodeId} {c : Option NodeId} {m m' : Captures} {t : Tree}
    (h : LevelResolves P C enter S p c m m' t) (ht : t.IsAt P' p') :
    Leads (matchLevel P' C enter' p' c) m true m' := by
  cases h with
  | @leaf _ _ _ _ x hk hnamed hchoice h hat =>
    have hk' : P'.kind p' = .ok (.pattern x) := by rw [ht.kind_eq_ok, ← hat.kind_eq_ok, hk]
    intro ws
    obtain ⟨ws', hrun⟩ := h ws
    refine ⟨ws', ?_⟩
    rw [matchLevel_of_placeholder hk', matchPlaceholder_of_leaf hnamed hchoice p, hrun]
  | @named c q m m₁ m' t τ d g hd hk hq h hbind hbuilt =>
    obtain ⟨d', hd', hkind, hrelated⟩ := hbuilt.related ht
    have hfirst := hrelated.firstUnder? .patternChild
    rw [hq] at hfirst
    generalize hq' : d'.children.firstUnder? .patternChild = x at hfirst
    cases hfirst with
    | @some _ q' hat =>
      intro ws
      obtain ⟨ws₁, hinner⟩ := hS h hat ws
      obtain ⟨ws₂, hrun⟩ := hbind ws₁
      refine ⟨ws₂, ?_⟩
      rw [matchLevel_of_placeholder (by rw [kind_of_node? hd', hkind, hk])]
      show (settled _ >>= _ : Matching Bool) _ = _
      rw [seq_of_ok (settled_of_ok (child?_of_node? hd' _) _), hq']
      show (enter' q' (some c) >>= _ : Matching Bool) _ = _
      rw [seq_of_ok hinner]
      exact hrun
  | choice _ _ _ _ h => exact hsame h ht
  | @ordinary c m m' t τ d e ys hd he hplain hkind hys h hbuilt =>
    obtain ⟨d', hd', hkind', hrelated⟩ := hbuilt.related ht
    obtain ⟨zs, hzs, hturns⟩ := agenda_of_related hrelated hys
    intro ws
    obtain ⟨ws', hrun⟩ := h.leads hS hturns ws
    refine ⟨ws', ?_⟩
    rw [matchLevel_of_ordinary (kind_of_node? hd') (by rwa [hkind'])]
    exact (matchConcrete_eq_ok hd' he).mpr ⟨by rw [hkind, hkind'], zs, by rwa [hkind'], hrun⟩

end Matches

/-- **The resolved pattern matches**, wherever it stands and with any limit that is not smaller. -/
theorem Resolves.leads {P C P' : Arena} {maxDepth : Nat} :
    ∀ {depth depth' : Nat} {p : NodeId} {c : Option NodeId} {m m' : Captures} {t : Tree},
      Resolves P C maxDepth depth p c m m' t → depth ≤ depth' → ∀ {p' : NodeId}, t.IsAt P' p' →
        Leads (matchNode P' C maxDepth depth' p' c) m true m'
  | 0, _, _, _, _, _, _, h, _, _, _ => h.elim
  | depth + 1, 0, _, _, _, _, _, _, hle, _, _ => absurd hle (Nat.not_succ_le_zero depth)
  | depth + 1, depth' + 1, _, _, _, _, _, h, hle, _, ht => by
    have hle' := Nat.le_of_succ_le_succ hle
    refine LevelResolves.leads (fun q x m m' u hu q' hat => ?_) (fun q x m m' u hu q' hat => ?_) h ht
    · exact Resolves.leads hu hle' hat
    · exact Resolves.leads hu (Nat.le_succ_of_le hle') hat

/-! ### The resolved pattern stands somewhere -/

section Sound

variable {P C : Arena} {S : Resolution} {enter : NodeId → Option NodeId → Matching Bool}

/-- At the root of the tree is a placeholder, or the kind of the candidate. -/
def Suits (C : Arena) (c : Option NodeId) (t : Tree) : Prop :=
  (∃ x, t.kind = .pattern x) ∨ ∃ y e, c = some y ∧ C.node? y = some e ∧ e.kind = t.kind

/-- What suits a candidate may stand under its role. -/
theorem Suits.admits (hC : C.WellFormed) {c : NodeId} {e : Node} {r : RoleId} {x : Option NodeId}
    {t : Tree} (h : Suits C x t) (he : C.node? c = some e)
    (hx : ∀ y, x = some y → (⟨r, y⟩ : Child) ∈ e.children) :
    r.admits t.kind.category = true := by
  rcases h with ⟨y, hy⟩ | ⟨y, f, rfl, hf, hkind⟩
  · rw [hy]
    exact Category.pattern_fits r.accepts
  · rw [← hkind]
    exact hC.admitted c e ⟨r, y⟩ f he (hx y rfl) hf

theorem Rebuilt.admissible (hP : P.WellFormed) {p : NodeId} {d : Node} (hd : P.node? p = some d)
    {τ : NodeId → Tree} {qs : List NodeId} {t : Tree} (h : Rebuilt P d τ qs t)
    (hqs : ∀ y ∈ d.children, y.node ∈ qs →
      (τ y.node).Admissible ∧ y.role.admits (τ y.node).kind.category = true) : t.Admissible := by
  have hall : ∀ y ∈ d.children,
      (τ y.node).Admissible ∧ y.role.admits (τ y.node).kind.category = true := by
    intro y hy
    by_cases hentered : y.node ∈ qs
    · exact hqs y hy hentered
    · have hat := h.kept y hy hentered
      obtain ⟨e, he, hkind, -⟩ := Tree.isAt_iff.mp hat
      exact ⟨hP.admissible hat, hkind ▸ hP.admitted p d y e hd hy he⟩
  refine .intro (fun x hx => ?_) (fun r hr => ?_) fun x hx => ?_
  · rw [h.branches_eq] at hx
    obtain ⟨y, hy, rfl⟩ := List.mem_map.mp hx
    exact (hall y hy).2
  · rw [h.branches_eq, List.map_map]
    have honce := hP.single_once p d r hd hr
    rwa [ChildList.length_allUnder] at honce
  · rw [h.branches_eq] at hx
    obtain ⟨y, hy, rfl⟩ := List.mem_map.mp hx
    exact (hall y hy).1

theorem Turns.of_mem {τ : NodeId → Tree} {ys : List (NodeId × Option NodeId)} {m m' : Captures}
    (h : Turns S τ ys m m') {y : NodeId × Option NodeId} (hy : y ∈ ys) :
    ∃ m₁ m₂, S y.1 y.2 m₁ m₂ (τ y.1) := by
  induction h with
  | nil => cases hy
  | cons hfirst _ ih =>
    rcases List.mem_cons.mp hy with rfl | hy
    · exact ⟨_, _, hfirst⟩
    · exact ih hy

variable (hP : P.WellFormed) (hC : C.WellFormed)
  (hS : ∀ ⦃q : NodeId⦄ ⦃x : Option NodeId⦄ ⦃m m' : Captures⦄ ⦃u : Tree⦄, S q x m m' u →
    u.Admissible ∧ Suits C x u)

include hP hC hS

theorem LevelResolves.sound {p : NodeId} {c : Option NodeId} {m m' : Captures} {t : Tree}
    (h : LevelResolves P C enter S p c m m' t) : t.Admissible ∧ Suits C c t := by
  cases h with
  | leaf hk _ _ _ hat =>
    exact ⟨hP.admissible hat, .inl ⟨_, Except.ok.inj (hat.kind_eq_ok.symm.trans hk)⟩⟩
  | @named c q m m₁ m' t τ d g hd hk hq h _ hbuilt =>
    refine ⟨hbuilt.admissible hP hd fun y hy hyq => ?_, .inl ⟨_, hbuilt.kind_eq.trans hk⟩⟩
    obtain ⟨r, n⟩ := y
    obtain rfl : n = q := List.mem_singleton.mp hyq
    -- the role for what is inside a name takes everything
    obtain rfl := role_unique (hP.listed_once p d hd) hy (ChildList.mem_of_firstUnder? hq)
    exact ⟨(hS h).1, rfl⟩
  | choice _ _ _ _ h => exact hS h
  | @ordinary c m m' t τ d e ys hd he hplain hkind hys h hbuilt =>
    refine ⟨hbuilt.admissible hP hd fun y hy hyq => ?_,
      .inr ⟨c, e, rfl, he, hkind.trans hbuilt.kind_eq.symm⟩⟩
    obtain ⟨r, n⟩ := y
    obtain ⟨z, hz, rfl⟩ := List.mem_map.mp hyq
    obtain ⟨m₁, m₂, hturn⟩ := h.of_mem hz
    -- the candidate of the node has the same role, which takes it
    obtain ⟨s, -, hmem, hcandidate⟩ := mem_of_agenda hys hz
    obtain rfl := role_unique (hP.listed_once p d hd) hy hmem
    exact ⟨(hS hturn).1, (hS hturn).2.admits hC he hcandidate⟩

end Sound

theorem Resolves.sound {P C : Arena} (hP : P.WellFormed) (hC : C.WellFormed) {maxDepth : Nat} :
    ∀ {depth : Nat} ⦃p : NodeId⦄ ⦃c : Option NodeId⦄ ⦃m m' : Captures⦄ ⦃t : Tree⦄,
      Resolves P C maxDepth depth p c m m' t → t.Admissible ∧ Suits C c t
  | 0, _, _, _, _, _, h => h.elim
  | _ + 1, _, _, _, _, _, h => LevelResolves.sound hP hC (Resolves.sound hP hC) h

/-- **Choices are made by the first alternative that matches.**  If a match succeeds, then there is
a pattern in which every choice that the match has entered is replaced by one of its alternatives,
namely by the first one that matches from the captures with which the choice was entered.  This
pattern can be made; and wherever it stands, from the same captures and with the same limit it
matches the same candidate, and leaves the same captures. -/
theorem doMatch_takes_first {P C : Arena} (hP : P.WellFormed) (hC : C.WellFormed) {p c : NodeId}
    {maxDepth : Nat} {run run' : Run} (h : doMatch P p C c maxDepth run = .ok true run') :
    ∃ t : Tree, Resolves P C maxDepth maxDepth p (some c) run.captures run'.captures t ∧
      (∃ P' p', P'.Reachable ∧ t.IsAt P' p') ∧
      ∀ P' p', t.IsAt P' p' → ∀ again : Run, again.captures = run.captures →
        ∃ again', doMatch P' p' C c maxDepth again = .ok true again' ∧
          again'.captures = run'.captures := by
  obtain ⟨t, ht⟩ := exists_resolves hP hC maxDepth maxDepth (matchNode_of_doMatch h)
  refine ⟨t, ht, exists_reachable_isAt (ht.sound hP hC).1, fun P' p' hat again hagain => ?_⟩
  obtain ⟨ws', hrun⟩ := ht.leads (Nat.le_refl maxDepth) hat again.warnings
  rw [← hagain] at hrun
  exact ⟨_, doMatch_of_true hrun, rfl⟩

/-- The first alternative binds the left operand to `g` and then fails.  With the second one in the
place of the choice, the same groups are bound to the same nodes, and so are their copies. -/
theorem doMatch_takes_first_either :
    ∃ run' t P' p' again', doMatch eitherPattern 8 (sumOf "x" "y") 4 3 heldName = .ok true run' ∧
      run'.captures.bindings.map (fun b => (b.group, b.node)) = [("h", 5), ("g", 0), ("k", 2)] ∧
      Resolves eitherPattern (sumOf "x" "y") 3 3 8 (some 4) heldName.captures run'.captures t ∧
      Arena.Reachable P' ∧ t.IsAt P' p' ∧
      doMatch P' p' (sumOf "x" "y") 4 3 heldName = .ok true again' ∧
      again'.captures = run'.captures := by
  obtain ⟨run', h, hbindings⟩ : ∃ run',
      doMatch eitherPattern 8 (sumOf "x" "y") 4 3 heldName = .ok true run' ∧
      run'.captures.bindings.map (fun b => (b.group, b.node)) = [("h", 5), ("g", 0), ("k", 2)] :=
    ⟨_, rfl, rfl⟩
  obtain ⟨t, ht, ⟨P', p', hreach, hat⟩, hagain⟩ := doMatch_takes_first
    reachable_eitherPattern.wellFormed (wellFormed_sumOf "x" "y") h
  obtain ⟨again', hrun, hsame⟩ := hagain P' p' hat heldName rfl
  exact ⟨run', t, P', p', again', h, hbindings, ht, hreach, hat, hrun, hsame⟩

end Matching

end SyntaxForest
