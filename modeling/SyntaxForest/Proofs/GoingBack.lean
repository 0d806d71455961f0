import SyntaxForest.Proofs.CaptureHistory

/-!
# Going back undoes exactly

A match that comes to an end makes captures of which the old ones are an earlier stage
(`Matching.advances_doMatch`).  This needs nothing of the arenas that are matched: a copy is put
behind what is there even if its original is damaged (`Edit.importFrom_eq_ok`), and what a failed
alternative has bound is taken back before the next one is tried.

`Session.Since s t` says that `t` comes after `s` in a run that does not clear the captures and goes
back only to checkpoints that it has taken itself.  Some of these may belong to a past that the run
has left, so that going back to them breaks off or takes copies away, and leaves copies behind that
no group has.  But none of them was taken before the captures of `s` were made, so none cuts into
these (`Captures.Antedates`).  Hence the captures of `s` are an earlier stage of those of `t` all
along (`Session.Since.upholds`), and going back to them finds them again.
-/

namespace SyntaxForest

/-! ### Copies come behind what is there -/

namespace Edit

open Arena

variable {S T : Arena}

/-- What every step keeps if it succeeds, a loop keeps. -/
theorem forM_eq_ok {α : Type} {I : Arena → Prop} {x : α → Edit Unit} :
    ∀ {vs : List α} {a b : Arena}, (∀ v ∈ vs, ∀ a b, I a → x v a = .ok () b → I b) → I a →
      vs.forM x a = .ok () b → I b
  | [], a, b, _, ha, h => by
    cases h
    exact ha
  | v :: vs, a, b, hstep, ha, h => by
    obtain ⟨⟨⟩, a₁, hfirst, hrest⟩ := bind_eq_ok (x := x v) h
    have ha₁ : I a₁ := hstep v List.mem_cons_self a a₁ ha hfirst
    exact forM_eq_ok (fun w hw => hstep w (List.mem_cons_of_mem _ hw)) ha₁ hrest

theorem settled_eq_ok {α : Type} {e : Except Fault α} {a b : Arena} {v : α}
    (h : (settled e : Edit α) a = .ok v b) : b = a := by
  cases e with
  | error e => cases h
  | ok w =>
    cases h
    rfl

/-- The copies of the children of a new node are new nodes. -/
theorem copyChildren_eq_ok {copy : Nat} (hcopy : T.size ≤ copy) :
    ∀ {cs : ChildList} {b b' : Arena} {pairs : List (NodeId × NodeId)}, T.IsPrefix b →
      copyChildren (fun m => settled (S.node m)) copy cs b = .ok pairs b' →
      T.IsPrefix b' ∧ ∀ p ∈ pairs, T.size ≤ p.2
  | [], b, b', pairs, hb, h => by
    cases h
    exact ⟨hb, fun p hp => by cases hp⟩
  | c :: cs, b, b', pairs, hb, h => by
    obtain ⟨d, b₁, hfetch, hmade⟩ := bind_eq_ok h
    obtain rfl := settled_eq_ok hfetch
    obtain ⟨x, b₂, halloc, hattached⟩ := bind_eq_ok hmade
    cases halloc
    obtain ⟨_, b₃, hlink, hothers⟩ := bind_eq_ok hattached
    cases hlink
    obtain ⟨rest, b₄, hrest, hpairs⟩ := bind_eq_ok hothers
    cases hpairs
    have hlinked : T.IsPrefix ((b₁.push d.kind).link copy c.role b₁.size) := by
      refine (hb.trans (isPrefix_push b₁ d.kind)).of_frame fun i hi => ?_
      have hle := hb.size_le
      exact node?_link_of_ne _ _ (by omega) (by omega)
    obtain ⟨hkept, hnew⟩ := copyChildren_eq_ok hcopy hlinked hrest
    refine ⟨hkept, fun p hp => ?_⟩
    rcases List.mem_cons.mp hp with rfl | hp
    · exact hb.size_le
    · exact hnew p hp

theorem copyBelow_eq_ok : ∀ {fuel n copy : Nat} {b b' : Arena}, T.size ≤ copy → T.IsPrefix b →
    copyBelow (fun m => settled (S.node m)) fuel n copy b = .ok () b' → T.IsPrefix b'
  | 0, _, _, _, _, _, _, h => by cases h
  | fuel + 1, n, copy, b, b', hcopy, hb, h => by
    obtain ⟨d, b₁, hfetch, hcopied⟩ := bind_eq_ok h
    obtain rfl := settled_eq_ok hfetch
    obtain ⟨pairs, b₂, hchildren, hbelow⟩ := bind_eq_ok hcopied
    obtain ⟨hkept, hnew⟩ := copyChildren_eq_ok hcopy hb hchildren
    refine forM_eq_ok (fun p hp a a' ha hrun => ?_) hkept hbelow
    exact copyBelow_eq_ok (hnew p (List.mem_reverse.mp hp)) ha hrun

/-- A copy that comes to an end has the next id, and leaves the records there were alone, whatever
the arena is that it was made from. -/
theorem importFrom_eq_ok {n x : Nat} {b : Arena} (h : importFrom S n T = .ok x b) :
    x = T.size ∧ T.IsPrefix b := by
  obtain ⟨d, b₁, hfetch, hmade⟩ := bind_eq_ok h
  obtain rfl := settled_eq_ok hfetch
  obtain ⟨copy, b₂, halloc, hcopied⟩ := bind_eq_ok hmade
  cases halloc
  obtain ⟨_, b₃, hbelow, hid⟩ := bind_eq_ok hcopied
  cases hid
  exact ⟨rfl, copyBelow_eq_ok (Nat.le_refl _) (isPrefix_push b₁ d.kind) hbelow⟩

end Edit

/-! ### Matches only add to the captures -/

namespace Matching

open Captures

/-- If the part `x` of a match comes to an end, the captures it started from are an earlier stage of
those that it leaves. -/
def Advances {α : Type} (x : Matching α) : Prop :=
  ∀ ⦃run run' : Run⦄ ⦃v : α⦄, x run = .ok v run' → run.captures.Precedes run'.captures

section Advances

variable {α β : Type}

theorem advances_pure (v : α) : Advances (pure v : Matching α) := by
  intro run run' w h
  cases h
  exact .refl _

theorem Advances.bind {x : Matching α} {f : α → Matching β} (hx : Advances x)
    (hf : ∀ v, Advances (f v)) : Advances (x >>= f) := by
  intro run run' w h
  obtain ⟨v, run₁, hfirst, hrest⟩ := seq_eq_ok h
  exact (hx hfirst).trans (hf v hrest)

theorem advances_settled (e : Except Fault α) : Advances (settled e : Matching α) := by
  intro run run' v h
  obtain ⟨-, rfl⟩ := settled_eq_ok h
  exact .refl _

theorem advances_binding? (g : String) : Advances (binding? g) := by
  intro run run' v h
  cases h
  exact .refl _

theorem advances_allM {f : α → Matching Bool} (hf : ∀ x, Advances (f x)) :
    ∀ xs : List α, Advances (xs.allM f)
  | [] => advances_pure true
  | x :: xs => by
    refine (hf x).bind fun v => ?_
    cases v with
    | false => exact advances_pure false
    | true => exact advances_allM hf xs

theorem advances_agrees (C : Arena) (b : Binding) (c : NodeId) : Advances (agrees C b c) := by
  intro run run' v h
  obtain ⟨-, rfl⟩ := settled_eq_ok h
  exact .refl _

theorem precedes_of_capture {C : Arena} {g : String} {c : NodeId} {run run' : Run} {v : Unit}
    (hg : run.captures.find? g = none) (h : capture C g c run = .ok v run') :
    run.captures.Precedes run'.captures := by
  unfold capture at h
  cases hcopy : Edit.importFrom C c run.captures.arena with
  | error e a =>
    rw [hcopy] at h
    cases h
  | ok copy a =>
    rw [hcopy] at h
    cases h
    exact .record hg (Edit.importFrom_eq_ok hcopy).2

theorem advances_bind (C : Arena) (g : String) (c : NodeId) : Advances (bind C g c) := by
  intro run run' v h
  cases hg : run.captures.find? g with
  | some b =>
    rw [bind_of_bound hg] at h
    exact advances_agrees C b c h
  | none =>
    rw [bind_of_unbound hg] at h
    obtain ⟨_, run₁, hcapture, hend⟩ := seq_eq_ok h
    cases hend
    exact precedes_of_capture hg hcapture

theorem advances_bindOptional (C : Arena) (g : Option String) (c : NodeId) :
    Advances (bindOptional C g c) := by
  cases g with
  | none => exact advances_pure true
  | some g => exact advances_bind C g c

variable {P C : Arena} {enter : NodeId → Option NodeId → Matching Bool}
  (henter : ∀ q x, Advances (enter q x))

include henter

theorem advances_matchRole (p c : NodeId) (r : RoleId) :
    Advances (matchRole P C enter p c r) := by
  unfold matchRole
  cases r.cardinality with
  | single =>
    refine (advances_settled _).bind fun q => (advances_settled _).bind fun x => ?_
    cases q with
    | none => cases x <;> exact advances_pure _
    | some q => exact henter q x
  | many =>
    refine (advances_settled _).bind fun qs => (advances_settled _).bind fun xs => ?_
    split_ifs
    · exact advances_allM (fun y : NodeId × NodeId => henter y.1 (some y.2)) _
    · exact advances_pure false

/-- An alternative that fails is taken back, so the next one starts from the same captures. -/
theorem advances_tryEach (c : Option NodeId) : ∀ ps : List NodeId, Advances (tryEach enter c ps)
  | [] => advances_pure false
  | p :: ps => by
    intro run run' v h
    obtain ⟨matched, run₁, hfirst, hrest⟩ := seq_eq_ok (x := enter p c) h
    have hstep := henter p c hfirst
    cases matched with
    | true =>
      cases hrest
      exact hstep
    | false =>
      have hnext := advances_tryEach c ps (tryEach_of_false_eq_ok hfirst hstep h)
      exact hnext

theorem advances_matchPlaceholder (p : NodeId) (x : Placeholder) (c : Option NodeId) :
    Advances (matchPlaceholder P C enter p x c) := by
  cases x with
  | any g =>
    cases c with
    | none => exact advances_pure false
    | some c => exact advances_bindOptional C g c
  | anyOrNull g =>
    cases c with
    | none => exact advances_pure true
    | some c => exact advances_bindOptional C g c
  | backreference g =>
    refine (advances_binding? g).bind fun b => ?_
    cases b with
    | none => exact advances_pure false
    | some b =>
      cases c with
      | none => exact advances_pure false
      | some c => exact advances_agrees C b c
  | named g =>
    refine (advances_settled _).bind fun inner => ?_
    cases inner with
    | none => exact advances_pure false
    | some inner =>
      cases c with
      | none => exact advances_pure false
      | some c =>
        refine (henter inner (some c)).bind fun matched => ?_
        split_ifs
        · exact advances_bind C g c
        · exact advances_pure false
  | choice => exact (advances_settled _).bind fun ps => advances_tryEach henter c ps

/-- **One level**, given what is known of the levels below it. -/
theorem advances_matchLevel (p : NodeId) (c : Option NodeId) :
    Advances (matchLevel P C enter p c) := by
  refine (advances_settled _).bind fun k => ?_
  split
  · exact advances_matchPlaceholder henter p _ c
  · exact advances_pure false
  · refine (advances_settled _).bind fun k' => ?_
    split_ifs
    · exact advances_allM (fun r => advances_matchRole henter p _ r) _
    · exact advances_pure false

omit henter in
/-- **Every level**. -/
theorem advances_matchNode (P C : Arena) (maxDepth : Nat) :
    ∀ (depth : Nat) (p : NodeId) (c : Option NodeId), Advances (matchNode P C maxDepth depth p c)
  | 0, p, c => by
    intro run run' v h
    cases h
    exact .refl _
  | depth + 1, p, c => advances_matchLevel (advances_matchNode P C maxDepth depth) p c

omit henter in
/-- **A whole match** is no more than one alternative of a choice. -/
theorem advances_doMatch (P : Arena) (p : NodeId) (C : Arena) (c : NodeId) (maxDepth : Nat) :
    Advances (doMatch P p C c maxDepth) := by
  intro run run' v h
  obtain ⟨run₁, hnode, htrue, hfalse⟩ := doMatch_eq_ok h
  have hstep := advances_matchNode P C maxDepth maxDepth p (some c) hnode
  cases v with
  | true =>
    rw [htrue rfl]
    exact hstep
  | false =>
    rw [hfalse rfl hstep]
    exact .refl _

end Advances

end Matching

/-! ### Checkpoints that were taken later -/

namespace Captures

variable {m m' : Captures} {cp : Checkpoint}

/-- The checkpoint may have been taken of the captures `m` or of a later stage. -/
structure Antedates (m : Captures) (cp : Checkpoint) : Prop where
  bindings : m.size ≤ cp.bindings
  nodes : m.arena.size ≤ cp.nodes
  /-- Without further groups there are no further nodes. -/
  nodes_eq : cp.bindings = m.size → cp.nodes = m.arena.size

theorem Precedes.antedates (h : m.Precedes m') : m.Antedates m'.checkpoint where
  bindings := h.size_le
  nodes := h.arena.size_le
  nodes_eq heq := by
    have hsame : m' = m := h.eq_of_size_le (Nat.le_of_eq heq)
    rw [hsame]
    rfl

/-- Of the groups that are new, some are forgotten, and the others are still behind the old ones. -/
theorem Precedes.eraseAll_back (h : m.Precedes m') (hle : m.size ≤ cp.bindings) :
    (m'.back cp).table.eraseAll ((m'.back cp).trail.drop m.size) = m.table := by
  obtain ⟨htable, htrail⟩ := back_eq_forget m' cp
  have hlength : m.size ≤ (m'.trail.take cp.bindings).length := by
    rw [List.length_take]
    exact Nat.le_min.mpr ⟨hle, h.size_le⟩
  have hnew : (m'.trail.take cp.bindings).drop m.size ++ m'.trail.drop cp.bindings =
      m'.trail.drop m.size := by
    rw [← List.drop_append_of_le_length hlength, List.take_append_drop]
  rw [htable, htrail, Captures.forget, ← Table.eraseAll_append, hnew, h.table]

/-- **Going back** to a later point, be it still in the history or not, does not reach behind the
earlier stage. -/
theorem Precedes.back_of_antedates (h : m.Precedes m') (hm : m.arena.Closed)
    (hcp : m.Antedates cp) : m.Precedes (m'.back cp) where
  trail := by
    rw [(back_eq_forget m' cp).2]
    exact List.prefix_take_iff.mpr ⟨h.trail, hcp.bindings⟩
  table := h.eraseAll_back hcp.bindings
  arena := by
    by_cases hcuts : m'.Cuts cp
    · rw [back_of_cuts hcuts]
      intro n d hd
      have hn : n < cp.nodes := Nat.lt_of_lt_of_le (Arena.lt_size_of_node? hd) hcp.nodes
      rw [Arena.node?_cut, if_pos hn, h.arena n d hd]
    · rw [back_of_not_cuts hcuts]
      exact h.arena
  arena_eq heq := by
    rw [(back_eq_forget m' cp).2] at heq
    have hlength : min cp.bindings m'.size = m.size := by
      rw [size, size, ← heq]
      exact List.length_take.symm
    by_cases hle : m'.size ≤ cp.bindings
    · -- nothing is forgotten, and nothing was new
      obtain rfl := h.eq_of_size_le (by omega)
      rw [back_of_not_cuts fun hcuts => Nat.not_lt.mpr hle hcuts.1]
      rfl
    · -- as many groups as at the earlier stage, hence as many nodes
      have hnodes : cp.nodes = m.arena.size := hcp.nodes_eq (by omega)
      have hlinks : m'.arena.LinksStayBelow cp.nodes := by
        rw [hnodes]
        exact hm.linksStayBelow h.arena
      rw [back_of_cuts ⟨Nat.lt_of_not_le hle, hlinks⟩, hnodes, h.arena.cut_eq]

end Captures

/-! ### Runs after a checkpoint -/

namespace Session

variable {s t : Session}

/-- What may be done in a run that is to be undone, if `old` are the checkpoints that were taken
before it: matches that come to an end, further checkpoints, and going back to one of these, be it
that this succeeds or that it breaks off. -/
def Action.Undoable (old : List Checkpoint) (t : Session) : Action → Prop
  | .doMatch P p C c maxDepth => ∃ matched run,
      Matching.doMatch P p C c maxDepth { captures := t.captures } = .ok matched run
  | .restore cp => ∃ new, t.taken = new ++ old ∧ cp ∈ new
  | .clear => False
  | .checkpoint | .clone => True

/-- Such a run leads from `s` to the session. -/
inductive Since (s : Session) : Session → Prop
  | refl : Since s s
  | act {t : Session} (h : Since s t) (action : Action) (hok : action.Undoable s.taken t) :
    Since s (t.act action)

/-- The captures `m` are an earlier stage, and none of the checkpoints taken after `old` is older
than they are. -/
structure Upholds (m : Captures) (old : List Checkpoint) (t : Session) : Prop where
  precedes : m.Precedes t.captures
  antedates : ∃ new, t.taken = new ++ old ∧ ∀ cp ∈ new, m.Antedates cp

namespace Upholds

variable {m : Captures} {old : List Checkpoint}

theorem doMatch (h : Upholds m old t) {P C : Arena} {p c : NodeId} {maxDepth : Nat}
    {matched : Bool} {run : Run}
    (hrun : Matching.doMatch P p C c maxDepth { captures := t.captures } = .ok matched run) :
    Upholds m old (t.act (.doMatch P p C c maxDepth)) := by
  refine ⟨?_, h.antedates⟩
  have hcaptures : (t.act (.doMatch P p C c maxDepth)).captures = run.captures :=
    congrArg Run.captures (Matching.after_of_ok hrun)
  rw [hcaptures]
  exact h.precedes.trans (Matching.advances_doMatch P p C c maxDepth hrun)

theorem checkpoint (h : Upholds m old t) : Upholds m old (t.act .checkpoint) := by
  obtain ⟨new, htaken, hnew⟩ := h.antedates
  refine ⟨h.precedes, t.captures.checkpoint :: new, congrArg (t.captures.checkpoint :: ·) htaken,
    fun cp hcp => ?_⟩
  rcases List.mem_cons.mp hcp with rfl | hcp
  · exact h.precedes.antedates
  · exact hnew cp hcp

theorem restore (h : Upholds m old t) (hm : m.arena.Closed) {cp : Checkpoint}
    {new : List Checkpoint} (htaken : t.taken = new ++ old) (hcp : cp ∈ new) :
    Upholds m old (t.act (.restore cp)) := by
  refine ⟨?_, h.antedates⟩
  obtain ⟨new', htaken', hnew⟩ := h.antedates
  have hsame : new' = new := List.append_cancel_right (htaken'.symm.trans htaken)
  exact h.precedes.back_of_antedates hm (hnew cp (hsame ▸ hcp))

/-- **One step**. -/
theorem act (h : Upholds m old t) (hm : m.arena.Closed) {action : Action}
    (hok : action.Undoable old t) : Upholds m old (t.act action) := by
  cases action with
  | doMatch P p C c maxDepth =>
    obtain ⟨matched, run, hrun⟩ := hok
    exact h.doMatch hrun
  | checkpoint => exact h.checkpoint
  | restore cp =>
    obtain ⟨new, htaken, hcp⟩ := hok
    exact h.restore hm htaken hcp
  | clear => cases hok
  | clone => exact h

end Upholds

/-- **Every run** after `s` upholds the captures of `s`. -/
theorem Since.upholds (h : Since s t) (hs : s.captures.arena.Closed) :
    Upholds s.captures s.taken t := by
  induction h with
  | refl => exact ⟨.refl _, [], rfl, fun cp hcp => by cases hcp⟩
  | act _ _ hok ih => exact ih.act hs hok

/-- **Going back undoes exactly**.  In any session, a checkpoint is taken; then there are matches
that come to an end, further checkpoints, and going back to any of these further checkpoints, be
they still in the history or not.  After all this, going back to the first checkpoint succeeds and
finds the captures exactly as they were, the table, the trail and the private arena; and going back
to it once more changes nothing. -/
theorem restore_undoes (hs : s.Reached Any) (h : Since (s.act .checkpoint) t) :
    t.captures.restore s.captures.checkpoint = .ok () s.captures ∧
      (t.act (.restore s.captures.checkpoint)).captures = s.captures ∧
      ((t.act (.restore s.captures.checkpoint)).act (.restore s.captures.checkpoint)).captures =
        s.captures := by
  have hclosed : s.captures.arena.Closed := (sound_of_reached hs).wellFormed.closed
  have hprecedes : s.captures.Precedes t.captures := (h.upholds hclosed).precedes
  have hback : t.captures.back s.captures.checkpoint = s.captures := hprecedes.back_eq hclosed
  refine ⟨hprecedes.restore hclosed, hback, ?_⟩
  show (t.captures.back s.captures.checkpoint).back s.captures.checkpoint = s.captures
  rw [hback]
  exact (Captures.Precedes.refl s.captures).back_eq hclosed

/-- Bind the group to the number or the name. -/
def bindGroup (group : String) (node : NodeId) : Action :=
  .doMatch ((Call.newAny (some group)).after .empty) 0 numberAndName node 1

/-- Binding a group that is not bound comes to an end. -/
theorem undoable_bindGroup {old : List Checkpoint} {group : String} {node : NodeId}
    (hnode : node < numberAndName.size) (hgroup : t.captures.find? group = none) :
    (bindGroup group node).Undoable old t := by
  obtain ⟨tree, htree⟩ := wellFormed_numberAndName.exists_isAt hnode
  let run : Run := { captures := t.captures }
  have hunbound : run.captures.find? group = none := hgroup
  obtain ⟨a, -, hbind⟩ := Matching.exists_bind_of_unbound htree hunbound
  exact ⟨true, _, Matching.doMatch_of_true hbind⟩

/-- With `f` bound, a checkpoint is taken.  The name is bound to `g` and this is remembered; then it
is taken back, and `g` gets the number and `h` the name.  Going back to what was remembered would cut
through the copy for `h`, so it breaks off, and leaves this copy behind, as nodes `3` and `4`.  Going
back to the checkpoint leaves `f` alone. -/
theorem restore_undoes_leftover :
    ∃ s t : Session, s.Reached Any ∧ Since (s.act .checkpoint) t ∧
      s.captures.bindings = [⟨"f", 1, 0⟩] ∧ s.captures.arena.size = 2 ∧
      t.captures.bindings = [⟨"f", 1, 0⟩, ⟨"g", 0, 2⟩] ∧ t.captures.arena.size = 5 ∧
      t.captures.arena.children 3 = .ok [⟨.identifier, 4⟩] ∧
      t.captures.restore s.captures.checkpoint = .ok () s.captures := by
  let s : Session := Session.act {} (bindGroup "f" 1)
  have hreached : s.Reached Any :=
    Reached.start.act (bindGroup "f" 1)
      ⟨(Arena.Reachable.call (.newAny (some "f")) .empty).wellFormed, wellFormed_numberAndName⟩
  have hstart : Since (s.act .checkpoint) _ := .act .refl .checkpoint trivial
  have hname : Since (s.act .checkpoint) _ :=
    hstart.act (bindGroup "g" 1) (undoable_bindGroup (by decide) (by decide +kernel))
  have hleft : Since (s.act .checkpoint) _ :=
    (hname.act .checkpoint trivial).act (.restore ⟨1, 2⟩)
      ⟨[⟨2, 4⟩, ⟨1, 2⟩], by decide +kernel, by simp⟩
  have hnumber : Since (s.act .checkpoint) _ :=
    hleft.act (bindGroup "g" 0) (undoable_bindGroup (by decide) (by decide +kernel))
  have hboth : Since (s.act .checkpoint) _ :=
    hnumber.act (bindGroup "h" 1) (undoable_bindGroup (by decide) (by decide +kernel))
  have hstale : Since (s.act .checkpoint) _ :=
    hboth.act (.restore ⟨2, 4⟩) ⟨[⟨2, 4⟩, ⟨1, 2⟩], by decide +kernel, by simp⟩
  exact ⟨s, _, hreached, hstale, by decide +kernel, by decide +kernel, by decide +kernel,
    by decide +kernel, by decide +kernel, (restore_undoes hreached hstale).1⟩

end Session

end SyntaxForest
