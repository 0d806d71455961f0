import Mathlib.Data.List.Pairwise
import SyntaxForest.Proofs.CaptureLayout
import SyntaxForest.Proofs.MatchGrowth

/-!
# The history of captures

A `Session` is one set of captures with a record of how they came about, and an `Action` is what a
user can do to it.  What going back to a checkpoint does depends on the checkpoint, so the runs that
are spoken about are given by a `Rule` for the checkpoints that may be used: those that are still in
the history (`Live`), those that were taken at any time (`Taken`), all pairs of numbers there are
(`Any`), or those that leave alone what they keep (`Sparing`).

A checkpoint that is still in the history stands for an earlier stage of the captures, so going back
to it finds that stage again (`Captures.Precedes.restore`).  Therefore captures whose history is
respected are always such as binding alone makes them (`history_of_live`), and have the shape that
these have.  Whatever checkpoints are used, the groups that are forgotten leave the trail and the
table together, and the arena is cut off only where no link crosses the cut; so the trail lists each
group of the table once and the arena describes a forest all the time (`sound_of_reached`).

With a checkpoint of a past that has been left, the number of groups and the number of nodes need
not belong together.  If a link crosses the cut, then going back breaks off, and nothing is cut off.
Otherwise the copies that are kept survive if and only if they end before the cut
(`Captures.CopiesAgree.back_iff`), and there are runs in which one does not.
-/

namespace SyntaxForest

/-- Captures, and what is remembered of how they came about. -/
structure Session where
  captures : Captures := .empty
  /-- The arena of each bound node, as it was when the node was bound. -/
  origins : List Arena := []
  /-- All checkpoints that were taken, latest first. -/
  taken : List Checkpoint := []
  /-- The captures as they were at each checkpoint that is still in the history, latest first. -/
  stages : List Captures := []

namespace Session

variable {s : Session}

/-! ### Runs -/

/-- What a user can do to captures. -/
inductive Action
  | doMatch (P : Arena) (p : NodeId) (C : Arena) (c : NodeId) (maxDepth : Nat)
  | checkpoint
  | restore (cp : Checkpoint)
  | clear
  | clone

/-- A match goes on with the captures that it leaves behind, whether it succeeds, fails or breaks
off, and so does going back.  Going back ends the history of the stages that come after the point it
goes back to.  A clone is a second session with the same past. -/
def act (s : Session) : Action → Session
  | .doMatch P p C c maxDepth =>
    let run := Matching.after (Matching.doMatch P p C c maxDepth) { captures := s.captures }
    { s with
      captures := run.captures
      origins := s.origins ++ List.replicate (run.captures.size - s.captures.size) C }
  | .checkpoint =>
    { s with taken := s.captures.checkpoint :: s.taken, stages := s.captures :: s.stages }
  | .restore cp =>
    { s with
      captures := s.captures.back cp
      origins := s.origins.take cp.bindings
      stages := s.stages.filter fun x => x.size ≤ cp.bindings }
  | .clear => { s with captures := .empty, origins := [], stages := [] }
  | .clone => s

/-- Which checkpoints may be given back to a session. -/
abbrev Rule := Session → Checkpoint → Prop

/-- Any pair of numbers. -/
def Any : Rule := fun _ _ => True

/-- A checkpoint of this session, be it still in the history or not. -/
def Taken : Rule := fun s cp => cp ∈ s.taken

/-- A checkpoint of a stage that is still in the history. -/
def Live : Rule := fun s cp => ∃ x ∈ s.stages, x.checkpoint = cp

/-- Matches are between well-formed arenas, and checkpoints are used by the rule. -/
def Action.Allowed (rule : Rule) (s : Session) : Action → Prop
  | .doMatch P _ C _ _ => P.WellFormed ∧ C.WellFormed
  | .restore cp => rule s cp
  | _ => True

/-- Some run by the rule leads from a new session to this one. -/
inductive Reached (rule : Rule) : Session → Prop
  | start : Reached rule {}
  | act {s : Session} (h : Reached rule s) (action : Action) (hok : action.Allowed rule s) :
    Reached rule (s.act action)

/-- What a match does to the captures of a session. -/
theorem grown_doMatch {P C : Arena} (hP : P.WellFormed) (hC : C.WellFormed)
    (hs : s.captures.arena.Closed) (p c maxDepth : Nat) :
    Captures.Grown C (C.AtOrBelow c) s.captures (s.act (.doMatch P p C c maxDepth)).captures := by
  have hrun : ({ captures := s.captures } : Run).captures.arena.Closed := hs
  exact (Matching.behaves_doMatch hP hC p c maxDepth).grown_after hrun

/-! ### Any checkpoints -/

/-- **Every run**: whatever is done, the table and the trail agree, and no link is loose. -/
theorem sound_of_reached {rule : Rule} (h : s.Reached rule) : s.captures.Sound := by
  induction h with
  | start => exact .empty
  | @act s _ action hok ih =>
    cases action with
    | doMatch P p C c maxDepth =>
      exact ih.grown hok.2 (grown_doMatch hok.1 hok.2 ih.wellFormed.closed p c maxDepth)
    | restore cp => exact ih.back cp
    | clear => exact .empty
    | checkpoint => exact ih
    | clone => exact ih

/-! ### Checkpoints that are still in the history -/

/-- The captures, and each stage that is remembered, are such as binding alone makes them; and of
two stages the older one precedes the newer one. -/
structure History (s : Session) : Prop where
  made : s.captures.Made s.origins
  made_stage : ∀ x ∈ s.stages, x.Made (s.origins.take x.size)
  precedes : (s.captures :: s.stages).Pairwise fun newer older => older.Precedes newer

namespace History

theorem precedes_captures (h : s.History) {x : Captures} (hx : x ∈ s.stages) :
    x.Precedes s.captures :=
  List.rel_of_pairwise_cons h.precedes hx

/-- Of two stages, one with no more bindings precedes the other. -/
theorem precedes_of_size_le (h : s.History) {x y : Captures} (hx : x ∈ s.stages)
    (hy : y ∈ s.stages) (hle : y.size ≤ x.size) : y.Precedes x := by
  have : Std.Symm fun x y : Captures => x.Precedes y ∨ y.Precedes x := ⟨fun _ _ => Or.symm⟩
  have heither : s.stages.Pairwise fun x y => x.Precedes y ∨ y.Precedes x :=
    (List.Pairwise.of_cons h.precedes).imp .inr
  rcases heither.forall_of_forall (fun z _ => .inl (.refl z)) hy hx with hyx | hxy
  · exact hyx
  · -- a later stage that has bound nothing more is the same stage
    rw [hxy.eq_of_size_le hle]
    exact .refl x

theorem grown_doMatch (h : s.History) {P C : Arena} (hP : P.WellFormed) (hC : C.WellFormed)
    (p c maxDepth : Nat) :
    Captures.Grown C (C.AtOrBelow c) s.captures (s.act (.doMatch P p C c maxDepth)).captures :=
  Session.grown_doMatch hP hC h.made.orderly.wellFormed.closed p c maxDepth

theorem doMatch (h : s.History) {P C : Arena} (hP : P.WellFormed) (hC : C.WellFormed)
    (p c maxDepth : Nat) : (s.act (.doMatch P p C c maxDepth)).History where
  made := h.made.grown hC (h.grown_doMatch hP hC p c maxDepth)
  made_stage x hx := by
    -- the arenas of the old bindings come first
    have hle : x.size ≤ s.origins.length := by
      rw [h.made.length_origins]
      exact (h.precedes_captures hx).size_le
    show x.Made ((s.origins ++ _).take x.size)
    rw [List.take_append_of_le_length hle]
    exact h.made_stage x hx
  precedes := by
    refine List.pairwise_cons.mpr ⟨fun x hx => ?_, List.Pairwise.of_cons h.precedes⟩
    exact (h.precedes_captures hx).trans (h.grown_doMatch hP hC p c maxDepth).precedes

theorem checkpoint (h : s.History) : (s.act .checkpoint).History where
  made := h.made
  made_stage x hx := by
    rcases List.mem_cons.mp hx with rfl | hx
    · show s.captures.Made (s.origins.take s.captures.size)
      rw [List.take_of_length_le (Nat.le_of_eq h.made.length_origins)]
      exact h.made
    · exact h.made_stage x hx
  precedes := by
    refine List.pairwise_cons.mpr ⟨fun x hx => ?_, h.precedes⟩
    rcases List.mem_cons.mp hx with rfl | hx
    · exact .refl _
    · exact h.precedes_captures hx

/-- Going back to a stage makes it the present, and keeps the stages up to it. -/
theorem restore (h : s.History) {x : Captures} (hx : x ∈ s.stages) :
    (s.act (.restore x.checkpoint)).History := by
  have hback : (s.act (.restore x.checkpoint)).captures = x :=
    (h.precedes_captures hx).back_eq (h.made_stage x hx).orderly.wellFormed.closed
  have hkept : ∀ y ∈ (s.act (.restore x.checkpoint)).stages, y ∈ s.stages ∧ y.size ≤ x.size := by
    intro y hy
    obtain ⟨hmem, hle⟩ := List.mem_filter.mp hy
    exact ⟨hmem, of_decide_eq_true hle⟩
  constructor
  · rw [hback]
    exact h.made_stage x hx
  · -- what is forgotten of the origins is not needed for older stages
    intro y hy
    obtain ⟨hmem, hle⟩ := hkept y hy
    show y.Made ((s.origins.take x.size).take y.size)
    rw [List.take_take, Nat.min_eq_left hle]
    exact h.made_stage y hmem
  · rw [hback]
    refine List.pairwise_cons.mpr ⟨fun y hy => ?_, ?_⟩
    · obtain ⟨hmem, hle⟩ := hkept y hy
      exact h.precedes_of_size_le hx hmem hle
    · exact (List.Pairwise.of_cons h.precedes).filter _

/-- **One step** by the rule that only stages in the history are gone back to. -/
theorem act (h : s.History) {action : Action} (hok : action.Allowed Live s) :
    (s.act action).History := by
  cases action with
  | doMatch P p C c maxDepth => exact h.doMatch hok.1 hok.2 p c maxDepth
  | checkpoint => exact h.checkpoint
  | restore cp =>
    obtain ⟨x, hx, rfl⟩ := hok
    exact h.restore hx
  | clear => exact ⟨.empty, nofun, List.pairwise_singleton _ _⟩
  | clone => exact h

end History

/-- **Every run** that respects the history. -/
theorem history_of_live (h : s.Reached Live) : s.History := by
  induction h with
  | start => exact ⟨.empty, nofun, List.pairwise_singleton _ _⟩
  | act _ _ hok ih => exact ih.act hok

/-- **The shape of captures**: along every run that goes back only to checkpoints in the history,
the trail lists each group of the table once, the copies are the roots of a forest and divide it
into blocks in the order of the bindings, and each is equal to what was bound when it was bound.
Whatever checkpoints are used, the trail lists each group of the table once, and the private arena
describes a forest. -/
theorem captures_keep_shape (s : Session) :
    (s.Reached Live → s.captures.Orderly s.origins) ∧ (s.Reached Any → s.captures.Sound) := by
  constructor
  · intro h
    exact (history_of_live h).made.orderly
  · exact sound_of_reached

/-- The patterns at `0`, `1` and `2` are for anything, and bind it to a group of their own. -/
def threeGroups : Arena :=
  (Call.newAny (some "k")).after
    ((Call.newAny (some "h")).after ((Call.newAny (some "g")).after .empty))

/-- A number at `0`, which is one node, and a name at `1`, which is two. -/
def numberAndName : Arena :=
  (Call.newIdentifierExpression "x").after ((Call.newLiteral (.int 1)).after .empty)

theorem wellFormed_threeGroups : threeGroups.WellFormed :=
  (Arena.Reachable.call (.newAny (some "k")) (.call (.newAny (some "h"))
    (.call (.newAny (some "g")) .empty))).wellFormed

theorem wellFormed_numberAndName : numberAndName.WellFormed :=
  (Arena.Reachable.call (.newIdentifierExpression "x")
    (.call (.newLiteral (.int 1)) .empty)).wellFormed

/-- Bind `g`, `h` or `k` to the number or the name. -/
def bindTo (group node : NodeId) : Action := .doMatch threeGroups group numberAndName node 1

theorem Reached.bindTo {rule : Rule} (h : s.Reached rule) (group node : NodeId) :
    (s.act (bindTo group node)).Reached rule :=
  h.act (.doMatch ..) ⟨wellFormed_threeGroups, wellFormed_numberAndName⟩

/-- After `g`, the number is bound to `h`; then this is taken back and `h` is bound to the name.  In
the second run the checkpoint is one that was never taken, and its cut would go through the copy for
`g`: the group `h` is forgotten, and the arena stays as it is. -/
theorem captures_keep_shape_rebound :
    (∃ s : Session, s.Reached Live ∧ s.captures.trail = ["g", "h"] ∧
      s.captures.bindings = [⟨"g", 1, 0⟩, ⟨"h", 1, 2⟩] ∧ s.captures.arena.size = 4 ∧
      s.captures.Orderly s.origins) ∧
    ∃ s : Session, s.Reached Any ∧ s.captures.trail = ["g"] ∧ s.captures.isBound "h" = false ∧
      s.captures.arena.size = 3 ∧ s.captures.Sound := by
  constructor
  · have hfirst : Session.Reached Live _ := (Reached.start.bindTo 0 1).act .checkpoint trivial
    have hback := (hfirst.bindTo 1 0).act (.restore ⟨1, 2⟩) ⟨_, List.mem_cons_self, rfl⟩
    have hlast := hback.bindTo 1 1
    exact ⟨_, hlast, rfl, rfl, rfl, (captures_keep_shape _).1 hlast⟩
  · have hboth : Session.Reached Any _ := (Reached.start.bindTo 0 1).bindTo 1 0
    have hcut := hboth.act (.restore ⟨1, 1⟩) trivial
    exact ⟨_, hcut, rfl, rfl, rfl, (captures_keep_shape _).2 hcut⟩

/-! ### Checkpoints of a past that has been left -/

/-- Checkpoints that leave alone the copies that they keep. -/
def Sparing : Rule := fun s cp => s.captures.Spares cp

/-- **Every run** with sparing checkpoints: the copies stay equal to what was bound. -/
theorem copiesAgree_of_sparing (h : s.Reached Sparing) : s.captures.CopiesAgree s.origins := by
  induction h with
  | start => exact .nil
  | @act s hreached action hok ih =>
    have hsound := sound_of_reached hreached
    cases action with
    | doMatch P p C c maxDepth =>
      have hgrown := grown_doMatch hok.1 hok.2 hsound.wellFormed.closed p c maxDepth
      -- that a group is bound at the end of the list needs that the trail and the table agree
      exact (hgrown.carry (I := fun m origins => m.Keyed ∧ m.CopiesAgree origins)
        ⟨hsound.keyed, ih⟩ fun hm hg ht hcopy =>
          ⟨hm.1.record hg _, hm.2.bind hm.1 hg ht hcopy⟩).2
    | restore cp => exact (ih.back_iff hsound.keyed cp).mpr hok
    | clear => exact .nil
    | checkpoint => exact ih
    | clone => exact ih

/-- A checkpoint that is still in the history spares what it keeps, and no link crosses its cut. -/
theorem spares_of_live (h : s.Reached Live) {cp : Checkpoint} (hcp : Live s cp) :
    s.captures.Spares cp ∧ s.captures.arena.LinksStayBelow cp.nodes := by
  have hhistory := history_of_live h
  obtain ⟨x, hx, rfl⟩ := hcp
  have hprecedes := hhistory.precedes_captures hx
  have hstage := hhistory.made_stage x hx
  have hlinks := hstage.orderly.wellFormed.closed.linksStayBelow hprecedes.arena
  refine ⟨?_, hlinks⟩
  -- going back finds the stage again, in which the copies agree
  have hback : (s.captures.back x.checkpoint).CopiesAgree
      (s.origins.take x.checkpoint.bindings) := by
    rw [hprecedes.back_eq hstage.orderly.wellFormed.closed]
    exact hstage.orderly.copiesAgree
  exact (hhistory.made.orderly.copiesAgree.back_iff hhistory.made.orderly.keyed _).mp hback

/-- **What survives going back**.  As long as every checkpoint spares the copies that it keeps, each
copy is equal to what was bound; and a checkpoint that does not spare them, wherever it is from,
leaves a copy that is not.  Going back breaks off if and only if there are groups to forget and a
link crosses the cut.  A checkpoint that is still in the history spares the copies, and no link
crosses its cut. -/
theorem copies_survive_iff_spared (s : Session) (cp : Checkpoint) :
    (s.Reached Sparing → s.captures.CopiesAgree s.origins ∧
      ((s.act (.restore cp)).captures.CopiesAgree (s.act (.restore cp)).origins ↔
        s.captures.Spares cp)) ∧
    ((∃ e m, s.captures.restore cp = .error e m) ↔
      cp.bindings < s.captures.size ∧ ¬ s.captures.arena.LinksStayBelow cp.nodes) ∧
    (s.Reached Live → Live s cp →
      s.captures.Spares cp ∧ s.captures.arena.LinksStayBelow cp.nodes) := by
  refine ⟨fun h => ?_, Captures.restore_eq_error_iff, fun h hcp => spares_of_live h hcp⟩
  have hagree := copiesAgree_of_sparing h
  exact ⟨hagree, hagree.back_iff (sound_of_reached h).keyed cp⟩

/-- With the number bound to `g` and to `h`, and then to `k`, going back to the first two is
harmless if the cut is behind them, and not if it is between them. -/
theorem copies_survive_iff_spared_cut :
    ∃ s : Session, s.Reached Sparing ∧ s.captures.Spares ⟨2, 2⟩ ∧ ¬ s.captures.Spares ⟨2, 1⟩ := by
  have hall : Session.Reached Sparing _ := ((Reached.start.bindTo 0 0).bindTo 1 0).bindTo 2 0
  have hiff := fun cp => ((copies_survive_iff_spared _ cp).1 hall).2
  refine ⟨_, hall, (hiff ⟨2, 2⟩).mp (.cons rfl (.cons rfl .nil)), fun hspares => ?_⟩
  cases (hiff ⟨2, 1⟩).mpr hspares with
  | cons _ hrest =>
    cases hrest with
    | cons heq _ => cases heq

/-- A checkpoint is taken when `g` and `h` are bound to the number, and used when `g` is bound to the
name instead, and `h` and `k` to the number.  No link crosses its cut, which goes between the copies
for `g` and `h`; so the group `h` is kept and its copy is gone.  In the second run the checkpoint is
taken when `g` is bound to the number, and used when `g` is bound to the name, and `h` to the
number: a link crosses its cut. -/
theorem copy_lost_by_stale_checkpoint :
    (∃ s : Session, s.Reached Taken ∧ Taken s ⟨2, 2⟩ ∧ s.captures.arena.LinksStayBelow 2 ∧
      (s.act (.restore ⟨2, 2⟩)).captures.bindings = [⟨"g", 1, 0⟩, ⟨"h", 0, 2⟩] ∧
      (s.act (.restore ⟨2, 2⟩)).origins = [numberAndName, numberAndName] ∧
      numberAndName.structurallyEqual 0 (s.act (.restore ⟨2, 2⟩)).captures.arena 2 =
        .error (.outOfRange 2 2)) ∧
    ∃ s : Session, s.Reached Taken ∧ Taken s ⟨1, 1⟩ ∧ s.captures.size = 2 ∧
      ¬ s.captures.arena.LinksStayBelow 1 := by
  constructor
  · have hearly : Session.Reached Taken _ :=
      ((Reached.start.bindTo 0 0).bindTo 1 0).act .checkpoint trivial
    have hlate := (((hearly.act .clear trivial).bindTo 0 1).bindTo 1 0).bindTo 2 0
    exact ⟨_, hlate, List.mem_cons_self, Arena.linksStayBelow_iff.mp rfl, rfl, rfl, rfl⟩
  · have hearly : Session.Reached Taken _ := (Reached.start.bindTo 0 0).act .checkpoint trivial
    have hlate := ((hearly.act .clear trivial).bindTo 0 1).bindTo 1 0
    refine ⟨_, hlate, List.mem_cons_self, rfl, fun hlinks => ?_⟩
    have hchild := (hlinks 0 _ Nat.zero_lt_one rfl).2 ⟨.identifier, 1⟩ List.mem_cons_self
    exact Nat.lt_irrefl 1 hchild

end Session

end SyntaxForest
