import SyntaxForest.Matching.Matcher
import SyntaxForest.Proofs.CopyTree
import SyntaxForest.Proofs.Equality

/-!
# Captures as trees, and how they grow

Seen from outside, captures are an `Assignment`: they give a tree to each group that is bound and
whose copy is `Intact`.  Seen from inside, they are a table, a trail and an arena, which have to fit
together: they are `Keyed` if the trail lists each group of the table once.  Then the list of
bindings is as long as the trail, and grows at its end like the trail (`Keyed.bindings_record`).

The matcher changes captures by binding and by going back, and by nothing else.  `Grown C Z m m'`
says that `m'` came from `m` by binding groups that were not bound, to nodes in the region `Z` of
the candidate.  So the old entries and the old copies are still there, and the new entries are just
those that the new part of the trail names (`Grown.precedes`); the new copies stand for the trees of
their nodes (`Grown.of_find?`).  Growth keeps captures intact (`Grown.intact`), and it can be taken
back without a trace (`Precedes.restore`): the new groups are taken out of the table, which gives
the old table because none of them had an entry there.  A cut never goes through a copy, provided
that no node of the old arena names one beyond its end; and no private arena ever has such a node.

`exists_bind_eq_ok` is all that is used of `Matching.bind`, and `exists_agrees_eq_ok` all that is
used of `Matching.agrees`.
-/

namespace SyntaxForest

/-- Trees for some of the groups. -/
abbrev Assignment := String → Option Tree

namespace Captures

variable {m m' m'' : Captures} {C : Arena} {Z Z' : NodeId → Prop} {g : String} {t : Tree}
  {b : Binding} {cp : Checkpoint}

/-- No node of the private arena names a node that is not there, and every group that is bound has a
copy that stands for a tree. -/
structure Intact (m : Captures) : Prop where
  closed : m.arena.Closed
  copies : ∀ g b, m.find? g = some b → ∃ t : Tree, t.IsAt m.arena b.copy

theorem intact_empty : empty.Intact := ⟨Arena.closed_empty, nofun⟩

/-- The trees that were captured. -/
def assignment (m : Captures) : Assignment := fun g => (m.copy? g).bind m.arena.tree?

theorem assignment_eq_some_iff :
    m.assignment g = some t ↔ ∃ b, m.find? g = some b ∧ t.IsAt m.arena b.copy := by
  unfold assignment copy?
  cases m.find? g with
  | none => simp
  | some b => simp [Arena.tree?_eq_some_iff]

theorem isBound_iff : m.isBound g = true ↔ ∃ b, m.find? g = some b := Option.isSome_iff_exists

/-- Intact captures have a tree for every group that is bound. -/
theorem Intact.exists_assignment (hm : m.Intact) (hg : m.isBound g = true) :
    ∃ t, m.assignment g = some t := by
  obtain ⟨b, hb⟩ := isBound_iff.mp hg
  obtain ⟨t, ht⟩ := hm.copies g b hb
  exact ⟨t, assignment_eq_some_iff.mpr ⟨b, hb, ht⟩⟩

theorem isBound_of_assignment (h : m.assignment g = some t) : m.isBound g = true := by
  obtain ⟨b, hb, -⟩ := assignment_eq_some_iff.mp h
  exact isBound_iff.mpr ⟨b, hb⟩

/-! ### The table and the trail -/

theorem find?_record (m : Captures) (b : Binding) (a : Arena) (g : String) :
    (m.record b a).find? g = if g = b.group then some b else m.find? g :=
  Table.find?_insert m.table b g

@[simp] theorem size_record (m : Captures) (b : Binding) (a : Arena) :
    (m.record b a).size = m.size + 1 := List.length_append

theorem group_of_find? (h : m.find? g = some b) : b.group = g := by
  have hgroup := List.find?_some h
  exact of_decide_eq_true hgroup

/-- What is still bound after the newer groups have been forgotten. -/
theorem find?_forget (m : Captures) (n : Nat) (g : String) :
    (m.forget n).find? g = if g ∈ m.trail.drop n then none else m.find? g :=
  Table.find?_eraseAll m.table _ g

/-- The trail lists each group of the table, and lists it once. -/
structure Keyed (m : Captures) : Prop where
  nodup : m.trail.Nodup
  isBound_iff : ∀ g, m.isBound g = true ↔ g ∈ m.trail

theorem keyed_empty : empty.Keyed := ⟨List.nodup_nil, by simp [isBound, find?, empty]⟩

namespace Keyed

theorem notMem_trail (hm : m.Keyed) (hg : m.find? g = none) : g ∉ m.trail := by
  intro hmem
  obtain ⟨b, hb⟩ := Captures.isBound_iff.mp ((hm.isBound_iff g).mpr hmem)
  rw [hg] at hb
  cases hb

theorem record (hm : m.Keyed) (hb : m.find? b.group = none) (a : Arena) : (m.record b a).Keyed where
  nodup := List.nodup_append.mpr ⟨hm.nodup, List.nodup_singleton _, fun g hg g' hg' => by
    rw [List.mem_singleton.mp hg']
    rintro rfl
    exact hm.notMem_trail hb hg⟩
  isBound_iff g := by
    rw [isBound, find?_record, Captures.record, List.mem_append, List.mem_singleton,
      ← hm.isBound_iff, isBound]
    by_cases hg : g = b.group <;> simp [hg]

theorem forget (hm : m.Keyed) (n : Nat) : (m.forget n).Keyed where
  nodup := hm.nodup.sublist (List.take_sublist n m.trail)
  isBound_iff g := by
    have hdisjoint := List.disjoint_take_drop hm.nodup (Nat.le_refl n)
    have hsplit : g ∈ m.trail ↔ g ∈ m.trail.take n ∨ g ∈ m.trail.drop n := by
      rw [← List.mem_append, List.take_append_drop]
    rw [isBound, find?_forget]
    split_ifs with hnew
    · exact ⟨nofun, fun hold => (hdisjoint hold hnew).elim⟩
    · rw [← isBound, hm.isBound_iff, hsplit]
      exact ⟨fun h => h.resolve_right hnew, .inl⟩

/-- The bindings name the groups of the trail, in its order. -/
theorem map_group_bindings (hm : m.Keyed) : m.bindings.map (·.group) = m.trail := by
  have hall : ∀ gs : List String, (∀ g ∈ gs, g ∈ m.trail) →
      (gs.filterMap m.find?).map (·.group) = gs := by
    intro gs hgs
    induction gs with
    | nil => rfl
    | cons g gs ih =>
      obtain ⟨b, hb⟩ := Captures.isBound_iff.mp
        ((hm.isBound_iff g).mpr (hgs g List.mem_cons_self))
      rw [List.filterMap_cons_some hb, List.map_cons, group_of_find? hb,
        ih fun g' hg' => hgs g' (List.mem_cons_of_mem _ hg')]
  exact hall m.trail fun _ => id

theorem length_bindings (hm : m.Keyed) : m.bindings.length = m.size := by
  rw [← List.length_map, hm.map_group_bindings, size]

theorem mem_bindings_iff (hm : m.Keyed) : b ∈ m.bindings ↔ m.find? b.group = some b := by
  refine List.mem_filterMap.trans ⟨?_, fun hb => ?_⟩
  · rintro ⟨g, -, hb⟩
    rw [group_of_find? hb, hb]
  · exact ⟨b.group, (hm.isBound_iff _).mp (Captures.isBound_iff.mpr ⟨b, hb⟩), hb⟩

/-- Looking a group up finds its binding in the list. -/
theorem find?_eq (hm : m.Keyed) (g : String) : m.find? g = m.bindings.find? (·.group = g) := by
  cases hg : m.find? g with
  | none =>
    refine (List.find?_eq_none.mpr fun b hb hgroup => ?_).symm
    rw [hm.mem_bindings_iff, of_decide_eq_true hgroup, hg] at hb
    cases hb
  | some b =>
    obtain rfl := group_of_find? hg
    have hsome : (m.bindings.find? (·.group = b.group)).isSome :=
      List.find?_isSome.mpr ⟨b, hm.mem_bindings_iff.mpr hg, by simp⟩
    obtain ⟨b', hb'⟩ := Option.isSome_iff_exists.mp hsome
    have hgroup : b'.group = b.group := by simpa using List.find?_some hb'
    have hfound := hm.mem_bindings_iff.mp (List.mem_of_find?_eq_some hb')
    rw [hgroup, hg] at hfound
    rw [hb', hfound]

theorem bindings_record (hm : m.Keyed) (hb : m.find? b.group = none) (a : Arena) :
    (m.record b a).bindings = m.bindings ++ [b] := by
  have hold : m.trail.filterMap (m.record b a).find? = m.trail.filterMap m.find? := by
    refine List.filterMap_congr fun g hg => ?_
    rw [find?_record, if_neg]
    rintro rfl
    exact hm.notMem_trail hb hg
  have hnew : [b.group].filterMap (m.record b a).find? = [b] :=
    List.filterMap_cons_some (by rw [find?_record, if_pos rfl])
  show (m.trail ++ [b.group]).filterMap _ = _
  rw [List.filterMap_append, hold, hnew, bindings]

theorem bindings_forget (hm : m.Keyed) (n : Nat) : (m.forget n).bindings = m.bindings.take n := by
  have hdisjoint := List.disjoint_take_drop hm.nodup (Nat.le_refl n)
  have hkept : (m.forget n).bindings = (m.trail.take n).filterMap m.find? := by
    refine List.filterMap_congr fun g hg => ?_
    rw [find?_forget, if_neg (hdisjoint hg)]
  have hsplit : m.bindings =
      (m.trail.take n).filterMap m.find? ++ (m.trail.drop n).filterMap m.find? := by
    rw [← List.filterMap_append, List.take_append_drop, bindings]
  rw [hkept]
  by_cases hn : n ≤ m.size
  · have hlength : ((m.trail.take n).filterMap m.find?).length = n := by
      rw [← hkept, (hm.forget n).length_bindings]
      exact List.length_take_of_le hn
    rw [hsplit, List.take_left' hlength]
  · have hall : m.size ≤ n := Nat.le_of_not_le hn
    rw [List.take_of_length_le hall, List.take_of_length_le (hm.length_bindings.trans_le hall),
      bindings]

end Keyed

/-! ### Going back to any checkpoint -/

/-- The captures that going back leaves, whether it succeeds or breaks off. -/
def back (m : Captures) (cp : Checkpoint) : Captures :=
  match m.restore cp with
  | .ok _ m' => m'
  | .error _ m' => m'

/-- Going back to the checkpoint cuts the private arena off: there are groups to forget, and no link
crosses the cut. -/
def Cuts (m : Captures) (cp : Checkpoint) : Prop :=
  cp.bindings < m.size ∧ m.arena.LinksStayBelow cp.nodes

theorem restore_of_cuts (h : m.Cuts cp) : m.restore cp = .ok () ⟨(m.forget cp.bindings).table,
    (m.forget cp.bindings).trail, m.arena.cut cp.nodes⟩ := by
  rw [restore_of_lt h.1, if_pos (Arena.linksStayBelow_iff.mpr h.2)]

/-- If a link crosses the cut, then the groups are forgotten and the arena stays as it is. -/
theorem restore_of_crossing (hlt : cp.bindings < m.size)
    (hcross : ¬ m.arena.LinksStayBelow cp.nodes) :
    m.restore cp = .error (.crossingLink cp.nodes) (m.forget cp.bindings) := by
  rw [restore_of_lt hlt, if_neg (mt Arena.linksStayBelow_iff.mp hcross)]

/-- Going back breaks off if and only if there are groups to forget and a link crosses the cut. -/
theorem restore_eq_error_iff : (∃ e m', m.restore cp = .error e m') ↔
    cp.bindings < m.size ∧ ¬ m.arena.LinksStayBelow cp.nodes := by
  constructor
  · rintro ⟨e, m', h⟩
    have hlt : cp.bindings < m.size := by
      by_contra hle
      rw [restore_of_le (Nat.not_lt.mp hle)] at h
      cases h
    refine ⟨hlt, fun hlinks => ?_⟩
    rw [restore_of_cuts ⟨hlt, hlinks⟩] at h
    cases h
  · rintro ⟨hlt, hcross⟩
    exact ⟨_, _, restore_of_crossing hlt hcross⟩

theorem forget_of_size_le {n : Nat} (h : m.size ≤ n) : m.forget n = m := by
  rw [forget, List.drop_of_length_le h, List.take_of_length_le h]
  rfl

theorem back_of_cuts (h : m.Cuts cp) : m.back cp =
    ⟨(m.forget cp.bindings).table, (m.forget cp.bindings).trail, m.arena.cut cp.nodes⟩ := by
  rw [back, restore_of_cuts h]

theorem back_of_not_cuts (h : ¬ m.Cuts cp) : m.back cp = m.forget cp.bindings := by
  rw [back]
  by_cases hle : m.size ≤ cp.bindings
  · rw [restore_of_le hle, forget_of_size_le hle]
  · have hlt : cp.bindings < m.size := Nat.lt_of_not_le hle
    rw [restore_of_crossing hlt fun hlinks => h ⟨hlt, hlinks⟩]

/-- Whatever becomes of the arena, the newer groups are forgotten. -/
theorem back_eq_forget (m : Captures) (cp : Checkpoint) :
    (m.back cp).table = (m.forget cp.bindings).table ∧
      (m.back cp).trail = (m.forget cp.bindings).trail := by
  by_cases h : m.Cuts cp
  · rw [back_of_cuts h]
    exact ⟨rfl, rfl⟩
  · rw [back_of_not_cuts h]
    exact ⟨rfl, rfl⟩

theorem find?_back (m : Captures) (cp : Checkpoint) (g : String) :
    (m.back cp).find? g = if g ∈ m.trail.drop cp.bindings then none else m.find? g := by
  rw [find?, (back_eq_forget m cp).1]
  exact find?_forget m cp.bindings g

theorem Keyed.back (hm : m.Keyed) (cp : Checkpoint) : (m.back cp).Keyed := by
  obtain ⟨htable, htrail⟩ := back_eq_forget m cp
  have hkept := hm.forget cp.bindings
  constructor
  · rw [htrail]
    exact hkept.nodup
  · intro g
    rw [isBound, find?, htable, htrail]
    exact hkept.isBound_iff g

theorem Keyed.bindings_back (hm : m.Keyed) (cp : Checkpoint) :
    (m.back cp).bindings = m.bindings.take cp.bindings := by
  obtain ⟨htable, htrail⟩ := back_eq_forget m cp
  have hfind : (m.back cp).find? = (m.forget cp.bindings).find? := by
    funext g
    rw [find?, htable, find?]
  rw [bindings, hfind, htrail, ← bindings, hm.bindings_forget]

/-- A cut that no link crosses leaves a forest. -/
theorem wellFormed_back (hm : m.arena.WellFormed) (cp : Checkpoint) :
    (m.back cp).arena.WellFormed := by
  by_cases h : m.Cuts cp
  · rw [back_of_cuts h]
    exact hm.cut h.2
  · rw [back_of_not_cuts h]
    exact hm

/-! ### Earlier stages -/

/-- The captures `m` are an earlier stage of `m'`: the trail and the arena begin with theirs, and
without the entries for the new groups the table is theirs. -/
structure Precedes (m m' : Captures) : Prop where
  trail : m.trail <+: m'.trail
  table : m'.table.eraseAll (m'.trail.drop m.size) = m.table
  arena : m.arena.IsPrefix m'.arena
  /-- Nodes are only added for the sake of a binding. -/
  arena_eq : m'.trail = m.trail → m'.arena = m.arena

namespace Precedes

theorem refl (m : Captures) : m.Precedes m where
  trail := List.prefix_refl _
  table := by rw [size, List.drop_length, Table.eraseAll, List.foldl_nil]
  arena := .refl _
  arena_eq _ := rfl

theorem size_le (h : m.Precedes m') : m.size ≤ m'.size := h.trail.length_le

/-- A stage is what is left when the newer groups are forgotten and the newer nodes are cut off. -/
theorem forget (h : m.Precedes m') : m'.forget m.size = ⟨m.table, m.trail, m'.arena⟩ := by
  have htrail : m'.trail.take m.size = m.trail := (List.prefix_iff_eq_take.mp h.trail).symm
  rw [Captures.forget, h.table, htrail]

theorem eq_of_size_le (h : m.Precedes m') (hle : m'.size ≤ m.size) : m' = m := by
  have htrail : m'.trail = m.trail := (h.trail.eq_of_length_le hle).symm
  have hforget := h.forget
  rw [h.arena_eq htrail, Captures.forget, List.drop_of_length_le hle,
    List.take_of_length_le hle] at hforget
  have htable : m'.table = m.table := congrArg Captures.table hforget
  cases m
  cases m'
  cases htrail
  cases htable
  cases h.arena_eq rfl
  rfl

theorem trans (h : m.Precedes m') (h' : m'.Precedes m'') : m.Precedes m'' where
  trail := h.trail.trans h'.trail
  table := by
    -- the new groups of the second step come behind those of the first
    have hdrop : m''.trail.drop m.size = m'.trail.drop m.size ++ m''.trail.drop m'.size := by
      obtain ⟨new, hnew⟩ := h'.trail
      rw [← hnew, List.drop_append_of_le_length h.size_le, size, size, List.drop_left]
    rw [hdrop, Table.eraseAll_append, h'.table, h.table]
  arena := h.arena.trans h'.arena
  arena_eq heq := by
    -- the stage in between is squeezed
    have hle : m'.size ≤ m.size := by
      rw [size, size, ← heq]
      exact h'.size_le
    obtain rfl := h.eq_of_size_le hle
    exact h'.arena_eq heq

theorem record (hb : m.find? b.group = none) {a : Arena} (ha : m.arena.IsPrefix a) :
    m.Precedes (m.record b a) where
  trail := List.prefix_append _ _
  table := by
    show (m.table.insert b).eraseAll ((m.trail ++ [b.group]).drop m.trail.length) = m.table
    rw [List.drop_left]
    exact Table.erase_insert hb
  arena := ha
  arena_eq heq := by simp [Captures.record] at heq

/-- A group that was bound keeps its entry. -/
theorem find?_eq (h : m.Precedes m') (hb : m.find? g = some b) : m'.find? g = some b := by
  rw [find?, ← h.table, Table.find?_eraseAll] at hb
  split_ifs at hb
  exact hb

/-- **Going back** to an earlier stage leaves no trace of what has come since. -/
theorem restore (h : m.Precedes m') (hm : m.arena.Closed) :
    m'.restore m.checkpoint = .ok () m := by
  by_cases hle : m'.size ≤ m.size
  · rw [h.eq_of_size_le hle, restore_checkpoint]
  · have hcuts : m'.Cuts m.checkpoint := ⟨Nat.lt_of_not_le hle, hm.linksStayBelow h.arena⟩
    rw [restore_of_cuts hcuts]
    show EStateM.Result.ok () (Captures.mk (m'.forget m.size).table (m'.forget m.size).trail
      (m'.arena.cut m.arena.size)) = _
    rw [h.forget, h.arena.cut_eq]

theorem back_eq (h : m.Precedes m') (hm : m.arena.Closed) : m'.back m.checkpoint = m := by
  rw [back, h.restore hm]

/-- If going back to an earlier stage succeeds, then it leaves no trace. -/
theorem eq_of_restore (h : m.Precedes m') {n : Captures}
    (hn : m'.restore m.checkpoint = .ok () n) : n = m := by
  by_cases hle : m'.size ≤ m.size
  · rw [h.eq_of_size_le hle, restore_checkpoint] at hn
    cases hn
    rfl
  · have hlt : m.checkpoint.bindings < m'.size := Nat.lt_of_not_le hle
    by_cases hlinks : m'.arena.LinksStayBelow m.checkpoint.nodes
    · rw [restore_of_cuts ⟨hlt, hlinks⟩] at hn
      cases hn
      show Captures.mk (m'.forget m.size).table (m'.forget m.size).trail
        (m'.arena.cut m.arena.size) = m
      rw [h.forget, h.arena.cut_eq]
    · rw [restore_of_crossing hlt hlinks] at hn
      cases hn

end Precedes

/-! ### Growth -/

/-- The captures grow by bindings of nodes in `Z`, each with a copy of what is at the node. -/
inductive Grown (C : Arena) (Z : NodeId → Prop) (m : Captures) : Captures → Prop
  | refl : Grown C Z m m
  | bind {m' : Captures} {a : Arena} {g : String} {c : NodeId} {t : Tree} (h : Grown C Z m m')
    (hg : m'.find? g = none) (hz : Z c) (ht : t.IsAt C c)
    (hcopy : Edit.importFrom C c m'.arena = .ok m'.arena.size a) :
    Grown C Z m (m'.record ⟨g, c, m'.arena.size⟩ a)

namespace Grown

theorem trans (h : Grown C Z m m') (h' : Grown C Z m' m'') : Grown C Z m m'' := by
  induction h' with
  | refl => exact h
  | bind _ hg hz ht hcopy ih => exact ih.bind hg hz ht hcopy

theorem mono (h : Grown C Z m m') (hZ : ∀ n, Z n → Z' n) : Grown C Z' m m' := by
  induction h with
  | refl => exact .refl
  | bind _ hg hz ht hcopy ih => exact ih.bind hg (hZ _ hz) ht hcopy

theorem precedes (h : Grown C Z m m') : m.Precedes m' := by
  induction h with
  | refl => exact .refl m
  | bind _ hg _ ht hcopy ih => exact ih.trans (.record hg (Edit.isPrefix_of_importFrom ht hcopy))

theorem arena (h : Grown C Z m m') : m.arena.IsPrefix m'.arena := h.precedes.arena

theorem closed (h : Grown C Z m m') (hm : m.arena.Closed) : m'.arena.Closed := by
  induction h with
  | refl => exact hm
  | bind _ _ _ ht hcopy ih => exact Edit.closed_of_importFrom ht ih hcopy

theorem keyed (h : Grown C Z m m') (hm : m.Keyed) : m'.Keyed := by
  induction h with
  | refl => exact hm
  | bind _ hg _ _ _ ih => exact ih.record hg _

/-- A group that was bound keeps its binding. -/
theorem find?_eq (h : Grown C Z m m') (hb : m.find? g = some b) : m'.find? g = some b :=
  h.precedes.find?_eq hb

/-- A group that was not bound before is bound to a node of the region, with a copy of the tree that
the node stands for. -/
theorem of_find? (h : Grown C Z m m') (hold : m.find? g = none) (hb : m'.find? g = some b) :
    Z b.node ∧ ∃ t : Tree, t.IsAt C b.node ∧ t.IsAt m'.arena b.copy := by
  induction h with
  | refl => rw [hold] at hb; cases hb
  | @bind _ a g' c _ _ _ hz ht hcopy ih =>
    rw [find?_record] at hb
    split_ifs at hb with hg'
    · cases hb
      exact ⟨hz, _, ht, (Edit.liesAt_of_importFrom ht hcopy).isAt⟩
    · obtain ⟨hz', t', ht', hold'⟩ := ih hb
      exact ⟨hz', t', ht', hold'.mono (Edit.isPrefix_of_importFrom ht hcopy)⟩

theorem intact (h : Grown C Z m m') (hm : m.Intact) : m'.Intact where
  closed := h.closed hm.closed
  copies g b hb := by
    cases hold : m.find? g with
    | none =>
      obtain ⟨-, t, -, ht⟩ := h.of_find? hold hb
      exact ⟨t, ht⟩
    | some b' =>
      obtain rfl : b' = b := Option.some.inj ((h.find?_eq hold).symm.trans hb)
      obtain ⟨t, ht⟩ := hm.copies g b' hold
      exact ⟨t, ht.mono h.arena⟩

theorem assignment_mono (h : Grown C Z m m') (hg : m.assignment g = some t) :
    m'.assignment g = some t := by
  obtain ⟨b, hb, ht⟩ := assignment_eq_some_iff.mp hg
  exact assignment_eq_some_iff.mpr ⟨b, h.find?_eq hb, ht.mono h.arena⟩

end Grown

end Captures

/-! ### Binding a group -/

namespace Matching

open Captures

/-- After a step that succeeds, the next one starts from the run it left. -/
theorem seq_of_ok {α β : Type} {x : Matching α} {f : α → Matching β} {run run' : Run} {v : α}
    (h : x run = .ok v run') : (x >>= f) run = f v run' := by
  show EStateM.bind x f run = f v run'
  rw [EStateM.bind, h]

/-- A successful sequence consists of two successful steps. -/
theorem seq_eq_ok {α β : Type} {x : Matching α} {f : α → Matching β} {run run'' : Run} {w : β}
    (h : (x >>= f) run = .ok w run'') : ∃ v run', x run = .ok v run' ∧ f v run' = .ok w run'' := by
  cases hr : x run with
  | ok v run' => exact ⟨v, run', rfl, by rw [← h, seq_of_ok hr]⟩
  | error e run' =>
    have herror : (x >>= f) run = .error e run' := by
      show EStateM.bind x f run = _
      rw [EStateM.bind, hr]
    rw [herror] at h
    cases h

variable {C : Arena} {c : Nat} {t u : Tree} {run run' : Run} {g : String} {b : Binding} {v : Bool}

/-- A comparison with an intact copy has an answer, and leaves the run alone. -/
theorem exists_agrees_eq_ok (ht : t.IsAt C c) (hu : u.IsAt run.captures.arena b.copy) :
    ∃ v, agrees C b c run = .ok v run ∧ (v = true ↔ u = t) := by
  obtain ⟨v, hv, hiff⟩ := Arena.structurallyEqual_of_isAt hu ht
  refine ⟨v, ?_, hiff⟩
  rw [agrees, hv]
  rfl

theorem lt_size_of_agrees (h : agrees C b c run = .ok v run') : c < C.size := by
  unfold agrees at h
  cases heq : run.captures.arena.structurallyEqual b.copy C c with
  | error e => rw [heq] at h; cases h
  | ok w => exact Arena.lt_size_of_structurallyEqual heq

theorem lt_size_of_capture {x : Unit} (h : capture C g c run = .ok x run') : c < C.size := by
  by_contra hc
  have hnone := Arena.node?_eq_none_iff.mpr (Nat.not_lt.mp hc)
  rw [capture, Edit.importFrom_of_none hnone] at h
  cases h

/-- Looking a group up leaves the run alone. -/
theorem binding?_of_find? {o : Option Binding} (hg : run.captures.find? g = o) :
    binding? g run = .ok o run := by
  rw [binding?, hg]

theorem bind_of_bound (hg : run.captures.find? g = some b) :
    bind C g c run = agrees C b c run := by
  show (binding? g >>= _ : Matching Bool) run = _
  rw [seq_of_ok (binding?_of_find? hg)]

theorem bind_of_unbound (hg : run.captures.find? g = none) :
    bind C g c run = (do capture C g c; return true : Matching Bool) run := by
  show (binding? g >>= _ : Matching Bool) run = _
  rw [seq_of_ok (binding?_of_find? hg)]

theorem lt_size_of_bind (h : bind C g c run = .ok v run') : c < C.size := by
  cases hg : run.captures.find? g with
  | some b =>
    rw [bind_of_bound hg] at h
    exact lt_size_of_agrees h
  | none =>
    rw [bind_of_unbound hg] at h
    obtain ⟨_, _, hcapture, -⟩ := seq_eq_ok h
    exact lt_size_of_capture hcapture

/-- A group that is not bound is bound to a node that stands for a tree. -/
theorem exists_capture_eq_ok (ht : t.IsAt C c) (g : String) (run : Run) :
    ∃ a, Edit.importFrom C c run.captures.arena = .ok run.captures.arena.size a ∧
      capture C g c run = .ok () { run with
        captures := run.captures.record ⟨g, c, run.captures.arena.size⟩ a } := by
  obtain ⟨a, hcopy, -⟩ := Edit.importFrom_of_isAt ht run.captures.arena
  exact ⟨a, hcopy, by rw [capture, hcopy]⟩

/-- Binding a group that is not bound puts a copy at the end of the private arena. -/
theorem exists_bind_of_unbound (ht : t.IsAt C c) (hg : run.captures.find? g = none) :
    ∃ a, Edit.importFrom C c run.captures.arena = .ok run.captures.arena.size a ∧
      bind C g c run = .ok true { run with
        captures := run.captures.record ⟨g, c, run.captures.arena.size⟩ a } := by
  obtain ⟨a, hcopy, hcapture⟩ := exists_capture_eq_ok ht g run
  refine ⟨a, hcopy, ?_⟩
  rw [bind_of_unbound hg, seq_of_ok hcapture]
  rfl

/-- **Binding** a group to a node that stands for `t` has an answer.  The answer is yes unless the
group remembers another tree; and if it is yes, then `t` is what the group remembers. -/
theorem exists_bind_eq_ok (ht : t.IsAt C c) (hm : run.captures.Intact) (g : String) :
    ∃ v run', bind C g c run = .ok v run' ∧ Grown C (· = c) run.captures run'.captures ∧
      (v = true ↔ ∀ u, run.captures.assignment g = some u → u = t) ∧
      (v = true → run'.captures.assignment g = some t) ∧
      ∀ g', run'.captures.isBound g' = true ↔ run.captures.isBound g' = true ∨ g' = g := by
  cases hg : run.captures.find? g with
  | some b =>
    obtain ⟨u, hu⟩ := hm.copies g b hg
    have hassign : run.captures.assignment g = some u := assignment_eq_some_iff.mpr ⟨b, hg, hu⟩
    obtain ⟨v, hv, hiff⟩ := exists_agrees_eq_ok ht hu
    refine ⟨v, run, by rw [bind_of_bound hg, hv], .refl, ?_, fun h => ?_, fun g' => ?_⟩
    · rw [hiff, hassign]
      simp
    · rw [hassign, hiff.mp h]
    · refine ⟨.inl, fun h => h.elim id ?_⟩
      rintro rfl
      exact isBound_iff.mpr ⟨b, hg⟩
  | none =>
    obtain ⟨a, hcopy, hrun⟩ := exists_bind_of_unbound ht hg
    have hfind := find?_record run.captures ⟨g, c, run.captures.arena.size⟩ a
    refine ⟨true, _, hrun, Grown.refl.bind hg rfl ht hcopy, ?_, fun _ => ?_, fun g' => ?_⟩
    · simp [assignment, copy?, hg]
    · exact assignment_eq_some_iff.mpr
        ⟨_, (hfind g).trans (if_pos rfl), (Edit.liesAt_of_importFrom ht hcopy).isAt⟩
    · rw [isBound, isBound, hfind g']
      by_cases h : g' = g <;> simp [h]

end Matching

end SyntaxForest
