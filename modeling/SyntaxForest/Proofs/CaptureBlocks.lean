import SyntaxForest.Proofs.CaptureHistory

/-!
# Where going back cuts

The copies of captures lie in the private arena as `Blocks`: each stands for a tree and takes the
ids from its root on, as many as the tree has nodes, and the next one begins where it ends.
Captures are `Packed` if the blocks of their copies, in the order of the bindings, fill the arena.
Captures that binding has made are (`Made.packed`).  Unlike `Tiles`, which is about parent links and
always ends where the arena ends, blocks can be taken apart at any binding.

The two numbers of a checkpoint act on different things and are not checked against each other.  How
many groups are kept is up to the one, where the arena is cut off is up to the other.  No link
crosses a cut between two blocks, and one crosses every cut through a block
(`Blocks.linksStayBelow_iff`); so going back breaks off if the cut would go through a copy, and
nothing is lost then.  A cut between two blocks takes or leaves copies as a whole.  What is kept is
spared if the cut does not come before the point where the blocks of the groups that are kept end;
this is the length that the arena had when there were that many groups (`StageOf`).  If the cut
comes before it, at least the last copy that is kept is gone.
-/

namespace SyntaxForest

namespace Arena

variable {a b : Arena} {t : Tree} {c i j k n x : Nat} {xs ys : List NodeId}

/-! ### Trees in an arena that grows or is cut off -/

theorem LiesAt.mono (hab : a.IsPrefix b) (h : a.LiesAt t x) : b.LiesAt t x where
  isAt := h.isAt.mono hab
  reaches_iff m := by rw [reaches_iff_of_isPrefix hab h.isAt, h.reaches_iff]

/-- A cut behind the end of a tree leaves the tree where it is. -/
theorem LiesAt.cut (h : a.LiesAt t x) (hc : x + t.size ≤ c) : (a.cut c).LiesAt t x := by
  have hat : t.IsAt (a.cut c) x := by
    apply isAt_cut h.isAt
    intro m hm
    have hlt := ((h.reaches_iff m).mp hm).2
    omega
  refine ⟨hat, fun m => ?_⟩
  rw [← reaches_iff_of_isPrefix (isPrefix_cut a c) hat, h.reaches_iff]

/-- If no link crosses the cut, then what is before it reaches nothing behind it. -/
theorem LinksStayBelow.lt_of_reaches (h : a.LinksStayBelow c) (hx : x < c) (hn : a.Reaches x n) :
    n < c := by
  induction hn with
  | refl => exact hx
  | @child m d ch _ hm hch ih => exact (h m d ih hm).2 ch hch

/-! ### Blocks -/

/-- From the first id to the second, the nodes stand for trees that lie one behind the other. -/
inductive Blocks (a : Arena) : Nat → Nat → List NodeId → Prop
  | nil (i : Nat) : Blocks a i i []
  | cons {x stop : Nat} {xs : List NodeId} {t : Tree} (hx : a.LiesAt t x)
    (hrest : Blocks a (x + t.size) stop xs) : Blocks a x stop (x :: xs)

namespace Blocks

theorem le (h : a.Blocks i k xs) : i ≤ k := by
  induction h with
  | nil => exact Nat.le_refl _
  | cons _ _ ih => omega

theorem append (hxs : a.Blocks i j xs) (hys : a.Blocks j k ys) : a.Blocks i k (xs ++ ys) := by
  induction hxs with
  | nil => exact hys
  | cons hx _ ih => exact .cons hx (ih hys)

/-- Wherever the list is taken apart, so are the blocks. -/
theorem exists_of_append : ∀ {xs : List NodeId} {i : Nat}, a.Blocks i k (xs ++ ys) →
    ∃ j, a.Blocks i j xs ∧ a.Blocks j k ys
  | [], i, h => ⟨i, .nil i, h⟩
  | x :: xs, _, h => by
    cases h with
    | cons hx hrest =>
      obtain ⟨j, hxs, hys⟩ := exists_of_append hrest
      exact ⟨j, .cons hx hxs, hys⟩

/-- Every node has its block, which ends before the last block ends. -/
theorem exists_of_mem (h : a.Blocks i k xs) (hx : x ∈ xs) :
    ∃ t, a.LiesAt t x ∧ x + t.size ≤ k := by
  induction h with
  | nil => cases hx
  | cons hy hrest ih =>
    rcases List.mem_cons.mp hx with rfl | hx
    · exact ⟨_, hy, hrest.le⟩
    · exact ih hx

/-- Every id from the first block to the last is in a block. -/
theorem exists_of_lt (h : a.Blocks i k xs) (hi : i ≤ n) (hk : n < k) :
    ∃ x : Nat, x ∈ xs ∧ ∃ t, a.LiesAt t x ∧ x ≤ n ∧ n < x + t.size := by
  induction h with
  | nil => omega
  | @cons x stop xs t hx _ ih =>
    by_cases hn : n < x + t.size
    · exact ⟨x, List.mem_cons_self, t, hx, hi, hn⟩
    · obtain ⟨y, hy, hblock⟩ := ih (Nat.le_of_not_lt hn) hk
      exact ⟨y, List.mem_cons_of_mem _ hy, hblock⟩

theorem le_of_mem (h : a.Blocks i k xs) (hx : x ∈ xs) : i ≤ x := by
  induction h with
  | nil => cases hx
  | cons _ _ ih =>
    rcases List.mem_cons.mp hx with rfl | hx
    · exact Nat.le_refl _
    · exact Nat.le_trans (Nat.le_add_right _ _) (ih hx)

/-- The last block ends where the blocks end. -/
theorem exists_last (h : a.Blocks i k (xs ++ [x])) : ∃ t, a.LiesAt t x ∧ x + t.size = k := by
  obtain ⟨j, -, hlast⟩ := h.exists_of_append
  cases hlast with
  | cons hx hrest =>
    cases hrest
    exact ⟨_, hx, rfl⟩

theorem mono (hab : a.IsPrefix b) (h : a.Blocks i k xs) : b.Blocks i k xs := by
  induction h with
  | nil i => exact .nil i
  | cons hx _ ih => exact .cons (hx.mono hab) ih

theorem cut (h : a.Blocks i k xs) (hc : k ≤ c) : (a.cut c).Blocks i k xs := by
  induction h with
  | nil i => exact .nil i
  | cons hx hrest ih => exact .cons (hx.cut (Nat.le_trans hrest.le hc)) (ih hc)

/-- As long as the first node is the same, the blocks say where they end. -/
theorem stop_eq (h : a.Blocks i j xs) (h' : a.Blocks i k xs) : j = k := by
  induction h with
  | nil =>
    cases h'
    rfl
  | cons hx _ ih =>
    cases h' with
    | cons hx' hrest' =>
      obtain rfl := hx.isAt.unique hx'.isAt
      exact ih hrest'

/-- **Links across a cut** of an arena that blocks fill: there is one if and only if the cut goes
through a block. -/
theorem linksStayBelow_iff (h : a.Blocks 0 a.size xs) (hw : a.WellFormed) :
    a.LinksStayBelow c ↔ ∀ x : Nat, x ∈ xs → ∀ t, a.LiesAt t x → x < c → x + t.size ≤ c := by
  constructor
  · intro hlinks x _ t ht hxc
    have hlast : a.Reaches x (x + t.size - 1) := by
      have := t.size_pos
      rw [ht.reaches_iff]
      omega
    have := hlinks.lt_of_reaches hxc hlast
    omega
  · intro hcut
    -- what a block reaches from before the cut is before the cut
    have hblock : ∀ {m : Nat}, m < c → m < a.size → ∃ x : Nat, a.Reaches x m ∧
        ∀ m' : Nat, a.Reaches x m' → m' < c := by
      intro m hmc hm
      obtain ⟨x, hx, t, ht, hxm, hmt⟩ := h.exists_of_lt (Nat.zero_le m) hm
      refine ⟨x, (ht.reaches_iff m).mpr ⟨hxm, hmt⟩, fun m' hm' => ?_⟩
      have hlt := ((ht.reaches_iff m').mp hm').2
      have := hcut x hx t ht (Nat.lt_of_le_of_lt hxm hmc)
      omega
    intro n d hn hd
    obtain ⟨x, hxn, hbefore⟩ := hblock hn (lt_size_of_node? hd)
    refine ⟨fun p hp => ?_, fun ch hch => hbefore ch.node (hxn.child hd hch)⟩
    -- the parent is in a block, which then reaches the node too
    obtain ⟨e, he⟩ := exists_node?_of_lt (hw.parent_lt n p d hd hp)
    obtain ⟨y, hy, t, ht, hyp, hpt⟩ := h.exists_of_lt (Nat.zero_le p) (lt_size_of_node? he)
    obtain ⟨ch, hch, hself⟩ := List.mem_map.mp ((hw.listed_iff n p d e hd he).mpr hp)
    have hyn : a.Reaches y n := by
      rw [← hself]
      exact ((ht.reaches_iff p).mpr ⟨hyp, hpt⟩).child he hch
    have hle := ((ht.reaches_iff n).mp hyn).1
    have := hcut y hy t ht (Nat.lt_of_le_of_lt hle hn)
    omega

/-- Where one list of blocks ends and another one begins, the arena can be cut. -/
theorem linksStayBelow_of_append (hxs : a.Blocks 0 j xs) (hys : a.Blocks j a.size ys)
    (hw : a.WellFormed) : a.LinksStayBelow j := by
  refine ((hxs.append hys).linksStayBelow_iff hw).mpr fun x hx t ht hlt => ?_
  rcases List.mem_append.mp hx with hx | hx
  · obtain ⟨u, hu, hend⟩ := hxs.exists_of_mem hx
    rw [ht.isAt.unique hu.isAt]
    exact hend
  · exact absurd hlt (Nat.not_lt.mpr (hys.le_of_mem hx))

end Blocks

end Arena

namespace Captures

variable {m stage : Captures} {origins : List Arena} {cp : Checkpoint}

/-! ### Captures without gaps -/

/-- The copies fill the private arena in the order of the bindings. -/
structure Packed (m : Captures) : Prop extends Sound m where
  blocks : m.arena.Blocks 0 m.arena.size (m.bindings.map (·.copy))

/-- **Captures that were made** by binding alone are packed: a copy is put at the end, in one
piece. -/
theorem Made.packed (h : Made m origins) : m.Packed := by
  refine ⟨h.orderly.toSound, ?_⟩
  induction h with
  | empty => exact .nil 0
  | @bind m origins C a g c t hmade _ hg ht hcopy ih =>
    have hold : a.Blocks 0 m.arena.size (m.bindings.map (·.copy)) :=
      ih.mono (Edit.isPrefix_of_importFrom ht hcopy)
    have hnew : a.Blocks m.arena.size a.size [m.arena.size] := by
      refine .cons (Edit.liesAt_of_importFrom ht hcopy) ?_
      rw [← Edit.size_of_importFrom ht hcopy]
      exact .nil _
    rw [hmade.orderly.keyed.bindings_record hg, List.map_append]
    exact hold.append hnew

/-- The captures `stage` are `m` as it was right after the `b`-th binding was made. -/
structure StageOf (m : Captures) (b : Nat) (stage : Captures) : Prop where
  packed : stage.Packed
  precedes : stage.Precedes m
  size_eq : stage.size = b

/-- In the arena as it is now, the copies of the first bindings end where the arena ended then. -/
theorem StageOf.blocks {b : Nat} (h : StageOf m b stage) (hm : m.Keyed) :
    m.arena.Blocks 0 stage.arena.size ((m.bindings.take b).map (·.copy)) := by
  have hbindings : m.bindings.take b = stage.bindings := by
    rw [← hm.bindings_forget, ← h.size_eq, h.precedes.forget]
    rfl
  rw [hbindings]
  exact h.packed.blocks.mono h.precedes.arena

/-- Packed captures have been through a stage for every smaller number of bindings. -/
theorem Packed.exists_stageOf (h : m.Packed) {b : Nat} (hb : b < m.size) :
    ∃ stage, StageOf m b stage := by
  have hsplit := h.blocks
  rw [← List.take_append_drop b m.bindings, List.map_append] at hsplit
  obtain ⟨j, hkept, hrest⟩ := hsplit.exists_of_append
  have hj : (m.arena.cut j).size = j := by
    rw [Arena.size_cut]
    exact Nat.min_eq_left hrest.le
  let stage : Captures := ⟨(m.forget b).table, (m.forget b).trail, m.arena.cut j⟩
  have hsize : stage.size = b := List.length_take_of_le (Nat.le_of_lt hb)
  refine ⟨stage, ⟨⟨?_, ?_⟩, ?_⟩, ⟨List.take_prefix b m.trail, ?_, Arena.isPrefix_cut m.arena j, ?_⟩,
    hsize⟩
  · exact ⟨(h.keyed.forget b).nodup, (h.keyed.forget b).isBound_iff⟩
  · exact h.wellFormed.cut (hkept.linksStayBelow_of_append hrest h.wellFormed)
  · have hbindings : stage.bindings = m.bindings.take b := h.keyed.bindings_forget b
    show (m.arena.cut j).Blocks 0 (m.arena.cut j).size _
    rw [hbindings, hj]
    exact hkept.cut (Nat.le_refl j)
  · rw [hsize]
    rfl
  · -- the stage has fewer groups
    intro heq
    have hlength : m.size = stage.size := congrArg List.length heq
    omega

/-! ### What going back does -/

/-- A cut at this point goes through one of the copies. -/
def Splits (m : Captures) (c : Nat) : Prop :=
  ∃ x : Nat, x ∈ m.bindings.map (·.copy) ∧ ∃ t, m.arena.LiesAt t x ∧ x < c ∧ c < x + t.size

theorem Packed.linksStayBelow_iff (h : m.Packed) {c : Nat} :
    m.arena.LinksStayBelow c ↔ ¬ m.Splits c := by
  rw [h.blocks.linksStayBelow_iff h.wellFormed]
  constructor
  · rintro hcut ⟨x, hx, t, ht, hlt, hend⟩
    exact Nat.not_le.mpr hend (hcut x hx t ht hlt)
  · intro hsplits x hx t ht hlt
    by_contra hend
    exact hsplits ⟨x, hx, t, ht, hlt, Nat.not_le.mp hend⟩

/-- A cut behind the blocks of what is kept spares it. -/
theorem StageOf.isAt_cut (h : StageOf m cp.bindings stage) (hm : m.Keyed)
    (hcut : stage.arena.size ≤ cp.nodes) {b : Binding} (hb : b ∈ m.bindings.take cp.bindings) :
    ∃ t : Tree, t.IsAt m.arena b.copy ∧ t.IsAt (m.arena.cut cp.nodes) b.copy := by
  obtain ⟨t, ht, hend⟩ := (h.blocks hm).exists_of_mem (List.mem_map_of_mem hb)
  exact ⟨t, ht.isAt, (ht.cut (Nat.le_trans hend hcut)).isAt⟩

/-- A cut before the end of the blocks of what is kept, and not through one of them, takes the last
one away. -/
theorem StageOf.exists_lost (h : StageOf m cp.bindings stage) (hm : m.Keyed)
    (hsplits : ¬ m.Splits cp.nodes) (hcut : cp.nodes < stage.arena.size) :
    ∃ b, (m.bindings.take cp.bindings).getLast? = some b ∧
      (m.arena.cut cp.nodes).size ≤ b.copy := by
  have hblocks := h.blocks hm
  rcases List.eq_nil_or_concat (m.bindings.take cp.bindings) with hnil | ⟨before, b, hlast⟩
  · -- without bindings there is no room for the cut
    rw [hnil] at hblocks
    have hzero : stage.arena.size = 0 := hblocks.stop_eq (.nil 0)
    omega
  · have hmem : b ∈ m.bindings := by
      apply List.mem_of_mem_take (i := cp.bindings)
      rw [hlast, List.concat_eq_append]
      exact List.mem_append_right _ List.mem_cons_self
    rw [hlast, List.concat_eq_append, List.map_append] at hblocks
    obtain ⟨t, ht, hend⟩ := hblocks.exists_last
    refine ⟨b, by rw [hlast, List.concat_eq_append, List.getLast?_concat], ?_⟩
    have hle : cp.nodes ≤ b.copy := by
      by_contra hlt
      exact hsplits ⟨b.copy, List.mem_map_of_mem hmem, t, ht, Nat.not_le.mp hlt, hend ▸ hcut⟩
    rw [Arena.size_cut]
    exact Nat.le_trans (Nat.min_le_left _ _) hle

/-- **The effect of going back** to any pair of numbers, from captures whose copies fill their
arena.  If there are no more groups than the checkpoint has, nothing happens.  Otherwise exactly the
oldest groups stay, bound as they are.  If the cut would go through a copy, going back breaks off
and the arena is left as it is.  If not, the copies that are kept stand for the same trees as before
if and only if the cut is not before the length that the arena had when there were that many groups;
and if it is, then the last copy that is kept has lost its root. -/
theorem restore_effect (hm : m.Packed) (cp : Checkpoint) :
    (m.size ≤ cp.bindings → m.restore cp = .ok () m) ∧
    (cp.bindings < m.size →
      (m.back cp).trail = m.trail.take cp.bindings ∧
      (∀ g ∈ m.trail.take cp.bindings, (m.back cp).find? g = m.find? g) ∧
      (∀ g ∈ m.trail.drop cp.bindings, (m.back cp).find? g = none) ∧
      (m.Splits cp.nodes → (m.back cp).arena = m.arena ∧
        m.restore cp = .error (.crossingLink cp.nodes) (m.back cp)) ∧
      (¬ m.Splits cp.nodes → m.restore cp = .ok () (m.back cp) ∧
        (∃ stage, StageOf m cp.bindings stage) ∧
        ∀ stage, StageOf m cp.bindings stage →
          ((∀ b ∈ (m.back cp).bindings,
              ∃ t : Tree, t.IsAt m.arena b.copy ∧ t.IsAt (m.back cp).arena b.copy) ↔
            stage.arena.size ≤ cp.nodes) ∧
          (cp.nodes < stage.arena.size → ∃ b, (m.back cp).bindings.getLast? = some b ∧
            (m.back cp).arena.size ≤ b.copy))) := by
  refine ⟨restore_of_le, fun hlt => ⟨(back_eq_forget m cp).2, fun g hg => ?_, fun g hg => ?_,
    fun hsplits => ?_, fun hsplits => ?_⟩⟩
  · have hdisjoint := List.disjoint_take_drop hm.keyed.nodup (Nat.le_refl cp.bindings)
    rw [find?_back, if_neg (hdisjoint hg)]
  · rw [find?_back, if_pos hg]
  · have hcross : ¬ m.arena.LinksStayBelow cp.nodes := fun hlinks =>
      hm.linksStayBelow_iff.mp hlinks hsplits
    rw [back_of_not_cuts fun hcuts => hcross hcuts.2]
    exact ⟨rfl, restore_of_crossing hlt hcross⟩
  · have hcuts : m.Cuts cp := ⟨hlt, hm.linksStayBelow_iff.mpr hsplits⟩
    rw [hm.keyed.bindings_back, back_of_cuts hcuts]
    refine ⟨restore_of_cuts hcuts, hm.exists_stageOf hlt, fun stage hstage => ⟨⟨fun hall => ?_,
      fun hcut b hb => hstage.isAt_cut hm.keyed hcut hb⟩, hstage.exists_lost hm.keyed hsplits⟩⟩
    by_contra hcut
    obtain ⟨b, hb, hlost⟩ := hstage.exists_lost hm.keyed hsplits (Nat.not_le.mp hcut)
    -- a node that stands for a tree is there
    obtain ⟨t, -, ht⟩ := hall b (List.mem_of_getLast? hb)
    exact absurd ht.lt_size (Nat.not_lt.mpr hlost)

/-- The number is bound to `g` and the name to `h`, as node `0` and as nodes `1` and `2`, and the
number to `k`, as node `3`.  A checkpoint with three groups does nothing, even if it has no nodes.
With two groups and two nodes its cut would go through the name, so nothing is cut off.  With two
groups and three nodes it spares the two copies, and with one node the copy for `h` is gone. -/
theorem restore_effect_name :
    ∃ m : Captures, m.Packed ∧ m.bindings = [⟨"g", 0, 0⟩, ⟨"h", 1, 1⟩, ⟨"k", 0, 3⟩] ∧
      m.restore ⟨3, 0⟩ = .ok () m ∧
      m.Splits 2 ∧ (m.back ⟨2, 2⟩).trail = ["g", "h"] ∧ (m.back ⟨2, 2⟩).arena = m.arena ∧
      (∃ t : Tree, t.IsAt m.arena 1 ∧ t.IsAt (m.back ⟨2, 3⟩).arena 1) ∧
      (m.back ⟨2, 1⟩).find? "h" = some ⟨"h", 1, 1⟩ ∧ (m.back ⟨2, 1⟩).arena.size ≤ 1 := by
  have hfirst : Session.Reached Session.Live _ :=
    ((Session.Reached.start.bindTo 0 0).bindTo 1 1).act .checkpoint trivial
  have hhistory := Session.history_of_live (hfirst.bindTo 2 0)
  have hpacked := hhistory.made.packed
  have hstage : StageOf _ 2 _ :=
    ⟨(hhistory.made_stage _ List.mem_cons_self).packed,
      hhistory.precedes_captures List.mem_cons_self, rfl⟩
  -- where the arena can be cut is read off its links
  have hsplits : ∀ {c : Nat}, Arena.linksStayBelow _ c = false → Splits _ c := fun h =>
    by_contra fun hno => Bool.false_ne_true
      (h.symm.trans (Arena.linksStayBelow_iff.mpr (hpacked.linksStayBelow_iff.mpr hno)))
  have hwhole : ∀ {c : Nat}, Arena.linksStayBelow _ c = true → ¬ Splits _ c := fun h =>
    hpacked.linksStayBelow_iff.mp (Arena.linksStayBelow_iff.mp h)
  obtain ⟨htrail, -, -, hthrough, -⟩ := (restore_effect hpacked ⟨2, 2⟩).2 (by decide +kernel)
  obtain ⟨-, -, -, -, hbehind⟩ := (restore_effect hpacked ⟨2, 3⟩).2 (by decide +kernel)
  obtain ⟨-, hkept, -, -, hbetween⟩ := (restore_effect hpacked ⟨2, 1⟩).2 (by decide +kernel)
  obtain ⟨b, hb, hlost⟩ := ((hbetween (hwhole (by decide +kernel))).2.2 _ hstage).2
    (by decide +kernel)
  obtain rfl : ⟨"h", 1, 1⟩ = b := Option.some.inj hb
  refine ⟨_, hpacked, rfl, (restore_effect hpacked ⟨3, 0⟩).1 (by decide +kernel),
    hsplits (by decide +kernel), htrail, (hthrough (hsplits (by decide +kernel))).1, ?_,
    hkept "h" (by decide +kernel), hlost⟩
  exact ((hbehind (hwhole (by decide +kernel))).2.2 _ hstage).1.mpr (by decide +kernel)
    ⟨"h", 1, 1⟩ (by decide +kernel)

/-- The name is bound to `g`, as nodes `0` and `1`, and the number to `h`.  The checkpoint is one of
other captures, in which the number was bound to `g`.  Its cut comes before the end of the copy that
is kept, and yet the copy stands for the same tree as before: going back breaks off. -/
theorem copy_kept_by_crossing_cut :
    ∃ m m' : Captures, m.Packed ∧ m'.Packed ∧ m'.checkpoint = ⟨1, 1⟩ ∧
      (∃ stage, StageOf m 1 stage ∧ 1 < stage.arena.size) ∧
      (m.back m'.checkpoint).bindings = [⟨"g", 1, 0⟩] ∧
      ∃ t : Tree, t.IsAt m.arena 0 ∧ t.IsAt (m.back m'.checkpoint).arena 0 := by
  have hfirst : Session.Reached Session.Live _ :=
    (Session.Reached.start.bindTo 0 1).act .checkpoint trivial
  have hhistory := Session.history_of_live (hfirst.bindTo 1 0)
  have hpacked := hhistory.made.packed
  have hother : Session.Reached Session.Live _ := Session.Reached.start.bindTo 0 0
  refine ⟨_, _, hpacked, (Session.history_of_live hother).made.packed, rfl, ⟨_,
    ⟨(hhistory.made_stage _ List.mem_cons_self).packed,
      hhistory.precedes_captures List.mem_cons_self, rfl⟩, by decide +kernel⟩, rfl, ?_⟩
  obtain ⟨t, ht⟩ := hpacked.wellFormed.exists_isAt (n := 0) (by decide +kernel)
  exact ⟨t, ht, ht⟩

end Captures

end SyntaxForest
