import SyntaxForest.Proofs.Acceptance

/-!
# Constructors that adopt several nodes

A block, a choice and a binary expression are made of nodes that are there already.  The nodes are
checked together, against the arena in which none of them has been adopted; then they are attached
one after the other, each to an arena that the ones before it have changed.

`Raised a b k children tokens given` says what such an arena `b` is compared with the arena `a` from
before the call: a new root with its tokens has come behind the old nodes, the nodes `given` have
the new root as their parent, and nothing else has changed.  One step, be it a new token or one more
node that is adopted, keeps this (`Raised.sprout`, `Raised.relink`), and so do the loops, each of
which is a case of `exists_forM_eq_ok`.

Since the new node is a root, it is below nothing, and the check of an entry comes down to
`Eligible`.  The check of all entries asks in addition that they are different nodes
(`Raised.checkAttachAll_iff`).  A block checks each statement once more when it is added.  By then
the statements before it have been adopted, but this one is as it was, since it is none of them
(`RaisedBlock.exists_addStatement_eq_ok`).
-/

namespace SyntaxForest

namespace Arena

/-! ### What is made of given nodes -/

/-- The entries are different nodes, and each of them is eligible for its role. -/
structure Adoptable (a : Arena) (entries : ChildList) : Prop where
  nodup : (entries.map (·.node)).Nodup
  eligible : ∀ x ∈ entries, a.Eligible x.role x.node

/-- The arena `b` is `a` with a new root and its tokens; the root has adopted the nodes `given`. -/
structure Raised (a b : Arena) (k : Kind) (children : ChildList) (tokens : List Token)
    (given : List NodeId) : Prop where
  size_eq : b.size = a.size + 1 + tokens.length
  root : b.node? a.size = some { kind := k, parent := none, children := children }
  token : ∀ i t, tokens[i]? = some t →
    b.node? (a.size + 1 + i) = some { kind := .token t, parent := some a.size }
  /-- Nodes that were given have a new parent, and are the same otherwise. -/
  adopted : ∀ c ∈ given, ∀ d, a.node? c = some d → b.node? c = some { d with parent := some a.size }
  /-- The other nodes are as they were. -/
  other : ∀ m : Nat, m < a.size → m ∉ given → b.node? m = a.node? m

theorem raised_push (a : Arena) (k : Kind) : Raised a (a.push k) k [] [] [] where
  size_eq := size_push a k
  root := node?_push_self a k
  token i t h := by simp at h
  adopted c hc := by cases hc
  other m hm _ := node?_push_of_ne a k (Nat.ne_of_lt hm)

namespace Raised

variable {a b : Arena} {k : Kind} {children entries : ChildList} {tokens : List Token}
  {given : List NodeId} {c : Nat} {r : RoleId}

theorem lt_size (h : Raised a b k children tokens given) : a.size < b.size :=
  lt_size_of_node? h.root

/-- **One step**: the root gets one token more. -/
theorem sprout (h : Raised a b k children tokens given) (r : RoleId) (t : Token) :
    Raised a (b.sprout a.size r (.token t)) k (children ++ [⟨r, b.size⟩]) (tokens ++ [t])
      given := by
  have hlt := h.lt_size
  constructor
  case size_eq =>
    rw [size_sprout, h.size_eq, List.length_append, List.length_singleton]
    omega
  case root => exact node?_sprout_self r (.token t) h.root
  case token =>
    intro i u hu
    rcases Nat.lt_trichotomy i tokens.length with hi | rfl | hi
    · rw [List.getElem?_append_left hi] at hu
      have hsize := h.size_eq
      rw [node?_sprout_of_lt r (.token t) a.size (by omega) (by omega)]
      exact h.token i u hu
    · rw [List.getElem?_concat_length] at hu
      obtain rfl := Option.some.inj hu
      rw [← h.size_eq]
      exact node?_sprout_new r (.token t) h.root
    · have hend : (tokens ++ [t]).length ≤ i := by
        rw [List.length_append, List.length_singleton]
        omega
      rw [List.getElem?_eq_none hend] at hu
      cases hu
  case adopted =>
    intro c hc d hd
    have hca := lt_size_of_node? hd
    rw [node?_sprout_of_lt r (.token t) a.size (by omega) (by omega)]
    exact h.adopted c hc d hd
  case other =>
    intro m hm hnot
    rw [node?_sprout_of_lt r (.token t) a.size (by omega) (by omega)]
    exact h.other m hm hnot

/-- Each old node is there, with the parent that it had or with the root as its parent. -/
theorem exists_node? (h : Raised a b k children tokens given) {d : Node} (hd : a.node? c = some d) :
    ∃ p, b.node? c = some { d with parent := p } := by
  by_cases hc : c ∈ given
  · exact ⟨_, h.adopted c hc d hd⟩
  · exact ⟨d.parent, (h.other c (lt_size_of_node? hd) hc).trans hd⟩

/-- **One step**: the root adopts one node more, and gets a new child list. -/
theorem relink (h : Raised a b k children tokens given) (hc : c < a.size) (cs : ChildList) :
    Raised a (b.relink a.size cs c (some a.size)) k cs tokens (given ++ [c]) := by
  obtain ⟨d, hd⟩ := exists_node?_of_lt hc
  obtain ⟨p, hp⟩ := h.exists_node? hd
  have hne : c ≠ a.size := Nat.ne_of_lt hc
  have hlook := node?_relink h.root hp hne cs (some a.size)
  constructor
  case size_eq => rw [size_relink, h.size_eq]
  case root => rw [hlook, if_pos rfl]
  case token =>
    intro i t ht
    rw [hlook, if_neg (by omega), if_neg (by omega)]
    exact h.token i t ht
  case adopted =>
    intro m hm e he
    have hma := lt_size_of_node? he
    rw [hlook, if_neg (by omega)]
    by_cases hmc : m = c
    · subst hmc
      obtain rfl := Option.some.inj (hd.symm.trans he)
      rw [if_pos rfl]
    · rw [if_neg hmc]
      rcases List.mem_append.mp hm with hm | hm
      · exact h.adopted m hm e he
      · exact absurd (List.mem_singleton.mp hm) hmc
  case other =>
    intro m hm hnot
    rw [List.mem_append, List.mem_singleton, not_or] at hnot
    rw [hlook, if_neg (by omega), if_neg hnot.2]
    exact h.other m hm hnot.1

theorem link (h : Raised a b k children tokens given) (hc : c < a.size) (r : RoleId) :
    Raised a (b.link a.size r c) k (children ++ [⟨r, c⟩]) tokens (given ++ [c]) := by
  rw [link_eq_relink h.root]
  exact h.relink hc _

/-- A node that has not been adopted is as eligible as it was. -/
theorem eligible_iff (h : Raised a b k children tokens given) (hc : c < a.size)
    (hnot : c ∉ given) : b.Eligible r c ↔ a.Eligible r c := by
  rw [Arena.eligible_iff, Arena.eligible_iff, h.other c hc hnot]

/-- A node that has not been adopted passes the check for the new root if it is eligible. -/
theorem checkAttach_of_eligible (h : Raised a b k children tokens given) (hc : c < a.size)
    (hnot : c ∉ given) (hel : a.Eligible r c) : b.checkAttach a.size r c = .ok () := by
  obtain ⟨e, he, hroot, hadm⟩ := Arena.eligible_iff.mp ((h.eligible_iff hc hnot).mpr hel)
  exact checkAttach_of_root h.root rfl he hroot hadm (Nat.ne_of_lt hc)

/-! ### The check of all entries -/

theorem checkAttachAfter_of_eligible (h : Raised a b k children tokens []) :
    ∀ {entries : ChildList} (seen : List NodeId), (∀ x ∈ entries, x.node < a.size) →
      (∀ x ∈ entries, a.Eligible x.role x.node) → (entries.map (·.node)).Nodup →
      (∀ x ∈ entries, x.node ∉ seen) → b.checkAttachAfter a.size seen entries = .ok ()
  | [], seen, _, _, _, _ => rfl
  | x :: entries, seen, hlt, hel, hnodup, hseen => by
    rw [List.map_cons, List.nodup_cons] at hnodup
    have hx := h.checkAttach_of_eligible (hlt x List.mem_cons_self) List.not_mem_nil
      (hel x List.mem_cons_self)
    have hrest := h.checkAttachAfter_of_eligible (x.node :: seen)
      (fun y hy => hlt y (List.mem_cons_of_mem _ hy))
      (fun y hy => hel y (List.mem_cons_of_mem _ hy)) hnodup.2 (fun y hy => by
        rw [List.mem_cons, not_or]
        refine ⟨fun heq => hnodup.1 ?_, hseen y (List.mem_cons_of_mem _ hy)⟩
        exact heq ▸ List.mem_map_of_mem hy)
    rw [checkAttachAfter, if_neg (hseen x List.mem_cons_self), hx]
    exact hrest

/-- **The check** of all entries for a new root, made before any of them is adopted. -/
theorem checkAttachAll_iff (h : Raised a b k children tokens [])
    (hlt : ∀ x ∈ entries, x.node < a.size) :
    b.checkAttachAll a.size entries = .ok () ↔ a.Adoptable entries := by
  constructor
  · intro hcheck
    obtain ⟨hall, hnodup⟩ := attachable_of_checkAttachAll hcheck
    refine ⟨hnodup, fun x hx => ?_⟩
    rw [← h.eligible_iff (hlt x hx) List.not_mem_nil]
    exact Arena.eligible_iff.mpr (hall x hx).root
  · rintro ⟨hnodup, hel⟩
    exact h.checkAttachAfter_of_eligible [] hlt hel hnodup fun x _ => List.not_mem_nil

end Raised

end Arena

namespace Edit

open Arena

variable {a b : Arena} {k : Kind} {children entries : ChildList} {tokens : List Token}
  {given done : List NodeId} {c : Nat}

/-! ### Adopting one node after the other -/

/-- **A loop** over the list `all` comes to its end if each round does, and keeps what each round
keeps, which may depend on the entries that are `done`. -/
theorem exists_forM_eq_ok {α : Type} {f : α → Edit Unit} {I : List α → Arena → Prop} {all : List α}
    (hround : ∀ done x rest b, all = done ++ x :: rest → I done b →
      ∃ b', f x b = .ok () b' ∧ I (done ++ [x]) b') :
    ∀ {xs done : List α} {b : Arena}, all = done ++ xs → I done b →
      ∃ b', xs.forM f b = .ok () b' ∧ I all b'
  | [], done, b, hall, hb => ⟨b, rfl, by rwa [hall, List.append_nil]⟩
  | x :: xs, done, b, hall, hb => by
    obtain ⟨b₁, hfirst, h₁⟩ := hround done x xs b hall hb
    rw [List.append_cons] at hall
    obtain ⟨b', hrest, hb'⟩ := exists_forM_eq_ok hround hall h₁
    refine ⟨b', ?_, hb'⟩
    show (f x >>= _ : Edit Unit) b = _
    rw [bind_of_ok hfirst]
    exact hrest

/-- **The whole run** of a choice: the nodes are linked in turn. -/
theorem exists_linkEach_eq_ok (h : Raised a b k [] tokens []) (r : RoleId) {cs : List NodeId}
    (hlt : ∀ c ∈ cs, c < a.size) :
    ∃ b', cs.forM (link a.size r) b = .ok () b' ∧ Raised a b' k (cs.map (⟨r, ·⟩)) tokens cs := by
  refine exists_forM_eq_ok (I := fun done b' => Raised a b' k (done.map (⟨r, ·⟩)) tokens done)
    (fun done c rest b' hcs hb' => ⟨_, rfl, ?_⟩) (List.nil_append cs).symm h
  have hc : c < a.size := hlt c (hcs ▸ List.mem_append_right _ List.mem_cons_self)
  rw [List.map_append]
  exact hb'.link hc r

/-- The child list of the block `n`: the statements between the braces. -/
def braced (n : Nat) (cs : List NodeId) : ChildList :=
  ⟨.lbrace, n + 1⟩ :: cs.map (⟨.statement, ·⟩) ++ [⟨.rbrace, n + 2⟩]

/-- A new block that has adopted the statements `done`. -/
abbrev RaisedBlock (a b : Arena) (done : List NodeId) : Prop :=
  Raised a b (.statement .block) (braced a.size done) [.lbrace, .rbrace] done

theorem raisedBlock_pushBlock (a : Arena) : RaisedBlock a (pushBlock a) [] := by
  have h := ((raised_push a (.statement .block)).sprout .lbrace .lbrace).sprout .rbrace .rbrace
  rw [size_sprout, size_push] at h
  exact h

theorem insertBefore_braced {n : Nat} (hdone : ∀ x ∈ done, x < n) (c : NodeId) :
    ChildList.insertBefore ⟨.statement, c⟩ (some (n + 2)) (braced n done) =
      braced n (done ++ [c]) := by
  have hpass : ∀ x ∈ (⟨.lbrace, n + 1⟩ :: done.map (⟨.statement, ·⟩) : ChildList),
      some (n + 2) ≠ some x.node := by
    intro x hx heq
    have hnode : n + 2 = x.node := Option.some.inj heq
    rcases List.mem_cons.mp hx with rfl | hx
    · exact absurd hnode (by simp)
    · obtain ⟨m, hm, rfl⟩ := List.mem_map.mp hx
      have hlt : n + 2 < n := hnode ▸ hdone m hm
      omega
  rw [braced, ChildList.insertBefore_append _ _ hpass]
  simp [ChildList.insertBefore, braced]

namespace RaisedBlock

theorem isOpen (h : RaisedBlock a b done) : IsOpen b a.size (a.size + 2) := by
  refine ⟨⟨_, h.root, rfl, ?_⟩, _, h.token 1 .rbrace rfl, rfl, rfl⟩
  have hlbrace : RoleId.rbrace ≠ .lbrace := by decide
  have hstatement : RoleId.statement ≠ .rbrace := by decide
  refine ChildList.firstUnder?_append _ ?_
  simp [hlbrace, hstatement]

/-- **One step**: a statement that is eligible and has not been added yet is added, and comes last
before the brace. -/
theorem exists_addStatement_eq_ok (h : RaisedBlock a b done) (hdone : ∀ x ∈ done, x < a.size)
    (hc : c < a.size) (hnew : c ∉ done) (hel : a.Eligible .statement c) :
    ∃ b', addStatement a.size c b = .ok () b' ∧ RaisedBlock a b' (done ++ [c]) := by
  have hcheck := h.checkAttach_of_eligible hc hnew hel
  refine ⟨_, addStatement_of_isOpen h.isOpen h.root hcheck, ?_⟩
  rw [insertBefore_braced hdone]
  exact h.relink hc _

end RaisedBlock

/-- **The whole run** of a block: statements that may be adopted together are all added. -/
theorem exists_addAll_eq_ok {cs : List NodeId} (hlt : ∀ c ∈ cs, c < a.size) (hnodup : cs.Nodup)
    (hel : ∀ c ∈ cs, a.Eligible .statement c) :
    ∃ b, cs.forM (addStatement a.size) (pushBlock a) = .ok () b ∧ RaisedBlock a b cs := by
  refine exists_forM_eq_ok (I := fun done b => RaisedBlock a b done)
    (fun done c rest b hcs hb => ?_) (List.nil_append cs).symm (raisedBlock_pushBlock a)
  have hc : c ∈ cs := hcs ▸ List.mem_append_right _ List.mem_cons_self
  rw [hcs, List.nodup_append] at hnodup
  exact RaisedBlock.exists_addStatement_eq_ok hb
    (fun x hx => hlt x (hcs ▸ List.mem_append_left _ hx)) (hlt c hc)
    (fun hmem => hnodup.2.2 c hmem c List.mem_cons_self rfl) (hel c hc)

/-! ### The constructors -/

/-- The edit makes a node of the entries: it succeeds if and only if they may be adopted, and then
the new node has the given children and tokens, and has adopted the entries. -/
structure Adopts (a : Arena) (make : Edit NodeId) (k : Kind) (entries children : ChildList)
    (tokens : List Token) : Prop where
  succeeds_iff : make.fault? a = none ↔ a.Adoptable entries
  raised : a.Adoptable entries → ∃ b, make a = .ok a.size b ∧
    Raised a b k children tokens (entries.map (·.node))

/-- An edit that prepares a root, checks the entries, and goes on without fail if they may be
adopted. -/
theorem adopts_of_check {make : Edit NodeId} {rest : Unit → Edit NodeId} {first : Arena}
    {cs : ChildList} {ts : List Token} (hfirst : Raised a first k cs ts [])
    (hlt : ∀ x ∈ entries, x.node < a.size)
    (hmake : make a = (look (·.checkAttachAll a.size entries) >>= rest) first)
    (hrest : a.Adoptable entries → ∃ b, rest () first = .ok a.size b ∧
      Raised a b k children tokens (entries.map (·.node))) :
    Adopts a make k entries children tokens := by
  by_cases hok : a.Adoptable entries
  · obtain ⟨b, hrun, hraised⟩ := hrest hok
    have hcheck := (hfirst.checkAttachAll_iff hlt).mpr hok
    have hall : make a = .ok a.size b := by
      rw [hmake, bind_of_ok (look_of_ok hcheck), hrun]
    exact ⟨iff_of_true (fault?_of_ok hall) hok, fun _ => ⟨b, hall, hraised⟩⟩
  · cases hcheck : first.checkAttachAll a.size entries with
    | ok _ => exact absurd ((hfirst.checkAttachAll_iff hlt).mp hcheck) hok
    | error e =>
      have hfail : make a = .error e first := by
        rw [hmake, bind_of_error (look_of_error hcheck)]
      refine ⟨iff_of_false ?_ hok, fun h => absurd h hok⟩
      rw [fault?_of_error hfail]
      simp

theorem nodup_of_adoptable {r : RoleId} {cs : List NodeId}
    (h : a.Adoptable (cs.map (⟨r, ·⟩))) : cs.Nodup := by
  simpa [List.map_map, Function.comp_def] using h.nodup

theorem eligible_of_adoptable {r : RoleId} {cs : List NodeId}
    (h : a.Adoptable (cs.map (⟨r, ·⟩))) (hc : c ∈ cs) : a.Eligible r c :=
  h.eligible ⟨r, c⟩ (List.mem_map_of_mem hc)

theorem adopts_newBlockOf {cs : List NodeId} (hlt : ∀ c ∈ cs, c < a.size) :
    Adopts a (newBlockOf cs) (.statement .block) (cs.map (⟨.statement, ·⟩)) (braced a.size cs)
      [.lbrace, .rbrace] := by
  refine adopts_of_check (raisedBlock_pushBlock a) (by simpa using hlt) rfl fun hok => ?_
  obtain ⟨b, hrun, hb⟩ :=
    exists_addAll_eq_ok hlt (nodup_of_adoptable hok) fun c hc => eligible_of_adoptable hok hc
  refine ⟨b, ?_, ?_⟩
  · rw [bind_of_ok hrun]
    rfl
  · simpa [List.map_map, Function.comp_def] using hb

theorem adopts_newChoice {cs : List NodeId} (hlt : ∀ c ∈ cs, c < a.size) :
    Adopts a (newChoice cs) (.pattern .choice) (cs.map (⟨.alternative, ·⟩))
      (cs.map (⟨.alternative, ·⟩)) [] := by
  refine adopts_of_check (raised_push a _) (by simpa using hlt) rfl fun _ => ?_
  obtain ⟨b, hrun, hb⟩ := exists_linkEach_eq_ok (raised_push a (.pattern .choice)) .alternative hlt
  refine ⟨b, ?_, ?_⟩
  · rw [bind_of_ok hrun]
    rfl
  · simpa [List.map_map, Function.comp_def] using hb

theorem adopts_newBinary {l r : Nat} (hl : l < a.size) (hr : r < a.size) (op : Operator) :
    Adopts a (newBinary l op r) (.expression (.binary op)) [⟨.left, l⟩, ⟨.right, r⟩]
      [⟨.left, l⟩, ⟨.operator, a.size + 1⟩, ⟨.right, r⟩] [.operator op] := by
  have hfirst := raised_push a (.expression (.binary op))
  refine adopts_of_check hfirst (by simp [hl, hr]) rfl fun _ => ⟨_, rfl, ?_⟩
  have h := ((hfirst.link hl .left).sprout .operator (.operator op)).link hr .right
  rw [size_link, size_push] at h
  exact h

/-- A block that passes its first check passes all the checks that follow. -/
theorem exists_addStatement_after {cs done rest : List NodeId} (hlt : ∀ c ∈ cs, c < a.size)
    (hcheck : (pushBlock a).checkAttachAll a.size (cs.map (⟨.statement, ·⟩)) = .ok ())
    (hcs : cs = done ++ c :: rest) :
    ∃ b₁ b₂, done.forM (addStatement a.size) (pushBlock a) = .ok () b₁ ∧
      addStatement a.size c b₁ = .ok () b₂ := by
  have hok := ((raisedBlock_pushBlock a).checkAttachAll_iff (by simpa using hlt)).mp hcheck
  have hnodup := nodup_of_adoptable hok
  rw [hcs, List.nodup_append] at hnodup
  have hdone : ∀ x ∈ done, x ∈ cs := fun x hx => hcs ▸ List.mem_append_left _ hx
  have hc : c ∈ cs := hcs ▸ List.mem_append_right _ List.mem_cons_self
  obtain ⟨b₁, hrun, h₁⟩ := exists_addAll_eq_ok (fun x hx => hlt x (hdone x hx)) hnodup.1
    fun x hx => eligible_of_adoptable hok (hdone x hx)
  obtain ⟨b₂, hstep, -⟩ := RaisedBlock.exists_addStatement_eq_ok h₁
    (fun x hx => hlt x (hdone x hx)) (hlt c hc)
    (fun hmem => hnodup.2.2 c hmem c List.mem_cons_self rfl) (eligible_of_adoptable hok hc)
  exact ⟨b₁, b₂, hrun, hstep⟩

/-- **Constructors check once**.  A block, a choice and a binary expression are made of nodes of the
arena if and only if these are different roots, each of a category that its role takes.  The new
node then has them as children, in order and with its tokens around or between them; they have the
new node as their parent; and nothing else has changed.  When the check of a block has passed, each
of the statements can be added after the ones before it. -/
theorem constructors_check_once (a : Arena) :
    (∀ cs : List NodeId, (∀ c ∈ cs, c < a.size) →
      Adopts a (newBlockOf cs) (.statement .block) (cs.map (⟨.statement, ·⟩)) (braced a.size cs)
        [.lbrace, .rbrace] ∧
      ∀ n b, newBlock a = .ok n b → b.checkAttachAll n (cs.map (⟨.statement, ·⟩)) = .ok () →
        ∀ done c rest, cs = done ++ c :: rest → ∃ b₁ b₂,
          done.forM (addStatement n) b = .ok () b₁ ∧ addStatement n c b₁ = .ok () b₂) ∧
    (∀ cs : List NodeId, (∀ c ∈ cs, c < a.size) →
      Adopts a (newChoice cs) (.pattern .choice) (cs.map (⟨.alternative, ·⟩))
        (cs.map (⟨.alternative, ·⟩)) []) ∧
    ∀ (l : Nat) (op : Operator) (r : Nat), l < a.size → r < a.size →
      Adopts a (newBinary l op r) (.expression (.binary op)) [⟨.left, l⟩, ⟨.right, r⟩]
        [⟨.left, l⟩, ⟨.operator, a.size + 1⟩, ⟨.right, r⟩] [.operator op] := by
  refine ⟨fun cs hlt => ⟨adopts_newBlockOf hlt, ?_⟩, fun cs hlt => adopts_newChoice hlt,
    fun l op r hl hr => adopts_newBinary hl hr op⟩
  intro n b hblock hcheck done c rest hcs
  cases (newBlock_apply a).symm.trans hblock
  exact exists_addStatement_after hlt hcheck hcs

/-- The blocks `0` and `3` and the numbers `6` and `7`.  A block may adopt both blocks, in any
order, but neither of them twice; the numbers may be added, but not one to itself. -/
theorem constructors_check_once_blocks :
    let a := (Call.newLiteral (.int 2)).after ((Call.newLiteral (.int 1)).after
      (Call.newBlock.after (Call.newBlock.after .empty)))
    (∃ b, newBlockOf [3, 0] a = .ok 8 b ∧
      Raised a b (.statement .block)
        [⟨.lbrace, 9⟩, ⟨.statement, 3⟩, ⟨.statement, 0⟩, ⟨.rbrace, 10⟩] [.lbrace, .rbrace] [3, 0]) ∧
      a.Adoptable [⟨.statement, 3⟩, ⟨.statement, 0⟩] ∧
      ¬ a.Adoptable [⟨.statement, 3⟩, ⟨.statement, 0⟩, ⟨.statement, 3⟩] ∧
      a.Adoptable [⟨.alternative, 3⟩, ⟨.alternative, 6⟩] ∧
      a.Adoptable [⟨.left, 7⟩, ⟨.right, 6⟩] ∧ ¬ a.Adoptable [⟨.left, 7⟩, ⟨.right, 7⟩] := by
  intro a
  obtain ⟨hblock, hchoice, hbinary⟩ := constructors_check_once a
  have hboth := (hblock [3, 0] (by decide)).1
  have hok := hboth.succeeds_iff.mp (by decide +kernel)
  refine ⟨hboth.raised hok, hok, fun htwice => ?_, ?_, ?_, fun hsame => ?_⟩
  · have hnone := (hblock [3, 0, 3] (by decide)).1.succeeds_iff.mpr htwice
    exact absurd hnone (by decide +kernel)
  · exact (hchoice [3, 6] (by decide)).succeeds_iff.mp (by decide +kernel)
  · exact (hbinary 7 .add 6 (by decide) (by decide)).succeeds_iff.mp (by decide +kernel)
  · have hnone := (hbinary 7 .add 7 (by decide) (by decide)).succeeds_iff.mpr hsame
    exact absurd hnone (by decide +kernel)

end Edit

end SyntaxForest
