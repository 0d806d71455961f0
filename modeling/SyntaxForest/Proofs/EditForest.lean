import SyntaxForest.Proofs.Links

/-!
# Edits keep a forest

What the single edits write is one `relink`, or two: `putChild_of_empty`, `putChild_of_taken`,
`takeChild_of_taken`, `detach_of_place`, `replaceWith_of_place`.  What they check before is
`Attachable` (`attachable_of_checkAttach`), which is what linking asks for.  Together this gives
`keeps_setChild`, `keeps_addChild`, `keeps_insertChildBefore`, `keeps_detach` and
`keeps_replaceWith`: whatever ids these edits are given, and whether they succeed or not, a
well-formed arena stays well formed.

The unchecked edits keep a forest under conditions their callers have to see to.  For `putChild`
it is `Attachable` again (`wellFormed_putChild`).
-/

namespace SyntaxForest

namespace Arena

/-! ### Sequences of writes -/

theorem setChildren_congr {a : Arena} {n : Nat} {d : Node} {f g : ChildList → ChildList}
    (hn : a.node? n = some d) (h : f d.children = g d.children) :
    a.setChildren n f = a.setChildren n g := by
  refine ext_node? fun m => ?_
  rw [node?_setChildren, node?_setChildren]
  split_ifs with hm
  · rw [← hm, hn, Option.map_some, Option.map_some, h]
  · rfl

/-- Child lists and parents are different fields. -/
theorem setChildren_setParent (a : Arena) (n m : Nat) (f : ChildList → ChildList)
    (p : Option NodeId) :
    (a.setParent m p).setChildren n f = (a.setChildren n f).setParent m p := by
  refine ext_node? fun i => ?_
  rw [node?_setChildren, node?_setParent, node?_setParent, node?_setChildren]
  by_cases hn : n = i <;> by_cases hm : m = i <;> simp [hn, hm, Function.comp_def]

theorem setParent_comm (a : Arena) {n m : Nat} (h : n ≠ m) (p q : Option NodeId) :
    (a.setParent n p).setParent m q = (a.setParent m q).setParent n p := by
  refine ext_node? fun i => ?_
  simp only [node?_setParent]
  by_cases hn : n = i
  · subst hn
    simp [Ne.symm h]
  · simp [hn]

/-- The last child list counts. -/
theorem setChildren_setChildren (a : Arena) (n : Nat) (f : ChildList → ChildList)
    (cs : ChildList) :
    ((a.setChildren n f).setChildren n fun _ => cs) = a.setChildren n fun _ => cs := by
  refine ext_node? fun i => ?_
  simp only [node?_setChildren]
  split_ifs <;> simp [Function.comp_def]

theorem link_eq_relink {a : Arena} {n : Nat} {d : Node} (hn : a.node? n = some d) (r : RoleId)
    (c : NodeId) : a.link n r c = a.relink n (d.children ++ [⟨r, c⟩]) c (some n) :=
  congrArg (Arena.setParent · c (some n)) (setChildren_congr hn rfl)

/-- Linking changes the records of the two nodes only. -/
theorem node?_link_of_ne (a : Arena) {n c m : Nat} (r : RoleId) (hn : m ≠ n) (hc : m ≠ c) :
    (a.link n r c).node? m = a.node? m := by
  rw [link, node?_setParent, if_neg (Ne.symm hc), node?_setChildren, if_neg (Ne.symm hn)]

/-- Two changes of one child list and of two parents, written in one go. -/
theorem relink_relink (a : Arena) (n : NodeId) (cs ds : ChildList) (o c : NodeId)
    (p q : Option NodeId) :
    (a.relink n cs o p).relink n ds c q =
      ((a.setChildren n fun _ => ds).setParent o p).setParent c q := by
  rw [relink, relink, setChildren_setParent, setChildren_setChildren]

/-! ### What an attachment needs -/

/-- What has to be known of `n`, `r` and `c` before `c` is linked below `n` under `r`. -/
structure Attachable (a : Arena) (n : NodeId) (r : RoleId) (c : NodeId) : Prop where
  /-- The receiving node is there. -/
  receiver : ∃ d, a.node? n = some d
  /-- The child is a root of a category that the role takes. -/
  root : ∃ e, a.node? c = some e ∧ e.parent = none ∧ r.admits e.kind.category = true
  ne : c ≠ n
  not_above : ¬ a.Ancestor c n

theorem attachable_of_checkAttach {a : Arena} {n c : Nat} {r : RoleId}
    (h : a.checkAttach n r c = .ok ()) : a.Attachable n r c := by
  unfold checkAttach at h
  cases hc : a.node c with
  | error e => rw [hc] at h; cases h
  | ok e =>
    rw [hc] at h
    simp only [bind, Except.bind] at h
    by_cases hadm : r.admits e.kind.category = true
    · rw [if_pos hadm] at h
      cases hroot : e.parent with
      | some p => rw [hroot] at h; cases h
      | none =>
        rw [hroot] at h
        by_cases hcn : c = n
        · simp [hcn] at h
        · cases hanc : a.isAncestorOf c n with
          | error f => simp [hcn, hanc] at h
          | ok found =>
            cases found with
            | true => simp [hcn, hanc] at h
            | false =>
              have habove : ¬ a.Ancestor c n := by
                rw [← ancestor_iff_of_leadsTo hanc]
                exact Bool.false_ne_true
              exact ⟨exists_node?_of_lt (lt_size_of_leadsTo hanc),
                ⟨e, node_eq_ok_iff.mp hc, hroot, hadm⟩, hcn, habove⟩
    · rw [if_neg hadm] at h
      cases h

/-- A root without children may be attached to any other node. -/
theorem attachable_of_leaf {a : Arena} (hw : a.WellFormed) {n c : Nat} {d e : Node} {r : RoleId}
    (hn : a.node? n = some d) (hc : a.node? c = some e) (hroot : e.parent = none)
    (hleaf : e.children = []) (hadm : r.admits e.kind.category = true) (hne : c ≠ n) :
    a.Attachable n r c :=
  ⟨⟨d, hn⟩, ⟨e, hc, hroot, hadm⟩, hne, Ancestor.not_of_childless hw hc hleaf⟩

/-- A root may be attached to another root. -/
theorem attachable_of_root {a : Arena} {n c : Nat} {d e : Node} {r : RoleId}
    (hn : a.node? n = some d) (hnroot : d.parent = none) (hc : a.node? c = some e)
    (hroot : e.parent = none) (hadm : r.admits e.kind.category = true) (hne : c ≠ n) :
    a.Attachable n r c :=
  ⟨⟨d, hn⟩, ⟨e, hc, hroot, hadm⟩, hne, Ancestor.not_of_root hn hnroot⟩

/-- A root that the role takes passes the check for another root. -/
theorem checkAttach_of_root {a : Arena} {n c : Nat} {d e : Node} {r : RoleId}
    (hn : a.node? n = some d) (hnroot : d.parent = none) (hc : a.node? c = some e)
    (hroot : e.parent = none) (hadm : r.admits e.kind.category = true) (hne : c ≠ n) :
    a.checkAttach n r c = .ok () := by
  have hanc : a.isAncestorOf c n = .ok false := leadsTo_succ_of_root hn hnroot c a.size
  unfold checkAttach
  rw [node_of_node? hc]
  simp only [bind, Except.bind, hadm, if_true, hroot, if_neg hne, hanc]
  rfl

/-- Linking a child at the end of the list. -/
theorem wellFormed_link {a : Arena} (hw : a.WellFormed) {n c : Nat} {d : Node} {r : RoleId}
    (h : a.Attachable n r c) (hn : a.node? n = some d)
    (hsingle : r.cardinality = .single → r ∉ d.children.map (·.role)) :
    (a.link n r c).WellFormed := by
  obtain ⟨e, hc, hroot, hadm⟩ := h.root
  rw [link_eq_relink hn]
  exact wellFormed_relink_some hw hn hc hroot h.ne h.not_above (List.append_nil _).symm hadm hsingle

/-- Linking a child before the anchor, or at the end if the anchor is not in the list. -/
theorem wellFormed_relink_insertBefore {a : Arena} (hw : a.WellFormed) {n c : Nat} {d : Node}
    {r : RoleId} (h : a.Attachable n r c) (hn : a.node? n = some d)
    (hsingle : r.cardinality = .single → r ∉ d.children.map (·.role)) (anchor : Option NodeId) :
    (a.relink n (ChildList.insertBefore ⟨r, c⟩ anchor d.children) c (some n)).WellFormed := by
  obtain ⟨e, hc, hroot, hadm⟩ := h.root
  obtain ⟨before, after, hd, hins⟩ := ChildList.exists_insertBefore ⟨r, c⟩ anchor d.children
  rw [hins]
  exact wellFormed_relink_some hw hn hc hroot h.ne h.not_above hd hadm hsingle

end Arena

namespace Edit

open Arena

/-! ### What the single edits write -/

section Writes

variable {a : Arena} {n : Nat} {d : Node} {r : RoleId}

/-- A slot that is empty gets its child before the anchor. -/
theorem putChild_of_empty (hn : a.node? n = some d) (h : d.children.firstUnder? r = none)
    (c : NodeId) (anchor : Option NodeId) :
    putChild n r c anchor a =
      .ok none (a.relink n (ChildList.insertBefore ⟨r, c⟩ anchor d.children) c (some n)) := by
  have hset : a.setChildren n (ChildList.put · r c anchor) =
      a.setChildren n fun _ => ChildList.insertBefore ⟨r, c⟩ anchor d.children :=
    setChildren_congr hn (by simp only [ChildList.put, h])
  unfold putChild
  rw [bind_of_ok (look_of_ok (child?_of_node? hn r)), h, relink, ← hset]
  rfl

theorem putChild_of_none (hn : a.node? n = none) (r : RoleId) (c : NodeId)
    (anchor : Option NodeId) : putChild n r c anchor a = .error (.outOfRange a.size n) a := by
  unfold putChild
  rw [bind_of_error (look_of_error (child?_of_none hn r))]

/-- A slot that is taken gets its child in the place of the old one. -/
theorem putChild_of_taken (hn : a.node? n = some d) {before after : ChildList} {o : Nat}
    (hd : d.children = before ++ ⟨r, o⟩ :: after) (hr : r ∉ before.map (·.role))
    (c : NodeId) (anchor : Option NodeId) :
    putChild n r c anchor a =
      .ok (some o) ((a.relink n (before ++ after) o none).relink n (before ++ ⟨r, c⟩ :: after) c
        (some n)) := by
  have hfirst : d.children.firstUnder? r = some o := by
    rw [hd, ChildList.firstUnder?_append o hr]
  have hset : a.setChildren n (ChildList.put · r c anchor) =
      a.setChildren n fun _ => before ++ ⟨r, c⟩ :: after := by
    refine setChildren_congr hn ?_
    simp only [ChildList.put, hfirst]
    rw [hd, ChildList.replaceUnder_append c hr]
  unfold putChild
  rw [bind_of_ok (look_of_ok (child?_of_node? hn r)), hfirst, relink_relink, ← hset]
  rfl

theorem takeChild_of_empty (hn : a.node? n = some d) (h : d.children.firstUnder? r = none) :
    takeChild n r a = .ok none a := by
  unfold takeChild
  rw [bind_of_ok (look_of_ok (child?_of_node? hn r)), h]
  rfl

/-- Emptying a slot takes its entry out of the list. -/
theorem takeChild_of_taken (hn : a.node? n = some d) {o : Nat}
    (h : d.children.firstUnder? r = some o) :
    ∃ before after, d.children = before ++ ⟨r, o⟩ :: after ∧
      takeChild n r a = .ok (some o) (a.relink n (before ++ after) o none) := by
  obtain ⟨before, after, hd, hr⟩ := ChildList.exists_of_firstUnder? h
  refine ⟨before, after, hd, ?_⟩
  have hset : a.setChildren n (ChildList.eraseUnder · r) =
      a.setChildren n fun _ => before ++ after :=
    setChildren_congr hn (by rw [hd, ChildList.eraseUnder_append hr])
  unfold takeChild
  rw [bind_of_ok (look_of_ok (child?_of_node? hn r)), h, relink, ← hset]
  rfl

/-- What has passed the check is put before the anchor in a list. -/
theorem insertChildBefore_of_many {c anchor : Nat} (hr : r.isMany = true)
    (hparent : a.parent? anchor = .ok (some n)) (hn : a.node? n = some d)
    (hcheck : a.checkAttach n r c = .ok ()) :
    insertChildBefore n anchor r c a = .ok none
      (a.relink n (ChildList.insertBefore ⟨r, c⟩ (some anchor) d.children) c (some n)) := by
  have hset : a.setChildren n (ChildList.insertBefore ⟨r, c⟩ (some anchor)) =
      a.setChildren n fun _ => ChildList.insertBefore ⟨r, c⟩ (some anchor) d.children :=
    setChildren_congr hn rfl
  unfold insertChildBefore
  rw [bind_of_ok (look_of_ok hparent), if_pos rfl, bind_of_ok (look_of_ok hcheck), if_pos hr, relink,
    ← hset]
  rfl

/-- What has passed the check is put before the anchor, or takes its slot if the slot is taken. -/
theorem insertChildBefore_of_single {c anchor : Nat} (hr : r.isMany = false)
    (hparent : a.parent? anchor = .ok (some n)) (hcheck : a.checkAttach n r c = .ok ()) :
    insertChildBefore n anchor r c a = putChild n r c (some anchor) a := by
  unfold insertChildBefore
  rw [bind_of_ok (look_of_ok hparent), if_pos rfl, bind_of_ok (look_of_ok hcheck),
    if_neg (by simp [hr])]

/-- What is put before an anchor has passed the check, and the anchor is a child. -/
theorem checkAttach_of_insertChildBefore {c anchor : Nat} {v : Option NodeId} {b : Arena}
    (h : insertChildBefore n anchor r c a = .ok v b) :
    a.parent? anchor = .ok (some n) ∧ a.checkAttach n r c = .ok () := by
  obtain ⟨parent, a₁, hlook, hrest⟩ := bind_eq_ok h
  obtain ⟨hparent, rfl⟩ := look_eq_ok hlook
  by_cases hp : parent = some n
  · rw [if_pos hp] at hrest
    obtain ⟨_, a₂, hcheck, -⟩ := bind_eq_ok hrest
    exact ⟨by rw [hparent, hp], (look_eq_ok hcheck).1⟩
  · rw [if_neg hp] at hrest
    cases hrest

/-- Detaching takes the node's entry out of its parent's list. -/
theorem detach_of_place {place : Place} (h : a.place? n = .ok (some place)) :
    detach n a =
      .ok (some place.role) (a.relink place.parent (place.before ++ place.after) n none) := by
  unfold detach
  rw [bind_of_ok (look_of_ok h)]
  rfl

/-- A root is a root already. -/
theorem detach_of_root (h : a.parent? n = .ok none) : detach n a = .ok none a := by
  rw [detach, bind_of_ok (look_of_ok (place?_of_root h))]
  rfl

/-- Replacing puts the new node's entry where the old one's was. -/
theorem replaceWith_of_place {y : Nat} {place : Place} (hne : n ≠ y)
    (h : a.place? n = .ok (some place))
    (hcheck : a.checkAttach place.parent place.role y = .ok ()) :
    replaceWith n y a =
      .ok () ((a.relink place.parent (place.before ++ place.after) n none).relink place.parent
        (place.before ++ ⟨place.role, y⟩ :: place.after) y (some place.parent)) := by
  unfold replaceWith
  rw [if_neg hne, bind_of_ok (look_of_ok h)]
  show (look _ >>= _ : Edit Unit) a = _
  rw [bind_of_ok (look_of_ok hcheck), relink_relink, setParent_comm _ hne]
  rfl

/-- What takes the place of another node has passed the check. -/
theorem checkAttach_of_replaceWith {y : Nat} {place : Place} {b : Arena} (hne : n ≠ y)
    (hplace : a.place? n = .ok (some place)) (h : replaceWith n y a = .ok () b) :
    a.checkAttach place.parent place.role y = .ok () := by
  unfold replaceWith at h
  rw [if_neg hne, bind_of_ok (look_of_ok hplace)] at h
  obtain ⟨_, a₁, hcheck, -⟩ := bind_eq_ok h
  exact (look_eq_ok hcheck).1

end Writes

/-! ### The unchecked edits -/

/-- **Occupying a slot** keeps a forest if the child may be attached. -/
theorem wellFormed_putChild {a : Arena} (hw : a.WellFormed) {n c : Nat} {r : RoleId}
    (h : a.Attachable n r c) (anchor : Option NodeId) :
    ((putChild n r c anchor).after a).WellFormed := by
  obtain ⟨d, hn⟩ := h.receiver
  cases hfirst : d.children.firstUnder? r with
  | none =>
    rw [after_of_ok (putChild_of_empty hn hfirst c anchor)]
    exact wellFormed_relink_insertBefore hw h hn
      (fun _ => ChildList.firstUnder?_eq_none_iff.mp hfirst) anchor
  | some o =>
    obtain ⟨e, hc, hroot, hadm⟩ := h.root
    obtain ⟨before, after, hd, hr⟩ := ChildList.exists_of_firstUnder? hfirst
    rw [after_of_ok (putChild_of_taken hn hd hr c anchor)]
    exact wellFormed_relink_relink hw hn hc hroot h.ne h.not_above hd hadm

theorem keeps_takeChild (n : NodeId) (r : RoleId) : Keeps WellFormed (takeChild n r) := by
  intro a hw
  cases hn : a.node? n with
  | none =>
    have hout : a.child? n r = .error (.outOfRange a.size n) := by
      simp [child?, children, node, hn, bind, Except.bind]
    unfold takeChild
    rwa [after_bind_of_error (look_of_error hout)]
  | some d =>
    cases hfirst : d.children.firstUnder? r with
    | none => rwa [after_of_ok (takeChild_of_empty hn hfirst)]
    | some o =>
      obtain ⟨before, after, hd, htake⟩ := takeChild_of_taken hn hfirst
      rw [after_of_ok htake]
      exact wellFormed_relink_none hw hn hd

theorem keeps_alloc (k : Kind) : Keeps WellFormed (alloc k) := fun _ hw => wellFormed_push hw k

/-! ### The checked edits -/

theorem keeps_setChild (n : NodeId) (r : RoleId) (child : Option NodeId) :
    Keeps WellFormed (setChild n r child) := by
  unfold setChild
  split_ifs with hmany
  · exact keeps_throw _
  · cases child with
    | none => exact keeps_takeChild n r
    | some c =>
      refine keeps_bind (keeps_look _) fun current => ?_
      split_ifs
      · exact keeps_pure _
      · intro a hw
        exact after_look_bind hw fun _ hcheck =>
          wellFormed_putChild hw (attachable_of_checkAttach hcheck) none

theorem keeps_addChild (n : NodeId) (r : RoleId) (c : NodeId) :
    Keeps WellFormed (addChild n r c) := by
  unfold addChild
  split_ifs with hmany
  · intro a hw
    refine after_look_bind hw fun _ hcheck => ?_
    have hat := attachable_of_checkAttach hcheck
    obtain ⟨d, hn⟩ := hat.receiver
    refine wellFormed_link hw hat hn fun hsingle => ?_
    simp [RoleId.isMany, hsingle] at hmany
  · exact keeps_throw _

theorem keeps_insertChildBefore (n anchor : NodeId) (r : RoleId) (c : NodeId) :
    Keeps WellFormed (insertChildBefore n anchor r c) := by
  intro a hw
  cases hparent : a.parent? anchor with
  | error e =>
    unfold insertChildBefore
    rwa [after_bind_of_error (look_of_error hparent)]
  | ok p =>
    by_cases hp : p = some n
    · subst hp
      cases hcheck : a.checkAttach n r c with
      | error e =>
        unfold insertChildBefore
        rwa [after_bind_of_ok (look_of_ok hparent), if_pos rfl,
          after_bind_of_error (look_of_error hcheck)]
      | ok _ =>
        have hat := attachable_of_checkAttach hcheck
        cases hmany : r.isMany with
        | true =>
          obtain ⟨d, hn⟩ := hat.receiver
          rw [after_of_ok (insertChildBefore_of_many hmany hparent hn hcheck)]
          refine wellFormed_relink_insertBefore hw hat hn (fun hsingle => ?_) (some anchor)
          simp [RoleId.isMany, hsingle] at hmany
        | false =>
          rw [after, insertChildBefore_of_single hmany hparent hcheck, ← after]
          exact wellFormed_putChild hw hat (some anchor)
    · unfold insertChildBefore
      rwa [after_bind_of_ok (look_of_ok hparent), if_neg hp]

theorem keeps_detach (n : NodeId) : Keeps WellFormed (detach n) := by
  intro a hw
  cases hplace : a.place? n with
  | error e =>
    unfold detach
    rwa [after_bind_of_error (look_of_error hplace)]
  | ok place =>
    cases place with
    | none =>
      unfold detach
      rwa [after_bind_of_ok (look_of_ok hplace)]
    | some place =>
      obtain ⟨e, he, hchildren⟩ := place?_eq_ok_some hplace
      rw [after_of_ok (detach_of_place hplace)]
      exact wellFormed_relink_none hw he hchildren

theorem keeps_replaceWith (x y : NodeId) : Keeps WellFormed (replaceWith x y) := by
  intro a hw
  by_cases hxy : x = y
  · unfold replaceWith
    rwa [if_pos hxy]
  · cases hplace : a.place? x with
    | error e =>
      unfold replaceWith
      rwa [if_neg hxy, after_bind_of_error (look_of_error hplace)]
    | ok place =>
      cases place with
      | none =>
        unfold replaceWith
        rwa [if_neg hxy, after_bind_of_ok (look_of_ok hplace)]
      | some place =>
        cases hcheck : a.checkAttach place.parent place.role y with
        | error e =>
          unfold replaceWith
          rw [if_neg hxy, after_bind_of_ok (look_of_ok hplace)]
          rwa [after_bind_of_error (look_of_error hcheck)]
        | ok _ =>
          have hat := attachable_of_checkAttach hcheck
          obtain ⟨d, hd, hchildren⟩ := place?_eq_ok_some hplace
          obtain ⟨e, hy, hroot, hadm⟩ := hat.root
          rw [after_of_ok (replaceWith_of_place hxy hplace hcheck)]
          exact wellFormed_relink_relink hw hd hy hroot hat.ne hat.not_above hchildren hadm

end Edit

end SyntaxForest
