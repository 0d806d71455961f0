import SyntaxForest.Proofs.Acceptance

/-!
# Edits can be taken back

An edit that is made of `relink`s is taken back by the `relink`s that write the old child list and
the old parents (`relink_relink_self`).  So what is left to show of the edit that is to take it back
is that it makes these `relink`s: that the check lets the child pass, and that it puts the entry
where it was.

* A node that was cut out of a child list is a root then, of a category that its role takes, and not
  above its former parent, since it was below it.  So it may come back (`attachable_relink_none`).
* This is not changed by another node that has taken its place (`checkAttach_relink_some`), since
  what is above the parent is the same.
* The entry comes back right before the one that followed it.  Nothing followed it if it was the
  last, and then adding puts it at the end.  A role that takes a single child has none after the cut
  (`WellFormed.not_mem_roles_of_single`).
-/

namespace SyntaxForest

namespace ChildList

/-- An entry goes right before the first entry of the anchor. -/
theorem insertBefore_append_cons {before after : ChildList} (entry x : Child)
    (h : x.node ∉ before.map (·.node)) :
    insertBefore entry (some x.node) (before ++ x :: after) = before ++ entry :: x :: after := by
  rw [insertBefore_append, insertBefore, if_pos rfl]
  intro y hy heq
  exact h (List.mem_map.mpr ⟨y, hy, (Option.some.inj heq).symm⟩)

/-- An entry goes to the end if there is no anchor. -/
theorem insertBefore_none (entry : Child) (cs : ChildList) :
    insertBefore entry none cs = cs ++ [entry] := by
  have h : insertBefore entry none (cs ++ []) = cs ++ insertBefore entry none [] :=
    insertBefore_append entry [] (by simp)
  rwa [List.append_nil] at h

end ChildList

namespace Arena

variable {a b : Arena} {p x o c : Nat} {d e : Node} {r : RoleId} {before after : ChildList}

/-! ### Writing back -/

/-- The old child list and the old parent give back the arena. -/
theorem relink_relink_self (hp : a.node? p = some d) (hx : a.node? x = some e) (hne : x ≠ p)
    (cs : ChildList) (q : Option NodeId) :
    (a.relink p cs x q).relink p d.children x e.parent = a := by
  have hlook := node?_relink hp hx hne cs q
  have hp' : (a.relink p cs x q).node? p = some { d with children := cs } := by
    rw [hlook, if_pos rfl]
  have hx' : (a.relink p cs x q).node? x = some { e with parent := q } := by
    rw [hlook, if_neg hne, if_pos rfl]
  refine ext_node? fun m => ?_
  rw [node?_relink hp' hx' hne, hlook]
  split_ifs with hmp hmx
  · rw [hmp, hp]
  · rw [hmx, hx]
  · rfl

/-! ### Cutting out and coming back -/

/-- What was cut out may come back. -/
theorem attachable_relink_none (hw : a.WellFormed) (hp : a.node? p = some d)
    (hd : d.children = before ++ ⟨r, x⟩ :: after) :
    (a.relink p (before ++ after) x none).Attachable p r x := by
  have hmem : (⟨r, x⟩ : Child) ∈ d.children := by simp [hd]
  obtain ⟨e, hx, -, hne⟩ := exists_node?_of_listed hw hp hmem
  have hlook := node?_relink hp hx hne (before ++ after) none
  have hadm := hw.admitted p d ⟨r, x⟩ e hp hmem hx
  refine ⟨⟨_, by rw [hlook, if_pos rfl]⟩,
    ⟨{ e with parent := none }, by rw [hlook, if_neg hne, if_pos rfl], rfl, hadm⟩, hne, ?_⟩
  intro habove
  exact hw.not_ancestor_of_listed hp hmem (ancestor_relink_none hp hx hne habove)

theorem WellFormed.checkAttach_of_attachable (hw : a.WellFormed) (h : a.Attachable p r c) :
    a.checkAttach p r c = .ok () := by
  obtain ⟨d, hp⟩ := h.receiver
  refine hw.checkAttach_of_not_atOrBelow (lt_size_of_node? hp) (eligible_iff.mpr h.root) ?_
  rintro (heq | habove)
  · exact h.ne heq.symm
  · exact h.not_above habove

/-- The arena `b` is `a` without the node `x`, which was below `p` under `r`.  Each way to attach
`x` there again gives `a`: before the node that followed it, or else at the end. -/
structure PutBack (a b : Arena) (p : NodeId) (r : RoleId) (x : NodeId) : Prop where
  sibling : ∃ s, a.nextSibling? x = .ok s
  before : ∀ s, a.nextSibling? x = .ok (some s) → Edit.insertChildBefore p s r x b = .ok none a
  last_many : a.nextSibling? x = .ok none → r.isMany = true → Edit.addChild p r x b = .ok () a
  last_single : a.nextSibling? x = .ok none → r.isMany = false →
    Edit.setChild p r (some x) b = .ok none a

theorem nextSibling?_of_listed (hw : a.WellFormed) (hp : a.node? p = some d)
    (hd : d.children = before ++ ⟨r, x⟩ :: after) :
    a.nextSibling? x = .ok (after.head?.map (·.node)) := by
  rw [nextSibling?, place?_of_listed hw hp hd]
  rfl

/-- **Cutting out** can be taken back. -/
theorem putBack_relink_none (hw : a.WellFormed) (hp : a.node? p = some d)
    (hd : d.children = before ++ ⟨r, x⟩ :: after) :
    a.PutBack (a.relink p (before ++ after) x none) p r x := by
  obtain ⟨e, hx, hparent, hne⟩ := exists_node?_of_listed hw hp (c := x) (r := r) (by simp [hd])
  have hcut := wellFormed_relink_none hw hp hd
  have hp' := node?_relink_self hp hne (before ++ after) none
  have hcheck := hcut.checkAttach_of_attachable (attachable_relink_none hw hp hd)
  have hback : (a.relink p (before ++ after) x none).relink p (before ++ ⟨r, x⟩ :: after) x
      (some p) = a := by
    have h := relink_relink_self hp hx hne (before ++ after) none
    rwa [hd, hparent] at h
  have hempty : r.isMany = false → ChildList.firstUnder? (before ++ after) r = none := fun hr =>
    ChildList.firstUnder?_eq_none_iff.mpr
      (hw.not_mem_roles_of_single hp hd (RoleId.cardinality_of_isMany_false hr))
  have hnext := nextSibling?_of_listed hw hp hd
  constructor
  case sibling => exact ⟨_, hnext⟩
  case before =>
    intro s hs
    cases after with
    | nil => cases hnext.symm.trans hs
    | cons y after =>
      obtain rfl : y.node = s := Option.some.inj (Except.ok.inj (hnext.symm.trans hs))
      -- the sibling is still listed, and once only
      obtain ⟨f, hf, hfp, -⟩ :=
        exists_node?_of_listed hcut hp' (c := y.node) (r := y.role) (by simp)
      have hsibling := parent?_eq_ok_iff.mpr ⟨f, hf, hfp⟩
      have hfresh : y.node ∉ before.map (·.node) := by
        have honce := hw.listed_once p d hp
        rw [hd, List.map_append, List.nodup_append] at honce
        exact fun hmem => honce.2.2 _ hmem _ (by simp) rfl
      have hplace : ChildList.insertBefore ⟨r, x⟩ (some y.node) (before ++ y :: after) =
          before ++ ⟨r, x⟩ :: y :: after := ChildList.insertBefore_append_cons _ y hfresh
      cases hr : r.isMany with
      | true => rw [Edit.insertChildBefore_of_many hr hsibling hp' hcheck, hplace, hback]
      | false =>
        rw [Edit.insertChildBefore_of_single hr hsibling hcheck,
          Edit.putChild_of_empty hp' (hempty hr), hplace, hback]
  case last_many =>
    intro hs hr
    cases after with
    | cons y after => cases hnext.symm.trans hs
    | nil =>
      have hlink := link_eq_relink hp' r x
      rw [List.append_nil] at hlink hback hcheck ⊢
      rw [hback] at hlink
      unfold Edit.addChild
      rw [if_pos hr, Edit.bind_of_ok (Edit.look_of_ok hcheck)]
      exact congrArg (EStateM.Result.ok ()) hlink
  case last_single =>
    intro hs hr
    cases after with
    | cons y after => cases hnext.symm.trans hs
    | nil =>
      have hnone := hempty hr
      have hchild := child?_of_node? hp' r
      rw [show ({ d with children := before ++ [] } : Node).children.firstUnder? r = none
        from hnone] at hchild
      rw [Edit.setChild_of_single hr, Edit.bind_of_ok (Edit.look_of_ok hchild), if_neg (by simp),
        Edit.bind_of_ok (Edit.look_of_ok hcheck), Edit.putChild_of_empty hp' hnone,
        ChildList.insertBefore_none, List.append_assoc, List.nil_append, hback]

/-! ### Replacing and replacing again -/

/-- A node that may be attached to `p` still may, after another was. -/
theorem checkAttach_relink_some {s : RoleId} {cs : ChildList} (ho : a.Attachable p r o)
    (hc : a.Attachable p s c) (hoc : o ≠ c) (hw : (a.relink p cs c (some p)).WellFormed) :
    (a.relink p cs c (some p)).checkAttach p r o = .ok () := by
  obtain ⟨d, hp⟩ := hc.receiver
  obtain ⟨e, he, -⟩ := hc.root
  obtain ⟨f, hf, hroot, hadm⟩ := ho.root
  have hlook := node?_relink hp he hc.ne cs (some p)
  refine hw.checkAttach_of_attachable ⟨⟨_, by rw [hlook, if_pos rfl]⟩,
    ⟨f, by rw [hlook, if_neg ho.ne, if_neg hoc, hf], hroot, hadm⟩, ho.ne, fun habove => ?_⟩
  rcases ancestor_relink_some hp he hc.ne hc.not_above habove with hold | ⟨heq | hold, -⟩
  · exact ho.not_above hold
  · exact ho.ne heq
  · exact ho.not_above hold

/-- The arena `b` is `a` with `c` in the place of `o`, and `o` may take its place again. -/
structure Swapped (a b : Arena) (p : NodeId) (before : ChildList) (r : RoleId) (after : ChildList)
    (o c : NodeId) : Prop where
  wellFormed : b.WellFormed
  listed : ∃ d, b.node? p = some d ∧ d.children = before ++ ⟨r, c⟩ :: after
  check : b.checkAttach p r o = .ok ()
  back : (b.relink p (before ++ after) c none).relink p (before ++ ⟨r, o⟩ :: after) o (some p) = a

/-- **Replacing** can be taken back. -/
theorem swapped_relink_relink (hw : a.WellFormed) (hp : a.node? p = some d)
    (hd : d.children = before ++ ⟨r, o⟩ :: after) (hc : a.Attachable p r c) :
    a.Swapped ((a.relink p (before ++ after) o none).relink p (before ++ ⟨r, c⟩ :: after) c
      (some p)) p before r after o c := by
  obtain ⟨e, he, hroot, hadm⟩ := hc.root
  obtain ⟨f, hf, hparent, hne⟩ := exists_node?_of_listed hw hp (c := o) (r := r) (by simp [hd])
  have hoc : o ≠ c := by
    rintro rfl
    cases he.symm.trans hf
    cases hroot.symm.trans hparent
  -- the arena with neither of the two below `p`
  have hlook := node?_relink hp hf hne (before ++ after) none
  have hp' := node?_relink_self hp hne (before ++ after) none
  have he' : (a.relink p (before ++ after) o none).node? c = some e := by
    rw [hlook, if_neg hc.ne, if_neg (Ne.symm hoc), he]
  have hc' : (a.relink p (before ++ after) o none).Attachable p r c :=
    ⟨⟨_, hp'⟩, ⟨e, he', hroot, hadm⟩, hc.ne,
      fun habove => hc.not_above (ancestor_relink_none hp hf hne habove)⟩
  have hboth := wellFormed_relink_relink hw hp he hroot hc.ne hc.not_above hd hadm
  refine ⟨hboth, ⟨_, node?_relink_self hp' hc.ne _ _, rfl⟩,
    checkAttach_relink_some (attachable_relink_none hw hp hd) hc' hoc hboth, ?_⟩
  have hout := relink_relink_self hp' he' hc.ne (before ++ ⟨r, c⟩ :: after) (some p)
  have hback := relink_relink_self hp hf hne (before ++ after) none
  rw [hroot] at hout
  rw [hout]
  rwa [hd, hparent] at hback

end Arena

/-! ### The edits -/

namespace Edit

open Arena

variable {a b : Arena} {n : Nat} {r : RoleId}

theorem isMany_of_setChild {child v : Option NodeId} (h : setChild n r child a = .ok v b) :
    r.isMany = false := by
  cases hr : r.isMany with
  | false => rfl
  | true =>
    unfold setChild at h
    rw [if_pos hr] at h
    cases h

theorem setChild_back (hw : a.WellFormed) {new old : Nat}
    (h : setChild n r (some new) a = .ok (some old) b) :
    setChild n r (some old) b = .ok (some new) a := by
  have hr := isMany_of_setChild h
  rw [setChild_of_single hr] at h
  obtain ⟨current, a₁, hlook, hrest⟩ := bind_eq_ok h
  obtain ⟨hcurrent, rfl⟩ := look_eq_ok hlook
  obtain ⟨d, hn, -⟩ := child?_eq_ok_iff.mp hcurrent
  split_ifs at hrest
  · cases hrest
  · obtain ⟨_, a₂, hcheck, hput⟩ := bind_eq_ok hrest
    obtain ⟨hcheck, rfl⟩ := look_eq_ok hcheck
    have hat := attachable_of_checkAttach hcheck
    cases hfirst : d.children.firstUnder? r with
    | none =>
      rw [putChild_of_empty hn hfirst] at hput
      cases hput
    | some o =>
      obtain ⟨before, after, hd, hbefore⟩ := ChildList.exists_of_firstUnder? hfirst
      rw [putChild_of_taken hn hd hbefore] at hput
      obtain ⟨hold, hb⟩ := EStateM.Result.ok.inj hput
      obtain rfl := Option.some.inj hold
      have hswap := swapped_relink_relink hw hn hd hat
      rw [hb] at hswap
      obtain ⟨d', hn', hd'⟩ := hswap.listed
      have hchild := child?_of_node? hn' r
      rw [hd', ChildList.firstUnder?_append new hbefore] at hchild
      have hne : some new ≠ some o := by
        intro heq
        obtain rfl := Option.some.inj heq
        obtain ⟨e, he, hroot, -⟩ := hat.root
        obtain ⟨f, hf, hparent, -⟩ :=
          exists_node?_of_listed hw hn (ChildList.mem_of_firstUnder? hfirst)
        cases he.symm.trans hf
        cases hroot.symm.trans hparent
      rw [setChild_of_single hr, bind_of_ok (look_of_ok hchild), if_neg hne,
        bind_of_ok (look_of_ok hswap.check), putChild_of_taken hn' hd' hbefore, hswap.back]

theorem exists_place?_of_replaceWith {x y : Nat} (hne : x ≠ y)
    (h : replaceWith x y a = .ok () b) : ∃ place, a.place? x = .ok (some place) := by
  unfold replaceWith at h
  rw [if_neg hne] at h
  obtain ⟨place, a₁, hlook, hrest⟩ := bind_eq_ok h
  obtain ⟨hplace, rfl⟩ := look_eq_ok hlook
  cases place with
  | none => cases hrest
  | some place => exact ⟨place, hplace⟩

theorem replaceWith_back (hw : a.WellFormed) {x y : Nat} (hne : x ≠ y)
    (h : replaceWith x y a = .ok () b) : replaceWith y x b = .ok () a := by
  obtain ⟨place, hplace⟩ := exists_place?_of_replaceWith hne h
  obtain ⟨d, hp, hd⟩ := place?_eq_ok_some hplace
  have hcheck := checkAttach_of_replaceWith hne hplace h
  rw [replaceWith_of_place hne hplace hcheck] at h
  have hswap := swapped_relink_relink hw hp hd (attachable_of_checkAttach hcheck)
  rw [(EStateM.Result.ok.inj h).2] at hswap
  obtain ⟨d', hp', hd'⟩ := hswap.listed
  have hplace' := place?_of_listed hswap.wellFormed hp' hd'
  rw [replaceWith_of_place (Ne.symm hne) hplace' hswap.check, hswap.back]

theorem putBack_of_takeChild (hw : a.WellFormed) {x : Nat} (h : takeChild n r a = .ok (some x) b) :
    a.PutBack b n r x := by
  obtain ⟨old, a₁, hlook, -⟩ := bind_eq_ok h
  obtain ⟨hold, rfl⟩ := look_eq_ok hlook
  obtain ⟨d, hn, rfl⟩ := child?_eq_ok_iff.mp hold
  cases hfirst : d.children.firstUnder? r with
  | none =>
    rw [takeChild_of_empty hn hfirst] at h
    cases h
  | some o =>
    obtain ⟨before, after, hd, htake⟩ := takeChild_of_taken hn hfirst
    rw [htake] at h
    cases h
    exact putBack_relink_none hw hn hd

theorem putBack_of_detach (hw : a.WellFormed) {x : Nat} (h : detach x a = .ok (some r) b) :
    ∃ p, a.parent? x = .ok (some p) ∧ a.PutBack b p r x := by
  obtain ⟨place, a₁, hlook, hrest⟩ := bind_eq_ok h
  obtain ⟨hplace, rfl⟩ := look_eq_ok hlook
  cases place with
  | none => cases hrest
  | some place =>
    obtain ⟨d, hp, hd⟩ := place?_eq_ok_some hplace
    obtain ⟨e, he, hparent, -⟩ := exists_node?_of_listed hw hp (c := x) (r := place.role)
      (by simp [hd])
    rw [detach_of_place hplace] at h
    cases h
    exact ⟨place.parent, parent?_eq_ok_iff.mpr ⟨e, he, hparent⟩, putBack_relink_none hw hp hd⟩

end Edit

namespace Arena

/-- **Edits can be taken back**: in every arena that calls lead to, setting the old child again
takes back the setting of a new one, replacing the other way takes back a replacement, and attaching
a node where it was takes back that it was detached or taken out of its slot.  Each of these
succeeds and gives back the very arena. -/
theorem taken_back_of_reachable {a : Arena} (h : a.Reachable) :
    (∀ (n : NodeId) (r : RoleId) (new old : NodeId) (b : Arena),
      Edit.setChild n r (some new) a = .ok (some old) b →
      Edit.setChild n r (some old) b = .ok (some new) a) ∧
    (∀ (x y : NodeId) (b : Arena), x ≠ y → Edit.replaceWith x y a = .ok () b →
      Edit.replaceWith y x b = .ok () a) ∧
    (∀ (x : NodeId) (r : RoleId) (b : Arena), Edit.detach x a = .ok (some r) b →
      ∃ p, a.parent? x = .ok (some p) ∧ a.PutBack b p r x) ∧
    ∀ (n : NodeId) (r : RoleId) (x : NodeId) (b : Arena),
      Edit.setChild n r none a = .ok (some x) b → a.PutBack b n r x := by
  have hw := h.wellFormed
  refine ⟨fun n r new old b => Edit.setChild_back hw, fun x y b hne => Edit.replaceWith_back hw hne,
    fun x r b => Edit.putBack_of_detach hw, fun n r x b hset => ?_⟩
  have hr := Edit.isMany_of_setChild hset
  unfold Edit.setChild at hset
  rw [if_neg (by simp [hr])] at hset
  exact Edit.putBack_of_takeChild hw hset

/-- The block `4` holds the statement `2` and then the goto `7`.  The goto `11` takes the place of
the statement and the statement comes back before the goto; the statement is detached, which leaves
its sibling, the goto, to put it before; and the semicolon `3` is taken out of the statement, whose
last child it is. -/
theorem taken_back_of_reachable_block :
    let a := Call.newGotoDefault.after ((Call.addStatement 4 7).after (Call.newGotoDefault.after
      ((Call.newBlockOf [2]).after ((Call.newExpressionStatement 0).after
        ((Call.newIdentifierExpression "x").after .empty)))))
    let b := (Edit.replaceWith 2 11).after a
    let c := (Edit.detach 2).after a
    let d := (Edit.setChild 2 .semicolon none).after a
    a.children 4 = .ok [⟨.lbrace, 5⟩, ⟨.statement, 2⟩, ⟨.statement, 7⟩, ⟨.rbrace, 6⟩] ∧
      b.children 4 = .ok [⟨.lbrace, 5⟩, ⟨.statement, 11⟩, ⟨.statement, 7⟩, ⟨.rbrace, 6⟩] ∧
      Edit.replaceWith 11 2 b = .ok () a ∧
      c.children 4 = .ok [⟨.lbrace, 5⟩, ⟨.statement, 7⟩, ⟨.rbrace, 6⟩] ∧
      Edit.insertChildBefore 4 7 .statement 2 c = .ok none a ∧
      d.children 2 = .ok [⟨.expression, 0⟩] ∧
      Edit.setChild 2 .semicolon (some 3) d = .ok none a := by
  intro a b c d
  have hreachable : a.Reachable := .call .newGotoDefault (.call (.addStatement 4 7)
    (.call .newGotoDefault (.call (.newBlockOf [2]) (.call (.newExpressionStatement 0)
      (.call (.newIdentifierExpression "x") .empty)))))
  obtain ⟨-, hreplaced, hdetached, htaken⟩ := taken_back_of_reachable hreachable
  have hb : Edit.replaceWith 2 11 a = .ok () b := rfl
  have hc : Edit.detach 2 a = .ok (some .statement) c := rfl
  have hd : Edit.setChild 2 .semicolon none a = .ok (some 3) d := rfl
  obtain ⟨p, hp, hback⟩ := hdetached 2 .statement c hc
  obtain rfl : p = 4 := by
    have hparent : a.parent? 2 = .ok (some 4) := by decide +kernel
    exact Option.some.inj (Except.ok.inj (hp.symm.trans hparent))
  exact ⟨by decide +kernel, by decide +kernel, hreplaced 2 11 b (by decide) hb, by decide +kernel,
    hback.before 7 (by decide +kernel), by decide +kernel,
    (htaken 2 .semicolon 3 d hd).last_single (by decide +kernel) rfl⟩

end Arena

end SyntaxForest
