import SyntaxForest.Proofs.EditFrame
import SyntaxForest.Proofs.Refusal

/-!
# Values between tokens

A statement or an identifier expression is laid out as tokens, values under one role, and at most
one token more: `Kind.layout`.  The tokens are there from the start and stay, so they are the
`Enclosure` of the values.  `Arena.Laid` says that the child list of a node is such an enclosure
with values in it, whose tokens are tokens.

There are three things that can happen to the values, and none of them disturbs the enclosure: one
is taken out (`Enclosure.Holds.erase`), another takes its place (`Enclosure.Holds.replace`), or one
is put in at the end (`Enclosure.Holds.insert`).  The last needs the right anchor, the closing
token, or none if there is no closing token.  That the setters find this anchor is
`Laid.token?_closing`.
-/

namespace SyntaxForest

/-! ### Layouts -/

/-- The roles of the children of a node in the order of the grammar: tokens, then values, all under
one role, then at most one token. -/
structure Layout where
  opening : List RoleId
  value : Option RoleId
  closing : Option RoleId

/-- The grammar of the kinds that have setters, and of the goto to the default. -/
def Kind.layout : Kind → Layout
  | .statement .goto => ⟨[.keyword], some .identifier, some .semicolon⟩
  | .statement .gotoCase => ⟨[.keyword, .caseKeyword], some .expression, some .semicolon⟩
  | .statement .gotoDefault => ⟨[.keyword, .defaultKeyword], none, some .semicolon⟩
  | .statement .label => ⟨[], some .identifier, some .colon⟩
  | .statement .block => ⟨[.lbrace], some .statement, some .rbrace⟩
  | .statement .expression => ⟨[], some .expression, some .semicolon⟩
  | .expression .identifier => ⟨[], some .identifier, none⟩
  | _ => ⟨[], none, none⟩

namespace Layout

/-- The roles of a layout are all different. -/
def Distinct (l : Layout) : Prop := (l.opening ++ l.value.toList ++ l.closing.toList).Nodup

instance (l : Layout) : Decidable l.Distinct :=
  inferInstanceAs (Decidable (l.opening ++ l.value.toList ++ l.closing.toList).Nodup)

/-- A list of roles that follows the layout.  A role for a single child occurs at most once. -/
def Reads (l : Layout) (roles : List RoleId) : Prop :=
  ∃ values, roles = l.opening ++ values ++ l.closing.toList ∧
    ∀ r ∈ values, l.value = some r ∧ (r.isMany = false → values.length = 1)

namespace Distinct

variable {l : Layout} {r : RoleId} (h : l.Distinct)
include h

theorem value_not_mem_opening (hr : l.value = some r) : r ∉ l.opening := by
  obtain ⟨hleft, -, -⟩ := List.nodup_append.mp h
  obtain ⟨-, -, hne⟩ := List.nodup_append.mp hleft
  intro hmem
  exact hne r hmem r (by simp [hr]) rfl

theorem value_ne_closing (hr : l.value = some r) : l.closing ≠ some r := by
  obtain ⟨-, -, hne⟩ := List.nodup_append.mp h
  intro hclosing
  exact hne r (by simp [hr]) r (by simp [hclosing]) rfl

theorem closing_not_mem_opening (hr : l.closing = some r) : r ∉ l.opening := by
  obtain ⟨-, -, hne⟩ := List.nodup_append.mp h
  intro hmem
  exact hne r (List.mem_append_left _ hmem) r (by simp [hr]) rfl

end Distinct

end Layout

theorem Kind.distinct_layout (k : Kind) : k.layout.Distinct := by
  cases k with
  | statement shape => cases shape <;> decide
  | expression shape =>
    cases shape with
    | identifier => decide
    | primitive value => exact List.nodup_nil
    | binary op => exact List.nodup_nil
  | token t => exact List.nodup_nil
  | identifier name => exact List.nodup_nil
  | pattern placeholder => exact List.nodup_nil

/-! ### Enclosures -/

/-- The entries of a child list that stay where they are. -/
structure Enclosure where
  opening : ChildList
  closing : Option Child

namespace Enclosure

def entries (e : Enclosure) : ChildList := e.opening ++ e.closing.toList

/-- What a new value is put before. -/
def anchor (e : Enclosure) : Option NodeId := e.closing.map (·.node)

/-- The list is the enclosure, with entries under the role `value` in it. -/
def Holds (e : Enclosure) (value : Option RoleId) (cs : ChildList) : Prop :=
  ∃ vs, cs = e.opening ++ vs ++ e.closing.toList ∧ ∀ x ∈ vs, value = some x.role

/-- The entries are under the roles that the layout has for tokens. -/
structure Fits (e : Enclosure) (l : Layout) : Prop where
  opening : e.opening.map (·.role) = l.opening
  closing : e.closing.map (·.role) = l.closing

end Enclosure

/-- An entry that is not on the sides is in the middle. -/
theorem exists_middle_of_append_eq {α : Type} {os vs cs before after : List α} {x : α}
    (h : os ++ vs ++ cs = before ++ x :: after) (hos : x ∉ os) (hcs : x ∉ cs) :
    ∃ vs₁ vs₂, vs = vs₁ ++ x :: vs₂ ∧ before = os ++ vs₁ ∧ after = vs₂ ++ cs := by
  rw [List.append_assoc, List.append_eq_append_iff] at h
  -- the left side ends no later than the entry
  have hleft : ∃ us, before = os ++ us ∧ vs ++ cs = us ++ x :: after := by
    rcases h with h | ⟨ws, rfl, hws⟩
    · exact h
    · cases ws with
      | nil => exact ⟨[], by simp, hws.symm⟩
      | cons w ws =>
        rw [List.cons_append] at hws
        obtain ⟨rfl, -⟩ := List.cons.inj hws
        simp at hos
  obtain ⟨us, rfl, hus⟩ := hleft
  rw [List.append_eq_append_iff] at hus
  rcases hus with ⟨ws, rfl, rfl⟩ | ⟨ws, rfl, hws⟩
  · simp at hcs
  · cases ws with
    | nil =>
      rw [List.nil_append] at hws
      rw [← hws] at hcs
      simp at hcs
    | cons w ws =>
      rw [List.cons_append] at hws
      obtain ⟨rfl, rfl⟩ := List.cons.inj hws
      exact ⟨us, ws, rfl, rfl, rfl⟩

namespace Enclosure

variable {e : Enclosure} {l : Layout} {value : Option RoleId} {cs before after : ChildList}
  {r : RoleId} {o : NodeId}

/-- The tokens are not under the role of the values. -/
theorem Fits.role_ne (h : e.Fits l) (hl : l.Distinct) (hr : l.value = some r) :
    ∀ x ∈ e.entries, x.role ≠ r := by
  rintro x hx rfl
  rcases List.mem_append.mp hx with hx | hx
  · apply hl.value_not_mem_opening hr
    rw [← h.opening]
    exact List.mem_map.mpr ⟨x, hx, rfl⟩
  · apply hl.value_ne_closing hr
    rw [← h.closing, Option.mem_toList.mp hx]
    rfl

/-- An entry under the role of the values is one of the values. -/
theorem Holds.exists_values (h : e.Holds l.value (before ++ ⟨r, o⟩ :: after)) (he : e.Fits l)
    (hl : l.Distinct) (hr : l.value = some r) :
    ∃ vs₁ vs₂, before = e.opening ++ vs₁ ∧ after = vs₂ ++ e.closing.toList ∧
      ∀ x ∈ vs₁ ++ vs₂, l.value = some x.role := by
  obtain ⟨vs, hvs, hrole⟩ := h
  have hout : (⟨r, o⟩ : Child) ∉ e.entries := fun hmem => he.role_ne hl hr _ hmem rfl
  obtain ⟨vs₁, vs₂, rfl, hbefore, hafter⟩ := exists_middle_of_append_eq hvs.symm
    (fun hmem => hout (List.mem_append_left _ hmem))
    (fun hmem => hout (List.mem_append_right _ hmem))
  refine ⟨vs₁, vs₂, hbefore, hafter, fun x hx => hrole x ?_⟩
  rcases List.mem_append.mp hx with hx | hx
  · exact List.mem_append_left _ hx
  · exact List.mem_append_right _ (List.mem_cons_of_mem _ hx)

/-- A value is taken out. -/
theorem Holds.erase (h : e.Holds l.value (before ++ ⟨r, o⟩ :: after)) (he : e.Fits l)
    (hl : l.Distinct) (hr : l.value = some r) : e.Holds l.value (before ++ after) := by
  obtain ⟨vs₁, vs₂, rfl, rfl, hrole⟩ := h.exists_values he hl hr
  exact ⟨vs₁ ++ vs₂, by simp, hrole⟩

/-- A value takes the place of another. -/
theorem Holds.replace (h : e.Holds l.value (before ++ ⟨r, o⟩ :: after)) (he : e.Fits l)
    (hl : l.Distinct) (hr : l.value = some r) (c : NodeId) :
    e.Holds l.value (before ++ ⟨r, c⟩ :: after) := by
  obtain ⟨vs₁, vs₂, rfl, rfl, hrole⟩ := h.exists_values he hl hr
  refine ⟨vs₁ ++ ⟨r, c⟩ :: vs₂, by simp, fun x hx => ?_⟩
  rcases List.mem_append.mp hx with hx | hx
  · exact hrole x (List.mem_append_left _ hx)
  · rcases List.mem_cons.mp hx with rfl | hx
    · exact hr
    · exact hrole x (List.mem_append_right _ hx)

/-- A value that is put before the anchor comes last. -/
theorem Holds.insertBefore_eq (h : e.Holds value cs) (hnodup : (cs.map (·.node)).Nodup)
    (entry : Child) :
    ∃ vs, cs = e.opening ++ vs ++ e.closing.toList ∧ (∀ x ∈ vs, value = some x.role) ∧
      ChildList.insertBefore entry e.anchor cs =
        e.opening ++ (vs ++ [entry]) ++ e.closing.toList := by
  obtain ⟨vs, rfl, hrole⟩ := h
  refine ⟨vs, rfl, hrole, ?_⟩
  have hpassed : ∀ x ∈ e.opening ++ vs, e.anchor ≠ some x.node := by
    intro x hx hanchor
    obtain ⟨y, hy, hxy⟩ := Option.map_eq_some_iff.mp hanchor
    rw [List.map_append] at hnodup
    obtain ⟨-, -, hne⟩ := List.nodup_append.mp hnodup
    refine hne x.node (List.mem_map.mpr ⟨x, hx, rfl⟩) y.node ?_ hxy.symm
    exact List.mem_map.mpr ⟨y, by simp [hy], rfl⟩
  rw [ChildList.insertBefore_append entry _ hpassed]
  cases hc : e.closing with
  | none => simp [ChildList.insertBefore]
  | some y => simp [ChildList.insertBefore, anchor, hc]

theorem Holds.insert (h : e.Holds value cs) (hnodup : (cs.map (·.node)).Nodup)
    (hr : value = some r) (c : NodeId) :
    e.Holds value (ChildList.insertBefore ⟨r, c⟩ e.anchor cs) := by
  obtain ⟨vs, -, hrole, hins⟩ := h.insertBefore_eq hnodup ⟨r, c⟩
  refine ⟨vs ++ [⟨r, c⟩], hins, fun x hx => ?_⟩
  rcases List.mem_append.mp hx with hx | hx
  · exact hrole x hx
  · obtain rfl := List.mem_singleton.mp hx
    exact hr

end Enclosure

/-! ### Nodes that are laid out -/

namespace Arena

/-- The child list of `n` is the enclosure, which fits the layout, with values in it; and the
tokens of the enclosure are tokens. -/
structure Laid (a : Arena) (n : NodeId) (l : Layout) (e : Enclosure) : Prop where
  fits : e.Fits l
  token : ∀ x ∈ e.entries, ∃ t, a.kind x.node = .ok (.token t)
  children : ∃ cs, a.children n = .ok cs ∧ e.Holds l.value cs

/-- The slot `r` of `n` was given to `child`, or emptied, and `displaced` is what was in it and is
in it no longer. -/
structure SlotSet (a b : Arena) (n : NodeId) (r : RoleId) (child displaced : Option NodeId) :
    Prop where
  reads : b.child? n r = .ok child
  displaced : ∃ old, a.child? n r = .ok old ∧ displaced = if old = child then none else old

theorem name?_of_child {a : Arena} {n c : Nat} {name : String}
    (hc : a.child? n .identifier = .ok (some c)) (hk : a.kind c = .ok (.identifier name)) :
    a.name? n = .ok (some name) := by
  unfold name?
  rw [hc]
  simp only [bind, Except.bind, hk]
  rfl

theorem name?_of_empty {a : Arena} {n : Nat} (hc : a.child? n .identifier = .ok none) :
    a.name? n = .ok none := by
  unfold name?
  rw [hc]
  rfl

namespace Laid

variable {a b : Arena} {n : Nat} {l : Layout} {e : Enclosure} {r : RoleId} {c : Nat}

/-- Tokens stay tokens, so only the child list has to be looked at. -/
theorem of_children (h : a.Laid n l e)
    (htoken : ∀ m t, a.kind m = .ok (.token t) → b.kind m = .ok (.token t)) {cs : ChildList}
    (hcs : b.children n = .ok cs) (hholds : e.Holds l.value cs) : b.Laid n l e where
  fits := h.fits
  token x hx := by
    obtain ⟨t, ht⟩ := h.token x hx
    exact ⟨t, htoken x.node t ht⟩
  children := ⟨cs, hcs, hholds⟩

theorem exists_node? (h : a.Laid n l e) :
    ∃ d, a.node? n = some d ∧ e.Holds l.value d.children := by
  obtain ⟨cs, hcs, hholds⟩ := h.children
  obtain ⟨d, hd, rfl⟩ := children_eq_ok_iff.mp hcs
  exact ⟨d, hd, hholds⟩

/-- The closing token is found under its role. -/
theorem token?_closing (h : a.Laid n l e) (hl : l.Distinct) {x : Child} (hx : e.closing = some x) :
    a.token? n x.role = .ok (some x.node) := by
  obtain ⟨d, hd, vs, hvs, hrole⟩ := h.exists_node?
  have hclosing : l.closing = some x.role := by rw [← h.fits.closing, hx]; rfl
  obtain ⟨t, ht⟩ := h.token x (List.mem_append_right _ (by simp [hx]))
  obtain ⟨f, hf, htoken⟩ := kind_eq_ok_iff.mp ht
  refine token?_of_node? hd ?_ hf (by rw [htoken]; rfl)
  have hnew : x.role ∉ (e.opening ++ vs).map (·.role) := by
    rw [List.map_append, List.mem_append, h.fits.opening]
    rintro (hmem | hmem)
    · exact hl.closing_not_mem_opening hclosing hmem
    · obtain ⟨y, hy, hyx⟩ := List.mem_map.mp hmem
      exact hl.value_ne_closing ((hrole y hy).trans (by rw [hyx])) hclosing
  rw [hvs, hx]
  exact ChildList.firstUnder?_append x.node hnew

/-! ### Slots -/

/-- **Filling the slot** of the value keeps the layout: in the place of the value that is there, or
before the closing token. -/
theorem putChild (hw : a.WellFormed) (h : a.Laid n l e) (hl : l.Distinct) (hr : l.value = some r)
    (hc : c ≠ n) (anchor : Option NodeId)
    (hanchor : a.child? n r = .ok none → anchor = e.anchor) :
    ∃ old b, Edit.putChild n r c anchor a = .ok old b ∧ a.child? n r = .ok old ∧ b.Laid n l e ∧
      b.child? n r = .ok (some c) := by
  obtain ⟨d, hd, hholds⟩ := h.exists_node?
  have hkeeps := fun m t =>
    (Edit.linkStable_shows (v := .token t) (apart_kind m n)).putChild (r := r) trivial c anchor
  have hchild := child?_of_node? hd r
  cases hfirst : d.children.firstUnder? r with
  | none =>
    rw [hfirst] at hchild
    obtain rfl := hanchor hchild
    have hput := Edit.putChild_of_empty hd hfirst c e.anchor
    have hb := node?_relink_self hd hc (ChildList.insertBefore ⟨r, c⟩ e.anchor d.children) (some n)
    refine ⟨none, _, hput, hchild, ?_, ?_⟩
    · exact h.of_children (fun m t => Edit.kind_of_keeps (hkeeps m t) hput) (children_of_node? hb)
        (hholds.insert (hw.listed_once n d hd) hr c)
    · rw [child?_of_node? hb]
      obtain ⟨before, after, hcs, hins⟩ := ChildList.exists_insertBefore ⟨r, c⟩ e.anchor d.children
      have hbefore : r ∉ before.map (·.role) := by
        rw [ChildList.firstUnder?_eq_none_iff, hcs, List.map_append, List.mem_append,
          not_or] at hfirst
        exact hfirst.1
      show Except.ok (ChildList.firstUnder? (ChildList.insertBefore _ _ _) r) = _
      rw [hins, ChildList.firstUnder?_append c hbefore]
  | some o =>
    rw [hfirst] at hchild
    obtain ⟨before, after, hcs, hbefore⟩ := ChildList.exists_of_firstUnder? hfirst
    obtain ⟨-, -, -, hon⟩ := exists_node?_of_listed hw hd (r := r) (c := o) (by simp [hcs])
    have hput := Edit.putChild_of_taken hd hcs hbefore c anchor
    have hb := node?_relink_self (node?_relink_self hd hon (before ++ after) none) hc
      (before ++ ⟨r, c⟩ :: after) (some n)
    refine ⟨some o, _, hput, hchild, ?_, ?_⟩
    · rw [hcs] at hholds
      exact h.of_children (fun m t => Edit.kind_of_keeps (hkeeps m t) hput) (children_of_node? hb)
        (hholds.replace h.fits hl hr c)
    · rw [child?_of_node? hb]
      exact congrArg Except.ok (ChildList.firstUnder?_append c hbefore)

/-- **Emptying the slot** of the value keeps the layout. -/
theorem takeChild (hw : a.WellFormed) (h : a.Laid n l e) (hl : l.Distinct) (hr : l.value = some r)
    (hsingle : r.cardinality = .single) :
    ∃ old b, Edit.takeChild n r a = .ok old b ∧ a.child? n r = .ok old ∧ b.Laid n l e ∧
      b.child? n r = .ok none := by
  obtain ⟨d, hd, hholds⟩ := h.exists_node?
  have hchild := child?_of_node? hd r
  cases hfirst : d.children.firstUnder? r with
  | none =>
    rw [hfirst] at hchild
    exact ⟨none, a, Edit.takeChild_of_empty hd hfirst, hchild, h, hchild⟩
  | some o =>
    rw [hfirst] at hchild
    obtain ⟨before, after, hcs, htake⟩ := Edit.takeChild_of_taken hd hfirst
    obtain ⟨-, -, -, hon⟩ := exists_node?_of_listed hw hd (r := r) (c := o) (by simp [hcs])
    have hb := node?_relink_self hd hon (before ++ after) none
    refine ⟨some o, _, htake, hchild, ?_, ?_⟩
    · rw [hcs] at hholds
      exact h.of_children
        (fun m t => Edit.kind_of_keeps ((Edit.linkStable_shows (apart_kind m n)).takeChild r) htake)
        (children_of_node? hb) (hholds.erase h.fits hl hr)
    · -- the role takes a single child, so there is no other entry under it
      have hnone : ChildList.firstUnder? (before ++ after) r = none :=
        ChildList.firstUnder?_eq_none_iff.mpr (hw.not_mem_roles_of_single hd hcs hsingle)
      rw [child?_of_node? hb]
      exact congrArg Except.ok hnone

/-! ### Setters -/

theorem push (h : a.Laid n l e) (k : Kind) : (a.push k).Laid n l e := by
  obtain ⟨d, hd, hholds⟩ := h.exists_node?
  refine h.of_children (fun m t hm => ?_) (children_of_node? (node?_push_of_some hd)) hholds
  rw [← shows_kind_iff] at hm ⊢
  exact hm.push k

/-- **Naming** a node keeps the layout, and the name can be read. -/
theorem setIdentifier (hw : a.WellFormed) (h : a.Laid n l e) (hl : l.Distinct)
    (hr : l.value = some .identifier) (name : String) :
    ∃ b, Edit.setIdentifier n name e.anchor a = .ok () b ∧ b.Laid n l e ∧
      b.name? n = .ok (if name.isEmpty then none else some name) := by
  by_cases hname : name.isEmpty = true
  · obtain ⟨old, b, htake, -, hlaid, hchild⟩ := h.takeChild hw hl hr rfl
    refine ⟨b, ?_, hlaid, ?_⟩
    · rw [Edit.setIdentifier, if_pos hname, Edit.bind_of_ok htake]
      rfl
    · rw [if_pos hname, name?_of_empty hchild]
  · obtain ⟨d, hd, -⟩ := h.exists_node?
    have hnew : a.size ≠ n := Nat.ne_of_gt (lt_size_of_node? hd)
    obtain ⟨old, b, hput, -, hlaid, hchild⟩ := (h.push (.identifier name)).putChild
      (wellFormed_push hw _) hl hr hnew e.anchor fun _ => rfl
    refine ⟨b, ?_, hlaid, ?_⟩
    · rw [Edit.setIdentifier, if_neg hname, Edit.bind_of_ok (Edit.alloc_apply _ a),
        Edit.bind_of_ok hput]
      rfl
    · have hkind : (a.push (.identifier name)).kind a.size = .ok (.identifier name) :=
        kind_of_node? (node?_push_self a _)
      rw [if_neg hname]
      refine name?_of_child hchild (Edit.kind_of_keeps ?_ hput hkind)
      exact (Edit.linkStable_shows (apart_kind a.size n)).putChild trivial _ _

/-- The closing token of a layout, and what it means for the anchor. -/
theorem exists_closing (h : a.Laid n l e) (hr : l.closing = some r) :
    ∃ x, e.closing = some ⟨r, x⟩ ∧ e.anchor = some x := by
  have hclosing := h.fits.closing
  rw [hr] at hclosing
  obtain ⟨⟨r', x⟩, hx, rfl⟩ := Option.map_eq_some_iff.mp hclosing
  exact ⟨x, hx, by rw [Enclosure.anchor, hx]; rfl⟩

theorem setLabelBefore (hw : a.WellFormed) (h : a.Laid n l e) (hl : l.Distinct)
    (hr : l.value = some .identifier) (hc : l.closing = some r) (label : String) :
    ∃ b, Edit.setLabelBefore r n label a = .ok () b ∧ b.Laid n l e ∧
      b.name? n = .ok (if label.isEmpty then none else some label) := by
  obtain ⟨x, hx, hanchor⟩ := h.exists_closing hc
  rw [Edit.setLabelBefore, Edit.bind_of_ok (Edit.look_of_ok (h.token?_closing hl hx)), ← hanchor]
  exact h.setIdentifier hw hl hr label

theorem setName (hw : a.WellFormed) (h : a.Laid n (Kind.expression .identifier).layout e)
    (name : String) :
    ∃ b, Edit.setName n name a = .ok () b ∧ b.Laid n (Kind.expression .identifier).layout e ∧
      b.name? n = .ok (if name.isEmpty then none else some name) := by
  have hanchor : e.anchor = none := by
    rw [Enclosure.anchor, Option.map_eq_none_iff.mp h.fits.closing]
    rfl
  have hset := h.setIdentifier hw (Kind.distinct_layout _) rfl name
  rwa [hanchor] at hset

/-- Setting a slot that takes a single value.  A value that is put into an empty slot goes to the
end of the list, so then there must not be a closing token. -/
theorem setChild (hw : a.WellFormed) (h : a.Laid n l e) (hl : l.Distinct) (hr : l.value = some r)
    (hsingle : r.cardinality = .single) {child v : Option NodeId}
    (hanchor : a.child? n r = .ok none → child = none ∨ e.anchor = none)
    (hset : Edit.setChild n r child a = .ok v b) : b.Laid n l e ∧ SlotSet a b n r child v := by
  unfold Edit.setChild at hset
  rw [if_neg (by simp [RoleId.isMany, hsingle])] at hset
  cases child with
  | none =>
    obtain ⟨old, b', htake, hold, hlaid, hchild⟩ := h.takeChild hw hl hr hsingle
    cases htake.symm.trans hset
    refine ⟨hlaid, hchild, v, hold, ?_⟩
    cases v <;> rfl
  | some c =>
    obtain ⟨old, a₁, hlook, hrest⟩ := Edit.bind_eq_ok hset
    obtain ⟨hold, rfl⟩ := Edit.look_eq_ok hlook
    split_ifs at hrest with hsame
    · cases hrest
      exact ⟨h, by rw [hold, hsame], old, hold, by rw [if_pos hsame]⟩
    · obtain ⟨_, a₂, hlook, hput⟩ := Edit.bind_eq_ok hrest
      obtain ⟨hcheck, rfl⟩ := Edit.look_eq_ok hlook
      obtain ⟨old', b', hput', hold', hlaid, hchild⟩ :=
        h.putChild hw hl hr (attachable_of_checkAttach hcheck).ne none fun hempty => by
          rcases hanchor hempty with hnone | hnone
          · cases hnone
          · exact hnone.symm
      cases hput'.symm.trans hput
      cases hold.symm.trans hold'
      exact ⟨hlaid, hchild, _, hold, by rw [if_neg hsame]⟩

/-- **Setting the expression** keeps the layout, and the expression can be read. -/
theorem setExpression (hw : a.WellFormed) (h : a.Laid n l e) (hl : l.Distinct)
    (hr : l.value = some .expression) (hc : l.closing = some .semicolon)
    {child v : Option NodeId} (hset : Edit.setExpression n child a = .ok v b) :
    b.Laid n l e ∧ SlotSet a b n .expression child v := by
  obtain ⟨x, hx, hanchor⟩ := h.exists_closing hc
  unfold Edit.setExpression at hset
  rw [Edit.bind_of_ok (Edit.look_of_ok (h.token?_closing hl hx))] at hset
  obtain ⟨current, a₂, hlook, hlast⟩ := Edit.bind_eq_ok hset
  obtain ⟨hold, rfl⟩ := Edit.look_eq_ok hlook
  have hslot : (child = none ∨ current ≠ none) →
      Edit.setChild n .expression child a₂ = .ok v b →
      b.Laid n l e ∧ SlotSet a₂ b n .expression child v := by
    intro hcase hset
    refine h.setChild hw hl hr rfl (fun hempty => ?_) hset
    cases hold.symm.trans hempty
    exact .inl (hcase.resolve_right (fun hne => hne rfl))
  cases child with
  | none => exact hslot (.inl rfl) hlast
  | some c =>
    cases current with
    | some o => exact hslot (.inr (by simp)) hlast
    | none =>
      -- the slot is empty, so the expression is put before the semicolon
      have hins : Edit.insertChildBefore n x .expression c a₂ = .ok v b := hlast
      obtain ⟨hparent, hcheck⟩ := Edit.checkAttach_of_insertChildBefore hins
      rw [Edit.insertChildBefore_of_single rfl hparent hcheck] at hins
      obtain ⟨old, b', hput, hold', hlaid, hchild⟩ := h.putChild hw hl hr
        (attachable_of_checkAttach hcheck).ne (some x) fun _ => hanchor.symm
      cases hput.symm.trans hins
      cases hold.symm.trans hold'
      exact ⟨hlaid, hchild, none, hold, rfl⟩

/-- **Adding a statement** keeps the layout, and it is the last one. -/
theorem addStatement (hw : a.WellFormed) (h : a.Laid n l e) (hl : l.Distinct)
    (hr : l.value = some .statement) (hc : l.closing = some .rbrace)
    (hadd : Edit.addStatement n c a = .ok () b) :
    b.Laid n l e ∧ ∃ ss, a.statements n = .ok ss ∧ b.statements n = .ok (ss ++ [c]) := by
  obtain ⟨x, hx, hanchor⟩ := h.exists_closing hc
  obtain ⟨d, hd, hholds⟩ := h.exists_node?
  have hkeeps := fun m t =>
    (Edit.linkStable_shows (v := .token t) (apart_kind m n)).addStatement trivial c
  have htoken := fun m t => Edit.kind_of_keeps (hkeeps m t) hadd
  unfold Edit.addStatement at hadd
  rw [Edit.bind_of_ok (Edit.look_of_ok (h.token?_closing hl hx))] at hadd
  obtain ⟨v, b', hins, hdone⟩ := Edit.bind_eq_ok hadd
  cases hdone
  obtain ⟨hparent, hcheck⟩ := Edit.checkAttach_of_insertChildBefore hins
  rw [Edit.insertChildBefore_of_many rfl hparent hd hcheck] at hins
  cases hins
  have hb := node?_relink_self hd (attachable_of_checkAttach hcheck).ne
    (ChildList.insertBefore ⟨.statement, c⟩ (some x) d.children) (some n)
  have hnodup := hw.listed_once n d hd
  refine ⟨h.of_children htoken (children_of_node? hb) ?_, _, childrenUnder_of_node? hd _, ?_⟩
  · rw [← hanchor]
    exact hholds.insert hnodup hr c
  · obtain ⟨vs, hvs, -, hinserted⟩ := hholds.insertBefore_eq hnodup ⟨.statement, c⟩
    have hclosing : ChildList.allUnder e.closing.toList .statement = [] := by
      have hrole : RoleId.statement ≠ .rbrace := by decide
      rw [ChildList.allUnder_eq_nil_iff, hx]
      simpa using hrole
    rw [statements, childrenUnder_of_node? hb]
    show Except.ok (ChildList.allUnder (ChildList.insertBefore _ (some x) d.children) _) = _
    rw [← hanchor, hinserted, hvs]
    simp only [ChildList.allUnder_append, hclosing, List.append_nil, List.append_assoc]
    rfl

/-! ### Places -/

section Places

variable {x : Nat} {xs : List NodeId}

/-- A child under a role has its place below the node. -/
theorem exists_place (hw : a.WellFormed) {d : Node} (hd : a.node? n = some d)
    (hxs : a.childrenUnder n r = .ok xs) (hx : x ∈ xs) :
    ∃ before after, d.children = before ++ ⟨r, x⟩ :: after ∧ x ≠ n ∧
      a.place? x = .ok (some ⟨n, before, r, after⟩) := by
  cases (childrenUnder_of_node? hd r).symm.trans hxs
  have hmem := ChildList.mem_allUnder_iff.mp hx
  obtain ⟨-, -, -, hne⟩ := exists_node?_of_listed hw hd hmem
  obtain ⟨before, after, hcs⟩ := List.append_of_mem hmem
  exact ⟨before, after, hcs, hne, place?_of_listed hw hd hcs⟩

/-- **Detaching** a value keeps the layout. -/
theorem detach (hw : a.WellFormed) (h : a.Laid n l e) (hl : l.Distinct) (hr : l.value = some r)
    (hxs : a.childrenUnder n r = .ok xs) (hx : x ∈ xs) :
    ((Edit.detach x).after a).Laid n l e := by
  obtain ⟨d, hd, hholds⟩ := h.exists_node?
  obtain ⟨before, after, hcs, hne, hplace⟩ := exists_place hw hd hxs hx
  have hdetach := Edit.detach_of_place hplace
  have hb := node?_relink_self hd hne (before ++ after) none
  rw [hcs] at hholds
  rw [Edit.after_of_ok hdetach]
  refine h.of_children (fun m t => Edit.kind_of_keeps ?_ hdetach) (children_of_node? hb)
    (hholds.erase h.fits hl hr)
  exact Edit.keeps_stable_detach (fun p => Edit.linkStable_shows (apart_kind m p)) x

/-- **Replacing** a value keeps the layout, whether or not the replacement is refused. -/
theorem replaceWith (hw : a.WellFormed) (h : a.Laid n l e) (hl : l.Distinct)
    (hr : l.value = some r) (hxs : a.childrenUnder n r = .ok xs) (hx : x ∈ xs) (y : Nat) :
    ((Edit.replaceWith x y).after a).Laid n l e := by
  obtain ⟨d, hd, hholds⟩ := h.exists_node?
  obtain ⟨before, after, hcs, hne, hplace⟩ := exists_place hw hd hxs hx
  by_cases hxy : x = y
  · have hsame : Edit.replaceWith x y a = .ok () a := by rw [Edit.replaceWith, if_pos hxy]; rfl
    rwa [Edit.after_of_ok hsame]
  · cases hrun : Edit.replaceWith x y a with
    | error f b =>
      rw [Edit.after_of_error hrun, Edit.clean_replaceWith x y hrun]
      exact h
    | ok _ b =>
      have hcheck := Edit.checkAttach_of_replaceWith hxy hplace hrun
      have hreplace := Edit.replaceWith_of_place hxy hplace hcheck
      have hb := node?_relink_self (node?_relink_self hd hne (before ++ after) none)
        (attachable_of_checkAttach hcheck).ne (before ++ ⟨r, y⟩ :: after) (some n)
      rw [hcs] at hholds
      rw [Edit.after_of_ok hreplace]
      refine h.of_children (fun m t => Edit.kind_of_keeps ?_ hreplace) (children_of_node? hb)
        (hholds.replace h.fits hl hr y)
      exact Edit.keeps_stable_replaceWith (fun p => Edit.linkStable_shows (apart_kind m p)) x y

end Places

/-! ### Roles -/

/-- **The order of the grammar**: the roles of the children follow the layout. -/
theorem exists_reads (hw : a.WellFormed) (h : a.Laid n l e) :
    ∃ cs, a.children n = .ok cs ∧ l.Reads (cs.map (·.role)) := by
  obtain ⟨d, hd, vs, hvs, hrole⟩ := h.exists_node?
  refine ⟨d.children, children_of_node? hd, vs.map (·.role), ?_, ?_⟩
  · rw [hvs, List.map_append, List.map_append, h.fits.opening, ← h.fits.closing]
    cases e.closing <;> rfl
  · intro r hr
    obtain ⟨x, hx, rfl⟩ := List.mem_map.mp hr
    refine ⟨hrole x hx, fun hmany => ?_⟩
    have hsingle := RoleId.cardinality_of_isMany_false hmany
    -- all values are under the one role
    have hall : ChildList.allUnder vs x.role = vs.map (·.node) := by
      unfold ChildList.allUnder
      rw [List.filter_eq_self.mpr]
      intro y hy
      have hsame := Option.some.inj ((hrole y hy).symm.trans (hrole x hx))
      simp [hsame]
    have honce := hw.single_once n d x.role hd hsingle
    rw [hvs, ChildList.allUnder_append, ChildList.allUnder_append, hall] at honce
    have hpos := List.length_pos_of_mem hx
    simp only [List.length_append, List.length_map] at honce ⊢
    omega

end Laid

end Arena

end SyntaxForest
