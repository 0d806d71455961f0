import SyntaxForest.Proofs.Lockstep
import SyntaxForest.Proofs.MatchGrowth

/-!
# What a match goes on to

Where the pattern has an ordinary node, the match goes on to pairs of a pattern node below it and a
candidate, which may be absent.  Which pairs these are, and in which order they have their turns, is
read off the two child lists before any of them is looked at.  That is the `agenda` of the two
nodes.  There is none if the lists cannot match: if they differ in length under a role for a list,
or if something is present for the candidate only, and is not a name.

`matchConcrete_eq_ok` says that a node matches exactly if it is of the right kind and all the pairs
of the agenda match in turn.  An agenda depends on the roles and the order of the pattern's children
only, so that other nodes in their places get the same turns (`agenda_of_related`); and no pattern
node has two (`nodup_of_agenda`).
-/

namespace SyntaxForest

theorem Kind.nodup_comparedRoles (k : Kind) : k.comparedRoles.Nodup := by
  cases k with
  | token _ | identifier _ | pattern _ => exact List.nodup_nil
  | expression shape => cases shape <;> simp [comparedRoles, RoleId.left, RoleId.right]
  | statement shape => cases shape <;> simp [comparedRoles]

namespace Matching

open Arena

/-! ### Agendas -/

/-- The pairs that are matched under a role, if the child lists can match there. -/
def slotAgenda (cs cs' : ChildList) (r : RoleId) : Option (List (NodeId × Option NodeId)) :=
  match r.cardinality with
  | .single =>
    match cs.firstUnder? r, cs'.firstUnder? r with
    | none, none => some []
    | none, some _ => if r = .identifier then some [] else none
    | some q, x => some [(q, x)]
  | .many =>
    if (cs.allUnder r).length = (cs'.allUnder r).length then
      some ((cs.allUnder r).zip ((cs'.allUnder r).map some))
    else none

/-- The pairs that are matched under the given roles, in order. -/
def agenda (cs cs' : ChildList) : List RoleId → Option (List (NodeId × Option NodeId))
  | [] => some []
  | r :: rs => do
    let here ← slotAgenda cs cs' r
    let later ← agenda cs cs' rs
    return here ++ later

theorem agenda_cons_eq_some {cs cs' : ChildList} {r : RoleId} {rs : List RoleId}
    {ys : List (NodeId × Option NodeId)} : agenda cs cs' (r :: rs) = some ys ↔
      ∃ here later, slotAgenda cs cs' r = some here ∧ agenda cs cs' rs = some later ∧
        ys = here ++ later := by
  rw [agenda]
  cases slotAgenda cs cs' r with
  | none => simp
  | some here =>
    cases agenda cs cs' rs with
    | none => simp
    | some later => simp [eq_comm]

section Entries

variable {cs cs' : ChildList} {ys : List (NodeId × Option NodeId)}

/-- What an agenda under a role can be. -/
theorem slotAgenda_eq_some {r : RoleId} : slotAgenda cs cs' r = some ys ↔
    (r.cardinality = .single ∧ cs.firstUnder? r = none ∧
      (cs'.firstUnder? r = none ∨ r = .identifier) ∧ ys = []) ∨
    (r.cardinality = .single ∧ ∃ q, cs.firstUnder? r = some q ∧ ys = [(q, cs'.firstUnder? r)]) ∨
    (r.cardinality = .many ∧ (cs.allUnder r).length = (cs'.allUnder r).length ∧
      ys = (cs.allUnder r).zip ((cs'.allUnder r).map some)) := by
  unfold slotAgenda
  cases r.cardinality with
  | single =>
    cases cs.firstUnder? r with
    | none =>
      cases cs'.firstUnder? r with
      | none => simp [eq_comm]
      | some x => simp [eq_comm]
    | some q => simp [eq_comm]
  | many => simp [eq_comm]

theorem mem_of_slotAgenda {r : RoleId} (h : slotAgenda cs cs' r = some ys)
    {y : NodeId × Option NodeId} (hy : y ∈ ys) :
    (⟨r, y.1⟩ : Child) ∈ cs ∧ ∀ x, y.2 = some x → (⟨r, x⟩ : Child) ∈ cs' := by
  rcases slotAgenda_eq_some.mp h with ⟨-, -, -, rfl⟩ | ⟨-, q, hq, rfl⟩ | ⟨-, -, rfl⟩
  · cases hy
  · obtain rfl := List.mem_singleton.mp hy
    exact ⟨ChildList.mem_of_firstUnder? hq, fun x hx => ChildList.mem_of_firstUnder? hx⟩
  · obtain ⟨hq, hx⟩ := List.of_mem_zip (show (y.1, y.2) ∈ _ from hy)
    refine ⟨ChildList.mem_allUnder_iff.mp hq, fun x hyx => ?_⟩
    rw [hyx] at hx
    exact ChildList.mem_allUnder_iff.mp (by simpa using hx)

theorem mem_of_agenda : ∀ {rs : List RoleId} {ys : List (NodeId × Option NodeId)},
    agenda cs cs' rs = some ys → ∀ {y : NodeId × Option NodeId}, y ∈ ys →
      ∃ r ∈ rs, (⟨r, y.1⟩ : Child) ∈ cs ∧ ∀ x, y.2 = some x → (⟨r, x⟩ : Child) ∈ cs'
  | [], ys, h, y, hy => by
    cases h
    cases hy
  | r :: rs, ys, h, y, hy => by
    obtain ⟨here, later, hhere, hlater, rfl⟩ := agenda_cons_eq_some.mp h
    rcases List.mem_append.mp hy with hy | hy
    · exact ⟨r, List.mem_cons_self, mem_of_slotAgenda hhere hy⟩
    · obtain ⟨s, hs, hmem⟩ := mem_of_agenda hlater hy
      exact ⟨s, List.mem_cons_of_mem _ hs, hmem⟩

/-- A node that is listed once has one role. -/
theorem role_unique (hcs : (cs.map (·.node)).Nodup) {r s : RoleId} {q : NodeId}
    (hr : (⟨r, q⟩ : Child) ∈ cs) (hs : (⟨s, q⟩ : Child) ∈ cs) : r = s :=
  congrArg Child.role (List.inj_on_of_nodup_map hcs hr hs rfl)

theorem nodup_of_slotAgenda (hcs : (cs.map (·.node)).Nodup) {r : RoleId}
    (h : slotAgenda cs cs' r = some ys) : (ys.map (·.1)).Nodup := by
  rcases slotAgenda_eq_some.mp h with ⟨-, -, -, rfl⟩ | ⟨-, q, -, rfl⟩ | ⟨-, hlength, rfl⟩
  · exact List.nodup_nil
  · exact List.nodup_singleton q
  · rw [List.map_fst_zip (by rw [List.length_map, hlength])]
    exact hcs.sublist (List.filter_sublist.map _)

/-- No pattern node has two turns. -/
theorem nodup_of_agenda (hcs : (cs.map (·.node)).Nodup) :
    ∀ {rs : List RoleId} {ys : List (NodeId × Option NodeId)}, rs.Nodup →
      agenda cs cs' rs = some ys → (ys.map (·.1)).Nodup
  | [], ys, _, h => by
    cases h
    exact List.nodup_nil
  | r :: rs, ys, hrs, h => by
    obtain ⟨here, later, hhere, hlater, rfl⟩ := agenda_cons_eq_some.mp h
    rw [List.map_append, List.nodup_append']
    refine ⟨nodup_of_slotAgenda hcs hhere,
      nodup_of_agenda hcs (List.nodup_cons.mp hrs).2 hlater, ?_⟩
    -- a node with turns under two roles would have two roles
    intro q hq hq'
    obtain ⟨y, hy, rfl⟩ := List.mem_map.mp hq
    obtain ⟨z, hz, hzy⟩ := List.mem_map.mp hq'
    obtain ⟨s, hs, hmem, -⟩ := mem_of_agenda hlater hz
    rw [hzy] at hmem
    have hrole := role_unique hcs (mem_of_slotAgenda hhere hy).1 hmem
    exact (List.nodup_cons.mp hrs).1 (hrole ▸ hs)

end Entries

section Related

variable {R : NodeId → NodeId → Prop} {cs ds es : ChildList}

/-- The turns are the same for the same candidates, and for pattern nodes that are related. -/
def SameTurns (R : NodeId → NodeId → Prop) (ys zs : List (NodeId × Option NodeId)) : Prop :=
  List.Forall₂ (fun y z => R y.1 z.1 ∧ y.2 = z.2) ys zs

theorem slotAgenda_of_related (h : cs.Related R ds) {r : RoleId}
    {ys : List (NodeId × Option NodeId)} (hys : slotAgenda cs es r = some ys) :
    ∃ zs, slotAgenda ds es r = some zs ∧ SameTurns R ys zs := by
  simp only [slotAgenda_eq_some]
  have hfirst := h.firstUnder? r
  rcases slotAgenda_eq_some.mp hys with ⟨hr, hq, hx, rfl⟩ | ⟨hr, q, hq, rfl⟩ | ⟨hr, hlength, rfl⟩
  · rw [hq] at hfirst
    generalize hq' : ds.firstUnder? r = q' at hfirst
    cases hfirst
    exact ⟨[], .inl ⟨hr, rfl, hx, rfl⟩, .nil⟩
  · rw [hq] at hfirst
    generalize hq' : ds.firstUnder? r = q' at hfirst
    cases hfirst with
    | some hqq' => exact ⟨_, .inr (.inl ⟨hr, _, rfl, rfl⟩), .cons ⟨hqq', rfl⟩ .nil⟩
  · have hall := h.allUnder r
    exact ⟨_, .inr (.inr ⟨hr, hall.length_eq ▸ hlength, rfl⟩),
      rel_zip hall (List.forall₂_refl _)⟩

theorem agenda_of_related (h : cs.Related R ds) :
    ∀ {rs : List RoleId} {ys : List (NodeId × Option NodeId)}, agenda cs es rs = some ys →
      ∃ zs, agenda ds es rs = some zs ∧ SameTurns R ys zs
  | [], ys, hys => by
    cases hys
    exact ⟨[], rfl, .nil⟩
  | r :: rs, ys, hys => by
    obtain ⟨here, later, hhere, hlater, rfl⟩ := agenda_cons_eq_some.mp hys
    obtain ⟨here', hhere', hturns⟩ := slotAgenda_of_related h hhere
    obtain ⟨later', hlater', hturns'⟩ := agenda_of_related h hlater
    exact ⟨here' ++ later', agenda_cons_eq_some.mpr ⟨here', later', hhere', hlater', rfl⟩,
      List.rel_append hturns hturns'⟩

end Related

/-! ### One level in terms of its agenda -/

section Level

variable {P C : Arena} {enter : NodeId → Option NodeId → Matching Bool} {p c : NodeId} {d e : Node}
  {run run' : Run}

theorem allM_append_eq_ok {α : Type} {f : α → Matching Bool} {ys : List α} {run' : Run} :
    ∀ {xs : List α} {run : Run}, (xs ++ ys).allM f run = .ok true run' ↔
      ∃ run₁, xs.allM f run = .ok true run₁ ∧ ys.allM f run₁ = .ok true run'
  | [], run => by
    refine ⟨fun h => ⟨run, rfl, h⟩, ?_⟩
    rintro ⟨run₁, hnil, h⟩
    cases hnil
    exact h
  | x :: xs, run => by
    constructor
    · intro h
      obtain ⟨run₁, hfirst, hrest⟩ := allM_cons_eq_ok h
      obtain ⟨run₂, hxs, hys⟩ := allM_append_eq_ok.mp hrest
      exact ⟨run₂, by rw [allM_cons_of_true hfirst, hxs], hys⟩
    · rintro ⟨run₂, h, hys⟩
      obtain ⟨run₁, hfirst, hrest⟩ := allM_cons_eq_ok h
      rw [List.cons_append, allM_cons_of_true hfirst]
      exact allM_append_eq_ok.mpr ⟨run₂, hrest, hys⟩

theorem allM_singleton_eq_ok {α : Type} {f : α → Matching Bool} {x : α} :
    [x].allM f run = .ok true run' ↔ f x run = .ok true run' := by
  constructor
  · intro h
    obtain ⟨run₁, hfirst, hnil⟩ := allM_cons_eq_ok h
    cases hnil
    exact hfirst
  · intro h
    rw [allM_cons_of_true h]
    rfl

theorem allM_zip_map_some {f : NodeId → Option NodeId → Matching Bool} :
    ∀ qs xs : List NodeId, (qs.zip (xs.map some)).allM (fun y => f y.1 y.2) =
      (qs.zip xs).allM fun y => f y.1 (some y.2)
  | [], _ => rfl
  | _ :: _, [] => rfl
  | q :: qs, x :: xs => by
    rw [List.map_cons, List.zip_cons_cons, List.zip_cons_cons, List.allM, List.allM,
      allM_zip_map_some qs xs]

theorem matchRole_eq_ok (hd : P.node? p = some d) (he : C.node? c = some e) {r : RoleId} :
    matchRole P C enter p c r run = .ok true run' ↔
      ∃ ys, slotAgenda d.children e.children r = some ys ∧
        ys.allM (fun y => enter y.1 y.2) run = .ok true run' := by
  unfold matchRole slotAgenda
  cases r.cardinality with
  | single =>
    simp only
    rw [seq_of_ok (ask_of_ok (child?_of_node? hd r) run),
      seq_of_ok (ask_of_ok (child?_of_node? he r) run)]
    cases d.children.firstUnder? r with
    | none =>
      cases e.children.firstUnder? r with
      | none => simp only [Option.some.injEq, exists_eq_left', List.allM]
      | some x =>
        by_cases hr : r = .identifier
        · simp [hr, List.allM]
        · simp only [hr, decide_false, if_false, reduceCtorEq, false_and, exists_false, iff_false]
          intro h
          cases h
    | some q => simp only [Option.some.injEq, exists_eq_left', allM_singleton_eq_ok]
  | many =>
    simp only
    rw [seq_of_ok (ask_of_ok (childrenUnder_of_node? hd r) run),
      seq_of_ok (ask_of_ok (childrenUnder_of_node? he r) run)]
    split_ifs
    · simp only [Option.some.injEq, exists_eq_left', allM_zip_map_some]
    · simp only [false_and, exists_false, iff_false]
      intro h
      cases h

theorem allM_matchRole_eq_ok (hd : P.node? p = some d) (he : C.node? c = some e) :
    ∀ {rs : List RoleId} {run : Run}, rs.allM (matchRole P C enter p c) run = .ok true run' ↔
      ∃ ys, agenda d.children e.children rs = some ys ∧
        ys.allM (fun y => enter y.1 y.2) run = .ok true run'
  | [], run => by simp [agenda, List.allM]
  | r :: rs, run => by
    constructor
    · intro h
      obtain ⟨run₁, hfirst, hrest⟩ := allM_cons_eq_ok h
      obtain ⟨here, hhere, hrun⟩ := (matchRole_eq_ok hd he).mp hfirst
      obtain ⟨later, hlater, hrun'⟩ := (allM_matchRole_eq_ok hd he).mp hrest
      exact ⟨here ++ later, agenda_cons_eq_some.mpr ⟨here, later, hhere, hlater, rfl⟩,
        allM_append_eq_ok.mpr ⟨run₁, hrun, hrun'⟩⟩
    · rintro ⟨ys, hys, h⟩
      obtain ⟨here, later, hhere, hlater, rfl⟩ := agenda_cons_eq_some.mp hys
      obtain ⟨run₁, hrun, hrun'⟩ := allM_append_eq_ok.mp h
      rw [allM_cons_of_true ((matchRole_eq_ok hd he).mpr ⟨here, hhere, hrun⟩)]
      exact (allM_matchRole_eq_ok hd he).mpr ⟨later, hlater, hrun'⟩

/-- **An ordinary node** matches a node of its kind if all the pairs of their agenda match in
turn. -/
theorem matchConcrete_eq_ok (hd : P.node? p = some d) (he : C.node? c = some e) {k : Kind} :
    matchConcrete P C enter p k c run = .ok true run' ↔
      e.kind = k ∧ ∃ ys, agenda d.children e.children k.comparedRoles = some ys ∧
        ys.allM (fun y => enter y.1 y.2) run = .ok true run' := by
  unfold matchConcrete
  rw [seq_of_ok (ask_of_ok (kind_of_node? he) run)]
  split_ifs with hk
  · rw [allM_matchRole_eq_ok hd he, and_iff_right hk]
  · exact iff_of_false nofun fun h => hk h.1

theorem matchLevel_of_placeholder {x : Placeholder} (hk : P.kind p = .ok (.pattern x))
    (c : Option NodeId) :
    matchLevel P C enter p c run = matchPlaceholder P C enter p x c run := by
  unfold matchLevel
  rw [seq_of_ok (ask_of_ok hk run)]

theorem matchLevel_of_ordinary {k : Kind} (hk : P.kind p = .ok k) (hplain : ∀ x, k ≠ .pattern x)
    (c : NodeId) :
    matchLevel P C enter p (some c) run = matchConcrete P C enter p k c run := by
  unfold matchLevel
  rw [seq_of_ok (ask_of_ok hk run)]
  cases k with
  | pattern x => exact absurd rfl (hplain x)
  | token _ | identifier _ | expression _ | statement _ => rfl

/-- An ordinary node does not match an empty slot. -/
theorem matchLevel_of_absent {k : Kind} (hk : P.kind p = .ok k) (hplain : ∀ x, k ≠ .pattern x) :
    matchLevel P C enter p none run = .ok false run := by
  unfold matchLevel
  rw [seq_of_ok (ask_of_ok hk run)]
  cases k with
  | pattern x => exact absurd rfl (hplain x)
  | token _ | identifier _ | expression _ | statement _ => rfl

end Level

end Matching

end SyntaxForest
