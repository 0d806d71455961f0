/-
  Tables of bindings.

  A table has at most one entry for each group. Entries are looked up, put in and taken
  out by their group; in which order a table holds them cannot be seen.
-/
import SyntaxForest.Fault

namespace SyntaxForest

/-- What one group remembers. -/
structure Binding where
  group : String
  /-- The node in the candidate's arena. -/
  node : NodeId
  /-- The root of the copy in the private arena. -/
  copy : NodeId
deriving DecidableEq

/-- Bindings by group. -/
@[ext] structure Table where
  entries : List Binding
  nodup : (entries.map (·.group)).Nodup
deriving DecidableEq

namespace Table

def empty : Table := ⟨[], List.nodup_nil⟩

/-- The entry for a group. -/
def find? (t : Table) (group : String) : Option Binding :=
  t.entries.find? (·.group = group)

/-- Take the entry for a group out, if there is one. -/
def erase (t : Table) (group : String) : Table where
  entries := t.entries.filter (·.group ≠ group)
  nodup := t.nodup.sublist (List.filter_sublist.map _)

/-- Put an entry in. It takes the place of the one for the same group. -/
def insert (t : Table) (b : Binding) : Table where
  entries := b :: (t.erase b.group).entries
  nodup := List.nodup_cons.mpr ⟨by simp [erase], (t.erase b.group).nodup⟩

/-- Take the entries for all these groups out, one after the other. -/
def eraseAll (t : Table) (groups : List String) : Table := groups.foldl erase t

/-! ### What look-up sees of a change -/

@[simp] theorem find?_empty (g : String) : empty.find? g = none := rfl

theorem find?_erase (t : Table) (g g' : String) :
    (t.erase g).find? g' = if g' = g then none else t.find? g' := by
  show (t.entries.filter (·.group ≠ g)).find? (·.group = g') = _
  rw [List.find?_filter]
  split
  next h => simp [h]
  next h =>
    unfold find?
    congr 1
    funext b
    by_cases hb : b.group = g'
    · simp [hb, h]
    · simp [hb]

theorem find?_insert (t : Table) (b : Binding) (g : String) :
    (t.insert b).find? g = if g = b.group then some b else t.find? g := by
  show (b :: (t.erase b.group).entries).find? (·.group = g) = _
  rw [List.find?_cons]
  split
  next h => rw [if_pos (of_decide_eq_true h).symm]
  next h =>
    have hne : g ≠ b.group := fun heq => by simp [heq] at h
    have herase := find?_erase t b.group g
    rw [if_neg hne] at herase ⊢
    exact herase

/-- Without an entry there is nothing to take out. -/
theorem erase_of_find? {t : Table} {g : String} (h : t.find? g = none) : t.erase g = t := by
  refine Table.ext (List.filter_eq_self.mpr fun b hb => ?_)
  simpa using List.find?_eq_none.mp h b hb

/-- Taking out what was just put in. -/
theorem erase_insert {t : Table} {b : Binding} (h : t.find? b.group = none) :
    (t.insert b).erase b.group = t := by
  have hcons : (t.insert b).erase b.group = (t.erase b.group).erase b.group :=
    Table.ext (by simp [insert, erase])
  rw [hcons, erase_of_find? h, erase_of_find? h]

theorem entries_eraseAll (t : Table) (gs : List String) :
    (t.eraseAll gs).entries = t.entries.filter (·.group ∉ gs) := by
  induction gs generalizing t with
  | nil => rw [List.filter_eq_self.mpr (by simp), eraseAll, List.foldl_nil]
  | cons g gs ih =>
    show ((t.erase g).eraseAll gs).entries = _
    rw [ih, erase, List.filter_filter]
    simp only [List.mem_cons, not_or, Bool.decide_and, Bool.and_comm]

/-- In which order entries are taken out does not matter. -/
theorem eraseAll_append (t : Table) (gs gs' : List String) :
    t.eraseAll (gs ++ gs') = (t.eraseAll gs').eraseAll gs := by
  apply Table.ext
  rw [entries_eraseAll, entries_eraseAll, entries_eraseAll, List.filter_filter]
  simp only [List.mem_append, not_or, Bool.decide_and]

theorem find?_eraseAll (t : Table) (gs : List String) (g : String) :
    (t.eraseAll gs).find? g = if g ∈ gs then none else t.find? g := by
  induction gs generalizing t with
  | nil => rfl
  | cons g' gs ih =>
    show ((t.erase g').eraseAll gs).find? g = _
    rw [ih, find?_erase]
    by_cases hg : g = g'
    · simp [hg]
    · by_cases hgs : g ∈ gs
      · simp [hgs]
      · simp [hg, hgs]

end Table

end SyntaxForest
