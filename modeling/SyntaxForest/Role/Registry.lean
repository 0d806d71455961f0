/-
  The registry of roles.

  Roles are told apart by identity, not by name: defining a role twice gives two
  roles. The registry keeps an entry for every role that was ever handed out, oldest
  first. A role's index is its position in that list, and since the list only ever
  grows at its end, what an index stands for never changes.

  What a role is like is thus written down in three places: in the role itself, in its
  id, and in the registry. Whoever holds a role reads it there, child lists have the
  id, and the name behind an id comes from the registry.

  `Registry.standard` holds the roles of the built-in grammar, and
  `Registry.standard_ids` says that their ids are the constants `RoleId.keyword`,
  `RoleId.identifier` and so on.
-/
import SyntaxForest.Role.Basic

namespace SyntaxForest

/-- What the registry says of a role. -/
structure RoleInfo where
  id : RoleId
  name : String
  cardinality : Cardinality
  /-- The category asked for; `none` leaves the slot open. -/
  accepts : Option Category
deriving DecidableEq

/-- The entry a definition gets as the `index`-th of all definitions. -/
def RoleDef.infoAt (d : RoleDef) (index : Nat) : RoleInfo :=
  ⟨d.idAt index, d.name, d.cardinality, d.slot.category⟩

/-- What there is to say of all roles so far, oldest first. -/
structure Registry where
  entries : List RoleInfo
deriving DecidableEq

namespace Registry

/-- The registry without roles. -/
def empty : Registry := ⟨[]⟩

/-- Number of roles. -/
def size (reg : Registry) : Nat := reg.entries.length

/-- The names of the roles. -/
def names (reg : Registry) : List String := reg.entries.map (·.name)

/-- Define a role. Its index is the number of roles before it. -/
def define (reg : Registry) (d : RoleDef) : Role × Registry :=
  (⟨d, d.idAt reg.size⟩, ⟨reg.entries ++ [d.infoAt reg.size]⟩)

/-- Define roles one after the other. The roles are returned in the same order. -/
def defineAll (reg : Registry) : List RoleDef → List Role × Registry
  | [] => ([], reg)
  | d :: ds =>
    let first := reg.define d
    let rest := first.2.defineAll ds
    (first.1 :: rest.1, rest.2)

/-- The entry with the given index. -/
def info? (reg : Registry) (index : Nat) : Option RoleInfo := reg.entries[index]?

/-- The name behind an id. -/
def name (reg : Registry) (r : RoleId) : String :=
  match reg.info? r.index with
  | some entry => entry.name
  | none => "<unknown>"

/-- The definitions of the roles of the built-in grammar. -/
def grammar : List RoleDef := [
  ⟨"Keyword", .single, .token⟩,
  ⟨"Identifier", .single, .identifier⟩,
  ⟨"Semicolon", .single, .token⟩,
  ⟨"Colon", .single, .token⟩,
  ⟨"LBrace", .single, .token⟩,
  ⟨"RBrace", .single, .token⟩,
  ⟨"Operator", .single, .token⟩,
  ⟨"Expression", .single, .expression⟩,
  ⟨"Left", .single, .expression⟩,
  ⟨"Right", .single, .expression⟩,
  ⟨"Statement", .many, .statement⟩,
  ⟨"PatternChild", .single, .any⟩,
  ⟨"Alternative", .many, .any⟩,
  ⟨"CaseKeyword", .single, .token⟩,
  ⟨"DefaultKeyword", .single, .token⟩]

/-- The registry of a program that defines no role before it uses the grammar. -/
def standard : Registry := (empty.defineAll grammar).2

/-- The name behind an id is the one at its index. -/
theorem name_eq (reg : Registry) (r : RoleId) :
    reg.name r = reg.names[r.index]?.getD "<unknown>" := by
  unfold name info? names
  rw [List.getElem?_map]
  cases reg.entries[r.index]? <;> rfl

/-! ### How definitions show in the registry -/

@[simp] theorem size_define (reg : Registry) (d : RoleDef) :
    (reg.define d).2.size = reg.size + 1 := by
  simp [define, size]

/-- It adds an entry for each of them, at the end. -/
theorem entries_defineAll (reg : Registry) (ds : List RoleDef) :
    (reg.defineAll ds).2.entries =
      reg.entries ++ ds.mapIdx fun i d => d.infoAt (reg.size + i) := by
  induction ds generalizing reg with
  | nil => exact (List.append_nil _).symm
  | cons d ds ih =>
    rw [defineAll, List.mapIdx_cons]
    simp only [ih, size_define, Nat.add_zero]
    rw [define, List.append_assoc, List.singleton_append]
    congr 2
    refine List.mapIdx_eq_mapIdx_iff.mpr fun i hi => ?_
    rw [Nat.add_assoc, Nat.add_comm 1 i]

/-- The constants are the standard roles: defining the grammar's roles in order
    gives them exactly the ids the rest of the library uses. -/
theorem standard_ids : standard.entries.map (·.id) = RoleId.grammar := by
  decide

end Registry

end SyntaxForest
