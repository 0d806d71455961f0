/-
  Edits: operations that change an arena.

  An edit takes an arena, and ends with a value or with a fault; in both cases there is
  an arena afterwards. This matters for edits made of several steps. A constructor
  allocates before it knows whether the children it was given can be attached, and when
  they cannot, what was allocated stays behind. `Edit` is therefore a state monad whose
  failures keep the state.

  The edits of this module are single steps: they look at the arena and decide first,
  and write afterwards. A refused step leaves the arena as it was.
-/
import SyntaxForest.Arena.Basic

namespace SyntaxForest

/-- An operation on an arena that may fail, and keeps the arena it has reached then. -/
abbrev Edit := EStateM Fault Arena

namespace Edit

/-- Read the arena. -/
def look {α : Type} (f : Arena → Except Fault α) : Edit α := fun a => settled (f a) a

/-- Write to the arena. -/
def write (f : Arena → Arena) : Edit Unit := fun a => .ok () (f a)

/-- Allocate a root without children. -/
def alloc (k : Kind) : Edit NodeId := fun a => .ok a.size (a.push k)

/-- Attach `c` as the last child of `n`, unchecked. -/
def link (n : NodeId) (r : RoleId) (c : NodeId) : Edit Unit := write (·.link n r c)

/-! ### What an edit does to a given arena -/

@[simp] theorem alloc_apply (k : Kind) (a : Arena) :
    alloc k a = .ok a.size (a.push k) := rfl

@[simp] theorem write_apply (f : Arena → Arena) (a : Arena) : write f a = .ok () (f a) := rfl

theorem look_of_ok {α : Type} {f : Arena → Except Fault α} {a : Arena} {v : α}
    (h : f a = .ok v) : look f a = .ok v a := by
  rw [look, h, settled]

theorem look_of_error {α : Type} {f : Arena → Except Fault α} {a : Arena} {e : Fault}
    (h : f a = .error e) : look f a = .error e a := by
  rw [look, h, settled]

/-- After a step that succeeds, the next one starts from the arena it left. -/
theorem bind_of_ok {α β : Type} {x : Edit α} {f : α → Edit β} {a b : Arena} {v : α}
    (h : x a = .ok v b) : (x >>= f) a = f v b := by
  show EStateM.bind x f a = f v b
  rw [EStateM.bind, h]

/-- A step that fails is the last one. -/
theorem bind_of_error {α β : Type} {x : Edit α} {f : α → Edit β} {a b : Arena} {e : Fault}
    (h : x a = .error e b) : (x >>= f) a = .error e b := by
  show EStateM.bind x f a = .error e b
  rw [EStateM.bind, h]

/-! ### Slots -/

/-- Occupy the slot `r` of `n` with `c`, unchecked: in place if the slot is taken, else
    before `anchor`, else at the end. The child that had the slot becomes a root and is
    returned. -/
def putChild (n : NodeId) (r : RoleId) (c : NodeId) (anchor : Option NodeId) :
    Edit (Option NodeId) := do
  let old ← look (·.child? n r)
  write (·.setChildren n (ChildList.put · r c anchor))
  match old with
  | some o => write (·.setParent o none)
  | none => pure ()
  write (·.setParent c (some n))
  return old

/-- Empty the slot `r` of `n`. The child that had the slot becomes a root and is
    returned. -/
def takeChild (n : NodeId) (r : RoleId) : Edit (Option NodeId) := do
  let old ← look (·.child? n r)
  match old with
  | some o =>
    write (·.setChildren n (ChildList.eraseUnder · r))
    write (·.setParent o none)
    return old
  | none => return none

/-- Replace, fill or empty a slot that holds a single child. Returns the child that
    was there and is there no longer. Putting a child where it already sits does
    nothing. -/
def setChild (n : NodeId) (r : RoleId) (child : Option NodeId) : Edit (Option NodeId) :=
  if r.isMany then throw (.notSingleValued r)
  else match child with
    | none => takeChild n r
    | some c => do
      if (← look (·.child? n r)) = some c then return none
      else
        look (·.checkAttach n r c)
        putChild n r c none

/-- Append a child under a role that holds a list. -/
def addChild (n : NodeId) (r : RoleId) (c : NodeId) : Edit Unit :=
  if r.isMany then do
    look (·.checkAttach n r c)
    link n r c
  else throw (.notMultiValued r)

/-- Put a child under `r` right before `anchor`, another child of `n`. If the role holds
    a single child and its slot is taken, the new child takes the slot in place and the
    old one is returned. -/
def insertChildBefore (n anchor : NodeId) (r : RoleId) (c : NodeId) :
    Edit (Option NodeId) := do
  if (← look (·.parent? anchor)) = some n then
    look (·.checkAttach n r c)
    if r.isMany then
      write (·.setChildren n (ChildList.insertBefore ⟨r, c⟩ (some anchor)))
      write (·.setParent c (some n))
      return none
    else putChild n r c (some anchor)
  else throw (.notAChild n anchor)

/-! ### Places -/

/-- Take a node out of its parent's child list. Returns the role it had there, or
    nothing if it was a root. -/
def detach (n : NodeId) : Edit (Option RoleId) := do
  match ← look (·.place? n) with
  | none => return none
  | some place =>
    write (·.setChildren place.parent fun _ => place.before ++ place.after)
    write (·.setParent n none)
    return some place.role

/-- Put `y` where `x` sits, with the same role and position; `x` becomes a root. -/
def replaceWith (x y : NodeId) : Edit Unit :=
  if x = y then return ()
  else do
    match ← look (·.place? x) with
    | none => throw (.detached x)
    | some place =>
      look (·.checkAttach place.parent place.role y)
      write (·.setChildren place.parent fun _ =>
        place.before ++ ⟨place.role, y⟩ :: place.after)
      write (·.setParent y (some place.parent))
      write (·.setParent x none)

end Edit

end SyntaxForest
