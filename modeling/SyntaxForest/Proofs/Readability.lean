import SyntaxForest.Proofs.Enclosure
import SyntaxForest.Proofs.Legible
import SyntaxForest.Proofs.Rendering

/-!
# Reading a dump

Trees that are built by the grammar can be read off their texts, with one exception: the heading of
a binary expression does not show its operator.  `Tree.withoutOperators` forgets the operators, and
`Tree.eq_of_written` says that two trees with the same text are the same apart from them.

The argument goes down the trees, with whatever comes after their texts in the dump.  The first
character of a text tells tokens, identifiers and all other nodes apart
(`Kind.begins`).  Headings are read by `Kind.eq_of_heading`, and the children one by one
(`Tree.eq_of_entries`), until the closing parenthesis comes where another child would begin with a
blank.  Roles need not be shown: they follow from the kind of the parent and the number of its
children (`Layout.Orders.eq_of_length`).

Operators are seen where the token of every binary expression is the one for its operator
(`Tree.eq_of_withoutOperators`).
-/

namespace SyntaxForest

/-! ### Roles that follow from their number -/

namespace Layout

/-- A list of roles that follows the layout, with any number of values. -/
def Orders (l : Layout) (roles : List RoleId) : Prop :=
  ∃ values, roles = l.opening ++ values ++ l.closing.toList ∧ ∀ r ∈ values, l.value = some r

/-- There is one list of roles of each length. -/
theorem Orders.eq_of_length {l : Layout} {roles roles' : List RoleId} (h : l.Orders roles)
    (h' : l.Orders roles') (hlength : roles.length = roles'.length) : roles = roles' := by
  obtain ⟨values, rfl, hvalues⟩ := h
  obtain ⟨values', rfl, hvalues'⟩ := h'
  simp only [List.length_append, Nat.add_right_cancel_iff, Nat.add_left_cancel_iff] at hlength
  have hsame : values = values' := by
    refine List.ext_getElem hlength fun i hi hi' => Option.some.inj ?_
    rw [← hvalues _ (List.getElem_mem hi), hvalues' _ (List.getElem_mem hi')]
  rw [hsame]

/-- Where there are neither fixed children nor values, there are no children. -/
theorem Orders.eq_nil {roles : List RoleId} (h : Orders ⟨[], none, none⟩ roles) : roles = [] := by
  obtain ⟨values, hroles, hvalues⟩ := h
  have hnone : values = [] := List.eq_nil_iff_forall_not_mem.mpr fun r hr => by
    cases hvalues r hr
  rw [hroles, hnone]
  rfl

end Layout

/-! ### Trees -/

mutual

/-- The tree, with one operator in the place of all others. -/
def Tree.withoutOperators : Tree → Tree
  | .node k below => .node k.withoutOperator below.withoutOperators

/-- The trees, with one operator in the place of all others. -/
def Forest.withoutOperators : Forest → Forest
  | .nil => .nil
  | .cons r tree rest => .cons r tree.withoutOperators rest.withoutOperators

end

theorem Forest.toList_withoutOperators : ∀ ts : Forest,
    ts.withoutOperators.toList = ts.toList.map fun x => (x.1, x.2.withoutOperators)
  | .nil => rfl
  | .cons r tree rest => by
    rw [withoutOperators, toList, toList, List.map_cons, toList_withoutOperators rest]

/-- Something holds of the tree and of every tree below it. -/
inductive Tree.Throughout (P : Tree → Prop) : Tree → Prop
  | intro {t : Tree} (here : P t) (below : ∀ x ∈ t.branches, Throughout P x.2) : Throughout P t

namespace Tree

@[simp] theorem kind_withoutOperators (t : Tree) :
    t.withoutOperators.kind = t.kind.withoutOperator := by
  obtain ⟨k, ts⟩ := t
  rfl

@[simp] theorem branches_withoutOperators (t : Tree) :
    t.withoutOperators.branches = t.branches.map fun x => (x.1, x.2.withoutOperators) := by
  obtain ⟨k, ts⟩ := t
  exact Forest.toList_withoutOperators ts

namespace Throughout

variable {P Q : Tree → Prop} {t : Tree}

theorem here (h : t.Throughout P) : P t := by
  cases h with
  | intro here _ => exact here

theorem of_mem (h : t.Throughout P) {x : RoleId × Tree} (hx : x ∈ t.branches) :
    x.2.Throughout P := by
  cases h with
  | intro _ below => exact below x hx

theorem imp (h : t.Throughout P) (hPQ : ∀ u, P u → Q u) : t.Throughout Q := by
  induction h with
  | intro here _ ih => exact .intro (hPQ _ here) ih

end Throughout

end Tree

/-! ### First characters -/

namespace Kind

/-- Can the text of a node of the kind begin with the character? -/
def begins (c : Char) : Kind → Bool
  | token _ => c == '\''
  | identifier _ => c.isAlphanum || c == '_'
  | _ => c == '('

/-- The first character tells tokens, identifiers and the other nodes apart. -/
theorem same_sort_of_begins {c : Char} {k l : Kind} (hk : k.begins c = true)
    (hl : l.begins c = true) :
    (∃ t u, k = token t ∧ l = token u) ∨ (∃ v w, k = identifier v ∧ l = identifier w) ∨
      (k.leafText? = none ∧ l.leafText? = none) := by
  have hquote : ('\''.isAlphanum || '\'' == '_') = false := by decide
  have hopening : ('('.isAlphanum || '(' == '_') = false := by decide
  cases k <;> cases l <;> simp only [begins, beq_iff_eq] at hk hl
  all_goals simp_all [leafText?]

end Kind

/-- A grammar gives the roles of the children of each kind of node.  It does not depend on
operators, and has nothing for the nodes that are written without parentheses. -/
structure IsGrammar (grammar : Kind → Layout) : Prop where
  congr : ∀ k l : Kind, k.withoutOperator = l.withoutOperator → grammar k = grammar l
  leaf : ∀ k : Kind, k.leafText? ≠ none → grammar k = ⟨[], none, none⟩

namespace Tree

variable {reg : Registry}

/-- The tree is of a kind whose names are words, its children are in the order of the grammar, and
the roles that are shown have names made of letters. -/
structure Legible (reg : Registry) (roles : Bool) (grammar : Kind → Layout) (t : Tree) : Prop where
  worded : t.kind.isWorded = true
  ordered : (grammar t.kind).Orders (t.branches.map (·.1))
  labelled : roles = true → ∀ x ∈ t.branches, ∀ c ∈ (reg.name x.1).toList, c.isAlpha = true

theorem written_of_token {t : Tree} {u : Token} (h : t.kind = .token u) (options : DumpOptions) :
    t.written reg options = '\'' :: (u.text.toList ++ ['\'']) := by
  rw [written_of_leaf (by rw [h]; rfl)]
  simp

theorem written_of_identifier {t : Tree} {name : String} (h : t.kind = .identifier name)
    (options : DumpOptions) : t.written reg options = name.toList :=
  written_of_leaf (by rw [h]; rfl)

theorem exists_written_cons (reg : Registry) {t : Tree} (ht : t.kind.isWorded = true)
    (options : DumpOptions) :
    ∃ c text, t.written reg options = c :: text ∧ t.kind.begins c = true := by
  cases hkind : t.kind with
  | token u => exact ⟨_, _, written_of_token hkind options, rfl⟩
  | identifier name =>
    rw [hkind] at ht
    obtain ⟨c, text, hname⟩ := List.exists_cons_of_ne_nil (toList_ne_nil_of_isWord ht)
    refine ⟨c, text, ?_, mem_of_isWord ht c (by simp [hname])⟩
    rw [written_of_identifier hkind, hname]
  | _ =>
    rw [written_of_composite (by rw [hkind]; rfl)]
    exact ⟨'(', _, rfl, rfl⟩

/-! ### Children -/

/-- How a child begins in a dump that shows tokens: with its role, if roles are shown. -/
def label (reg : Registry) (roles : Bool) (r : RoleId) : List Char :=
  if roles then (reg.name r).toList ++ ['='] else []

/-- The children of a node, each after a blank. -/
def entries (reg : Registry) (roles : Bool) (xs : List (RoleId × Tree)) : List Char :=
  xs.flatMap fun x => ' ' :: (label reg roles x.1 ++ x.2.written reg ⟨roles, true⟩)

theorem written_of_branches {t : Tree} (h : t.kind.leafText? = none) (roles : Bool) :
    t.written reg ⟨roles, true⟩ =
      '(' :: (t.kind.heading.toList ++ entries reg roles t.branches ++ [')']) := by
  rw [written_of_composite h]
  rfl

theorem eq_of_label {roles : Bool} {r r' : RoleId} {v w : List Char}
    (hr : roles = true → ∀ c ∈ (reg.name r).toList, c.isAlpha = true)
    (hr' : roles = true → ∀ c ∈ (reg.name r').toList, c.isAlpha = true)
    (h : label reg roles r ++ v = label reg roles r' ++ w) : v = w := by
  cases roles with
  | false => exact h
  | true =>
    have hnames : (reg.name r).toList ++ '=' :: v = (reg.name r').toList ++ '=' :: w := by
      simpa [label] using h
    obtain ⟨-, hrest⟩ := append_inj_of_stop (hr rfl) (hr' rfl) (by simp [StopsAt])
      (by simp [StopsAt]) hnames
    exact (List.cons.inj hrest).2

/-- No child is taken for a group. -/
theorem label_append_ne {roles : Bool} {r : RoleId} {u : Tree}
    (hr : roles = true → ∀ c ∈ (reg.name r).toList, c.isAlpha = true)
    (hu : u.kind.isWorded = true) (options : DumpOptions) (s : List Char) :
    label reg roles r ++ u.written reg options ≠ '$' :: s := by
  intro h
  cases roles with
  | false =>
    have hgroup : ∀ k : Kind, k.begins '$' = false := by
      intro k
      cases k <;> rfl
    obtain ⟨c, text, htext, hc⟩ := exists_written_cons reg hu options
    rw [htext] at h
    obtain ⟨rfl, -⟩ := List.cons.inj h
    rw [hgroup] at hc
    cases hc
  | true =>
    have hname : (reg.name r).toList ++ '=' :: u.written reg options = '$' :: s := by
      simpa [label] using h
    cases hchars : (reg.name r).toList with
    | nil =>
      rw [hchars] at hname
      exact absurd (List.cons.inj hname).1 (by decide)
    | cons c text =>
      rw [hchars] at hname
      obtain ⟨rfl, -⟩ := List.cons.inj hname
      exact absurd (hr rfl '$' (by simp [hchars])) (by decide)

/-- What has to be known of the children of a node, for their texts to be read. -/
def Labelled (reg : Registry) (roles : Bool) (xs : List (RoleId × Tree)) : Prop :=
  ∀ x ∈ xs, x.2.kind.isWorded = true ∧
    (roles = true → ∀ c ∈ (reg.name x.1).toList, c.isAlpha = true)

theorem endsHeading_entries {roles : Bool} {xs : List (RoleId × Tree)}
    (hxs : Labelled reg roles xs) (r : List Char) :
    EndsHeading (entries reg roles xs ++ ')' :: r) := by
  cases xs with
  | nil => exact .inl ⟨r, rfl⟩
  | cons x xs =>
    obtain ⟨hworded, hlabel⟩ := hxs x List.mem_cons_self
    have hne := label_append_ne hlabel hworded ⟨roles, true⟩
    obtain ⟨c, text, hfirst⟩ : ∃ c text,
        label reg roles x.1 ++ x.2.written reg ⟨roles, true⟩ = c :: text := by
      obtain ⟨c, text, htext, -⟩ := exists_written_cons reg hworded ⟨roles, true⟩
      exact List.exists_cons_of_ne_nil (by simp [htext])
    -- a group would begin with `$` after the blank
    refine .inr ⟨c, text ++ entries reg roles xs ++ ')' :: r, ?_, fun hc => hne text (hc ▸ hfirst)⟩
    rw [entries, List.flatMap_cons, hfirst, entries]
    simp

theorem ends_entries {roles : Bool} (xs : List (RoleId × Tree)) (r : List Char) :
    Ends (entries reg roles xs ++ ')' :: r) := by
  cases xs <;> simp [Ends, entries]

/-- **Children** are read one by one, until the closing parenthesis. -/
theorem eq_of_entries {roles : Bool} : ∀ {xs ys : List (RoleId × Tree)} {r s : List Char},
    Labelled reg roles xs → Labelled reg roles ys →
    (∀ x ∈ xs, ∀ y ∈ ys, ∀ r s, Ends r → Ends s →
      x.2.written reg ⟨roles, true⟩ ++ r = y.2.written reg ⟨roles, true⟩ ++ s →
        x.2.withoutOperators = y.2.withoutOperators ∧ r = s) →
    entries reg roles xs ++ ')' :: r = entries reg roles ys ++ ')' :: s →
      xs.map (·.2.withoutOperators) = ys.map (·.2.withoutOperators) ∧ r = s
  | [], [], r, s, _, _, _, h => ⟨rfl, (List.cons.inj h).2⟩
  | [], y :: ys, r, s, _, _, _, h => by
    cases h
  | x :: xs, [], r, s, _, _, _, h => by
    cases h
  | x :: xs, y :: ys, r, s, hxs, hys, ih, h => by
    obtain ⟨-, hlabel⟩ := hxs x List.mem_cons_self
    obtain ⟨-, hlabel'⟩ := hys y List.mem_cons_self
    have hfirst : label reg roles x.1 ++
          (x.2.written reg ⟨roles, true⟩ ++ (entries reg roles xs ++ ')' :: r)) =
        label reg roles y.1 ++
          (y.2.written reg ⟨roles, true⟩ ++ (entries reg roles ys ++ ')' :: s)) := by
      simpa [entries] using h
    obtain ⟨hxy, hrest⟩ := ih x List.mem_cons_self y List.mem_cons_self _ _ (ends_entries xs r)
      (ends_entries ys s) (eq_of_label hlabel hlabel' hfirst)
    obtain ⟨hmap, hrs⟩ := eq_of_entries (fun z hz => hxs z (List.mem_cons_of_mem _ hz))
      (fun z hz => hys z (List.mem_cons_of_mem _ hz))
      (fun z hz w hw => ih z (List.mem_cons_of_mem _ hz) w (List.mem_cons_of_mem _ hw)) hrest
    exact ⟨by rw [List.map_cons, List.map_cons, hxy, hmap], hrs⟩

/-! ### Trees -/

section Reading

variable {roles : Bool} {grammar : Kind → Layout}

theorem Throughout.labelled {t : Tree} (h : t.Throughout (Legible reg roles grammar)) :
    Labelled reg roles t.branches :=
  fun x hx => ⟨(h.of_mem hx).here.worded, fun hroles => h.here.labelled hroles x hx⟩

theorem branches_of_leaf (hg : IsGrammar grammar) {t : Tree} (h : Legible reg roles grammar t)
    (hleaf : t.kind.leafText? ≠ none) : t.branches = [] := by
  have hroles := h.ordered
  rw [hg.leaf _ hleaf] at hroles
  exact List.map_eq_nil_iff.mp hroles.eq_nil

/-- Trees are the same apart from operators if their kinds and their children are, and there is a
grammar that both follow. -/
theorem withoutOperators_eq (hg : IsGrammar grammar) {t u : Tree}
    (ht : Legible reg roles grammar t) (hu : Legible reg roles grammar u)
    (hkind : t.kind.withoutOperator = u.kind.withoutOperator)
    (hbelow : t.branches.map (·.2.withoutOperators) = u.branches.map (·.2.withoutOperators)) :
    t.withoutOperators = u.withoutOperators := by
  have hlength : (t.branches.map (·.1)).length = (u.branches.map (·.1)).length := by
    simpa using congrArg List.length hbelow
  have hroles : t.branches.map (·.1) = u.branches.map (·.1) := by
    refine Layout.Orders.eq_of_length ht.ordered ?_ hlength
    rw [hg.congr _ _ hkind]
    exact hu.ordered
  refine Tree.ext (by simpa using hkind) ?_
  -- roles and trees have been found apart, and are put together in pairs again
  have hzip : ∀ xs : List (RoleId × Tree), (xs.map fun x => (x.1, x.2.withoutOperators)) =
      (xs.map (·.1)).zip (xs.map (·.2.withoutOperators)) := by
    intro xs
    rw [List.zip_map']
  rw [branches_withoutOperators, branches_withoutOperators, hzip, hzip, hroles, hbelow]

/-- **Unique readability**: trees that follow the grammar and have the same text are the same apart
from operators, and what comes after them in the dump is the same. -/
theorem eq_of_written (hg : IsGrammar grammar) {t : Tree} : ∀ {u : Tree} {r s : List Char},
    t.Throughout (Legible reg roles grammar) → u.Throughout (Legible reg roles grammar) →
    Ends r → Ends s → t.written reg ⟨roles, true⟩ ++ r = u.written reg ⟨roles, true⟩ ++ s →
      t.withoutOperators = u.withoutOperators ∧ r = s := by
  induction t using Tree.induction with
  | h t ih =>
    intro u r s ht hu hr hs h
    have hsame := fun hkind => withoutOperators_eq hg ht.here hu.here hkind
    obtain ⟨c, text, htext, hc⟩ := exists_written_cons reg ht.here.worded ⟨roles, true⟩
    obtain ⟨d, text', htext', hd⟩ := exists_written_cons reg hu.here.worded ⟨roles, true⟩
    obtain rfl : c = d := by
      rw [htext, htext'] at h
      exact (List.cons.inj h).1
    have hleaf : t.kind.leafText? ≠ none → u.kind.leafText? ≠ none →
        t.branches.map (·.2.withoutOperators) = u.branches.map (·.2.withoutOperators) := by
      intro hleaf hleaf'
      rw [branches_of_leaf hg ht.here hleaf, branches_of_leaf hg hu.here hleaf']
    -- the first character tells a token from an identifier, and both from what is in parentheses
    rcases Kind.same_sort_of_begins hc hd with ⟨v, w, hv, hw⟩ | ⟨v, w, hv, hw⟩ | ⟨hcomp, hcomp'⟩
    · rw [written_of_token hv, written_of_token hw] at h
      obtain ⟨rfl, hrest⟩ := Token.eq_of_text (by simpa using h)
      exact ⟨hsame (by rw [hv, hw]) (hleaf (by simp [hv, Kind.leafText?])
        (by simp [hw, Kind.leafText?])), hrest⟩
    · rw [written_of_identifier hv, written_of_identifier hw] at h
      have hworded := ht.here.worded
      have hworded' := hu.here.worded
      rw [hv] at hworded
      rw [hw] at hworded'
      obtain ⟨rfl, hrest⟩ := eq_of_isWord hworded hworded' hr hs h
      exact ⟨hsame (by rw [hv, hw]) (hleaf (by simp [hv, Kind.leafText?])
        (by simp [hw, Kind.leafText?])), hrest⟩
    · rw [written_of_branches hcomp, written_of_branches hcomp'] at h
      have hheading : t.kind.heading.toList ++ (entries reg roles t.branches ++ ')' :: r) =
          u.kind.heading.toList ++ (entries reg roles u.branches ++ ')' :: s) := by
        simpa using h
      obtain ⟨hkind, hbody⟩ := Kind.eq_of_heading hcomp hcomp' ht.here.worded hu.here.worded
        (endsHeading_entries ht.labelled r) (endsHeading_entries hu.labelled s) hheading
      obtain ⟨hbelow, hrest⟩ := eq_of_entries ht.labelled hu.labelled
        (fun x hx y hy r s => ih x hx (ht.of_mem hx) (hu.of_mem hy)) hbody
      exact ⟨hsame hkind hbelow, hrest⟩

end Reading

end Tree

/-! ### Operators -/

namespace Kind

theorem eq_or_binary_of_withoutOperator {k l : Kind} (h : k.withoutOperator = l.withoutOperator) :
    k = l ∨ ∃ op op', k = .expression (.binary op) ∧ l = .expression (.binary op') := by
  unfold withoutOperator at h
  split at h
  case h_1 =>
    split at h
    case h_1 => exact .inr ⟨_, _, rfl, rfl⟩
    case h_2 hne => exact absurd h.symm (hne _)
  case h_2 hne =>
    split at h
    case h_1 => exact absurd h (hne _)
    case h_2 => exact .inl h

/-- Only the operator is forgotten. -/
theorem eq_of_operator? {k l : Kind} (h : k.withoutOperator = l.withoutOperator)
    (hop : k.operator? = l.operator?) : k = l := by
  rcases eq_or_binary_of_withoutOperator h with heq | ⟨op, op', rfl, rfl⟩
  · exact heq
  · rw [Option.some.inj hop]

theorem isSome_operator? {k l : Kind} (h : k.withoutOperator = l.withoutOperator) :
    k.operator?.isSome = l.operator?.isSome := by
  rcases eq_or_binary_of_withoutOperator h with rfl | ⟨op, op', rfl, rfl⟩
  · rfl
  · rfl

theorem leafText?_withoutOperator (k : Kind) : k.withoutOperator.leafText? = k.leafText? := by
  cases k with
  | expression shape => cases shape <;> rfl
  | _ => rfl

theorem heading_withoutOperator (k : Kind) : k.withoutOperator.heading = k.heading := by
  cases k with
  | expression shape => cases shape <;> rfl
  | _ => rfl

theorem isToken_withoutOperator (k : Kind) : k.withoutOperator.isToken = k.isToken := by
  cases k with
  | expression shape => cases shape <;> rfl
  | _ => rfl

end Kind

mutual

/-- The operators of a tree from left to right, each before those of its operands. -/
def Tree.operators : Tree → List Operator
  | .node k below => k.operator?.toList ++ below.operators

def Forest.operators : Forest → List Operator
  | .nil => []
  | .cons _ tree rest => tree.operators ++ rest.operators

end

theorem Forest.operators_eq : ∀ ts : Forest,
    ts.operators = ts.toList.flatMap fun x => x.2.operators
  | .nil => rfl
  | .cons r tree rest => by rw [operators, toList, List.flatMap_cons, operators_eq rest]

namespace Tree

theorem operators_eq (t : Tree) :
    t.operators = t.kind.operator?.toList ++ t.branches.flatMap fun x => x.2.operators := by
  obtain ⟨k, ts⟩ := t
  exact congrArg _ ts.operators_eq

/-- **What a text leaves out**: no text shows the operators of headings. -/
theorem written_withoutOperators (reg : Registry) (options : DumpOptions) (t : Tree) :
    t.withoutOperators.written reg options = t.written reg options := by
  induction t using Tree.induction with
  | h t ih =>
    cases hleaf : t.kind.leafText? with
    | some text =>
      rw [written_of_leaf hleaf, written_of_leaf]
      rw [kind_withoutOperators, Kind.leafText?_withoutOperator, hleaf]
    | none =>
      rw [written_of_composite hleaf, written_of_composite, kind_withoutOperators,
        branches_withoutOperators, Kind.heading_withoutOperator, List.flatMap_map]
      · have hentries : ∀ x ∈ t.branches,
            options.entry reg x.1 x.2.withoutOperators.kind
                (x.2.withoutOperators.written reg options) =
              options.entry reg x.1 x.2.kind (x.2.written reg options) := by
          intro x hx
          rw [ih x hx, kind_withoutOperators]
          unfold DumpOptions.entry
          rw [Kind.isToken_withoutOperator]
        rw [List.flatMap_congr hentries]
      · rw [kind_withoutOperators, Kind.leafText?_withoutOperator, hleaf]

/-- **What a text tells**: everything but the operators of headings. -/
theorem written_eq_iff {reg : Registry} {roles : Bool} {grammar : Kind → Layout}
    (hg : IsGrammar grammar) {t u : Tree} (ht : t.Throughout (Legible reg roles grammar))
    (hu : u.Throughout (Legible reg roles grammar)) :
    t.written reg ⟨roles, true⟩ = u.written reg ⟨roles, true⟩ ↔
      t.withoutOperators = u.withoutOperators := by
  have hends : Ends [] := by simp [Ends]
  constructor
  · intro h
    exact (eq_of_written hg ht hu hends hends (by rw [h])).1
  · intro h
    rw [← written_withoutOperators, h, written_withoutOperators]

/-- A binary expression has a child under the role of operators, and it is the token of its own
operator. -/
def ShowsOperator (t : Tree) : Prop := ∀ op, t.kind = .expression (.binary op) →
  ∃ u : Tree, (RoleId.operator, u) ∈ t.branches ∧
    ∀ x ∈ t.branches, x.1 = .operator → x.2.kind = .token (.operator op)

theorem forall₂_branches_of_withoutOperators {t u : Tree}
    (h : t.withoutOperators = u.withoutOperators) :
    List.Forall₂ (fun x y => x.1 = y.1 ∧ x.2.withoutOperators = y.2.withoutOperators) t.branches
      u.branches := by
  have hmap : List.Forall₂ (· = ·) (t.branches.map fun x => (x.1, x.2.withoutOperators))
      (u.branches.map fun x => (x.1, x.2.withoutOperators)) := by
    rw [List.forall₂_eq_eq_eq, ← branches_withoutOperators, h, branches_withoutOperators]
  have hpairs := List.forall₂_map_left_iff.mp (List.forall₂_map_right_iff.mp hmap)
  exact hpairs.imp fun x y hxy => Prod.mk.inj hxy

theorem withoutOperator_eq_of_withoutOperators {t u : Tree}
    (h : t.withoutOperators = u.withoutOperators) :
    t.kind.withoutOperator = u.kind.withoutOperator := by
  rw [← kind_withoutOperators, h, kind_withoutOperators]

/-- Operators that are shown by their tokens may be forgotten. -/
theorem eq_of_withoutOperators {t : Tree} : ∀ {u : Tree}, t.Throughout ShowsOperator →
    u.Throughout ShowsOperator → t.withoutOperators = u.withoutOperators → t = u := by
  induction t using Tree.induction with
  | h t ih =>
    intro u ht hu h
    have hbelow : t.branches = u.branches := by
      rw [← List.forall₂_eq_eq_eq]
      exact forall₂_of_mem (forall₂_branches_of_withoutOperators h) fun x hx y hy hxy =>
        Prod.ext hxy.1 (ih x hx (ht.of_mem hx) (hu.of_mem hy) hxy.2)
    refine Tree.ext ?_ hbelow
    rcases Kind.eq_or_binary_of_withoutOperator (withoutOperator_eq_of_withoutOperators h) with
      heq | ⟨op, op', hop, hop'⟩
    · exact heq
    · -- the token under the role of operators is the one for both
      obtain ⟨v, hv, htoken⟩ := ht.here op hop
      obtain ⟨-, -, htoken'⟩ := hu.here op' hop'
      cases (htoken _ hv rfl).symm.trans (htoken' _ (hbelow ▸ hv) rfl)
      rw [hop, hop']

/-- The operators of one child end where those of the next begin. -/
theorem eq_of_flatMap_operators {xs ys : List (RoleId × Tree)}
    (h : List.Forall₂ (fun x y => x.1 = y.1 ∧ x.2.withoutOperators = y.2.withoutOperators) xs ys)
    (ih : ∀ x ∈ xs, ∀ {u : Tree} {v w : List Operator}, x.2.withoutOperators = u.withoutOperators →
      x.2.operators ++ v = u.operators ++ w → x.2 = u ∧ v = w) {v w : List Operator}
    (hops : (xs.flatMap fun x => x.2.operators) ++ v = (ys.flatMap fun x => x.2.operators) ++ w) :
    xs = ys ∧ v = w := by
  induction h with
  | nil => exact ⟨rfl, hops⟩
  | @cons x y xs ys hxy _ ihlist =>
    rw [List.flatMap_cons, List.flatMap_cons, List.append_assoc, List.append_assoc] at hops
    obtain ⟨htree, hrest⟩ := ih x List.mem_cons_self hxy.2 hops
    obtain ⟨rfl, hvw⟩ := ihlist (fun z hz => ih z (List.mem_cons_of_mem _ hz)) hrest
    exact ⟨by rw [Prod.ext hxy.1 htree], hvw⟩

/-- **Operators in their order** are all that has to be known besides. -/
theorem eq_of_operators {t : Tree} : ∀ {u : Tree} {v w : List Operator},
    t.withoutOperators = u.withoutOperators → t.operators ++ v = u.operators ++ w →
      t = u ∧ v = w := by
  induction t using Tree.induction with
  | h t ih =>
    intro u v w h hops
    have hkind := withoutOperator_eq_of_withoutOperators h
    rw [operators_eq, operators_eq, List.append_assoc, List.append_assoc] at hops
    have hlength : t.kind.operator?.toList.length = u.kind.operator?.toList.length := by
      have hsome := Kind.isSome_operator? hkind
      cases hop : t.kind.operator? <;> cases hop' : u.kind.operator? <;> simp_all
    -- whether the lists begin with an operator of the root is the same for both
    obtain ⟨hhere, hbelow⟩ := List.append_inj hops hlength
    have hop : t.kind.operator? = u.kind.operator? := by
      have hhead := congrArg List.head? hhere
      rwa [Option.head?_toList, Option.head?_toList] at hhead
    obtain ⟨hbranches, hvw⟩ :=
      eq_of_flatMap_operators (forall₂_branches_of_withoutOperators h) ih hbelow
    exact ⟨Tree.ext (Kind.eq_of_operator? hkind hop) hbranches, hvw⟩

end Tree

end SyntaxForest
