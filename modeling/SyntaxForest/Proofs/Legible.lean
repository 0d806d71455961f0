import Mathlib.Tactic.Common
import SyntaxForest.Dump

/-!
# Texts that say where they end

A reader who knows what comes next in a dump can tell where it ends.  For most texts this is so
because they are made of certain characters and what follows them is not (`append_inj_of_stop`): the
name of a tag ends before a blank or a parenthesis, a token before its quote.  Quoted text may
contain any character, but every character in it is written in a way that no other one begins with
(`escape_inj`), and none begins with a quote: so the quote that ends the text is found
(`quoted_inj`).

Together this settles literals (`Literal.eq_of_text`), and headings (`Kind.eq_of_heading`).  A
heading is a tag and perhaps a payload, and whether there is one is told by the tag, or by the `$`
that it begins with.  The operator of a binary expression is not in its heading: headings are read
up to `Kind.withoutOperator`.
-/

namespace SyntaxForest

/-! ### Stops -/

/-- The text is at its end, or goes on with a character that is not a `p`. -/
def StopsAt (p : Char → Bool) (r : List Char) : Prop := ∀ c ∈ r.head?, p c = false

/-- Texts made of `p` end where the first character comes that is not a `p`. -/
theorem append_inj_of_stop {p : Char → Bool} : ∀ {v w r s : List Char}, (∀ c ∈ v, p c = true) →
    (∀ c ∈ w, p c = true) → StopsAt p r → StopsAt p s → v ++ r = w ++ s → v = w ∧ r = s
  | [], [], _, _, _, _, _, _, h => ⟨rfl, h⟩
  | [], d :: w, r, s, _, hw, hr, _, h => by
    obtain rfl : r = d :: (w ++ s) := h
    have hd := hr d rfl
    rw [hw d List.mem_cons_self] at hd
    cases hd
  | c :: v, [], r, s, hv, _, _, hs, h => by
    obtain rfl : c :: (v ++ r) = s := h
    have hc := hs c rfl
    rw [hv c List.mem_cons_self] at hc
    cases hc
  | c :: v, d :: w, r, s, hv, hw, hr, hs, h => by
    obtain ⟨rfl, hrest⟩ := List.cons.inj h
    obtain ⟨rfl, rfl⟩ := append_inj_of_stop (fun x hx => hv x (List.mem_cons_of_mem _ hx))
      (fun x hx => hw x (List.mem_cons_of_mem _ hx)) hr hs hrest
    exact ⟨rfl, rfl⟩

/-- What may come after the text of a node: nothing, or a blank or parenthesis. -/
def Ends (r : List Char) : Prop := ∀ c ∈ r.head?, c = ' ' ∨ c = ')'

theorem Ends.stopsAt {r : List Char} (h : Ends r) {p : Char → Bool} (hblank : p ' ' = false)
    (hclosing : p ')' = false) : StopsAt p r := by
  intro c hc
  rcases h c hc with rfl | rfl
  · exact hblank
  · exact hclosing

/-! ### Numbers -/

namespace Text

theorem digitChar_inj : ∀ j < 16, ∀ k < 16, Nat.digitChar j = Nat.digitChar k → j = k := by
  decide

section Digits

variable {base : Nat} (hbase : 1 < base) (hle : base ≤ 16)
include hbase

theorem exists_digitChar_of_mem_toDigits {n : Nat} {c : Char} (hc : c ∈ Nat.toDigits base n) :
    ∃ k < base, c = Nat.digitChar k := by
  induction n using Nat.strongRecOn with
  | _ n ih =>
    rw [Nat.toDigits_eq_if hbase] at hc
    split_ifs at hc with hn
    · exact ⟨n, hn, List.mem_singleton.mp hc⟩
    · rcases List.mem_append.mp hc with hc | hc
      · exact ih (n / base) (Nat.div_lt_self (by omega) hbase) hc
      · exact ⟨n % base, Nat.mod_lt _ (by omega), List.mem_singleton.mp hc⟩

include hle

/-- A number is known by its digits. -/
theorem eq_of_toDigits_eq {n m : Nat} (h : Nat.toDigits base n = Nat.toDigits base m) : n = m := by
  induction n using Nat.strongRecOn generalizing m with
  | _ n ih =>
    have hlast : ∀ k, Nat.toDigits base k = if k < base then [Nat.digitChar k]
        else Nat.toDigits base (k / base) ++ [Nat.digitChar (k % base)] :=
      fun k => Nat.toDigits_eq_if hbase
    have hdigit : ∀ j < base, ∀ k < base, Nat.digitChar j = Nat.digitChar k → j = k :=
      fun j hj k hk => digitChar_inj j (by omega) k (by omega)
    -- a number below the base has one digit, and the others have more
    have hmore : ∀ k c x, [c] ≠ Nat.toDigits base k ++ [x] := by
      intro k c x heq
      have hlength := congrArg List.length heq
      simp [Nat.toDigits_ne_nil] at hlength
    rw [hlast n, hlast m] at h
    split_ifs at h with hn hm hm
    · exact hdigit n hn m hm (List.singleton_inj.mp h)
    · exact absurd h (hmore _ _ _)
    · exact absurd h.symm (hmore _ _ _)
    · obtain ⟨hhigh, hlow⟩ := List.append_inj' h rfl
      have hdiv : n / base = m / base := ih _ (Nat.div_lt_self (by omega) hbase) hhigh
      have hmod : n % base = m % base := hdigit _ (Nat.mod_lt _ (by omega)) _
        (Nat.mod_lt _ (by omega)) (List.singleton_inj.mp hlow)
      rw [← Nat.div_add_mod n base, ← Nat.div_add_mod m base, hdiv, hmod]

end Digits

/-! ### Characters by their code point -/

theorem hexEscape_inj {c d : Char} {r s : List Char} (h : hexEscape c ++ r = hexEscape d ++ s) :
    c = d ∧ r = s := by
  have hdigits : ∀ n, ∀ x ∈ Nat.toDigits 16 n, (x != '\x7d') = true := by
    intro n x hx
    obtain ⟨k, hk, rfl⟩ := exists_digitChar_of_mem_toDigits (by decide) hx
    clear hx
    revert k
    decide
  have hrest : Nat.toDigits 16 c.toNat ++ '\x7d' :: r = Nat.toDigits 16 d.toNat ++ '\x7d' :: s := by
    simpa [hexEscape] using h
  obtain ⟨hcode, hafter⟩ := append_inj_of_stop (hdigits _) (hdigits _) (by simp [StopsAt])
    (by simp [StopsAt]) hrest
  exact ⟨Char.toNat_inj.mp (eq_of_toDigits_eq (by decide) (by decide) hcode),
    (List.cons.inj hafter).2⟩

/-! ### Quoted text -/

/-- The character that a short escape stands for. -/
def unescape (x : Char) : Char :=
  if x = '0' then '\x00'
  else if x = 't' then '\t'
  else if x = 'n' then '\n'
  else if x = 'r' then '\r'
  else x

/-- A character is written as itself, by a short escape or by its code point. -/
theorem escape_cases (c : Char) : (escape c = [c] ∧ c ≠ '\\' ∧ c ≠ '"') ∨
    (∃ x, escape c = ['\\', x] ∧ x ≠ 'u' ∧ unescape x = c) ∨ escape c = hexEscape c := by
  unfold escape
  split_ifs with h₁ h₂ h₃ h₄ h₅ h₆ h₇
  · exact .inr (.inl ⟨'0', rfl, by decide, h₁.symm⟩)
  · exact .inr (.inl ⟨'t', rfl, by decide, h₂.symm⟩)
  · exact .inr (.inl ⟨'n', rfl, by decide, h₃.symm⟩)
  · exact .inr (.inl ⟨'r', rfl, by decide, h₄.symm⟩)
  · exact .inr (.inl ⟨'"', rfl, by decide, h₅.symm⟩)
  · exact .inr (.inl ⟨'\\', rfl, by decide, h₆.symm⟩)
  · exact .inl ⟨rfl, h₆, h₅⟩
  · exact .inr (.inr rfl)

/-- **Escapes are a prefix code**: no character is written as the beginning of another. -/
theorem escape_inj {c d : Char} {r s : List Char} (h : escape c ++ r = escape d ++ s) :
    c = d ∧ r = s := by
  rcases escape_cases c with ⟨hc, hslash, -⟩ | ⟨x, hc, hu, rfl⟩ | hc <;>
    rcases escape_cases d with ⟨hd, hslash', -⟩ | ⟨y, hd, hu', rfl⟩ | hd <;> rw [hc, hd] at h
  -- a backslash tells an escape from a character, and an `u` tells the two sorts of escapes apart
  · exact List.cons.inj h
  · exact absurd (List.cons.inj h).1 hslash
  · exact absurd (List.cons.inj h).1 hslash
  · exact absurd (List.cons.inj h).1.symm hslash'
  · obtain ⟨-, hrest⟩ := List.cons.inj h
    obtain ⟨rfl, hafter⟩ := List.cons.inj hrest
    exact ⟨rfl, hafter⟩
  · exact absurd (List.cons.inj (List.cons.inj h).2).1 hu
  · exact absurd (List.cons.inj h).1.symm hslash'
  · exact absurd (List.cons.inj (List.cons.inj h).2).1.symm hu'
  · exact hexEscape_inj h

/-- No character is written with a quote in front. -/
theorem escape_append_ne (c : Char) (r s : List Char) : escape c ++ r ≠ '"' :: s := by
  intro h
  rcases escape_cases c with ⟨hc, -, hquote⟩ | ⟨x, hc, -⟩ | hc <;> rw [hc] at h
  · exact hquote (List.cons.inj h).1
  · exact absurd (List.cons.inj h).1 (by decide)
  · exact absurd (List.cons.inj h).1 (by decide)

/-- **Quoted text** ends at the first quote that is not part of an escape. -/
theorem quoted_inj : ∀ {v w r s : List Char},
    v.flatMap escape ++ '"' :: r = w.flatMap escape ++ '"' :: s → v = w ∧ r = s
  | [], [], _, _, h => ⟨rfl, (List.cons.inj h).2⟩
  | [], d :: w, r, s, h => by
    rw [List.flatMap_cons, List.append_assoc] at h
    exact absurd h.symm (escape_append_ne d _ _)
  | c :: v, [], r, s, h => by
    rw [List.flatMap_cons, List.append_assoc] at h
    exact absurd h (escape_append_ne c _ _)
  | c :: v, d :: w, r, s, h => by
    rw [List.flatMap_cons, List.flatMap_cons, List.append_assoc, List.append_assoc] at h
    obtain ⟨rfl, hrest⟩ := escape_inj h
    obtain ⟨rfl, rfl⟩ := quoted_inj hrest
    exact ⟨rfl, rfl⟩

theorem quote_inj {v w : String} {r s : List Char}
    (h : (quote v).toList ++ r = (quote w).toList ++ s) : v = w ∧ r = s := by
  rw [quote_eq, quote_eq] at h
  have hrest : v.toList.flatMap escape ++ '"' :: r = w.toList.flatMap escape ++ '"' :: s := by
    simpa using h
  obtain ⟨htext, hafter⟩ := quoted_inj hrest
  exact ⟨String.toList_injective htext, hafter⟩

end Text

/-! ### Literals -/

namespace Literal

/-- The characters of numbers and of words. -/
def isPlain (c : Char) : Bool := c.isAlphanum || c == '-'

theorem text_int (i : Int) : (int i).text.toList =
    if 0 ≤ i then Nat.toDigits 10 i.toNat else '-' :: Nat.toDigits 10 (-i).toNat := by
  rw [text, Int.toString_eq_repr, Int.repr_eq_if]
  split_ifs
  · rw [Nat.repr_eq_ofList_toDigits, String.toList_ofList]
  · simp [Nat.repr_eq_ofList_toDigits]

theorem numeral_of_mem_text_int {i : Int} {c : Char} (hc : c ∈ (int i).text.toList) :
    c.isDigit = true ∨ c = '-' := by
  rw [text_int] at hc
  split_ifs at hc
  · exact .inl (Nat.isDigit_of_mem_toDigits (by decide) (by decide) hc)
  · rcases List.mem_cons.mp hc with rfl | hc
    · exact .inr rfl
    · exact .inl (Nat.isDigit_of_mem_toDigits (by decide) (by decide) hc)

/-- A literal is a text in quotes, or made of plain characters. -/
theorem eq_str_or_plain (v : Literal) :
    (∃ s, v = str s) ∨ ∀ c ∈ v.text.toList, isPlain c = true := by
  cases v with
  | str s => exact .inl ⟨s, rfl⟩
  | null => exact .inr (List.all_eq_true.mp (by decide))
  | bool b => exact .inr (List.all_eq_true.mp (by cases b <;> decide))
  | int i =>
    refine .inr fun c hc => ?_
    rcases numeral_of_mem_text_int hc with hdigit | rfl
    · simp [isPlain, Char.isAlphanum, hdigit]
    · decide

theorem eq_of_text_int {i j : Int} (h : (int i).text = (int j).text) : i = j := by
  have hchars := congrArg String.toList h
  have hdigits : ∀ n m, Nat.toDigits 10 n = Nat.toDigits 10 m → n = m :=
    fun n m => Text.eq_of_toDigits_eq (by decide) (by decide)
  have hsign : ∀ n m, Nat.toDigits 10 n ≠ '-' :: Nat.toDigits 10 m := by
    intro n m heq
    have hminus : '-' ∈ Nat.toDigits 10 n := heq ▸ List.mem_cons_self
    exact absurd (Nat.isDigit_of_mem_toDigits (by decide) (by decide) hminus) (by decide)
  rw [text_int, text_int] at hchars
  -- a number begins with a digit or with a sign
  split_ifs at hchars
  · have := hdigits _ _ hchars
    omega
  · exact absurd hchars (hsign _ _)
  · exact absurd hchars.symm (hsign _ _)
  · have := hdigits _ _ (List.cons.inj hchars).2
    omega

/-- Words are not numbers. -/
theorem text_int_ne {v : Literal} {i : Int}
    (hv : ∃ c ∈ v.text.toList, c.isDigit = false ∧ c ≠ '-') : v.text ≠ (int i).text := by
  obtain ⟨c, hc, hdigit, hminus⟩ := hv
  intro h
  rw [h] at hc
  rcases numeral_of_mem_text_int hc with hnum | hnum
  · rw [hdigit] at hnum
    cases hnum
  · exact hminus hnum

/-- Literals that are not in quotes are known by their text. -/
theorem eq_of_text_eq {v w : Literal} (h : v.text = w.text) (hv : ∀ s, v ≠ str s)
    (hw : ∀ s, w ≠ str s) : v = w := by
  have hword : ∀ u : Literal, u = null ∨ (∃ b, u = bool b) →
      ∃ c ∈ u.text.toList, c.isDigit = false ∧ c ≠ '-' := by
    intro u hu
    have hany : u.text.toList.any (fun c => !c.isDigit && c != '-') = true := by
      rcases hu with rfl | ⟨b, rfl⟩
      · decide
      · cases b <;> decide
    simpa using hany
  cases v with
  | str s => exact absurd rfl (hv s)
  | int i =>
    cases w with
    | str s => exact absurd rfl (hw s)
    | int j => rw [eq_of_text_int h]
    | bool b => exact absurd h.symm (text_int_ne (hword _ (.inr ⟨b, rfl⟩)))
    | null => exact absurd h.symm (text_int_ne (hword _ (.inl rfl)))
  | bool b =>
    cases w with
    | str s => exact absurd rfl (hw s)
    | int j => exact absurd h (text_int_ne (hword _ (.inr ⟨b, rfl⟩)))
    | bool c => cases b <;> cases c <;> revert h <;> decide
    | null => cases b <;> revert h <;> decide
  | null =>
    cases w with
    | str s => exact absurd rfl (hw s)
    | int j => exact absurd h (text_int_ne (hword _ (.inl rfl)))
    | bool b => cases b <;> revert h <;> decide
    | null => rfl

/-- Plain characters do not begin with a quote, nor does what may come after them. -/
theorem plain_append_ne {v r : List Char} (hv : ∀ c ∈ v, isPlain c = true) (hr : Ends r)
    (s : List Char) : v ++ r ≠ '"' :: s := by
  rintro h
  cases v with
  | nil =>
    obtain rfl : r = '"' :: s := h
    rcases hr '"' rfl with hquote | hquote <;> exact absurd hquote (by decide)
  | cons c v =>
    obtain ⟨rfl, -⟩ := List.cons.inj h
    exact absurd (hv _ List.mem_cons_self) (by decide)

/-- **Literals** are known by their texts, whatever may come after them. -/
theorem eq_of_text {v w : Literal} {r s : List Char} (hr : Ends r) (hs : Ends s)
    (h : v.text.toList ++ r = w.text.toList ++ s) : v = w ∧ r = s := by
  have hquote : ∀ x, ∃ u, (str x).text.toList = '"' :: u := fun x => ⟨_, Text.quote_eq x⟩
  rcases v.eq_str_or_plain with ⟨x, rfl⟩ | hv
  · rcases w.eq_str_or_plain with ⟨y, rfl⟩ | hw
    · obtain ⟨rfl, hrest⟩ := Text.quote_inj h
      exact ⟨rfl, hrest⟩
    · obtain ⟨u, hu⟩ := hquote x
      rw [hu] at h
      exact absurd h.symm (plain_append_ne hw hs _)
  · rcases w.eq_str_or_plain with ⟨y, rfl⟩ | hw
    · obtain ⟨u, hu⟩ := hquote y
      rw [hu] at h
      exact absurd h (plain_append_ne hv hr _)
    · obtain ⟨htext, hrest⟩ := append_inj_of_stop hv hw (hr.stopsAt (by decide) (by decide))
        (hs.stopsAt (by decide) (by decide)) h
      have hnot : ∀ {u : Literal}, (∀ c ∈ u.text.toList, isPlain c = true) → ∀ x, u ≠ str x := by
        rintro u hu x rfl
        obtain ⟨t, ht⟩ := hquote x
        exact absurd (hu '"' (ht ▸ List.mem_cons_self)) (by decide)
      exact ⟨eq_of_text_eq (String.toList_injective htext) (hnot hv) (hnot hw), hrest⟩

end Literal

/-! ### Words and tokens -/

/-- A text that can be a name: letters, digits and underscores of the first 128 characters, at least
one of them. -/
def isWord (s : String) : Bool := s != "" && s.toList.all fun c => c.isAlphanum || c == '_'

theorem mem_of_isWord {s : String} (h : isWord s = true) :
    ∀ c ∈ s.toList, (c.isAlphanum || c == '_') = true := by
  simp only [isWord, Bool.and_eq_true, List.all_eq_true] at h
  exact h.2

theorem toList_ne_nil_of_isWord {s : String} (h : isWord s = true) : s.toList ≠ [] := by
  intro hnil
  simp only [isWord, Bool.and_eq_true, bne_iff_ne] at h
  exact h.1 (String.toList_injective hnil)

/-- **Words** are known by their texts. -/
theorem eq_of_isWord {v w : String} {r s : List Char} (hv : isWord v = true) (hw : isWord w = true)
    (hr : Ends r) (hs : Ends s) (h : v.toList ++ r = w.toList ++ s) : v = w ∧ r = s := by
  obtain ⟨htext, hrest⟩ := append_inj_of_stop (mem_of_isWord hv) (mem_of_isWord hw)
    (hr.stopsAt (by decide) (by decide)) (hs.stopsAt (by decide) (by decide)) h
  exact ⟨String.toList_injective htext, hrest⟩

namespace Token

theorem ofText?_text (t : Token) : ofText? t.text = some t := by
  cases t with
  | operator op => cases op <;> decide
  | _ => decide

theorem ne_quote_of_mem_text {t : Token} : ∀ c ∈ t.text.toList, (c != '\'') = true := by
  refine List.all_eq_true.mp ?_
  cases t with
  | operator op => cases op <;> decide
  | _ => decide

/-- **Tokens** end with the quote that they begin with. -/
theorem eq_of_text {t u : Token} {r s : List Char}
    (h : t.text.toList ++ '\'' :: r = u.text.toList ++ '\'' :: s) : t = u ∧ r = s := by
  obtain ⟨htext, hrest⟩ := append_inj_of_stop ne_quote_of_mem_text ne_quote_of_mem_text
    (by simp [StopsAt]) (by simp [StopsAt]) h
  have hfound : some t = some u := by
    rw [← ofText?_text t, ← ofText?_text u, String.toList_injective htext]
  exact ⟨Option.some.inj hfound, (List.cons.inj hrest).2⟩

end Token

/-! ### Headings -/

namespace Tag

def all : List Tag :=
  [token, identifier, primitiveExpression, identifierExpression, binaryExpression, gotoStatement,
    gotoCaseStatement, gotoDefaultStatement, labelStatement, blockStatement, expressionStatement,
    anyNode, anyNodeOrNull, backreference, namedNode, choice]

theorem find?_name (t : Tag) : all.find? (·.name = t.name) = some t := by
  cases t <;> decide

theorem isAlpha_of_mem_name {t : Tag} : ∀ c ∈ t.name.toList, c.isAlpha = true := by
  refine List.all_eq_true.mp ?_
  cases t <;> decide

theorem eq_of_name {t u : Tag} {r s : List Char} (hr : StopsAt Char.isAlpha r)
    (hs : StopsAt Char.isAlpha s) (h : t.name.toList ++ r = u.name.toList ++ s) :
    t = u ∧ r = s := by
  obtain ⟨htext, hrest⟩ := append_inj_of_stop isAlpha_of_mem_name isAlpha_of_mem_name hr hs h
  have hfound : some t = some u := by
    rw [← find?_name t, ← find?_name u, String.toList_injective htext]
  exact ⟨Option.some.inj hfound, hrest⟩

/-- The kind with the given tag, literal and group.  Binary expressions get the first operator. -/
def fill (value : Option Literal) (group : Option String) : Tag → Option Kind
  | token | identifier => none
  | primitiveExpression => value.map fun v => .expression (.primitive v)
  | identifierExpression => some (.expression .identifier)
  | binaryExpression => some (.expression (.binary .add))
  | gotoStatement => some (.statement .goto)
  | gotoCaseStatement => some (.statement .gotoCase)
  | gotoDefaultStatement => some (.statement .gotoDefault)
  | labelStatement => some (.statement .label)
  | blockStatement => some (.statement .block)
  | expressionStatement => some (.statement .expression)
  | anyNode => some (.pattern (.any group))
  | anyNodeOrNull => some (.pattern (.anyOrNull group))
  | backreference => group.map fun g => .pattern (.backreference g)
  | namedNode => group.map fun g => .pattern (.named g)
  | choice => some (.pattern .choice)

end Tag

namespace Kind

/-- The kind, with the first operator in the place of any other. -/
def withoutOperator : Kind → Kind
  | expression (.binary _) => expression (.binary .add)
  | k => k

/-- The group that a placeholder mentions. -/
def group? : Kind → Option String
  | pattern p => p.group
  | _ => none

/-- Names and groups are words. -/
def isWorded : Kind → Bool
  | identifier name => isWord name
  | pattern p => p.group.all isWord
  | _ => true

/-- What is written after the tag. -/
def payload (k : Kind) : List Char :=
  match k.literal?, k.group? with
  | some value, _ => ' ' :: value.text.toList
  | none, some group => ' ' :: '$' :: group.toList
  | none, none => []

theorem heading_eq (k : Kind) : k.heading.toList = k.tag.name.toList ++ k.payload := by
  cases k with
  | token t => simp [heading, payload, literal?, group?]
  | identifier name => simp [heading, payload, literal?, group?]
  | statement shape => simp [heading, payload, literal?, group?]
  | expression shape => cases shape <;> simp [heading, payload, literal?, group?]
  | pattern p =>
    cases hg : p.group <;> simp [heading, payload, literal?, group?, hg]

/-- Tag, literal and group say all about a kind but its operator. -/
theorem withoutOperator_eq {k : Kind} (hk : k.leafText? = none) :
    some k.withoutOperator = k.tag.fill k.literal? k.group? := by
  cases k with
  | token t => cases hk
  | identifier name => cases hk
  | statement shape => cases shape <;> rfl
  | expression shape => cases shape <;> rfl
  | pattern p => cases p <;> rfl

theorem isSome_literal? (k : Kind) : k.literal?.isSome = decide (k.tag = .primitiveExpression) := by
  cases k with
  | token t => rfl
  | identifier name => rfl
  | statement shape => cases shape <;> rfl
  | expression shape => cases shape <;> rfl
  | pattern p => cases p <;> rfl

/-- Literals have no group. -/
theorem group?_of_literal? {k : Kind} {v : Literal} (h : k.literal? = some v) :
    k.group? = none := by
  cases k with
  | pattern p => cases h
  | _ => rfl

theorem isWord_of_group? {k : Kind} (hk : k.isWorded = true) {g : String} (hg : k.group? = some g) :
    isWord g = true := by
  cases k with
  | pattern p =>
    have hgroup : p.group = some g := hg
    have hword : p.group.all isWord = true := hk
    rwa [hgroup] at hword
  | _ => cases hg

end Kind

/-- What may come after a heading: the closing parenthesis, or a blank and what is not a group. -/
def EndsHeading (r : List Char) : Prop :=
  (∃ r', r = ')' :: r') ∨ ∃ c r', r = ' ' :: c :: r' ∧ c ≠ '$'

theorem EndsHeading.ends {r : List Char} (h : EndsHeading r) : Ends r := by
  rcases h with ⟨r', rfl⟩ | ⟨c, r', rfl, -⟩ <;> simp [Ends]

theorem EndsHeading.ne_group {r : List Char} (h : EndsHeading r) (s : List Char) :
    r ≠ ' ' :: '$' :: s := by
  rintro rfl
  rcases h with ⟨r', hr⟩ | ⟨c, r', hr, hc⟩
  · cases hr
  · obtain ⟨hdollar, -⟩ := List.cons.inj (List.cons.inj hr).2
    exact hc hdollar.symm

namespace Kind

theorem stopsAt_payload (k : Kind) {r : List Char} (hr : EndsHeading r) :
    StopsAt Char.isAlpha (k.payload ++ r) := by
  unfold payload
  split
  · simp [StopsAt]
  · simp [StopsAt]
  · exact hr.ends.stopsAt (by decide) (by decide)

/-- Nodes with the same tag are known by their payloads. -/
theorem eq_of_payload {k l : Kind} {r s : List Char} (htag : k.tag = l.tag)
    (hk : k.isWorded = true) (hl : l.isWorded = true) (hr : EndsHeading r) (hs : EndsHeading s)
    (h : k.payload ++ r = l.payload ++ s) :
    k.literal? = l.literal? ∧ k.group? = l.group? ∧ r = s := by
  have hsome : k.literal?.isSome = l.literal?.isSome := by
    rw [isSome_literal?, isSome_literal?, htag]
  unfold payload at h
  cases hv : k.literal? with
  | some v =>
    rw [hv, Option.isSome_some] at hsome
    obtain ⟨w, hw⟩ := Option.isSome_iff_exists.mp hsome.symm
    rw [hv, hw] at h
    obtain ⟨rfl, hrest⟩ := Literal.eq_of_text hr.ends hs.ends (List.cons.inj h).2
    exact ⟨hw.symm, by rw [group?_of_literal? hv, group?_of_literal? hw], hrest⟩
  | none =>
    rw [hv, Option.isSome_none] at hsome
    have hw := Option.isSome_eq_false_iff.mp hsome.symm
    rw [Option.isNone_iff_eq_none] at hw
    rw [hv, hw] at h
    refine ⟨hw.symm, ?_⟩
    cases hg : k.group? with
    | none =>
      cases hj : l.group? with
      | none =>
        rw [hg, hj] at h
        exact ⟨rfl, h⟩
      | some j =>
        rw [hg, hj] at h
        exact absurd h (hr.ne_group _)
    | some g =>
      cases hj : l.group? with
      | none =>
        rw [hg, hj] at h
        exact absurd h.symm (hs.ne_group _)
      | some j =>
        rw [hg, hj] at h
        obtain ⟨rfl, hrest⟩ := eq_of_isWord (isWord_of_group? hk hg) (isWord_of_group? hl hj)
          hr.ends hs.ends (List.cons.inj (List.cons.inj h).2).2
        exact ⟨rfl, hrest⟩

/-- **Headings** say all about a kind but its operator. -/
theorem eq_of_heading {k l : Kind} {r s : List Char} (hleaf : k.leafText? = none)
    (hleaf' : l.leafText? = none) (hk : k.isWorded = true) (hl : l.isWorded = true)
    (hr : EndsHeading r) (hs : EndsHeading s)
    (h : k.heading.toList ++ r = l.heading.toList ++ s) :
    k.withoutOperator = l.withoutOperator ∧ r = s := by
  rw [heading_eq, heading_eq, List.append_assoc, List.append_assoc] at h
  obtain ⟨htag, hpayload⟩ := Tag.eq_of_name (k.stopsAt_payload hr) (l.stopsAt_payload hs) h
  obtain ⟨hvalue, hgroup, hrest⟩ := eq_of_payload htag hk hl hr hs hpayload
  refine ⟨Option.some.inj ?_, hrest⟩
  rw [withoutOperator_eq hleaf, withoutOperator_eq hleaf', htag, hvalue, hgroup]

end Kind

end SyntaxForest
