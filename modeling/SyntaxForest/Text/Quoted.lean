/-
  Quoted text.

  `quote s` writes a text between double quotes, so that the result is one visible
  line whatever `s` holds:

    - the double quote and the backslash are preceded by a backslash;
    - the null character, tab, line feed and carriage return have the short escapes
      `\0`, `\t`, `\n`, `\r`;
    - a character that does not print, that is shown as nothing, or that is a mark and
      would attach to its neighbour, is written by its code point, `\u` and the
      lower-case hexadecimal digits in braces;
    - every other character stands for itself. The single quote is one of them.

  Quoting works character by character (`quote_eq`), and an escape always begins with
  a backslash, which no unescaped character does: that is what makes quoted text
  readable again.
-/
import SyntaxForest.Text.DefaultIgnorable
import SyntaxForest.Text.ExtendingMark
import SyntaxForest.Text.Unprintable

namespace SyntaxForest.Text

/-- Does the character stand for itself in quoted text, its short escapes apart?
    The visible characters of the first 128 are settled without the tables. -/
def isPlain (c : Char) : Bool :=
  (0x20 ≤ c.toNat && c.toNat < 0x7F) ||
    !(unprintable.has c || defaultIgnorable.has c || extendingMark.has c)

/-- A character by its code point. -/
def hexEscape (c : Char) : List Char :=
  ['\\', 'u', '\x7b'] ++ Nat.toDigits 16 c.toNat ++ ['\x7d']

/-- How one character is written inside quotes. -/
def escape (c : Char) : List Char :=
  if c = '\x00' then ['\\', '0']
  else if c = '\t' then ['\\', 't']
  else if c = '\n' then ['\\', 'n']
  else if c = '\r' then ['\\', 'r']
  else if c = '"' then ['\\', '"']
  else if c = '\\' then ['\\', '\\']
  else if isPlain c then [c]
  else hexEscape c

/-- A text in double quotes. -/
def quote (s : String) : String :=
  String.ofList ('"' :: s.toList.flatMap escape ++ ['"'])

theorem quote_eq (s : String) :
    (quote s).toList = '"' :: s.toList.flatMap escape ++ ['"'] := by
  simp [quote]

end SyntaxForest.Text
