/-
  Characters that are shown as nothing.

  A character with the property Default_Ignorable_Code_Point leaves no trace when a
  program that has no special support for it displays it. Most of these are format
  characters, marks or unassigned. Four are letters, the fillers that stand for the
  missing parts of a Hangul syllable: by their category they would count as visible.
-/
import SyntaxForest.Text.Ranges

namespace SyntaxForest.Text

/-- The code points with the property Default_Ignorable_Code_Point. -/
def defaultIgnorable : Ranges := [
    (0xAD, 0xAD), (0x34F, 0x34F), (0x61C, 0x61C), (0x115F, 0x1160), (0x17B4, 0x17B5),
    (0x180B, 0x180F), (0x200B, 0x200F), (0x202A, 0x202E), (0x2060, 0x206F), (0x3164, 0x3164),
    (0xFE00, 0xFE0F), (0xFEFF, 0xFEFF), (0xFFA0, 0xFFA0), (0xFFF0, 0xFFF8), (0x1BCA0, 0x1BCA3),
    (0x1D173, 0x1D17A), (0xE0000, 0xE0FFF)]

end SyntaxForest.Text
