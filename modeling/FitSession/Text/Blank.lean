/-!
# Blanks

The characters with the Unicode property White_Space, and the word operations that rest on them.

* `isBlank`: membership of a character;
* `dropBlanks`, `words`: leading blanks removed, and the maximal runs without a blank.
-/

namespace FitSession

/-- Whether a character is white space: the ASCII blanks, the no-break space, the line and
paragraph separators and the spaces of fixed width. -/
def isBlank (c : Char) : Bool :=
  let n := c.toNat
  (9 ≤ n && n ≤ 13) || n = 0x20 || n = 0x85 || n = 0xA0 || n = 0x1680
    || (0x2000 ≤ n && n ≤ 0x200A) || n = 0x2028 || n = 0x2029 || n = 0x202F || n = 0x205F
    || n = 0x3000

/-- The text without its leading blanks. -/
def dropBlanks (cs : List Char) : List Char := cs.dropWhile isBlank

/-- The maximal runs of characters that are no blanks. -/
def words (cs : List Char) : List (List Char) :=
  (cs.splitOnP isBlank).filter (!·.isEmpty)

end FitSession
