import LintDigest.Text.Split

/-!
# White space

`isBlank` is the Unicode property `White_Space`. Texts are trimmed, cut into words and squashed to
one line by it.
-/

namespace LintDigest.Text

/-- The 25 characters of the Unicode property `White_Space`. -/
def isBlank (c : Char) : Bool :=
  let n := c.toNat
  (0x09 ≤ n && n ≤ 0x0D) || n == 0x20 || n == 0x85 || n == 0xA0 || n == 0x1680 ||
    (0x2000 ≤ n && n ≤ 0x200A) || n == 0x2028 || n == 0x2029 || n == 0x202F || n == 0x205F ||
    n == 0x3000

/-- The text without the white space at its two ends. -/
def trim (cs : List Char) : List Char :=
  ((cs.dropWhile isBlank).reverse.dropWhile isBlank).reverse

/-- The longest runs of characters that are not white space, in order. -/
def words (cs : List Char) : List (List Char) :=
  (split isBlank cs).filter (· ≠ [])

/-- The words of a text with one space between neighbours: the text on a single line. -/
def squash (s : String) : String :=
  String.ofList (glue [' '] (words s.toList))

/-- A keyword as it is looked up: trimmed, and its ASCII letters in lower case. -/
def keyword (s : String) : String :=
  String.ofList ((trim s.toList).map Char.toLower)

end LintDigest.Text
