/-!
# Text inside markup

`escape` makes a text safe inside attribute values and element content. It is made of eight passes
over the whole text; the ampersand goes first, so that no later pass meets the ampersand of a
reference written by an earlier one in need of escaping.
-/

namespace LintDigest.Markup

/-- The eight characters that are written as references, in the order of the passes. -/
def references : List (Char × String) :=
  [('&', "&amp;"), ('<', "&lt;"), ('>', "&gt;"), ('"', "&quot;"), ('\x27', "&apos;"),
    ('\n', "&#10;"), ('\r', "&#13;"), ('\t', "&#9;")]

/-- One pass: every `c` becomes `ref`. -/
def substitute (c : Char) (ref : String) (cs : List Char) : List Char :=
  cs.flatMap fun x => if x = c then ref.toList else [x]

/-- The text with markup characters and line breaks written as references. -/
def escape (s : String) : String :=
  String.ofList (references.foldl (fun cs (c, ref) => substitute c ref cs) s.toList)

end LintDigest.Markup
