/-!
# What makes a text no XML document
-/

namespace LintDigest.Xml

/-- The reasons for which a text is refused. -/
inductive Fault
  | character
  | name
  | reference
  | badAttribute
  | repeatedAttribute
  | unknownNamespace
  | badNamespace
  | tag
  | endTag
  | comment
  | instruction
  | declaration
  | characterData
  | definition
  | outsideRoot
  | noRoot
  | unclosed
  deriving DecidableEq, Inhabited

/-- A short description for error messages. -/
def Fault.message : Fault → String
  | character => "a character is not allowed in XML"
  | name => "a name is malformed"
  | reference => "a reference is malformed or unknown"
  | badAttribute => "an attribute is malformed"
  | repeatedAttribute => "an attribute occurs twice"
  | unknownNamespace => "a name uses an undeclared namespace"
  | badNamespace => "a namespace must not be declared this way"
  | tag => "a tag is malformed"
  | endTag => "an end tag does not match its start tag"
  | comment => "a comment is malformed"
  | instruction => "a processing instruction is malformed"
  | declaration => "the XML declaration is malformed or misplaced"
  | characterData => "character data is malformed"
  | definition => "a document type definition is not allowed"
  | outsideRoot => "there is content outside the root element"
  | noRoot => "there is no root element"
  | unclosed => "an element is not closed"

end LintDigest.Xml
