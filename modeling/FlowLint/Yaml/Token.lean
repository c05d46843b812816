import FlowLint.Yaml.Tag

/-!
# The tokens of YAML

What the text of a document is cut into. The mappings that indentation makes have tokens of their own. An anchor is known
by a number.
-/

namespace FlowLint.Yaml

/-- A part of a text. -/
inductive Token where
  | version (major minor : Nat)
  | tagHandle (handle : String) (front : List UInt8)
  | documentStart
  | documentEnd
  | blockStart
  | blockEnd
  | flowStart
  | flowEnd
  | comma
  | key
  | value
  | anchor (mark : Nat)
  | alias (mark : Nat)
  | tag (name : TagName)
  | scalar (style : ScalarStyle) (text : String)
deriving DecidableEq, Repr, Inhabited

end FlowLint.Yaml
