/-!
# YAML tokens

The tokens of a YAML text: content, punctuation, and the starts and ends of the
collections that indentation alone opens and closes.
-/

namespace Lifecycle.Yaml

/-- How a scalar is written. -/
inductive Style where
  /-- Without quotes. -/
  | plain
  /-- Within quotes. -/
  | quoted
  /-- As an indented block that keeps its lines. -/
  | literal
  /-- As an indented block whose lines are joined. -/
  | folded
  deriving DecidableEq, Repr

/-- A token of a YAML text. Names are characters; parts of tags are bytes, since they may escape
any byte. -/
inductive Token where
  /-- A declaration of the version in use. -/
  | version (major minor : Nat)
  /-- A declaration of what a tag's handle stands for. -/
  | tagHandle (handle : List UInt8) (lead : List UInt8)
  /-- The mark before a document. -/
  | documentStart
  /-- The mark after a document. -/
  | documentEnd
  /-- The start of an indented sequence. -/
  | blockSequence
  /-- The start of an indented mapping. -/
  | blockMapping
  /-- The end of an indented collection. -/
  | blockEnd
  /-- An opening bracket. -/
  | flowSequence
  /-- A closing bracket. -/
  | flowSequenceEnd
  /-- An opening brace. -/
  | flowMapping
  /-- A closing brace. -/
  | flowMappingEnd
  /-- The dash before an item. -/
  | blockEntry
  /-- A comma. -/
  | flowEntry
  /-- What comes next is a key. -/
  | key
  /-- What comes next is a value. -/
  | value
  /-- A reference to an anchor. -/
  | alias (name : List Char)
  /-- A name for the node that follows. -/
  | anchor (name : List Char)
  /-- A tag of the node that follows, as a handle and a suffix; without a handle the suffix is the
  whole tag. -/
  | tag (handle suffix : List UInt8)
  /-- A scalar. -/
  | scalar (style : Style) (text : List Char)
  deriving DecidableEq, Repr

end Lifecycle.Yaml
