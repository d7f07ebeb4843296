/-!
# YAML tokens

The tokens of a text, in the order in which they make up its structure. Indentation is already
turned into `blockSequenceStart`, `blockMappingStart` and `blockEnd`, and a key that is recognised
by the colon after it has its `key` token before it.
-/

namespace ProviderSchema.Yaml

/-- How a scalar is written. -/
inductive Style where
  | plain
  | singleQuoted
  | doubleQuoted
  | literal
  | folded
deriving DecidableEq, Repr, Inhabited

/-- A token. -/
inductive Token where
  | version (major minor : Nat)
  | tagHandle (handle start : String)
  | documentStart
  | documentEnd
  | blockSequenceStart
  | blockMappingStart
  | blockEnd
  | flowSequenceStart
  | flowSequenceEnd
  | flowMappingStart
  | flowMappingEnd
  | blockEntry
  | flowEntry
  | key
  | value
  | alias (name : String)
  | anchor (name : String)
  | tag (handle rest : String)
  | scalar (text : String) (style : Style)
deriving DecidableEq, Repr, Inhabited

end ProviderSchema.Yaml
