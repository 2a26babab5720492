import SchemaLang.Yaml.Tag

/-!
# Tokens

A document is first cut into tokens.  Some of them stand in the text as a mark or a word;
others say how the text is laid out: where a collection in block style starts and ends, and
that what follows is the key of a field, though no mark precedes it.
-/

namespace SchemaLang.Yaml

inductive Token where
  | directive
  | documentStart
  | documentEnd
  | blockSequenceStart
  | blockMappingStart
  /-- The end of a collection in block style. -/
  | blockEnd
  | flowSequenceStart
  | flowSequenceEnd
  | flowMappingStart
  | flowMappingEnd
  /-- What precedes an item of a sequence in block style. -/
  | blockEntry
  /-- What parts the items of a collection in flow style. -/
  | flowEntry
  | key
  | value
  | alias (name : String)
  | anchor (name : String)
  | tag (tag : Tag)
  /-- A scalar with its text, and whether it is written without marks. -/
  | scalar (plain : Bool) (text : String)
deriving DecidableEq

end SchemaLang.Yaml
