import Adjudication.Text.Wide
import Adjudication.Yaml.Cursor

/-!
Tokens of YAML texts. Blocks are told apart by indentation, so that their starts and ends are tokens of their own.
-/

namespace Adjudication.Yaml

/-- A line at the top of a document. -/
inductive Directive where
  | version (major : Nat)
  /-- A short form of tags and what it stands for. -/
  | handle (name start : String)
  | other
  deriving DecidableEq, Repr

inductive Token where
  | streamEnd
  | directive (d : Directive)
  | documentStart
  | documentEnd
  | blockSequence
  | blockMapping
  | blockEnd
  | flowSequence
  | flowSequenceEnd
  | flowMapping
  | flowMappingEnd
  | blockEntry
  | flowEntry
  | key
  | value
  | alias (name : String)
  | anchor (name : String)
  | tag (handle : Option String) (suffix : String)
  /-- A scalar and whether it stands without quotes. -/
  | scalar (text : Text.Wide) (plain : Bool)
  deriving DecidableEq, Repr

/-- What a token is called. -/
def Token.name : Token → String
  | streamEnd => "<stream end>"
  | directive _ => "<directive>"
  | documentStart => "<document start>"
  | documentEnd => "<document end>"
  | blockSequence => "<block sequence start>"
  | blockMapping => "<block mapping start>"
  | blockEnd => "<block end>"
  | flowSequence => "["
  | flowSequenceEnd => "]"
  | flowMapping => "\x7b"
  | flowMappingEnd => "\x7d"
  | blockEntry => "-"
  | flowEntry => ","
  | key => "?"
  | value => ":"
  | .alias _ => "<alias>"
  | anchor _ => "<anchor>"
  | tag _ _ => "<tag>"
  | scalar _ _ => "<scalar>"

/-- A token and where it starts. -/
structure Placed where
  token : Token
  mark : Mark
  deriving DecidableEq, Repr

end Adjudication.Yaml
