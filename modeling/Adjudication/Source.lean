import Adjudication.Files.Path
import Adjudication.Schema.Checked

/-!
The source under test: its bytes and the name it goes by. A name is reduced to the last component of what was
given, a backslash counting as a separator, so that it names a file directly in the directory it is put in.
-/

namespace Adjudication

structure Source where
  content : Text.Utf8.Bytes
  identifier : String
  deriving DecidableEq, Repr

namespace Source

def defaultIdentifier : String := "contract.sol"

/-- The last component of a text, backslashes read as slashes; none if there is no component, or if the last
    one leads upwards. -/
def safeName? (s : String) : Option String :=
  let name := (Files.Path.ofChars (s.toList.map fun c => if c = '\\' then '/' else c)).name
  if name = "" ∨ name = "." ∨ name = ".." then none else some name

/-- A source whose identifier passes; `whole` stands for the text refused. -/
def make (content : Text.Utf8.Bytes) (identifier : String) :
    Except (Schema.Invalid String) Source :=
  match safeName? identifier with
  | some name => .ok ⟨content, name⟩
  | none =>
    .error ⟨"SourceArtifact",
      [⟨[.field "identifier"], .rule ("invalid source identifier '" ++ identifier ++ "'"),
        identifier⟩]⟩

/-- Why a text is not taken for a source. -/
inductive Fault where
  | unencodable (e : Text.Wide.EncodeError)
  | invalid (e : Schema.Invalid String)

/-- A source given as text. -/
def ofText (code : Text.Wide) (identifier : String) : Except Fault Source :=
  match code.encode with
  | .error e => .error (.unencodable e)
  | .ok content => (make content identifier).mapError .invalid

/-- The content as text, U+FFFD in the place of what is no UTF-8. -/
def text (s : Source) : String := Text.Utf8.decodeLossy s.content

end Source
end Adjudication
