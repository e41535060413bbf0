import Adjudication.Config.Basic
import Adjudication.Failure

/-!
The analyzer's command line: every part of the command is a template that is filled with the name of the source
file and the path of the results.
-/

namespace Adjudication.Analyzer

/-- What a template may name. -/
def placeholders (source output : Files.Path) : Template.Values :=
  [("source", source.name), ("output", output.text)]

/-- The parts of a command, filled in. -/
def arguments (command : List String) (source output : Files.Path) :
    Except Template.Fault (List String) :=
  command.mapM (Template.fill (placeholders source output))

end Adjudication.Analyzer
