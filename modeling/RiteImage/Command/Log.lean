import RiteImage.Reader.Event
import RiteImage.Text.ControlSequence

namespace RiteImage.Command

/-- Which events are shown: those of a level and all below it. -/
inductive Verbosity
  | quiet
  | debug
  | trace
  deriving DecidableEq

namespace Verbosity

def ofLevel? (name : String) : Option Verbosity :=
  match name.toLower with
  | "off" | "error" | "warn" | "info" => some .quiet
  | "debug" => some .debug
  | "trace" => some .trace
  | _ => none

def ofSetting? (setting : String) : Option Verbosity :=
  match setting.splitOn "=" with
  | ["ritescope", level] => ofLevel? level
  | _ => none

def choose (json verbose : Bool) (setting : Option String) : Verbosity :=
  if json then .quiet
  else (setting.bind ofSetting?).getD (if verbose then .debug else .quiet)

def shows : Verbosity → Level → Bool
  | .quiet, _ => false
  | .debug, level => level = .debug
  | .trace, _ => true

end Verbosity

def levelName : Level → String
  | .debug => "DEBUG"
  | .trace => "TRACE"

/-- Further lines of a message are indented. A control sequence never reaches the next event. -/
def logLine (event : Event) : String :=
  let message := "\n    ".intercalate (event.message.splitOn "\n")
  Text.plain s!"[{levelName event.level}] {message}\n"

def logText (verbosity : Verbosity) (events : List Event) : String :=
  String.join ((events.filter fun event => verbosity.shows event.level).map logLine)

end RiteImage.Command
