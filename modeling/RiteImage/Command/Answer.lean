import RiteImage.Command.Arguments
import RiteImage.Command.Log
import RiteImage.Image.Source
import RiteImage.Report.Lines
import RiteImage.Report.Records

/-! What the program answers to its arguments, given what each path leads to. -/
namespace RiteImage.Command

structure Answer where
  exitCode : Nat
  stdout : String
  stderr : String
  deriving DecidableEq

inductive Failure
  | notLoaded (path : String) (error : LoadError)
  | noIrep (path : String)
  | noDebug (path : String)
  deriving DecidableEq

def causes (sites : Defect → Option Site) : LoadError → List String
  | .missing => [LoadError.missing.message, LoadError.missing.message]
  | .unreadable reason => [reason, reason]
  | e => [e.message sites]

def causeLines (texts : List String) : List String :=
  match texts with
  | [text] => ["    " ++ text]
  | texts => texts.mapIdx fun i text => s!"    {i}: {text}"

def Failure.lines (sites : Defect → Option Site) : Failure → List String
  | .notLoaded path e =>
    [s!"Error: failed to load image: {path}", "", "Caused by:"] ++ causeLines (causes sites e)
  | .noIrep path => [s!"Error: {path} contains no irep section"]
  | .noDebug path => [s!"Error: {path} carries no debug information"]

def unlines (texts : List String) : String :=
  texts.foldl (fun out text => out ++ text ++ "\n") ""

def fileName (path : String) : String :=
  match ((path.splitOn "/").filter fun part => part ≠ "" && part ≠ ".").getLast? with
  | none => path
  | some ".." => path
  | some name => name

def rules (options : Options) : Strictness := if options.strict then .strict else .lenient

def reportInfo (i : Invocation) (image : Image) : Except Failure String :=
  let overview := Report.Overview.of (fileName i.path) image
  .ok (if i.options.json then overview.toJson.pretty ++ "\n" else unlines overview.toLines)

def reportIreps (i : Invocation) (image : Image) : Except Failure String :=
  match image.irep with
  | none => .error (.noIrep i.path)
  | some s =>
    let records := Report.Records.of i.options.opcodes (image.visits s)
    .ok (if i.options.json then records.toJson.pretty ++ "\n" else unlines records.toLines)

def reportLines (i : Invocation) (image : Image) : Except Failure String :=
  match image.irep with
  | none => .error (.noIrep i.path)
  | some s =>
    if (image.linesOf s).isNone then .error (.noDebug i.path)
    else
      let lines := Report.Lines.of (image.visits s)
      .ok (if i.options.json then lines.toJson.pretty ++ "\n" else unlines lines.toLines)

def report (i : Invocation) (image : Image) : Except Failure String :=
  match i.query with
  | .info => reportInfo i image
  | .ireps => reportIreps i image
  | .lines => reportLines i image

def Answer.of (sites : Defect → Option Site) (log : String) : Except Failure String → Answer
  | .ok text => ⟨0, text, log⟩
  | .error failure => ⟨1, "", log ++ unlines (failure.lines sites)⟩

def usage : String := unlines [
  "Usage: ritescope [--json] [-v | --verbose] [--strict] COMMAND",
  "",
  "  info FILE                 the header and the sections",
  "  ireps FILE [--opcodes]    the instruction tree",
  "  lines FILE                the line tables"]

/-- The log comes before whatever goes wrong. -/
def run (i : Invocation) (entry : Entry) (setting : Option String)
    (sites : Defect → Option Site := fun _ => none) : Answer :=
  let loading := Loading.ofSource (rules i.options) (Source.ofEntry entry)
  let log := logText (.choose i.options.json i.options.verbose setting) loading.events
  Answer.of sites log <| match loading.result with
    | .ok image => report i image
    | .error e => .error (.notLoaded i.path e)

def Stop.answer : Stop → Answer
  | .help => ⟨0, usage, ""⟩
  | .version => ⟨0, "ritescope 0.1.0\n", ""⟩
  | .misuse => ⟨2, "", usage⟩

def answer (arguments : List String) (lookup : String → Entry) (setting : Option String)
    (sites : Defect → Option Site := fun _ => none) : Answer :=
  match parse arguments with
  | .ok i => run i (lookup i.path) setting sites
  | .error stop => stop.answer

end RiteImage.Command
