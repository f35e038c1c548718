import RiteImage.Proofs.ImageWalk
import RiteImage.Proofs.ReportText

/-! Reports on one image.
One command counts the records of a tree, one lists them and one lists their line tables,
each in its own way. They agree since every record of a decoded tree has its line tables
at the same path, if the tree has any. -/
namespace RiteImage

namespace Report

end Report

namespace Image

open Report

variable {rules : Strictness} {bytes : ByteArray} {image : Image} {s : IrepSection}

end Image

namespace Command

open Report

/-- All commands on one file, with options of their own but under the same rules. -/
structure Inspection where
  path : String
  entry : Entry
  setting : Option String
  sites : Defect → Option Site
  strict : Bool
  options : Query → Options

namespace Inspection

variable {n : Inspection} {query : Query} {image : Image} {text : String}

def ask (n : Inspection) (query : Query) : Invocation :=
  ⟨query, { n.options query with strict := n.strict }, n.path⟩

def answer (n : Inspection) (query : Query) : Answer := run (n.ask query) n.entry n.setting n.sites

def printed (n : Inspection) (query : Query) (value : Json) (lines : List String) : String :=
  if (n.options query).json then value.pretty ++ "\n" else unlines lines

/-- A command succeeds and prints nothing but one report, a JSON text of the value or the lines
as they are. -/
structure Prints (n : Inspection) (query : Query) (value : Json) (lines : List String) : Prop where
  success : (n.answer query).exitCode = 0
  stdout_eq : (n.answer query).stdout = n.printed query value lines
  json : (n.options query).json →
    ∃ text, value.Spells text ∧ (n.answer query).stdout.toList = text ++ ['\n']
  plain : (n.options query).json = false →
    (n.answer query).stdout.toList = lines.flatMap fun line => line.toList ++ ['\n']

def paired : Inspection :=
  ⟨"paired.rite", .file Image.pairedBytes, none, fun _ => none, true, fun _ => {}⟩

end Inspection

end Command

end RiteImage
