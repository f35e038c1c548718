import RiteImage.Command.Answer

namespace RiteImage

def entryOfError : IO.Error → Entry
  | .noFileOrDirectory .. => .missing
  | .inappropriateType _ code _ =>
    if code = 21 then .directory else .unreadable "Not a directory (os error 20)"
  | .permissionDenied .. => .unreadable "Permission denied (os error 13)"
  | e => .unreadable (toString e)

def look (path : String) : IO Entry := do
  try
    return .file (← IO.FS.readBinFile path)
  catch e =>
    return entryOfError e

def answerHere (arguments : List String) : IO Command.Answer := do
  match Command.parse arguments with
  | .ok i => return Command.run i (← look i.path) (← IO.getEnv "RUST_LOG")
  | .error stop => return stop.answer

end RiteImage

def main (arguments : List String) : IO UInt32 := do
  let answer ← RiteImage.answerHere arguments
  IO.print answer.stdout
  IO.eprint answer.stderr
  return answer.exitCode.toUInt32
