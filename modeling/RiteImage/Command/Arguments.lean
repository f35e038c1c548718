namespace RiteImage.Command

inductive Query
  | info
  | ireps
  | lines
  deriving DecidableEq

structure Options where
  json : Bool := false
  verbose : Bool := false
  strict : Bool := false
  opcodes : Bool := false
  deriving DecidableEq

structure Invocation where
  query : Query
  options : Options
  path : String
  deriving DecidableEq

inductive Stop
  | help
  | version
  | misuse
  deriving DecidableEq

inductive Flag
  | json
  | verbose
  | strict
  | opcodes
  | help
  | version
  deriving DecidableEq

def Query.ofName? : String → Option Query
  | "info" => some .info
  | "ireps" => some .ireps
  | "lines" => some .lines
  | _ => none

def Flag.ofLong? : String → Option Flag
  | "--json" => some .json
  | "--verbose" => some .verbose
  | "--strict" => some .strict
  | "--opcodes" => some .opcodes
  | "--help" => some .help
  | "--version" => some .version
  | _ => none

def Flag.ofShort? : Char → Option Flag
  | 'v' => some .verbose
  | 'h' => some .help
  | 'V' => some .version
  | _ => none

def isFlagLike (argument : String) : Bool :=
  match argument.toList with
  | '-' :: _ :: _ => true
  | _ => false

/-- Opcodes are an option of one command, and the version is asked for before any command. -/
def Flag.allowed (query : Option Query) : Flag → Bool
  | .opcodes => query = some .ireps
  | .version => query = none
  | _ => true

def Options.isSet (options : Options) : Flag → Bool
  | .json => options.json
  | .verbose => options.verbose
  | .strict => options.strict
  | .opcodes => options.opcodes
  | _ => false

def Options.set (options : Options) : Flag → Except Stop Options
  | .json => .ok { options with json := true }
  | .verbose => .ok { options with verbose := true }
  | .strict => .ok { options with strict := true }
  | .opcodes => .ok { options with opcodes := true }
  | .help => .error .help
  | .version => .error .version

def Options.add (query : Option Query) (options : Options) (flag : Flag) : Except Stop Options :=
  if flag.allowed query && !options.isSet flag then options.set flag else .error .misuse

/-- The letters of an argument take effect one by one, so an early one can settle it. -/
def Options.addAll (query : Option Query) (options : Options) (argument : String) :
    Except Stop Options :=
  match argument.toList with
  | '-' :: '-' :: _ =>
    match Flag.ofLong? argument with
    | some flag => options.add query flag
    | none => .error .misuse
  | _ :: letters =>
    letters.foldlM (fun options letter =>
      match Flag.ofShort? letter with
      | some flag => options.add query flag
      | none => .error .misuse) options
  | [] => .error .misuse

def Options.union (a b : Options) : Options :=
  ⟨a.json || b.json, a.verbose || b.verbose, a.strict || b.strict, a.opcodes || b.opcodes⟩

def addPath (path : Option String) (argument : String) : Except Stop (Option String) :=
  if path.isNone && !argument.isEmpty then .ok (some argument) else .error .misuse

/-- What follows the name of a command. After two dashes no argument is a flag. -/
def parseAfter (query : Query) (plain : Bool) (options : Options) (path : Option String) :
    List String → Except Stop (Options × String)
  | [] =>
    match path with
    | some path => .ok (options, path)
    | none => .error .misuse
  | argument :: rest =>
    if !plain && argument = "--" then parseAfter query true options path rest
    else if !plain && isFlagLike argument then
      match options.addAll (some query) argument with
      | .ok options => parseAfter query plain options path rest
      | .error stop => .error stop
    else
      match addPath path argument with
      | .ok path => parseAfter query plain options path rest
      | .error stop => .error stop

def parseHelp : List String → Stop
  | [] => .help
  | [name] => if (Query.ofName? name).isSome || name = "help" then .help else .misuse
  | _ => .misuse

def parseFrom (options : Options) : List String → Except Stop Invocation
  | [] => .error .misuse
  | argument :: rest =>
    if isFlagLike argument then
      match options.addAll none argument with
      | .ok options => parseFrom options rest
      | .error stop => .error stop
    else if argument = "help" then .error (parseHelp rest)
    else
      match Query.ofName? argument with
      | some query =>
        match parseAfter query false {} none rest with
        | .ok (later, path) => .ok ⟨query, options.union later, path⟩
        | .error stop => .error stop
      | none => .error .misuse

def parse (arguments : List String) : Except Stop Invocation := parseFrom {} arguments

end RiteImage.Command
