/-!
# Arguments of the program

The arguments are read from left to right. A request for help or for the version takes effect as soon as it is met, and so does the first mistake. Options may be given once each, the one for more logging any number of times; there are no arguments besides options.
-/

namespace KnownObjects.CommandLine

/-- How the compiler and the heap are connected. -/
inductive Mode where
  | sameProcess
  | split
deriving DecidableEq

structure Options where
  mode : Option Mode
  graph : Bool
  mutableFields : Bool
  collect : Bool
  verbosity : Nat
deriving DecidableEq

inductive Invocation where
  | run (options : Options)
  | shortHelp
  | longHelp
  | version
deriving DecidableEq

inductive UsageError where
  | unexpected (argument : String)
  | repeated (option : String)
  | missingValue
  | badMode (value : String)
deriving DecidableEq

def UsageError.message : UsageError → String
  | unexpected argument => "unexpected argument: " ++ argument
  | repeated option => "given more than once: " ++ option
  | missingValue => "--mode needs a value"
  | badMode value => "no such mode: " ++ value

def Mode.ofText? : String → Option Mode
  | "local" => some .sameProcess
  | "split" => some .split
  | _ => none

namespace Options

def default : Options := ⟨none, false, false, false, 0⟩

/-- Sets the mode, once. -/
def setMode (o : Options) (value : String) : Except UsageError Options :=
  match Mode.ofText? value with
  | none => .error (.badMode value)
  | some mode => if o.mode.isSome then .error (.repeated "--mode") else .ok { o with mode }

/-- Sets an option that takes no value, if there is one of that name and it has not been given. -/
def setFlag (o : Options) (name : String) : Except UsageError Options :=
  match name with
  | "--graph" => if o.graph then .error (.repeated name) else .ok { o with graph := true }
  | "--mutable-fields" =>
    if o.mutableFields then .error (.repeated name) else .ok { o with mutableFields := true }
  | "--collect" => if o.collect then .error (.repeated name) else .ok { o with collect := true }
  | "--verbose" => .ok { o with verbosity := o.verbosity + 1 }
  | _ => .error (.unexpected name)

end Options

/-- What an argument leads to: further arguments with more options set, or the end. -/
abbrev Parsed := Except UsageError (Options ⊕ Invocation)

/-- One-letter options that follow a dash, one after the other. -/
def parseLetters (o : Options) : List Char → Parsed
  | [] => .ok (.inl o)
  | 'v' :: rest => parseLetters { o with verbosity := o.verbosity + 1 } rest
  | 'h' :: _ => .ok (.inr .shortHelp)
  | 'V' :: _ => .ok (.inr .version)
  | c :: _ => .error (.unexpected (String.ofList ['-', c]))

/-- The rest of a text behind a given beginning. -/
def after? (start text : List Char) : Option (List Char) :=
  if start.isPrefixOf text then some (text.drop start.length) else none

/-- An argument that stands for itself. -/
def parseOne (o : Options) (argument : String) : Parsed :=
  match after? "--mode=".toList argument.toList with
  | some value => .inl <$> o.setMode (String.ofList value)
  | none =>
    match argument.toList with
    | '-' :: '-' :: _ =>
      match argument with
      | "--help" => .ok (.inr .longHelp)
      | "--version" => .ok (.inr .version)
      | _ => .inl <$> o.setFlag argument
    | '-' :: c :: letters => parseLetters o (c :: letters)
    | _ => .error (.unexpected argument)

/-- Whether a text looks like an option, so that it is not taken for a value. -/
def isOption (text : String) : Bool :=
  match text.toList with
  | '-' :: _ :: _ => true
  | _ => false

def parse (o : Options) : List String → Except UsageError Invocation
  | [] => .ok (.run o)
  | ["--"] => .ok (.run o)
  | "--" :: argument :: _ => .error (.unexpected argument)
  | ["--mode"] => .error .missingValue
  | "--mode" :: value :: rest =>
    if isOption value then .error .missingValue
    else
      match o.setMode value with
      | .ok o => parse o rest
      | .error e => .error e
  | argument :: rest =>
    match parseOne o argument with
    | .ok (.inl o) => parse o rest
    | .ok (.inr invocation) => .ok invocation
    | .error e => .error e

end KnownObjects.CommandLine
