/-! The arguments of the command line. Options may stand before and after the command and among its
arguments; a value follows its option, or is attached to it. The first thing that is wrong ends the
reading. -/

namespace TreeWalk

/-- What is to be done with the tree in a file. -/
inductive Command where
  | print (file : String) (output : Option String)
  | check (file : String) (source : Option String)
  | census (file : String) (json : Bool)
  | fold (file : String)
deriving DecidableEq, Repr

def Command.file : Command → String
  | .print file _ | .check file _ | .census file _ | .fold file => file

/-- A run that is asked for. -/
structure Invocation where
  /-- The settings file, if one is given. -/
  settings : Option String
  /-- How often more logging is asked for. -/
  verbosity : Nat
  command : Command
deriving DecidableEq, Repr

namespace Arguments

/-- Why reading the arguments ends early. -/
inductive Stop where
  | misuse
  | version
  | help
deriving DecidableEq, Repr

inductive CommandName where
  | print
  | check
  | census
  | fold
deriving DecidableEq, Repr

def CommandName.ofText? : String → Option CommandName
  | "print" => some .print
  | "check" => some .check
  | "census" => some .census
  | "fold" => some .fold
  | _ => none

inductive Switch where
  | config
  | verbose
  | version
  | help
  | output
  | source
  | json
deriving DecidableEq, Repr

namespace Switch

def takesValue : Switch → Bool
  | .config | .output | .source => true
  | _ => false

/-- The option with a long name; which ones there are depends on the command. -/
def ofLong? (command : Option CommandName) (name : String) : Option Switch :=
  match name, command with
  | "config", _ => some .config
  | "verbose", _ => some .verbose
  | "help", _ => some .help
  | "version", none => some .version
  | "output", some .print => some .output
  | "source", some .check => some .source
  | "json", some .census => some .json
  | _, _ => none

/-- The option with a letter. -/
def ofShort? (command : Option CommandName) (letter : Char) : Option Switch :=
  match letter, command with
  | 'v', _ => some .verbose
  | 'h', _ => some .help
  | 'V', none => some .version
  | 'o', some .print => some .output
  | _, _ => none

end Switch

/-- The arguments read so far. -/
structure Draft where
  command : Option CommandName := none
  /-- A settings file given before the command. -/
  outerConfig : Option String := none
  config : Option String := none
  verbosity : Nat := 0
  file : Option String := none
  output : Option String := none
  source : Option String := none
  json : Bool := false

namespace Draft

/-- A value that is given once and is not empty. -/
def once (old : Option String) (value : String) : Except Stop (Option String) :=
  if old.isSome ∨ value.isEmpty then .error .misuse else .ok (some value)

/-- Gives an option its value. -/
def set (d : Draft) (switch : Switch) (value : String) : Except Stop Draft := do
  match switch with
  | .config => return { d with config := ← once d.config value }
  | .output => return { d with output := ← once d.output value }
  | .source => return { d with source := ← once d.source value }
  | _ => .error .misuse

/-- Takes note of an option without a value. -/
def mark (d : Draft) (switch : Switch) : Except Stop Draft :=
  match switch with
  | .verbose => .ok { d with verbosity := d.verbosity + 1 }
  | .json => if d.json then .error .misuse else .ok { d with json := true }
  | .version => .error .version
  | .help => .error .help
  | _ => .error .misuse

/-- Takes an argument that is no option: the command or its file. -/
def positional (d : Draft) (argument : String) : Except Stop Draft := do
  match d.command with
  | none =>
    match CommandName.ofText? argument with
    | some command => return { d with command := some command, outerConfig := d.config, config := none }
    | none => .error .misuse
  | some _ => return { d with file := ← once d.file argument }

/-- Takes the arguments after which no options come. -/
def positionals (d : Draft) : List String → Except Stop Draft
  | [] => .ok d
  | argument :: rest => do
    match d.command with
    | none => .error .misuse
    | some _ => positionals (← d.positional argument) rest

/-- Reads letters after a single dash; gives an option that still needs a value. -/
def letters (d : Draft) : List Char → Except Stop (Draft × Option Switch)
  | [] => .ok (d, none)
  | c :: rest => do
    match Switch.ofShort? d.command c with
    | none => .error .misuse
    | some switch =>
      if switch.takesValue then
        match rest with
        | [] => return (d, some switch)
        | '=' :: value => return (← d.set switch (String.ofList value), none)
        | value => return (← d.set switch (String.ofList value), none)
      else letters (← d.mark switch) rest

/-- Reads a name after two dashes; gives an option that still needs a value. -/
def long (d : Draft) (cs : List Char) : Except Stop (Draft × Option Switch) := do
  let (name, attached) := cs.span (· != '=')
  match Switch.ofLong? d.command (String.ofList name) with
  | none => .error .misuse
  | some switch =>
    match switch.takesValue, attached with
    | true, [] => return (d, some switch)
    | true, _ :: value => return (← d.set switch (String.ofList value), none)
    | false, [] => return (← d.mark switch, none)
    | false, _ :: _ => .error .misuse

/-- The run that is asked for. -/
def invocation (d : Draft) : Except Stop Invocation :=
  match d.command, d.file with
  | some command, some file =>
    .ok ⟨d.config <|> d.outerConfig, d.verbosity, match command with
      | .print => .print file d.output
      | .check => .check file d.source
      | .census => .census file d.json
      | .fold => .fold file⟩
  | _, _ => .error .misuse

end Draft

/-- What a request for help about some command ends with. -/
def helpAbout : List String → Stop
  | [] => .help
  | [name] => if name = "help" ∨ (CommandName.ofText? name).isSome then .help else .misuse
  | _ => .misuse

/-- Reads arguments; `pending` is an option that the next one has to give a value. -/
def readFrom (d : Draft) (pending : Option Switch) : List String → Except Stop Draft
  | [] => if pending.isSome then .error .misuse else .ok d
  | argument :: rest => do
    match pending, argument.toList with
    | some _, '-' :: _ :: _ => .error .misuse
    | some switch, _ => readFrom (← d.set switch argument) none rest
    | none, ['-', '-'] => d.positionals rest
    | none, '-' :: '-' :: name =>
      let (d, pending) ← d.long name
      readFrom d pending rest
    | none, '-' :: letter :: more =>
      let (d, pending) ← d.letters (letter :: more)
      readFrom d pending rest
    | none, _ =>
      if d.command = none ∧ argument = "help" then .error (helpAbout rest)
      else readFrom (← d.positional argument) none rest

/-- The run that arguments ask for. -/
def read (arguments : List String) : Except Stop Invocation := do
  (← readFrom {} none arguments).invocation

end Arguments

end TreeWalk
