/-!
# Command line arguments

Three commands, each with files to name and flags to give in any order, and help on each.

    paperclip diff OLD NEW [--pretty] [--verify]
    paperclip patch TREE MUTATIONS [--html] [--pretty]
    paperclip render TREE
    paperclip help [TOPIC]

A flag is given at most once and takes no value; after `--` everything is a file, and a lone `-`
always is; a file name is not empty.
-/

namespace SynthDom.CommandLine

/-- What to do, with which files and flags. -/
inductive Command where
  | diff (old new : String) (pretty verify : Bool)
  | patch (tree mutations : String) (html pretty : Bool)
  | render (tree : String)
deriving DecidableEq

/-- What the arguments ask for. -/
inductive Request where
  | help
  | version
  | run (command : Command)
deriving DecidableEq

/-- Why arguments are not understood. -/
inductive UsageError where
  | missingCommand
  | unknownCommand (name : String)
  | unexpectedArgument (argument : String)
  | repeatedFlag (flag : String)
  | emptyFileName
  | missingFile
deriving DecidableEq

def UsageError.message : UsageError → String
  | .missingCommand => "a command is required"
  | .unknownCommand name => "unrecognized command '" ++ name ++ "'"
  | .unexpectedArgument argument => "unexpected argument '" ++ argument ++ "'"
  | .repeatedFlag flag => "the flag '" ++ flag ++ "' is given more than once"
  | .emptyFileName => "a file name is empty"
  | .missingFile => "a file is missing"

/-- The names of the commands. -/
inductive CommandName where
  | diff
  | patch
  | render
deriving DecidableEq

namespace CommandName

def ofName? (name : String) : Option CommandName :=
  if name = "diff" then some .diff
  else if name = "patch" then some .patch
  else if name = "render" then some .render
  else none

/-- How many files a command needs. -/
def fileCount : CommandName → Nat
  | .diff | .patch => 2
  | .render => 1

/-- The flags of a command. -/
def flags : CommandName → List String
  | .diff => ["--pretty", "--verify"]
  | .patch => ["--html", "--pretty"]
  | .render => []

/-- The command with its files and flags. -/
def build (name : CommandName) (files flags : List String) : Except UsageError Command :=
  match name, files with
  | .diff, [old, new] => .ok (.diff old new (flags.contains "--pretty") (flags.contains "--verify"))
  | .patch, [tree, mutations] =>
    .ok (.patch tree mutations (flags.contains "--html") (flags.contains "--pretty"))
  | .render, [tree] => .ok (.render tree)
  | _, _ => .error .missingFile

end CommandName

/-- What an argument is, where options may still come. -/
inductive Argument where
  | separator
  | help
  | flag (name : String)
  | unknown
  | file

/-- What an argument of a command is. -/
def classify (name : CommandName) (argument : String) : Argument :=
  match argument.toList with
  | ['-', '-'] => .separator
  | '-' :: '-' :: _ =>
    if argument = "--help" then .help
    else if name.flags.contains argument then .flag argument
    else .unknown
  | '-' :: 'h' :: _ => .help
  | '-' :: _ :: _ => .unknown
  | _ => .file

/-- Takes one more file. -/
def addFile (name : CommandName) (files : List String) (file : String) :
    Except UsageError (List String) :=
  if file.isEmpty then .error .emptyFileName
  else if files.length < name.fileCount then .ok (files ++ [file])
  else .error (.unexpectedArgument file)

/-- The arguments after `--`. -/
def readFiles (name : CommandName) (files flags : List String) :
    List String → Except UsageError Request
  | [] => (name.build files flags).map .run
  | argument :: rest => do readFiles name (← addFile name files argument) flags rest

/-- The arguments of a command. -/
def readCommand (name : CommandName) (files flags : List String) :
    List String → Except UsageError Request
  | [] => (name.build files flags).map .run
  | argument :: rest =>
    match classify name argument with
    | .separator => readFiles name files flags rest
    | .help => .ok .help
    | .flag flag =>
      if flags.contains flag then .error (.repeatedFlag flag)
      else readCommand name files (flag :: flags) rest
    | .unknown => .error (.unexpectedArgument argument)
    | .file => do readCommand name (← addFile name files argument) flags rest

/-- An argument before the command that asks for help or the version. -/
def informs? (argument : String) : Option Request :=
  match argument.toList with
  | '-' :: 'h' :: _ => some .help
  | '-' :: 'V' :: _ => some .version
  | _ =>
    if argument = "--help" then some .help
    else if argument = "--version" then some .version
    else none

/-- The arguments of a request for help: at most a topic, which is a command or help itself. -/
def readHelp : List String → Except UsageError Request
  | [] => .ok .help
  | topic :: rest =>
    if topic = "help" || (CommandName.ofName? topic).isSome then
      match rest with
      | [] => .ok .help
      | argument :: _ => .error (.unknownCommand argument)
    else .error (.unknownCommand topic)

/-- The request that the arguments make. -/
def Request.ofArguments : List String → Except UsageError Request
  | [] => .error .missingCommand
  | first :: rest =>
    match informs? first, CommandName.ofName? first with
    | some request, _ => .ok request
    | none, some name => readCommand name [] [] rest
    | none, none =>
      if first = "help" then readHelp rest
      else if first.startsWith "-" then .error (.unexpectedArgument first)
      else .error (.unknownCommand first)

end SynthDom.CommandLine
