import SynthDom.CommandLine.Arguments
import SynthDom.CommandLine.Config
import SynthDom.CommandLine.Directory
import SynthDom.Json.Printer
import SynthDom.Mutation.Diff
import SynthDom.Mutation.Patch
import SynthDom.Render.Html
import SynthDom.Wire.Encode

/-!
# Runs of the command line

`run` is the whole program as a function of what the files hold and of the arguments.  The arguments
are looked at first, then the settings, then the files in the order in which they are named.
-/

namespace SynthDom.CommandLine

/-- Why a run fails. -/
inductive Failure where
  | badConfig
  | unreadable (file : String) (e : FileError)
  | invalid (file : String)
  | inapplicable (file : String) (e : PatchError)
  | unverified (e : PatchError)
  | mismatch (count : Nat)
deriving DecidableEq

def Failure.message : Failure → String
  | .badConfig => "Invalid settings in " ++ Config.fileName
  | .unreadable file e => "Failed to read " ++ file ++ ": " ++ e.message
  | .invalid file => "Invalid JSON in " ++ file
  | .inapplicable file e => "Mutations do not apply to " ++ file ++ ": " ++ e.message
  | .unverified e => e.message
  | .mismatch count =>
    "Patched tree does not match the new tree (" ++ toString count ++ " mutations)"

/-- What a successful run writes. -/
structure Report where
  output : String
  /-- A remark beside the output. -/
  notice : Option String := none
deriving DecidableEq

/-- How a run ends. -/
inductive Outcome where
  | misused (e : UsageError)
  | failed (e : Failure)
  | done (report : Report)
deriving DecidableEq

/-- The exit code. -/
def Outcome.code : Outcome → Nat
  | .misused _ => 2
  | .failed _ => 1
  | .done _ => 0

/-- The settings that hold for a run. -/
def loadConfig (files : Files) : Except Failure Config :=
  match files Config.fileName with
  | .error .notFound => .ok {}
  | .error _ => .error .badConfig
  | .ok text =>
    match decodeText (orMalformed Config.ofJson?) text with
    | .ok c => .ok c
    | .error _ => .error .badConfig

/-- Reads and decodes a file. -/
def readFile {α : Type} (files : Files) (decode : Json → Except DecodeError α) (file : String) :
    Except Failure α :=
  match files file with
  | .error e => .error (.unreadable file e)
  | .ok text =>
    match decodeText decode text with
    | .ok x => .ok x
    | .error _ => .error (.invalid file)

/-- Reads a document. -/
def readTree (files : Files) (file : String) : Except Failure Tree :=
  readFile files (orMalformed Tree.ofJson?) file

/-- The text of a value, as the settings and flags want it. -/
def printJson (isPretty : Bool) (j : Json) : String :=
  j.print (if isPretty then Json.pretty else Json.compact)

/-- Checks that a diff does what it is for. -/
def verify (old new : Tree) (ms : List Mutation) : Except Failure Unit :=
  match old.patchAll ms with
  | .ok t => if t.equiv new then .ok () else .error (.mismatch ms.length)
  | .error e => .error (.unverified e)

/-- The remark after a successful check. -/
def verifiedNotice (count : Nat) (file : String) : String :=
  "✓ " ++ toString count ++ " mutations reproduce " ++ file

/-- Carries out a command. -/
def execute (files : Files) (config : Config) : Command → Except Failure Report
  | .diff old new isPretty isVerified => do
    let oldTree ← readTree files old
    let newTree ← readTree files new
    let ms := oldTree.diff newTree
    let output := printJson (isPretty || config.pretty) (Mutation.listToJson ms) ++ "\n"
    if isVerified || config.verify then
      verify oldTree newTree ms
      return { output, notice := some (verifiedNotice ms.length new) }
    else
      return { output }
  | .patch tree mutations isHtml isPretty => do
    let t ← readTree files tree
    let ms ← readFile files Mutation.listOfJson mutations
    match t.patchAll ms with
    | .error e => throw (.inapplicable tree e)
    | .ok t =>
      if isHtml then return { output := t.html ++ "\n" }
      else return { output := printJson (isPretty || config.pretty) t.toJson ++ "\n" }
  | .render tree => do
    let t ← readTree files tree
    return { output := t.html ++ "\n" }

/-- The line that `--version` prints. -/
def versionText : String := "paperclip 0.1.0\n"

/-- The whole program, but for the text of the help. -/
def run (files : Files) (arguments : List String) : Outcome :=
  match Request.ofArguments arguments with
  | .error e => .misused e
  -- the help is laid out by the reader of the arguments, and left out here
  | .ok .help => .done { output := "" }
  | .ok .version => .done { output := versionText }
  | .ok (.run command) =>
    match (loadConfig files).bind fun config => execute files config command with
    | .ok report => .done report
    | .error e => .failed e

/-- The files that a run may read. -/
def filesOf (arguments : List String) : List String :=
  match Request.ofArguments arguments with
  | .ok (.run (.diff old new _ _)) => [Config.fileName, old, new]
  | .ok (.run (.patch tree mutations _ _)) => [Config.fileName, tree, mutations]
  | .ok (.run (.render tree)) => [Config.fileName, tree]
  | _ => []

end SynthDom.CommandLine
