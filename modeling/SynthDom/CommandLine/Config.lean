import SynthDom.Json.Record
import SynthDom.Wire.Decode

/-!
# Configuration

Settings that a directory gives to every run in it, from a file with a fixed name.  What it does not
set has a default, and so has everything when there is no such file.
-/

namespace SynthDom.CommandLine

/-- The settings of a directory. -/
structure Config where
  pretty : Bool := false
  verify : Bool := false
  logLevel : String := "warn"
deriving DecidableEq

namespace Config

/-- The file that holds the settings. -/
def fileName : String := "paperclip.config.json"

def ofJson? (j : Json) : Option Config :=
  match j.slots ["pretty", "verify", "logLevel"] with
  | some [pretty, verify, logLevel] => do
    return {
      pretty := ← Json.orDefault false Json.bool? pretty
      verify := ← Json.orDefault false Json.bool? verify
      logLevel := ← Json.orDefault "warn" Json.string? logLevel }
  | _ => none

end Config

end SynthDom.CommandLine
