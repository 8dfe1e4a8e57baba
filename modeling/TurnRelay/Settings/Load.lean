import TurnRelay.Settings.Json
import TurnRelay.Settings.Variable

/-!
# Loading the settings

Settings come in layers: what holds by default, the preset, the settings file and the variables; a
later layer wins. The preset is the one asked for on the command line, else the one that the file and
the variables name, for which they are looked at before. Defaults and preset are settings themselves,
and as a layer each says all of them, with nothing where one is not set.

## Main definitions

* `Settings.layer`: settings as a layer.
* `Settings.load`: the settings, or what is wrong with them.
-/

namespace TurnRelay.Settings

/-- Why settings cannot be loaded. -/
inductive LoadError where
  /-- The settings file is no TOML document. -/
  | unreadable
  /-- A value does not fit. -/
  | misfit (complaint : Complaint)
  deriving DecidableEq, Repr

/-- Settings as a layer: all of them. -/
def layer (s : Settings) : Value := ofJson s.encode

/-- The settings that a preset stands for: its own name and its address, and all else as it is by
default. -/
def ofPreset : Option Preset → Settings
  | some p => { preset := some p, server := { host := some p.host } }
  | none => {}

/-- The preset that a table names, if it names one. -/
def Preset.ofTable? : Value → Option Preset
  | .table es => (Value.find? "profile" es).bind fun v => (Preset.read v).toOption
  | _ => none

/-- The settings from a file's text, the variables in their order, and the preset asked for. -/
def load (file : Option String) (vars : List (String × String)) (asked : Option Preset) :
    Except LoadError Settings := do
  let document ←
    match Toml.parse? (file.getD "") with
    | some v => .ok v
    | none => .error .unreadable
  let given (base : Value) := (base.overlay document).overlay (Variable.layer vars)
  let defaults := (ofPreset none).layer
  let preset := asked <|> Preset.ofTable? (given defaults)
  match read (given (defaults.overlay (ofPreset preset).layer)) with
  | .ok s => .ok s
  | .error c => .error (.misfit c)

end TurnRelay.Settings
