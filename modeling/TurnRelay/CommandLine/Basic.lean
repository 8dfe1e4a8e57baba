import TurnRelay.CommandLine.Grammar
import TurnRelay.Settings.Basic
import TurnRelay.Settings.Scalar

/-!
# The program's command line

The program serves browsers, or asks a single question and prints the answer. Where its data lies may
be said in front of the command or behind it; what is said behind it wins.

## Main definitions

* `Invocation`: what a command line asks for.
* `Invocation.read`: reads a command line.
-/

namespace TurnRelay.CommandLine

open Settings (Preset)

/-- What `serve` takes. -/
structure Serve where
  /-- The port to listen on. -/
  port : Option UInt16 := none
  /-- The address to listen on. -/
  host : Option String := none
  /-- Whether to log more. -/
  debug : Bool := false
  /-- The settings to start from. -/
  preset : Option Preset := none
  deriving DecidableEq, Repr

/-- What `ask` takes. -/
structure Ask where
  /-- The question. -/
  message : String := ""
  /-- The session to ask in. -/
  session : Option String := none
  /-- Whether to log more. -/
  debug : Bool := false
  deriving DecidableEq, Repr

/-- A command. -/
inductive Command where
  /-- Serve browsers. -/
  | serve (options : Serve)
  /-- Ask one question. -/
  | ask (options : Ask)
  deriving DecidableEq, Repr

/-- What a command line asks for. -/
structure Invocation where
  /-- The command; none means to serve. -/
  command : Option Command
  /-- Where the program's data lies. -/
  dataDir : Option String
  deriving DecidableEq, Repr

/-! ### Flags -/

/-- The flag that asks for help. -/
def helpFlag {σ : Type} : Flag σ := ⟨"help", some 'h', .help⟩

/-- The flag that says where the program's data lies. A place has a name. -/
def dataDirFlag {σ : Type} (set : String → σ → σ) : Flag σ :=
  ⟨"data-dir", none, .assign fun v s =>
    if v = "" then .error .unsuitableValue else .ok (set v s)⟩

/-- A port: a decimal number below `2 ^ 16`, perhaps with a sign. -/
def port? (text : String) : Option UInt16 := do
  let i ← Settings.signedInteger? text.toList
  if 0 ≤ i ∧ i < UInt16.size then some (UInt16.ofNat i.toNat) else none

/-- The grammar of `serve`, beside which there may be a place for data. -/
def serveGrammar : Grammar (Serve × Option String) where
  flags := [
    ⟨"port", some 'p', .assign fun v (s, d) =>
      match port? v with
      | some p => .ok ({ s with port := some p }, d)
      | none => .error .malformedValue⟩,
    ⟨"host", some 'b', .assign fun v (s, d) => .ok ({ s with host := some v }, d)⟩,
    ⟨"debug", some 'd', .toggle fun (s, d) => ({ s with debug := true }, d)⟩,
    ⟨"profile", none, .assign fun v (s, d) =>
      match Preset.ofName? v with
      | some p => .ok ({ s with preset := some p }, d)
      | none => .error .unsuitableValue⟩,
    dataDirFlag fun v (s, _) => (s, some v),
    helpFlag]
  operands := []
  commands := []

/-- The grammar of `ask`, beside which there may be a place for data. -/
def askGrammar : Grammar (Ask × Option String) where
  flags := [
    ⟨"session", some 's', .assign fun v (s, d) => .ok ({ s with session := some v }, d)⟩,
    ⟨"debug", some 'd', .toggle fun (s, d) => ({ s with debug := true }, d)⟩,
    dataDirFlag fun v (s, _) => (s, some v),
    helpFlag]
  operands := [fun v (s, d) => ({ s with message := v }, d)]
  commands := []

/-- What stands in front of the command. -/
def grammar : Grammar (Option String) where
  flags := [dataDirFlag fun v _ => some v, helpFlag]
  operands := []
  commands := ["serve", "ask", "help"]

/-- The words behind `help` name a command, or none. -/
def help : List String → Refusal
  | [] => .help
  | [name] => if name ∈ grammar.commands then .help else .unknownCommand
  | _ => .unknownCommand

/-- There are no commands below a command. -/
def nothingBelow (_ : String) (_ : List String) : Except Refusal Unit := .error .unknownCommand

/-- Reads the words behind the name of a command. -/
def below (name : String) (words : List String) : Except Refusal (Command × Option String) :=
  match name with
  | "serve" => do
    let ((s, d), _) ← serveGrammar.read ({}, none) nothingBelow words
    return (.serve s, d)
  | "ask" => do
    let ((s, d), _) ← askGrammar.read ({}, none) nothingBelow words
    return (.ask s, d)
  | _ => .error (help words)

namespace Invocation

/-- Reads a command line, whose first word is the program's own name. -/
def read (words : List String) : Except Refusal Invocation := do
  let (outer, inner) ← grammar.read none below (words.drop 1)
  return ⟨inner.map (·.1), (inner.bind (·.2)) <|> outer⟩

/-- Whether to log more. -/
def debug (i : Invocation) : Bool :=
  match i.command with
  | none => false
  | some (.serve s) => s.debug
  | some (.ask s) => s.debug

/-- Answers to a question go to the standard output, so logs go elsewhere. -/
def logsToErrors (i : Invocation) : Bool :=
  match i.command with
  | some (.ask _) => true
  | _ => false

/-- Which parts of the program log how much. -/
def logFilter (i : Invocation) : String :=
  if i.debug then "gateway_client=debug,tower_http=debug,relay=debug,info"
  else "gateway_client=info,tower_http=info,relay=info,warn"

end Invocation

end TurnRelay.CommandLine
