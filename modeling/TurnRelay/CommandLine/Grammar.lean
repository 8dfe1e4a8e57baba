/-!
# Reading a command line

A command line is a row of words. A *flag* is written with two dashes and its name, or with one dash
and its letter, several of which may be run together; if it takes a value, this follows behind an equals
sign, right behind the letter, or as the next word, whatever this looks like unless it begins with a
dash. A flag may be given once. A bare word is the name of a command, in front of everything that
belongs to the command, or the next *operand*. Behind a lone double dash all words are bare.

A value that is the next word is looked at only when the flag is complete: when another flag or operand
begins, or at the end. So of two faults the one that is noticed first counts.

## Main definitions

* `Grammar`: what a command takes.
* `Grammar.read`: reads the words of a command, up to the name of a command below it.
-/

namespace TurnRelay.CommandLine

/-- Why a command line is not carried out. -/
inductive Refusal where
  /-- It asks for help instead. -/
  | help
  /-- There is no such flag, or no such operand. -/
  | unknownArgument
  /-- There is no such command. -/
  | unknownCommand
  /-- A value is missing, or not one to choose from. -/
  | unsuitableValue
  /-- A value is not of the right form. -/
  | malformedValue
  /-- A flag has a value and takes none. -/
  | excessValue
  /-- A flag is given twice. -/
  | repeatedFlag
  /-- An operand is missing. -/
  | missingOperand
  deriving DecidableEq, Repr

/-- The exit code: asking for help is no failure. -/
def Refusal.exitCode : Refusal → Nat
  | .help => 0
  | _ => 2

/-- The wording of a refusal. -/
def Refusal.message : Refusal → String
  | .help => "help was asked for"
  | .unknownArgument => "there is an argument that is not known"
  | .unknownCommand => "there is no such command"
  | .unsuitableValue => "a value is missing or not one to choose from"
  | .malformedValue => "a value is not of the right form"
  | .excessValue => "a flag has a value and takes none"
  | .repeatedFlag => "a flag is given twice"
  | .missingOperand => "an argument is missing"

/-- What a flag does to what a command takes. -/
inductive Action (σ : Type) where
  /-- It asks for help. -/
  | help
  /-- It takes no value. -/
  | toggle (set : σ → σ)
  /-- It takes a value. -/
  | assign (set : String → σ → Except Refusal σ)

/-- A flag. -/
structure Flag (σ : Type) where
  /-- The name behind two dashes. -/
  name : String
  /-- The letter behind one dash. -/
  letter : Option Char
  /-- What it does. -/
  action : Action σ

/-- What a command takes. -/
structure Grammar (σ : Type) where
  /-- The flags. -/
  flags : List (Flag σ)
  /-- The operands, all of which have to be there. -/
  operands : List (String → σ → σ)
  /-- The names of the commands below it. -/
  commands : List String

/-- How far a command line has been read. -/
structure Progress (σ : Type) where
  /-- What has been taken. -/
  taken : σ
  /-- The names of the flags that are complete. -/
  given : List String
  /-- A flag that is not complete, and its value if that has come. -/
  pending : Option (Flag σ × Option String)
  /-- The operands still to come. -/
  operands : List (String → σ → σ)

namespace Grammar

variable {σ : Type} (g : Grammar σ)

/-- The flag of a name. -/
def named? (name : String) : Option (Flag σ) := g.flags.find? fun f => decide (f.name = name)

/-- The flag of a letter. -/
def lettered? (c : Char) : Option (Flag σ) := g.flags.find? fun f => decide (f.letter = some c)

end Grammar

namespace Progress

variable {σ : Type}

/-- A complete flag, with its value if it has one. -/
def complete (p : Progress σ) (f : Flag σ) (value : Option String) :
    Except Refusal (Progress σ) :=
  match f.action with
  | .help => .error .help
  | .toggle set =>
    if f.name ∈ p.given then .error .repeatedFlag
    else .ok { p with taken := set p.taken, given := f.name :: p.given }
  | .assign set =>
    match value with
    | none => .error .unsuitableValue
    | some v => do
      if f.name ∈ p.given then .error .repeatedFlag
      let taken ← set v p.taken
      return { p with taken := taken, given := f.name :: p.given }

/-- The pending flag completed, if there is one. -/
def settle (p : Progress σ) : Except Refusal (Progress σ) :=
  match p.pending with
  | none => .ok p
  | some (f, value) => complete { p with pending := none } f value

/-- A flag whose value is still to come. -/
def await (p : Progress σ) (f : Flag σ) : Except Refusal (Progress σ) := do
  let p ← p.settle
  return { p with pending := some (f, none) }

/-- A flag that is complete right away. -/
def take (p : Progress σ) (f : Flag σ) (value : Option String) : Except Refusal (Progress σ) := do
  let p ← p.settle
  p.complete f value

/-- The flag that waits for the next word. -/
def waiting? (p : Progress σ) : Option (Flag σ) :=
  match p.pending with
  | some (f, none) => some f
  | _ => none

end Progress

namespace Grammar

variable {σ : Type} (g : Grammar σ)

/-- A word of two dashes and more. -/
def long (p : Progress σ) (cs : List Char) : Except Refusal (Progress σ) :=
  let name := String.ofList (cs.takeWhile (· ≠ '='))
  let value :=
    match cs.dropWhile (· ≠ '=') with
    | _ :: v => some (String.ofList v)
    | [] => none
  match g.named? name with
  | none => .error .unknownArgument
  | some f =>
    match f.action, value with
    | .assign _, none => p.await f
    | .assign _, some v => p.take f (some v)
    | _, some _ => .error .excessValue
    | _, none => p.take f none

/-- The letters behind one dash. -/
def short (p : Progress σ) : List Char → Except Refusal (Progress σ)
  | [] => .ok p
  | c :: cs =>
    match g.lettered? c with
    | none => .error .unknownArgument
    | some f =>
      match f.action, cs with
      | .assign _, [] => p.await f
      | .assign _, '=' :: v => p.take f (some (String.ofList v))
      | .assign _, v => p.take f (some (String.ofList v))
      | _, cs => do
        let p ← p.take f none
        short p cs

/-- A bare word. -/
def operand (p : Progress σ) (bare : Bool) (word : String) : Except Refusal (Progress σ) :=
  match p.operands with
  | set :: operands => do
    let p ← p.settle
    return { p with taken := set word p.taken, operands := operands }
  | [] =>
    if g.commands = [] ∨ (bare ∧ word ∈ g.commands) then .error .unknownArgument
    else .error .unknownCommand

/-- Reads words; `bare` says that a double dash went before. Gives also the name of the command below
and its words. -/
def scan (bare : Bool) (p : Progress σ) :
    List String → Except Refusal (Progress σ × Option (String × List String))
  | [] => .ok (p, none)
  | word :: words =>
    if bare then do
      let p ← g.operand p true word
      scan true p words
    else if p.waiting?.isNone ∧ word ∈ g.commands then .ok (p, some (word, words))
    else
      match word.toList, p.waiting? with
      | ['-', '-'], _ => scan true p words
      | '-' :: '-' :: cs, _ => do
        let p ← g.long p cs
        scan false p words
      | '-' :: c :: cs, _ => do
        let p ← g.short p (c :: cs)
        scan false p words
      | _, some f => scan false { p with pending := some (f, some word) } words
      | _, none => do
        let p ← g.operand p false word
        scan false p words

/-- Reads the words of a command into what it has taken so far, up to the name of a command below
it; `below` carries on from there. -/
def read {τ : Type} (start : σ) (below : String → List String → Except Refusal τ)
    (words : List String) : Except Refusal (σ × Option τ) := do
  let (p, rest) ← g.scan false ⟨start, [], none, g.operands⟩ words
  let inner ←
    match rest with
    | none => .ok none
    | some (name, words) => (below name words).map some
  let p ← p.settle
  if p.operands = [] then return (p.taken, inner) else .error .missingOperand

end Grammar

end TurnRelay.CommandLine
