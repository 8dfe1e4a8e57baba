import TurnRelay.CommandLine.Preparation
import TurnRelay.Turn.Live

/-!
# Asking

The command that asks one question. It relays the question as a turn and prints what it is told, block
by block. When the turn has ended and all is printed it shuts its client down, and then it says how the
turn ended. It is a process of its own: sockets of its client that are still open then are gone with it.

## Main definitions

* `CommandLine.Asking`: the command under way.
* `Asking.begin`, `Asking.advance`: its steps.
-/

namespace TurnRelay.CommandLine

open Gateway (Client)

/-- The command under way. -/
inductive Asking where
  /-- The question is relayed. -/
  | relaying (live : Turn.Live)
  /-- The client is being shut down. -/
  | closing (ending : Turn.Ending) (call : Nat)
  deriving DecidableEq, Repr

/-- What a step of the command leads to. -/
inductive Asking.Next where
  /-- The command goes on. -/
  | goesOn (a : Asking)
  /-- A block is printed. -/
  | prints (block : String) (a : Asking)
  /-- The command ends, and with it the sockets of these epochs. -/
  | ends (r : Except Failure Unit) (lost : List Nat)

namespace Asking

/-- The command begins. -/
def begin (s : Settings) (r : Turn.Request) : Asking :=
  .relaying (.new r s.relay.manner.channelCapacity)

/-- How a turn's ending ends the command. -/
def conclude : Turn.Ending → Except Failure Unit
  | .returned .startFailed => .error .notStarted
  | .returned _ => .ok ()
  | _ => .error .turnFailed

/-- The next step of the command at a time; none if it has to wait. -/
def advance (c : Client) (now : Nat) (names : Turn.FreshNames) (a : Asking) :
    Option (Next × Client) :=
  match a with
  | .relaying live =>
    match live.task.read with
    | some (e, task) => some (.prints e.block (.relaying { live with task := task }), c)
    | none =>
      match live.advance c now names with
      | some (live, c) => some (.goesOn (.relaying live), c)
      | none =>
        if live.isOver then
          live.task.ending?.map fun ending =>
            let (n, c) := c.destroy
            (.goesOn (.closing ending n), c)
        else none
  | .closing ending n =>
    match c.poll now n with
    | (none, _) => none
    | (some _, c) =>
      let (lost, c) := c.exit
      some (.ends (conclude ending) lost, c)

end Asking

end TurnRelay.CommandLine
