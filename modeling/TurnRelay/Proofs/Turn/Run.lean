import TurnRelay.Turn.Task
import Mathlib.Data.List.Induction

/-!
# Runs of a turn

A turn shares its channel with a reader, and is at the mercy of its run and of whoever may cancel it.
A run of a turn is a list of moves, each by one of them, in any order: the task's own next step, what
its backend answers, a cancellation, and what the reader does. A move that is not possible where it
stands changes nothing, so every list of moves is a run.

## The model

* `Move`, `Task.move` — what can happen, and what becomes of the task.
* `Watched` — a task together with everything that has left its channel, so that `Watched.sent` is
  everything that was ever put in.
* `Does`, `Step` — the same moves as a labelled relation, one constructor for each way in which the
  task, its run or its reader changes them.

## What is proved

* `step_move` — every move is a step.
* `run_induction` — what holds at the start and is kept by every step holds after every run.
-/

namespace TurnRelay.Turn

/-! ### The channel -/

namespace Channel

variable (c : Channel) (e : Event)

theorem push_of_open (h : c.isOpen = true) : c.push e = { c with queue := c.queue ++ [e] } := if_pos h

@[simp] theorem capacity_push : (c.push e).capacity = c.capacity := by
  unfold push
  split <;> rfl

@[simp] theorem reserved_push : (c.push e).reserved = c.reserved := by
  unfold push
  split <;> rfl

@[simp] theorem isOpen_push : (c.push e).isOpen = c.isOpen := by
  unfold push
  split <;> rfl

theorem queue_push : (c.push e).queue = c.queue ++ if c.isOpen then [e] else [] := by
  unfold push
  split <;> simp

@[simp] theorem capacity_tryPush : (c.tryPush e).capacity = c.capacity := by
  unfold tryPush
  split <;> simp

@[simp] theorem reserved_tryPush : (c.tryPush e).reserved = c.reserved := by
  unfold tryPush
  split <;> simp

@[simp] theorem isOpen_tryPush : (c.tryPush e).isOpen = c.isOpen := by
  unfold tryPush
  split <;> simp

@[simp] theorem capacity_pushReserved : (c.pushReserved e).capacity = c.capacity := capacity_push c e

@[simp] theorem reserved_pushReserved : (c.pushReserved e).reserved = false := rfl

@[simp] theorem isOpen_pushReserved : (c.pushReserved e).isOpen = c.isOpen := isOpen_push c e

theorem queue_pushReserved : (c.pushReserved e).queue = c.queue ++ if c.isOpen then [e] else [] :=
  queue_push c e

end Channel

/-! ### Moves -/

/-- What can happen to a turn. -/
inductive Move where
  /-- The task makes its own next step, if nothing holds it up. -/
  | advance
  /-- The run has started, or could not be. -/
  | begin (started : Bool)
  /-- The run yields an event, or none any more. -/
  | pull (item : Option Wire.RunEvent)
  /-- The run fails in the middle of a pull. -/
  | crash
  /-- The task is cancelled. -/
  | cancel
  /-- The reader takes an event, if there is one. -/
  | read
  /-- The reader goes away. -/
  | hangUp

namespace Task

/-- What becomes of a task in a move. -/
def move (t : Task) : Move → Task
  | .advance => t.advance.getD t
  | .begin started => t.begin started
  | .pull item => t.pull item
  | .crash => t.crash
  | .cancel => t.cancel
  | .read => (t.read.map (·.2)).getD t
  | .hangUp => t.hangUp

/-- The events that a move takes out of a task's channel: read, or lost with the reader. -/
def takenOut (t : Task) : Move → List Event
  | .read => t.channel.queue.take 1
  | .hangUp => t.channel.queue
  | _ => []

end Task

/-- A task and the events that have left its channel. -/
structure Watched where
  /-- The task. -/
  task : Task
  /-- The events that have left its channel, in order. -/
  gone : List Event

namespace Watched

/-- A task that has not begun. -/
def new (capacity : Nat) : Watched := ⟨.new capacity, []⟩

/-- Everything that was put into the channel, in order. -/
def sent (w : Watched) : List Event := w.gone ++ w.task.channel.queue

/-- One move. -/
def move (w : Watched) (m : Move) : Watched := ⟨w.task.move m, w.gone ++ w.task.takenOut m⟩

/-- One move after the other. -/
def run (w : Watched) (moves : List Move) : Watched := moves.foldl move w

@[simp] theorem run_nil (w : Watched) : w.run [] = w := rfl

@[simp] theorem run_cons (w : Watched) (m : Move) (moves : List Move) :
    w.run (m :: moves) = (w.move m).run moves := rfl

theorem run_append (w : Watched) (before after : List Move) :
    w.run (before ++ after) = (w.run before).run after := List.foldl_append

theorem run_concat (w : Watched) (moves : List Move) (m : Move) :
    w.run (moves ++ [m]) = (w.run moves).move m := run_append w moves [m]

end Watched

/-! ### The moves as a relation -/

/-- The task is at a point where it may have to wait. -/
def Stage.waits : Stage → Bool
  | .opening => true
  | .starting => true
  | .pulling _ => true
  | .sending (_ :: _) _ => true
  | _ => false

/-- Why a task gives up at a stage, and how it will have ended. -/
inductive Abandons (c : Channel) : Move → Stage → Ending → Prop where
  /-- It sees that its reader has gone away. -/
  | gone {s : Stage} : s.waits = true → c.isOpen = false → Abandons c .advance s (.returned .clientGone)
  /-- Its run fails. -/
  | crashed {errored : Bool} : Abandons c .crash (.pulling errored) .crashed
  /-- It is cancelled. -/
  | cancelled {s : Stage} : s.waits = true → Abandons c .cancel s .cancelled

theorem Abandons.waits {c : Channel} {m : Move} {s : Stage} {e : Ending} (h : Abandons c m s e) :
    s.waits = true := by
  cases h with
  | gone hw => exact hw
  | crashed => rfl
  | cancelled hw => exact hw

/-- What a task does, or what its run does to it, in a move. -/
inductive Does : Move → Task → Task → Prop where
  /-- It sets a slot aside. -/
  | reserve {w : Writer} {c : Channel} : c.isOpen = true → c.hasRoom = true →
      Does .advance ⟨w, .opening, c⟩ ⟨w, .starting, { c with reserved := true }⟩
  /-- Its run starts. -/
  | start {w : Writer} {c : Channel} : Does (.begin true) ⟨w, .starting, c⟩ ⟨w, .pulling false, c⟩
  /-- Its run cannot be started. -/
  | startFailed {w : Writer} {c : Channel} :
      Does (.begin false) ⟨w, .starting, c⟩
        ⟨w, .sending [.error connectionFailed] (.flush false .startFailed), c⟩
  /-- It answers an event of its run. -/
  | respond {w : Writer} {c : Channel} {errored : Bool} (e : Wire.RunEvent) :
      Does (.pull (some e)) ⟨w, .pulling errored, c⟩
        ⟨(w.answer e).1, .sending (w.answer e).2 (Task.nextAfter errored e.state), c⟩
  /-- Its run has no more events. -/
  | runOver {w : Writer} {c : Channel} {errored : Bool} :
      Does (.pull none) ⟨w, .pulling errored, c⟩
        ⟨w, .sending [] (.flush false (if errored then .errored else .endedAbnormally)), c⟩
  /-- It sends an event. -/
  | send {w : Writer} {c : Channel} {e : Event} {todo : List Event} {next : Next} :
      c.isOpen = true → c.hasRoom = true →
        Does .advance ⟨w, .sending (e :: todo) next, c⟩ ⟨w, .sending todo next, c.push e⟩
  /-- It has sent its events and waits for its run again. -/
  | again {w : Writer} {c : Channel} {errored : Bool} :
      Does .advance ⟨w, .sending [] (.pull errored), c⟩ ⟨w, .pulling errored, c⟩
  /-- It has sent its events and settles what is withheld. -/
  | flush {w : Writer} {c : Channel} {aborted : Bool} {outcome : Outcome} :
      Does .advance ⟨w, .sending [] (.flush aborted outcome), c⟩
        ⟨w.flush.1, .sending w.flush.2 (.close aborted outcome), c⟩
  /-- It has sent its events and closes the channel. -/
  | close {w : Writer} {c : Channel} {aborted : Bool} {outcome : Outcome} :
      Does .advance ⟨w, .sending [] (.close aborted outcome), c⟩
        ⟨w, .settled outcome, c.pushReserved (w.closing aborted)⟩
  /-- It returns. -/
  | finish {w : Writer} {c : Channel} {outcome : Outcome} :
      Does .advance ⟨w, .settled outcome, c⟩
        ⟨w, .ended (.returned (if c.isOpen then outcome else .clientGone)), c⟩
  /-- It gives up. -/
  | abandon {m : Move} {w : Writer} {s : Stage} {c : Channel} {e : Ending} :
      Abandons c m s e → Does m ⟨w, s, c⟩ (Task.abandon ⟨w, s, c⟩ e)
  /-- It has given up, and a marker that is left goes out if there is room. -/
  | offer {w : Writer} {c : Channel} {m : Event} {left : List Event} {e : Ending} :
      Does .advance ⟨w, .leaving (m :: left) e, c⟩ ⟨w, .leaving left e, c.tryPush m⟩
  /-- It has given up, and closes the channel. -/
  | leave {w : Writer} {c : Channel} {e : Ending} :
      Does .advance ⟨w, .leaving [] e, c⟩ ⟨w, .ended e, c.pushReserved (w.closing false)⟩

theorem does_of_advance {t t' : Task} (h : t.advance = some t') : Does .advance t t' := by
  obtain ⟨w, s, c⟩ := t
  cases s with
  | opening =>
    simp only [Task.advance] at h
    split at h
    · rename_i hc
      cases h
      exact .abandon (.gone rfl (by simpa using hc))
    · rename_i hc
      split at h
      · rename_i hr
        cases h
        exact .reserve (by simpa using hc) hr
      · cases h
  | starting => cases h
  | pulling errored =>
    simp only [Task.advance] at h
    split at h
    · cases h
    · rename_i hc
      cases h
      exact .abandon (.gone rfl (by simpa using hc))
  | sending todo next =>
    cases todo with
    | nil =>
      cases h
      cases next with
      | pull => exact .again
      | flush => exact .flush
      | close => exact .close
    | cons e todo =>
      simp only [Task.advance] at h
      split at h
      · rename_i hc
        cases h
        exact .abandon (.gone rfl (by simpa using hc))
      · rename_i hc
        split at h
        · rename_i hr
          cases h
          exact .send (by simpa using hc) hr
        · cases h
  | leaving left e =>
    cases left with
    | nil => cases h; exact .leave
    | cons m left => cases h; exact .offer
  | settled outcome => cases h; exact .finish
  | ended e => cases h

/-- What a move does to a task and the events that have left its channel. -/
inductive Step : Move → Watched → Watched → Prop where
  /-- Nothing. -/
  | idle {m : Move} {w : Watched} : Step m w w
  /-- The task moves. -/
  | task {m : Move} {t t' : Task} {gone : List Event} : Does m t t' → Step m ⟨t, gone⟩ ⟨t', gone⟩
  /-- The reader takes an event. -/
  | read {t : Task} {gone : List Event} {e : Event} {rest : List Event} : t.channel.queue = e :: rest →
      Step .read ⟨t, gone⟩ ⟨{ t with channel := { t.channel with queue := rest } }, gone ++ [e]⟩
  /-- The reader goes away. -/
  | hangUp {t : Task} {gone : List Event} :
      Step .hangUp ⟨t, gone⟩ ⟨{ t with channel := t.channel.close }, gone ++ t.channel.queue⟩

theorem Step.of_does {m : Move} {t : Task} {gone : List Event} (h : Does m t (t.move m))
    (hm : t.takenOut m = []) : Step m ⟨t, gone⟩ (Watched.move ⟨t, gone⟩ m) := by
  simp only [Watched.move, hm, List.append_nil]
  exact .task h

theorem Step.of_idle {m : Move} {t : Task} {gone : List Event} (h : t.move m = t)
    (hm : t.takenOut m = []) : Step m ⟨t, gone⟩ (Watched.move ⟨t, gone⟩ m) := by
  simp only [Watched.move, h, hm, List.append_nil]
  exact .idle

/-- Every move is a step. -/
theorem step_move (w : Watched) (m : Move) : Step m w (w.move m) := by
  obtain ⟨⟨writer, s, c⟩, gone⟩ := w
  cases m with
  | advance =>
    cases h : (Task.mk writer s c).advance with
    | none => exact .of_idle (by simp [Task.move, h]) rfl
    | some t' =>
      have ht : (Task.mk writer s c).move .advance = t' := by simp [Task.move, h]
      exact .of_does (ht ▸ does_of_advance h) rfl
  | begin started =>
    cases s with
    | starting =>
      cases started with
      | false => exact .of_does .startFailed rfl
      | true => exact .of_does .start rfl
    | _ => exact .of_idle rfl rfl
  | pull item =>
    cases s with
    | pulling errored =>
      cases item with
      | none => exact .of_does .runOver rfl
      | some e => exact .of_does (.respond e) rfl
    | _ => exact .of_idle rfl rfl
  | crash =>
    cases s with
    | pulling errored => exact .of_does (.abandon .crashed) rfl
    | _ => exact .of_idle rfl rfl
  | cancel =>
    cases s with
    | opening => exact .of_does (.abandon (.cancelled rfl)) rfl
    | starting => exact .of_does (.abandon (.cancelled rfl)) rfl
    | pulling errored => exact .of_does (.abandon (.cancelled rfl)) rfl
    | sending todo next =>
      cases todo with
      | nil => exact .of_idle rfl rfl
      | cons e todo => exact .of_does (.abandon (.cancelled rfl)) rfl
    | _ => exact .of_idle rfl rfl
  | read =>
    obtain ⟨capacity, queue, reserved, isOpen⟩ := c
    cases queue with
    | nil => exact .of_idle rfl rfl
    | cons e rest => exact .read rfl
  | hangUp => exact .hangUp

/-- What holds at the start of a run and is kept by every step, the moves made so far being known, holds
at its end. -/
theorem run_induction {P : List Move → Watched → Prop} {w : Watched} (start : P [] w)
    (step : ∀ moves m, P moves (w.run moves) → Step m (w.run moves) ((w.run moves).move m) →
      P (moves ++ [m]) ((w.run moves).move m))
    (moves : List Move) : P moves (w.run moves) := by
  induction moves using List.reverseRecOn with
  | nil => exact start
  | append_singleton moves m ih =>
    rw [Watched.run_concat]
    exact step moves m ih (step_move _ _)

/-! ### What was put in -/

/-- Taking events out of the channel does not change what was put in. -/
theorem sent_read {t : Task} {gone : List Event} {e : Event} {rest : List Event}
    (h : t.channel.queue = e :: rest) :
    Watched.sent ⟨{ t with channel := { t.channel with queue := rest } }, gone ++ [e]⟩ =
      Watched.sent ⟨t, gone⟩ := by
  simp [Watched.sent, h]

theorem sent_hangUp (t : Task) (gone : List Event) :
    Watched.sent ⟨{ t with channel := t.channel.close }, gone ++ t.channel.queue⟩ =
      Watched.sent ⟨t, gone⟩ := by
  simp [Watched.sent, Channel.close]

end TurnRelay.Turn
