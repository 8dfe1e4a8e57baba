import TurnRelay.Proofs.Gateway.Shutdown

/-!
# Courses of a client

A run of a client goes on whatever deadlines its supervisor sets. But a clock cannot tell every moment, and a supervisor
that would have to wait for one beyond those fails. The course of a client is what its run comes to by the clock. Both
are the same up to the first move in which the supervisor fails; from then on nobody takes what the client is told.
So what holds of every run holds of every course, for as long as the supervisor has not failed.

## The model

* `Client.fails` — in a move the supervisor sets a deadline that the clock cannot tell.
* `Client.go`, `Client.pursue`, `Client.course` — what becomes of a client by the clock.
* `Client.recount` — what can be seen of the moves of a course.
* `Client.Collapsed` — a client whose supervisor has failed.
* `Client.Pursued` — where a course stands.

## What is proved

* `pursued_course` — the course of a client is its run, or its supervisor has failed in a move of that run.
-/

namespace TurnRelay.Gateway.Client

/-! ### Moves by the clock -/

/-- In a move the supervisor sets a deadline that the clock cannot tell. -/
def fails (c : Client) (m : Move) : Bool := ! (c.move m).connection.isTimely

/-- What becomes of a client in a move, by the clock. -/
def go (c : Client) (m : Move) : Client := c.checked (c.move m)

/-- One move after the other, by the clock. -/
def pursue (c : Client) (moves : List Move) : Client := moves.foldl go c

/-- The client after a course. -/
abbrev course (p : Profile) (moves : List Move) : Client := (Client.new p).pursue moves

/-- What can be seen of the moves of a course, one after the other, if `f` is what can be seen of each. -/
def recount {α : Type} (f : Client → Move → Option α) (c : Client) : List Move → List α
  | [] => []
  | m :: moves => (f c m).toList ++ (c.go m).recount f moves

variable {c d : Client} {m : Move}

theorem pursue_concat (c : Client) (moves : List Move) (m : Move) :
    c.pursue (moves ++ [m]) = (c.pursue moves).go m := List.foldl_append

theorem recount_concat {α : Type} (f : Client → Move → Option α) (c : Client) (moves : List Move) (m : Move) :
    c.recount f (moves ++ [m]) = c.recount f moves ++ (f (c.pursue moves) m).toList := by
  induction moves generalizing c with
  | nil => exact List.append_nil _
  | cons m' moves ih =>
    rw [List.cons_append, recount, recount, ih, List.append_assoc]
    rfl

theorem isTimely_of_keeps (h : c.fails m = false) : (c.move m).connection.isTimely = true := by
  simpa [fails] using h

theorem go_of_keeps (h : c.fails m = false) : c.go m = c.move m := if_pos (isTimely_of_keeps h)

theorem go_of_fails (h : c.fails m = true) : c.go m = c.collapse (c.move m) := by
  have ht : ¬ (c.move m).connection.isTimely = true := by simpa [fails] using h
  exact if_neg ht

/-- Nothing but the supervisor sets deadlines. -/
theorem fails_of_idle (ht : c.connection.isTimely = true) (hx : c.cue? m = none) : c.fails m = false := by
  rw [fails, connection_of_idle hx, ht]
  rfl

/-! ### Collapses -/

/-- **The supervisor has failed** that a client had: it is gone, and the connection, with what was published of it, is
as it was before. -/
structure Collapsed (c d : Client) : Prop where
  /-- There is no supervisor. -/
  running : d.isRunning = false
  /-- The connection is as it was. -/
  connection : d.connection = c.connection

theorem collapsed_of_fails (h : c.fails m = true) : Collapsed c (c.go m) := by
  rw [go_of_fails h]
  exact ⟨rfl, rfl⟩

/-- A supervisor that has failed does not come back. -/
theorem Collapsed.go (h : Collapsed c d) (ht : c.connection.isTimely = true) (m : Move) : Collapsed c (d.go m) := by
  have hx := cue?_of_not_running h.running m
  rw [go_of_keeps (fails_of_idle (h.connection ▸ ht) hx)]
  exact ⟨(isRunning_of_does hx (does_move d m)).trans h.running, (connection_of_idle hx).trans h.connection⟩

/-! ### Every course -/

/-- **Where a course of a client stands.** -/
inductive Pursued (p : Profile) (moves : List Move) : Client → Prop where
  /-- It is the run. -/
  | runs : (after p moves).connection.isTimely = true → Pursued p moves (after p moves)
  /-- It was the run up to a move in which the supervisor has failed. -/
  | ends {before later : List Move} {m : Move} {d : Client} : moves = before ++ m :: later →
      course p before = after p before → (after p before).connection.isTimely = true →
      (after p before).fails m = true → Collapsed (after p before) d → Pursued p moves d

/-- **The course of a client is its run, or its supervisor has failed in a move of that run.** -/
theorem pursued_course (p : Profile) (moves : List Move) : Pursued p moves (course p moves) := by
  induction moves using List.reverseRecOn with
  | nil => exact .runs rfl
  | append_singleton moves m ih =>
    have hstep : course p (moves ++ [m]) = (course p moves).go m := pursue_concat _ moves m
    rw [hstep]
    generalize hd : course p moves = d at ih
    cases ih with
    | runs ht =>
      cases hf : (after p moves).fails m with
      | false =>
        rw [go_of_keeps hf, ← after_concat]
        exact .runs (by rw [after_concat]; exact isTimely_of_keeps hf)
      | true => exact .ends rfl hd ht hf (collapsed_of_fails hf)
    | @ends before later m' d he hb ht hf hc =>
      exact .ends (by rw [he, List.append_assoc, List.cons_append]) hb ht hf (hc.go ht m)

/-- No deadline is set in a course that the clock cannot tell. -/
theorem isTimely_course (p : Profile) (moves : List Move) : (course p moves).connection.isTimely = true := by
  have h := pursued_course p moves
  generalize course p moves = d at h
  cases h with
  | runs ht => exact ht
  | ends _ _ ht _ hc => rw [hc.connection, ht]

/-- As long as there is a supervisor, the course is the run. -/
theorem course_of_running {p : Profile} {moves : List Move} (h : (course p moves).isRunning = true) :
    course p moves = after p moves := by
  have hp := pursued_course p moves
  generalize course p moves = d at hp h
  cases hp with
  | runs => rfl
  | ends _ _ _ _ hc =>
    rw [hc.running] at h
    cases h

end TurnRelay.Gateway.Client
