import TurnRelay.Proofs.Marker.Chunks
import TurnRelay.Turn.Task

/-!
# What a turn has to tell

A turn sends its events one by one, through a channel that may be full, while its run goes on. What it
has to tell does not depend on any of that: it is a function of what its run does. This module says
which function, as a recursion over the run's events that knows nothing of channels, stages or waiting,
and connects it with the writer.

## The model

* `Script` — what a run does: it cannot be started, or it yields some events and is over.
* `Hearing` — what has to be remembered from one event to the next.
* `Script.tale` — the events that the reader is told, and the outcome.
* `Writer.tale`, `Next.tale` — the same from the middle of a turn on.

## What is proved

* `Writer.tale_cons`, `Writer.tale_nil` — what the writer answers to the run's next event, or to its
  end, is the beginning of the tale, and what is left to tell goes on from there.
* `Next.tale_flush` — the same for what is withheld.
-/

namespace TurnRelay.Turn

open Wire (RunEvent RunState)

/-! ### The tale of a run -/

/-- What the run of a turn does. -/
inductive Script where
  /-- It cannot be started. -/
  | unstartable
  /-- It yields some events, and then none any more. -/
  | yields (events : List RunEvent)

/-- What a turn tells its reader, and how it ends. -/
structure Tale where
  /-- What the reader is told. -/
  events : List Event
  /-- How the turn ends. -/
  outcome : Outcome
  deriving DecidableEq

/-- What has been heard of a run's text. -/
structure Hearing where
  /-- The text that may still become a marker. -/
  sieve : Sieve
  /-- The text heard last. -/
  seen : List Char

namespace Hearing

/-- Nothing has been heard. -/
def empty : Hearing := ⟨.empty, []⟩

/-- The text so far is heard, if there is one. Only what it adds to the text heard last goes into the
sieve, and if that is nothing, nothing comes of it. -/
def hear (h : Hearing) : Option String → Extraction × Hearing
  | none => (.empty, h)
  | some text =>
    let added := suffixBehind h.seen text.toList
    if added = [] then (.empty, ⟨h.sieve, text.toList⟩)
    else ((h.sieve.push added).1, ⟨(h.sieve.push added).2, text.toList⟩)

end Hearing

/-- An extraction as the reader is told of it: the text, unless it is empty, and then the markers. -/
def told (x : Extraction) : List Event :=
  if x.text = [] then x.markers.map .marker else .delta x.text :: x.markers.map .marker

/-- The reason that an error event gives. -/
def reason (e : RunEvent) : String := (e.errorMessage.filter (· ≠ "")).getD runFailed

/-- What the reader is told before the closing event. -/
def body (h : Hearing) : List RunEvent → List Event
  | [] => told h.sieve.flush.1
  | e :: es =>
    match e.state with
    | .error => .error (reason e) :: body h es
    | .delta => told (h.hear e.text?).1 ++ body (h.hear e.text?).2 es
    | .final => told (h.hear e.text?).1 ++ told (h.hear e.text?).2.sieve.flush.1
    | .aborted => told (h.hear e.text?).1 ++ told (h.hear e.text?).2.sieve.flush.1

/-- The plain text in what the reader is told. -/
def spoken (es : List Event) : List Char :=
  es.flatMap fun
    | .delta text => text
    | _ => []

/-- The event settles how the run has ended. -/
def settles (e : RunEvent) : Bool := e.state = .final || e.state = .aborted

/-- How a turn ends: as its first settling event says; without one, it depends on whether the run has
reported an error, now or before. -/
def outcomeOf (errored : Bool) (es : List RunEvent) : Outcome :=
  match es.find? settles with
  | some e => if e.state = .aborted then .aborted else .completed
  | none => if errored || es.any (·.state = .error) then .errored else .endedAbnormally

/-- The tale of a run. The closing event holds all the text that was told. -/
def Script.tale : Script → Tale
  | .unstartable => ⟨[.error connectionFailed, .done [] false], .startFailed⟩
  | .yields es =>
    let said := body .empty es
    let outcome := outcomeOf false es
    ⟨said ++ [.done (spoken said) (decide (outcome = .aborted))], outcome⟩

/-- The events that a run yields. -/
def Script.events : Script → List RunEvent
  | .unstartable => []
  | .yields es => es

/-- Whether a run starts. -/
def Script.starts : Script → Bool
  | .unstartable => false
  | .yields _ => true

/-! ### Parts of a tale -/

/-- A tale before which some events are told. -/
def Tale.after (t : Tale) (es : List Event) : Tale := { t with events := es ++ t.events }

@[simp] theorem Tale.after_nil (t : Tale) : t.after [] = t := rfl

@[simp] theorem Tale.after_after (t : Tale) (es fs : List Event) :
    (t.after fs).after es = t.after (es ++ fs) := by
  simp [Tale.after]

theorem spoken_append (es fs : List Event) : spoken (es ++ fs) = spoken es ++ spoken fs :=
  List.flatMap_append

theorem spoken_told (x : Extraction) : spoken (told x) = x.text := by
  have hm : ∀ ms : List Marker, spoken (ms.map .marker) = [] := by
    intro ms
    simp [spoken]
  unfold told
  by_cases h : x.text = []
  · rw [if_pos h, hm, h]
  · rw [if_neg h, ← List.singleton_append, spoken_append, hm, List.append_nil]
    exact List.append_nil _

theorem told_eq_events (x : Extraction) : told x = Writer.events x := by
  unfold told Writer.events
  by_cases h : x.text = []
  · rw [if_pos h, if_pos h, List.nil_append]
  · rw [if_neg h, if_neg h, List.singleton_append]

theorem errorText_eq_reason (e : RunEvent) : errorText e.errorMessage = reason e := by
  unfold errorText reason
  cases e.errorMessage with
  | none => rfl
  | some m => by_cases h : m = "" <;> simp [h, Option.filter]

theorem outcomeOf_cons_of_settles {e : RunEvent} (h : settles e = true) (errored : Bool)
    (es : List RunEvent) :
    outcomeOf errored (e :: es) = if e.state = .aborted then .aborted else .completed := by
  simp only [outcomeOf, List.find?_cons_of_pos h]

theorem outcomeOf_cons_of_not_settles {e : RunEvent} (h : settles e = false) (errored : Bool)
    (es : List RunEvent) :
    outcomeOf errored (e :: es) = outcomeOf (errored || decide (e.state = .error)) es := by
  have hfind : (e :: es).find? settles = es.find? settles := List.find?_cons_of_neg (by simp [h])
  unfold outcomeOf
  rw [hfind, List.any_cons, Bool.or_assoc]

/-! ### The writer's part in it -/

namespace Writer

/-- What the writer has heard. -/
def hearing (w : Writer) : Hearing := ⟨w.sieve, w.seen⟩

@[simp] theorem hearing_mk (h : Hearing) (clean : List Char) : hearing ⟨h.sieve, h.seen, clean⟩ = h := rfl

/-- What a turn has still to tell when its run will yield these events. -/
def tale (w : Writer) (errored : Bool) (es : List RunEvent) : Tale :=
  let said := body w.hearing es
  let outcome := outcomeOf errored es
  ⟨said ++ [.done (w.clean ++ spoken said) (decide (outcome = .aborted))], outcome⟩

/-- A writer that has seen nothing has the whole tale before it. -/
theorem tale_empty (es : List RunEvent) : Writer.empty.tale false es = (Script.yields es).tale := rfl

theorem answer_of_error (w : Writer) {e : RunEvent} (h : e.state = .error) :
    w.answer e = (w, [.error (reason e)]) := by
  simp only [answer, h, errorText_eq_reason]

/-- Feeding the writer is hearing a text, and keeping what comes of it. -/
theorem feed_eq (w : Writer) (text : String) :
    w.feed text.toList =
      (⟨(w.hearing.hear text).2.sieve, (w.hearing.hear text).2.seen,
        w.clean ++ (w.hearing.hear text).1.text⟩, told (w.hearing.hear text).1) := by
  unfold feed Hearing.hear hearing
  dsimp only
  by_cases h : suffixBehind w.seen text.toList = []
  · rw [if_pos h, if_pos h]
    simp [told, Extraction.empty]
  · rw [if_neg h, if_neg h, told_eq_events]

/-- Any event but an error is heard. -/
theorem answer_of_ne_error (w : Writer) {e : RunEvent} (h : e.state ≠ .error) :
    w.answer e =
      (⟨(w.hearing.hear e.text?).2.sieve, (w.hearing.hear e.text?).2.seen,
        w.clean ++ (w.hearing.hear e.text?).1.text⟩, told (w.hearing.hear e.text?).1) := by
  unfold answer
  cases hs : e.state with
  | error => exact absurd hs h
  | _ =>
    cases e.text? with
    | none => simp [Hearing.hear, hearing, told, Extraction.empty]
    | some text => exact w.feed_eq text

end Writer

/-- What a turn has still to tell when it does this next, and its run will yield these events. -/
def Next.tale (w : Writer) (es : List RunEvent) : Next → Tale
  | .pull errored => w.tale errored es
  | .flush aborted outcome =>
    ⟨told w.sieve.flush.1 ++ [.done (w.clean ++ w.sieve.flush.1.text) aborted], outcome⟩
  | .close aborted outcome => ⟨[.done w.clean aborted], outcome⟩

section Settling

variable {e : RunEvent} (h : settles e = true)

include h

theorem ne_error_of_settles : e.state ≠ .error := by
  intro hs
  simp [settles, hs] at h

/-- An event that settles how the run has ended is followed only by what is withheld. -/
theorem body_of_settles (heard : Hearing) (es : List RunEvent) :
    body heard (e :: es) = told (heard.hear e.text?).1 ++ told (heard.hear e.text?).2.sieve.flush.1 := by
  cases hs : e.state with
  | final => simp only [body, hs]
  | aborted => simp only [body, hs]
  | delta => simp [settles, hs] at h
  | error => exact absurd hs (ne_error_of_settles h)

theorem nextAfter_of_settles (errored : Bool) :
    Task.nextAfter errored e.state =
      .flush (decide (e.state = .aborted)) (if e.state = .aborted then .aborted else .completed) := by
  cases hs : e.state with
  | final => rfl
  | aborted => rfl
  | delta => simp [settles, hs] at h
  | error => exact absurd hs (ne_error_of_settles h)

theorem Writer.tale_cons_of_settles (w : Writer) (errored : Bool) (es : List RunEvent) :
    w.tale errored (e :: es) =
      ((Task.nextAfter errored e.state).tale (w.answer e).1 es).after (w.answer e).2 := by
  have haborted : (if e.state = .aborted then Outcome.aborted else .completed) = .aborted ↔
      e.state = .aborted := by
    split <;> simp_all
  rw [w.answer_of_ne_error (ne_error_of_settles h), nextAfter_of_settles h]
  simp [Writer.tale, Next.tale, Tale.after, body_of_settles h, spoken_append, spoken_told,
    outcomeOf_cons_of_settles h, haborted]

end Settling

/-- The tale goes on with the writer's answer to the run's next event. -/
theorem Writer.tale_cons (w : Writer) (errored : Bool) (e : RunEvent) (es : List RunEvent) :
    w.tale errored (e :: es) =
      ((Task.nextAfter errored e.state).tale (w.answer e).1 es).after (w.answer e).2 := by
  cases hs : e.state with
  | error =>
    have hsettles : settles e = false := by simp [settles, hs]
    have hsaid : body w.hearing (e :: es) = .error (reason e) :: body w.hearing es := by
      simp only [body, hs]
    rw [w.answer_of_error hs]
    simp [Writer.tale, Next.tale, Task.nextAfter, Tale.after, hsaid, spoken,
      outcomeOf_cons_of_not_settles hsettles, hs]
  | delta =>
    have hsettles : settles e = false := by simp [settles, hs]
    have hsaid : body w.hearing (e :: es) =
        told (w.hearing.hear e.text?).1 ++ body (w.hearing.hear e.text?).2 es := by
      simp only [body, hs]
    rw [w.answer_of_ne_error (by simp [hs])]
    simp [Writer.tale, Next.tale, Task.nextAfter, Tale.after, hsaid, spoken_append, spoken_told,
      outcomeOf_cons_of_not_settles hsettles, hs]
  | final => exact hs ▸ w.tale_cons_of_settles (by simp [settles, hs]) errored es
  | aborted => exact hs ▸ w.tale_cons_of_settles (by simp [settles, hs]) errored es

/-- The tale goes on with what is withheld when the run has no more events. -/
theorem Writer.tale_nil (w : Writer) (errored : Bool) (es : List RunEvent) :
    w.tale errored [] =
      (Next.flush false (if errored then .errored else .endedAbnormally)).tale w es := by
  have houtcome : outcomeOf errored [] = if errored then .errored else .endedAbnormally := by
    simp [outcomeOf]
  have hended : (if errored then Outcome.errored else .endedAbnormally) ≠ .aborted := by
    cases errored <;> decide
  simp [Writer.tale, Next.tale, body, spoken_told, houtcome, hended, Writer.hearing]

/-- What is withheld comes before the closing event. -/
theorem Next.tale_flush (w : Writer) (aborted : Bool) (outcome : Outcome) (es : List RunEvent) :
    (Next.flush aborted outcome).tale w es =
      ((Next.close aborted outcome).tale w.flush.1 es).after w.flush.2 := by
  simp [Next.tale, Tale.after, Writer.flush, told_eq_events]

theorem flush_empty : Sieve.empty.flush.1 = .empty := by
  have hsift : sift [] = (.empty, []) := sift_stop rfl rfl
  have hrelease : Sieve.release [] = .empty := by
    rw [Sieve.release]
    rfl
  simp only [Sieve.flush, Sieve.empty, hsift, hrelease]
  rfl

/-- If no run can be started, the reader is told so, and that is all. -/
theorem tale_unstartable (es : List RunEvent) :
    ((Next.flush false .startFailed).tale .empty es).after [.error connectionFailed] =
      Script.unstartable.tale := by
  simp only [Next.tale, Writer.empty, flush_empty]
  rfl

end TurnRelay.Turn
