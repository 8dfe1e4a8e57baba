import TurnRelay.Marker.Sieve
import TurnRelay.Turn.Event
import TurnRelay.Turn.Suffix
import TurnRelay.Wire.Chat

/-!
# Writing a turn

From the texts of a run to the events for the browser. The writer remembers the text seen last, sieves
what is new, and keeps the plain text written so far for the closing event. A piece of text counts as
written from the moment it is to be sent.

## Main definitions

* `Turn.Writer`: what is remembered.
* `Writer.feed`, `Writer.flush`: the events for a text, and for the end of texts.
-/

namespace TurnRelay.Turn

/-! ### Texts of errors -/

/-- What the browser is told if no run could be started. -/
def connectionFailed : String := "Could not reach the assistant. Please try again in a moment."

/-- What the browser is told if a run fails without saying why. -/
def runFailed : String := "The assistant reported an error."

/-- What the browser is told of a run's error. -/
def errorText (message : Option String) : String :=
  match message with
  | some m => if m = "" then runFailed else m
  | none => runFailed

/-! ### The writer -/

/-- What a turn remembers of its texts. -/
structure Writer where
  /-- The text that may still become a marker. -/
  sieve : Sieve
  /-- The run's text seen last. -/
  seen : List Char
  /-- The plain text written so far. -/
  clean : List Char
  deriving DecidableEq, Repr

namespace Writer

/-- Nothing seen yet. -/
def empty : Writer := ⟨.empty, [], []⟩

/-- The events of an extraction: its text, if there is any, and then its markers. -/
def events (e : Extraction) : List Event :=
  (if e.text = [] then [] else [.delta e.text]) ++ e.markers.map .marker

/-- Takes the run's text so far. -/
def feed (w : Writer) (current : List Char) : Writer × List Event :=
  let suffix := suffixBehind w.seen current
  if suffix = [] then ({ w with seen := current }, [])
  else
    let (e, sieve) := w.sieve.push suffix
    (⟨sieve, current, w.clean ++ e.text⟩, events e)

/-- No more text is to come. -/
def flush (w : Writer) : Writer × List Event :=
  let (e, sieve) := w.sieve.flush
  ({ w with sieve := sieve, clean := w.clean ++ e.text }, events e)

/-- The closing event. -/
def closing (w : Writer) (aborted : Bool) : Event := .done w.clean aborted

/-- The events for an event of the run: an error is passed on, and text, if there is any, is fed. -/
def answer (w : Writer) (e : Wire.RunEvent) : Writer × List Event :=
  match e.state with
  | .error => (w, [.error (errorText e.errorMessage)])
  | _ =>
    match e.text? with
    | some text => w.feed text.toList
    | none => (w, [])

end Writer

end TurnRelay.Turn
