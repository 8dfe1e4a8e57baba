import TurnRelay.Proofs.Turn.Backpressure

/-!
# The text of a closing event

A turn may be cut short wherever it waits: in the middle of sending what a text of its run has brought, or
while the sieve withholds the beginning of what may become a marker. The closing event has all the text
nevertheless. The reason is an order of things: the sieve takes a text, and what comes of it is recorded,
before any of it is sent; and a turn that gives up settles what is withheld before it closes the channel. So
the record never depends on how far the sending has come.

## The model

* `Task.fed?`, `Watched.texts` — the texts that a turn is fed in a run.
* `heardText` — what these texts add up to, each contributing what it adds to the one before.
* `sieved` — what has come out of a text and what is withheld of it, before and after the flush.
* `marked` — the markers that the reader is told of.

## What is proved

* `flatten_suffixes` — if each text extends the one before, they add up to the last.
* `transcribed_run` — after every run the writer's record is what was sieved from the texts, and what was sent
  is the beginning of it.
* `closing_event_text` — so the closing event has the text of the whole, however the turn ends.
-/

namespace TurnRelay.Turn

open Wire (RunEvent)

/-! ### Texts -/

/-- The text of a run's event, unless this reports an error. -/
def saidBy (e : RunEvent) : Option (List Char) :=
  if e.state = .error then none else e.text?.map String.toList

/-- The text that a move feeds to a task, if it does: that of its run's next event. -/
def Task.fed? (t : Task) : Move → Option (List Char)
  | .pull (some e) =>
    match t.stage with
    | .pulling _ => saidBy e
    | _ => none
  | _ => none

/-- The texts that a task is fed in a run. -/
def Watched.texts (w : Watched) : List Move → List (List Char)
  | [] => []
  | m :: moves => (w.task.fed? m).toList ++ (w.move m).texts moves

theorem Watched.texts_append (w : Watched) (before after : List Move) :
    w.texts (before ++ after) = w.texts before ++ (w.run before).texts after := by
  induction before generalizing w with
  | nil => rfl
  | cons m before ih => rw [List.cons_append, texts, texts, ih, run_cons, List.append_assoc]

theorem Watched.texts_concat (w : Watched) (moves : List Move) (m : Move) :
    w.texts (moves ++ [m]) = w.texts moves ++ ((w.run moves).task.fed? m).toList := by
  rw [texts_append, texts, texts, List.append_nil]

/-- The text seen last. -/
def lastText (texts : List (List Char)) : List Char := texts.getLast?.getD []

/-- What texts add up to, each contributing what it adds to the one before. -/
def heardText (texts : List (List Char)) : List Char := (suffixes [] texts).flatten

theorem suffixes_concat (previous : List Char) (texts : List (List Char)) (t : List Char) :
    suffixes previous (texts ++ [t]) =
      suffixes previous texts ++ [suffixBehind (texts.getLast?.getD previous) t] := by
  induction texts generalizing previous with
  | nil => rfl
  | cons u texts ih =>
    have hlast : (u :: texts).getLast?.getD previous = texts.getLast?.getD u := by
      cases texts <;> rfl
    rw [List.cons_append, suffixes, ih, hlast]
    rfl

theorem heardText_concat (texts : List (List Char)) (t : List Char) :
    heardText (texts ++ [t]) = heardText texts ++ suffixBehind (lastText texts) t := by
  unfold heardText lastText
  rw [suffixes_concat, List.flatten_append, List.flatten_singleton]

@[simp] theorem lastText_concat (texts : List (List Char)) (t : List Char) : lastText (texts ++ [t]) = t := by
  simp [lastText]

/-- What a text adds to one that it extends. -/
theorem append_suffixBehind {previous current : List Char} (h : previous <+: current) :
    previous ++ suffixBehind previous current = current := by
  obtain ⟨added, rfl⟩ := h
  congr 1
  induction previous with
  | nil => cases added <;> rfl
  | cons c previous ih => rwa [List.cons_append, suffixBehind, if_pos rfl]

/-- **If each text extends the one before, they add up to the last.** -/
theorem flatten_suffixes {previous : List Char} {texts : List (List Char)}
    (h : (previous :: texts).IsChain (· <+: ·)) :
    previous ++ (suffixes previous texts).flatten = texts.getLast?.getD previous := by
  induction texts generalizing previous with
  | nil => exact List.append_nil previous
  | cons t texts ih =>
    obtain ⟨hext, hchain⟩ := List.isChain_cons_cons.1 h
    have hlast : (t :: texts).getLast?.getD previous = texts.getLast?.getD t := by
      cases texts <;> rfl
    rw [hlast, suffixes, List.flatten_cons, ← List.append_assoc, append_suffixBehind hext]
    exact ih hchain

theorem heardText_of_isChain {texts : List (List Char)} (h : texts.IsChain (· <+: ·)) :
    heardText texts = lastText texts := by
  have hchain : ([] :: texts).IsChain (· <+: ·) := by
    cases texts with
    | nil => exact .singleton []
    | cons t texts => exact List.isChain_cons_cons.2 ⟨List.nil_prefix, h⟩
  exact flatten_suffixes hchain

/-! ### What comes of a text -/

/-- What has come out of a text, and what is withheld of it: when more of it may come, and when the sieve has
been flushed. -/
def sieved (flushed : Bool) (text : List Char) : Extraction × Sieve :=
  if flushed then (.ofText text, .empty) else Sieve.empty.push text

theorem sieved_true (text : List Char) :
    sieved true text = ((sieved false text).1 ++ (sieved false text).2.flush.1, .empty) := rfl

theorem sieved_false_append (a b : List Char) :
    sieved false (a ++ b) =
      ((sieved false a).1 ++ ((sieved false a).2.push b).1, ((sieved false a).2.push b).2) :=
  Sieve.push_append .empty a b

theorem sieved_nil (flushed : Bool) : sieved flushed [] = (.empty, .empty) := by
  have hfalse : sieved false [] = (.empty, .empty) := Sieve.push_empty_nil
  cases flushed with
  | false => exact hfalse
  | true => rw [sieved_true, hfalse, flush_empty, Extraction.empty_append]

/-- The markers that the reader is told of. -/
def marked (es : List Event) : List Marker :=
  es.filterMap fun
    | .marker m => some m
    | _ => none

theorem marked_append (es fs : List Event) : marked (es ++ fs) = marked es ++ marked fs :=
  List.filterMap_append

theorem marked_events (x : Extraction) : marked (Writer.events x) = x.markers := by
  have htext : marked (if x.text = [] then [] else [.delta x.text]) = [] := by
    split <;> rfl
  have hmarkers : ∀ ms : List Marker, marked (ms.map .marker) = ms := by
    intro ms
    induction ms with
    | nil => rfl
    | cons m ms ih => exact congrArg (m :: ·) ih
  rw [Writer.events, marked_append, htext, hmarkers, List.nil_append]

theorem spoken_events (x : Extraction) : spoken (Writer.events x) = x.text := by
  rw [← told_eq_events, spoken_told]

/-- Markers say nothing in plain text. -/
theorem spoken_filter_isMarker (es : List Event) : spoken (es.filter Event.isMarker) = [] := by
  induction es with
  | nil => rfl
  | cons e es ih =>
    cases e with
    | marker m => exact ih
    | _ => exact ih

/-! ### The writer's record -/

namespace Writer

/-- The writer has recorded what comes of these texts. -/
structure Records (w : Writer) (flushed : Bool) (texts : List (List Char)) : Prop where
  /-- The text seen last. -/
  seen : w.seen = lastText texts
  /-- What is withheld. -/
  sieve : w.sieve = (sieved flushed (heardText texts)).2
  /-- The plain text so far. -/
  clean : w.clean = (sieved flushed (heardText texts)).1.text

/-- The events tell what the writer has recorded. -/
structure Tells (w : Writer) (flushed : Bool) (texts : List (List Char)) (es : List Event) : Prop where
  /-- The plain text. -/
  text : spoken es = w.clean
  /-- The markers. -/
  markers : marked es = (sieved flushed (heardText texts)).1.markers

variable {w : Writer} {texts : List (List Char)} {es : List Event}

theorem records_empty (flushed : Bool) : Writer.empty.Records flushed [] := by
  have hnil : sieved flushed (heardText []) = (.empty, .empty) := sieved_nil flushed
  exact ⟨rfl, by rw [hnil]; rfl, by rw [hnil]; rfl⟩

theorem tells_empty : Writer.empty.Tells false [] [] := by
  have hnil : sieved false (heardText []) = (.empty, .empty) := sieved_nil false
  exact ⟨rfl, by rw [hnil]; rfl⟩

/-- Events without text and markers tell nothing. -/
theorem Tells.append_silent {flushed : Bool} {fs : List Event} (ht : w.Tells flushed texts es)
    (hspoken : spoken fs = []) (hmarked : marked fs = []) : w.Tells flushed texts (es ++ fs) :=
  ⟨by rw [spoken_append, hspoken, List.append_nil, ht.text],
    by rw [marked_append, hmarked, List.append_nil, ht.markers]⟩

/-- A text is recorded as it is fed, and the events that come of it tell the difference. -/
theorem Records.feed (h : w.Records false texts) (ht : w.Tells false texts es) (text : List Char) :
    (w.feed text).1.Records false (texts ++ [text]) ∧
      (w.feed text).1.Tells false (texts ++ [text]) (es ++ (w.feed text).2) := by
  have hheard := heardText_concat texts text
  rw [← h.seen] at hheard
  unfold Writer.feed
  dsimp only
  split
  · rename_i hnone
    rw [hnone, List.append_nil] at hheard
    exact ⟨⟨(lastText_concat texts text).symm, by rw [hheard]; exact h.sieve, by rw [hheard]; exact h.clean⟩,
      ⟨by rw [List.append_nil]; exact ht.text, by rw [hheard, List.append_nil]; exact ht.markers⟩⟩
  · have hsieved := sieved_false_append (heardText texts) (suffixBehind w.seen text)
    rw [← hheard, ← h.sieve] at hsieved
    refine ⟨⟨(lastText_concat texts text).symm, by rw [hsieved], ?_⟩, ⟨?_, ?_⟩⟩
    · rw [hsieved, Extraction.text_append, ← h.clean]
    · rw [spoken_append, spoken_events, ht.text]
    · rw [marked_append, marked_events, ht.markers, hsieved, Extraction.markers_append]

/-- What is withheld is recorded as the sieve is flushed. -/
theorem Records.flush (h : w.Records false texts) : w.flush.1.Records true texts := by
  have hsieved := sieved_true (heardText texts)
  rw [← h.sieve] at hsieved
  refine ⟨h.seen, by rw [hsieved]; rfl, ?_⟩
  rw [hsieved, Extraction.text_append, ← h.clean]
  rfl

theorem Records.tells_flush (h : w.Records false texts) (ht : w.Tells false texts es) :
    w.flush.1.Tells true texts (es ++ w.flush.2) := by
  have hsieved := sieved_true (heardText texts)
  rw [← h.sieve] at hsieved
  refine ⟨?_, ?_⟩
  · rw [spoken_append, ht.text]
    show w.clean ++ spoken (Writer.events w.sieve.flush.1) = w.clean ++ w.sieve.flush.1.text
    rw [spoken_events]
  · rw [marked_append, ht.markers, hsieved, Extraction.markers_append]
    show _ ++ marked (Writer.events w.sieve.flush.1) = _
    rw [marked_events]

/-- The text of an event is recorded, and the events that come of it tell the difference. An error adds
nothing to either. -/
theorem Records.answer (h : w.Records false texts) (ht : w.Tells false texts es) (e : RunEvent) :
    (w.answer e).1.Records false (texts ++ (saidBy e).toList) ∧
      (w.answer e).1.Tells false (texts ++ (saidBy e).toList) (es ++ (w.answer e).2) := by
  have hsaid : e.state ≠ .error → saidBy e = e.text?.map String.toList := fun he => if_neg he
  unfold Writer.answer
  cases hs : e.state with
  | error =>
    have hnone : saidBy e = none := if_pos hs
    rw [hnone, Option.toList_none, List.append_nil]
    exact ⟨h, ht.append_silent rfl rfl⟩
  | _ =>
    rw [hsaid (by simp [hs])]
    cases e.text? with
    | none => simpa using ⟨h, ht⟩
    | some text => exact h.feed ht text.toList

end Writer

/-! ### The invariant -/

/-- The sieve has been flushed. -/
def Stage.isFlushed : Stage → Bool
  | .sending _ (.close _ _) => true
  | .leaving _ _ => true
  | .settled _ => true
  | .ended _ => true
  | _ => false

/-- The task has given up, or it has ended in one way or another. -/
def Stage.quits : Stage → Bool
  | .leaving _ _ => true
  | .ended _ => true
  | _ => false

/-- **What every step of a turn keeps of its text**, the texts that it was fed being known. -/
structure Transcribed (texts : List (List Char)) (w : Watched) : Prop where
  /-- Before the beginning there is no text. -/
  opening : w.task.stage = .opening → texts = []
  /-- The writer has recorded what comes of the texts. -/
  records : w.task.writer.Records w.task.stage.isFlushed texts
  /-- What was sent is the beginning of it. -/
  said : spoken w.sent <+: w.task.writer.clean
  /-- A task that gives up sends no more plain text. -/
  mute : w.task.stage.quits = true → spoken w.task.stage.todo = []
  /-- Otherwise all of it was sent, or is still to be sent before anything else is done. -/
  tells : w.task.stage.quits = false →
    w.task.writer.Tells w.task.stage.isFlushed texts (w.sent ++ w.task.stage.todo)
  /-- The closing event has all of it, and comes last. -/
  closing : ∀ text aborted, .done text aborted ∈ w.sent →
    w.task.stage.isOver = true ∧ text = w.task.writer.clean

theorem Transcribed.new (capacity : Nat) : Transcribed [] (.new capacity) :=
  ⟨fun _ => rfl, Writer.records_empty false, List.nil_prefix, (fun h => nomatch h),
    fun _ => Writer.tells_empty, fun _ _ h => nomatch h⟩

section Steps

variable {capacity : Nat} {early : Prop} {texts : List (List Char)} {w w' : Watched} {gone : List Event}

/-- What a task that goes on has sent is the beginning of its writer's record. -/
theorem Transcribed.of_tells (hs : Sound capacity early w) (ho : w.task.stage ≠ .opening)
    (hover : w.task.stage.isOver = false) (hq : w.task.stage.quits = false)
    (hr : w.task.writer.Records w.task.stage.isFlushed texts)
    (ht : w.task.writer.Tells w.task.stage.isFlushed texts (w.sent ++ w.task.stage.todo)) :
    Transcribed texts w := by
  refine ⟨fun h => absurd h ho, hr, ?_, fun h => ?_, fun _ => ht, fun text aborted hd => ?_⟩
  · rw [← ht.text, spoken_append]
    exact List.prefix_append _ _
  · rw [hq] at h
    cases h
  · have hnone := hs.before hover _ hd
    cases hnone

/-- The closing event has the writer's record. -/
theorem closing_of_pushReserved {x : Writer} {s s' : Stage} {c : Channel} (aborted : Bool)
    (hu : Unclosed (Watched.sent ⟨⟨x, s, c⟩, gone⟩)) (text : List Char) (flag : Bool)
    (hd : .done text flag ∈ Watched.sent ⟨⟨x, s', c.pushReserved (x.closing aborted)⟩, gone⟩) :
    text = x.clean := by
  simp only [Watched.sent, Channel.queue_pushReserved, ← List.append_assoc] at hd
  rcases List.mem_append.1 hd with hd | hd
  · have hnone := hu _ hd
    cases hnone
  · split at hd
    · have he := List.mem_singleton.1 hd
      cases he
      rfl
    · cases hd

/-- The closing event adds no plain text and no marker. -/
theorem spoken_pushReserved {x : Writer} {s s' : Stage} {c : Channel} (aborted : Bool) :
    spoken (Watched.sent ⟨⟨x, s', c.pushReserved (x.closing aborted)⟩, gone⟩) =
        spoken (Watched.sent ⟨⟨x, s, c⟩, gone⟩) ∧
      marked (Watched.sent ⟨⟨x, s', c.pushReserved (x.closing aborted)⟩, gone⟩) =
        marked (Watched.sent ⟨⟨x, s, c⟩, gone⟩) := by
  simp only [Watched.sent, Channel.queue_pushReserved, ← List.append_assoc]
  rw [spoken_append, marked_append]
  split <;> exact ⟨List.append_nil _, List.append_nil _⟩

/-- The task answers an event of its run. -/
theorem Transcribed.respond {x : Writer} {c : Channel} {errored : Bool} (e : RunEvent)
    (h : Transcribed texts ⟨⟨x, .pulling errored, c⟩, gone⟩)
    (hs : Sound capacity early
      ⟨⟨(x.answer e).1, .sending (x.answer e).2 (Task.nextAfter errored e.state), c⟩, gone⟩) :
    Transcribed (texts ++ (saidBy e).toList)
      ⟨⟨(x.answer e).1, .sending (x.answer e).2 (Task.nextAfter errored e.state), c⟩, gone⟩ := by
  have hr : x.Records false texts := h.records
  have ht : x.Tells false texts (gone ++ c.queue ++ []) := h.tells rfl
  rw [List.append_nil] at ht
  have hanswer := hr.answer ht e
  have hflushed : (Stage.sending (x.answer e).2 (Task.nextAfter errored e.state)).isFlushed = false := by
    cases e.state <;> rfl
  refine .of_tells hs (fun ho => nomatch ho) rfl rfl ?_ ?_
  · rw [hflushed]
    exact hanswer.1
  · rw [hflushed]
    exact hanswer.2

/-- A task that gives up settles what is withheld, unless it has not begun. -/
theorem Transcribed.abandon {m : Move} {x : Writer} {s : Stage} {c : Channel} {e : Ending}
    (h : Transcribed texts ⟨⟨x, s, c⟩, gone⟩) (hs : Sound capacity early ⟨⟨x, s, c⟩, gone⟩)
    (ha : Abandons c m s e) : Transcribed texts ⟨Task.abandon ⟨x, s, c⟩ e, gone⟩ := by
  have hover := Stage.isOver_of_waits ha.waits
  have hu : Unclosed (Watched.sent ⟨⟨x, s, c⟩, gone⟩) := hs.before hover
  have hclosing : ∀ text aborted, .done text aborted ∉ Watched.sent ⟨⟨x, s, c⟩, gone⟩ := by
    intro text aborted hd
    have hnone := hu _ hd
    cases hnone
  unfold Task.abandon
  split
  · -- the writer has recorded all that is still to be sent, and what is withheld goes in front of the close
    have hr : x.flush.1.Records true texts := by
      cases hf : s.isFlushed with
      | false =>
        have hr : x.Records s.isFlushed texts := h.records
        exact (hf ▸ hr).flush
      | true =>
        have hr : x.Records true texts := hf ▸ h.records
        have hsieve : x.sieve = .empty := hr.sieve
        refine ⟨hr.seen, by rw [hr.sieve.symm.trans hsieve]; rfl, ?_⟩
        show x.clean ++ x.sieve.flush.1.text = _
        rw [hsieve, flush_empty, Extraction.text_empty, List.append_nil]
        exact hr.clean
    refine ⟨(fun ho => nomatch ho), hr, ?_, fun _ => spoken_filter_isMarker _, (fun hq => nomatch hq),
      fun text aborted hd => absurd hd (hclosing text aborted)⟩
    exact h.said.trans (List.prefix_append _ _)
  · rename_i hslot
    have hslot : c.reserved = false := by simpa using hslot
    obtain rfl : s = .opening := Stage.eq_opening_of_waits ha.waits (hs.slot.symm.trans hslot)
    obtain rfl : texts = [] := h.opening rfl
    have hr : x.Records false [] := h.records
    have hnil : ∀ flushed, sieved flushed (heardText []) = (.empty, .empty) := fun flushed =>
      sieved_nil flushed
    refine ⟨(fun ho => nomatch ho), ⟨hr.seen, ?_, ?_⟩, h.said, fun _ => rfl, (fun hq => nomatch hq),
      fun text aborted hd => absurd hd (hclosing text aborted)⟩
    · rw [hnil, ← hnil false]
      exact hr.sieve
    · rw [hnil, ← hnil false]
      exact hr.clean

/-- The task sends the next of its events. -/
theorem Transcribed.send {x : Writer} {c : Channel} {e : Event} {todo : List Event} {next : Next}
    (h : Transcribed texts ⟨⟨x, .sending (e :: todo) next, c⟩, gone⟩) (ho : c.isOpen = true)
    (hs : Sound capacity early ⟨⟨x, .sending todo next, c.push e⟩, gone⟩) :
    Transcribed texts ⟨⟨x, .sending todo next, c.push e⟩, gone⟩ := by
  have hsent : Watched.sent ⟨⟨x, .sending todo next, c.push e⟩, gone⟩ ++ todo =
      Watched.sent ⟨⟨x, .sending (e :: todo) next, c⟩, gone⟩ ++ e :: todo := by
    simp only [Watched.sent, Channel.queue_push, if_pos ho, List.append_assoc, List.singleton_append]
  have hflushed : ∀ es : List Event, (Stage.sending es next).isFlushed = (Stage.sending [] next).isFlushed := by
    intro es
    cases next <;> rfl
  refine .of_tells hs (by simp) rfl rfl ?_ ?_
  · show x.Records (Stage.sending todo next).isFlushed texts
    rw [hflushed, ← hflushed (e :: todo)]
    exact h.records
  · show x.Tells (Stage.sending todo next).isFlushed texts
      (Watched.sent ⟨⟨x, .sending todo next, c.push e⟩, gone⟩ ++ todo)
    rw [hsent, hflushed, ← hflushed (e :: todo)]
    exact h.tells rfl

/-- The task has sent all it had to send, and closes the channel. -/
theorem Transcribed.close {x : Writer} {c : Channel} {aborted : Bool} {outcome : Outcome}
    (h : Transcribed texts ⟨⟨x, .sending [] (.close aborted outcome), c⟩, gone⟩)
    (hs : Sound capacity early ⟨⟨x, .sending [] (.close aborted outcome), c⟩, gone⟩) :
    Transcribed texts ⟨⟨x, .settled outcome, c.pushReserved (x.closing aborted)⟩, gone⟩ := by
  obtain ⟨hspoken, hmarked⟩ := @spoken_pushReserved gone x (.sending [] (.close aborted outcome))
    (.settled outcome) c aborted
  have ht : x.Tells true texts
      (Watched.sent ⟨⟨x, .sending [] (.close aborted outcome), c⟩, gone⟩ ++ []) := h.tells rfl
  rw [List.append_nil] at ht
  refine ⟨(fun ho => nomatch ho), h.records, ?_, (fun hq => nomatch hq), fun _ => ⟨?_, ?_⟩,
    fun text flag hd => ⟨rfl, closing_of_pushReserved aborted (hs.before rfl) text flag hd⟩⟩
  · rw [hspoken]
    exact h.said
  · rw [show (Stage.settled outcome).todo = [] from rfl, List.append_nil, hspoken]
    exact ht.text
  · rw [show (Stage.settled outcome).todo = [] from rfl, List.append_nil, hmarked]
    exact ht.markers

/-- A task that gives up lets a marker go out if there is room. -/
theorem Transcribed.offer {x : Writer} {c : Channel} {e : Event} {left : List Event} {ending : Ending}
    (h : Transcribed texts ⟨⟨x, .leaving (e :: left) ending, c⟩, gone⟩)
    (hs : Sound capacity early ⟨⟨x, .leaving left ending, c.tryPush e⟩, gone⟩) :
    Transcribed texts ⟨⟨x, .leaving left ending, c.tryPush e⟩, gone⟩ := by
  have hmute : spoken [e] ++ spoken left = [] := by
    rw [← spoken_append]
    exact h.mute rfl
  obtain ⟨he, hleft⟩ := List.append_eq_nil_iff.1 hmute
  refine ⟨(fun ho => nomatch ho), h.records, ?_, fun _ => hleft, (fun hq => nomatch hq),
    fun text flag hd => ?_⟩
  · have hsaid := h.said
    unfold Channel.tryPush
    split
    · simp only [Watched.sent, Channel.queue_push, ← List.append_assoc]
      rw [spoken_append]
      split
      · rw [he, List.append_nil]
        exact hsaid
      · rw [show spoken [] = [] from rfl, List.append_nil]
        exact hsaid
    · exact hsaid
  · have hnone := hs.before rfl _ hd
    cases hnone

/-- A task that has given up closes the channel. -/
theorem Transcribed.leave {x : Writer} {c : Channel} {ending : Ending}
    (h : Transcribed texts ⟨⟨x, .leaving [] ending, c⟩, gone⟩)
    (hs : Sound capacity early ⟨⟨x, .leaving [] ending, c⟩, gone⟩) :
    Transcribed texts ⟨⟨x, .ended ending, c.pushReserved (x.closing false)⟩, gone⟩ := by
  obtain ⟨hspoken, -⟩ := @spoken_pushReserved gone x (.leaving [] ending) (.ended ending) c false
  refine ⟨(fun ho => nomatch ho), h.records, ?_, fun _ => rfl, (fun hq => nomatch hq),
    fun text flag hd => ⟨rfl, closing_of_pushReserved false (hs.before rfl) text flag hd⟩⟩
  rw [hspoken]
  exact h.said

/-- **Whatever a task does, or its run does to it, is transcribed.** -/
theorem Transcribed.does {m : Move} {t t' : Task} (h : Transcribed texts ⟨t, gone⟩) (hd : Does m t t')
    (hs : Sound capacity early ⟨t, gone⟩) (hs' : Sound capacity early ⟨t', gone⟩) :
    Transcribed (texts ++ (t.fed? m).toList) ⟨t', gone⟩ := by
  have keep : t.fed? m = none → Transcribed texts ⟨t', gone⟩ →
      Transcribed (texts ++ (t.fed? m).toList) ⟨t', gone⟩ := by
    intro hm ht
    rwa [hm, Option.toList_none, List.append_nil]
  cases hd with
  | respond e => exact h.respond e hs'
  | reserve => exact keep rfl (.of_tells hs' (fun ho => nomatch ho) rfl rfl h.records (h.tells rfl))
  | start => exact keep rfl (.of_tells hs' (fun ho => nomatch ho) rfl rfl h.records (h.tells rfl))
  | runOver => exact keep rfl (.of_tells hs' (fun ho => nomatch ho) rfl rfl h.records (h.tells rfl))
  | again => exact keep rfl (.of_tells hs' (fun ho => nomatch ho) rfl rfl h.records (h.tells rfl))
  | @startFailed x c =>
    have ht : x.Tells false texts (gone ++ c.queue ++ [] ++ [.error connectionFailed]) :=
      (h.tells rfl).append_silent rfl rfl
    rw [List.append_nil] at ht
    exact keep rfl (.of_tells hs' (fun ho => nomatch ho) rfl rfl h.records ht)
  | send ho => exact keep rfl (h.send ho hs')
  | @flush x c =>
    have hr : x.Records false texts := h.records
    have ht : x.flush.1.Tells true texts (gone ++ c.queue ++ [] ++ x.flush.2) := hr.tells_flush (h.tells rfl)
    rw [List.append_nil] at ht
    exact keep rfl (.of_tells hs' (fun ho => nomatch ho) rfl rfl hr.flush ht)
  | close => exact keep rfl (h.close hs)
  | finish =>
    exact keep rfl ⟨(fun ho => nomatch ho), h.records, h.said, fun _ => rfl, (fun hq => nomatch hq), h.closing⟩
  | abandon ha =>
    refine keep ?_ (h.abandon hs ha)
    cases ha <;> rfl
  | offer => exact keep rfl (h.offer hs')
  | leave => exact keep rfl (h.leave hs)

/-- A task that is fed a text does not stay where it is. -/
theorem fed?_of_move_eq_self {m : Move} (h : w.move m = w) : w.task.fed? m = none := by
  obtain ⟨⟨x, s, c⟩, gone⟩ := w
  cases m with
  | pull item =>
    cases item with
    | none => rfl
    | some e =>
      cases s with
      | pulling errored =>
        have hstage : Stage.sending (x.answer e).2 (Task.nextAfter errored e.state) = .pulling errored :=
          congrArg (fun w => w.task.stage) h
        cases hstage
      | _ => rfl
  | _ => rfl

/-- **Every move of a turn is transcribed.** -/
theorem Transcribed.move (h : Transcribed texts w) (m : Move) (hs : Sound capacity early w)
    (hs' : Sound capacity early (w.move m)) :
    Transcribed (texts ++ (w.task.fed? m).toList) (w.move m) := by
  have hstep := step_move w m
  generalize hw : w.move m = w' at hstep hs' ⊢
  cases hstep with
  | idle =>
    rw [fed?_of_move_eq_self hw, Option.toList_none, List.append_nil]
    exact h
  | task hd => exact h.does hd hs hs'
  | read hq =>
    rw [show Option.toList (Task.fed? _ .read) = [] from rfl, List.append_nil]
    refine ⟨h.opening, h.records, ?_, h.mute, fun hn => ?_, ?_⟩
    · rw [sent_read hq]
      exact h.said
    · rw [sent_read hq]
      exact h.tells hn
    · rw [sent_read hq]
      exact h.closing
  | hangUp =>
    rw [show Option.toList (Task.fed? _ .hangUp) = [] from rfl, List.append_nil]
    refine ⟨h.opening, h.records, ?_, h.mute, fun hn => ?_, ?_⟩
    · rw [sent_hangUp]
      exact h.said
    · rw [sent_hangUp]
      exact h.tells hn
    · rw [sent_hangUp]
      exact h.closing

end Steps

/-! ### Every run -/

/-- Every run of a turn is transcribed. -/
theorem transcribed_run (capacity : Nat) (moves : List Move) :
    Transcribed ((Watched.new capacity).texts moves) ((Watched.new capacity).run moves) := by
  refine run_induction (P := fun moves w => Transcribed ((Watched.new capacity).texts moves) w)
    (.new capacity) (fun moves m h _ => ?_) moves
  rw [Watched.texts_concat]
  have hs := (sound_run capacity moves).mono (·.concat m)
  have hs' := sound_run capacity (moves ++ [m])
  rw [Watched.run_concat] at hs'
  exact h.move m hs hs'

/-- The turn comes to its end by itself: in the course of the run the task sends its closing event, having
sent all the others. -/
def Finishes (capacity : Nat) (moves : List Move) : Prop :=
  ∃ before after outcome, moves = before ++ after ∧
    ((Watched.new capacity).run before).task.stage = .settled outcome

/-- A task that is done with the channel is fed nothing and sends nothing. -/
theorem over_move {w : Watched} (h : w.task.stage.isOver = true) (m : Move) :
    (w.move m).task.stage.isOver = true ∧ (w.move m).sent = w.sent ∧ w.task.fed? m = none := by
  have hfed : w.task.fed? m = none := by
    obtain ⟨⟨x, s, c⟩, gone⟩ := w
    cases s with
    | settled => cases m with
      | pull item => cases item <;> rfl
      | _ => rfl
    | ended => cases m with
      | pull item => cases item <;> rfl
      | _ => rfl
    | _ => cases h
  suffices hstep : (w.move m).task.stage.isOver = true ∧ (w.move m).sent = w.sent from
    ⟨hstep.1, hstep.2, hfed⟩
  have hstep := step_move w m
  generalize w.move m = w' at hstep
  cases hstep with
  | idle => exact ⟨h, rfl⟩
  | read hq => exact ⟨h, sent_read hq⟩
  | hangUp => exact ⟨h, sent_hangUp _ _⟩
  | task hd =>
    cases hd with
    | finish => exact ⟨rfl, rfl⟩
    | abandon ha => exact absurd h (by simp [Stage.isOver_of_waits ha.waits])
    | _ => cases h

theorem over_run {w : Watched} (h : w.task.stage.isOver = true) (moves : List Move) :
    (w.run moves).sent = w.sent ∧ w.texts moves = [] := by
  induction moves generalizing w with
  | nil => exact ⟨rfl, rfl⟩
  | cons m moves ih =>
    obtain ⟨hover, hsent, hfed⟩ := over_move h m
    obtain ⟨hrun, htexts⟩ := ih hover
    refine ⟨hrun.trans hsent, ?_⟩
    rw [Watched.texts, hfed, htexts]
    rfl

/-- A turn that comes to its end by itself has told all of its text and all of its markers. -/
theorem told_of_finishes {capacity : Nat} {moves : List Move} (h : Finishes capacity moves) :
    spoken ((Watched.new capacity).run moves).sent =
        (Extraction.ofText (heardText ((Watched.new capacity).texts moves))).text ∧
      marked ((Watched.new capacity).run moves).sent =
        (Extraction.ofText (heardText ((Watched.new capacity).texts moves))).markers := by
  obtain ⟨before, after, outcome, rfl, hstage⟩ := h
  have ht := transcribed_run capacity before
  obtain ⟨hsent, htexts⟩ := over_run (by rw [hstage]; rfl) after
  rw [Watched.run_append, hsent, Watched.texts_append, htexts, List.append_nil]
  have hrecords := ht.records
  have htells := ht.tells (by rw [hstage]; rfl)
  rw [hstage] at hrecords htells
  rw [show (Stage.settled outcome).todo = [] from rfl, List.append_nil] at htells
  exact ⟨htells.text.trans hrecords.clean, htells.markers⟩

/-- **The closing event has the whole text, however the turn ends.** In every run, let the whole be what the
texts that the turn was fed add up to, the markers taken out: if the closing event is sent, its text is that of
the whole, and what was told before is the beginning of it. If the turn comes to its end by itself, it has told
all of the text, and the markers of the whole in their order. Where each text extends the one before, what they
add up to is the last of them. -/
theorem closing_event_text (capacity : Nat) (moves : List Move) :
    let sent := ((Watched.new capacity).run moves).sent
    let texts := (Watched.new capacity).texts moves
    let whole := Extraction.ofText (heardText texts)
    (∀ text aborted, .done text aborted ∈ sent → text = whole.text ∧ spoken sent <+: text) ∧
      (Finishes capacity moves → spoken sent = whole.text ∧ marked sent = whole.markers) ∧
      (texts.IsChain (· <+: ·) → heardText texts = lastText texts) := by
  have ht := transcribed_run capacity moves
  refine ⟨fun text aborted hd => ?_, told_of_finishes, heardText_of_isChain⟩
  obtain ⟨hover, rfl⟩ := ht.closing text aborted hd
  refine ⟨?_, ht.said⟩
  have hflushed : ((Watched.new capacity).run moves).task.stage.isFlushed = true := by
    cases hs : ((Watched.new capacity).run moves).task.stage with
    | settled => rfl
    | ended => rfl
    | _ => simp [hs, Stage.isOver] at hover
  exact (hflushed ▸ ht.records).clean

/-- A turn is cancelled in the middle of sending, while the sieve withholds the beginning of a literal. -/
def interrupted : List Move :=
  [.advance, .begin true, .pull (some (saying "Hi")), .advance, .advance,
    .pull (some (saying "Hi there [DASH")), .cancel, .advance]

/-- A turn whose run says something with a marker in it, and is over. -/
def undisturbed : List Move :=
  [.advance, .begin true, .pull (some (saying "Hi")), .advance, .advance,
    .pull (some (saying "Hi[RENDER:card:true]")), .advance, .advance, .pull none, .advance, .advance]

theorem closing_event_text_interrupted :
    (.done "Hi there [DASH".toList false ∈ ((Watched.new 2).run interrupted).sent ∧
      "Hi there [DASH".toList = (Extraction.ofText (heardText ((Watched.new 2).texts interrupted))).text ∧
      spoken ((Watched.new 2).run interrupted).sent <+: "Hi there [DASH".toList ∧
      ((Watched.new 2).texts interrupted).IsChain (· <+: ·) ∧
      heardText ((Watched.new 2).texts interrupted) = lastText ((Watched.new 2).texts interrupted)) ∧
    Finishes 8 undisturbed ∧
      marked ((Watched.new 8).run undisturbed).sent =
        (Extraction.ofText (heardText ((Watched.new 8).texts undisturbed))).markers ∧
      marked ((Watched.new 8).run undisturbed).sent = [.render "card" (.bool true)] := by
  have hdone : .done "Hi there [DASH".toList false ∈ ((Watched.new 2).run interrupted).sent := by
    decide +kernel
  have hchain : ((Watched.new 2).texts interrupted).IsChain (· <+: ·) := by decide +kernel
  have hfinishes : Finishes 8 undisturbed :=
    ⟨undisturbed, [], .endedAbnormally, (List.append_nil _).symm, by decide +kernel⟩
  obtain ⟨htext, -, hlast⟩ := closing_event_text 2 interrupted
  obtain ⟨heq, hsaid⟩ := htext _ _ hdone
  exact ⟨⟨hdone, heq, hsaid, hchain, hlast hchain⟩, hfinishes,
    ((closing_event_text 8 undisturbed).2.1 hfinishes).2, by decide +kernel⟩

end TurnRelay.Turn
