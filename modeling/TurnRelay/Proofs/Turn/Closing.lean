import TurnRelay.Proofs.Turn.Run

/-!
# The closing event

A turn ends its stream with one closing event, whatever becomes of it. The reason is the slot that it
sets aside before anything else: from then on the channel is never so full that the closing event does
not fit, and the slot is given up only together with the closing event. `Sound` says so of a moment of
a run, and `Sound.step` that every step keeps it.

## What is proved

* `sound_run` — every run is sound.
* `one_closing_event` — what was put into the channel holds at most one closing event and nothing
  behind it; once the task has ended, and its reader is still there, it does end with one. The channel
  is never overfull, and a task that gives up is never held up.
-/

namespace TurnRelay.Turn

/-! ### Events that do not close -/

/-- None of the events closes the channel. -/
def Unclosed (es : List Event) : Prop := ∀ e ∈ es, e.isDone = false

/-- The events end with a closing event, and it is the only one. -/
def Closed (es : List Event) : Prop :=
  ∃ before text aborted, es = before ++ [.done text aborted] ∧ Unclosed before

/-- A closing event has nothing behind it. -/
def ClosesOnce (es : List Event) : Prop :=
  ∀ before e after, es = before ++ e :: after → e.isDone = true → after = []

theorem Unclosed.nil : Unclosed [] := fun _ he => nomatch he

theorem Unclosed.append {as bs : List Event} (ha : Unclosed as) (hb : Unclosed bs) :
    Unclosed (as ++ bs) := fun e he => (List.mem_append.1 he).elim (ha e) (hb e)

theorem Unclosed.closesOnce {es : List Event} (h : Unclosed es) : ClosesOnce es := by
  rintro before e after rfl he
  rw [h e (by simp)] at he
  cases he

theorem Closed.closesOnce {es : List Event} (h : Closed es) : ClosesOnce es := by
  obtain ⟨front, text, aborted, rfl, hu⟩ := h
  intro before e after heq he
  rcases List.eq_nil_or_concat after with rfl | ⟨mid, last, rfl⟩
  · rfl
  · -- otherwise `e` stands in front of the last event
    have heq' : front ++ [.done text aborted] = (before ++ e :: mid) ++ [last] := by simp [heq]
    have hf := (List.append_inj' heq' rfl).1
    rw [hu e (by simp [hf])] at he
    cases he

theorem unclosed_events (x : Extraction) : Unclosed (Writer.events x) := by
  intro e he
  rcases List.mem_append.1 he with he | he
  · split at he
    · cases he
    · rw [List.mem_singleton.1 he]
      rfl
  · obtain ⟨m, -, rfl⟩ := List.mem_map.1 he
    rfl

theorem unclosed_feed (w : Writer) (text : List Char) : Unclosed (w.feed text).2 := by
  unfold Writer.feed
  dsimp only
  split
  · exact .nil
  · exact unclosed_events _

theorem unclosed_flush (w : Writer) : Unclosed w.flush.2 := unclosed_events _

theorem unclosed_answer (w : Writer) (e : Wire.RunEvent) : Unclosed (w.answer e).2 := by
  unfold Writer.answer
  split
  · intro x hx
    rw [List.mem_singleton.1 hx]
    rfl
  · split
    · exact unclosed_feed _ _
    · exact .nil

/-! ### Room in the channel -/

/-- The channel holds no more than it can, the slot that is set aside counted. -/
def Channel.Fits (c : Channel) : Prop :=
  c.queue.length + (if c.reserved then 1 else 0) ≤ c.capacity

/-- Room for one event is room for the slot. -/
theorem Channel.Fits.reserve {c : Channel} (hs : c.reserved = false) (hr : c.hasRoom = true) :
    Channel.Fits { c with reserved := true } := by
  simp only [Channel.hasRoom, hs, decide_eq_true_eq, Bool.false_eq_true, if_false] at hr
  simp only [Channel.Fits, if_true]
  omega

theorem Channel.Fits.push {c : Channel} (e : Event) (ho : c.isOpen = true) (hr : c.hasRoom = true) :
    (c.push e).Fits := by
  simp only [Channel.hasRoom, decide_eq_true_eq] at hr
  rw [Channel.push_of_open c e ho]
  simp only [Channel.Fits, List.length_append, List.length_singleton]
  omega

theorem Channel.Fits.tryPush {c : Channel} (h : c.Fits) (e : Event) : (c.tryPush e).Fits := by
  unfold Channel.tryPush
  split
  · rename_i hc
    rw [Bool.and_eq_true] at hc
    exact .push e hc.1 hc.2
  · exact h

/-- The slot that is set aside is room for one event. -/
theorem Channel.Fits.pushReserved {c : Channel} (h : c.Fits) (hr : c.reserved = true) (e : Event) :
    (c.pushReserved e).Fits := by
  simp only [Channel.Fits, hr, if_true] at h
  have hl : (if c.isOpen then [e] else []).length ≤ 1 := by split <;> simp
  simp only [Channel.Fits, Channel.queue_pushReserved, Channel.reserved_pushReserved,
    Channel.capacity_pushReserved, List.length_append, Bool.false_eq_true, if_false]
  omega

/-! ### The invariant -/

/-- The task has its slot set aside. -/
def Stage.holdsSlot : Stage → Bool
  | .opening => false
  | .settled _ => false
  | .ended _ => false
  | _ => true

/-- The task is done with the channel. -/
def Stage.isOver : Stage → Bool
  | .settled _ => true
  | .ended _ => true
  | _ => false

/-- What the task still has to send before it does anything else. -/
def Stage.todo : Stage → List Event
  | .sending todo _ => todo
  | .leaving left _ => left
  | _ => []

theorem Stage.isOver_of_waits {s : Stage} (h : s.waits = true) : s.isOver = false := by
  cases s with
  | settled => cases h
  | ended => cases h
  | _ => rfl

/-- A task that is done with the channel has neither a slot in it nor anything to send. -/
theorem Stage.holdsSlot_of_isOver {s : Stage} (h : s.isOver = true) : s.holdsSlot = false ∧ s.todo = [] := by
  cases s with
  | settled => exact ⟨rfl, rfl⟩
  | ended => exact ⟨rfl, rfl⟩
  | _ => cases h

/-- A task that may have to wait and has no slot is at its beginning. -/
theorem Stage.eq_opening_of_waits {s : Stage} (h : s.waits = true) (hs : s.holdsSlot = false) :
    s = .opening := by
  cases s with
  | opening => rfl
  | settled => cases h
  | ended => cases h
  | _ => cases hs

/-- **What every step of a turn keeps.** `early` says that the task was cancelled before it set its slot
aside. -/
structure Sound (capacity : Nat) (early : Prop) (w : Watched) : Prop where
  /-- The channel keeps its size. -/
  capacity_eq : w.task.channel.capacity = capacity
  /-- The channel is not overfull. -/
  fits : w.task.channel.Fits
  /-- The slot is set aside until the closing event takes it. -/
  slot : w.task.channel.reserved = w.task.stage.holdsSlot
  /-- No closing event is sent as an ordinary one. -/
  todo : Unclosed w.task.stage.todo
  /-- There is no closing event before the task is done with the channel. -/
  before : w.task.stage.isOver = false → Unclosed w.sent
  /-- Then there is one, unless there was no reader for it or no slot. -/
  after : w.task.stage.isOver = true →
    Closed w.sent ∨ Unclosed w.sent ∧ (early ∨ w.task.channel.isOpen = false)

theorem Sound.new (capacity : Nat) (early : Prop) : Sound capacity early (.new capacity) :=
  ⟨rfl, Nat.zero_le _, rfl, .nil, fun _ => .nil, fun h => nomatch h⟩

theorem Sound.mono {capacity : Nat} {p q : Prop} {w : Watched} (h : Sound capacity p w) (hpq : p → q) :
    Sound capacity q w :=
  { h with after := fun ho => (h.after ho).imp_right (And.imp_right (Or.imp_left hpq)) }

/-- The closing event goes into its slot: either it closes what was put in, or nobody reads it. -/
theorem closed_or_of_pushReserved {early : Prop} {w w' : Writer} {s s' : Stage} {c : Channel}
    {gone : List Event} (h : Unclosed (Watched.sent ⟨⟨w, s, c⟩, gone⟩)) (aborted : Bool) :
    Closed (Watched.sent ⟨⟨w', s', c.pushReserved (w.closing aborted)⟩, gone⟩) ∨
      Unclosed (Watched.sent ⟨⟨w', s', c.pushReserved (w.closing aborted)⟩, gone⟩) ∧
        (early ∨ (c.pushReserved (w.closing aborted)).isOpen = false) := by
  simp only [Watched.sent, Channel.queue_pushReserved, Channel.isOpen_pushReserved, ← List.append_assoc]
  cases c.isOpen with
  | true => exact .inl ⟨_, w.clean, aborted, rfl, h⟩
  | false => exact .inr ⟨by simpa [Watched.sent] using h, .inr rfl⟩

/-- An event that does not close the channel goes into it. -/
theorem unclosed_of_push {w w' : Writer} {s s' : Stage} {c : Channel} {gone : List Event} {e : Event}
    (h : Unclosed (Watched.sent ⟨⟨w, s, c⟩, gone⟩)) (he : e.isDone = false) :
    Unclosed (Watched.sent ⟨⟨w', s', c.push e⟩, gone⟩) := by
  simp only [Watched.sent, Channel.queue_push, ← List.append_assoc]
  refine h.append ?_
  split
  · simpa [Unclosed] using he
  · exact .nil

theorem unclosed_of_tryPush {w w' : Writer} {s s' : Stage} {c : Channel} {gone : List Event} {e : Event}
    (h : Unclosed (Watched.sent ⟨⟨w, s, c⟩, gone⟩)) (he : e.isDone = false) :
    Unclosed (Watched.sent ⟨⟨w', s', c.tryPush e⟩, gone⟩) := by
  unfold Channel.tryPush
  split
  · exact unclosed_of_push h he
  · exact h

theorem Unclosed.tail {e : Event} {es : List Event} (h : Unclosed (e :: es)) : Unclosed es :=
  fun x hx => h x (List.mem_cons_of_mem e hx)

/-- The task goes on to another stage without touching the channel. -/
theorem Sound.restage {capacity : Nat} {early : Prop} {w w' : Writer} {s s' : Stage} {c : Channel}
    {gone : List Event} (h : Sound capacity early ⟨⟨w, s, c⟩, gone⟩) (hs : s.isOver = false)
    (hs' : s'.isOver = false) (hslot : c.reserved = s'.holdsSlot) (htodo : Unclosed s'.todo) :
    Sound capacity early ⟨⟨w', s', c⟩, gone⟩ := by
  refine ⟨h.capacity_eq, h.fits, hslot, htodo, fun _ => h.before hs, fun ho => ?_⟩
  rw [hs'] at ho
  cases ho

/-- The task closes the channel with its slot, and is done with it. -/
theorem Sound.close {capacity : Nat} {early : Prop} {w : Writer} {s s' : Stage} {c : Channel}
    {gone : List Event} (h : Sound capacity early ⟨⟨w, s, c⟩, gone⟩) (hs : s.isOver = false)
    (hslot : c.reserved = true) (hs' : s'.isOver = true) (aborted : Bool) :
    Sound capacity early ⟨⟨w, s', c.pushReserved (w.closing aborted)⟩, gone⟩ := by
  obtain ⟨hnone, htodo⟩ := Stage.holdsSlot_of_isOver hs'
  refine ⟨by simpa using h.capacity_eq, h.fits.pushReserved hslot _, hnone.symm, ?_, fun ho => ?_,
    fun _ => closed_or_of_pushReserved (h.before hs) aborted⟩
  · exact htodo ▸ .nil
  · rw [hs'] at ho
    cases ho

/-- A task that gives up still has its slot, if it ever had one. -/
theorem Sound.abandon {capacity : Nat} {early : Prop} {m : Move} {w : Writer} {s : Stage} {c : Channel}
    {e : Ending} {gone : List Event} (h : Sound capacity early ⟨⟨w, s, c⟩, gone⟩)
    (ha : Abandons c m s e) (hm : m = .cancel → s = .opening → early) :
    Sound capacity early ⟨Task.abandon ⟨w, s, c⟩ e, gone⟩ := by
  have hover := Stage.isOver_of_waits ha.waits
  have hslot : c.reserved = s.holdsSlot := h.slot
  unfold Task.abandon
  split
  · rename_i hr
    exact h.restage hover rfl hr fun x hx => unclosed_flush w x (List.mem_filter.1 hx).1
  · rename_i hr
    simp only [Bool.not_eq_true] at hr
    refine ⟨h.capacity_eq, h.fits, hr, .nil, (fun ho => nomatch ho), fun _ => .inr ⟨h.before hover, ?_⟩⟩
    have hs : s = .opening := Stage.eq_opening_of_waits ha.waits (hslot.symm.trans hr)
    cases ha with
    | crashed => cases hs
    | gone _ hc => exact .inr hc
    | cancelled => exact .inl (hm rfl hs)

/-- Whatever a task does, or its run does to it, keeps it sound. -/
theorem Sound.does {capacity : Nat} {early : Prop} {m : Move} {t t' : Task} {gone : List Event}
    (h : Sound capacity early ⟨t, gone⟩) (hd : Does m t t')
    (hm : m = .cancel → t.stage = .opening → early) : Sound capacity early ⟨t', gone⟩ := by
  cases hd with
  | reserve _ hr =>
    exact ⟨h.capacity_eq, .reserve h.slot hr, rfl, .nil, fun _ => h.before rfl, fun ho => nomatch ho⟩
  | start => exact h.restage rfl rfl h.slot .nil
  | startFailed => exact h.restage rfl rfl h.slot (by simp [Stage.todo, Unclosed, Event.isDone])
  | respond e => exact h.restage rfl rfl h.slot (unclosed_answer _ e)
  | runOver => exact h.restage rfl rfl h.slot .nil
  | send ho hr =>
    exact ⟨by simpa using h.capacity_eq, .push _ ho hr, (Channel.reserved_push _ _).trans h.slot, h.todo.tail,
      fun _ => unclosed_of_push (h.before rfl) (h.todo _ (by simp [Stage.todo])), fun ho => nomatch ho⟩
  | again => exact h.restage rfl rfl h.slot .nil
  | flush => exact h.restage rfl rfl h.slot (unclosed_flush _)
  | close => exact h.close rfl h.slot rfl _
  | finish => exact ⟨h.capacity_eq, h.fits, h.slot, .nil, (fun ho => nomatch ho), fun _ => h.after rfl⟩
  | abandon ha => exact h.abandon ha hm
  | offer =>
    exact ⟨by simpa using h.capacity_eq, h.fits.tryPush _, (Channel.reserved_tryPush _ _).trans h.slot,
      h.todo.tail,
      fun _ => unclosed_of_tryPush (h.before rfl) (h.todo _ (by simp [Stage.todo])), fun ho => nomatch ho⟩
  | leave => exact h.close rfl h.slot rfl _

/-- Every step keeps a turn sound. -/
theorem Sound.step {capacity : Nat} {early : Prop} {m : Move} {w w' : Watched}
    (h : Sound capacity early w) (hs : Step m w w')
    (hm : m = .cancel → w.task.stage = .opening → early) : Sound capacity early w' := by
  cases hs with
  | idle => exact h
  | task hd => exact h.does hd hm
  | @read t gone e rest hq =>
    refine ⟨h.capacity_eq, ?_, h.slot, h.todo, fun ho => ?_, fun ho => ?_⟩
    · have hf : t.channel.Fits := h.fits
      simp only [Channel.Fits, hq, List.length_cons] at hf ⊢
      omega
    · rw [sent_read hq]
      exact h.before ho
    · rw [sent_read hq]
      exact h.after ho
  | @hangUp t gone =>
    refine ⟨h.capacity_eq, ?_, h.slot, h.todo, fun ho => ?_, fun ho => ?_⟩
    · exact Nat.le_trans (Nat.add_le_add_right (Nat.zero_le _) _) h.fits
    · rw [sent_hangUp]
      exact h.before ho
    · rw [sent_hangUp]
      exact (h.after ho).imp_right fun hu => ⟨hu.1, .inr rfl⟩

/-! ### Every run -/

/-- In the run the task is cancelled before it has set its slot aside. -/
def CancelledEarly (capacity : Nat) (moves : List Move) : Prop :=
  ∃ before after, moves = before ++ .cancel :: after ∧
    ((Watched.new capacity).run before).task.stage = .opening

theorem CancelledEarly.concat {capacity : Nat} {moves : List Move} (h : CancelledEarly capacity moves)
    (m : Move) : CancelledEarly capacity (moves ++ [m]) := by
  obtain ⟨before, after, rfl, hs⟩ := h
  exact ⟨before, after ++ [m], by simp, hs⟩

/-- Nothing brings a task back to its beginning. -/
theorem opening_of_step {m : Move} {w w' : Watched} (h : Step m w w')
    (hs : w'.task.stage = .opening) : w.task.stage = .opening := by
  cases h with
  | idle => exact hs
  | read => exact hs
  | hangUp => exact hs
  | task hd =>
    cases hd with
    | abandon =>
      simp only [Task.abandon] at hs
      split at hs <;> cases hs
    | _ => cases hs

theorem opening_of_run {w : Watched} {moves : List Move} (h : (w.run moves).task.stage = .opening) :
    w.task.stage = .opening := by
  induction moves generalizing w with
  | nil => exact h
  | cons m moves ih => exact opening_of_step (step_move w m) (ih h)

/-- A task that makes its first step before anything happens to it is not cancelled early. -/
theorem not_cancelledEarly_of_advance {capacity : Nat} (hc : 0 < capacity) (moves : List Move) :
    ¬ CancelledEarly capacity (.advance :: moves) := by
  rintro ⟨before, after, h, hs⟩
  cases before with
  | nil => cases h
  | cons m before =>
    rw [List.cons_append, List.cons.injEq] at h
    obtain ⟨rfl, -⟩ := h
    rw [Watched.run_cons] at hs
    have hfirst := opening_of_run hs
    simp [Watched.move, Watched.new, Task.move, Task.advance, Task.new, Channel.empty, Channel.hasRoom, hc]
      at hfirst

/-- Every run of a turn is sound. -/
theorem sound_run (capacity : Nat) (moves : List Move) :
    Sound capacity (CancelledEarly capacity moves) ((Watched.new capacity).run moves) := by
  refine run_induction (P := fun moves w => Sound capacity (CancelledEarly capacity moves) w)
    (.new capacity _) ?_ moves
  intro moves m h hs
  refine (h.mono (·.concat m)).step hs fun hm ho => ?_
  subst hm
  exact ⟨moves, [], rfl, ho⟩

theorem Sound.closesOnce {capacity : Nat} {early : Prop} {w : Watched} (h : Sound capacity early w) :
    ClosesOnce w.sent := by
  cases ho : w.task.stage.isOver with
  | false => exact (h.before ho).closesOnce
  | true => exact (h.after ho).elim (·.closesOnce) (·.1.closesOnce)

/-- A task that gives up ends by its own steps, however full the channel is. -/
theorem ended_of_leaving (left : List Event) (e : Ending) (writer : Writer) (c : Channel)
    (gone : List Event) :
    ((Watched.mk ⟨writer, .leaving left e, c⟩ gone).run
      (List.replicate (left.length + 1) .advance)).task.stage = .ended e := by
  induction left generalizing c gone with
  | nil => rfl
  | cons m left ih => exact ih (c.tryPush m) _

/-- **One closing event**: in every run, the events put into the channel hold at most one closing event,
and nothing behind it. When the task has ended and its reader is still there, they end with one, unless
the task was cancelled before it had set its slot aside. At no time does the channel hold more than it
can, and a task that gives up ends without anybody reading. -/
theorem one_closing_event (capacity : Nat) (moves : List Move) :
    let w := (Watched.new capacity).run moves
    ClosesOnce w.sent ∧
      (∀ ending, w.task.stage = .ended ending → w.task.channel.isOpen = true →
        ¬ CancelledEarly capacity moves → Closed w.sent) ∧
      w.task.channel.queue.length ≤ capacity ∧
      ∀ left ending, w.task.stage = .leaving left ending →
        (w.run (List.replicate (left.length + 1) .advance)).task.stage = .ended ending := by
  have h := sound_run capacity moves
  refine ⟨h.closesOnce, fun ending he ho hc => ?_, ?_, fun left ending hl => ?_⟩
  · have hover : ((Watched.new capacity).run moves).task.stage.isOver = true := by
      rw [he]
      rfl
    rcases h.after hover with hclosed | ⟨-, hearly | hgone⟩
    · exact hclosed
    · exact absurd hearly hc
    · exact absurd (ho.symm.trans hgone) (by decide)
  · have hf := h.fits
    rw [Channel.Fits, h.capacity_eq] at hf
    omega
  · generalize (Watched.new capacity).run moves = w at hl
    obtain ⟨⟨writer, stage, c⟩, gone⟩ := w
    cases hl
    exact ended_of_leaving left ending writer c gone

/-- An event with which a run reports an error. -/
def failure : Wire.RunEvent := ⟨"r", "s", 0, .error, none, none, none, none⟩

/-- A turn is cancelled while its channel of two slots is full: one event is waiting, and the other slot
is set aside. -/
def crowded : List Move :=
  [.advance, .begin true, .pull (some failure), .advance, .pull (some failure), .advance,
    .pull (some failure), .cancel, .advance]

theorem one_closing_event_crowded :
    let w := (Watched.new 2).run crowded
    w.task.stage = .ended .cancelled ∧ w.task.channel.isOpen = true ∧ Closed w.sent := by
  have hs : ((Watched.new 2).run crowded).task.stage = .ended .cancelled := by decide +kernel
  have ho : ((Watched.new 2).run crowded).task.channel.isOpen = true := by decide +kernel
  exact ⟨hs, ho, (one_closing_event 2 crowded).2.1 _ hs ho (not_cancelledEarly_of_advance (by decide) _)⟩

end TurnRelay.Turn
