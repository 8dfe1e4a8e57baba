import TurnRelay.Proofs.Turn.Closing

/-!
# A reader who goes away

The reader of a turn may go away at any moment, and the turn may come to know of it in many places: when it sets its
slot aside, when it waits for its run, when it sends a piece of text, a marker or an error, or when all is sent. In some
runs it passes none of them for long, since it has nothing to send. It makes no difference in the end. A turn that
returns anything else than that its reader has gone has told its reader so, that is, has put its closing event where it
could be read.

## The model

* `Move.isQuiet` — neither the run nor anybody who cancels takes part.
* `Candid` — what every step of a turn keeps: how a turn is about to return, or has returned, agrees with whether its
  reader was there for the closing event.
* `Departs` — how many steps of its own a task needs to end when its reader has gone.

## What is proved

* `candid_run` — every run is candid.
* `departed` — a turn whose reader went away before the closing event returns nothing else than that; a turn that
  returns anything else has sent its closing event to a reader; and a turn that waits when its reader has gone ends by
  its own steps.
-/

namespace TurnRelay.Turn

/-! ### Nothing goes in without a reader -/

theorem Channel.queue_pushReserved_of_closed {c : Channel} (h : c.isOpen = false) (e : Event) :
    (c.pushReserved e).queue = c.queue := by
  rw [Channel.queue_pushReserved, h]
  exact List.append_nil _

theorem Channel.queue_tryPush_of_closed {c : Channel} (h : c.isOpen = false) (e : Event) :
    (c.tryPush e).queue = c.queue := by
  rw [Channel.tryPush, h, Bool.false_and, if_neg Bool.false_ne_true]

theorem Task.channel_abandon (t : Task) (e : Ending) : (t.abandon e).channel = t.channel := by
  unfold Task.abandon
  split <;> rfl

/-- A step of a task leaves the reader where it is. -/
theorem isOpen_of_does {m : Move} {t t' : Task} (h : Does m t t') : t'.channel.isOpen = t.channel.isOpen := by
  cases h with
  | send => exact Channel.isOpen_push _ _
  | close => exact Channel.isOpen_pushReserved _ _
  | offer => exact Channel.isOpen_tryPush _ _
  | leave => exact Channel.isOpen_pushReserved _ _
  | abandon => rw [Task.channel_abandon]
  | _ => rfl

/-- A step that puts something into the channel is the task's own, and the reader is there. -/
theorem queue_of_does {m : Move} {t t' : Task} (h : Does m t t') :
    m = .advance ∧ t.channel.isOpen = true ∨ t'.channel.queue = t.channel.queue := by
  cases h with
  | send ho => exact .inl ⟨rfl, ho⟩
  | @close w c aborted outcome =>
    cases ho : c.isOpen with
    | true => exact .inl ⟨rfl, rfl⟩
    | false => exact .inr (Channel.queue_pushReserved_of_closed ho _)
  | @offer w c e left ending =>
    cases ho : c.isOpen with
    | true => exact .inl ⟨rfl, rfl⟩
    | false => exact .inr (Channel.queue_tryPush_of_closed ho e)
  | @leave w c ending =>
    cases ho : c.isOpen with
    | true => exact .inl ⟨rfl, rfl⟩
    | false => exact .inr (Channel.queue_pushReserved_of_closed ho _)
  | abandon => exact .inr (by rw [Task.channel_abandon])
  | _ => exact .inr rfl

/-- Without a reader nothing is put in any more, and no reader comes back. -/
theorem sent_of_step {m : Move} {w w' : Watched} (h : Step m w w') (hc : w.task.channel.isOpen = false) :
    w'.task.channel.isOpen = false ∧ w'.sent = w.sent := by
  cases h with
  | idle => exact ⟨hc, rfl⟩
  | task hd =>
    rcases queue_of_does hd with ⟨-, ho⟩ | hq
    · rw [hc] at ho
      cases ho
    · exact ⟨(isOpen_of_does hd).trans hc, by simp only [Watched.sent, hq]⟩
  | read hq => exact ⟨hc, sent_read hq⟩
  | hangUp => exact ⟨rfl, sent_hangUp _ _⟩

theorem sent_of_run {w : Watched} (hc : w.task.channel.isOpen = false) (moves : List Move) :
    (w.run moves).task.channel.isOpen = false ∧ (w.run moves).sent = w.sent := by
  induction moves generalizing w with
  | nil => exact ⟨hc, rfl⟩
  | cons m moves ih =>
    obtain ⟨hc', hs⟩ := sent_of_step (step_move w m) hc
    obtain ⟨hc'', hs'⟩ := ih hc'
    exact ⟨hc'', hs'.trans hs⟩

/-- What changes what was put in is a step of the task, and the reader is there. -/
theorem open_of_step {m : Move} {w w' : Watched} (h : Step m w w') (hs : w'.sent ≠ w.sent) :
    m = .advance ∧ w.task.channel.isOpen = true := by
  cases h with
  | idle => exact absurd rfl hs
  | task hd =>
    rcases queue_of_does hd with hopen | hq
    · exact hopen
    · exact absurd (by simp only [Watched.sent, hq]) hs
  | read hq => exact absurd (sent_read hq) hs
  | hangUp => exact absurd (sent_hangUp _ _) hs

/-! ### How a turn returns -/

/-- **How a turn returns agrees with what became of its closing event.** -/
structure Candid (w : Watched) : Prop where
  /-- A task that gives up and will return has seen that its reader has gone. -/
  leaving : ∀ left outcome, w.task.stage = .leaving left (.returned outcome) → outcome = .clientGone
  /-- A task that is done with the channel has put its closing event in, if the reader is still there. -/
  settled : ∀ outcome, w.task.stage = .settled outcome → w.task.channel.isOpen = true → Closed w.sent
  /-- A task that has returned anything else has put it in. -/
  ended : ∀ outcome, w.task.stage = .ended (.returned outcome) → outcome ≠ .clientGone → Closed w.sent

/-- A task that is neither giving up nor done with the channel owes nothing yet. -/
theorem Candid.of_stage {w : Watched} (hl : ∀ left e, w.task.stage ≠ .leaving left e)
    (ho : w.task.stage.isOver = false) : Candid w where
  leaving := fun left outcome h => absurd h (hl left _)
  settled := fun outcome h => by rw [h] at ho; cases ho
  ended := fun outcome h => by rw [h] at ho; cases ho

/-- A task gives up for its reader alone, or will not return. -/
theorem Candid.abandon {m : Move} {w : Writer} {s : Stage} {c : Channel} {e : Ending} (h : Abandons c m s e)
    (gone : List Event) : Candid ⟨Task.abandon ⟨w, s, c⟩ e, gone⟩ := by
  have he : ∀ outcome, e = .returned outcome → outcome = .clientGone := by
    rintro outcome rfl
    cases h with
    | gone => rfl
  unfold Task.abandon
  split
  · refine ⟨fun left outcome hs => ?_, fun outcome hs => ?_, fun outcome hs => ?_⟩
    · cases hs
      exact he outcome rfl
    · cases hs
    · cases hs
  · refine ⟨fun left outcome hs => ?_, fun outcome hs => ?_, fun outcome hs hne => ?_⟩
    · cases hs
    · cases hs
    · cases hs
      exact absurd (he outcome rfl) hne

theorem Candid.does {capacity : Nat} {early : Prop} {m : Move} {t t' : Task} {gone : List Event}
    (h : Candid ⟨t, gone⟩) (hs : Sound capacity early ⟨t, gone⟩) (hd : Does m t t') : Candid ⟨t', gone⟩ := by
  cases hd with
  | @close w c aborted outcome =>
    refine ⟨fun left outcome hs => ?_, fun outcome' _ ho => ?_, fun outcome hs => ?_⟩
    · cases hs
    · have hput : Closed (Watched.sent ⟨⟨w, .settled outcome, c.pushReserved (w.closing aborted)⟩, gone⟩) ∨
          Unclosed (Watched.sent ⟨⟨w, .settled outcome, c.pushReserved (w.closing aborted)⟩, gone⟩) ∧
            (False ∨ (c.pushReserved (w.closing aborted)).isOpen = false) :=
        closed_or_of_pushReserved (hs.before rfl) aborted
      rcases hput with hclosed | ⟨-, hno | hgone⟩
      · exact hclosed
      · exact hno.elim
      · rw [hgone] at ho
        cases ho
    · cases hs
  | @finish w c outcome =>
    refine ⟨fun left outcome hs => ?_, fun outcome hs => ?_, fun outcome' hs hne => ?_⟩
    · cases hs
    · cases hs
    · cases ho : c.isOpen with
      | true => exact h.settled outcome rfl ho
      | false =>
        rw [ho] at hs
        cases hs
        exact absurd rfl hne
  | abandon ha => exact .abandon ha gone
  | offer =>
    refine ⟨fun left outcome hs => ?_, fun outcome hs => ?_, fun outcome hs => ?_⟩
    · cases hs
      exact h.leaving _ outcome rfl
    · cases hs
    · cases hs
  | leave =>
    refine ⟨fun left outcome hs => ?_, fun outcome hs => ?_, fun outcome hs hne => ?_⟩
    · cases hs
    · cases hs
    · cases hs
      exact absurd (h.leaving [] outcome rfl) hne
  | _ => exact .of_stage (fun _ _ => Stage.noConfusion) rfl

theorem Candid.step {capacity : Nat} {early : Prop} {m : Move} {w w' : Watched} (h : Candid w)
    (hs : Sound capacity early w) (hstep : Step m w w') : Candid w' := by
  cases hstep with
  | idle => exact h
  | task hd => exact h.does hs hd
  | read hq =>
    refine ⟨h.leaving, fun outcome hst ho => ?_, fun outcome hst hne => ?_⟩
    · rw [sent_read hq]
      exact h.settled outcome hst ho
    · rw [sent_read hq]
      exact h.ended outcome hst hne
  | hangUp =>
    refine ⟨h.leaving, fun outcome _ ho => ?_, fun outcome hst hne => ?_⟩
    · cases ho
    · rw [sent_hangUp]
      exact h.ended outcome hst hne

/-- Every run of a turn is candid. -/
theorem candid_run (capacity : Nat) (moves : List Move) : Candid ((Watched.new capacity).run moves) := by
  refine run_induction (P := fun _ w => Candid w) (.of_stage (fun _ _ => Stage.noConfusion) rfl) ?_ moves
  exact fun moves m h hs => h.step (sound_run capacity moves) hs

/-! ### When the closing event was put in -/

theorem Closed.not_unclosed {es : List Event} (h : Closed es) : ¬ Unclosed es := by
  obtain ⟨before, text, aborted, rfl, -⟩ := h
  intro hu
  have := hu (.done text aborted) (List.mem_append_right _ List.mem_cons_self)
  cases this

theorem Sound.unclosed {capacity : Nat} {early : Prop} {w : Watched} (h : Sound capacity early w)
    (hc : ¬ Closed w.sent) : Unclosed w.sent := by
  cases ho : w.task.stage.isOver with
  | false => exact h.before ho
  | true => exact ((h.after ho).resolve_left hc).1

/-- In a step of the run, the task puts the closing event into its channel, and the reader is there. -/
def ClosesOpen (capacity : Nat) (moves : List Move) : Prop :=
  ∃ before after, moves = before ++ .advance :: after ∧
    ((Watched.new capacity).run before).task.channel.isOpen = true ∧
    Unclosed ((Watched.new capacity).run before).sent ∧
    Closed ((Watched.new capacity).run (before ++ [.advance])).sent

/-- A closing event that was put in was put in at some step. -/
theorem closesOpen_of_closed {capacity : Nat} {moves : List Move}
    (h : Closed ((Watched.new capacity).run moves).sent) : ClosesOpen capacity moves := by
  revert h
  refine run_induction (P := fun moves w => Closed w.sent → ClosesOpen capacity moves) ?_ ?_ moves
  · exact fun h => absurd Unclosed.nil h.not_unclosed
  · intro moves m ih hs h
    by_cases hc : Closed ((Watched.new capacity).run moves).sent
    · obtain ⟨before, after, rfl, hbefore⟩ := ih hc
      exact ⟨before, after ++ [m], by simp, hbefore⟩
    · have hne : (((Watched.new capacity).run moves).move m).sent ≠ ((Watched.new capacity).run moves).sent :=
        fun he => hc (he ▸ h)
      obtain ⟨rfl, hopen⟩ := open_of_step hs hne
      refine ⟨moves, [], rfl, hopen, (sound_run capacity moves).unclosed hc, ?_⟩
      rw [Watched.run_concat]
      exact h

/-! ### A turn without a reader ends by itself -/

/-- The move is the task's own or the reader's: neither the run nor anybody who cancels takes part. -/
def Move.isQuiet : Move → Bool
  | .advance => true
  | .read => true
  | .hangUp => true
  | _ => false

/-- The move is the task's own. -/
def Move.isOwn : Move → Bool
  | .advance => true
  | _ => false

/-- Without a reader, the task ends within so many steps of its own. -/
inductive Departs : Nat → Writer → Stage → Prop where
  /-- It may have to wait, but not for its run to start. -/
  | blocked {n : Nat} {w : Writer} {s : Stage} : s.waits = true → s ≠ .starting → w.flush.2.length + 2 ≤ n →
      Departs n w s
  /-- It gives up. -/
  | leaving {n : Nat} {w : Writer} {left : List Event} : left.length + 1 ≤ n →
      Departs n w (.leaving left (.returned .clientGone))
  /-- It has ended. -/
  | ended {n : Nat} {w : Writer} : Departs n w (.ended (.returned .clientGone))

/-- Where a task may have to wait, but not for its run to start, it sees that its reader has gone. -/
theorem advance_of_waits {w : Writer} {s : Stage} {c : Channel} (hw : s.waits = true) (hs : s ≠ .starting)
    (hc : c.isOpen = false) :
    Task.advance ⟨w, s, c⟩ = some (Task.abandon ⟨w, s, c⟩ (.returned .clientGone)) := by
  cases s with
  | opening => simp only [Task.advance, hc, Bool.not_false, if_true]
  | starting => exact absurd rfl hs
  | pulling => simp only [Task.advance, hc, Bool.false_eq_true, if_false]
  | sending todo =>
    cases todo with
    | nil => cases hw
    | cons e todo => simp only [Task.advance, hc, Bool.not_false, if_true]
  | leaving => cases hw
  | settled => cases hw
  | ended => cases hw

/-- A step of its own brings the task closer to its end. -/
theorem Departs.advance {n : Nat} {w : Writer} {s : Stage} {c : Channel} (h : Departs (n + 1) w s)
    (hc : c.isOpen = false) :
    Departs n (Task.move ⟨w, s, c⟩ .advance).writer (Task.move ⟨w, s, c⟩ .advance).stage := by
  cases h with
  | blocked hw hs hn =>
    have hlen : (w.flush.2.filter Event.isMarker).length + 1 ≤ n := by
      have := List.length_filter_le Event.isMarker w.flush.2
      omega
    rw [Task.move, advance_of_waits hw hs hc, Option.getD_some, Task.abandon]
    split
    · exact .leaving hlen
    · exact .ended
  | @leaving left hn =>
    cases left with
    | nil => exact .ended
    | cons e left => exact .leaving (Nat.le_of_succ_le_succ hn)
  | ended => exact .ended

/-- A step of the reader changes nothing for the task. -/
theorem writer_stage_of_quiet {t : Task} {m : Move} (hq : m.isQuiet = true) (ho : m.isOwn = false) :
    (t.move m).writer = t.writer ∧ (t.move m).stage = t.stage := by
  cases m with
  | read =>
    obtain ⟨w, s, capacity, queue, reserved, isOpen⟩ := t
    cases queue <;> exact ⟨rfl, rfl⟩
  | hangUp => exact ⟨rfl, rfl⟩
  | advance => cases ho
  | _ => cases hq

/-- So many steps of its own end it, whatever the reader does in between. -/
theorem Departs.run {w : Watched} {later : List Move}
    (h : Departs (later.countP Move.isOwn) w.task.writer w.task.stage) (hc : w.task.channel.isOpen = false)
    (hq : ∀ m ∈ later, m.isQuiet = true) : (w.run later).task.stage = .ended (.returned .clientGone) := by
  induction later generalizing w with
  | nil =>
    rw [Watched.run_nil]
    generalize w.task.stage = s at h
    cases h with
    | blocked _ _ hn => cases hn
    | leaving hn => cases hn
    | ended => rfl
  | cons m later ih =>
    have hc' := (sent_of_step (step_move w m) hc).1
    refine ih ?_ hc' fun m' hm' => hq m' (List.mem_cons_of_mem m hm')
    rw [List.countP_cons] at h
    cases ho : m.isOwn with
    | true =>
      cases m with
      | advance => exact h.advance hc
      | _ => cases ho
    | false =>
      obtain ⟨hw, hs⟩ := writer_stage_of_quiet (t := w.task) (hq m List.mem_cons_self) ho
      show Departs _ (w.task.move m).writer (w.task.move m).stage
      rw [hw, hs]
      rw [ho] at h
      exact h

/-! ### The whole -/

/-- **A reader who goes away is noticed**, in every run of a turn and whatever the capacity of its channel.

If the reader has gone before the closing event is sent, a turn that returns returns that its reader has gone. If it
returns anything else, it has put its closing event into a channel with a reader. And if it waits when the reader has
gone, for room or for the next event of its run, it returns by its own steps, as many as there are events to be settled
and two more, without anything from the run. -/
theorem departed (capacity : Nat) (moves : List Move) :
    let w := (Watched.new capacity).run moves
    (∀ before after, moves = before ++ after →
      ((Watched.new capacity).run before).task.channel.isOpen = false →
      Unclosed ((Watched.new capacity).run before).sent →
      ∀ outcome, w.task.stage = .ended (.returned outcome) → outcome = .clientGone) ∧
    (∀ outcome, w.task.stage = .ended (.returned outcome) → outcome ≠ .clientGone → ClosesOpen capacity moves) ∧
    (w.task.channel.isOpen = false → w.task.stage.waits = true → w.task.stage ≠ .starting →
      ∀ later : List Move, (∀ m ∈ later, m.isQuiet = true) →
        w.task.writer.flush.2.length + 2 ≤ later.countP Move.isOwn →
        (w.run later).task.stage = .ended (.returned .clientGone)) := by
  have hcandid := candid_run capacity moves
  refine ⟨?_, fun outcome hs hne => closesOpen_of_closed (hcandid.ended outcome hs hne), ?_⟩
  · rintro before after rfl hc hu outcome hs
    by_contra hne
    have hclosed := hcandid.ended outcome hs hne
    rw [Watched.run_append, (sent_of_run hc after).2] at hclosed
    exact hclosed.not_unclosed hu
  · intro hc hw hs later hq hn
    exact Departs.run (.blocked hw hs hn) hc hq

/-- A turn whose reader goes away while it waits for its run. -/
def deserted : List Move := [.advance, .begin true, .hangUp]

/-- A turn whose run ends without a word, and a reader who stays. -/
def attended : List Move := [.advance, .begin true, .pull none, .advance, .advance, .advance]

theorem departed_deserted :
    (((Watched.new 2).run deserted).task.stage = .pulling false ∧
      ((Watched.new 2).run (deserted ++ [.advance, .read, .advance])).task.stage =
        .ended (.returned .clientGone)) ∧
    (∃ outcome, ((Watched.new 2).run (deserted ++ [.pull none, .advance, .advance, .advance])).task.stage =
        .ended (.returned outcome) ∧ outcome = .clientGone) ∧
    ((Watched.new 2).run attended).task.stage = .ended (.returned .endedAbnormally) ∧ ClosesOpen 2 attended := by
  have hstage : ((Watched.new 2).run deserted).task.stage = .pulling false := by decide +kernel
  have hclosed : ((Watched.new 2).run deserted).task.channel.isOpen = false := by decide +kernel
  have hsent : ((Watched.new 2).run deserted).sent = [] := by decide +kernel
  have hraced : ((Watched.new 2).run (deserted ++ [.pull none, .advance, .advance, .advance])).task.stage =
      .ended (.returned .clientGone) := by decide +kernel
  have hattended : ((Watched.new 2).run attended).task.stage = .ended (.returned .endedAbnormally) := by
    decide +kernel
  refine ⟨⟨hstage, ?_⟩, ⟨_, hraced, ?_⟩, hattended, (departed 2 attended).2.1 _ hattended (by decide)⟩
  · rw [Watched.run_append]
    refine (departed 2 deserted).2.2 hclosed (by rw [hstage]; rfl) (by rw [hstage]; exact Stage.noConfusion)
      [.advance, .read, .advance] (by decide) (by decide +kernel)
  · exact (departed 2 _).1 deserted _ rfl hclosed (hsent ▸ .nil) _ hraced

end TurnRelay.Turn
