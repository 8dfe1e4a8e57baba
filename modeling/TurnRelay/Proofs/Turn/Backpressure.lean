import TurnRelay.Proofs.Turn.Closing
import TurnRelay.Proofs.Turn.Tale

/-!
# A turn and a slow reader

Three parties move a turn that nobody cancels: the task, the backend with the run's answers, and the
reader. How far each of them gets before the next one moves is up to a schedule, and with a channel of a
few slots the task is held up wherever it sends. None of it shows: whatever the schedule, what is put
into the channel is the beginning of the tale that the run's script determines, and if the schedule is
fair, the reader is told all of it, and the turn ends as the tale does.

The invariant, `OnTrack`, says that what was put in and what the task has still to tell make up the
whole tale. Every move of a party that changes anything brings the task closer to its end, as `weight`
measures it, and while the tale is not at its end, somebody can move.

## The model

* `Party`, `Play` — who moves, and a turn whose run follows a script.
* `Play.after` — what becomes of it in the first moves of a schedule.
* `Fair` — a schedule that leaves nobody out for ever who can always move.

## What is proved

* `OnTrack.act` — whoever can move keeps the play on its track and lowers the weight.
* `OnTrack.exists_move` — somebody can move until all is told.
* `all_is_told` — what a reader of any schedule is told.
-/

namespace TurnRelay.Turn

open Wire (RunEvent)

/-! ### Plays -/

/-- Who moves a turn. -/
inductive Party where
  /-- The task itself. -/
  | task
  /-- The backend, with an answer that the task waits for. -/
  | backend
  /-- The one who reads the events. -/
  | reader
  deriving DecidableEq

/-- The task waits for its run. -/
def Stage.asks : Stage → Bool
  | .starting => true
  | .pulling _ => true
  | _ => false

/-- A turn whose run follows a script. -/
structure Play where
  /-- The turn. -/
  watched : Watched
  /-- What its run does. -/
  script : Script
  /-- The events that the run has not yielded yet. -/
  left : List RunEvent

namespace Play

/-- The beginning. -/
def new (capacity : Nat) (script : Script) : Play := ⟨.new capacity, script, script.events⟩

/-- What a party does when it is its turn. The backend answers when the task waits for it. -/
def act (p : Play) : Party → Play
  | .task => { p with watched := p.watched.move .advance }
  | .reader => { p with watched := p.watched.move .read }
  | .backend =>
    match p.watched.task.stage with
    | .starting => { p with watched := p.watched.move (.begin p.script.starts) }
    | .pulling _ => { p with watched := p.watched.move (.pull p.left.head?), left := p.left.tail }
    | _ => p

/-- What becomes of a play in the first moves of a schedule. -/
def after (p : Play) (schedule : Nat → Party) : Nat → Play
  | 0 => p
  | n + 1 => (p.after schedule n).act (schedule n)

/-- The party can move: the task has a step to make, the backend is waited for, or there is something to
read. -/
def CanMove (p : Play) : Party → Prop
  | .task => p.watched.task.advance.isSome
  | .backend => p.watched.task.stage.asks
  | .reader => p.watched.task.channel.queue ≠ []

/-- All is told: the reader has read the whole tale, and the turn has ended as the tale does. -/
def Over (p : Play) (tale : Tale) : Prop :=
  p.watched.gone = tale.events ∧ p.watched.task.channel.queue = [] ∧
    p.watched.task.stage = .ended (.returned tale.outcome)

end Play

/-- Nobody who can always move from some time on is left out from that time on. -/
def Fair (p : Play) (schedule : Nat → Party) : Prop :=
  ∀ n party, (∀ m, n ≤ m → (p.after schedule m).CanMove party) → ∃ m, n ≤ m ∧ schedule m = party

/-! ### What is ahead of a task -/

/-- What a task has still to tell, if its run follows the script and will yield these events. There is
nothing of the kind for a task that gives up. -/
inductive Ahead (script : Script) : Writer → Stage → List RunEvent → Tale → Prop where
  | opening {es : List RunEvent} : es = script.events → Ahead script .empty .opening es script.tale
  | starting {es : List RunEvent} : es = script.events → Ahead script .empty .starting es script.tale
  | pulling {w : Writer} {errored : Bool} {es : List RunEvent} :
      Ahead script w (.pulling errored) es (w.tale errored es)
  | sending {w : Writer} {todo : List Event} {next : Next} {es : List RunEvent} :
      Ahead script w (.sending todo next) es ((next.tale w es).after todo)
  | settled {w : Writer} {outcome : Outcome} {es : List RunEvent} :
      Ahead script w (.settled outcome) es ⟨[], outcome⟩
  | ended {w : Writer} {outcome : Outcome} {es : List RunEvent} :
      Ahead script w (.ended (.returned outcome)) es ⟨[], outcome⟩

/-- How far a task that is going to do this next is from its end, the run's answers and the sending of
events not counted. -/
def Next.rank : Next → Nat
  | .pull _ => 5
  | .flush _ _ => 3
  | .close _ _ => 2

/-- How far a task is from its end, the run's answers and the sending of events not counted. -/
def Stage.rank : Stage → Nat
  | .opening => 6
  | .starting => 5
  | .pulling _ => 4
  | .sending _ next => next.rank
  | .settled _ => 1
  | _ => 0

/-- What is left to be done in a play that has still to tell so much. Every event to tell has to be sent
and to be read. -/
def Play.weight (p : Play) (rest : Tale) : Nat :=
  2 * rest.events.length + p.watched.task.channel.queue.length + 2 * p.left.length +
    p.watched.task.stage.rank

/-- **What every move of a play keeps**: what was put into the channel and what is ahead make up the
tale. -/
structure OnTrack (tale rest : Tale) (p : Play) : Prop where
  /-- The reader is there. -/
  isOpen : p.watched.task.channel.isOpen = true
  /-- The script gives the tale. -/
  script : p.script.tale = tale
  /-- This much is still to tell. -/
  ahead : Ahead p.script p.watched.task.writer p.watched.task.stage p.left rest
  /-- The rest was told before. -/
  whole : tale = rest.after p.watched.sent

/-- The play has come closer to its end, and is still on its track. -/
def Closer (tale rest : Tale) (p p' : Play) : Prop :=
  ∃ rest', OnTrack tale rest' p' ∧ p'.weight rest' < p.weight rest

theorem OnTrack.new (capacity : Nat) (script : Script) :
    OnTrack script.tale script.tale (.new capacity script) :=
  ⟨rfl, rfl, .opening rfl, rfl⟩

section Steps

variable {tale rest : Tale} {script : Script} {left left' : List RunEvent} {gone : List Event}
  {w w' : Writer} {s s' : Stage} {c c' : Channel}

/-- The task goes to another stage, and has no less to tell. -/
theorem OnTrack.restage (h : OnTrack tale rest ⟨⟨⟨w, s, c⟩, gone⟩, script, left⟩)
    (ho : c'.isOpen = c.isOpen) (hq : c'.queue = c.queue) (ha : Ahead script w' s' left' rest)
    (hw : 2 * left'.length + s'.rank < 2 * left.length + s.rank) :
    Closer tale rest ⟨⟨⟨w, s, c⟩, gone⟩, script, left⟩ ⟨⟨⟨w', s', c'⟩, gone⟩, script, left'⟩ := by
  refine ⟨rest, ⟨ho.trans h.isOpen, h.script, ha, ?_⟩, ?_⟩
  · have hsent : Watched.sent ⟨⟨w', s', c'⟩, gone⟩ = Watched.sent ⟨⟨w, s, c⟩, gone⟩ := by
      simp only [Watched.sent, hq]
    show tale = rest.after (Watched.sent ⟨⟨w', s', c'⟩, gone⟩)
    rw [hsent]
    exact h.whole
  · simp only [Play.weight, hq]
    omega

/-- The task puts the next event of the tale into the channel. -/
theorem OnTrack.put {e : Event} (h : OnTrack tale (rest.after [e]) ⟨⟨⟨w, s, c⟩, gone⟩, script, left⟩)
    (ho : c'.isOpen = c.isOpen) (hq : c'.queue = c.queue ++ [e]) (ha : Ahead script w s' left rest)
    (hw : s'.rank ≤ s.rank) :
    Closer tale (rest.after [e]) ⟨⟨⟨w, s, c⟩, gone⟩, script, left⟩
      ⟨⟨⟨w, s', c'⟩, gone⟩, script, left⟩ := by
  refine ⟨rest, ⟨ho.trans h.isOpen, h.script, ha, ?_⟩, ?_⟩
  · have hsent : Watched.sent ⟨⟨w, s', c'⟩, gone⟩ = Watched.sent ⟨⟨w, s, c⟩, gone⟩ ++ [e] := by
      simp only [Watched.sent, hq, List.append_assoc]
    show tale = rest.after (Watched.sent ⟨⟨w, s', c'⟩, gone⟩)
    rw [hsent, ← Tale.after_after]
    exact h.whole
  · simp only [Play.weight, hq, Tale.after, List.length_append, List.length_singleton]
    omega

/-- The task's own step. -/
theorem OnTrack.advance {t t' : Task} (h : OnTrack tale rest ⟨⟨t, gone⟩, script, left⟩)
    (hd : Does .advance t t') :
    Closer tale rest ⟨⟨t, gone⟩, script, left⟩ ⟨⟨t', gone⟩, script, left⟩ := by
  have ho : t.channel.isOpen = true := h.isOpen
  have ha := h.ahead
  cases hd with
  | reserve =>
    cases ha with
    | opening hleft => exact h.restage rfl rfl (.starting hleft) (by simp [Stage.rank])
  | @send w c e todo next hopen hroom =>
    cases ha with
    | sending =>
      have hput : (next.tale w left).after (e :: todo) = ((next.tale w left).after todo).after [e] := by
        rw [Tale.after_after, List.singleton_append]
      rw [hput] at h ⊢
      have hq : (c.push e).queue = c.queue ++ [e] := by
        rw [Channel.push_of_open c e hopen]
      exact h.put (Channel.isOpen_push c e) hq .sending (Nat.le_refl _)
  | again =>
    cases ha with
    | sending => exact h.restage rfl rfl .pulling (by simp [Stage.rank, Next.rank])
  | @flush w c aborted outcome =>
    cases ha with
    | sending =>
      rw [Tale.after_nil, Next.tale_flush] at h ⊢
      exact h.restage rfl rfl .sending (by simp [Stage.rank, Next.rank])
  | @close w c aborted outcome =>
    cases ha with
    | sending =>
      have hput : ((Next.close aborted outcome).tale w left).after [] =
          Tale.after ⟨[], outcome⟩ [w.closing aborted] := rfl
      rw [hput] at h ⊢
      have hq : (c.pushReserved (w.closing aborted)).queue = c.queue ++ [w.closing aborted] := by
        rw [Channel.queue_pushReserved, if_pos ho]
      exact h.put (Channel.isOpen_pushReserved c _) hq .settled (by simp [Stage.rank, Next.rank])
  | @finish w c outcome =>
    cases ha with
    | settled =>
      have hend : (if c.isOpen then outcome else .clientGone) = outcome := if_pos ho
      rw [hend]
      exact h.restage rfl rfl .ended (by simp [Stage.rank])
  | abandon hgives =>
    cases hgives with
    | gone _ hclosed => exact absurd (ho.symm.trans hclosed) (by decide)
  | offer => cases ha
  | leave => cases ha

/-- The backend's answer to a task that waits for its run to start. -/
theorem OnTrack.begin (h : OnTrack tale rest ⟨⟨⟨w, .starting, c⟩, gone⟩, script, left⟩) :
    Closer tale rest ⟨⟨⟨w, .starting, c⟩, gone⟩, script, left⟩
      ⟨⟨Task.begin ⟨w, .starting, c⟩ script.starts, gone⟩, script, left⟩ := by
  have ha := h.ahead
  cases ha with
  | starting hleft =>
    cases script with
    | unstartable =>
      refine h.restage rfl rfl ?_ (by simp [Stage.rank, Next.rank])
      exact tale_unstartable [] ▸ .sending
    | yields es =>
      obtain rfl : left = es := hleft
      refine h.restage rfl rfl ?_ (by simp [Stage.rank])
      exact Writer.tale_empty left ▸ .pulling

/-- The backend's answer to a task that waits for the next event of its run. -/
theorem OnTrack.pull {errored : Bool}
    (h : OnTrack tale rest ⟨⟨⟨w, .pulling errored, c⟩, gone⟩, script, left⟩) :
    Closer tale rest ⟨⟨⟨w, .pulling errored, c⟩, gone⟩, script, left⟩
      ⟨⟨Task.pull ⟨w, .pulling errored, c⟩ left.head?, gone⟩, script, left.tail⟩ := by
  have ha := h.ahead
  cases ha with
  | pulling =>
    cases left with
    | nil =>
      refine h.restage rfl rfl ?_ (by simp [Stage.rank, Next.rank])
      exact w.tale_nil errored [] ▸ .sending
    | cons e left =>
      refine h.restage rfl rfl ?_ ?_
      · exact w.tale_cons errored e left ▸ .sending
      · cases e.state <;> simp [Stage.rank, Next.rank, Task.nextAfter] <;> omega

/-- The reader takes an event. -/
theorem OnTrack.read {t : Task} {e : Event} {unread : List Event}
    (h : OnTrack tale rest ⟨⟨t, gone⟩, script, left⟩) (hq : t.channel.queue = e :: unread) :
    Closer tale rest ⟨⟨t, gone⟩, script, left⟩
      ⟨⟨{ t with channel := { t.channel with queue := unread } }, gone ++ [e]⟩, script, left⟩ := by
  refine ⟨rest, ⟨h.isOpen, h.script, h.ahead, ?_⟩, ?_⟩
  · show tale = rest.after (Watched.sent ⟨{ t with channel := { t.channel with queue := unread } }, gone ++ [e]⟩)
    rw [sent_read hq]
    exact h.whole
  · simp only [Play.weight, hq, List.length_cons]
    omega

end Steps

/-! ### Moves of a party -/

theorem Closer.trans {tale rest : Tale} {p p' p'' : Play} (h : Closer tale rest p p')
    (h' : ∀ rest', OnTrack tale rest' p' → p'' = p' ∨ Closer tale rest' p' p'') :
    Closer tale rest p p'' := by
  obtain ⟨rest', ht, hlt⟩ := h
  rcases h' rest' ht with rfl | ⟨rest'', ht', hlt'⟩
  · exact ⟨rest', ht, hlt⟩
  · exact ⟨rest'', ht', hlt'.trans hlt⟩

/-- A party that cannot move changes nothing. -/
theorem Play.act_eq_self {p : Play} {party : Party} (h : ¬ p.CanMove party) : p.act party = p := by
  obtain ⟨⟨⟨w, s, c⟩, gone⟩, script, left⟩ := p
  cases party with
  | task =>
    have hnone : (Task.mk w s c).advance = none := by simpa [CanMove] using h
    simp [act, Watched.move, Task.move, Task.takenOut, hnone]
  | backend =>
    cases s with
    | starting => exact absurd rfl h
    | pulling => exact absurd rfl h
    | _ => rfl
  | reader =>
    have hempty : c.queue = [] := by simpa [CanMove] using h
    simp [act, Watched.move, Task.move, Task.takenOut, Task.read, hempty]

/-- A party that can move brings the play closer to its end. -/
theorem OnTrack.act {tale rest : Tale} {p : Play} {party : Party} (h : OnTrack tale rest p)
    (hm : p.CanMove party) : Closer tale rest p (p.act party) := by
  obtain ⟨⟨t, gone⟩, script, left⟩ := p
  cases party with
  | task =>
    obtain ⟨t', ht⟩ : ∃ t', t.advance = some t' := Option.isSome_iff_exists.1 hm
    have hact : Play.act ⟨⟨t, gone⟩, script, left⟩ .task = ⟨⟨t', gone⟩, script, left⟩ := by
      simp [Play.act, Watched.move, Task.move, Task.takenOut, ht]
    rw [hact]
    exact h.advance (does_of_advance ht)
  | backend =>
    obtain ⟨w, s, c⟩ := t
    cases s with
    | starting =>
      have hact : Play.act ⟨⟨⟨w, .starting, c⟩, gone⟩, script, left⟩ .backend =
          ⟨⟨Task.begin ⟨w, .starting, c⟩ script.starts, gone⟩, script, left⟩ := by
        simp [Play.act, Watched.move, Task.move, Task.takenOut]
      rw [hact]
      exact h.begin
    | pulling errored =>
      have hact : Play.act ⟨⟨⟨w, .pulling errored, c⟩, gone⟩, script, left⟩ .backend =
          ⟨⟨Task.pull ⟨w, .pulling errored, c⟩ left.head?, gone⟩, script, left.tail⟩ := by
        simp [Play.act, Watched.move, Task.move, Task.takenOut]
      rw [hact]
      exact h.pull
    | _ => cases hm
  | reader =>
    obtain ⟨w, s, ⟨capacity, queue, reserved, isOpen⟩⟩ := t
    cases queue with
    | nil => exact absurd rfl hm
    | cons e unread => exact h.read rfl

/-- A task that has ended has told the whole tale, and ends as it does. -/
theorem OnTrack.of_ended {tale rest : Tale} {p : Play} {ending : Ending} (h : OnTrack tale rest p)
    (he : p.watched.task.stage = .ended ending) :
    p.watched.sent = tale.events ∧ ending = .returned tale.outcome := by
  obtain ⟨⟨⟨w, s, c⟩, gone⟩, script, left⟩ := p
  cases he
  have ha := h.ahead
  cases ha with
  | ended =>
    rw [h.whole]
    exact ⟨(List.append_nil _).symm, rfl⟩

/-- Until all is told, somebody can move: where the task is held up for want of room, there is something
to read. -/
theorem OnTrack.exists_move {capacity : Nat} {early : Prop} {tale rest : Tale} {p : Play}
    (h : OnTrack tale rest p) (hc : 2 ≤ capacity) (hs : Sound capacity early p.watched)
    (hover : ¬ p.Over tale) : ∃ party, p.CanMove party := by
  by_cases hq : p.watched.task.channel.queue = []
  · obtain ⟨⟨⟨w, s, c⟩, gone⟩, script, left⟩ := p
    have ho : c.isOpen = true := h.isOpen
    have hslot : c.reserved = s.holdsSlot := hs.slot
    have hroom : c.hasRoom = true := by
      have hcap : c.capacity = capacity := hs.capacity_eq
      have hnone : c.queue = [] := hq
      simp only [Channel.hasRoom, hnone, hcap, List.length_nil, decide_eq_true_eq]
      split <;> omega
    cases s with
    | opening => exact ⟨.task, by simp [Play.CanMove, Task.advance, ho, hroom]⟩
    | starting => exact ⟨.backend, rfl⟩
    | pulling errored => exact ⟨.backend, rfl⟩
    | sending todo next =>
      cases todo with
      | nil => exact ⟨.task, rfl⟩
      | cons e todo => exact ⟨.task, by simp [Play.CanMove, Task.advance, ho, hroom]⟩
    | leaving => cases h.ahead
    | settled outcome => exact ⟨.task, rfl⟩
    | ended ending =>
      obtain ⟨hsent, rfl⟩ := h.of_ended rfl
      have hgone : gone ++ c.queue = tale.events := hsent
      have hnone : c.queue = [] := hq
      rw [hnone, List.append_nil] at hgone
      exact absurd ⟨hgone, hnone, rfl⟩ hover
  · exact ⟨.reader, hq⟩

/-! ### Schedules -/

theorem Play.exists_run_act (p : Play) (party : Party) :
    ∃ moves, (p.act party).watched = p.watched.run moves := by
  obtain ⟨⟨⟨w, s, c⟩, gone⟩, script, left⟩ := p
  cases party with
  | task => exact ⟨[.advance], rfl⟩
  | reader => exact ⟨[.read], rfl⟩
  | backend =>
    cases s with
    | starting => exact ⟨[.begin script.starts], rfl⟩
    | pulling errored => exact ⟨[.pull left.head?], rfl⟩
    | _ => exact ⟨[], rfl⟩

/-- Every play is a run of its turn. -/
theorem Play.exists_run (p : Play) (schedule : Nat → Party) (n : Nat) :
    ∃ moves, (p.after schedule n).watched = p.watched.run moves := by
  induction n with
  | zero => exact ⟨[], rfl⟩
  | succ n ih =>
    obtain ⟨moves, h⟩ := ih
    obtain ⟨more, hmore⟩ := (p.after schedule n).exists_run_act (schedule n)
    refine ⟨moves ++ more, ?_⟩
    rw [Watched.run_append, ← h]
    exact hmore

/-- The moves of a schedule keep a play on its track. -/
theorem OnTrack.after {tale rest : Tale} {p : Play} (schedule : Nat → Party) {n m : Nat}
    (h : OnTrack tale rest (p.after schedule n)) (hle : n ≤ m) :
    p.after schedule m = p.after schedule n ∨ Closer tale rest (p.after schedule n) (p.after schedule m) := by
  induction hle with
  | refl => exact .inl rfl
  | @step m hle ih =>
    have hstep : ∀ rest', OnTrack tale rest' (p.after schedule m) →
        p.after schedule (m + 1) = p.after schedule m ∨
          Closer tale rest' (p.after schedule m) (p.after schedule (m + 1)) := by
      intro rest' h'
      by_cases hcan : (p.after schedule m).CanMove (schedule m)
      · exact .inr (h'.act hcan)
      · exact .inl (Play.act_eq_self hcan)
    rcases ih with heq | hcloser
    · rw [← heq] at h ⊢
      exact hstep rest h
    · exact .inr (hcloser.trans hstep)

theorem OnTrack.exists_rest {tale rest : Tale} {p : Play} (h : OnTrack tale rest p)
    (schedule : Nat → Party) (n : Nat) : ∃ rest', OnTrack tale rest' (p.after schedule n) := by
  have h0 : OnTrack tale rest (p.after schedule 0) := h
  rcases h0.after schedule (Nat.zero_le n) with heq | ⟨rest', h', -⟩
  · exact ⟨rest, heq ▸ h⟩
  · exact ⟨rest', h'⟩

/-- In a fair schedule all is told at some time, by induction on what is left to be done. -/
theorem OnTrack.exists_over {tale rest : Tale} {p : Play} {schedule : Nat → Party} {n : Nat}
    (h : OnTrack tale rest (p.after schedule n)) (hfair : Fair p schedule)
    (hmove : ∀ n rest, OnTrack tale rest (p.after schedule n) → ¬ (p.after schedule n).Over tale →
      ∃ party, (p.after schedule n).CanMove party) :
    ∃ m, (p.after schedule m).Over tale := by
  induction hw : (p.after schedule n).weight rest using Nat.strong_induction_on generalizing n rest with
  | _ weight ih =>
    subst hw
    by_cases hover : (p.after schedule n).Over tale
    · exact ⟨n, hover⟩
    · obtain ⟨party, hcan⟩ := hmove n rest h hover
      have hcloser : ∃ k, Closer tale rest (p.after schedule n) (p.after schedule k) := by
        by_cases hstays : ∀ m, n ≤ m → (p.after schedule m).CanMove party
        · -- the party moves at `m`, unless somebody has moved before
          obtain ⟨m, hle, rfl⟩ := hfair n party hstays
          rcases h.after schedule hle with heq | hcloser
          · refine ⟨m + 1, ?_⟩
            have hact := h.act hcan
            rw [← heq] at hact ⊢
            exact hact
          · exact ⟨m, hcloser⟩
        · -- the party cannot move any more, so somebody has moved
          obtain ⟨m, hm⟩ := not_forall.1 hstays
          obtain ⟨hle, hnot⟩ := Classical.not_imp.1 hm
          rcases h.after schedule hle with heq | hcloser
          · rw [heq] at hnot
            exact absurd hcan hnot
          · exact ⟨m, hcloser⟩
      obtain ⟨k, rest', h', hlt⟩ := hcloser
      exact ih _ hlt h' rfl

/-- When all is told, nobody can move. -/
theorem Play.Over.not_canMove {p : Play} {tale : Tale} (h : p.Over tale) (party : Party) :
    ¬ p.CanMove party := by
  obtain ⟨⟨⟨w, s, c⟩, gone⟩, script, left⟩ := p
  obtain ⟨-, hq, he⟩ := h
  cases he
  cases party with
  | task => simp [CanMove, Task.advance]
  | backend => simp [CanMove, Stage.asks]
  | reader => exact fun hne => hne hq

theorem Play.Over.after {p : Play} {tale : Tale} {schedule : Nat → Party} {n m : Nat}
    (h : (p.after schedule n).Over tale) (hle : n ≤ m) : (p.after schedule m).Over tale := by
  induction hle with
  | refl => exact h
  | @step m hle ih =>
    have hact : p.after schedule (m + 1) = p.after schedule m := Play.act_eq_self (ih.not_canMove _)
    rw [hact]
    exact ih

/-- **Backpressure does not show**: however the moves of the task, the backend and a reader who stays are
scheduled, and however few slots the channel has, if it has two, what was put into it is always the
beginning of the tale that the run's script determines. A task that has ended has put in all of it, and
returns its outcome. If the schedule leaves nobody out for ever who can always move, a time comes from
which on the reader has read all of it and the task has ended. -/
theorem all_is_told (capacity : Nat) (hc : 2 ≤ capacity) (script : Script) (schedule : Nat → Party) :
    let play := (Play.new capacity script).after schedule
    (∀ n, (play n).watched.sent <+: script.tale.events) ∧
      (∀ n ending, (play n).watched.task.stage = .ended ending →
        (play n).watched.sent = script.tale.events ∧ ending = .returned script.tale.outcome) ∧
      (Fair (.new capacity script) schedule → ∃ n, ∀ m, n ≤ m → (play m).Over script.tale) := by
  have htrack : ∀ n, ∃ rest, OnTrack script.tale rest ((Play.new capacity script).after schedule n) :=
    fun n => (OnTrack.new capacity script).exists_rest schedule n
  refine ⟨fun n => ?_, fun n ending he => ?_, fun hfair => ?_⟩
  · obtain ⟨rest, h⟩ := htrack n
    exact ⟨rest.events, congrArg Tale.events h.whole.symm⟩
  · obtain ⟨rest, h⟩ := htrack n
    exact h.of_ended he
  · have hmove : ∀ n rest, OnTrack script.tale rest ((Play.new capacity script).after schedule n) →
        ¬ ((Play.new capacity script).after schedule n).Over script.tale →
          ∃ party, ((Play.new capacity script).after schedule n).CanMove party := by
      intro n rest h hover
      obtain ⟨moves, hrun⟩ := (Play.new capacity script).exists_run schedule n
      have hsound := sound_run capacity moves
      exact h.exists_move hc (hrun ▸ hsound) hover
    have h0 : OnTrack script.tale script.tale ((Play.new capacity script).after schedule 0) :=
      .new capacity script
    obtain ⟨n, hover⟩ := h0.exists_over hfair hmove
    exact ⟨n, fun m hle => hover.after hle⟩

/-- Everybody in turn. -/
def roundRobin (n : Nat) : Party :=
  match n % 3 with
  | 0 => .task
  | 1 => .backend
  | _ => .reader

theorem fair_roundRobin (p : Play) : Fair p roundRobin := by
  intro n party _
  cases party with
  | task => exact ⟨3 * n, by omega, by simp [roundRobin]⟩
  | backend => exact ⟨3 * n + 1, by omega, by simp [roundRobin]⟩
  | reader => exact ⟨3 * n + 2, by omega, by simp [roundRobin]⟩

/-- An event of a run that has said this so far. -/
def saying (text : String) : RunEvent := ⟨"r", "s", 0, .delta, some (.string text), none, none, none⟩

/-- A run says something in two steps, reports an error, and is over. -/
def faltering : Script := .yields [saying "Hi", saying "Hi there", failure]

theorem all_is_told_faltering :
    2 ≤ 2 ∧ Fair (.new 2 faltering) roundRobin ∧
      faltering.tale =
        ⟨[.delta "Hi".toList, .delta " there".toList, .error runFailed, .done "Hi there".toList false],
          .errored⟩ ∧
      ∃ n, ∀ m, n ≤ m → ((Play.new 2 faltering).after roundRobin m).Over faltering.tale := by
  have h := all_is_told 2 (Nat.le_refl 2) faltering roundRobin
  refine ⟨Nat.le_refl 2, fair_roundRobin _, ?_, h.2.2 (fair_roundRobin _)⟩
  decide +kernel

end TurnRelay.Turn
