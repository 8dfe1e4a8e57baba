import TurnRelay.Proofs.Turn.Relayed
import TurnRelay.Web.EventStream
import TurnRelay.Web.Inquiry
import TurnRelay.Web.Request

/-!
# The counts are right

The relay counts in three places: where it accepts a message, where a turn's task ends, and where a browser takes an
event. Nothing keeps these three in step. Turns run side by side, browsers go away in the middle of them, and the
counts are words that wrap. They are right all the same, at every moment: a turn is counted as active from the moment
it is accepted to the moment at which its task reports how it ended, and each task reports once.

What carries this is that a task cannot end without a report. It returns, as nobody cancels it and nothing in it
fails, and it stays ended as it ended, whatever its browser does.

## The model

* `Relay`, `Act`, `Relay.run` — a client, the accepted messages with their turns, the counts; what can happen, and
  what becomes of a relay.
* `EventStream.outcome?`, `EventStream.hasTask` — what a turn has reported, and whether its task is still there.
* `Relay.Counted` — the counts are those of the turns and of the events that were taken.

## What is proved

* `EventStream.Continues` — what becomes of a turn between its beginning and its report.
* `Relay.happens_act` — the ways in which an act changes the counts.
* `Relay.Counted.happens`, `Relay.counted_run` — the counts stay right whatever happens.
* `counts_exact` — they add up, no turn is active without a task, and refused requests leave no trace.
-/

namespace TurnRelay

open Turn (Task Stage Ending Outcome Event Live Tally FreshNames)
open Gateway (Client)

/-! ### Tasks that nobody cancels -/

namespace Turn

/-- The outcome of a task that returns. -/
def Ending.outcome? : Ending → Option Outcome
  | .returned o => some o
  | _ => none

/-- A task at this stage ends by returning, if it is about to end or has ended. -/
def Stage.Returns : Stage → Prop
  | .leaving _ e => ∃ o, e = .returned o
  | .ended e => ∃ o, e = .returned o
  | _ => True

theorem returns_abandon (t : Task) (o : Outcome) : (t.abandon (.returned o)).stage.Returns := by
  unfold Task.abandon
  split <;> exact ⟨o, rfl⟩

/-- By its own steps a task comes to return. -/
theorem returns_advance {t t' : Task} (h : t.advance = some t') (ht : t.stage.Returns) : t'.stage.Returns := by
  cases does_of_advance h with
  | abandon ha =>
    cases ha with
    | gone _ _ => exact returns_abandon _ _
  | offer => exact ht
  | leave => exact ht
  | finish => exact ⟨_, rfl⟩
  | _ => trivial

theorem advance_of_ended {t : Task} {e : Ending} (h : t.stage = .ended e) : t.advance = none := by
  simp [Task.advance, h]

theorem returns_begin {t : Task} (started : Bool) (h : t.stage = .starting) : (t.begin started).stage.Returns := by
  simp only [Task.begin, h]
  split <;> trivial

theorem returns_pull {t : Task} {errored : Bool} (item : Option Wire.RunEvent) (h : t.stage = .pulling errored) :
    (t.pull item).stage.Returns := by
  cases item <;> simp only [Task.pull, h] <;> trivial

/-- A turn's own step does not change that its task returns, nor how it has ended. -/
theorem returns_live {l l' : Live} {c c' : Client} {now : Nat} {names : FreshNames}
    (h : l.advance c now names = some (l', c')) :
    (l.task.stage.Returns → l'.task.stage.Returns) ∧
    ∀ e, l.task.stage = .ended e → l'.task.stage = .ended e := by
  have ha := advances_of_advance h
  generalize l.news? c now = news? at ha
  cases ha with
  | task ht => exact ⟨returns_advance ht, fun e he => absurd ht (by rw [advance_of_ended he]; simp)⟩
  | connects _ => exact ⟨id, fun _ => id⟩
  | sends _ => exact ⟨id, fun _ => id⟩
  | refused hs => exact ⟨fun _ => returns_begin false hs, fun e he => absurd (hs.symm.trans he) (by simp)⟩
  | granted hs => exact ⟨fun _ => returns_begin true hs, fun e he => absurd (hs.symm.trans he) (by simp)⟩
  | hears hs _ => exact ⟨fun _ => returns_pull _ hs, fun e he => absurd (hs.symm.trans he) (by simp)⟩
  | hearsEnd hs => exact ⟨fun _ => returns_pull _ hs, fun e he => absurd (hs.symm.trans he) (by simp)⟩
  | waits _ => exact ⟨id, fun _ => id⟩
  | letsGo _ => exact ⟨id, fun _ => id⟩

/-- An event is a piece of text. -/
def Event.isDelta : Event → Bool
  | .delta _ => true
  | _ => false

/-- An event is an error. -/
def Event.isError : Event → Bool
  | .error _ => true
  | _ => false

/-! ### Tallies -/

/-- How many turns have ended in this way. -/
def Tally.ended (t : Tally) : Outcome → UInt64
  | .completed => t.completed
  | .aborted => t.aborted
  | .errored => t.errored
  | .endedAbnormally => t.abnormal
  | .startFailed => t.startFailed
  | .clientGone => t.clientGone

theorem Tally.ended_finished (t : Tally) (o o' : Outcome) :
    (t.finished o).ended o' = if o = o' then t.ended o' + 1 else t.ended o' := by
  cases o <;> cases o' <;> rfl

theorem Tally.activeStreams_finished (t : Tally) (o : Outcome) : (t.finished o).activeStreams = t.activeStreams - 1 := by
  cases o <;> rfl

theorem Tally.turnsStarted_finished (t : Tally) (o : Outcome) : (t.finished o).turnsStarted = t.turnsStarted := by
  cases o <;> rfl

theorem Tally.events_finished (t : Tally) (o : Outcome) :
    (t.finished o).deltas = t.deltas ∧ (t.finished o).markers = t.markers ∧ (t.finished o).errors = t.errors := by
  cases o <;> exact ⟨rfl, rfl, rfl⟩

theorem Tally.ended_started (t : Tally) (o : Outcome) : t.started.ended o = t.ended o := by
  cases o <;> rfl

theorem Tally.turns_emitted (t : Tally) (e : Event) :
    (t.emitted e).activeStreams = t.activeStreams ∧ (t.emitted e).turnsStarted = t.turnsStarted ∧
    ∀ o, (t.emitted e).ended o = t.ended o := by
  cases e <;> exact ⟨rfl, rfl, fun o => by cases o <;> rfl⟩

/-- An event that is taken is counted under what it is. -/
theorem Tally.events_emitted (t : Tally) (e : Event) :
    (t.emitted e).deltas = t.deltas + .ofNat e.isDelta.toNat ∧
    (t.emitted e).markers = t.markers + .ofNat e.isMarker.toNat ∧
    (t.emitted e).errors = t.errors + .ofNat e.isError.toNat := by
  cases e <;> simp [emitted, Event.isDelta, Event.isMarker, Event.isError]

end Turn

namespace Web

/-! ### Streams -/

namespace EventStream

/-- How a turn has ended, if this has been reported. -/
def outcome? (x : EventStream) : Option Outcome :=
  if x.isReported then x.live.task.ending?.bind Ending.outcome? else none

/-- The task of a turn is still there: it has not ended, or it has returned and is about to report. -/
def hasTask (x : EventStream) : Bool :=
  x.live.task.ending?.isNone || (x.live.task.ending?.bind Ending.outcome?).isSome && ! x.isReported

/-- A turn whose task comes to return, and which reports nothing before. -/
structure Sound (x : EventStream) : Prop where
  /-- It reports what it has returned. -/
  reports : x.isReported = true → ∃ o, x.live.task.stage = .ended (.returned o)
  /-- It does not end in another way. -/
  returns : x.live.task.stage.Returns

/-- What becomes of a turn while it reports nothing. -/
structure Continues (x x' : EventStream) : Prop where
  /-- It reports nothing. -/
  reported : x'.isReported = x.isReported
  /-- It stays ended. -/
  ended : ∀ e, x.live.task.stage = .ended e → x'.live.task.stage = .ended e
  /-- It comes to return. -/
  returns : x.live.task.stage.Returns → x'.live.task.stage.Returns

variable {x x' : EventStream}

theorem Continues.of_stage (hr : x'.isReported = x.isReported) (hs : x'.live.task.stage = x.live.task.stage) :
    x.Continues x' where
  reported := hr
  ended _ he := hs.trans he
  returns h := hs ▸ h

theorem Sound.continues (h : x.Sound) (hx : x.Continues x') : x'.Sound where
  reports hr := by
    obtain ⟨o, ho⟩ := h.reports (hx.reported ▸ hr)
    exact ⟨o, hx.ended _ ho⟩
  returns := hx.returns h.returns

/-- A turn that goes on has reported what it had reported. -/
theorem Sound.outcome?_continues (h : x.Sound) (hx : x.Continues x') : x'.outcome? = x.outcome? := by
  unfold outcome?
  rw [hx.reported]
  split
  · rename_i hr
    obtain ⟨o, ho⟩ := h.reports hr
    rw [Task.ending?, Task.ending?, ho, hx.ended _ ho]
  · rfl

theorem Sound.exists_outcome (h : x.Sound) (hr : x.isReported = true) : ∃ o, x.outcome? = some o := by
  obtain ⟨o, ho⟩ := h.reports hr
  exact ⟨o, by simp [outcome?, hr, Task.ending?, ho, Ending.outcome?]⟩

theorem outcome?_of_not_reported (h : x.isReported = false) : x.outcome? = none := by
  simp [outcome?, h]

/-- A turn without a task has reported how it ended. -/
theorem Sound.isReported_of_hasTask (h : x.Sound) (ht : x.hasTask = false) : x.isReported = true := by
  rw [hasTask, Bool.or_eq_false_iff, Bool.and_eq_false_iff] at ht
  obtain ⟨hended, hreported⟩ := ht
  have hreturns := h.returns
  cases hs : x.live.task.stage with
  | ended e =>
    rw [hs] at hreturns
    obtain ⟨o, rfl⟩ := hreturns
    obtain hnone | hreported := hreported
    · simp [Task.ending?, hs, Ending.outcome?] at hnone
    · simpa using hreported
  | _ => simp [Task.ending?, hs] at hended

theorem sound_begin (now : Nat) (manner : Settings.Manner) (r : Turn.Request) (t : Tally) :
    (EventStream.begin now manner r t).1.Sound where
  reports h := nomatch h
  returns := trivial

theorem continues_advance {live : Live} {c c' : Client} {now : Nat} {names : FreshNames}
    (h : x.live.advance c now names = some (live, c')) : x.Continues { x with live := live } where
  reported := rfl
  ended := (Turn.returns_live h).2
  returns := (Turn.returns_live h).1

theorem continues_close (h : x.close = some x') : x.Continues x' := by
  unfold close at h
  split at h
  · cases h
    exact .of_stage rfl rfl
  · cases h

theorem continues_remind {manner : Settings.Manner} {now : Nat} (h : x.remind manner now = some x') :
    x.Continues x' := by
  unfold remind at h
  split at h
  · cases h
    exact .of_stage rfl rfl
  · cases h

theorem continues_hangUp (x : EventStream) : x.Continues x.hangUp := .of_stage rfl rfl

/-- A turn reports how it ended if it has not done so, and this is what is counted. -/
theorem of_report {t t' : Tally} (h : x.report t = some (x', t')) :
    ∃ o, x.isReported = false ∧ x'.isReported = true ∧ x'.outcome? = some o ∧ t' = t.finished o ∧
      (x.Sound → x'.Sound) := by
  unfold report at h
  split at h
  · cases h
  · rename_i hr
    split at h
    · rename_i o ho
      cases h
      have hs : x.live.task.stage = .ended (.returned o) := by
        cases hs : x.live.task.stage <;> simp_all [Task.ending?]
      refine ⟨o, Bool.not_eq_true _ ▸ hr, rfl, ?_, rfl, fun hx => ⟨fun _ => ⟨o, hs⟩, hx.returns⟩⟩
      simp [outcome?, ho, Ending.outcome?]
    · cases h

/-- The event that a browser takes is the first that is there, and it is counted. -/
theorem of_take {now : Nat} {t t' : Tally} {block : String} (h : x.take now t = some (block, x', t')) :
    ∃ e task, x.live.task.read = some (e, task) ∧ t' = t.emitted e ∧ x.Continues x' := by
  unfold take at h
  split at h
  · cases h
  · cases hread : x.live.task.read with
    | none =>
      rw [hread] at h
      cases h
    | some p =>
      obtain ⟨e, task⟩ := p
      rw [hread] at h
      cases h
      exact ⟨e, task, rfl, rfl, .of_stage rfl (Turn.stage_of_read hread)⟩

end EventStream

/-! ### The relay -/

/-- A relay: its client, what it has counted, its turns, and what browsers have taken. -/
structure Relay where
  /-- The client. -/
  client : Client
  /-- What was counted. -/
  tally : Tally
  /-- The messages that were accepted, in order, each with its turn and its browser. -/
  streams : List EventStream
  /-- The events that browsers have taken, in order. -/
  taken : List Event

/-- What can happen to a turn and its browser. -/
inductive Doing where
  /-- The turn makes its next step. -/
  | turn (now : Nat) (names : FreshNames)
  /-- The turn's task reports how it ended. -/
  | report
  /-- The browser takes an event. -/
  | take (now : Nat)
  /-- The browser sees the end. -/
  | close
  /-- The browser is sent a comment. -/
  | remind (now : Nat)
  /-- The browser goes away. -/
  | hangUp

/-- What can happen to a relay. -/
inductive Act where
  /-- Anybody else acts on the client: the supervisor, a socket, the gateway, another caller. -/
  | client (m : Gateway.Move)
  /-- A browser makes a request. -/
  | browse (now : Nat) (r : Request)
  /-- Something happens to the turn of a number or its browser. -/
  | stream (i : Nat) (d : Doing)

namespace Relay

/-- A relay that has not served anybody. -/
def new (c : Client) : Relay := ⟨c, .empty, [], []⟩

/-- What is done about a request at once. Whatever else there is to do about a question is done by acts on the
client. -/
def browse (manner : Settings.Manner) (now : Nat) (r : Request) (s : Relay) : Relay :=
  match r.plan manner with
  | .relay m =>
    let (x, tally) := EventStream.begin now manner m s.tally
    { s with tally := tally, streams := s.streams ++ [x] }
  | .ask q => { s with client := (Inquiry.begin s.client now q).2 }
  | _ => s

/-- The turn of a number is in another state. -/
def put (s : Relay) (i : Nat) (x : EventStream) : Relay := { s with streams := s.streams.set i x }

/-- What becomes of a turn; nothing, if it is not possible. -/
def attend (manner : Settings.Manner) (s : Relay) (i : Nat) (x : EventStream) : Doing → Option Relay
  | .turn now names =>
    (x.live.advance s.client now names).map fun r => { s with client := r.2 }.put i { x with live := r.1 }
  | .report => (x.report s.tally).map fun r => { s with tally := r.2 }.put i r.1
  | .take now => (x.take now s.tally).map fun r =>
    { s with tally := r.2.2, taken := s.taken ++ (x.live.task.read.map Prod.fst).toList }.put i r.2.1
  | .close => x.close.map (s.put i)
  | .remind now => (x.remind manner now).map (s.put i)
  | .hangUp => some (s.put i x.hangUp)

/-- What becomes of a relay in an act. -/
def act (manner : Settings.Manner) (s : Relay) : Act → Relay
  | .client m => { s with client := s.client.move m }
  | .browse now r => s.browse manner now r
  | .stream i d => (s.streams[i]?.bind fun x => s.attend manner i x d).getD s

/-- One act after the other. -/
def run (manner : Settings.Manner) (s : Relay) (acts : List Act) : Relay := acts.foldl (act manner) s

/-- How many turns are in a state of this kind. -/
def count (s : Relay) (p : EventStream → Bool) : Nat := s.streams.countP p

/-- **The counts of a relay are those of its turns, and of the events that were taken.** -/
structure Counted (s : Relay) : Prop where
  /-- The turns that have not reported. -/
  active : s.tally.activeStreams = .ofNat (s.count fun x => ! x.isReported)
  /-- The messages that were accepted. -/
  started : s.tally.turnsStarted = .ofNat s.streams.length
  /-- The turns that have reported this outcome. -/
  ended : ∀ o, s.tally.ended o = .ofNat (s.count fun x => decide (x.outcome? = some o))
  /-- The pieces of text that were taken. -/
  deltas : s.tally.deltas = .ofNat (s.taken.countP Event.isDelta)
  /-- The markers that were taken. -/
  markers : s.tally.markers = .ofNat (s.taken.countP Event.isMarker)
  /-- The errors that were taken. -/
  errors : s.tally.errors = .ofNat (s.taken.countP Event.isError)

/-! ### What an act does to the counts -/

/-- What an act does to the turns and the counts. -/
inductive Happens (s : Relay) : Relay → Prop where
  /-- Nothing. -/
  | quiet (c : Client) : Happens s { s with client := c }
  /-- A message is accepted. -/
  | accepts (c : Client) {x : EventStream} : x.Sound → x.isReported = false →
      Happens s { s with client := c, tally := s.tally.started, streams := s.streams ++ [x] }
  /-- A turn goes on. -/
  | goesOn (c : Client) {i : Nat} {x x' : EventStream} : s.streams[i]? = some x → x.Continues x' →
      Happens s ({ s with client := c }.put i x')
  /-- A turn reports. -/
  | reports {i : Nat} {x x' : EventStream} {o : Outcome} : s.streams[i]? = some x → x.isReported = false →
      x'.isReported = true → x'.outcome? = some o → (x.Sound → x'.Sound) →
      Happens s ({ s with tally := s.tally.finished o }.put i x')
  /-- An event is taken. -/
  | takes {i : Nat} {x x' : EventStream} {e : Event} : s.streams[i]? = some x → x.Continues x' →
      Happens s ({ s with tally := s.tally.emitted e, taken := s.taken ++ [e] }.put i x')

variable {manner : Settings.Manner} {s s' : Relay}

theorem happens_browse (manner : Settings.Manner) (now : Nat) (r : Request) (s : Relay) :
    s.Happens (s.browse manner now r) := by
  unfold browse
  split
  · rename_i m _
    exact .accepts s.client (EventStream.sound_begin now manner m s.tally) rfl
  · exact .quiet _
  · exact .quiet s.client

theorem happens_attend {i : Nat} {x : EventStream} {d : Doing} (hx : s.streams[i]? = some x)
    (h : s.attend manner i x d = some s') : s.Happens s' := by
  cases d with
  | turn now names =>
    obtain ⟨⟨live, c⟩, hlive, rfl⟩ := Option.map_eq_some_iff.1 h
    exact .goesOn c hx (EventStream.continues_advance hlive)
  | report =>
    obtain ⟨⟨x', t'⟩, hreport, rfl⟩ := Option.map_eq_some_iff.1 h
    obtain ⟨o, hno, hyes, ho, rfl, hsound⟩ := EventStream.of_report hreport
    exact .reports hx hno hyes ho hsound
  | take now =>
    obtain ⟨⟨block, x', t'⟩, htake, rfl⟩ := Option.map_eq_some_iff.1 h
    obtain ⟨e, task, hread, rfl, hgoes⟩ := EventStream.of_take htake
    rw [hread]
    exact .takes hx hgoes
  | close =>
    obtain ⟨x', hclose, rfl⟩ := Option.map_eq_some_iff.1 h
    exact .goesOn s.client hx (EventStream.continues_close hclose)
  | remind now =>
    obtain ⟨x', hremind, rfl⟩ := Option.map_eq_some_iff.1 h
    exact .goesOn s.client hx (EventStream.continues_remind hremind)
  | hangUp =>
    cases h
    exact .goesOn s.client hx x.continues_hangUp

/-- **Every act changes the counts in one of these ways.** -/
theorem happens_act (manner : Settings.Manner) (s : Relay) (a : Act) : s.Happens (s.act manner a) := by
  cases a with
  | client m => exact .quiet _
  | browse now r => exact happens_browse manner now r s
  | stream i d =>
    rw [act]
    cases hx : s.streams[i]? with
    | none => exact .quiet s.client
    | some x =>
      rw [Option.bind_some]
      cases h : s.attend manner i x d with
      | none => exact .quiet s.client
      | some s' => exact happens_attend hx h

/-! ### The counts stay right -/

/-- All turns are sound. -/
def Sound (s : Relay) : Prop := ∀ x ∈ s.streams, x.Sound

theorem Sound.put {i : Nat} {x : EventStream} (h : s.Sound) (hx : x.Sound) : (s.put i x).Sound := by
  intro y hy
  obtain hy | rfl := List.mem_or_eq_of_mem_set hy
  · exact h y hy
  · exact hx

theorem Sound.happens (h : s.Sound) (hs : s.Happens s') : s'.Sound := by
  cases hs with
  | quiet c => exact h
  | accepts c hx _ => exact List.forall_mem_append.2 ⟨h, List.forall_mem_singleton.2 hx⟩
  | goesOn c hi hx => exact Sound.put h ((h _ (List.mem_of_getElem? hi)).continues hx)
  | reports hi _ _ _ hx => exact Sound.put h (hx (h _ (List.mem_of_getElem? hi)))
  | takes hi hx => exact Sound.put h ((h _ (List.mem_of_getElem? hi)).continues hx)

section

variable {p : EventStream → Bool} {i : Nat} {x x' : EventStream}

/-- A turn in another state counts for what it is now, and no longer for what it was. -/
theorem count_put (hi : s.streams[i]? = some x) (p : EventStream → Bool) (x' : EventStream) :
    (s.put i x').count p + (p x).toNat = s.count p + (p x').toNat := by
  obtain ⟨client, tally, streams, taken⟩ := s
  simp only [put, count] at hi ⊢
  induction streams generalizing i with
  | nil => cases hi
  | cons y ys ih =>
    cases i with
    | zero =>
      obtain rfl := Option.some.inj hi
      rw [List.set_cons_zero, List.countP_cons, List.countP_cons]
      cases p y <;> cases p x' <;> simp
    | succ i =>
      rw [List.set_cons_succ, List.countP_cons, List.countP_cons]
      have := ih hi
      omega

theorem count_put_of_eq (hi : s.streams[i]? = some x) (hp : p x' = p x) : (s.put i x').count p = s.count p := by
  have h := count_put hi p x'
  rw [hp] at h
  exact Nat.add_right_cancel h

end

theorem Counted.accepts (h : s.Counted) (c : Client) {x : EventStream} (hx : x.isReported = false) :
    Counted { s with client := c, tally := s.tally.started, streams := s.streams ++ [x] } where
  active := by
    show s.tally.activeStreams + 1 = .ofNat ((s.streams ++ [x]).countP _)
    rw [h.active, List.countP_append, List.countP_singleton, hx]
    exact (UInt64.ofNat_add _ _).symm
  started := by
    show s.tally.turnsStarted + 1 = .ofNat (s.streams ++ [x]).length
    rw [h.started, List.length_append]
    exact (UInt64.ofNat_add _ _).symm
  ended o := by
    have hnone : x.outcome? = none := EventStream.outcome?_of_not_reported hx
    show s.tally.started.ended o = .ofNat ((s.streams ++ [x]).countP _)
    rw [List.countP_append, List.countP_singleton, hnone]
    exact (Tally.ended_started s.tally o).trans (h.ended o)
  deltas := h.deltas
  markers := h.markers
  errors := h.errors

/-- A turn that goes on leaves the counts of turns as they are. -/
theorem Counted.goesOn (h : s.Counted) (hsound : s.Sound) (c : Client) {i : Nat} {x x' : EventStream}
    (hi : s.streams[i]? = some x) (hx : x.Continues x') : ({ s with client := c }.put i x').Counted where
  active := h.active.trans (congrArg _ (count_put_of_eq hi (by rw [hx.reported])).symm)
  started := h.started.trans (congrArg _ List.length_set.symm)
  ended o := by
    have ho := (hsound _ (List.mem_of_getElem? hi)).outcome?_continues hx
    exact (h.ended o).trans (congrArg _ (count_put_of_eq hi (by rw [ho])).symm)
  deltas := h.deltas
  markers := h.markers
  errors := h.errors

theorem Counted.reports (h : s.Counted) {i : Nat} {x x' : EventStream} {o : Outcome} (hi : s.streams[i]? = some x)
    (hx : x.isReported = false) (hx' : x'.isReported = true) (ho : x'.outcome? = some o) :
    ({ s with tally := s.tally.finished o }.put i x').Counted where
  active := by
    have hcount := count_put hi (fun x => ! x.isReported) x'
    simp only [hx, hx', Bool.not_false, Bool.not_true, Bool.toNat_true, Bool.toNat_false, Nat.add_zero] at hcount
    rw [put, Tally.activeStreams_finished, h.active, ← hcount, UInt64.ofNat_add]
    exact UInt64.add_sub_cancel _ _
  started := by
    rw [put, Tally.turnsStarted_finished, h.started, List.length_set]
  ended o' := by
    have hcount := count_put hi (fun x => decide (x.outcome? = some o')) x'
    simp only [EventStream.outcome?_of_not_reported hx, ho, Option.some.injEq, reduceCtorEq, decide_false,
      Bool.toNat_false, Nat.add_zero] at hcount
    show (s.tally.finished o).ended o' = .ofNat (count (s.put i x') _)
    rw [Tally.ended_finished, hcount, h.ended]
    by_cases heq : o = o'
    · rw [if_pos heq, decide_eq_true heq, UInt64.ofNat_add]
      rfl
    · rw [if_neg heq, decide_eq_false heq]
      rfl
  deltas := (Tally.events_finished s.tally o).1.trans h.deltas
  markers := (Tally.events_finished s.tally o).2.1.trans h.markers
  errors := (Tally.events_finished s.tally o).2.2.trans h.errors

theorem ofNat_countP_concat (p : Event → Bool) (es : List Event) (e : Event) :
    UInt64.ofNat ((es ++ [e]).countP p) = .ofNat (es.countP p) + .ofNat (p e).toNat := by
  rw [List.countP_append, List.countP_singleton, UInt64.ofNat_add]
  cases p e <;> rfl

theorem Counted.takes (h : s.Counted) (e : Event) :
    Counted { s with tally := s.tally.emitted e, taken := s.taken ++ [e] } := by
  obtain ⟨hactive, hstarted, hended⟩ := s.tally.turns_emitted e
  obtain ⟨hdeltas, hmarkers, herrors⟩ := s.tally.events_emitted e
  exact {
    active := hactive.trans h.active
    started := hstarted.trans h.started
    ended := fun o => (hended o).trans (h.ended o)
    deltas := by rw [hdeltas, h.deltas, ofNat_countP_concat]
    markers := by rw [hmarkers, h.markers, ofNat_countP_concat]
    errors := by rw [herrors, h.errors, ofNat_countP_concat] }

/-- **Whatever happens, the counts stay right.** -/
theorem Counted.happens (h : s.Counted) (hsound : s.Sound) (hs : s.Happens s') : s'.Counted := by
  cases hs with
  | quiet c => exact ⟨h.active, h.started, h.ended, h.deltas, h.markers, h.errors⟩
  | accepts c _ hx => exact h.accepts c hx
  | goesOn c hi hx => exact h.goesOn hsound c hi hx
  | reports hi hx hx' ho _ => exact h.reports hi hx hx' ho
  | @takes _ _ _ e hi hx => exact (h.takes e).goesOn hsound s.client hi hx

theorem counted_new (c : Client) : (new c).Counted where
  active := rfl
  started := rfl
  ended o := by cases o <;> rfl
  deltas := rfl
  markers := rfl
  errors := rfl

/-- The counts are right after any acts, and all turns are sound. -/
theorem counted_run (manner : Settings.Manner) (c : Client) (acts : List Act) :
    ((new c).run manner acts).Sound ∧ ((new c).run manner acts).Counted := by
  induction acts using List.reverseRecOn with
  | nil => exact ⟨fun _ hx => absurd hx List.not_mem_nil, counted_new c⟩
  | append_singleton acts a ih =>
    obtain ⟨hsound, hcounted⟩ := ih
    have hs := happens_act manner ((new c).run manner acts) a
    rw [run, List.foldl_append]
    exact ⟨hsound.happens hs, hcounted.happens hsound hs⟩

/-! ### What follows -/

/-- A turn has not reported, or it has reported one outcome. -/
theorem length_eq_of_sound {xs : List EventStream} (h : ∀ x ∈ xs, x.Sound) :
    xs.length = (xs.countP fun x => ! x.isReported) + (xs.countP fun x => decide (x.outcome? = some .completed)) +
      (xs.countP fun x => decide (x.outcome? = some .aborted)) +
      (xs.countP fun x => decide (x.outcome? = some .errored)) +
      (xs.countP fun x => decide (x.outcome? = some .endedAbnormally)) +
      (xs.countP fun x => decide (x.outcome? = some .startFailed)) +
      xs.countP fun x => decide (x.outcome? = some .clientGone) := by
  induction xs with
  | nil => rfl
  | cons x xs ih =>
    obtain ⟨hx, hxs⟩ := List.forall_mem_cons.1 h
    simp only [List.countP_cons, List.length_cons]
    have ih := ih hxs
    cases hr : x.isReported with
    | false =>
      simp only [EventStream.outcome?_of_not_reported hr, reduceCtorEq, decide_false, Bool.false_eq_true, if_false,
        Bool.not_false, if_true]
      omega
    | true =>
      obtain ⟨o, ho⟩ := hx.exists_outcome hr
      cases o <;> simp [ho] <;> omega

/-- **Turns were begun that are active, or have ended in one of six ways.** -/
theorem Counted.balance (h : s.Counted) (hsound : s.Sound) :
    s.tally.turnsStarted = s.tally.activeStreams + s.tally.completed + s.tally.aborted + s.tally.errored +
      s.tally.abnormal + s.tally.startFailed + s.tally.clientGone := by
  have hended : ∀ o, s.tally.ended o = .ofNat (s.streams.countP fun x => decide (x.outcome? = some o)) := h.ended
  rw [h.started, length_eq_of_sound hsound, UInt64.ofNat_add, UInt64.ofNat_add, UInt64.ofNat_add, UInt64.ofNat_add,
    UInt64.ofNat_add, UInt64.ofNat_add, ← hended, ← hended, ← hended, ← hended, ← hended, ← hended]
  exact congrArg (· + _ + _ + _ + _ + _ + _) h.active.symm

/-- **No turn is active without a task.** -/
theorem Counted.idle (h : s.Counted) (hsound : s.Sound) (ht : ∀ x ∈ s.streams, x.hasTask = false) :
    s.tally.activeStreams = 0 := by
  have hnone : (s.count fun x => ! x.isReported) = 0 := by
    refine List.countP_eq_zero.2 fun x hx => ?_
    simp [(hsound x hx).isReported_of_hasTask (ht x hx)]
  rw [h.active, hnone]
  rfl

/-- **What is refused leaves no trace**, neither in the counts nor in the client. -/
theorem browse_of_refused {now : Nat} {r : Request}
    (h : (∃ why, r.plan manner = .refuse why) ∨ ∃ status allow, r.plan manner = .reject status allow) :
    s.act manner (.browse now r) = s := by
  obtain ⟨why, hplan⟩ | ⟨status, allow, hplan⟩ := h <;> rw [act, browse, hplan]

end Relay

/-- A message to relay that is blank is refused. -/
theorem plan_of_blank {manner : Settings.Manner} {r : Request} {b : ChatBody} (hpath : r.path = "/api/chat")
    (hmethod : r.method = "POST") (hbody : r.read ChatBody.record = .ok b) (hblank : Text.allBlank b.message = true) :
    r.plan manner = .refuse (.badRequest Turn.blankMessage) := by
  have hplan : b.plan manner = .refuse (.badRequest Turn.blankMessage) := by
    simp [ChatBody.plan, Turn.Request.isValid, hblank]
  simp [Request.plan, Request.target?, hpath, hmethod, planOf, hbody, hplan]

/-- **The counts are exact**, at every moment and whatever happens: accepted messages, turns side by side, browsers that
go away, failures. As words, the turns that are active are those that have not reported; those that were begun are
the active ones and all that have ended, and none is active once there is no task; pieces of text, markers and errors
are as many as browsers have taken. A request that is rejected or refused, such as a message that is blank, changes no
count and does nothing to the client. -/
theorem counts_exact (manner : Settings.Manner) (c : Client) (acts : List Act) :
    let s := (Relay.new c).run manner acts
    s.Counted ∧
    s.tally.turnsStarted = s.tally.activeStreams + s.tally.completed + s.tally.aborted + s.tally.errored +
      s.tally.abnormal + s.tally.startFailed + s.tally.clientGone ∧
    ((∀ x ∈ s.streams, x.hasTask = false) → s.tally.activeStreams = 0) ∧
    (∀ now r, ((∃ why, r.plan manner = .refuse why) ∨ ∃ status allow, r.plan manner = .reject status allow) →
      s.act manner (.browse now r) = s) ∧
    ∀ (r : Request) (b : ChatBody), r.path = "/api/chat" → r.method = "POST" → r.read ChatBody.record = .ok b →
      Text.allBlank b.message = true → r.plan manner = .refuse (.badRequest Turn.blankMessage) := by
  intro s
  obtain ⟨hsound, hcounted⟩ := Relay.counted_run manner c acts
  exact ⟨hcounted, hcounted.balance hsound, hcounted.idle hsound, fun _ _ => Relay.browse_of_refused,
    fun _ _ => plan_of_blank⟩

/-! ### A relay at work -/

/-- How a relay on the gateway's own machine relays turns. -/
def localManner : Settings.Manner := ⟨"main", 15, 2⟩

/-- A browser asks for a message to be relayed. -/
def posted (message : String) : Request :=
  ⟨"POST", "/api/chat", some "application/json", "\x7b\"message\":\"" ++ message ++ "\"\x7d"⟩

/-- A turn makes so many steps. -/
def advances (i n : Nat) : List Act := List.replicate n (.stream i (.turn 0 ⟨"c-1", "k-1"⟩))

/-- A browser takes so many events. -/
def takes (i n : Nat) : List Act := List.replicate n (.stream i (.take 0))

/-- The gateway tells how the answer of the run stands. -/
def answers (state : Wire.RunState) (text : String) : List Act :=
  (Gateway.arrival (.event "chat"
    (some { Gateway.eventOf state with message := some (.string text) }.encode) none)).map .client

/-- A message is relayed, and its answer is read to the end. -/
def readThrough : List Act :=
  [.browse 0 (posted "hi")] ++ advances 0 2 ++ [.client (.takeCommand 0 "unused")] ++ advances 0 1 ++
    [.client (.takeCommand 0 "unused")] ++ (Gateway.arrival Gateway.acknowledgement).map .client ++ advances 0 2 ++
    answers .delta "a" ++ advances 0 4 ++ takes 0 1 ++ answers .final "a[RENDER:b:1]" ++ advances 0 8 ++ takes 0 2

/-- A message is relayed, but the browser goes away at once. -/
def hungUp : List Act := [.browse 0 (posted "hello"), .stream 1 .hangUp] ++ advances 1 4

/-- Both, and the turns report. -/
def chats : List Act := readThrough ++ [.stream 0 .report, .stream 0 .close] ++ hungUp ++ [.stream 1 .report]

/-- A client that is connected. -/
def connected : Client := .after Gateway.localProfile Gateway.greeting

/-- Two messages, and the turns of both report. None is active in the end, and a message that is blank changes
nothing. -/
theorem counts_exact_chats :
    let s := (Relay.new connected).run localManner chats
    s.streams.map EventStream.outcome? = [some .completed, some .clientGone] ∧ s.tally.turnsStarted = 2 ∧
      s.tally.completed = 1 ∧ s.tally.clientGone = 1 ∧ s.tally.activeStreams = 0 ∧ s.tally.deltas = 1 ∧
      s.tally.markers = 1 ∧ s.act localManner (.browse 0 (posted " \\t ")) = s := by
  have hcounts : let s := (Relay.new connected).run localManner chats
      s.streams.map EventStream.outcome? = [some .completed, some .clientGone] ∧ s.tally.turnsStarted = 2 ∧
        s.tally.completed = 1 ∧ s.tally.clientGone = 1 ∧ s.tally.deltas = 1 ∧ s.tally.markers = 1 ∧
        ∀ x ∈ s.streams, x.hasTask = false := by decide +kernel
  have hexact := counts_exact localManner connected chats
  generalize (Relay.new connected).run localManner chats = s at hcounts hexact ⊢
  obtain ⟨houtcomes, hstarted, hcompleted, hgone, hdeltas, hmarkers, hover⟩ := hcounts
  obtain ⟨-, -, hidle, hrefused, hblank⟩ := hexact
  have hpath : (posted " \\t ").path = "/api/chat" := by decide +kernel
  have hread : (posted " \\t ").read ChatBody.record = .ok ⟨" \t ", none, none, none⟩ := by decide +kernel
  have hplan := hblank _ _ hpath rfl hread (by decide +kernel)
  exact ⟨houtcomes, hstarted, hcompleted, hgone, hidle hover, hdeltas, hmarkers, hrefused 0 _ (.inl ⟨_, hplan⟩)⟩

end Web

end TurnRelay
