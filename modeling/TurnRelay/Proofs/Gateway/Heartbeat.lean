import TurnRelay.Proofs.Gateway.Inbound
import TurnRelay.Proofs.Gateway.Leaving
import TurnRelay.Proofs.Gateway.Schedule

/-!
# The watchdog

A gateway that has gone away without a word is noticed by its silence: it announces in its hello how often it gives a
sign of life, and if none comes for two and a half times as long, the supervisor gives the connection up. The deadline
for this is put off in one place and taken away in another, the interval is kept beside it, and neither says to which
connection it belongs. A deadline that outlived its connection would end the next one, and an interval that did would
end it too early or too late.

So what is proved is where deadline and interval come from. On an established connection the interval is the one of
the very hello that established it, and the deadline goes back to that hello or to the last heartbeat on its socket
since; without a connection there is no deadline.

## The model

* `isHeartbeat`, `Client.heartbeat?` — a heartbeat, and the time at which the supervisor takes one.
* `Client.Enters` — the supervisor takes the hello with which a connection begins.
* `Connection.patience` — how long it waits for a heartbeat then.
* `Began`, `lastSign` — how the present connection came about in a run, and the gateway's last sign of life on it.
* `Client.Loses`, `Client.Severed` — why the supervisor leaves a connection, and what ends with it.

## What is proved

* `Connection.heeds_of_acts`, `Connection.entered_of_acts` — what one step does to the deadline.
* `watches_run` — on a connection the deadline goes back to its hello or to its last heartbeat, in every run.
* `Sound.deadline_of_text`, `Sound.loses`, `Sound.severed` — which texts leave it alone, why a connection is given up,
  and what ends with it.
* `watched_run` — all of it, in every run.
-/

namespace TurnRelay.Gateway

open TurnRelay.Wire

/-! ### Signs of life -/

/-- The text is a heartbeat. -/
def isHeartbeat (t : String) : Bool :=
  match Frame.parse? t with
  | some (.event name _ _) => decide (name = "tick")
  | _ => false

theorem isHeartbeat_iff {t : String} : isHeartbeat t = true ↔ Tidings.ofText t = .heartbeat := by
  rw [Tidings.ofText_eq_heartbeat_iff]
  unfold isHeartbeat
  split
  · rename_i name payload seq hparse
    simp [hparse]
  · rename_i hno
    constructor
    · intro h
      cases h
    · rintro ⟨payload, seq, hparse⟩
      exact absurd hparse (hno _ _ _)

/-- How long the supervisor waits for a heartbeat after a hello: two and a half times the interval that it announces. -/
def Connection.patience (hello : Hello) : Span := (Connection.announcedTick hello).scale watchdogFactor

namespace Client

/-- The time at which the supervisor takes a heartbeat from the socket of an epoch in a move, if it does. -/
def heartbeat? (epoch : Nat) (c : Client) (m : Move) : Option Nat :=
  match c.cue? m with
  | some ⟨now, _, .report k (.text t)⟩ => if k = epoch ∧ isHeartbeat t = true then some now else none
  | _ => none

/-- **The hello comes with which a connection begins**, on the socket of the present attempt and as the answer to its
`connect` request. -/
structure Enters (c : Client) (x : Cue) (epoch : Nat) (hello : Hello) : Prop where
  /-- It is a response that came on the socket. -/
  response : ∃ t id payload error, x.input = .report epoch (.text t) ∧
    Frame.parse? t = some (.response id true (some payload) error) ∧ Hello.decode payload = .ok hello ∧
    hello.tag = "hello-ok" ∧ c.connection.phase = .connecting (.awaitingHello id)
  /-- The socket is that of the present attempt. -/
  present : c.connection.epoch = epoch

variable {c : Client} {m : Move} {x : Cue} {epoch : Nat}

theorem heartbeat?_eq_none (h : c.cue? m = none) : heartbeat? epoch c m = none := by
  unfold heartbeat?
  rw [h]

theorem heartbeat?_of_text {t : String} (hx : c.cue? m = some x) (hi : x.input = .report epoch (.text t)) :
    heartbeat? epoch c m = if isHeartbeat t = true then some x.now else none := by
  obtain ⟨now, freshId, input⟩ := x
  cases hi
  simp only [heartbeat?, hx, true_and]

theorem heartbeat?_of_no_text (hx : c.cue? m = some x) (hno : ∀ t, x.input ≠ .report epoch (.text t)) :
    heartbeat? epoch c m = none := by
  obtain ⟨now, freshId, input⟩ := x
  unfold heartbeat?
  rw [hx]
  split
  · rename_i k t heq
    cases heq
    exact if_neg fun h => hno t (by rw [h.1])
  · rfl

/-- What the supervisor takes as a hello is one with which a connection begins. -/
theorem enters_of_tidings {t id : String} {payload : Option Json} {error : Option Failure} {hello : Hello}
    (hi : x.input = .report c.connection.epoch (.text t)) (ht : Tidings.ofText t = .response id true payload error)
    (hp : c.connection.phase = .connecting (.awaitingHello id)) (hh : payload.bind Hello.ofPayload? = some hello) :
    c.Enters x c.connection.epoch hello := by
  obtain ⟨v, rfl, hv⟩ := Option.bind_eq_some_iff.1 hh
  obtain ⟨hdecode, htag⟩ := Wire.Hello.exists_of_ofPayload? hv
  exact ⟨⟨t, id, v, error, hi, Tidings.ofText_eq_response_iff.1 ht, hdecode, htag, hp⟩, rfl⟩

end Client

/-! ### What a step does to the deadline -/

namespace Connection

/-- What a step on an established connection does to the deadline. -/
inductive Heeds (env : Surroundings) (c c' : Connection) (i : Input) : Prop where
  /-- A heartbeat has come: the deadline is put off. -/
  | beats {t : String} : i = .report c.epoch (.text t) → isHeartbeat t = true →
      c'.watchdogDeadline = some (env.now + (c.tickInterval.scale watchdogFactor).nanos) → Heeds env c c' i
  /-- None has come: it stays. -/
  | waits : (∀ t, i = .report c.epoch (.text t) → isHeartbeat t = false) →
      c'.watchdogDeadline = c.watchdogDeadline → Heeds env c c' i

variable {env : Surroundings} {p : Profile} {c c' : Connection} {i : Input} {es : List Effect}

theorem isHeartbeat_eq_false {t : String} (h : Tidings.ofText t ≠ .heartbeat) : isHeartbeat t = false := by
  cases hb : isHeartbeat t with
  | false => rfl
  | true => exact absurd (isHeartbeat_iff.1 hb) h

/-- A text that is taken is none that is a heartbeat, if it means something else. -/
theorem no_heartbeat {t : String} (h : Tidings.ofText t ≠ .heartbeat) :
    ∀ t', Input.report c.epoch (.text t) = .report c.epoch (.text t') → isHeartbeat t' = false := by
  rintro t' ⟨⟩
  exact isHeartbeat_eq_false h

/-- **A step that stays on the connection keeps its interval, and puts the deadline off if it is a heartbeat.** -/
theorem heeds_of_acts (ha : Acts env p c i c' es) (hp : c.phase = .connected) (hp' : c'.phase = .connected) :
    c'.epoch = c.epoch ∧ c'.tickInterval = c.tickInterval ∧ Heeds env c c' i := by
  cases ha with
  | passes hi =>
    refine ⟨rfl, rfl, .waits (fun t he => ?_) rfl⟩
    cases hi with
    | stale hne =>
      injection he with he
      exact absurd he hne
    | closed hq => exact absurd (hp.symm.trans hq) (by simp)
    | nothing ht => exact no_heartbeat (by simp [ht]) t he
    | challenge ht => exact no_heartbeat (by simp [ht]) t he
    | heartbeat _ hne => exact absurd hp hne
    | response _ hq => exact absurd (hp.symm.trans hq) (by simp)
    | unknown ht => exact no_heartbeat (by simp [ht]) t he
  | beats ht => exact ⟨rfl, rfl, .beats rfl (isHeartbeat_iff.2 ht) rfl⟩
  | delivers ht => exact ⟨rfl, rfl, .waits (no_heartbeat (by simp [ht])) rfl⟩
  | answers ht => exact ⟨rfl, rfl, .waits (no_heartbeat (by simp [ht])) rfl⟩
  | enters _ hq => exact absurd (hp.symm.trans hq) (by simp)
  | attempts => cases hp'
  | greets => cases hp'
  | ends => cases hp'
  | destroys => cases hp'
  | deserts => cases hp'
  | tooSilent hne => exact absurd hp hne
  | _ => exact ⟨rfl, rfl, .waits (by simp) rfl⟩

/-- A step that begins a connection takes the interval from the hello, and sets the deadline. -/
theorem entered_of_acts (ha : Acts env p c i c' es) (hp : c.phase ≠ .connected) (hp' : c'.phase = .connected) :
    ∃ t id payload error hello, i = .report c.epoch (.text t) ∧
      Tidings.ofText t = .response id true payload error ∧ c.phase = .connecting (.awaitingHello id) ∧
      payload.bind Hello.ofPayload? = some hello ∧ c'.epoch = c.epoch ∧ c'.tickInterval = announcedTick hello ∧
      c'.watchdogDeadline = some (env.now + (patience hello).nanos) := by
  cases ha with
  | enters ht hq hh => exact ⟨_, _, _, _, _, rfl, ht, hq, hh, rfl, rfl, by rw [patience, armWatchdog]⟩
  | attempts => cases hp'
  | greets => cases hp'
  | ends => cases hp'
  | destroys => cases hp'
  | deserts => cases hp'
  | opens =>
    simp only at hp'
    split at hp'
    · cases hp'
    · exact absurd hp' hp
  | _ => exact absurd hp' hp

/-- Without a connection there is no deadline. -/
theorem InPhase.isSome_watchdog_iff (h : c.InPhase) : c.watchdogDeadline.isSome = true ↔ c.phase = .connected := by
  obtain hp | ⟨s, hp⟩ | hp := c.phase_cases
  · simp [(h.isDown hp).watchdog, hp]
  · simp [(h.isRising hp).watchdog, hp]
  · simp [(h.isUp hp).watchdog, hp]

theorem InPhase.watchdog_eq_none (h : c.InPhase) (hp : c.phase ≠ .connected) : c.watchdogDeadline = none := by
  cases hd : c.watchdogDeadline with
  | none => rfl
  | some d => exact absurd (h.isSome_watchdog_iff.1 (by rw [hd]; rfl)) hp

/-- A deadline for a heartbeat that may come is the watchdog's. -/
theorem watchdog_of_mem_deadlines {d : Nat} (h : (d, Alarm.watchdog) ∈ c.deadlines) : c.watchdogDeadline = some d := by
  simpa [deadlines] using h

/-- On a connection no other deadline is set. -/
theorem IsUp.deadlines_eq {d : Nat} (h : c.IsUp) (hd : c.watchdogDeadline = some d) :
    c.deadlines = [(d, .watchdog)] := by
  simp [deadlines, h.connectDeadline, h.reconnect, hd]

/-- **A connection is left for three reasons**, and all that hung on it is told. -/
theorem left_of_acts (hx : c.Expects i) (hc : c.InPhase) (ha : Acts env p c i c' es) (hp : c.phase = .connected)
    (hp' : c'.phase ≠ .connected) :
    ((∃ reason, i = .report c.epoch (.closed reason) ∨ i = .report c.epoch (.failed reason)) ∨
      i = .alarm .watchdog ∨ i.isLast = true) ∧
    (c' = c.rescheduled env.now ∨ c' = c.destroyed) ∧
    ∃ fault more, es = c.farewells fault ++ more ∧ ∀ e ∈ more, ∃ n a, e = .answer n a := by
  have hnone : ∀ fault, ∃ fault' more, c.farewells fault = c.farewells fault' ++ more ∧
      ∀ e ∈ more, ∃ n a, e = Effect.answer n a := fun fault =>
    ⟨fault, [], (List.append_nil _).symm, fun _ he => absurd he List.not_mem_nil⟩
  cases ha with
  | attempts ht => exact absurd (hp.symm.trans (hc.disconnected_of_attempts hx ht)) (by simp)
  | opens => exact absurd (by simp [hp]) hp'
  | greets _ hq => exact absurd (hp.symm.trans hq) (by simp)
  | enters => exact absurd rfl hp'
  | ends he =>
    refine ⟨?_, .inl rfl, hnone _⟩
    cases he with
    | refused => exact .inl ⟨_, .inr rfl⟩
    | closed => exact .inl ⟨_, .inl rfl⟩
    | silent => exact .inr (.inl rfl)
    | closedEarly hq => exact absurd (hp.symm.trans hq) (by simp)
    | slow hq => exact absurd (hp.symm.trans hq) (by simp)
    | unsent _ hq => exact absurd (hp.symm.trans hq) (by simp)
    | rejected _ hq => exact absurd (hp.symm.trans hq) (by simp)
    | unexpected _ hq => exact absurd (hp.symm.trans hq) (by simp)
  | destroys => exact ⟨.inr (.inr rfl), .inr rfl, _, _, rfl, fun e he => ⟨_, _, List.mem_singleton.1 he⟩⟩
  | deserts => exact ⟨.inr (.inr rfl), .inr rfl, hnone _⟩
  | _ => exact absurd hp hp'

end Connection

/-! ### The deadline in the course of a run -/

/-- **The present connection came about like this**: in the move `m` of a run the supervisor took the hello in `x`, and
since then there has been a connection. -/
structure Began (p : Profile) (before : List Move) (m : Move) (later : List Move) (x : Cue) (hello : Hello) :
    Prop where
  /-- The hello is taken in the move. -/
  cue : (Client.after p before).cue? m = some x
  /-- It is that of the present connection. -/
  enters : (Client.after p before).Enters x (Client.after p (before ++ m :: later)).connection.epoch hello
  /-- The connection has lasted. -/
  lasts : ∀ part, part <+: later → (Client.after p (before ++ m :: part)).connection.phase = .connected

/-- The gateway's last sign of life since a move: the last heartbeat on the socket, or the hello itself. -/
def lastSign (p : Profile) (before : List Move) (m : Move) (later : List Move) (x : Cue) : Nat :=
  ((Client.after p (before ++ [m])).collect
    (Client.heartbeat? (Client.after p (before ++ m :: later)).connection.epoch) later).getLast?.getD x.now

/-- **The deadline at the end of a run that has led to a connection.** -/
structure Watches (p : Profile) (moves before : List Move) (m : Move) (later : List Move) (x : Cue) (hello : Hello) :
    Prop where
  /-- The run has gone like this. -/
  splits : moves = before ++ m :: later
  /-- So the connection came about. -/
  began : Began p before m later x hello
  /-- Its interval is that of its hello. -/
  interval : (Client.after p moves).connection.tickInterval = Connection.announcedTick hello
  /-- The deadline goes back to the last sign of life. -/
  deadline : (Client.after p moves).connection.watchdogDeadline =
    some (lastSign p before m later x + (Connection.patience hello).nanos)

section

variable {p : Profile} {moves before later : List Move} {m m' : Move} {x : Cue} {hello : Hello}

open Client

theorem Began.concat (h : Began p before m later x hello)
    (hepoch : (Client.after p (before ++ m :: (later ++ [m']))).connection.epoch =
      (Client.after p (before ++ m :: later)).connection.epoch)
    (hphase : (Client.after p (before ++ m :: (later ++ [m']))).connection.phase = .connected) :
    Began p before m (later ++ [m']) x hello := by
  refine ⟨h.cue, hepoch ▸ h.enters, fun part hpart => ?_⟩
  obtain rfl | hpart := List.prefix_concat_iff.1 hpart
  · exact hphase
  · exact h.lasts part hpart

/-- A heartbeat is the last sign of life; without one it is the one before. -/
theorem lastSign_concat (hepoch : (Client.after p (before ++ m :: (later ++ [m']))).connection.epoch =
      (Client.after p (before ++ m :: later)).connection.epoch) :
    lastSign p before m (later ++ [m']) x =
      (heartbeat? (Client.after p (before ++ m :: later)).connection.epoch
        (Client.after p (before ++ m :: later)) m').getD (lastSign p before m later x) := by
  have hrun : (Client.after p (before ++ [m])).run later = Client.after p (before ++ m :: later) := by
    rw [← run_append, List.append_assoc, List.singleton_append]
  rw [lastSign, hepoch, collect_concat, hrun, List.getLast?_append]
  cases heartbeat? _ (Client.after p (before ++ m :: later)) m' with
  | none => rfl
  | some now => rfl

/-- A move that leaves the connection up keeps what its deadline goes back to. -/
theorem Watches.concat (h : Watches p moves before m later x hello)
    (hp : (Client.after p moves).connection.phase = .connected)
    (hp' : (Client.after p (moves ++ [m'])).connection.phase = .connected) :
    Watches p (moves ++ [m']) before m (later ++ [m']) x hello := by
  obtain ⟨rfl, hbegan, hinterval, hdeadline⟩ := h
  have hlist : before ++ m :: later ++ [m'] = before ++ m :: (later ++ [m']) := by
    rw [List.append_assoc, List.cons_append]
  have hmove := after_concat p (before ++ m :: later) m'
  have hs := sound_run p (before ++ m :: later)
  rw [hlist] at hp' hmove ⊢
  rw [hmove] at hp'
  suffices hkeeps : ((Client.after p (before ++ m :: later)).move m').connection.epoch =
        (Client.after p (before ++ m :: later)).connection.epoch ∧
      ((Client.after p (before ++ m :: later)).move m').connection.tickInterval =
        (Client.after p (before ++ m :: later)).connection.tickInterval ∧
      ((Client.after p (before ++ m :: later)).move m').connection.watchdogDeadline =
        some ((heartbeat? (Client.after p (before ++ m :: later)).connection.epoch
          (Client.after p (before ++ m :: later)) m').getD (lastSign p before m later x) +
          (Connection.patience hello).nanos) by
    obtain ⟨hepoch, htick, hwatchdog⟩ := hkeeps
    rw [← hmove] at hp' hepoch htick hwatchdog
    exact ⟨rfl, hbegan.concat hepoch hp', htick.trans hinterval, by rw [hwatchdog, lastSign_concat hepoch]⟩
  cases hx : (Client.after p (before ++ m :: later)).cue? m' with
  | none =>
    rw [connection_of_idle hx, heartbeat?_eq_none hx]
    exact ⟨rfl, rfl, hdeadline⟩
  | some y =>
    rw [connection_of_cue? hx] at hp' ⊢
    obtain ⟨hepoch, htick, hheeds⟩ := Connection.heeds_of_acts (hs.acts hx) hp hp'
    refine ⟨hepoch, htick, ?_⟩
    cases hheeds with
    | beats hi hbeat hset =>
      rw [hset, hinterval, heartbeat?_of_text hx hi, if_pos hbeat]
      rfl
    | waits hno hsame =>
      have hnone : heartbeat? (Client.after p (before ++ m :: later)).connection.epoch
          (Client.after p (before ++ m :: later)) m' = none := by
        by_cases htext : ∃ t, y.input = .report (Client.after p (before ++ m :: later)).connection.epoch (.text t)
        · obtain ⟨t, hi⟩ := htext
          rw [heartbeat?_of_text hx hi, hno t hi, if_neg Bool.false_ne_true]
        · exact heartbeat?_of_no_text hx (not_exists.1 htext)
      rw [hsame, hdeadline, hnone]
      rfl

/-- With the hello the supervisor begins to watch. -/
theorem watches_of_entered (hx : (Client.after p moves).cue? m = some x)
    (hp : (Client.after p moves).connection.phase ≠ .connected)
    (hp' : (Client.after p (moves ++ [m])).connection.phase = .connected) :
    ∃ hello, Watches p (moves ++ [m]) moves m [] x hello := by
  have hmove := after_concat p moves m
  have hconn : (Client.after p (moves ++ [m])).connection = ((Client.after p moves).outcome x).1 := by
    rw [hmove, connection_of_cue? hx]
  rw [hconn] at hp'
  obtain ⟨t, id, payload, error, hello, hi, ht, hq, hh, hepoch, htick, hdeadline⟩ :=
    Connection.entered_of_acts ((sound_run p moves).acts hx) hp hp'
  refine ⟨hello, rfl, ⟨hx, ?_, fun part hpart => ?_⟩, ?_, ?_⟩
  · rw [hconn, hepoch]
    exact enters_of_tidings hi ht hq hh
  · obtain rfl := List.prefix_nil.1 hpart
    rw [hconn]
    exact hp'
  · rw [hconn]
    exact htick
  · rw [hconn]
    exact hdeadline

/-- **On a connection the deadline goes back to its hello or to its last heartbeat**, in every run. -/
theorem watches_run (p : Profile) (moves : List Move) :
    (Client.after p moves).connection.phase = .connected →
      ∃ before m later x hello, Watches p moves before m later x hello := by
  induction moves using List.reverseRecOn with
  | nil => exact fun hp => absurd hp (by simp [Client.after, Client.new, Connection.new])
  | append_singleton moves m ih =>
    intro hp'
    by_cases hp : (Client.after p moves).connection.phase = .connected
    · obtain ⟨before, m₀, later, x, hello, h⟩ := ih hp
      exact ⟨before, m₀, later ++ [m], x, hello, h.concat hp hp'⟩
    · cases hx : (Client.after p moves).cue? m with
      | none =>
        rw [after_concat, connection_of_idle hx] at hp'
        exact absurd hp' hp
      | some x =>
        obtain ⟨hello, h⟩ := watches_of_entered hx hp hp'
        exact ⟨moves, m, [], x, hello, h⟩

end

/-! ### Why a connection is given up, and what ends with it -/

namespace Client

variable {c c' : Client} {m : Move} {x : Cue} {k l : Nat} {t : String}

/-- **Why the supervisor leaves a connection.** -/
inductive Loses (c : Client) (x : Cue) : Prop where
  /-- The socket of the connection is closed, or fails. -/
  | gone {reason : String} : x.input = .report c.connection.epoch (.closed reason) ∨
      x.input = .report c.connection.epoch (.failed reason) → Loses c x
  /-- The deadline of the watchdog has come. -/
  | silent {d : Nat} : x.input = .alarm .watchdog → c.connection.watchdogDeadline = some d → d ≤ x.now → Loses c x
  /-- The client is shut down. -/
  | destroyed : x.input.isLast = true → Loses c x

/-- **What ends with a connection.** -/
structure Severed (c c' : Client) : Prop where
  /-- There is not even an attempt to connect. -/
  phase : c'.connection.phase = .disconnected
  /-- No request is left outstanding, -/
  outstanding : c'.connection.outstanding = .empty
  /-- and the caller of each, if it still waits, is told that the connection is lost. -/
  callers : ∀ n ∈ c.connection.outstanding.tickets, c.tickets.get? n = some .waiting →
    c'.tickets.get? n = some (.answered (.error .connectionLost))
  /-- Nobody follows a run any more, -/
  audience : c'.connection.audience = .empty
  /-- and every stream that did has come to its end: nothing ever comes into its mailbox again, and its reader finds the
  end behind what is there. -/
  streams : ∀ l s, c.streams.get? l = some s → s.isFinished = false → ¬ c.connection.audience.Spares l →
    c'.streams.get? l = some s ∧ c'.box l = c.box l ∧ ∀ later, (c'.run later).feeds l = false ∧
      (((c'.run later).box l).queue = [] → ∀ now, ((c'.run later).pull now l).1 = .ended)

/-- An alarm is noticed when its deadline has come. -/
theorem le_now_of_alarm {a : Alarm} (hx : c.cue? m = some x) (hi : x.input = .alarm a) :
    ∃ d ≤ x.now, (d, a) ∈ c.connection.deadlines := by
  have hr := isRunning_of_cue? hx
  cases m with
  | takeAlarm now freshId =>
    simp only [cue?, hr, if_true, Option.map_eq_some_iff] at hx
    obtain ⟨a', ha, rfl⟩ := hx
    cases hi
    exact mem_deadlines_of_dueAlarm? ha
  | takeCommand now freshId =>
    simp only [cue?, hr, if_true] at hx
    split at hx
    · cases hx
      cases hi
    · split at hx
      · cases hx
      · cases hx
        cases hi
  | takeReport now freshId =>
    simp only [cue?, hr, if_true, Option.map_eq_some_iff] at hx
    obtain ⟨y, -, rfl⟩ := hx
    cases hi
  | _ => cases hx

/-- **A connection is given up only when its socket is gone, the deadline has come or the client is shut down.** -/
theorem Sound.loses (h : c.Sound) (hp : c.connection.phase = .connected)
    (hp' : (c.move m).connection.phase ≠ .connected) : ∃ x, c.cue? m = some x ∧ c.Loses x := by
  cases hx : c.cue? m with
  | none =>
    rw [connection_of_idle hx] at hp'
    exact absurd hp hp'
  | some x =>
    rw [connection_of_cue? hx] at hp'
    refine ⟨x, rfl, ?_⟩
    obtain ⟨⟨reason, hgone⟩ | hsilent | hlast, -⟩ := Connection.left_of_acts (h.expects hx) h.phase (h.acts hx) hp hp'
    · exact .gone hgone
    · obtain ⟨d, hd, hmem⟩ := le_now_of_alarm hx hsilent
      exact .silent hsilent (Connection.watchdog_of_mem_deadlines hmem) hd
    · exact .destroyed hlast

/-- **When the supervisor looks at the clock, it gives the connection up exactly if the deadline has come.** -/
theorem Sound.lost_iff {d : Nat} (h : c.Sound) (hp : c.connection.phase = .connected)
    (hd : c.connection.watchdogDeadline = some d) (now : Nat) (freshId : String) :
    (c.move (.takeAlarm now freshId)).connection.phase ≠ .connected ↔ d ≤ now := by
  have hup := h.phase.isUp hp
  have hr : c.isRunning = true := by simpa [hup.alive] using h.alive
  have hcue : c.cue? (.takeAlarm now freshId) = if d ≤ now then some ⟨now, freshId, .alarm .watchdog⟩ else none := by
    by_cases hle : d ≤ now <;> simp [cue?, hr, dueAlarm?, hup.deadlines_eq hd, hle]
  by_cases hle : d ≤ now
  · rw [if_pos hle] at hcue
    have hends : (c.outcome ⟨now, freshId, .alarm .watchdog⟩).1 = c.connection.rescheduled now :=
      Connection.handle_of_ends hup.alive (.silent hp)
    rw [connection_of_cue? hcue, hends]
    exact iff_of_true Phase.noConfusion hle
  · rw [if_neg hle] at hcue
    rw [connection_of_idle hcue]
    exact iff_of_false (fun hne => hne hp) hle

/-- A stream that nobody feeds ends with what is in its mailbox. -/
theorem pull_of_unfed (hf : c.feeds l = false) (hq : (c.box l).queue = []) (now : Nat) :
    (c.pull now l).1 = .ended := by
  have hq' : ((c.boxes.get? l).getD .new).queue = [] := hq
  unfold pull
  cases c.streams.get? l with
  | none => rfl
  | some s =>
    simp only [Mailbox.take, hq', hf, Bool.and_false, Bool.false_eq_true, if_false]
    split <;> rfl

/-- Nothing comes into the mailbox of a listener that has left. -/
theorem Left.feeds (h : c.Left l) : c.feeds l = false := by
  have hno : ∀ y : Option Listener, (∀ z, y = some z → z.Spares l) →
      decide (y.map (·.box) = some l) = false := by
    intro y hy
    refine decide_eq_false fun hbox => ?_
    obtain ⟨z, rfl, hz⟩ := Option.map_eq_some_iff.1 hbox
    exact (hy z rfl).2 hz
  simp only [Client.feeds, Bool.or_eq_false_iff, List.any_eq_false, Bool.not_eq_true]
  refine ⟨⟨?_, fun r hr => ?_⟩, fun cmd hcmd => hno _ (h.commands cmd hcmd)⟩
  · exact List.any_eq_false.2 fun m hm => by simpa using (h.audience m hm).2
  · obtain ⟨e, he, rfl⟩ := List.mem_map.1 hr
    exact hno _ (h.requests e he)

/-- **With the connection all its requests fail and all its streams end**, in the same step. -/
theorem Sound.severed (h : c.Sound) (hn : c.Numbered) (ho : c.Housed) (hb : ∀ l, c.Bonds l)
    (hp : c.connection.phase = .connected) (hp' : (c.move m).connection.phase ≠ .connected) :
    c.Severed (c.move m) := by
  cases hx : c.cue? m with
  | none =>
    rw [connection_of_idle hx] at hp'
    exact absurd hp hp'
  | some x =>
    have hconn := connection_of_cue? hx
    rw [hconn] at hp'
    obtain ⟨-, hcleared, fault, more, hes, hmore⟩ :=
      Connection.left_of_acts (h.expects hx) h.phase (h.acts hx) hp hp'
    have hempty : (c.outcome x).1.phase = .disconnected ∧ (c.outcome x).1.outstanding = .empty ∧
        (c.outcome x).1.audience = .empty := by
      obtain hc | hc := hcleared <;> rw [hc] <;> exact ⟨rfl, rfl, rfl⟩
    obtain ⟨hphase, houtstanding, haudience⟩ := hempty
    have hdeliver : ∀ k e, .deliver k e ∉ (c.outcome x).2 := by
      intro k e he
      rw [hes] at he
      obtain he | he := List.mem_append.1 he
      · obtain ⟨link, he⟩ | ⟨n, a, he⟩ := Connection.close_or_answer_of_mem_farewells he <;> cases he
      · obtain ⟨n, a, he⟩ := hmore _ he
        cases he
    refine ⟨hconn ▸ hphase, hconn ▸ houtstanding, fun n hmem hwait => ?_, hconn ▸ haudience,
      fun l s hst hf hseat => ⟨?_, ?_, fun later => ?_⟩⟩
    · rw [move_of_cue? hx, handle_eq, get?_onTickets, hwait, hes, Connection.findSome?_farewells_of_outstanding hmem]
      rfl
    · rw [move_of_cue? hx, handle_eq]
      exact hst
    · rw [move_of_cue? hx, handle_eq, Client.box, Client.box, onBoxes_eq_self hdeliver]
    · have hspares := ((hb l).reads s hst hf).2.spares_of_seated hseat
      have hleft : (c.move m).Left l := by
        refine ⟨fun cmd hcmd => ?_, fun e he => ?_, ?_⟩
        · rw [move_of_cue? hx, handle_eq] at hcmd
          exact hspares cmd (mem_of_mem_commandsAfter hcmd)
        · rw [hconn, houtstanding] at he
          cases he
        · rw [hconn, haudience]
          exact Audience.spares_empty l
      have hd := does_move c m
      have hl := Nat.lt_of_lt_of_le (ho.streams l s hst) (nextListener_le_of_does hd)
      have hfeeds := (hleft.run (h.does hd) (hn.move m) hl later).feeds
      exact ⟨hfeeds, fun hq now => pull_of_unfed hfeeds hq now⟩

/-- **A text leaves the deadline alone**, unless a connection begins with it or it is a heartbeat of the connection. -/
theorem Sound.deadline_of_text (h : c.Sound) (hx : c.cue? m = some x) (hi : x.input = .report k (.text t))
    (hno : ∀ hello, ¬ c.Enters x k hello)
    (hbeat : isHeartbeat t = true → k ≠ c.connection.epoch ∨ c.connection.phase ≠ .connected) :
    (c.move m).connection.watchdogDeadline = c.connection.watchdogDeadline := by
  have hs' := h.does (does_move c m)
  have ha := h.acts hx
  have hconn := connection_of_cue? hx
  by_cases hp : c.connection.phase = .connected
  · -- a text does not end a connection
    by_cases hp' : (c.move m).connection.phase = .connected
    · rw [hconn] at hp' ⊢
      obtain ⟨-, -, hheeds⟩ := Connection.heeds_of_acts ha hp hp'
      cases hheeds with
      | beats hi' hb =>
        rw [hi] at hi'
        cases hi'
        exact absurd hp ((hbeat hb).resolve_left fun hne => hne rfl)
      | waits _ hsame => exact hsame
    · obtain ⟨y, hy, hlost⟩ := h.loses hp hp'
      obtain rfl := Option.some.inj (hx.symm.trans hy)
      cases hlost with
      | gone hi' =>
        rw [hi] at hi'
        obtain hi' | hi' := hi' <;> cases hi'
      | silent hi' =>
        rw [hi] at hi'
        cases hi'
      | destroyed hlast =>
        rw [hi] at hlast
        cases hlast
  · have hnone := h.phase.watchdog_eq_none hp
    by_cases hp' : (c.move m).connection.phase = .connected
    · rw [hconn] at hp'
      obtain ⟨t', id, payload, error, hello, hi', ht, hq, hh, -⟩ := Connection.entered_of_acts ha hp hp'
      have hk : k = c.connection.epoch := by
        rw [hi] at hi'
        cases hi'
        rfl
      exact absurd (hk ▸ enters_of_tidings hi' ht hq hh) (hno hello)
    · rw [hnone, hs'.phase.watchdog_eq_none hp']

/-- A heartbeat that comes before the hello or on another socket changes nothing of the connection. -/
theorem connection_of_heartbeat (hx : c.cue? m = some x) (hi : x.input = .report k (.text t))
    (hb : isHeartbeat t = true) (hno : k ≠ c.connection.epoch ∨ c.connection.phase ≠ .connected) :
    (c.move m).connection = c.connection := by
  obtain ⟨now, freshId, input⟩ := x
  cases hi
  rw [connection_of_cue? hx, outcome_text, tidings]
  split
  · rename_i hk
    have hp := hno.resolve_left fun hne => hne hk
    rw [isHeartbeat_iff.1 hb]
    cases hq : c.connection.phase with
    | connected => exact absurd hq hp
    | _ => simp only [Connection.hear, hq]
  · rfl

end Client

/-! ### Every run -/

/-- **What the watchdog does**, at any moment of a run. -/
structure Watched (p : Profile) (moves : List Move) : Prop where
  /-- Its deadline is set exactly if there is a connection. -/
  armed : (Client.after p moves).connection.watchdogDeadline.isSome = true ↔
    (Client.after p moves).connection.phase = .connected
  /-- It then goes back to the hello of the connection, or to the last heartbeat on its socket since. -/
  due : (Client.after p moves).connection.phase = .connected →
    ∃ before m later x hello, Watches p moves before m later x hello
  /-- No text moves it with which no connection begins, and that is no heartbeat of the connection. -/
  unmoved : ∀ m x k t, (Client.after p moves).cue? m = some x → x.input = .report k (.text t) →
    (∀ hello, ¬ (Client.after p moves).Enters x k hello) →
    (isHeartbeat t = true → k ≠ (Client.after p moves).connection.epoch ∨
      (Client.after p moves).connection.phase ≠ .connected) →
    ((Client.after p moves).move m).connection.watchdogDeadline = (Client.after p moves).connection.watchdogDeadline
  /-- A heartbeat that comes before the hello or on another socket changes nothing at all of the connection. -/
  ignored : ∀ m x k t, (Client.after p moves).cue? m = some x → x.input = .report k (.text t) →
    isHeartbeat t = true → (k ≠ (Client.after p moves).connection.epoch ∨
      (Client.after p moves).connection.phase ≠ .connected) →
    ((Client.after p moves).move m).connection = (Client.after p moves).connection
  /-- The supervisor leaves the connection only when its socket is gone, the deadline has come or the client is shut
  down. -/
  loses : ∀ m, (Client.after p moves).connection.phase = .connected →
    ((Client.after p moves).move m).connection.phase ≠ .connected →
    ∃ x, (Client.after p moves).cue? m = some x ∧ (Client.after p moves).Loses x
  /-- When it looks at the clock, it does so exactly if the deadline has come. -/
  silent : ∀ d now freshId, (Client.after p moves).connection.phase = .connected →
    (Client.after p moves).connection.watchdogDeadline = some d →
    (((Client.after p moves).move (.takeAlarm now freshId)).connection.phase ≠ .connected ↔ d ≤ now)
  /-- With the connection all its requests fail and all its streams end. -/
  severed : ∀ m, (Client.after p moves).connection.phase = .connected →
    ((Client.after p moves).move m).connection.phase ≠ .connected →
    (Client.after p moves).Severed ((Client.after p moves).move m)

/-- **The watchdog of every client.** Whatever callers, readers, sockets and clocks do and in whatever order: the
deadline is set as long as there is a connection and no longer. It is two and a half intervals after the supervisor
took the hello or the last heartbeat on the socket of the connection; the interval is the one that the gateway announced
in the hello of this very connection, or twelve seconds if it announced none. No other text moves it. When it has come,
or when the socket is gone or the client is shut down, and for no other reason, the connection is given up, and in the
same step all requests that are outstanding fail as the connection is lost, and all streams that follow a run end. -/
theorem watched_run (p : Profile) (moves : List Move) : Watched p moves where
  armed := (Client.sound_run p moves).phase.isSome_watchdog_iff
  due := watches_run p moves
  unmoved _ _ _ _ hx hi hno hbeat := (Client.sound_run p moves).deadline_of_text hx hi hno hbeat
  ignored _ _ _ _ hx hi hb hno := Client.connection_of_heartbeat hx hi hb hno
  loses _ hp hp' := (Client.sound_run p moves).loses hp hp'
  silent _ now freshId hp hd := (Client.sound_run p moves).lost_iff hp hd now freshId
  severed _ hp hp' := (Client.sound_run p moves).severed (Client.numbered_run p moves) (Client.housed_run p moves)
    (Client.bonds_run p moves) hp hp'

/-- Without an announcement the supervisor waits for half a minute. -/
example : defaultTick.scale watchdogFactor = .ofSeconds 30 := by decide +kernel

end TurnRelay.Gateway
