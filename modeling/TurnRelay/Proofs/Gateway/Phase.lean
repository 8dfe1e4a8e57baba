import TurnRelay.Proofs.Gateway.Supervision

/-!
# What holds in each phase

The supervisor keeps a dozen things beside its phase: a socket, the gateway's hello, deadlines, requests,
callers who wait. Each belongs to some phases and not to others. `InPhase` says which, and `InPhase.acts`
that every step keeps it so, provided that reports come from sockets that were dialed and alarms from
deadlines that are set. Both are facts about the whole client: a socket has the number of the attempt it
was dialed for, and the number moves on when the attempt ends. `Sound` joins them.

## What is proved

* `sound_run` — every client is sound after every run.
* `orderly_run` — in every reachable state, what belongs to the phase is there and nothing else is; the next
  attempt is scheduled whenever there is none, and never after the client was shut down; and what is published
  says so.
-/

namespace TurnRelay.Gateway

/-! ### What belongs to a phase -/

namespace Connection

/-- There is no connection, and not even an attempt. -/
structure IsDown (c : Connection) : Prop where
  /-- No socket. -/
  link : c.link = none
  /-- No hello. -/
  hello : c.hello = none
  /-- No time of acceptance. -/
  since : c.connectedSince = none
  /-- No handshake takes too long. -/
  connectDeadline : c.connectDeadline = none
  /-- No heartbeat is overdue. -/
  watchdog : c.watchdogDeadline = none
  /-- No request has gone out. -/
  outstanding : c.outstanding = .empty
  /-- Nobody waits. -/
  waiters : c.waiters = []
  /-- The next attempt is scheduled, if there ever was one and the client was not shut down. -/
  reconnect : c.reconnectAt.isSome = true ↔ c.epoch ≠ 0 ∧ c.isDestroyed = false

/-- An attempt is under way, and so far has it come. -/
structure IsRising (c : Connection) (h : Handshake) : Prop where
  /-- There is a socket once it has been opened. -/
  link : c.link = if h = .dialing then none else some c.epoch
  /-- No hello. -/
  hello : c.hello = none
  /-- No time of acceptance. -/
  since : c.connectedSince = none
  /-- The attempt may take too long. -/
  connectDeadline : c.connectDeadline.isSome = true
  /-- No heartbeat is overdue. -/
  watchdog : c.watchdogDeadline = none
  /-- No other attempt is scheduled. -/
  reconnect : c.reconnectAt = none
  /-- No request has gone out. -/
  outstanding : c.outstanding = .empty
  /-- It is not the state before the first attempt. -/
  epoch : c.epoch ≠ 0
  /-- The client was not shut down. -/
  alive : c.isDestroyed = false

/-- There is a connection. -/
structure IsUp (c : Connection) : Prop where
  /-- The socket is that of the present attempt. -/
  link : c.link = some c.epoch
  /-- The gateway has said hello. -/
  hello : c.hello.isSome = true
  /-- It has done so at some time. -/
  since : c.connectedSince.isSome = true
  /-- The handshake is over. -/
  connectDeadline : c.connectDeadline = none
  /-- The next heartbeat may be overdue. -/
  watchdog : c.watchdogDeadline.isSome = true
  /-- No attempt is scheduled. -/
  reconnect : c.reconnectAt = none
  /-- Nobody waits. -/
  waiters : c.waiters = []
  /-- No attempt has failed since. -/
  attempts : c.backoff.attempts = 0
  /-- It is not the state before the first attempt. -/
  epoch : c.epoch ≠ 0
  /-- The client was not shut down. -/
  alive : c.isDestroyed = false

/-- What belongs to the phase is there, and nothing else is. -/
def InPhase (c : Connection) : Prop :=
  match c.phase with
  | .disconnected => c.IsDown
  | .connecting h => c.IsRising h
  | .connected => c.IsUp

theorem InPhase.isDown {c : Connection} (h : c.InPhase) (hp : c.phase = .disconnected) : c.IsDown := by
  simpa [InPhase, hp] using h

theorem InPhase.isRising {c : Connection} {s : Handshake} (h : c.InPhase) (hp : c.phase = .connecting s) :
    c.IsRising s := by
  simpa [InPhase, hp] using h

theorem InPhase.isUp {c : Connection} (h : c.InPhase) (hp : c.phase = .connected) : c.IsUp := by
  simpa [InPhase, hp] using h

theorem IsDown.inPhase {c : Connection} (h : c.IsDown) (hp : c.phase = .disconnected) : c.InPhase := by
  simpa [InPhase, hp] using h

theorem IsRising.inPhase {c : Connection} {s : Handshake} (h : c.IsRising s)
    (hp : c.phase = .connecting s) : c.InPhase := by
  simpa [InPhase, hp] using h

theorem IsUp.inPhase {c : Connection} (h : c.IsUp) (hp : c.phase = .connected) : c.InPhase := by
  simpa [InPhase, hp] using h

theorem phase_cases (c : Connection) :
    c.phase = .disconnected ∨ (∃ s, c.phase = .connecting s) ∨ c.phase = .connected := by
  cases c.phase with
  | disconnected => exact .inl rfl
  | connecting s => exact .inr (.inl ⟨s, rfl⟩)
  | connected => exact .inr (.inr rfl)

/-- Requests are outstanding only on a connection. -/
theorem InPhase.connected_of_mem {c : Connection} {e : String × Request} (h : c.InPhase)
    (he : e ∈ c.outstanding.entries) : c.phase = .connected := by
  cases hp : c.phase with
  | connected => rfl
  | disconnected =>
    rw [(h.isDown hp).outstanding] at he
    cases he
  | connecting s =>
    rw [(h.isRising hp).outstanding] at he
    cases he

/-- The supervisor's socket is that of the present attempt. -/
theorem InPhase.eq_epoch_of_link {c : Connection} {link : Nat} (h : c.InPhase) (hl : c.link = some link) :
    link = c.epoch := by
  rcases c.phase_cases with hp | ⟨s, hp⟩ | hp
  · rw [(h.isDown hp).link] at hl
    cases hl
  · rw [(h.isRising hp).link] at hl
    split at hl
    · cases hl
    · exact (Option.some.inj hl).symm
  · rw [(h.isUp hp).link] at hl
    exact (Option.some.inj hl).symm

theorem inPhase_new (p : Profile) : (Connection.new p).InPhase :=
  ⟨rfl, rfl, rfl, rfl, rfl, rfl, rfl, by simp [Connection.new]⟩

/-! ### What an input can be -/

/-- An epoch of which there may be reports: not one to come, and not the present one when there is not even
an attempt. -/
def Knows (c : Connection) (epoch : Nat) : Prop :=
  epoch ≤ c.epoch ∧ (c.phase = .disconnected → epoch ≠ c.epoch)

/-- An input that can come: a report of a known epoch, an alarm for a deadline that is set. -/
def Expects (c : Connection) : Input → Prop
  | .report epoch _ => c.Knows epoch
  | .alarm a => ∃ d, (d, a) ∈ c.deadlines
  | _ => True

theorem reconnect_of_mem_deadlines {c : Connection} {d : Nat} (h : (d, Alarm.reconnect) ∈ c.deadlines) :
    c.reconnectAt.isSome = true := by
  simp only [deadlines, List.mem_append, Option.mem_toList, Option.map_eq_some_iff, Prod.mk.injEq,
    reduceCtorEq, and_false, exists_const, false_or, and_true, exists_eq_right] at h
  simp [h]

/-- An attempt begins only when there is neither a connection nor an attempt. -/
theorem InPhase.disconnected_of_attempts {c : Connection} {i : Input} {ns : List Nat} (h : c.InPhase)
    (hx : c.Expects i) (ha : Attempts c i ns) : c.phase = .disconnected := by
  cases ha with
  | asked hp => exact hp
  | due =>
    obtain ⟨d, hd⟩ := hx
    have hr := reconnect_of_mem_deadlines hd
    cases hp : c.phase with
    | disconnected => rfl
    | connecting s => simp [(h.isRising hp).reconnect] at hr
    | connected => simp [(h.isUp hp).reconnect] at hr

/-! ### Every step keeps to the phase -/

variable {env : Surroundings} {p : Profile} {c c' : Connection} {i : Input} {es : List Effect}

theorem inPhase_rescheduled (now : Nat) (hd : c.isDestroyed = false) : (c.rescheduled now).InPhase :=
  ⟨rfl, rfl, rfl, rfl, rfl, rfl, rfl, by simp [rescheduled, cleared, hd]⟩

theorem inPhase_destroyed (c : Connection) : c.destroyed.InPhase :=
  ⟨rfl, rfl, rfl, rfl, rfl, rfl, rfl, by simp [destroyed]⟩

/-- A step that touches nothing but requests on a connection, and listeners, keeps to the phase. -/
theorem InPhase.of_lists (h : c.InPhase) (o : Outstanding) (a : Audience)
    (ho : c.phase = .connected ∨ (c.outstanding = .empty → o = .empty)) :
    ({ c with outstanding := o, audience := a } : Connection).InPhase := by
  rcases c.phase_cases with hp | ⟨s, hp⟩ | hp
  · have ho := ho.resolve_left (by simp [hp])
    have hd := h.isDown hp
    have hd' : IsDown { c with outstanding := o, audience := a } :=
      { hd with outstanding := ho hd.outstanding }
    exact hd'.inPhase hp
  · have ho := ho.resolve_left (by simp [hp])
    have hr := h.isRising hp
    have hr' : IsRising { c with outstanding := o, audience := a } s :=
      { hr with outstanding := ho hr.outstanding }
    exact hr'.inPhase hp
  · have hu : IsUp { c with outstanding := o, audience := a } := { h.isUp hp with }
    exact hu.inPhase hp

/-- **Every step keeps to the phase**, if its input can come at all. -/
theorem InPhase.acts (h : c.InPhase) (hd : c.isDestroyed = false) (hx : c.Expects i)
    (ha : Acts env p c i c' es) : c'.InPhase := by
  cases ha with
  | passes => exact h
  | late => exact h
  | admits => exact h
  | unsent => exact h
  | unconnected => exact h
  | @parks n s hp =>
    have hr : IsRising { c with waiters := c.waiters ++ [n] } s := { h.isRising hp with }
    exact hr.inPhase hp
  | attempts ht =>
    have hdown := h.isDown (h.disconnected_of_attempts hx ht)
    exact ⟨hdown.link, hdown.hello, hdown.since, rfl, hdown.watchdog, rfl, hdown.outstanding,
      Nat.succ_ne_zero _, hd⟩
  | requests hp => exact h.of_lists _ _ (.inl hp)
  | forgets => exact h.of_lists _ _ (.inr fun ho => by rw [ho]; rfl)
  | listens => exact h.of_lists _ _ (.inr id)
  | unlistens => exact h.of_lists _ _ (.inr id)
  | delivers => exact h.of_lists _ _ (.inr id)
  | answers ht hp => exact h.of_lists _ _ (.inl hp)
  | opens =>
    cases hp : c.phase with
    | disconnected => exact absurd rfl (hx.2 hp)
    | connecting s =>
      have hr := h.isRising hp
      exact ⟨rfl, hr.hello, hr.since, hr.connectDeadline, hr.watchdog, hr.reconnect, hr.outstanding,
        hr.epoch, hr.alive⟩
    | connected =>
      have hu := h.isUp hp
      exact ⟨rfl, hu.hello, hu.since, hu.connectDeadline, hu.watchdog, hu.reconnect, hu.waiters, hu.attempts,
        hu.epoch, hu.alive⟩
  | greets ht hp hl =>
    have hr := h.isRising hp
    exact ⟨hr.link, hr.hello, hr.since, hr.connectDeadline, hr.watchdog, hr.reconnect, hr.outstanding,
      hr.epoch, hr.alive⟩
  | enters ht hp =>
    have hr := h.isRising hp
    exact ⟨hr.link, rfl, rfl, rfl, rfl, hr.reconnect, rfl, rfl, hr.epoch, hr.alive⟩
  | beats ht hp =>
    have hu : IsUp (c.armWatchdog env) := { h.isUp hp with watchdog := rfl }
    exact hu.inPhase hp
  | tooLate hp =>
    rcases c.phase_cases with hq | ⟨s, hq⟩ | hq
    · have hdown : IsDown { c with connectDeadline := none } := { h.isDown hq with connectDeadline := rfl }
      exact hdown.inPhase hq
    · exact absurd hq (hp s)
    · have hu : IsUp { c with connectDeadline := none } := { h.isUp hq with connectDeadline := rfl }
      exact hu.inPhase hq
  | tooSilent hp =>
    rcases c.phase_cases with hq | ⟨s, hq⟩ | hq
    · have hdown : IsDown { c with watchdogDeadline := none } := { h.isDown hq with watchdog := rfl }
      exact hdown.inPhase hq
    · have hr : IsRising { c with watchdogDeadline := none } s := { h.isRising hq with watchdog := rfl }
      exact hr.inPhase hq
    · exact absurd hq hp
  | ends => exact inPhase_rescheduled _ hd
  | destroys => exact inPhase_destroyed c
  | deserts => exact inPhase_destroyed c

/-! ### Epochs move on -/

/-- The epoch never falls, and it rises when an attempt or connection ends. -/
theorem epoch_le_of_acts (ha : Acts env p c i c' es) : c.epoch ≤ c'.epoch := by
  cases ha <;> first | exact Nat.le_refl _ | exact Nat.le_succ _

theorem epoch_lt_of_acts (ha : Acts env p c i c' es) (hp : c.phase ≠ .disconnected)
    (hp' : c'.phase = .disconnected) : c.epoch < c'.epoch := by
  cases ha with
  | attempts => cases hp'
  | opens =>
    simp only at hp'
    split at hp'
    · cases hp'
    · exact absurd hp' hp
  | greets => cases hp'
  | enters => cases hp'
  | ends => exact Nat.lt_succ_self _
  | destroys => exact Nat.lt_succ_self _
  | deserts => exact Nat.lt_succ_self _
  | beats ht hq => exact absurd hp' (by simp [armWatchdog, hq])
  | _ => exact absurd hp' hp

theorem Knows.acts {epoch : Nat} (h : c.Knows epoch) (ha : Acts env p c i c' es) : c'.Knows epoch := by
  have hle := epoch_le_of_acts ha
  refine ⟨Nat.le_trans h.1 hle, fun hp' heq => ?_⟩
  by_cases hp : c.phase = .disconnected
  · exact h.2 hp (Nat.le_antisymm h.1 (heq ▸ hle))
  · have hlt := epoch_lt_of_acts ha hp hp'
    exact absurd h.1 (by omega)

/-- A socket that is to be opened is known from then on. -/
theorem knows_of_dial {epoch : Nat} (ha : Acts env p c i c' es) (he : .dial epoch ∈ es) :
    c'.Knows epoch := by
  cases ha with
  | attempts =>
    simp only [List.mem_singleton, Effect.dial.injEq] at he
    subst he
    exact ⟨Nat.le_refl _, fun hp => nomatch hp⟩
  | _ => simp [farewells] at he

/-- The client is shut down by the last input, and by no other. -/
theorem isDestroyed_of_acts (hd : c.isDestroyed = false) (ha : Acts env p c i c' es) :
    c'.isDestroyed = i.isLast := by
  cases ha with
  | passes hi => cases hi <;> exact hd
  | attempts hi => cases hi <;> exact hd
  | ends hi => cases hi <;> exact hd
  | destroys => rfl
  | deserts => rfl
  | _ => exact hd

end Connection

/-! ### The whole client -/

/-- Effects open sockets only as they say. -/
theorem isSome_onSockets {es : List Effect} {ss : Sockets} {epoch : Nat}
    (h : ((es.foldl Effect.onSockets ss).get? epoch).isSome = true) :
    (ss.get? epoch).isSome = true ∨ .dial epoch ∈ es := by
  induction es generalizing ss with
  | nil => exact .inl h
  | cons e es ih =>
    rcases ih h with h | h
    · cases e with
      | dial epoch' =>
        simp only [Effect.onSockets, Table.get?_set] at h
        split at h
        · rename_i he
          exact .inr (he ▸ List.mem_cons_self)
        · exact .inl h
      | send epoch' f => exact .inl (by simpa [Effect.onSockets, Table.isSome_get?_modify] using h)
      | close epoch' => exact .inl (by simpa [Effect.onSockets, Table.isSome_get?_modify] using h)
      | answer n a => exact .inl h
      | deliver box e => exact .inl h
    · exact .inr (List.mem_cons_of_mem _ h)

/-- The alarm that comes is that of a deadline that is set. -/
theorem mem_deadlines_of_dueAlarm? {c : Client} {now : Nat} {a : Alarm} (h : c.dueAlarm? now = some a) :
    ∃ d ≤ now, (d, a) ∈ c.connection.deadlines := by
  obtain ⟨⟨d, a'⟩, hf, rfl⟩ := Option.map_eq_some_iff.1 h
  exact ⟨d, by simpa using List.find?_some hf, List.mem_of_find?_eq_some hf⟩

namespace Client

/-- **What every move of a client keeps.** -/
structure Sound (c : Client) : Prop where
  /-- The connection has what belongs to its phase. -/
  phase : c.connection.InPhase
  /-- The supervisor is there until the client is shut down. -/
  alive : c.connection.isDestroyed = ! c.isRunning
  /-- Sockets are of known epochs. -/
  sockets : ∀ epoch, (c.sockets.get? epoch).isSome = true → c.connection.Knows epoch
  /-- Reports are of known epochs. -/
  reports : ∀ x ∈ c.reports, c.connection.Knows x.1

theorem sound_new (p : Profile) : (Client.new p).Sound :=
  ⟨Connection.inPhase_new p, rfl, (fun _ h => nomatch h), fun _ h => nomatch h⟩

variable {c c' : Client} {m : Move} {x : Cue}

theorem Sound.isDestroyed_eq_false (h : c.Sound) (hr : c.isRunning = true) :
    c.connection.isDestroyed = false := by
  rw [h.alive, hr]
  rfl

/-- What the supervisor takes can come. -/
theorem Sound.expects (h : c.Sound) (hx : c.cue? m = some x) : c.connection.Expects x.input := by
  have hr := isRunning_of_cue? hx
  cases m with
  | takeCommand now freshId =>
    simp only [cue?, hr, if_true] at hx
    split at hx
    · cases hx
      trivial
    · split at hx
      · cases hx
      · cases hx
        trivial
  | takeReport now freshId =>
    simp only [cue?, hr, if_true, Option.map_eq_some_iff] at hx
    obtain ⟨y, hy, rfl⟩ := hx
    exact h.reports y (List.mem_of_mem_head? hy)
  | takeAlarm now freshId =>
    simp only [cue?, hr, if_true, Option.map_eq_some_iff] at hx
    obtain ⟨a, ha, rfl⟩ := hx
    obtain ⟨d, -, hd⟩ := mem_deadlines_of_dueAlarm? ha
    exact ⟨d, hd⟩
  | _ => cases hx

/-- What the supervisor does about what it takes. -/
theorem Sound.acts (h : c.Sound) (hx : c.cue? m = some x) :
    Acts (c.surroundings x.now x.freshId) c.profile c.connection x.input (c.outcome x).1
      (c.outcome x).2 :=
  acts_handle (h.isDestroyed_eq_false (isRunning_of_cue? hx)) x.input

/-- The supervisor keeps a client sound. -/
theorem Sound.handle (h : c.Sound) (hx : c.cue? m = some x) : (c.handle x).Sound := by
  have hr := isRunning_of_cue? hx
  have hd := h.isDestroyed_eq_false hr
  have ha := h.acts hx
  rw [handle_eq]
  refine ⟨h.phase.acts hd (h.expects hx) ha, ?_, fun epoch he => ?_, fun y hy => ?_⟩
  · rw [Connection.isDestroyed_of_acts hd ha, hr]
    simp
  · rcases isSome_onSockets he with he | he
    · exact (h.sockets epoch he).acts ha
    · exact Connection.knows_of_dial ha he
  · exact (h.reports y (mem_of_mem_reportsAfter hy)).acts ha

/-- Whatever happens to a client keeps it sound. -/
theorem Sound.does (h : c.Sound) (hd : Does c m c') : c'.Sound := by
  cases hd with
  | handles hx => exact h.handle hx
  | @socket m epoch ss rs _ _ hk hss hrs =>
    refine ⟨h.phase, h.alive, fun epoch' he => ?_, fun y hy => ?_⟩
    · rcases hss with rfl | ⟨s, rfl⟩
      · exact h.sockets epoch' he
      · rw [Table.get?_set] at he
        split at he
        · rename_i heq
          exact heq ▸ h.sockets epoch hk
        · exact h.sockets epoch' he
    · rcases List.mem_append.1 hy with hy | hy
      · exact h.reports y hy
      · rw [hrs y hy]
        exact h.sockets epoch hk
  | _ => exact ⟨h.phase, h.alive, h.sockets, h.reports⟩

/-- Every client is sound after every run. -/
theorem sound_run (p : Profile) (moves : List Move) : ((Client.new p).run moves).Sound :=
  run_induction (P := fun _ c => c.Sound) (sound_new p) (fun _ m h => h.does (does_move _ m)) moves

/-- Nothing but the supervisor changes the connection. -/
theorem connection_eq_or_handle (hd : Does c m c') :
    c'.connection = c.connection ∨ ∃ x, c.cue? m = some x ∧ c' = c.handle x := by
  cases hd with
  | handles hx => exact .inr ⟨_, hx, rfl⟩
  | _ => exact .inl rfl

theorem connection_of_idle (h : c.cue? m = none) : (c.move m).connection = c.connection := by
  obtain he | ⟨x, hx, -⟩ := connection_eq_or_handle (does_move c m)
  · exact he
  · rw [h] at hx
    cases hx

/-- What the supervisor takes changes the connection. -/
theorem connection_of_cue? (h : c.cue? m = some x) : (c.move m).connection = (c.outcome x).1 := by
  rw [move_of_cue? h, handle_eq]

theorem Sound.epoch_le_move (h : c.Sound) (m : Move) :
    c.connection.epoch ≤ (c.move m).connection.epoch := by
  rcases connection_eq_or_handle (does_move c m) with he | ⟨x, hx, he⟩
  · exact Nat.le_of_eq (by rw [he])
  · rw [he, handle_eq]
    exact Connection.epoch_le_of_acts (h.acts hx)

/-- The epoch never falls. -/
theorem Sound.epoch_le_run (h : c.Sound) (moves : List Move) :
    c.connection.epoch ≤ (c.run moves).connection.epoch := by
  induction moves generalizing c with
  | nil => exact Nat.le_refl _
  | cons m moves ih => exact Nat.le_trans (h.epoch_le_move m) (ih (h.does (does_move c m)))

end Client

/-! ### What is published -/

/-- What belongs to a connection is published only of one. -/
structure Status.IsHonest (s : Status) : Prop where
  /-- The gateway's name for it. -/
  connId : s.connId.isSome = true → s.state = "connected"
  /-- The protocol revision. -/
  protocol : s.protocol.isSome = true → s.state = "connected"
  /-- The time between heartbeats. -/
  tickInterval : s.tickIntervalMs.isSome = true → s.state = "connected"
  /-- When it was accepted. -/
  since : s.connectedSince.isSome = true → s.state = "connected"
  /-- Requests on their way. -/
  pending : 0 < s.pendingRequests → s.state = "connected"

/-- What the phase does not have is not published. -/
theorem Connection.InPhase.isHonest {c : Connection} (h : c.InPhase) : c.status.IsHonest := by
  rcases c.phase_cases with hp | ⟨s, hp⟩ | hp
  · have hd := h.isDown hp
    constructor <;> simp [status, hd.hello, hd.since, hd.outstanding, Table.size, Table.empty]
  · have hr := h.isRising hp
    constructor <;> simp [status, hr.hello, hr.since, hr.outstanding, Table.size, Table.empty]
  · have hs : c.status.state = "connected" := by simp [status, stateName, (h.isUp hp).alive, hp]
    exact ⟨fun _ => hs, fun _ => hs, fun _ => hs, fun _ => hs, fun _ => hs⟩

/-! ### Every run -/

/-- **What is true of a supervisor at every moment.** `tried` says that it has made an attempt. -/
structure Orderly (tried : Prop) (c : Connection) : Prop where
  /-- Without a connection and without an attempt nothing of either is there. -/
  disconnected : c.phase = .disconnected → c.link = none ∧ c.hello = none ∧ c.connectDeadline = none ∧
    c.watchdogDeadline = none ∧ c.outstanding.size = 0 ∧ c.waiters = []
  /-- An attempt has a deadline, and a socket once it has been dialed. -/
  connecting : ∀ s, c.phase = .connecting s → c.connectDeadline.isSome = true ∧
    c.watchdogDeadline = none ∧ c.reconnectAt = none ∧ c.hello = none ∧ c.outstanding.size = 0 ∧
    (c.link.isSome = true ↔ s ≠ .dialing)
  /-- A connection has a socket and a hello, and is watched; nobody waits for it any more. -/
  connected : c.phase = .connected → c.link.isSome = true ∧ c.hello.isSome = true ∧
    c.connectedSince.isSome = true ∧ c.watchdogDeadline.isSome = true ∧ c.connectDeadline = none ∧
    c.reconnectAt = none ∧ c.waiters = [] ∧ c.backoff.attempts = 0
  /-- After an attempt there is always a next one. -/
  scheduled : c.phase = .disconnected → c.isDestroyed = false → tried → c.reconnectAt.isSome = true
  /-- After the client was shut down there is none. -/
  shutDown : c.isDestroyed = true → c.reconnectAt = none
  /-- What is published of it says so. -/
  published : c.status.IsHonest

/-- What belongs to the phase makes a supervisor orderly. -/
theorem Connection.InPhase.orderly {c : Connection} {tried : Prop} (h : c.InPhase)
    (ht : tried → c.epoch ≠ 0) : Orderly tried c where
  disconnected hp := by
    have hd := h.isDown hp
    exact ⟨hd.link, hd.hello, hd.connectDeadline, hd.watchdog, by rw [hd.outstanding]; rfl, hd.waiters⟩
  connecting s hp := by
    have hr := h.isRising hp
    refine ⟨hr.connectDeadline, hr.watchdog, hr.reconnect, hr.hello, by rw [hr.outstanding]; rfl, ?_⟩
    rw [hr.link]
    split <;> simp_all
  connected hp := by
    have hu := h.isUp hp
    exact ⟨by rw [hu.link]; rfl, hu.hello, hu.since, hu.watchdog, hu.connectDeadline, hu.reconnect,
      hu.waiters, hu.attempts⟩
  scheduled hp hd htried := (h.isDown hp).reconnect.2 ⟨ht htried, hd⟩
  shutDown hd := by
    rcases c.phase_cases with hp | ⟨s, hp⟩ | hp
    · by_contra hr
      have hs := (h.isDown hp).reconnect.1 (Option.isSome_iff_ne_none.2 hr)
      exact absurd (hd.symm.trans hs.2) (by decide)
    · exact (h.isRising hp).reconnect
    · exact (h.isUp hp).reconnect
  published := h.isHonest

/-- In the run the supervisor has made an attempt. -/
def HasTried (p : Profile) (moves : List Move) : Prop :=
  ∃ before after s, moves = before ++ after ∧
    ((Client.new p).run before).connection.phase = .connecting s

/-- An attempt leaves its number behind. -/
theorem epoch_ne_zero_of_hasTried {p : Profile} {moves : List Move} (h : HasTried p moves) :
    ((Client.new p).run moves).connection.epoch ≠ 0 := by
  obtain ⟨before, after, s, rfl, hs⟩ := h
  have hb := Client.sound_run p before
  have hne := (hb.phase.isRising hs).epoch
  have hle := hb.epoch_le_run after
  rw [Client.run_append]
  omega

/-- **Every phase has what belongs to it**: after every run of a client, whatever callers, readers, sockets
and deadlines did and in whatever order, the supervisor has the socket, the hello, the deadlines, the
requests and the waiting callers of its phase and no others; the next attempt is scheduled whenever an
attempt or connection has ended, and none after the client was shut down; and what is published of the
connection agrees with it. -/
theorem orderly_run (p : Profile) (moves : List Move) :
    Orderly (HasTried p moves) ((Client.new p).run moves).connection :=
  (Client.sound_run p moves).phase.orderly epoch_ne_zero_of_hasTried

end TurnRelay.Gateway
