import TurnRelay.Proofs.Gateway.Courses

/-!
# The schedule of attempts

After each attempt that fails, and after each connection that is lost, the supervisor waits before the next attempt:
first for the base delay, then each time twice as long, up to the cap. A hello starts the schedule anew. The schedule
does not count: it keeps the next delay, doubled and cut off at the cap and at the longest span there is. That comes to
the same, also where the base is above the cap, or where twice a delay would be longer than any span.

What the supervisor asks of its schedule can be seen from outside. It asks for a delay when an attempt or connection is
lost, for whatever reason, and starts anew when it is connected; attempts that callers bring about do not matter. A
delay can be so long that the clock cannot tell when it is over. Then the supervisor fails as it sets that deadline, and
nothing is due any more.

## The model

* `Backoff.Use`, `Backoff.after`, `Backoff.sinceReset` — uses of a schedule, what becomes of it, and how many delays
  it has given since it began anew.
* `Client.use?`, `Client.used?` — what a move asks of the schedule, seen from outside, in a run and by the clock.
* `Client.LosesAt` — what ends an attempt or connection, other than a shutdown, is taken at a time.

## What is proved

* `Backoff.stands_after` — what a schedule gives after any uses.
* `Paced`, `backoff_schedule` — in every course, when the next attempt is due, and what is published of it.
-/

namespace TurnRelay

/-! ### Spans -/

theorem Span.nanos_shorter (a b : Span) : (a.shorter b).nanos = min a.nanos b.nanos := by
  unfold Span.shorter
  split
  · rename_i h
    exact (Nat.min_eq_left h).symm
  · rename_i h
    exact (Nat.min_eq_right (Nat.le_of_not_le h)).symm

theorem Span.nanos_double (s : Span) : s.double.nanos = min (2 * s.nanos) maxNanos := rfl

namespace Gateway

/-! ### What a schedule gives -/

namespace Backoff

/-- What can be asked of a schedule. -/
inductive Use where
  /-- The next delay. -/
  | next
  /-- To begin anew. -/
  | reset
  deriving DecidableEq, Repr

/-- What becomes of a schedule. -/
def use (b : Backoff) : Use → Backoff
  | .next => b.next.2
  | .reset => b.reset

/-- What becomes of a new schedule. -/
def after (base cap : Span) (uses : List Use) : Backoff := uses.foldl use (new base cap)

/-- How many delays a schedule has given since it began anew, if it had given so many before. -/
def Use.count (k : Nat) : Use → Nat
  | .next => k + 1
  | .reset => 0

/-- How many delays a new schedule has given since it began anew. -/
def sinceReset (uses : List Use) : Nat := uses.foldl Use.count 0

/-- The delay after so many others: the base, doubled each time, but not longer than the cap. -/
def delay (base cap : Span) (k : Nat) : Nat := min (base.nanos * Nat.pow 2 k) cap.nanos

/-- **Where a schedule stands** that has given so many delays since it began anew. -/
structure Stands (base cap : Span) (k : Nat) (b : Backoff) : Prop where
  /-- It keeps its base. -/
  base_eq : b.base = base
  /-- It keeps its cap. -/
  cap_eq : b.cap = cap
  /-- It has counted them. -/
  count : b.count = UInt32.ofNat k
  /-- The delay that it keeps, cut off at the cap, is the one that is due. -/
  current : min b.current.nanos cap.nanos = delay base cap k

variable {base cap : Span} {k : Nat} {b : Backoff}

theorem stands_new (base cap : Span) : (new base cap).Stands base cap 0 :=
  ⟨rfl, rfl, rfl, by rw [delay]; simp [new]⟩

/-- The number of delays is told in 32 bits. -/
theorem Stands.attempts (h : b.Stands base cap k) : b.attempts = k % UInt32.size := by
  rw [Backoff.attempts, h.count, UInt32.toNat_ofNat']

/-- The next delay is the one that is due. -/
theorem Stands.next (h : b.Stands base cap k) : b.next.1.nanos = delay base cap k := by
  rw [Backoff.next, Span.nanos_shorter, h.cap_eq]
  exact h.current

/-- Twice the delay that is kept, cut off at the longest span, is still right: the cap is not longer than that. -/
theorem Stands.use (h : b.Stands base cap k) (u : Use) : (b.use u).Stands base cap (u.count k) := by
  cases u with
  | reset => exact ⟨h.base_eq, h.cap_eq, rfl, by rw [← h.base_eq]; exact (stands_new b.base cap).current⟩
  | next =>
    have hcount : b.count + 1 = UInt32.ofNat (k + 1) := by rw [h.count, UInt32.ofNat_add, UInt32.ofNat_one]
    refine ⟨h.base_eq, h.cap_eq, hcount, ?_⟩
    have hcurrent := h.current
    have hcap := cap.bounded
    have hpow : base.nanos * Nat.pow 2 (k + 1) = 2 * (base.nanos * Nat.pow 2 k) := by
      rw [show Nat.pow 2 (k + 1) = Nat.pow 2 k * 2 from rfl, ← Nat.mul_assoc, Nat.mul_comm]
    show min (b.current.double.shorter b.cap).nanos cap.nanos = min (base.nanos * Nat.pow 2 (k + 1)) cap.nanos
    rw [Span.nanos_shorter, Span.nanos_double, h.cap_eq, hpow]
    rw [delay] at hcurrent
    omega

/-- **What a schedule gives after any uses.** -/
theorem stands_after (base cap : Span) (uses : List Use) : (after base cap uses).Stands base cap (sinceReset uses) := by
  induction uses using List.reverseRecOn with
  | nil => exact stands_new base cap
  | append_singleton uses u ih =>
    rw [after, sinceReset, List.foldl_append, List.foldl_append]
    exact ih.use u

end Backoff

/-! ### What the supervisor asks for -/

namespace Connection

/-- What has been asked of the schedule when a connection has become another, seen from outside: the next delay if an
attempt or connection was lost and the client was not shut down, and to begin anew if the client got connected. -/
def use? (c c' : Connection) : Option Backoff.Use :=
  if c.phase ≠ .disconnected ∧ c'.phase = .disconnected ∧ c'.isDestroyed = false then some .next
  else if c.phase ≠ .connected ∧ c'.phase = .connected then some .reset
  else none

/-- All that an input can do to the schedule. -/
inductive Paces (env : Surroundings) (c : Connection) (i : Input) (c' : Connection) : Option Backoff.Use → Prop where
  /-- The present attempt or connection ends, and the next attempt is due after a delay. -/
  | loses {fault : Fault} : Ends env c i fault → c' = c.rescheduled env.now → Paces env c i c' (some .next)
  /-- The gateway accepts the client. -/
  | enters {t id : String} {payload : Option Json} {error : Option Wire.Failure} {hello : Wire.Hello} :
      i = .report c.epoch (.text t) → Tidings.ofText t = .response id true payload error →
      c.phase = .connecting (.awaitingHello id) → payload.bind Wire.Hello.ofPayload? = some hello →
      c'.backoff = c.backoff.reset → Paces env c i c' (some .reset)
  /-- Nothing of the kind. -/
  | keeps : c'.backoff = c.backoff → Paces env c i c' none

variable {env : Surroundings} {p : Profile} {c c' : Connection} {i : Input} {es : List Effect}

theorem use?_of_phase_eq (h : c'.phase = c.phase) : c.use? c' = none := by
  rw [use?, h, if_neg fun hl => hl.1 hl.2.1, if_neg fun he => he.1 he.2]

theorem use?_of_rising {s : Handshake} (h : c'.phase = .connecting s) : c.use? c' = none := by
  rw [use?, h, if_neg fun hl => Phase.noConfusion hl.2.1, if_neg fun he => Phase.noConfusion he.2]

theorem use?_of_entered (hp : c.phase ≠ .connected) (hp' : c'.phase = .connected) : c.use? c' = some .reset := by
  rw [use?, hp', if_neg fun hl => Phase.noConfusion hl.2.1, if_pos ⟨hp, rfl⟩]

theorem use?_destroyed : c.use? c.destroyed = none := by
  rw [use?, if_neg fun hl => Bool.noConfusion hl.2.2, if_neg fun he => Phase.noConfusion he.2]

theorem paces_of_phase_eq (h : c'.phase = c.phase) (hb : c'.backoff = c.backoff) : Paces env c i c' (c.use? c') := by
  rw [use?_of_phase_eq h]
  exact .keeps hb

/-- What ends an attempt or connection comes only when there is one. -/
theorem phase_ne_of_ends {fault : Fault} (hx : c.Expects i) (h : Ends env c i fault) : c.phase ≠ .disconnected := by
  intro hp
  cases h with
  | refused => exact hx.2 hp rfl
  | closedEarly hq => rw [hp] at hq; cases hq
  | closed hq => rw [hp] at hq; cases hq
  | slow hq => rw [hp] at hq; cases hq
  | silent hq => rw [hp] at hq; cases hq
  | unsent _ hq => rw [hp] at hq; cases hq
  | rejected _ hq => rw [hp] at hq; cases hq
  | unexpected _ hq => rw [hp] at hq; cases hq

/-- **What the supervisor asks of its schedule can be seen from outside.** -/
theorem paces_of_acts (hd : c.isDestroyed = false) (hx : c.Expects i) (ha : Acts env p c i c' es) :
    Paces env c i c' (c.use? c') := by
  cases ha with
  | attempts =>
    rw [use?_of_rising rfl]
    exact .keeps rfl
  | opens =>
    cases hp : c.phase with
    | connecting s =>
      rw [use?_of_rising (s := .awaitingChallenge) rfl]
      exact .keeps rfl
    | disconnected => exact paces_of_phase_eq hp.symm rfl
    | connected => exact paces_of_phase_eq hp.symm rfl
  | greets =>
    rw [use?_of_rising rfl]
    exact .keeps rfl
  | enters ht hp hh =>
    have hne : c.phase ≠ .connected := by simp [hp]
    rw [use?_of_entered hne rfl]
    exact .enters rfl ht hp hh rfl
  | ends he =>
    have hlost : c.phase ≠ .disconnected ∧ (c.rescheduled env.now).phase = .disconnected ∧
        (c.rescheduled env.now).isDestroyed = false := ⟨phase_ne_of_ends hx he, rfl, hd⟩
    rw [use?, if_pos hlost]
    exact .loses he rfl
  | destroys =>
    rw [use?_destroyed]
    exact .keeps rfl
  | deserts =>
    rw [use?_destroyed]
    exact .keeps rfl
  | _ => exact paces_of_phase_eq rfl rfl

theorem handle_failed (env : Surroundings) (p : Profile) (c : Connection) (reason : String) :
    c.handle env p (.report c.epoch (.failed reason)) = c.disconnect env (.transport reason) := by
  unfold handle report
  exact if_neg fun h => h rfl

theorem handle_closed (env : Surroundings) (p : Profile) (c : Connection) (reason : String) :
    c.handle env p (.report c.epoch (.closed reason)) =
      match c.phase with
      | .connecting _ => c.disconnect env (.transport ("closed during handshake: " ++ reason))
      | .connected => c.disconnect env .connectionLost
      | .disconnected => (c, []) := by
  unfold handle report
  exact if_neg fun h => h rfl

theorem handle_text (env : Surroundings) (p : Profile) (c : Connection) (t : String) :
    c.handle env p (.report c.epoch (.text t)) = c.hear env p (Tidings.ofText t) := by
  unfold handle report
  exact (if_neg fun h => h rfl).trans (text_eq_hear env p t c)

/-- What ends an attempt or connection does so, and the next attempt is scheduled. -/
theorem handle_of_ends {fault : Fault} (hd : c.isDestroyed = false) (h : Ends env c i fault) :
    (c.handle env p i).1 = c.rescheduled env.now := by
  have hend : ∀ fault, (c.disconnect env fault).1 = c.rescheduled env.now := fun fault => by
    rw [disconnect_eq env fault hd]
  cases h with
  | refused => rw [handle_failed, hend]
  | closedEarly hp => rw [handle_closed, hp, hend]
  | closed hp => rw [handle_closed, hp, hend]
  | slow hp => simp [handle, alarm, hp, disconnect, hd, rescheduled, cleared]
  | silent hp => simp [handle, alarm, hp, disconnect, hd, rescheduled, cleared]
  | unsent ht hp hl hu =>
    rw [handle_text, ht]
    simp only [hear, hp, sendConnect, hl, hu, Bool.false_eq_true, if_false, hend]
  | rejected ht hp hh =>
    rw [handle_text, ht]
    simp only [hear, response, hp, if_true, finishHandshake, hh, hend]
  | @unexpected t id ok payload error s ht hp hs =>
    rw [handle_text, ht]
    cases s with
    | dialing => simp only [hear, response, hp, hend]
    | awaitingChallenge => simp only [hear, response, hp, hend]
    | awaitingHello expected =>
      have hne : id ≠ expected := fun he => hs (he ▸ rfl)
      simp only [hear, response, hp, if_neg hne, hend]

/-- The hello makes a connection. -/
theorem handle_of_hello {t id : String} {payload : Option Json} {error : Option Wire.Failure} {hello : Wire.Hello}
    (ht : Tidings.ofText t = .response id true payload error) (hp : c.phase = .connecting (.awaitingHello id))
    (hh : payload.bind Wire.Hello.ofPayload? = some hello) :
    (c.handle env p (.report c.epoch (.text t))).1.phase = .connected := by
  rw [handle_text, ht]
  simp only [hear, response, hp, if_true, finishHandshake, hh, armWatchdog]

end Connection

/-! ### Every run -/

namespace Client

/-- What a move asks of the schedule, seen from outside. -/
def use? (c : Client) (m : Move) : Option Backoff.Use := c.connection.use? (c.move m).connection

variable {c : Client} {m : Move}

theorem use?_of_idle (h : c.cue? m = none) : c.use? m = none := by
  rw [use?, connection_of_idle h]
  exact Connection.use?_of_phase_eq rfl

/-- What the supervisor takes in a move and what the move asks of the schedule. -/
theorem Sound.paces (h : c.Sound) {x : Cue} (hx : c.cue? m = some x) :
    Connection.Paces (c.surroundings x.now x.freshId) c.connection x.input (c.move m).connection (c.use? m) := by
  have ha := h.acts hx
  rw [use?, connection_of_cue? hx]
  exact Connection.paces_of_acts (h.isDestroyed_eq_false (isRunning_of_cue? hx)) (h.expects hx) ha

/-- The schedule does what it is asked for, and nothing else. -/
theorem Sound.backoff_move (h : c.Sound) (m : Move) :
    (c.move m).connection.backoff = ((c.use? m).toList.foldl Backoff.use c.connection.backoff) := by
  cases hx : c.cue? m with
  | none =>
    rw [use?_of_idle hx, connection_of_idle hx]
    rfl
  | some x =>
    have hp := h.paces hx
    generalize c.use? m = u at hp
    cases hp with
    | loses _ hc => rw [hc]; rfl
    | enters _ _ _ _ hb => exact hb
    | keeps hb => exact hb

/-- What ends an attempt or connection, other than a shutdown, is taken at a time. -/
def LosesAt (c : Client) (m : Move) (now : Nat) : Prop := ∃ x fault, c.cue? m = some x ∧ x.now = now ∧
  Ends (c.surroundings x.now x.freshId) c.connection x.input fault

/-- The hello is taken that the client waits for. -/
def GetsIn (c : Client) (m : Move) : Prop := ∃ x epoch id, c.cue? m = some x ∧ c.Welcomes x epoch id

/-- When an attempt or connection is lost, the next attempt is due after the next delay. -/
theorem Sound.connection_of_loses {now : Nat} (h : c.Sound) (hl : c.LosesAt m now) :
    (c.move m).connection = c.connection.rescheduled now := by
  obtain ⟨x, fault, hx, rfl, he⟩ := hl
  exact (connection_of_cue? hx).trans
    (Connection.handle_of_ends (h.isDestroyed_eq_false (isRunning_of_cue? hx)) he)

/-- The next delay is asked for by what ends an attempt or connection. -/
theorem Sound.use?_eq_next_iff (h : c.Sound) : c.use? m = some .next ↔ ∃ now, c.LosesAt m now := by
  constructor
  · intro hu
    cases hx : c.cue? m with
    | none =>
      rw [use?_of_idle hx] at hu
      cases hu
    | some x =>
      have hp := h.paces hx
      rw [hu] at hp
      cases hp with
      | loses he _ => exact ⟨x.now, x, _, hx, rfl, he⟩
  · rintro ⟨now, hl⟩
    have hc := h.connection_of_loses hl
    obtain ⟨x, fault, hx, -, he⟩ := hl
    rw [use?, hc]
    exact if_pos ⟨Connection.phase_ne_of_ends (h.expects hx) he, rfl, h.isDestroyed_eq_false (isRunning_of_cue? hx)⟩

/-- A new beginning is asked for by the hello. -/
theorem Sound.use?_eq_reset_iff (h : c.Sound) : c.use? m = some .reset ↔ c.GetsIn m := by
  constructor
  · intro hu
    cases hx : c.cue? m with
    | none =>
      rw [use?_of_idle hx] at hu
      cases hu
    | some x =>
      have hp := h.paces hx
      rw [hu] at hp
      cases hp with
      | enters hi ht hq hh => exact ⟨x, _, _, hx, welcomes_of_ofText hi ht hq hh⟩
  · rintro ⟨x, epoch, id, hx, ⟨t, payload, error, hello, hi, hf, hdecode, htag⟩, rfl, hq⟩
    have hh : (some payload).bind Wire.Hello.ofPayload? = some hello := by
      simp only [Option.bind_some, Wire.Hello.ofPayload?, hdecode]
      exact if_pos htag
    have hphase : (c.move m).connection.phase = .connected := by
      rw [connection_of_cue? hx, outcome, hi]
      exact Connection.handle_of_hello (Tidings.ofText_eq_response_iff.2 hf) hq hh
    exact Connection.use?_of_entered (by simp [hq]) hphase

end Client

/-! ### Every course -/

/-- A delay in milliseconds of 64 bits ends at a moment that the clock can tell, unless half of its time has passed. -/
theorem tells_of_millis (base : Span) (ms : UInt64) (k : Nat) {now : Nat} (h : now ≤ Clock.last / 2) :
    Clock.tells (now + Backoff.delay base (.ofMillis ms.toNat) k) = true := by
  have hdelay : Backoff.delay base (.ofMillis ms.toNat) k ≤ ms.toNat * nanosPerMilli :=
    Nat.le_trans (Nat.min_le_right _ _) (Nat.min_le_left _ _)
  have hms := ms.toNat_lt
  have hlast : Clock.last = 9223372036854775807999999999 := rfl
  rw [nanosPerMilli] at hdelay
  exact decide_eq_true (by omega)

/-- After a loss only the next attempt has a deadline. -/
theorem Connection.isTimely_rescheduled (c : Connection) (now : Nat) :
    (c.rescheduled now).isTimely = Clock.tells (now + c.backoff.next.1.nanos) := by
  simp [isTimely, deadlines, rescheduled, cleared]

namespace Client

/-- What a move asks of the schedule by the clock, seen from outside. -/
def used? (c : Client) (m : Move) : Option Backoff.Use := c.connection.use? (c.go m).connection

variable {c : Client} {m : Move}

theorem used?_of_keeps (h : c.fails m = false) : c.used? m = c.use? m := by
  rw [used?, go_of_keeps h]
  rfl

theorem used?_of_collapsed (h : Collapsed c (c.go m)) : c.used? m = none :=
  Connection.use?_of_phase_eq (by rw [h.connection])

theorem keeps_of_used? {u : Backoff.Use} (h : c.used? m = some u) : c.fails m = false := by
  by_contra hf
  rw [used?_of_collapsed (collapsed_of_fails (by simpa using hf))] at h
  cases h

/-- By the clock a move asks for the same, unless the supervisor fails. -/
theorem used?_eq_some_iff {u : Backoff.Use} : c.used? m = some u ↔ c.use? m = some u ∧ c.fails m = false := by
  refine ⟨fun h => ⟨?_, keeps_of_used? h⟩, fun h => (used?_of_keeps h.2).trans h.1⟩
  rw [← used?_of_keeps (keeps_of_used? h), h]

/-- The supervisor fails over a loss if the clock cannot tell when the next attempt is due. -/
theorem Sound.fails_of_loses {now : Nat} (h : c.Sound) (hl : c.LosesAt m now) :
    c.fails m = ! Clock.tells (now + c.connection.backoff.next.1.nanos) := by
  rw [fails, h.connection_of_loses hl, Connection.isTimely_rescheduled]

/-- The supervisor does not stop over a loss. -/
theorem isRunning_move_of_loses {now : Nat} (hl : c.LosesAt m now) : (c.move m).isRunning = true := by
  obtain ⟨x, fault, hx, -, he⟩ := hl
  have hlast : x.input.isLast = false := by
    generalize x.input = i at he
    cases he <;> rfl
  rw [move_of_cue? hx, handle_eq, isRunning_of_cue? hx, hlast]
  rfl

end Client

/-- What has been asked of the schedule in a course. -/
def uses (p : Profile) (moves : List Move) : List Backoff.Use := (Client.new p).recount Client.used? moves

/-- The schedule is that of the uses that were seen. -/
theorem backoff_course (p : Profile) (moves : List Move) :
    (Client.course p moves).connection.backoff = Backoff.after p.backoffBase p.backoffCap (uses p moves) := by
  induction moves using List.reverseRecOn with
  | nil => rfl
  | append_singleton moves m ih =>
    rw [Client.course, Client.pursue_concat, uses, Client.recount_concat, Backoff.after, List.foldl_append]
    rw [uses, Backoff.after] at ih
    rw [← ih]
    show ((Client.course p moves).go m).connection.backoff =
      ((Client.course p moves).used? m).toList.foldl Backoff.use (Client.course p moves).connection.backoff
    have ht := Client.isTimely_course p moves
    cases hx : (Client.course p moves).cue? m with
    | none =>
      have hf := Client.fails_of_idle ht hx
      rw [Client.used?_of_keeps hf, Client.use?_of_idle hx, Client.go_of_keeps hf, Client.connection_of_idle hx]
      rfl
    | some x =>
      rw [Client.course_of_running (Client.isRunning_of_cue? hx)]
      cases hf : (Client.after p moves).fails m with
      | false =>
        rw [Client.used?_of_keeps hf, Client.go_of_keeps hf]
        exact (Client.sound_run p moves).backoff_move m
      | true =>
        have hc := Client.collapsed_of_fails hf
        rw [Client.used?_of_collapsed hc, hc.connection]
        rfl

open Client

/-- **The pace of the attempts**, at any moment of a course in which so many attempts or connections have been lost
since the last hello that was accepted. -/
structure Paced (c : Client) (k : Nat) : Prop where
  /-- Their number is published, in 32 bits. -/
  attempts : c.connection.status.reconnectAttempts.toNat = k % UInt32.size
  /-- When the next one is lost, the next attempt is due after the base delay, doubled as often, or the cap, if the
  clock can tell when that is. -/
  due : ∀ m now, c.LosesAt m now →
    Clock.tells (now + min (c.profile.backoffBase.nanos * Nat.pow 2 k) c.profile.backoffCap.nanos) = true →
    (c.go m).isRunning = true ∧ (c.go m).connection.phase = .disconnected ∧ (c.go m).connection.reconnectAt =
      some (now + min (c.profile.backoffBase.nanos * Nat.pow 2 k) c.profile.backoffCap.nanos)
  /-- If it cannot, the supervisor fails. -/
  fails : ∀ m now, c.LosesAt m now →
    Clock.tells (now + min (c.profile.backoffBase.nanos * Nat.pow 2 k) c.profile.backoffCap.nanos) = false →
    Collapsed c (c.go m)
  /-- The next one is counted as it is lost, unless the supervisor fails, and nothing else is. -/
  loses : ∀ m, c.used? m = some .next ↔ (∃ now, c.LosesAt m now) ∧ c.fails m = false
  /-- They are forgotten as a hello is accepted, unless the supervisor fails, and otherwise not. -/
  enters : ∀ m, c.used? m = some .reset ↔ c.GetsIn m ∧ c.fails m = false

/-- A client whose supervisor follows its schedule keeps the pace. -/
theorem Client.Sound.paced {c : Client} {k : Nat} (h : c.Sound)
    (hstands : c.connection.backoff.Stands c.profile.backoffBase c.profile.backoffCap k) : Paced c k where
  attempts := hstands.attempts
  due m now hl ht := by
    have hf : c.fails m = false := by
      rw [h.fails_of_loses hl, hstands.next]
      exact congrArg Bool.not ht
    rw [go_of_keeps hf, h.connection_of_loses hl]
    refine ⟨isRunning_move_of_loses hl, rfl, ?_⟩
    show some (now + c.connection.backoff.next.1.nanos) = _
    rw [hstands.next]
    rfl
  fails m now hl ht := collapsed_of_fails (by
    rw [h.fails_of_loses hl, hstands.next]
    exact congrArg Bool.not ht)
  loses m := by rw [used?_eq_some_iff, h.use?_eq_next_iff]
  enters m := by rw [used?_eq_some_iff, h.use?_eq_reset_iff]

/-- Every course keeps the pace. Once the supervisor has stopped or failed, nothing is lost any more. -/
theorem paced_course (p : Profile) (moves : List Move) :
    Paced (course p moves) (Backoff.sinceReset (uses p moves)) := by
  have hstands := Backoff.stands_after p.backoffBase p.backoffCap (uses p moves)
  rw [← backoff_course] at hstands
  cases hr : (course p moves).isRunning with
  | true =>
    have hrun := course_of_running hr
    have hprofile : (course p moves).profile = p := by rw [hrun, profile_run]
    have hsound : (course p moves).Sound := by rw [hrun]; exact sound_run p moves
    exact hsound.paced (by rw [hprofile]; exact hstands)
  | false =>
    have hidle := cue?_of_not_running hr
    have hno : ∀ m x, (course p moves).cue? m ≠ some x := fun m x => by simp [hidle m]
    have hlost : ∀ m now, ¬ (course p moves).LosesAt m now := by
      rintro m now ⟨x, fault, hx, -⟩
      exact hno m x hx
    have hin : ∀ m, ¬ (course p moves).GetsIn m := by
      rintro m ⟨x, epoch, id, hx, -⟩
      exact hno m x hx
    have hnone : ∀ m u, (course p moves).used? m ≠ some u := fun m u hu => by
      rw [used?_of_keeps (keeps_of_used? hu), use?_of_idle (hidle m)] at hu
      cases hu
    exact
      { attempts := hstands.attempts
        due := fun m now hl => absurd hl (hlost m now)
        fails := fun m now hl => absurd hl (hlost m now)
        loses := fun m => iff_of_false (hnone m _) fun h => h.1.elim fun now hl => hlost m now hl
        enters := fun m => iff_of_false (hnone m _) fun h => hin m h.1 }

-- Doubled up to the cap, and from the base again.
example : (List.range 7).map (fun k => (Backoff.after (.ofSeconds 1) (.ofSeconds 30)
    (List.replicate k .next)).next.1) = [1, 2, 4, 8, 16, 30, 30].map Span.ofSeconds := by decide +kernel

-- A delay of a day is waited for, and the longest one is not.
example : ([.ofSeconds 86400, .ofNanos maxNanos].map fun base =>
    let c := course { localProfile with backoffBase := base, backoffCap := base }
      [Move.connect 0, Move.takeCommand 0 "hello", Move.refused 1 "refused", Move.takeReport 0 "hello"]
    (c.isRunning, c.connection.reconnectAt)) =
      [(true, some (86400 * nanosPerSecond)), (false, none)] := by decide +kernel

end Gateway

end TurnRelay
