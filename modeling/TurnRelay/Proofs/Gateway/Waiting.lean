import TurnRelay.Proofs.Gateway.Handshake

/-!
# Those who wait for a connection

A caller who asks to be connected is told at once that there is a connection, or waits for the attempt that is
under way, or begins one and waits for that. Several may wait for the same attempt; how it ends, they learn
together. A caller may have gone away by then, or have waited too long by its own clock; the supervisor does not
know and answers all the same.

The ticket of such a caller is in the queue of commands, then among those who wait, then answered, and never in two
of these places: `Seeks` counts them. Who waits for the present attempt is a fact of the past, `ParkedOn`; that the
list of the waiting agrees with it at every moment is what keeps a caller from being carried over to a later
attempt, or forgotten.

## The model

* `Client.Verdict` — what those who wait are told when their attempt ends, by what ends it.
* `Sought`, `ParkedOn` — a caller has asked to be connected, and has come to wait for an attempt.
* `Client.answers` — what the supervisor answers to a ticket in a run.
* `Comes` — what a call to be connected comes to, and why.

## What is proved

* `exists_verdict` — the end of an attempt answers all who wait for it, and all alike.
* `shared_run` — in every run the callers who ask to be connected share the fate of one attempt.
-/

namespace TurnRelay.Gateway

/-! ### How an attempt ends -/

/-- What those who wait for an attempt are told when it ends, by what ends it, and the phase afterwards. -/
inductive Client.Verdict (c : Client) (x : Cue) : Phase → Answer → Prop where
  /-- The gateway accepts the client. -/
  | accepted {id : String} : c.Welcomes x c.connection.epoch id → Verdict c x .connected (.ok .null)
  /-- The handshake takes too long. -/
  | slow : x.input = .alarm .connect → Verdict c x .disconnected (.error .connectTimeout)
  /-- A response comes that does not accept the client. -/
  | rejected {t id reason : String} {ok : Bool} {payload : Option Json} {error : Option Wire.Failure} :
      x.input = .report c.connection.epoch (.text t) →
      Wire.Frame.parse? t = some (.response id ok payload error) →
      (∀ epoch id, ¬ c.Welcomes x epoch id) → Verdict c x .disconnected (.error (.connectRejected reason))
  /-- The socket cannot be opened. -/
  | refused {reason : String} : x.input = .report c.connection.epoch (.failed reason) →
      Verdict c x .disconnected (.error (.transport reason))
  /-- The socket is closed. -/
  | closed {reason : String} : x.input = .report c.connection.epoch (.closed reason) →
      Verdict c x .disconnected (.error (.transport ("closed during handshake: " ++ reason)))
  /-- The socket is gone as the challenge is to be answered. -/
  | unsent : c.Challenges x c.connection.epoch → c.sockets.isOpen c.connection.epoch = false →
      Verdict c x .disconnected (.error (.transport ("failed to send connect: " ++ Fault.connectionLost.message)))
  /-- The client is shut down, by a caller or as nobody holds it. -/
  | destroyed : x.input.isLast = true → Verdict c x .disconnected (.error .destroyed)

/-! ### What a step answers -/

theorem filterMap_answer?_map (n : Nat) (a : Answer) (l : List Nat) :
    (l.map fun k => Effect.answer k a).filterMap (Effect.answer? n) = List.replicate (l.count n) a := by
  induction l with
  | nil => rfl
  | cons k l ih =>
    by_cases hk : k = n
    · subst hk
      simp [Effect.answer?, ih, List.replicate_succ]
    · simp [Effect.answer?, ih, hk]

namespace Connection

variable {env : Surroundings} {p : Profile} {c c' : Connection} {i : Input} {es : List Effect} {n : Nat}

/-- At an end the tickets of those who wait are answered with the fault, if no request of theirs has gone out. -/
theorem filterMap_answer?_farewells (fault : Fault) (hn : n ∉ c.outstanding.tickets) :
    (c.farewells fault).filterMap (Effect.answer? n) =
      List.replicate (c.waiters.count n) (.error fault) := by
  have hlink : ((c.link.map Effect.close).toList).filterMap (Effect.answer? n) = [] := by
    cases c.link <;> rfl
  rw [farewells, List.filterMap_append, List.filterMap_append, hlink, filterMap_answer?_map,
    filterMap_answer?_map, List.count_eq_zero.2 hn]
  rfl

/-- Only those wait who wait for an attempt. -/
theorem InPhase.connecting_of_mem_waiters (h : c.InPhase) (hn : n ∈ c.waiters) :
    ∃ s, c.phase = .connecting s := by
  obtain hp | ⟨s, hp⟩ | hp := c.phase_cases
  · rw [(h.isDown hp).waiters] at hn
    cases hn
  · exact ⟨s, hp⟩
  · rw [(h.isUp hp).waiters] at hn
    cases hn

theorem InPhase.waiters_eq_nil (h : c.InPhase) (hp : ∀ s, c.phase ≠ .connecting s) : c.waiters = [] := by
  refine List.eq_nil_iff_forall_not_mem.2 fun n hn => ?_
  obtain ⟨s, hs⟩ := h.connecting_of_mem_waiters hn
  exact hp s hs

theorem InPhase.outstanding_eq_empty {s : Handshake} (h : c.InPhase) (hp : c.phase = .connecting s) :
    n ∉ c.outstanding.tickets := by
  rw [(h.isRising hp).outstanding]
  simp [Outstanding.tickets, Table.values, Table.empty]

/-- **A step that does not end an attempt answers nobody who waits for it**, nor does it make anybody wait but for
the caller whose command it takes. -/
theorem InPhase.waits_of_acts (h : c.InPhase) (ha : Acts env p c i c' es)
    (hgoes : (∀ s, c.phase ≠ .connecting s) ∨ ∃ s, c'.phase = .connecting s)
    (hi : ∀ cmd, i = .command cmd → cmd.ticket? ≠ some n) (hn : n ∉ c.outstanding.tickets) :
    c'.waiters.count n = c.waiters.count n ∧ es.filterMap (Effect.answer? n) = [] := by
  have hend : ∀ fault, c'.phase = .disconnected →
      0 = c.waiters.count n ∧ (c.farewells fault).filterMap (Effect.answer? n) = [] := by
    intro fault hp
    have hnone := h.waiters_eq_nil (hgoes.resolve_right (by simp [hp]))
    rw [filterMap_answer?_farewells fault hn, hnone]
    exact ⟨rfl, rfl⟩
  have hcommand : ∀ cmd k a, i = .command cmd → cmd.ticket? = some k →
      [Effect.answer k a].filterMap (Effect.answer? n) = [] := by
    intro cmd k a hcmd hk
    have hne : k ≠ n := fun he => hi cmd hcmd (he ▸ hk)
    simp [Effect.answer?, hne]
  cases ha with
  | admits => exact ⟨rfl, hcommand _ _ _ rfl rfl⟩
  | unsent => exact ⟨rfl, hcommand _ _ _ rfl rfl⟩
  | unconnected => exact ⟨rfl, hcommand _ _ _ rfl rfl⟩
  | @parks k =>
    have hne : k ≠ n := fun he => hi _ rfl (by rw [he]; rfl)
    exact ⟨by simp [hne], rfl⟩
  | attempts ht =>
    cases ht with
    | asked =>
      rename_i k hp
      have hne : k ≠ n := fun he => hi _ rfl (by rw [he]; rfl)
      exact ⟨by simp [hne], rfl⟩
    | due => exact ⟨by simp, rfl⟩
  | enters ht hp =>
    obtain hgoes | ⟨s, hs⟩ := hgoes
    · exact absurd hp (hgoes _)
    · cases hs
  | delivers => exact ⟨rfl, by simp [Effect.answer?]⟩
  | @answers _ _ _ _ _ r ht hp hr =>
    have hne : r.ticket ≠ n := by
      rintro rfl
      exact hn (List.mem_map.2 ⟨r, List.mem_map.2 ⟨_, Table.mem_of_get? hr, rfl⟩, rfl⟩)
    exact ⟨rfl, by simp [Effect.answer?, hne]⟩
  | ends => exact hend _ rfl
  | deserts => exact hend _ rfl
  | destroys =>
    obtain ⟨hcount, hnone⟩ := hend .destroyed rfl
    rw [List.filterMap_append, hnone, hcommand _ _ _ rfl rfl]
    exact ⟨hcount, rfl⟩
  | _ => exact ⟨rfl, by simp [Effect.answer?]⟩

/-- A caller who asks to be connected is told at once that there is a connection, or comes to wait. -/
theorem admits_or_parks (ha : Acts env p c (.command (.ensureConnected n)) c' es) :
    c.phase = .connected ∧ c' = c ∧ es = [.answer n (.ok .null)] ∨
      c.phase ≠ .connected ∧ c'.waiters = c.waiters ++ [n] ∧ (∃ s, c'.phase = .connecting s) ∧
        es.filterMap (Effect.answer? n) = [] := by
  cases ha with
  | passes hq => cases hq
  | ends hq => cases hq
  | admits hp => exact .inl ⟨hp, rfl, rfl⟩
  | parks hp => exact .inr ⟨by simp [hp], rfl, ⟨_, hp⟩, rfl⟩
  | attempts ht =>
    cases ht with
    | asked hp => exact .inr ⟨by simp [hp], rfl, ⟨_, rfl⟩, rfl⟩

/-- Who waits after a step: the attempt goes on, and the caller may have come whose command the step takes; or an
attempt begins, and nobody but that caller waits for it; or there is no attempt, and nobody waits. -/
theorem InPhase.waiters_of_acts (h : c.InPhase) (hx : c.Expects i) (ha : Acts env p c i c' es) :
    (c'.epoch = c.epoch ∧ ((∃ s, c'.phase = .connecting s) ↔ ∃ s, c.phase = .connecting s) ∧
        ∀ n, n ∈ c'.waiters ↔ n ∈ c.waiters ∨ i = .command (.ensureConnected n) ∧ c.phase ≠ .connected) ∨
      (c.epoch < c'.epoch ∧ (∃ s, c'.phase = .connecting s) ∧ c.phase ≠ .connected ∧
        ∀ n, n ∈ c'.waiters ↔ i = .command (.ensureConnected n)) ∨
      ((∀ s, c'.phase ≠ .connecting s) ∧ c'.waiters = []) := by
  cases ha with
  | admits hp => exact .inl ⟨rfl, Iff.rfl, fun n => by simp [hp]⟩
  | parks hp => exact .inl ⟨rfl, Iff.rfl, fun n => by simp [hp, eq_comm]⟩
  | attempts ht =>
    have hp := h.disconnected_of_attempts hx ht
    refine .inr (.inl ⟨Nat.lt_succ_self _, ⟨_, rfl⟩, by simp [hp], fun n => ?_⟩)
    rw [(h.isDown hp).waiters]
    cases ht with
    | asked => simp [eq_comm]
    | due => simp
  | opens =>
    refine .inl ⟨rfl, ?_, fun n => by simp⟩
    obtain hp | ⟨s, hp⟩ | hp := c.phase_cases <;> simp [hp]
  | greets ht hp => exact .inl ⟨rfl, by simp [hp], fun n => by simp⟩
  | enters => exact .inr (.inr ⟨fun s => by simp [armWatchdog], rfl⟩)
  | ends => exact .inr (.inr ⟨fun s => by simp [rescheduled, cleared], rfl⟩)
  | destroys => exact .inr (.inr ⟨fun s => by simp [destroyed, cleared], rfl⟩)
  | deserts => exact .inr (.inr ⟨fun s => by simp [destroyed, cleared], rfl⟩)
  | passes hq => cases hq <;> exact .inl ⟨rfl, Iff.rfl, fun n => by simp⟩
  | _ => exact .inl ⟨rfl, Iff.rfl, fun n => by simp [armWatchdog]⟩

end Connection

namespace Client

variable {c : Client} {m : Move} {x : Cue}

/-- A response that welcomes the client is the hello. -/
theorem Welcomes.of_response {t id id' : String} {epoch epoch' : Nat} {ok : Bool} {payload : Option Json}
    {error : Option Wire.Failure} (h : c.Welcomes x epoch id) (hi : x.input = .report epoch' (.text t))
    (ht : Tidings.ofText t = .response id' ok payload error) :
    id' = id ∧ (if ok then payload.bind Wire.Hello.ofPayload? else none) ≠ none := by
  obtain ⟨t', payload', error', hello, hi', hparse, hdecode, htag⟩ := h.hello
  cases hi.symm.trans hi'
  cases ht.symm.trans (Tidings.ofText_eq_response_iff.2 hparse)
  have hh : Wire.Hello.ofPayload? payload' = some hello := by
    unfold Wire.Hello.ofPayload?
    rw [hdecode]
    exact if_pos htag
  exact ⟨rfl, by simp [hh]⟩

/-- What ends an attempt tells those who wait for it what they are told. -/
theorem verdict_of_ends {s : Handshake} {fault : Fault} (hs : c.Sound)
    (hp : c.connection.phase = .connecting s)
    (h : Ends (c.surroundings x.now x.freshId) c.connection x.input fault) :
    c.Verdict x .disconnected (.error fault) := by
  generalize hi : x.input = i at h
  cases h with
  | refused => exact .refused hi
  | closedEarly => exact .closed hi
  | slow => exact .slow hi
  | closed hp' => cases hp.symm.trans hp'
  | silent hp' => cases hp.symm.trans hp'
  | @unsent t link ht hp' hl hu =>
    have hlink := (hs.phase.isRising hp').link
    rw [if_neg (by simp), hl] at hlink
    cases hlink
    exact .unsent (challenges_of_ofText hi ht hp') hu
  | rejected ht hp' hh =>
    refine .rejected hi (Tidings.ofText_eq_response_iff.1 ht) fun epoch id hw => ?_
    exact (hw.of_response hi ht).2 hh
  | unexpected ht hp' hne =>
    refine .rejected hi (Tidings.ofText_eq_response_iff.1 ht) fun epoch id hw => ?_
    obtain ⟨rfl, -⟩ := hw.of_response hi ht
    cases hp'.symm.trans hw.phase
    exact hne rfl

/-- **The end of an attempt answers all who wait for it, and all alike.** -/
theorem exists_verdict {s : Handshake} (hs : c.Sound) (hx : c.cue? m = some x)
    (hp : c.connection.phase = .connecting s) : (∃ s', (c.outcome x).1.phase = .connecting s') ∨
      (c.outcome x).1.waiters = [] ∧ ∃ a, c.Verdict x (c.outcome x).1.phase a ∧
        ∀ n, (∀ cmd, x.input = .command cmd → cmd.ticket? ≠ some n) →
          (c.outcome x).2.filterMap (Effect.answer? n) = List.replicate (c.connection.waiters.count n) a := by
  have ha := hs.acts hx
  have hnone : ∀ n, n ∉ c.connection.outstanding.tickets := fun n => hs.phase.outstanding_eq_empty hp
  generalize (c.outcome x).1 = c', (c.outcome x).2 = es at ha
  generalize hi : x.input = i at ha
  cases ha with
  | enters ht hp' hh =>
    refine .inr ⟨rfl, _, .accepted (welcomes_of_ofText hi ht hp' hh), fun n _ => ?_⟩
    exact filterMap_answer?_map n _ _
  | ends he =>
    refine .inr ⟨rfl, _, verdict_of_ends hs hp (hi ▸ he), fun n _ => ?_⟩
    exact Connection.filterMap_answer?_farewells _ (hnone n)
  | deserts =>
    refine .inr ⟨rfl, _, .destroyed (by rw [hi]; rfl), fun n _ => ?_⟩
    exact Connection.filterMap_answer?_farewells _ (hnone n)
  | @destroys k =>
    refine .inr ⟨rfl, _, .destroyed (by rw [hi]; rfl), fun n hne => ?_⟩
    have hk : k ≠ n := fun he => hne _ rfl (by rw [he]; rfl)
    rw [List.filterMap_append, Connection.filterMap_answer?_farewells _ (hnone n)]
    simp [Effect.answer?, hk]
  | attempts => exact .inl ⟨_, rfl⟩
  | greets => exact .inl ⟨_, rfl⟩
  | opens => exact .inl ⟨.awaitingChallenge, by simp only [hp]⟩
  | _ => exact .inl ⟨s, hp⟩

end Client

/-! ### What happened in a run -/

/-- In the run a caller asks to be connected: its ticket, and when it gives up. -/
def Sought (p : Profile) (moves : List Move) (n deadline : Nat) : Prop :=
  ∃ before now later, moves = before ++ .connect now :: later ∧ (Client.after p before).nextTicket = n ∧
    deadline = now + p.connectTimeout.nanos

/-- In the run the supervisor takes the command of a caller who asks to be connected and, as there is no
connection, has it wait for the attempt of an epoch. -/
def ParkedOn (p : Profile) (moves : List Move) (n epoch : Nat) : Prop :=
  ∃ before x, Took p moves before x ∧ x.input = .command (.ensureConnected n) ∧
    (Client.after p before).connection.phase ≠ .connected ∧
    ((Client.after p before).outcome x).1.epoch = epoch

/-- What the supervisor answers to a ticket in a run. -/
def Client.answers (n : Nat) (c : Client) (moves : List Move) : List Answer :=
  c.gather (fun c m => (c.effects m).filterMap (Effect.answer? n)) moves

theorem Client.answers_concat (n : Nat) (c : Client) (moves : List Move) (m : Move) :
    c.answers n (moves ++ [m]) =
      c.answers n moves ++ ((c.run moves).effects m).filterMap (Effect.answer? n) :=
  gather_concat _ c moves m

section

variable {p : Profile} {moves : List Move} {m : Move} {n deadline epoch : Nat}

theorem sought_concat : Sought p (moves ++ [m]) n deadline ↔ Sought p moves n deadline ∨
    ∃ now, m = .connect now ∧ (Client.after p moves).nextTicket = n ∧
      deadline = now + p.connectTimeout.nanos := by
  constructor
  · rintro ⟨before, now, later, he, hn, hd⟩
    obtain ⟨rfl, rfl, -⟩ | ⟨later', -, rfl⟩ := Client.concat_eq_append_cons_iff.1 he
    · exact .inr ⟨now, rfl, hn, hd⟩
    · exact .inl ⟨before, now, later', rfl, hn, hd⟩
  · rintro (⟨before, now, later, rfl, hn, hd⟩ | ⟨now, rfl, hn, hd⟩)
    · exact ⟨before, now, later ++ [m], by simp, hn, hd⟩
    · exact ⟨moves, now, [], rfl, hn, hd⟩

theorem parkedOn_concat : ParkedOn p (moves ++ [m]) n epoch ↔ ParkedOn p moves n epoch ∨
    ∃ x, (Client.after p moves).cue? m = some x ∧ x.input = .command (.ensureConnected n) ∧
      (Client.after p moves).connection.phase ≠ .connected ∧
      ((Client.after p moves).outcome x).1.epoch = epoch := by
  constructor
  · rintro ⟨before, x, ht, hx⟩
    obtain ht | ⟨rfl, hcue⟩ := took_concat.1 ht
    · exact .inl ⟨before, x, ht, hx⟩
    · exact .inr ⟨x, hcue, hx⟩
  · rintro (⟨before, x, ht, hx⟩ | ⟨x, hcue, hx⟩)
    · exact ⟨before, x, took_concat.2 (.inl ht), hx⟩
    · exact ⟨moves, x, took_concat.2 (.inr ⟨rfl, hcue⟩), hx⟩

/-! ### Who waits -/

/-- **Those wait who have come to wait for the present attempt**, and nobody waits but for an attempt. -/
structure Parked (p : Profile) (moves : List Move) : Prop where
  /-- Attempts to come have nobody who waits for them. -/
  old : ∀ n epoch, ParkedOn p moves n epoch → epoch ≤ (Client.after p moves).connection.epoch
  /-- Who waits. -/
  mem_iff : ∀ n, n ∈ (Client.after p moves).connection.waiters ↔
    (∃ s, (Client.after p moves).connection.phase = .connecting s) ∧
      ParkedOn p moves n (Client.after p moves).connection.epoch

theorem parked_new (p : Profile) : Parked p [] := by
  have hno : ∀ n epoch, ¬ ParkedOn p [] n epoch := by
    rintro n epoch ⟨before, x, ⟨m, later, he, -⟩, -⟩
    simp at he
  refine ⟨fun n epoch h => absurd h (hno n epoch), fun n => ?_⟩
  constructor
  · intro hn
    cases hn
  · intro hn
    exact absurd hn.2 (hno n _)

theorem Parked.handle {x : Cue} (h : Parked p moves) (hx : (Client.after p moves).cue? m = some x) :
    Parked p (moves ++ [m]) := by
  have hs : (Client.after p moves).Sound := Client.sound_run p moves
  have ha := hs.acts hx
  have hconn : (Client.after p (moves ++ [m])).connection = ((Client.after p moves).outcome x).1 := by
    rw [Client.after_concat]
    exact Client.connection_of_cue? hx
  have hle := Connection.epoch_le_of_acts ha
  have hparked : ∀ n epoch, ParkedOn p (moves ++ [m]) n epoch ↔ ParkedOn p moves n epoch ∨
      x.input = .command (.ensureConnected n) ∧ (Client.after p moves).connection.phase ≠ .connected ∧
        ((Client.after p moves).outcome x).1.epoch = epoch := by
    intro n epoch
    rw [parkedOn_concat, hx]
    simp
  constructor
  · intro n epoch hn
    rw [hconn]
    obtain hn | ⟨-, -, rfl⟩ := (hparked n epoch).1 hn
    · exact Nat.le_trans (h.old n epoch hn) hle
    · exact Nat.le_refl _
  · intro n
    rw [hconn, hparked]
    obtain ⟨hepoch, hphase, hmem⟩ | ⟨hlt, hphase, hp, hmem⟩ | ⟨hphase, hmem⟩ :=
      hs.phase.waiters_of_acts (hs.expects hx) ha
    · have hgoes : x.input = .command (.ensureConnected n) ∧
          (Client.after p moves).connection.phase ≠ .connected →
          ∃ s, (Client.after p moves).connection.phase = .connecting s := by
        rintro ⟨hi, hp⟩
        rw [hi] at ha
        obtain ⟨hp', -⟩ | ⟨-, -, hp', -⟩ := Connection.admits_or_parks ha
        · exact absurd hp' hp
        · exact hphase.1 hp'
      rw [hmem, h.mem_iff, hphase, hepoch]
      tauto
    · have hnew : ¬ ParkedOn p moves n ((Client.after p moves).outcome x).1.epoch := by
        intro hn
        exact absurd (h.old n _ hn) (Nat.not_le.2 hlt)
      simp [hmem, hphase, hp, hnew]
    · rw [hmem]
      constructor
      · intro hn
        cases hn
      · rintro ⟨⟨s, hs'⟩, -⟩
        exact absurd hs' (hphase s)

/-- Who waits after a run is known. -/
theorem parked_run (p : Profile) (moves : List Move) : Parked p moves := by
  induction moves using List.reverseRecOn with
  | nil => exact parked_new p
  | append_singleton moves m ih =>
    cases hx : (Client.after p moves).cue? m with
    | some x => exact ih.handle hx
    | none =>
      have hparked : ∀ n epoch, ParkedOn p (moves ++ [m]) n epoch ↔ ParkedOn p moves n epoch := by
        intro n epoch
        rw [parkedOn_concat, hx]
        simp
      constructor
      · intro n epoch hn
        rw [Client.after_concat, Client.connection_of_idle hx]
        exact ih.old n epoch ((hparked n epoch).1 hn)
      · intro n
        rw [Client.after_concat, Client.connection_of_idle hx, hparked]
        exact ih.mem_iff n

end

/-! ### Tickets that were given -/

namespace Client

variable {c c' : Client} {m : Move} {x : Cue} {n : Nat}

/-- How the queue of commands grows in a move that is not the supervisor's. -/
inductive Grown (c : Client) (m : Move) (c' : Client) : Prop where
  /-- Not at all. -/
  | nothing : c'.commands = c.commands → Grown c m c'
  /-- By a command that nobody waits for. -/
  | plain {cmd : Command} : cmd.ticket? = none → c'.commands = c.told cmd → Grown c m c'
  /-- By that of a call that begins; only a caller who asks to be connected tells the supervisor so. -/
  | call {cmd : Command} : cmd.ticket? = some c.nextTicket → c'.nextTicket = c.nextTicket + 1 →
      (∀ k, cmd = .ensureConnected k → ∃ now, m = .connect now) → c'.commands = c.told cmd → Grown c m c'

theorem grown_of_does (hx : c.cue? m = none) (hd : Does c m c') : Grown c m c' := by
  cases hd with
  | calls ha =>
    cases ha with
    | connect => exact .call rfl rfl (fun _ _ => ⟨_, rfl⟩) rfl
    | query => exact .call rfl rfl (by simp) rfl
    | destroy => exact .call rfl rfl (by simp) rfl
  | sends => exact .call rfl rfl (by simp) rfl
  | expires => exact .plain rfl rfl
  | subscribes => exact .plain rfl rfl
  | idles => exact .plain rfl rfl
  | @drops stream s =>
    cases s.sawTerminal with
    | true => exact .nothing rfl
    | false => exact @Grown.plain _ _ _ (.unlisten s.run stream) rfl rfl
  | handles hx' =>
    rw [hx] at hx'
    cases hx'
  | _ => exact .nothing rfl

/-- What is new in the queue does not have a ticket that was given before. -/
theorem Grown.commands_or_told (h : Grown c m c') (hn : n < c.nextTicket) :
    c'.commands = c.commands ∨ ∃ cmd, cmd.ticket? ≠ some n ∧ c'.commands = c.told cmd := by
  cases h with
  | nothing he => exact .inl he
  | plain ht he => exact .inr ⟨_, by simp [ht], he⟩
  | call ht _ _ he => exact .inr ⟨_, by simp [ht, Nat.ne_of_gt hn], he⟩

theorem isRunning_of_does (hx : c.cue? m = none) (hd : Does c m c') : c'.isRunning = c.isRunning := by
  cases hd with
  | handles hx' =>
    rw [hx] at hx'
    cases hx'
  | _ => rfl

/-- **Whatever has a ticket was given it**, a call under way has a ticket that is of use, and without a supervisor
there are no commands. -/
structure Issued (c : Client) : Prop where
  /-- Commands. -/
  commands : ∀ cmd ∈ c.commands, ∀ n, cmd.ticket? = some n → n < c.nextTicket
  /-- Those who wait. -/
  waiters : ∀ n ∈ c.connection.waiters, n < c.nextTicket
  /-- Requests. -/
  outstanding : ∀ n ∈ c.connection.outstanding.tickets, n < c.nextTicket
  /-- Calls. -/
  calls : ∀ n call, c.calls.get? n = some call →
    c.tickets.get? n = some .waiting ∨ ∃ a, c.tickets.get? n = some (.answered a)
  /-- Without a supervisor there are no commands. -/
  stopped : c.isRunning = false → c.commands = []

theorem issued_new (p : Profile) : (Client.new p).Issued :=
  ⟨(fun _ h => nomatch h), (fun _ h => nomatch h), (fun _ h => nomatch h), (fun _ _ h => nomatch h),
    fun h => nomatch h⟩

/-- Calls keep their tickets in a move that is not the supervisor's. -/
theorem live_of_does (hx : c.cue? m = none) (hd : Does c m c')
    (h : ∀ n call, c.calls.get? n = some call →
      c.tickets.get? n = some .waiting ∨ ∃ a, c.tickets.get? n = some (.answered a)) (n : Nat) (call : Call)
    (hn : c'.calls.get? n = some call) :
    c'.tickets.get? n = some .waiting ∨ ∃ a, c'.tickets.get? n = some (.answered a) := by
  have hset : ∀ {k : Nat} {call' : Call}, (c.calls.set k call').get? n = some call →
      (c.tickets.set k .waiting).get? n = some .waiting ∨
        ∃ a, (c.tickets.set k .waiting).get? n = some (.answered a) := by
    intro k call' hn
    rw [Table.get?_set] at hn ⊢
    split at hn
    · rename_i hk
      exact .inl (if_pos hk)
    · rename_i hk
      rw [if_neg hk]
      exact h n call hn
  have herase : ∀ {k : Nat}, (c.calls.erase k).get? n = some call →
      (c.tickets.erase k).get? n = some .waiting ∨
        ∃ a, (c.tickets.erase k).get? n = some (.answered a) := by
    intro k hn
    obtain ⟨hk, hn⟩ := Table.get?_erase_eq_some_iff.1 hn
    rw [Table.get?_erase_of_ne _ hk]
    exact h n call hn
  cases hd with
  | calls => exact hset hn
  | sends => exact hset hn
  | ends => exact herase hn
  | expires => exact herase hn
  | follows => exact herase hn
  | handles hx' =>
    rw [hx] at hx'
    cases hx'
  | _ => exact h n call hn

theorem Issued.idle (h : c.Issued) (hx : c.cue? m = none) : (c.move m).Issued := by
  have hd := does_move c m
  have hi := idle_of_does hx hd
  have hrun := isRunning_of_does hx hd
  constructor
  · intro cmd hcmd n hn
    cases grown_of_does hx hd with
    | nothing he => exact Nat.lt_of_lt_of_le (h.commands cmd (he ▸ hcmd) n hn) hi.nextTicket
    | plain ht he =>
      obtain hcmd | rfl := mem_told (he ▸ hcmd)
      · exact Nat.lt_of_lt_of_le (h.commands cmd hcmd n hn) hi.nextTicket
      · rw [ht] at hn
        cases hn
    | call ht hnext _ he =>
      obtain hcmd | rfl := mem_told (he ▸ hcmd)
      · exact Nat.lt_of_lt_of_le (h.commands cmd hcmd n hn) hi.nextTicket
      · rw [ht] at hn
        cases hn
        omega
  · intro n hn
    rw [connection_of_idle hx] at hn
    exact Nat.lt_of_lt_of_le (h.waiters n hn) hi.nextTicket
  · intro n hn
    rw [connection_of_idle hx] at hn
    exact Nat.lt_of_lt_of_le (h.outstanding n hn) hi.nextTicket
  · exact live_of_does hx hd h.calls
  · intro hr
    rw [hrun] at hr
    have hnil := h.stopped hr
    cases grown_of_does hx hd with
    | nothing he => rw [he, hnil]
    | plain ht he => rw [he, told_of_not_running hr, hnil]
    | call ht hnext _ he => rw [he, told_of_not_running hr, hnil]

theorem Issued.handle (h : c.Issued) (hs : c.Sound) (hx : c.cue? m = some x) : (c.handle x).Issued := by
  have ha := hs.acts hx
  rw [handle_eq]
  constructor
  · intro cmd hcmd n hn
    exact h.commands cmd (mem_of_mem_commandsAfter hcmd) n hn
  · intro n hn
    obtain hn | hi := Connection.mem_waiters_of_acts ha hn
    · exact h.waiters n hn
    · exact h.commands _ (commands_of_cue? hx hi ▸ List.mem_cons_self) n rfl
  · intro n hn
    obtain ⟨r, hr, rfl⟩ := List.mem_map.1 hn
    obtain ⟨e, he, rfl⟩ := List.mem_map.1 hr
    obtain ⟨-, he | ⟨params, -, hi, -⟩⟩ := hs.phase.mem_outstanding_of_acts (hs.expects hx) ha he
    · exact h.outstanding _ (List.mem_map.2 ⟨_, List.mem_map.2 ⟨e, he, rfl⟩, rfl⟩)
    · exact h.commands _ (commands_of_cue? hx hi ▸ List.mem_cons_self) _ rfl
  · intro n call hn
    simp only [get?_onTickets]
    obtain ht | ⟨a, ht⟩ := h.calls n call hn
    · rw [ht]
      cases (c.outcome x).2.findSome? (Effect.answer? n) with
      | none => exact .inl rfl
      | some a => exact .inr ⟨a, rfl⟩
    · rw [ht]
      exact .inr ⟨a, rfl⟩
  · intro hr
    simp only [isRunning_of_cue? hx, Bool.true_and, Bool.not_eq_false'] at hr
    exact commandsAfter_of_isLast hr

theorem issued_run (p : Profile) (moves : List Move) : (Client.after p moves).Issued := by
  refine run_induction (P := fun _ c => c.Issued) (issued_new p) (fun moves m h => ?_) moves
  cases hx : (Client.after p moves).cue? m with
  | none => exact h.idle hx
  | some x =>
    rw [move_of_cue? hx]
    exact h.handle (sound_run p moves) hx

/-- A ticket that the supervisor answers was given to somebody. -/
theorem Issued.lt_of_answer {a : Answer} (h : c.Issued) (hs : c.Sound) (hx : c.cue? m = some x)
    (ha : .answer n a ∈ (c.outcome x).2) : n < c.nextTicket := by
  have hcommand : ∀ cmd, x.input = .command cmd → cmd.ticket? = some n → n < c.nextTicket := by
    intro cmd hi hn
    exact h.commands cmd (commands_of_cue? hx hi ▸ List.mem_cons_self) n hn
  have hr := Connection.replies_of_acts (hs.acts hx) ha
  generalize hi : x.input = i at hr
  cases hr with
  | other ho =>
    obtain hw | rfl | rfl := ho
    · exact h.waiters n hw
    · exact hcommand _ hi rfl
    · exact hcommand _ hi rfl
  | socketGone => exact hcommand _ hi rfl
  | unconnected => exact hcommand _ hi rfl
  | response ht hp hget hn =>
    exact h.outstanding n (List.mem_map.2 ⟨_, List.mem_map.2 ⟨_, Table.mem_of_get? hget, rfl⟩, hn⟩)
  | cut he hn => exact h.outstanding n (List.mem_map.2 ⟨_, List.mem_map.2 ⟨_, he, rfl⟩, hn⟩)

end Client

theorem mem_filterMap_answer? {n : Nat} {a : Answer} {es : List Effect} :
    a ∈ es.filterMap (Effect.answer? n) ↔ .answer n a ∈ es := by
  simp [List.mem_filterMap, Effect.answer?_eq_some_iff]

/-- A ticket to come was not answered. -/
theorem answers_of_le (p : Profile) (moves : List Move) {n : Nat}
    (h : (Client.after p moves).nextTicket ≤ n) : (Client.new p).answers n moves = [] := by
  induction moves using List.reverseRecOn with
  | nil => rfl
  | append_singleton moves m ih =>
    rw [Client.after_concat] at h
    rw [Client.answers_concat]
    cases hx : (Client.after p moves).cue? m with
    | none =>
      have hi := Client.idle_of_does hx (does_move _ m)
      rw [ih (Nat.le_trans hi.nextTicket h), Client.effects_of_cue?_eq_none hx]
      rfl
    | some x =>
      rw [Client.move_of_cue? hx, Client.handle_eq] at h
      rw [ih h, Client.effects_of_cue? hx, List.nil_append, List.eq_nil_iff_forall_not_mem]
      intro a ha
      have hlt := (Client.issued_run p moves).lt_of_answer (Client.sound_run p moves) hx
        (mem_filterMap_answer?.1 ha)
      exact absurd hlt (Nat.not_lt.2 h)

/-! ### Where a caller is who asks to be connected -/

/-- The ticket of a caller who asks to be connected is in the queue of commands, or among those who wait, or
answered, and in one place only. -/
structure Seeks (p : Profile) (moves : List Move) (n deadline : Nat) : Prop where
  /-- It was given. -/
  old : n < (Client.after p moves).nextTicket
  /-- No other command has it. -/
  commands : ∀ cmd ∈ (Client.after p moves).commands, cmd.ticket? = some n → cmd = .ensureConnected n
  /-- No request has it. -/
  outstanding : n ∉ (Client.after p moves).connection.outstanding.tickets
  /-- It is in one place only. -/
  once : (Client.after p moves).commands.count (.ensureConnected n) +
    (Client.after p moves).connection.waiters.count n + ((Client.new p).answers n moves).length ≤ 1
  /-- As long as the supervisor is there, it is in the queue or waits until it is answered. -/
  placed : (Client.after p moves).tickets.get? n = some .waiting → (Client.after p moves).isRunning = true →
    .ensureConnected n ∈ (Client.after p moves).commands ∨ n ∈ (Client.after p moves).connection.waiters
  /-- Who waits for its answer has got none. -/
  silent : (Client.after p moves).tickets.get? n = some .waiting → (Client.new p).answers n moves = []
  /-- Its answer is that of the supervisor. -/
  answered : ∀ a, (Client.after p moves).tickets.get? n = some (.answered a) →
    (Client.new p).answers n moves = [a]
  /-- Its call is as it was begun. -/
  call : ∀ call, (Client.after p moves).calls.get? n = some call → call = ⟨.connection, some deadline⟩

/-- The supervisor moves the ticket of a caller who asks to be connected on, or answers it. -/
structure Client.HandsOn (c : Client) (x : Cue) (n : Nat) : Prop where
  /-- It is in no more places than before. -/
  once : (c.commandsAfter x.input).count (.ensureConnected n) + (c.outcome x).1.waiters.count n +
      ((c.outcome x).2.filterMap (Effect.answer? n)).length ≤
    c.commands.count (.ensureConnected n) + c.connection.waiters.count n
  /-- Without an answer it is still in one of them, unless the supervisor stops. -/
  placed : x.input.isLast = false → (c.outcome x).2.filterMap (Effect.answer? n) = [] →
    .ensureConnected n ∈ c.commands ∨ n ∈ c.connection.waiters →
    .ensureConnected n ∈ c.commandsAfter x.input ∨ n ∈ (c.outcome x).1.waiters

section

variable {p : Profile} {moves : List Move} {m : Move} {n deadline : Nat} {x : Cue}

/-- No command but its own has the ticket. -/
theorem Seeks.ticket_ne_of_cue? (h : Seeks p moves n deadline) (hx : (Client.after p moves).cue? m = some x)
    (hi : x.input ≠ .command (.ensureConnected n)) : ∀ cmd, x.input = .command cmd → cmd.ticket? ≠ some n := by
  intro cmd hcmd hn
  have hmem := Client.commands_of_cue? hx hcmd ▸ List.mem_cons_self
  exact hi (h.commands cmd hmem hn ▸ hcmd)

/-- What the supervisor does about other things leaves the ticket where it is, or answers it as its attempt ends. -/
theorem Seeks.waits_or_ends (h : Seeks p moves n deadline) (hx : (Client.after p moves).cue? m = some x)
    (hi : ∀ cmd, x.input = .command cmd → cmd.ticket? ≠ some n) :
    (((Client.after p moves).outcome x).1.waiters.count n =
          (Client.after p moves).connection.waiters.count n ∧
        ((Client.after p moves).outcome x).2.filterMap (Effect.answer? n) = []) ∨
      ((Client.after p moves).outcome x).1.waiters = [] ∧ ∃ a,
        ((Client.after p moves).outcome x).2.filterMap (Effect.answer? n) =
          List.replicate ((Client.after p moves).connection.waiters.count n) a := by
  have hs : (Client.after p moves).Sound := Client.sound_run p moves
  have hwaits := fun hgoes => hs.phase.waits_of_acts (hs.acts hx) hgoes hi h.outstanding
  by_cases hp : ∃ s, (Client.after p moves).connection.phase = .connecting s
  · obtain ⟨s, hp⟩ := hp
    obtain hgoes | ⟨hnil, a, -, ha⟩ := Client.exists_verdict hs hx hp
    · exact .inl (hwaits (.inr hgoes))
    · exact .inr ⟨hnil, a, ha n hi⟩
  · exact .inl (hwaits (.inl (not_exists.1 hp)))

/-- Taking its own command, the supervisor answers at once, or lets the caller wait. -/
theorem handsOn_of_own (hx : (Client.after p moves).cue? m = some x) (hi : x.input = .command (.ensureConnected n)) :
    (Client.after p moves).HandsOn x n := by
  have hs : (Client.after p moves).Sound := Client.sound_run p moves
  have ha := hs.acts hx
  have hafter : (Client.after p moves).commandsAfter x.input = (Client.after p moves).commands.tail := by
    rw [hi]
    exact Client.commandsAfter_command rfl
  have hcount : (Client.after p moves).commands.count (.ensureConnected n) =
      (Client.after p moves).commands.tail.count (.ensureConnected n) + 1 := by
    rw [Client.commands_of_cue? hx hi]
    exact List.count_cons_self
  rw [hi] at ha
  obtain ⟨-, hc, hes⟩ | ⟨-, hw, -, hes⟩ := Connection.admits_or_parks ha
  · refine ⟨?_, fun _ hnone => ?_⟩
    · have hone : ([Effect.answer n (.ok .null)].filterMap (Effect.answer? n)).length = 1 := by
        simp [Effect.answer?]
      rw [hafter, hcount, hc, hes, hone]
      omega
    · rw [hes] at hnone
      simp [Effect.answer?] at hnone
  · refine ⟨?_, fun _ _ _ => .inr (by simp [hw])⟩
    rw [hafter, hcount, hw, hes, List.count_append, List.count_singleton_self, List.length_nil]
    omega

/-- Taking something else, it leaves the command in the queue, unless it stops. -/
theorem Seeks.handsOn_of_ne (h : Seeks p moves n deadline) (hx : (Client.after p moves).cue? m = some x)
    (hi : x.input ≠ .command (.ensureConnected n)) : (Client.after p moves).HandsOn x n := by
  have hne := h.ticket_ne_of_cue? hx hi
  have hle : ((Client.after p moves).commandsAfter x.input).count (.ensureConnected n) ≤
      (Client.after p moves).commands.count (.ensureConnected n) :=
    (Client.commandsAfter_suffix _ _).sublist.count_le _
  have hstays : x.input.isLast = false → .ensureConnected n ∈ (Client.after p moves).commands →
      .ensureConnected n ∈ (Client.after p moves).commandsAfter x.input := by
    intro hl hmem
    refine Client.mem_commandsAfter hmem hl fun cmd hcmd => ?_
    exact ⟨Client.commands_of_cue? hx hcmd, fun he => hne cmd hcmd (he ▸ rfl)⟩
  obtain ⟨hcount, hes⟩ | ⟨hnil, a, hes⟩ := h.waits_or_ends hx hne
  · refine ⟨?_, fun hl _ hplaced => ?_⟩
    · rw [hes, hcount]
      simpa using hle
    · obtain hmem | hmem := hplaced
      · exact .inl (hstays hl hmem)
      · exact .inr (List.count_pos_iff.1 (hcount ▸ List.count_pos_iff.2 hmem))
  · refine ⟨?_, fun hl hnone hplaced => ?_⟩
    · rw [hes, hnil]
      simpa using hle
    · obtain hmem | hmem := hplaced
      · exact .inl (hstays hl hmem)
      · have hpos := List.count_pos_iff.2 hmem
        rw [hes, List.replicate_eq_nil_iff] at hnone
        omega

theorem Seeks.handsOn (h : Seeks p moves n deadline) (hx : (Client.after p moves).cue? m = some x) :
    (Client.after p moves).HandsOn x n := by
  by_cases hi : x.input = .command (.ensureConnected n)
  · exact handsOn_of_own hx hi
  · exact h.handsOn_of_ne hx hi

/-- The supervisor's steps keep the ticket in one place. -/
theorem Seeks.handle (h : Seeks p moves n deadline) (hx : (Client.after p moves).cue? m = some x) :
    Seeks p (moves ++ [m]) n deadline := by
  have hs : (Client.after p moves).Sound := Client.sound_run p moves
  have ha := hs.acts hx
  obtain ⟨hcount, hplaced⟩ := h.handsOn hx
  have hanswers : (Client.new p).answers n (moves ++ [m]) = (Client.new p).answers n moves ++
      ((Client.after p moves).outcome x).2.filterMap (Effect.answer? n) := by
    rw [Client.answers_concat, ← Client.effects_of_cue? hx]
  have honce := h.once
  have hlength : ((Client.new p).answers n moves ++
      ((Client.after p moves).outcome x).2.filterMap (Effect.answer? n)).length ≤ 1 := by
    rw [List.length_append]
    omega
  have hmove : Client.after p (moves ++ [m]) = (Client.after p moves).handle x := by
    rw [Client.after_concat, Client.move_of_cue? hx]
  rw [Client.handle_eq] at hmove
  constructor
  · rw [hmove]
    exact h.old
  · rw [hmove]
    exact fun cmd hcmd => h.commands cmd (Client.mem_of_mem_commandsAfter hcmd)
  · rw [hmove]
    intro hn
    obtain ⟨r, hr, rfl⟩ := List.mem_map.1 hn
    obtain ⟨e, he, rfl⟩ := List.mem_map.1 hr
    obtain ⟨-, he | ⟨params, -, hi, -⟩⟩ := hs.phase.mem_outstanding_of_acts (hs.expects hx) ha he
    · exact h.outstanding (List.mem_map.2 ⟨_, List.mem_map.2 ⟨e, he, rfl⟩, rfl⟩)
    · cases h.commands _ (Client.commands_of_cue? hx hi ▸ List.mem_cons_self) rfl
  · rw [hmove, hanswers, List.length_append]
    simp only
    omega
  · rw [hmove]
    intro hw hrun
    obtain ⟨hw, hnone⟩ := waiting_of_onTickets hw
    simp only [Client.isRunning_of_cue? hx, Bool.true_and, Bool.not_eq_true'] at hrun
    refine hplaced hrun ?_ (h.placed hw (Client.isRunning_of_cue? hx))
    refine List.eq_nil_iff_forall_not_mem.2 fun a hmem => ?_
    exact hnone a (mem_filterMap_answer?.1 hmem)
  · rw [hmove, hanswers]
    intro hw
    obtain ⟨hw, hnone⟩ := waiting_of_onTickets hw
    rw [h.silent hw, List.nil_append, List.eq_nil_iff_forall_not_mem]
    exact fun a hmem => hnone a (mem_filterMap_answer?.1 hmem)
  · rw [hmove, hanswers]
    intro a hans
    have hmem : a ∈ (Client.new p).answers n moves ++
        ((Client.after p moves).outcome x).2.filterMap (Effect.answer? n) := by
      obtain hans | ⟨-, hmem⟩ := answered_of_onTickets hans
      · rw [h.answered a hans]
        exact List.mem_cons_self
      · exact List.mem_append_right _ (mem_filterMap_answer?.2 hmem)
    -- it is there, and there is no other
    obtain ⟨b, hb⟩ := List.length_eq_one_iff.1 (Nat.le_antisymm hlength (List.length_pos_of_mem hmem))
    rw [hb] at hmem ⊢
    rw [List.mem_singleton.1 hmem]
  · rw [hmove]
    exact h.call

/-- A command of somebody else leaves the ticket where it is. -/
theorem Client.count_told_of_ne {c : Client} {cmd : Command} (h : cmd ≠ .ensureConnected n) :
    (c.told cmd).count (.ensureConnected n) = c.commands.count (.ensureConnected n) := by
  unfold Client.told
  split
  · simp [h]
  · rfl

/-- Moves of others than the supervisor leave the ticket where it is. -/
theorem Seeks.idle (h : Seeks p moves n deadline) (hx : (Client.after p moves).cue? m = none) :
    Seeks p (moves ++ [m]) n deadline := by
  have hd := does_move (Client.after p moves) m
  have hi := Client.idle_of_does hx hd
  have hrun := Client.isRunning_of_does hx hd
  have hgrown := Client.grown_of_does hx hd
  have hconn := Client.connection_of_idle hx
  have hold := h.old
  have hanswers : (Client.new p).answers n (moves ++ [m]) = (Client.new p).answers n moves := by
    rw [Client.answers_concat, Client.effects_of_cue?_eq_none hx]
    exact List.append_nil _
  have htold := hgrown.commands_or_told h.old
  have hticket : ∀ t, ((Client.after p moves).move m).tickets.get? n = some t →
      (Client.after p moves).tickets.get? n = some t := by
    intro t ht
    obtain ht | ⟨rfl, -⟩ := hi.tickets n t ht
    · exact ht
    · exact absurd hold (Nat.lt_irrefl _)
  constructor
  · rw [Client.after_concat]
    exact Nat.lt_of_lt_of_le h.old hi.nextTicket
  · rw [Client.after_concat]
    intro cmd hcmd hn
    obtain he | ⟨cmd', hne, he⟩ := htold
    · exact h.commands cmd (he ▸ hcmd) hn
    · obtain hcmd | rfl := Client.mem_told (he ▸ hcmd)
      · exact h.commands cmd hcmd hn
      · exact absurd hn hne
  · rw [Client.after_concat, hconn]
    exact h.outstanding
  · rw [Client.after_concat, hconn, hanswers]
    obtain he | ⟨cmd', hne, he⟩ := htold
    · rw [he]
      exact h.once
    · rw [he, Client.count_told_of_ne fun hc => hne (by rw [hc]; rfl)]
      exact h.once
  · rw [Client.after_concat, hconn, hrun]
    intro hw hr
    refine (h.placed (hticket _ hw) hr).imp_left fun hmem => ?_
    obtain he | ⟨cmd', -, he⟩ := htold
    · exact he ▸ hmem
    · exact he ▸ Client.mem_told_of_mem hmem
  · rw [Client.after_concat, hanswers]
    exact fun hw => h.silent (hticket _ hw)
  · rw [Client.after_concat, hanswers]
    exact fun a ha => h.answered a (hticket _ ha)
  · rw [Client.after_concat]
    intro call hcall
    obtain hcall | ⟨rfl, -⟩ := hi.calls n call hcall
    · exact h.call call hcall
    · exact absurd hold (Nat.lt_irrefl _)

/-- The ticket of a caller who has just asked is in the queue, if there is a supervisor. -/
theorem seeks_connect (p : Profile) (moves : List Move) (now : Nat) :
    Seeks p (moves ++ [.connect now]) (Client.after p moves).nextTicket (now + p.connectTimeout.nanos) := by
  have hissued := Client.issued_run p moves
  have hanswers : (Client.new p).answers (Client.after p moves).nextTicket (moves ++ [.connect now]) = [] := by
    rw [Client.answers_concat, answers_of_le p moves (Nat.le_refl _)]
    rfl
  have hmove : Client.after p (moves ++ [.connect now]) = { Client.after p moves with
      nextTicket := (Client.after p moves).nextTicket + 1
      tickets := (Client.after p moves).tickets.set (Client.after p moves).nextTicket .waiting
      calls := (Client.after p moves).calls.set (Client.after p moves).nextTicket
        ⟨.connection, some (now + p.connectTimeout.nanos)⟩
      commands := (Client.after p moves).told (.ensureConnected (Client.after p moves).nextTicket) } := by
    rw [Client.after_concat]
    simp only [Client.move, Client.connect, Client.begin, Client.tell_eq, Client.profile_run]
    rfl
  have hcount : (Client.after p moves).commands.count (.ensureConnected (Client.after p moves).nextTicket) =
      0 := by
    refine List.count_eq_zero.2 fun hmem => ?_
    exact absurd (hissued.commands _ hmem _ rfl) (Nat.lt_irrefl _)
  have hwaiters : (Client.after p moves).connection.waiters.count (Client.after p moves).nextTicket = 0 := by
    refine List.count_eq_zero.2 fun hmem => ?_
    exact absurd (hissued.waiters _ hmem) (Nat.lt_irrefl _)
  constructor
  · rw [hmove]
    exact Nat.lt_succ_self _
  · rw [hmove]
    intro cmd hcmd hn
    obtain hcmd | rfl := Client.mem_told hcmd
    · exact absurd (hissued.commands cmd hcmd _ hn) (Nat.lt_irrefl _)
    · rfl
  · rw [hmove]
    exact fun hmem => absurd (hissued.outstanding _ hmem) (Nat.lt_irrefl _)
  · rw [hanswers, hmove]
    simp only [hwaiters, Client.told]
    split
    · simp [hcount]
    · simp [hcount]
  · rw [hmove]
    exact fun _ hrun => .inl (Client.mem_told_self hrun)
  · exact fun _ => hanswers
  · rw [hmove]
    intro a ha
    rw [Table.get?_set_self] at ha
    cases ha
  · rw [hmove]
    intro call hcall
    rw [Table.get?_set_self] at hcall
    cases hcall
    rfl

/-- **Where a caller is who asks to be connected**, after every run. -/
theorem seeks_run (h : Sought p moves n deadline) : Seeks p moves n deadline := by
  induction moves using List.reverseRecOn with
  | nil =>
    obtain ⟨before, now, later, he, -⟩ := h
    simp at he
  | append_singleton moves m ih =>
    obtain h | ⟨now, rfl, rfl, rfl⟩ := sought_concat.1 h
    · cases hx : (Client.after p moves).cue? m with
      | none => exact (ih h).idle hx
      | some x => exact (ih h).handle hx
    · exact seeks_connect p moves now

/-- Whose command is in the queue has asked to be connected. -/
theorem exists_sought_of_mem (h : .ensureConnected n ∈ (Client.after p moves).commands) :
    ∃ deadline, Sought p moves n deadline := by
  induction moves using List.reverseRecOn with
  | nil => cases h
  | append_singleton moves m ih =>
    have hkeeps : .ensureConnected n ∈ (Client.after p moves).commands →
        ∃ deadline, Sought p (moves ++ [m]) n deadline := by
      intro hmem
      obtain ⟨deadline, hs⟩ := ih hmem
      exact ⟨deadline, sought_concat.2 (.inl hs)⟩
    rw [Client.after_concat] at h
    cases hx : (Client.after p moves).cue? m with
    | some x =>
      rw [Client.move_of_cue? hx, Client.handle_eq] at h
      exact hkeeps (Client.mem_of_mem_commandsAfter h)
    | none =>
      cases Client.grown_of_does hx (does_move _ m) with
      | nothing he => exact hkeeps (he ▸ h)
      | plain ht he =>
        obtain hmem | rfl := Client.mem_told (he ▸ h)
        · exact hkeeps hmem
        · cases ht
      | call ht _ hconnect he =>
        obtain hmem | rfl := Client.mem_told (he ▸ h)
        · exact hkeeps hmem
        · obtain ⟨now, rfl⟩ := hconnect n rfl
          cases ht
          exact ⟨_, sought_concat.2 (.inr ⟨now, rfl, rfl, rfl⟩)⟩

theorem ParkedOn.exists_sought {epoch : Nat} (h : ParkedOn p moves n epoch) :
    ∃ deadline, Sought p moves n deadline := by
  obtain ⟨before, x, ⟨m, later, rfl, hx⟩, hi, -⟩ := h
  obtain ⟨deadline, b, now, l, rfl, hs⟩ :=
    exists_sought_of_mem (Client.commands_of_cue? hx hi ▸ List.mem_cons_self)
  exact ⟨deadline, b, now, l ++ m :: later, by simp, hs⟩

/-- The supervisor's steps let nobody go unanswered who waits. -/
theorem Seeks.mem_waiters_handle (h : Seeks p moves n deadline)
    (hx : (Client.after p moves).cue? m = some x)
    (hn : n ∈ (Client.after p moves).connection.waiters) :
    n ∈ ((Client.after p moves).outcome x).1.waiters ∨
      ((Client.after p moves).outcome x).2.filterMap (Effect.answer? n) ≠ [] := by
  have hpos := List.count_pos_iff.2 hn
  by_cases hi : ∀ cmd, x.input = .command cmd → cmd.ticket? ≠ some n
  · obtain ⟨hcount, -⟩ | ⟨-, a, hes⟩ := h.waits_or_ends hx hi
    · exact .inl (List.count_pos_iff.1 (hcount ▸ hpos))
    · refine .inr ?_
      rw [hes, ne_eq, List.replicate_eq_nil_iff]
      omega
  · -- its own command would be in the queue, and the ticket in two places
    simp only [not_forall, not_not] at hi
    obtain ⟨cmd, hi, hcmd⟩ := hi
    have hmem : cmd ∈ (Client.after p moves).commands :=
      Client.commands_of_cue? hx hi ▸ List.mem_cons_self
    have hcount := List.count_pos_iff.2 (h.commands cmd hmem hcmd ▸ hmem)
    have honce := h.once
    omega

/-- Who has come to wait for an attempt still waits, or was answered. -/
theorem ParkedOn.waits_or_answered {epoch : Nat} (h : ParkedOn p moves n epoch) :
    n ∈ (Client.after p moves).connection.waiters ∨ (Client.new p).answers n moves ≠ [] := by
  induction moves using List.reverseRecOn with
  | nil =>
    obtain ⟨before, x, ⟨m, later, he, -⟩, -⟩ := h
    simp at he
  | append_singleton moves m ih =>
    rw [Client.after_concat, Client.answers_concat]
    cases hx : (Client.after p moves).cue? m with
    | none =>
      obtain h | ⟨x, hx', -⟩ := parkedOn_concat.1 h
      · rw [Client.connection_of_idle hx]
        exact (ih h).imp_right fun hne => by simp [hne]
      · rw [hx] at hx'
        cases hx'
    | some x =>
      rw [Client.connection_of_cue? hx, Client.effects_of_cue? hx]
      obtain h | ⟨x', hx', hi, hp, -⟩ := parkedOn_concat.1 h
      · obtain ⟨deadline, hsought⟩ := h.exists_sought
        obtain hn | hne := ih h
        · exact ((seeks_run hsought).mem_waiters_handle hx hn).imp_right fun hne => by simp [hne]
        · exact .inr (by simp [hne])
      · cases hx.symm.trans hx'
        have ha := (Client.sound_run p moves).acts hx
        rw [hi] at ha
        obtain ⟨hp', -⟩ | ⟨-, hw, -⟩ := Connection.admits_or_parks ha
        · exact absurd hp' hp
        · exact .inl (by simp [hw])

/-- Nobody comes to wait again. -/
theorem ParkedOn.not_of_cue? {epoch : Nat} (h : ParkedOn p moves n epoch)
    (hx : (Client.after p moves).cue? m = some x) : x.input ≠ .command (.ensureConnected n) := by
  intro hi
  obtain ⟨deadline, hsought⟩ := h.exists_sought
  have honce := (seeks_run hsought).once
  have hmem : .ensureConnected n ∈ (Client.after p moves).commands :=
    Client.commands_of_cue? hx hi ▸ List.mem_cons_self
  have hcount := List.count_pos_iff.2 hmem
  obtain hn | hne := h.waits_or_answered
  · have hpos := List.count_pos_iff.2 hn
    omega
  · have hpos := List.length_pos_iff.2 hne
    omega

/-- **A caller waits for one attempt only.** -/
theorem ParkedOn.eq {epoch epoch' : Nat} (h : ParkedOn p moves n epoch) (h' : ParkedOn p moves n epoch') :
    epoch = epoch' := by
  induction moves using List.reverseRecOn with
  | nil =>
    obtain ⟨before, x, ⟨m, later, he, -⟩, -⟩ := h
    simp at he
  | append_singleton moves m ih =>
    obtain h | ⟨x, hx, hi, -, he⟩ := parkedOn_concat.1 h
    · obtain h' | ⟨x, hx, hi, -⟩ := parkedOn_concat.1 h'
      · exact ih h h'
      · exact absurd hi (h.not_of_cue? hx)
    · obtain h' | ⟨x', hx', -, -, he'⟩ := parkedOn_concat.1 h'
      · exact absurd hi (h'.not_of_cue? hx)
      · cases hx.symm.trans hx'
        exact he.symm.trans he'

end

/-! ### What a call to be connected comes to -/

/-- What a look after the moves `before` finds that the call of a caller has come to who asked to be connected, and
why. -/
inductive Comes (p : Profile) (before : List Move) (now n deadline : Nat) : Except Fault Yield → Prop where
  /-- The supervisor has answered. -/
  | answered {a : Answer} : (Client.new p).answers n before = [a] →
      Comes p before now n deadline (a.map fun _ => .nothing)
  /-- Its own time has run out before. -/
  | timeout : deadline ≤ now → (Client.new p).answers n before = [] →
      (Client.after p before).isRunning = true → Comes p before now n deadline (.error .connectTimeout)
  /-- The supervisor has stopped before. -/
  | destroyed : (Client.new p).answers n before = [] → (Client.after p before).isRunning = false →
      Comes p before now n deadline (.error .destroyed)

section

variable {p : Profile} {moves : List Move} {m : Move} {n deadline now : Nat}

theorem Seeks.holdsTicket (h : Seeks p moves n deadline)
    (hw : (Client.after p moves).tickets.get? n = some .waiting)
    (hrun : (Client.after p moves).isRunning = true) : (Client.after p moves).holdsTicket n = true := by
  simp only [Client.holdsTicket, Bool.or_eq_true]
  obtain hmem | hmem := h.placed hw hrun
  · exact .inr (List.any_eq_true.2 ⟨_, hmem, by simp [Command.ticket?]⟩)
  · exact .inl (.inl (by simpa using hmem))

theorem isRunning_of_holdsTicket (p : Profile) (moves : List Move) {n : Nat}
    (h : (Client.after p moves).holdsTicket n = true) : (Client.after p moves).isRunning = true :=
  Client.Sound.isRunning_of_holdsTicket (Client.sound_run p moves) (Client.issued_run p moves).stopped h

/-- A look that finds the call ended has its reason. -/
theorem Seeks.comes {r : Except Fault Yield} (h : Seeks p moves n deadline)
    (hr : ((Client.after p moves).poll now n).1 = some r) : Comes p moves now n deadline r := by
  have hpolls := polls_poll (Client.after p moves) now n
  generalize ((Client.after p moves).poll now n).2 = c' at hpolls
  rw [hr] at hpolls
  cases hpolls with
  | @answered call a hn ha =>
    cases h.call call hn
    cases ha with
    | found ht => exact .answered (h.answered a ht)
    | lost ht hh =>
      refine .destroyed (h.silent ht) ?_
      by_contra hrun
      have hholds := h.holdsTicket ht (by simpa using hrun)
      rw [hh] at hholds
      cases hholds
    | void ha hw =>
      obtain ht | ⟨a, ht⟩ := (Client.issued_run p moves).calls n _ hn
      · exact absurd ht hw
      · exact absurd ht (ha a)
  | @expired call hn ht hh hdue =>
    cases h.call call hn
    refine .timeout ?_ (h.silent ht) (isRunning_of_holdsTicket p moves hh)
    simpa [Client.isDue] using hdue

/-- A look finds the call ended once it is answered, or the supervisor has stopped, or its time has run out. -/
theorem Seeks.returns (h : Seeks p moves n deadline)
    (hc : (Client.after p moves).calls.contains n = true)
    (he : (Client.new p).answers n moves ≠ [] ∨ (Client.after p moves).isRunning = false ∨ deadline ≤ now) :
    ((Client.after p moves).poll now n).1.isSome = true := by
  obtain ⟨call, hcall⟩ := Option.isSome_iff_exists.1 hc
  cases h.call call hcall
  have hpolls := polls_poll (Client.after p moves) now n
  generalize ((Client.after p moves).poll now n).1 = r, ((Client.after p moves).poll now n).2 = c' at hpolls
  cases hpolls with
  | nowhere hn =>
    rw [hcall] at hn
    cases hn
  | waits hn ht hh hdue =>
    cases hcall.symm.trans hn
    exfalso
    obtain hne | hrun | hnow := he
    · exact hne (h.silent ht)
    · have := isRunning_of_holdsTicket p moves hh
      simp [hrun] at this
    · simp only [Client.isDue, Option.any_some, decide_eq_false_iff_not] at hdue
      exact hdue hnow
  | answered => rfl
  | expired => rfl

end

/-! ### Every run -/

/-- **What is true of the callers of a run who ask to be connected.** -/
structure Shared (p : Profile) (moves : List Move) : Prop where
  /-- The supervisor answers each once at most. -/
  once : ∀ n deadline, Sought p moves n deadline → ((Client.new p).answers n moves).length ≤ 1
  /-- When it takes the command of one and there is a connection, it answers at once. -/
  admits : ∀ before m later x n, moves = before ++ m :: later →
    (Client.after p before).cue? m = some x → x.input = .command (.ensureConnected n) →
    (Client.after p before).connection.phase = .connected →
    (Client.after p before).effects m = [.answer n (.ok .null)]
  /-- When there is none, the caller comes to wait for the attempt that is under way then, or that begins. -/
  parks : ∀ before m later x n, moves = before ++ m :: later →
    (Client.after p before).cue? m = some x → x.input = .command (.ensureConnected n) →
    (Client.after p before).connection.phase ≠ .connected →
    (∀ a, .answer n a ∉ (Client.after p before).effects m) ∧
      (∃ s, (Client.after p (before ++ [m])).connection.phase = .connecting s) ∧
      ParkedOn p (before ++ [m]) n (Client.after p (before ++ [m])).connection.epoch
  /-- Those wait who have come to wait for the present attempt, and nobody else. -/
  waits : ∀ n, n ∈ (Client.after p moves).connection.waiters ↔
    (∃ s, (Client.after p moves).connection.phase = .connecting s) ∧
      ParkedOn p moves n (Client.after p moves).connection.epoch
  /-- Nobody waits for two attempts. -/
  stays : ∀ n epoch epoch', ParkedOn p moves n epoch → ParkedOn p moves n epoch' → epoch = epoch'
  /-- The step in which an attempt ends answers all who wait for it, each once, all alike, and with the attempt's
  own verdict. -/
  ends : ∀ before m later s, moves = before ++ m :: later →
    (Client.after p before).connection.phase = .connecting s →
    (∀ s', (Client.after p (before ++ [m])).connection.phase ≠ .connecting s') →
    ∃ x a, (Client.after p before).cue? m = some x ∧
      (Client.after p before).Verdict x (Client.after p (before ++ [m])).connection.phase a ∧
      ∀ n, ParkedOn p before n (Client.after p before).connection.epoch →
        ((Client.after p before).effects m).filterMap (Effect.answer? n) = [a]
  /-- In no other step is any of them answered. -/
  reasons : ∀ before m later n deadline a, moves = before ++ m :: later → Sought p before n deadline →
    .answer n a ∈ (Client.after p before).effects m → ∃ x, (Client.after p before).cue? m = some x ∧
      (x.input = .command (.ensureConnected n) ∧
          (Client.after p before).connection.phase = .connected ∧ a = .ok .null ∨
        (∃ s, (Client.after p before).connection.phase = .connecting s) ∧
          ParkedOn p before n (Client.after p before).connection.epoch ∧
          (Client.after p before).Verdict x (Client.after p (before ++ [m])).connection.phase a)
  /-- An attempt begins only when there is neither an attempt nor a connection. -/
  single : ∀ before m later epoch, moves = before ++ m :: later →
    .dial epoch ∈ (Client.after p before).effects m →
    (Client.after p before).connection.phase = .disconnected
  /-- The call of each comes to one result at most. -/
  onceOver : ∀ n, ((Client.new p).collect (Client.result? n) moves).length ≤ 1
  /-- The result has its reason: the answer, or the caller's own time. -/
  comes : ∀ before now later n deadline r, moves = before ++ .poll now n :: later →
    Sought p before n deadline → ((Client.after p before).poll now n).1 = some r →
    Comes p before now n deadline r
  /-- It is there as soon as there is an answer, or nobody to give one, and in any case when the caller's time has
  run out. -/
  returns : ∀ now n deadline, Sought p moves n deadline → (Client.after p moves).calls.contains n = true →
    (Client.new p).answers n moves ≠ [] ∨ (Client.after p moves).isRunning = false ∨ deadline ≤ now →
    ((Client.after p moves).poll now n).1.isSome = true

section

variable {p : Profile} {moves : List Move} {m : Move} {n deadline : Nat} {x : Cue}

/-- The end of an attempt answers each who waits for it. -/
theorem answered_of_ended {s : Handshake} (hp : (Client.after p moves).connection.phase = .connecting s)
    (hp' : ∀ s', (Client.after p (moves ++ [m])).connection.phase ≠ .connecting s') :
    ∃ x a, (Client.after p moves).cue? m = some x ∧
      (Client.after p moves).Verdict x (Client.after p (moves ++ [m])).connection.phase a ∧
      ∀ n, ParkedOn p moves n (Client.after p moves).connection.epoch →
        ((Client.after p moves).effects m).filterMap (Effect.answer? n) = [a] := by
  have hs : (Client.after p moves).Sound := Client.sound_run p moves
  rw [Client.after_concat] at hp' ⊢
  cases hx : (Client.after p moves).cue? m with
  | none =>
    rw [Client.connection_of_idle hx] at hp'
    exact absurd hp (hp' s)
  | some x =>
    rw [Client.connection_of_cue? hx] at hp' ⊢
    obtain ⟨s', hs'⟩ | ⟨-, a, hverdict, hanswers⟩ := Client.exists_verdict hs hx hp
    · exact absurd hs' (hp' s')
    · refine ⟨x, a, rfl, hverdict, fun n hparked => ?_⟩
      obtain ⟨deadline, hsought⟩ := hparked.exists_sought
      have hseeks := seeks_run hsought
      have honce := hseeks.once
      have hpos := List.count_pos_iff.2 (((parked_run p moves).mem_iff n).2 ⟨⟨s, hp⟩, hparked⟩)
      have hone : (Client.after p moves).connection.waiters.count n = 1 := by omega
      rw [Client.effects_of_cue? hx, hanswers n, hone]
      · rfl
      · intro cmd hi hcmd
        have hmem : cmd ∈ (Client.after p moves).commands :=
          Client.commands_of_cue? hx hi ▸ List.mem_cons_self
        exact hparked.not_of_cue? hx (hseeks.commands cmd hmem hcmd ▸ hi)

/-- A caller who asks to be connected is answered at once or at the end of its attempt. -/
theorem reason_of_answer {a : Answer} (h : Sought p moves n deadline)
    (ha : .answer n a ∈ (Client.after p moves).effects m) :
    ∃ x, (Client.after p moves).cue? m = some x ∧
      (x.input = .command (.ensureConnected n) ∧
          (Client.after p moves).connection.phase = .connected ∧ a = .ok .null ∨
        (∃ s, (Client.after p moves).connection.phase = .connecting s) ∧
          ParkedOn p moves n (Client.after p moves).connection.epoch ∧
          (Client.after p moves).Verdict x (Client.after p (moves ++ [m])).connection.phase a) := by
  have hs : (Client.after p moves).Sound := Client.sound_run p moves
  have hseeks := seeks_run h
  have hmem := mem_filterMap_answer?.2 ha
  cases hx : (Client.after p moves).cue? m with
  | none =>
    rw [Client.effects_of_cue?_eq_none hx] at ha
    cases ha
  | some x =>
    refine ⟨x, rfl, ?_⟩
    rw [Client.effects_of_cue? hx] at hmem
    by_cases hi : x.input = .command (.ensureConnected n)
    · have hacts := hs.acts hx
      rw [hi] at hacts
      obtain ⟨hp, -, hes⟩ | ⟨-, -, -, hes⟩ := Connection.admits_or_parks hacts
      · rw [hes] at hmem
        simp only [List.filterMap_cons, Effect.answer?, if_true, List.filterMap_nil,
          List.mem_singleton] at hmem
        exact .inl ⟨hi, hp, hmem⟩
      · rw [hes] at hmem
        cases hmem
    · have hne := hseeks.ticket_ne_of_cue? hx hi
      have hwaits := fun hgoes => hs.phase.waits_of_acts (hs.acts hx) hgoes hne hseeks.outstanding
      refine .inr ?_
      by_cases hp : ∃ s, (Client.after p moves).connection.phase = .connecting s
      · obtain ⟨s, hp⟩ := hp
        obtain hgoes | ⟨-, b, hverdict, hanswers⟩ := Client.exists_verdict hs hx hp
        · rw [(hwaits (.inr hgoes)).2] at hmem
          cases hmem
        · rw [hanswers n hne] at hmem
          obtain ⟨hcount, rfl⟩ := List.mem_replicate.1 hmem
          have hn := List.count_pos_iff.1 (Nat.pos_of_ne_zero hcount)
          rw [Client.after_concat, Client.connection_of_cue? hx]
          exact ⟨⟨s, hp⟩, (((parked_run p moves).mem_iff n).1 hn).2, hverdict⟩
      · rw [(hwaits (.inl (not_exists.1 hp))).2] at hmem
        cases hmem

/-- A caller who comes while there is no connection comes to wait. -/
theorem parks_of_cue? (hx : (Client.after p moves).cue? m = some x)
    (hi : x.input = .command (.ensureConnected n))
    (hp : (Client.after p moves).connection.phase ≠ .connected) :
    (∀ a, .answer n a ∉ (Client.after p moves).effects m) ∧
      (∃ s, (Client.after p (moves ++ [m])).connection.phase = .connecting s) ∧
      ParkedOn p (moves ++ [m]) n (Client.after p (moves ++ [m])).connection.epoch := by
  have ha := (Client.sound_run p moves).acts hx
  rw [hi] at ha
  rw [Client.after_concat, Client.connection_of_cue? hx, Client.effects_of_cue? hx]
  obtain ⟨hp', -⟩ | ⟨-, -, hrising, hes⟩ := Connection.admits_or_parks ha
  · exact absurd hp' hp
  · refine ⟨fun a hmem => ?_, hrising, parkedOn_concat.2 (.inr ⟨x, hx, hi, hp, rfl⟩)⟩
    have hmem := mem_filterMap_answer?.2 hmem
    rw [hes] at hmem
    cases hmem

theorem admits_of_cue? (hx : (Client.after p moves).cue? m = some x)
    (hi : x.input = .command (.ensureConnected n))
    (hp : (Client.after p moves).connection.phase = .connected) :
    (Client.after p moves).effects m = [.answer n (.ok .null)] := by
  have ha := (Client.sound_run p moves).acts hx
  rw [hi] at ha
  rw [Client.effects_of_cue? hx]
  obtain ⟨-, -, hes⟩ | ⟨hp', -⟩ := Connection.admits_or_parks ha
  · exact hes
  · exact absurd hp hp'

/-- An attempt begins when there is neither an attempt nor a connection. -/
theorem disconnected_of_dial {epoch : Nat} (h : .dial epoch ∈ (Client.after p moves).effects m) :
    (Client.after p moves).connection.phase = .disconnected := by
  have hs : (Client.after p moves).Sound := Client.sound_run p moves
  cases hx : (Client.after p moves).cue? m with
  | none =>
    rw [Client.effects_of_cue?_eq_none hx] at h
    cases h
  | some x =>
    rw [Client.effects_of_cue? hx] at h
    have ha := hs.acts hx
    have hexpects := hs.expects hx
    generalize ((Client.after p moves).outcome x).1 = c', ((Client.after p moves).outcome x).2 = es at ha h
    generalize x.input = i at ha hexpects
    cases ha with
    | attempts ht => exact hs.phase.disconnected_of_attempts hexpects ht
    | _ => simp [Connection.farewells] at h

end

/-- **Callers who ask to be connected share the fate of one attempt.** In every run of a client, with any number of
them and whatever else happens, the supervisor answers each once at most: at once if there is a connection when it
takes the caller's command, and otherwise in the step in which the attempt ends for which the caller has come to
wait. All who wait for an attempt are told the same then: success if and only if that step accepts the gateway's
hello, and else why this very attempt has ended. Nobody is carried over to another attempt, and no attempt begins
while one is under way. A call returns at the latest when the caller's own time has run out, and then because the
handshake took too long. -/
theorem shared_run (p : Profile) (moves : List Move) : Shared p moves where
  once n deadline h := by
    have honce := (seeks_run h).once
    omega
  admits _ _ _ _ _ _ hx hi hp := admits_of_cue? hx hi hp
  parks _ _ _ _ _ _ hx hi hp := parks_of_cue? hx hi hp
  waits := (parked_run p moves).mem_iff
  stays _ _ _ h h' := h.eq h'
  ends _ _ _ _ _ hp hp' := answered_of_ended hp hp'
  reasons _ _ _ _ _ _ _ h ha := reason_of_answer h ha
  single _ _ _ _ _ h := disconnected_of_dial h
  onceOver n := (Client.numbered_new p).length_collect_result?_le n moves
  comes _ _ _ _ _ _ _ h hr := (seeks_run h).comes hr
  returns _ _ _ h hc he := (seeks_run h).returns hc he

-- Two callers who wait for one attempt are told alike why it has failed.
example :
    let moves : List Move := [.connect 0, .connect 0, .takeCommand 0 "unused", .takeCommand 0 "unused",
      .refused 1 "no route", .takeReport 0 "unused"]
    (Client.new localProfile).answers 0 moves = [.error (.transport "no route")] ∧
      (Client.new localProfile).answers 1 moves = [.error (.transport "no route")] := by decide +kernel

end TurnRelay.Gateway
