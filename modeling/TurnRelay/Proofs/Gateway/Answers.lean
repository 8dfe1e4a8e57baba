import TurnRelay.Proofs.Gateway.Bookkeeping

/-!
# What requests come to

A request that a caller makes comes to one result at most, and each result has its reason: a response to this
very request on the connection that it was sent on, a connection that was lost or not there, a deadline that
has come, a client that was shut down. The reasons lie in the past of the run, so they are predicates of the
moves made so far; `Recorded` says that whatever the client has written down of its requests has happened.

## The model

* `Took`, `SentOn`, `Asked` — what happened in a run.
* `Reason` — why a step answers a request.
* `Resolves` — why a look finds the request's call ended, and with what result.

## What is proved

* `recorded_run` — after every run in which names are distinct, answers have reasons, and tickets that somebody
  waits on were not answered.
* `accounted_run` — every request comes to one result at most and to that for its reason; while it has none it
  is in the queue or outstanding on a connection.
-/

namespace TurnRelay.Gateway

/-! ### What happened in a run -/

/-- In the run, after the moves `before`, the supervisor takes something. -/
def Took (p : Profile) (moves before : List Move) (x : Cue) : Prop :=
  ∃ m later, moves = before ++ m :: later ∧ (Client.after p before).cue? m = some x

/-- In the run the request of a name is sent, for a ticket, on the connection of an epoch. -/
def SentOn (p : Profile) (moves : List Move) (id : String) (n epoch : Nat) : Prop :=
  ∃ before x method params l, Took p moves before x ∧
    x.input = .command (.request id method params n l) ∧
    (Client.after p before).connection.phase = .connected ∧
    (Client.after p before).connection.epoch = epoch ∧
    .send epoch (.request id method params) ∈ ((Client.after p before).outcome x).2

/-- No step of the run answers the ticket. -/
def Unanswered (p : Profile) (moves : List Move) (n : Nat) : Prop :=
  ∀ before x a, Took p moves before x → .answer n a ∉ ((Client.after p before).outcome x).2

/-- Why the supervisor, by what it takes after the moves `before`, answers the request of a name for a
ticket. -/
inductive Reason (p : Profile) (before : List Move) (x : Cue) (id : String) (n : Nat) : Answer → Prop where
  /-- Its response comes on the connection that it was sent on. -/
  | response {epoch : Nat} {t : String} {ok : Bool} {payload : Option Json} {error : Option Wire.Failure} :
      x.input = .report epoch (.text t) → Wire.Frame.parse? t = some (.response id ok payload error) →
      (Client.after p before).connection.phase = .connected →
      (Client.after p before).connection.epoch = epoch → SentOn p before id n epoch →
      Reason p before x id n (Connection.answerOf ok payload error)
  /-- It is to be sent, and the socket is gone. -/
  | socketGone {method : String} {params : Json} {l : Option Listener} {link : Nat} :
      x.input = .command (.request id method params n l) →
      (Client.after p before).connection.phase = .connected →
      (Client.after p before).connection.link = some link →
      (Client.after p before).sockets.isOpen link = false →
      Reason p before x id n (.error .connectionLost)
  /-- It is outstanding, and the connection ends by this step. -/
  | cut {r : Request} : (Client.after p before).connection.phase = .connected →
      (id, r) ∈ (Client.after p before).connection.outstanding.entries → r.ticket = n →
      ((Client.after p before).outcome x).1.phase = .disconnected →
      Reason p before x id n (.error .connectionLost)
  /-- It is to be sent, and there is no connection. -/
  | notConnected {method : String} {params : Json} {l : Option Listener} :
      x.input = .command (.request id method params n l) →
      (Client.after p before).connection.phase ≠ .connected →
      Reason p before x id n (.error .notConnected)

/-- In the run the request of a name, for a ticket, is answered for a reason, and was not before. -/
def AnsweredBy (p : Profile) (moves : List Move) (id : String) (n : Nat) (a : Answer) : Prop :=
  ∃ before x, Took p moves before x ∧ .answer n a ∈ ((Client.after p before).outcome x).2 ∧
    Unanswered p before n ∧ Reason p before x id n a

/-- A move begins the call of a request: its name, what it is about, and its deadline. -/
inductive Begins (c : Client) : Move → String → Purpose → Nat → Prop where
  /-- A query. -/
  | query {now : Nat} {id : String} {q : Query} {timeout : Span} :
      Begins c (.query now id q timeout) id (.query q id timeout) (now + timeout.nanos)
  /-- A run. -/
  | send {now : Nat} {id : String} {params : Wire.SendParams} :
      Begins c (.send now id params) id (.run id c.profile.requestTimeout c.nextListener)
        (now + c.profile.requestTimeout.nanos)

/-- In the run the call of a request begins: its ticket, its name, what it is about, and its deadline. -/
def Asked (p : Profile) (moves : List Move) (n : Nat) (id : String) (purpose : Purpose) (deadline : Nat) :
    Prop :=
  ∃ before m later, moves = before ++ m :: later ∧ (Client.after p before).nextTicket = n ∧
    Begins (Client.after p before) m id purpose deadline

/-- Why a look after the moves `before` finds the call of a request ended, and with what result. -/
inductive Resolves (p : Profile) (before : List Move) (now n : Nat) (id : String) (purpose : Purpose)
    (deadline : Nat) : Except Fault Yield → Prop where
  /-- The request was answered; the result is what the caller makes of the answer. -/
  | answered {a : Answer} : AnsweredBy p before id n a →
      Resolves p before now n id purpose deadline
        (((Client.after p before).endCall n).conclude purpose a).1
  /-- Its deadline has come before any answer. -/
  | timeout {method : String} {millis : Nat} : deadline ≤ now → Unanswered p before n →
      (Client.after p before).isRunning = true →
      (((Client.after p before).endCall n).expire purpose).1 = .error (.requestTimeout method millis) →
      Resolves p before now n id purpose deadline (.error (.requestTimeout method millis))
  /-- The supervisor has stopped before any answer. -/
  | destroyed : (Client.after p before).isRunning = false → Unanswered p before n →
      Resolves p before now n id purpose deadline (.error .destroyed)

section

variable {p : Profile} {moves : List Move} {m : Move}

theorem took_concat {before : List Move} {x : Cue} : Took p (moves ++ [m]) before x ↔
    Took p moves before x ∨ before = moves ∧ (Client.after p moves).cue? m = some x := by
  constructor
  · rintro ⟨m', later, he, hx⟩
    obtain ⟨rfl, rfl, -⟩ | ⟨later', -, rfl⟩ := Client.concat_eq_append_cons_iff.1 he
    · exact .inr ⟨rfl, hx⟩
    · exact .inl ⟨m', later', rfl, hx⟩
  · rintro (⟨m', later, rfl, hx⟩ | ⟨rfl, hx⟩)
    · exact ⟨m', later ++ [m], by simp, hx⟩
    · exact ⟨m, [], rfl, hx⟩

theorem SentOn.concat {id : String} {n epoch : Nat} (h : SentOn p moves id n epoch) :
    SentOn p (moves ++ [m]) id n epoch := by
  obtain ⟨before, x, method, params, l, ht, hs⟩ := h
  exact ⟨before, x, method, params, l, took_concat.2 (.inl ht), hs⟩

theorem AnsweredBy.concat {id : String} {n : Nat} {a : Answer} (h : AnsweredBy p moves id n a) :
    AnsweredBy p (moves ++ [m]) id n a := by
  obtain ⟨before, x, ht, ha⟩ := h
  exact ⟨before, x, took_concat.2 (.inl ht), ha⟩

theorem Unanswered.concat {n : Nat} (h : Unanswered p moves n)
    (hm : ∀ x a, (Client.after p moves).cue? m = some x →
      .answer n a ∉ ((Client.after p moves).outcome x).2) : Unanswered p (moves ++ [m]) n := by
  intro before x a ht
  rcases took_concat.1 ht with ht | ⟨rfl, hx⟩
  · exact h before x a ht
  · exact hm x a hx

theorem asked_concat {n : Nat} {id : String} {purpose : Purpose} {deadline : Nat} :
    Asked p (moves ++ [m]) n id purpose deadline ↔ Asked p moves n id purpose deadline ∨
      (Client.after p moves).nextTicket = n ∧ Begins (Client.after p moves) m id purpose deadline := by
  constructor
  · rintro ⟨before, m', later, he, hn, hb⟩
    obtain ⟨rfl, rfl, -⟩ | ⟨later', -, rfl⟩ := Client.concat_eq_append_cons_iff.1 he
    · exact .inr ⟨hn, hb⟩
    · exact .inl ⟨before, m', later', rfl, hn, hb⟩
  · rintro (⟨before, m', later, rfl, hn, hb⟩ | ⟨hn, hb⟩)
    · exact ⟨before, m', later ++ [m], by simp, hn, hb⟩
    · exact ⟨moves, m, [], rfl, hn, hb⟩

end

/-! ### What a client has written down -/

/-- What a client has written down of its requests has happened in the run. -/
structure Recorded (p : Profile) (moves : List Move) : Prop where
  /-- Outstanding requests were sent on the present connection. -/
  sent : ∀ e ∈ (Client.after p moves).connection.outstanding.entries,
    SentOn p moves e.1 e.2.ticket (Client.after p moves).connection.epoch
  /-- Answers have reasons. -/
  answered : ∀ n call id a, (Client.after p moves).calls.get? n = some call →
    call.purpose.name? = some id → (Client.after p moves).tickets.get? n = some (.answered a) →
    AnsweredBy p moves id n a
  /-- Tickets that somebody waits on were not answered. -/
  silent : ∀ n, (Client.after p moves).tickets.get? n = some .waiting → Unanswered p moves n
  /-- Nor were tickets to come. -/
  future : ∀ n, (Client.after p moves).nextTicket ≤ n → Unanswered p moves n
  /-- Calls of requests are as they were begun. -/
  asked : ∀ n id purpose deadline, Asked p moves n id purpose deadline →
    n < (Client.after p moves).nextTicket ∧
    ∀ call, (Client.after p moves).calls.get? n = some call → call = ⟨purpose, some deadline⟩

namespace Client

variable {c c' : Client} {m : Move}

/-- A call that has just begun is as it was begun. -/
theorem calls_of_begins {id : String} {purpose : Purpose} {deadline : Nat}
    (hb : Begins c m id purpose deadline) : (c.move m).nextTicket = c.nextTicket + 1 ∧
      (c.move m).calls.get? c.nextTicket = some ⟨purpose, some deadline⟩ := by
  cases hb with
  | query =>
    simp only [move, query, begin, tell_eq]
    exact ⟨trivial, Table.get?_set_self _ _ _⟩
  | send =>
    simp only [move, send, begin, tell_eq]
    exact ⟨trivial, Table.get?_set_self _ _ _⟩

/-- A ticket that is answered was given to somebody. -/
theorem Kept.old_of_replies {used : List String} {env : Surroundings} {x : Cue} {n : Nat} {a : Answer}
    {c' : Connection} (h : c.Kept used) (hx : c.cue? m = some x)
    (hr : Connection.Replies env c.connection c' n x.input a) : n < c.nextTicket := by
  have hfits : ∀ cmd, x.input = .command cmd → c.Fits used cmd := fun cmd hi =>
    h.commands cmd (commands_of_cue? hx hi ▸ List.mem_cons_self)
  generalize hi : x.input = i at hr
  cases hr with
  | other ho =>
    rcases ho with hw | rfl | rfl
    · exact (h.waiters n hw).old
    · exact Nameless.old (hfits _ hi)
    · exact Nameless.old (hfits _ hi)
  | socketGone => exact Owns.old (hfits _ hi)
  | unconnected => exact Owns.old (hfits _ hi)
  | response ht hp hr hn => exact hn ▸ (h.outstanding _ (Table.mem_of_get? hr)).old
  | cut he hn => exact hn ▸ (h.outstanding _ he).old

end Client

section

variable {p : Profile} {moves : List Move} {m : Move} {x : Cue}

/-- The reason for which the supervisor answers the request of a call under way. -/
theorem reason_of_replies {n : Nat} {call : Call} {id : String} {a : Answer}
    (hk : (Client.after p moves).Kept (names moves)) (hr : Recorded p moves)
    (hx : (Client.after p moves).cue? m = some x)
    (hcall : (Client.after p moves).calls.get? n = some call) (hid : call.purpose.name? = some id)
    (h : Connection.Replies ((Client.after p moves).surroundings x.now x.freshId)
      (Client.after p moves).connection ((Client.after p moves).outcome x).1 n x.input a) :
    Reason p moves x id n a := by
  have hs := Client.sound_run p moves
  have hfits : ∀ cmd, x.input = .command cmd → (Client.after p moves).Fits (names moves) cmd :=
    fun cmd hi => hk.commands cmd (Client.commands_of_cue? hx hi ▸ List.mem_cons_self)
  -- the name that a ticket belongs to is that of its call
  have hname : ∀ {id' : String}, (Client.after p moves).Owns (names moves) id' n → id' = id := by
    intro id' ho
    have := (ho.call_iff n call hcall).2 rfl
    rw [hid] at this
    cases this
    rfl
  have hnameless : ¬ (Client.after p moves).Nameless n := by
    intro ho
    have := ho.name call hcall
    rw [hid] at this
    cases this
  generalize hi : x.input = i at h
  cases h with
  | other ho =>
    rcases ho with hw | rfl | rfl
    · exact absurd (hk.waiters n hw) hnameless
    · exact absurd (hfits _ hi) hnameless
    · exact absurd (hfits _ hi) hnameless
  | socketGone hp hl hu =>
    cases hname (hfits _ hi)
    exact .socketGone hi hp hl hu
  | unconnected hp =>
    cases hname (hfits _ hi)
    refine .notConnected hi fun hc => ?_
    have hl := hp.resolve_left (by simp [hc])
    rw [(hs.phase.isUp hc).link] at hl
    cases hl
  | response ht hp hr' hn =>
    have hmem := Table.mem_of_get? hr'
    cases hname (hn ▸ hk.outstanding _ hmem)
    exact .response hi (Tidings.ofText_eq_response_iff.1 ht) hp rfl (hn ▸ hr.sent _ hmem)
  | @cut i e he hn hd =>
    obtain ⟨id', r⟩ := e
    cases hname (hn ▸ hk.outstanding _ he)
    exact .cut (hs.phase.connected_of_mem he) he hn hd

/-- The supervisor's steps write down what happens. -/
theorem Recorded.handle (h : Recorded p moves) (hk : (Client.after p moves).Kept (names moves))
    (hx : (Client.after p moves).cue? m = some x) : Recorded p (moves ++ [m]) := by
  have hs := Client.sound_run p moves
  have ha := hs.acts hx
  have hmove : Client.after p (moves ++ [m]) = (Client.after p moves).handle x := by
    rw [Client.after, Client.run_concat, Client.move_of_cue? hx]
  have htook : Took p (moves ++ [m]) moves x := took_concat.2 (.inr ⟨rfl, hx⟩)
  have hnone : ∀ {n : Nat}, (∀ a, .answer n a ∉ ((Client.after p moves).outcome x).2) →
      Unanswered p moves n → Unanswered p (moves ++ [m]) n := by
    intro n hno hu
    refine hu.concat fun x' a hx' => ?_
    rw [hx] at hx'
    cases hx'
    exact hno a
  constructor
  · intro e he
    rw [hmove, Client.handle_eq] at he ⊢
    obtain ⟨hepoch, hmem⟩ := hs.phase.mem_outstanding_of_acts (hs.expects hx) ha he
    simp only [hepoch]
    rcases hmem with hmem | ⟨params, hp, hi, hsend⟩
    · exact (h.sent e hmem).concat
    · exact ⟨moves, x, _, params, _, htook, hi, hp, rfl, hsend⟩
  · intro n call id a hcall hid hans
    rw [hmove, Client.handle_eq] at hcall hans
    rcases answered_of_onTickets hans with hans | ⟨hw, hmem⟩
    · exact (h.answered n call id a hcall hid hans).concat
    · exact ⟨moves, x, htook, hmem, h.silent n hw,
        reason_of_replies hk h hx hcall hid (Connection.replies_of_acts ha hmem)⟩
  · intro n hw
    rw [hmove, Client.handle_eq] at hw
    obtain ⟨hw, hno⟩ := waiting_of_onTickets hw
    exact hnone hno (h.silent n hw)
  · intro n hn
    rw [hmove, Client.handle_eq] at hn
    refine hnone (fun a hmem => ?_) (h.future n hn)
    have := hk.old_of_replies hx (Connection.replies_of_acts ha hmem)
    exact absurd hn (by simp only; omega)
  · intro n id purpose deadline hasked
    rw [hmove, Client.handle_eq]
    rcases asked_concat.1 hasked with hasked | ⟨-, hb⟩
    · exact h.asked n id purpose deadline hasked
    · cases hb <;> cases hx

/-- Callers and readers write down what they do. -/
theorem Recorded.idle (h : Recorded p moves) (hk : (Client.after p moves).Kept (names moves))
    (hx : (Client.after p moves).cue? m = none) : Recorded p (moves ++ [m]) := by
  have hmove : Client.after p (moves ++ [m]) = (Client.after p moves).move m := by
    rw [Client.after, Client.run_concat]
  have hi := Client.idle_of_does hx (does_move _ m)
  have hnone : ∀ {n : Nat}, Unanswered p moves n → Unanswered p (moves ++ [m]) n := by
    intro n hu
    refine hu.concat fun x a hx' => ?_
    rw [hx] at hx'
    cases hx'
  constructor
  · intro e he
    rw [hmove, hi.connection] at he ⊢
    exact (h.sent e he).concat
  · intro n call id a hcall hid hans
    rw [hmove] at hcall hans
    rcases hi.tickets n _ hans with hans | ⟨-, ht⟩
    · rcases hi.calls n call hcall with hcall | ⟨rfl, -⟩
      · exact (h.answered n call id a hcall hid hans).concat
      · -- a ticket to come has no answer
        have hsome := (hk.ticket_iff _).1 (Option.isSome_iff_exists.2 ⟨_, hans⟩)
        obtain ⟨call', hcall'⟩ := Option.isSome_iff_exists.1 hsome
        exact absurd (hk.old _ call' hcall') (Nat.lt_irrefl _)
    · cases ht
  · intro n hw
    rw [hmove] at hw
    rcases hi.tickets n _ hw with hw | ⟨rfl, -⟩
    · exact hnone (h.silent n hw)
    · exact hnone (h.future _ (Nat.le_refl _))
  · intro n hn
    rw [hmove] at hn
    exact hnone (h.future n (Nat.le_trans hi.nextTicket hn))
  · intro n id purpose deadline hasked
    rw [hmove]
    rcases asked_concat.1 hasked with hasked | ⟨rfl, hb⟩
    · obtain ⟨hlt, hcall⟩ := h.asked n id purpose deadline hasked
      refine ⟨Nat.lt_of_lt_of_le hlt hi.nextTicket, fun call hc => ?_⟩
      rcases hi.calls n call hc with hc | ⟨rfl, -⟩
      · exact hcall call hc
      · exact absurd hlt (Nat.lt_irrefl _)
    · obtain ⟨hn, hc⟩ := Client.calls_of_begins hb
      refine ⟨by omega, fun call hcall => ?_⟩
      rw [hc] at hcall
      cases hcall
      rfl

theorem recorded_new (p : Profile) : Recorded p [] := by
  have hno : ∀ n, Unanswered p [] n := by
    rintro n before x a ⟨m, later, he, -⟩
    simp at he
  refine ⟨(fun _ h => nomatch h), (fun _ _ _ _ h => nomatch h), fun n _ => hno n, fun n _ => hno n, ?_⟩
  rintro n id purpose deadline ⟨before, m, later, he, -⟩
  simp at he

/-- **What a client has written down of its requests has happened**, after every run whose names are distinct. -/
theorem recorded_run (hd : DistinctNames moves) : Recorded p moves := by
  induction moves using List.reverseRecOn with
  | nil => exact recorded_new p
  | append_singleton moves m ih =>
    have h := ih hd.of_append
    have hk := kept_run p hd.of_append
    cases hx : (Client.after p moves).cue? m with
    | none => exact h.idle hk hx
    | some x => exact h.handle hk hx

/-! ### What a look comes to -/

theorem Asked.name_eq {n : Nat} {id : String} {purpose : Purpose} {deadline : Nat}
    (h : Asked p moves n id purpose deadline) : purpose.name? = some id := by
  obtain ⟨before, m, later, -, -, hb⟩ := h
  cases hb <;> rfl

namespace Client

/-- The supervisor is there for as long as anybody could answer, if without it there are no commands. -/
theorem Sound.isRunning_of_holdsTicket {c : Client} {n : Nat} (hs : c.Sound)
    (hstopped : c.isRunning = false → c.commands = []) (hh : c.holdsTicket n = true) :
    c.isRunning = true := by
  by_contra hr
  have hr : c.isRunning = false := by simpa using hr
  have hd : c.connection.isDestroyed = true := by rw [hs.alive, hr]; rfl
  have hdown : c.connection.IsDown := by
    rcases c.connection.phase_cases with hp | ⟨s, hp⟩ | hp
    · exact hs.phase.isDown hp
    · exact absurd (hs.phase.isRising hp).alive (by simp [hd])
    · exact absurd (hs.phase.isUp hp).alive (by simp [hd])
  simp [holdsTicket, hdown.waiters, hdown.outstanding, hstopped hr, Outstanding.holds, Table.values,
    Table.empty] at hh

theorem Kept.isRunning_of_holdsTicket {c : Client} {used : List String} {n : Nat} (h : c.Kept used)
    (hs : c.Sound) (hh : c.holdsTicket n = true) : c.isRunning = true :=
  hs.isRunning_of_holdsTicket h.stopped hh

/-- A request in the queue or outstanding can be answered. -/
theorem holdsTicket_of_placed {c : Client} {id : String} {n : Nat} (h : c.Queued id n ∨ c.Outstands id n) :
    c.holdsTicket n = true := by
  simp only [holdsTicket, Bool.or_eq_true]
  rcases h with ⟨method, params, l, hm⟩ | ⟨r, hr, hn⟩
  · exact .inr (List.any_eq_true.2 ⟨_, hm, by simp [Command.ticket?]⟩)
  · have hmem : r ∈ c.connection.outstanding.values :=
      List.mem_map.2 ⟨_, Table.mem_of_get? hr, rfl⟩
    exact .inl (.inr (List.any_eq_true.2 ⟨r, hmem, by simp [hn]⟩))

/-- A fault is passed on to the caller of a request. -/
theorem conclude_error {c : Client} {purpose : Purpose} {id : String} (hid : purpose.name? = some id)
    (f : Fault) : (c.conclude purpose (.error f)).1 = .error f := by
  cases purpose with
  | connection => cases hid
  | query => rfl
  | run => rfl
  | shutdown => cases hid

/-- A request that takes too long has a method and a timeout. -/
theorem expire_eq {c : Client} {purpose : Purpose} {id : String} (hid : purpose.name? = some id) :
    ∃ method millis, (c.expire purpose).1 = .error (.requestTimeout method millis) := by
  cases purpose with
  | connection => cases hid
  | query q id timeout => exact ⟨_, _, rfl⟩
  | run id timeout l => exact ⟨_, _, rfl⟩
  | shutdown => cases hid

end Client

/-- A look that finds the call of a request ended has its reason. -/
theorem resolves_of_poll {now n : Nat} {id : String} {purpose : Purpose} {deadline : Nat}
    {r : Except Fault Yield} (hd : DistinctNames moves) (hasked : Asked p moves n id purpose deadline)
    (hr : ((Client.after p moves).poll now n).1 = some r) :
    Resolves p moves now n id purpose deadline r := by
  have hs := Client.sound_run p moves
  have hk := kept_run p hd
  have hrec : Recorded p moves := recorded_run hd
  have hid := hasked.name_eq
  have hcall := (hrec.asked n id purpose deadline hasked).2
  have hpolls := polls_poll (Client.after p moves) now n
  generalize hc : ((Client.after p moves).poll now n).2 = c' at hpolls
  rw [hr] at hpolls
  cases hpolls with
  | @answered call a hn ha =>
    cases hcall call hn
    cases ha with
    | found ht => exact .answered (hrec.answered n _ id a hn hid ht)
    | lost ht hh =>
      rw [Client.conclude_error hid]
      refine .destroyed ?_ (hrec.silent n ht)
      by_contra hrun
      have hplaced := hk.placed n _ id hn hid ht (by simpa using hrun)
      exact absurd (Client.holdsTicket_of_placed hplaced) (by simp [hh])
    | void ha hw =>
      obtain ⟨t, ht⟩ := Option.isSome_iff_exists.1 ((hk.ticket_iff n).2 (by rw [hn]; rfl))
      rcases hk.live n t ht with rfl | ⟨a, rfl⟩
      · exact absurd ht hw
      · exact absurd ht (ha a)
  | @expired call hn ht hh hdue =>
    cases hcall call hn
    obtain ⟨method, millis, he⟩ := Client.expire_eq (c := (Client.after p moves).endCall n) hid
    simp only [he]
    refine .timeout ?_ (hrec.silent n ht) (hk.isRunning_of_holdsTicket hs hh) he
    simpa [Client.isDue] using hdue

end

/-! ### Results -/

namespace Client

/-- What a move, if it is a look at the call, comes to. -/
def result? (n : Nat) (c : Client) : Move → Option (Except Fault Yield)
  | .poll now k => if k = n then (c.poll now n).1 else none
  | _ => none

variable {c c' : Client} {m : Move} {n : Nat}

/-- A call that has ended comes to no further result. -/
theorem collect_result?_eq_nil (moves : List Move) (hlt : n < c.nextTicket)
    (hn : c.calls.get? n = none) : c.collect (result? n) moves = [] := by
  induction moves generalizing c with
  | nil => rfl
  | cons m moves ih =>
    obtain ⟨hlt', hcalls⟩ := calls_of_move m hlt
    have hn' : (c.move m).calls.get? n = none := by
      cases hc : (c.move m).calls.get? n with
      | none => rfl
      | some call =>
        rw [hcalls call hc] at hn
        cases hn
    rw [collect_cons, ih hlt' hn']
    cases m with
    | poll now k => simp [result?, poll, hn]
    | _ => rfl

theorem conclude_calls (purpose : Purpose) (a : Answer) :
    (c.conclude purpose a).2.calls = c.calls ∧ (c.conclude purpose a).2.nextTicket = c.nextTicket := by
  cases purpose with
  | run id timeout l =>
    cases a with
    | error f => exact ⟨rfl, rfl⟩
    | ok v =>
      simp only [conclude]
      split <;> exact ⟨rfl, rfl⟩
  | _ => exact ⟨rfl, rfl⟩

theorem expire_calls (purpose : Purpose) :
    (c.expire purpose).2.calls = c.calls ∧ (c.expire purpose).2.nextTicket = c.nextTicket := by
  cases purpose with
  | connection => exact ⟨rfl, rfl⟩
  | shutdown => exact ⟨rfl, rfl⟩
  | _ => simp only [expire, tell_eq, and_self]

/-- A call of which a look has found that it has ended is no longer under way. -/
theorem calls_of_result? {r : Except Fault Yield} (h : result? n c m = some r) :
    (∃ call, c.calls.get? n = some call) ∧ (c.move m).nextTicket = c.nextTicket ∧
      (c.move m).calls.get? n = none := by
  cases m with
  | poll now k =>
    by_cases hk : k = n
    · subst hk
      simp only [result?, if_true] at h
      simp only [move]
      have hpolls := polls_poll c now k
      generalize hc : (c.poll now k).2 = c' at hpolls
      rw [h] at hpolls
      cases hpolls with
      | @answered call a hn =>
        obtain ⟨hcalls, hnext⟩ := conclude_calls (c := c.endCall k) call.purpose a
        exact ⟨⟨call, hn⟩, hnext, by rw [hcalls]; exact Table.get?_erase_self _ _⟩
      | @expired call hn =>
        obtain ⟨hcalls, hnext⟩ := expire_calls (c := c.endCall k) call.purpose
        exact ⟨⟨call, hn⟩, hnext, by rw [hcalls]; exact Table.get?_erase_self _ _⟩
    · simp [result?, hk] at h
  | _ => cases h

/-- **A call comes to one result at most.** -/
theorem Numbered.length_collect_result?_le (h : c.Numbered) (n : Nat) (moves : List Move) :
    (c.collect (result? n) moves).length ≤ 1 := by
  induction moves generalizing c with
  | nil => exact Nat.zero_le _
  | cons m moves ih =>
    rw [collect_cons, List.length_append]
    cases hr : result? n c m with
    | none => simpa using ih (h.move m)
    | some r =>
      obtain ⟨⟨call, hcall⟩, hnext, hnone⟩ := calls_of_result? hr
      have hlt : n < (c.move m).nextTicket := hnext ▸ h n call hcall
      rw [collect_result?_eq_nil moves hlt hnone]
      exact Nat.le_refl 1

end Client

/-! ### Every run -/

/-- **What is true of the requests of a run.** -/
structure Accounted (p : Profile) (moves : List Move) : Prop where
  /-- Each comes to one result at most. -/
  once : ∀ n, ((Client.new p).collect (Client.result? n) moves).length ≤ 1
  /-- Each result has its reason. -/
  explained : ∀ before later now n id purpose deadline r, moves = before ++ .poll now n :: later →
    Asked p before n id purpose deadline → ((Client.after p before).poll now n).1 = some r →
    Resolves p before now n id purpose deadline r
  /-- A request without an answer, whose caller has not given up, is in the queue, or it is outstanding and
  there is a connection. -/
  placed : ∀ n id purpose deadline, Asked p moves n id purpose deadline →
    (Client.after p moves).calls.contains n = true → (Client.after p moves).tickets.isWaiting n = true →
    (Client.after p moves).isRunning = true → (Client.after p moves).Queued id n ∨
      (Client.after p moves).Outstands id n ∧ (Client.after p moves).connection.phase = .connected
  /-- Once there is an answer, or nobody to give one, or the deadline has come, a look finds the call ended. -/
  ends : ∀ now n id purpose deadline, Asked p moves n id purpose deadline →
    (Client.after p moves).calls.contains n = true →
    (Client.after p moves).tickets.isWaiting n = false ∨ (Client.after p moves).isRunning = false ∨
      deadline ≤ now → ((Client.after p moves).poll now n).1.isSome = true
  /-- A response on a connection to a request that is not outstanding changes nothing. -/
  unknown : ∀ m now freshId epoch t id ok payload error,
    (Client.after p moves).cue? m = some ⟨now, freshId, .report epoch (.text t)⟩ →
    Wire.Frame.parse? t = some (.response id ok payload error) →
    (Client.after p moves).connection.phase = .connected →
    (Client.after p moves).connection.outstanding.get? id = none →
    (Client.after p moves).move m =
      { Client.after p moves with reports := (Client.after p moves).reports.tail }

section

variable {p : Profile} {moves : List Move}

/-- What is known of requests says where they are. -/
theorem placed_of_kept {n : Nat} {id : String} {purpose : Purpose} {deadline : Nat}
    (hd : DistinctNames moves) (hasked : Asked p moves n id purpose deadline)
    (hc : (Client.after p moves).calls.contains n = true)
    (hw : (Client.after p moves).tickets.isWaiting n = true)
    (hrun : (Client.after p moves).isRunning = true) : (Client.after p moves).Queued id n ∨
      (Client.after p moves).Outstands id n ∧ (Client.after p moves).connection.phase = .connected := by
  obtain ⟨call, hcall⟩ := Option.isSome_iff_exists.1 hc
  cases ((recorded_run hd).asked n id purpose deadline hasked).2 call hcall
  have hwait : (Client.after p moves).tickets.get? n = some .waiting := of_decide_eq_true hw
  rcases (kept_run p hd).placed n _ id hcall hasked.name_eq hwait hrun with hq | ⟨r, hr, hn⟩
  · exact .inl hq
  · refine .inr ⟨⟨r, hr, hn⟩, ?_⟩
    exact (Client.sound_run p moves).phase.connected_of_mem (Table.mem_of_get? hr)

theorem poll_ends {now n : Nat} {id : String} {purpose : Purpose} {deadline : Nat}
    (hd : DistinctNames moves) (hasked : Asked p moves n id purpose deadline)
    (hc : (Client.after p moves).calls.contains n = true)
    (he : (Client.after p moves).tickets.isWaiting n = false ∨ (Client.after p moves).isRunning = false ∨
      deadline ≤ now) : ((Client.after p moves).poll now n).1.isSome = true := by
  obtain ⟨call, hcall⟩ := Option.isSome_iff_exists.1 hc
  cases ((recorded_run hd).asked n id purpose deadline hasked).2 call hcall
  have hpolls := polls_poll (Client.after p moves) now n
  generalize ((Client.after p moves).poll now n).1 = r, ((Client.after p moves).poll now n).2 = c' at hpolls
  cases hpolls with
  | nowhere hn =>
    rw [hcall] at hn
    cases hn
  | waits hn ht hh hdue =>
    cases hcall.symm.trans hn
    exfalso
    rcases he with hw | hrun | hnow
    · simp [Tickets.isWaiting, ht] at hw
    · have := (kept_run p hd).isRunning_of_holdsTicket (Client.sound_run p moves) hh
      simp [hrun] at this
    · simp [Client.isDue] at hdue
      omega
  | answered => rfl
  | expired => rfl

/-- A response to a request that is not outstanding is passed over. -/
theorem move_of_unknown {c : Client} {m : Move} {now epoch : Nat} {freshId t id : String} {ok : Bool}
    {payload : Option Json} {error : Option Wire.Failure}
    (hx : c.cue? m = some ⟨now, freshId, .report epoch (.text t)⟩)
    (ht : Wire.Frame.parse? t = some (.response id ok payload error))
    (hp : c.connection.phase = .connected) (hn : c.connection.outstanding.get? id = none) :
    c.move m = { c with reports := c.reports.tail } := by
  have ho : c.outcome ⟨now, freshId, .report epoch (.text t)⟩ = (c.connection, []) := by
    simp only [Client.outcome, Connection.handle]
    unfold Connection.report
    split
    · rfl
    · simp [Connection.text, ht, Connection.response, hp, Connection.answerRequest, hn]
  have hrun := Client.isRunning_of_cue? hx
  rw [Client.move_of_cue? hx, Client.handle_eq, ho]
  simp [Client.commandsAfter, Client.reportsAfter, Input.isLast]

/-- **Every request comes to one result at most, and to that for its reason.** In every run of a client in which
the names of requests are distinct, a request's call comes to one result at most. It is what the caller makes of
a response that carries the request's name and came on the connection that the request was sent on; or that the
connection was lost, when the socket was gone as the request was to be sent, or when the connection ended while
the request was outstanding; or that there was no connection, when the request was to be sent; or that no answer
came before the deadline; or that the client was shut down. While there is no result the request is in the queue
of commands, or outstanding on a connection. -/
theorem accounted_run (p : Profile) (moves : List Move) (hd : DistinctNames moves) : Accounted p moves where
  once n := (Client.numbered_new p).length_collect_result?_le n moves
  explained before later now n id purpose deadline r he hasked hr := by
    subst he
    exact resolves_of_poll hd.of_append hasked hr
  placed _ _ _ _ hasked hc hw hrun := placed_of_kept hd hasked hc hw hrun
  ends _ _ _ _ _ hasked hc he := poll_ends hd hasked hc he
  unknown _ _ _ _ _ _ _ _ _ hx ht hp hn := move_of_unknown hx ht hp hn

end

/-- A query is sent and answered. -/
def answeredQuery : List Move :=
  greeting ++ [.query 0 "q-1" (.plain "health" .null) (.ofSeconds 1), .takeCommand 0 "unused"] ++
  arrival (.response "q-1" true (some (.string "fine")) none)

theorem accounted_run_answeredQuery : DistinctNames answeredQuery ∧
    Accounted localProfile answeredQuery ∧
    (Client.after localProfile answeredQuery).tickets.get? 1 = some (.answered (.ok (.string "fine"))) :=
  ⟨by decide +kernel, accounted_run localProfile answeredQuery (by decide +kernel), by decide +kernel⟩

end TurnRelay.Gateway
