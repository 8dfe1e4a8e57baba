import TurnRelay.Proofs.Gateway.Phase

/-!
# Where requests are

A caller's request goes by a name, its answer by the number of a ticket. From the call on the request is in the
queue of commands, then among the outstanding requests, and then its ticket is answered; nothing but its own
caller makes the supervisor forget it. `Kept` says this of a client, given the names that were used so far, and
`Kept.move` that every move keeps it so if the names are new.

## What is proved

* `get?_onTickets` — what effects do to a ticket: the first answer to it counts.
* `kept_run` — after every run whose names are distinct, each name belongs to one ticket wherever it occurs,
  and each unanswered request is in the queue or outstanding, as long as the supervisor is there.
-/

namespace TurnRelay.Gateway

/-! ### Answers -/

/-- The answer that an effect gives to a ticket. -/
def Effect.answer? (n : Nat) : Effect → Option Answer
  | .answer k a => if k = n then some a else none
  | _ => none

theorem Effect.answer?_eq_some_iff {n : Nat} {e : Effect} {a : Answer} :
    e.answer? n = some a ↔ e = .answer n a := by
  cases e with
  | answer k b =>
    by_cases h : k = n
    · subst h
      simp [answer?]
    · simp [answer?, h]
  | _ => simp [answer?]

/-- Of the answers to a ticket that somebody waits for, the first counts. -/
theorem get?_onTickets (es : List Effect) (ts : Tickets) (n : Nat) :
    (es.foldl Effect.onTickets ts).get? n = (ts.get? n).map fun t =>
      if t = .waiting then ((es.findSome? (Effect.answer? n)).map Ticket.answered).getD .waiting
      else t := by
  induction es generalizing ts with
  | nil =>
    simp only [List.foldl_nil, List.findSome?_nil, Option.map_none, Option.getD_none]
    cases ts.get? n with
    | none => rfl
    | some t =>
      simp only [Option.map_some, Option.some.injEq]
      split
      · rename_i h
        exact h
      · rfl
  | cons e es ih =>
    rw [List.foldl_cons, ih, List.findSome?_cons]
    cases e with
    | answer k a =>
      simp only [Effect.onTickets, Tickets.answer, Table.get?_modify, Effect.answer?]
      by_cases hk : k = n
      · subst hk
        simp only [if_true, Option.map_map]
        congr 1
        funext t
        by_cases ht : t = .waiting <;> simp [ht]
      · simp [hk, Ne.symm hk]
    | _ => rfl

/-- A ticket that is still waited for was not answered. -/
theorem waiting_of_onTickets {es : List Effect} {ts : Tickets} {n : Nat}
    (h : (es.foldl Effect.onTickets ts).get? n = some .waiting) :
    ts.get? n = some .waiting ∧ ∀ a, .answer n a ∉ es := by
  rw [get?_onTickets] at h
  obtain ⟨t, ht, hw⟩ := Option.map_eq_some_iff.1 h
  by_cases hwait : t = .waiting
  · subst hwait
    refine ⟨ht, fun a ha => ?_⟩
    rw [if_pos rfl] at hw
    cases hf : es.findSome? (Effect.answer? n) with
    | some b => simp [hf] at hw
    | none =>
      have hn := List.findSome?_eq_none_iff.1 hf _ ha
      simp [Effect.answer?] at hn
  · rw [if_neg hwait] at hw
    exact absurd hw hwait

/-- A ticket that is answered was so before, or somebody waited for it. -/
theorem answered_of_onTickets {es : List Effect} {ts : Tickets} {n : Nat} {a : Answer}
    (h : (es.foldl Effect.onTickets ts).get? n = some (.answered a)) :
    ts.get? n = some (.answered a) ∨ ts.get? n = some .waiting ∧ .answer n a ∈ es := by
  rw [get?_onTickets] at h
  obtain ⟨t, ht, ha⟩ := Option.map_eq_some_iff.1 h
  by_cases hwait : t = .waiting
  · subst hwait
    rw [if_pos rfl] at ha
    cases hf : es.findSome? (Effect.answer? n) with
    | none => simp [hf] at ha
    | some b =>
      simp only [hf, Option.map_some, Option.getD_some, Ticket.answered.injEq] at ha
      subst ha
      obtain ⟨e, he, hb⟩ := List.exists_of_findSome?_eq_some hf
      exact .inr ⟨ht, Effect.answer?_eq_some_iff.1 hb ▸ he⟩
  · rw [if_neg hwait] at ha
    exact .inl (ha ▸ ht)

/-! ### What a step does to requests -/

namespace Connection

/-- Why a step answers a ticket. -/
inductive Replies (env : Surroundings) (c c' : Connection) (n : Nat) : Input → Answer → Prop where
  /-- It is of no request. -/
  | other {i : Input} {a : Answer} : n ∈ c.waiters ∨ i = .command (.ensureConnected n) ∨
      i = .command (.destroy n) → Replies env c c' n i a
  /-- The request cannot be sent, as the socket is gone. -/
  | socketGone {id method : String} {params : Json} {l : Option Listener} {link : Nat} :
      c.phase = .connected → c.link = some link → env.linkUp link = false →
      Replies env c c' n (.command (.request id method params n l)) (.error .connectionLost)
  /-- It cannot be sent, as there is no connection. -/
  | unconnected {id method : String} {params : Json} {l : Option Listener} :
      c.phase ≠ .connected ∨ c.link = none →
      Replies env c c' n (.command (.request id method params n l)) (.error .notConnected)
  /-- Its response has come. -/
  | response {t id : String} {ok : Bool} {payload : Option Json} {error : Option Wire.Failure}
      {r : Request} : Tidings.ofText t = .response id ok payload error → c.phase = .connected →
      c.outstanding.get? id = some r → r.ticket = n →
      Replies env c c' n (.report c.epoch (.text t)) (answerOf ok payload error)
  /-- The connection ends before. -/
  | cut {i : Input} {e : String × Request} : e ∈ c.outstanding.entries → e.2.ticket = n →
      c'.phase = .disconnected → Replies env c c' n i (.error .connectionLost)

variable {env : Surroundings} {p : Profile} {c c' : Connection} {i : Input} {es : List Effect}

theorem replies_of_farewells {n : Nat} {a : Answer} {fault : Fault} (hp : c'.phase = .disconnected)
    (h : .answer n a ∈ c.farewells fault) : Replies env c c' n i a := by
  simp only [farewells, List.mem_append, Option.mem_toList, Option.map_eq_some_iff, reduceCtorEq,
    and_false, exists_false, false_or, List.mem_map, Effect.answer.injEq, Outstanding.tickets,
    Table.values] at h
  rcases h with ⟨_, ⟨r, ⟨e, he, rfl⟩, rfl⟩, hn, rfl⟩ | ⟨k, hk, rfl, -⟩
  · exact .cut he hn hp
  · exact .other (.inl hk)

/-- **Every answer has its reason.** -/
theorem replies_of_acts {n : Nat} {a : Answer} (ha : Acts env p c i c' es) (h : .answer n a ∈ es) :
    Replies env c c' n i a := by
  cases ha with
  | admits =>
    simp only [List.mem_singleton, Effect.answer.injEq] at h
    exact .other (.inr (.inl (by rw [h.1])))
  | unsent hp hl hu =>
    simp only [List.mem_singleton, Effect.answer.injEq] at h
    obtain ⟨rfl, rfl⟩ := h
    exact .socketGone hp hl hu
  | unconnected hp =>
    simp only [List.mem_singleton, Effect.answer.injEq] at h
    obtain ⟨rfl, rfl⟩ := h
    exact .unconnected hp
  | enters ht hp =>
    simp only [List.mem_map, Effect.answer.injEq] at h
    obtain ⟨k, hk, rfl, -⟩ := h
    exact .other (.inl hk)
  | answers ht hp hr =>
    simp only [List.mem_singleton, Effect.answer.injEq] at h
    obtain ⟨rfl, rfl⟩ := h
    exact .response ht hp hr rfl
  | ends => exact replies_of_farewells rfl h
  | deserts => exact replies_of_farewells rfl h
  | destroys =>
    rcases List.mem_append.1 h with h | h
    · exact replies_of_farewells rfl h
    · simp only [List.mem_singleton, Effect.answer.injEq] at h
      exact .other (.inr (.inr (by rw [h.1])))
  | _ => simp at h

/-- A request that is outstanding after a step was so before, on the same connection, or it has just been
sent. -/
theorem InPhase.mem_outstanding_of_acts {e : String × Request} (h : c.InPhase) (hx : c.Expects i)
    (ha : Acts env p c i c' es) (he : e ∈ c'.outstanding.entries) : c'.epoch = c.epoch ∧
      (e ∈ c.outstanding.entries ∨ ∃ params, c.phase = .connected ∧
        i = .command (.request e.1 e.2.method params e.2.ticket e.2.listener) ∧
        .send c.epoch (.request e.1 e.2.method params) ∈ es) := by
  cases ha with
  | attempts ht =>
    rw [(h.isDown (h.disconnected_of_attempts hx ht)).outstanding] at he
    cases he
  | requests hp hl =>
    refine ⟨rfl, ?_⟩
    rcases Table.mem_set he with rfl | he
    · obtain rfl := h.eq_epoch_of_link hl
      exact .inr ⟨_, hp, rfl, by simp⟩
    · exact .inl he
  | forgets => exact ⟨rfl, .inl (Table.mem_erase.1 he).1⟩
  | answers => exact ⟨rfl, .inl (Table.mem_erase.1 he).1⟩
  | ends => cases he
  | destroys => cases he
  | deserts => cases he
  | _ => exact ⟨rfl, .inl he⟩

/-- What becomes of an outstanding request in a step. -/
theorem get?_outstanding_of_acts {id : String} {r : Request} (ha : Acts env p c i c' es)
    (h : c.outstanding.get? id = some r) : c'.outstanding.get? id = some r ∨
      (∃ a, .answer r.ticket a ∈ es) ∨ i = .command (.cancelRequest id) ∨
      ∃ method params n l, i = .command (.request id method params n l) ∧
        c'.outstanding.get? id = some ⟨method, n, l⟩ := by
  -- an end answers all of them
  have hend : ∀ fault, .answer r.ticket (.error .connectionLost) ∈ c.farewells fault := by
    intro fault
    have hm : r.ticket ∈ c.outstanding.tickets :=
      List.mem_map.2 ⟨r, List.mem_map.2 ⟨_, Table.mem_of_get? h, rfl⟩, rfl⟩
    simp only [farewells, List.mem_append, List.mem_map]
    exact .inl (.inr ⟨_, hm, rfl⟩)
  cases ha with
  | @requests id' method params n link l hp hl hu =>
    by_cases hid : id = id'
    · subst hid
      exact .inr (.inr (.inr ⟨_, _, _, _, rfl, Table.get?_set_self _ _ _⟩))
    · exact .inl (by rw [Table.get?_set_of_ne _ _ hid, h])
  | @forgets id' =>
    by_cases hid : id = id'
    · subst hid
      exact .inr (.inr (.inl rfl))
    · exact .inl (by rw [Table.get?_erase_of_ne _ hid, h])
  | @answers t id' ok payload error r' ht hp hr =>
    by_cases hid : id = id'
    · subst hid
      cases h.symm.trans hr
      exact .inr (.inl ⟨_, List.mem_singleton_self _⟩)
    · exact .inl (by rw [Table.get?_erase_of_ne _ hid, h])
  | ends => exact .inr (.inl ⟨_, hend _⟩)
  | destroys => exact .inr (.inl ⟨_, List.mem_append_left _ (hend _)⟩)
  | deserts => exact .inr (.inl ⟨_, hend _⟩)
  | _ => exact .inl h

/-- What becomes of a request that the supervisor takes. -/
theorem sent_or_answered_of_acts {id method : String} {params : Json} {n : Nat} {l : Option Listener}
    (ha : Acts env p c (.command (.request id method params n l)) c' es) :
    c'.outstanding.get? id = some ⟨method, n, l⟩ ∨ ∃ a, .answer n a ∈ es := by
  cases ha with
  | passes h => cases h
  | attempts h => cases h
  | ends h => cases h
  | requests => exact .inl (Table.get?_set_self _ _ _)
  | unsent => exact .inr ⟨_, List.mem_singleton_self _⟩
  | unconnected => exact .inr ⟨_, List.mem_singleton_self _⟩

/-- Who waits after a step did so before, or has just come. -/
theorem mem_waiters_of_acts {n : Nat} (ha : Acts env p c i c' es) (h : n ∈ c'.waiters) :
    n ∈ c.waiters ∨ i = .command (.ensureConnected n) := by
  cases ha with
  | parks =>
    rcases List.mem_append.1 h with h | h
    · exact .inl h
    · rw [List.mem_singleton.1 h]
      exact .inr rfl
  | attempts ht =>
    rcases List.mem_append.1 h with h | h
    · exact .inl h
    · cases ht with
      | asked =>
        rw [List.mem_singleton.1 h]
        exact .inr rfl
      | due => cases h
  | enters => cases h
  | ends => cases h
  | destroys => cases h
  | deserts => cases h
  | _ => exact .inl h

end Connection

/-! ### Names and tickets -/

/-- A command that brings no request and forgets none, and has no ticket. -/
def Command.isQuiet : Command → Bool
  | .listen _ _ => true
  | .unlisten _ _ => true
  | _ => false

namespace Client

/-- A name that was used belongs to the ticket of a number: of the calls under way, that one and no other goes
by it. -/
structure Owns (c : Client) (used : List String) (id : String) (n : Nat) : Prop where
  /-- The ticket is not one to come. -/
  old : n < c.nextTicket
  /-- The name was used. -/
  used : id ∈ used
  /-- The calls that go by it. -/
  call_iff : ∀ k call, c.calls.get? k = some call → (call.purpose.name? = some id ↔ k = n)

/-- The ticket of a number belongs to no request. -/
structure Nameless (c : Client) (n : Nat) : Prop where
  /-- It is not one to come. -/
  old : n < c.nextTicket
  /-- Its call has no name. -/
  name : ∀ call, c.calls.get? n = some call → call.purpose.name? = none

/-- A name is of no call under way, nor will it be. -/
structure Dead (c : Client) (used : List String) (id : String) : Prop where
  /-- It was used. -/
  used : id ∈ used
  /-- No call goes by it. -/
  name : ∀ k call, c.calls.get? k = some call → call.purpose.name? ≠ some id

/-- What a command says of tickets and names is right. -/
def Fits (c : Client) (used : List String) : Command → Prop
  | .ensureConnected n => c.Nameless n
  | .request id _ _ n _ => c.Owns used id n
  | .cancelRequest id => c.Dead used id
  | .destroy n => c.Nameless n
  | _ => True

/-- A request is in the queue of commands. -/
def Queued (c : Client) (id : String) (n : Nat) : Prop :=
  ∃ method params l, .request id method params n l ∈ c.commands

/-- A request is outstanding. -/
def Outstands (c : Client) (id : String) (n : Nat) : Prop :=
  ∃ r, c.connection.outstanding.get? id = some r ∧ r.ticket = n

/-- **What every move of a client keeps of its requests**, the names that were used being known. -/
structure Kept (used : List String) (c : Client) : Prop where
  /-- Tickets are those of the calls under way. -/
  ticket_iff : ∀ n, (c.tickets.get? n).isSome = true ↔ (c.calls.get? n).isSome = true
  /-- Nobody has taken an answer whose call is under way, and nobody has gone away. -/
  live : ∀ n t, c.tickets.get? n = some t → t = .waiting ∨ ∃ a, t = .answered a
  /-- Calls have tickets that were given. -/
  old : ∀ n call, c.calls.get? n = some call → n < c.nextTicket
  /-- A call's name is its own. -/
  called : ∀ n call id, c.calls.get? n = some call → call.purpose.name? = some id → c.Owns used id n
  /-- The commands in the queue are right about tickets and names. -/
  commands : ∀ cmd ∈ c.commands, c.Fits used cmd
  /-- So are the outstanding requests. -/
  outstanding : ∀ e ∈ c.connection.outstanding.entries, c.Owns used e.1 e.2.ticket
  /-- Those who wait for the connection have sent no request. -/
  waiters : ∀ n ∈ c.connection.waiters, c.Nameless n
  /-- A request without an answer is in the queue or outstanding. -/
  placed : ∀ n call id, c.calls.get? n = some call → call.purpose.name? = some id →
    c.tickets.get? n = some .waiting → c.isRunning = true → c.Queued id n ∨ c.Outstands id n
  /-- Without a supervisor there are no commands. -/
  stopped : c.isRunning = false → c.commands = []

theorem kept_new (p : Profile) : (Client.new p).Kept [] := by
  refine ⟨fun n => Iff.rfl, (fun _ _ h => nomatch h), (fun _ _ h => nomatch h), (fun _ _ _ h => nomatch h),
    (fun _ h => nomatch h), (fun _ h => nomatch h), (fun _ h => nomatch h), (fun _ _ _ h => nomatch h),
    fun h => nomatch h⟩

section

variable {c c' : Client} {used used' : List String} {id : String} {n : Nat}

/-! ### Calls come and go -/

/-- The calls of a client are those of another, but for one that has a new ticket and, perhaps, a new name. -/
structure Grows (used used' : List String) (c c' : Client) : Prop where
  /-- Tickets that were given stay so. -/
  nextTicket : c.nextTicket ≤ c'.nextTicket
  /-- Names that were used stay so. -/
  names : ∀ id ∈ used, id ∈ used'
  /-- The calls. -/
  calls : ∀ k call, c'.calls.get? k = some call → c.calls.get? k = some call ∨
    k = c.nextTicket ∧ ∀ id, call.purpose.name? = some id → id ∉ used

theorem Grows.of_eq (hn : c'.nextTicket = c.nextTicket) (hc : c'.calls = c.calls) :
    Grows used used c c' :=
  ⟨Nat.le_of_eq hn.symm, fun _ h => h, fun _ _ h => .inl (hc ▸ h)⟩

theorem Grows.of_erase (hn : c'.nextTicket = c.nextTicket) (hc : c'.calls = c.calls.erase n) :
    Grows used used c c' :=
  ⟨Nat.le_of_eq hn.symm, fun _ h => h, fun _ _ h => .inl (Table.get?_of_erase (hc ▸ h))⟩

theorem Grows.of_set {call : Call} {name : Option String} (hn : c'.nextTicket = c.nextTicket + 1)
    (hc : c'.calls = c.calls.set c.nextTicket call) (hname : call.purpose.name? = name)
    (hfresh : ∀ id ∈ name, id ∉ used) : Grows used (used ++ name.toList) c c' := by
  refine ⟨by omega, fun _ h => List.mem_append_left _ h, fun k call' h => ?_⟩
  rw [hc, Table.get?_set] at h
  split at h
  · rename_i hk
    cases h
    exact .inr ⟨hk, fun id hid => hfresh id (hname.symm.trans hid)⟩
  · exact .inl h

theorem Owns.grows (h : c.Owns used id n) (hg : Grows used used' c c') : c'.Owns used' id n := by
  refine ⟨Nat.lt_of_lt_of_le h.old hg.nextTicket, hg.names id h.used, fun k call hk => ?_⟩
  rcases hg.calls k call hk with hk | ⟨rfl, hid⟩
  · exact h.call_iff k call hk
  · refine ⟨fun he => absurd h.used (hid id he), fun he => ?_⟩
    exact absurd h.old (by omega)

theorem Nameless.grows (h : c.Nameless n) (hg : Grows used used' c c') : c'.Nameless n := by
  refine ⟨Nat.lt_of_lt_of_le h.old hg.nextTicket, fun call hk => ?_⟩
  rcases hg.calls n call hk with hk | ⟨hn, -⟩
  · exact h.name call hk
  · exact absurd h.old (by omega)

theorem Dead.grows (h : c.Dead used id) (hg : Grows used used' c c') : c'.Dead used' id := by
  refine ⟨hg.names id h.used, fun k call hk => ?_⟩
  rcases hg.calls k call hk with hk | ⟨-, hid⟩
  · exact h.name k call hk
  · exact fun he => hid id he h.used

theorem Fits.grows {cmd : Command} (h : c.Fits used cmd) (hg : Grows used used' c c') :
    c'.Fits used' cmd := by
  cases cmd with
  | ensureConnected n => exact Nameless.grows h hg
  | request id method params n l => exact Owns.grows h hg
  | cancelRequest id => exact Dead.grows h hg
  | listen run l => trivial
  | unlisten run l => trivial
  | destroy n => exact Nameless.grows h hg

/-! ### Moves of callers and readers -/

theorem mem_told {cmd cmd' : Command} (h : cmd' ∈ c.told cmd) : cmd' ∈ c.commands ∨ cmd' = cmd := by
  unfold told at h
  split at h
  · simpa [or_comm] using h
  · exact .inl h

theorem mem_told_of_mem {cmd cmd' : Command} (h : cmd' ∈ c.commands) : cmd' ∈ c.told cmd := by
  unfold told
  split
  · exact List.mem_append_left _ h
  · exact h

theorem mem_told_self {cmd : Command} (h : c.isRunning = true) : cmd ∈ c.told cmd := by
  simp [told, h]

theorem told_of_not_running {cmd : Command} (h : c.isRunning = false) : c.told cmd = c.commands := by
  simp [told, h]

/-- The supervisor takes nothing. It may be told one more thing, of which something is known. -/
structure Leaves (P : Command → Prop) (c c' : Client) : Prop where
  /-- The connection. -/
  connection : c'.connection = c.connection
  /-- Whether there is a supervisor. -/
  running : c'.isRunning = c.isRunning
  /-- The queue of commands. -/
  commands : c'.commands = c.commands ∨ ∃ cmd, P cmd ∧ c'.commands = c.told cmd

section

variable {P : Command → Prop} (hl : Leaves P c c')

include hl

theorem Leaves.mem {x : Command} (hx : x ∈ c.commands) : x ∈ c'.commands := by
  rcases hl.commands with he | ⟨cmd, -, he⟩
  · exact he ▸ hx
  · exact he ▸ mem_told_of_mem hx

theorem Leaves.mem_or {x : Command} (hx : x ∈ c'.commands) : x ∈ c.commands ∨ P x := by
  rcases hl.commands with he | ⟨cmd, hp, he⟩
  · exact .inl (he ▸ hx)
  · rcases mem_told (he ▸ hx) with hx | rfl
    · exact .inl hx
    · exact .inr hp

/-- Where there is no supervisor there are no new commands. -/
theorem Leaves.eq_nil (h : c.isRunning = false → c.commands = []) (hrun : c'.isRunning = false) :
    c'.commands = [] := by
  have hrun' : c.isRunning = false := hl.running ▸ hrun
  rcases hl.commands with he | ⟨cmd, -, he⟩
  · rw [he]
    exact h hrun'
  · rw [he, told_of_not_running hrun']
    exact h hrun'

/-- A request stays where it is. -/
theorem Leaves.placed {id : String} {n : Nat} (h : c.Queued id n ∨ c.Outstands id n) :
    c'.Queued id n ∨ c'.Outstands id n := by
  rcases h with ⟨method, params, l, hm⟩ | ho
  · exact .inl ⟨method, params, l, hl.mem hm⟩
  · right
    unfold Outstands
    rw [hl.connection]
    exact ho

end

/-- A move that touches no request. -/
theorem Kept.quiet (h : c.Kept used) (ht : c'.tickets = c.tickets) (hc : c'.calls = c.calls)
    (hn : c'.nextTicket = c.nextTicket) (hl : Leaves (fun cmd => cmd.isQuiet = true) c c') :
    c'.Kept used := by
  have hg : Grows used used c c' := .of_eq hn hc
  refine ⟨by rw [ht, hc]; exact h.ticket_iff, by rw [ht]; exact h.live, by rw [hc, hn]; exact h.old, ?_, ?_,
    ?_, ?_, ?_, hl.eq_nil h.stopped⟩
  · intro n call id hcall hid
    exact (h.called n call id (hc ▸ hcall) hid).grows hg
  · intro x hx
    rcases hl.mem_or hx with hx | hq
    · exact (h.commands x hx).grows hg
    · cases x with
      | listen => trivial
      | unlisten => trivial
      | _ => cases hq
  · rw [hl.connection]
    exact fun e he => (h.outstanding e he).grows hg
  · rw [hl.connection]
    exact fun k hk => (h.waiters k hk).grows hg
  · intro n call id hcall hid hw hrun
    exact hl.placed (h.placed n call id (hc ▸ hcall) hid (ht ▸ hw) (hl.running ▸ hrun))

/-- A call and the command that belongs to it. -/
inductive Suits (n : Nat) : Call → Command → Prop where
  /-- It asks for no more than a connection. -/
  | connection {call : Call} : call.purpose.name? = none → Suits n call (.ensureConnected n)
  /-- It sends a request. -/
  | request {call : Call} {id method : String} {params : Json} {l : Option Listener} :
      call.purpose.name? = some id → Suits n call (.request id method params n l)
  /-- It shuts the client down. -/
  | destroy {call : Call} : call.purpose.name? = none → Suits n call (.destroy n)

/-- A call begins. -/
theorem Kept.begin (h : c.Kept used) {call : Call} {cmd : Command} {name : Option String}
    (hs : Suits c.nextTicket call cmd) (hname : call.purpose.name? = name)
    (hfresh : ∀ id ∈ name, id ∉ used) (hn : c'.nextTicket = c.nextTicket + 1)
    (ht : c'.tickets = c.tickets.set c.nextTicket .waiting)
    (hc : c'.calls = c.calls.set c.nextTicket call) (hcmds : c'.commands = c.told cmd)
    (hconn : c'.connection = c.connection) (hr : c'.isRunning = c.isRunning) :
    c'.Kept (used ++ name.toList) := by
  have hg : Grows used (used ++ name.toList) c c' := .of_set hn hc hname hfresh
  have hl : Leaves (fun x => x = cmd) c c' := ⟨hconn, hr, .inr ⟨cmd, rfl, hcmds⟩⟩
  have hself : c'.calls.get? c.nextTicket = some call := by rw [hc, Table.get?_set_self]
  -- the name of the new call is new, so no other call goes by it
  have howns : ∀ id, call.purpose.name? = some id → c'.Owns (used ++ name.toList) id c.nextTicket := by
    intro id hid
    have hid' : name = some id := hname.symm.trans hid
    refine ⟨by omega, by simp [hid'], fun k call' hk => ?_⟩
    rw [hc, Table.get?_set] at hk
    split at hk
    · rename_i hkn
      cases hk
      exact ⟨fun _ => hkn, fun _ => hid⟩
    · rename_i hkn
      refine ⟨fun he => ?_, fun he => absurd he hkn⟩
      exact absurd (h.called k call' id hk he).used (hfresh id hid')
  have hnone : call.purpose.name? = none → c'.Nameless c.nextTicket := by
    intro hnone
    refine ⟨by omega, fun call' hk => ?_⟩
    rw [hself] at hk
    cases hk
    exact hnone
  refine ⟨?_, ?_, ?_, ?_, ?_, ?_, ?_, ?_, hl.eq_nil h.stopped⟩
  · intro n
    rw [ht, hc, Table.get?_set, Table.get?_set]
    split
    · exact Iff.rfl
    · exact h.ticket_iff n
  · intro n t hnt
    rw [ht, Table.get?_set] at hnt
    split at hnt
    · cases hnt
      exact .inl rfl
    · exact h.live n t hnt
  · intro n call' hk
    rw [hc, Table.get?_set] at hk
    split at hk
    · omega
    · have := h.old n call' hk
      omega
  · intro n call' id hk hid
    rw [hc, Table.get?_set] at hk
    split at hk
    · rename_i hkn
      cases hk
      exact hkn ▸ howns id hid
    · exact (h.called n call' id hk hid).grows hg
  · intro x hx
    rcases hl.mem_or hx with hx | rfl
    · exact (h.commands x hx).grows hg
    · cases hs with
      | connection hno => exact hnone hno
      | request hid => exact howns _ hid
      | destroy hno => exact hnone hno
  · rw [hconn]
    exact fun e he => (h.outstanding e he).grows hg
  · rw [hconn]
    exact fun k hk => (h.waiters k hk).grows hg
  · intro n call' id hk hid hw hrun
    have hrun' : c.isRunning = true := hr ▸ hrun
    rw [hc, Table.get?_set] at hk
    split at hk
    · rename_i hkn
      cases hk
      subst hkn
      cases hs with
      | connection hno => simp [hno] at hid
      | destroy hno => simp [hno] at hid
      | request hid' =>
        rw [hid] at hid'
        cases hid'
        exact .inl ⟨_, _, _, hcmds ▸ mem_told_self hrun'⟩
    · rename_i hkn
      rw [ht, Table.get?_set_of_ne _ _ hkn] at hw
      exact hl.placed (h.placed n call' id hk hid hw hrun')

/-- A call ends; if its caller has waited too long for a request, the supervisor is to forget it. -/
theorem Kept.finish (h : c.Kept used) {call : Call} (hcall : c.calls.get? n = some call)
    (ht : c'.tickets = c.tickets.erase n) (hc : c'.calls = c.calls.erase n)
    (hn : c'.nextTicket = c.nextTicket)
    (hl : Leaves (fun cmd => ∃ id, call.purpose.name? = some id ∧ cmd = .cancelRequest id) c c') :
    c'.Kept used := by
  have hg : Grows used used c c' := .of_erase hn hc
  have hne : ∀ {k : Nat} {call' : Call}, c'.calls.get? k = some call' →
      k ≠ n ∧ c.calls.get? k = some call' :=
    fun hk => Table.get?_erase_eq_some_iff.1 (hc ▸ hk)
  refine ⟨?_, ?_, ?_, ?_, ?_, ?_, ?_, ?_, hl.eq_nil h.stopped⟩
  · intro k
    rw [ht, hc, Table.get?_erase, Table.get?_erase]
    split
    · exact Iff.rfl
    · exact h.ticket_iff k
  · intro k t hkt
    exact h.live k t (Table.get?_of_erase (ht ▸ hkt))
  · intro k call' hk
    rw [hn]
    exact h.old k call' (hne hk).2
  · intro k call' id hk hid
    exact (h.called k call' id (hne hk).2 hid).grows hg
  · intro x hx
    rcases hl.mem_or hx with hx | ⟨id, hid, rfl⟩
    · exact (h.commands x hx).grows hg
    · have ho := h.called n call id hcall hid
      refine ⟨ho.used, fun k call' hk hk' => ?_⟩
      exact (hne hk).1 ((ho.call_iff k call' (hne hk).2).1 hk')
  · rw [hl.connection]
    exact fun e he => (h.outstanding e he).grows hg
  · rw [hl.connection]
    exact fun k hk => (h.waiters k hk).grows hg
  · intro k call' id hk hid hw hrun
    obtain ⟨hkn, hk⟩ := hne hk
    rw [ht, Table.get?_erase_of_ne _ hkn] at hw
    exact hl.placed (h.placed k call' id hk hid hw (hl.running ▸ hrun))

end

/-! ### The supervisor's part -/

section

variable {c c' : Client} {used : List String} {m : Move} {x : Cue}

/-- The command that the supervisor takes is the first. -/
theorem commands_of_cue? {cmd : Command} (h : c.cue? m = some x) (hi : x.input = .command cmd) :
    c.commands = cmd :: c.commands.tail := by
  have hr := isRunning_of_cue? h
  cases m with
  | takeCommand now freshId =>
    simp only [cue?, hr, if_true] at h
    split at h
    · rename_i cmd' rest hc
      cases h
      cases hi
      rw [hc]
      rfl
    · split at h
      · cases h
      · cases h
        cases hi
  | takeReport now freshId =>
    simp only [cue?, hr, if_true, Option.map_eq_some_iff] at h
    obtain ⟨y, -, rfl⟩ := h
    cases hi
  | takeAlarm now freshId =>
    simp only [cue?, hr, if_true, Option.map_eq_some_iff] at h
    obtain ⟨a, -, rfl⟩ := h
    cases hi
  | _ => cases h

/-- A command that the supervisor does not take stays in the queue, unless it stops. -/
theorem mem_commandsAfter {i : Input} {cmd : Command} (h : cmd ∈ c.commands) (hl : i.isLast = false)
    (hi : ∀ cmd', i = .command cmd' → c.commands = cmd' :: c.commands.tail ∧ cmd ≠ cmd') :
    cmd ∈ c.commandsAfter i := by
  unfold commandsAfter
  rw [if_neg (by simp [hl])]
  split
  · rename_i cmd'
    obtain ⟨hc, hne⟩ := hi cmd' rfl
    rw [hc] at h
    exact (List.mem_cons.1 h).resolve_left hne
  · exact h

/-- A call that goes by a name is that of the ticket that the name belongs to. -/
theorem Owns.eq {id : String} {n k : Nat} {call : Call} (h : c.Owns used id n)
    (hk : c.calls.get? k = some call) (hid : call.purpose.name? = some id) : k = n :=
  (h.call_iff k call hk).1 hid

/-- The supervisor's steps keep what is known of requests. -/
theorem Kept.handle (h : c.Kept used) (hs : c.Sound) (hx : c.cue? m = some x) :
    (c.handle x).Kept used := by
  have ha := hs.acts hx
  have hrun := isRunning_of_cue? hx
  have hg : Grows used used c (c.handle x) := by
    rw [handle_eq]
    exact .of_eq rfl rfl
  have htickets : ∀ {n : Nat}, (c.handle x).tickets.get? n =
      ((c.outcome x).2.foldl Effect.onTickets c.tickets).get? n := by
    intro n
    rw [handle_eq]
  have hcalls : (c.handle x).calls = c.calls := by rw [handle_eq]
  have hconn : (c.handle x).connection = (c.outcome x).1 := by rw [handle_eq]
  have hcmds : (c.handle x).commands = c.commandsAfter x.input := by rw [handle_eq]
  have hfits : ∀ cmd, x.input = .command cmd → c.Fits used cmd := fun cmd hi =>
    h.commands cmd (commands_of_cue? hx hi ▸ List.mem_cons_self)
  refine ⟨?_, ?_, ?_, ?_, ?_, ?_, ?_, ?_, ?_⟩
  · intro n
    rw [htickets, get?_onTickets, Option.isSome_map, hcalls]
    exact h.ticket_iff n
  · intro n t ht
    rw [htickets, get?_onTickets] at ht
    obtain ⟨t', ht', rfl⟩ := Option.map_eq_some_iff.1 ht
    rcases h.live n t' ht' with rfl | ⟨a, rfl⟩
    · rw [if_pos rfl]
      cases (c.outcome x).2.findSome? (Effect.answer? n) with
      | none => exact .inl rfl
      | some a => exact .inr ⟨a, rfl⟩
    · exact .inr ⟨a, rfl⟩
  · intro n call hcall
    have := h.old n call (hcalls ▸ hcall)
    have := hg.nextTicket
    omega
  · intro n call id hcall hid
    exact (h.called n call id (hcalls ▸ hcall) hid).grows hg
  · intro cmd hcmd
    exact (h.commands cmd (mem_of_mem_commandsAfter (hcmds ▸ hcmd))).grows hg
  · intro e he
    rcases (hs.phase.mem_outstanding_of_acts (hs.expects hx) ha (hconn ▸ he)).2 with he | ⟨_, -, hi, -⟩
    · exact (h.outstanding e he).grows hg
    · exact Owns.grows (hfits _ hi) hg
  · intro n hn
    rcases Connection.mem_waiters_of_acts ha (hconn ▸ hn) with hn | hi
    · exact (h.waiters n hn).grows hg
    · exact Nameless.grows (hfits _ hi) hg
  · intro n call id hcall hid hw hrun'
    rw [hcalls] at hcall
    rw [htickets] at hw
    obtain ⟨hw, hno⟩ := waiting_of_onTickets hw
    have hlast : x.input.isLast = false := by
      rw [handle_eq] at hrun'
      simpa [hrun] using hrun'
    rcases h.placed n call id hcall hid hw hrun with ⟨method, params, l, hq⟩ | ⟨r, hr, hrn⟩
    · by_cases hi : x.input = .command (.request id method params n l)
      · -- it is its turn
        rw [hi] at ha
        rcases Connection.sent_or_answered_of_acts ha with ho | ⟨a, hans⟩
        · exact .inr ⟨_, by rw [hconn]; exact ho, rfl⟩
        · exact absurd hans (hno a)
      · refine .inl ⟨method, params, l, ?_⟩
        rw [hcmds]
        exact mem_commandsAfter hq hlast fun cmd' hi' =>
          ⟨commands_of_cue? hx hi', fun he => hi (he ▸ hi')⟩
    · rcases Connection.get?_outstanding_of_acts ha hr with ho | ⟨a, hans⟩ | hi | ⟨_, _, k, _, hi, ho⟩
      · exact .inr ⟨r, by rw [hconn]; exact ho, hrn⟩
      · exact absurd (hrn ▸ hans) (hno a)
      · exact absurd hid ((hfits _ hi).name n call hcall)
      · -- a request of the same name is that of the same caller
        exact .inr ⟨_, by rw [hconn]; exact ho, (Owns.eq (hfits _ hi) hcall hid).symm⟩
  · intro hrun'
    rw [handle_eq] at hrun'
    have hlast : x.input.isLast = true := by simpa [hrun] using hrun'
    rw [hcmds]
    unfold commandsAfter
    rw [if_pos hlast]

/-- More names make no difference. -/
theorem Kept.mono {more : List String} (h : c.Kept used) : c.Kept (used ++ more) := by
  have hg : Grows used (used ++ more) c c :=
    ⟨Nat.le_refl _, fun _ hid => List.mem_append_left _ hid, fun _ _ hk => .inl hk⟩
  exact ⟨h.ticket_iff, h.live, h.old, fun n call id hcall hid => (h.called n call id hcall hid).grows hg,
    fun cmd hcmd => (h.commands cmd hcmd).grows hg, fun e he => (h.outstanding e he).grows hg,
    fun n hn => (h.waiters n hn).grows hg, h.placed, h.stopped⟩

/-- **Every move keeps what is known of requests**, if the name it brings is new. -/
theorem Kept.does (h : c.Kept used) (hs : c.Sound) (hfresh : ∀ id ∈ m.name?, id ∉ used)
    (hd : Does c m c') : c'.Kept (used ++ m.name?.toList) := by
  cases hd with
  | waits => exact h.mono
  | holds =>
    apply Kept.mono
    exact h.quiet rfl rfl rfl ⟨rfl, rfl, .inl rfl⟩
  | calls ha =>
    cases ha with
    | connect => exact h.begin (.connection rfl) rfl hfresh rfl rfl rfl rfl rfl rfl
    | query => exact h.begin (.request rfl) rfl hfresh rfl rfl rfl rfl rfl rfl
    | destroy => exact h.begin (.destroy rfl) rfl hfresh rfl rfl rfl rfl rfl rfl
  | sends => exact h.begin (.request rfl) rfl hfresh rfl rfl rfl rfl rfl rfl
  | ends hcall =>
    apply Kept.mono
    exact h.finish hcall rfl rfl rfl ⟨rfl, rfl, .inl rfl⟩
  | expires hcall _ hid =>
    apply Kept.mono
    exact h.finish hcall rfl rfl rfl ⟨rfl, rfl, .inr ⟨_, ⟨_, hid, rfl⟩, rfl⟩⟩
  | follows hcall =>
    apply Kept.mono
    exact h.finish hcall rfl rfl rfl ⟨rfl, rfl, .inl rfl⟩
  | subscribes =>
    apply Kept.mono
    exact h.quiet rfl rfl rfl ⟨rfl, rfl, .inr ⟨_, rfl, rfl⟩⟩
  | misses =>
    apply Kept.mono
    exact h.quiet rfl rfl rfl ⟨rfl, rfl, .inl rfl⟩
  | beginsPull =>
    apply Kept.mono
    exact h.quiet rfl rfl rfl ⟨rfl, rfl, .inl rfl⟩
  | leavesPull =>
    apply Kept.mono
    exact h.quiet rfl rfl rfl ⟨rfl, rfl, .inl rfl⟩
  | takes =>
    apply Kept.mono
    exact h.quiet rfl rfl rfl ⟨rfl, rfl, .inl rfl⟩
  | endsPull =>
    apply Kept.mono
    exact h.quiet rfl rfl rfl ⟨rfl, rfl, .inl rfl⟩
  | idles =>
    apply Kept.mono
    exact h.quiet rfl rfl rfl ⟨rfl, rfl, .inr ⟨_, rfl, rfl⟩⟩
  | finds => exact h.mono
  | @drops stream s =>
    apply Kept.mono
    refine h.quiet rfl rfl rfl ⟨rfl, rfl, ?_⟩
    cases s.sawTerminal with
    | true => exact .inl rfl
    | false => exact .inr ⟨_, rfl, rfl⟩
  | handles hx => exact (h.handle hs hx).mono
  | socket =>
    apply Kept.mono
    exact h.quiet rfl rfl rfl ⟨rfl, rfl, .inl rfl⟩

end

/-! ### Moves of others than the supervisor -/

section

variable {c c' : Client} {m : Move} {n : Nat}

/-- Without its supervisor a client answers nothing: there is at most one new ticket, and somebody waits on
it. -/
structure Idle (c c' : Client) : Prop where
  /-- The connection. -/
  connection : c'.connection = c.connection
  /-- Tickets that were given stay so. -/
  nextTicket : c.nextTicket ≤ c'.nextTicket
  /-- The tickets. -/
  tickets : ∀ n t, c'.tickets.get? n = some t →
    c.tickets.get? n = some t ∨ n = c.nextTicket ∧ t = .waiting
  /-- The calls. -/
  calls : ∀ n call, c'.calls.get? n = some call →
    c.calls.get? n = some call ∨ n = c.nextTicket ∧ n < c'.nextTicket

theorem idle_of_eq (hconn : c'.connection = c.connection) (hn : c'.nextTicket = c.nextTicket)
    (ht : c'.tickets = c.tickets) (hc : c'.calls = c.calls) : c.Idle c' :=
  ⟨hconn, Nat.le_of_eq hn.symm, fun _ _ h => .inl (ht ▸ h), fun _ _ h => .inl (hc ▸ h)⟩

theorem idle_of_set {call : Call} (hconn : c'.connection = c.connection)
    (hn : c'.nextTicket = c.nextTicket + 1) (ht : c'.tickets = c.tickets.set c.nextTicket .waiting)
    (hc : c'.calls = c.calls.set c.nextTicket call) : c.Idle c' := by
  refine ⟨hconn, by omega, fun n t h => ?_, fun n call' h => ?_⟩
  · rw [ht, Table.get?_set] at h
    split at h
    · rename_i hk
      cases h
      exact .inr ⟨hk, rfl⟩
    · exact .inl h
  · rw [hc, Table.get?_set] at h
    split at h
    · rename_i hk
      exact .inr ⟨hk, by omega⟩
    · exact .inl h

theorem idle_of_erase {k : Nat} (hconn : c'.connection = c.connection)
    (hn : c'.nextTicket = c.nextTicket) (ht : c'.tickets = c.tickets.erase k)
    (hc : c'.calls = c.calls.erase k) : c.Idle c' :=
  ⟨hconn, Nat.le_of_eq hn.symm, fun _ _ h => .inl (Table.get?_of_erase (ht ▸ h)),
    fun _ _ h => .inl (Table.get?_of_erase (hc ▸ h))⟩

theorem idle_of_does (hx : c.cue? m = none) (hd : Does c m c') : c.Idle c' := by
  cases hd with
  | calls => exact idle_of_set rfl rfl rfl rfl
  | sends => exact idle_of_set rfl rfl rfl rfl
  | ends => exact idle_of_erase rfl rfl rfl rfl
  | expires => exact idle_of_erase rfl rfl rfl rfl
  | follows => exact idle_of_erase rfl rfl rfl rfl
  | handles hx' =>
    rw [hx] at hx'
    cases hx'
  | _ => exact idle_of_eq rfl rfl rfl rfl

/-- The calls under way have tickets that were given. -/
def Numbered (c : Client) : Prop := ∀ n call, c.calls.get? n = some call → n < c.nextTicket

theorem numbered_new (p : Profile) : (Client.new p).Numbered := fun _ _ h => nomatch h

theorem Numbered.move (h : c.Numbered) (m : Move) : (c.move m).Numbered := by
  intro n call hcall
  cases hx : c.cue? m with
  | none =>
    have hi := idle_of_does hx (does_move c m)
    rcases hi.calls n call hcall with hc | ⟨-, hlt⟩
    · exact Nat.lt_of_lt_of_le (h n call hc) hi.nextTicket
    · exact hlt
  | some x =>
    rw [move_of_cue? hx, handle_eq] at hcall ⊢
    exact h n call hcall

/-- A call with a ticket that was given is as it was, or it has ended. -/
theorem calls_of_move (m : Move) (hlt : n < c.nextTicket) : n < (c.move m).nextTicket ∧
    ∀ call, (c.move m).calls.get? n = some call → c.calls.get? n = some call := by
  cases hx : c.cue? m with
  | none =>
    have hi := idle_of_does hx (does_move c m)
    refine ⟨Nat.lt_of_lt_of_le hlt hi.nextTicket, fun call hcall => ?_⟩
    rcases hi.calls n call hcall with hcall | ⟨rfl, -⟩
    · exact hcall
    · exact absurd hlt (Nat.lt_irrefl _)
  | some x =>
    rw [move_of_cue? hx, handle_eq]
    exact ⟨hlt, fun _ hcall => hcall⟩

theorem numbered_run (p : Profile) (moves : List Move) : ((Client.new p).run moves).Numbered :=
  run_induction (P := fun _ c => c.Numbered) (numbered_new p) (fun _ m h => h.move m) moves

end

end Client

/-! ### Every run -/

/-- The names of the requests of a run. -/
def names (moves : List Move) : List String := moves.filterMap Move.name?

/-- No two requests of a run go by the same name. -/
def DistinctNames (moves : List Move) : Prop := (names moves).Nodup

instance (moves : List Move) : Decidable (DistinctNames moves) :=
  inferInstanceAs (Decidable (names moves).Nodup)

theorem names_concat (moves : List Move) (m : Move) :
    names (moves ++ [m]) = names moves ++ m.name?.toList := by
  unfold names
  rw [List.filterMap_append]
  cases h : m.name? <;> simp [h]

theorem DistinctNames.of_append {before after : List Move} (h : DistinctNames (before ++ after)) :
    DistinctNames before := by
  unfold DistinctNames names at h ⊢
  rw [List.filterMap_append] at h
  exact (List.nodup_append.1 h).1

/-- **What is known of requests after every run.** -/
theorem kept_run (p : Profile) {moves : List Move} (h : DistinctNames moves) :
    ((Client.new p).run moves).Kept (names moves) := by
  refine Client.run_induction (P := fun moves c => DistinctNames moves → c.Kept (names moves))
    (fun _ => Client.kept_new p) (fun moves m ih hd => ?_) moves h
  have hk := ih hd.of_append
  unfold DistinctNames at hd
  rw [names_concat, List.nodup_append] at hd
  rw [names_concat]
  refine hk.does (Client.sound_run p moves) (fun id hid hin => ?_) (does_move _ m)
  exact hd.2.2 id hin id (Option.mem_toList.2 hid) rfl

end TurnRelay.Gateway
