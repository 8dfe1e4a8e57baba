import TurnRelay.Proofs.Gateway.Places

/-!
# What is left of a client that was shut down

A client is shut down when a caller says so or when nobody holds it any more, in whatever phase it is and
whatever is under way. The supervisor bids everybody farewell in one step and stops. It never answers what is
still in its queue, so those who wait there have to find out by themselves that nobody is left to answer them;
and nobody is left to put anything into the mailboxes of streams.

## The model

* `Client.shutsDown` — a move in which the supervisor takes the last it takes.
* `Halted` — a client without a supervisor.
* `Drains` — what a stream has yielded since, and what is in its mailbox, is what was in it then.

## What is proved

* `shutDown_run` — shutting down is complete, and it is final.
-/

namespace TurnRelay.Gateway

/-! ### The last step -/

theorem findSome?_answer?_map (n : Nat) (a : Answer) (l : List Nat) :
    (l.map fun k => Effect.answer k a).findSome? (Effect.answer? n) = if n ∈ l then some a else none := by
  induction l with
  | nil => rfl
  | cons k l ih =>
    rw [List.map_cons, List.findSome?_cons]
    by_cases hk : k = n
    · simp [Effect.answer?, hk]
    · simp [Effect.answer?, hk, ih, Ne.symm hk]

namespace Connection

variable {env : Surroundings} {p : Profile} {c c' : Connection} {i : Input} {es more : List Effect} {n : Nat}

/-- The last input shuts the client down. -/
theorem acts_of_isLast (ha : Acts env p c i c' es) (hl : i.isLast = true) : c' = c.destroyed ∧
    ∃ more, es = c.farewells .destroyed ++ more ∧ ∀ e ∈ more, ∃ k a, e = .answer k a := by
  cases ha with
  | destroys => exact ⟨rfl, _, rfl, fun e he => ⟨_, _, List.mem_singleton.1 he⟩⟩
  | deserts => exact ⟨rfl, [], (List.append_nil _).symm, fun e he => absurd he List.not_mem_nil⟩
  | passes hi => cases hi <;> cases hl
  | attempts hi => cases hi <;> cases hl
  | ends hi => cases hi <;> cases hl
  | _ => cases hl

theorem findSome?_close (link : Option Nat) :
    ((link.map Effect.close).toList).findSome? (Effect.answer? n) = none := by
  cases link <;> rfl

/-- The first that the caller of an outstanding request is told is that the connection is lost. -/
theorem findSome?_farewells_of_outstanding {fault : Fault} (h : n ∈ c.outstanding.tickets) :
    (c.farewells fault ++ more).findSome? (Effect.answer? n) = some (.error .connectionLost) := by
  rw [farewells, List.findSome?_append, List.findSome?_append, List.findSome?_append, findSome?_close,
    findSome?_answer?_map, if_pos h]
  rfl

/-- The first that one is told who waits for the connection is the fault. -/
theorem findSome?_farewells_of_waits {fault : Fault} (h : n ∈ c.waiters) (hn : n ∉ c.outstanding.tickets) :
    (c.farewells fault ++ more).findSome? (Effect.answer? n) = some (.error fault) := by
  rw [farewells, List.findSome?_append, List.findSome?_append, List.findSome?_append, findSome?_close,
    findSome?_answer?_map, if_neg hn, findSome?_answer?_map, if_pos h]
  rfl

end Connection

/-- Answers leave sockets as they are. -/
theorem onSockets_eq_self {es : List Effect} (h : ∀ e ∈ es, ∃ n a, e = .answer n a) (ss : Sockets) :
    es.foldl Effect.onSockets ss = ss := by
  induction es with
  | nil => rfl
  | cons e es ih =>
    obtain ⟨n, a, rfl⟩ := h e List.mem_cons_self
    exact ih fun e' he' => h e' (List.mem_cons_of_mem _ he')

namespace Client

/-- In the move the supervisor takes the last it takes: a caller shuts the client down, or nobody holds it. -/
def shutsDown (c : Client) (m : Move) : Bool := (c.cue? m).any fun x => x.input.isLast

variable {c c' : Client} {m : Move} {n l : Nat}

/-- What the last step does. -/
structure Departs (c : Client) (m : Move) : Prop where
  /-- It clears the connection. -/
  connection : (c.move m).connection = c.connection.destroyed
  /-- The supervisor stops. -/
  running : (c.move m).isRunning = false
  /-- What is in its queue is lost. -/
  commands : (c.move m).commands = []
  /-- It says farewell. -/
  effects : ∃ more, c.effects m = c.connection.farewells .destroyed ++ more ∧
    ∀ e ∈ more, ∃ k a, e = .answer k a
  /-- Tickets are answered accordingly. -/
  tickets : (c.move m).tickets = (c.effects m).foldl Effect.onTickets c.tickets
  /-- Nothing is delivered. -/
  boxes : (c.move m).boxes = c.boxes
  /-- The socket is closed. -/
  sockets : (c.move m).sockets = (c.effects m).foldl Effect.onSockets c.sockets
  /-- Streams and calls stay as they are, and so do the numbers to come. -/
  others : (c.move m).streams = c.streams ∧ (c.move m).calls = c.calls ∧
    (c.move m).nextTicket = c.nextTicket ∧ (c.move m).nextListener = c.nextListener

theorem Sound.departs (hs : c.Sound) (h : c.shutsDown m = true) : c.Departs m := by
  obtain ⟨x, hx, hl⟩ : ∃ x, c.cue? m = some x ∧ x.input.isLast = true := by
    simpa [shutsDown, Option.any_eq_true] using h
  obtain ⟨hc, more, hes, hmore⟩ := Connection.acts_of_isLast (hs.acts hx) hl
  have heffects := effects_of_cue? hx
  have hdeliver : ∀ k e, .deliver k e ∉ (c.outcome x).2 := by
    intro k e he
    rw [hes] at he
    rcases List.mem_append.1 he with he | he
    · rcases Connection.close_or_answer_of_mem_farewells he with ⟨link, he⟩ | ⟨n, a, he⟩ <;> cases he
    · obtain ⟨n, a, he⟩ := hmore _ he
      cases he
  constructor
  · rw [move_of_cue? hx, handle_eq]
    exact hc
  · rw [move_of_cue? hx, handle_eq]
    simp [hl]
  · rw [move_of_cue? hx, handle_eq]
    exact commandsAfter_of_isLast hl
  · exact ⟨more, heffects.trans hes, hmore⟩
  · rw [move_of_cue? hx, handle_eq, heffects]
  · rw [move_of_cue? hx, handle_eq]
    exact onBoxes_eq_self hdeliver _
  · rw [move_of_cue? hx, handle_eq, heffects]
  · rw [move_of_cue? hx, handle_eq]
    exact ⟨rfl, rfl, rfl, rfl⟩

/-- The socket of the connection is told to close. -/
theorem Departs.socket {link : Nat} {queue : List Wire.Frame} {b : Bool} (h : c.Departs m)
    (hl : c.connection.link = some link) (hs : c.sockets.get? link = some (.opened queue b)) :
    (c.move m).sockets.get? link = some (.opened queue true) := by
  obtain ⟨more, hes, hmore⟩ := h.effects
  have hanswers : ∀ e ∈ c.connection.outstanding.tickets.map (fun t => Effect.answer t (.error .connectionLost)) ++
      c.connection.waiters.map (fun t => Effect.answer t (.error .destroyed)) ++ more,
      ∃ n a, e = .answer n a := by
    intro e he
    simp only [List.mem_append, List.mem_map] at he
    rcases he with (⟨k, -, rfl⟩ | ⟨k, -, rfl⟩) | he
    · exact ⟨k, _, rfl⟩
    · exact ⟨k, _, rfl⟩
    · exact hmore e he
  rw [h.sockets, hes, Connection.farewells, hl, List.append_assoc, List.append_assoc, List.foldl_append,
    ← List.append_assoc, onSockets_eq_self hanswers]
  simp [Effect.onSockets, Table.get?_modify, hs, Socket.cancel]

/-! ### Without a supervisor -/

/-- The supervisor is gone, and has left nothing behind. -/
structure Halted (c : Client) : Prop where
  /-- It is not there. -/
  running : c.isRunning = false
  /-- Its queue is gone. -/
  commands : c.commands = []
  /-- The connection was cleared. -/
  connection : ∃ d : Connection, c.connection = d.destroyed

theorem Departs.halted (h : c.Departs m) : (c.move m).Halted := ⟨h.running, h.commands, _, h.connection⟩

theorem cue?_of_not_running (h : c.isRunning = false) (m : Move) : c.cue? m = none := by
  cases hx : c.cue? m with
  | none => rfl
  | some x => exact absurd (isRunning_of_cue? hx) (by simp [h])

theorem Halted.move (h : c.Halted) (m : Move) : (c.move m).Halted := by
  have hx := cue?_of_not_running h.running m
  have hd := does_move c m
  refine ⟨(isRunning_of_does hx hd).trans h.running, ?_, by rw [connection_of_idle hx]; exact h.connection⟩
  cases grown_of_does hx hd with
  | nothing he => rw [he, h.commands]
  | plain _ he => rw [he, told_of_not_running h.running, h.commands]
  | call _ _ _ he => rw [he, told_of_not_running h.running, h.commands]

/-- **A client without a supervisor stays so**; its connection does not change, and nothing is done. -/
theorem Halted.run (h : c.Halted) (moves : List Move) : (c.run moves).Halted ∧
    (c.run moves).connection = c.connection ∧ c.gather Client.effects moves = [] := by
  induction moves using List.reverseRecOn with
  | nil => exact ⟨h, rfl, rfl⟩
  | append_singleton moves m ih =>
    obtain ⟨hh, hc, he⟩ := ih
    have hx := cue?_of_not_running hh.running m
    rw [run_concat, gather_concat, connection_of_idle hx, effects_of_cue?_eq_none hx, he]
    exact ⟨hh.move m, hc, rfl⟩

theorem Halted.holdsTicket (h : c.Halted) (n : Nat) : c.holdsTicket n = false := by
  obtain ⟨d, hd⟩ := h.connection
  simp [Client.holdsTicket, hd, h.commands, Connection.destroyed, Connection.cleared, Outstanding.holds,
    Table.values, Table.empty]

theorem Halted.feeds (h : c.Halted) (l : Nat) : c.feeds l = false := by
  obtain ⟨d, hd⟩ := h.connection
  simp [Client.feeds, hd, h.commands, Connection.destroyed, Connection.cleared, Audience.holds, Audience.empty,
    Table.values, Table.empty]

/-! ### What callers learn -/

/-- Tickets are answered no more, and new ones are waited on in vain. -/
theorem Halted.tickets (h : c.Halted) (moves : List Move) : c.nextTicket ≤ (c.run moves).nextTicket ∧
    ∀ n t, (c.run moves).tickets.get? n = some t →
      c.tickets.get? n = some t ∨ c.nextTicket ≤ n ∧ t = .waiting := by
  induction moves using List.reverseRecOn with
  | nil => exact ⟨Nat.le_refl _, fun n t ht => .inl ht⟩
  | append_singleton moves m ih =>
    have hi := idle_of_does (cue?_of_not_running (h.run moves).1.running m) (does_move (c.run moves) m)
    obtain ⟨hle, hold⟩ := ih
    rw [run_concat]
    refine ⟨Nat.le_trans hle hi.nextTicket, fun n t ht => ?_⟩
    rcases hi.tickets n t ht with ht | ⟨rfl, rfl⟩
    · exact hold n t ht
    · exact .inr ⟨hle, rfl⟩

/-- A call of a ticket that was given is as it was, or it has ended. -/
theorem calls_of_run (moves : List Move) {call : Call} (hlt : n < c.nextTicket)
    (h : (c.run moves).calls.get? n = some call) : c.calls.get? n = some call := by
  induction moves generalizing c with
  | nil => exact h
  | cons m moves ih =>
    obtain ⟨hlt', hcalls⟩ := calls_of_move m hlt
    exact hcalls call (ih hlt' h)

theorem conclude_error_of_ne {purpose : Purpose} (hp : purpose ≠ .shutdown) (f : Fault) :
    (c.conclude purpose (.error f)).1 = .error f := by
  cases purpose with
  | shutdown => exact absurd rfl hp
  | _ => rfl

/-- A look at a call that was answered with a fault finds the fault. -/
theorem poll_of_answered {call : Call} {f : Fault} (now : Nat) (hc : c.calls.get? n = some call)
    (hp : call.purpose ≠ .shutdown) (ht : c.tickets.get? n = some (.answered (.error f))) :
    (c.poll now n).1 = some (.error f) := by
  simp only [poll, hc, Tickets.ask, ht]
  exact congrArg some (conclude_error_of_ne hp f)

/-- A look at a call that nobody can answer finds that the client was shut down. -/
theorem poll_of_lost {call : Call} (now : Nat) (hc : c.calls.get? n = some call)
    (hp : call.purpose ≠ .shutdown) (ht : c.tickets.get? n = some .waiting) (hh : c.holdsTicket n = false) :
    (c.poll now n).1 = some (.error .destroyed) := by
  simp only [poll, hc, Tickets.ask, ht, hh, Bool.false_eq_true, if_false]
  exact congrArg some (conclude_error_of_ne hp .destroyed)

section

variable {p : Profile} {before : List Move} {call : Call}

/-- One who is told a fault in the last step finds it whenever it looks. -/
theorem poll_of_told {f : Fault} (now : Nat) (later : List Move) (h : (Client.after p before).shutsDown m = true)
    (ho : (Client.after p before).connection.Owes n)
    (hf : ((Client.after p before).effects m).findSome? (Effect.answer? n) = some (.error f))
    (hc : (((Client.after p before).move m).run later).calls.get? n = some call)
    (hp : call.purpose ≠ .shutdown) :
    ((((Client.after p before).move m).run later).poll now n).1 = some (.error f) := by
  have hissued : (Client.after p before).Issued := issued_run p before
  have hd := (sound_run p before).departs h
  obtain ⟨-, hcalls, hnext, -⟩ := hd.others
  have hlt : n < ((Client.after p before).move m).nextTicket := by
    rw [hnext]
    exact ho.elim (hissued.waiters n) (hissued.outstanding n)
  have hwaits : (Client.after p before).tickets.get? n = some .waiting := by
    rcases hissued.calls n call (hcalls ▸ calls_of_run later hlt hc) with hw | ⟨a, ha⟩
    · exact hw
    · exact absurd ha ((sole_run p before n).unanswered (.inr ho) a)
  have htold : ((Client.after p before).move m).tickets.get? n = some (.answered (.error f)) := by
    rw [hd.tickets, get?_onTickets, hwaits, hf]
    rfl
  -- it keeps the ticket until it looks
  have hkept : (((Client.after p before).move m).run later).tickets.get? n = some (.answered (.error f)) := by
    have hissued' : (((Client.after p before).move m).run later).Issued := by
      rw [run_move_after]
      exact issued_run p _
    obtain ⟨t, ht⟩ : ∃ t, (((Client.after p before).move m).run later).tickets.get? n = some t := by
      rcases hissued'.calls n call hc with ht | ⟨a, ht⟩ <;> exact ⟨_, ht⟩
    rcases (hd.halted.tickets later).2 n t ht with hold | ⟨hge, -⟩
    · rw [ht, ← hold, htold]
    · exact absurd hlt (Nat.not_lt.2 hge)
  exact poll_of_answered now hc hp hkept

/-- One who is told nothing in the last step finds that the client was shut down. -/
theorem poll_of_untold (now : Nat) (later : List Move) (h : (Client.after p before).shutsDown m = true)
    (hno : ∀ a, ((Client.after p before).move m).tickets.get? n ≠ some (.answered a))
    (hc : (((Client.after p before).move m).run later).calls.get? n = some call)
    (hp : call.purpose ≠ .shutdown) :
    ((((Client.after p before).move m).run later).poll now n).1 = some (.error .destroyed) := by
  have hd := (sound_run p before).departs h
  have hissued : (((Client.after p before).move m).run later).Issued := by
    rw [run_move_after]
    exact issued_run p _
  rcases hissued.calls n call hc with ht | ⟨a, ht⟩
  · exact poll_of_lost now hc hp ht ((hd.halted.run later).1.holdsTicket n)
  · rcases (hd.halted.tickets later).2 n _ ht with hold | ⟨-, he⟩
    · exact absurd hold (hno a)
    · cases he

/-- Nobody is told anything in the last step whose command is still in the queue. -/
theorem unanswered_of_queued {cmd : Command} {a : Answer} (h : (Client.after p before).shutsDown m = true)
    (hm : cmd ∈ (Client.after p before).commands) (hcmd : cmd.isDestroy = false) (hn : cmd.ticket? = some n) :
    ((Client.after p before).move m).tickets.get? n ≠ some (.answered a) := by
  have hs : (Client.after p before).Sound := sound_run p before
  have hsole := sole_run p before n
  have hbears : (Client.after p before).Bears n := ⟨cmd, hm, hn⟩
  obtain ⟨x, hx, hl⟩ : ∃ x, (Client.after p before).cue? m = some x ∧ x.input.isLast = true := by
    simpa [shutsDown, Option.any_eq_true] using h
  intro ha
  rw [move_of_cue? hx, handle_eq] at ha
  rcases answered_of_onTickets ha with ha | ⟨-, ha⟩
  · exact hsole.unanswered (.inl hbears) a ha
  · rcases Connection.owes_of_answer (hs.acts hx) ha with ho | ht
    · exact hsole.apart hbears ho
    · -- the command that is taken has a ticket of its own
      cases hi : x.input with
      | command cmd' =>
        rw [hi] at hl ht
        rw [commands_of_cue? hx hi] at hm
        rcases List.mem_cons.1 hm with rfl | hm
        · exact absurd hcmd (by simpa [Input.isLast] using hl)
        · exact hsole.not_mem_tail hx hi ht cmd hm hn
      | _ =>
        rw [hi] at ht
        cases ht

end

/-! ### What readers find -/

/-- A stream yields what was in its mailbox, `queue`, and nothing else; `ys` it has yielded so far. `isOver` holds if
it had ended before. -/
structure Drains (c : Client) (l : Nat) (queue ys : List Wire.RunEvent) (isOver : Prop) : Prop where
  /-- It yields the events in their order. -/
  inOrder : ys <+: queue
  /-- Until it ends, the others are in the mailbox. -/
  reads : ∀ s, c.streams.get? l = some s → s.isFinished = false → ys ++ (c.box l).queue = queue
  /-- So they are before the stream begins. -/
  awaits : ∀ k call, c.calls.get? k = some call → call.purpose.listener? = some l →
    ys ++ (c.box l).queue = queue
  /-- It does not end before. -/
  cut : ∀ s, c.streams.get? l = some s → s.isFinished = true → isOver ∨ concludes ys = true ∨ ys = queue
  /-- A number to come has nothing to yield. -/
  unopened : c.nextListener ≤ l → queue = []

section

variable {queue ys : List Wire.RunEvent} {isOver : Prop}

/-- The mailbox stays as it is, and so does the end of the stream. -/
theorem Drains.keep (h : c.Drains l queue ys isOver) (hl : c.nextListener ≤ c'.nextListener)
    (hb : (c'.box l) = c.box l)
    (hst : ∀ s, c'.streams.get? l = some s → ∃ s', c.streams.get? l = some s' ∧ s.isFinished = s'.isFinished)
    (hc : ∀ k call, c'.calls.get? k = some call → call.purpose.listener? = some l →
      ∃ j call', c.calls.get? j = some call' ∧ call'.purpose.listener? = some l) :
    c'.Drains l queue ys isOver := by
  refine ⟨h.inOrder, fun s hs hf => ?_, fun k call hk hcall => ?_, fun s hs hf => ?_,
    fun hle => h.unopened (Nat.le_trans hl hle)⟩
  · obtain ⟨s', hs', he⟩ := hst s hs
    rw [hb]
    exact h.reads s' hs' (he ▸ hf)
  · obtain ⟨j, call', hj, hcall'⟩ := hc k call hk hcall
    rw [hb]
    exact h.awaits j call' hj hcall'
  · obtain ⟨s', hs', he⟩ := hst s hs
    exact h.cut s' hs' (he ▸ hf)

/-- Neither a stream nor a call brings the listener. -/
theorem Drains.leave (h : c.Drains l queue ys isOver) (hl : c.nextListener ≤ c'.nextListener)
    (hst : c'.streams.get? l = none)
    (hc : ∀ k call, c'.calls.get? k = some call → call.purpose.listener? ≠ some l) :
    c'.Drains l queue ys isOver := by
  refine ⟨h.inOrder, fun s hs => ?_, fun k call hk hcall => absurd hcall (hc k call hk), fun s hs => ?_,
    fun hle => h.unopened (Nat.le_trans hl hle)⟩
  · rw [hst] at hs
    cases hs
  · rw [hst] at hs
    cases hs

/-- Its call, of all calls, ends. -/
theorem unasked_of_erase (ho : c.Housed) {k : Nat} {call : Call} (hk : c.calls.get? k = some call)
    (hcall : call.purpose.listener? = some l) :
    ∀ j call', (c.calls.erase k).get? j = some call' → call'.purpose.listener? ≠ some l := by
  intro j call' hj hcall'
  obtain ⟨hne, hj⟩ := Table.get?_erase_eq_some_iff.1 hj
  exact hne ((ho.calls k call l hk hcall).2.2 j call' hj hcall')

/-- Its call becomes a stream. -/
theorem Drains.follows {k : Nat} {call : Call} {run : String} (h : c.Drains l queue ys isOver) (ho : c.Housed)
    (hk : c.calls.get? k = some call) (hcall : call.purpose.listener? = some l) :
    ({ c with
      tickets := c.tickets.erase k, calls := c.calls.erase k,
      streams := c.streams.set l ⟨run, false, false, none⟩ } : Client).Drains l queue ys isOver := by
  refine ⟨h.inOrder, fun s hs hf => h.awaits k call hk hcall, fun j call' hj hcall' => ?_, fun s hs hf => ?_,
    h.unopened⟩
  · exact absurd hcall' (unasked_of_erase ho hk hcall j call' hj)
  · rw [Table.get?_set_self] at hs
    cases hs
    cases hf

/-- Its reader takes an event. -/
theorem Drains.takes {s : RunStream} {e : Wire.RunEvent} {rest : List Wire.RunEvent}
    (h : c.Drains l queue ys isOver) (ho : c.Housed) (hs : c.streams.get? l = some s)
    (hf : s.isFinished = false) (hq : (c.box l).queue = e :: rest) :
    ({ c with
      boxes := c.boxes.set l { c.box l with queue := rest },
      streams := c.streams.modify l
        (RunStream.pulled e.state.isTerminal e.state.isTerminal) } : Client).Drains l queue
      (ys ++ [e]) isOver := by
  have hrest : ys ++ [e] ++ rest = queue := by
    rw [List.append_assoc, List.singleton_append, ← hq]
    exact h.reads s hs hf
  have hbox : ∀ {b : Mailbox}, ((c.boxes.set l b).get? l).getD .new = b := by
    intro b
    rw [Table.get?_set_self, Option.getD_some]
  refine ⟨⟨rest, hrest⟩, fun s' _ _ => ?_, fun k call hk hcall => absurd hcall (ho.unasked hs k call hk),
    fun s' hs' hf' => ?_, h.unopened⟩
  · rw [Client.box, hbox]
    exact hrest
  · rw [Table.get?_modify, if_pos rfl, hs] at hs'
    cases hs'
    refine .inr (.inl ?_)
    rw [concludes_concat]
    simpa [RunStream.pulled, hf] using hf'

/-- Its reader finds that nothing can come any more. -/
theorem Drains.endsPull {s : RunStream} (h : c.Drains l queue ys isOver) (ho : c.Housed)
    (hs : c.streams.get? l = some s) (hend : s.isFinished = true ∨ c.isDry l = true) :
    ({ c with streams := c.streams.modify l (RunStream.pulled true false) } : Client).Drains l queue ys
      isOver := by
  refine ⟨h.inOrder, fun s' hs' hf' => ?_, fun k call hk hcall => absurd hcall (ho.unasked hs k call hk),
    fun s' _ _ => ?_, h.unopened⟩
  · rw [Table.get?_modify, if_pos rfl, hs] at hs'
    cases hs'
    simp [RunStream.pulled] at hf'
  · cases hf : s.isFinished with
    | true => exact h.cut s hs hf
    | false =>
      have hdry := hend.resolve_left (by simp [hf])
      simp only [isDry, Bool.and_eq_true, List.isEmpty_iff] at hdry
      have hq := h.reads s hs hf
      rw [hdry.1, List.append_nil] at hq
      exact .inr (.inr hq)

/-- **Every move of a client without a supervisor** lets a stream yield what is in its mailbox, if it lets it yield
anything. -/
theorem Drains.deals (h : c.Drains l queue ys isOver) (hh : c.Halted) (ho : c.Housed)
    (hl : c.nextListener ≤ c'.nextListener) (hd : Deals c l m c') :
    c'.Drains l queue (ys ++ (yielded? l c m).toList) isOver := by
  have hx := cue?_of_not_running hh.running m
  have hmodify : ∀ {f : RunStream → RunStream}, (∀ s, (f s).isFinished = s.isFinished) →
      ∀ s, (c.streams.modify l f).get? l = some s →
        ∃ s', c.streams.get? l = some s' ∧ s.isFinished = s'.isFinished := by
    intro f hf s hs
    rw [Table.get?_modify, if_pos rfl] at hs
    obtain ⟨s', hs', rfl⟩ := Option.map_eq_some_iff.1 hs
    exact ⟨s', hs', hf s'⟩
  -- moves in which the stream yields nothing
  have still : yielded? l c m = none → c'.Drains l queue ys isOver →
      c'.Drains l queue (ys ++ (yielded? l c m).toList) isOver := by
    intro hy hst
    rw [hy, Option.toList_none, List.append_nil]
    exact hst
  have hquiet : ∀ {now : Nat}, (c.pull now l).1 = .ended → yielded? l c (.pull now l) = none := by
    intro now hp
    refine yielded?_eq_none fun _ e he => ?_
    cases he
    rw [hp]
    exact fun he => nomatch he
  cases hd with
  | apart ha =>
    refine still (yielded?_eq_none ha.pull) (h.keep hl ?_ (fun s hs => ⟨s, ha.streams ▸ hs, rfl⟩)
      fun k call hk hcall => ⟨k, call, (ha.calls k call hcall).1 hk, hcall⟩)
    rw [Client.box, Client.box, ha.boxes]
  | ends hk hcall he =>
    refine still (by cases he <;> rfl) (h.leave hl (ho.calls _ _ l hk hcall).2.1 ?_)
    exact unasked_of_erase ho hk hcall
  | expires hk hcall =>
    exact still rfl (h.leave hl (ho.calls _ _ l hk hcall).2.1 (unasked_of_erase ho hk hcall))
  | follows hk hcall => exact still rfl (h.follows ho hk hcall)
  | beginsPull =>
    refine still rfl (h.keep hl rfl (hmodify fun s => ?_) fun k call hk hcall => ⟨k, call, hk, hcall⟩)
    split <;> rfl
  | leavesPull =>
    exact still rfl (h.keep hl rfl (hmodify fun s => by simp [RunStream.pulled])
      fun k call hk hcall => ⟨k, call, hk, hcall⟩)
  | takes hs hf hq hpl =>
    rw [yielded?_of_event hpl, Option.toList_some]
    exact h.takes ho hs hf hq
  | endsPull hs hend hpl => exact still (hquiet hpl) (h.endsPull ho hs hend)
  | idles hs hf ht =>
    -- nobody feeds the mailbox any more
    simp [isThirsty, hh.feeds] at ht
  | drops hs =>
    exact still rfl (h.leave hl (Table.get?_erase_self _ _) (ho.unasked hs))
  | handles hx' =>
    rw [hx] at hx'
    cases hx'

/-- The listener of a call that begins without a supervisor has nothing to yield. -/
theorem Drains.opens (h : c.Drains l queue ys isOver) (hh : c.Halted) (ho : c.Housed)
    (hl : ¬ (l < c.nextListener ∨ c'.nextListener ≤ l)) (hd : Does c m c') :
    c'.Drains l queue (ys ++ (yielded? l c m).toList) isOver := by
  rw [not_or, Nat.not_lt, Nat.not_le] at hl
  obtain ⟨hge, hlt⟩ := hl
  have hq := h.unopened hge
  have hys : ys = [] := List.prefix_nil.1 (hq ▸ h.inOrder)
  have hnone : c.streams.get? l = none := by
    cases hs : c.streams.get? l with
    | none => rfl
    | some s => exact absurd (ho.streams l s hs) (Nat.not_lt.2 hge)
  cases hd with
  | sends =>
    have he : c.nextListener = l := Nat.le_antisymm hge (Nat.le_of_lt_succ hlt)
    refine ⟨by simp [hys, yielded?], fun s hs => ?_, fun k call _ _ => ?_, fun s hs => ?_,
      fun hle => absurd hlt (Nat.not_lt.2 hle)⟩
    · exact absurd (hs : c.streams.get? l = some s) (by simp [hnone])
    · simp [hys, hq, yielded?, Client.box, he, Table.get?_set_self, Mailbox.new]
    · exact absurd (hs : c.streams.get? l = some s) (by simp [hnone])
  | subscribes hr => exact absurd hh.running (by simp [hr])
  | misses =>
    rw [show yielded? l c (.subscribe _) = none from rfl, Option.toList_none, List.append_nil]
    exact ⟨h.inOrder, h.reads, h.awaits, h.cut, fun _ => hq⟩
  | handles hx => exact absurd (isRunning_of_cue? hx) (by simp [hh.running])
  | _ => exact absurd hlt (Nat.not_lt.2 hge)

theorem Drains.move (h : c.Drains l queue ys isOver) (hh : c.Halted) (ho : c.Housed) (hn : c.Numbered)
    (m : Move) : (c.move m).Drains l queue (ys ++ (yielded? l c m).toList) isOver := by
  have hd := does_move c m
  by_cases hl : l < c.nextListener ∨ (c.move m).nextListener ≤ l
  · exact h.deals hh ho (nextListener_le_of_does hd) (deals_of_does hn hl hd)
  · exact h.opens hh ho hl hd

/-- A look at a stream finds the next of the events that were in the mailbox. -/
theorem Drains.pull_of_next {s : RunStream} {e : Wire.RunEvent} {rest : List Wire.RunEvent} (now : Nat)
    (h : c.Drains l queue ys isOver) (hs : c.streams.get? l = some s) (hf : s.isFinished = false)
    (hq : queue = ys ++ e :: rest) : (c.pull now l).1 = .event e := by
  have hb := h.reads s hs hf
  rw [hq, List.append_cancel_left_eq, Client.box] at hb
  simp [pull, hs, hf, hb, Mailbox.take]

/-- Once they are yielded it finds the end. -/
theorem Drains.pull_of_empty (now : Nat) (h : c.Drains l queue ys isOver) (hh : c.Halted) (hq : queue = ys) :
    (c.pull now l).1 = .ended := by
  cases hs : c.streams.get? l with
  | none => simp [pull, hs]
  | some s =>
    cases hf : s.isFinished with
    | true => simp [pull, hs, hf]
    | false =>
      have hb := h.reads s hs hf
      rw [hq, List.append_right_eq_self, Client.box] at hb
      simp [pull, hs, hf, hb, Mailbox.take, hh.feeds]

end

end Client

/-! ### Every run -/

/-- **What is true of a client that is shut down in the move `m`**, after whatever comes later. -/
structure ShutDown (c : Client) (m : Move) (later : List Move) : Prop where
  /-- The step answers every outstanding request: the connection is lost. -/
  pending : ∀ n ∈ c.connection.outstanding.tickets, .answer n (.error .connectionLost) ∈ c.effects m
  /-- It answers everybody who waits for the connection: the client is shut down. -/
  parked : ∀ n ∈ c.connection.waiters, .answer n (.error .destroyed) ∈ c.effects m
  /-- It has the socket of the connection closed. -/
  link : ∀ link, c.connection.link = some link → .close link ∈ c.effects m ∧ ∀ queue isCancelled,
    c.sockets.get? link = some (.opened queue isCancelled) →
      (c.move m).sockets.get? link = some (.opened queue true)
  /-- Nobody follows a run any more. -/
  audience : (c.move m).connection.audience = .empty
  /-- Neither the step nor anything later dials, or hands a frame to a socket. -/
  quiet : ∀ e ∈ c.effects m ++ (c.move m).gather Client.effects later,
    (∀ epoch, e ≠ .dial epoch) ∧ ∀ epoch f, e ≠ .send epoch f
  /-- What is published is that the client was shut down, and it stays so. -/
  published : ((c.move m).run later).connection.status = (c.move m).connection.status ∧
    ((c.move m).run later).connection.status.state = "destroyed"
  /-- Whoever looks at the call of a request that was outstanding finds the connection lost. -/
  lost : ∀ now n call, n ∈ c.connection.outstanding.tickets →
    ((c.move m).run later).calls.get? n = some call → call.purpose ≠ .shutdown →
      (((c.move m).run later).poll now n).1 = some (.error .connectionLost)
  /-- Whoever looks at another finds the client shut down: the caller waited for the connection, the command was
  still in the queue, or the call has begun since. -/
  refused : ∀ now n call, (n ∈ c.connection.waiters ∨
      (∃ cmd ∈ c.commands, cmd.isDestroy = false ∧ cmd.ticket? = some n) ∨ c.nextTicket ≤ n) →
    ((c.move m).run later).calls.get? n = some call → call.purpose ≠ .shutdown →
      (((c.move m).run later).poll now n).1 = some (.error .destroyed)
  /-- A stream yields what was in its mailbox, and nothing else. -/
  inOrder : ∀ l, (c.move m).yields l later <+: (c.box l).queue
  /-- Until it ends, a look finds the next of that. -/
  next : ∀ l s now e rest, ((c.move m).run later).streams.get? l = some s → s.isFinished = false →
    (c.box l).queue = (c.move m).yields l later ++ e :: rest →
      (((c.move m).run later).pull now l).1 = .event e
  /-- It ends before only with a terminal event, if it had not ended already. -/
  cut : ∀ l s, ((c.move m).run later).streams.get? l = some s → s.isFinished = true →
    (∃ s', c.streams.get? l = some s' ∧ s'.isFinished = true) ∨
      concludes ((c.move m).yields l later) = true ∨ (c.box l).queue = (c.move m).yields l later
  /-- Once all that is yielded, a look finds it ended. -/
  ended : ∀ l now, (c.box l).queue = (c.move m).yields l later →
    (((c.move m).run later).pull now l).1 = .ended
  /-- A stream whose command was still in the queue has ended at once. -/
  unheard : ∀ run y now, .listen run y ∈ c.commands → (((c.move m).run later).pull now y.box).1 = .ended
  /-- Nobody gets a stream by asking to follow a run. -/
  subscribe : ∀ run, (((c.move m).run later).subscribe run).1 = .error .destroyed

section

variable {p : Profile} {before : List Move} {m : Move}

open Client

/-- What every stream yields when the client was shut down. -/
theorem drains_run (h : (Client.after p before).shutsDown m = true) (l : Nat) (later : List Move) :
    (((Client.after p before).move m).run later).Drains l ((Client.after p before).box l).queue
      (((Client.after p before).move m).yields l later)
      (∃ s, (Client.after p before).streams.get? l = some s ∧ s.isFinished = true) := by
  have hd := (sound_run p before).departs h
  obtain ⟨hstreams, hcalls, -, hnext⟩ := hd.others
  have hbox : ((Client.after p before).move m).box l = (Client.after p before).box l := by
    rw [Client.box, hd.boxes, Client.box]
  induction later using List.reverseRecOn with
  | nil =>
    refine ⟨List.nil_prefix, fun s _ _ => ?_, fun k call _ _ => ?_, fun s hs hf => ?_, fun hl => ?_⟩
    · exact congrArg Mailbox.queue hbox
    · exact congrArg Mailbox.queue hbox
    · exact .inl ⟨s, hstreams ▸ hs, hf⟩
    · have hnone := unopened_run p before l (hnext ▸ hl)
      rw [Client.box, hnone]
      rfl
  | append_singleton later m' ih =>
    have hafter := run_move_after p before m later
    rw [run_concat, yields_concat]
    refine ih.move (hd.halted.run later).1 ?_ ?_ m'
    · rw [hafter]
      exact housed_run p _
    · rw [hafter]
      exact numbered_run p _

/-- Neither dialing nor sending is among the effects of the last step. -/
theorem Client.Departs.quiet {c : Client} (h : c.Departs m) :
    ∀ e ∈ c.effects m, (∀ epoch, e ≠ .dial epoch) ∧ ∀ epoch f, e ≠ .send epoch f := by
  obtain ⟨more, hes, hmore⟩ := h.effects
  intro e he
  rw [hes] at he
  rcases List.mem_append.1 he with he | he
  · rcases Connection.close_or_answer_of_mem_farewells he with ⟨link, rfl⟩ | ⟨n, a, rfl⟩ <;> simp
  · obtain ⟨n, a, rfl⟩ := hmore e he
    simp

/-- **Shutting a client down is complete, and it is final.** In every run of a client, whatever its phase and
whatever is under way, let the supervisor take a command to shut the client down, or find that nobody holds it any
more. In that step every outstanding request is answered with the loss of the connection and everybody who waits
for the connection with the client's end, the socket is closed, and nobody follows a run any more; streams yield
what is in their mailboxes and end. Whatever happens later, those whose commands were still in the queue, and those
who come later, find that the client was shut down; so it is published for good; and nothing is dialed and no frame
handed to a socket. -/
theorem shutDown_run (p : Profile) (before : List Move) (m : Move)
    (h : (Client.after p before).shutsDown m = true) (later : List Move) :
    ShutDown (Client.after p before) m later := by
  have hs : (Client.after p before).Sound := sound_run p before
  have hd := hs.departs h
  obtain ⟨more, hes, hmore⟩ := hd.effects
  obtain ⟨hhalted, hconn, hnothing⟩ := hd.halted.run later
  have hwaits : ∀ n ∈ (Client.after p before).connection.waiters,
      n ∉ (Client.after p before).connection.outstanding.tickets := by
    intro n hn
    obtain ⟨s, hp⟩ := hs.phase.connecting_of_mem_waiters hn
    exact hs.phase.outstanding_eq_empty hp
  constructor
  case pending =>
    intro n hn
    rw [hes]
    refine List.mem_append_left _ (List.mem_append_left _ (List.mem_append_right _ ?_))
    exact List.mem_map.2 ⟨n, hn, rfl⟩
  case parked =>
    intro n hn
    rw [hes]
    exact List.mem_append_left _ (List.mem_append_right _ (List.mem_map.2 ⟨n, hn, rfl⟩))
  case link =>
    intro link hl
    refine ⟨?_, fun queue isCancelled hsocket => hd.socket hl hsocket⟩
    rw [hes, Connection.farewells, hl]
    simp
  case audience =>
    rw [hd.connection]
    rfl
  case quiet =>
    rw [hnothing, List.append_nil]
    exact hd.quiet
  case published =>
    rw [hconn, hd.connection]
    exact ⟨rfl, rfl⟩
  case lost =>
    intro now n call hn hc hp
    refine poll_of_told now later h (.inr hn) ?_ hc hp
    rw [hes]
    exact Connection.findSome?_farewells_of_outstanding hn
  case refused =>
    rintro now n call (hn | ⟨cmd, hm, hcmd, hn⟩ | hn) hc hp
    · refine poll_of_told now later h (.inl hn) ?_ hc hp
      rw [hes]
      exact Connection.findSome?_farewells_of_waits hn (hwaits n hn)
    · exact poll_of_untold now later h (fun a => unanswered_of_queued h hm hcmd hn) hc hp
    · refine poll_of_untold now later h (fun a ha => ?_) hc hp
      have hold := (sole_run p (before ++ [m]) n).old a (by rw [after_concat]; exact ha)
      rw [after_concat, hd.others.2.2.1] at hold
      exact absurd hold (Nat.not_lt.2 hn)
  case inOrder => exact fun l => (drains_run h l later).inOrder
  case next => exact fun l s now e rest hstream hf hq => (drains_run h l later).pull_of_next now hstream hf hq
  case cut =>
    intro l s hstream hf
    rcases (drains_run h l later).cut s hstream hf with hover | hc | hq
    · exact .inl hover
    · exact .inr (.inl hc)
    · exact .inr (.inr hq.symm)
  case ended => exact fun l now hq => (drains_run h l later).pull_of_empty now hhalted hq
  case unheard =>
    intro run y now hm
    obtain ⟨l, rfl, ha⟩ := announced_run p before run y hm
    have hdrains := drains_run h l later
    have hnone := ha.box
    have hys := List.prefix_nil.1 (hnone ▸ hdrains.inOrder)
    exact hdrains.pull_of_empty now hhalted (hnone.trans hys.symm)
  case subscribe =>
    intro run
    simp [Client.subscribe, hhalted.running]

end

/-- A request is outstanding, an event is in the mailbox of a stream, and a caller shuts the client down; behind
it another asks to be connected. -/
def parting : List Move :=
  greeting ++ [.query 0 "q-1" (.plain "health" .null) (.ofSeconds 1), .takeCommand 0 "unused",
    .subscribe "r-1", .takeCommand 0 "unused"] ++
  arrival (.event "chat" (some (eventOf .delta).encode) none) ++ [.destroy, .connect 0]

theorem shutDown_run_parting :
    (Client.after localProfile parting).shutsDown (.takeCommand 0 "unused") = true ∧
    ShutDown (Client.after localProfile parting) (.takeCommand 0 "unused") [.pull 0 1] ∧
    ((Client.after localProfile parting).move (.takeCommand 0 "unused")).tickets.get? 1 =
      some (.answered (.error .connectionLost)) ∧
    ((Client.after localProfile parting).move (.takeCommand 0 "unused")).yields 1 [.pull 0 1] =
      [eventOf .delta] :=
  ⟨by decide +kernel, shutDown_run localProfile parting _ (by decide +kernel) _, by decide +kernel,
    by decide +kernel⟩

end TurnRelay.Gateway
