import TurnRelay.Gateway.Client
import TurnRelay.Proofs.Table
import Mathlib.Data.List.Induction

/-!
# Runs of a client

Callers, readers, the supervisor, the tasks of the sockets and the gateway behind them act on a client in
any order. A run of a client is a list of moves, each by one of them; a move that is not possible where it
stands changes nothing, so every list of moves is a run.

## The model

* `Move`, `Client.move`, `Client.run` — what can happen, and what becomes of the client.
* `Cue`, `Client.cue?`, `Client.handle` — what the supervisor takes in a move, and what it does about it.
* `Does` — the same moves as a labelled relation, one constructor for each way in which they change a client.

## What is proved

* `update_eq` — what the effects of a step do to tickets, mailboxes and sockets, each by itself.
* `does_move` — every move is one of the steps.
* `run_induction` — what holds of a new client and is kept by every move holds after every run.
-/

namespace TurnRelay.Gateway

/-! ### What the supervisor takes -/

/-- What a supervisor can be told. -/
inductive Input where
  /-- What a caller or reader wants. -/
  | command (cmd : Command)
  /-- What happened to the socket of an epoch. -/
  | report (epoch : Nat) (r : Report)
  /-- A deadline has come. -/
  | alarm (a : Alarm)
  /-- Nobody holds the client any more. -/
  | deserted

/-- The supervisor stops after it. -/
def Input.isLast : Input → Bool
  | .command cmd => cmd.isDestroy
  | .deserted => true
  | _ => false

/-- What the connection does about an input. -/
def Connection.handle (env : Surroundings) (p : Profile) (c : Connection) : Input → Connection.Outcome
  | .command cmd => c.command env p cmd
  | .report epoch r => c.report env p epoch r
  | .alarm a => c.alarm env p a
  | .deserted => c.destroy env

/-- An input, and when it is taken. -/
structure Cue where
  /-- The time. -/
  now : Nat
  /-- A name that was never used. -/
  freshId : String
  /-- What is taken. -/
  input : Input

/-! ### Moves -/

/-- What can happen to a client. -/
inductive Move where
  /-- Somebody else holds the client, too. -/
  | share
  /-- Somebody lets the client go. -/
  | letGo
  /-- A caller asks to be connected. -/
  | connect (now : Nat)
  /-- A caller asks a query under a name. -/
  | query (now : Nat) (id : String) (q : Query) (timeout : Span)
  /-- A caller asks for a run under a name. -/
  | send (now : Nat) (id : String) (params : Wire.SendParams)
  /-- A caller shuts the client down. -/
  | destroy
  /-- A caller looks whether its call has ended. -/
  | poll (now n : Nat)
  /-- A caller gives up its call. -/
  | abandon (n : Nat)
  /-- A reader follows a run. -/
  | subscribe (run : String)
  /-- A reader begins to wait for the next event of its stream. -/
  | beginPull (now stream : Nat)
  /-- A reader waits for it no longer. -/
  | leavePull (stream : Nat)
  /-- A reader looks whether the next event of its stream is there. -/
  | pull (now stream : Nat)
  /-- A reader gives up its stream. -/
  | dropStream (stream : Nat)
  /-- The supervisor takes a command, or sees that there can be none. -/
  | takeCommand (now : Nat) (freshId : String)
  /-- The supervisor takes a report. -/
  | takeReport (now : Nat) (freshId : String)
  /-- The supervisor notices a deadline. -/
  | takeAlarm (now : Nat) (freshId : String)
  /-- A socket is being dialed. -/
  | dial (epoch : Nat)
  /-- A socket has been opened. -/
  | dialed (epoch : Nat)
  /-- A socket could not be opened. -/
  | refused (epoch : Nat) (reason : String)
  /-- Something comes in on a socket. -/
  | receive (epoch : Nat) (x : Inbound)
  /-- A socket fails. -/
  | fail (epoch : Nat) (reason : String)
  /-- Something goes out on a socket. -/
  | transmit (epoch : Nat)

/-- It is a look at a stream. -/
def Move.isPull : Move → Bool
  | .pull _ _ => true
  | _ => false

/-- The name of a request that a move brings. -/
def Move.name? : Move → Option String
  | .query _ id _ _ => some id
  | .send _ id _ => some id
  | _ => none

namespace Client

/-- A socket that is to be dialed, or is being dialed. -/
def isDialing (c : Client) (epoch : Nat) : Bool :=
  decide (c.sockets.get? epoch = some .wanted ∨ c.sockets.get? epoch = some .dialing)

/-- What becomes of a client in a move. -/
def move (c : Client) : Move → Client
  | .share => { c with handles := c.handles + 1 }
  | .letGo => { c with handles := c.handles - 1 }
  | .connect now => (c.connect now).2
  | .query now id q timeout => (c.query now id q timeout).2
  | .send now id params => (c.send now id params).2
  | .destroy => c.destroy.2
  | .poll now n => (c.poll now n).2
  | .abandon n => if c.calls.contains n then c.abandon n else c
  | .subscribe run => (c.subscribe run).2
  | .beginPull now stream => c.beginPull now stream
  | .leavePull stream => c.endPull stream false false
  | .pull now stream => (c.pull now stream).2
  | .dropStream stream => c.dropStream stream
  | .takeCommand now freshId => (c.takeCommand now freshId).getD c
  | .takeReport now freshId => (c.takeReport now freshId).getD c
  | .takeAlarm now freshId => (c.takeAlarm now freshId).getD c
  | .dial epoch => if c.sockets.get? epoch = some .wanted then c.setSocket epoch .dialing else c
  | .dialed epoch => if c.isDialing epoch then (c.dialed epoch).2 else c
  | .refused epoch reason => if c.isDialing epoch then c.refused epoch reason else c
  | .receive epoch x => (c.receive epoch x).2
  | .fail epoch reason =>
    if c.sockets.isOpen epoch then (c.setSocket epoch .ended).reportOn epoch (.closed reason) else c
  | .transmit epoch => ((c.transmit epoch).map (·.2)).getD c

/-- One move after the other. -/
def run (c : Client) (moves : List Move) : Client := moves.foldl move c

@[simp] theorem run_nil (c : Client) : c.run [] = c := rfl

@[simp] theorem run_cons (c : Client) (m : Move) (moves : List Move) :
    c.run (m :: moves) = (c.move m).run moves := rfl

theorem run_append (c : Client) (before after : List Move) :
    c.run (before ++ after) = (c.run before).run after := List.foldl_append

theorem run_concat (c : Client) (moves : List Move) (m : Move) :
    c.run (moves ++ [m]) = (c.run moves).move m := run_append c moves [m]

/-- The client after a run. -/
abbrev after (p : Profile) (moves : List Move) : Client := (Client.new p).run moves

theorem after_concat (p : Profile) (moves : List Move) (m : Move) :
    after p (moves ++ [m]) = (after p moves).move m := run_concat _ moves m

/-- A run goes on from a move in its middle. -/
theorem run_move_after (p : Profile) (before : List Move) (m : Move) (moves : List Move) :
    ((after p before).move m).run moves = after p (before ++ m :: moves) := by
  rw [after, after, run_append, run_cons]

/-- A move of a longer run is its last one, or one of those before. -/
theorem concat_eq_append_cons_iff {moves before later : List Move} {m m' : Move} :
    moves ++ [m] = before ++ m' :: later ↔
      before = moves ∧ m' = m ∧ later = [] ∨ ∃ later', later = later' ++ [m] ∧ moves = before ++ m' :: later' := by
  constructor
  · intro h
    obtain rfl | ⟨later', m'', rfl⟩ := List.eq_nil_or_concat later
    · obtain ⟨rfl, hm⟩ := List.append_inj' h rfl
      cases hm
      exact .inl ⟨rfl, rfl, rfl⟩
    · rw [List.concat_eq_append, ← List.cons_append, ← List.append_assoc] at h
      obtain ⟨rfl, hm⟩ := List.append_inj' h rfl
      cases hm
      exact .inr ⟨later', List.concat_eq_append, rfl⟩
  · rintro (⟨rfl, rfl, rfl⟩ | ⟨later', rfl, rfl⟩)
    · rfl
    · rw [List.append_assoc, List.cons_append]

/-- What can be seen of the moves of a run, one after the other, if `f` is what can be seen of each. -/
def collect {α : Type} (f : Client → Move → Option α) (c : Client) : List Move → List α
  | [] => []
  | m :: moves => (f c m).toList ++ (c.move m).collect f moves

@[simp] theorem collect_nil {α : Type} (f : Client → Move → Option α) (c : Client) : c.collect f [] = [] := rfl

@[simp] theorem collect_cons {α : Type} (f : Client → Move → Option α) (c : Client) (m : Move)
    (moves : List Move) : c.collect f (m :: moves) = (f c m).toList ++ (c.move m).collect f moves := rfl

theorem collect_append {α : Type} (f : Client → Move → Option α) (c : Client) (before after : List Move) :
    c.collect f (before ++ after) = c.collect f before ++ (c.run before).collect f after := by
  induction before generalizing c with
  | nil => rfl
  | cons m before ih => rw [List.cons_append, collect_cons, collect_cons, ih, run_cons, List.append_assoc]

theorem collect_concat {α : Type} (f : Client → Move → Option α) (c : Client) (moves : List Move) (m : Move) :
    c.collect f (moves ++ [m]) = c.collect f moves ++ (f (c.run moves) m).toList := by
  rw [collect_append, collect_cons, collect_nil, List.append_nil]

/-- The same where a move may show several things. -/
def gather {α : Type} (f : Client → Move → List α) (c : Client) (moves : List Move) : List α :=
  (c.collect (fun c m => some (f c m)) moves).flatten

theorem gather_append {α : Type} (f : Client → Move → List α) (c : Client) (before after : List Move) :
    c.gather f (before ++ after) = c.gather f before ++ (c.run before).gather f after := by
  simp only [gather, collect_append, List.flatten_append]

theorem gather_concat {α : Type} (f : Client → Move → List α) (c : Client) (moves : List Move) (m : Move) :
    c.gather f (moves ++ [m]) = c.gather f moves ++ f (c.run moves) m := by
  rw [gather_append]
  simp only [gather, collect_cons, collect_nil, Option.toList_some, List.append_nil, List.flatten_singleton]

/-- What holds of a client and is kept by every move, the moves made so far being known, holds after every
run. -/
theorem run_induction {P : List Move → Client → Prop} {c : Client} (start : P [] c)
    (step : ∀ moves m, P moves (c.run moves) → P (moves ++ [m]) ((c.run moves).move m))
    (moves : List Move) : P moves (c.run moves) := by
  induction moves using List.reverseRecOn with
  | nil => exact start
  | append_singleton moves m ih =>
    rw [run_concat]
    exact step moves m ih

/-! ### The supervisor's part in a move -/

/-- What the supervisor takes in a move. -/
def cue? (c : Client) : Move → Option Cue
  | .takeCommand now freshId =>
    if c.isRunning then
      match c.commands with
      | cmd :: _ => some ⟨now, freshId, .command cmd⟩
      | [] => if c.isHeld then none else some ⟨now, freshId, .deserted⟩
    else none
  | .takeReport now freshId =>
    if c.isRunning then c.reports.head?.map fun x => ⟨now, freshId, .report x.1 x.2⟩ else none
  | .takeAlarm now freshId =>
    if c.isRunning then (c.dueAlarm? now).map fun a => ⟨now, freshId, .alarm a⟩ else none
  | _ => none

/-- The client without what was taken. -/
def drain (c : Client) : Input → Client
  | .command _ => { c with commands := c.commands.tail }
  | .report _ _ => { c with reports := c.reports.tail }
  | _ => c

/-- What the connection does about what is taken. -/
def outcome (c : Client) (x : Cue) : Connection.Outcome :=
  c.connection.handle (c.surroundings x.now x.freshId) c.profile x.input

/-- The effects of a move: those of what the supervisor takes. -/
def effects (c : Client) (m : Move) : List Effect :=
  match c.cue? m with
  | some x => (c.outcome x).2
  | none => []

theorem effects_of_cue? {c : Client} {m : Move} {x : Cue} (h : c.cue? m = some x) :
    c.effects m = (c.outcome x).2 := by
  unfold effects
  rw [h]

theorem effects_of_cue?_eq_none {c : Client} {m : Move} (h : c.cue? m = none) : c.effects m = [] := by
  unfold effects
  rw [h]

/-- What becomes of a client when its supervisor takes something. -/
def handle (c : Client) (x : Cue) : Client :=
  let c' := (c.drain x.input).update (c.outcome x)
  if x.input.isLast then c'.stop else c'

/-- A supervisor that takes something is there. -/
theorem isRunning_of_cue? {c : Client} {m : Move} {x : Cue} (h : c.cue? m = some x) :
    c.isRunning = true := by
  by_contra hr
  cases m <;> simp [cue?, hr] at h

theorem move_of_cue? {c : Client} {m : Move} {x : Cue} (h : c.cue? m = some x) :
    c.move m = c.handle x := by
  have hr := isRunning_of_cue? h
  cases m with
  | takeCommand now freshId =>
    simp only [cue?, hr, if_true] at h
    split at h
    · rename_i cmd rest hc
      cases h
      simp [move, takeCommand, hr, hc, handle, drain, outcome, Connection.handle, Input.isLast]
    · rename_i hc
      split at h
      · cases h
      · rename_i hh
        cases h
        simp [move, takeCommand, hr, hc, hh, handle, drain, outcome, Connection.handle, Input.isLast]
  | takeReport now freshId =>
    cases hq : c.reports with
    | nil => simp [cue?, hr, hq] at h
    | cons y rest =>
      simp only [cue?, hr, hq, if_true, List.head?_cons, Option.map_some, Option.some.injEq] at h
      subst h
      simp [move, takeReport, hr, hq, handle, drain, outcome, Connection.handle, Input.isLast]
  | takeAlarm now freshId =>
    simp only [cue?, hr, if_true, Option.map_eq_some_iff] at h
    obtain ⟨a, ha, rfl⟩ := h
    simp [move, takeAlarm, hr, ha, handle, drain, outcome, Connection.handle, Input.isLast]
  | _ => cases h

/-! ### Effects -/

end Client

namespace Effect

/-- What an effect does to tickets. -/
def onTickets (ts : Tickets) : Effect → Tickets
  | .answer n a => ts.answer n a
  | _ => ts

/-- What an effect does to mailboxes. -/
def onBoxes (bs : Mailboxes) : Effect → Mailboxes
  | .deliver box e => bs.deliver box e
  | _ => bs

/-- What an effect does to sockets. -/
def onSockets (ss : Sockets) : Effect → Sockets
  | .send epoch f => ss.modify epoch (·.enqueue f)
  | .close epoch => ss.modify epoch (·.cancel)
  | .dial epoch => ss.set epoch .wanted
  | _ => ss

end Effect

namespace Client

/-- The supervisor's step changes the connection; its effects change tickets, mailboxes and sockets, each
by itself. -/
theorem update_eq (c : Client) (o : Connection.Outcome) :
    c.update o = { c with
      connection := o.1
      tickets := o.2.foldl Effect.onTickets c.tickets
      boxes := o.2.foldl Effect.onBoxes c.boxes
      sockets := o.2.foldl Effect.onSockets c.sockets } := by
  obtain ⟨connection, effects⟩ := o
  simp only [update]
  generalize hd : { c with connection := connection } = d
  have hc : c = { d with connection := c.connection } := by
    subst hd
    rfl
  have hconn : d.connection = connection := by
    subst hd
    rfl
  rw [hc, ← hconn]
  clear hc hd hconn
  induction effects generalizing d with
  | nil => rfl
  | cons e effects ih =>
    simp only [List.foldl_cons]
    rw [ih (d.carryOut e)]
    cases e <;> rfl

/-- The commands that are left when the supervisor has taken something. -/
def commandsAfter (c : Client) (i : Input) : List Command :=
  if i.isLast then []
  else match i with
    | .command _ => c.commands.tail
    | _ => c.commands

/-- The reports that are left when the supervisor has taken something. -/
def reportsAfter (c : Client) (i : Input) : List (Nat × Report) :=
  if i.isLast then []
  else match i with
    | .report _ _ => c.reports.tail
    | _ => c.reports

theorem handle_eq (c : Client) (x : Cue) : c.handle x = { c with
    connection := (c.outcome x).1
    isRunning := c.isRunning && ! x.input.isLast
    commands := c.commandsAfter x.input
    reports := c.reportsAfter x.input
    tickets := (c.outcome x).2.foldl Effect.onTickets c.tickets
    boxes := (c.outcome x).2.foldl Effect.onBoxes c.boxes
    sockets := (c.outcome x).2.foldl Effect.onSockets c.sockets } := by
  unfold handle commandsAfter reportsAfter
  rw [update_eq]
  cases hl : x.input.isLast <;> cases hi : x.input <;> simp [drain, stop]

theorem commandsAfter_of_isLast {c : Client} {i : Input} (h : i.isLast = true) : c.commandsAfter i = [] := by
  unfold commandsAfter
  rw [if_pos h]

theorem commandsAfter_command {c : Client} {cmd : Command} (h : (Input.command cmd).isLast = false) :
    c.commandsAfter (.command cmd) = c.commands.tail := by
  unfold commandsAfter
  rw [if_neg (by simp [h])]

theorem commandsAfter_eq_self {c : Client} {i : Input} (h : i.isLast = false)
    (hi : ∀ cmd, i ≠ .command cmd) : c.commandsAfter i = c.commands := by
  unfold commandsAfter
  rw [if_neg (by simp [h])]
  split
  · exact absurd rfl (hi _)
  · rfl

/-- The supervisor takes the first command, or none, or has stopped. -/
theorem commandsAfter_suffix (c : Client) (i : Input) : c.commandsAfter i <:+ c.commands := by
  unfold commandsAfter
  split
  · exact List.nil_suffix
  · split
    · exact List.tail_suffix _
    · exact List.suffix_refl _

/-- The supervisor takes the first report, or none, or has stopped. -/
theorem reportsAfter_suffix (c : Client) (i : Input) : c.reportsAfter i <:+ c.reports := by
  unfold reportsAfter
  split
  · exact List.nil_suffix
  · split
    · exact List.tail_suffix _
    · exact List.suffix_refl _

/-- A command that is left was there. -/
theorem mem_of_mem_commandsAfter {c : Client} {i : Input} {cmd : Command}
    (h : cmd ∈ c.commandsAfter i) : cmd ∈ c.commands := (c.commandsAfter_suffix i).subset h

/-- A report that is left was there. -/
theorem mem_of_mem_reportsAfter {c : Client} {i : Input} {y : Nat × Report}
    (h : y ∈ c.reportsAfter i) : y ∈ c.reports := (c.reportsAfter_suffix i).subset h

/-- The commands once the supervisor has been told one more thing. -/
def told (c : Client) (cmd : Command) : List Command :=
  if c.isRunning then c.commands ++ [cmd] else c.commands

theorem tell_eq (c : Client) (cmd : Command) : c.tell cmd = { c with commands := c.told cmd } := by
  unfold tell told
  split <;> rfl

end Client

/-! ### Calls and streams -/

/-- The name of a call's request. -/
def Purpose.name? : Purpose → Option String
  | .query _ id _ => some id
  | .run id _ _ => some id
  | _ => none

/-- The listener of a call for a run. -/
def Purpose.listener? : Purpose → Option Nat
  | .run _ _ l => some l
  | _ => none

/-- What a call without a listener asks for: the command, and the call. -/
inductive Asks (c : Client) : Move → (Nat → Command) → Call → Prop where
  /-- To be connected. -/
  | connect {now : Nat} : Asks c (.connect now) .ensureConnected
      ⟨.connection, some (now + c.profile.connectTimeout.nanos)⟩
  /-- A query. -/
  | query {now : Nat} {id : String} {q : Query} {timeout : Span} :
      Asks c (.query now id q timeout) (fun n => .request id q.method q.params n none)
        ⟨.query q id timeout, some (now + timeout.nanos)⟩
  /-- To shut the client down. -/
  | destroy : Asks c .destroy .destroy ⟨.shutdown, none⟩

/-- The mailboxes without that of a listener. -/
def Mailboxes.without (bs : Mailboxes) : Option Nat → Mailboxes
  | some l => bs.erase l
  | none => bs

/-- How a call ends without a stream. -/
inductive EndsCall (n : Nat) : Move → Prop where
  /-- The caller looks. -/
  | poll {now : Nat} : EndsCall n (.poll now n)
  /-- The caller gives it up. -/
  | abandon : EndsCall n (.abandon n)

/-- A stream after a look at it. -/
def RunStream.pulled (isFinished sawTerminal : Bool) (s : RunStream) : RunStream :=
  { s with deadline := none, isFinished := s.isFinished || isFinished,
           sawTerminal := s.sawTerminal || sawTerminal }

namespace Client

/-- The client of a call that has ended without a stream. -/
def closeCall (c : Client) (n : Nat) (purpose : Purpose) : Client :=
  { c with tickets := c.tickets.erase n, calls := c.calls.erase n,
           boxes := c.boxes.without purpose.listener? }

/-- The mailbox of a stream. -/
def box (c : Client) (stream : Nat) : Mailbox := (c.boxes.get? stream).getD .new

/-- A stream has nothing to yield, now or later. -/
def isDry (c : Client) (stream : Nat) : Bool :=
  (c.box stream).queue.isEmpty && ! ((c.box stream).isOpen && c.feeds stream)

/-- A stream has nothing to yield yet. -/
def isThirsty (c : Client) (stream : Nat) : Bool :=
  (c.box stream).queue.isEmpty && ((c.box stream).isOpen && c.feeds stream)

theorem endPull_eq (c : Client) (stream : Nat) (isFinished sawTerminal : Bool) :
    c.endPull stream isFinished sawTerminal =
      { c with streams := c.streams.modify stream (RunStream.pulled isFinished sawTerminal) } := rfl

end Client

/-! ### Looks at calls -/

/-- The answer with which a look finds a call ended: its own, or that nobody is left to answer. -/
inductive Answered (c : Client) (n : Nat) : Answer → Prop where
  /-- It is there. -/
  | found {a : Answer} : c.tickets.get? n = some (.answered a) → Answered c n a
  /-- Nobody can give one. -/
  | lost : c.tickets.get? n = some .waiting → c.holdsTicket n = false → Answered c n (.error .destroyed)
  /-- The ticket is worth nothing. -/
  | void : (∀ a, c.tickets.get? n ≠ some (.answered a)) → c.tickets.get? n ≠ some .waiting →
      Answered c n (.error .destroyed)

/-- What a look at a call comes to. -/
inductive Polls (c : Client) (now n : Nat) : Option (Except Fault Yield) → Client → Prop where
  /-- There is no such call. -/
  | nowhere : c.calls.get? n = none → Polls c now n none c
  /-- It goes on. -/
  | waits {call : Call} : c.calls.get? n = some call → c.tickets.get? n = some .waiting →
      c.holdsTicket n = true → Client.isDue now call.deadline = false → Polls c now n none c
  /-- It is answered. -/
  | answered {call : Call} {a : Answer} : c.calls.get? n = some call → Answered c n a →
      Polls c now n (some ((c.endCall n).conclude call.purpose a).1)
        ((c.endCall n).conclude call.purpose a).2
  /-- It has taken too long. -/
  | expired {call : Call} : c.calls.get? n = some call → c.tickets.get? n = some .waiting →
      c.holdsTicket n = true → Client.isDue now call.deadline = true →
      Polls c now n (some ((c.endCall n).expire call.purpose).1) ((c.endCall n).expire call.purpose).2

theorem polls_poll (c : Client) (now n : Nat) : Polls c now n (c.poll now n).1 (c.poll now n).2 := by
  cases hcall : c.calls.get? n with
  | none =>
    simp only [Client.poll, hcall]
    exact .nowhere hcall
  | some call =>
    cases ht : c.tickets.get? n with
    | none =>
      simp only [Client.poll, hcall, Tickets.ask, ht]
      exact .answered hcall (.void (by simp [ht]) (by simp [ht]))
    | some t =>
      cases t with
      | waiting =>
        cases hh : c.holdsTicket n with
        | false =>
          simp only [Client.poll, hcall, Tickets.ask, ht, hh, Bool.false_eq_true, if_false]
          exact .answered hcall (.lost ht hh)
        | true =>
          cases hd : Client.isDue now call.deadline with
          | false =>
            simp only [Client.poll, hcall, Tickets.ask, ht, hh, hd, if_true, Bool.false_eq_true, if_false]
            exact .waits hcall ht hh hd
          | true =>
            simp only [Client.poll, hcall, Tickets.ask, ht, hh, hd, if_true]
            exact .expired hcall ht hh hd
      | answered a =>
        simp only [Client.poll, hcall, Tickets.ask, ht]
        exact .answered hcall (.found ht)
      | spent =>
        simp only [Client.poll, hcall, Tickets.ask, ht]
        exact .answered hcall (.void (by simp [ht]) (by simp [ht]))
      | abandoned =>
        simp only [Client.poll, hcall, Tickets.ask, ht]
        exact .answered hcall (.void (by simp [ht]) (by simp [ht]))

/-! ### The moves as a relation -/

/-- What a move does to a client. -/
inductive Does (c : Client) : Move → Client → Prop where
  /-- Nothing. -/
  | waits {m : Move} : c.cue? m = none → m.isPull = false → Does c m c
  /-- More or fewer hold the client. -/
  | holds {m : Move} {k : Nat} : m = .share ∨ m = .letGo → Does c m { c with handles := k }
  /-- A call begins. -/
  | calls {m : Move} {cmd : Nat → Command} {call : Call} : Asks c m cmd call →
      Does c m { c with
        nextTicket := c.nextTicket + 1, tickets := c.tickets.set c.nextTicket .waiting,
        calls := c.calls.set c.nextTicket call, commands := c.told (cmd c.nextTicket) }
  /-- A call for a run begins. -/
  | sends {now : Nat} {id : String} {params : Wire.SendParams} :
      Does c (.send now id params) { c with
        nextListener := c.nextListener + 1, boxes := c.boxes.set c.nextListener .new,
        nextTicket := c.nextTicket + 1, tickets := c.tickets.set c.nextTicket .waiting,
        calls := c.calls.set c.nextTicket ⟨.run id c.profile.requestTimeout c.nextListener,
          some (now + c.profile.requestTimeout.nanos)⟩,
        commands := c.told (.request id sendMethod params.encode c.nextTicket
          (some ⟨c.nextListener, c.nextListener⟩)) }
  /-- A call ends without a stream. -/
  | ends {m : Move} {n : Nat} {call : Call} : c.calls.get? n = some call → EndsCall n m →
      Does c m (c.closeCall n call.purpose)
  /-- A request has taken too long. -/
  | expires {now n : Nat} {call : Call} {id : String} : c.calls.get? n = some call →
      c.tickets.get? n = some .waiting → call.purpose.name? = some id →
      Does c (.poll now n) { c.closeCall n call.purpose with commands := c.told (.cancelRequest id) }
  /-- A call for a run becomes a stream. -/
  | follows {now n l : Nat} {call : Call} {v : Json} {ack : Wire.SendAck} :
      c.calls.get? n = some call → c.tickets.get? n = some (.answered (.ok v)) →
      call.purpose.listener? = some l → Wire.SendAck.decode v = .ok ack →
      Does c (.poll now n) { c with
        tickets := c.tickets.erase n, calls := c.calls.erase n,
        streams := c.streams.set l ⟨ack.runId, false, false, none⟩ }
  /-- A reader follows a run. -/
  | subscribes {run : String} : c.isRunning = true → Does c (.subscribe run) { c with
      nextListener := c.nextListener + 1, boxes := c.boxes.set c.nextListener .new,
      streams := c.streams.set c.nextListener ⟨run, false, false, none⟩,
      commands := c.told (.listen run ⟨c.nextListener, c.nextListener⟩) }
  /-- A reader comes too late. -/
  | misses {run : String} : c.isRunning = false →
      Does c (.subscribe run) { c with nextListener := c.nextListener + 1 }
  /-- A reader begins to wait. -/
  | beginsPull {now stream : Nat} : Does c (.beginPull now stream) (c.beginPull now stream)
  /-- A reader waits no longer. -/
  | leavesPull {stream : Nat} : Does c (.leavePull stream)
      { c with streams := c.streams.modify stream (RunStream.pulled false false) }
  /-- A reader takes an event. -/
  | takes {now stream : Nat} {s : RunStream} {e : Wire.RunEvent} {rest : List Wire.RunEvent} :
      c.streams.get? stream = some s → s.isFinished = false → (c.box stream).queue = e :: rest →
      (c.pull now stream).1 = .event e → Does c (.pull now stream) { c with
        boxes := c.boxes.set stream { c.box stream with queue := rest },
        streams := c.streams.modify stream
          (RunStream.pulled e.state.isTerminal e.state.isTerminal) }
  /-- A stream is over. -/
  | endsPull {now stream : Nat} {s : RunStream} : c.streams.get? stream = some s →
      s.isFinished = true ∨ c.isDry stream = true → (c.pull now stream).1 = .ended →
      Does c (.pull now stream) { c with streams := c.streams.modify stream (RunStream.pulled true false) }
  /-- A reader has waited too long. -/
  | idles {now stream : Nat} {s : RunStream} : c.streams.get? stream = some s → s.isFinished = false →
      c.isThirsty stream = true → Client.isDue now s.deadline = true →
      (c.pull now stream).1 = .ended → Does c (.pull now stream) { c with
        streams := c.streams.modify stream (RunStream.pulled true false),
        commands := c.told (.unlisten s.run stream) }
  /-- A reader finds nothing, or has no stream. -/
  | finds {now stream : Nat} : (∀ e, (c.pull now stream).1 ≠ .event e) →
      c.streams.get? stream = none ∨ (c.pull now stream).1 = .nothing → Does c (.pull now stream) c
  /-- A reader gives up its stream. -/
  | drops {stream : Nat} {s : RunStream} : c.streams.get? stream = some s →
      Does c (.dropStream stream) { c with
        commands := if s.sawTerminal then c.commands else c.told (.unlisten s.run stream),
        streams := c.streams.erase stream, boxes := c.boxes.erase stream }
  /-- The supervisor takes something. -/
  | handles {m : Move} {x : Cue} : c.cue? m = some x → Does c m (c.handle x)
  /-- Something happens to a socket, and the supervisor is to be told. -/
  | socket {m : Move} {epoch : Nat} {ss : Sockets} {rs : List (Nat × Report)} : c.cue? m = none →
      m.isPull = false → (c.sockets.get? epoch).isSome = true →
      ss = c.sockets ∨ (∃ s, ss = c.sockets.set epoch s) → (∀ x ∈ rs, x.1 = epoch) →
      (c.isRunning = false → rs = []) →
      Does c m { c with sockets := ss, reports := c.reports ++ rs }

theorem does_begin {c : Client} {m : Move} {cmd : Nat → Command} {call : Call} (h : Asks c m cmd call) :
    Does c m (c.begin cmd call).2 := by
  rw [Client.begin, Client.tell_eq]
  exact .calls h

theorem does_poll (c : Client) (now n : Nat) : Does c (.poll now n) (c.poll now n).2 := by
  generalize hr : (c.poll now n).1 = r
  generalize hc : (c.poll now n).2 = c'
  have h := polls_poll c now n
  rw [hr, hc] at h
  cases h with
  | nowhere => exact .waits rfl rfl
  | waits => exact .waits rfl rfl
  | @answered call a hcall ha =>
    have hpoll : EndsCall n (.poll now n) := .poll
    have hends := Does.ends hcall hpoll
    obtain ⟨purpose, deadline⟩ := call
    cases purpose with
    | connection => exact hends
    | query => exact hends
    | shutdown => exact hends
    | run id timeout l =>
      cases a with
      | error f => exact hends
      | ok v =>
        simp only [Client.conclude]
        split
        · exact hends
        · rename_i ack hack
          cases ha with
          | found ht => exact .follows hcall ht rfl hack
  | @expired call hcall ht hh hd =>
    obtain ⟨purpose, deadline⟩ := call
    cases purpose with
    | connection => exact .ends hcall .poll
    | shutdown => exact .ends hcall .poll
    | query q id timeout =>
      simp only [Client.expire, Client.tell_eq]
      exact .expires hcall ht rfl
    | run id timeout l =>
      simp only [Client.expire, Client.tell_eq]
      exact .expires hcall ht rfl

theorem does_abandon {c : Client} {n : Nat} {call : Call} (h : c.calls.get? n = some call) :
    Does c (.abandon n) (c.abandon n) := by
  have hends := Does.ends h .abandon
  obtain ⟨purpose, deadline⟩ := call
  unfold Client.abandon
  rw [h]
  cases purpose with
  | connection => exact hends
  | query => exact hends
  | run => exact hends
  | shutdown => exact hends

theorem does_pull (c : Client) (now stream : Nat) : Does c (.pull now stream) (c.pull now stream).2 := by
  cases hs : c.streams.get? stream with
  | none =>
    have hp : c.pull now stream = (.ended, c) := by simp [Client.pull, hs]
    rw [hp]
    exact .finds (by simp [hp]) (.inl hs)
  | some s =>
    cases hf : s.isFinished with
    | true =>
      have hp : c.pull now stream = (.ended, c.endPull stream true false) := by simp [Client.pull, hs, hf]
      rw [hp, Client.endPull_eq]
      exact .endsPull hs (.inl hf) (by rw [hp])
    | false =>
      cases hq : (c.box stream).queue with
      | cons e rest =>
        have hp : c.pull now stream = (.event e, { c with
            boxes := c.boxes.set stream { c.box stream with queue := rest } }.endPull stream
              e.state.isTerminal e.state.isTerminal) := by
          simp only [Client.box] at hq
          simp [Client.pull, hs, hf, Mailbox.take, hq, Client.box]
        rw [hp, Client.endPull_eq]
        exact .takes hs hf hq (by rw [hp])
      | nil =>
        cases hw : ((c.box stream).isOpen && c.feeds stream) with
        | false =>
          have hp : c.pull now stream = (.ended, c.endPull stream true false) := by
            simp only [Client.box] at hq hw
            simp [Client.pull, hs, hf, Mailbox.take, hq, hw]
          rw [hp, Client.endPull_eq]
          exact .endsPull hs (.inr (by simp [Client.isDry, hq, hw])) (by rw [hp])
        | true =>
          have ht : c.isThirsty stream = true := by simp [Client.isThirsty, hq, hw]
          simp only [Client.box] at hq hw
          cases hd : Client.isDue now s.deadline with
          | true =>
            have hp : c.pull now stream = (.ended, (c.endPull stream true false).unlisten stream s) := by
              simp [Client.pull, hs, hf, Mailbox.take, hq, hw, hd]
            rw [hp, Client.unlisten, Client.tell_eq]
            exact .idles hs hf ht hd (by rw [hp])
          | false =>
            have hp : c.pull now stream = (.nothing, c) := by
              simp [Client.pull, hs, hf, Mailbox.take, hq, hw, hd]
            rw [hp]
            exact .finds (by simp [hp]) (.inr (by rw [hp]))

theorem does_dropStream (c : Client) (stream : Nat) :
    Does c (.dropStream stream) (c.dropStream stream) := by
  cases hs : c.streams.get? stream with
  | none =>
    have hd : c.dropStream stream = c := by simp [Client.dropStream, hs]
    rw [hd]
    exact .waits rfl rfl
  | some s =>
    have hd : c.dropStream stream = { c with
        commands := if s.sawTerminal then c.commands else c.told (.unlisten s.run stream),
        streams := c.streams.erase stream, boxes := c.boxes.erase stream } := by
      cases ht : s.sawTerminal <;> simp [Client.dropStream, hs, ht, Client.unlisten, Client.tell_eq]
    rw [hd]
    exact .drops hs

/-- A socket that is known is put into another state. -/
theorem does_setSocket {c : Client} {m : Move} {epoch : Nat} (s : Socket) (hm : c.cue? m = none)
    (hp : m.isPull = false) (h : (c.sockets.get? epoch).isSome = true) :
    Does c m (c.setSocket epoch s) := by
  have hd : Does c m { c with sockets := c.sockets.set epoch s, reports := c.reports ++ [] } :=
    .socket hm hp h (.inr ⟨s, rfl⟩) (fun _ hx => nomatch hx) fun _ => rfl
  rwa [List.append_nil] at hd

/-- A socket that is known is put into another state, and the supervisor is told. -/
theorem does_setSocket_reportOn {c : Client} {m : Move} {epoch : Nat} (s : Socket) (r : Report)
    (hm : c.cue? m = none) (hp : m.isPull = false) (h : (c.sockets.get? epoch).isSome = true) :
    Does c m ((c.setSocket epoch s).reportOn epoch r) := by
  cases hr : c.isRunning with
  | false =>
    have he : (c.setSocket epoch s).reportOn epoch r = c.setSocket epoch s := by
      simp [Client.reportOn, Client.setSocket, hr]
    rw [he]
    exact does_setSocket s hm hp h
  | true =>
    have he : (c.setSocket epoch s).reportOn epoch r =
        { c with sockets := c.sockets.set epoch s, reports := c.reports ++ [(epoch, r)] } := by
      simp [Client.reportOn, Client.setSocket, hr]
    rw [he]
    exact .socket hm hp h (.inr ⟨s, rfl⟩) (by simp) (by simp [hr])

/-- The supervisor is told something of a socket that is known. -/
theorem does_reportOn {c : Client} {m : Move} {epoch : Nat} (r : Report) (hm : c.cue? m = none)
    (hp : m.isPull = false) (h : (c.sockets.get? epoch).isSome = true) : Does c m (c.reportOn epoch r) := by
  cases hr : c.isRunning with
  | false =>
    have he : c.reportOn epoch r = c := by simp [Client.reportOn, hr]
    rw [he]
    exact .waits hm hp
  | true =>
    have he : c.reportOn epoch r = { c with reports := c.reports ++ [(epoch, r)] } := by
      simp [Client.reportOn, hr]
    rw [he]
    exact .socket hm hp h (.inl rfl) (by simp) (by simp [hr])

theorem isSome_of_isDialing {c : Client} {epoch : Nat} (h : c.isDialing epoch = true) :
    (c.sockets.get? epoch).isSome = true := by
  simp only [Client.isDialing, decide_eq_true_eq] at h
  rcases h with h | h <;> simp [h]

theorem does_receive (c : Client) (epoch : Nat) (x : Inbound) :
    Does c (.receive epoch x) (c.receive epoch x).2 := by
  unfold Client.receive
  split
  · rename_i queue isCancelled hs
    have hk : (c.sockets.get? epoch).isSome = true := by simp [hs]
    split
    · exact does_setSocket_reportOn .ended (.closed _) rfl rfl hk
    · exact does_setSocket_reportOn .ended (.closed _) rfl rfl hk
    · exact does_reportOn (.text _) rfl rfl hk
    · exact .waits rfl rfl
    · exact .waits rfl rfl
  · exact .waits rfl rfl

theorem does_transmit (c : Client) (epoch : Nat) :
    Does c (.transmit epoch) (((c.transmit epoch).map (·.2)).getD c) := by
  unfold Client.transmit
  split
  · rename_i f queue isCancelled hs
    exact does_setSocket (.opened queue isCancelled) rfl rfl (by simp [hs])
  · rename_i hs
    exact does_setSocket_reportOn .ended (.closed _) rfl rfl (by simp [hs])
  · exact .waits rfl rfl

namespace Client

variable {c : Client} {now : Nat} {freshId : String}

/-- A supervisor that has no command to take does nothing. -/
theorem takeCommand_of_idle (h : c.cue? (.takeCommand now freshId) = none) :
    c.move (.takeCommand now freshId) = c := by
  simp only [cue?] at h
  simp only [move, takeCommand]
  cases hr : c.isRunning with
  | false => rfl
  | true =>
    cases hc : c.commands with
    | cons cmd rest => simp [hr, hc] at h
    | nil =>
      have hh : c.isHeld = true := by
        by_contra hh
        simp [hr, hc, hh] at h
      simp [hh]

/-- A supervisor that has no report to take does nothing. -/
theorem takeReport_of_idle (h : c.cue? (.takeReport now freshId) = none) :
    c.move (.takeReport now freshId) = c := by
  simp only [cue?] at h
  simp only [move, takeReport]
  cases hr : c.isRunning with
  | false => rfl
  | true =>
    cases hq : c.reports with
    | nil => rfl
    | cons y rest => simp [hr, hq] at h

/-- A supervisor of which no deadline has come does nothing. -/
theorem takeAlarm_of_idle (h : c.cue? (.takeAlarm now freshId) = none) :
    c.move (.takeAlarm now freshId) = c := by
  simp only [cue?] at h
  simp only [move, takeAlarm]
  cases hr : c.isRunning with
  | false => rfl
  | true =>
    cases ha : c.dueAlarm? now with
    | none => simp
    | some a => simp [hr, ha] at h

end Client

/-- A move of the supervisor: either it takes something, or the client stays as it is. -/
theorem does_supervise {c : Client} {m : Move} (hp : m.isPull = false)
    (h : c.cue? m = none → c.move m = c) : Does c m (c.move m) := by
  cases hx : c.cue? m with
  | none =>
    rw [h hx]
    exact .waits hx hp
  | some x =>
    rw [Client.move_of_cue? hx]
    exact .handles hx

/-- **Every move is one of the steps.** -/
theorem does_move (c : Client) (m : Move) : Does c m (c.move m) := by
  cases m with
  | share => exact .holds (.inl rfl)
  | letGo => exact .holds (.inr rfl)
  | connect now => exact does_begin .connect
  | query now id q timeout => exact does_begin .query
  | send now id params =>
    simp only [Client.move, Client.send, Client.begin, Client.tell_eq]
    exact .sends
  | destroy => exact does_begin .destroy
  | poll now n => exact does_poll c now n
  | abandon n =>
    simp only [Client.move]
    split
    · rename_i hn
      obtain ⟨call, hcall⟩ := Option.isSome_iff_exists.1 hn
      exact does_abandon hcall
    · exact .waits rfl rfl
  | subscribe run =>
    simp only [Client.move, Client.subscribe]
    split
    · rename_i hr
      rw [Client.tell_eq]
      exact .subscribes hr
    · rename_i hr
      exact .misses (by simpa using hr)
  | beginPull now stream => exact .beginsPull
  | leavePull stream => exact .leavesPull
  | pull now stream => exact does_pull c now stream
  | dropStream stream => exact does_dropStream c stream
  | takeCommand now freshId => exact does_supervise rfl Client.takeCommand_of_idle
  | takeReport now freshId => exact does_supervise rfl Client.takeReport_of_idle
  | takeAlarm now freshId => exact does_supervise rfl Client.takeAlarm_of_idle
  | dial epoch =>
    simp only [Client.move]
    split
    · rename_i hs
      exact does_setSocket .dialing rfl rfl (by simp [hs])
    · exact .waits rfl rfl
  | dialed epoch =>
    simp only [Client.move]
    split
    · rename_i hd
      unfold Client.dialed
      split
      · exact does_setSocket_reportOn (.opened [] false) .opened rfl rfl (isSome_of_isDialing hd)
      · exact does_setSocket .ended rfl rfl (isSome_of_isDialing hd)
    · exact .waits rfl rfl
  | refused epoch reason =>
    simp only [Client.move]
    split
    · rename_i hd
      exact does_setSocket_reportOn .ended (.failed reason) rfl rfl (isSome_of_isDialing hd)
    · exact .waits rfl rfl
  | receive epoch x => exact does_receive c epoch x
  | fail epoch reason =>
    simp only [Client.move]
    split
    · rename_i ho
      refine does_setSocket_reportOn .ended (.closed reason) rfl rfl ?_
      cases hs : c.sockets.get? epoch with
      | none => simp [Sockets.isOpen, hs] at ho
      | some s => rfl
    · exact .waits rfl rfl
  | transmit epoch => exact does_transmit c epoch

/-- A client keeps its profile. -/
theorem Client.profile_run (p : Profile) (moves : List Move) : (Client.after p moves).profile = p := by
  refine run_induction (P := fun _ c => c.profile = p) rfl (fun moves m h => ?_) moves
  have hd := does_move (Client.after p moves) m
  generalize (Client.after p moves).move m = c' at hd
  cases hd with
  | handles =>
    rw [handle_eq]
    exact h
  | _ => exact h

/-! ### A client gets connected -/

/-- The profile of a client on the gateway's own machine. -/
def localProfile : Profile where
  url := "ws://localhost:8080"
  token := none
  client := ⟨"relay", "1.0.0", "linux", "backend"⟩
  role := "operator"
  scopes := []
  minProtocol := 3
  maxProtocol := 3
  connectTimeout := .ofSeconds 10
  requestTimeout := .ofSeconds 10
  backoffBase := .ofSeconds 1
  backoffCap := .ofSeconds 8
  runIdleTimeout := .ofSeconds 60

/-- A frame arrives at the first socket and is handled. -/
def arrival (f : Wire.Frame) : List Move := [.receive 1 (.text f.text), .takeReport 0 "hello"]

/-- A caller asks to be connected, and the gateway accepts. -/
def greeting : List Move :=
  [.connect 0, .takeCommand 0 "hello", .dialed 1, .takeReport 0 "hello"] ++
  arrival (.event "connect.challenge" none none) ++
  arrival (.response "hello" true (some (.ofMembers [("type", .string "hello-ok"), ("protocol", .ofNat 3),
    ("server", .ofMembers [("connId", .string "c-1")])])) none)

end TurnRelay.Gateway
