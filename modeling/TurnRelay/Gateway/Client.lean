import TurnRelay.Gateway.Connection
import TurnRelay.Gateway.Query
import TurnRelay.Gateway.Socket

/-!
# The client

A supervisor, its sockets, and all who use them. Callers and readers of runs do not touch the
connection: they put commands into a queue, and sockets put reports into another; the supervisor takes
one thing after the other. It stops when it is told to shut down or when nobody is left who could tell
it anything; what is still in the queues is then lost.

A call ends with an answer, with the loss of everybody who could answer it, or by its own deadline,
whichever is noticed first. A stream yields the events in its mailbox; pulling it ends after the run's
terminal event, when nothing more can come, or when an event takes too long.

## The model

Every function here is one step of one of the parties, at a given time in nanoseconds; names that
nobody has used come from outside. Steps of different parties may follow one another in any order.

## Main definitions

* `Gateway.Client`: the state.
* `Client.connect`, `Client.query`, `Client.send`, `Client.destroy`: calls begin; `Client.poll`: they
  end; `Client.abandon`: they are given up.
* `Client.subscribe`, `Client.beginPull`, `Client.pull`, `Client.dropStream`: streams.
* `Client.takeCommand`, `Client.takeReport`, `Client.takeAlarm`: the supervisor, as long as it does not fail.
* `Client.checked`, `Client.collapse`: whether it fails, and what is left then.
* `Client.dialed`, `Client.refused`, `Client.receive`, `Client.transmit`, `Client.exit`: sockets.
-/

namespace TurnRelay.Gateway

/-! ### The state -/

/-- What a call is about. -/
inductive Purpose where
  /-- To be connected. -/
  | connection
  /-- A query, and the name under which it is sent. -/
  | query (q : Query) (id : String) (timeout : Span)
  /-- A run, and the listener that is to follow it. -/
  | run (id : String) (timeout : Span) (listener : Nat)
  /-- To shut the client down. -/
  | shutdown
  deriving DecidableEq

/-- A call under way. -/
structure Call where
  /-- What it is about. -/
  purpose : Purpose
  /-- When it is given up. -/
  deadline : Option Nat
  deriving DecidableEq

/-- The reader's side of a run. -/
structure RunStream where
  /-- The run. -/
  run : String
  /-- Whether it has ended for the reader. -/
  isFinished : Bool
  /-- Whether the reader was given a terminal event. -/
  sawTerminal : Bool
  /-- When a pull that is under way is given up. -/
  deadline : Option Nat
  deriving DecidableEq, Repr

/-- A client. A call goes by the number of its ticket, a stream by that of its listener and mailbox. -/
structure Client where
  /-- Where the gateway is, and how long to wait for things. -/
  profile : Profile
  /-- The supervisor's state. -/
  connection : Connection
  /-- Whether the supervisor is there. -/
  isRunning : Bool
  /-- What it is still to be told by callers and readers. -/
  commands : List Command
  /-- What it is still to be told of sockets. -/
  reports : List (Nat × Report)
  /-- The sockets. -/
  sockets : Sockets
  /-- The tickets of calls under way. -/
  tickets : Tickets
  /-- The calls under way. -/
  calls : Table Nat Call
  /-- The mailboxes of streams, and of calls that are to become streams. -/
  boxes : Mailboxes
  /-- The streams. -/
  streams : Table Nat RunStream
  /-- How many hold the client beside calls and streams. -/
  handles : Nat
  /-- The number of the next ticket. -/
  nextTicket : Nat
  /-- The number of the next listener. -/
  nextListener : Nat
  deriving DecidableEq

/-- What a call comes to. -/
inductive Yield where
  /-- Nothing but success. -/
  | nothing
  /-- An answer. -/
  | value (v : Json)
  /-- A run, and the number of its stream. -/
  | run (ack : Wire.SendAck) (stream : Nat)
  deriving DecidableEq

/-- The ticket of a command. -/
def Command.ticket? : Command → Option Nat
  | .ensureConnected t => some t
  | .request _ _ _ t _ => some t
  | .destroy t => some t
  | _ => none

/-- The listener that a command brings. -/
def Command.listener? : Command → Option Listener
  | .request _ _ _ _ l => l
  | .listen _ l => some l
  | _ => none

/-- Whether a command shuts the client down. -/
def Command.isDestroy : Command → Bool
  | .destroy _ => true
  | _ => false

namespace Client

/-- A client whose supervisor has just begun, held by one. -/
def new (p : Profile) : Client where
  profile := p
  connection := .new p
  isRunning := true
  commands := []
  reports := []
  sockets := .empty
  tickets := .empty
  calls := .empty
  boxes := .empty
  streams := .empty
  handles := 1
  nextTicket := 0
  nextListener := 1

/-- Whether anybody could tell the supervisor anything. -/
def isHeld (c : Client) : Bool :=
  decide (c.handles ≠ 0) || decide (c.calls.size ≠ 0) || decide (c.streams.size ≠ 0)

/-- Whether a ticket could still be answered. -/
def holdsTicket (c : Client) (ticket : Nat) : Bool :=
  c.connection.waiters.contains ticket || c.connection.outstanding.holds ticket ||
    c.commands.any fun cmd => decide (cmd.ticket? = some ticket)

/-- Whether anything could still come into a mailbox. -/
def feeds (c : Client) (box : Nat) : Bool :=
  let isFor (l : Option Listener) : Bool := decide (l.map (·.box) = some box)
  c.connection.audience.holds box || c.connection.outstanding.values.any (isFor ·.listener) ||
    c.commands.any (isFor ·.listener?)

/-- Tells the supervisor something, if it is there. -/
def tell (c : Client) (cmd : Command) : Client :=
  if c.isRunning then { c with commands := c.commands ++ [cmd] } else c

/-- What a step of the supervisor sees. -/
def surroundings (c : Client) (now : Nat) (freshId : String) : Surroundings where
  now := now
  waiting := c.tickets.isWaiting
  accepts := c.boxes.accepts
  linkUp := c.sockets.isOpen
  freshId := freshId

/-- Nobody holds the client any more, calls and streams apart. -/
def release (c : Client) : Client := { c with handles := 0 }

/-! ### Calls -/

/-- Begins a call: the number of its ticket, and what the supervisor is told of it. -/
def begin (c : Client) (cmd : Nat → Command) (call : Call) : Nat × Client :=
  let n := c.nextTicket
  (n, { c with
    nextTicket := n + 1, tickets := c.tickets.set n .waiting, calls := c.calls.set n call }.tell
      (cmd n))

/-- Asks to be connected. -/
def connect (c : Client) (now : Nat) : Nat × Client :=
  c.begin .ensureConnected ⟨.connection, some (now + c.profile.connectTimeout.nanos)⟩

/-- Asks a query, which is given up after `timeout`. -/
def query (c : Client) (now : Nat) (id : String) (q : Query) (timeout : Span) : Nat × Client :=
  c.begin (fun n => .request id q.method q.params n none)
    ⟨.query q id timeout, some (now + timeout.nanos)⟩

/-- Asks for a run. -/
def send (c : Client) (now : Nat) (id : String) (params : Wire.SendParams) : Nat × Client :=
  let l := c.nextListener
  let timeout := c.profile.requestTimeout
  { c with nextListener := l + 1, boxes := c.boxes.set l .new }.begin
    (fun n => .request id sendMethod params.encode n (some ⟨l, l⟩))
    ⟨.run id timeout l, some (now + timeout.nanos)⟩

/-- Asks to shut the client down. -/
def destroy (c : Client) : Nat × Client := c.begin .destroy ⟨.shutdown, none⟩

/-- Ends a call. -/
def endCall (c : Client) (n : Nat) : Client :=
  { c with tickets := c.tickets.erase n, calls := c.calls.erase n }

/-- What a call comes to with an answer. The answer to a call for a run becomes a stream. -/
def conclude (c : Client) (purpose : Purpose) (a : Answer) : Except Fault Yield × Client :=
  match purpose with
  | .connection => (a.map fun _ => .nothing, c)
  | .shutdown => (.ok .nothing, c)
  | .query q _ _ => ((a.bind q.read).map .value, c)
  | .run _ _ l =>
    match a with
    | .error f => (.error f, { c with boxes := c.boxes.erase l })
    | .ok v =>
      match Wire.SendAck.decode v with
      | .error e => (.error (.ofDecodeError e), { c with boxes := c.boxes.erase l })
      | .ok ack => (.ok (.run ack l), { c with streams := c.streams.set l ⟨ack.runId, false, false, none⟩ })

/-- A call that takes too long. A request is forgotten then, and so is the mailbox of a run. -/
def expire (c : Client) : Purpose → Except Fault Yield × Client
  | .connection => (.error .connectTimeout, c)
  | .shutdown => (.ok .nothing, c)
  | .query q id timeout =>
    (.error (.requestTimeout q.method timeout.millis), c.tell (.cancelRequest id))
  | .run id timeout l =>
    (.error (.requestTimeout sendMethod timeout.millis),
      { c with boxes := c.boxes.erase l }.tell (.cancelRequest id))

/-- Whether a deadline has come. -/
def isDue (now : Nat) (deadline : Option Nat) : Bool := deadline.any fun d => decide (d ≤ now)

/-- Looks whether a call has ended. -/
def poll (c : Client) (now : Nat) (n : Nat) : Option (Except Fault Yield) × Client :=
  match c.calls.get? n with
  | none => (none, c)
  | some call =>
    match (c.tickets.ask n (c.holdsTicket n)).1 with
    | .answer a =>
      let (r, c) := (c.endCall n).conclude call.purpose a
      (some r, c)
    | .lost =>
      let (r, c) := (c.endCall n).conclude call.purpose (.error .destroyed)
      (some r, c)
    | .nothing =>
      if isDue now call.deadline then
        let (r, c) := (c.endCall n).expire call.purpose
        (some r, c)
      else (none, c)

/-- Gives up a call without telling anybody. -/
def abandon (c : Client) (n : Nat) : Client :=
  match c.calls.get? n with
  | some ⟨.run _ _ l, _⟩ => { c.endCall n with boxes := c.boxes.erase l }
  | _ => c.endCall n

/-! ### Streams -/

/-- What a pull comes to. -/
inductive Pulled where
  /-- An event. -/
  | event (e : Wire.RunEvent)
  /-- Nothing yet. -/
  | nothing
  /-- Nothing any more. -/
  | ended
  deriving DecidableEq, Repr

/-- Follows a run that others follow already. -/
def subscribe (c : Client) (run : String) : Except Fault Nat × Client :=
  let l := c.nextListener
  let c := { c with nextListener := l + 1 }
  if c.isRunning then
    (.ok l, { c with
      boxes := c.boxes.set l .new,
      streams := c.streams.set l ⟨run, false, false, none⟩ }.tell (.listen run ⟨l, l⟩))
  else (.error .destroyed, c)

/-- Begins a pull, unless one is under way. -/
def beginPull (c : Client) (now : Nat) (stream : Nat) : Client :=
  { c with streams := c.streams.modify stream fun s =>
      if s.deadline.isSome then s
      else { s with deadline := some (now + c.profile.runIdleTimeout.nanos) } }

/-- The stream of a number, after a pull. -/
def endPull (c : Client) (stream : Nat) (isFinished sawTerminal : Bool) : Client :=
  { c with streams := c.streams.modify stream fun s =>
      { s with deadline := none, isFinished := s.isFinished || isFinished,
               sawTerminal := s.sawTerminal || sawTerminal } }

/-- The supervisor need not feed a stream any more. -/
def unlisten (c : Client) (stream : Nat) (s : RunStream) : Client :=
  c.tell (.unlisten s.run stream)

/-- Looks whether a pull has ended. -/
def pull (c : Client) (now : Nat) (stream : Nat) : Pulled × Client :=
  match c.streams.get? stream with
  | none => (.ended, c)
  | some s =>
    if s.isFinished then (.ended, c.endPull stream true false)
    else
      let (mail, box) := ((c.boxes.get? stream).getD .new).take (c.feeds stream)
      match mail with
      | .event e =>
        let last := e.state.isTerminal
        (.event e, { c with boxes := c.boxes.set stream box }.endPull stream last last)
      | .ended => (.ended, c.endPull stream true false)
      | .nothing =>
        if isDue now s.deadline then (.ended, (c.endPull stream true false).unlisten stream s)
        else (.nothing, c)

/-- The reader goes away. If it was given no terminal event, the supervisor is told. -/
def dropStream (c : Client) (stream : Nat) : Client :=
  match c.streams.get? stream with
  | none => c
  | some s =>
    let c := if s.sawTerminal then c else c.unlisten stream s
    { c with streams := c.streams.erase stream, boxes := c.boxes.erase stream }

/-! ### The supervisor -/

/-- Carries out an effect. -/
def carryOut (c : Client) : Effect → Client
  | .answer ticket a => { c with tickets := c.tickets.answer ticket a }
  | .deliver box e => { c with boxes := c.boxes.deliver box e }
  | .send epoch f => { c with sockets := c.sockets.modify epoch (·.enqueue f) }
  | .close epoch => { c with sockets := c.sockets.modify epoch (·.cancel) }
  | .dial epoch => { c with sockets := c.sockets.set epoch .wanted }

/-- The supervisor has made a step. -/
def update (c : Client) (o : Connection.Outcome) : Client :=
  o.2.foldl carryOut { c with connection := o.1 }

/-- The supervisor stops. -/
def stop (c : Client) : Client := { c with isRunning := false, commands := [], reports := [] }

/-- The supervisor takes a command; if there is none and can be none, it shuts the client down. -/
def takeCommand (c : Client) (now : Nat) (freshId : String) : Option Client :=
  let env := c.surroundings now freshId
  if ! c.isRunning then none
  else
    match c.commands with
    | cmd :: commands =>
      let c := { c with commands := commands }.update (c.connection.command env c.profile cmd)
      some (if cmd.isDestroy then c.stop else c)
    | [] => if c.isHeld then none else some (c.update (c.connection.destroy env)).stop

/-- The supervisor takes a report. -/
def takeReport (c : Client) (now : Nat) (freshId : String) : Option Client :=
  if ! c.isRunning then none
  else
    match c.reports with
    | (epoch, r) :: reports =>
      let env := c.surroundings now freshId
      some ({ c with reports := reports }.update (c.connection.report env c.profile epoch r))
    | [] => none

/-- The deadline of the supervisor that has come. -/
def dueAlarm? (c : Client) (now : Nat) : Option Alarm :=
  (c.connection.deadlines.find? fun d => decide (d.1 ≤ now)).map (·.2)

/-- The supervisor notices a deadline that has come. -/
def takeAlarm (c : Client) (now : Nat) (freshId : String) : Option Client :=
  if ! c.isRunning then none
  else
    (c.dueAlarm? now).map fun a =>
      c.update (c.connection.alarm (c.surroundings now freshId) c.profile a)

/-- What is left of a client when its supervisor fails in a step that would have led to another. It fails as it sets a
deadline: what an attempt or connection leaves behind that ends is settled by then, and nothing has been done yet that
was to follow. Who still waits to be answered waits in vain, nothing comes into a mailbox any more, and what was
published of the connection stays. -/
def collapse (c c' : Client) : Client :=
  let left := if c'.connection.phase = .disconnected then c' else c
  { left.stop with
    connection := c.connection, tickets := left.tickets.void, boxes := left.boxes.close }

/-- What a step comes to that would lead from one client to another: the supervisor fails in it if the clock cannot
tell a deadline. -/
def checked (c c' : Client) : Client := if c'.connection.isTimely then c' else c.collapse c'

/-! ### Sockets -/

/-- The supervisor is to be told something of a socket, if it is there. -/
def reportOn (c : Client) (epoch : Nat) (r : Report) : Client :=
  if c.isRunning then { c with reports := c.reports ++ [(epoch, r)] } else c

/-- A socket is put into a state. -/
def setSocket (c : Client) (epoch : Nat) (s : Socket) : Client :=
  { c with sockets := c.sockets.set epoch s }

/-- A socket has been opened. Without a supervisor it is dropped. -/
def dialed (c : Client) (epoch : Nat) : List Sight × Client :=
  if c.isRunning then ([.opened], (c.setSocket epoch (.opened [] false)).reportOn epoch .opened)
  else ([.opened, .gone], c.setSocket epoch .ended)

/-- A socket could not be opened. -/
def refused (c : Client) (epoch : Nat) (reason : String) : Client :=
  (c.setSocket epoch .ended).reportOn epoch (.failed reason)

/-- Something comes in on a socket. A closing from the other side is not answered. -/
def receive (c : Client) (epoch : Nat) (x : Inbound) : List Sight × Client :=
  match c.sockets.get? epoch with
  | some (.opened _ _) =>
    match x, x.ending? with
    | .broken, some reason => ([], (c.setSocket epoch .ended).reportOn epoch (.closed reason))
    | _, some reason => ([.gone], (c.setSocket epoch .ended).reportOn epoch (.closed reason))
    | .text t, none => ([], c.reportOn epoch (.text t))
    | .ping payload, none => ([.pong payload], c)
    | _, none => ([], c)
  | _ => ([], c)

/-- The process of the client ends, and nobody holds the client any more: the epochs of the sockets that are gone with
it. -/
def exit (c : Client) : List Nat × Client := (c.sockets.loose, { c.release with sockets := c.sockets.drop })

/-- Something goes out on a socket: its next frame, or else its closing. -/
def transmit (c : Client) (epoch : Nat) : Option (Sight × Client) :=
  match c.sockets.get? epoch with
  | some (.opened (f :: queue) isCancelled) =>
    some (.frame f, c.setSocket epoch (.opened queue isCancelled))
  | some (.opened [] true) =>
    some (.closed, (c.setSocket epoch .ended).reportOn epoch (.closed "closed locally"))
  | _ => none

/-! ### What comes next -/

/-- All deadlines that are set. -/
def deadlines (c : Client) : List Nat :=
  (if c.isRunning then c.connection.deadlines.map (·.1) else []) ++
    c.calls.values.filterMap (·.deadline) ++ c.streams.values.filterMap (·.deadline)

end Client

end TurnRelay.Gateway
