import TurnRelay.Gateway.Backoff
import TurnRelay.Gateway.Outstanding
import TurnRelay.Gateway.Profile
import TurnRelay.Time.Clock

/-!
# The connection to the gateway

One supervisor owns the connection. It is told what callers want (commands), what happens to sockets
(reports) and which of its deadlines has come, one after the other, and answers each with effects:
answers to callers, events for mailboxes, frames for the socket, and orders to dial or to close.

A connection is set up on demand: the socket is dialed, the gateway sends a challenge, the client its
`connect` request, and the gateway's hello completes the handshake. Afterwards requests can be sent, and
a watchdog expects heartbeats. Whenever an attempt or a connection ends, everything that hung on it ends
in the same step: requests fail, listeners are let go, callers who waited for the connection are told.
Then the next attempt is scheduled, unless the client was shut down.

A deadline is a span from now. The clock cannot tell every moment, and where a step sets a deadline beyond
those that it can tell, the supervisor fails in that step. What is said of the steps here is said of those in
which it does not fail; `Connection.isTimely` is what they lead to.

Every attempt has a number of its own, its *epoch*, and so has every end of one; a report of another
epoch than the present one is stale and changes nothing.

## Main definitions

* `Gateway.Connection`: the state.
* `Gateway.Command`, `Gateway.Report`, `Gateway.Alarm`: what the supervisor is told.
* `Gateway.Effect`: what it does.
* `Connection.command`, `Connection.report`, `Connection.alarm`: its steps.
* `Connection.isTimely`: whether the clock can tell the deadlines.
* `Connection.status`: what is published of the state.
-/

namespace TurnRelay.Gateway

/-! ### What the supervisor is told -/

/-- What callers and readers want. -/
inductive Command where
  /-- To be connected. -/
  | ensureConnected (ticket : Nat)
  /-- To send a request; if its answer names a run, the listener is to follow it. -/
  | request (id method : String) (params : Json) (ticket : Nat) (listener : Option Listener)
  /-- To forget a request. -/
  | cancelRequest (id : String)
  /-- To follow a run. -/
  | listen (run : String) (listener : Listener)
  /-- To follow a run no longer. -/
  | unlisten (run : String) (listener : Nat)
  /-- To shut the client down. -/
  | destroy (ticket : Nat)
  deriving DecidableEq

/-- What happens to a socket. -/
inductive Report where
  /-- It is open. -/
  | opened
  /-- It could not be opened. -/
  | failed (reason : String)
  /-- A text has arrived. -/
  | text (t : String)
  /-- It is closed. -/
  | closed (reason : String)
  deriving DecidableEq, Repr

/-- The deadlines. -/
inductive Alarm where
  /-- The handshake takes too long. -/
  | connect
  /-- No heartbeat has come. -/
  | watchdog
  /-- The next attempt is due. -/
  | reconnect
  deriving DecidableEq, Repr

/-! ### What the supervisor does -/

/-- What a step does to the world. A socket is named by its epoch. -/
inductive Effect where
  /-- A caller is answered. -/
  | answer (ticket : Nat) (a : Answer)
  /-- An event goes into a mailbox. -/
  | deliver (box : Nat) (e : Wire.RunEvent)
  /-- A frame goes out on a socket. -/
  | send (epoch : Nat) (frame : Wire.Frame)
  /-- A socket is to be closed. -/
  | close (epoch : Nat)
  /-- A socket is to be opened. -/
  | dial (epoch : Nat)
  deriving DecidableEq

/-- What a step can see of the world. -/
structure Surroundings where
  /-- The time, in nanoseconds. -/
  now : Nat
  /-- Which tickets are still waited on. -/
  waiting : Nat → Bool
  /-- Which mailboxes take new events. -/
  accepts : Nat → Bool
  /-- Which sockets take frames. -/
  linkUp : Nat → Bool
  /-- A name that was never used. -/
  freshId : String

/-! ### The state -/

/-- How far a handshake has come. -/
inductive Handshake where
  /-- The socket is not open yet. -/
  | dialing
  /-- The gateway has not sent its challenge. -/
  | awaitingChallenge
  /-- The gateway has not answered the `connect` request of this name. -/
  | awaitingHello (id : String)
  deriving DecidableEq, Repr

/-- Where the connection stands. -/
inductive Phase where
  /-- There is none. -/
  | disconnected
  /-- It is being set up. -/
  | connecting (h : Handshake)
  /-- It is there. -/
  | connected
  deriving DecidableEq, Repr

/-- The supervisor's state. -/
structure Connection where
  /-- Where the connection stands. -/
  phase : Phase
  /-- The number of the present attempt or of the end of the last one. -/
  epoch : Nat
  /-- The epoch of the open socket. -/
  link : Option Nat
  /-- What the gateway said when it accepted the connection. -/
  hello : Option Wire.Hello
  /-- When it did. -/
  connectedSince : Option Nat
  /-- Whether the client was shut down. -/
  isDestroyed : Bool
  /-- The requests that have not been answered. -/
  outstanding : Outstanding
  /-- Who follows which run. -/
  audience : Audience
  /-- The callers who wait for the connection. -/
  waiters : List Nat
  /-- The delays between attempts. -/
  backoff : Backoff
  /-- The time between two heartbeats. -/
  tickInterval : Span
  /-- When the handshake has taken too long. -/
  connectDeadline : Option Nat
  /-- When the next heartbeat is overdue. -/
  watchdogDeadline : Option Nat
  /-- When the next attempt is due. -/
  reconnectAt : Option Nat
  deriving DecidableEq

/-- The heartbeat interval if the gateway names none. -/
def defaultTick : Span := .ofSeconds 12

/-- A heartbeat is overdue after so many intervals: two and a half. -/
def watchdogFactor : Binary64 := .ofRatio false 5 2

namespace Connection

/-- A supervisor that has been told nothing. -/
def new (p : Profile) : Connection where
  phase := .disconnected
  epoch := 0
  link := none
  hello := none
  connectedSince := none
  isDestroyed := false
  outstanding := .empty
  audience := .empty
  waiters := []
  backoff := .new p.backoffBase p.backoffCap
  tickInterval := defaultTick
  connectDeadline := none
  watchdogDeadline := none
  reconnectAt := none

/-- A step's result: the next state and what is done. -/
abbrev Outcome := Connection × List Effect

/-! ### Attempts -/

/-- Leaves the present attempt or connection. Callers who wait for it are told the fault; requests fail
because the connection is lost. -/
def disconnect (env : Surroundings) (fault : Fault) (c : Connection) : Outcome :=
  let effects :=
    (c.link.map Effect.close).toList ++
    c.outstanding.tickets.map (fun t => .answer t (.error .connectionLost)) ++
    c.waiters.map (fun t => .answer t (.error fault))
  let c := { c with
    phase := .disconnected, epoch := c.epoch + 1, link := none, hello := none,
    connectedSince := none, connectDeadline := none, watchdogDeadline := none,
    outstanding := .empty, audience := .empty, waiters := [] }
  if c.isDestroyed then (c, effects)
  else
    let (delay, backoff) := c.backoff.next
    ({ c with backoff := backoff, reconnectAt := some (env.now + delay.nanos) }, effects)

/-- Shuts the client down, unless it already is. -/
def destroy (env : Surroundings) (c : Connection) : Outcome :=
  if c.isDestroyed then (c, [])
  else { c with isDestroyed := true, reconnectAt := none }.disconnect env .destroyed

/-- Begins an attempt, unless the client was shut down. -/
def startConnecting (env : Surroundings) (p : Profile) (c : Connection) : Outcome :=
  if c.isDestroyed then (c, [])
  else
    let epoch := c.epoch + 1
    ({ c with
        epoch := epoch, phase := .connecting .dialing,
        connectDeadline := some (env.now + p.connectTimeout.nanos) },
      [.dial epoch])

/-- Expects the next heartbeat. -/
def armWatchdog (env : Surroundings) (c : Connection) : Connection :=
  { c with watchdogDeadline := some (env.now + (c.tickInterval.scale watchdogFactor).nanos) }

/-! ### Commands -/

/-- Sends a request, if there is a connection. -/
def sendRequest (env : Surroundings) (id method : String) (params : Json) (ticket : Nat)
    (listener : Option Listener) (c : Connection) : Outcome :=
  match c.phase, c.link with
  | .connected, some link =>
    if env.linkUp link then
      ({ c with outstanding := c.outstanding.set id ⟨method, ticket, listener⟩ },
        [.send link (.request id method params)])
    else (c, [.answer ticket (.error .connectionLost)])
  | _, _ => (c, [.answer ticket (.error .notConnected)])

/-- Carries out a command. -/
def command (env : Surroundings) (p : Profile) (c : Connection) : Command → Outcome
  | .ensureConnected ticket =>
    match c.phase with
    | .connected => (c, [.answer ticket (.ok .null)])
    | .connecting _ => ({ c with waiters := c.waiters ++ [ticket] }, [])
    | .disconnected =>
      { c with waiters := c.waiters ++ [ticket], reconnectAt := none }.startConnecting env p
  | .request id method params ticket listener => c.sendRequest env id method params ticket listener
  | .cancelRequest id => ({ c with outstanding := c.outstanding.erase id }, [])
  | .listen run listener => ({ c with audience := (c.audience.add env.accepts run listener).2 }, [])
  | .unlisten run listener => ({ c with audience := (c.audience.remove run listener).2 }, [])
  | .destroy ticket =>
    let (c, effects) := c.destroy env
    (c, effects ++ [.answer ticket (.ok .null)])

/-! ### Texts -/

/-- Answers the gateway's challenge. -/
def sendConnect (env : Surroundings) (p : Profile) (c : Connection) : Outcome :=
  match c.link with
  | none => (c, [])
  | some link =>
    if env.linkUp link then
      ({ c with phase := .connecting (.awaitingHello env.freshId) },
        [.send link (.request env.freshId "connect" p.connectParams.encode)])
    else
      c.disconnect env (.transport ("failed to send connect: " ++ Fault.connectionLost.message))

/-- Handles an event. -/
def event (env : Surroundings) (p : Profile) (name : String) (payload : Option Json)
    (c : Connection) : Outcome :=
  match Wire.classify name payload with
  | .challenge =>
    match c.phase with
    | .connecting .awaitingChallenge => c.sendConnect env p
    | _ => (c, [])
  | .heartbeat =>
    match c.phase with
    | .connected => (c.armWatchdog env, [])
    | _ => (c, [])
  | .chat e =>
    let (boxes, audience) := c.audience.dispatch env.accepts e
    ({ c with audience := audience }, boxes.map fun box => .deliver box e)
  | .malformed _ _ => (c, [])
  | .other _ => (c, [])

/-- The heartbeat interval that a hello announces. -/
def announcedTick (hello : Wire.Hello) : Span :=
  match hello.policy.tickIntervalMs with
  | some ms => if ms = 0 then defaultTick else .ofMillis ms.toNat
  | none => defaultTick

/-- Why an answer to `connect` is no hello. -/
def rejection (error : Option Wire.Failure) : String :=
  match error with
  | some e => e.code ++ ": " ++ e.message
  | none => "handshake answered without hello-ok"

/-- Handles the answer to the `connect` request. -/
def finishHandshake (env : Surroundings) (ok : Bool) (payload : Option Json)
    (error : Option Wire.Failure) (c : Connection) : Outcome :=
  match (if ok then payload.bind Wire.Hello.ofPayload? else none) with
  | none => c.disconnect env (.connectRejected (rejection error))
  | some hello =>
    (armWatchdog env { c with
        tickInterval := announcedTick hello, phase := .connected, connectDeadline := none,
        connectedSince := some env.now, backoff := c.backoff.reset, hello := some hello,
        waiters := [] },
      c.waiters.map fun t => .answer t (.ok .null))

/-- The run that an answer to `chat.send` names. -/
def namedRun? (payload : Json) : Option String := (payload.get? "runId").bind Json.string?

/-- Lets a listener follow the run that an answer names, if the caller is still there. -/
def follow (env : Surroundings) (r : Request) (payload : Json) (a : Audience) : Audience :=
  match r.listener, namedRun? payload with
  | some l, some run => if env.waiting r.ticket then (a.add env.accepts run l).2 else a
  | _, _ => a

/-- Handles the response to a request on the established connection. -/
def answerRequest (env : Surroundings) (id : String) (ok : Bool) (payload : Option Json)
    (error : Option Wire.Failure) (c : Connection) : Outcome :=
  match c.outstanding.get? id with
  | none => (c, [])
  | some r =>
    let c := { c with outstanding := c.outstanding.erase id }
    if ok then
      let value := payload.getD .null
      ({ c with audience := follow env r value c.audience }, [.answer r.ticket (.ok value)])
    else
      let fault :=
        match error with
        | some e => Fault.ofFailure e
        | none => .remote "UNKNOWN" "request failed" false
      (c, [.answer r.ticket (.error fault)])

/-- Handles a response. -/
def response (env : Surroundings) (id : String) (ok : Bool) (payload : Option Json)
    (error : Option Wire.Failure) (c : Connection) : Outcome :=
  match c.phase with
  | .disconnected => (c, [])
  | .connected => c.answerRequest env id ok payload error
  | .connecting (.awaitingHello expected) =>
    if id = expected then c.finishHandshake env ok payload error
    else c.disconnect env (.connectRejected ("unexpected response " ++ id ++ " during handshake"))
  | .connecting _ =>
    c.disconnect env (.connectRejected ("unexpected response " ++ id ++ " during handshake"))

/-- Handles a text; one that is no frame is passed over. -/
def text (env : Surroundings) (p : Profile) (t : String) (c : Connection) : Outcome :=
  match Wire.Frame.parse? t with
  | none => (c, [])
  | some (.event name payload _) => c.event env p name payload
  | some (.response id ok payload error) => c.response env id ok payload error
  | some (.request _ _ _) => (c, [])

/-! ### Reports and deadlines -/

/-- Handles the report of a socket's epoch. -/
def report (env : Surroundings) (p : Profile) (c : Connection) (epoch : Nat) (r : Report) :
    Outcome :=
  if epoch ≠ c.epoch then
    match r with
    | .opened => (c, [.close epoch])
    | _ => (c, [])
  else
    match r with
    | .opened =>
      let phase :=
        match c.phase with
        | .connecting _ => .connecting .awaitingChallenge
        | phase => phase
      ({ c with link := some epoch, phase := phase }, [])
    | .failed reason => c.disconnect env (.transport reason)
    | .text t => c.text env p t
    | .closed reason =>
      match c.phase with
      | .connecting _ => c.disconnect env (.transport ("closed during handshake: " ++ reason))
      | .connected => c.disconnect env .connectionLost
      | .disconnected => (c, [])

/-- Handles a deadline that has come. -/
def alarm (env : Surroundings) (p : Profile) (c : Connection) : Alarm → Outcome
  | .connect =>
    let c := { c with connectDeadline := none }
    match c.phase with
    | .connecting _ => c.disconnect env .connectTimeout
    | _ => (c, [])
  | .watchdog =>
    let c := { c with watchdogDeadline := none }
    match c.phase with
    | .connected => c.disconnect env .connectionLost
    | _ => (c, [])
  | .reconnect => { c with reconnectAt := none }.startConnecting env p

/-- The deadlines that are set, with their times. -/
def deadlines (c : Connection) : List (Nat × Alarm) :=
  (c.connectDeadline.map (·, Alarm.connect)).toList ++
  (c.watchdogDeadline.map (·, Alarm.watchdog)).toList ++
  (c.reconnectAt.map (·, Alarm.reconnect)).toList

/-- Whether the clock can tell the deadlines that are set. -/
def isTimely (c : Connection) : Bool := c.deadlines.all fun d => Clock.tells d.1

end Connection

/-! ### What is published -/

/-- A summary of the connection. -/
structure Status where
  /-- The name of the state. -/
  state : String
  /-- The gateway's name for the connection. -/
  connId : Option String
  /-- The protocol revision in force. -/
  protocol : Option UInt32
  /-- The time between two heartbeats, in milliseconds. -/
  tickIntervalMs : Option Nat
  /-- When the connection was accepted. -/
  connectedSince : Option Nat
  /-- Attempts that failed since the last one that did not. -/
  reconnectAttempts : UInt32
  /-- Requests that have not been answered. -/
  pendingRequests : Nat
  /-- Runs that are followed. -/
  activeRuns : Nat
  deriving DecidableEq, Repr

namespace Connection

/-- The name of the state. -/
def stateName (c : Connection) : String :=
  if c.isDestroyed then "destroyed"
  else
    match c.phase with
    | .disconnected => "disconnected"
    | .connecting _ => "connecting"
    | .connected => "connected"

/-- The summary of a state. -/
def status (c : Connection) : Status where
  state := c.stateName
  connId := c.hello.map (·.server.connId)
  protocol := c.hello.map (·.protocol)
  tickIntervalMs := c.hello.map fun _ => c.tickInterval.millis
  connectedSince := c.connectedSince
  reconnectAttempts := c.backoff.count
  pendingRequests := c.outstanding.size
  activeRuns := c.audience.runs.length

end Connection

/-- Writes a summary, the time of acceptance as it is written by `time`. -/
def Status.encode (time : Option Nat → Json) (s : Status) : Json :=
  .ofMembers [("state", .string s.state),
    ("connId", (s.connId.map Json.string).getD .null),
    ("protocol", (s.protocol.map Json.ofWord32).getD .null),
    ("tickIntervalMs", (s.tickIntervalMs.map Json.ofNat).getD .null),
    ("connectedSince", time s.connectedSince),
    ("reconnectAttempts", .ofWord32 s.reconnectAttempts),
    ("pendingRequests", .ofNat s.pendingRequests), ("activeRuns", .ofNat s.activeRuns)]

end TurnRelay.Gateway
