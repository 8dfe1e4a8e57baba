import TurnRelay.Rehearsal.Progress
import TurnRelay.Web.Request

/-!
# Scripts

A script says step by step what callers, readers, browsers, commands and the gateway do, and when time
passes. After each step everything that can happen happens, and the notes are collected.

## Main definitions

* `Rehearsal.Step`: the steps.
* `World.perform`: a step, with the notes that were taken.
-/

namespace TurnRelay.Rehearsal

open Gateway (Client)

/-- A step of a script. -/
inductive Step where
  /-- A caller wants to be connected. -/
  | connect (name : String)
  /-- A caller shuts the client down. -/
  | destroy (name : String)
  /-- A caller asks something, and waits for so many milliseconds or as long as usual. -/
  | query (name : String) (q : Gateway.Query) (timeout : Option Nat)
  /-- A caller starts a run. -/
  | send (name : String) (params : Wire.SendParams)
  /-- A reader follows a run. -/
  | subscribe (run name : String)
  /-- A reader wants the next event of a stream. -/
  | next (label name : String)
  /-- A reader wants all events of a stream. -/
  | collect (label name : String)
  /-- A reader gives up a stream. -/
  | dropStream (label : String)
  /-- The relay and its client are given up. -/
  | dropRelay
  /-- The gateway answers dials in another way. -/
  | policy (p : Policy)
  /-- The gateway answers the oldest unanswered dial, perhaps with a refusal. -/
  | release (refusal : Option String)
  /-- The gateway sends something on a line, by default the newest. -/
  | serve (line : Option Nat) (messages : List Gateway.Inbound)
  /-- So many milliseconds pass. -/
  | pass (ms : Nat)
  /-- Nothing. -/
  | idle
  /-- A browser makes a request. -/
  | browse (name : String) (r : Web.Request)
  /-- A browser goes away. -/
  | leave (name : String)
  /-- A command is run. -/
  | run (name : String) (words : List String) (place : CommandLine.Place)

/-- Whether a step needs the relay or its client. -/
def Step.needsRelay : Step → Bool
  | .connect _ => true
  | .destroy _ => true
  | .query _ _ _ => true
  | .send _ _ => true
  | .subscribe _ _ => true
  | .browse _ _ => true
  | _ => false

namespace World

/-! ### Callers and readers -/

/-- A call of the relay's client begins. -/
def startCall (name : String) (step : Client → Nat → Turn.FreshNames → Nat × Client) (w : World) :
    Option World := do
  let (call, w) ← w.begin 0 step
  return w.addJob (.call name call)

/-- A reader takes a stream to pull it. -/
def takeStream (label name : String) (job : Nat → Job) (w : World) : Option World :=
  match w.streams.get? label with
  | none => some (w.note (.noStream name))
  | some stream => do
    let w := { w with streams := w.streams.erase label }
    let (_, w) ← w.begin 0 fun c now _ => ((), c.beginPull now stream)
    return w.addJob (job stream)

/-- A reader follows a run. -/
def subscribe (run name : String) (w : World) : Option World := do
  let (r, w) ← w.begin 0 fun c _ _ => c.subscribe run
  match r with
  | .ok stream => return w.keepStream name stream
  | .error f => return w.note (.called name (.error f))

/-! ### The gateway -/

/-- A message of the script, with the names of requests filled in. -/
def fill (w : World) : Gateway.Inbound → Gateway.Inbound
  | .text t => .text (Naming.fill w.arrived t)
  | x => x

/-- The gateway sends something. -/
def serve (line : Option Nat) (messages : List Gateway.Inbound) (w : World) : World :=
  let n := line.getD w.lines.length
  { w with lines := w.lines.modify (n - 1) fun l =>
      { l with incoming := l.incoming ++ messages.map w.fill } }

/-- The gateway answers the oldest dial that it has not answered. -/
def release (refusal : Option String) (w : World) : Option World :=
  match w.hanging with
  | [] => none
  | (client, epoch) :: rest =>
    let w := { w with hanging := rest }
    match refusal with
    | none => w.openLine client epoch
    | some reason => w.refuseDial client epoch (failedDial reason)

/-! ### Browsers -/

/-- A browser makes a request. -/
def browse (name : String) (r : Web.Request) (w : World) : Option World :=
  let respond (status : Nat) (body : Json) : Option World :=
    some (w.respond name r.isHead status body)
  match r.plan w.manner with
  | .reject status allow => some (w.note (.head name (.rejection status allow)))
  | .refuse why => respond why.status why.body
  | .ask q => do
    let (x, w) ← w.begin 0 fun c now _ => Web.Inquiry.begin c now q
    return w.addJob (.inquire name r.isHead x)
  | .relay m =>
    let (s, tally) := Web.EventStream.begin w.now w.manner m w.tally
    some (({ w with tally := tally }.note (.head name .events)).addJob (.relay name s))
  | .health => do
    let s ← w.status?
    respond 200 (Web.healthBody moment s w.tally)
  | .live => respond 200 Web.liveBody
  | .ready => do
    let s ← w.status?
    let (status, body) := Web.readyBody s
    respond status body
  | .counts => respond 200 w.tally.encode

/-- A browser goes away. -/
def leaveJob (name : String) (w : World) : Nat × Job → Option World
  | (n, .inquire other _ x) =>
    if other = name then do
      let (_, w) ← w.begin 0 fun c _ _ => ((), x.abandon c)
      return { w with jobs := w.jobs.erase n }
    else none
  | (n, .relay other s) =>
    if other = name && s.isRead then some { w with jobs := w.jobs.set n (.relay other s.hangUp) }
    else none
  | _ => none

/-- A browser goes away, if it is there. -/
def leave (name : String) (w : World) : Option World := w.jobs.entries.findSome? (w.leaveJob name)

/-! ### Commands -/

/-- The command that serves begins to connect, and then looks where it is to listen. -/
def runServe (name : String) (o : CommandLine.Serve) (place : CommandLine.Place) (w : World) : World :=
  match o.prepare place with
  | .error f => w.note (.ran name (.error f))
  | .ok s =>
    let (call, c) := (Client.new s.gateway.profile).connect w.nanos
    match o.addressFailure? s with
    | some f =>
      let (i, w) := w.addClient c.release
      (w.addJob (.background i call)).note (.ran name (.error f))
    | none =>
      let (i, w) := w.addClient c
      w.addJob (.background i call)

/-- The command that asks begins. -/
def runAsk (name : String) (a : CommandLine.Ask) (place : CommandLine.Place) (w : World) : World :=
  match a.prepare place with
  | .error f => w.note (.ran name (.error f))
  | .ok (s, r) =>
    let (i, w) := w.addClient (.new s.gateway.profile)
    w.addJob (.ask name i (.begin s r))

/-- A command is run. Without a command the program serves. -/
def run (name : String) (words : List String) (place : CommandLine.Place) (w : World) : World :=
  match CommandLine.Invocation.read words with
  | .error r => w.note (.misused name r)
  | .ok i =>
    match i.command with
    | none => w.runServe name {} place
    | some (.serve o) => w.runServe name o place
    | some (.ask a) => w.runAsk name a place

/-! ### Steps -/

/-- What a step does at once. -/
def act (w : World) : Step → Option World
  | .connect name => w.startCall name fun c now _ => c.connect now
  | .destroy name => w.startCall name fun c _ _ => c.destroy
  | .query name q timeout => w.startCall name fun c now names =>
    c.query now names.id q ((timeout.map Span.ofMillis).getD c.profile.requestTimeout)
  | .send name params => w.startCall name fun c now names => c.send now names.id params
  | .subscribe run name => w.subscribe run name
  | .next label name => w.takeStream label name (.pull name label)
  | .collect label name => w.takeStream label name (.collect name)
  | .dropStream label => (w.streams.get? label).map fun stream =>
    { w with streams := w.streams.erase label }.dropStream stream
  | .dropRelay =>
    (w.begin 0 fun c _ _ => ((), c.release)).map fun r => { r.2 with isServing := false }
  | .policy p => some { w with policy := p }
  | .release refusal => w.release refusal
  | .serve line messages => some (w.serve line messages)
  | .pass ms => some (w.pass ms)
  | .idle => some w
  | .browse name r => w.browse name r
  | .leave name => w.leave name
  | .run name words place => some (w.run name words place)

/-- A step and all that comes of it: the notes, oldest first, and the world afterwards. -/
def perform (w : World) (s : Step) : List Note × World :=
  let w := if s.needsRelay && ! w.isServing then w else (w.act s).getD w
  let w := w.settle
  (w.notes.reverse, { w with notes := [] })

end World

end TurnRelay.Rehearsal
