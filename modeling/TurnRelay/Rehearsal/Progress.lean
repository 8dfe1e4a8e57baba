import TurnRelay.Gateway.Url
import TurnRelay.Rehearsal.World

/-!
# Progress in a rehearsal

Everybody in the world goes on as far as possible, one after the other, until nobody can move. Then time
may pass: it stands still at every deadline on the way, until nobody can move again.

## Main definitions

* `World.supervise`, `World.dial`, `World.receive`, `World.transmit`, `World.proceed`: single steps.
* `World.settle`: all steps that can be made at the present time.
* `World.pass`: time passes.
-/

namespace TurnRelay.Rehearsal

open Gateway (Client)

namespace World

/-! ### Clients and lines -/

/-- A client's supervisor takes what it is told in one way, or fails over it. -/
def take (i : Nat) (step : Client → Nat → String → Option Client) (w : World) : Option World :=
  (w.onClient i fun c now names => (step c now names.id).map fun c' => ((), c.checked c')).map (·.2)

/-- A client's supervisor takes what it is told: commands first, then reports, then deadlines. -/
def supervise (i : Nat) (w : World) : Option World :=
  w.take i Client.takeCommand <|> w.take i Client.takeReport <|> w.take i Client.takeAlarm

/-- A client's socket is dialed. An address that cannot be taken apart is not. -/
def dial (i : Nat) (w : World) : Option World := do
  let c ← w.clients[i]?
  let epoch ← c.sockets.wanted?
  match Gateway.Url.fault? c.profile.url with
  | some fault => w.refuseDial i epoch fault
  | none =>
    let w := w.note (.dialed w.policy)
    match w.policy with
    | .accept => w.openLine i epoch
    | .refuse reason => w.refuseDial i epoch (failedDial reason)
    | .hang =>
      return { w with hanging := w.hanging ++ [(i, epoch)] }.setClient i (c.setSocket epoch .dialing)

/-- Something reaches the client on a line. Lines are counted from one. -/
def receive (n : Nat) (w : World) : Option World := do
  let line ← w.lines[n - 1]?
  let c ← w.clients[line.client]?
  match line.incoming with
  | [] => none
  | x :: rest =>
    let (sights, c) := c.receive line.epoch x
    return ({ w with lines := w.lines.set (n - 1) { line with incoming := rest } }.setClient
      line.client c).see n sights

/-- Something reaches the gateway on a line. -/
def transmit (n : Nat) (w : World) : Option World := do
  let line ← w.lines[n - 1]?
  let c ← w.clients[line.client]?
  let (sight, c) ← c.transmit line.epoch
  let arrived :=
    match sight with
    | .frame (.request id _ _) => w.arrived ++ [id]
    | _ => w.arrived
  return ({ w with arrived := arrived }.setClient line.client c).see n [sight]

/-! ### Jobs -/

/-- A step of a job: the world, and what is left of the job. -/
abbrev Progress := Option (Option Job × World)

/-- A call of the relay's client ends. A run's stream is kept under the call's name. -/
def proceedCall (name : String) (call : Nat) (w : World) : Progress := do
  let (r, w) ← w.onClient 0 fun c now _ =>
    match c.poll now call with
    | (some r, c) => some (r, c)
    | (none, _) => none
  match r with
  | .ok (.run ack stream) =>
    return (none, (w.note (.called name (.ok ack.encode))).keepStream name stream)
  | .ok (.value v) => return (none, w.note (.called name (.ok v)))
  | .ok .nothing => return (none, w.note (.called name (.ok .null)))
  | .error f => return (none, w.note (.called name (.error f)))

/-- What a pull of a stream comes to, if it has ended. -/
def pulled (stream : Nat) (w : World) : Option (Option Wire.RunEvent × World) :=
  w.onClient 0 fun c now _ =>
    match c.pull now stream with
    | (.event e, c) => some (some e, c)
    | (.ended, c) => some (none, c)
    | (.nothing, _) => none

/-- A pull ends, and the stream is kept again. -/
def proceedPull (name label : String) (stream : Nat) (w : World) : Progress := do
  let (event, w) ← w.pulled stream
  let c ← w.clients[0]?
  let s ← c.streams.get? stream
  return (none, (w.note (.pulled name event s.run s.sawTerminal)).keepStream label stream)

/-- A stream yields an event, and the next is waited for; or the stream ends. -/
def proceedCollect (name : String) (stream : Nat) (w : World) : Progress := do
  let (event, w) ← w.pulled stream
  match event with
  | some e =>
    let (_, w) ← w.begin 0 fun c now _ => ((), c.beginPull now stream)
    return (some (.collect name stream), w.note (.collected name e))
  | none => return (none, (w.note (.collectedAll name)).dropStream stream)

/-- A browser is sent a JSON body behind its head. -/
def respond (name : String) (isHead : Bool) (status : Nat) (body : Json) (w : World) : World :=
  (w.note (.head name (.json status))).note (.body name (if isHead then none else some body))

/-- A question of a browser goes on. -/
def proceedInquiry (name : String) (isHead : Bool) (x : Web.Inquiry) (w : World) : Progress := do
  let (next, w) ← w.onClient 0 fun c now names => x.advance c now names.id
  match next with
  | .goesOn x => return (some (.inquire name isHead x), w)
  | .answered r =>
    let (status, body) := Web.reply r
    return (none, w.respond name isHead status body)

/-- A browser is sent something, or its turn goes on. -/
def proceedRelay (name : String) (s : Web.EventStream) (w : World) : Progress :=
  match s.take w.now w.tally with
  | some (block, s, tally) =>
    some (some (.relay name s), { w with tally := tally }.note (.block name block))
  | none =>
    match w.onClient 0 fun c now names => s.live.advance c now names with
    | some (live, w) => some (some (.relay name { s with live := live }), w)
    | none =>
      match s.report w.tally with
      | some (s, tally) => some (some (.relay name s), { w with tally := tally })
      | none =>
        match s.close with
        | some s => some (some (.relay name s), w.note (.blocksEnd name))
        | none =>
          match s.remind w.manner w.now with
          | some s => some (some (.relay name s), w.note (.block name Web.comment))
          | none => if s.isOver then some (none, w) else none

/-- A command that asks goes on. -/
def proceedAsk (name : String) (client : Nat) (a : CommandLine.Asking) (w : World) : Progress := do
  let (next, w) ← w.onClient client a.advance
  match next with
  | .goesOn a => return (some (.ask name client a), w)
  | .prints block a => return (some (.ask name client a), w.note (.printed block))
  | .ends r lost => return (none, (w.loseLines client lost).note (.ran name r))

/-- A call ends for which nobody waits. -/
def proceedBackground (client call : Nat) (w : World) : Progress := do
  let (_, w) ← w.onClient client fun c now _ =>
    match c.poll now call with
    | (some r, c) => some (r, c)
    | (none, _) => none
  return (none, w)

/-- A job goes on. -/
def proceedWith (j : Job) (w : World) : Progress :=
  match j with
  | .call name call => w.proceedCall name call
  | .pull name label stream => w.proceedPull name label stream
  | .collect name stream => w.proceedCollect name stream
  | .inquire name isHead x => w.proceedInquiry name isHead x
  | .relay name s => w.proceedRelay name s
  | .ask name client a => w.proceedAsk name client a
  | .background client call => w.proceedBackground client call

/-- The job of a number goes on. -/
def proceed (n : Nat) (w : World) : Option World := do
  let j ← w.jobs.get? n
  let (left, w) ← w.proceedWith j
  match left with
  | some j => return { w with jobs := w.jobs.set n j }
  | none => return { w with jobs := w.jobs.erase n }

/-! ### Rounds -/

/-- More steps than anything takes that comes to an end. -/
def patience : Nat := 100000

/-- The same step again and again, as long as it is possible, but at most so often. -/
def repeatWithin (step : World → Option World) : Nat → World → Option World
  | 0, _ => none
  | fuel + 1, w => (step w).map fun w => (repeatWithin step fuel w).getD w

/-- Somebody goes on as far as possible. -/
def goOn (step : World → Option World) (w : World) : Option World := repeatWithin step patience w

/-- All that could happen: what comes in and goes out on each line, then what each supervisor and each job does
about it, and last the dials. -/
def possibilities (w : World) : List (World → Option World) :=
  ((List.range w.lines.length).flatMap fun n => [goOn (receive (n + 1)), goOn (transmit (n + 1))]) ++
  ((List.range w.clients.length).map fun i => goOn (supervise i)) ++
  (w.jobs.entries.map fun e => goOn (proceed e.1)) ++
  (List.range w.clients.length).map dial

/-- What can happen of all that could; also whether anything did. -/
def happen : List (World → Option World) → World → Bool × World
  | [], w => (false, w)
  | step :: steps, w =>
    match step w with
    | some w => (true, (happen steps w).2)
    | none => happen steps w

/-- At most so many rounds. -/
def settleWithin : Nat → World → World
  | 0, w => w
  | fuel + 1, w =>
    match happen w.possibilities w with
    | (true, w) => settleWithin fuel w
    | (false, w) => w

/-- All that can happen at the present time. -/
def settle (w : World) : World := settleWithin patience w

/-! ### Time -/

/-- The first whole millisecond that is not before a moment. -/
def wholeMillis (nanos : Nat) : Nat := (nanos + (nanosPerMilli - 1)) / nanosPerMilli

/-- All times at which something happens by itself. -/
def deadlines (w : World) : List Nat :=
  (w.clients.flatMap fun c => c.deadlines.map wholeMillis) ++
    w.jobs.values.filterMap (Job.deadline? w.manner)

/-- The next time after the present at which something happens by itself. -/
def nextDeadline? (w : World) (now : Nat) : Option Nat :=
  (w.deadlines.filter fun t => decide (now < t)).min?

/-- Time passes from `now` to `target`. -/
def passFrom (now target : Nat) (w : World) : World :=
  let w := { w with now := now }.settle
  match w.nextDeadline? now with
  | some t =>
    if now < t ∧ t ≤ target then passFrom t target w else { w with now := target }
  | none => { w with now := target }
termination_by target - now

/-- Time passes. -/
def pass (ms : Nat) (w : World) : World := (w.passFrom w.now (w.now + ms)).settle

end World

end TurnRelay.Rehearsal
