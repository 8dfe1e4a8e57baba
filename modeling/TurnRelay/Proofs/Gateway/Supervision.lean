import TurnRelay.Proofs.Gateway.Run

/-!
# What a supervisor does

The supervisor answers each input with one step. Whatever arrives, the step is one of a few: an input is
passed over, an attempt begins, goes on or ends, a request goes out or is answered, somebody follows a run
or does so no longer, an event is delivered, the client is shut down. `Acts` says which of them an input
leads to in which state, and what becomes of the connection.

## The model

* `Tidings.ofText` — what a text means to the supervisor.
* `Passes`, `Ends`, `Attempts` — what is passed over, what ends an attempt or connection, what begins one.
* `Connection.cleared`, `Connection.farewells` — what is left at such an end, and who is told.
* `Acts` — the steps.

## What is proved

* `acts_handle` — every input to a client that was not shut down leads to one of the steps.
-/

namespace TurnRelay.Gateway

/-! ### What texts mean -/

/-- What a text means to the supervisor. -/
inductive Tidings where
  /-- Nothing. -/
  | nothing
  /-- The gateway opens the handshake. -/
  | challenge
  /-- The gateway is alive. -/
  | heartbeat
  /-- A run has gone on. -/
  | chat (e : Wire.RunEvent)
  /-- The request of a name is answered. -/
  | response (id : String) (ok : Bool) (payload : Option Json) (error : Option Wire.Failure)

namespace Tidings

/-- What an event means to the supervisor. -/
def ofNotice : Wire.Notice → Tidings
  | .challenge => .challenge
  | .heartbeat => .heartbeat
  | .chat e => .chat e
  | _ => .nothing

/-- What a text means to the supervisor. -/
def ofText (t : String) : Tidings :=
  match Wire.Frame.parse? t with
  | some (.event name payload _) => ofNotice (Wire.classify name payload)
  | some (.response id ok payload error) => .response id ok payload error
  | _ => .nothing

theorem ofText_eq_response_iff {t id : String} {ok : Bool} {payload : Option Json}
    {error : Option Wire.Failure} : ofText t = .response id ok payload error ↔
      Wire.Frame.parse? t = some (.response id ok payload error) := by
  unfold ofText
  constructor
  · intro h
    split at h
    · rename_i name payload' seq hp
      cases hn : Wire.classify name payload' <;> simp [ofNotice, hn] at h
    · rename_i hp
      cases h
      exact hp
    · cases h
  · intro h
    rw [h]

theorem ofText_eq_chat_iff {t : String} {e : Wire.RunEvent} : ofText t = .chat e ↔
    ∃ name payload seq, Wire.Frame.parse? t = some (.event name payload seq) ∧
      Wire.classify name payload = .chat e := by
  unfold ofText
  constructor
  · intro h
    split at h
    · rename_i name payload seq hp
      refine ⟨name, payload, seq, hp, ?_⟩
      cases hn : Wire.classify name payload with
      | chat e' =>
        rw [hn] at h
        cases h
        rfl
      | _ => simp [ofNotice, hn] at h
    · cases h
    · cases h
  · rintro ⟨name, payload, seq, hp, hc⟩
    simp [hp, hc, ofNotice]

end Tidings

namespace Connection

/-- What the connection does about what a text means. -/
def hear (env : Surroundings) (p : Profile) (c : Connection) : Tidings → Outcome
  | .nothing => (c, [])
  | .challenge =>
    match c.phase with
    | .connecting .awaitingChallenge => c.sendConnect env p
    | _ => (c, [])
  | .heartbeat =>
    match c.phase with
    | .connected => (c.armWatchdog env, [])
    | _ => (c, [])
  | .chat e =>
    let (boxes, audience) := c.audience.dispatch env.accepts e
    ({ c with audience := audience }, boxes.map fun box => .deliver box e)
  | .response id ok payload error => c.response env id ok payload error

theorem text_eq_hear (env : Surroundings) (p : Profile) (t : String) (c : Connection) :
    c.text env p t = c.hear env p (Tidings.ofText t) := by
  unfold text Tidings.ofText
  cases Wire.Frame.parse? t with
  | none => rfl
  | some f =>
    cases f with
    | request => rfl
    | response => rfl
    | event name payload seq =>
      simp only [event]
      cases Wire.classify name payload <;> rfl

/-! ### Ends -/

/-- What is left of a connection when an attempt or the connection itself ends. -/
def cleared (c : Connection) : Connection :=
  { c with
    phase := .disconnected, epoch := c.epoch + 1, link := none, hello := none,
    connectedSince := none, connectDeadline := none, watchdogDeadline := none,
    outstanding := .empty, audience := .empty, waiters := [] }

/-- What is done then: the socket is closed, requests fail, and callers who wait are told the fault. -/
def farewells (c : Connection) (fault : Fault) : List Effect :=
  (c.link.map Effect.close).toList ++
  c.outstanding.tickets.map (fun t => .answer t (.error .connectionLost)) ++
  c.waiters.map (fun t => .answer t (.error fault))

/-- An end has sockets closed and callers answered, and nothing else. -/
theorem close_or_answer_of_mem_farewells {c : Connection} {fault : Fault} {e : Effect}
    (h : e ∈ c.farewells fault) : (∃ link, e = .close link) ∨ ∃ n a, e = .answer n a := by
  simp only [farewells, List.mem_append, Option.mem_toList, Option.map_eq_some_iff, List.mem_map] at h
  obtain (⟨link, -, rfl⟩ | ⟨n, -, rfl⟩) | ⟨n, -, rfl⟩ := h
  · exact .inl ⟨link, rfl⟩
  · exact .inr ⟨n, _, rfl⟩
  · exact .inr ⟨n, _, rfl⟩

/-- The connection after an end, the next attempt being due. -/
def rescheduled (c : Connection) (now : Nat) : Connection :=
  { c.cleared with backoff := c.backoff.next.2, reconnectAt := some (now + c.backoff.next.1.nanos) }

/-- The connection of a client that is shut down. -/
def destroyed (c : Connection) : Connection :=
  { c.cleared with isDestroyed := true, reconnectAt := none }

theorem disconnect_eq {c : Connection} (env : Surroundings) (fault : Fault) (h : c.isDestroyed = false) :
    c.disconnect env fault = (c.rescheduled env.now, c.farewells fault) := by
  simp [disconnect, rescheduled, cleared, farewells, h]

theorem destroy_eq {c : Connection} (env : Surroundings) (h : c.isDestroyed = false) :
    c.destroy env = (c.destroyed, c.farewells .destroyed) := by
  simp [destroy, disconnect, destroyed, cleared, farewells, h]

/-- What the caller of a request is told of its response. -/
def answerOf (ok : Bool) (payload : Option Json) (error : Option Wire.Failure) : Answer :=
  if ok then .ok (payload.getD .null)
  else .error (match error with
    | some e => .ofFailure e
    | none => .remote "UNKNOWN" "request failed" false)

/-- The audience once a response has been handled. -/
def audienceAfter (env : Surroundings) (r : Request) (ok : Bool) (payload : Option Json) (a : Audience) :
    Audience :=
  if ok then follow env r (payload.getD .null) a else a

end Connection

/-! ### The steps -/

/-- What the supervisor passes over. -/
inductive Passes (c : Connection) : Input → Prop where
  /-- A report of another epoch. -/
  | stale {epoch : Nat} {r : Report} : epoch ≠ c.epoch → r ≠ .opened → Passes c (.report epoch r)
  /-- An end when there is nothing to end. -/
  | closed {reason : String} : c.phase = .disconnected → Passes c (.report c.epoch (.closed reason))
  /-- A text without meaning. -/
  | nothing {t : String} : Tidings.ofText t = .nothing → Passes c (.report c.epoch (.text t))
  /-- A challenge that was not waited for. -/
  | challenge {t : String} : Tidings.ofText t = .challenge →
      c.phase ≠ .connecting .awaitingChallenge ∨ c.link = none → Passes c (.report c.epoch (.text t))
  /-- A heartbeat when there is no connection. -/
  | heartbeat {t : String} : Tidings.ofText t = .heartbeat → c.phase ≠ .connected →
      Passes c (.report c.epoch (.text t))
  /-- A response when there is not even an attempt. -/
  | response {t id : String} {ok : Bool} {payload : Option Json} {error : Option Wire.Failure} :
      Tidings.ofText t = .response id ok payload error → c.phase = .disconnected →
      Passes c (.report c.epoch (.text t))
  /-- A response to no request. -/
  | unknown {t id : String} {ok : Bool} {payload : Option Json} {error : Option Wire.Failure} :
      Tidings.ofText t = .response id ok payload error → c.phase = .connected →
      c.outstanding.get? id = none → Passes c (.report c.epoch (.text t))

/-- What ends the present attempt or connection, and what callers are told who wait for it. -/
inductive Ends (env : Surroundings) (c : Connection) : Input → Fault → Prop where
  /-- The socket cannot be opened. -/
  | refused {reason : String} : Ends env c (.report c.epoch (.failed reason)) (.transport reason)
  /-- The socket is closed during the handshake. -/
  | closedEarly {reason : String} {h : Handshake} : c.phase = .connecting h →
      Ends env c (.report c.epoch (.closed reason)) (.transport ("closed during handshake: " ++ reason))
  /-- The socket is closed. -/
  | closed {reason : String} : c.phase = .connected →
      Ends env c (.report c.epoch (.closed reason)) .connectionLost
  /-- The handshake takes too long. -/
  | slow {h : Handshake} : c.phase = .connecting h → Ends env c (.alarm .connect) .connectTimeout
  /-- No heartbeat has come. -/
  | silent : c.phase = .connected → Ends env c (.alarm .watchdog) .connectionLost
  /-- The `connect` request cannot be sent. -/
  | unsent {t : String} {link : Nat} : Tidings.ofText t = .challenge →
      c.phase = .connecting .awaitingChallenge → c.link = some link → env.linkUp link = false →
      Ends env c (.report c.epoch (.text t))
        (.transport ("failed to send connect: " ++ Fault.connectionLost.message))
  /-- The gateway does not accept the client. -/
  | rejected {t id : String} {ok : Bool} {payload : Option Json} {error : Option Wire.Failure} :
      Tidings.ofText t = .response id ok payload error → c.phase = .connecting (.awaitingHello id) →
      (if ok then payload.bind Wire.Hello.ofPayload? else none) = none →
      Ends env c (.report c.epoch (.text t)) (.connectRejected (Connection.rejection error))
  /-- A response comes that was not waited for. -/
  | unexpected {t id : String} {ok : Bool} {payload : Option Json} {error : Option Wire.Failure}
      {h : Handshake} : Tidings.ofText t = .response id ok payload error → c.phase = .connecting h →
      h ≠ .awaitingHello id → Ends env c (.report c.epoch (.text t))
        (.connectRejected ("unexpected response " ++ id ++ " during handshake"))

/-- What begins an attempt, and who comes to wait for it. -/
inductive Attempts (c : Connection) : Input → List Nat → Prop where
  /-- A caller asks to be connected. -/
  | asked {n : Nat} : c.phase = .disconnected → Attempts c (.command (.ensureConnected n)) [n]
  /-- The next attempt is due. -/
  | due : Attempts c (.alarm .reconnect) []

/-- What the supervisor does about an input: the connection afterwards, and the effects. -/
inductive Acts (env : Surroundings) (p : Profile) (c : Connection) :
    Input → Connection → List Effect → Prop where
  /-- It passes it over. -/
  | passes {i : Input} : Passes c i → Acts env p c i c []
  /-- It has a socket closed that comes too late. -/
  | late {epoch : Nat} : epoch ≠ c.epoch → Acts env p c (.report epoch .opened) c [.close epoch]
  /-- It tells a caller that there is a connection. -/
  | admits {n : Nat} : c.phase = .connected →
      Acts env p c (.command (.ensureConnected n)) c [.answer n (.ok .null)]
  /-- It lets a caller wait for the present attempt. -/
  | parks {n : Nat} {h : Handshake} : c.phase = .connecting h →
      Acts env p c (.command (.ensureConnected n)) { c with waiters := c.waiters ++ [n] } []
  /-- It begins an attempt. -/
  | attempts {i : Input} {ns : List Nat} : Attempts c i ns →
      Acts env p c i { c with
        waiters := c.waiters ++ ns, reconnectAt := none, epoch := c.epoch + 1,
        phase := .connecting .dialing,
        connectDeadline := some (env.now + p.connectTimeout.nanos) } [.dial (c.epoch + 1)]
  /-- It sends a request. -/
  | requests {id method : String} {params : Json} {n link : Nat} {l : Option Listener} :
      c.phase = .connected → c.link = some link → env.linkUp link = true →
      Acts env p c (.command (.request id method params n l))
        { c with outstanding := c.outstanding.set id ⟨method, n, l⟩ }
        [.send link (.request id method params)]
  /-- It cannot send a request, as the socket is gone. -/
  | unsent {id method : String} {params : Json} {n link : Nat} {l : Option Listener} :
      c.phase = .connected → c.link = some link → env.linkUp link = false →
      Acts env p c (.command (.request id method params n l)) c
        [.answer n (.error .connectionLost)]
  /-- It cannot send a request, as there is no connection. -/
  | unconnected {id method : String} {params : Json} {n : Nat} {l : Option Listener} :
      c.phase ≠ .connected ∨ c.link = none →
      Acts env p c (.command (.request id method params n l)) c [.answer n (.error .notConnected)]
  /-- It forgets a request. -/
  | forgets {id : String} : Acts env p c (.command (.cancelRequest id))
      { c with outstanding := c.outstanding.erase id } []
  /-- It lets a listener follow a run. -/
  | listens {run : String} {l : Listener} : Acts env p c (.command (.listen run l))
      { c with audience := (c.audience.add env.accepts run l).2 } []
  /-- It lets a listener go. -/
  | unlistens {run : String} {l : Nat} : Acts env p c (.command (.unlisten run l))
      { c with audience := (c.audience.remove run l).2 } []
  /-- The socket is open. -/
  | opens : Acts env p c (.report c.epoch .opened) { c with
      link := some c.epoch
      phase := match c.phase with
        | .connecting _ => .connecting .awaitingChallenge
        | phase => phase } []
  /-- It answers the challenge. -/
  | greets {t : String} {link : Nat} : Tidings.ofText t = .challenge →
      c.phase = .connecting .awaitingChallenge → c.link = some link → env.linkUp link = true →
      Acts env p c (.report c.epoch (.text t))
        { c with phase := .connecting (.awaitingHello env.freshId) }
        [.send link (.request env.freshId "connect" p.connectParams.encode)]
  /-- The gateway accepts the client. -/
  | enters {t id : String} {payload : Option Json} {error : Option Wire.Failure} {hello : Wire.Hello} :
      Tidings.ofText t = .response id true payload error → c.phase = .connecting (.awaitingHello id) →
      payload.bind Wire.Hello.ofPayload? = some hello →
      Acts env p c (.report c.epoch (.text t))
        (Connection.armWatchdog env { c with
          tickInterval := Connection.announcedTick hello, phase := .connected, connectDeadline := none,
          connectedSince := some env.now, backoff := c.backoff.reset, hello := some hello,
          waiters := [] })
        (c.waiters.map fun n => .answer n (.ok .null))
  /-- A heartbeat has come. -/
  | beats {t : String} : Tidings.ofText t = .heartbeat → c.phase = .connected →
      Acts env p c (.report c.epoch (.text t)) (c.armWatchdog env) []
  /-- A run has gone on. -/
  | delivers {t : String} {e : Wire.RunEvent} : Tidings.ofText t = .chat e →
      Acts env p c (.report c.epoch (.text t))
        { c with audience := (c.audience.dispatch env.accepts e).2 }
        ((c.audience.dispatch env.accepts e).1.map fun box => .deliver box e)
  /-- A request is answered. -/
  | answers {t id : String} {ok : Bool} {payload : Option Json} {error : Option Wire.Failure}
      {r : Request} : Tidings.ofText t = .response id ok payload error → c.phase = .connected →
      c.outstanding.get? id = some r →
      Acts env p c (.report c.epoch (.text t))
        { c with
          outstanding := c.outstanding.erase id,
          audience := Connection.audienceAfter env r ok payload c.audience }
        [.answer r.ticket (Connection.answerOf ok payload error)]
  /-- A handshake has taken too long that is over. -/
  | tooLate : (∀ h, c.phase ≠ .connecting h) →
      Acts env p c (.alarm .connect) { c with connectDeadline := none } []
  /-- A heartbeat is overdue that nobody expects. -/
  | tooSilent : c.phase ≠ .connected →
      Acts env p c (.alarm .watchdog) { c with watchdogDeadline := none } []
  /-- The present attempt or connection ends, and the next attempt is scheduled. -/
  | ends {i : Input} {fault : Fault} : Ends env c i fault →
      Acts env p c i (c.rescheduled env.now) (c.farewells fault)
  /-- It shuts the client down, as it was told. -/
  | destroys {n : Nat} : Acts env p c (.command (.destroy n)) c.destroyed
      (c.farewells .destroyed ++ [.answer n (.ok .null)])
  /-- It shuts the client down, as nobody holds it. -/
  | deserts : Acts env p c .deserted c.destroyed (c.farewells .destroyed)

section

variable {env : Surroundings} {p : Profile} {c : Connection}

theorem acts_of_attempts {i : Input} {ns : List Nat} (hd : c.isDestroyed = false) (h : Attempts c i ns) :
    Acts env p c i
      ({ c with waiters := c.waiters ++ ns, reconnectAt := none }.startConnecting env p).1
      ({ c with waiters := c.waiters ++ ns, reconnectAt := none }.startConnecting env p).2 := by
  have hs := @Acts.attempts env p _ _ _ h
  unfold Connection.startConnecting
  rw [if_neg (by simp [hd])]
  exact hs

theorem acts_of_ends {i : Input} {fault : Fault} (hd : c.isDestroyed = false) (h : Ends env c i fault) :
    Acts env p c i (c.disconnect env fault).1 (c.disconnect env fault).2 := by
  rw [Connection.disconnect_eq env fault hd]
  exact .ends h

theorem acts_command (hd : c.isDestroyed = false) (cmd : Command) :
    Acts env p c (.command cmd) (c.command env p cmd).1 (c.command env p cmd).2 := by
  cases cmd with
  | ensureConnected n =>
    cases hp : c.phase with
    | connected =>
      simp only [Connection.command, hp]
      exact .admits hp
    | connecting h =>
      have hs := @Acts.parks env p _ n _ hp
      simp only [Connection.command, hp]
      rwa [hp] at hs
    | disconnected =>
      have hs := @acts_of_attempts env p _ _ _ hd (.asked (n := n) hp)
      simp only [Connection.command, hp]
      rwa [hp] at hs
  | request id method params n l =>
    simp only [Connection.command, Connection.sendRequest]
    split
    · rename_i link hp hl
      cases hu : env.linkUp link with
      | true =>
        simp only [if_true]
        exact .requests hp hl hu
      | false =>
        simp only [Bool.false_eq_true, if_false]
        exact .unsent hp hl hu
    · rename_i hne
      refine .unconnected ?_
      by_cases hp : c.phase = .connected
      · refine .inr ?_
        cases hl : c.link with
        | none => rfl
        | some link => exact absurd hl (hne link hp)
      · exact .inl hp
  | cancelRequest id => exact .forgets
  | listen run l => exact .listens
  | unlisten run l => exact .unlistens
  | destroy n =>
    simp only [Connection.command, Connection.destroy_eq env hd]
    exact .destroys

theorem acts_response {t id : String} {ok : Bool} {payload : Option Json} {error : Option Wire.Failure}
    (hd : c.isDestroyed = false) (ht : Tidings.ofText t = .response id ok payload error) :
    Acts env p c (.report c.epoch (.text t)) (c.response env id ok payload error).1
      (c.response env id ok payload error).2 := by
  cases hp : c.phase with
  | disconnected =>
    simp only [Connection.response, hp]
    exact .passes (.response ht hp)
  | connected =>
    simp only [Connection.response, hp, Connection.answerRequest]
    cases hr : c.outstanding.get? id with
    | none => exact .passes (.unknown ht hp hr)
    | some r =>
      have h := @Acts.answers env p _ _ _ _ _ _ _ ht hp hr
      rw [hp] at h
      cases ok with
      | true => exact h
      | false => exact h
  | connecting h =>
    have hun : h ≠ .awaitingHello id → Acts env p c (.report c.epoch (.text t))
        (c.disconnect env (.connectRejected ("unexpected response " ++ id ++ " during handshake"))).1
        (c.disconnect env (.connectRejected ("unexpected response " ++ id ++ " during handshake"))).2 :=
      fun hne => acts_of_ends hd (.unexpected ht hp hne)
    cases h with
    | dialing =>
      simp only [Connection.response, hp]
      exact hun (by simp)
    | awaitingChallenge =>
      simp only [Connection.response, hp]
      exact hun (by simp)
    | awaitingHello expected =>
      by_cases hid : id = expected
      · subst hid
        simp only [Connection.response, hp, if_true, Connection.finishHandshake]
        cases hh : (if ok = true then payload.bind Wire.Hello.ofPayload? else none) with
        | none => exact acts_of_ends hd (.rejected ht hp hh)
        | some hello =>
          cases ok with
          | false => cases hh
          | true => exact .enters ht hp hh
      · simp only [Connection.response, hp, hid, if_false]
        exact hun (by simpa using Ne.symm hid)

theorem acts_text (hd : c.isDestroyed = false) (t : String) :
    Acts env p c (.report c.epoch (.text t)) (c.text env p t).1 (c.text env p t).2 := by
  rw [Connection.text_eq_hear]
  cases ht : Tidings.ofText t with
  | nothing => exact .passes (.nothing ht)
  | chat e => exact .delivers ht
  | response id ok payload error => exact acts_response hd ht
  | heartbeat =>
    cases hp : c.phase with
    | connected =>
      have h := @Acts.beats env p _ _ ht hp
      simp only [Connection.hear, hp]
      exact h
    | disconnected =>
      simp only [Connection.hear, hp]
      exact .passes (.heartbeat ht (by simp [hp]))
    | connecting h =>
      simp only [Connection.hear, hp]
      exact .passes (.heartbeat ht (by simp [hp]))
  | challenge =>
    by_cases hp : c.phase = .connecting .awaitingChallenge
    · cases hl : c.link with
      | none =>
        simp only [Connection.hear, hp, Connection.sendConnect, hl]
        exact .passes (.challenge ht (.inr hl))
      | some link =>
        cases hu : env.linkUp link with
        | true =>
          have h := Acts.greets (p := p) ht hp hl hu
          rw [hl] at h
          simp only [Connection.hear, hp, Connection.sendConnect, hl, hu, if_true]
          exact h
        | false =>
          simp only [Connection.hear, hp, Connection.sendConnect, hl, hu, Bool.false_eq_true, if_false]
          exact acts_of_ends hd (.unsent ht hp hl hu)
    · have hh : c.hear env p .challenge = (c, []) := by simp only [Connection.hear]
      rw [hh]
      exact .passes (.challenge ht (.inl hp))

theorem acts_report (hd : c.isDestroyed = false) (epoch : Nat) (r : Report) :
    Acts env p c (.report epoch r) (c.report env p epoch r).1 (c.report env p epoch r).2 := by
  unfold Connection.report
  by_cases he : epoch = c.epoch
  · subst he
    rw [if_neg (by simp)]
    cases r with
    | opened => exact .opens
    | failed reason => exact acts_of_ends hd .refused
    | text t => exact acts_text hd t
    | closed reason =>
      cases hp : c.phase with
      | disconnected => exact .passes (.closed hp)
      | connected => exact acts_of_ends hd (.closed hp)
      | connecting h => exact acts_of_ends hd (.closedEarly hp)
  · rw [if_pos he]
    cases r with
    | opened => exact .late he
    | failed reason => exact .passes (.stale he (by simp))
    | text t => exact .passes (.stale he (by simp))
    | closed reason => exact .passes (.stale he (by simp))

theorem acts_alarm (hd : c.isDestroyed = false) (a : Alarm) :
    Acts env p c (.alarm a) (c.alarm env p a).1 (c.alarm env p a).2 := by
  cases a with
  | connect =>
    cases hp : c.phase with
    | connecting h =>
      simp only [Connection.alarm, hp]
      exact acts_of_ends hd (.slow hp)
    | disconnected =>
      simp only [Connection.alarm, hp]
      have hs := @Acts.tooLate env p c (by simp [hp])
      rwa [hp] at hs
    | connected =>
      simp only [Connection.alarm, hp]
      have hs := @Acts.tooLate env p c (by simp [hp])
      rwa [hp] at hs
  | watchdog =>
    cases hp : c.phase with
    | connected =>
      simp only [Connection.alarm, hp]
      exact acts_of_ends hd (.silent hp)
    | disconnected =>
      simp only [Connection.alarm, hp]
      have hs := @Acts.tooSilent env p c (by simp [hp])
      rwa [hp] at hs
    | connecting h =>
      simp only [Connection.alarm, hp]
      have hs := @Acts.tooSilent env p c (by simp [hp])
      rwa [hp] at hs
  | reconnect =>
    have h := @acts_of_attempts env p _ _ _ hd .due
    rwa [List.append_nil] at h

/-- **Every input leads to one of the steps**, as long as the client has not been shut down. -/
theorem acts_handle (hd : c.isDestroyed = false) (i : Input) :
    Acts env p c i (c.handle env p i).1 (c.handle env p i).2 := by
  cases i with
  | command cmd => exact acts_command hd cmd
  | report epoch r => exact acts_report hd epoch r
  | alarm a => exact acts_alarm hd a
  | deserted =>
    simp only [Connection.handle, Connection.destroy_eq env hd]
    exact .deserts

/-- What the supervisor does about the response to an outstanding request. -/
theorem Connection.handle_of_response {t id : String} {ok : Bool} {payload : Option Json}
    {error : Option Wire.Failure} {r : Request} (ht : Tidings.ofText t = .response id ok payload error)
    (hp : c.phase = .connected) (hr : c.outstanding.get? id = some r) :
    c.handle env p (.report c.epoch (.text t)) = ({ c with
        outstanding := c.outstanding.erase id, audience := audienceAfter env r ok payload c.audience },
      [.answer r.ticket (answerOf ok payload error)]) := by
  have htext : c.text env p t = c.answerRequest env id ok payload error := by
    rw [text_eq_hear, ht]
    simp only [hear, response, hp]
  show c.report env p c.epoch (.text t) = _
  unfold report
  rw [if_neg (by simp)]
  simp only [htext, answerRequest, hr]
  cases ok with
  | true => rfl
  | false => rfl

/-- What the supervisor does about the event of a run. -/
theorem Connection.handle_of_chat {t : String} {e : Wire.RunEvent} (ht : Tidings.ofText t = .chat e) :
    c.handle env p (.report c.epoch (.text t)) =
      ({ c with audience := (c.audience.dispatch env.accepts e).2 },
        (c.audience.dispatch env.accepts e).1.map fun box => .deliver box e) := by
  show c.report env p c.epoch (.text t) = _
  unfold report
  rw [if_neg (by simp)]
  show c.text env p t = _
  rw [text_eq_hear, ht]
  rfl

end

end TurnRelay.Gateway
