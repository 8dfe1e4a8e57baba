import TurnRelay.Proofs.Gateway.Following
import TurnRelay.Proofs.Gateway.Register

/-!
# What a text can change

The gateway may send any text whatever on an established connection. What the supervisor makes of it stays within
narrow bounds. A text concerns at most one request, which it answers, and at most one run, which a listener comes to
follow or which goes on. A heartbeat puts off the watchdog. The connection itself stays: its phase, its socket, the
hello, those who wait, the delays between attempts and the other deadlines are as they were. A text that cannot be
read, one of an unknown kind, one without meaning and one that answers nothing change nothing at all.

## The model

* `Client.tidings` — what a text on the socket of an epoch means to the supervisor.
* `Tidings.names?`, `Tidings.run?`, `Tidings.answer?` — the request and the run that it concerns.
* `Confined` — the bounds of what it changes.
* `Moot` — the texts that change nothing.

## What is proved

* `confined_hear` — the bounds, for each meaning of a text.
* `taken_of_moot` — a moot text changes nothing.
* `bounded_move` — the bounds hold for every text on every established connection.
-/

namespace TurnRelay.Gateway

open TurnRelay.Wire

/-! ### What a text concerns -/

namespace Tidings

/-- The name of the request that is answered. -/
def names? : Tidings → Option String
  | .response id _ _ _ => some id
  | _ => none

/-- The run that is concerned: it goes on, or a listener is to follow it. -/
def run? : Tidings → Option String
  | .chat e => some e.runId
  | .response _ true payload _ => Connection.namedRun? (payload.getD .null)
  | _ => none

/-- Whose request is answered, and how. -/
def answer? (o : Outstanding) : Tidings → Option (Nat × Answer)
  | .response id ok payload error => (o.get? id).map fun r => (r.ticket, Connection.answerOf ok payload error)
  | _ => none

theorem ofText_eq_heartbeat_iff {s : String} :
    ofText s = .heartbeat ↔ ∃ payload seq, Frame.parse? s = some (.event "tick" payload seq) := by
  unfold ofText
  constructor
  · intro h
    split at h
    · rename_i name payload seq hparse
      have hclassify : classify name payload = .heartbeat := by
        cases hc : classify name payload <;> rw [hc] at h <;> first | rfl | cases h
      refine ⟨payload, seq, ?_⟩
      unfold classify at hclassify
      split at hclassify
      · cases hclassify
      · split at hclassify
        · rename_i htick
          rw [hparse, htick]
        · split at hclassify
          · split at hclassify <;> cases hclassify
          · cases hclassify
    · cases h
    · cases h
  · rintro ⟨payload, seq, hparse⟩
    rw [hparse]
    rfl

end Tidings

namespace Client

/-- What a text on the socket of an epoch means to the supervisor; of another epoch, nothing. -/
def tidings (c : Client) (epoch : Nat) (s : String) : Tidings :=
  if epoch = c.connection.epoch then Tidings.ofText s else .nothing

/-! ### The bounds -/

/-- **What news can change** on an established connection. -/
structure Confined (c : Client) (t : Tidings) (c' : Client) : Prop where
  /-- Of the connection only the requests, the audience and the watchdog, and beside it only tickets and mailboxes.
  The phase, the epoch, the socket, the hello, those who wait, the delays between attempts and the deadlines of
  handshake and next attempt stay, and so do commands, sockets, calls and streams. -/
  frame : c' = { c with
    connection := { c.connection with
      outstanding := c'.connection.outstanding
      audience := c'.connection.audience
      watchdogDeadline := c'.connection.watchdogDeadline }
    reports := c.reports.tail
    tickets := c'.tickets
    boxes := c'.boxes }
  /-- All requests but the one that is named stay as they are. -/
  requests : c'.connection.outstanding.entries =
    c.connection.outstanding.entries.filter fun e => decide (t.names? ≠ some e.1)
  /-- Its caller is answered, and nobody else. -/
  tickets : c'.tickets = ((t.answer? c.connection.outstanding).map fun x => c.tickets.answer x.1 x.2).getD c.tickets
  /-- All runs but the one that is concerned keep their listeners. -/
  runs : ∀ run, t.run? ≠ some run →
    c'.connection.audience.listeners run = c.connection.audience.listeners run
  /-- Into a mailbox comes nothing but the run's event, if it is the mailbox of a listener of the run. -/
  boxes : ∀ box, ∃ es, c'.boxes.get? box = (c.boxes.get? box).map (fun b => { b with queue := b.queue ++ es }) ∧
    ∀ e ∈ es, t = .chat e ∧ ∃ id, ⟨id, box⟩ ∈ c.connection.audience.listeners e.runId
  /-- Only a heartbeat puts off the watchdog. -/
  watchdog : t ≠ .heartbeat → c'.connection.watchdogDeadline = c.connection.watchdogDeadline

variable {c : Client} {t : Tidings} {now epoch : Nat} {freshId s : String}

/-- The client when the supervisor has taken a report, and the connection has become another. -/
def taken (c : Client) (o : Connection.Outcome) : Client := { c with
  connection := o.1
  reports := c.reports.tail
  tickets := o.2.foldl Effect.onTickets c.tickets
  boxes := o.2.foldl Effect.onBoxes c.boxes
  sockets := o.2.foldl Effect.onSockets c.sockets }

theorem outcome_text (c : Client) (now : Nat) (freshId : String) (epoch : Nat) (s : String) :
    c.outcome ⟨now, freshId, .report epoch (.text s)⟩ =
      c.connection.hear (c.surroundings now freshId) c.profile (c.tidings epoch s) := by
  show c.connection.report (c.surroundings now freshId) c.profile epoch (.text s) = _
  unfold Connection.report tidings
  by_cases he : epoch = c.connection.epoch
  · rw [if_neg (not_not.2 he), if_pos he]
    exact Connection.text_eq_hear _ _ _ _
  · rw [if_pos he, if_neg he]
    rfl

theorem handle_text (c : Client) (now : Nat) (freshId : String) (epoch : Nat) (s : String) :
    c.handle ⟨now, freshId, .report epoch (.text s)⟩ =
      c.taken (c.connection.hear (c.surroundings now freshId) c.profile (c.tidings epoch s)) := by
  rw [handle_eq, outcome_text]
  simp [taken, Input.isLast, commandsAfter, reportsAfter]

/-- News that change nothing. -/
theorem confined_of_silent (hnames : ∀ e ∈ c.connection.outstanding.entries, t.names? ≠ some e.1)
    (hanswer : t.answer? c.connection.outstanding = none) : Confined c t (c.taken (c.connection, [])) where
  frame := rfl
  requests := (List.filter_eq_self.2 fun e he => by simpa using hnames e he).symm
  tickets := by rw [hanswer]; rfl
  runs _ _ := rfl
  boxes box := ⟨[], by simp [taken], fun e he => by cases he⟩
  watchdog _ := rfl

/-- Once a response has been handled, only the run that it names may have another listener. -/
theorem listeners_audienceAfter {env : Surroundings} {r : Request} {ok : Bool} {payload : Option Json}
    {a : Audience} {run : String}
    (hrun : ok = true → Connection.namedRun? (payload.getD .null) ≠ some run) :
    (Connection.audienceAfter env r ok payload a).listeners run = a.listeners run := by
  unfold Connection.audienceAfter Connection.follow
  split
  · rename_i hok
    split
    · rename_i l run' hl hnamed
      have hne : run ≠ run' := fun he => hrun hok (he ▸ hnamed)
      split
      · exact Audience.listeners_add_of_ne hne
      · rfl
    · rfl
  · rfl

/-- News that name no request leave all of them. -/
theorem entries_of_nameless (es : List (String × Request)) :
    es = es.filter fun e => decide ((none : Option String) ≠ some e.1) := by
  simp

/-- A run goes on: its listeners are given the event, and some of them go. -/
theorem confined_of_chat (env : Surroundings) (e : RunEvent) : Confined c (.chat e)
    (c.taken ({ c.connection with audience := (c.connection.audience.dispatch env.accepts e).2 },
      (c.connection.audience.dispatch env.accepts e).1.map fun box => .deliver box e)) := by
  refine ⟨?_, entries_of_nameless _, ?_, fun run hrun => ?_, fun box => ?_, fun _ => rfl⟩
  · have hsockets : ((c.connection.audience.dispatch env.accepts e).1.map fun box => .deliver box e).foldl
        Effect.onSockets c.sockets = c.sockets := by
      rw [List.foldl_map]
      exact List.foldl_fixed _
    simp only [taken, hsockets]
  · simp only [taken, List.foldl_map]
    exact List.foldl_fixed _
  · exact Audience.listeners_dispatch_of_ne fun he => hrun (congrArg some he.symm)
  · obtain ⟨es, hes, hall⟩ := exists_get?_onBoxes e (c.connection.audience.dispatch env.accepts e).1 c.boxes box
    refine ⟨es, hes, fun x hx => ?_⟩
    obtain ⟨rfl, hreached⟩ := hall x hx
    obtain ⟨-, id, hm⟩ := Audience.mem_reached_iff.1 hreached
    exact ⟨rfl, id, Audience.mem_listeners_iff.2 hm⟩

/-- A request is answered: it is outstanding no longer, and its listener may come to follow the run. -/
theorem confined_of_answer {id : String} {r : Request} (env : Surroundings) (ok : Bool) (payload : Option Json)
    (error : Option Failure) (hr : c.connection.outstanding.get? id = some r) :
    Confined c (.response id ok payload error) (c.taken ({ c.connection with
      outstanding := c.connection.outstanding.erase id
      audience := Connection.audienceAfter env r ok payload c.connection.audience },
      [.answer r.ticket (Connection.answerOf ok payload error)])) := by
  refine ⟨rfl, ?_, ?_, fun run hrun => ?_, fun box => ?_, fun _ => rfl⟩
  · refine List.filter_congr fun e _ => ?_
    simp [Tidings.names?, eq_comm]
  · simp [taken, Tidings.answer?, hr, Effect.onTickets]
  · exact listeners_audienceAfter fun hok hnamed => hrun (by subst hok; exact hnamed)
  · exact ⟨[], by simp [taken, Effect.onBoxes], fun e he => by cases he⟩

/-- **The bounds of what news can change**, whatever they are. -/
theorem confined_hear (hphase : c.connection.phase = .connected) (env : Surroundings) (p : Profile) (t : Tidings) :
    Confined c t (c.taken (c.connection.hear env p t)) := by
  cases t with
  | nothing => exact confined_of_silent (fun _ _ => by simp [Tidings.names?]) rfl
  | challenge =>
    simp only [Connection.hear, hphase]
    exact confined_of_silent (fun _ _ => by simp [Tidings.names?]) rfl
  | heartbeat =>
    simp only [Connection.hear, hphase]
    exact ⟨rfl, entries_of_nameless _, rfl, fun _ _ => rfl,
      fun box => ⟨[], by simp [taken], fun e he => by cases he⟩, fun h => absurd rfl h⟩
  | chat e => exact confined_of_chat env e
  | response id ok payload error =>
    have hhear : c.connection.hear env p (.response id ok payload error) =
        c.connection.answerRequest env id ok payload error := by
      simp only [Connection.hear, Connection.response, hphase]
    rw [hhear]
    unfold Connection.answerRequest
    cases hr : c.connection.outstanding.get? id with
    | none =>
      -- the name is that of no request, so there is none to take out
      refine confined_of_silent (fun e he hnames => ?_) (by simp [Tidings.answer?, hr])
      obtain rfl := Option.some.inj hnames
      simpa [hr] using Table.isSome_get?_of_mem he
    | some r =>
      have hconfined := confined_of_answer env ok payload error hr
      cases ok with
      | true => exact hconfined
      | false => exact hconfined

/-! ### Texts that change nothing -/

/-- The kind that a value gives, if it gives any. -/
def kind? : Json → Option Json
  | .object ms => Json.find? "kind" ms
  | .array items => items.head?
  | _ => none

/-- **The texts that change nothing.** -/
inductive Moot (c : Client) (epoch : Nat) (s : String) : Prop where
  /-- It comes from a socket that is not the present one. -/
  | stale (h : epoch ≠ c.connection.epoch)
  /-- It is no frame. -/
  | unreadable (h : Frame.parse? s = none)
  /-- Its kind is none that there is, or is no name at all, or is missing. -/
  | unkind (v : Json) (hv : Json.parseRaw? s.toList = some v)
      (h : ∀ name ∈ ["request", "response", "event"], kind? v ≠ some (.string name))
  /-- The gateway asks for something. -/
  | request (id method : String) (params : Json) (h : Frame.parse? s = some (.request id method params))
  /-- It is an event that is no heartbeat and, as far as can be read, none of a run. -/
  | event (name : String) (payload : Option Json) (seq : Option UInt64)
      (h : Frame.parse? s = some (.event name payload seq)) (hname : name ≠ "tick")
      (hpayload : name = "chat" → ∀ e, RunEvent.decode (payload.getD .null) ≠ .ok e)
  /-- It answers a request that is not outstanding. -/
  | response (id : String) (ok : Bool) (payload : Option Json) (error : Option Failure)
      (h : Frame.parse? s = some (.response id ok payload error)) (hid : c.connection.outstanding.get? id = none)

theorem parse?_of_unkind {v : Json} (hv : Json.parseRaw? s.toList = some v)
    (h : ∀ name ∈ ["request", "response", "event"], kind? v ≠ some (.string name)) : Frame.parse? s = none := by
  have hrecord : ∀ tag, kind? v = some tag → ∃ e, Frame.recordOf tag = .error e := by
    intro tag htag
    cases tag with
    | string name =>
      have hne : ∀ known ∈ ["request", "response", "event"], name ≠ known := by
        rintro known hknown rfl
        exact h _ hknown htag
      simp only [List.mem_cons, List.not_mem_nil, or_false, forall_eq_or_imp, forall_eq] at hne
      exact ⟨_, by rw [Frame.recordOf, if_neg hne.1, if_neg hne.2.1, if_neg hne.2.2]⟩
    | _ => exact ⟨_, rfl⟩
  have hdecode : ∃ e, Frame.decode v = .error e := by
    cases v with
    | object ms =>
      simp only [Frame.decode]
      cases hkind : Json.find? "kind" ms with
      | none => exact ⟨_, rfl⟩
      | some tag =>
        obtain ⟨e, he⟩ := hrecord tag hkind
        exact ⟨e, by simp [he, bind, Except.bind]⟩
    | array items =>
      cases items with
      | nil => exact ⟨_, rfl⟩
      | cons tag items =>
        obtain ⟨e, he⟩ := hrecord tag rfl
        exact ⟨e, by simp [Frame.decode, he, bind, Except.bind]⟩
    | _ => exact ⟨_, rfl⟩
  obtain ⟨e, he⟩ := hdecode
  simp [Frame.parse?, hv, he]

/-- **A text that changes nothing** is taken, and that is all. -/
theorem taken_of_moot (hphase : c.connection.phase = .connected) (h : Moot c epoch s) (env : Surroundings)
    (p : Profile) : c.taken (c.connection.hear env p (c.tidings epoch s)) = { c with reports := c.reports.tail } := by
  -- without news the connection stays as it is, and nothing is done
  suffices hear : c.connection.hear env p (c.tidings epoch s) = (c.connection, []) by rw [hear]; rfl
  unfold tidings
  split
  · rename_i he
    cases h with
    | stale hne => exact absurd he hne
    | unreadable hparse => simp [Tidings.ofText, hparse, Connection.hear]
    | unkind v hv hkind => simp [Tidings.ofText, parse?_of_unkind hv hkind, Connection.hear]
    | request id method params hparse => simp [Tidings.ofText, hparse, Connection.hear]
    | event name payload seq hparse hname hpayload =>
      simp only [Tidings.ofText, hparse, classify, if_neg hname]
      split
      · simp only [Tidings.ofNotice, Connection.hear, hphase]
      · split
        · rename_i hchat
          split
          · rename_i e hdecode
            exact absurd hdecode (hpayload hchat e)
          · rfl
        · rfl
    | response id ok payload error hparse hid =>
      simp [Tidings.ofText, hparse, Connection.hear, Connection.response, hphase, Connection.answerRequest, hid]
  · rfl

/-! ### Every text -/

/-- **The bounds of what a text can change** that comes from the socket of an epoch. -/
structure Bounded (c : Client) (epoch : Nat) (s : String) (c' : Client) : Prop where
  /-- It concerns one request and one run at most. -/
  confined : Confined c (c.tidings epoch s) c'
  /-- It puts off the watchdog only if it is a heartbeat. -/
  watchdog : c'.connection.watchdogDeadline ≠ c.connection.watchdogDeadline →
    ∃ payload seq, Frame.parse? s = some (.event "tick" payload seq)
  /-- If it is moot, nothing changes. -/
  moot : Moot c epoch s → c' = { c with reports := c.reports.tail }

/-- **Whatever text comes on an established connection, what it changes is bounded.** Let the supervisor take any
text when there is a connection. The connection stays, with its epoch, its socket, its hello, those who wait, the
delays between attempts and the deadlines of handshake and next attempt. At most the request that a response names
is answered, and the others stay as they are; at most the listeners of one run change or are given something; the
watchdog is put off by a heartbeat only. A text that is no frame, one of no known kind, one without meaning or one
that answers nothing changes nothing. -/
theorem bounded_move {m : Move} (hphase : c.connection.phase = .connected)
    (hx : c.cue? m = some ⟨now, freshId, .report epoch (.text s)⟩) : Bounded c epoch s (c.move m) := by
  rw [move_of_cue? hx, handle_text]
  have hconfined := confined_hear hphase (c.surroundings now freshId) c.profile (c.tidings epoch s)
  refine ⟨hconfined, fun hmoved => ?_, fun hmoot => taken_of_moot hphase hmoot _ _⟩
  by_contra hno
  refine hmoved (hconfined.watchdog fun hbeat => hno (Tidings.ofText_eq_heartbeat_iff.1 ?_))
  unfold tidings at hbeat
  split at hbeat
  · exact hbeat
  · cases hbeat

end Client

/-- The gateway's response to the request for a run is taken in time. -/
theorem bounded_move_sentRun :
    (Client.after localProfile sentRun).connection.phase = .connected ∧
    (Client.after localProfile sentRun).cue? (.takeReport 0 "unused") =
      some ⟨0, "unused", .report 1 (.text acknowledgement.text)⟩ ∧
    Client.Bounded (Client.after localProfile sentRun) 1 acknowledgement.text
      ((Client.after localProfile sentRun).move (.takeReport 0 "unused")) := by
  have hstate : (Client.after localProfile sentRun).isRunning = true ∧
      (Client.after localProfile sentRun).reports.head? = some (1, .text acknowledgement.text) ∧
      (Client.after localProfile sentRun).connection.phase = .connected := by decide +kernel
  obtain ⟨hrun, hreports, hphase⟩ := hstate
  have hcue : (Client.after localProfile sentRun).cue? (.takeReport 0 "unused") =
      some ⟨0, "unused", .report 1 (.text acknowledgement.text)⟩ := by
    simp only [Client.cue?, hrun, if_true, hreports, Option.map_some]
  exact ⟨hphase, hcue, Client.bounded_move hphase hcue⟩

end TurnRelay.Gateway
