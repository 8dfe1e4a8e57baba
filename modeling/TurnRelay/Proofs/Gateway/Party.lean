import TurnRelay.Proofs.Gateway.Phase

/-!
# What concerns some of a client's users

Many use one connection. Their requests stand in one table, and their listeners in another. A party of users is given
by the names of its requests, the numbers of its listeners, and the runs that these follow. Whatever the supervisor
does, the party's share of it depends on the party's share of the tables alone; and what does not concern the party
leaves its share as it is.

## The model

* `Party` — the users, with `wants`, `reads` and `keeps`: what concerns them of what the supervisor takes.
* `Party.share`, `Party.portion` — their share of a connection, and of what the supervisor does.
* `Party.sees` — the surroundings as far as they concern them.
* `Party.Fits` — no request is shared with others.

## What is proved

* `portion_handle` — the party's portion of a step is its portion of the step on its share.
* `portion_of_not_keeps` — on a connection, what does not concern the party does nothing to it.
* `Fits.acts` — every step keeps requests apart.
-/

namespace TurnRelay.Gateway

/-- Some of those who use a client. -/
structure Party where
  /-- The names of their requests. -/
  ids : String → Bool
  /-- Their listeners, by number. -/
  hears : Nat → Bool
  /-- The runs that their listeners follow. -/
  runs : String → Bool

namespace Party

variable (P : Party)

/-! ### What concerns them -/

/-- The command is theirs, or shuts the client down. -/
def wants : Command → Bool
  | .ensureConnected _ => false
  | .request id _ _ _ _ => P.ids id
  | .cancelRequest id => P.ids id
  | .listen _ l => P.hears l.id
  | .unlisten _ l => P.hears l
  | .destroy _ => true

/-- What a text means concerns them, or the connection as a whole. -/
def reads : Tidings → Bool
  | .nothing => false
  | .challenge => true
  | .heartbeat => true
  | .chat e => P.runs e.runId
  | .response id _ _ _ => P.ids id

/-- What the supervisor takes concerns them, or the connection as a whole. -/
def keeps : Input → Bool
  | .command cmd => P.wants cmd
  | .report _ (.text t) => P.reads (Tidings.ofText t)
  | _ => true

variable (mine : Nat → Bool)

/-- The effect is noticed by them: it is an answer to one of their calls, or an event for one of their mailboxes. -/
def notes : Effect → Bool
  | .answer n _ => mine n
  | .deliver box _ => P.hears box
  | _ => false

/-- The surroundings as far as they concern them. -/
def sees (env : Surroundings) : Surroundings :=
  { env with waiting := fun n => mine n && env.waiting n, accepts := fun box => P.hears box && env.accepts box }

/-- Their share of the audience. -/
def among (a : Audience) : Audience := ⟨a.members.filter fun m => P.hears m.2.box⟩

/-- Their share of a connection: their requests and their listeners. -/
def share (c : Connection) : Connection :=
  { c with outstanding := c.outstanding.keep P.ids, audience := P.among c.audience }

/-- Their portion of what the supervisor does. -/
def portion (o : Connection.Outcome) : Connection.Outcome := (P.share o.1, o.2.filter (P.notes mine))

/-- A request is theirs in all its parts, or in none. -/
structure Whole (id : String) (r : Request) : Prop where
  /-- The ticket is theirs if the name is. -/
  ticket : mine r.ticket = P.ids id
  /-- A listener of theirs comes with a request of theirs. -/
  listener : ∀ l ∈ r.listener, l.id = l.box ∧ (P.hears l.box = true → P.ids id = true)

/-- The command keeps what is theirs apart from what is not. -/
def Fair : Command → Prop
  | .ensureConnected n => mine n = false
  | .request id method _ n l => P.Whole mine id ⟨method, n, l⟩
  | .listen _ l => l.id = l.box
  | _ => True

/-- No request is shared with others, and each listener reads the mailbox of its own number. -/
structure Fits (c : Connection) : Prop where
  /-- So it is with requests that were sent. -/
  outstanding : ∀ e ∈ c.outstanding.entries, P.Whole mine e.1 e.2
  /-- And with those who follow runs. -/
  audience : ∀ m ∈ c.audience.members, m.2.id = m.2.box

/-- Their listeners follow their runs. -/
def Follows (c : Connection) : Prop := ∀ m ∈ c.audience.members, P.hears m.2.box = true → P.runs m.1 = true

variable {P mine} {env : Surroundings} {p : Profile} {c c' : Connection} {es : List Effect} {i : Input}

theorem Fits.whole (h : P.Fits mine c) {id : String} {r : Request} (hr : c.outstanding.get? id = some r) :
    P.Whole mine id r := h.outstanding _ (Table.mem_of_get? hr)

theorem among_among (a : Audience) : P.among (P.among a) = P.among a := by
  simp [among, List.filter_filter]

theorem share_share (c : Connection) : P.share (P.share c) = P.share c := by
  simp [share, among_among]

/-! ### Who follows a run -/

section

variable {accepts : Nat → Bool} {a : Audience} {run : String} {l : Listener}

theorem among_without (a : Audience) (run : String) (id : Nat) :
    P.among (a.without run id) = (P.among a).without run id := by
  simp only [among, Audience.without, List.filter_filter, Audience.mk.injEq]
  exact List.filter_congr fun m _ => Bool.and_comm _ _

/-- A listener of others that goes is not missed. -/
theorem among_without_of_not_hears {id : Nat} (run : String) (ha : ∀ m ∈ a.members, m.2.id = m.2.box)
    (hl : P.hears id = false) : P.among (a.without run id) = P.among a := by
  simp only [among, Audience.without, List.filter_filter, Audience.mk.injEq]
  refine List.filter_congr fun m hm => ?_
  by_cases hid : m.2.id = id
  · have hbox : P.hears m.2.box = false := ha m hm ▸ hid ▸ hl
    simp [hbox]
  · simp [hid]

/-- A listener of others that comes is not noticed. -/
theorem among_add_of_not_hears (ha : ∀ m ∈ a.members, m.2.id = m.2.box) (hid : l.id = l.box)
    (hl : P.hears l.box = false) : P.among (a.add accepts run l).2 = P.among a := by
  unfold Audience.add
  split
  · rw [← among_without_of_not_hears run ha (hid ▸ hl)]
    simp [among, List.filter_append, hl]
  · rfl

theorem among_add (ha : ∀ m ∈ a.members, m.2.id = m.2.box) (hid : l.id = l.box) :
    P.among (a.add accepts run l).2 =
      P.among ((P.among a).add (fun box => P.hears box && accepts box) run l).2 := by
  cases hl : P.hears l.box with
  | false =>
    rw [among_add_of_not_hears ha hid hl]
    simp [Audience.add, hl, among_among]
  | true =>
    simp only [Audience.add, hl, Bool.true_and, ← among_without]
    split
    · simp [among, List.filter_append, List.filter_filter]
    · exact (among_among a).symm

theorem among_dispatch (accepts : Nat → Bool) (a : Audience) (e : Wire.RunEvent) :
    P.among (a.dispatch accepts e).2 =
      P.among ((P.among a).dispatch (fun box => P.hears box && accepts box) e).2 := by
  unfold Audience.dispatch among
  split
  all_goals
    simp only [List.filter_filter, Audience.mk.injEq]
    refine List.filter_congr fun m _ => ?_
    cases hl : P.hears m.2.box <;> simp

theorem boxes_dispatch (accepts : Nat → Bool) (a : Audience) (e : Wire.RunEvent) :
    (a.dispatch accepts e).1.filter P.hears =
      ((P.among a).dispatch (fun box => P.hears box && accepts box) e).1.filter P.hears := by
  unfold Audience.dispatch among
  simp only [List.filter_map, List.filter_filter, Function.comp_def]
  congr 1
  refine List.filter_congr fun m _ => ?_
  cases hl : P.hears m.2.box <;> simp

/-- What happens in a run of others. -/
theorem dispatch_of_not_runs {e : Wire.RunEvent} (accepts : Nat → Bool) (hf : ∀ m ∈ a.members, P.hears m.2.box = true → P.runs m.1 = true)
    (he : P.runs e.runId = false) : P.among (a.dispatch accepts e).2 = P.among a ∧
      (a.dispatch accepts e).1.filter P.hears = [] := by
  have hne : ∀ m ∈ a.members, P.hears m.2.box = true → m.1 ≠ e.runId := by
    intro m hm hl hrun
    rw [← hrun, hf m hm hl] at he
    cases he
  constructor
  · unfold Audience.dispatch among
    simp only [Audience.mk.injEq]
    split
    all_goals
      simp only [List.filter_filter]
      refine List.filter_congr fun m hm => ?_
      cases hl : P.hears m.2.box with
      | false => simp
      | true => simp [hne m hm hl]
  · unfold Audience.dispatch
    simp only [List.filter_map, List.filter_filter, List.map_eq_nil_iff, List.filter_eq_nil_iff,
      Function.comp_apply]
    intro m hm h
    simp only [Bool.and_eq_true, decide_eq_true_eq] at h
    exact hne m hm h.1 h.2.1

end

/-! ### Their portion of a step -/

theorem portion_of_eq {o : Connection.Outcome} (h₁ : P.share o.1 = P.share c) (h₂ : o.2.filter (P.notes mine) = es) :
    P.portion mine o = (P.share c, es) := Prod.ext h₁ h₂

/-- Those of them who are answered when a connection ends. -/
theorem answers_share (h : P.Fits mine c) (a : Answer) :
    (c.outstanding.tickets.map fun t => Effect.answer t a).filter (P.notes mine) =
      ((P.share c).outstanding.tickets.map fun t => Effect.answer t a).filter (P.notes mine) := by
  simp only [share, Outstanding.tickets, Table.values, Table.keep, List.map_map, List.filter_map, List.filter_filter]
  congr 1
  refine List.filter_congr fun e he => ?_
  simp [Function.comp, notes, (h.outstanding e he).ticket]

theorem portion_disconnect (h : P.Fits mine c) (hd : c.isDestroyed = false) (fault : Fault) :
    P.portion mine (c.disconnect env fault) =
      P.portion mine ((P.share c).disconnect (P.sees mine env) fault) := by
  rw [Connection.disconnect_eq env fault hd,
    Connection.disconnect_eq (c := P.share c) (P.sees mine env) fault hd]
  refine Prod.ext rfl ?_
  simp only [portion, Connection.farewells, List.filter_append, answers_share h]
  rfl

theorem portion_destroy (h : P.Fits mine c) (hd : c.isDestroyed = false) :
    P.portion mine (c.destroy env) = P.portion mine ((P.share c).destroy (P.sees mine env)) := by
  rw [Connection.destroy_eq env hd, Connection.destroy_eq (c := P.share c) (P.sees mine env) hd]
  refine Prod.ext rfl ?_
  simp only [portion, Connection.farewells, List.filter_append, answers_share h]
  rfl

theorem portion_startConnecting (c : Connection) :
    P.portion mine (c.startConnecting env p) =
      P.portion mine ((P.share c).startConnecting (P.sees mine env) p) := by
  have hshare : (P.share c).isDestroyed = c.isDestroyed := rfl
  unfold Connection.startConnecting
  rw [hshare]
  split
  · exact Prod.ext (share_share c).symm rfl
  · refine Prod.ext ?_ rfl
    simp [portion, share, among_among]
    rfl

theorem portion_sendRequest {id method : String} {params : Json} {n : Nat} {l : Option Listener}
    (hid : P.ids id = true) : P.portion mine (c.sendRequest env id method params n l) =
      P.portion mine ((P.share c).sendRequest (P.sees mine env) id method params n l) := by
  have hphase : (P.share c).phase = c.phase := rfl
  have hlink : (P.share c).link = c.link := rfl
  have hup : (P.sees mine env).linkUp = env.linkUp := rfl
  unfold Connection.sendRequest
  rw [hphase, hlink, hup]
  split
  · split
    · refine Prod.ext ?_ rfl
      simp [portion, share, among_among, Table.keep_set _ hid]
    · exact Prod.ext (share_share c).symm rfl
  · exact Prod.ext (share_share c).symm rfl

theorem portion_command {cmd : Command} (h : P.Fits mine c) (hd : c.isDestroyed = false) (hcmd : P.Fair mine cmd)
    (hk : P.wants cmd = true) : P.portion mine (c.command env p cmd) =
      P.portion mine ((P.share c).command (P.sees mine env) p cmd) := by
  cases cmd with
  | ensureConnected n => cases hk
  | request id method params n l => exact portion_sendRequest hk
  | cancelRequest id =>
    refine Prod.ext ?_ rfl
    simp [portion, Connection.command, share, among_among, Table.keep_erase]
  | listen run l =>
    refine Prod.ext ?_ rfl
    simp only [portion, Connection.command, share, Table.keep_keep]
    rw [among_add h.audience hcmd]
    rfl
  | unlisten run l =>
    refine Prod.ext ?_ rfl
    simp [portion, Connection.command, Audience.remove, share, among_among, among_without]
  | destroy n =>
    have hdestroy : P.portion mine (c.destroy env) = _ := portion_destroy h hd
    simp only [portion, Prod.mk.injEq] at hdestroy
    simp only [portion, Connection.command, List.filter_append, hdestroy]

/-! ### What texts say to them -/

/-- The listener of a request of theirs follows the run that the answer names. -/
theorem among_follow {r : Request} {payload : Json} (h : P.Fits mine c) {id : String} (hr : P.Whole mine id r)
    (hid : P.ids id = true) : P.among (Connection.follow env r payload c.audience) =
      P.among (Connection.follow (P.sees mine env) r payload (P.among c.audience)) := by
  have hwaiting : (P.sees mine env).waiting r.ticket = env.waiting r.ticket := by
    simp [sees, hr.ticket, hid]
  unfold Connection.follow
  rw [hwaiting]
  split
  · rename_i l run hl _
    split
    · exact among_add h.audience (hr.listener l hl).1
    · exact (among_among _).symm
  · exact (among_among _).symm

theorem portion_answerRequest {id : String} {ok : Bool} {payload : Option Json} {error : Option Wire.Failure}
    (h : P.Fits mine c) (hid : P.ids id = true) : P.portion mine (c.answerRequest env id ok payload error) =
      P.portion mine ((P.share c).answerRequest (P.sees mine env) id ok payload error) := by
  have hget : (P.share c).outstanding.get? id = c.outstanding.get? id := Table.get?_keep_of_true _ hid
  unfold Connection.answerRequest
  rw [hget]
  cases hr : c.outstanding.get? id with
  | none => exact Prod.ext (share_share c).symm rfl
  | some r =>
    cases ok with
    | true =>
      refine Prod.ext ?_ rfl
      simp only [portion, share, if_true, Table.keep_erase, Table.keep_keep, among_follow h (h.whole hr) hid]
    | false =>
      refine Prod.ext ?_ rfl
      simp [portion, share, Table.keep_erase, among_among]

theorem portion_finishHandshake {ok : Bool} {payload : Option Json} {error : Option Wire.Failure}
    (h : P.Fits mine c) (hd : c.isDestroyed = false) :
    P.portion mine (c.finishHandshake env ok payload error) =
      P.portion mine ((P.share c).finishHandshake (P.sees mine env) ok payload error) := by
  unfold Connection.finishHandshake
  split
  · exact portion_disconnect h hd _
  · refine Prod.ext ?_ rfl
    simp [portion, Connection.armWatchdog, share, among_among]
    rfl

theorem portion_response {id : String} {ok : Bool} {payload : Option Json} {error : Option Wire.Failure}
    (h : P.Fits mine c) (hd : c.isDestroyed = false) (hid : P.ids id = true) :
    P.portion mine (c.response env id ok payload error) =
      P.portion mine ((P.share c).response (P.sees mine env) id ok payload error) := by
  have hphase : (P.share c).phase = c.phase := rfl
  unfold Connection.response
  rw [hphase]
  split
  · exact Prod.ext (share_share c).symm rfl
  · exact portion_answerRequest h hid
  · split
    · exact portion_finishHandshake h hd
    · exact portion_disconnect h hd _
  · exact portion_disconnect h hd _

theorem portion_sendConnect (h : P.Fits mine c) (hd : c.isDestroyed = false) :
    P.portion mine (c.sendConnect env p) = P.portion mine ((P.share c).sendConnect (P.sees mine env) p) := by
  have hlink : (P.share c).link = c.link := rfl
  have hup : (P.sees mine env).linkUp = env.linkUp := rfl
  unfold Connection.sendConnect
  rw [hlink, hup]
  split
  · exact Prod.ext (share_share c).symm rfl
  · split
    · refine Prod.ext ?_ rfl
      simp [portion, share, among_among]
      rfl
    · exact portion_disconnect h hd _

theorem portion_hear {tidings : Tidings} (h : P.Fits mine c) (hd : c.isDestroyed = false)
    (hk : P.reads tidings = true) : P.portion mine (c.hear env p tidings) =
      P.portion mine ((P.share c).hear (P.sees mine env) p tidings) := by
  have hphase : (P.share c).phase = c.phase := rfl
  cases tidings with
  | nothing => cases hk
  | challenge =>
    simp only [Connection.hear, hphase]
    split
    · exact portion_sendConnect h hd
    · exact Prod.ext (share_share c).symm rfl
  | heartbeat =>
    simp only [Connection.hear, hphase]
    split
    · refine Prod.ext ?_ rfl
      simp [portion, Connection.armWatchdog, share, among_among]
      rfl
    · exact Prod.ext (share_share c).symm rfl
  | chat e =>
    have hboxes := boxes_dispatch (P := P) env.accepts c.audience e
    refine Prod.ext ?_ ?_
    · simp only [portion, Connection.hear, share, Table.keep_keep, among_dispatch env.accepts c.audience e]
      rfl
    · simp only [portion, Connection.hear, List.filter_map]
      exact congrArg _ hboxes
  | response id ok payload error => exact portion_response h hd hk

/-! ### Every step -/

theorem portion_report {epoch : Nat} {r : Report} (h : P.Fits mine c) (hd : c.isDestroyed = false)
    (hk : P.keeps (.report epoch r) = true) : P.portion mine (c.report env p epoch r) =
      P.portion mine ((P.share c).report (P.sees mine env) p epoch r) := by
  have hphase : (P.share c).phase = c.phase := rfl
  have hepoch : (P.share c).epoch = c.epoch := rfl
  unfold Connection.report
  rw [hepoch]
  split
  · split
    · exact Prod.ext (share_share c).symm rfl
    · exact Prod.ext (share_share c).symm rfl
  · split
    · refine Prod.ext ?_ rfl
      simp [portion, share, among_among]
    · exact portion_disconnect h hd _
    · rw [Connection.text_eq_hear, Connection.text_eq_hear]
      exact portion_hear h hd hk
    · rw [hphase]
      split
      · exact portion_disconnect h hd _
      · exact portion_disconnect h hd _
      · exact Prod.ext (share_share c).symm rfl

theorem portion_alarm {a : Alarm} (h : P.Fits mine c) (hd : c.isDestroyed = false) :
    P.portion mine (c.alarm env p a) = P.portion mine ((P.share c).alarm (P.sees mine env) p a) := by
  have hphase : (P.share c).phase = c.phase := rfl
  cases a with
  | connect =>
    have hf : P.Fits mine { c with connectDeadline := none } := ⟨h.outstanding, h.audience⟩
    simp only [Connection.alarm, hphase]
    split
    · exact portion_disconnect hf hd _
    · refine Prod.ext ?_ rfl
      simp [portion, share, among_among]
  | watchdog =>
    have hf : P.Fits mine { c with watchdogDeadline := none } := ⟨h.outstanding, h.audience⟩
    simp only [Connection.alarm, hphase]
    split
    · exact portion_disconnect hf hd _
    · refine Prod.ext ?_ rfl
      simp [portion, share, among_among]
  | reconnect => exact portion_startConnecting { c with reconnectAt := none }

/-- What the supervisor takes keeps theirs apart from what is not. -/
def Parts (P : Party) (mine : Nat → Bool) : Input → Prop
  | .command cmd => P.Fair mine cmd
  | _ => True

/-- **The party's portion of a step** is its portion of the step on its share. -/
theorem portion_handle (h : P.Fits mine c) (hd : c.isDestroyed = false) (hi : P.Parts mine i)
    (hk : P.keeps i = true) : P.portion mine (c.handle env p i) =
      P.portion mine ((P.share c).handle (P.sees mine env) p i) := by
  cases i with
  | command cmd => exact portion_command h hd hi hk
  | report epoch r => exact portion_report h hd hk
  | alarm a => exact portion_alarm h hd
  | deserted => exact portion_destroy h hd

/-! ### What does not concern them -/

theorem portion_sendRequest_of_not_ids {id method : String} {params : Json} {n : Nat} {l : Option Listener}
    (hr : P.Whole mine id ⟨method, n, l⟩) (hid : P.ids id = false) :
    P.portion mine (c.sendRequest env id method params n l) = (P.share c, []) := by
  have hn : mine n = false := hr.ticket.trans hid
  unfold Connection.sendRequest
  split
  · split
    · refine portion_of_eq ?_ rfl
      simp [share, Table.keep_set_of_false _ hid]
    · exact portion_of_eq rfl (by simp [notes, hn])
  · exact portion_of_eq rfl (by simp [notes, hn])

theorem portion_command_of_not_wants {cmd : Command} (h : P.Fits mine c) (hp : c.phase = .connected)
    (hcmd : P.Fair mine cmd) (hk : P.wants cmd = false) :
    P.portion mine (c.command env p cmd) = (P.share c, []) := by
  cases cmd with
  | ensureConnected n =>
    have hn : mine n = false := hcmd
    simp only [Connection.command, hp]
    exact portion_of_eq rfl (by simp [notes, hn])
  | request id method params n l => exact portion_sendRequest_of_not_ids hcmd hk
  | cancelRequest id =>
    have hid : P.ids id = false := hk
    refine portion_of_eq ?_ rfl
    simp only [Connection.command, share, Table.keep_erase_of_false _ hid]
  | listen run l =>
    have hself : l.id = l.box := hcmd
    have hbox : P.hears l.box = false := hself ▸ hk
    refine portion_of_eq ?_ rfl
    simp only [Connection.command, share, among_add_of_not_hears h.audience hself hbox]
  | unlisten run l =>
    refine portion_of_eq ?_ rfl
    simp only [Connection.command, Audience.remove, share, among_without_of_not_hears run h.audience hk]
  | destroy n => cases hk

/-- The response to a request of others. -/
theorem portion_answerRequest_of_not_ids {id : String} {ok : Bool} {payload : Option Json}
    {error : Option Wire.Failure} (h : P.Fits mine c) (hid : P.ids id = false) :
    P.portion mine (c.answerRequest env id ok payload error) = (P.share c, []) := by
  unfold Connection.answerRequest
  cases hr : c.outstanding.get? id with
  | none => exact portion_of_eq rfl rfl
  | some r =>
    have hwhole := h.whole hr
    have hn : mine r.ticket = false := hwhole.ticket.trans hid
    have hfollow : ∀ value, P.among (Connection.follow env r value c.audience) = P.among c.audience := by
      intro value
      unfold Connection.follow
      split
      · rename_i l run hl _
        obtain ⟨hself, hids⟩ := hwhole.listener l hl
        have hbox : P.hears l.box = false := Bool.eq_false_iff.2 fun hb => by simp [hids hb] at hid
        split
        · exact among_add_of_not_hears h.audience hself hbox
        · rfl
      · rfl
    cases ok with
    | true =>
      refine portion_of_eq ?_ (by simp [notes, hn])
      simp only [if_true, share, Table.keep_erase_of_false _ hid, hfollow]
    | false =>
      refine portion_of_eq ?_ (by simp [notes, hn])
      simp [share, Table.keep_erase_of_false _ hid]

theorem portion_hear_of_not_reads {tidings : Tidings} (h : P.Fits mine c) (hp : c.phase = .connected)
    (hf : P.Follows c) (hk : P.reads tidings = false) :
    P.portion mine (c.hear env p tidings) = (P.share c, []) := by
  cases tidings with
  | nothing => exact portion_of_eq rfl rfl
  | challenge => cases hk
  | heartbeat => cases hk
  | chat e =>
    obtain ⟨ha, hboxes⟩ := dispatch_of_not_runs env.accepts hf hk
    refine portion_of_eq ?_ ?_
    · simp only [Connection.hear, share, ha]
    · simp only [Connection.hear, List.filter_map]
      exact List.map_eq_nil_iff.2 hboxes
  | response id ok payload error =>
    simp only [Connection.hear, Connection.response, hp]
    exact portion_answerRequest_of_not_ids h hk

/-- **What does not concern the party** does nothing to it, as long as there is a connection. -/
theorem portion_of_not_keeps (h : P.Fits mine c) (hp : c.phase = .connected) (hf : P.Follows c)
    (hi : P.Parts mine i) (hk : P.keeps i = false) :
    P.portion mine (c.handle env p i) = (P.share c, []) := by
  cases i with
  | command cmd => exact portion_command_of_not_wants h hp hi hk
  | report epoch r =>
    cases r with
    | text t =>
      show P.portion mine (c.report env p epoch (.text t)) = _
      unfold Connection.report
      split
      · exact portion_of_eq rfl rfl
      · simp only [Connection.text_eq_hear]
        exact portion_hear_of_not_reads h hp hf hk
    | _ => cases hk
  | alarm a => cases hk
  | deserted => cases hk

end Party

/-! ### Every step keeps requests apart -/

namespace Audience

variable {accepts : Nat → Bool} {a : Audience} {run : String} {l : Listener} {m : String × Listener}

theorem mem_of_mem_add (h : m ∈ (a.add accepts run l).2.members) : m ∈ a.members ∨ m = (run, l) := by
  unfold Audience.add at h
  split at h
  · rcases List.mem_append.1 h with h | h
    · exact .inl (List.mem_filter.1 h).1
    · exact .inr (List.mem_singleton.1 h)
  · exact .inl h

theorem mem_of_mem_dispatch {e : Wire.RunEvent} (h : m ∈ (a.dispatch accepts e).2.members) : m ∈ a.members := by
  unfold Audience.dispatch at h
  simp only at h
  split at h
  · exact (List.mem_filter.1 (List.mem_filter.1 h).1).1
  · exact (List.mem_filter.1 h).1

end Audience

namespace Party

variable {P : Party} {mine : Nat → Bool} {env : Surroundings} {p : Profile} {c c' : Connection} {es : List Effect}
  {i : Input}

/-- A request that is answered brings its listener. -/
theorem Fits.answered {id : String} {r : Request} {ok : Bool} {payload : Option Json} (h : P.Fits mine c)
    (hr : c.outstanding.get? id = some r) : P.Fits mine { c with
      outstanding := c.outstanding.erase id
      audience := Connection.audienceAfter env r ok payload c.audience } := by
  refine ⟨fun e he => h.outstanding e (Table.mem_erase.1 he).1, fun m hm => ?_⟩
  simp only [Connection.audienceAfter, Connection.follow] at hm
  split at hm
  · split at hm
    · rename_i l run hl _
      split at hm
      · rcases Audience.mem_of_mem_add hm with hm | rfl
        · exact h.audience m hm
        · exact ((h.whole hr).listener l hl).1
      · exact h.audience m hm
    · exact h.audience m hm
  · exact h.audience m hm

/-- **Every step keeps requests apart.** -/
theorem Fits.acts (h : P.Fits mine c) (hi : P.Parts mine i) (ha : Acts env p c i c' es) : P.Fits mine c' := by
  cases ha with
  | requests =>
    refine ⟨fun e he => ?_, h.audience⟩
    rcases Table.mem_set he with rfl | he
    · exact hi
    · exact h.outstanding e he
  | forgets => exact ⟨fun e he => h.outstanding e (Table.mem_erase.1 he).1, h.audience⟩
  | listens =>
    refine ⟨h.outstanding, fun m hm => ?_⟩
    rcases Audience.mem_of_mem_add hm with hm | rfl
    · exact h.audience m hm
    · exact hi
  | unlistens => exact ⟨h.outstanding, fun m hm => h.audience m (List.mem_filter.1 hm).1⟩
  | delivers => exact ⟨h.outstanding, fun m hm => h.audience m (Audience.mem_of_mem_dispatch hm)⟩
  | answers _ _ hr => exact h.answered hr
  | ends => exact ⟨fun _ he => absurd he List.not_mem_nil, fun _ hm => absurd hm List.not_mem_nil⟩
  | destroys => exact ⟨fun _ he => absurd he List.not_mem_nil, fun _ hm => absurd hm List.not_mem_nil⟩
  | deserts => exact ⟨fun _ he => absurd he List.not_mem_nil, fun _ hm => absurd hm List.not_mem_nil⟩
  | _ => exact ⟨h.outstanding, h.audience⟩

end Party

end TurnRelay.Gateway
