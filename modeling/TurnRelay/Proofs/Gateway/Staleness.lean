import TurnRelay.Proofs.Gateway.Dialing

/-!
# Replaced sockets

When an attempt or a connection ends, its socket may still be there: it may be being dialed, or be open with texts on
their way, and what its task has to tell comes late and in any order with what is told of its successors. All of it
carries the number of the attempt that the socket was dialed for, and numbers are not used twice; so the supervisor
knows it from what is told of the present socket.

That a late report changes nothing is read off one step. That nothing would be different without all of them is a
comparison of two runs: in one every report comes, in the other those of sockets whose attempts or connections have
ended are lost as soon as these have. The two may differ in the state of such sockets, as a late one is closed only
if it is reported open, and in nothing else (`Alike`). What carries this is that the supervisor asks only of its own
link whether it is up.

## The model

* `Client.PassesOver` — the supervisor takes a report and lets it be.
* `Client.essential`, `Client.purgedRun` — the moves of a run without those in which it takes a stale report, and the
  run in which such reports are lost.
* `Alike` — the two runs agree.
* `Client.dials`, `Ended` — the sockets of a run, and those whose attempts or connections have ended.

## What is proved

* `handle_relink` — what the supervisor does depends on the state of its own link only.
* `alike_run` — the run without stale reports is alike.
* `counted_run` — every socket has a number of its own, and every one but the present belongs to an attempt that has
  ended.
* `undisturbed_run` — sockets that were replaced do not interfere.
-/

namespace TurnRelay.Gateway

/-! ### The supervisor asks of its own link only -/

/-- The same surroundings, but for the links that are up. -/
def Surroundings.relink (env : Surroundings) (up : Nat → Bool) : Surroundings := { env with linkUp := up }

theorem Surroundings.linkUp_relink (env : Surroundings) (up : Nat → Bool) : (env.relink up).linkUp = up := rfl

namespace Connection

variable {env : Surroundings} {p : Profile} {c : Connection} {up : Nat → Bool}

section

variable (hup : ∀ link, c.link = some link → up link = env.linkUp link)

include hup

theorem sendRequest_relink (id method : String) (params : Json) (n : Nat) (l : Option Listener) :
    c.sendRequest (env.relink up) id method params n l = c.sendRequest env id method params n l := by
  unfold sendRequest
  split
  · rename_i link hp hl
    rw [Surroundings.linkUp_relink, hup link hl]
  · rfl

theorem sendConnect_relink : c.sendConnect (env.relink up) p = c.sendConnect env p := by
  unfold sendConnect
  split
  · rfl
  · rename_i link hl
    rw [Surroundings.linkUp_relink, hup link hl]
    rfl

theorem hear_relink (tidings : Tidings) : c.hear (env.relink up) p tidings = c.hear env p tidings := by
  cases tidings with
  | challenge =>
    simp only [hear, sendConnect_relink hup]
  | _ => rfl

theorem report_relink (epoch : Nat) (r : Report) :
    c.report (env.relink up) p epoch r = c.report env p epoch r := by
  cases r with
  | text t =>
    unfold report
    simp only [text_eq_hear, hear_relink hup]
  | _ => rfl

/-- **What the supervisor does depends on the state of its own link**, and on no other's. -/
theorem handle_relink (i : Input) : c.handle (env.relink up) p i = c.handle env p i := by
  cases i with
  | command cmd =>
    cases cmd with
    | request id method params n l => exact sendRequest_relink hup id method params n l
    | _ => rfl
  | report epoch r => exact report_relink hup epoch r
  | alarm a => rfl
  | deserted => rfl

end

end Connection

/-- Effects leave sockets of an epoch alike that were alike. -/
theorem get?_onSockets_congr {es : List Effect} {ss ss' : Sockets} {epoch : Nat}
    (h : ss.get? epoch = ss'.get? epoch) :
    (es.foldl Effect.onSockets ss).get? epoch = (es.foldl Effect.onSockets ss').get? epoch := by
  induction es generalizing ss ss' with
  | nil => exact h
  | cons e es ih =>
    refine ih ?_
    cases e with
    | answer n a => exact h
    | deliver box e => exact h
    | send k f =>
      simp only [Effect.onSockets, Table.get?_modify]
      split
      · rename_i hk
        rw [← hk, h]
      · exact h
    | close k =>
      simp only [Effect.onSockets, Table.get?_modify]
      split
      · rename_i hk
        rw [← hk, h]
      · exact h
    | dial k =>
      simp only [Effect.onSockets, Table.get?_set]
      split
      · rfl
      · exact h

/-! ### Stale reports -/

/-- The supervisor passes over the report of a socket that it takes in the move, except that it has the socket closed
if it is told that it is open. -/
structure Client.PassesOver (c : Client) (m : Move) (epoch : Nat) (r : Report) : Prop where
  /-- Nothing else changes. -/
  client : c.move m = c.rig (if r = .opened then c.sockets.modify epoch (·.cancel) else c.sockets) c.reports.tail
  /-- It does nothing else. -/
  effects : c.effects m = if r = .opened then [.close epoch] else []

theorem Connection.report_of_ne {env : Surroundings} {p : Profile} {c : Connection} {epoch : Nat}
    (r : Report) (h : epoch ≠ c.epoch) :
    c.report env p epoch r = (c, if r = .opened then [.close epoch] else []) := by
  unfold report
  rw [if_pos h]
  cases r <;> rfl

/-- **Stale reports are passed over.** -/
theorem Client.passesOver_of_ne {c : Client} {m : Move} {x : Cue} {epoch : Nat} {r : Report}
    (hx : c.cue? m = some x) (hi : x.input = .report epoch r) (hne : epoch ≠ c.connection.epoch) :
    c.PassesOver m epoch r := by
  have ho : c.outcome x = (c.connection, if r = .opened then [.close epoch] else []) := by
    rw [outcome, hi]
    exact Connection.report_of_ne r hne
  have hr := isRunning_of_cue? hx
  refine ⟨?_, by rw [effects_of_cue? hx, ho]⟩
  rw [move_of_cue? hx, handle_eq, ho, hi]
  by_cases hopened : r = .opened
  · subst hopened
    simp [rig, commandsAfter, reportsAfter, Input.isLast, Effect.onTickets, Effect.onBoxes, Effect.onSockets]
  · simp [rig, commandsAfter, reportsAfter, Input.isLast, hopened]

namespace Sockets

variable {ss ss' : Sockets} {epoch epoch' : Nat} {s : Option Socket}

theorem get?_put_of_ne (h : epoch' ≠ epoch) : (ss.put epoch s).get? epoch' = ss.get? epoch' := by
  cases s with
  | none => rfl
  | some s => exact Table.get?_set_of_ne _ _ h

theorem get?_put_congr (h : ss.get? epoch = ss'.get? epoch) (s : Option Socket) :
    (ss.put epoch s).get? epoch = (ss'.put epoch s).get? epoch := by
  cases s with
  | none => exact h
  | some s => rw [put, put, Table.get?_set_self, Table.get?_set_self]

end Sockets

/-! ### A run without stale reports -/

/-- The reports of the socket of an epoch. -/
def reportsOf (epoch : Nat) (rs : List (Nat × Report)) : List (Nat × Report) :=
  rs.filter fun y => decide (y.1 = epoch)

theorem reportsOf_append (epoch : Nat) (rs rs' : List (Nat × Report)) :
    reportsOf epoch (rs ++ rs') = reportsOf epoch rs ++ reportsOf epoch rs' := List.filter_append ..

theorem reportsOf_cons_self (epoch : Nat) (r : Report) (rs : List (Nat × Report)) :
    reportsOf epoch ((epoch, r) :: rs) = (epoch, r) :: reportsOf epoch rs := by
  simp [reportsOf]

theorem reportsOf_cons_of_ne {epoch epoch' : Nat} {r : Report} {rs : List (Nat × Report)} (h : epoch' ≠ epoch) :
    reportsOf epoch ((epoch', r) :: rs) = reportsOf epoch rs := by
  simp [reportsOf, h]

theorem reportsOf_eq_nil {epoch : Nat} {rs : List (Nat × Report)} (h : ∀ y ∈ rs, y.1 ≠ epoch) :
    reportsOf epoch rs = [] := by
  simpa [reportsOf] using h

/-- What is told of another socket is not of the epoch. -/
theorem reportsOf_news {epoch epoch' : Nat} {isRunning : Bool} {r : Option Report} (h : epoch' ≠ epoch) :
    reportsOf epoch (if isRunning then (r.map fun r => (epoch', r)).toList else []) = [] := by
  refine reportsOf_eq_nil fun y hy => ?_
  split at hy
  · obtain ⟨r', -, rfl⟩ := Option.map_eq_some_iff.1 (Option.mem_toList.1 hy)
    exact h
  · cases hy

/-- What is of an epoch was so before those of earlier ones were left out. -/
theorem reportsOf_reportsOf {epoch epoch' : Nat} {rs : List (Nat × Report)} (hle : epoch ≤ epoch')
    (h : ∀ y ∈ rs, y.1 ≤ epoch) : reportsOf epoch' (reportsOf epoch rs) = reportsOf epoch' rs := by
  unfold reportsOf
  rw [List.filter_filter]
  refine List.filter_congr fun y hy => ?_
  have hle' := h y hy
  by_cases he : y.1 = epoch'
  · have he' : y.1 = epoch := by omega
    simp [he, ← he']
  · simp [he]

theorem reportsOf_idem (epoch : Nat) (rs : List (Nat × Report)) :
    reportsOf epoch (reportsOf epoch rs) = reportsOf epoch rs := by
  simp only [reportsOf, List.filter_filter, Bool.and_self]

namespace Client

/-- The client without the reports of sockets whose attempts or connections have ended. -/
def purged (c : Client) : Client := { c with reports := reportsOf c.connection.epoch c.reports }

/-- In the move the supervisor takes the report of such a socket. -/
def takesStale (c : Client) (m : Move) : Bool :=
  match c.cue? m with
  | some ⟨_, _, .report epoch _⟩ => decide (epoch ≠ c.connection.epoch)
  | _ => false

/-- The moves of a run without those in which the supervisor takes such a report. -/
def essential (c : Client) (moves : List Move) : List Move :=
  c.gather (fun c m => if c.takesStale m then [] else [m]) moves

/-- The run in which such reports are lost. -/
def purgedRun (c : Client) (moves : List Move) : Client := moves.foldl (fun c m => (c.move m).purged) c

theorem essential_concat (c : Client) (moves : List Move) (m : Move) :
    c.essential (moves ++ [m]) =
      c.essential moves ++ if (c.run moves).takesStale m then [] else [m] :=
  gather_concat _ c moves m

theorem essential_append (c : Client) (before after : List Move) :
    c.essential (before ++ after) = c.essential before ++ (c.run before).essential after :=
  gather_append _ c before after

/-- The run without stale reports goes on as the run does, and in no other way. -/
theorem exists_prefix_of_essential {c : Client} {kept moves : List Move} (h : kept <+: c.essential moves) :
    ∃ before, before <+: moves ∧ c.essential before = kept := by
  induction moves using List.reverseRecOn with
  | nil => exact ⟨[], List.nil_prefix, (List.prefix_nil.1 h).symm⟩
  | append_singleton moves m ih =>
    have hlater : kept <+: c.essential moves → ∃ before, before <+: moves ++ [m] ∧ c.essential before = kept := by
      intro h
      obtain ⟨before, hb, he⟩ := ih h
      exact ⟨before, hb.trans (List.prefix_append _ _), he⟩
    rw [essential_concat] at h
    by_cases hs : (c.run moves).takesStale m = true
    · rw [if_pos hs, List.append_nil] at h
      exact hlater h
    · rw [if_neg hs] at h
      obtain rfl | h := List.prefix_concat_iff.1 h
      · exact ⟨moves ++ [m], List.prefix_refl _, by rw [essential_concat, if_neg hs]⟩
      · exact hlater h

theorem purgedRun_append (c : Client) (before after : List Move) :
    c.purgedRun (before ++ after) = (c.purgedRun before).purgedRun after := List.foldl_append

theorem takesStale_iff {c : Client} {m : Move} : c.takesStale m = true ↔
    ∃ x epoch r, c.cue? m = some x ∧ x.input = .report epoch r ∧ epoch ≠ c.connection.epoch := by
  unfold takesStale
  split
  · rename_i now freshId epoch r hx
    rw [decide_eq_true_eq]
    constructor
    · exact fun hne => ⟨_, epoch, r, hx, rfl, hne⟩
    · rintro ⟨x, epoch', r', hx', hi, hne⟩
      rw [hx] at hx'
      cases hx'
      cases hi
      exact hne
  · rename_i hx
    refine iff_of_false Bool.false_ne_true ?_
    rintro ⟨x, epoch, r, hx', hi, -⟩
    obtain ⟨now, freshId, i⟩ := x
    cases hi
    exact hx now freshId epoch r hx'

end Client

/-- A client that differs from another in sockets whose attempts or connections have ended, and has none of their
reports. -/
structure Alike (c d : Client) : Prop where
  /-- Reports and sockets apart, it is the same. -/
  same : d = c.rig d.sockets (reportsOf c.connection.epoch c.reports)
  /-- So are the present socket and those to come. -/
  sockets : ∀ epoch, c.connection.epoch ≤ epoch → d.sockets.get? epoch = c.sockets.get? epoch

section

variable {c d : Client} {m : Move} {x : Cue}

theorem alike_new (p : Profile) : Alike (Client.new p) (Client.new p) := ⟨rfl, fun _ _ => rfl⟩

theorem Alike.of_rig {ss : Sockets} {rs : List (Nat × Report)}
    (hrs : reportsOf c.connection.epoch rs = reportsOf c.connection.epoch c.reports)
    (hss : ∀ epoch, c.connection.epoch ≤ epoch → ss.get? epoch = c.sockets.get? epoch) :
    Alike c (c.rig ss rs).purged := by
  refine ⟨?_, hss⟩
  show { c.rig ss rs with reports := reportsOf c.connection.epoch rs } = _
  rw [hrs]
  rfl

/-- With other sockets and reports, a supervisor takes what it would take, reports apart. -/
theorem Client.cue?_rig (ss : Sockets) (rs : List (Nat × Report))
    (hm : ∀ now freshId, m ≠ .takeReport now freshId) : (c.rig ss rs).cue? m = c.cue? m := by
  cases m with
  | takeReport now freshId => exact absurd rfl (hm now freshId)
  | _ => rfl

/-- A supervisor that has nothing to take has nothing to take without stale reports. -/
theorem Client.cue?_rig_eq_none (ss : Sockets) (h : c.cue? m = none) :
    (c.rig ss (reportsOf c.connection.epoch c.reports)).cue? m = none := by
  by_cases hm : ∃ now freshId, m = .takeReport now freshId
  · obtain ⟨now, freshId, rfl⟩ := hm
    simp only [cue?] at h ⊢
    split at h
    · have hnil : c.reports = [] := by simpa using h
      simp [rig, hnil, reportsOf]
    · rename_i hr
      simp [rig, hr]
  · rw [cue?_rig ss _ fun now freshId he => hm ⟨now, freshId, he⟩, h]

/-- What the task of a socket does keeps the two runs alike. -/
theorem Alike.ply {epoch : Nat} {δ δ' : Option Socket × Option Report} (h : Alike c d)
    (hδ : c.connection.epoch ≤ epoch → δ' = δ) : Alike (c.ply epoch δ) (d.ply epoch δ').purged := by
  have hput : ∀ epoch', c.connection.epoch ≤ epoch' →
      (d.sockets.put epoch δ'.1).get? epoch' = (c.sockets.put epoch δ.1).get? epoch' := by
    intro epoch' hle
    by_cases hk : epoch' = epoch
    · subst hk
      rw [hδ hle]
      exact Sockets.get?_put_congr (h.sockets epoch' hle) _
    · rw [Sockets.get?_put_of_ne hk, Sockets.get?_put_of_ne hk, h.sockets epoch' hle]
  have hnews : reportsOf c.connection.epoch (if c.isRunning then (δ'.2.map fun r => (epoch, r)).toList else []) =
      reportsOf c.connection.epoch (if c.isRunning then (δ.2.map fun r => (epoch, r)).toList else []) := by
    by_cases hle : c.connection.epoch ≤ epoch
    · rw [hδ hle]
    · -- what is told of an earlier socket is lost, whatever it is
      have hne : epoch ≠ c.connection.epoch := by omega
      rw [reportsOf_news hne, reportsOf_news hne]
  rw [h.same]
  refine @Alike.of_rig (c.ply epoch δ) (d.sockets.put epoch δ'.1) _ ?_ hput
  show reportsOf c.connection.epoch (reportsOf c.connection.epoch c.reports ++
      if c.isRunning then (δ'.2.map fun r => (epoch, r)).toList else []) =
    reportsOf c.connection.epoch (c.reports ++
      if c.isRunning then (δ.2.map fun r => (epoch, r)).toList else [])
  rw [reportsOf_append, reportsOf_append, reportsOf_idem, hnews]

/-- Moves of others than the supervisor keep the two runs alike. -/
theorem Alike.idle (h : Alike c d) (hx : c.cue? m = none) : Alike (c.move m) (d.move m).purged := by
  cases he : m.epoch? with
  | some epoch =>
    rw [Client.move_eq_ply he, Client.move_eq_ply he]
    refine h.ply fun hle => ?_
    rw [h.sockets epoch hle, h.same]
    rfl
  | none =>
    have hx' := Client.cue?_rig_eq_none d.sockets hx
    have hself := Client.move_rig c.sockets c.reports he hx hx
    change c.move m = _ at hself
    have hconn := Client.connection_of_idle hx
    rw [h.same, Client.move_rig d.sockets _ he hx hx']
    refine .of_rig ?_ fun epoch hle => ?_
    · rw [hconn, reportsOf_idem, hself]
      rfl
    · rw [hconn] at hle
      rw [hself]
      exact h.sockets epoch hle

/-- What the supervisor takes, stale reports apart, it takes without them, too. -/
theorem Client.cue?_rig_of_fresh (ss : Sockets) (hx : c.cue? m = some x)
    (hfresh : ∀ epoch r, x.input = .report epoch r → epoch = c.connection.epoch) :
    (c.rig ss (reportsOf c.connection.epoch c.reports)).cue? m = some x := by
  by_cases hm : ∃ now freshId, m = .takeReport now freshId
  · obtain ⟨now, freshId, rfl⟩ := hm
    have hr := isRunning_of_cue? hx
    have hx' := hx
    simp only [cue?, hr, if_true, Option.map_eq_some_iff] at hx'
    obtain ⟨⟨epoch, r⟩, -, rfl⟩ := hx'
    obtain rfl := hfresh epoch r rfl
    have hhead : (reportsOf c.connection.epoch c.reports).head? = some (c.connection.epoch, r) := by
      rw [reports_of_cue? hx rfl, reportsOf_cons_self]
      rfl
    simp only [cue?, rig, hr, if_true, hhead, Option.map_some]
  · rw [cue?_rig ss _ fun now freshId he => hm ⟨now, freshId, he⟩, hx]

/-- Of the present epoch, the same is left of the reports, with stale ones and without. -/
theorem Client.reportsOf_reportsAfter (hx : c.cue? m = some x)
    (hfresh : ∀ epoch r, x.input = .report epoch r → epoch = c.connection.epoch) (ss : Sockets) :
    (c.rig ss (reportsOf c.connection.epoch c.reports)).reportsAfter x.input =
      reportsOf c.connection.epoch (c.reportsAfter x.input) := by
  cases hi : x.input with
  | report epoch r =>
    obtain rfl := hfresh epoch r hi
    have hreports := reports_of_cue? hx hi
    rw [hi] at hreports
    have htail : (reportsOf c.connection.epoch c.reports).tail =
        reportsOf c.connection.epoch (c.reportsAfter (.report c.connection.epoch r)) := by
      rw [hreports, reportsOf_cons_self, List.tail_cons]
    exact htail
  | command cmd =>
    simp only [reportsAfter]
    split <;> rfl
  | _ => rfl

/-- What the supervisor does about other things than stale reports keeps the two runs alike. -/
theorem Alike.handle (h : Alike c d) (hs : c.Sound) (hx : c.cue? m = some x)
    (hfresh : ∀ epoch r, x.input = .report epoch r → epoch = c.connection.epoch) :
    Alike (c.move m) (d.move m).purged := by
  have hx' := Client.cue?_rig_of_fresh d.sockets hx hfresh
  have hup : ∀ link, c.connection.link = some link → d.sockets.isOpen link = c.sockets.isOpen link := by
    intro link hl
    rw [hs.phase.eq_epoch_of_link hl, Sockets.isOpen, Sockets.isOpen, h.sockets _ (Nat.le_refl _)]
  have ho : (c.rig d.sockets (reportsOf c.connection.epoch c.reports)).outcome x = c.outcome x := by
    show c.connection.handle ((c.surroundings x.now x.freshId).relink d.sockets.isOpen) c.profile x.input = _
    exact Connection.handle_relink hup x.input
  have hle := Connection.epoch_le_of_acts (hs.acts hx)
  rw [h.same, Client.move_of_cue? hx, Client.move_of_cue? hx', Client.handle_eq, Client.handle_eq, ho,
    Client.reportsOf_reportsAfter hx hfresh]
  refine @Alike.of_rig { c with
    connection := (c.outcome x).1
    isRunning := c.isRunning && ! x.input.isLast
    commands := c.commandsAfter x.input
    reports := c.reportsAfter x.input
    tickets := (c.outcome x).2.foldl Effect.onTickets c.tickets
    boxes := (c.outcome x).2.foldl Effect.onBoxes c.boxes
    sockets := (c.outcome x).2.foldl Effect.onSockets c.sockets } _ _ ?_ fun epoch he => ?_
  · exact reportsOf_reportsOf hle fun y hy => (hs.reports y (Client.mem_of_mem_reportsAfter hy)).1
  · exact get?_onSockets_congr (h.sockets epoch (Nat.le_trans hle he))

/-- A stale report that the supervisor takes keeps the two runs alike, though the other does not go on. -/
theorem Alike.stale {epoch : Nat} {r : Report} (h : Alike c d) (hs : c.Sound) (hx : c.cue? m = some x)
    (hi : x.input = .report epoch r) (hne : epoch ≠ c.connection.epoch) : Alike (c.move m) d := by
  have hknows := hs.expects hx
  rw [hi] at hknows
  have hlt : epoch < c.connection.epoch := Nat.lt_of_le_of_ne hknows.1 hne
  have htail : reportsOf c.connection.epoch c.reports.tail = reportsOf c.connection.epoch c.reports := by
    rw [Client.reports_of_cue? hx hi, List.tail_cons, reportsOf_cons_of_ne hne]
  rw [(Client.passesOver_of_ne hx hi hne).client]
  refine ⟨?_, fun epoch' he => ?_⟩
  · show d = c.rig d.sockets (reportsOf c.connection.epoch c.reports.tail)
    rw [htail]
    exact h.same
  · rw [h.sockets epoch' he]
    have hk : epoch' ≠ epoch := by
      have hle : c.connection.epoch ≤ epoch' := he
      omega
    show _ = (if r = .opened then c.sockets.modify epoch (·.cancel) else c.sockets).get? epoch'
    split
    · rw [Table.get?_modify_of_ne _ _ hk]
    · rfl

/-- Every move keeps the two runs alike. -/
theorem Alike.move (h : Alike c d) (hs : c.Sound) (m : Move) :
    Alike (c.move m) (d.purgedRun (if c.takesStale m then [] else [m])) := by
  cases hx : c.cue? m with
  | none =>
    have hstale : c.takesStale m = false := by
      unfold Client.takesStale
      rw [hx]
    rw [hstale]
    exact h.idle hx
  | some x =>
    by_cases hstale : ∃ epoch r, x.input = .report epoch r ∧ epoch ≠ c.connection.epoch
    · obtain ⟨epoch, r, hi, hne⟩ := hstale
      rw [if_pos (Client.takesStale_iff.2 ⟨x, epoch, r, hx, hi, hne⟩)]
      exact h.stale hs hx hi hne
    · rw [if_neg ?_]
      · exact h.handle hs hx fun epoch r hi => by_contra fun hne => hstale ⟨epoch, r, hi, hne⟩
      · intro hst
        obtain ⟨x', epoch, r, hx', hi, hne⟩ := Client.takesStale_iff.1 hst
        rw [hx] at hx'
        cases hx'
        exact hstale ⟨epoch, r, hi, hne⟩

/-- **The run without stale reports is alike.** -/
theorem alike_run (p : Profile) (moves : List Move) :
    Alike (Client.after p moves) ((Client.new p).purgedRun ((Client.new p).essential moves)) := by
  refine Client.run_induction (P := fun moves c => Alike c ((Client.new p).purgedRun
    ((Client.new p).essential moves))) (alike_new p) (fun moves m h => ?_) moves
  rw [Client.essential_concat, Client.purgedRun_append]
  exact h.move (Client.sound_run p moves) m

end

/-! ### Numbers -/

/-- The socket that an effect has dialed. -/
def Effect.dial? : Effect → Option Nat
  | .dial epoch => some epoch
  | _ => none

/-- The sockets that the supervisor has dialed in a run, one after the other. -/
def Client.dials (c : Client) (moves : List Move) : List Nat :=
  c.gather (fun c m => (c.effects m).filterMap Effect.dial?) moves

theorem Client.dials_concat (c : Client) (moves : List Move) (m : Move) :
    c.dials (moves ++ [m]) = c.dials moves ++ ((c.run moves).effects m).filterMap Effect.dial? :=
  gather_concat _ c moves m

/-- In the run the attempt or connection of a socket has ended. -/
def Ended (p : Profile) (moves : List Move) (epoch : Nat) : Prop :=
  ∃ before m later, moves = before ++ m :: later ∧ (Client.after p before).connection.epoch = epoch ∧
    (Client.after p before).connection.phase ≠ .disconnected ∧
    (Client.after p (before ++ [m])).connection.phase = .disconnected

namespace Connection

/-- What becomes of the number of the attempt in a step, and the sockets that are dialed. -/
inductive Renumbers (c c' : Connection) : List Nat → Prop where
  /-- It stays, and so does the attempt or connection. -/
  | keeps : c'.epoch = c.epoch → (c'.phase = .disconnected ↔ c.phase = .disconnected) → Renumbers c c' []
  /-- An attempt begins; its number is new. -/
  | begins : c.phase = .disconnected → c.epoch < c'.epoch → c'.phase ≠ .disconnected → Renumbers c c' [c'.epoch]
  /-- There is neither an attempt nor a connection any more, and the number is new. -/
  | ends : c.epoch < c'.epoch → c'.phase = .disconnected → Renumbers c c' []

variable {env : Surroundings} {p : Profile} {c c' : Connection} {i : Input} {es : List Effect}

theorem dial?_of_farewells (c : Connection) (fault : Fault) :
    (c.farewells fault).filterMap Effect.dial? = [] := by
  refine List.filterMap_eq_nil_iff.2 fun e he => ?_
  obtain ⟨link, rfl⟩ | ⟨n, a, rfl⟩ := close_or_answer_of_mem_farewells he <;> rfl

/-- **Every step renumbers as it should.** -/
theorem InPhase.renumbers_of_acts (h : c.InPhase) (hx : c.Expects i) (ha : Acts env p c i c' es) :
    c.Renumbers c' (es.filterMap Effect.dial?) := by
  cases ha with
  | attempts ht =>
    exact .begins (h.disconnected_of_attempts hx ht) (Nat.lt_succ_self _) (fun hp => nomatch hp)
  | ends =>
    rw [dial?_of_farewells]
    exact .ends (Nat.lt_succ_self _) rfl
  | destroys =>
    rw [List.filterMap_append, dial?_of_farewells]
    exact .ends (Nat.lt_succ_self _) rfl
  | deserts =>
    rw [dial?_of_farewells]
    exact .ends (Nat.lt_succ_self _) rfl
  | opens =>
    refine .keeps rfl ?_
    cases hp : c.phase <;> simp
  | greets ht hp => exact .keeps rfl (by simp [hp])
  | enters ht hp =>
    have hanswers : (c.waiters.map fun n => Effect.answer n (.ok .null)).filterMap Effect.dial? = [] := by
      simp [List.filterMap_eq_nil_iff, Effect.dial?]
    rw [hanswers]
    exact .keeps rfl (by simp [armWatchdog, hp])
  | @delivers t e =>
    have hevents : ((c.audience.dispatch env.accepts e).1.map fun box => Effect.deliver box e).filterMap
        Effect.dial? = [] := by
      simp [List.filterMap_eq_nil_iff, Effect.dial?]
    rw [hevents]
    exact .keeps rfl .rfl
  | _ => exact .keeps rfl .rfl

end Connection

section

variable {p : Profile} {moves : List Move} {m : Move} {epoch : Nat}

theorem ended_concat : Ended p (moves ++ [m]) epoch ↔ Ended p moves epoch ∨
    (Client.after p moves).connection.epoch = epoch ∧ (Client.after p moves).connection.phase ≠ .disconnected ∧
      (Client.after p (moves ++ [m])).connection.phase = .disconnected := by
  constructor
  · rintro ⟨before, m', later, he, hend⟩
    obtain ⟨rfl, rfl, -⟩ | ⟨later', -, rfl⟩ := Client.concat_eq_append_cons_iff.1 he
    · exact .inr hend
    · exact .inl ⟨before, m', later', rfl, hend⟩
  · rintro (⟨before, m', later, rfl, hend⟩ | hend)
    · exact ⟨before, m', later ++ [m], by simp, hend⟩
    · exact ⟨moves, m, [], rfl, hend⟩

theorem renumbers_move (p : Profile) (moves : List Move) (m : Move) :
    (Client.after p moves).connection.Renumbers (Client.after p (moves ++ [m])).connection
      (((Client.after p moves).effects m).filterMap Effect.dial?) := by
  have hs : (Client.after p moves).Sound := Client.sound_run p moves
  rw [Client.after_concat]
  cases hx : (Client.after p moves).cue? m with
  | none =>
    rw [Client.connection_of_idle hx, Client.effects_of_cue?_eq_none hx]
    exact .keeps rfl .rfl
  | some x =>
    rw [Client.connection_of_cue? hx, Client.effects_of_cue? hx]
    exact hs.phase.renumbers_of_acts (hs.expects hx) (hs.acts hx)

/-- The number of an attempt or connection that has ended does not come back. -/
theorem Ended.lt_epoch (h : Ended p moves epoch) : epoch < (Client.after p moves).connection.epoch := by
  obtain ⟨before, m', later, rfl, rfl, hp, hp'⟩ := h
  have hlt : (Client.after p before).connection.epoch < (Client.after p (before ++ [m'])).connection.epoch := by
    have hr := renumbers_move p before m'
    generalize ((Client.after p before).effects m').filterMap Effect.dial? = new at hr
    cases hr with
    | keeps _ hiff => exact absurd (hiff.1 hp') hp
    | begins hq => exact absurd hq hp
    | ends hlt => exact hlt
  have hle := Client.Sound.epoch_le_run (Client.sound_run p (before ++ [m'])) later
  rw [← Client.run_append, List.append_assoc, List.singleton_append] at hle
  exact Nat.lt_of_lt_of_le hlt hle

end

/-- The numbers of the sockets that the supervisor has dialed. -/
structure Counted (p : Profile) (moves : List Move) : Prop where
  /-- They rise. -/
  distinct : ((Client.new p).dials moves).Pairwise (· < ·)
  /-- The last one is that of the attempt or connection, as long as there is one. -/
  current : (Client.after p moves).connection.phase ≠ .disconnected →
    ((Client.new p).dials moves).getLast? = some (Client.after p moves).connection.epoch
  /-- The attempts of the others have ended. -/
  ended : ∀ epoch ∈ (Client.new p).dials moves, Ended p moves epoch ∨
    (Client.after p moves).connection.phase ≠ .disconnected ∧ epoch = (Client.after p moves).connection.epoch

section

variable {p : Profile} {moves : List Move} {m : Move} {epoch : Nat}

theorem Counted.le_epoch (h : Counted p moves) (he : epoch ∈ (Client.new p).dials moves) :
    epoch ≤ (Client.after p moves).connection.epoch := by
  obtain hend | ⟨-, rfl⟩ := h.ended epoch he
  · exact Nat.le_of_lt hend.lt_epoch
  · exact Nat.le_refl _

/-- The attempt of a socket has ended unless it is the present one. -/
theorem Counted.ne_epoch_iff (h : Counted p moves) (he : epoch ∈ (Client.new p).dials moves) :
    epoch ≠ (Client.after p moves).connection.epoch ↔ Ended p moves epoch := by
  obtain hend | ⟨-, rfl⟩ := h.ended epoch he
  · exact iff_of_true (Nat.ne_of_lt hend.lt_epoch) hend
  · exact iff_of_false (fun hne => hne rfl) fun hend => Nat.lt_irrefl _ hend.lt_epoch

theorem counted_new (p : Profile) : Counted p [] :=
  ⟨List.Pairwise.nil, fun h => absurd rfl h, (fun _ h => nomatch h)⟩

theorem Counted.concat (h : Counted p moves) (m : Move) : Counted p (moves ++ [m]) := by
  have hdials : (Client.new p).dials (moves ++ [m]) = _ := Client.dials_concat _ moves m
  have hpast : ∀ epoch, Ended p moves epoch → Ended p (moves ++ [m]) epoch :=
    fun epoch hend => ended_concat.2 (.inl hend)
  have hr := renumbers_move p moves m
  generalize ((Client.after p moves).effects m).filterMap Effect.dial? = new at hr hdials
  cases hr with
  | keeps he hiff =>
    rw [List.append_nil] at hdials
    refine ⟨hdials ▸ h.distinct, fun hp => ?_, fun epoch hepoch => ?_⟩
    · rw [hdials, he]
      exact h.current (mt hiff.2 hp)
    · rw [hdials] at hepoch
      rw [he]
      exact (h.ended epoch hepoch).imp (hpast epoch) fun hnow => ⟨mt hiff.1 hnow.1, hnow.2⟩
  | begins hp hlt hp' =>
    refine ⟨?_, fun _ => by rw [hdials, List.getLast?_concat], fun epoch hepoch => ?_⟩
    · rw [hdials]
      refine List.pairwise_append.2 ⟨h.distinct, List.pairwise_singleton _ _, fun a ha b hb => ?_⟩
      rw [List.mem_singleton.1 hb]
      exact Nat.lt_of_le_of_lt (h.le_epoch ha) hlt
    · rw [hdials] at hepoch
      obtain hepoch | hepoch := List.mem_append.1 hepoch
      · exact .inl (hpast epoch ((h.ended epoch hepoch).resolve_right fun hnow => hnow.1 hp))
      · exact .inr ⟨hp', List.mem_singleton.1 hepoch⟩
  | ends hlt hp' =>
    rw [List.append_nil] at hdials
    refine ⟨hdials ▸ h.distinct, fun hp => absurd hp' hp, fun epoch hepoch => .inl ?_⟩
    rw [hdials] at hepoch
    obtain hend | ⟨hp, rfl⟩ := h.ended epoch hepoch
    · exact hpast epoch hend
    · exact ended_concat.2 (.inr ⟨rfl, hp, hp'⟩)

theorem counted_run (p : Profile) (moves : List Move) : Counted p moves :=
  Client.run_induction (P := fun moves _ => Counted p moves) (c := Client.new p) (counted_new p)
    (fun _ m h => h.concat m) moves

end

/-! ### What is told of which socket -/

/-- What the client knows of sockets is of those that the supervisor has dialed. -/
structure Traced (p : Profile) (moves : List Move) : Prop where
  /-- Their states are. -/
  sockets : ∀ epoch, ((Client.after p moves).sockets.get? epoch).isSome = true →
    epoch ∈ (Client.new p).dials moves
  /-- Reports are. -/
  reports : ∀ y ∈ (Client.after p moves).reports, y.1 ∈ (Client.new p).dials moves

namespace Client

variable {c : Client} {m : Move}

/-- A socket that is known was known, or is dialed. -/
theorem isSome_of_move {epoch : Nat} (h : ((c.move m).sockets.get? epoch).isSome = true) :
    (c.sockets.get? epoch).isSome = true ∨ epoch ∈ (c.effects m).filterMap Effect.dial? := by
  have hd := does_move c m
  generalize c.move m = c' at hd h
  cases hd with
  | handles hx =>
    rw [handle_eq] at h
    rw [effects_of_cue? hx]
    refine (isSome_onSockets h).imp_right fun he => ?_
    exact List.mem_filterMap.2 ⟨_, he, rfl⟩
  | @socket m epoch' ss rs _ _ hk hss =>
    obtain rfl | ⟨s, rfl⟩ := hss
    · exact .inl h
    · rw [Table.get?_set] at h
      split at h
      · rename_i he
        exact .inl (he ▸ hk)
      · exact .inl h
  | _ => exact .inl h

/-- A report that is there was there, or is of a known socket. -/
theorem mem_reports_of_move {y : Nat × Report} (h : y ∈ (c.move m).reports) :
    y ∈ c.reports ∨ (c.sockets.get? y.1).isSome = true := by
  have hd := does_move c m
  generalize c.move m = c' at hd h
  cases hd with
  | handles hx =>
    rw [handle_eq] at h
    exact .inl (mem_of_mem_reportsAfter h)
  | socket _ _ hk _ hrs =>
    obtain h | h := List.mem_append.1 h
    · exact .inl h
    · exact .inr (hrs y h ▸ hk)
  | _ => exact .inl h

/-- **What the task of a socket tells carries its number**, and nobody else tells anything of sockets. -/
theorem exists_tagged (c : Client) (m : Move) :
    ∃ rs, (c.move m).reports <:+ c.reports ++ rs ∧ ∀ y ∈ rs, m.epoch? = some y.1 := by
  cases hx : c.cue? m with
  | some x =>
    refine ⟨[], ?_, fun y hy => nomatch hy⟩
    rw [move_of_cue? hx, handle_eq, List.append_nil]
    exact c.reportsAfter_suffix x.input
  | none =>
    cases he : m.epoch? with
    | some epoch =>
      rw [move_eq_ply he]
      refine ⟨_, List.suffix_refl _, fun y hy => ?_⟩
      split at hy
      · obtain ⟨r, -, rfl⟩ := Option.map_eq_some_iff.1 (Option.mem_toList.1 hy)
        rfl
      · cases hy
    | none =>
      refine ⟨[], ?_, fun y hy => nomatch hy⟩
      have hself := move_rig c.sockets c.reports he hx hx
      change c.move m = _ at hself
      rw [hself, List.append_nil]
      exact List.suffix_refl _

end Client

section

variable {p : Profile} {moves : List Move} {m : Move} {epoch : Nat}

theorem traced_new (p : Profile) : Traced p [] := ⟨(fun _ h => nomatch h), fun _ h => nomatch h⟩

theorem Traced.concat (h : Traced p moves) (m : Move) : Traced p (moves ++ [m]) := by
  have hdials : (Client.new p).dials (moves ++ [m]) = _ := Client.dials_concat _ moves m
  have hold : ∀ epoch ∈ (Client.new p).dials moves, epoch ∈ (Client.new p).dials (moves ++ [m]) := by
    intro epoch he
    rw [hdials]
    exact List.mem_append_left _ he
  refine ⟨fun epoch he => ?_, fun y hy => ?_⟩
  · rw [Client.after_concat] at he
    obtain he | he := Client.isSome_of_move he
    · exact hold epoch (h.sockets epoch he)
    · rw [hdials]
      exact List.mem_append_right _ he
  · rw [Client.after_concat] at hy
    obtain hy | hy := Client.mem_reports_of_move hy
    · exact hold y.1 (h.reports y hy)
    · exact hold y.1 (h.sockets y.1 hy)

theorem traced_run (p : Profile) (moves : List Move) : Traced p moves :=
  Client.run_induction (P := fun moves _ => Traced p moves) (c := Client.new p) (traced_new p)
    (fun _ m h => h.concat m) moves

end

/-! ### Every run -/

/-- **Replaced sockets do not interfere**, in a run. -/
structure Undisturbed (p : Profile) (moves : List Move) : Prop where
  /-- No two sockets have the same number. -/
  distinct : ((Client.new p).dials moves).Pairwise (· < ·)
  /-- That of the last one is the number of the attempt or connection, as long as there is one. -/
  current : (Client.after p moves).connection.phase ≠ .disconnected →
    ((Client.new p).dials moves).getLast? = some (Client.after p moves).connection.epoch
  /-- When the attempt or connection has ended, its number does not come back. -/
  retired : ∀ epoch, Ended p moves epoch → epoch < (Client.after p moves).connection.epoch
  /-- What the task of a socket tells carries its number, and nobody else tells anything of sockets. -/
  tagged : ∀ before m later, moves = before ++ m :: later →
    ∃ rs, (Client.after p (before ++ [m])).reports <:+ (Client.after p before).reports ++ rs ∧
      ∀ y ∈ rs, m.epoch? = some y.1
  /-- So the supervisor knows by their number the reports of sockets whose attempts or connections have ended. -/
  stale : ∀ y ∈ (Client.after p moves).reports,
    y.1 ≠ (Client.after p moves).connection.epoch ↔ Ended p moves y.1
  /-- It passes over them, except that it has a socket closed that is open too late. -/
  late : ∀ m x epoch r, Ended p moves epoch → (Client.after p moves).cue? m = some x →
    x.input = .report epoch r → (Client.after p moves).PassesOver m epoch r
  /-- As long as there is neither an attempt nor a connection, it does so with every report. -/
  down : ∀ m x epoch r, (Client.after p moves).connection.phase = .disconnected →
    (Client.after p moves).cue? m = some x → x.input = .report epoch r →
    (Client.after p moves).PassesOver m epoch r
  /-- The run in which all these reports are lost passes through the same states, sockets that have been replaced
  apart. -/
  alike : ∀ before, before <+: moves →
    Alike (Client.after p before) ((Client.new p).purgedRun ((Client.new p).essential before)) ∧
      (Client.new p).essential before <+: (Client.new p).essential moves
  /-- It passes through no others. -/
  only : ∀ kept, kept <+: (Client.new p).essential moves →
    ∃ before, before <+: moves ∧ (Client.new p).essential before = kept

/-- **Replaced sockets do not interfere.** In every run of a client, once an attempt or a connection has ended,
nothing that its dialing or its socket still has to tell, in any order and however late, changes anything of the
client, but for the socket itself, which is closed if it is open after all: without all these reports the run would
pass through the same states. The supervisor knows them by their numbers, none of which is used twice; and while
there is neither an attempt nor a connection there are no others. -/
theorem undisturbed_run (p : Profile) (moves : List Move) : Undisturbed p moves where
  distinct := (counted_run p moves).distinct
  current := (counted_run p moves).current
  retired _ hend := hend.lt_epoch
  tagged before m _ _ := Client.after_concat p before m ▸ Client.exists_tagged _ m
  stale y hy := (counted_run p moves).ne_epoch_iff ((traced_run p moves).reports y hy)
  late _ _ _ _ hend hx hi := Client.passesOver_of_ne hx hi (Nat.ne_of_lt hend.lt_epoch)
  down m x epoch r hp hx hi := by
    have hknows := (Client.sound_run p moves).expects hx
    rw [hi] at hknows
    exact Client.passesOver_of_ne hx hi (hknows.2 hp)
  alike before hb := by
    obtain ⟨later, rfl⟩ := hb
    exact ⟨alike_run p before, _, ((Client.new p).essential_append before later).symm⟩
  only _ hk := Client.exists_prefix_of_essential hk

-- A socket that is open only after the handshake has taken too long is closed, and the next attempt stays scheduled.
example :
    let late : Nat := localProfile.connectTimeout.nanos
    let moves : List Move := [.connect 0, .takeCommand 0 "unused", .takeAlarm late "unused", .dialed 1,
      .takeReport late "unused"]
    (Client.after localProfile moves).sockets.get? 1 = some (.opened [] true) ∧
      (Client.after localProfile moves).connection.phase = .disconnected ∧
      (Client.after localProfile moves).connection.reconnectAt.isSome = true := by decide +kernel

end TurnRelay.Gateway
