import TurnRelay.Proofs.Gateway.Ties

/-!
# Readers leave nobody behind

Who follows a run has a seat in the audience, and a reader that goes away has to give it up. It cannot do so itself: it
puts a command into the queue, and the command may come late. By the time it is taken the run may have ended and the
seat with it, the connection may have been lost, or somebody else may have come to follow the same run; it may be put
there twice, by a reader that has waited too long and then goes away; and it may follow a command to take the seat in
the first place. A reader that was given the last event says nothing at all.

All the same nothing is left of it. While a stream goes on, wherever its listener is, it is there for the stream's run
(`Tied`), and so one command to let it go from this run suffices, wherever in the queue it stands (`Leaving`): what
stands before it may still bring the listener, what stands behind it does not. If no such command is needed, the
listener has left already (`Left`), and one that has left does not come back, as its number is not given again. The
command names the listener, not only its run, so nobody else loses a seat by it.

## The model

* `Client.Obtains` — a caller or reader is given a stream.
* `Client.Over` — a stream is dropped, or has ended.
* `Client.takes?`, `Client.Clears` — the commands that the supervisor takes; it has taken all that were in the queue.
* `Left`, `Leaving`, `Parting` — a listener has left, is to leave, or one of both.
* `Undisturbed` — what a move means for a stream that goes on.

## What is proved

* `Leaving.handle`, `Parts.run` — with every command that is taken, the one that lets the listener go comes nearer.
* `Served.move` — as soon as a stream is over, its listener has left or is to leave.
* `spares_of_over` — nobody of an old stream is in the audience for long.
* `Bonds.undisturbed` — nobody loses a seat by it.
* `leaves_with_stream` — both, in every run.
-/

namespace TurnRelay.Gateway

open TurnRelay.Wire

/-! ### Listeners that leave -/

/-- The command that is taken. -/
def Input.command? : Input → Option Command
  | .command cmd => some cmd
  | _ => none

namespace Client

/-- The command that the supervisor takes in a move. -/
def takes? (c : Client) (m : Move) : Option Command := (c.cue? m).bind fun x => x.input.command?

/-- Nobody of the number is in the audience, and nobody brings one. -/
structure Left (c : Client) (l : Nat) : Prop where
  /-- No command does. -/
  commands : ∀ cmd ∈ c.commands, cmd.Spares l
  /-- No outstanding request does. -/
  requests : ∀ e ∈ c.connection.outstanding.entries, e.2.Spares l
  /-- Nobody is there. -/
  audience : c.connection.audience.Spares l

/-- **The listener is to leave**: behind so many commands stands the one that lets it go from its run. -/
structure Leaving (c : Client) (l k : Nat) : Prop where
  /-- The command. What stands before it brings the listener to this run only, and what stands behind it does not bring
  it at all. -/
  place : ∃ run before after, c.commands = before ++ .unlisten run l :: after ∧ before.length = k ∧
    (∀ cmd ∈ before, cmd.Ties run l) ∧ (∀ cmd ∈ after, cmd.Spares l) ∧ c.connection.audience.Ties run l
  /-- No outstanding request brings it. -/
  requests : ∀ e ∈ c.connection.outstanding.entries, e.2.Spares l

/-- The listener has left, or is to leave. -/
def Parting (c : Client) (l : Nat) : Prop := c.Left l ∨ ∃ k, c.Leaving l k

/-- The listener has left, or does so with one of the next `k` commands. -/
def Parts (c : Client) (l k : Nat) : Prop := c.Left l ∨ ∃ j < k, c.Leaving l j

variable {c c' : Client} {m : Move} {x : Cue} {l k : Nat}

theorem Left.handle (h : c.Left l) (hs : c.Sound) (hx : c.cue? m = some x) : (c.handle x).Left l := by
  have haud := spares_audience_of_handle hs hx (fun run y hm => h.commands _ hm y rfl)
    (fun _ _ _ _ _ _ _ _ hr => h.requests _ (Table.mem_of_get? hr)) h.audience
  rw [handle_eq]
  exact ⟨spares_commandsAfter h.commands, spares_requests_of_handle hs hx h.commands h.requests, haud.1⟩

theorem Left.append (h : c.Left l) (hconn : c'.connection = c.connection)
    (hcmds : ∃ cmds, c'.commands = c.commands ++ cmds ∧ ∀ cmd ∈ cmds, cmd.Spares l) : c'.Left l := by
  obtain ⟨cmds, hc, hnew⟩ := hcmds
  refine ⟨fun cmd hm => ?_, hconn ▸ h.requests, hconn ▸ h.audience⟩
  rw [hc] at hm
  obtain hm | hm := List.mem_append.1 hm
  · exact h.commands cmd hm
  · exact hnew cmd hm

theorem Leaving.append (h : c.Leaving l k) (hconn : c'.connection = c.connection)
    (hcmds : ∃ cmds, c'.commands = c.commands ++ cmds ∧ ∀ cmd ∈ cmds, cmd.Spares l) : c'.Leaving l k := by
  obtain ⟨run, before, after, hc, hk, hbefore, hafter, haud⟩ := h.place
  obtain ⟨cmds, hc', hnew⟩ := hcmds
  refine ⟨⟨run, before, after ++ cmds, by rw [hc', hc, List.append_assoc, List.cons_append], hk, hbefore,
    fun cmd hm => ?_, hconn ▸ haud⟩, hconn ▸ h.requests⟩
  obtain hm | hm := List.mem_append.1 hm
  · exact hafter cmd hm
  · exact hnew cmd hm

/-- The commands that are to come before the listener leaves are in the queue. -/
theorem Leaving.lt_length (h : c.Leaving l k) : k < c.commands.length := by
  obtain ⟨run, before, after, hc, rfl, -⟩ := h.place
  rw [hc, List.length_append, List.length_cons]
  omega

theorem Parting.parts (h : c.Parting l) : c.Parts l c.commands.length :=
  h.imp_right fun ⟨k, hk⟩ => ⟨k, hk.lt_length, hk⟩

theorem Parts.parting (h : c.Parts l k) : c.Parting l := h.imp_right fun ⟨j, _, hj⟩ => ⟨j, hj⟩

theorem Parting.append (h : c.Parting l) (hconn : c'.connection = c.connection)
    (hcmds : ∃ cmds, c'.commands = c.commands ++ cmds ∧ ∀ cmd ∈ cmds, cmd.Spares l) : c'.Parting l :=
  h.imp (fun hl => hl.append hconn hcmds) fun ⟨k, hk⟩ => ⟨k, hk.append hconn hcmds⟩

/-- What the supervisor has taken of a queue that was split at one of its commands: the command itself, one before it,
or everything. -/
theorem commandsAfter_of_split {before after : List Command} {cmd : Command} (hx : c.cue? m = some x)
    (hc : c.commands = before ++ cmd :: after) :
    c.commandsAfter x.input = [] ∧ x.input.isLast = true ∨
      x.input.command? = none ∧ c.commandsAfter x.input = before ++ cmd :: after ∨
      before = [] ∧ x.input = .command cmd ∧ c.commandsAfter x.input = after ∨
      ∃ first rest, before = first :: rest ∧ x.input = .command first ∧
        c.commandsAfter x.input = rest ++ cmd :: after := by
  cases hlast : x.input.isLast with
  | true => exact .inl ⟨commandsAfter_of_isLast hlast, rfl⟩
  | false =>
    right
    cases hi : x.input with
    | command taken =>
      right
      rw [hi] at hlast
      rw [commandsAfter_command hlast]
      have hhead := commands_of_cue? hx hi
      rw [hc] at hhead ⊢
      cases before with
      | nil =>
        injection hhead with hcmd
        exact .inl ⟨rfl, by rw [hcmd], rfl⟩
      | cons first rest =>
        injection hhead with hcmd
        exact .inr ⟨first, rest, rfl, by rw [hcmd], rfl⟩
    | _ =>
      rw [hi] at hlast
      exact .inl ⟨rfl, by rw [commandsAfter_eq_self hlast (by simp), hc]⟩

/-- **With every command that is taken the listener's leave comes nearer**, and with its own it has left. -/
theorem Leaving.handle (h : c.Leaving l k) (hs : c.Sound) (hx : c.cue? m = some x) :
    (c.handle x).Left l ∨ x.input.command? = none ∧ (c.handle x).Leaving l k ∨
      ∃ j, k = j + 1 ∧ (c.handle x).Leaving l j := by
  obtain ⟨run, before, after, hc, rfl, hbefore, hafter, haud⟩ := h.place
  have hcmds : (c.handle x).commands = c.commandsAfter x.input := by rw [handle_eq]
  have hconn : (c.handle x).connection = (c.outcome x).1 := by rw [handle_eq]
  -- no command brings it with a request
  have hrequests : ∀ e ∈ (c.handle x).connection.outstanding.entries, e.2.Spares l := by
    intro e he
    obtain he | ⟨params, -, hm⟩ := request_of_handle hs hx (hconn ▸ he)
    · exact h.requests e he
    · rw [hc] at hm
      obtain hm | hm := List.mem_append.1 hm
      · obtain hspares | hown := hbefore _ hm
        · exact hspares
        · cases hown
      · obtain hm | hm := List.mem_cons.1 hm
        · cases hm
        · exact hafter _ hm
  have hties : (∀ run' y, x.input = .command (.listen run' y) → y.Spares l ∨ (run', y) = (run, ⟨l, l⟩)) →
      (c.handle x).connection.audience.Ties run l := fun hlisten =>
    hconn ▸ ties_of_input hs hx hlisten h.requests haud
  obtain ⟨hall, hlast⟩ | ⟨hnone, hall⟩ | ⟨rfl, hi, hall⟩ | ⟨first, rest, rfl, hi, hall⟩ := commandsAfter_of_split hx hc
  · refine .inl ⟨by simp [hcmds, hall], hrequests, ?_⟩
    rw [hconn, (Connection.acts_of_isLast (hs.acts hx) hlast).1]
    exact Audience.spares_empty l
  · refine .inr (.inl ⟨hnone, ⟨⟨run, before, after, hcmds.trans hall, rfl, hbefore, hafter, hties ?_⟩, hrequests⟩⟩)
    intro run' y hi
    rw [hi] at hnone
    cases hnone
  · refine .inl ⟨fun cmd hm => hafter cmd (hall ▸ hcmds ▸ hm), hrequests, ?_⟩
    rw [hconn, outcome, hi]
    exact haud.spares_remove
  · refine .inr (.inr ⟨rest.length, rfl, ⟨⟨run, rest, after, hcmds.trans hall, rfl,
      fun cmd hm => hbefore cmd (List.mem_cons_of_mem _ hm), hafter, hties fun run' y hlisten => ?_⟩, hrequests⟩⟩)
    rw [hi] at hlisten
    cases hlisten
    exact (hbefore _ List.mem_cons_self).of_listen

theorem Parting.handle (h : c.Parting l) (hs : c.Sound) (hx : c.cue? m = some x) : (c.handle x).Parting l := by
  obtain hl | ⟨k, hk⟩ := h
  · exact .inl (hl.handle hs hx)
  · obtain hl | ⟨-, hk⟩ | ⟨j, -, hj⟩ := hk.handle hs hx
    · exact .inl hl
    · exact .inr ⟨k, hk⟩
    · exact .inr ⟨j, hj⟩

/-! ### In the course of a run -/

/-- Others than the supervisor bring nobody of a number that was given. -/
theorem Deals.commands_eq (hd : Deals c l m c') (hx : c.cue? m = none) :
    ∃ cmds, c'.commands = c.commands ++ cmds ∧ ∀ cmd ∈ cmds, cmd.Spares l := by
  have hsame : ∃ cmds, c.commands = c.commands ++ cmds ∧ ∀ cmd ∈ cmds, cmd.Spares l :=
    ⟨[], (List.append_nil _).symm, fun _ hm => absurd hm List.not_mem_nil⟩
  have htold : ∀ {cmd : Command}, cmd.listener? = none → ∃ cmds, c.told cmd = c.commands ++ cmds ∧
      ∀ x ∈ cmds, x.Spares l := by
    intro cmd hno
    obtain ⟨cmds, he, hc⟩ := told_eq_append (c := c) cmd
    refine ⟨cmds, he, fun y hy z hz => ?_⟩
    rw [hc y hy, hno] at hz
    cases hz
  cases hd with
  | apart ha =>
    obtain ⟨cmds, hc, hnew⟩ := ha.commands
    exact ⟨cmds, hc, fun cmd hm => (hnew cmd hm).1⟩
  | expires => exact htold rfl
  | idles => exact htold rfl
  | drops =>
    dsimp only
    split
    · exact hsame
    · exact htold rfl
  | handles hx' =>
    rw [hx] at hx'
    cases hx'
  | _ => exact hsame

/-- Who has left does not come back. -/
theorem Left.move (h : c.Left l) (hs : c.Sound) (hn : c.Numbered) (hl : l < c.nextListener) (m : Move) :
    (c.move m).Left l := by
  have hd := does_move c m
  cases hx : c.cue? m with
  | some x =>
    rw [move_of_cue? hx]
    exact h.handle hs hx
  | none => exact h.append (connection_of_idle hx) ((deals_of_does hn (.inl hl) hd).commands_eq hx)

theorem Leaving.move (h : c.Leaving l k) (hs : c.Sound) (hn : c.Numbered) (hl : l < c.nextListener) (m : Move) :
    (c.move m).Left l ∨ c.takes? m = none ∧ (c.move m).Leaving l k ∨ ∃ j, k = j + 1 ∧ (c.move m).Leaving l j := by
  have hd := does_move c m
  cases hx : c.cue? m with
  | some x =>
    rw [move_of_cue? hx, takes?, hx]
    exact h.handle hs hx
  | none =>
    rw [takes?, hx]
    exact .inr (.inl ⟨rfl, h.append (connection_of_idle hx) ((deals_of_does hn (.inl hl) hd).commands_eq hx)⟩)

/-- A command that is taken is one command fewer to wait for. -/
theorem Parts.move (h : c.Parts l k) (hs : c.Sound) (hn : c.Numbered) (hl : l < c.nextListener) (m : Move) :
    (c.move m).Parts l (k - (c.takes? m).toList.length) := by
  obtain hleft | ⟨j, hj, hleaving⟩ := h
  · exact .inl (hleft.move hs hn hl m)
  · have hone : (c.takes? m).toList.length ≤ 1 := by cases c.takes? m <;> simp
    obtain hleft | ⟨hnone, hsame⟩ | ⟨i, rfl, hnext⟩ := hleaving.move hs hn hl m
    · exact .inl hleft
    · exact .inr ⟨j, by simpa [hnone] using hj, hsame⟩
    · exact .inr ⟨i, by omega, hnext⟩

/-- **A listener that is to leave has left once so many commands are taken.** -/
theorem Parts.run (h : c.Parts l k) (hs : c.Sound) (hn : c.Numbered) (hl : l < c.nextListener) (moves : List Move) :
    (c.run moves).Parts l (k - (c.collect takes? moves).length) := by
  induction moves generalizing c k with
  | nil => exact h
  | cons m moves ih =>
    have hd := does_move c m
    have hle := nextListener_le_of_does hd
    rw [run_cons, collect_cons, List.length_append, ← Nat.sub_sub]
    exact ih (h.move hs hn hl m) (hs.does hd) (hn.move m) (Nat.lt_of_lt_of_le hl hle)

theorem Parts.left_of_zero (h : c.Parts l 0) : c.Left l :=
  h.resolve_right fun ⟨_, hj, _⟩ => absurd hj (Nat.not_lt_zero _)

/-- Who has left never comes back. -/
theorem Left.run (h : c.Left l) (hs : c.Sound) (hn : c.Numbered) (hl : l < c.nextListener) (moves : List Move) :
    (c.run moves).Left l := by
  have hzero : c.Parts l 0 := .inl h
  have hparts := hzero.run hs hn hl moves
  rw [Nat.zero_sub] at hparts
  exact hparts.left_of_zero

/-! ### Streams that are over -/

variable {run : String}

/-- A listener that is tied to its run, and that nobody feeds, has left. -/
theorem Tied.left_of_feeds (h : c.Tied run l) (hf : c.feeds l = false) : c.Left l := by
  simp only [Client.feeds, Bool.or_eq_false_iff] at hf
  refine ⟨fun cmd hm => (h.commands cmd hm).resolve_right ?_, h.requests, h.audience.spares_of_holds hf.1.1⟩
  rintro rfl
  have hno := List.any_eq_false.1 hf.2 _ hm
  simp [Command.listener?] at hno

/-- One in whose mailbox the last event is has left. -/
theorem Tied.left_of_mem {e : RunEvent} (h : c.Tied run l) (he : e ∈ (c.box l).queue)
    (ht : e.state.isTerminal = true) : c.Left l := ⟨h.spares_of_mem he, h.requests, h.ended e he ht⟩

/-- One whose stream has nothing to yield, now or later, has left. -/
theorem Tied.left_of_isDry (h : c.Tied run l) (hd : c.isDry l = true) : c.Left l := by
  refine h.left_of_feeds ?_
  obtain ⟨b, hb, hopen⟩ := (Option.any_eq_true _ _).1 h.accepts
  simp only [isDry, Client.box, hb, Option.getD_some, hopen, Bool.true_and, Bool.and_eq_true, Bool.not_eq_true'] at hd
  exact hd.2

/-- Without a supervisor everybody has left. -/
theorem Halted.left (h : c.Halted) (l : Nat) : c.Left l := by
  obtain ⟨d, hd⟩ := h.connection
  refine ⟨fun cmd hm => ?_, fun e he => ?_, hd ▸ Audience.spares_empty l⟩
  · rw [h.commands] at hm
    cases hm
  · rw [hd] at he
    cases he

/-- One that is let go is to leave, or there is no supervisor and it has left. -/
theorem Tied.parting (h : c.Tied run l) (hh : c.isRunning = false → c.Halted)
    (hconn : c'.connection = c.connection) (hcmds : c'.commands = c.told (.unlisten run l)) : c'.Parting l := by
  cases hr : c.isRunning with
  | true =>
    rw [told, hr, if_pos rfl] at hcmds
    refine .inr ⟨_, ⟨run, c.commands, [], hcmds, rfl, h.commands, fun cmd hm => ?_, hconn ▸ h.audience⟩,
      hconn ▸ h.requests⟩
    cases hm
  | false =>
    rw [told, hr, if_neg Bool.false_ne_true] at hcmds
    exact .inl (((hh hr).left l).append hconn ⟨[], by rw [hcmds, List.append_nil], fun _ hm => by cases hm⟩)

/-- A supervisor that is gone has left nothing behind, after every run. -/
theorem halted_run (p : Profile) (moves : List Move) :
    (Client.after p moves).isRunning = false → (Client.after p moves).Halted := by
  refine run_induction (P := fun _ c => c.isRunning = false → c.Halted) (fun h => by cases h)
    (fun moves m ih hr => ?_) moves
  cases hrun : (Client.after p moves).isRunning with
  | false => exact (ih hrun).move m
  | true =>
    -- it was there before, so the move is its last
    refine ((sound_run p moves).departs ?_).halted
    cases hx : (Client.after p moves).cue? m with
    | none => exact absurd (hrun.symm.trans ((isRunning_of_does hx (does_move _ m)).symm.trans hr)) (by simp)
    | some x =>
      rw [move_of_cue? hx, handle_eq] at hr
      rw [shutsDown, hx, Option.any_some]
      have hrun : ((Client.new p).run moves).isRunning = true := hrun
      simpa [hrun] using hr

/-- The listener of a number had its call and has, or had, its stream; when the stream is over, it has left or is to
leave. -/
structure Served (c : Client) (l : Nat) : Prop where
  /-- The number was given. -/
  given : l < c.nextListener
  /-- No call becomes its stream. -/
  unasked : c.Unasked l
  /-- Its stream is over. -/
  parts : (∀ s, c.streams.get? l = some s → s.isFinished = true) → c.Parting l

theorem Served.parting_of_finished {s : RunStream} (h : c.Served l) (hst : c.streams.get? l = some s)
    (hf : s.isFinished = true) : c.Parting l := by
  refine h.parts fun s' hst' => ?_
  rw [hst] at hst'
  cases hst'
  exact hf

theorem Served.move (h : c.Served l) (hb : c.Bonds l) (hs : c.Sound) (hn : c.Numbered)
    (hh : c.isRunning = false → c.Halted) (m : Move) : (c.move m).Served l := by
  have hd := does_move c m
  have hlt := Nat.lt_of_lt_of_le h.given (nextListener_le_of_does hd)
  have hsame : ∃ cmds, c.commands = c.commands ++ cmds ∧ ∀ cmd ∈ cmds, cmd.Spares l :=
    ⟨[], (List.append_nil _).symm, fun _ hm => absurd hm List.not_mem_nil⟩
  -- a stream that is touched but does not end
  have htouched : ∀ {f : RunStream → RunStream}, (∀ s, (f s).isFinished = s.isFinished) →
      (∀ s, (c.streams.modify l f).get? l = some s → s.isFinished = true) → c.Parting l := by
    intro f hf hover
    refine h.parts fun s hst => ?_
    have hfin := hover (f s) (by rw [Table.get?_modify, if_pos rfl, hst, Option.map_some])
    rwa [hf] at hfin
  generalize c.move m = c' at hd hlt
  cases deals_of_does hn (.inl h.given) hd with
  | apart ha =>
    refine ⟨hlt, fun k call hk hcall => h.unasked k call ((ha.calls k call hcall).1 hk) hcall, fun hover => ?_⟩
    obtain ⟨cmds, hc, hnew⟩ := ha.commands
    exact (h.parts (ha.streams ▸ hover)).append ha.idle.connection ⟨cmds, hc, fun cmd hm => (hnew cmd hm).1⟩
  | handles hx =>
    refine ⟨hlt, ?_, fun hover => (h.parts ?_).handle hs hx⟩
    · rw [handle_eq]
      exact h.unasked
    · rw [handle_eq] at hover
      exact hover
  | ends hk hcall => exact absurd hcall (h.unasked _ _ hk)
  | expires hk hcall => exact absurd hcall (h.unasked _ _ hk)
  | follows hk hcall => exact absurd hcall (h.unasked _ _ hk)
  | beginsPull =>
    exact ⟨hlt, h.unasked, fun hover => (htouched (fun s => by split <;> rfl) hover).append rfl hsame⟩
  | leavesPull =>
    exact ⟨hlt, h.unasked, fun hover =>
      (htouched (fun s => by simp [RunStream.pulled]) hover).append rfl hsame⟩
  | @takes now s e rest hst hf hq =>
    refine ⟨hlt, h.unasked, fun hover => ?_⟩
    have hfin := hover _ (by rw [Table.get?_modify, if_pos rfl, hst, Option.map_some])
    simp only [RunStream.pulled, hf, Bool.false_or] at hfin
    have hleft := (hb.reads s hst hf).2.left_of_mem (hq ▸ List.mem_cons_self) hfin
    exact .inl (hleft.append rfl hsame)
  | @endsPull now s hst hend =>
    refine ⟨hlt, h.unasked, fun _ => ?_⟩
    cases hf : s.isFinished with
    | true => exact (h.parting_of_finished hst hf).append rfl hsame
    | false =>
      have hdry := hend.resolve_left (by simp [hf])
      exact .inl (((hb.reads s hst hf).2.left_of_isDry hdry).append rfl hsame)
  | @idles now s hst hf =>
    exact ⟨hlt, h.unasked, fun _ => (hb.reads s hst hf).2.parting hh rfl rfl⟩
  | @drops s hst =>
    refine ⟨hlt, h.unasked, fun _ => ?_⟩
    cases hf : s.isFinished with
    | true => exact (h.parting_of_finished hst hf).append rfl ((Deals.drops hst).commands_eq rfl)
    | false =>
      -- it has not been given the last event, so it tells the supervisor
      obtain ⟨hsaw, htied⟩ := hb.reads s hst hf
      exact htied.parting hh rfl (by simp [hsaw])

/-! ### From the beginning of a stream -/

/-- In a move somebody is given the stream of a number: a caller, with the answer to its call for a run, or a reader
that follows a run it knows. -/
inductive Obtains (c : Client) : Move → Nat → Prop where
  /-- A caller. -/
  | answered {now n : Nat} {ack : SendAck} {l : Nat} : (c.poll now n).1 = some (.ok (.run ack l)) →
      Obtains c (.poll now n) l
  /-- A reader. -/
  | subscribed {run : String} {l : Nat} : (c.subscribe run).1 = .ok l → Obtains c (.subscribe run) l

/-- A call that comes to a stream leaves it behind. -/
theorem exists_stream_of_conclude {purpose : Purpose} {a : Answer} {ack : SendAck}
    (h : (c.conclude purpose a).1 = .ok (.run ack l)) :
    ∃ s, (c.conclude purpose a).2.streams.get? l = some s ∧ s.isFinished = false := by
  have hlistener := listener_of_conclude h
  cases purpose with
  | run id timeout l' =>
    obtain rfl := Option.some.inj hlistener
    cases a with
    | error f => cases h
    | ok v =>
      simp only [conclude] at h ⊢
      cases hdecode : SendAck.decode v with
      | error e =>
        rw [hdecode] at h
        cases h
      | ok ack' => exact ⟨_, Table.get?_set_self _ _ _, rfl⟩
  | _ => cases hlistener

/-- A stream that somebody is given is there, and has not ended. -/
theorem Obtains.exists_stream (h : c.Obtains m l) :
    ∃ s, (c.move m).streams.get? l = some s ∧ s.isFinished = false := by
  cases h with
  | @answered now n ack l h =>
    have hpolls := polls_poll c now n
    show ∃ s, (c.poll now n).2.streams.get? l = some s ∧ s.isFinished = false
    generalize (c.poll now n).2 = c' at hpolls ⊢
    generalize hr : (c.poll now n).1 = r at hpolls
    rw [h] at hr
    cases hpolls with
    | nowhere => cases hr
    | waits => cases hr
    | answered =>
      injection hr with hr
      exact exists_stream_of_conclude hr.symm
    | @expired call =>
      obtain ⟨purpose, deadline⟩ := call
      cases purpose <;> cases hr
  | @subscribed run l h =>
    cases hr : c.isRunning with
    | false => simp [subscribe, hr] at h
    | true =>
      simp only [subscribe, hr, if_true, Except.ok.injEq] at h
      subst h
      refine ⟨⟨run, false, false, none⟩, ?_, rfl⟩
      simp only [Client.move, subscribe, hr, if_true, tell_eq]
      exact Table.get?_set_self _ _ _

/-- **The stream is over**: it was dropped, or has ended, or is going to end with what is in its mailbox. -/
def Over (c : Client) (l : Nat) : Prop := ∀ s, c.streams.get? l = some s →
  s.isFinished = true ∨ (∃ e ∈ (c.box l).queue, e.state.isTerminal = true) ∨ c.feeds l = false

/-- In the moves the supervisor takes all the commands that are in the queue, or stops. -/
def Clears (c : Client) (moves : List Move) : Prop :=
  c.commands.length ≤ (c.collect takes? moves).length ∨ (c.run moves).isRunning = false

end Client

section

variable {p : Profile} {before mid later : List Move} {m : Move} {l : Nat}

open Client

/-- From when somebody is given a stream, it is served until it is over. -/
theorem served_run (h : (Client.after p before).Obtains m l) (mid : List Move) :
    (Client.after p (before ++ m :: mid)).Served l := by
  induction mid using List.reverseRecOn with
  | nil =>
    obtain ⟨s, hs, hf⟩ := h.exists_stream
    rw [← after_concat] at hs
    have hhoused := housed_run p (before ++ [m])
    refine ⟨hhoused.streams l s hs, hhoused.unasked hs, fun hover => ?_⟩
    exact absurd (hf.symm.trans (hover s hs)) Bool.false_ne_true
  | append_singleton mid m' ih =>
    rw [← List.cons_append, ← List.append_assoc, after_concat]
    exact ih.move (bonds_run p _ l) (sound_run p _) (numbered_run p _) (halted_run p _) m'

/-- The listener of a stream that is over has left or is to leave. -/
theorem Client.Served.parting {c : Client} (h : c.Served l) (hb : c.Bonds l) (ho : c.Over l) : c.Parting l := by
  cases hs : c.streams.get? l with
  | none => exact h.parts fun s hs' => absurd (hs.symm.trans hs') (by simp)
  | some s =>
    cases hf : s.isFinished with
    | true => exact h.parting_of_finished hs hf
    | false =>
      have htied := (hb.reads s hs hf).2
      obtain hfin | ⟨e, he, ht⟩ | hfeeds := ho s hs
      · exact absurd (hf.symm.trans hfin) Bool.false_ne_true
      · exact .inl (htied.left_of_mem he ht)
      · exact .inl (htied.left_of_feeds hfeeds)

/-- **Nobody of a stream that is over is in the audience once the supervisor has taken what was in the queue**, nor
ever after. -/
theorem spares_of_over (h : (Client.after p before).Obtains m l)
    (ho : (Client.after p (before ++ m :: mid)).Over l) (hc : (Client.after p (before ++ m :: mid)).Clears later)
    (more : List Move) : (Client.after p (before ++ m :: mid ++ later ++ more)).connection.audience.Spares l := by
  have hserved := served_run h mid
  have hparts := (hserved.parting (bonds_run p _ l) ho).parts.run (sound_run p _) (numbered_run p _) hserved.given later
  have hstop := halted_run p (before ++ m :: mid ++ later)
  have hgiven := (served_run h (mid ++ later)).given
  rw [← List.cons_append, ← List.append_assoc] at hgiven
  rw [← run_append] at hparts
  have hleft : (Client.after p (before ++ m :: mid ++ later)).Left l := by
    obtain hc | hc := hc
    · rw [Nat.sub_eq_zero_of_le hc] at hparts
      exact hparts.left_of_zero
    · rw [← run_append] at hc
      exact (hstop hc).left l
  have hmore := hleft.run (sound_run p _) (numbered_run p _) hgiven more
  rw [← run_append] at hmore
  exact hmore.audience

end

/-! ### Streams that go on -/

namespace Audience

variable {a : Audience} {run : String} {l : Nat}

theorem mem_audienceAfter {r : Request} (h : (run, ⟨l, l⟩) ∈ a.members) (hr : r.Spares l) (env : Surroundings)
    (ok : Bool) (payload : Option Json) :
    (run, ⟨l, l⟩) ∈ (Connection.audienceAfter env r ok payload a).members := by
  unfold Connection.audienceAfter Connection.follow
  split
  · split
    · rename_i x run' hx _
      split
      · have hne := (hr x hx).1
        refine (mem_add_iff_of_ne ?_).2 ⟨h, fun hsame => hne hsame.2.2.symm⟩
        rintro ⟨⟩
        exact hne rfl
      · exact h
    · exact h
  · exact h

end Audience

namespace Client

variable {c : Client} {m : Move} {x : Cue} {run : String} {l : Nat}

/-- A listener that follows its run keeps its seat in every step of the supervisor, unless the run ends, or the
connection does. -/
theorem Tied.seat_of_handle (h : c.Tied run l) (hs : c.Sound) (hx : c.cue? m = some x)
    (hseat : (run, ⟨l, l⟩) ∈ c.connection.audience.members) :
    (run, ⟨l, l⟩) ∈ (c.outcome x).1.audience.members ∨
      (∃ e, heard? c.connection.epoch run c m = some e ∧ e.state.isTerminal = true) ∨
      (∃ fault, Ends (c.surroundings x.now x.freshId) c.connection x.input fault) ∨ x.input.isLast = true := by
  have ha := hs.acts hx
  have hcommands := h.spares_of_seated fun hspares => (hspares _ hseat).1 rfl
  generalize (c.outcome x).1 = c', (c.outcome x).2 = es at ha
  generalize hi : x.input = i at ha
  cases ha with
  | @listens run' y =>
    have hne := (hcommands _ (commands_of_cue? hx hi ▸ List.mem_cons_self) y rfl).1
    refine .inl ((Audience.mem_add_iff_of_ne ?_).2 ⟨hseat, fun hsame => hne hsame.2.2.symm⟩)
    rintro ⟨⟩
    exact hne rfl
  | @unlistens run' k =>
    refine .inl (Audience.mem_remove_iff.2 ⟨hseat, fun hown => h.unlisten run' ?_⟩)
    obtain ⟨-, rfl⟩ := hown
    exact commands_of_cue? hx hi ▸ List.mem_cons_self
  | answers _ _ hr => exact .inl (Audience.mem_audienceAfter hseat (h.requests _ (Table.mem_of_get? hr)) _ _ _)
  | @delivers t e ht =>
    by_cases hlast : run = e.runId ∧ e.state.isTerminal = true
    · obtain ⟨rfl, hterminal⟩ := hlast
      exact .inr (.inl ⟨e, by rw [heard?_of_chat hx hi ht, if_pos rfl, if_pos rfl], hterminal⟩)
    · refine .inl (Audience.mem_dispatch_iff.2 ⟨hseat, fun hrun => ⟨h.accepts, ?_⟩⟩)
      simpa [hrun] using hlast
  | ends he => exact .inr (.inr (.inl ⟨_, he⟩))
  | destroys => exact .inr (.inr (.inr rfl))
  | deserts => exact .inr (.inr (.inr rfl))
  | _ => exact .inl hseat

/-- **What a move means for the listener of a stream `s` that goes on.** -/
structure Undisturbed (c : Client) (l : Nat) (s : RunStream) (m : Move) : Prop where
  /-- Another stream is looked at, and may have taken too long, or is dropped: that is no business of it. -/
  readers : ∀ k, k ≠ l → m = .dropStream k ∨ (∃ now, m = .pull now k) → c.Apart l m (c.move m)
  /-- Another listener is let go: it has its seat as before, and its mailbox and its stream are untouched. -/
  unlistens : ∀ x run k, k ≠ l → c.cue? m = some x → x.input = .command (.unlisten run k) →
    (∀ run' y, y.id = l → ((run', y) ∈ (c.move m).connection.audience.members ↔
      (run', y) ∈ c.connection.audience.members)) ∧
    (c.move m).boxes = c.boxes ∧ (c.move m).streams = c.streams
  /-- Whatever the move is, it keeps its seat, unless the last event of its run is handled in it, or the connection is
  lost or the client shut down. -/
  seat : (s.run, ⟨l, l⟩) ∈ c.connection.audience.members →
    (s.run, ⟨l, l⟩) ∈ (c.move m).connection.audience.members ∨
    (∃ e, heard? c.connection.epoch s.run c m = some e ∧ e.state.isTerminal = true) ∨
    ∃ x, c.cue? m = some x ∧
      ((∃ fault, Ends (c.surroundings x.now x.freshId) c.connection x.input fault) ∨ x.input.isLast = true)

/-- Streams that go on are not disturbed. -/
theorem Bonds.undisturbed {s : RunStream} (h : c.Bonds l) (hs : c.Sound) (hn : c.Numbered) (ho : c.Housed)
    (hst : c.streams.get? l = some s) (hf : s.isFinished = false) (m : Move) : c.Undisturbed l s m := by
  have hdeals := deals_of_does hn (.inl (ho.streams l s hst)) (does_move c m)
  refine ⟨fun k hk hm => ?_, fun x run k hk hx hi => ?_, fun hseat => ?_⟩
  · generalize c.move m = c' at hdeals
    obtain rfl | ⟨now, rfl⟩ := hm
    · cases hdeals with
      | apart ha => exact ha
      | ends _ _ he => cases he
      | drops => exact absurd rfl hk
      | handles hx => cases hx
    · cases hdeals with
      | apart ha => exact ha
      | ends _ _ he => cases he
      | takes => exact absurd rfl hk
      | endsPull => exact absurd rfl hk
      | idles => exact absurd rfl hk
      | handles hx => cases hx
  · have hout : c.outcome x =
        ({ c.connection with audience := (c.connection.audience.remove run k).2 }, []) := by
      simp only [outcome, hi, Connection.handle, Connection.command]
    rw [move_of_cue? hx, handle_eq, hout]
    refine ⟨fun run' y hy => ?_, rfl, rfl⟩
    rw [Audience.mem_remove_iff, hy]
    exact and_iff_left fun hown => hk hown.2.symm
  · cases hx : c.cue? m with
    | none =>
      rw [connection_of_idle hx]
      exact .inl hseat
    | some x =>
      rw [connection_of_cue? hx]
      refine ((h.reads s hst hf).2.seat_of_handle hs hx hseat).imp_right fun hlost => hlost.imp_right fun hlost => ?_
      exact ⟨x, rfl, hlost⟩

end Client

/-! ### Every run -/

/-- **A listener leaves with its stream, and takes nobody along.** In every run of a client, let somebody be given a
stream, as the answer to its call for a run or as a follower of a run that it knows, and let the stream be dropped
later on, or be over: its reader has found the end, after the last event, after the end of the connection or after
waiting too long, or is going to find it behind what is in the mailbox. Once the supervisor has taken the commands that
are in the queue then, nobody of the stream's number is in the audience, and nobody ever comes to be, whatever else
happens. And as long as a stream goes on, it is not disturbed: others may drop their streams or wait too long, and
their listeners may be let go, from the same run, too. -/
theorem leaves_with_stream (p : Profile) :
    (∀ (before : List Move) (m : Move) (mid later more : List Move) (l : Nat),
      (Client.after p before).Obtains m l → (Client.after p (before ++ m :: mid)).Over l →
      (Client.after p (before ++ m :: mid)).Clears later →
      (Client.after p (before ++ m :: mid ++ later ++ more)).connection.audience.Spares l) ∧
    ∀ (moves : List Move) (m : Move) (l : Nat) (s : RunStream), (Client.after p moves).streams.get? l = some s →
      s.isFinished = false → (Client.after p moves).Undisturbed l s m :=
  ⟨fun _ _ _ _ more _ h ho hc => spares_of_over h ho hc more, fun moves m l _ hs hf =>
    (Client.bonds_run p moves l).undisturbed (Client.sound_run p moves) (Client.numbered_run p moves)
      (Client.housed_run p moves) hs hf m⟩

/-- Two readers follow a run, and the first goes away. -/
def followedTwice : List Move := [.subscribe "r-1", .subscribe "r-1", .takeCommand 0 "unused", .takeCommand 0 "unused",
  .dropStream 1]

/-- The first has its seat until the supervisor takes the command that it has left behind, and the second keeps its
own. -/
theorem leaves_with_stream_followedTwice :
    ((Client.after localProfile []).Obtains (.subscribe "r-1") 1 ∧
      (Client.after localProfile followedTwice).Over 1 ∧
      (Client.after localProfile followedTwice).Clears [.takeCommand 0 "unused"] ∧
      (Client.after localProfile followedTwice).connection.audience.members = [("r-1", ⟨1, 1⟩), ("r-1", ⟨2, 2⟩)] ∧
      (Client.after localProfile (followedTwice ++ [.takeCommand 0 "unused"])).connection.audience.Spares 1) ∧
    (Client.after localProfile followedTwice).streams.get? 2 = some ⟨"r-1", false, false, none⟩ ∧
    (Client.after localProfile followedTwice).Undisturbed 2 ⟨"r-1", false, false, none⟩ (.takeCommand 0 "unused") := by
  have hobtains : (Client.after localProfile []).Obtains (.subscribe "r-1") 1 := .subscribed rfl
  have hstate : (Client.after localProfile followedTwice).streams.get? 1 = none ∧
      (Client.after localProfile followedTwice).commands.length = 1 ∧
      ((Client.after localProfile followedTwice).collect Client.takes? [.takeCommand 0 "unused"]).length = 1 ∧
      (Client.after localProfile followedTwice).connection.audience.members = [("r-1", ⟨1, 1⟩), ("r-1", ⟨2, 2⟩)] ∧
      (Client.after localProfile followedTwice).streams.get? 2 = some ⟨"r-1", false, false, none⟩ := by decide +kernel
  obtain ⟨hdropped, hqueue, htaken, hseats, hstream⟩ := hstate
  have hover : (Client.after localProfile followedTwice).Over 1 := fun s hs => by
    rw [hdropped] at hs
    cases hs
  have hclears : (Client.after localProfile followedTwice).Clears [.takeCommand 0 "unused"] :=
    .inl (by rw [hqueue, htaken])
  refine ⟨⟨hobtains, hover, hclears, hseats, ?_⟩, hstream, (leaves_with_stream localProfile).2 _ _ 2 _ hstream rfl⟩
  have hspares := (leaves_with_stream localProfile).1 [] (.subscribe "r-1") followedTwice.tail
    [.takeCommand 0 "unused"] [] 1 hobtains hover hclears
  rwa [List.append_nil] at hspares

end TurnRelay.Gateway
