import TurnRelay.Proofs.Gateway.Agreement
import TurnRelay.Proofs.Gateway.Register
import TurnRelay.Proofs.Gateway.Shutdown

/-!
# A listener and its run

A stream is the reader's side of one run, and its listener follows that run and no other. The two are made in
different places. A call for a run learns the run's name from the gateway's answer, which the supervisor reads to give
the listener its seat and the caller reads to make the stream; a reader that follows a known run puts the name into its
stream and into a command. So where the listener stands agrees with what the stream says, although nothing compares
them: wherever the listener is, in the queue or in the audience, it is there for the run of its stream.

## The model

* `Audience.Ties` — nobody of a number follows another run than this one.
* `Client.Tied` — wherever the listener of a number is, it is there for one run.
* `Client.Bonds` — what is known of a number: its request is on its way, its answer has come, or it has a stream.

## What is proved

* `Tied.handle` — the supervisor keeps a listener tied to its run.
* `tied_of_answered` — the answer to a call ties its listener to the run that the caller is going to read from it.
* `bonds_run` — after every run, the listener of every stream that goes on is tied to the run of the stream.
-/

namespace TurnRelay.Gateway

open TurnRelay.Wire

/-! ### Ties in the audience -/

namespace Audience

/-- Nobody of the number follows another run than this one. -/
def Ties (a : Audience) (run : String) (l : Nat) : Prop :=
  ∀ m ∈ a.members, m.2.Spares l ∨ m = (run, ⟨l, l⟩)

variable {accepts : Nat → Bool} {a : Audience} {run run' : String} {l : Nat} {x : Listener} {e : RunEvent}

theorem Spares.ties (h : a.Spares l) : a.Ties run l := fun m hm => .inl (h m hm)

theorem Ties.filter (h : a.Ties run l) (keeps : String × Listener → Bool) :
    (⟨a.members.filter keeps⟩ : Audience).Ties run l := fun m hm => h m (List.mem_filter.1 hm).1

theorem Ties.remove (h : a.Ties run l) (run' : String) (k : Nat) : (a.remove run' k).2.Ties run l := h.filter _

theorem Ties.dispatch (h : a.Ties run l) (e : RunEvent) : (a.dispatch accepts e).2.Ties run l := by
  simp only [Audience.dispatch]
  split
  · exact (h.filter _).filter _
  · exact h.filter _

theorem Ties.add (h : a.Ties run l) (hx : x.Spares l ∨ (run', x) = (run, ⟨l, l⟩)) :
    (a.add accepts run' x).2.Ties run l := by
  unfold Audience.add
  split
  · intro m hm
    obtain hm | hm := List.mem_append.1 hm
    · exact h m (List.mem_filter.1 hm).1
    · rw [List.mem_singleton.1 hm]
      exact hx
  · exact h

theorem Ties.audienceAfter {r : Request} (h : a.Ties run l) (hr : r.Spares l) (env : Surroundings) (ok : Bool)
    (payload : Option Json) : (Connection.audienceAfter env r ok payload a).Ties run l := by
  unfold Connection.audienceAfter Connection.follow
  split
  · split
    · rename_i x run' hx _
      split
      · exact h.add (.inl (hr x hx))
      · exact h
    · exact h
  · exact h

/-- One that is let go from its run is gone. -/
theorem Ties.spares_remove (h : a.Ties run l) : (a.remove run l).2.Spares l := by
  rintro ⟨run', x⟩ hm
  obtain ⟨hm, hne⟩ := mem_remove_iff.1 hm
  obtain hspares | he := h _ hm
  · exact hspares
  · cases he
    exact absurd ⟨rfl, rfl⟩ hne

/-- An event that reaches one of the number is an event of its run. -/
theorem Ties.eq_of_reached (h : a.Ties run l) (hl : l ∈ (a.dispatch accepts e).1) : e.runId = run := by
  obtain ⟨m, hm, hrun, hbox⟩ := mem_of_reached hl
  obtain hspares | rfl := h m hm
  · exact absurd hbox hspares.2
  · exact hrun.symm

/-- After the last event of its run it is gone. -/
theorem Ties.spares_dispatch (h : a.Ties e.runId l) (ht : e.state.isTerminal = true) :
    (a.dispatch accepts e).2.Spares l := by
  rintro ⟨run, x⟩ hm
  obtain ⟨hm, hstays⟩ := mem_dispatch_iff.1 hm
  obtain hspares | he := h _ hm
  · exact hspares
  · cases he
    have hgoes := (hstays rfl).2
    rw [ht] at hgoes
    cases hgoes

/-- Whose mailbox is not held is not there. -/
theorem Ties.spares_of_holds (h : a.Ties run l) (hh : a.holds l = false) : a.Spares l := by
  intro m hm
  obtain hspares | rfl := h m hm
  · exact hspares
  · have hno := List.any_eq_false.1 hh _ hm
    simp at hno

end Audience

/-- The command brings the listener of the number to this run, if it brings it at all. -/
def Command.Ties (cmd : Command) (run : String) (l : Nat) : Prop := cmd.Spares l ∨ cmd = .listen run ⟨l, l⟩

theorem Command.Ties.of_listen {run run' : String} {l : Nat} {y : Listener} (h : (Command.listen run' y).Ties run l) :
    y.Spares l ∨ (run', y) = (run, ⟨l, l⟩) := by
  obtain hspares | hown := h
  · exact .inl (hspares y rfl)
  · cases hown
    exact .inr rfl

/-- Effects open and close no mailboxes. -/
theorem accepts_onBoxes (es : List Effect) (bs : Mailboxes) (box : Nat) :
    Mailboxes.accepts (es.foldl Effect.onBoxes bs) box = bs.accepts box := by
  induction es generalizing bs with
  | nil => rfl
  | cons e es ih =>
    rw [List.foldl_cons, ih]
    cases e with
    | deliver k e =>
      have hopen : ∀ b : Mailbox, (b.deliver e).isOpen = b.isOpen := fun b => by
        unfold Mailbox.deliver
        split <;> rfl
      simp only [Effect.onBoxes, Mailboxes.deliver, Mailboxes.accepts, Table.get?_modify]
      split
      · rename_i hk
        subst hk
        cases hb : bs.get? box with
        | none => rfl
        | some b => exact hopen b
      · rfl
    | _ => rfl

/-! ### A listener that is tied to its run -/

namespace Client

/-- **Wherever the listener of a number is, it is there for this run**, and it is not to be let go. -/
structure Tied (c : Client) (run : String) (l : Nat) : Prop where
  /-- No outstanding request brings it. -/
  requests : ∀ e ∈ c.connection.outstanding.entries, e.2.Spares l
  /-- Commands bring it to the run. -/
  commands : ∀ cmd ∈ c.commands, cmd.Ties run l
  /-- In the audience it follows the run. -/
  audience : c.connection.audience.Ties run l
  /-- A command that brings it finds it nowhere else. -/
  early : (∀ cmd ∈ c.commands, cmd.Spares l) ∨ c.Announced l
  /-- After the run's last event it follows the run no longer. -/
  ended : ∀ e ∈ (c.box l).queue, e.state.isTerminal = true → c.connection.audience.Spares l
  /-- Its mailbox takes new events. -/
  accepts : c.boxes.accepts l = true
  /-- No command lets it go. -/
  unlisten : ∀ run', .unlisten run' l ∉ c.commands

variable {c c' : Client} {m : Move} {x : Cue} {run : String} {l n : Nat}

/-- One whose mailbox is not empty is brought by no command. -/
theorem Tied.spares_of_mem {e : RunEvent} (h : c.Tied run l) (he : e ∈ (c.box l).queue) :
    ∀ cmd ∈ c.commands, cmd.Spares l := by
  obtain hspares | hannounced := h.early
  · exact hspares
  · rw [hannounced.box] at he
    cases he

/-- One that is in the audience is brought by no command. -/
theorem Tied.spares_of_seated (h : c.Tied run l) (hl : ¬ c.connection.audience.Spares l) :
    ∀ cmd ∈ c.commands, cmd.Spares l := h.early.resolve_right fun ha => hl ha.audience

/-- What is in the mailbox after a step of the supervisor was in it before, or is an event of the run; if it is the
last, nobody of the number is left in the audience. -/
theorem Tied.mail_of_handle {e : RunEvent} (h : c.Tied run l) (hs : c.Sound) (hx : c.cue? m = some x)
    (he : e ∈ ((c.handle x).box l).queue) : e ∈ (c.box l).queue ∨
      (e.state.isTerminal = true → (c.outcome x).1.audience.Spares l) := by
  have hst := hs.phase.stirs (hs.expects hx) (hs.acts hx)
  rw [Client.box, handle_eq] at he
  generalize (c.outcome x).1 = d, (c.outcome x).2 = es at hst he
  generalize x.input = i at hst
  cases hst with
  | calm hno =>
    rw [onBoxes_eq_self hno] at he
    exact .inl he
  | attempts hno =>
    rw [onBoxes_eq_self hno] at he
    exact .inl he
  | clears hno =>
    rw [onBoxes_eq_self hno] at he
    exact .inl he
  | listens => exact .inl he
  | unlistens => exact .inl he
  | admits => exact .inl he
  | @delivers t e' ht haud =>
    obtain ⟨es, hes, hall⟩ := exists_get?_onBoxes e' (c.connection.audience.dispatch
      (c.surroundings x.now x.freshId).accepts e').1 c.boxes l
    simp only [hes] at he
    cases hb : c.boxes.get? l with
    | none =>
      rw [hb] at he
      cases he
    | some b =>
      rw [hb] at he
      obtain he | he := List.mem_append.1 he
      · left
        rw [Client.box, hb]
        exact he
      · obtain ⟨rfl, hl⟩ := hall e he
        have hrun := h.audience.eq_of_reached hl
        subst hrun
        exact .inr fun hterminal => haud ▸ h.audience.spares_dispatch hterminal

/-- If what the supervisor takes brings the listener to the run only, it follows no other run. -/
theorem ties_of_input (hs : c.Sound) (hx : c.cue? m = some x)
    (hlisten : ∀ run' y, x.input = .command (.listen run' y) → y.Spares l ∨ (run', y) = (run, ⟨l, l⟩))
    (hrequests : ∀ e ∈ c.connection.outstanding.entries, e.2.Spares l) (ha : c.connection.audience.Ties run l) :
    (c.outcome x).1.audience.Ties run l := by
  have hst := hs.phase.stirs (hs.expects hx) (hs.acts hx)
  generalize (c.outcome x).1 = d, (c.outcome x).2 = es at hst
  generalize hi : x.input = i at hst
  cases hst with
  | calm _ he => exact he ▸ ha
  | attempts _ he => exact he ▸ ha
  | clears _ he => exact he ▸ (Audience.spares_empty l).ties
  | listens he => exact he ▸ ha.add (hlisten _ _ hi)
  | unlistens he => exact he ▸ ha.remove _ _
  | admits ht hr _ he => exact he ▸ ha.audienceAfter (hrequests _ (Table.mem_of_get? hr)) _ _ _
  | delivers ht he => exact he ▸ ha.dispatch _

/-- A step of the supervisor brings the listener to no other run. -/
theorem Tied.ties_of_handle (h : c.Tied run l) (hs : c.Sound) (hx : c.cue? m = some x) :
    (c.outcome x).1.audience.Ties run l :=
  ties_of_input hs hx (fun _ _ hi => (h.commands _ (commands_of_cue? hx hi ▸ List.mem_cons_self)).of_listen)
    h.requests h.audience

/-- **The supervisor keeps a listener tied to its run.** -/
theorem Tied.handle (h : c.Tied run l) (hs : c.Sound) (hx : c.cue? m = some x) : (c.handle x).Tied run l := by
  have hcmds : (c.handle x).commands = c.commandsAfter x.input := by rw [handle_eq]
  have hconn : (c.handle x).connection = (c.outcome x).1 := by rw [handle_eq]
  refine ⟨fun e he => ?_, fun cmd hm => ?_, hconn ▸ h.ties_of_handle hs hx, ?_, fun e he ht => ?_, ?_,
    fun run' hm => ?_⟩
  · obtain he | ⟨params, -, hm⟩ := request_of_handle hs hx (hconn ▸ he)
    · exact h.requests e he
    · obtain hspares | hown := h.commands _ hm
      · exact hspares
      · cases hown
  · exact h.commands cmd (mem_of_mem_commandsAfter (hcmds ▸ hm))
  · rw [hcmds]
    by_cases hm : .listen run ⟨l, l⟩ ∈ c.commandsAfter x.input
    · -- its command stays in the queue, so it is nowhere else
      have hannounced := h.early.resolve_left fun hspares =>
        (hspares _ (mem_of_mem_commandsAfter hm) _ rfl).1 rfl
      exact .inr (hannounced.handle hs hx hm)
    · refine .inl fun cmd hcmd => (h.commands cmd (mem_of_mem_commandsAfter hcmd)).resolve_right ?_
      rintro rfl
      exact hm hcmd
  · rw [hconn]
    obtain hold | hnew := h.mail_of_handle hs hx he
    · have hspares := h.spares_of_mem hold
      exact (spares_audience_of_handle hs hx (fun run' y hm => hspares _ hm y rfl)
        (fun _ _ _ _ _ _ _ _ hr => h.requests _ (Table.mem_of_get? hr)) (h.ended e hold ht)).1
    · exact hnew ht
  · rw [handle_eq]
    exact (accepts_onBoxes _ _ _).trans h.accepts
  · exact h.unlisten run' (mem_of_mem_commandsAfter (hcmds ▸ hm))

/-- Others leave a listener tied to its run, unless they close its mailbox or let it go. -/
theorem Tied.idle (h : c.Tied run l) (hn : c.Numbered) (hx : c.cue? m = none) (hd : Does c m c')
    (hcmds : ∃ cmds, c'.commands = c.commands ++ cmds ∧ ∀ cmd ∈ cmds, cmd.Spares l ∧ ∀ run, cmd ≠ .unlisten run l)
    (hmail : ∀ e ∈ (c'.box l).queue, e ∈ (c.box l).queue) (hopen : c'.boxes.accepts l = true) : c'.Tied run l := by
  have hconn := (idle_of_does hx hd).connection
  obtain ⟨cmds, hc, hnew⟩ := hcmds
  refine ⟨hconn ▸ h.requests, fun cmd hm => ?_, hconn ▸ h.audience, ?_,
    fun e he ht => hconn ▸ h.ended e (hmail e he) ht, hopen, fun run' hm => ?_⟩
  · rw [hc] at hm
    obtain hm | hm := List.mem_append.1 hm
    · exact h.commands cmd hm
    · exact .inl (hnew cmd hm).1
  · refine h.early.imp (fun hspares cmd hm => ?_) fun ha => ha.idle hn hx hd
    rw [hc] at hm
    obtain hm | hm := List.mem_append.1 hm
    · exact hspares cmd hm
    · exact (hnew cmd hm).1
  · rw [hc] at hm
    obtain hm | hm := List.mem_append.1 hm
    · exact h.unlisten run' hm
    · exact (hnew _ hm).2 run' rfl

/-! ### The answer ties -/

end Client

/-- What the supervisor takes for the name of the run is what the caller reads. -/
theorem eq_of_namedRun? {v : Json} {ack : SendAck} {run : String} (hd : v.HasDistinctNames)
    (hack : SendAck.decode v = .ok ack) (hrun : Connection.namedRun? v = some run) : run = ack.runId := by
  cases v with
  | object ms =>
    have hfound := ((decode_object_iff hd).1 hack).1
    rw [namedRun?_object_iff, hfound] at hrun
    injection hrun with hrun
    injection hrun with hrun
    exact hrun.symm
  | _ => cases hrun

/-- The listener of a call for a run is registered for the run that its caller reads, if for any. -/
theorem Audience.Spares.ties_of_answered {a : Audience} {l : Nat} {r : Request} {t id : String} {payload : Option Json}
    {error : Option Failure} {ack : SendAck} (h : a.Spares l) (hown : r.Spares l ∨ r.listener = some ⟨l, l⟩)
    (ht : Tidings.ofText t = .response id true payload error) (hack : SendAck.decode (payload.getD .null) = .ok ack)
    (env : Surroundings) : (Connection.audienceAfter env r true payload a).Ties ack.runId l := by
  obtain hspares | hlistener := hown
  · exact h.ties.audienceAfter hspares _ _ _
  · simp only [Connection.audienceAfter, if_true, Connection.follow, hlistener]
    cases hrun : Connection.namedRun? (payload.getD .null) with
    | none => exact h.ties
    | some run =>
      have hdistinct : (payload.getD .null).HasDistinctNames := by
        cases payload with
        | none => trivial
        | some w =>
          have hparse := Tidings.ofText_eq_response_iff.1 ht
          exact Frame.hasDistinctNames_of_parse? hparse w (by simp [Frame.freeForms])
      rw [eq_of_namedRun? hdistinct hack hrun]
      dsimp only
      split
      · exact h.ties.add (.inr rfl)
      · exact h.ties

/-- The success that a step tells a ticket is the answer to its request, or has nothing in it. -/
theorem Connection.success_of_acts {env : Surroundings} {p : Profile} {c c' : Connection} {i : Input}
    {es : List Effect} {n : Nat} {v : Json} (ha : Acts env p c i c' es) (h : .answer n (.ok v) ∈ es) :
    v = .null ∨ ∃ t id payload error r, i = .report c.epoch (.text t) ∧
      Tidings.ofText t = .response id true payload error ∧ c.phase = .connected ∧
      c.outstanding.get? id = some r ∧ r.ticket = n ∧ payload.getD .null = v := by
  have hfarewells : ∀ {fault : Fault}, .answer n (.ok v) ∉ c.farewells fault := by
    intro fault hm
    simp [farewells] at hm
  cases ha with
  | admits =>
    simp only [List.mem_singleton, Effect.answer.injEq, Except.ok.injEq] at h
    exact .inl h.2
  | enters =>
    simp only [List.mem_map, Effect.answer.injEq, Except.ok.injEq] at h
    obtain ⟨k, -, -, hv⟩ := h
    exact .inl hv.symm
  | destroys =>
    obtain h | h := List.mem_append.1 h
    · exact absurd h hfarewells
    · simp only [List.mem_singleton, Effect.answer.injEq, Except.ok.injEq] at h
      exact .inl h.2
  | @answers t id ok payload error r ht hp hr =>
    simp only [List.mem_singleton, Effect.answer.injEq] at h
    obtain ⟨hn, hv⟩ := h
    cases ok with
    | true =>
      refine .inr ⟨t, id, payload, error, r, rfl, ht, hp, hr, hn.symm, ?_⟩
      simp only [answerOf, if_true, Except.ok.injEq] at hv
      exact hv.symm
    | false => simp [answerOf] at hv
  | ends => exact absurd h hfarewells
  | deserts => exact absurd h hfarewells
  | _ => simp at h

namespace Client

variable {c c' : Client} {m : Move} {x : Cue} {run : String} {l n : Nat}

/-- Once the request of a call is outstanding no command brings its listener, and no other request. -/
theorem Asks.sent_of_request (h : c.Asks n l) (hsole : c.Sole n) {id : String} {r : Request}
    (hr : c.connection.outstanding.get? id = some r) (hn : r.ticket = n) :
    (∀ cmd ∈ c.commands, cmd.Spares l) ∧
      (∀ e ∈ c.connection.outstanding.entries, e.1 ≠ id → e.2.Spares l) ∧
      (r.Spares l ∨ r.listener = some ⟨l, l⟩) := by
  have hmem := Table.mem_of_get? hr
  have howes : c.connection.Owes n := .inr (Connection.mem_outstanding_tickets_iff.2 ⟨_, hmem, hn⟩)
  cases h.place with
  | queued hq =>
    exact absurd howes (hsole.apart ⟨_, hq ▸ List.mem_append_right _ List.mem_cons_self, rfl⟩)
  | sent id' hcmds hreqs =>
    refine ⟨hcmds, fun e he hne => ?_, (hreqs _ hmem).imp_right fun ho => ho.2.2⟩
    obtain hspares | ⟨-, hen, -⟩ := hreqs e he
    · exact hspares
    · exact absurd (hsole.oneName e he _ hmem hen hn) hne

/-- **The answer to a call ties its listener** to the run that the caller is going to read from it. -/
theorem tied_of_answered (h : c.Asks n l) (hsole : c.Sole n) (hs : c.Sound) (hx : c.cue? m = some x)
    (hw : c.tickets.get? n = some .waiting) {v : Json} (hm : .answer n (.ok v) ∈ (c.outcome x).2) {ack : SendAck}
    (hack : SendAck.decode v = .ok ack) : (c.handle x).Tied ack.runId l := by
  obtain rfl | ⟨t, id, payload, error, r, hi, ht, hp, hr, hn, rfl⟩ := Connection.success_of_acts (hs.acts hx) hm
  · cases hack
  · have hheld := h.held hw
    obtain ⟨hcmds, hothers, hown⟩ := h.sent_of_request hsole hr hn
    have ho : c.outcome x = ({ c.connection with
        outstanding := c.connection.outstanding.erase id
        audience := Connection.audienceAfter (c.surroundings x.now x.freshId) r true payload c.connection.audience },
        [.answer r.ticket (Connection.answerOf true payload error)]) := by
      simp only [outcome, hi, Connection.handle_of_response ht hp hr]
    have hties := h.audience.ties_of_answered hown ht hack (c.surroundings x.now x.freshId)
    have hafter : ∀ cmd ∈ (c.handle x).commands, cmd ∈ c.commands := by
      rw [handle_eq]
      exact fun cmd hcmd => mem_of_mem_commandsAfter hcmd
    have hbox : (c.handle x).boxes.get? l = some .new := by
      rw [handle_eq, ho]
      exact hheld.box
    have hconn : (c.handle x).connection = (c.outcome x).1 := by rw [handle_eq]
    refine ⟨fun e he => ?_, fun cmd hcmd => .inl (hcmds cmd (hafter cmd hcmd)), ?_,
      .inl fun cmd hcmd => hcmds cmd (hafter cmd hcmd), fun e he => ?_, ?_,
      fun run' hcmd => hheld.unlisten run' (hafter _ hcmd)⟩
    · rw [hconn, ho] at he
      obtain ⟨he, hne⟩ := Table.mem_erase.1 he
      exact hothers e he hne
    · rw [hconn, ho]
      exact hties
    · rw [Client.box, hbox] at he
      cases he
    · rw [Mailboxes.accepts, hbox]
      rfl

/-! ### From the call to the stream -/

/-- **What is known of the listener of a number**, from its call or its reader's command until its stream ends. -/
structure Bonds (c : Client) (l : Nat) : Prop where
  /-- While its caller waits, its request is on its way. -/
  asked : ∀ n call, c.calls.get? n = some call → call.purpose.listener? = some l →
    c.tickets.get? n = some .waiting → c.Asks n l
  /-- Once its caller is answered, it is tied to the run that the caller is going to read. -/
  answered : ∀ n call v ack, c.calls.get? n = some call → call.purpose.listener? = some l →
    c.tickets.get? n = some (.answered (.ok v)) → SendAck.decode v = .ok ack → c.Tied ack.runId l
  /-- While its stream goes on, it is tied to the stream's run. -/
  reads : ∀ s, c.streams.get? l = some s → s.isFinished = false → s.sawTerminal = false ∧ c.Tied s.run l

/-- A number of which nothing is known. -/
theorem Fresh.bonds (h : c.Fresh l) : c.Bonds l where
  asked n call hn hcall := absurd hcall (h.calls n call hn)
  answered n call v ack hn hcall := absurd hcall (h.calls n call hn)
  reads s hs := by
    rw [h.streams] at hs
    cases hs

/-- The supervisor keeps what is known of a listener. -/
theorem Bonds.handle (h : c.Bonds l) (hs : c.Sound) (hsole : ∀ n, c.Sole n) (hx : c.cue? m = some x) :
    (c.handle x).Bonds l := by
  have hcalls : (c.handle x).calls = c.calls := by rw [handle_eq]
  have hstreams : (c.handle x).streams = c.streams := by rw [handle_eq]
  have htickets : (c.handle x).tickets = (c.outcome x).2.foldl Effect.onTickets c.tickets := by rw [handle_eq]
  refine ⟨fun n call hn hcall hw => ?_, fun n call v ack hn hcall hans hack => ?_, fun s hst hf => ?_⟩
  · rw [hcalls] at hn
    rw [htickets] at hw
    obtain ⟨hw, hno⟩ := waiting_of_onTickets hw
    have hasks := h.asked n call hn hcall hw
    refine hasks.handle_of_spares hs hx fun t id ok payload error r hi ht hr => ?_
    -- its own request is not answered, as its caller still waits
    by_contra hown
    have hmem := Table.mem_of_get? hr
    obtain ⟨rfl, -⟩ := hasks.place.own_of_mem hmem hown
    refine hno (Connection.answerOf ok payload error) ?_
    simp only [outcome, hi, Connection.handle_of_response ht (hs.phase.connected_of_mem hmem) hr,
      List.mem_singleton]
  · rw [hcalls] at hn
    rw [htickets] at hans
    obtain hans | ⟨hw, hm⟩ := answered_of_onTickets hans
    · exact (h.answered n call v ack hn hcall hans hack).handle hs hx
    · exact tied_of_answered (h.asked n call hn hcall hw) (hsole n) hs hx hw hm hack
  · rw [hstreams] at hst
    exact (h.reads s hst hf).imp_right fun ht => ht.handle hs hx

/-- No call for a listener comes into being once the listener is there. -/
theorem Deals.call_of_get? (hd : Deals c l m c') (hx : c.cue? m = none) {call : Call}
    (hcall : call.purpose.listener? = some l) (hn : c'.calls.get? n = some call) : c.calls.get? n = some call := by
  cases hd with
  | apart ha => exact (ha.calls n call hcall).1 hn
  | ends => exact Table.get?_of_erase hn
  | expires => exact Table.get?_of_erase hn
  | follows => exact Table.get?_of_erase hn
  | handles hx' =>
    rw [hx] at hx'
    cases hx'
  | _ => exact hn

/-- Others who touch neither its mailbox nor the commands leave a listener tied to its run. -/
theorem Tied.same (h : c.Tied run l) (hn : c.Numbered) (hx : c.cue? m = none) (hd : Does c m c')
    (hcmds : c'.commands = c.commands) (hboxes : c'.boxes = c.boxes) : c'.Tied run l := by
  refine h.idle hn hx hd ?_ (fun e he => ?_) (hboxes ▸ h.accepts)
  · rw [hcmds]
    exact appended_self c l
  · rw [Client.box, hboxes] at he
    exact he

/-- A stream comes into being for a listener that is tied to its run. -/
theorem Bonds.tied_of_opened {s : RunStream} (h : c.Bonds l) (hn : c.Numbered) (hx : c.cue? m = none)
    (hd : Does c m c') (hl : l < c.nextListener) (hnone : c.streams.get? l = none)
    (hs : c'.streams.get? l = some s) : s.sawTerminal = false ∧ c'.Tied s.run l := by
  have hmodify : ∀ {k : Nat} {f : RunStream → RunStream}, (c.streams.modify k f).get? l ≠ some s := by
    intro k f hk
    rw [get?_modify_eq_none hnone] at hk
    cases hk
  have hold := hd
  cases hd with
  | @follows now n l' call v ack hcall ht hlistener hack =>
    by_cases hl' : l = l'
    · subst hl'
      rw [Table.get?_set_self] at hs
      cases hs
      exact ⟨rfl, (h.answered n call v ack hcall hlistener ht hack).same hn hx hold rfl rfl⟩
    · rw [Table.get?_set_of_ne _ _ hl', hnone] at hs
      cases hs
  | subscribes =>
    rw [Table.get?_set_of_ne _ _ (Nat.ne_of_lt hl), hnone] at hs
    cases hs
  | beginsPull => exact absurd hs hmodify
  | leavesPull => exact absurd hs hmodify
  | takes => exact absurd hs hmodify
  | endsPull => exact absurd hs hmodify
  | idles => exact absurd hs hmodify
  | drops =>
    rw [Table.get?_of_erase hs] at hnone
    cases hnone
  | handles hx' =>
    rw [hx] at hx'
    cases hx'
  | _ => exact absurd (hnone.symm.trans hs) (by simp)

/-- Somebody waits for the listener's events: its caller, or the reader of its stream. -/
def Awaited (c : Client) (l : Nat) : Prop :=
  (∃ n call, c.calls.get? n = some call ∧ call.purpose.listener? = some l) ∨
    ∃ s, c.streams.get? l = some s ∧ s.isFinished = false

/-- As long as somebody waits for its events, others leave a listener tied to its run. -/
theorem Tied.deals (h : c.Tied run l) (hn : c.Numbered) (ho : c.Housed) (hx : c.cue? m = none) (hd : Does c m c')
    (hdeals : Deals c l m c') (ha : c'.Awaited l) : c'.Tied run l := by
  cases hdeals with
  | apart hapart =>
    refine h.idle hn hx hd hapart.commands (fun e he => ?_) ?_
    · rw [Client.box, hapart.boxes] at he
      exact he
    · rw [Mailboxes.accepts, hapart.boxes]
      exact h.accepts
  | @ends _ k call hk hcall =>
    obtain ⟨j, call', hj, hcall'⟩ | ⟨s, hs, -⟩ := ha
    · exact absurd hcall' (unasked_of_erase ho hk hcall j call' hj)
    · exact absurd ((ho.calls k call l hk hcall).2.1.symm.trans hs) (by simp)
  | @expires _ k call _ hk hcall =>
    obtain ⟨j, call', hj, hcall'⟩ | ⟨s, hs, -⟩ := ha
    · exact absurd hcall' (unasked_of_erase ho hk hcall j call' hj)
    · exact absurd ((ho.calls k call l hk hcall).2.1.symm.trans hs) (by simp)
  | follows => exact h.same hn hx hd rfl rfl
  | beginsPull => exact h.same hn hx hd rfl rfl
  | leavesPull => exact h.same hn hx hd rfl rfl
  | endsPull => exact h.same hn hx hd rfl rfl
  | takes hs hf hq =>
    have hopen := h.accepts
    refine h.idle hn hx hd (appended_self c l) (fun e he => ?_) ?_
    · rw [Client.box, Table.get?_set_self] at he
      rw [hq]
      exact List.mem_cons_of_mem _ he
    · obtain ⟨b, hb, hopen⟩ := (Option.any_eq_true _ _).1 hopen
      simp [Mailboxes.accepts, Table.get?_set_self, Client.box, hb, hopen]
  | idles hs =>
    obtain ⟨j, call', hj, hcall'⟩ | ⟨s', hs', hf'⟩ := ha
    · exact absurd hcall' (ho.unasked hs j call' hj)
    · rw [Table.get?_modify, if_pos rfl, hs] at hs'
      cases hs'
      simp [RunStream.pulled] at hf'
  | drops hs =>
    obtain ⟨j, call', hj, hcall'⟩ | ⟨s', hs', -⟩ := ha
    · exact absurd hcall' (ho.unasked hs j call' hj)
    · rw [Table.get?_erase_self] at hs'
      cases hs'
  | handles hx' =>
    rw [hx] at hx'
    cases hx'

/-- What a stream that goes on was before. -/
theorem Deals.stream_of_get? {s s' : RunStream} (hd : Deals c l m c') (hx : c.cue? m = none)
    (hs : c.streams.get? l = some s) (hs' : c'.streams.get? l = some s') (hf : s'.isFinished = false)
    (ho : c.Housed) : s.isFinished = false ∧ s'.run = s.run ∧ s'.sawTerminal = s.sawTerminal := by
  -- a look that does not end the stream, or none
  have hpulled : ∀ {b t : Bool}, (c.streams.modify l (RunStream.pulled b t)).get? l = some s' →
      (b = false → t = false) → s.isFinished = false ∧ s'.run = s.run ∧ s'.sawTerminal = s.sawTerminal := by
    intro b t hp ht
    rw [Table.get?_modify, if_pos rfl, hs] at hp
    cases hp
    simp only [RunStream.pulled, Bool.or_eq_false_iff] at hf
    simp [RunStream.pulled, hf.1, ht hf.2]
  have hsame : s' = s → s.isFinished = false ∧ s'.run = s.run ∧ s'.sawTerminal = s.sawTerminal := by
    rintro rfl
    exact ⟨hf, rfl, rfl⟩
  cases hd with
  | apart ha => exact hsame (Option.some.inj (hs'.symm.trans (ha.streams.trans hs)))
  | ends => exact hsame (Option.some.inj (hs'.symm.trans hs))
  | expires => exact hsame (Option.some.inj (hs'.symm.trans hs))
  | follows hk hcall => exact absurd hcall (ho.unasked hs _ _ hk)
  | beginsPull =>
    simp only [beginPull, Table.get?_modify, if_true, hs, Option.map_some, Option.some.injEq] at hs'
    split at hs'
    · exact hsame hs'.symm
    · subst hs'
      exact ⟨hf, rfl, rfl⟩
  | leavesPull => exact hpulled hs' fun _ => rfl
  | takes => exact hpulled hs' id
  | endsPull => exact hpulled hs' fun h => by cases h
  | idles => exact hpulled hs' fun h => by cases h
  | drops =>
    rw [Table.get?_erase_self] at hs'
    cases hs'
  | handles hx' =>
    rw [hx] at hx'
    cases hx'

/-- Others than the supervisor keep what is known of a listener. -/
theorem Bonds.idle (h : c.Bonds l) (hn : c.Numbered) (ho : c.Housed) (hx : c.cue? m = none) (hd : Does c m c')
    (hl : l < c.nextListener) : c'.Bonds l := by
  have hdeals := deals_of_does hn (.inl hl) hd
  have hi := idle_of_does hx hd
  -- the ticket of a call that was there was given before
  have hticket : ∀ {n t call}, c.calls.get? n = some call → c'.tickets.get? n = some t →
      c.tickets.get? n = some t := fun hcall ht =>
    (hi.tickets _ _ ht).resolve_right fun hnew => absurd (hn _ _ hcall) (by omega)
  refine ⟨fun n call hcall hlistener hw => ?_, fun n call v ack hcall hlistener hans hack => ?_,
    fun s' hs' hf => ?_⟩
  · have hold := hdeals.call_of_get? hx hlistener hcall
    exact (h.asked n call hold hlistener (hticket hold hw)).idle hn hx hd
  · have hold := hdeals.call_of_get? hx hlistener hcall
    exact (h.answered n call v ack hold hlistener (hticket hold hans) hack).deals hn ho hx hd hdeals
      (.inl ⟨n, call, hcall, hlistener⟩)
  · cases hs : c.streams.get? l with
    | none => exact h.tied_of_opened hn hx hd hl hs hs'
    | some s =>
      obtain ⟨hf', hrun, hsaw⟩ := hdeals.stream_of_get? hx hs hs' hf ho
      obtain ⟨hsaw', htied⟩ := h.reads s hs hf'
      rw [hrun, hsaw]
      exact ⟨hsaw', htied.deals hn ho hx hd hdeals (.inr ⟨s', hs', hf⟩)⟩

/-- What is known of a number as it is given. -/
theorem Fresh.bonds_of_does (h : c.Fresh c.nextListener) (hd : Does c m c')
    (hlt : c.nextListener < c'.nextListener) : c'.Bonds c.nextListener := by
  cases hd with
  | sends =>
    have hnew : ∀ {new : Call} n call, (c.calls.set c.nextTicket new).get? n = some call →
        call.purpose.listener? = some c.nextListener → n = c.nextTicket := by
      intro new n call hn hcall
      rw [Table.get?_set] at hn
      split at hn
      · rename_i he
        exact he
      · exact absurd hcall (h.calls n call hn)
    refine ⟨fun n call hn hcall _ => ?_, fun n call v ack hn hcall hans => ?_, fun s hs => ?_⟩
    · obtain rfl := hnew n call hn hcall
      exact h.asks rfl rfl rfl rfl rfl rfl rfl rfl
    · obtain rfl := hnew n call hn hcall
      rw [Table.get?_set_self] at hans
      cases hans
    · exact absurd (h.streams.symm.trans hs) (by simp)
  | @subscribes run hrun =>
    refine ⟨fun n call hn hcall => absurd hcall (h.calls n call hn),
      fun n call v ack hn hcall => absurd hcall (h.calls n call hn), fun s hs _ => ?_⟩
    have hannounced := @Fresh.announced _ run h hrun
    rw [Table.get?_set_self] at hs
    cases hs
    refine ⟨rfl, h.requests, fun cmd hm => ?_, h.audience.ties, .inr hannounced, fun e he => ?_, ?_,
      fun run' hm => ?_⟩
    · obtain hm | rfl := mem_told hm
      · exact .inl (h.commands cmd hm)
      · exact .inr rfl
    · rw [hannounced.box] at he
      cases he
    · simp [Mailboxes.accepts, Table.get?_set_self, Mailbox.new]
    · obtain hm | he := mem_told hm
      · exact h.unlisten run' hm
      · cases he
  | misses =>
    have hfresh : ({ c with nextListener := c.nextListener + 1 } : Client).Fresh c.nextListener :=
      ⟨h.commands, h.unlisten, h.requests, h.audience, h.calls, h.streams⟩
    exact hfresh.bonds
  | handles =>
    rw [handle_eq] at hlt
    exact absurd hlt (Nat.lt_irrefl _)
  | _ => exact absurd hlt (Nat.lt_irrefl _)

/-- One number is given at a time. -/
theorem nextListener_le_succ_of_does (hd : Does c m c') : c'.nextListener ≤ c.nextListener + 1 := by
  cases hd with
  | sends => exact Nat.le_refl _
  | subscribes => exact Nat.le_refl _
  | misses => exact Nat.le_refl _
  | handles =>
    rw [handle_eq]
    exact Nat.le_succ _
  | _ => exact Nat.le_succ _

theorem bonds_new (p : Profile) (l : Nat) : (Client.new p).Bonds l where
  asked _ _ hn := by cases hn
  answered _ _ _ _ hn := by cases hn
  reads _ hs := by cases hs

/-- **What is known of every listener**, after every run. -/
theorem bonds_run (p : Profile) (moves : List Move) (l : Nat) : (Client.after p moves).Bonds l := by
  refine run_induction (P := fun _ c => c.Bonds l) (bonds_new p l) (fun moves m h => ?_) moves
  have hd := does_move (Client.after p moves) m
  cases hx : (Client.after p moves).cue? m with
  | some x =>
    rw [move_of_cue? hx]
    exact h.handle (sound_run p moves) (sole_run p moves) hx
  | none =>
    obtain hl | hl := Nat.lt_or_ge l (Client.after p moves).nextListener
    · exact h.idle (numbered_run p moves) (housed_run p moves) hx hd hl
    · obtain hl' | hl' := Nat.lt_or_ge l ((Client.after p moves).move m).nextListener
      · have hle := nextListener_le_succ_of_does hd
        obtain rfl : l = (Client.after p moves).nextListener := by omega
        exact (fresh_run p moves _ (Nat.le_refl _)).bonds_of_does hd hl'
      · have hfresh := fresh_run p (moves ++ [m]) l
        rw [run_concat] at hfresh
        exact (hfresh hl').bonds

end Client

end TurnRelay.Gateway
