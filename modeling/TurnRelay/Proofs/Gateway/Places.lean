import TurnRelay.Proofs.Gateway.Following
import TurnRelay.Proofs.Gateway.Waiting

/-!
# One place for a ticket, one for a listener

A ticket is given with a call, and its number travels with the call's command: it is in the queue, then among
those who wait for the connection or with an outstanding request, and then it is answered. A listener's number
travels likewise, with a request or by itself, and has a mailbox all the while. Nothing is ever in two of these
places, whatever the names of the requests are.

## What is proved

* `sole_run` — a ticket is in one place only, and is not answered while it is in any.
* `housed_run` — a listener is brought by one call under way or has a stream, not both.
* `announced_run` — one who is yet to be seated as a follower of a run has an empty mailbox.
-/

namespace TurnRelay.Gateway

/-- The ticket of the command that is taken. -/
def Input.ticket? : Input → Option Nat
  | .command cmd => cmd.ticket?
  | _ => none

/-! ### Whom the connection owes an answer -/

namespace Connection

/-- Somebody waits for the connection with the ticket, or a request of it is outstanding. -/
def Owes (c : Connection) (n : Nat) : Prop := n ∈ c.waiters ∨ n ∈ c.outstanding.tickets

/-- The outstanding requests of the ticket go by one name. -/
def OneName (c : Connection) (n : Nat) : Prop :=
  ∀ e ∈ c.outstanding.entries, ∀ e' ∈ c.outstanding.entries, e.2.ticket = n → e'.2.ticket = n → e.1 = e'.1

theorem mem_outstanding_tickets_iff {o : Outstanding} {n : Nat} :
    n ∈ o.tickets ↔ ∃ e ∈ o.entries, e.2.ticket = n := by
  simp [Outstanding.tickets, Table.values]

variable {env : Surroundings} {p : Profile} {c c' : Connection} {i : Input} {es : List Effect} {n : Nat}
  {a : Answer}

/-- A request that is outstanding after a step was so before, or is that of the command that was taken. -/
theorem InPhase.entry_of_acts {e : String × Request} (h : c.InPhase) (hx : c.Expects i)
    (ha : Acts env p c i c' es) (he : e ∈ c'.outstanding.entries) : e ∈ c.outstanding.entries ∨
      ∃ params, i = .command (.request e.1 e.2.method params e.2.ticket e.2.listener) := by
  rcases (h.mem_outstanding_of_acts hx ha he).2 with he | ⟨params, -, hi, -⟩
  · exact .inl he
  · exact .inr ⟨params, hi⟩

theorem InPhase.owes_of_acts (h : c.InPhase) (hx : c.Expects i) (ha : Acts env p c i c' es)
    (ho : c'.Owes n) : c.Owes n ∨ i.ticket? = some n := by
  rcases ho with hw | hn
  · rcases mem_waiters_of_acts ha hw with hw | rfl
    · exact .inl (.inl hw)
    · exact .inr rfl
  · obtain ⟨e, he, rfl⟩ := mem_outstanding_tickets_iff.1 hn
    rcases h.entry_of_acts hx ha he with he | ⟨params, rfl⟩
    · exact .inl (.inr (mem_outstanding_tickets_iff.2 ⟨e, he, rfl⟩))
    · exact .inr rfl

/-- Whom a step answers the connection owed it, or the command is the caller's that is taken. -/
theorem owes_of_answer (ha : Acts env p c i c' es) (hm : .answer n a ∈ es) :
    c.Owes n ∨ i.ticket? = some n := by
  cases replies_of_acts ha hm with
  | other ho =>
    rcases ho with hw | rfl | rfl
    · exact .inl (.inl hw)
    · exact .inr rfl
    · exact .inr rfl
  | socketGone => exact .inr rfl
  | unconnected => exact .inr rfl
  | response ht hp hr hn =>
    exact .inl (.inr (mem_outstanding_tickets_iff.2 ⟨_, Table.mem_of_get? hr, hn⟩))
  | cut he hn => exact .inl (.inr (mem_outstanding_tickets_iff.2 ⟨_, he, hn⟩))

/-- The connection owes those nothing whom a step has answered. -/
theorem InPhase.not_owes_of_answer (h : c.InPhase) (ha : Acts env p c i c' es) (hone : c.OneName n)
    (hfree : i.ticket? = some n → ¬ c.Owes n) (hm : .answer n a ∈ es) : ¬ c'.Owes n := by
  have hcommand : ∀ {k : Nat} {b : Answer}, i.ticket? = some k → .answer n a ∈ [Effect.answer k b] →
      ¬ c.Owes n := by
    intro k b hk hm
    obtain ⟨rfl, -⟩ := Effect.answer.inj (List.mem_singleton.1 hm)
    exact hfree hk
  have hcleared : ¬ c.cleared.Owes n := by
    rintro (hn | hn) <;> cases hn
  cases ha with
  | admits => exact hcommand rfl hm
  | unsent => exact hcommand rfl hm
  | unconnected => exact hcommand rfl hm
  | enters ht hp =>
    rintro (hn | hn)
    · cases hn
    · exact h.outstanding_eq_empty hp hn
  | @answers t id ok payload error r ht hp hr =>
    obtain ⟨rfl, -⟩ := Effect.answer.inj (List.mem_singleton.1 hm)
    rintro (hn | hn)
    · have hw : r.ticket ∈ c.waiters := hn
      rw [(h.isUp hp).waiters] at hw
      cases hw
    · -- the only name of the ticket has been erased
      obtain ⟨e, he, hen⟩ := mem_outstanding_tickets_iff.1 hn
      obtain ⟨he, hne⟩ := Table.mem_erase.1 he
      exact hne (hone e he _ (Table.mem_of_get? hr) hen rfl)
  | ends => exact hcleared
  | destroys => exact hcleared
  | deserts => exact hcleared
  | _ => simp at hm

theorem InPhase.oneName_of_acts (h : c.InPhase) (hx : c.Expects i) (ha : Acts env p c i c' es)
    (hone : c.OneName n) (hfree : i.ticket? = some n → ¬ c.Owes n) : c'.OneName n := by
  have hclash : ∀ {e e' : String × Request} {params : Json}, e ∈ c.outstanding.entries → e.2.ticket = n →
      i = .command (.request e'.1 e'.2.method params e'.2.ticket e'.2.listener) → e'.2.ticket = n →
      e.1 = e'.1 := by
    rintro e e' params he hen rfl rfl
    exact absurd (.inr (mem_outstanding_tickets_iff.2 ⟨e, he, hen⟩)) (hfree rfl)
  intro e he e' he' hen hen'
  rcases h.entry_of_acts hx ha he with he | ⟨params, hi⟩
  · rcases h.entry_of_acts hx ha he' with he' | ⟨params', hi'⟩
    · exact hone e he e' he' hen hen'
    · exact hclash he hen hi' hen'
  · rcases h.entry_of_acts hx ha he' with he' | ⟨params', hi'⟩
    · exact (hclash he' hen' hi hen).symm
    · rw [hi] at hi'
      injection hi' with hi'
      injection hi'

end Connection

/-! ### A ticket is in one place -/

namespace Client

variable {c c' : Client} {m : Move} {x : Cue} {n : Nat}

/-- A command in the queue has the ticket. -/
def Bears (c : Client) (n : Nat) : Prop := ∃ cmd ∈ c.commands, cmd.ticket? = some n

/-- The number of commands in the queue that have the ticket. -/
def bearers (c : Client) (n : Nat) : Nat := c.commands.countP fun cmd => decide (cmd.ticket? = some n)

/-- **A ticket is in one place only**, and is not answered while it is in any. -/
structure Sole (c : Client) (n : Nat) : Prop where
  /-- One command has it. -/
  queued : c.bearers n ≤ 1
  /-- What is in the queue is not with the connection. -/
  apart : c.Bears n → ¬ c.connection.Owes n
  /-- One request has it. -/
  oneName : c.connection.OneName n
  /-- It is not answered yet. -/
  unanswered : c.Bears n ∨ c.connection.Owes n → ∀ a, c.tickets.get? n ≠ some (.answered a)
  /-- What is answered was given. -/
  old : ∀ a, c.tickets.get? n = some (.answered a) → n < c.nextTicket

theorem sole_new (p : Profile) (n : Nat) : (Client.new p).Sole n := by
  refine ⟨Nat.zero_le _, ?_, ?_, ?_, fun a h => nomatch h⟩
  · rintro ⟨cmd, hm, -⟩
    cases hm
  · intro e he
    cases he
  · intro _ a h
    cases h

theorem bearers_told (cmd : Command) (n : Nat) : (c.told cmd).countP (fun x => decide (x.ticket? = some n)) ≤
    c.bearers n + if cmd.ticket? = some n then 1 else 0 := by
  unfold told bearers
  split
  · rw [List.countP_append, List.countP_singleton]
    simp
  · exact Nat.le_add_right _ _

theorem bearers_eq_zero (h : ¬ c.Bears n) : c.bearers n = 0 := by
  refine List.countP_eq_zero.2 fun cmd hcmd hn => h ⟨cmd, hcmd, ?_⟩
  simpa using hn

/-- The command of a ticket that is taken was the only one in the queue. -/
theorem Sole.not_mem_tail (h : c.Sole n) {cmd : Command} (hx : c.cue? m = some x)
    (hi : x.input = .command cmd) (hn : cmd.ticket? = some n) :
    ∀ cmd' ∈ c.commands.tail, cmd'.ticket? ≠ some n := by
  intro cmd' hcmd' hn'
  have hq := h.queued
  unfold bearers at hq
  rw [commands_of_cue? hx hi, List.countP_cons_of_pos (by simpa using hn)] at hq
  have hpos : 0 < c.commands.tail.countP fun cmd => decide (cmd.ticket? = some n) :=
    List.countP_pos_iff.2 ⟨cmd', hcmd', decide_eq_true hn'⟩
  omega

/-- Once the command of a ticket is taken, none is left in the queue. -/
theorem Sole.not_bears_commandsAfter (h : c.Sole n) (hx : c.cue? m = some x) (hn : x.input.ticket? = some n) :
    c.Bears n ∧ ∀ cmd ∈ c.commandsAfter x.input, cmd.ticket? ≠ some n := by
  cases hi : x.input with
  | command cmd =>
    have hn : cmd.ticket? = some n := by
      rw [hi] at hn
      exact hn
    refine ⟨⟨cmd, commands_of_cue? hx hi ▸ List.mem_cons_self, hn⟩, fun cmd' hcmd' => ?_⟩
    cases hl : (Input.command cmd).isLast with
    | true =>
      rw [commandsAfter_of_isLast hl] at hcmd'
      cases hcmd'
    | false =>
      rw [commandsAfter_command hl] at hcmd'
      exact h.not_mem_tail hx hi hn cmd' hcmd'
  | _ =>
    rw [hi] at hn
    cases hn

theorem Sole.handle (h : c.Sole n) (hissued : c.Issued) (hs : c.Sound) (hx : c.cue? m = some x) :
    (c.handle x).Sole n := by
  have ha := hs.acts hx
  have hfree : x.input.ticket? = some n → ¬ c.connection.Owes n := fun hn =>
    h.apart (h.not_bears_commandsAfter hx hn).1
  have howes : (c.outcome x).1.Owes n → c.connection.Owes n ∨ x.input.ticket? = some n :=
    hs.phase.owes_of_acts (hs.expects hx) ha
  have hwhere : c.Bears n ∨ c.connection.Owes n → ∀ a, c.tickets.get? n ≠ some (.answered a) := h.unanswered
  -- what stays in the queue was in it, and the command that is taken is another
  have hstays : ∀ cmd ∈ c.commandsAfter x.input, cmd.ticket? = some n →
      c.Bears n ∧ x.input.ticket? ≠ some n := by
    intro cmd hcmd hn
    refine ⟨⟨cmd, mem_of_mem_commandsAfter hcmd, hn⟩, fun ht => ?_⟩
    exact (h.not_bears_commandsAfter hx ht).2 cmd hcmd hn
  rw [handle_eq]
  refine ⟨Nat.le_trans ((c.commandsAfter_suffix _).sublist.countP_le) h.queued, ?_,
    hs.phase.oneName_of_acts (hs.expects hx) ha h.oneName hfree, fun hin a hans => ?_, fun a hans => ?_⟩
  · rintro ⟨cmd, hcmd, hn⟩ ho
    obtain ⟨hb, ht⟩ := hstays cmd hcmd hn
    rcases howes ho with ho | ht'
    · exact h.apart hb ho
    · exact ht ht'
  · rcases answered_of_onTickets hans with hans | ⟨-, hm⟩
    · rcases hin with ⟨cmd, hcmd, hn⟩ | ho
      · exact hwhere (.inl (hstays cmd hcmd hn).1) a hans
      · rcases howes ho with ho | ht
        · exact hwhere (.inr ho) a hans
        · exact hwhere (.inl (h.not_bears_commandsAfter hx ht).1) a hans
    · rcases hin with ⟨cmd, hcmd, hn⟩ | ho
      · obtain ⟨hb, ht⟩ := hstays cmd hcmd hn
        rcases Connection.owes_of_answer ha hm with ho | ht'
        · exact h.apart hb ho
        · exact ht ht'
      · exact hs.phase.not_owes_of_answer ha h.oneName hfree hm ho
  · rcases answered_of_onTickets hans with hans | ⟨-, hm⟩
    · exact h.old a hans
    · exact hissued.lt_of_answer hs hx hm

theorem Sole.idle (h : c.Sole n) (hissued : c.Issued) (hx : c.cue? m = none) : (c.move m).Sole n := by
  have hd := does_move c m
  have hi := idle_of_does hx hd
  have hans : ∀ a, (c.move m).tickets.get? n = some (.answered a) → c.tickets.get? n = some (.answered a) := by
    intro a ha
    rcases hi.tickets n _ ha with ha | ⟨-, he⟩
    · exact ha
    · cases he
  have hold : ∀ a, (c.move m).tickets.get? n = some (.answered a) → n < (c.move m).nextTicket := fun a ha =>
    Nat.lt_of_lt_of_le (h.old a (hans a ha)) hi.nextTicket
  -- a queue with one more command that has not the ticket
  have hgrown : ∀ {cmd : Command}, cmd.ticket? ≠ some n → (c.move m).commands = c.told cmd →
      (c.move m).Sole n := by
    intro cmd hne he
    have hb : (c.move m).Bears n → c.Bears n := by
      rintro ⟨cmd', hcmd', hn⟩
      rw [he] at hcmd'
      rcases mem_told hcmd' with hcmd' | rfl
      · exact ⟨cmd', hcmd', hn⟩
      · exact absurd hn hne
    refine ⟨?_, ?_, ?_, ?_, hold⟩
    · have hle := bearers_told (c := c) cmd n
      rw [if_neg hne, Nat.add_zero] at hle
      unfold bearers
      rw [he]
      exact Nat.le_trans hle h.queued
    · rw [hi.connection]
      exact fun hb' => h.apart (hb hb')
    · rw [hi.connection]
      exact h.oneName
    · rw [hi.connection]
      exact fun hin a ha => h.unanswered (hin.imp_left hb) a (hans a ha)
  cases grown_of_does hx hd with
  | nothing he =>
    refine ⟨?_, ?_, ?_, ?_, hold⟩
    · unfold bearers
      rw [he]
      exact h.queued
    · unfold Bears
      rw [he, hi.connection]
      exact h.apart
    · rw [hi.connection]
      exact h.oneName
    · unfold Bears
      rw [he, hi.connection]
      exact fun hin a ha => h.unanswered hin a (hans a ha)
  | plain ht he => exact hgrown (by simp [ht]) he
  | @call cmd ht hnext _ he =>
    by_cases hn : n = c.nextTicket
    · -- nothing has the new ticket but the new command
      subst hn
      have hb : ¬ c.Bears c.nextTicket := by
        rintro ⟨cmd', hcmd', hn⟩
        exact Nat.lt_irrefl _ (hissued.commands cmd' hcmd' _ hn)
      have ho : ¬ c.connection.Owes c.nextTicket := by
        rintro (hw | hn)
        · exact Nat.lt_irrefl _ (hissued.waiters _ hw)
        · exact Nat.lt_irrefl _ (hissued.outstanding _ hn)
      refine ⟨?_, ?_, ?_, ?_, hold⟩
      · have hle := bearers_told (c := c) cmd c.nextTicket
        rw [bearers_eq_zero hb, if_pos ht] at hle
        unfold bearers
        rw [he]
        exact hle
      · rw [hi.connection]
        exact fun _ => ho
      · rw [hi.connection]
        exact h.oneName
      · exact fun _ a ha => absurd (h.old a (hans a ha)) (Nat.lt_irrefl _)
    · exact hgrown (by simpa [ht] using Ne.symm hn) he

/-- **A ticket is in one place only**, after every run. -/
theorem sole_run (p : Profile) (moves : List Move) (n : Nat) : (Client.after p moves).Sole n := by
  refine run_induction (P := fun _ c => c.Sole n) (sole_new p n) (fun moves m h => ?_) moves
  have hissued : (Client.after p moves).Issued := issued_run p moves
  cases hx : (Client.after p moves).cue? m with
  | none => exact h.idle hissued hx
  | some x =>
    rw [move_of_cue? hx]
    exact h.handle hissued (sound_run p moves) hx

/-! ### A listener is brought by a call or has a stream -/

variable {l : Nat}

/-- **A listener is brought by one call under way or has a stream**, not both. -/
structure Housed (c : Client) : Prop where
  /-- One call brings it, and there is no stream then. -/
  calls : ∀ n call l, c.calls.get? n = some call → call.purpose.listener? = some l →
    l < c.nextListener ∧ c.streams.get? l = none ∧
      ∀ k call', c.calls.get? k = some call' → call'.purpose.listener? = some l → k = n
  /-- The number of a stream was given. -/
  streams : ∀ l s, c.streams.get? l = some s → l < c.nextListener

/-- Where there is a stream, no call brings its listener. -/
theorem Housed.unasked (h : c.Housed) {s : RunStream} (hs : c.streams.get? l = some s) : c.Unasked l := by
  intro k call hk hcall
  rw [(h.calls k call l hk hcall).2.1] at hs
  cases hs

/-- There are no new calls that bring listeners, and no new streams. -/
theorem Housed.shrink (h : c.Housed) (hl : c.nextListener ≤ c'.nextListener)
    (hc : ∀ n call l, call.purpose.listener? = some l → c'.calls.get? n = some call →
      c.calls.get? n = some call)
    (hst : ∀ l, c.streams.get? l = none → c'.streams.get? l = none) : c'.Housed := by
  refine ⟨fun n call l hn hcall => ?_, fun l s hs => ?_⟩
  · obtain ⟨hlt, hnone, hsole⟩ := h.calls n call l (hc n call l hcall hn) hcall
    exact ⟨Nat.lt_of_lt_of_le hlt hl, hst l hnone, fun k call' hk hcall' =>
      hsole k call' (hc k call' l hcall' hk) hcall'⟩
  · cases hs' : c.streams.get? l with
    | none =>
      rw [hst l hs'] at hs
      cases hs
    | some s' => exact Nat.lt_of_lt_of_le (h.streams l s' hs') hl

/-- There is one new call, and it brings the next listener. -/
theorem Housed.grow {new : Call} (h : c.Housed) (hl : c'.nextListener = c.nextListener + 1)
    (hcalls : c'.calls = c.calls.set c.nextTicket new) (hnew : new.purpose.listener? = some c.nextListener)
    (hst : c'.streams = c.streams) : c'.Housed := by
  -- every call is an old one, or the new one with the new listener
  have hcases : ∀ k call l, c'.calls.get? k = some call → call.purpose.listener? = some l →
      c.calls.get? k = some call ∧ l < c.nextListener ∨ k = c.nextTicket ∧ l = c.nextListener := by
    intro k call l hk hcall
    rw [hcalls, Table.get?_set] at hk
    split at hk
    · rename_i hkn
      cases hk
      rw [hnew] at hcall
      cases hcall
      exact .inr ⟨hkn, rfl⟩
    · exact .inl ⟨hk, (h.calls k call l hk hcall).1⟩
  refine ⟨fun n call l hn hcall => ?_, fun l s hs => ?_⟩
  · rw [hl, hst]
    rcases hcases n call l hn hcall with ⟨hn, hlt⟩ | ⟨rfl, rfl⟩
    · obtain ⟨-, hnone, hsole⟩ := h.calls n call l hn hcall
      refine ⟨Nat.lt_succ_of_lt hlt, hnone, fun k call' hk hcall' => ?_⟩
      rcases hcases k call' l hk hcall' with ⟨hk, -⟩ | ⟨-, rfl⟩
      · exact hsole k call' hk hcall'
      · exact absurd hlt (Nat.lt_irrefl _)
    · refine ⟨Nat.lt_succ_self _, ?_, fun k call' hk hcall' => ?_⟩
      · cases hs : c.streams.get? c.nextListener with
        | none => rfl
        | some s => exact absurd (h.streams _ s hs) (Nat.lt_irrefl _)
      · rcases hcases k call' _ hk hcall' with ⟨-, hlt⟩ | ⟨hk, -⟩
        · exact absurd hlt (Nat.lt_irrefl _)
        · exact hk
  · rw [hl]
    exact Nat.lt_succ_of_lt (h.streams l s (hst ▸ hs))

theorem get?_modify_eq_none {α : Type} {t : Table Nat α} {k l : Nat} {f : α → α} (h : t.get? l = none) :
    (t.modify k f).get? l = none := by
  have hs := Table.isSome_get?_modify t k l f
  rw [h] at hs
  exact Option.isNone_iff_eq_none.1 (by simpa using hs)

theorem Housed.does (h : c.Housed) (hd : Does c m c') : c'.Housed := by
  have hl := nextListener_le_of_does hd
  have herase : ∀ {k : Nat}, ∀ n call l, call.purpose.listener? = some l →
      (c.calls.erase k).get? n = some call → c.calls.get? n = some call := fun _ _ _ _ hn =>
    Table.get?_of_erase hn
  cases hd with
  | calls ha =>
    refine h.shrink hl (fun n call l hcall hn => ?_) fun l hs => hs
    simp only [Table.get?_set] at hn
    split at hn
    · cases hn
      cases ha <;> cases hcall
    · exact hn
  | sends => exact h.grow rfl rfl rfl rfl
  | ends => exact h.shrink hl herase fun l hs => hs
  | expires => exact h.shrink hl herase fun l hs => hs
  | @follows now n l call v ack hn ht hcall hack =>
    obtain ⟨hlt, -, hsole⟩ := h.calls n call l hn hcall
    refine ⟨fun k call' l' hk hcall' => ?_, fun l' s hs => ?_⟩
    · obtain ⟨hne, hold⟩ := Table.get?_erase_eq_some_iff.1 hk
      obtain ⟨hlt', hnone, hsole'⟩ := h.calls k call' l' hold hcall'
      have hll : l' ≠ l := by
        rintro rfl
        exact hne (hsole k call' hold hcall')
      refine ⟨hlt', (Table.get?_set_of_ne _ _ hll).trans hnone, fun j call'' hj hcall'' => ?_⟩
      exact hsole' j call'' (Table.get?_of_erase hj) hcall''
    · simp only [Table.get?_set] at hs
      split at hs
      · rename_i hll
        exact hll ▸ hlt
      · exact h.streams l' s hs
  | subscribes =>
    refine ⟨fun n call l hn hcall => ?_, fun l s hs => ?_⟩
    · obtain ⟨hlt, hnone, hsole⟩ := h.calls n call l hn hcall
      exact ⟨Nat.lt_succ_of_lt hlt, (Table.get?_set_of_ne _ _ (Nat.ne_of_lt hlt)).trans hnone, hsole⟩
    · simp only [Table.get?_set] at hs
      split at hs
      · rename_i he
        exact he ▸ Nat.lt_succ_self _
      · exact Nat.lt_succ_of_lt (h.streams l s hs)
  | drops =>
    refine h.shrink hl (fun _ _ _ _ hn => hn) fun l hs => ?_
    rw [Table.get?_erase]
    split
    · rfl
    · exact hs
  | beginsPull => exact h.shrink hl (fun _ _ _ _ hn => hn) fun l hs => get?_modify_eq_none hs
  | leavesPull => exact h.shrink hl (fun _ _ _ _ hn => hn) fun l hs => get?_modify_eq_none hs
  | takes => exact h.shrink hl (fun _ _ _ _ hn => hn) fun l hs => get?_modify_eq_none hs
  | endsPull => exact h.shrink hl (fun _ _ _ _ hn => hn) fun l hs => get?_modify_eq_none hs
  | idles => exact h.shrink hl (fun _ _ _ _ hn => hn) fun l hs => get?_modify_eq_none hs
  | handles =>
    rw [handle_eq]
    exact ⟨h.calls, h.streams⟩
  | _ => exact h.shrink hl (fun _ _ _ _ hn => hn) fun l hs => hs

/-- **A listener is brought by a call or has a stream**, after every run. -/
theorem housed_run (p : Profile) (moves : List Move) : (Client.after p moves).Housed := by
  refine run_induction (P := fun _ c => c.Housed) ⟨?_, ?_⟩ (fun moves m h => h.does (does_move _ m)) moves
  · intro n call l hn
    cases hn
  · intro l s hs
    cases hs

/-- Nothing is put into mailboxes that are not there. -/
theorem get?_onBoxes_eq_none {bs : Mailboxes} (es : List Effect) (h : bs.get? l = none) :
    (es.foldl Effect.onBoxes bs).get? l = none := by
  induction es generalizing bs with
  | nil => exact h
  | cons e es ih =>
    cases e with
    | deliver k e => exact ih (get?_modify_eq_none h)
    | _ => exact ih h

theorem Fresh.unopened_of_deals (h : c.Fresh l) (hb : c.boxes.get? l = none) (hd : Deals c l m c') :
    c'.boxes.get? l = none := by
  cases hd with
  | apart ha => exact ha.boxes.trans hb
  | handles =>
    rw [handle_eq]
    exact get?_onBoxes_eq_none _ hb
  | beginsPull => exact hb
  | leavesPull => exact hb
  | ends hk hcall => exact absurd hcall (h.calls _ _ hk)
  | expires hk hcall => exact absurd hcall (h.calls _ _ hk)
  | follows hk hcall => exact absurd hcall (h.calls _ _ hk)
  | takes hs => simp [h.streams] at hs
  | endsPull hs => simp [h.streams] at hs
  | idles hs => simp [h.streams] at hs
  | drops hs => simp [h.streams] at hs

/-- Numbers to come have no mailboxes, after every run. -/
theorem unopened_run (p : Profile) (moves : List Move) :
    ∀ l, (Client.after p moves).nextListener ≤ l → (Client.after p moves).boxes.get? l = none := by
  refine run_induction (P := fun _ c => ∀ l, c.nextListener ≤ l → c.boxes.get? l = none) (fun _ _ => rfl)
    (fun moves m ih l hl => ?_) moves
  have hd := does_move ((Client.new p).run moves) m
  have hle := Nat.le_trans (nextListener_le_of_does hd) hl
  exact (fresh_run p moves l hle).unopened_of_deals (ih l hle)
    (deals_of_does (numbered_run p moves) (.inr hl) hd)

/-! ### A listener that is yet to be seated -/

/-- A reader's command to follow a run is in the queue, and nothing else is known of its listener. -/
structure Announced (c : Client) (l : Nat) : Prop where
  /-- The number was given. -/
  listener : l < c.nextListener
  /-- One command brings it. -/
  place : ∃ before run after, c.commands = before ++ .listen run ⟨l, l⟩ :: after ∧
    ∀ cmd ∈ before ++ after, cmd.Spares l
  /-- No outstanding request brings it. -/
  requests : ∀ e ∈ c.connection.outstanding.entries, e.2.Spares l
  /-- It is not in the audience yet. -/
  audience : c.connection.audience.Spares l
  /-- Its mailbox is empty. -/
  box : (c.box l).queue = []

/-- The only command that brings the listener is its own. -/
theorem Announced.spares_of_mem (h : c.Announced l) {cmd : Command} (hm : cmd ∈ c.commands)
    (hne : ∀ run, cmd ≠ .listen run ⟨l, l⟩) : cmd.Spares l := by
  obtain ⟨before, run, after, hc, hcmds⟩ := h.place
  rw [hc] at hm
  rcases List.mem_append.1 hm with hm | hm
  · exact hcmds cmd (List.mem_append_left _ hm)
  · rcases List.mem_cons.1 hm with rfl | hm
    · exact absurd rfl (hne run)
    · exact hcmds cmd (List.mem_append_right _ hm)

theorem Announced.append (h : c.Announced l) (hl : c.nextListener ≤ c'.nextListener)
    (hconn : c'.connection = c.connection)
    (hcmds : ∃ cmds, c'.commands = c.commands ++ cmds ∧ ∀ cmd ∈ cmds, cmd.Spares l)
    (hb : (c'.box l).queue = []) : c'.Announced l := by
  obtain ⟨before, run, after, hc, hspares⟩ := h.place
  obtain ⟨cmds, hc', hnew⟩ := hcmds
  refine ⟨Nat.lt_of_lt_of_le h.listener hl, ⟨before, run, after ++ cmds, by rw [hc', hc]; simp, ?_⟩,
    hconn ▸ h.requests, hconn ▸ h.audience, hb⟩
  intro cmd hm
  rw [← List.append_assoc] at hm
  rcases List.mem_append.1 hm with hm | hm
  · exact hspares cmd hm
  · exact hnew cmd hm

/-- Others than the supervisor leave a listener that is yet to be seated. -/
theorem Announced.idle (h : c.Announced l) (hn : c.Numbered) (hx : c.cue? m = none) (hd : Does c m c') :
    c'.Announced l := by
  have hconn := (idle_of_does hx hd).connection
  have hl := nextListener_le_of_does hd
  have hsame : ∃ cmds, c.commands = c.commands ++ cmds ∧ ∀ cmd ∈ cmds, cmd.Spares l :=
    ⟨[], (List.append_nil _).symm, fun _ hm => absurd hm List.not_mem_nil⟩
  have htold : ∀ {cmd : Command}, cmd.listener? = none → ∃ cmds, c.told cmd = c.commands ++ cmds ∧
      ∀ x ∈ cmds, x.Spares l := by
    intro cmd hno
    obtain ⟨cmds, he, hc⟩ := told_eq_append (c := c) cmd
    refine ⟨cmds, he, fun y hy z hz => ?_⟩
    rw [hc y hy, hno] at hz
    cases hz
  have hgone : ∀ {bs : Mailboxes}, bs.get? l = none → (((bs.get? l).getD .new).queue) = [] := by
    intro bs hb
    rw [hb]
    rfl
  cases deals_of_does hn (.inl h.listener) hd with
  | apart ha =>
    obtain ⟨cmds, hc, hcmds⟩ := ha.commands
    refine h.append hl hconn ⟨cmds, hc, fun cmd hm => (hcmds cmd hm).1⟩ ?_
    rw [Client.box, ha.boxes]
    exact h.box
  | ends hk hcall =>
    refine h.append hl hconn hsame (hgone ?_)
    rw [closeCall, hcall]
    exact Table.get?_erase_self _ _
  | expires hk hcall =>
    refine h.append hl hconn (htold rfl) (hgone ?_)
    rw [closeCall, hcall]
    exact Table.get?_erase_self _ _
  | follows => exact h.append hl hconn hsame h.box
  | beginsPull => exact h.append hl hconn hsame h.box
  | leavesPull => exact h.append hl hconn hsame h.box
  | takes hs hf hq =>
    rw [h.box] at hq
    cases hq
  | endsPull => exact h.append hl hconn hsame h.box
  | idles => exact h.append hl hconn (htold rfl) h.box
  | @drops s =>
    refine h.append hl hconn ?_ (hgone (Table.get?_erase_self _ _))
    cases s.sawTerminal with
    | true => exact hsame
    | false => exact htold rfl
  | handles hx' =>
    rw [hx] at hx'
    cases hx'

/-- The supervisor leaves it as long as its command stays in the queue. -/
theorem Announced.handle (h : c.Announced l) (hs : c.Sound) (hx : c.cue? m = some x) {run : String}
    (hm : .listen run ⟨l, l⟩ ∈ c.commandsAfter x.input) : (c.handle x).Announced l := by
  have hlast : x.input.isLast = false := by
    by_contra hl
    rw [commandsAfter_of_isLast (by simpa using hl)] at hm
    cases hm
  have hspares : ∀ {run'}, ¬ (Command.listen run' ⟨l, l⟩).Spares l := fun hsp => (hsp _ rfl).1 rfl
  obtain ⟨before, run', after, hc, hcmds⟩ := h.place
  have hplace : ∃ before run after, c.commandsAfter x.input = before ++ .listen run ⟨l, l⟩ :: after ∧
      ∀ cmd ∈ before ++ after, cmd.Spares l := by
    cases hi : x.input with
    | command cmd =>
      rw [hi] at hlast hm
      rw [commandsAfter_command hlast] at hm ⊢
      rw [hc] at hm ⊢
      cases before with
      | nil => exact absurd (hcmds _ hm) hspares
      | cons b before => exact ⟨before, run', after, rfl, fun cmd' hm => hcmds cmd' (List.mem_cons_of_mem _ hm)⟩
    | _ =>
      rw [hi] at hlast
      rw [commandsAfter_eq_self hlast (by simp)]
      exact ⟨before, run', after, hc, hcmds⟩
  -- the command that is taken is another
  have hhead : ∀ run' y, x.input = .command (.listen run' y) → y.Spares l := by
    intro run' y hi
    rw [hi] at hlast hm
    rw [commandsAfter_command hlast] at hm
    have hcons := commands_of_cue? hx hi
    rw [hc] at hcons hm
    cases before with
    | nil => exact absurd (hcmds _ hm) hspares
    | cons b before =>
      injection hcons with hb
      exact hcmds b List.mem_cons_self y (by rw [hb]; rfl)
  have haud := spares_audience_of_input hs hx hhead
    (fun _ _ _ _ _ _ _ _ hr => h.requests _ (Table.mem_of_get? hr)) h.audience
  rw [handle_eq]
  refine ⟨h.listener, hplace, fun e he => ?_, haud.1, ?_⟩
  · rcases request_of_handle hs hx he with he | ⟨params, -, hin⟩
    · exact h.requests e he
    · exact h.spares_of_mem hin (by simp)
  · rw [Client.box]
    simp only [haud.2]
    exact h.box

/-- A listener of which nothing was known is yet to be seated once its reader has told the supervisor. -/
theorem Fresh.announced {run : String} (h : c.Fresh c.nextListener) (hrun : c.isRunning = true) :
    ({ c with
      nextListener := c.nextListener + 1, boxes := c.boxes.set c.nextListener .new,
      streams := c.streams.set c.nextListener ⟨run, false, false, none⟩,
      commands := c.told (.listen run ⟨c.nextListener, c.nextListener⟩) } : Client).Announced
        c.nextListener := by
  refine ⟨Nat.lt_succ_self _, ⟨c.commands, run, [], ?_, ?_⟩, h.requests, h.audience, ?_⟩
  · simp only [told, hrun, if_true]
  · rw [List.append_nil]
    exact h.commands
  · simp [Client.box, Table.get?_set_self, Mailbox.new]

/-- A listener that comes into the queue by itself is yet to be seated. -/
theorem announced_of_mem (hf : c.Fresh c.nextListener) (hx : c.cue? m = none) (hd : Does c m c')
    {run : String} {y : Listener} (hm : .listen run y ∈ c'.commands) :
    .listen run y ∈ c.commands ∨ ∃ l, y = ⟨l, l⟩ ∧ c'.Announced l := by
  have hold : ∀ {cmd : Command}, cmd ≠ .listen run y → .listen run y ∈ c.told cmd →
      .listen run y ∈ c.commands ∨ ∃ l, y = ⟨l, l⟩ ∧ c'.Announced l := by
    intro cmd hne hm
    rcases mem_told hm with hm | rfl
    · exact .inl hm
    · exact absurd rfl hne
  cases hd with
  | calls ha => cases ha <;> exact hold (by simp) hm
  | sends => exact hold (by simp) hm
  | expires => exact hold (by simp) hm
  | subscribes hrun =>
    rcases mem_told hm with hm | he
    · exact .inl hm
    · injection he with _ hy
      exact .inr ⟨_, hy, hf.announced hrun⟩
  | idles => exact hold (by simp) hm
  | @drops stream s =>
    simp only at hm
    split at hm
    · exact .inl hm
    · exact hold (by simp) hm
  | handles hx' =>
    rw [hx] at hx'
    cases hx'
  | _ => exact .inl hm

/-- **One who is yet to be seated has an empty mailbox**, after every run. -/
theorem announced_run (p : Profile) (moves : List Move) : ∀ run y,
    .listen run y ∈ (Client.after p moves).commands →
      ∃ l, y = ⟨l, l⟩ ∧ (Client.after p moves).Announced l := by
  refine run_induction (P := fun _ c => ∀ run y, .listen run y ∈ c.commands →
    ∃ l, y = ⟨l, l⟩ ∧ c.Announced l) ?_ (fun moves m ih run y hm => ?_) moves
  · intro run y hm
    cases hm
  · cases hx : ((Client.new p).run moves).cue? m with
    | none =>
      have hd := does_move ((Client.new p).run moves) m
      rcases announced_of_mem (fresh_run p moves _ (Nat.le_refl _)) hx hd hm with hm | hnew
      · obtain ⟨l, rfl, h⟩ := ih run y hm
        exact ⟨l, rfl, h.idle (numbered_run p moves) hx hd⟩
      · exact hnew
    | some x =>
      rw [move_of_cue? hx] at hm ⊢
      have hafter : .listen run y ∈ ((Client.new p).run moves).commandsAfter x.input := by
        rw [handle_eq] at hm
        exact hm
      obtain ⟨l, rfl, h⟩ := ih run y (mem_of_mem_commandsAfter hafter)
      exact ⟨l, rfl, h.handle (sound_run p moves) hx hafter⟩

end Client

end TurnRelay.Gateway
