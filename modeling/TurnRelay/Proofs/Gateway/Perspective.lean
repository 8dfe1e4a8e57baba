import TurnRelay.Proofs.Gateway.Bookkeeping
import TurnRelay.Proofs.Gateway.Party
import TurnRelay.Proofs.Gateway.Staleness

/-!
# What a party sees of a client

A party of users sees of a client its own calls, streams and mailboxes, its share of the connection, and those
commands in the queue that concern it. What others do in the meantime it does not see; and what it does itself depends
on nothing else. Both are shown for every move at once: the view of a client after a move is the view of the viewed
client after the same move.

The numbers of the party's calls are not fixed beforehand, as callers get them in the order in which they come; they
are a parameter here, `mine`.

## The model

* `Party.view` — what a party sees of a client.
* `Party.Suits` — what is the party's and what is not are kept apart in the whole client.
* `Party.Respects` — what a party sees after a change depends on what it saw before.

## What is proved

* `poll_view`, `pull_view` — looks at the party's own calls and streams show the same in the view.
* `view_move` — what a party sees after a move of a caller or reader depends on what it saw before.
* `view_handle` — and so it is with what the supervisor takes.
* `Suits.move`, `Suits.handle` — every move keeps apart what is the party's.
-/

namespace TurnRelay.Gateway

namespace Party

variable (P : Party) (mine : Nat → Bool)

/-- What a party sees of a client. Sockets and reports are the supervisor's business. -/
def view (c : Client) : Client :=
  { c with
    connection := P.share c.connection
    commands := c.commands.filter P.wants
    reports := []
    sockets := .empty
    tickets := c.tickets.keep mine
    calls := c.calls.keep mine
    boxes := c.boxes.keep P.hears
    streams := c.streams.keep P.hears
    handles := 0 }

/-- What is the party's and what is not are kept apart. -/
structure Suits (c : Client) : Prop where
  /-- In the connection. -/
  connection : P.Fits mine c.connection
  /-- In commands. -/
  commands : ∀ cmd ∈ c.commands, P.Fair mine cmd
  /-- In calls: those under its names are its own, and no other brings a listener of its own. -/
  calls : ∀ n call, c.calls.get? n = some call → mine n = call.purpose.name?.any P.ids ∧
    ∀ l ∈ call.purpose.listener?, P.hears l = true → mine n = true

/-- What the party sees after a change depends on what it saw before. -/
def Respects (f : Client → Client) : Prop := ∀ c, P.view mine (f c) = P.view mine (f (P.view mine c))

variable {P mine} {c d : Client} {f g : Client → Client} {n l : Nat} {now : Nat}

theorem view_view (c : Client) : P.view mine (P.view mine c) = P.view mine c := by
  simp [view, share_share, List.filter_filter]

theorem Respects.comp (hf : P.Respects mine f) (hg : P.Respects mine g) : P.Respects mine fun c => f (g c) := by
  intro c
  rw [hf (g c), hg c, ← hf]

/-! ### Changes -/

theorem respects_id : P.Respects mine fun c => c := fun c => (view_view c).symm

theorem respects_tell (cmd : Command) : P.Respects mine (·.tell cmd) := by
  intro c
  have hrun : (P.view mine c).isRunning = c.isRunning := rfl
  simp only [Client.tell_eq, Client.told, hrun]
  split <;> simp [view, share_share, List.filter_append, List.filter_filter]

theorem respects_begin (cmd : Nat → Command) (call : Call) : P.Respects mine fun c => (c.begin cmd call).2 := by
  intro c
  have hrun : (P.view mine c).isRunning = c.isRunning := rfl
  simp only [Client.begin, Client.tell_eq, Client.told, hrun]
  split <;> simp [view, share_share, List.filter_append, List.filter_filter, Table.keep_set_keep]

theorem respects_endCall (n : Nat) : P.Respects mine (·.endCall n) := by
  intro c
  simp [view, Client.endCall, share_share, List.filter_filter, Table.keep_erase]

theorem respects_eraseBox (l : Nat) : P.Respects mine fun c => { c with boxes := c.boxes.erase l } := by
  intro c
  simp [view, share_share, List.filter_filter, Table.keep_erase]

theorem respects_setBox (l : Nat) (b : Mailbox) : P.Respects mine fun c => { c with boxes := c.boxes.set l b } := by
  intro c
  simp [view, share_share, List.filter_filter, Table.keep_set_keep]

theorem respects_setStream (l : Nat) (s : RunStream) :
    P.Respects mine fun c => { c with streams := c.streams.set l s } := by
  intro c
  simp [view, share_share, List.filter_filter, Table.keep_set_keep]

theorem respects_eraseStream (l : Nat) : P.Respects mine fun c => { c with streams := c.streams.erase l } := by
  intro c
  simp [view, share_share, List.filter_filter, Table.keep_erase]

theorem respects_modifyStream (l : Nat) (f : RunStream → RunStream) :
    P.Respects mine fun c => { c with streams := c.streams.modify l f } := by
  intro c
  simp [view, share_share, List.filter_filter, Table.keep_modify]

/-- What a call comes to depends on its answer alone. -/
theorem conclude_fst (c d : Client) (purpose : Purpose) (a : Answer) :
    (c.conclude purpose a).1 = (d.conclude purpose a).1 := by
  cases purpose with
  | run id timeout l =>
    cases a with
    | error fault => rfl
    | ok v =>
      simp only [Client.conclude]
      cases Wire.SendAck.decode v <;> rfl
  | _ => rfl

theorem expire_fst (c d : Client) (purpose : Purpose) : (c.expire purpose).1 = (d.expire purpose).1 := by
  cases purpose <;> rfl

theorem respects_conclude (purpose : Purpose) (a : Answer) :
    P.Respects mine fun c => (c.conclude purpose a).2 := by
  cases purpose with
  | run id timeout l =>
    cases a with
    | error fault => exact respects_eraseBox l
    | ok v =>
      simp only [Client.conclude]
      cases Wire.SendAck.decode v with
      | error e => exact respects_eraseBox l
      | ok ack => exact respects_setStream l _
  | _ => exact respects_id

theorem respects_expire (purpose : Purpose) : P.Respects mine fun c => (c.expire purpose).2 := by
  cases purpose with
  | query q id timeout => exact respects_tell (.cancelRequest id)
  | run id timeout l => exact (respects_tell (.cancelRequest id)).comp (respects_eraseBox l)
  | _ => exact respects_id

/-! ### Changes by others -/

theorem view_tell_of_not_wants (cmd : Command) (h : P.wants cmd = false) (c : Client) :
    P.view mine (c.tell cmd) = P.view mine c := by
  rw [Client.tell_eq]
  unfold Client.told
  split <;> simp [view, List.filter_append, h]

theorem view_endCall_of_not_mine (h : mine n = false) (c : Client) : P.view mine (c.endCall n) = P.view mine c := by
  simp [view, Client.endCall, Table.keep_erase_of_false _ h]

theorem view_eraseBox_of_not_hears (h : P.hears l = false) (c : Client) :
    P.view mine { c with boxes := c.boxes.erase l } = P.view mine c := by
  simp [view, Table.keep_erase_of_false _ h]

theorem view_setBox_of_not_hears (h : P.hears l = false) (b : Mailbox) (c : Client) :
    P.view mine { c with boxes := c.boxes.set l b } = P.view mine c := by
  simp [view, Table.keep_set_of_false _ h]

theorem view_setStream_of_not_hears (h : P.hears l = false) (s : RunStream) (c : Client) :
    P.view mine { c with streams := c.streams.set l s } = P.view mine c := by
  simp [view, Table.keep_set_of_false _ h]

theorem view_eraseStream_of_not_hears (h : P.hears l = false) (c : Client) :
    P.view mine { c with streams := c.streams.erase l } = P.view mine c := by
  simp [view, Table.keep_erase_of_false _ h]

theorem view_modifyStream_of_not_hears (h : P.hears l = false) (f : RunStream → RunStream) (c : Client) :
    P.view mine { c with streams := c.streams.modify l f } = P.view mine c := by
  simp [view, Table.keep_modify_of_false _ h]

/-- The call of somebody else is concluded. -/
theorem view_conclude_of_not_hears {purpose : Purpose} (h : ∀ l ∈ purpose.listener?, P.hears l = false)
    (a : Answer) (c : Client) : P.view mine (c.conclude purpose a).2 = P.view mine c := by
  cases purpose with
  | run id timeout l =>
    have hl : P.hears l = false := h l rfl
    cases a with
    | error fault => exact view_eraseBox_of_not_hears hl c
    | ok v =>
      simp only [Client.conclude]
      split
      · exact view_eraseBox_of_not_hears hl c
      · exact view_setStream_of_not_hears hl _ c
  | _ => rfl

/-- The call of somebody else expires. -/
theorem view_expire_of_not_hears {purpose : Purpose} (h : ∀ l ∈ purpose.listener?, P.hears l = false)
    (hid : purpose.name?.any P.ids = false) (c : Client) :
    P.view mine (c.expire purpose).2 = P.view mine c := by
  cases purpose with
  | query q id timeout => exact view_tell_of_not_wants (.cancelRequest id) hid c
  | run id timeout l =>
    exact (view_tell_of_not_wants (.cancelRequest id) hid { c with boxes := c.boxes.erase l }).trans
      (view_eraseBox_of_not_hears (h l rfl) c)
  | _ => rfl

/-! ### Looks at calls -/

/-- The listener of a call that is not the party's is not the party's. -/
theorem Suits.not_hears {call : Call} (hs : P.Suits mine c) (hcall : c.calls.get? n = some call)
    (hn : mine n = false) : ∀ l ∈ call.purpose.listener?, P.hears l = false := by
  intro l hl
  refine Bool.eq_false_iff.2 fun hh => ?_
  rw [(hs.calls n call hcall).2 l hl hh] at hn
  cases hn

/-- Whether a ticket of the party could still be answered shows in the view. -/
theorem holdsTicket_view (hs : P.Suits mine c) (hn : mine n = true) :
    (P.view mine c).holdsTicket n = c.holdsTicket n := by
  have hout : (P.share c.connection).outstanding.holds n = c.connection.outstanding.holds n := by
    rw [Bool.eq_iff_iff]
    simp only [Outstanding.holds, Table.values, share, Table.keep, List.any_map, List.any_filter, List.any_eq_true,
      Function.comp_apply, Bool.and_eq_true, decide_eq_true_eq]
    refine exists_congr fun e => and_congr_right fun he => and_iff_right_of_imp fun ht => ?_
    rw [← (hs.connection.outstanding e he).ticket, ht, hn]
  have hcmds : ((P.view mine c).commands.any fun cmd => decide (cmd.ticket? = some n)) =
      c.commands.any fun cmd => decide (cmd.ticket? = some n) := by
    rw [Bool.eq_iff_iff]
    simp only [view, List.any_filter, List.any_eq_true, Bool.and_eq_true, decide_eq_true_eq]
    refine exists_congr fun cmd => and_congr_right fun he => and_iff_right_of_imp fun ht => ?_
    have hfair := hs.commands cmd he
    cases cmd with
    | ensureConnected k =>
      cases ht
      exact absurd (hfair.symm.trans hn) Bool.false_ne_true
    | request id method params k l =>
      cases ht
      exact (hfair.ticket.symm.trans hn :)
    | destroy k => rfl
    | _ => cases ht
  unfold Client.holdsTicket
  rw [hcmds]
  show (c.connection.waiters.contains n || (P.share c.connection).outstanding.holds n || _) = _
  rw [hout]

/-- **Looks at the party's own calls show the same** in the view, and leave the same. -/
theorem poll_view (hs : P.Suits mine c) (hn : mine n = true) (now : Nat) :
    ((P.view mine c).poll now n).1 = (c.poll now n).1 ∧
      P.view mine (c.poll now n).2 = P.view mine ((P.view mine c).poll now n).2 := by
  have hcalls : (P.view mine c).calls.get? n = c.calls.get? n := Table.get?_keep_of_true _ hn
  have htickets : (P.view mine c).tickets.get? n = c.tickets.get? n := Table.get?_keep_of_true _ hn
  have hask : ((P.view mine c).tickets.ask n ((P.view mine c).holdsTicket n)).1 =
      (c.tickets.ask n (c.holdsTicket n)).1 := by
    unfold Tickets.ask
    rw [htickets, holdsTicket_view hs hn]
    split <;> rfl
  unfold Client.poll
  rw [hcalls, hask]
  cases c.calls.get? n with
  | none => exact ⟨rfl, (view_view c).symm⟩
  | some call =>
    dsimp only
    cases (c.tickets.ask n (c.holdsTicket n)).1 with
    | answer a =>
      exact ⟨congrArg some (conclude_fst ..), ((respects_conclude call.purpose a).comp (respects_endCall n)) c⟩
    | lost =>
      exact ⟨congrArg some (conclude_fst ..),
        ((respects_conclude call.purpose (.error .destroyed)).comp (respects_endCall n)) c⟩
    | nothing =>
      dsimp only
      split
      · exact ⟨congrArg some (expire_fst ..), ((respects_expire call.purpose).comp (respects_endCall n)) c⟩
      · exact ⟨rfl, (view_view c).symm⟩

/-- The party does not see what others do with their calls. -/
theorem view_poll_of_not_mine (hs : P.Suits mine c) (hn : mine n = false) (now : Nat) :
    P.view mine (c.poll now n).2 = P.view mine c := by
  have h := polls_poll c now n
  generalize (c.poll now n).1 = r at h
  generalize (c.poll now n).2 = c' at h
  cases h with
  | nowhere => rfl
  | waits => rfl
  | answered hcall =>
    rw [view_conclude_of_not_hears (hs.not_hears hcall hn), view_endCall_of_not_mine hn]
  | expired hcall =>
    have hid := (hs.calls _ _ hcall).1.symm.trans hn
    rw [view_expire_of_not_hears (hs.not_hears hcall hn) hid, view_endCall_of_not_mine hn]

/-! ### Looks at streams -/

/-- Whether anything could still come for a listener of the party shows in the view. -/
theorem feeds_view (hs : P.Suits mine c) (hl : P.hears l = true) : (P.view mine c).feeds l = c.feeds l := by
  have haudience : (P.among c.connection.audience).holds l = c.connection.audience.holds l := by
    rw [Bool.eq_iff_iff]
    simp only [Audience.holds, among, List.any_filter, List.any_eq_true, Bool.and_eq_true, decide_eq_true_eq]
    refine exists_congr fun m => and_congr_right fun _ => and_iff_right_of_imp fun hm => ?_
    rw [hm, hl]
  have hout : ((P.share c.connection).outstanding.values.any fun r => decide (r.listener.map (·.box) = some l)) =
      c.connection.outstanding.values.any fun r => decide (r.listener.map (·.box) = some l) := by
    rw [Bool.eq_iff_iff]
    simp only [Table.values, share, Table.keep, List.any_map, List.any_filter, List.any_eq_true,
      Function.comp_apply, Bool.and_eq_true, decide_eq_true_eq]
    refine exists_congr fun e => and_congr_right fun he => and_iff_right_of_imp fun hr => ?_
    obtain ⟨y, hy, rfl⟩ := Option.map_eq_some_iff.1 hr
    exact ((hs.connection.outstanding e he).listener y hy).2 hl
  have hcmds : ((P.view mine c).commands.any fun cmd => decide (cmd.listener?.map (·.box) = some l)) =
      c.commands.any fun cmd => decide (cmd.listener?.map (·.box) = some l) := by
    rw [Bool.eq_iff_iff]
    simp only [view, List.any_filter, List.any_eq_true, Bool.and_eq_true, decide_eq_true_eq]
    refine exists_congr fun cmd => and_congr_right fun he => and_iff_right_of_imp fun hcmd => ?_
    have hfair := hs.commands cmd he
    obtain ⟨y, hy, rfl⟩ := Option.map_eq_some_iff.1 hcmd
    cases cmd with
    | request id method params k listener => exact (hfair.listener y hy).2 hl
    | listen run x =>
      cases hy
      have hself : y.id = y.box := hfair
      show P.hears y.id = true
      rw [hself, hl]
    | _ => cases hy
  show ((P.among c.connection.audience).holds l ||
    ((P.share c.connection).outstanding.values.any fun r => decide (r.listener.map (·.box) = some l)) ||
    (P.view mine c).commands.any fun cmd => decide (cmd.listener?.map (·.box) = some l)) = _
  rw [haudience, hout, hcmds]
  rfl

/-- **Looks at the party's own streams show the same** in the view, and leave the same. -/
theorem pull_view (hs : P.Suits mine c) (hl : P.hears l = true) (now : Nat) :
    ((P.view mine c).pull now l).1 = (c.pull now l).1 ∧
      P.view mine (c.pull now l).2 = P.view mine ((P.view mine c).pull now l).2 := by
  have hstreams : (P.view mine c).streams.get? l = c.streams.get? l := Table.get?_keep_of_true _ hl
  have hboxes : (P.view mine c).boxes.get? l = c.boxes.get? l := Table.get?_keep_of_true _ hl
  have hmodify : ∀ f g : Bool, P.Respects mine (·.endPull l f g) := fun _ _ => respects_modifyStream l _
  unfold Client.pull
  rw [hstreams, hboxes, feeds_view hs hl]
  cases c.streams.get? l with
  | none => exact ⟨rfl, (view_view c).symm⟩
  | some s =>
    dsimp only
    split
    · exact ⟨rfl, hmodify true false c⟩
    · split
      · exact ⟨rfl, ((hmodify _ _).comp (respects_setBox l _)) c⟩
      · exact ⟨rfl, hmodify true false c⟩
      · split
        · exact ⟨rfl, ((respects_tell _).comp (hmodify true false)) c⟩
        · exact ⟨rfl, (view_view c).symm⟩

/-- The party does not see what others do with their streams. -/
theorem view_pull_of_not_hears (hl : P.hears l = false) (now : Nat) (c : Client) :
    P.view mine (c.pull now l).2 = P.view mine c := by
  have hmodify : ∀ (f g : Bool) (c : Client), P.view mine (c.endPull l f g) = P.view mine c :=
    fun _ _ c => view_modifyStream_of_not_hears hl _ c
  unfold Client.pull
  cases c.streams.get? l with
  | none => rfl
  | some s =>
    dsimp only
    split
    · exact hmodify true false c
    · split
      · exact (hmodify _ _ _).trans (view_setBox_of_not_hears hl _ c)
      · exact hmodify true false c
      · split
        · exact (view_tell_of_not_wants (.unlisten s.run l) hl _).trans (hmodify true false c)
        · rfl

theorem dropStream_view (hl : P.hears l = true) (c : Client) :
    P.view mine (c.dropStream l) = P.view mine ((P.view mine c).dropStream l) := by
  have hstreams : (P.view mine c).streams.get? l = c.streams.get? l := Table.get?_keep_of_true _ hl
  have hgone : P.Respects mine fun c => { c with streams := c.streams.erase l, boxes := c.boxes.erase l } :=
    (respects_eraseBox l).comp (respects_eraseStream l)
  unfold Client.dropStream
  rw [hstreams]
  cases c.streams.get? l with
  | none => exact (view_view c).symm
  | some s =>
    dsimp only
    cases s.sawTerminal with
    | true => exact hgone c
    | false => exact (hgone.comp (respects_tell (.unlisten s.run l))) c

theorem view_dropStream_of_not_hears (hl : P.hears l = false) (c : Client) :
    P.view mine (c.dropStream l) = P.view mine c := by
  have hgone : ∀ c, P.view mine { c with streams := c.streams.erase l, boxes := c.boxes.erase l } = P.view mine c :=
    fun c => (view_eraseBox_of_not_hears hl { c with streams := c.streams.erase l }).trans
      (view_eraseStream_of_not_hears hl c)
  unfold Client.dropStream
  cases c.streams.get? l with
  | none => rfl
  | some s =>
    dsimp only
    cases s.sawTerminal with
    | true => exact hgone c
    | false => exact (hgone _).trans (view_tell_of_not_wants (.unlisten s.run l) hl c)

/-! ### The moves of callers and readers -/

theorem abandon_view (hn : mine n = true) (c : Client) :
    P.view mine (c.move (.abandon n)) = P.view mine ((P.view mine c).move (.abandon n)) := by
  have hcalls : (P.view mine c).calls.get? n = c.calls.get? n := Table.get?_keep_of_true _ hn
  cases hcall : c.calls.get? n with
  | none =>
    have hnone := hcalls.trans hcall
    simp [Client.move, Table.contains, hcall, hnone, view_view]
  | some call =>
    have hsome := hcalls.trans hcall
    simp only [Client.move, Table.contains, Client.abandon, hcall, hsome, Option.isSome_some, if_true]
    obtain ⟨purpose, deadline⟩ := call
    cases purpose with
    | run id timeout l => exact ((respects_eraseBox l).comp (respects_endCall n)) c
    | _ => exact respects_endCall n c

theorem view_abandon_of_not_mine (hs : P.Suits mine c) (hn : mine n = false) :
    P.view mine (c.move (.abandon n)) = P.view mine c := by
  cases hcall : c.calls.get? n with
  | none => simp [Client.move, Table.contains, hcall]
  | some call =>
    simp only [Client.move, Table.contains, Client.abandon, hcall, Option.isSome_some, if_true]
    obtain ⟨purpose, deadline⟩ := call
    cases purpose with
    | run id timeout l =>
      have hl := hs.not_hears hcall hn l rfl
      exact (view_eraseBox_of_not_hears hl (c.endCall n)).trans (view_endCall_of_not_mine hn c)
    | _ => exact view_endCall_of_not_mine hn c

theorem respects_subscribe (run : String) : P.Respects mine fun c => (c.subscribe run).2 := by
  intro c
  have hrun : (P.view mine c).isRunning = c.isRunning := rfl
  simp only [Client.subscribe, hrun, Client.tell_eq, Client.told]
  split <;> simp [view, share_share, List.filter_append, List.filter_filter, Table.keep_set_keep]

theorem respects_send (now : Nat) (id : String) (params : Wire.SendParams) :
    P.Respects mine fun c => (c.send now id params).2 := by
  intro c
  have hrun : (P.view mine c).isRunning = c.isRunning := rfl
  simp only [Client.send, Client.begin, Client.tell_eq, Client.told, hrun]
  split <;> simp [view, share_share, List.filter_append, List.filter_filter, Table.keep_set_keep]

end Party

/-- It is a move of the supervisor. -/
def Move.supervises : Move → Bool
  | .takeCommand _ _ => true
  | .takeReport _ _ => true
  | .takeAlarm _ _ => true
  | _ => false

theorem Client.cue?_of_not_supervises {m : Move} (h : m.supervises = false) (c : Client) : c.cue? m = none := by
  cases m <;> first | rfl | cases h

namespace Party

variable {P : Party} {mine : Nat → Bool} {c d : Client} {m : Move}

/-- **What a party sees after a move of a caller or reader depends on what it saw before.** -/
theorem view_move (hs : P.Suits mine c) (hm : m.supervises = false) (he : m.epoch? = none) :
    P.view mine (c.move m) = P.view mine ((P.view mine c).move m) := by
  cases m with
  | share => exact (view_view c).symm
  | letGo => exact (view_view c).symm
  | connect now => exact respects_begin _ _ c
  | query now id q timeout => exact respects_begin _ _ c
  | send now id params => exact respects_send now id params c
  | destroy => exact respects_begin _ _ c
  | poll now n =>
    cases hn : mine n with
    | true => exact (poll_view hs hn now).2
    | false =>
      have hnone : (P.view mine c).calls.get? n = none := Table.get?_keep_of_false _ hn
      have hself : (P.view mine c).move (.poll now n) = P.view mine c := by
        simp only [Client.move, Client.poll, hnone]
      rw [hself, view_view]
      exact view_poll_of_not_mine hs hn now
  | abandon n =>
    cases hn : mine n with
    | true => exact abandon_view hn c
    | false =>
      have hnone : (P.view mine c).calls.get? n = none := Table.get?_keep_of_false _ hn
      have hself : (P.view mine c).move (.abandon n) = P.view mine c := by
        simp [Client.move, Table.contains, hnone]
      rw [hself, view_view]
      exact view_abandon_of_not_mine hs hn
  | subscribe run => exact respects_subscribe run c
  | beginPull now stream => exact respects_modifyStream stream _ c
  | leavePull stream => exact respects_modifyStream stream _ c
  | pull now stream =>
    cases hl : P.hears stream with
    | true => exact (pull_view hs hl now).2
    | false =>
      exact (view_pull_of_not_hears hl now c).trans
        ((view_pull_of_not_hears hl now (P.view mine c)).trans (view_view c)).symm
  | dropStream stream =>
    cases hl : P.hears stream with
    | true => exact dropStream_view hl c
    | false =>
      exact (view_dropStream_of_not_hears hl c).trans
        ((view_dropStream_of_not_hears hl (P.view mine c)).trans (view_view c)).symm
  | takeCommand => cases hm
  | takeReport => cases hm
  | takeAlarm => cases hm
  | _ => cases he

/-! ### What the supervisor takes -/

/-- The party's answers among all effects. -/
theorem keep_onTickets (es : List Effect) (ts : Tickets) : (es.foldl Effect.onTickets ts).keep mine =
    (es.filter (P.notes mine)).foldl Effect.onTickets (ts.keep mine) := by
  induction es generalizing ts with
  | nil => rfl
  | cons e es ih =>
    rw [List.foldl_cons, ih]
    cases e with
    | answer n a =>
      cases hn : mine n with
      | true =>
        rw [List.filter_cons_of_pos (by exact hn), List.foldl_cons]
        simp only [Effect.onTickets, Tickets.answer, Table.keep_modify]
      | false =>
        rw [List.filter_cons_of_neg (by simp [notes, hn])]
        simp only [Effect.onTickets, Tickets.answer, Table.keep_modify_of_false _ hn]
    | deliver box e =>
      rw [List.filter_cons]
      split <;> rfl
    | _ => rfl

/-- The party's events among all effects. -/
theorem keep_onBoxes (mine : Nat → Bool) (es : List Effect) (bs : Mailboxes) : (es.foldl Effect.onBoxes bs).keep P.hears =
    (es.filter (P.notes mine)).foldl Effect.onBoxes (bs.keep P.hears) := by
  induction es generalizing bs with
  | nil => rfl
  | cons e es ih =>
    rw [List.foldl_cons, ih]
    cases e with
    | deliver box e =>
      cases hl : P.hears box with
      | true =>
        rw [List.filter_cons_of_pos (by exact hl), List.foldl_cons]
        simp only [Effect.onBoxes, Mailboxes.deliver, Table.keep_modify]
      | false =>
        rw [List.filter_cons_of_neg (by simp [notes, hl])]
        simp only [Effect.onBoxes, Mailboxes.deliver, Table.keep_modify_of_false _ hl]
    | answer n a =>
      rw [List.filter_cons]
      split <;> rfl
    | _ => rfl

/-- What the party sees after the supervisor has taken something. -/
theorem view_handle (c : Client) (x : Cue) : P.view mine (c.handle x) = { P.view mine c with
    connection := (P.portion mine (c.outcome x)).1
    isRunning := c.isRunning && ! x.input.isLast
    commands := (c.commandsAfter x.input).filter P.wants
    tickets := (P.portion mine (c.outcome x)).2.foldl Effect.onTickets (c.tickets.keep mine)
    boxes := (P.portion mine (c.outcome x)).2.foldl Effect.onBoxes (c.boxes.keep P.hears) } := by
  rw [Client.handle_eq]
  simp only [view, keep_onTickets (P := P), keep_onBoxes (P := P) mine]
  rfl

/-- Of the surroundings the party sees what it sees of the client. -/
theorem sees_surroundings (c : Client) (now : Nat) (freshId : String) :
    P.sees mine (c.surroundings now freshId) =
      ((P.view mine c).surroundings now freshId).relink c.sockets.isOpen := by
  have hwaiting : ∀ n, (mine n && c.tickets.isWaiting n) = Tickets.isWaiting (c.tickets.keep mine) n := by
    intro n
    unfold Tickets.isWaiting
    rw [Table.get?_keep]
    cases mine n <;> simp
  have haccepts : ∀ box, (P.hears box && c.boxes.accepts box) = Mailboxes.accepts (c.boxes.keep P.hears) box := by
    intro box
    unfold Mailboxes.accepts
    rw [Table.get?_keep]
    cases P.hears box <;> simp
  simp only [sees, Client.surroundings, Surroundings.relink, hwaiting, haccepts]
  rfl

variable {x : Cue}

/-- **Two clients that look the same to a party** give it the same portion of what their supervisors do, if their
links are equally up. -/
theorem portion_outcome (hc : P.Suits mine c) (hd : P.Suits mine d) (hv : P.view mine c = P.view mine d)
    (hup : ∀ link, c.connection.link = some link → d.sockets.isOpen link = c.sockets.isOpen link)
    (halive : c.connection.isDestroyed = false) (hi : P.Parts mine x.input) (hk : P.keeps x.input = true) :
    P.portion mine (c.outcome x) = P.portion mine (d.outcome x) := by
  have hshare : P.share c.connection = P.share d.connection := congrArg Client.connection hv
  have halive' : d.connection.isDestroyed = false := (congrArg Connection.isDestroyed hshare).symm.trans halive
  have hprofile : (P.view mine c).profile = (P.view mine d).profile := congrArg Client.profile hv
  change c.profile = d.profile at hprofile
  unfold Client.outcome
  rw [portion_handle hc.connection halive hi hk, portion_handle hd.connection halive' hi hk, sees_surroundings,
    sees_surroundings, ← hv, ← hprofile, ← hshare]
  have hrelink : ((P.view mine c).surroundings x.now x.freshId).relink d.sockets.isOpen =
      (((P.view mine c).surroundings x.now x.freshId).relink c.sockets.isOpen).relink d.sockets.isOpen := rfl
  rw [hrelink]
  exact congrArg _ (Connection.handle_relink hup x.input).symm

/-! ### Every move keeps apart what is the party's -/

/-- What the supervisor takes keeps apart what is the party's. -/
theorem Suits.parts (hs : P.Suits mine c) (hx : c.cue? m = some x) : P.Parts mine x.input := by
  cases hi : x.input with
  | command cmd =>
    have hcmds := Client.commands_of_cue? hx hi
    exact hs.commands cmd (hcmds ▸ List.mem_cons_self)
  | _ => trivial

theorem Suits.handle (hs : P.Suits mine c) (hd : c.connection.isDestroyed = false)
    (hi : P.Parts mine x.input) : P.Suits mine (c.handle x) := by
  rw [Client.handle_eq]
  exact ⟨hs.connection.acts hi (acts_handle hd x.input),
    fun cmd hcmd => hs.commands cmd (Client.mem_of_mem_commandsAfter hcmd), hs.calls⟩

/-- The number that a call gets in the move is the party's if its name is, and a run that a listener of the party is
to follow is asked for under a name of the party. -/
def Numbers (P : Party) (mine : Nat → Bool) (c : Client) : Move → Prop
  | .connect _ => mine c.nextTicket = false
  | .query _ id _ _ => mine c.nextTicket = P.ids id
  | .send _ id _ => mine c.nextTicket = P.ids id ∧ (P.hears c.nextListener = true → P.ids id = true)
  | .destroy => mine c.nextTicket = false
  | _ => True

/-- A call begins. -/
theorem Suits.begin (cmd : Command) (call : Call) (hs : P.Suits mine c) (hcmd : P.Fair mine cmd)
    (hname : mine c.nextTicket = call.purpose.name?.any P.ids)
    (hl : ∀ l ∈ call.purpose.listener?, P.hears l = true → mine c.nextTicket = true)
    (hconn : d.connection = c.connection) (hcmds : d.commands = c.told cmd)
    (hcalls : d.calls = c.calls.set c.nextTicket call) : P.Suits mine d := by
  refine ⟨hconn ▸ hs.connection, fun cmd' hcmd' => ?_, fun n call' hcall => ?_⟩
  · rcases Client.mem_told (hcmds ▸ hcmd') with hcmd' | rfl
    · exact hs.commands cmd' hcmd'
    · exact hcmd
  · rw [hcalls, Table.get?_set] at hcall
    split at hcall
    · rename_i hn
      subst hn
      cases hcall
      exact ⟨hname, hl⟩
    · exact hs.calls n call' hcall

/-- Calls end at most, and the supervisor is told what brings no request. -/
theorem Suits.of_told (cmd : Command) (hs : P.Suits mine c) (hcmd : P.Fair mine cmd)
    (hconn : d.connection = c.connection) (hcmds : ∀ y ∈ d.commands, y ∈ c.told cmd)
    (hcalls : ∀ n call, d.calls.get? n = some call → c.calls.get? n = some call) : P.Suits mine d := by
  refine ⟨hconn ▸ hs.connection, fun cmd' hcmd' => ?_, fun n call h => hs.calls n call (hcalls n call h)⟩
  rcases Client.mem_told (hcmds cmd' hcmd') with hcmd' | rfl
  · exact hs.commands cmd' hcmd'
  · exact hcmd

/-- **Every move keeps apart what is the party's.** -/
theorem Suits.move (hs : P.Suits mine c) (hx : c.cue? m = none) (hn : P.Numbers mine c m) :
    P.Suits mine (c.move m) := by
  have hd := does_move c m
  generalize c.move m = c' at hd
  cases hd with
  | calls ha =>
    cases ha with
    | connect =>
      refine Suits.begin _ _ hs ?_ ?_ ?_ rfl rfl rfl
      · exact hn
      · exact hn
      · simp [Purpose.listener?]
    | query =>
      refine Suits.begin _ _ hs ?_ ?_ ?_ rfl rfl rfl
      · exact ⟨hn, by simp⟩
      · exact hn
      · simp [Purpose.listener?]
    | destroy =>
      refine Suits.begin _ _ hs ?_ ?_ ?_ rfl rfl rfl
      · trivial
      · exact hn
      · simp [Purpose.listener?]
  | sends =>
    refine Suits.begin _ _ hs ?_ ?_ ?_ rfl rfl rfl
    · refine ⟨hn.1, fun l hl => ?_⟩
      cases hl
      exact ⟨rfl, hn.2⟩
    · exact hn.1
    · intro l hl hh
      cases hl
      exact hn.1.trans (hn.2 hh)
  | ends => exact ⟨hs.connection, hs.commands, fun n call h => hs.calls n call (Table.get?_of_erase h)⟩
  | @expires now n call id =>
    exact Suits.of_told (.cancelRequest id) hs trivial rfl (fun _ hy => hy) fun _ _ => Table.get?_of_erase
  | follows => exact ⟨hs.connection, hs.commands, fun n call h => hs.calls n call (Table.get?_of_erase h)⟩
  | @subscribes run =>
    exact Suits.of_told (.listen run ⟨c.nextListener, c.nextListener⟩) hs rfl rfl (fun _ hy => hy) fun _ _ => id
  | @idles now stream s =>
    exact Suits.of_told (.unlisten s.run stream) hs trivial rfl (fun _ hy => hy) fun _ _ => id
  | @drops stream s =>
    refine Suits.of_told (.unlisten s.run stream) hs trivial rfl (fun y hy => ?_) fun _ _ => id
    simp only at hy
    split at hy
    · exact Client.mem_told_of_mem hy
    · exact hy
  | handles hx' =>
    rw [hx] at hx'
    cases hx'
  | _ => exact ⟨hs.connection, hs.commands, hs.calls⟩

end Party

end TurnRelay.Gateway
