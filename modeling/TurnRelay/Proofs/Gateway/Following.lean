import TurnRelay.Proofs.Gateway.Listening

/-!
# What a stream yields

The gateway answers a call for a run with the run's name, and in the same step the supervisor seats the
call's listener in the audience of that run. From then on every event of the run that the supervisor handles
goes into the listener's mailbox, until a terminal one or until the connection ends; the reader takes them out
in this order. What was handled and what was yielded are both read off the moves of the run, and `Stage` relates
them to each other through what is still in the mailbox.

## The model

* `Client.heard`, `Client.yields` — the events that the supervisor handles, and those that the stream yields.
* `Linked` — the way from the supervisor to the mailbox is as it should be.
* `Stage` — a call for a run, the stream it becomes, and its end.

## What is proved

* `tracks_run` — every run keeps the relation.
* `faithful_run` — a stream yields every event of its run, once and in order, and ends for good reasons only.
-/

namespace TurnRelay.Gateway

/-! ### Events that are handled and events that are yielded -/

/-- The event of a run that a text holds, if it can be read. -/
def chatEvent? (t : String) : Option Wire.RunEvent :=
  match Wire.Frame.parse? t with
  | some (.event name payload _) =>
    match Wire.classify name payload with
    | .chat e => some e
    | _ => none
  | _ => none

theorem chatEvent?_eq_some_iff {t : String} {e : Wire.RunEvent} :
    chatEvent? t = some e ↔ Tidings.ofText t = .chat e := by
  rw [Tidings.ofText_eq_chat_iff]
  unfold chatEvent?
  constructor
  · intro h
    split at h
    · rename_i name payload seq hp
      split at h
      · rename_i hc
        cases h
        exact ⟨name, payload, seq, hp, hc⟩
      · cases h
    · cases h
  · rintro ⟨name, payload, seq, hp, hc⟩
    rw [hp]
    simp only [hc]

/-- The events up to the first terminal one. -/
def throughTerminal : List Wire.RunEvent → List Wire.RunEvent
  | [] => []
  | e :: es => if e.state.isTerminal then [e] else e :: throughTerminal es

/-- The last of the events is terminal. -/
def concludes (es : List Wire.RunEvent) : Bool := es.getLast?.any fun e => e.state.isTerminal

theorem concludes_concat (es : List Wire.RunEvent) (e : Wire.RunEvent) :
    concludes (es ++ [e]) = e.state.isTerminal := by
  simp [concludes]

/-- After a terminal event nothing is added. -/
theorem throughTerminal_concat (es : List Wire.RunEvent) (e : Wire.RunEvent) :
    throughTerminal (es ++ [e]) =
      if concludes (throughTerminal es) then throughTerminal es else throughTerminal es ++ [e] := by
  induction es with
  | nil =>
    simp only [List.nil_append, throughTerminal]
    split <;> rfl
  | cons d es ih =>
    rw [List.cons_append, throughTerminal, throughTerminal]
    cases hd : d.state.isTerminal with
    | true => simp [concludes, hd]
    | false =>
      have hc : concludes (d :: throughTerminal es) = concludes (throughTerminal es) := by
        cases ht : throughTerminal es with
        | nil => simp [concludes, hd]
        | cons e' es' => simp [concludes, List.getLast?_cons_cons]
      simp only [Bool.false_eq_true, if_false, hc, ih]
      split <;> rfl

/-- The events that have been handled, once one more may have been. -/
def grown (es : List Wire.RunEvent) : Option Wire.RunEvent → List Wire.RunEvent
  | none => es
  | some e => if concludes es then es else es ++ [e]

theorem isPrefix_grown (es : List Wire.RunEvent) (o : Option Wire.RunEvent) : es <+: grown es o := by
  cases o with
  | none => exact List.prefix_refl _
  | some e =>
    simp only [grown]
    split
    · exact List.prefix_refl _
    · exact List.prefix_append _ _

namespace Client

/-- The event of the run that the supervisor handles in a move, if it does so on the connection of an epoch. -/
def heard? (epoch : Nat) (run : String) (c : Client) (m : Move) : Option Wire.RunEvent :=
  match c.cue? m with
  | some ⟨_, _, .report k (.text t)⟩ =>
    if k = epoch ∧ c.connection.epoch = epoch then
      (chatEvent? t).filter fun e => decide (e.runId = run)
    else none
  | _ => none

/-- The event that the stream yields in a move. -/
def yielded? (l : Nat) (c : Client) : Move → Option Wire.RunEvent
  | .pull now k =>
    if k = l then
      match (c.pull now l).1 with
      | .event e => some e
      | _ => none
    else none
  | _ => none

/-- The events of the run that the supervisor handles on the connection of an epoch, up to the first terminal
one. -/
def heard (epoch : Nat) (run : String) (c : Client) (moves : List Move) : List Wire.RunEvent :=
  throughTerminal (c.collect (heard? epoch run) moves)

/-- The events that the stream yields. -/
def yields (l : Nat) (c : Client) (moves : List Move) : List Wire.RunEvent := c.collect (yielded? l) moves

variable {c c' : Client} {m : Move} {x : Cue} {epoch l n : Nat} {run : String} {moves : List Move}

theorem heard?_eq_none (h : c.cue? m = none) : heard? epoch run c m = none := by
  unfold heard?
  rw [h]

theorem yielded?_eq_none (h : ∀ now e, m = .pull now l → (c.pull now l).1 ≠ .event e) :
    yielded? l c m = none := by
  unfold yielded?
  split
  · rename_i now k
    split
    · rename_i hk
      split
      · rename_i e he
        exact absurd he (h now e (by rw [hk]))
      · rfl
    · rfl
  · rfl

theorem yielded?_of_cue? (h : c.cue? m = some x) : yielded? l c m = none := by
  cases m <;> first | rfl | cases h

theorem yielded?_of_event {now : Nat} {e : Wire.RunEvent} (h : (c.pull now l).1 = .event e) :
    yielded? l c (.pull now l) = some e := by
  simp [yielded?, h]

theorem yields_concat : c.yields l (moves ++ [m]) = c.yields l moves ++ (yielded? l (c.run moves) m).toList :=
  collect_concat _ _ _ _

theorem yields_concat_of_none (h : yielded? l (c.run moves) m = none) :
    c.yields l (moves ++ [m]) = c.yields l moves := by
  rw [yields_concat, h, Option.toList_none, List.append_nil]

theorem heard_concat : c.heard epoch run (moves ++ [m]) =
    grown (c.heard epoch run moves) (heard? epoch run (c.run moves) m) := by
  unfold heard
  rw [collect_concat]
  cases heard? epoch run (c.run moves) m with
  | none => rw [Option.toList_none, List.append_nil, grown]
  | some e => rw [Option.toList_some, throughTerminal_concat, grown]

theorem heard?_of_ne (h : c.connection.epoch ≠ epoch) : heard? epoch run c m = none := by
  unfold heard?
  split
  · exact if_neg fun he => h he.2
  · rfl

theorem heard?_of_chat {t : String} {e : Wire.RunEvent} (hx : c.cue? m = some x)
    (hi : x.input = .report c.connection.epoch (.text t)) (ht : Tidings.ofText t = .chat e) :
    heard? epoch run c m =
      if c.connection.epoch = epoch then (if e.runId = run then some e else none) else none := by
  obtain ⟨now, freshId, input⟩ := x
  cases hi
  simp only [heard?, hx, and_self, chatEvent?_eq_some_iff.2 ht, Option.filter_some, decide_eq_true_eq]

theorem heard?_of_not_chat (hx : c.cue? m = some x)
    (hno : ∀ t e, x.input = .report c.connection.epoch (.text t) → Tidings.ofText t ≠ .chat e) :
    heard? epoch run c m = none := by
  obtain ⟨now, freshId, input⟩ := x
  unfold heard?
  rw [hx]
  split
  · rename_i k t heq
    cases heq
    split
    · rename_i hk
      have hn : chatEvent? t = none := by
        cases hc : chatEvent? t with
        | none => rfl
        | some e => exact absurd (chatEvent?_eq_some_iff.1 hc) (hno t e (by rw [hk.1, hk.2]))
      rw [hn]
      rfl
    · rfl
  · rfl

/-! ### The way to the mailbox -/

/-- The events `es` have been handled, and the listener is where it should be: in the audience, if more may
come, and nowhere otherwise. -/
structure Linked (c : Client) (epoch : Nat) (run : String) (l : Nat) (es : List Wire.RunEvent) : Prop where
  /-- No command brings it. -/
  commands : ∀ cmd ∈ c.commands, cmd.Spares l
  /-- No outstanding request brings it. -/
  requests : ∀ e ∈ c.connection.outstanding.entries, e.2.Spares l
  /-- No command lets it go. -/
  unlisten : ∀ run', .unlisten run' l ∉ c.commands
  /-- Its seat. -/
  seat : (c.connection.epoch = epoch ∧ c.connection.phase = .connected ∧
      (concludes es = false → c.connection.audience.Seats run l) ∧
      (concludes es = true → c.connection.audience.Spares l)) ∨
    epoch < c.connection.epoch ∧ c.connection.audience.Spares l

/-- Who is about others does not get in the way. -/
theorem Linked.apart {es : List Wire.RunEvent} (h : c.Linked epoch run l es) (ha : c.Apart l m c') :
    c'.Linked epoch run l es := by
  obtain ⟨cmds, hc, hcmds⟩ := ha.commands
  refine ⟨fun cmd hm => ?_, ha.idle.connection ▸ h.requests, fun run' hm => ?_,
    ha.idle.connection ▸ h.seat⟩
  · rw [hc] at hm
    rcases List.mem_append.1 hm with hm | hm
    · exact h.commands cmd hm
    · exact (hcmds cmd hm).1
  · rw [hc] at hm
    rcases List.mem_append.1 hm with hm | hm
    · exact h.unlisten run' hm
    · exact (hcmds _ hm).2 run' rfl

/-- What a step of the supervisor that handles no event does to the seat. -/
theorem Linked.seat_of_stirs {es : List Wire.RunEvent} (h : c.Linked epoch run l es) (hs : c.Sound)
    (hx : c.cue? m = some x)
    (hno : ∀ t e, x.input = .report c.connection.epoch (.text t) → Tidings.ofText t ≠ .chat e) :
    ((c.outcome x).1.epoch = epoch ∧ (c.outcome x).1.phase = .connected ∧
      (concludes es = false → (c.outcome x).1.audience.Seats run l) ∧
      (concludes es = true → (c.outcome x).1.audience.Spares l)) ∨
    epoch < (c.outcome x).1.epoch ∧ (c.outcome x).1.audience.Spares l := by
  have haud := fun ha => (spares_audience_of_handle hs hx (fun run y hm => h.commands _ hm y rfl)
    (fun _ _ _ _ _ _ _ _ hr => h.requests _ (Table.mem_of_get? hr)) ha).1
  have hle := Connection.epoch_le_of_acts (hs.acts hx)
  rcases h.seat with ⟨he, hp, hseats, hspares⟩ | ⟨hlt, hsp⟩
  · have hst := hs.phase.stirs (hs.expects hx) (hs.acts hx)
    generalize hi : x.input = i at hst
    generalize (c.outcome x).1 = c', (c.outcome x).2 = effects at hst haud hle
    cases hst with
    | calm _ ha hst =>
      exact .inl ⟨hst.1.trans he, hst.2 hp, fun hc => ha ▸ hseats hc, fun hc => haud (hspares hc)⟩
    | attempts _ _ hne => exact absurd hp hne
    | @listens run' y ha hst =>
      refine .inl ⟨hst.1.trans he, hst.2 hp, fun hc => ?_, fun hc => haud (hspares hc)⟩
      rw [ha]
      exact (hseats hc).add (h.commands _ (commands_of_cue? hx hi ▸ List.mem_cons_self) y rfl)
    | @unlistens run' k ha hst =>
      refine .inl ⟨hst.1.trans he, hst.2 hp, fun hc => ?_, fun hc => haud (hspares hc)⟩
      rw [ha]
      refine (hseats hc).remove fun hk => ?_
      exact h.unlisten run' (hk ▸ commands_of_cue? hx hi ▸ List.mem_cons_self)
    | admits _ hr _ ha hst =>
      refine .inl ⟨hst.1.trans he, hst.2 hp, fun hc => ?_, fun hc => haud (hspares hc)⟩
      rw [ha]
      exact (hseats hc).audienceAfter (h.requests _ (Table.mem_of_get? hr)) _ _ _
    | delivers ht => exact absurd ht (hno _ _ hi)
    | clears _ ha hlt => exact .inr ⟨he ▸ hlt, ha ▸ Audience.spares_empty l⟩
  · exact .inr ⟨Nat.lt_of_lt_of_le hlt hle, haud hsp⟩

/-- An event that the supervisor handles comes into the mailbox if it is one of the run. -/
theorem Linked.handle_of_chat {es q : List Wire.RunEvent} {t : String} {e : Wire.RunEvent}
    (h : c.Linked epoch run l es) (hb : c.boxes.get? l = some ⟨q, true⟩)
    (hi : x.input = .report c.connection.epoch (.text t)) (ht : Tidings.ofText t = .chat e) :
    ∃ new, grown es (if c.connection.epoch = epoch then (if e.runId = run then some e else none) else none) =
        es ++ new ∧
      ((c.outcome x).2.foldl Effect.onBoxes c.boxes).get? l = some ⟨q ++ new, true⟩ ∧
      (((c.outcome x).1.epoch = epoch ∧ (c.outcome x).1.phase = .connected ∧
        (concludes (es ++ new) = false → (c.outcome x).1.audience.Seats run l) ∧
        (concludes (es ++ new) = true → (c.outcome x).1.audience.Spares l)) ∨
      epoch < (c.outcome x).1.epoch ∧ (c.outcome x).1.audience.Spares l) := by
  have hl : (c.surroundings x.now x.freshId).accepts l = true := by
    simp [surroundings, Mailboxes.accepts, hb]
  simp only [outcome, hi, Connection.handle_of_chat ht]
  generalize (c.surroundings x.now x.freshId).accepts = accepts at hl
  rcases h.seat with ⟨he, hp, hseats, hspares⟩ | ⟨hlt, hsp⟩
  · rw [if_pos he]
    cases hc : concludes es with
    | true =>
      -- there was a terminal event, so nobody is there any more
      have hsp := hspares hc
      refine ⟨[], ?_, ?_, .inl ⟨he, hp, ?_, fun _ => hsp.dispatch e⟩⟩
      · split
        · simp [grown, hc]
        · simp [grown]
      · rw [get?_onBoxes_of_not_mem e hsp.not_reached, hb, List.append_nil]
      · simp [hc]
    | false =>
      have hst := hseats hc
      by_cases hr : e.runId = run
      · subst hr
        obtain ⟨⟨before, after, hreached, hnot⟩, hlast, hmore⟩ := hst.dispatch_self hl
        rw [if_pos rfl]
        refine ⟨[e], by simp [grown, hc], ?_, .inl ⟨he, hp, ?_, ?_⟩⟩
        · rw [hreached, get?_onBoxes_of_mem e hnot, hb]
          rfl
        · rw [concludes_concat]
          exact hmore
        · rw [concludes_concat]
          exact hlast
      · obtain ⟨hseats', hnot⟩ := @Audience.Seats.dispatch_of_ne accepts _ _ _ e hst hr
        rw [if_neg hr]
        refine ⟨[], by simp [grown], ?_, .inl ⟨he, hp, fun _ => hseats', ?_⟩⟩
        · rw [get?_onBoxes_of_not_mem e hnot, hb, List.append_nil]
        · simp [hc]
  · rw [if_neg (Nat.ne_of_gt hlt)]
    refine ⟨[], by simp [grown], ?_, .inr ⟨hlt, hsp.dispatch e⟩⟩
    rw [get?_onBoxes_of_not_mem e hsp.not_reached, hb, List.append_nil]

/-- What the supervisor handles for a listener comes into its mailbox, and nothing else does. -/
theorem Linked.handle {es q : List Wire.RunEvent} (h : c.Linked epoch run l es) (hs : c.Sound)
    (hx : c.cue? m = some x) (hb : c.boxes.get? l = some ⟨q, true⟩) :
    ∃ new, grown es (heard? epoch run c m) = es ++ new ∧
      (c.handle x).boxes.get? l = some ⟨q ++ new, true⟩ ∧ (c.handle x).Linked epoch run l (es ++ new) := by
  have hlinked : ∀ {new : List Wire.RunEvent},
      (((c.outcome x).1.epoch = epoch ∧ (c.outcome x).1.phase = .connected ∧
        (concludes (es ++ new) = false → (c.outcome x).1.audience.Seats run l) ∧
        (concludes (es ++ new) = true → (c.outcome x).1.audience.Spares l)) ∨
      epoch < (c.outcome x).1.epoch ∧ (c.outcome x).1.audience.Spares l) →
      (c.handle x).Linked epoch run l (es ++ new) := by
    intro new hseat
    rw [handle_eq]
    exact ⟨spares_commandsAfter h.commands, spares_requests_of_handle hs hx h.commands h.requests,
      fun run' hm => h.unlisten run' (mem_of_mem_commandsAfter hm), hseat⟩
  have hboxes : (c.handle x).boxes = (c.outcome x).2.foldl Effect.onBoxes c.boxes := by rw [handle_eq]
  by_cases hchat : ∃ t e, x.input = .report c.connection.epoch (.text t) ∧ Tidings.ofText t = .chat e
  · obtain ⟨t, e, hi, ht⟩ := hchat
    obtain ⟨new, hg, hq, hseat⟩ := h.handle_of_chat hb hi ht
    exact ⟨new, by rw [heard?_of_chat hx hi ht, hg], by rw [hboxes, hq], hlinked hseat⟩
  · have hno : ∀ t e, x.input = .report c.connection.epoch (.text t) → Tidings.ofText t ≠ .chat e :=
      fun t e hi ht => hchat ⟨t, e, hi, ht⟩
    refine ⟨[], by rw [heard?_of_not_chat hx hno, grown, List.append_nil], ?_, hlinked ?_⟩
    · have hst := hs.phase.stirs (hs.expects hx) (hs.acts hx)
      rw [hboxes, onBoxes_eq_self (hst.no_deliver hno), hb, List.append_nil]
    · rw [List.append_nil]
      exact h.seat_of_stirs hs hx hno

/-! ### From the call to the end of the stream -/

/-- No call under way brings the listener. -/
def Unasked (c : Client) (l : Nat) : Prop :=
  ∀ k call, c.calls.get? k = some call → call.purpose.listener? ≠ some l

/-- **Where a listener stands** when it has yielded the events `ys` and the events `es` have been handled for it:
its caller does not know of the answer yet, or there is a stream, which may have ended, or nothing of it is left.
`since` holds of the deadlines of pulls, and `gap` if a pull took too long. -/
inductive Stage (c : Client) (epoch : Nat) (run : String) (l : Nat) (ys es : List Wire.RunEvent)
    (since : Nat → Prop) (gap : Prop) : Prop where
  /-- The caller has not looked yet. -/
  | awaits {k : Nat} {call : Call} : c.calls.get? k = some call → call.purpose.listener? = some l →
      (∀ j call', c.calls.get? j = some call' → call'.purpose.listener? = some l → j = k) →
      c.streams.get? l = none → c.boxes.get? l = some ⟨es, true⟩ → ys = [] → c.Linked epoch run l es →
      Stage c epoch run l ys es since gap
  /-- The reader reads; what was handled is yielded or in the mailbox. -/
  | reads {s : RunStream} {queue : List Wire.RunEvent} : c.Unasked l → c.streams.get? l = some s →
      s.isFinished = false → s.sawTerminal = false → (∀ d, s.deadline = some d → since d) →
      c.boxes.get? l = some ⟨queue, true⟩ → ys ++ queue = es → concludes ys = false →
      c.Linked epoch run l es → Stage c epoch run l ys es since gap
  /-- The stream has ended, for a reason. -/
  | finished {s : RunStream} : c.Unasked l → c.streams.get? l = some s → s.isFinished = true →
      s.sawTerminal = concludes ys → ys <+: es →
      concludes ys = true ∨ (epoch < c.connection.epoch ∧ ys = es) ∨ gap →
      Stage c epoch run l ys es since gap
  /-- Nothing is left. -/
  | gone : c.Unasked l → c.streams.get? l = none → ys <+: es → Stage c epoch run l ys es since gap

section

variable {ys es : List Wire.RunEvent} {since since' : Nat → Prop} {gap gap' : Prop}

theorem Stage.inOrder (h : c.Stage epoch run l ys es since gap) : ys <+: es := by
  cases h with
  | awaits _ _ _ _ _ hy => exact hy ▸ List.nil_prefix
  | reads _ _ _ _ _ _ hy => exact ⟨_, hy⟩
  | finished _ _ _ _ hy => exact hy
  | gone _ _ hy => exact hy

/-- A stream that goes on. -/
theorem Stage.reads_of_eq {s : RunStream} (h : c.Stage epoch run l ys es since gap)
    (hs : c.streams.get? l = some s) (hf : s.isFinished = false) :
    ∃ queue, c.Unasked l ∧ s.sawTerminal = false ∧ (∀ d, s.deadline = some d → since d) ∧
      c.boxes.get? l = some ⟨queue, true⟩ ∧ ys ++ queue = es ∧ concludes ys = false ∧
      c.Linked epoch run l es := by
  cases h with
  | awaits _ _ _ hn => simp [hn] at hs
  | @reads s' queue hu hs' _ hsaw hsince hb hy hc hl =>
    cases hs.symm.trans hs'
    exact ⟨queue, hu, hsaw, hsince, hb, hy, hc, hl⟩
  | finished _ hs' hf' =>
    cases hs.symm.trans hs'
    simp [hf] at hf'
  | gone _ hn => simp [hn] at hs

/-- Moves that are about others. -/
theorem Stage.apart (h : c.Stage epoch run l ys es since gap) (ha : c.Apart l m c')
    (hsince : ∀ d, since d → since' d) (hgap : gap → gap') : c'.Stage epoch run l ys es since' gap' := by
  have hu : c.Unasked l → c'.Unasked l := fun hu k call hk hcall =>
    hu k call ((ha.calls k call hcall).1 hk) hcall
  cases h with
  | awaits hk hcall hsole hn hb hy hl =>
    exact .awaits ((ha.calls _ _ hcall).2 hk) hcall
      (fun j call' hj hcall' => hsole j call' ((ha.calls _ _ hcall').1 hj) hcall') (ha.streams ▸ hn)
      (ha.boxes ▸ hb) hy (hl.apart ha)
  | reads hno hs hf hsaw hd hb hy hc hl =>
    exact .reads (hu hno) (ha.streams ▸ hs) hf hsaw (fun d hd' => hsince d (hd d hd')) (ha.boxes ▸ hb) hy hc
      (hl.apart ha)
  | finished hno hs hf hsaw hy hr =>
    exact .finished (hu hno) (ha.streams ▸ hs) hf hsaw hy
      (hr.imp_right (Or.imp (fun hcut => ⟨ha.idle.connection ▸ hcut.1, hcut.2⟩) hgap))
  | gone hno hn hy => exact .gone (hu hno) (ha.streams ▸ hn) hy

/-- The call ends without a stream. -/
theorem Stage.ends {k : Nat} {call : Call} (h : c.Stage epoch run l ys es since gap)
    (hk : c.calls.get? k = some call) (hcall : call.purpose.listener? = some l)
    (hc : c'.calls = c.calls.erase k) (hs : c'.streams = c.streams) :
    c'.Stage epoch run l ys es since' gap' := by
  cases h with
  | awaits _ _ hsole hn _ hy =>
    refine .gone (fun j call' hj hcall' => ?_) (hs ▸ hn) (hy ▸ List.nil_prefix)
    obtain ⟨hne, hj⟩ := Table.get?_erase_eq_some_iff.1 (hc ▸ hj)
    exact hne ((hsole j call' hj hcall').trans (hsole k call hk hcall).symm)
  | reads hno => exact absurd hcall (hno k call hk)
  | finished hno => exact absurd hcall (hno k call hk)
  | gone hno => exact absurd hcall (hno k call hk)

/-- The call becomes a stream. -/
theorem Stage.follows {k : Nat} {call : Call} {run' : String} (h : c.Stage epoch run l ys es since gap)
    (hk : c.calls.get? k = some call) (hcall : call.purpose.listener? = some l) :
    ({ c with
      tickets := c.tickets.erase k, calls := c.calls.erase k,
      streams := c.streams.set l ⟨run', false, false, none⟩ } : Client).Stage epoch run l ys es
      since' gap' := by
  cases h with
  | awaits _ _ hsole hn hb hy hl =>
    refine .reads (fun j call' hj hcall' => ?_) (Table.get?_set_self _ _ _) rfl rfl
      (fun _ hd => nomatch hd) hb (by rw [hy, List.nil_append]) (by rw [hy]; rfl)
      ⟨hl.commands, hl.requests, hl.unlisten, hl.seat⟩
    obtain ⟨hne, hj⟩ := Table.get?_erase_eq_some_iff.1 hj
    exact hne ((hsole j call' hj hcall').trans (hsole k call hk hcall).symm)
  | reads hno => exact absurd hcall (hno k call hk)
  | finished hno => exact absurd hcall (hno k call hk)
  | gone hno => exact absurd hcall (hno k call hk)

/-- The stream is touched, but neither yields anything nor ends. -/
theorem Stage.touches {f : RunStream → RunStream} (h : c.Stage epoch run l ys es since gap)
    (hf : ∀ s, (f s).isFinished = s.isFinished ∧ (f s).sawTerminal = s.sawTerminal)
    (hd : ∀ s d, (f s).deadline = some d → s.deadline = some d ∨ since' d)
    (hsince : ∀ d, since d → since' d) (hgap : gap → gap') :
    ({ c with streams := c.streams.modify l f } : Client).Stage epoch run l ys es since' gap' := by
  have hget : ∀ {s : Option RunStream}, c.streams.get? l = s →
      (c.streams.modify l f).get? l = s.map f := by
    intro s hs
    rw [Table.get?_modify, if_pos rfl, hs]
  cases h with
  | awaits hk hcall hsole hn hb hy hl =>
    exact .awaits hk hcall hsole (hget hn) hb hy ⟨hl.commands, hl.requests, hl.unlisten, hl.seat⟩
  | @reads s queue hno hs hfin hsaw hdead hb hy hc hl =>
    refine .reads hno (hget hs) ((hf s).1.trans hfin) ((hf s).2.trans hsaw) (fun d hd' => ?_) hb hy hc
      ⟨hl.commands, hl.requests, hl.unlisten, hl.seat⟩
    rcases hd s d hd' with hd' | hd'
    · exact hsince d (hdead d hd')
    · exact hd'
  | @finished s hno hs hfin hsaw hy hr =>
    exact .finished hno (hget hs) ((hf s).1.trans hfin) ((hf s).2.trans hsaw) hy
      (hr.imp_right (Or.imp_right hgap))
  | gone hno hn hy => exact .gone hno (hget hn) hy

/-- The reader takes an event. -/
theorem Stage.takes {s : RunStream} {e : Wire.RunEvent} {rest : List Wire.RunEvent}
    (h : c.Stage epoch run l ys es since gap) (hs : c.streams.get? l = some s)
    (hf : s.isFinished = false) (hq : (c.box l).queue = e :: rest) :
    ({ c with
      boxes := c.boxes.set l { c.box l with queue := rest },
      streams := c.streams.modify l
        (RunStream.pulled e.state.isTerminal e.state.isTerminal) } : Client).Stage epoch run l
      (ys ++ [e]) es since' gap' := by
  obtain ⟨queue, hno, hsaw, -, hb, hy, hc, hl⟩ := h.reads_of_eq hs hf
  have hbox : c.box l = ⟨queue, true⟩ := by rw [box, hb, Option.getD_some]
  rw [hbox] at hq
  cases hq
  have hget : (c.streams.modify l (RunStream.pulled e.state.isTerminal e.state.isTerminal)).get? l =
      some (s.pulled e.state.isTerminal e.state.isTerminal) := by
    rw [Table.get?_modify, if_pos rfl, hs, Option.map_some]
  cases ht : e.state.isTerminal with
  | true =>
    rw [ht] at hget
    refine .finished hno hget (by simp [RunStream.pulled]) ?_ ⟨rest, by rw [← hy]; simp⟩
      (.inl (by rw [concludes_concat, ht]))
    rw [concludes_concat, ht]
    simp [RunStream.pulled]
  | false =>
    rw [ht] at hget
    have hy' : ys ++ [e] ++ rest = es := by rw [← hy, List.append_assoc, List.singleton_append]
    refine .reads hno hget (by simp [RunStream.pulled, hf]) (by simp [RunStream.pulled, hsaw])
      (by simp [RunStream.pulled]) ?_ hy' (by rw [concludes_concat, ht])
      ⟨hl.commands, hl.requests, hl.unlisten, hl.seat⟩
    rw [hbox, Table.get?_set_self]

/-- While more may come, the mailbox is fed. -/
theorem Linked.feeds (h : c.Linked epoch run l es) (hc : concludes es = false)
    (he : ¬ epoch < c.connection.epoch) : c.feeds l = true := by
  rcases h.seat with ⟨-, -, hseats, -⟩ | ⟨hlt, -⟩
  · obtain ⟨before, after, hm, -⟩ := hseats hc
    have hholds : c.connection.audience.holds l = true := by simp [Audience.holds, hm]
    simp [Client.feeds, hholds]
  · exact absurd hlt he

/-- The reader finds that nothing can come any more. -/
theorem Stage.endsPull {s : RunStream} (h : c.Stage epoch run l ys es since gap)
    (hs : c.streams.get? l = some s) (hf : s.isFinished = true ∨ c.isDry l = true) (hgap : gap → gap') :
    ({ c with streams := c.streams.modify l (RunStream.pulled true false) } : Client).Stage epoch run l
      ys es since' gap' := by
  have hget : (c.streams.modify l (RunStream.pulled true false)).get? l = some (s.pulled true false) := by
    rw [Table.get?_modify, if_pos rfl, hs, Option.map_some]
  cases hfin : s.isFinished with
  | true =>
    cases h with
    | awaits _ _ _ hn => simp [hn] at hs
    | reads _ hs' hf' =>
      cases hs.symm.trans hs'
      simp [hfin] at hf'
    | finished hno hs' _ hsaw hy hr =>
      cases hs.symm.trans hs'
      refine .finished hno hget (by simp [RunStream.pulled]) ?_ hy (hr.imp_right (Or.imp_right hgap))
      simpa [RunStream.pulled] using hsaw
    | gone _ hn => simp [hn] at hs
  | false =>
    obtain ⟨queue, hno, hsaw, -, hb, hy, hc, hl⟩ := h.reads_of_eq hs hfin
    have hdry := hf.resolve_left (by simp [hfin])
    simp only [isDry, box, hb, Option.getD_some, Bool.true_and, Bool.and_eq_true, List.isEmpty_iff,
      Bool.not_eq_true'] at hdry
    obtain ⟨rfl, hfeeds⟩ := hdry
    rw [List.append_nil] at hy
    refine .finished hno hget (by simp [RunStream.pulled]) ?_ (hy ▸ List.prefix_refl _) (.inr (.inl ⟨?_, hy⟩))
    · rw [hc]
      simp [RunStream.pulled, hsaw]
    · by_contra he
      have hfed := hl.feeds (hy ▸ hc) he
      simp [hfeeds] at hfed

/-- The reader has waited too long. -/
theorem Stage.idles {s : RunStream} {cmds : List Command} (h : c.Stage epoch run l ys es since gap)
    (hs : c.streams.get? l = some s) (hf : s.isFinished = false) (ht : c.isThirsty l = true)
    (hgap : ys = es → (∀ d, s.deadline = some d → since d) → gap') :
    ({ c with
      streams := c.streams.modify l (RunStream.pulled true false), commands := cmds } : Client).Stage epoch
      run l ys es since' gap' := by
  have hget : (c.streams.modify l (RunStream.pulled true false)).get? l = some (s.pulled true false) := by
    rw [Table.get?_modify, if_pos rfl, hs, Option.map_some]
  obtain ⟨queue, hno, hsaw, hd, hb, hy, hc, hl⟩ := h.reads_of_eq hs hf
  simp only [isThirsty, box, hb, Option.getD_some, Bool.true_and, Bool.and_eq_true, List.isEmpty_iff] at ht
  obtain ⟨rfl, -⟩ := ht
  rw [List.append_nil] at hy
  refine .finished hno hget (by simp [RunStream.pulled]) ?_ (hy ▸ List.prefix_refl _) (.inr (.inr (hgap hy hd)))
  rw [hc]
  simp [RunStream.pulled, hsaw]

/-- The reader goes away. -/
theorem Stage.drops {s : RunStream} (h : c.Stage epoch run l ys es since gap)
    (hs : c.streams.get? l = some s) (hc : c'.calls = c.calls) (hs' : c'.streams = c.streams.erase l) :
    c'.Stage epoch run l ys es since' gap' := by
  have hn : c'.streams.get? l = none := by rw [hs', Table.get?_erase_self]
  have hu : c.Unasked l → c'.Unasked l := fun hu k call hk => hu k call (hc ▸ hk)
  have hy := h.inOrder
  cases h with
  | awaits _ _ _ hn' => simp [hn'] at hs
  | reads hno => exact .gone (hu hno) hn hy
  | finished hno => exact .gone (hu hno) hn hy
  | gone _ hn' => simp [hn'] at hs

/-- The supervisor takes something. -/
theorem Stage.handle (h : c.Stage epoch run l ys es since gap) (hs : c.Sound) (hx : c.cue? m = some x)
    (hsince : ∀ d, since d → since' d) (hgap : gap → gap') :
    (c.handle x).Stage epoch run l ys (grown es (heard? epoch run c m)) since' gap' := by
  have hcalls : (c.handle x).calls = c.calls := by rw [handle_eq]
  have hstreams : (c.handle x).streams = c.streams := by rw [handle_eq]
  have hu : c.Unasked l → (c.handle x).Unasked l := fun hu k call hk => hu k call (hcalls ▸ hk)
  cases h with
  | awaits hk hcall hsole hn hb hy hl =>
    obtain ⟨new, hg, hb', hl'⟩ := hl.handle hs hx hb
    rw [hg]
    exact .awaits (hcalls ▸ hk) hcall (fun j call' hj => hsole j call' (hcalls ▸ hj)) (hstreams ▸ hn) hb' hy
      hl'
  | @reads s queue hno hs' hf hsaw hd hb hy hc hl =>
    obtain ⟨new, hg, hb', hl'⟩ := hl.handle hs hx hb
    rw [hg]
    exact .reads (hu hno) (hstreams ▸ hs') hf hsaw (fun d hd' => hsince d (hd d hd')) hb'
      (by rw [← hy, List.append_assoc]) hc hl'
  | finished hno hs' hf hsaw hy hr =>
    refine .finished (hu hno) (hstreams ▸ hs') hf hsaw (hy.trans (isPrefix_grown _ _)) ?_
    rcases hr with hr | ⟨hlt, he⟩ | hr
    · exact .inl hr
    · refine .inr (.inl ⟨?_, ?_⟩)
      · rw [handle_eq]
        exact Nat.lt_of_lt_of_le hlt (Connection.epoch_le_of_acts (hs.acts hx))
      · rw [heard?_of_ne (Nat.ne_of_gt hlt), grown, he]
    · exact .inr (.inr (hgap hr))
  | gone hno hn hy => exact .gone (hu hno) (hstreams ▸ hn) (hy.trans (isPrefix_grown _ _))

end

/-! ### Every run -/

/-- The reader has waited since it began to, for an event that is given up at a time, and the stream has yielded
nothing since. -/
def WaitsSince (c : Client) (l idle : Nat) (moves : List Move) (deadline : Nat) : Prop :=
  ∃ before later now, moves = before ++ .beginPull now l :: later ∧ deadline = now + idle ∧
    c.yields l before = c.yields l moves

/-- A pull took longer than `idle`: all that had been handled when it was given up had been yielded before it
began. -/
def HasGap (c : Client) (epoch : Nat) (run : String) (l idle : Nat) (moves : List Move) : Prop :=
  ∃ before later rest begun now, moves = before ++ .beginPull begun l :: later ++ .pull now l :: rest ∧
    begun + idle ≤ now ∧ c.yields l before = c.heard epoch run (before ++ .beginPull begun l :: later)

theorem WaitsSince.concat {idle deadline : Nat} (h : c.WaitsSince l idle moves deadline)
    (hy : yielded? l (c.run moves) m = none) : c.WaitsSince l idle (moves ++ [m]) deadline := by
  obtain ⟨before, later, now, hm, hd, hb⟩ := h
  refine ⟨before, later ++ [m], now, by simp [hm], hd, ?_⟩
  rw [yields_concat_of_none hy, hb]

theorem HasGap.concat {idle : Nat} (h : c.HasGap epoch run l idle moves) :
    c.HasGap epoch run l idle (moves ++ [m]) := by
  obtain ⟨before, later, rest, begun, now, hm, hd, hb⟩ := h
  exact ⟨before, later, rest ++ [m], begun, now, by simp [hm], hd, hb⟩

/-- A pull that is given up leaves a gap behind. -/
theorem WaitsSince.hasGap {idle deadline now : Nat} (h : c.WaitsSince l idle moves deadline)
    (hd : deadline ≤ now) (hy : c.yields l moves = c.heard epoch run moves) :
    c.HasGap epoch run l idle (moves ++ [.pull now l]) := by
  obtain ⟨before, later, begun, rfl, rfl, hb⟩ := h
  exact ⟨before, later, [], begun, now, rfl, hd, hb.trans hy⟩

/-- What is known of a listener in a run from `c` on. -/
structure Tracks (c : Client) (epoch : Nat) (run : String) (n l idle : Nat) (moves : List Move) : Prop where
  /-- The number was given. -/
  listener : l < (c.run moves).nextListener
  /-- The ticket was given. -/
  ticket : n < (c.run moves).nextTicket
  /-- The call brings no other listener. -/
  own : ∀ call, (c.run moves).calls.get? n = some call → call.purpose.listener? = some l
  /-- Where it stands. -/
  stage : (c.run moves).Stage epoch run l (c.yields l moves) (c.heard epoch run moves)
    (c.WaitsSince l idle moves) (c.HasGap epoch run l idle moves)

/-- What a move means for a listener keeps the relation. -/
theorem Stage.deals {idle : Nat} (h : (c.run moves).Stage epoch run l (c.yields l moves)
      (c.heard epoch run moves) (c.WaitsSince l idle moves) (c.HasGap epoch run l idle moves))
    (hs : (c.run moves).Sound) (hp : (c.run moves).profile.runIdleTimeout.nanos = idle)
    (hd : Deals (c.run moves) l m c') :
    c'.Stage epoch run l (c.yields l (moves ++ [m])) (c.heard epoch run (moves ++ [m]))
      (c.WaitsSince l idle (moves ++ [m])) (c.HasGap epoch run l idle (moves ++ [m])) := by
  -- moves in which nothing is handled and nothing is yielded
  have still : ∀ {m' : Move}, yielded? l (c.run moves) m' = none → (c.run moves).cue? m' = none →
      c'.Stage epoch run l (c.yields l moves) (c.heard epoch run moves)
        (c.WaitsSince l idle (moves ++ [m'])) (c.HasGap epoch run l idle (moves ++ [m'])) →
      c'.Stage epoch run l (c.yields l (moves ++ [m'])) (c.heard epoch run (moves ++ [m']))
        (c.WaitsSince l idle (moves ++ [m'])) (c.HasGap epoch run l idle (moves ++ [m'])) := by
    intro m' hy hx hst
    rw [yields_concat_of_none hy, heard_concat, heard?_eq_none hx, grown]
    exact hst
  cases hd with
  | apart ha =>
    have hy := yielded?_eq_none ha.pull
    exact still hy ha.cue (h.apart ha (fun d hd => hd.concat hy) HasGap.concat)
  | handles hx =>
    have hy := yielded?_of_cue? (l := l) hx
    rw [yields_concat_of_none hy, heard_concat]
    exact h.handle hs hx (fun d hd => hd.concat hy) HasGap.concat
  | ends hk hcall he =>
    cases he with
    | poll => exact still rfl rfl (h.ends hk hcall rfl rfl)
    | abandon => exact still rfl rfl (h.ends hk hcall rfl rfl)
  | expires hk hcall => exact still rfl rfl (h.ends hk hcall rfl rfl)
  | follows hk hcall => exact still rfl rfl (h.follows hk hcall)
  | @beginsPull now =>
    refine still rfl rfl (h.touches (fun s => ?_) (fun s d hd => ?_) (fun d hd => hd.concat rfl) HasGap.concat)
    · split <;> exact ⟨rfl, rfl⟩
    · split at hd
      · exact .inl hd
      · cases hd
        exact .inr ⟨moves, [], now, rfl, by rw [hp], (yields_concat_of_none rfl).symm⟩
  | leavesPull =>
    exact still rfl rfl (h.touches (fun s => by simp [RunStream.pulled]) (fun s d hd => nomatch hd)
      (fun d hd => hd.concat rfl) HasGap.concat)
  | @takes now s e rest hst hf hq hpl =>
    rw [yields_concat, yielded?_of_event hpl, Option.toList_some, heard_concat, heard?_eq_none rfl, grown]
    exact h.takes hst hf hq
  | endsPull hst hf hpl =>
    have hy := yielded?_eq_none (c := c.run moves) (l := l) (m := .pull _ l) fun _ e he => by
      cases he
      rw [hpl]
      simp
    exact still hy rfl (h.endsPull hst hf HasGap.concat)
  | @idles now s hst hf hth hdue hpl =>
    have hy := yielded?_eq_none (c := c.run moves) (l := l) (m := .pull now l) fun _ e he => by
      cases he
      rw [hpl]
      simp
    refine still hy rfl (h.idles hst hf hth fun heq hd => ?_)
    obtain ⟨d, hsd, hdn⟩ := (Option.any_eq_true _ _).1 hdue
    exact (hd d hsd).hasGap (of_decide_eq_true hdn) heq
  | drops hst => exact still rfl rfl (h.drops hst rfl rfl)

theorem Tracks.concat {idle : Nat} (h : c.Tracks epoch run n l idle moves) (hs : (c.run moves).Sound)
    (hn : (c.run moves).Numbered) (hp : (c.run moves).profile.runIdleTimeout.nanos = idle) (m : Move) :
    c.Tracks epoch run n l idle (moves ++ [m]) := by
  have hd := does_move (c.run moves) m
  have hstage := h.stage.deals hs hp (deals_of_does hn (.inl h.listener) hd)
  have hle := nextListener_le_of_does hd
  rw [← run_concat] at hle hstage
  obtain ⟨hlt, hcalls⟩ := calls_of_move m h.ticket
  rw [← run_concat] at hlt hcalls
  exact ⟨Nat.lt_of_lt_of_le h.listener hle, hlt, fun call hcall => h.own call (hcalls call hcall), hstage⟩

/-! ### Streams that have ended -/

/-- The listener's stream has ended, if there is one, and there will be no other. -/
structure Closed (c : Client) (l : Nat) : Prop where
  /-- The number was given. -/
  listener : l < c.nextListener
  /-- No call becomes its stream. -/
  unasked : c.Unasked l
  /-- Its stream has ended. -/
  finished : ∀ s, c.streams.get? l = some s → s.isFinished = true

theorem Closed.pull_eq (h : c.Closed l) (now : Nat) : (c.pull now l).1 = .ended := by
  cases hs : c.streams.get? l with
  | none => simp [pull, hs]
  | some s => simp [pull, hs, h.finished s hs]

theorem Closed.move (h : c.Closed l) (hn : c.Numbered) (m : Move) : (c.move m).Closed l := by
  have hd := does_move c m
  have hlt := Nat.lt_of_lt_of_le h.listener (nextListener_le_of_does hd)
  have hmodify : ∀ {f : RunStream → RunStream}, (∀ s, s.isFinished = true → (f s).isFinished = true) →
      ∀ s, (c.streams.modify l f).get? l = some s → s.isFinished = true := by
    intro f hf s hs
    rw [Table.get?_modify, if_pos rfl] at hs
    obtain ⟨s', hs', rfl⟩ := Option.map_eq_some_iff.1 hs
    exact hf s' (h.finished s' hs')
  generalize c.move m = c' at hd hlt
  cases deals_of_does hn (.inl h.listener) hd with
  | apart ha =>
    exact ⟨hlt, fun k call hk hcall => h.unasked k call ((ha.calls k call hcall).1 hk) hcall,
      fun s hs => h.finished s (ha.streams ▸ hs)⟩
  | handles hx =>
    rw [handle_eq] at hlt ⊢
    exact ⟨hlt, h.unasked, h.finished⟩
  | ends hk hcall => exact absurd hcall (h.unasked _ _ hk)
  | expires hk hcall => exact absurd hcall (h.unasked _ _ hk)
  | follows hk hcall => exact absurd hcall (h.unasked _ _ hk)
  | beginsPull =>
    refine ⟨hlt, h.unasked, hmodify fun s hs => ?_⟩
    split <;> exact hs
  | leavesPull => exact ⟨hlt, h.unasked, hmodify fun s hs => by simp [RunStream.pulled, hs]⟩
  | endsPull => exact ⟨hlt, h.unasked, hmodify fun s hs => by simp [RunStream.pulled]⟩
  | takes hs hf => simp [h.finished _ hs] at hf
  | idles hs hf => simp [h.finished _ hs] at hf
  | drops => exact ⟨hlt, h.unasked, fun s hs => by simp [Table.get?_erase_self] at hs⟩

theorem Closed.remains (h : c.Closed l) (hn : c.Numbered) (moves : List Move) : (c.run moves).Closed l := by
  induction moves generalizing c with
  | nil => exact h
  | cons m moves ih => exact ih (h.move hn m) (hn.move m)

/-- A look at a stream that finds its end, or takes a terminal event, is the last that finds anything. -/
theorem closed_of_pull {s : RunStream} {now : Nat} (hl : l < c.nextListener) (hu : c.Unasked l)
    (hs : c.streams.get? l = some s) (hend : (c.pull now l).1 = .ended ∨
      ∃ e, (c.pull now l).1 = .event e ∧ e.state.isTerminal = true) : (c.move (.pull now l)).Closed l := by
  have hmodify : ∀ {f : RunStream → RunStream}, (f s).isFinished = true →
      ∀ s', (c.streams.modify l f).get? l = some s' → s'.isFinished = true := by
    intro f hf s' hs'
    rw [Table.get?_modify, if_pos rfl, hs, Option.map_some, Option.some.injEq] at hs'
    exact hs' ▸ hf
  have hd := does_move c (.pull now l)
  generalize c.move (.pull now l) = c' at hd
  cases hd with
  | waits _ hp => cases hp
  | holds hm => rcases hm with hm | hm <;> cases hm
  | calls ha => cases ha
  | ends _ he => cases he
  | handles hx => cases hx
  | socket _ hp => cases hp
  | takes _ _ _ hpl =>
    refine ⟨hl, hu, hmodify ?_⟩
    rcases hend with he | ⟨e, he, ht⟩
    · rw [hpl] at he
      cases he
    · rw [hpl] at he
      cases he
      simp [RunStream.pulled, ht]
  | endsPull => exact ⟨hl, hu, hmodify (by simp [RunStream.pulled])⟩
  | idles => exact ⟨hl, hu, hmodify (by simp [RunStream.pulled])⟩
  | finds hno hn =>
    exfalso
    rcases hn with hn | hn
    · simp [hn] at hs
    · rcases hend with he | ⟨e, he, -⟩
      · simp [hn] at he
      · exact hno e he

end Client

/-- In a move the supervisor handles the response to a request for a run: it accepts, names the run, and the
caller with the ticket `n` still waits. The run's listener has the number `l`. -/
inductive Acknowledges (c : Client) (m : Move) (run : String) (n l : Nat) : Prop where
  /-- The response. -/
  | intro {now : Nat} {freshId t id : String} {payload : Option Json} {error : Option Wire.Failure}
      {r : Request} {y : Listener} :
      c.cue? m = some ⟨now, freshId, .report c.connection.epoch (.text t)⟩ →
      Wire.Frame.parse? t = some (.response id true payload error) →
      c.connection.outstanding.get? id = some r → r.ticket = n → r.listener = some y → y.box = l →
      c.tickets.isWaiting n = true → Connection.namedRun? (payload.getD .null) = some run →
      Acknowledges c m run n l

section

variable {p : Profile} {before : List Move} {m : Move} {run : String} {n l : Nat}

/-- The listener takes its seat in the very step that answers the caller. -/
theorem stage_of_acknowledges {c : Client} (h : Acknowledges c m run n l) (hs : c.Sound) (hl : c.Listens)
    (since : Nat → Prop) (gap : Prop) : l < (c.move m).nextListener ∧ n < (c.move m).nextTicket ∧
      (∀ call, (c.move m).calls.get? n = some call → call.purpose.listener? = some l) ∧
      (c.move m).Stage c.connection.epoch run l [] [] since gap := by
  cases h with
  | @intro now freshId t id payload error r y hx hparse hr hn hy hbox hw hrun =>
    subst hn hbox
    have hmem := Table.mem_of_get? hr
    obtain ⟨l, rfl, ha⟩ := hl.requests (id, r) hmem y hy
    have hno : ¬ (id, r).2.Spares l := fun hsp => (hsp _ hy).1 rfl
    obtain ⟨-, -, hcmds, hreqs⟩ := ha.place.own_of_mem hmem hno
    have hheld := ha.held (of_decide_eq_true hw)
    obtain ⟨call, hcall, hlis⟩ := hheld.call
    have ho := @Connection.handle_of_response (c.surroundings now freshId) c.profile _ _ _ _ _ _ _
      (Tidings.ofText_eq_response_iff.2 hparse) (hs.phase.connected_of_mem hmem) hr
    have hseat : (Connection.audienceAfter (c.surroundings now freshId) r true payload
        c.connection.audience).Seats run l := by
      have haccepts : c.boxes.accepts l = true := by simp [Mailboxes.accepts, hheld.box, Mailbox.new]
      simp only [Connection.audienceAfter, if_true, Connection.follow, hy, hrun]
      rw [if_pos (show (c.surroundings now freshId).waiting r.ticket = true from hw)]
      exact ha.audience.seats_add haccepts
    rw [Client.move_of_cue? hx, Client.handle_eq]
    simp only [Client.outcome, ho]
    refine ⟨ha.listener, ha.ticket, ha.own, .awaits hcall hlis ha.sole hheld.streams ?_ rfl
      ⟨fun cmd hm => ?_, fun e he => ?_, fun run' hm => ?_,
        .inl ⟨rfl, hs.phase.connected_of_mem hmem, fun _ => hseat,
          fun hc => absurd hc Bool.false_ne_true⟩⟩⟩
    · rw [onBoxes_eq_self (by simp)]
      exact hheld.box
    · have hm : cmd ∈ c.commandsAfter (.report c.connection.epoch (.text t)) := hm
      exact hcmds cmd (Client.mem_of_mem_commandsAfter hm)
    · obtain ⟨he, hne⟩ := Table.mem_erase.1 he
      exact hreqs e he hne
    · have hm : .unlisten run' l ∈ c.commandsAfter (.report c.connection.epoch (.text t)) := hm
      exact hheld.unlisten run' (Client.mem_of_mem_commandsAfter hm)

/-- What is known of a listener is known after every run. -/
theorem tracks_run (h : Acknowledges (Client.after p before) m run n l) (moves : List Move) :
    ((Client.after p before).move m).Tracks (Client.after p before).connection.epoch run n l
      p.runIdleTimeout.nanos moves := by
  induction moves using List.reverseRecOn with
  | nil =>
    obtain ⟨hl, hn, hown, hst⟩ :=
      stage_of_acknowledges h (Client.sound_run p before) (Client.listens_run p before) _ _
    exact ⟨hl, hn, hown, hst⟩
  | append_singleton moves m' ih =>
    have hafter := Client.run_move_after p before m moves
    refine ih.concat ?_ ?_ ?_ m'
    · rw [hafter]
      exact Client.sound_run p _
    · rw [hafter]
      exact Client.numbered_run p _
    · rw [hafter, Client.profile_run]

end

/-! ### What a stream yields -/

/-- **What is true of the stream of a run**, at every moment of a run from `c` on. The connection on which the
run was acknowledged is that of an epoch. -/
structure Faithful (c : Client) (epoch : Nat) (run : String) (n l idle : Nat) (moves : List Move) : Prop where
  /-- The call's stream, if it comes to one, is this one. -/
  returned : ∀ now ack k, ((c.run moves).poll now n).1 = some (.ok (.run ack k)) → k = l
  /-- What was yielded are the first of the events that were handled. -/
  inOrder : c.yields l moves <+: c.heard epoch run moves
  /-- As long as the stream has not ended, a look yields the next of them, also when the connection is gone. -/
  complete : ∀ s now e rest, (c.run moves).streams.get? l = some s → s.isFinished = false →
    c.heard epoch run moves = c.yields l moves ++ e :: rest → ((c.run moves).pull now l).1 = .event e
  /-- If there is none and the connection is still there, a look does not end it before its time. -/
  patient : ∀ s now, (c.run moves).streams.get? l = some s → s.isFinished = false →
    c.heard epoch run moves = c.yields l moves → (c.run moves).connection.epoch = epoch →
    Client.isDue now s.deadline = false → ((c.run moves).pull now l).1 = .nothing
  /-- It ends after a terminal event; or when the connection is gone and all events were yielded; or when none
  was there for too long. -/
  cut : ∀ s, (c.run moves).streams.get? l = some s → s.isFinished = true →
    concludes (c.yields l moves) = true ∨
    (epoch < (c.run moves).connection.epoch ∧ c.yields l moves = c.heard epoch run moves) ∨
    c.HasGap epoch run l idle moves
  /-- It says whether the last event that was yielded is terminal. -/
  sawTerminal : ∀ s, (c.run moves).streams.get? l = some s →
    s.sawTerminal = concludes (c.yields l moves)
  /-- After its end, or after a terminal event, every look finds it ended. -/
  afterwards : ∀ s now, (c.run moves).streams.get? l = some s →
    ((c.run moves).pull now l).1 = .ended ∨
      (∃ e, ((c.run moves).pull now l).1 = .event e ∧ e.state.isTerminal = true) →
    ∀ later now', ((((c.run moves).move (.pull now l)).run later).pull now' l).1 = .ended

section

variable {c : Client} {epoch : Nat} {run : String} {n l idle : Nat} {moves : List Move}

open Client

/-- Only a call for a run comes to a stream, which is that of its listener. -/
theorem Client.listener_of_conclude {purpose : Purpose} {a : Answer} {ack : Wire.SendAck} {k : Nat}
    (h : (c.conclude purpose a).1 = .ok (.run ack k)) : purpose.listener? = some k := by
  cases purpose with
  | connection => cases a <;> cases h
  | shutdown => cases h
  | query q id timeout =>
    simp only [conclude] at h
    cases hb : a.bind q.read with
    | error f => simp [hb, Except.map] at h
    | ok v => simp [hb, Except.map] at h
  | run id timeout l' =>
    cases a with
    | error f => cases h
    | ok v =>
      simp only [conclude] at h
      split at h
      · cases h
      · cases h
        rfl

/-- The caller is given the stream of its own listener. -/
theorem Client.stream_of_poll {now k : Nat} {ack : Wire.SendAck}
    (hown : ∀ call, c.calls.get? n = some call → call.purpose.listener? = some l)
    (h : (c.poll now n).1 = some (.ok (.run ack k))) : k = l := by
  have hpolls := polls_poll c now n
  generalize (c.poll now n).2 = c' at hpolls
  generalize hr : (c.poll now n).1 = r at hpolls
  rw [h] at hr
  cases hpolls with
  | nowhere => cases hr
  | waits => cases hr
  | @answered call a hcall =>
    injection hr with hr
    have hk := (listener_of_conclude hr.symm).symm.trans (hown call hcall)
    injection hk
  | @expired call =>
    obtain ⟨purpose, deadline⟩ := call
    cases purpose <;> cases hr

/-- What is known of a listener says what its stream yields. -/
theorem Client.Tracks.faithful (h : c.Tracks epoch run n l idle moves) (hn : (c.run moves).Numbered) :
    Faithful c epoch run n l idle moves where
  returned now ack k hp := stream_of_poll h.own hp
  inOrder := h.stage.inOrder
  complete s now e rest hs hf he := by
    obtain ⟨queue, -, -, -, hb, hy, -⟩ := h.stage.reads_of_eq hs hf
    rw [he, List.append_cancel_left_eq] at hy
    simp [pull, hs, hf, hb, hy, Mailbox.take]
  patient s now hs hf he hep hd := by
    obtain ⟨queue, -, -, -, hb, hy, hc, hl⟩ := h.stage.reads_of_eq hs hf
    have hq : queue = [] := List.append_right_eq_self.1 (hy.trans he)
    have hfeeds := hl.feeds (he ▸ hc) (by omega)
    simp [pull, hs, hf, hb, hq, hfeeds, hd, Mailbox.take]
  cut s hs hf := by
    cases h.stage with
    | awaits _ _ _ hno => simp [hno] at hs
    | reads _ hs' hf' =>
      cases hs.symm.trans hs'
      simp [hf] at hf'
    | finished _ _ _ _ _ hr => exact hr
    | gone _ hno => simp [hno] at hs
  sawTerminal s hs := by
    cases h.stage with
    | awaits _ _ _ hno => simp [hno] at hs
    | reads _ hs' _ hsaw _ _ _ hc =>
      cases hs.symm.trans hs'
      rw [hsaw, hc]
    | finished _ hs' _ hsaw =>
      cases hs.symm.trans hs'
      exact hsaw
    | gone _ hno => simp [hno] at hs
  afterwards s now hs hend later now' := by
    have hu : (c.run moves).Unasked l := by
      cases h.stage with
      | awaits _ _ _ hno => simp [hno] at hs
      | reads hu => exact hu
      | finished hu => exact hu
      | gone hu => exact hu
    exact ((closed_of_pull h.listener hu hs hend).remains (hn.move _) later).pull_eq now'

end

/-- **A stream yields every event of its run once and in order.** Let the supervisor handle, in a run of a client,
an accepting response to a request for a run that names the run, while the caller still waits, and let anything
happen before and after. Then the stream that the caller is given yields the run's events that the supervisor
handles from then on, in their order, up to the first terminal one. It ends before only when the connection ends,
and then yields what was handled before, or when no event comes for too long while the reader waits. After its end
nothing is yielded any more, and it says whether it ended with a terminal event. -/
theorem faithful_run (p : Profile) (before : List Move) (m : Move) (run : String) (n l : Nat)
    (h : Acknowledges (Client.after p before) m run n l) (moves : List Move) :
    Faithful ((Client.after p before).move m) (Client.after p before).connection.epoch run n l
      p.runIdleTimeout.nanos moves := by
  refine (tracks_run h moves).faithful ?_
  rw [Client.run_move_after]
  exact Client.numbered_run p _

/-- The response to a request for a run. -/
def acknowledgement : Wire.Frame :=
  .response "c-1" true (some (Wire.SendAck.encode ⟨"r-1", none⟩)) none

/-- A caller asks for a run, and the gateway's response has arrived. -/
def sentRun : List Move :=
  greeting ++ [.send 0 "c-1" ⟨"main", "hi", "k-1", none, none⟩, .takeCommand 0 "unused",
    .receive 1 (.text acknowledgement.text)]

/-- An event of the run. -/
def eventOf (state : Wire.RunState) : Wire.RunEvent := ⟨"r-1", "main", 0, state, none, none, none, none⟩

/-- The run goes on and ends, and the reader takes its events. -/
def followedRun : List Move :=
  arrival (.event "chat" (some (eventOf .delta).encode) none) ++ [.poll 0 1, .beginPull 0 1, .pull 0 1] ++
  arrival (.event "chat" (some (eventOf .final).encode) none) ++ [.beginPull 0 1, .pull 0 1]

theorem acknowledges_sentRun :
    Acknowledges (Client.after localProfile sentRun) (.takeReport 0 "unused") "r-1" 1 1 := by
  have hparse : Wire.Frame.parse? acknowledgement.text = some acknowledgement := by decide +kernel
  have hstate : (Client.after localProfile sentRun).isRunning = true ∧
      (Client.after localProfile sentRun).reports.head? =
        some ((Client.after localProfile sentRun).connection.epoch, .text acknowledgement.text) ∧
      (Client.after localProfile sentRun).connection.outstanding.get? "c-1" =
        some ⟨sendMethod, 1, some ⟨1, 1⟩⟩ ∧
      (Client.after localProfile sentRun).tickets.isWaiting 1 = true := by decide +kernel
  generalize Client.after localProfile sentRun = c at hstate ⊢
  obtain ⟨hrun, hreports, hrequest, hwait⟩ := hstate
  have hcue : c.cue? (.takeReport 0 "unused") =
      some ⟨0, "unused", .report c.connection.epoch (.text acknowledgement.text)⟩ := by
    simp only [Client.cue?, hrun, if_true, hreports, Option.map_some]
  exact .intro hcue hparse hrequest rfl rfl rfl hwait (by decide +kernel)

theorem faithful_run_followedRun :
    Acknowledges (Client.after localProfile sentRun) (.takeReport 0 "unused") "r-1" 1 1 ∧
    Faithful ((Client.after localProfile sentRun).move (.takeReport 0 "unused"))
      (Client.after localProfile sentRun).connection.epoch "r-1" 1 1 localProfile.runIdleTimeout.nanos
      followedRun ∧
    ((Client.after localProfile sentRun).move (.takeReport 0 "unused")).yields 1 followedRun =
      [eventOf .delta, eventOf .final] :=
  ⟨acknowledges_sentRun, faithful_run localProfile sentRun _ "r-1" 1 1 acknowledges_sentRun followedRun,
    by decide +kernel⟩

end TurnRelay.Gateway
