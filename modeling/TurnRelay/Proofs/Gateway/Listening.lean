import TurnRelay.Proofs.Gateway.Bookkeeping

/-!
# Who listens

A listener has a number, which is that of its mailbox, too. It comes into being with a call for a run, travels
with the call's request, and takes its seat in the audience when the request is answered. On its way there is
only one of its number, and its mailbox is empty. `Asks` says so of a listener on its way; every move keeps it
until the answer comes.

## The model

* `Audience.Spares`, `Audience.Seats` — nobody of a number is in the audience, or one who follows a run.
* `Stirs` — what a step of the supervisor does to the audience.
* `Fresh`, `Asks` — a number that was not given yet, and one on its way.

## What is proved

* `Seats.dispatch_of_ne`, `Seats.dispatch_self` — an event reaches those who follow its run, each once.
* `listens_run` — every listener that an outstanding request brings is on its way.
-/

namespace TurnRelay.Gateway

/-! ### Seats -/

/-- The listener has not the number, neither for itself nor for its mailbox. -/
def Listener.Spares (x : Listener) (l : Nat) : Prop := x.id ≠ l ∧ x.box ≠ l

namespace Audience

/-- Nobody of the number is in the audience. -/
def Spares (a : Audience) (l : Nat) : Prop := ∀ m ∈ a.members, m.2.Spares l

/-- One of the number is in the audience, and follows the run. -/
def Seats (a : Audience) (run : String) (l : Nat) : Prop :=
  ∃ before after, a.members = before ++ (run, ⟨l, l⟩) :: after ∧ ∀ m ∈ before ++ after, m.2.Spares l

variable {accepts : Nat → Bool} {a : Audience} {run run' : String} {l : Nat} {x : Listener}
  {e : Wire.RunEvent}

theorem spares_empty (l : Nat) : Audience.empty.Spares l := fun _ h => nomatch h

theorem Spares.filter (h : a.Spares l) (keeps : String × Listener → Bool) :
    (⟨a.members.filter keeps⟩ : Audience).Spares l := fun m hm => h m (List.mem_filter.1 hm).1

theorem Spares.remove (h : a.Spares l) (run : String) (k : Nat) : (a.remove run k).2.Spares l :=
  h.filter _

theorem Spares.add (h : a.Spares l) (hx : x.Spares l) : (a.add accepts run x).2.Spares l := by
  unfold Audience.add
  split
  · intro m hm
    rcases List.mem_append.1 hm with hm | hm
    · exact h m (List.mem_filter.1 hm).1
    · rw [List.mem_singleton.1 hm]
      exact hx
  · exact h

theorem Spares.dispatch (h : a.Spares l) (e : Wire.RunEvent) : (a.dispatch accepts e).2.Spares l := by
  simp only [Audience.dispatch]
  split
  · exact (h.filter _).filter _
  · exact h.filter _

/-- Whom an event reaches follows its run. -/
theorem mem_of_reached (h : l ∈ (a.dispatch accepts e).1) :
    ∃ m ∈ a.members, m.1 = e.runId ∧ m.2.box = l := by
  obtain ⟨m, hm, hbox⟩ := List.mem_map.1 h
  obtain ⟨hkept, hrun⟩ := List.mem_filter.1 hm
  exact ⟨m, (List.mem_filter.1 hkept).1, by simpa using hrun, hbox⟩

theorem Spares.not_reached (h : a.Spares l) : l ∉ (a.dispatch accepts e).1 := by
  intro hl
  obtain ⟨m, hm, -, hbox⟩ := mem_of_reached hl
  exact (h m hm).2 hbox

theorem Seats.filter (h : a.Seats run l) (keeps : String × Listener → Bool)
    (hk : keeps (run, ⟨l, l⟩) = true) : (⟨a.members.filter keeps⟩ : Audience).Seats run l := by
  obtain ⟨before, after, hm, hs⟩ := h
  refine ⟨before.filter keeps, after.filter keeps, ?_, fun m hmem => ?_⟩
  · rw [hm, List.filter_append, List.filter_cons_of_pos hk]
  · rw [← List.filter_append] at hmem
    exact hs m (List.mem_filter.1 hmem).1

theorem Seats.remove (h : a.Seats run l) {k : Nat} (hk : k ≠ l) : (a.remove run' k).2.Seats run l :=
  h.filter _ (by simp [Ne.symm hk])

theorem Seats.add (h : a.Seats run l) (hx : x.Spares l) : (a.add accepts run' x).2.Seats run l := by
  unfold Audience.add
  split
  · obtain ⟨before, after, hm, hs⟩ := (h.remove hx.1 : (a.remove run' x.id).2.Seats run l)
    refine ⟨before, after ++ [(run', x)], ?_, fun m hmem => ?_⟩
    · show (a.remove run' x.id).2.members ++ [(run', x)] = _
      rw [hm, List.append_assoc, List.cons_append]
    · rw [← List.append_assoc] at hmem
      rcases List.mem_append.1 hmem with hmem | hmem
      · exact hs m hmem
      · rw [List.mem_singleton.1 hmem]
        exact hx
  · exact h

/-- One who takes a seat, and whose mailbox takes new events, follows the run. -/
theorem Spares.seats_add (h : a.Spares l) (hl : accepts l = true) :
    (a.add accepts run ⟨l, l⟩).2.Seats run l := by
  unfold Audience.add
  rw [if_pos hl]
  refine ⟨(a.without run l).members, [], rfl, fun m hm => ?_⟩
  rw [List.append_nil] at hm
  exact h.remove run l m hm

/-- An event of another run reaches nobody of this one. -/
theorem Seats.dispatch_of_ne (h : a.Seats run l) (hne : e.runId ≠ run) :
    (a.dispatch accepts e).2.Seats run l ∧ l ∉ (a.dispatch accepts e).1 := by
  constructor
  · simp only [Audience.dispatch]
    split
    · exact (h.filter _ (by simp [Ne.symm hne])).filter _ (by simp [Ne.symm hne])
    · exact h.filter _ (by simp [Ne.symm hne])
  · intro hl
    obtain ⟨before, after, hm, hs⟩ := h
    obtain ⟨m, hmem, hrun, hbox⟩ := mem_of_reached hl
    rw [hm] at hmem
    rcases List.mem_append.1 hmem with hmem | hmem
    · exact (hs m (List.mem_append_left _ hmem)).2 hbox
    · rcases List.mem_cons.1 hmem with rfl | hmem
      · exact hne hrun.symm
      · exact (hs m (List.mem_append_right _ hmem)).2 hbox

/-- An event of the run reaches the listener once; after a terminal one the listener is gone. -/
theorem Seats.dispatch_self (h : a.Seats e.runId l) (hl : accepts l = true) :
    (∃ before after, (a.dispatch accepts e).1 = before ++ l :: after ∧ l ∉ before ++ after) ∧
    (e.state.isTerminal = true → (a.dispatch accepts e).2.Spares l) ∧
    (e.state.isTerminal = false → (a.dispatch accepts e).2.Seats e.runId l) := by
  obtain ⟨before, after, hm, hs⟩ :=
    h.filter (fun m => decide (m.1 ≠ e.runId) || accepts m.2.box) (by simp [hl])
  simp only at hm
  have hreached : (a.dispatch accepts e).1 =
      ((before.filter fun m => decide (m.1 = e.runId)).map fun m => m.2.box) ++
      l :: (after.filter fun m => decide (m.1 = e.runId)).map fun m => m.2.box := by
    simp only [Audience.dispatch, hm]
    rw [List.filter_append, List.filter_cons_of_pos (by simp), List.map_append, List.map_cons]
  refine ⟨⟨_, _, hreached, fun hmem => ?_⟩, fun ht => ?_, fun ht => ?_⟩
  · rw [← List.map_append, ← List.filter_append] at hmem
    obtain ⟨m, hmem, hbox⟩ := List.mem_map.1 hmem
    exact (hs m (List.mem_filter.1 hmem).1).2 hbox
  · intro m hmem
    simp only [Audience.dispatch, hm, ht, if_true] at hmem
    rw [List.filter_append, List.filter_cons_of_neg (by simp), ← List.filter_append] at hmem
    exact hs m (List.mem_filter.1 hmem).1
  · simp only [Audience.dispatch, hm, ht, Bool.false_eq_true, if_false]
    exact ⟨before, after, rfl, hs⟩

end Audience

/-! ### Mailboxes -/

/-- Effects that deliver nothing leave mailboxes as they are. -/
theorem onBoxes_eq_self {es : List Effect} (h : ∀ k e, .deliver k e ∉ es) (bs : Mailboxes) :
    es.foldl Effect.onBoxes bs = bs := by
  induction es with
  | nil => rfl
  | cons x es ih =>
    have ih := ih fun k e hk => h k e (List.mem_cons_of_mem _ hk)
    cases x with
    | deliver k e => exact absurd List.mem_cons_self (h k e)
    | _ => exact ih

/-- What is delivered elsewhere leaves a mailbox as it is. -/
theorem get?_onBoxes_of_not_mem {ks : List Nat} {l : Nat} (e : Wire.RunEvent) (h : l ∉ ks)
    (bs : Mailboxes) : ((ks.map fun k => .deliver k e).foldl Effect.onBoxes bs).get? l = bs.get? l := by
  induction ks generalizing bs with
  | nil => rfl
  | cons k ks ih =>
    rw [List.map_cons, List.foldl_cons, ih fun hk => h (List.mem_cons_of_mem _ hk)]
    have hk : l ≠ k := fun hk => h (hk ▸ List.mem_cons_self)
    exact Table.get?_modify_of_ne _ _ hk

/-- What is delivered once is put in once. -/
theorem get?_onBoxes_of_mem {before after : List Nat} {l : Nat} (e : Wire.RunEvent)
    (h : l ∉ before ++ after) (bs : Mailboxes) :
    (((before ++ l :: after).map fun k => .deliver k e).foldl Effect.onBoxes bs).get? l =
      (bs.get? l).map (·.deliver e) := by
  rw [List.mem_append, not_or] at h
  rw [List.map_append, List.foldl_append, List.map_cons, List.foldl_cons,
    get?_onBoxes_of_not_mem e h.2, Effect.onBoxes, Mailboxes.deliver, Table.get?_modify, if_pos rfl,
    get?_onBoxes_of_not_mem e h.1]

/-- What is delivered is put behind what the mailboxes hold. -/
theorem exists_get?_onBoxes (e : Wire.RunEvent) (ks : List Nat) (bs : Mailboxes) (box : Nat) :
    ∃ es, ((ks.map fun k => .deliver k e).foldl Effect.onBoxes bs).get? box =
        (bs.get? box).map (fun b => { b with queue := b.queue ++ es }) ∧ ∀ x ∈ es, x = e ∧ box ∈ ks := by
  induction ks generalizing bs with
  | nil => exact ⟨[], by simp, fun x hx => by cases hx⟩
  | cons k ks ih =>
    obtain ⟨es, hes, hall⟩ := ih (bs.deliver k e)
    have hall' : ∀ x ∈ es, x = e ∧ box ∈ k :: ks := fun x hx =>
      ⟨(hall x hx).1, List.mem_cons_of_mem _ (hall x hx).2⟩
    rw [List.map_cons, List.foldl_cons]
    show ∃ es', ((ks.map fun k => .deliver k e).foldl Effect.onBoxes (bs.deliver k e)).get? box = _ ∧ _
    rw [hes, Mailboxes.deliver, Table.get?_modify]
    by_cases hk : box = k
    · subst hk
      rw [if_pos rfl]
      cases hb : bs.get? box with
      | none => exact ⟨es, rfl, hall'⟩
      | some b =>
        by_cases hopen : b.isOpen = true
        · refine ⟨e :: es, by simp [Mailbox.deliver, hopen], fun x hx => ?_⟩
          obtain rfl | hx := List.mem_cons.1 hx
          · exact ⟨rfl, List.mem_cons_self⟩
          · exact hall' x hx
        · exact ⟨es, by simp [Mailbox.deliver, hopen], hall'⟩
    · rw [if_neg hk]
      exact ⟨es, rfl, hall'⟩

/-! ### What a step does to the audience -/

namespace Connection

/-- A step stays in the epoch, and on the connection if there is one. -/
def Stays (c c' : Connection) : Prop :=
  c'.epoch = c.epoch ∧ (c.phase = .connected → c'.phase = .connected)

/-- What a step does to the audience. -/
inductive Stirs (env : Surroundings) (c c' : Connection) : Input → List Effect → Prop where
  /-- Nothing. -/
  | calm {i : Input} {es : List Effect} : (∀ k e, .deliver k e ∉ es) → c'.audience = c.audience →
      c.Stays c' → Stirs env c c' i es
  /-- Nothing, but an attempt begins. -/
  | attempts {i : Input} {es : List Effect} : (∀ k e, .deliver k e ∉ es) → c'.audience = c.audience →
      c.phase ≠ .connected → c.epoch < c'.epoch → Stirs env c c' i es
  /-- A listener comes. -/
  | listens {run : String} {x : Listener} : c'.audience = (c.audience.add env.accepts run x).2 →
      c.Stays c' → Stirs env c c' (.command (.listen run x)) []
  /-- A listener goes. -/
  | unlistens {run : String} {k : Nat} : c'.audience = (c.audience.remove run k).2 →
      c.Stays c' → Stirs env c c' (.command (.unlisten run k)) []
  /-- A request is answered, and its listener may take a seat. -/
  | admits {t id : String} {ok : Bool} {payload : Option Json} {error : Option Wire.Failure}
      {r : Request} {a : Answer} : Tidings.ofText t = .response id ok payload error →
      c.outstanding.get? id = some r → c'.outstanding = c.outstanding.erase id →
      c'.audience = audienceAfter env r ok payload c.audience → c.Stays c' →
      Stirs env c c' (.report c.epoch (.text t)) [.answer r.ticket a]
  /-- An event is delivered. -/
  | delivers {t : String} {e : Wire.RunEvent} : Tidings.ofText t = .chat e →
      c'.audience = (c.audience.dispatch env.accepts e).2 → c.Stays c' →
      Stirs env c c' (.report c.epoch (.text t))
        ((c.audience.dispatch env.accepts e).1.map fun k => .deliver k e)
  /-- All must go. -/
  | clears {i : Input} {es : List Effect} : (∀ k e, .deliver k e ∉ es) → c'.audience = .empty →
      c.epoch < c'.epoch → Stirs env c c' i es

variable {env : Surroundings} {p : Profile} {c c' : Connection} {i : Input} {es : List Effect}

/-- **Every step does one of these to the audience.** -/
theorem InPhase.stirs (h : c.InPhase) (hx : c.Expects i) (ha : Acts env p c i c' es) :
    Stirs env c c' i es := by
  have hstays : c.Stays c := ⟨rfl, fun hp => hp⟩
  cases ha with
  | attempts ht =>
    have hp := h.disconnected_of_attempts hx ht
    exact .attempts (by simp) rfl (by simp [hp]) (Nat.lt_succ_self _)
  | listens => exact .listens rfl ⟨rfl, fun hp => hp⟩
  | unlistens => exact .unlistens rfl ⟨rfl, fun hp => hp⟩
  | delivers ht => exact .delivers ht rfl ⟨rfl, fun hp => hp⟩
  | answers ht hp hr => exact .admits ht hr rfl rfl ⟨rfl, fun hp => hp⟩
  | ends => exact .clears (by simp [farewells]) rfl (Nat.lt_succ_self _)
  | destroys => exact .clears (by simp [farewells]) rfl (Nat.lt_succ_self _)
  | deserts => exact .clears (by simp [farewells]) rfl (Nat.lt_succ_self _)
  | opens => exact .calm (by simp) rfl ⟨rfl, fun hp => by simp only [hp]⟩
  | greets ht hp => exact .calm (by simp) rfl ⟨rfl, fun hq => by simp [hp] at hq⟩
  | enters => exact .calm (by simp) rfl ⟨rfl, fun _ => rfl⟩
  | _ => exact .calm (by simp) rfl ⟨rfl, fun hp => hp⟩

/-- Nothing is delivered unless an event has come. -/
theorem Stirs.no_deliver (h : Stirs env c c' i es)
    (hno : ∀ t e, i = .report c.epoch (.text t) → Tidings.ofText t ≠ .chat e) :
    ∀ k e, .deliver k e ∉ es := by
  cases h with
  | calm hes => exact hes
  | attempts hes => exact hes
  | clears hes => exact hes
  | listens => simp
  | unlistens => simp
  | admits => simp
  | delivers ht => exact absurd ht (hno _ _ rfl)

end Connection

/-! ### A number and a step -/

/-- The request brings no listener of the number. -/
def Request.Spares (r : Request) (l : Nat) : Prop := ∀ x, r.listener = some x → x.Spares l

/-- The command brings no listener of the number. -/
def Command.Spares (cmd : Command) (l : Nat) : Prop := ∀ x, cmd.listener? = some x → x.Spares l

/-- The answer to a request that brings nobody of the number brings nobody of it to the audience. -/
theorem Audience.Spares.audienceAfter {a : Audience} {l : Nat} {r : Request} (h : a.Spares l)
    (hr : r.Spares l) (env : Surroundings) (ok : Bool) (payload : Option Json) :
    (Connection.audienceAfter env r ok payload a).Spares l := by
  unfold Connection.audienceAfter Connection.follow
  split
  · split
    · rename_i x run hx _
      split
      · exact h.add (hr x hx)
      · exact h
    · exact h
  · exact h

/-- The answer to a request that brings nobody of the number leaves one of it in its seat. -/
theorem Audience.Seats.audienceAfter {a : Audience} {run : String} {l : Nat} {r : Request}
    (h : a.Seats run l) (hr : r.Spares l) (env : Surroundings) (ok : Bool) (payload : Option Json) :
    (Connection.audienceAfter env r ok payload a).Seats run l := by
  unfold Connection.audienceAfter Connection.follow
  split
  · split
    · rename_i x run' hx _
      split
      · exact h.add (hr x hx)
      · exact h
    · exact h
  · exact h

namespace Client

variable {c c' : Client} {m : Move} {x : Cue} {l n : Nat}

/-- The queue of commands brings nobody of the number, once the supervisor has taken its first, either. -/
theorem spares_commandsAfter {i : Input} (h : ∀ cmd ∈ c.commands, cmd.Spares l) :
    ∀ cmd ∈ c.commandsAfter i, cmd.Spares l := fun cmd hcmd => h cmd (mem_of_mem_commandsAfter hcmd)

/-- A request that is outstanding after a step, and was not before, is that of the command that was taken. -/
theorem request_of_handle (hs : c.Sound) (hx : c.cue? m = some x) {e : String × Request}
    (he : e ∈ (c.outcome x).1.outstanding.entries) : e ∈ c.connection.outstanding.entries ∨
      ∃ params, x.input = .command (.request e.1 e.2.method params e.2.ticket e.2.listener) ∧
        .request e.1 e.2.method params e.2.ticket e.2.listener ∈ c.commands := by
  have hm := hs.phase.mem_outstanding_of_acts (hs.expects hx) (hs.acts hx) he
  rcases hm.2 with hmem | ⟨params, -, hi, -⟩
  · exact .inl hmem
  · exact .inr ⟨params, hi, commands_of_cue? hx hi ▸ List.mem_cons_self⟩

/-- If commands bring nobody of the number, requests do not either. -/
theorem spares_requests_of_handle (hs : c.Sound) (hx : c.cue? m = some x)
    (hcmds : ∀ cmd ∈ c.commands, cmd.Spares l)
    (hreqs : ∀ e ∈ c.connection.outstanding.entries, e.2.Spares l) :
    ∀ e ∈ (c.outcome x).1.outstanding.entries, e.2.Spares l := by
  intro e he
  rcases request_of_handle hs hx he with he | ⟨params, -, hmem⟩
  · exact hreqs e he
  · exact hcmds _ hmem

/-- If neither the command nor the request that is answered brings anybody of the number, nobody of it comes to
the audience, and nothing is put into its mailbox. -/
theorem spares_audience_of_input (hs : c.Sound) (hx : c.cue? m = some x)
    (hlisten : ∀ run y, x.input = .command (.listen run y) → y.Spares l)
    (hreq : ∀ t id ok payload error r, x.input = .report c.connection.epoch (.text t) →
      Tidings.ofText t = .response id ok payload error → c.connection.outstanding.get? id = some r →
      r.Spares l)
    (ha : c.connection.audience.Spares l) : (c.outcome x).1.audience.Spares l ∧
      ((c.outcome x).2.foldl Effect.onBoxes c.boxes).get? l = c.boxes.get? l := by
  have hst := hs.phase.stirs (hs.expects hx) (hs.acts hx)
  generalize hi : x.input = i at hst
  generalize (c.outcome x).1 = c', (c.outcome x).2 = es at hst
  cases hst with
  | calm hno he => exact ⟨he ▸ ha, by rw [onBoxes_eq_self hno]⟩
  | attempts hno he => exact ⟨he ▸ ha, by rw [onBoxes_eq_self hno]⟩
  | clears hno he => exact ⟨he ▸ Audience.spares_empty l, by rw [onBoxes_eq_self hno]⟩
  | @listens run y he =>
    refine ⟨?_, rfl⟩
    rw [he]
    exact ha.add (hlisten _ _ hi)
  | unlistens he =>
    refine ⟨?_, rfl⟩
    rw [he]
    exact ha.remove _ _
  | admits ht hr _ he =>
    refine ⟨?_, by rw [onBoxes_eq_self (by simp)]⟩
    rw [he]
    exact ha.audienceAfter (hreq _ _ _ _ _ _ hi ht hr) _ _ _
  | delivers ht he =>
    refine ⟨?_, get?_onBoxes_of_not_mem _ ha.not_reached _⟩
    rw [he]
    exact ha.dispatch _

/-- The same if no command in the queue brings anybody of the number to the audience. -/
theorem spares_audience_of_handle (hs : c.Sound) (hx : c.cue? m = some x)
    (hlisten : ∀ run y, .listen run y ∈ c.commands → y.Spares l)
    (hreq : ∀ t id ok payload error r, x.input = .report c.connection.epoch (.text t) →
      Tidings.ofText t = .response id ok payload error → c.connection.outstanding.get? id = some r →
      r.Spares l)
    (ha : c.connection.audience.Spares l) : (c.outcome x).1.audience.Spares l ∧
      ((c.outcome x).2.foldl Effect.onBoxes c.boxes).get? l = c.boxes.get? l :=
  spares_audience_of_input hs hx
    (fun run y hi => hlisten run y (commands_of_cue? hx hi ▸ List.mem_cons_self)) hreq ha

/-! ### A number and a move -/

/-- A move that is no business of a listener's. -/
structure Apart (c : Client) (l : Nat) (m : Move) (c' : Client) : Prop where
  /-- The supervisor takes nothing. -/
  cue : c.cue? m = none
  /-- The listener's reader takes nothing. -/
  pull : ∀ now e, m = .pull now l → (c.pull now l).1 ≠ .event e
  /-- No answer is given. -/
  idle : c.Idle c'
  /-- The calls that bring the listener. -/
  calls : ∀ k call, call.purpose.listener? = some l →
    (c'.calls.get? k = some call ↔ c.calls.get? k = some call)
  /-- The listener's mailbox. -/
  boxes : c'.boxes.get? l = c.boxes.get? l
  /-- Its stream. -/
  streams : c'.streams.get? l = c.streams.get? l
  /-- New commands are about others. -/
  commands : ∃ cmds, c'.commands = c.commands ++ cmds ∧
    ∀ cmd ∈ cmds, cmd.Spares l ∧ ∀ run, cmd ≠ .unlisten run l

/-- What a move means for the listener of a number. -/
inductive Deals (c : Client) (l : Nat) : Move → Client → Prop where
  /-- It is about others. -/
  | apart {m : Move} {c' : Client} : c.Apart l m c' → Deals c l m c'
  /-- Its call ends without a stream. -/
  | ends {m : Move} {k : Nat} {call : Call} : c.calls.get? k = some call →
      call.purpose.listener? = some l → EndsCall k m → Deals c l m (c.closeCall k call.purpose)
  /-- Its call has taken too long. -/
  | expires {now k : Nat} {call : Call} {id : String} : c.calls.get? k = some call →
      call.purpose.listener? = some l →
      Deals c l (.poll now k)
        { c.closeCall k call.purpose with commands := c.told (.cancelRequest id) }
  /-- Its call becomes a stream. -/
  | follows {now k : Nat} {call : Call} {ack : Wire.SendAck} : c.calls.get? k = some call →
      call.purpose.listener? = some l → Deals c l (.poll now k) { c with
        tickets := c.tickets.erase k, calls := c.calls.erase k,
        streams := c.streams.set l ⟨ack.runId, false, false, none⟩ }
  /-- Its reader begins to wait. -/
  | beginsPull {now : Nat} : Deals c l (.beginPull now l) (c.beginPull now l)
  /-- Its reader waits no longer. -/
  | leavesPull : Deals c l (.leavePull l)
      { c with streams := c.streams.modify l (RunStream.pulled false false) }
  /-- Its reader takes an event. -/
  | takes {now : Nat} {s : RunStream} {e : Wire.RunEvent} {rest : List Wire.RunEvent} :
      c.streams.get? l = some s → s.isFinished = false → (c.box l).queue = e :: rest →
      (c.pull now l).1 = .event e → Deals c l (.pull now l) { c with
        boxes := c.boxes.set l { c.box l with queue := rest },
        streams := c.streams.modify l (RunStream.pulled e.state.isTerminal e.state.isTerminal) }
  /-- Its stream is over. -/
  | endsPull {now : Nat} {s : RunStream} : c.streams.get? l = some s →
      s.isFinished = true ∨ c.isDry l = true → (c.pull now l).1 = .ended →
      Deals c l (.pull now l) { c with streams := c.streams.modify l (RunStream.pulled true false) }
  /-- Its reader has waited too long. -/
  | idles {now : Nat} {s : RunStream} : c.streams.get? l = some s → s.isFinished = false →
      c.isThirsty l = true → Client.isDue now s.deadline = true → (c.pull now l).1 = .ended →
      Deals c l (.pull now l) { c with
        streams := c.streams.modify l (RunStream.pulled true false),
        commands := c.told (.unlisten s.run l) }
  /-- Its reader goes away. -/
  | drops {s : RunStream} : c.streams.get? l = some s → Deals c l (.dropStream l) { c with
        commands := if s.sawTerminal then c.commands else c.told (.unlisten s.run l),
        streams := c.streams.erase l, boxes := c.boxes.erase l }
  /-- The supervisor takes something. -/
  | handles {m : Move} {x : Cue} : c.cue? m = some x → Deals c l m (c.handle x)

/-- What is told is told last. -/
theorem told_eq_append (cmd : Command) :
    ∃ cmds, c.told cmd = c.commands ++ cmds ∧ ∀ x ∈ cmds, x = cmd := by
  unfold told
  split
  · exact ⟨[cmd], rfl, fun x hx => List.mem_singleton.1 hx⟩
  · exact ⟨[], (List.append_nil _).symm, fun x hx => nomatch hx⟩

/-- The commands after a move that is about others. -/
theorem appended_of_told {cmd : Command} (hs : cmd.Spares l) (hu : ∀ run, cmd ≠ .unlisten run l) :
    ∃ cmds, c.told cmd = c.commands ++ cmds ∧
      ∀ x ∈ cmds, x.Spares l ∧ ∀ run, x ≠ .unlisten run l := by
  obtain ⟨cmds, he, hx⟩ := told_eq_append (c := c) cmd
  refine ⟨cmds, he, fun x hmem => ?_⟩
  rw [hx x hmem]
  exact ⟨hs, hu⟩

theorem appended_self (c : Client) (l : Nat) : ∃ cmds, c.commands = c.commands ++ cmds ∧
    ∀ x ∈ cmds, x.Spares l ∧ ∀ run, x ≠ .unlisten run l :=
  ⟨[], (List.append_nil _).symm, fun _ hx => nomatch hx⟩

/-- A move that touches no call, and of mailboxes and streams none of the number. -/
theorem apart_of_eq (hx : c.cue? m = none)
    (hp : ∀ now e, m = .pull now l → (c.pull now l).1 ≠ .event e)
    (hconn : c'.connection = c.connection)
    (hn : c'.nextTicket = c.nextTicket) (ht : c'.tickets = c.tickets) (hc : c'.calls = c.calls)
    (hb : c'.boxes.get? l = c.boxes.get? l) (hs : c'.streams.get? l = c.streams.get? l)
    (hcmds : ∃ cmds, c'.commands = c.commands ++ cmds ∧
      ∀ x ∈ cmds, x.Spares l ∧ ∀ run, x ≠ .unlisten run l) : c.Apart l m c' :=
  ⟨hx, hp, idle_of_eq hconn hn ht hc, fun _ _ _ => by rw [hc], hb, hs, hcmds⟩

/-- The call of another listener, or of none, begins. -/
theorem apart_of_set {call : Call} (h : c.Numbered) (hx : c.cue? m = none) (hp : m.isPull = false)
    (hcall : call.purpose.listener? ≠ some l) (hconn : c'.connection = c.connection)
    (hn : c'.nextTicket = c.nextTicket + 1)
    (ht : c'.tickets = c.tickets.set c.nextTicket .waiting)
    (hc : c'.calls = c.calls.set c.nextTicket call) (hb : c'.boxes.get? l = c.boxes.get? l)
    (hs : c'.streams.get? l = c.streams.get? l) (hcmds : ∃ cmds, c'.commands = c.commands ++ cmds ∧
      ∀ x ∈ cmds, x.Spares l ∧ ∀ run, x ≠ .unlisten run l) : c.Apart l m c' := by
  refine ⟨hx, fun now e he => ?_, idle_of_set hconn hn ht hc, fun k call' hcall' => ?_, hb, hs, hcmds⟩
  · rw [he] at hp
    cases hp
  · rw [hc, Table.get?_set]
    split
    · rename_i hk
      constructor
      · rintro ⟨⟩
        exact absurd hcall' hcall
      · intro hold
        exact absurd (h k call' hold) (by omega)
    · exact Iff.rfl

/-- The call of another listener, or of none, ends. -/
theorem apart_of_erase {k : Nat} {call : Call} (hx : c.cue? m = none) (hp : m.isPull = false)
    (hk : c.calls.get? k = some call) (hcall : call.purpose.listener? ≠ some l)
    (hconn : c'.connection = c.connection)
    (hn : c'.nextTicket = c.nextTicket) (ht : c'.tickets = c.tickets.erase k)
    (hc : c'.calls = c.calls.erase k) (hb : c'.boxes.get? l = c.boxes.get? l)
    (hs : c'.streams.get? l = c.streams.get? l) (hcmds : ∃ cmds, c'.commands = c.commands ++ cmds ∧
      ∀ x ∈ cmds, x.Spares l ∧ ∀ run, x ≠ .unlisten run l) : c.Apart l m c' := by
  refine ⟨hx, fun now e he => ?_, idle_of_erase hconn hn ht hc, fun j call' hcall' => ?_, hb, hs, hcmds⟩
  · rw [he] at hp
    cases hp
  · rw [hc, Table.get?_erase]
    split
    · rename_i he
      subst he
      constructor
      · intro hnone
        cases hnone
      · intro hj
        rw [hk] at hj
        cases hj
        exact absurd hcall' hcall
    · exact Iff.rfl

/-- A call that brings another listener, or none, leaves the mailbox of this one. -/
theorem get?_without (bs : Mailboxes) {x : Option Nat} (h : x ≠ some l) :
    (bs.without x).get? l = bs.get? l := by
  cases x with
  | none => rfl
  | some k => exact Table.get?_erase_of_ne _ fun he => h (he ▸ rfl)

/-- **Every move is about others, or does one of these things**, if the number is not the one it gives. -/
theorem deals_of_does (hn : c.Numbered) (hl : l < c.nextListener ∨ c'.nextListener ≤ l)
    (hd : Does c m c') : Deals c l m c' := by
  have hspare : ∀ {cmd : Command}, cmd.listener? = none → (∀ run, cmd ≠ .unlisten run l) →
      ∃ cmds, c.told cmd = c.commands ++ cmds ∧
        ∀ x ∈ cmds, x.Spares l ∧ ∀ run, x ≠ .unlisten run l := by
    intro cmd hno hu
    refine appended_of_told (fun x hx => ?_) hu
    rw [hno] at hx
    cases hx
  have hpull : ∀ {m' : Move}, m'.isPull = false → ∀ now e, m' = .pull now l →
      (c.pull now l).1 ≠ .event e := by
    intro m' hm now e he
    rw [he] at hm
    cases hm
  cases hd with
  | waits hx hm =>
    exact .apart (apart_of_eq hx (hpull hm) rfl rfl rfl rfl rfl rfl (appended_self c l))
  | holds hm =>
    refine .apart (apart_of_eq ?_ (hpull ?_) rfl rfl rfl rfl rfl rfl (appended_self c l))
    · rcases hm with rfl | rfl <;> rfl
    · rcases hm with rfl | rfl <;> rfl
  | calls ha =>
    cases ha with
    | _ =>
      exact .apart (apart_of_set hn rfl rfl (by simp [Purpose.listener?]) rfl rfl rfl rfl rfl rfl
        (hspare rfl (by simp)))
  | sends =>
    have hne : l ≠ c.nextListener := by
      simp only at hl
      omega
    refine .apart (apart_of_set hn rfl rfl (by simpa [Purpose.listener?] using Ne.symm hne) rfl
      rfl rfl rfl (Table.get?_set_of_ne _ _ hne) rfl ?_)
    refine appended_of_told (fun x hx => ?_) (by simp)
    cases hx
    exact ⟨Ne.symm hne, Ne.symm hne⟩
  | @ends m k call hk he =>
    by_cases hcall : call.purpose.listener? = some l
    · exact .ends hk hcall he
    · refine .apart (apart_of_erase ?_ ?_ hk hcall rfl rfl rfl rfl
        (get?_without _ hcall) rfl (appended_self c l))
      · cases he <;> rfl
      · cases he <;> rfl
  | @expires now k call id hk ht hid =>
    by_cases hcall : call.purpose.listener? = some l
    · exact .expires hk hcall
    · exact .apart (apart_of_erase rfl rfl hk hcall rfl rfl rfl rfl
        (get?_without _ hcall) rfl (hspare rfl (by simp)))
  | @follows now k l' call v ack hk ht hcall hack =>
    by_cases hll : l' = l
    · subst hll
      exact .follows hk hcall
    · refine .apart (apart_of_erase rfl rfl hk ?_ rfl rfl rfl rfl rfl
        (Table.get?_set_of_ne _ _ (Ne.symm hll)) (appended_self c l))
      rw [hcall]
      simpa using hll
  | subscribes =>
    have hne : l ≠ c.nextListener := by
      simp only at hl
      omega
    refine .apart (apart_of_eq rfl (hpull rfl) rfl rfl rfl rfl
      (Table.get?_set_of_ne _ _ hne) (Table.get?_set_of_ne _ _ hne) ?_)
    refine appended_of_told (fun x hx => ?_) (by simp)
    cases hx
    exact ⟨Ne.symm hne, Ne.symm hne⟩
  | misses =>
    exact .apart (apart_of_eq rfl (hpull rfl) rfl rfl rfl rfl rfl rfl (appended_self c l))
  | @beginsPull now stream =>
    by_cases he : stream = l
    · subst he
      exact .beginsPull
    · exact .apart (apart_of_eq rfl (hpull rfl) rfl rfl rfl rfl rfl
        (Table.get?_modify_of_ne _ _ (Ne.symm he)) (appended_self c l))
  | @leavesPull stream =>
    by_cases he : stream = l
    · subst he
      exact .leavesPull
    · exact .apart (apart_of_eq rfl (hpull rfl) rfl rfl rfl rfl rfl
        (Table.get?_modify_of_ne _ _ (Ne.symm he)) (appended_self c l))
  | @takes now stream s e rest hs hf hq hpl =>
    by_cases he : stream = l
    · subst he
      exact .takes hs hf hq hpl
    · refine .apart (apart_of_eq rfl (fun now' e' hm => ?_) rfl rfl rfl rfl
        (Table.get?_set_of_ne _ _ (Ne.symm he)) (Table.get?_modify_of_ne _ _ (Ne.symm he))
        (appended_self c l))
      cases hm
      exact absurd rfl he
  | @endsPull now stream s hs hf hpl =>
    by_cases he : stream = l
    · subst he
      exact .endsPull hs hf hpl
    · refine .apart (apart_of_eq rfl (fun now' e' hm => ?_) rfl rfl rfl rfl rfl
        (Table.get?_modify_of_ne _ _ (Ne.symm he)) (appended_self c l))
      cases hm
      exact absurd rfl he
  | @idles now stream s hs hf hth hdue hpl =>
    by_cases he : stream = l
    · subst he
      exact .idles hs hf hth hdue hpl
    · refine .apart (apart_of_eq rfl (fun now' e' hm => ?_) rfl rfl rfl rfl rfl
        (Table.get?_modify_of_ne _ _ (Ne.symm he)) (hspare rfl (by simpa using he)))
      cases hm
      exact absurd rfl he
  | @finds now stream hno =>
    refine .apart (apart_of_eq rfl (fun now' e' hm => ?_) rfl rfl rfl rfl rfl rfl
      (appended_self c l))
    cases hm
    exact hno e'
  | @drops stream s hs =>
    by_cases he : stream = l
    · subst he
      exact .drops hs
    · refine .apart (apart_of_eq rfl (hpull rfl) rfl rfl rfl rfl
        (Table.get?_erase_of_ne _ (Ne.symm he)) (Table.get?_erase_of_ne _ (Ne.symm he)) ?_)
      cases s.sawTerminal with
      | true => exact appended_self c l
      | false => exact hspare rfl (by simpa using he)
  | handles hx => exact .handles hx
  | socket hx hm =>
    exact .apart (apart_of_eq hx (hpull hm) rfl rfl rfl rfl rfl rfl (appended_self c l))

/-! ### Numbers that were not given yet -/

/-- Nothing is known of the number. -/
structure Fresh (c : Client) (l : Nat) : Prop where
  /-- No command brings it. -/
  commands : ∀ cmd ∈ c.commands, cmd.Spares l
  /-- Nobody of it is to be let go. -/
  unlisten : ∀ run, .unlisten run l ∉ c.commands
  /-- No outstanding request brings it. -/
  requests : ∀ e ∈ c.connection.outstanding.entries, e.2.Spares l
  /-- Nobody of it is in the audience. -/
  audience : c.connection.audience.Spares l
  /-- No call brings it. -/
  calls : ∀ k call, c.calls.get? k = some call → call.purpose.listener? ≠ some l
  /-- It has no stream. -/
  streams : c.streams.get? l = none

theorem Fresh.handle (h : c.Fresh l) (hs : c.Sound) (hx : c.cue? m = some x) : (c.handle x).Fresh l := by
  have haud := spares_audience_of_handle hs hx (fun run y hm => h.commands _ hm y rfl)
    (fun _ _ _ _ _ _ _ _ hr => h.requests _ (Table.mem_of_get? hr)) h.audience
  rw [handle_eq]
  exact ⟨spares_commandsAfter h.commands, fun run hm => h.unlisten run (mem_of_mem_commandsAfter hm),
    spares_requests_of_handle hs hx h.commands h.requests, haud.1, h.calls, h.streams⟩

theorem Fresh.deals (h : c.Fresh l) (hs : c.Sound) (hd : Deals c l m c') : c'.Fresh l := by
  cases hd with
  | apart ha =>
    obtain ⟨cmds, hc, hcmds⟩ := ha.commands
    refine ⟨fun cmd hm => ?_, fun run hm => ?_, ha.idle.connection ▸ h.requests,
      ha.idle.connection ▸ h.audience, fun k call hk hcall => ?_, ha.streams ▸ h.streams⟩
    · rw [hc] at hm
      rcases List.mem_append.1 hm with hm | hm
      · exact h.commands cmd hm
      · exact (hcmds cmd hm).1
    · rw [hc] at hm
      rcases List.mem_append.1 hm with hm | hm
      · exact h.unlisten run hm
      · exact (hcmds _ hm).2 run rfl
    · exact h.calls k call ((ha.calls k call hcall).1 hk) hcall
  | handles hx => exact h.handle hs hx
  | beginsPull => exact { h with streams := by simp [beginPull, Table.get?_modify, h.streams] }
  | leavesPull => exact { h with streams := by simp [Table.get?_modify, h.streams] }
  | ends hk hcall => exact absurd hcall (h.calls _ _ hk)
  | expires hk hcall => exact absurd hcall (h.calls _ _ hk)
  | follows hk hcall => exact absurd hcall (h.calls _ _ hk)
  | takes hst => simp [h.streams] at hst
  | endsPull hst => simp [h.streams] at hst
  | idles hst => simp [h.streams] at hst
  | drops hst => simp [h.streams] at hst

theorem nextListener_le_of_does (hd : Does c m c') : c.nextListener ≤ c'.nextListener := by
  cases hd with
  | sends => exact Nat.le_succ _
  | subscribes => exact Nat.le_succ _
  | misses => exact Nat.le_succ _
  | @handles m x hx =>
    have heq : (c.handle x).nextListener = c.nextListener := by rw [handle_eq]
    exact Nat.le_of_eq heq.symm
  | _ => exact Nat.le_refl _

/-- Nothing is known of numbers to come, after every run. -/
theorem fresh_run (p : Profile) (moves : List Move) :
    ∀ l, ((Client.new p).run moves).nextListener ≤ l → ((Client.new p).run moves).Fresh l := by
  refine run_induction (P := fun _ c => ∀ l, c.nextListener ≤ l → c.Fresh l) ?_ ?_ moves
  · intro l _
    exact ⟨(fun _ h => nomatch h), (fun _ h => nomatch h), (fun _ h => nomatch h), (fun _ h => nomatch h),
      (fun _ _ h => nomatch h), rfl⟩
  · intro moves m ih l hl
    have hd := does_move ((Client.new p).run moves) m
    have hle := nextListener_le_of_does hd
    exact (ih l (by omega)).deals (sound_run p moves) (deals_of_does (numbered_run p moves) (.inr hl) hd)

/-! ### A listener on its way -/

/-- Where the request is that brings the listener of a number for the ticket of a call. -/
inductive Place (c : Client) (n l : Nat) : Prop where
  /-- In the queue of commands, once. -/
  | queued {before after : List Command} {id method : String} {params : Json} :
      c.commands = before ++ .request id method params n (some ⟨l, l⟩) :: after →
      (∀ cmd ∈ before ++ after, cmd.Spares l) →
      (∀ e ∈ c.connection.outstanding.entries, e.2.Spares l) → Place c n l
  /-- Outstanding, under one name, or nowhere. -/
  | sent (id : String) : (∀ cmd ∈ c.commands, cmd.Spares l) →
      (∀ e ∈ c.connection.outstanding.entries, e.2.Spares l ∨
        e.1 = id ∧ e.2.ticket = n ∧ e.2.listener = some ⟨l, l⟩) → Place c n l

/-- The caller waits for its request to be answered, and the listener's mailbox is empty. -/
structure Holds (c : Client) (n l : Nat) : Prop where
  /-- The call. -/
  call : ∃ call, c.calls.get? n = some call ∧ call.purpose.listener? = some l
  /-- The mailbox. -/
  box : c.boxes.get? l = some .new
  /-- There is no stream yet. -/
  streams : c.streams.get? l = none
  /-- Nobody is to be let go. -/
  unlisten : ∀ run, .unlisten run l ∉ c.commands

/-- **The listener of a number is on its way** with the request of a call. -/
structure Asks (c : Client) (n l : Nat) : Prop where
  /-- The number was given. -/
  listener : l < c.nextListener
  /-- The ticket was given. -/
  ticket : n < c.nextTicket
  /-- No other call brings the listener. -/
  sole : ∀ k call, c.calls.get? k = some call → call.purpose.listener? = some l → k = n
  /-- The call brings no other listener. -/
  own : ∀ call, c.calls.get? n = some call → call.purpose.listener? = some l
  /-- It is not in the audience yet. -/
  audience : c.connection.audience.Spares l
  /-- Its request is in one place. -/
  place : c.Place n l
  /-- While the caller waits, the mailbox is there. -/
  held : c.tickets.get? n = some .waiting → c.Holds n l

/-- Nobody brings the listener of a number any more. -/
structure Settled (c : Client) (l : Nat) : Prop where
  /-- No command does. -/
  commands : ∀ cmd ∈ c.commands, cmd.Spares l
  /-- No outstanding request does. -/
  requests : ∀ e ∈ c.connection.outstanding.entries, e.2.Spares l

theorem Place.append (h : c.Place n l) (hconn : c'.connection = c.connection)
    (hcmds : ∃ cmds, c'.commands = c.commands ++ cmds ∧ ∀ cmd ∈ cmds, cmd.Spares l) : c'.Place n l := by
  obtain ⟨cmds, hc, hcmds⟩ := hcmds
  cases h with
  | @queued before after id method params hq hspares hreqs =>
    have hq' : c'.commands =
        before ++ .request id method params n (some ⟨l, l⟩) :: (after ++ cmds) := by
      rw [hc, hq, List.append_assoc, List.cons_append]
    refine .queued hq' (fun cmd hm => ?_) (hconn ▸ hreqs)
    rw [← List.append_assoc] at hm
    rcases List.mem_append.1 hm with hm | hm
    · exact hspares cmd hm
    · exact hcmds cmd hm
  | sent id hspares hreqs =>
    refine .sent _ (fun cmd hm => ?_) (hconn ▸ hreqs)
    rw [hc] at hm
    rcases List.mem_append.1 hm with hm | hm
    · exact hspares cmd hm
    · exact hcmds cmd hm

/-- What others than the supervisor do leaves a listener on its way. -/
theorem Asks.of_idle (h : c.Asks n l) (hi : c.Idle c') (hl : c.nextListener ≤ c'.nextListener)
    (hcalls : ∀ k call, c'.calls.get? k = some call → call.purpose.listener? = some l →
      c.calls.get? k = some call)
    (hcmds : ∃ cmds, c'.commands = c.commands ++ cmds ∧ ∀ cmd ∈ cmds, cmd.Spares l)
    (hheld : c'.tickets.get? n = some .waiting → c.Holds n l → c'.Holds n l) : c'.Asks n l := by
  refine ⟨Nat.lt_of_lt_of_le h.listener hl, Nat.lt_of_lt_of_le h.ticket hi.nextTicket,
    fun k call hk hcall => h.sole k call (hcalls k call hk hcall) hcall, fun call hk => ?_,
    hi.connection ▸ h.audience, h.place.append hi.connection hcmds, fun hw => ?_⟩
  · rcases hi.calls n call hk with hk | ⟨he, -⟩
    · exact h.own call hk
    · exact absurd he (Nat.ne_of_lt h.ticket)
  · rcases hi.tickets n _ hw with hw' | ⟨he, -⟩
    · exact hheld hw (h.held hw')
    · exact absurd he (Nat.ne_of_lt h.ticket)

/-- Others than the supervisor leave a listener on its way. -/
theorem Asks.idle (h : c.Asks n l) (hn : c.Numbered) (hx : c.cue? m = none) (hd : Does c m c') :
    c'.Asks n l := by
  have hi := idle_of_does hx hd
  have hl := nextListener_le_of_does hd
  have hgone : ∀ {k : Nat}, k = n → c'.tickets = c.tickets.erase k →
      c'.tickets.get? n = some .waiting → False := by
    intro k hk ht hw
    rw [ht, hk, Table.get?_erase_self] at hw
    cases hw
  have herase : ∀ {k : Nat}, c'.calls = c.calls.erase k → ∀ j call, c'.calls.get? j = some call →
      call.purpose.listener? = some l → c.calls.get? j = some call :=
    fun hc _ _ hj _ => Table.get?_of_erase (hc ▸ hj)
  have hsame : ∃ cmds, c.commands = c.commands ++ cmds ∧ ∀ cmd ∈ cmds, cmd.Spares l :=
    ⟨[], (List.append_nil _).symm, fun _ hm => absurd hm List.not_mem_nil⟩
  have htold : ∀ {cmd : Command}, cmd.listener? = none → ∃ cmds, c.told cmd = c.commands ++ cmds ∧
      ∀ x ∈ cmds, x.Spares l := by
    intro cmd hno
    obtain ⟨cmds, he, hc⟩ := told_eq_append (c := c) cmd
    refine ⟨cmds, he, fun y hy z hz => ?_⟩
    rw [hc y hy, hno] at hz
    cases hz
  cases deals_of_does hn (.inl h.listener) hd with
  | apart ha =>
    obtain ⟨cmds, hc, hcmds⟩ := ha.commands
    refine h.of_idle hi hl (fun k call hk hcall => (ha.calls k call hcall).1 hk)
      ⟨cmds, hc, fun cmd hm => (hcmds cmd hm).1⟩ fun _ hh => ?_
    obtain ⟨call, hcall, hlis⟩ := hh.call
    refine ⟨⟨call, (ha.calls n call hlis).2 hcall, hlis⟩, ha.boxes ▸ hh.box, ha.streams ▸ hh.streams,
      fun run hm => ?_⟩
    rw [hc] at hm
    rcases List.mem_append.1 hm with hm | hm
    · exact hh.unlisten run hm
    · exact (hcmds _ hm).2 run rfl
  | ends hk hcall =>
    exact h.of_idle hi hl (herase rfl) hsame fun hw _ => (hgone (h.sole _ _ hk hcall) rfl hw).elim
  | expires hk hcall =>
    exact h.of_idle hi hl (herase rfl) (htold rfl) fun hw _ =>
      (hgone (h.sole _ _ hk hcall) rfl hw).elim
  | follows hk hcall =>
    exact h.of_idle hi hl (herase rfl) hsame fun hw _ => (hgone (h.sole _ _ hk hcall) rfl hw).elim
  | beginsPull =>
    exact h.of_idle hi hl (fun _ _ hk _ => hk) hsame fun _ hh =>
      { hh with streams := by simp [beginPull, Table.get?_modify, hh.streams] }
  | leavesPull =>
    exact h.of_idle hi hl (fun _ _ hk _ => hk) hsame fun _ hh =>
      { hh with streams := by simp [Table.get?_modify, hh.streams] }
  | takes hst =>
    exact h.of_idle hi hl (fun _ _ hk _ => hk) hsame fun _ hh => by simp [hh.streams] at hst
  | endsPull hst =>
    exact h.of_idle hi hl (fun _ _ hk _ => hk) hsame fun _ hh => by simp [hh.streams] at hst
  | idles hst =>
    exact h.of_idle hi hl (fun _ _ hk _ => hk) (htold rfl) fun _ hh => by simp [hh.streams] at hst
  | @drops s hst =>
    refine h.of_idle hi hl (fun _ _ hk _ => hk) ?_ fun _ hh => by simp [hh.streams] at hst
    cases s.sawTerminal with
    | true => exact hsame
    | false => exact htold rfl
  | handles hx' =>
    rw [hx] at hx'
    cases hx'

/-- A request that brings the listener of a number on its way is its own. -/
theorem Place.own_of_mem (h : c.Place n l) {e : String × Request}
    (he : e ∈ c.connection.outstanding.entries) (hno : ¬ e.2.Spares l) :
    e.2.ticket = n ∧ e.2.listener = some ⟨l, l⟩ ∧ (∀ cmd ∈ c.commands, cmd.Spares l) ∧
      ∀ e' ∈ c.connection.outstanding.entries, e'.1 ≠ e.1 → e'.2.Spares l := by
  cases h with
  | queued hq hcmds hreqs => exact absurd (hreqs e he) hno
  | sent id hcmds hreqs =>
    obtain ⟨hid, hn, hl⟩ := (hreqs e he).resolve_left hno
    refine ⟨hn, hl, hcmds, fun e' he' hne => ?_⟩
    rcases hreqs e' he' with hs | ⟨hid', -⟩
    · exact hs
    · exact absurd (hid'.trans hid.symm) hne

/-- Nobody comes to the audience with the number on its way, unless its request is answered. -/
theorem Place.listens (h : c.Place n l) : ∀ run y, .listen run y ∈ c.commands → y.Spares l := by
  intro run y hm
  cases h with
  | queued hq hcmds hreqs =>
    rw [hq] at hm
    rcases List.mem_append.1 hm with hm | hm
    · exact hcmds _ (List.mem_append_left _ hm) y rfl
    · rcases List.mem_cons.1 hm with he | hm
      · cases he
      · exact hcmds _ (List.mem_append_right _ hm) y rfl
  | sent id hcmds hreqs => exact hcmds _ hm y rfl

/-- The supervisor takes a command, and a request on its way is where it was, or goes out. -/
theorem Place.handle (h : c.Place n l) (hs : c.Sound) (hx : c.cue? m = some x) :
    (c.handle x).Place n l := by
  rw [handle_eq]
  cases h with
  | @queued before after id method params hq hcmds hreqs =>
    have hmem : ∀ e ∈ (c.outcome x).1.outstanding.entries, e.2.Spares l ∨
        e.1 = id ∧ e.2.ticket = n ∧ e.2.listener = some ⟨l, l⟩ ∧
        x.input = .command (.request id method params n (some ⟨l, l⟩)) := by
      intro e he
      rcases request_of_handle hs hx he with he | ⟨params', hi, hin⟩
      · exact .inl (hreqs e he)
      · rw [hq] at hin
        rcases List.mem_append.1 hin with hin | hin
        · exact .inl (hcmds _ (List.mem_append_left _ hin))
        · rcases List.mem_cons.1 hin with he | hin
          · injection he with hid hmethod hparams hn hl
            exact .inr ⟨hid, hn, hl, by rw [hi, hid, hmethod, hparams, hn, hl]⟩
          · exact .inl (hcmds _ (List.mem_append_right _ hin))
    have hsent : ∀ e ∈ (c.outcome x).1.outstanding.entries, e.2.Spares l ∨
        e.1 = id ∧ e.2.ticket = n ∧ e.2.listener = some ⟨l, l⟩ := fun e he =>
      (hmem e he).imp_right fun ho => ⟨ho.1, ho.2.1, ho.2.2.1⟩
    have hspares : x.input ≠ .command (.request id method params n (some ⟨l, l⟩)) →
        ∀ e ∈ (c.outcome x).1.outstanding.entries, e.2.Spares l := fun hne e he =>
      (hmem e he).resolve_right fun ho => hne ho.2.2.2
    cases hlast : x.input.isLast with
    | true =>
      rw [commandsAfter_of_isLast hlast]
      exact .sent id (fun _ hm => nomatch hm) hsent
    | false =>
      cases hi : x.input with
      | command cmd =>
        rw [hi] at hlast
        rw [commandsAfter_command hlast]
        have hc := commands_of_cue? hx hi
        rw [hq] at hc ⊢
        cases before with
        | nil => exact .sent id hcmds hsent
        | cons b before =>
          -- the first command is another
          injection hc with hb
          refine .queued rfl (fun cmd' hm => hcmds cmd' (List.mem_cons_of_mem _ hm)) (hspares ?_)
          rw [hi, ← hb]
          rintro ⟨⟩
          exact (hcmds _ List.mem_cons_self ⟨l, l⟩ rfl).1 rfl
      | _ =>
        rw [hi] at hlast
        rw [commandsAfter_eq_self hlast (by simp)]
        exact .queued hq hcmds (hspares (by simp [hi]))
  | sent id hcmds hreqs =>
    refine .sent id (spares_commandsAfter hcmds) (fun e he => ?_)
    show e.2.Spares l ∨ e.1 = id ∧ e.2.ticket = n ∧ e.2.listener = some ⟨l, l⟩
    rcases request_of_handle hs hx he with he | ⟨params, -, hin⟩
    · exact hreqs e he
    · exact .inl (hcmds _ hin)

/-- The supervisor leaves a listener on its way, unless its request is answered. -/
theorem Asks.handle_of_spares (h : c.Asks n l) (hs : c.Sound) (hx : c.cue? m = some x)
    (hreq : ∀ t id ok payload error r, x.input = .report c.connection.epoch (.text t) →
      Tidings.ofText t = .response id ok payload error → c.connection.outstanding.get? id = some r →
      r.Spares l) : (c.handle x).Asks n l := by
  have hplace := h.place.handle hs hx
  have haud := spares_audience_of_handle hs hx h.place.listens hreq h.audience
  rw [handle_eq] at hplace ⊢
  refine ⟨h.listener, h.ticket, h.sole, h.own, haud.1, hplace, fun hw => ?_⟩
  have hh := h.held (waiting_of_onTickets hw).1
  exact ⟨hh.call, haud.2.trans hh.box, hh.streams,
    fun run hm => hh.unlisten run (mem_of_mem_commandsAfter hm)⟩

/-- The supervisor leaves a listener on its way, until its request is answered; nobody brings it then. -/
theorem Asks.handle (h : c.Asks n l) (hs : c.Sound) (hx : c.cue? m = some x) :
    (c.handle x).Asks n l ∨ (c.handle x).Settled l := by
  by_cases hans : ∃ t id ok payload error r, x.input = .report c.connection.epoch (.text t) ∧
      Tidings.ofText t = .response id ok payload error ∧ c.connection.outstanding.get? id = some r ∧
      ¬ r.Spares l
  · obtain ⟨t, id, ok, payload, error, r, hi, ht, hr, hno⟩ := hans
    have hmem := Table.mem_of_get? hr
    obtain ⟨-, -, hcmds, hreqs⟩ := h.place.own_of_mem hmem hno
    have ho : (c.outcome x).1.outstanding = c.connection.outstanding.erase id := by
      simp only [outcome, hi, Connection.handle_of_response ht (hs.phase.connected_of_mem hmem) hr]
    refine .inr ⟨?_, ?_⟩
    · rw [handle_eq]
      exact spares_commandsAfter hcmds
    · rw [handle_eq]
      simp only [ho]
      intro e he
      obtain ⟨he, hne⟩ := Table.mem_erase.1 he
      exact hreqs e he hne
  · refine .inl (h.handle_of_spares hs hx fun t id ok payload error r hi ht hr => ?_)
    by_contra hno
    exact hans ⟨t, id, ok, payload, error, r, hi, ht, hr, hno⟩

/-- Every listener that a request brings is on its way. -/
structure Listens (c : Client) : Prop where
  /-- A request in the queue of commands. -/
  commands : ∀ id method params n y, .request id method params n (some y) ∈ c.commands →
    ∃ l, y = ⟨l, l⟩ ∧ c.Asks n l
  /-- An outstanding request. -/
  requests : ∀ e ∈ c.connection.outstanding.entries, ∀ y, e.2.listener = some y →
    ∃ l, y = ⟨l, l⟩ ∧ c.Asks e.2.ticket l

theorem listens_new (p : Profile) : (Client.new p).Listens :=
  ⟨(fun _ _ _ _ _ h => nomatch h), fun _ h => nomatch h⟩

/-- A call for a run puts its listener on its way. -/
theorem Fresh.asks (h : c.Fresh c.nextListener) {id method : String} {params : Json}
    {call : Call} (hcall : call.purpose.listener? = some c.nextListener)
    (hconn : c'.connection = c.connection) (hl : c'.nextListener = c.nextListener + 1)
    (ht : c'.nextTicket = c.nextTicket + 1) (hcalls : c'.calls = c.calls.set c.nextTicket call)
    (hboxes : c'.boxes = c.boxes.set c.nextListener .new) (hstreams : c'.streams = c.streams)
    (hcmds : c'.commands = c.told (.request id method params c.nextTicket
      (some ⟨c.nextListener, c.nextListener⟩))) : c'.Asks c.nextTicket c.nextListener := by
  have hself : c'.calls.get? c.nextTicket = some call := by rw [hcalls, Table.get?_set_self]
  refine ⟨by omega, by omega, fun k call' hk hcall' => ?_, fun call' hk => ?_, hconn ▸ h.audience, ?_,
    fun _ => ⟨⟨call, hself, hcall⟩, by rw [hboxes, Table.get?_set_self], hstreams ▸ h.streams, ?_⟩⟩
  · rw [hcalls, Table.get?_set] at hk
    split at hk
    · rename_i hkn
      exact hkn
    · exact absurd hcall' (h.calls k call' hk)
  · rw [hself] at hk
    cases hk
    exact hcall
  · unfold told at hcmds
    split at hcmds
    · exact .queued hcmds (by simpa using h.commands) (hconn ▸ h.requests)
    · exact .sent id (hcmds ▸ h.commands) fun e he => .inl (h.requests e (hconn ▸ he))
  · intro run hm
    rw [hcmds] at hm
    rcases mem_told hm with hm | hm
    · exact h.unlisten run hm
    · cases hm

/-- A request that comes into the queue puts its listener on its way. -/
theorem asks_of_mem (hf : ∀ l, c.nextListener ≤ l → c.Fresh l) (hx : c.cue? m = none)
    (hd : Does c m c') {id method : String} {params : Json} {y : Listener}
    (hm : .request id method params n (some y) ∈ c'.commands) :
    .request id method params n (some y) ∈ c.commands ∨ ∃ l, y = ⟨l, l⟩ ∧ c'.Asks n l := by
  have hold : ∀ {cmd : Command}, cmd.listener? ≠ some y → .request id method params n (some y) ∈ c.told cmd →
      .request id method params n (some y) ∈ c.commands ∨ ∃ l, y = ⟨l, l⟩ ∧ c'.Asks n l := by
    intro cmd hne hm
    rcases mem_told hm with hm | rfl
    · exact .inl hm
    · exact absurd rfl hne
  cases hd with
  | calls ha => cases ha <;> exact hold (by simp [Command.listener?]) hm
  | sends =>
    rcases mem_told hm with hm | he
    · exact .inl hm
    · injection he with _ _ _ hticket hlis
      injection hlis with hlis
      subst hticket hlis
      exact .inr ⟨_, rfl, (hf _ (Nat.le_refl _)).asks rfl rfl rfl rfl rfl rfl rfl rfl⟩
  | expires => exact hold (by simp [Command.listener?]) hm
  | subscribes =>
    rcases mem_told hm with hm | he
    · exact .inl hm
    · cases he
  | idles => exact hold (by simp [Command.listener?]) hm
  | @drops stream s =>
    simp only at hm
    split at hm
    · exact .inl hm
    · exact hold (by simp [Command.listener?]) hm
  | handles hx' =>
    rw [hx] at hx'
    cases hx'
  | _ => exact .inl hm

theorem Listens.idle (h : c.Listens) (hf : ∀ l, c.nextListener ≤ l → c.Fresh l) (hn : c.Numbered)
    (hx : c.cue? m = none) (hd : Does c m c') : c'.Listens := by
  constructor
  · intro id method params n y hm
    rcases asks_of_mem hf hx hd hm with hm | hnew
    · obtain ⟨l, hy, ha⟩ := h.commands id method params n y hm
      exact ⟨l, hy, ha.idle hn hx hd⟩
    · exact hnew
  · intro e he y hy
    rw [(idle_of_does hx hd).connection] at he
    obtain ⟨l, hl, ha⟩ := h.requests e he y hy
    exact ⟨l, hl, ha.idle hn hx hd⟩

theorem Listens.handle (h : c.Listens) (hs : c.Sound) (hx : c.cue? m = some x) : (c.handle x).Listens := by
  have hcmds : (c.handle x).commands = c.commandsAfter x.input := by rw [handle_eq]
  have hconn : (c.handle x).connection = (c.outcome x).1 := by rw [handle_eq]
  constructor
  · intro id method params n y hm
    obtain ⟨l, hy, ha⟩ := h.commands id method params n y (mem_of_mem_commandsAfter (hcmds ▸ hm))
    rcases ha.handle hs hx with ha | hset
    · exact ⟨l, hy, ha⟩
    · exact absurd (hy ▸ rfl) (hset.commands _ hm y rfl).1
  · intro e he y hy
    have hasks : ∃ l, y = ⟨l, l⟩ ∧ c.Asks e.2.ticket l := by
      rcases request_of_handle hs hx (hconn ▸ he) with he | ⟨params, -, hin⟩
      · exact h.requests e he y hy
      · rw [hy] at hin
        exact h.commands _ _ _ _ y hin
    obtain ⟨l, hl, ha⟩ := hasks
    rcases ha.handle hs hx with ha | hset
    · exact ⟨l, hl, ha⟩
    · exact absurd (hl ▸ rfl) (hset.requests e he y hy).1

/-- **Every listener that a request brings is on its way**, after every run. -/
theorem listens_run (p : Profile) (moves : List Move) : ((Client.new p).run moves).Listens := by
  refine run_induction (P := fun _ c => c.Listens) (listens_new p) (fun moves m h => ?_) moves
  have hs := sound_run p moves
  cases hx : ((Client.new p).run moves).cue? m with
  | none => exact h.idle (fresh_run p moves) (numbered_run p moves) hx (does_move _ m)
  | some x =>
    rw [move_of_cue? hx]
    exact h.handle hs hx

end Client

end TurnRelay.Gateway
