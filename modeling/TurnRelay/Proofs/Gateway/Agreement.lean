import TurnRelay.Proofs.Gateway.Following
import TurnRelay.Proofs.Wire.FrameText

/-!
# Two readers of one answer

The answer to a request for a run is read twice. The supervisor looks for the name of the run and lets the
listener follow it; the caller reads the whole answer, is given a stream of the run that it names, or is told
that the answer cannot be read. Most answers mean the same to both. Three forms do not: the caller also reads
an answer that is an array, by position, with or without a status, and there the supervisor finds no name; and
the caller refuses an object whose status is no text, while the supervisor is content with the name.

So a caller can be given a stream that nobody feeds, and a listener can stay behind whose caller was told that
there is no run.

## The model

* `Accepts` — a move in which the supervisor handles an accepting response while its caller waits.
* `Agreed` — both readers take the same from the answer, with what follows for the caller.
* `Divides` — the answers that the two readers take differently.

## What is proved

* `decode_object_iff`, `decode_array_iff` — what the caller takes from an answer.
* `resolved_of_accepts` — what the supervisor does about an answer.
* `agreed_iff` — the readers agree exactly on the answers that do not divide them.
-/

namespace TurnRelay.Gateway

open TurnRelay.Json TurnRelay.Wire

/-! ### What the caller reads -/

variable {ms : Members} {ack : SendAck}

/-- What the caller takes from an object: the name of the run, and a status that may be missing. -/
theorem decode_object_iff (hd : (ms.map Prod.fst).Nodup) : SendAck.decode (.object ms) = .ok ack ↔
    find? "runId" ms = some (.string ack.runId) ∧
      (find? "status" ms).getD .null = (ack.status.map Json.string).getD .null := by
  show SendAck.record.fromMembers ms = _ ↔ _
  rw [Record.fromMembers_iff]
  constructor
  · intro h
    obtain ⟨build, status, hbuild, hstatus, rfl⟩ := h.exists_field hd fun _ => rfl
    obtain ⟨make, runId, hmake, hrun, rfl⟩ := hbuild.exists_field hd fun _ => rfl
    obtain rfl := Except.ok.inj hmake.value
    exact ⟨(Field.reads_string_iff hd).1 hrun, (Field.reads_option_string_iff hd).1 hstatus⟩
  · rintro ⟨hrun, hstatus⟩
    exact ((Record.Reads.unit _ ms).field ((Field.reads_string_iff hd).2 hrun)).field
      ((Field.reads_option_string_iff hd).2 hstatus)

/-- What the caller takes from an array: the name of the run first, and behind it a status or nothing. -/
theorem decode_array_iff {items : List Json} : SendAck.decode (.array items) = .ok ack ↔
    items = [.string ack.runId] ∧ ack.status = none ∨
      items = [.string ack.runId, (ack.status.map Json.string).getD .null] := by
  obtain ⟨runId, status⟩ := ack
  show SendAck.record.fromItems _ items = _ ↔ _
  rw [Record.fromItems_iff]
  simp only [SendAck.record, Record.ofItems_field_iff, Record.ofItems_unit_iff]
  constructor
  · rintro ⟨build, us, ⟨make, us', ⟨rfl, rfl⟩, hrun⟩, hstatus⟩
    obtain ⟨v, s, rfl, hs, rfl⟩ | ⟨-, -, s, hs, -⟩ := hrun
    · obtain rfl := Decoder.string_eq_ok_iff.1 hs
      obtain ⟨w, o, rfl, ho, hack⟩ | ⟨rfl, -, o, ho, hack⟩ := hstatus
      · obtain rfl := Decoder.option_string_eq_ok_iff.1 ho
        obtain ⟨rfl, rfl⟩ := SendAck.mk.inj hack
        exact .inr rfl
      · obtain ⟨rfl, rfl⟩ := SendAck.mk.inj hack
        exact .inl ⟨rfl, (Option.some.inj ho).symm⟩
    · cases hs
  · rintro (⟨rfl, hstatus⟩ | rfl)
    · exact ⟨_, [], ⟨_, _, ⟨rfl, rfl⟩, .inl ⟨_, runId, rfl, rfl, rfl⟩⟩,
        .inr ⟨rfl, trivial, none, rfl, by rw [← hstatus]⟩⟩
    · exact ⟨_, [_], ⟨_, _, ⟨rfl, rfl⟩, .inl ⟨_, runId, rfl, rfl, rfl⟩⟩,
        .inl ⟨_, status, rfl, Decoder.option_string_eq_ok_iff.2 rfl, rfl⟩⟩

/-! ### What the supervisor looks for -/

theorem namedRun?_object_iff {run : String} :
    Connection.namedRun? (.object ms) = some run ↔ find? "runId" ms = some (.string run) := by
  show (find? "runId" ms).bind Json.string? = _ ↔ _
  cases find? "runId" ms with
  | none => simp
  | some w => cases w <;> simp [Json.string?]

/-- The answers that the two readers take differently. -/
inductive Divides : Json → Prop where
  /-- An array with the name of a run. -/
  | listed {run : String} : Divides (.array [.string run])
  /-- The same with a status. -/
  | listedWithStatus {run : String} {status : Option String} :
      Divides (.array [.string run, (status.map Json.string).getD .null])
  /-- An object with the name of a run whose status is no text. -/
  | misstated {ms : Members} {run : String} {w : Json} : find? "runId" ms = some (.string run) →
      find? "status" ms = some w → w ≠ .null → (∀ s, w ≠ .string s) → Divides (.object ms)

/-- The readers find the same run in all other answers, and only there. -/
theorem readers_iff {v : Json} (hd : v.HasDistinctNames) :
    (∀ run, Connection.namedRun? v = some run ↔ ∃ ack, SendAck.decode v = .ok ack ∧ ack.runId = run) ↔
      ¬ Divides v := by
  constructor
  · intro h hdiv
    cases hdiv with
    | @listed run => cases (h run).2 ⟨⟨run, none⟩, decode_array_iff.2 (.inl ⟨rfl, rfl⟩), rfl⟩
    | @listedWithStatus run status => cases (h run).2 ⟨⟨run, status⟩, decode_array_iff.2 (.inr rfl), rfl⟩
    | @misstated ms run w hrun hstatus hnull hstring =>
      obtain ⟨⟨run', status⟩, hack, -⟩ := (h run).1 (namedRun?_object_iff.2 hrun)
      have hw := ((decode_object_iff hd).1 hack).2
      rw [hstatus, Option.getD_some] at hw
      cases status with
      | none => exact hnull hw
      | some s => exact hstring s hw
  · intro hno run
    cases v with
    | object ms =>
      rw [namedRun?_object_iff]
      refine ⟨fun hrun => ?_, fun ⟨ack, hack, hname⟩ => hname ▸ ((decode_object_iff hd).1 hack).1⟩
      by_contra hack
      have hstatus : ∀ status : Option String,
          (find? "status" ms).getD .null ≠ (status.map Json.string).getD .null := fun status hs =>
        hack ⟨⟨run, status⟩, (decode_object_iff hd).2 ⟨hrun, hs⟩, rfl⟩
      cases hw : find? "status" ms with
      | none => exact hstatus none (by rw [hw]; rfl)
      | some w =>
        rw [hw] at hstatus
        exact hno (.misstated hrun hw (hstatus none) fun s => hstatus (some s))
    | array items =>
      constructor
      · intro h
        cases h
      · rintro ⟨ack, hack, -⟩
        obtain ⟨rfl, -⟩ | rfl := decode_array_iff.1 hack
        · exact absurd .listed hno
        · exact absurd .listedWithStatus hno
    | _ =>
      constructor
      · intro h
        cases h
      · rintro ⟨ack, hack, -⟩
        cases hack

/-! ### The answer arrives -/

namespace Audience

variable {a : Audience} {run run' : String} {l : Nat}

theorem Seats.not_spares (h : a.Seats run l) : ¬ a.Spares l := by
  obtain ⟨before, after, hm, -⟩ := h
  exact fun hspares => (hspares (run, ⟨l, l⟩) (hm ▸ List.mem_append_right _ List.mem_cons_self)).1 rfl

/-- One of the number follows one run. -/
theorem Seats.run_eq (h : a.Seats run l) (h' : a.Seats run' l) : run' = run := by
  obtain ⟨before, after, hm, hothers⟩ := h
  obtain ⟨before', after', hm', -⟩ := h'
  have hmem : (run', (⟨l, l⟩ : Listener)) ∈ before ++ (run, ⟨l, l⟩) :: after :=
    hm ▸ hm' ▸ List.mem_append_right _ List.mem_cons_self
  rw [List.mem_append, List.mem_cons] at hmem
  obtain hmem | he | hmem := hmem
  · exact absurd rfl (hothers _ (List.mem_append_left _ hmem)).1
  · exact congrArg Prod.fst he
  · exact absurd rfl (hothers _ (List.mem_append_right _ hmem)).1

end Audience

/-- In a move the supervisor handles the response to a request for a run: it accepts, with the answer `v`, and the
caller with the ticket `n` still waits. The run's listener has the number `l`. -/
inductive Accepts (c : Client) (m : Move) (v : Json) (n l : Nat) : Prop where
  /-- The response. -/
  | intro {now : Nat} {freshId t id : String} {payload : Option Json} {error : Option Failure}
      {r : Request} {y : Listener} :
      c.cue? m = some ⟨now, freshId, .report c.connection.epoch (.text t)⟩ →
      Frame.parse? t = some (.response id true payload error) → payload.getD .null = v →
      c.connection.outstanding.get? id = some r → r.ticket = n → r.listener = some y → y.box = l →
      c.tickets.isWaiting n = true → Accepts c m v n l

variable {c : Client} {m : Move} {v : Json} {n l : Nat}

/-- An answer repeats no name. -/
theorem Accepts.hasDistinctNames (h : Accepts c m v n l) : v.HasDistinctNames := by
  cases h with
  | @intro _ _ _ _ payload _ _ _ _ hparse hv =>
    cases payload with
    | none => exact hv ▸ trivial
    | some w => exact hv ▸ Frame.hasDistinctNames_of_parse? hparse w (by simp [Frame.freeForms])

/-- The ticket of a call for a run has the answer `v`, for as long as it is there. -/
structure Client.Owed (c : Client) (v : Json) (n l : Nat) : Prop where
  /-- It was given. -/
  old : n < c.nextTicket
  /-- Its answer. -/
  ticket : ∀ t, c.tickets.get? n = some t → t = .answered (.ok v)
  /-- The listener of its call. -/
  own : ∀ call, c.calls.get? n = some call → call.purpose.listener? = some l

theorem Client.Owed.move (h : c.Owed v n l) (m : Move) : (c.move m).Owed v n l := by
  cases hx : c.cue? m with
  | none =>
    have hi := idle_of_does hx (does_move c m)
    refine ⟨Nat.lt_of_lt_of_le h.old hi.nextTicket, fun t ht => ?_, fun call hcall => ?_⟩
    · obtain ht | ⟨he, -⟩ := hi.tickets n t ht
      · exact h.ticket t ht
      · exact absurd he (Nat.ne_of_lt h.old)
    · obtain hcall | ⟨he, -⟩ := hi.calls n call hcall
      · exact h.own call hcall
      · exact absurd he (Nat.ne_of_lt h.old)
  | some x =>
    rw [move_of_cue? hx, handle_eq]
    refine ⟨h.old, fun t ht => ?_, h.own⟩
    rw [get?_onTickets] at ht
    obtain ⟨t', ht', rfl⟩ := Option.map_eq_some_iff.1 ht
    obtain rfl := h.ticket t' ht'
    simp

theorem Client.Owed.run (h : c.Owed v n l) (moves : List Move) : (c.run moves).Owed v n l := by
  induction moves generalizing c with
  | nil => exact h
  | cons m moves ih => exact ih (h.move m)

/-- What the caller makes of the answer. -/
theorem Client.Owed.poll_eq {now : Nat} {r : Except Fault Yield} (h : c.Owed v n l)
    (hr : (c.poll now n).1 = some r) : (∃ ack, r = .ok (.run ack l) ∧ SendAck.decode v = .ok ack) ∨
      (∃ e, r = .error (.ofDecodeError e) ∧ SendAck.decode v = .error e) ∨ r = .error .destroyed := by
  have hpolls := polls_poll c now n
  generalize (c.poll now n).2 = c' at hpolls
  rw [hr] at hpolls
  generalize hr' : some r = r' at hpolls
  cases hpolls with
  | nowhere => cases hr'
  | waits => cases hr'
  | expired _ hw => cases h.ticket _ hw
  | @answered call a hcall ha =>
    obtain rfl := Option.some.inj hr'
    have hown := h.own call hcall
    obtain ⟨purpose, deadline⟩ := call
    cases purpose with
    | run id timeout l' =>
      obtain rfl := Option.some.inj hown
      cases ha with
      | found ht =>
        obtain rfl := Ticket.answered.inj (h.ticket _ ht)
        cases hdecode : SendAck.decode v with
        | ok ack => exact .inl ⟨ack, by simp [conclude, hdecode], rfl⟩
        | error e => exact .inr (.inl ⟨e, by simp [conclude, hdecode], rfl⟩)
      | lost => exact .inr (.inr rfl)
      | void => exact .inr (.inr rfl)
    | _ => cases hown

/-- What an accepting response has left behind. -/
structure Resolved (c c' : Client) (v : Json) (n l : Nat) : Prop where
  /-- Nobody had the listener's number. -/
  spares : c.connection.audience.Spares l
  /-- The listener follows the run that the answer names. -/
  seats : ∀ run, Connection.namedRun? v = some run → c'.connection.audience.Seats run l
  /-- If it names none, the audience is as it was. -/
  same : Connection.namedRun? v = none → c'.connection.audience = c.connection.audience
  /-- The caller has the answer. -/
  owed : c'.Owed v n l

/-- **The step that answers the caller also lets its listener follow the run that is named.** -/
theorem resolved_of_accepts (h : Accepts c m v n l) (hs : c.Sound) (hl : c.Listens) :
    Resolved c (c.move m) v n l := by
  cases h with
  | @intro now freshId t id payload error r y hx hparse hv hr hn hy hbox hw =>
    subst hn hbox hv
    obtain ⟨l, rfl, ha⟩ := hl.requests (id, r) (Table.mem_of_get? hr) y hy
    have hwait := of_decide_eq_true hw
    have ho := @Connection.handle_of_response (c.surroundings now freshId) c.profile _ _ _ _ _ _ _
      (Tidings.ofText_eq_response_iff.2 hparse) (hs.phase.connected_of_mem (Table.mem_of_get? hr)) hr
    have haudience : (c.move m).connection.audience =
        Connection.follow (c.surroundings now freshId) r (payload.getD .null) c.connection.audience := by
      rw [Client.move_of_cue? hx, Client.handle_eq]
      simp only [Client.outcome, ho, Connection.audienceAfter, if_true]
    refine ⟨ha.audience, fun run hrun => ?_, fun hrun => ?_, ?_⟩
    · have haccepts : c.boxes.accepts l = true := by simp [Mailboxes.accepts, (ha.held hwait).box, Mailbox.new]
      simp only [haudience, Connection.follow, hy, hrun]
      rw [if_pos (show (c.surroundings now freshId).waiting r.ticket = true from hw)]
      exact ha.audience.seats_add haccepts
    · simp only [haudience, Connection.follow, hy, hrun]
    · rw [Client.move_of_cue? hx, Client.handle_eq]
      refine ⟨ha.ticket, fun t' ht' => ?_, ha.own⟩
      simp only [Client.outcome, ho, Connection.answerOf] at ht'
      rw [get?_onTickets, show c.tickets.get? r.ticket = some .waiting from hwait] at ht'
      simpa [Effect.answer?] using ht'.symm

/-- Whom the supervisor lets follow which run. -/
theorem Resolved.seats_iff {c' : Client} {run : String} (h : Resolved c c' v n l) :
    c'.connection.audience.Seats run l ↔ Connection.namedRun? v = some run := by
  refine ⟨fun hseat => ?_, h.seats run⟩
  cases hrun : Connection.namedRun? v with
  | none => exact absurd h.spares (h.same hrun ▸ hseat).not_spares
  | some run' => exact congrArg some ((h.seats run' hrun).run_eq hseat).symm

/-- **The two readers of an answer agree**: the listener follows a run from then on exactly if the caller takes this
run from the answer. So whenever the caller is given a stream, it is that of the listener that follows the run, and
if it is told that the answer cannot be read, the audience is as it was. -/
structure Agreed (c : Client) (m : Move) (v : Json) (n l : Nat) : Prop where
  /-- Both take the same run. -/
  follows : ∀ run, (c.move m).connection.audience.Seats run l ↔
    ∃ ack, SendAck.decode v = .ok ack ∧ ack.runId = run
  /-- A stream is attached. -/
  attached : ∀ moves now ack k, (((c.move m).run moves).poll now n).1 = some (.ok (.run ack k)) →
    k = l ∧ (c.move m).connection.audience.Seats ack.runId k
  /-- An answer that cannot be read leaves nobody behind. -/
  unchanged : ∀ moves now e, (((c.move m).run moves).poll now n).1 = some (.error (.ofDecodeError e)) →
    (c.move m).connection.audience = c.connection.audience ∧ c.connection.audience.Spares l

/-- **The two readers agree on an answer exactly if it does not divide them.** Let the supervisor handle, after any
run, an accepting response to a request for a run while its caller waits. The listener follows the run that the
caller takes from the answer, and nobody else's, unless the answer is an array that begins with the name of a run,
alone or with a status, or an object that names a run beside a status that is no text. -/
theorem agreed_iff (p : Profile) (before : List Move) (m : Move) (v : Json) (n l : Nat)
    (h : Accepts (Client.after p before) m v n l) : Agreed (Client.after p before) m v n l ↔ ¬ Divides v := by
  have hres := resolved_of_accepts h (Client.sound_run p before) (Client.listens_run p before)
  rw [← readers_iff h.hasDistinctNames]
  refine ⟨fun hagreed run => ?_, fun hreaders => ⟨fun run => ?_, fun moves now ack k hpoll => ?_,
    fun moves now e hpoll => ?_⟩⟩
  · rw [← hres.seats_iff]
    exact hagreed.follows run
  · rw [hres.seats_iff]
    exact hreaders run
  · obtain ⟨ack', he, hack⟩ | ⟨e, he, -⟩ | he := (hres.owed.run moves).poll_eq hpoll
    · cases he
      exact ⟨rfl, hres.seats _ ((hreaders _).2 ⟨ack, hack, rfl⟩)⟩
    · cases he
    · cases he
  · obtain ⟨ack, he, -⟩ | ⟨e', -, he⟩ | he := (hres.owed.run moves).poll_eq hpoll
    · cases he
    · refine ⟨hres.same ?_, hres.spares⟩
      by_contra hrun
      obtain ⟨run, hrun⟩ := Option.ne_none_iff_exists'.1 hrun
      obtain ⟨ack, hack, -⟩ := (hreaders run).1 hrun
      rw [he] at hack
      cases hack
    · cases he

/-- The gateway accepts a request for a run. -/
def acceptance (v : Json) : Frame := .response "c-1" true (some v) none

/-- A caller has asked for a run. -/
def askedRun : List Move :=
  greeting ++ [.send 0 "c-1" ⟨"main", "hi", "k-1", none, none⟩, .takeCommand 0 "unused"]

/-- The gateway's answer has arrived. -/
def acceptedRun (v : Json) : List Move := askedRun ++ [.receive 1 (.text (acceptance v).text)]

theorem accepts_acceptedRun {v : Json} (hv : Frame.parse? (acceptance v).text = some (acceptance v)) :
    Accepts (Client.after localProfile (acceptedRun v)) (.takeReport 0 "unused") v 1 1 := by
  have hstate : (Client.after localProfile askedRun).isRunning = true ∧
      (Client.after localProfile askedRun).reports = [] ∧
      (Client.after localProfile askedRun).connection.epoch = 1 ∧
      (Client.after localProfile askedRun).sockets.isOpen 1 = true ∧
      (Client.after localProfile askedRun).connection.outstanding.get? "c-1" =
        some ⟨sendMethod, 1, some ⟨1, 1⟩⟩ ∧
      (Client.after localProfile askedRun).tickets.isWaiting 1 = true := by decide +kernel
  rw [acceptedRun, Client.after_concat]
  generalize Client.after localProfile askedRun = c at hstate ⊢
  obtain ⟨hrun, hreports, hepoch, hopen, hrequest, hwait⟩ := hstate
  have hreceive : c.move (.receive 1 (.text (acceptance v).text)) =
      { c with reports := [(1, .text (acceptance v).text)] } := by
    obtain ⟨queue, isCancelled, hsocket⟩ : ∃ queue isCancelled,
        c.sockets.get? 1 = some (.opened queue isCancelled) := by
      cases hs : c.sockets.get? 1 with
      | none => simp [Sockets.isOpen, hs] at hopen
      | some s => cases s <;> simp [Sockets.isOpen, hs, Socket.isOpen] at hopen ⊢
    simp [Client.move, Client.receive, hsocket, Inbound.ending?, Client.reportOn, hrun, hreports]
  have hcue : (c.move (.receive 1 (.text (acceptance v).text))).cue? (.takeReport 0 "unused") =
      some ⟨0, "unused", .report c.connection.epoch (.text (acceptance v).text)⟩ := by
    simp only [hreceive, Client.cue?, hrun, if_true, List.head?_cons, Option.map_some, hepoch]
  rw [hreceive] at hcue ⊢
  exact .intro hcue hv rfl hrequest rfl rfl rfl hwait

/-- An answer that names the run and says how it stands. -/
theorem agreed_acceptedRun :
    Accepts (Client.after localProfile (acceptedRun (SendAck.encode ⟨"r-1", some "started"⟩)))
      (.takeReport 0 "unused") (SendAck.encode ⟨"r-1", some "started"⟩) 1 1 ∧
    Agreed (Client.after localProfile (acceptedRun (SendAck.encode ⟨"r-1", some "started"⟩)))
      (.takeReport 0 "unused") (SendAck.encode ⟨"r-1", some "started"⟩) 1 1 := by
  have haccepts := accepts_acceptedRun (v := SendAck.encode ⟨"r-1", some "started"⟩) (by decide +kernel)
  refine ⟨haccepts, (agreed_iff _ _ _ _ _ _ haccepts).2 fun hdiv => ?_⟩
  rw [show SendAck.encode ⟨"r-1", some "started"⟩ =
    .object [("runId", .string "r-1"), ("status", .string "started")] by decide +kernel] at hdiv
  cases hdiv with
  | misstated _ hstatus _ hstring => exact hstring "started" (Option.some.inj hstatus).symm

/-- The client once the supervisor has handled the answer. -/
def answeredBy (v : Json) : Client := (Client.after localProfile (acceptedRun v)).move (.takeReport 0 "unused")

/-- An array with the name of the run. -/
def listedAnswer : Json := .array [.string "r-1"]

/-- An object with the name of the run and a number for the status. -/
def misstatedAnswer : Json := .object [("runId", .string "r-1"), ("status", .ofNat 5)]

/-- Two answers that divide the readers. With the first the caller is given a stream of the run, which nobody
follows; with the second it is told that the answer cannot be read, and somebody follows the run. -/
theorem not_agreed_acceptedRun :
    (Accepts (Client.after localProfile (acceptedRun listedAnswer)) (.takeReport 0 "unused") listedAnswer 1 1 ∧
      ((answeredBy listedAnswer).poll 0 1).1 = some (.ok (.run ⟨"r-1", none⟩ 1)) ∧
      (answeredBy listedAnswer).connection.audience.members = [] ∧
      ¬ Agreed (Client.after localProfile (acceptedRun listedAnswer)) (.takeReport 0 "unused") listedAnswer 1 1) ∧
    (Accepts (Client.after localProfile (acceptedRun misstatedAnswer)) (.takeReport 0 "unused")
        misstatedAnswer 1 1 ∧
      ((answeredBy misstatedAnswer).poll 0 1).1 =
        some (.error (.ofDecodeError (.invalidType (.number (.integer 5)) "a string"))) ∧
      (answeredBy misstatedAnswer).connection.audience.members = [("r-1", ⟨1, 1⟩)] ∧
      ¬ Agreed (Client.after localProfile (acceptedRun misstatedAnswer)) (.takeReport 0 "unused")
        misstatedAnswer 1 1) := by
  obtain ⟨hlisted, hempty⟩ : ((answeredBy listedAnswer).poll 0 1).1 = some (.ok (.run ⟨"r-1", none⟩ 1)) ∧
      (answeredBy listedAnswer).connection.audience.members = [] := by decide +kernel
  obtain ⟨hmisstated, hleft⟩ : ((answeredBy misstatedAnswer).poll 0 1).1 =
        some (.error (.ofDecodeError (.invalidType (.number (.integer 5)) "a string"))) ∧
      (answeredBy misstatedAnswer).connection.audience.members = [("r-1", ⟨1, 1⟩)] := by decide +kernel
  refine ⟨⟨accepts_acceptedRun (by decide +kernel), hlisted, hempty, fun h => ?_⟩,
    accepts_acceptedRun (by decide +kernel), hmisstated, hleft, fun h => ?_⟩
  · obtain ⟨before, after, hm, -⟩ := (h.attached [] 0 _ 1 hlisted).2
    have hm : (answeredBy listedAnswer).connection.audience.members = before ++ ("r-1", ⟨1, 1⟩) :: after := hm
    simp [hempty] at hm
  · obtain ⟨hsame, hspares⟩ := h.unchanged [] 0 _ hmisstated
    have hm : ("r-1", (⟨1, 1⟩ : Listener)) ∈ (answeredBy misstatedAnswer).connection.audience.members := by
      rw [hleft]
      exact List.mem_singleton_self _
    exact (hspares _ (hsame ▸ hm)).1 rfl

end TurnRelay.Gateway
