import TurnRelay.Proofs.Gateway.Places
import TurnRelay.Proofs.Turn.Backpressure
import TurnRelay.Turn.Live

/-!
# A turn over a client

A turn asks a client to be connected, asks it for a run, and pulls the run's events; all the while the
supervisor, the sockets, the gateway and other users of the client act as they like, and so does the reader
of the turn. The turn by itself would tell its reader of every error event that it pulls. That it tells of
one at most is a matter of the two together: a run's error is a terminal event, a stream yields nothing
after a terminal event, and a turn whose run could not be started pulls nothing.

## The model

* `Scene`, `Act` — a client, a turn over it that nobody cancels and the reader of its events, who stays;
  and what can happen to them.
* `News`, `Scene.news` — what the turn is told of its run in a list of acts.
* `Outward` — what the reader of a turn that has ended is told.

## What is proved

* `outward_tale` — the tale of a run of which only the last event may be terminal.
* `advances_of_advance` — what a turn's own step does to it, and by which moves it acts on its client.
* `stands_run` — what was put into the channel and what is ahead make up the tale of the news.
* `one_error_per_turn` — the outward stream of a turn that has ended.
-/

namespace TurnRelay.Turn

open Wire (RunEvent)
open Gateway (Client Profile)

/-! ### What the reader is told -/

/-- An event that is a piece of the answer: text or a marker. -/
def Event.isPiece : Event → Bool
  | .delta _ => true
  | .marker _ => true
  | _ => false

/-- All the events are pieces of the answer. -/
def Pieces (es : List Event) : Prop := ∀ e ∈ es, e.isPiece = true

/-- Pieces of the answer and at most one error between them, with its message. -/
inductive Says : List Event → Option String → Prop where
  /-- No error. -/
  | answer {es : List Event} : Pieces es → Says es none
  /-- One error. -/
  | trouble {before after : List Event} {message : String} : Pieces before → Pieces after →
      Says (before ++ .error message :: after) (some message)

/-- What a turn that has ended tells its reader: pieces of the answer, at most one error between them, and
the closing event behind them, which says whether the run was stopped. -/
def Outward (es : List Event) (error? : Option String) (aborted : Bool) : Prop :=
  ∃ said text, es = said ++ [.done text aborted] ∧ Says said error?

theorem Pieces.nil : Pieces [] := by simp [Pieces]

theorem Pieces.append {as bs : List Event} (ha : Pieces as) (hb : Pieces bs) : Pieces (as ++ bs) :=
  fun e he => (List.mem_append.1 he).elim (ha e) (hb e)

theorem pieces_told (x : Extraction) : Pieces (told x) := by
  have hm : Pieces (x.markers.map .marker) := by
    intro e he
    obtain ⟨m, -, rfl⟩ := List.mem_map.1 he
    rfl
  unfold told
  split
  · exact hm
  · intro e he
    rcases List.mem_cons.1 he with rfl | he
    · rfl
    · exact hm e he

theorem Says.after {as es : List Event} {error? : Option String} (ha : Pieces as) (h : Says es error?) :
    Says (as ++ es) error? := by
  cases h with
  | answer he => exact .answer (ha.append he)
  | trouble hb he =>
    rw [← List.append_assoc]
    exact .trouble (ha.append hb) he

/-! ### The tale of a stream -/

/-- No event but the last is terminal. -/
def EndsOnce (es : List RunEvent) : Prop := ∀ e ∈ es.dropLast, e.state.isTerminal = false

theorem endsOnce_of_forall {es : List RunEvent} (h : ∀ e ∈ es, e.state.isTerminal = false) : EndsOnce es :=
  fun e he => h e (List.mem_of_mem_dropLast he)

theorem endsOnce_concat {es : List RunEvent} (h : ∀ e ∈ es, e.state.isTerminal = false) (e : RunEvent) :
    EndsOnce (es ++ [e]) := by
  rw [EndsOnce, List.dropLast_concat]
  exact h

section

variable {e : RunEvent} {es : List RunEvent}

theorem EndsOnce.eq_nil (h : EndsOnce (e :: es)) (ht : e.state.isTerminal = true) : es = [] := by
  cases es with
  | nil => rfl
  | cons e' es =>
    have hno := h e (by simp [List.dropLast])
    rw [ht] at hno
    cases hno

theorem EndsOnce.tail (h : EndsOnce (e :: es)) : EndsOnce es := by
  cases es with
  | nil => exact h
  | cons e' es => exact fun x hx => h x (by simp [List.dropLast, hx])

end

/-- What the reader is told before the closing event has an error in it if the run reported one. -/
theorem says_body {es : List RunEvent} (h : EndsOnce es) (heard : Hearing) :
    Says (body heard es) ((es.find? (·.state = .error)).map reason) := by
  induction es generalizing heard with
  | nil => exact .answer (pieces_told _)
  | cons e es ih =>
    cases hs : e.state with
    | delta =>
      simp only [body, hs, List.find?_cons]
      exact (ih h.tail _).after (pieces_told _)
    | error =>
      obtain rfl := h.eq_nil (by simp [hs, Wire.RunState.isTerminal])
      simp only [body, hs, List.find?_cons]
      exact @Says.trouble [] _ _ .nil (pieces_told _)
    | final =>
      obtain rfl := h.eq_nil (by simp [hs, Wire.RunState.isTerminal])
      simp only [body, hs, List.find?_cons]
      exact .answer ((pieces_told _).append (pieces_told _))
    | aborted =>
      obtain rfl := h.eq_nil (by simp [hs, Wire.RunState.isTerminal])
      simp only [body, hs, List.find?_cons]
      exact .answer ((pieces_told _).append (pieces_told _))

/-- The turn is stopped if its run was. -/
theorem outcomeOf_eq_aborted_iff {es : List RunEvent} (h : EndsOnce es) (errored : Bool) :
    outcomeOf errored es = .aborted ↔ ∃ e ∈ es, e.state = .aborted := by
  induction es generalizing errored with
  | nil => cases errored <;> simp [outcomeOf]
  | cons e es ih =>
    cases hs : settles e with
    | true =>
      obtain rfl := h.eq_nil (by cases hst : e.state <;> simp_all [settles, Wire.RunState.isTerminal])
      rw [outcomeOf_cons_of_settles hs]
      split <;> simp_all
    | false =>
      rw [outcomeOf_cons_of_not_settles hs, ih h.tail]
      simp_all [settles]

/-- **The tale of a run of which only the last event may be terminal.** -/
theorem outward_tale {es : List RunEvent} (h : EndsOnce es) :
    Outward (Script.yields es).tale.events ((es.find? (·.state = .error)).map reason)
      (decide (∃ e ∈ es, e.state = .aborted)) := by
  refine ⟨body .empty es, spoken (body .empty es), ?_, says_body h _⟩
  simp only [Script.tale, outcomeOf_eq_aborted_iff h]

/-! ### Scenes -/

/-- A client, a turn over it, and the events that the reader of the turn has taken. -/
structure Scene where
  /-- The client. -/
  client : Client
  /-- The turn. -/
  live : Live
  /-- The events that have left its channel, in order. -/
  gone : List Event

/-- What can happen in a scene. Nobody cancels the turn, and the reader stays. -/
inductive Act where
  /-- Anybody but the turn acts on the client: the supervisor, a socket, the gateway, another user. -/
  | client (m : Gateway.Move)
  /-- The turn makes its next step, if nothing holds it up. -/
  | turn (now : Nat) (names : FreshNames)
  /-- The reader takes an event, if there is one. -/
  | read

/-- What a turn is told of its run. -/
inductive News where
  /-- It could not be started. -/
  | refused
  /-- It has started. -/
  | granted
  /-- Its stream yields an event. -/
  | event (e : RunEvent)
  deriving DecidableEq

/-- What a turn is told of its run when it makes its next step. -/
def Live.news? (c : Client) (now : Nat) (l : Live) : Option News :=
  match l.task.advance with
  | some _ => none
  | none =>
    match l.task.stage, l.source with
    | .starting, .connecting n =>
      match (c.poll now n).1 with
      | some (.error _) => some .refused
      | _ => none
    | .starting, .sending n =>
      match (c.poll now n).1 with
      | some (.ok (.run _ _)) => some .granted
      | some _ => some .refused
      | none => none
    | .pulling _, .run stream =>
      match (c.pull now stream).1 with
      | .event e => some (.event e)
      | _ => none
    | _, _ => none

namespace Scene

/-- A turn over a client that has not begun. -/
def new (c : Client) (request : Request) (capacity : Nat) : Scene := ⟨c, .new request capacity, []⟩

/-- The turn's task and what has left its channel. -/
def watched (s : Scene) : Watched := ⟨s.live.task, s.gone⟩

/-- The outward stream: everything that was put into the channel, in order. -/
def sent (s : Scene) : List Event := s.watched.sent

/-- What becomes of a scene in an act. -/
def act (s : Scene) : Act → Scene
  | .client m => { s with client := s.client.move m }
  | .turn now names =>
    match s.live.advance s.client now names with
    | some (live, client) => { s with live := live, client := client }
    | none => s
  | .read =>
    match s.live.task.read with
    | some (e, task) => { s with live := { s.live with task := task }, gone := s.gone ++ [e] }
    | none => s

/-- One act after the other. -/
def run (s : Scene) (acts : List Act) : Scene := acts.foldl act s

theorem run_concat (s : Scene) (acts : List Act) (a : Act) : s.run (acts ++ [a]) = (s.run acts).act a :=
  List.foldl_append

/-- What the turn is told of its run in an act. -/
def news? (s : Scene) : Act → Option News
  | .turn now _ => s.live.news? s.client now
  | _ => none

/-- What the turn is told of its run, in order. -/
def news (s : Scene) : List Act → List News
  | [] => []
  | a :: acts => (s.news? a).toList ++ (s.act a).news acts

theorem news_concat (s : Scene) (acts : List Act) (a : Act) :
    s.news (acts ++ [a]) = s.news acts ++ ((s.run acts).news? a).toList := by
  induction acts generalizing s with
  | nil => exact List.append_nil _
  | cons b acts ih =>
    rw [List.cons_append, news, ih, news, List.append_assoc]
    rfl

end Scene

/-! ### The turn's own step -/

/-- What a turn's own step does to it and to its client, and what it is told in it. -/
inductive Advances (now : Nat) (names : FreshNames) (c : Client) : Live → Option News → Live → Client → Prop where
  /-- Its task makes a step. -/
  | task {q : Request} {t t' : Task} {src : Source} : t.advance = some t' →
      Advances now names c ⟨q, t, src⟩ none ⟨q, t', src⟩ c
  /-- It asks to be connected. -/
  | connects {q : Request} {t : Task} {n : Nat} : t.stage = .starting →
      Advances now names c ⟨q, t, .nothing⟩ none ⟨q, t, .connecting n⟩ (c.run [.connect now])
  /-- It is connected, and asks for a run. -/
  | sends {q : Request} {t : Task} {n m : Nat} : t.stage = .starting →
      Advances now names c ⟨q, t, .connecting n⟩ none ⟨q, t, .sending m⟩
        (c.run [.poll now n, .send now names.id (Live.params q names.key)])
  /-- Its run cannot be started. -/
  | refused {q : Request} {t : Task} {src : Source} {n : Nat} : t.stage = .starting →
      Advances now names c ⟨q, t, src⟩ (some .refused) ⟨q, t.begin false, .nothing⟩ (c.run [.poll now n])
  /-- Its run starts. -/
  | granted {q : Request} {t : Task} {n l : Nat} : t.stage = .starting →
      Advances now names c ⟨q, t, .sending n⟩ (some .granted) ⟨q, t.begin true, .run l⟩ (c.run [.poll now n])
  /-- It pulls an event. -/
  | hears {q : Request} {t : Task} {errored : Bool} {l : Nat} {e : RunEvent} : t.stage = .pulling errored →
      (c.pull now l).1 = .event e →
      Advances now names c ⟨q, t, .run l⟩ (some (.event e)) ⟨q, t.pull (some e), .run l⟩ (c.run [.pull now l])
  /-- It finds that there are no more events. -/
  | hearsEnd {q : Request} {t : Task} {errored : Bool} {l : Nat} : t.stage = .pulling errored →
      Advances now names c ⟨q, t, .run l⟩ none ⟨q, t.pull none, .run l⟩ (c.run [.pull now l])
  /-- It begins to wait for an event. -/
  | waits {q : Request} {t : Task} {errored : Bool} {l : Nat} : t.stage = .pulling errored →
      Advances now names c ⟨q, t, .run l⟩ none ⟨q, t, .run l⟩ (c.run [.beginPull now l])
  /-- It has ended, and lets go of the client. -/
  | letsGo {q : Request} {t : Task} {src : Source} {ending : Ending} {c' : Client} : t.stage = .ended ending →
      Advances now names c ⟨q, t, src⟩ none ⟨q, t, .nothing⟩ c'

section

variable {c c' : Client} {now : Nat} {names : FreshNames} {q : Request} {t : Task} {l' : Live}

/-- A turn looks whether it is connected. -/
theorem advances_of_connecting {n : Nat} (hs : t.stage = .starting)
    (h : Live.advance c now names ⟨q, t, .connecting n⟩ = some (l', c')) :
    Advances now names c ⟨q, t, .connecting n⟩ (Live.news? c now ⟨q, t, .connecting n⟩) l' c' := by
  have ht : t.advance = none := by simp [Task.advance, hs]
  rcases hp : c.poll now n with ⟨r, c₁⟩
  obtain rfl : c.run [.poll now n] = c₁ := congrArg Prod.snd hp
  simp only [Live.advance, Live.news?, ht, hs, hp] at h ⊢
  rcases r with _ | _ | _ <;> cases h
  · exact .refused hs
  · exact .sends hs

/-- A turn looks whether its run has started. -/
theorem advances_of_sending {n : Nat} (hs : t.stage = .starting)
    (h : Live.advance c now names ⟨q, t, .sending n⟩ = some (l', c')) :
    Advances now names c ⟨q, t, .sending n⟩ (Live.news? c now ⟨q, t, .sending n⟩) l' c' := by
  have ht : t.advance = none := by simp [Task.advance, hs]
  rcases hp : c.poll now n with ⟨r, c₁⟩
  obtain rfl : c.run [.poll now n] = c₁ := congrArg Prod.snd hp
  simp only [Live.advance, Live.news?, ht, hs, hp] at h ⊢
  rcases r with _ | _ | _ | _ | _ <;> cases h
  · exact .refused hs
  · exact .refused hs
  · exact .refused hs
  · exact .granted hs

/-- A turn looks whether its stream has yielded an event. -/
theorem advances_of_pulling {l : Nat} {errored : Bool} (ht : t.advance = none) (hs : t.stage = .pulling errored)
    (h : Live.advance c now names ⟨q, t, .run l⟩ = some (l', c')) :
    Advances now names c ⟨q, t, .run l⟩ (Live.news? c now ⟨q, t, .run l⟩) l' c' := by
  rcases hp : c.pull now l with ⟨r, c₁⟩
  obtain rfl : c.run [.pull now l] = c₁ := congrArg Prod.snd hp
  simp only [Live.advance, Live.news?, ht, hs, hp] at h ⊢
  cases r with
  | event e =>
    cases h
    exact .hears hs (congrArg Prod.fst hp)
  | ended =>
    cases h
    exact .hearsEnd hs
  | nothing =>
    simp only at h
    split at h
    · cases h
    · cases h
      exact .waits hs

/-- A turn's own step is one of these. -/
theorem advances_of_advance {l : Live} (h : l.advance c now names = some (l', c')) :
    Advances now names c l (l.news? c now) l' c' := by
  obtain ⟨q, t, src⟩ := l
  cases ht : t.advance with
  | some t' =>
    simp only [Live.advance, Live.news?, ht] at h ⊢
    cases h
    exact .task ht
  | none =>
    cases hs : t.stage with
    | starting =>
      cases src with
      | nothing =>
        simp only [Live.advance, Live.news?, ht, hs] at h ⊢
        cases h
        exact .connects hs
      | connecting n => exact advances_of_connecting hs h
      | sending n => exact advances_of_sending hs h
      | run l => simp [Live.advance, ht, hs] at h
    | pulling errored =>
      cases src with
      | run l => exact advances_of_pulling ht hs h
      | _ => simp [Live.advance, ht, hs] at h
    | ended ending =>
      simp only [Live.advance, Live.news?, ht, hs] at h ⊢
      cases src with
      | nothing => cases h
      | _ =>
        cases h
        exact .letsGo hs
    | _ => simp [Live.advance, ht, hs] at h

end

/-- Where a turn cannot make a step, it is not told anything. -/
theorem news?_of_advance_eq_none {c : Client} {now : Nat} {names : FreshNames} {l : Live}
    (h : l.advance c now names = none) : l.news? c now = none := by
  obtain ⟨q, t, src⟩ := l
  cases ht : t.advance with
  | some t' => simp [Live.advance, ht] at h
  | none =>
    simp only [Live.advance, Live.news?, ht] at h ⊢
    cases hs : t.stage with
    | starting =>
      cases src with
      | connecting n =>
        rcases hp : c.poll now n with ⟨_ | _ | _, c₁⟩ <;> simp [hs, hp] at h ⊢
      | sending n =>
        rcases hp : c.poll now n with ⟨_ | _ | _ | _ | _, c₁⟩ <;> simp [hs, hp] at h ⊢
      | _ => rfl
    | pulling errored =>
      cases src with
      | run stream => rcases hp : c.pull now stream with ⟨_ | _ | _, c₁⟩ <;> simp [hs, hp] at h ⊢
      | _ => rfl
    | _ => rfl

/-! ### Along a script -/

/-- A turn has told the beginning of the tale of a script, and tells the rest of it if its run yields these
events. -/
def Along (script : Script) (es : List RunEvent) (w : Watched) : Prop :=
  ∃ rest, OnTrack script.tale rest ⟨w, script, es⟩

section

variable {script : Script} {es : List RunEvent} {t t' : Task} {gone : List Event}

theorem Along.new (capacity : Nat) (script : Script) : Along script script.events (.new capacity) :=
  ⟨_, .new capacity script⟩

theorem Along.isOpen (h : Along script es ⟨t, gone⟩) : t.channel.isOpen = true := by
  obtain ⟨_, h⟩ := h
  exact h.isOpen

theorem Along.advance (h : Along script es ⟨t, gone⟩) (ht : t.advance = some t') :
    Along script es ⟨t', gone⟩ := by
  obtain ⟨_, h⟩ := h
  obtain ⟨rest, h, -⟩ := h.advance (does_of_advance ht)
  exact ⟨rest, h⟩

theorem Along.read {e : Event} (h : Along script es ⟨t, gone⟩) (ht : t.read = some (e, t')) :
    Along script es ⟨t', gone ++ [e]⟩ := by
  obtain ⟨_, h⟩ := h
  unfold Task.read at ht
  split at ht
  · cases ht
  · rename_i hq
    cases ht
    obtain ⟨rest, h, -⟩ := h.read hq
    exact ⟨rest, h⟩

theorem Along.begin (h : Along script es ⟨t, gone⟩) (hs : t.stage = .starting) :
    Along script es ⟨t.begin script.starts, gone⟩ := by
  obtain ⟨_, h⟩ := h
  obtain ⟨w, s, c⟩ := t
  obtain rfl : s = .starting := hs
  obtain ⟨rest, h, -⟩ := h.begin
  exact ⟨rest, h⟩

theorem Along.pull {errored : Bool} (h : Along script es ⟨t, gone⟩) (hs : t.stage = .pulling errored) :
    Along script es.tail ⟨t.pull es.head?, gone⟩ := by
  obtain ⟨_, h⟩ := h
  obtain ⟨w, s, c⟩ := t
  obtain rfl : s = .pulling errored := hs
  obtain ⟨rest, h, -⟩ := h.pull
  exact ⟨rest, h⟩

/-- A turn that has ended has told the whole tale. -/
theorem Along.of_ended {ending : Ending} (h : Along script es ⟨t, gone⟩) (hs : t.stage = .ended ending) :
    Watched.sent ⟨t, gone⟩ = script.tale.events := by
  obtain ⟨_, h⟩ := h
  exact (h.of_ended hs).1

end

/-! ### Where a turn stands -/

/-- The parts of a turn. -/
inductive Part where
  /-- It does not know yet whether its run starts. -/
  | opening
  /-- It will pull another event of its run. -/
  | middle
  /-- It will not. -/
  | closing
  deriving DecidableEq

/-- The part of a turn to which a stage belongs. -/
def Stage.part : Stage → Part
  | .opening => .opening
  | .starting => .opening
  | .pulling _ => .middle
  | .sending _ (.pull _) => .middle
  | _ => .closing

/-- The task's own steps do not lead from one part to another. -/
theorem part_of_advance {t t' : Task} (h : t.advance = some t') (ho : t.channel.isOpen = true) :
    t'.stage.part = t.stage.part := by
  have hd := does_of_advance h
  cases hd with
  | abandon ha =>
    cases ha with
    | gone _ hc => exact absurd (ho.symm.trans hc) (by decide)
  | @send _ _ _ _ next => cases next <;> rfl
  | _ => rfl

theorem stage_of_read {e : Event} {t t' : Task} (h : t.read = some (e, t')) : t'.stage = t.stage := by
  unfold Task.read at h
  split at h
  · cases h
  · cases h
    rfl

/-- A client to which anything may have happened. -/
def Reached (p : Profile) (c : Client) : Prop := ∃ moves, c = Client.after p moves

theorem Reached.run {p : Profile} {c : Client} (h : Reached p c) (moves : List Gateway.Move) :
    Reached p (c.run moves) := by
  obtain ⟨before, rfl⟩ := h
  exact ⟨before ++ moves, (Client.run_append _ _ _).symm⟩

/-- A stream has yielded these events; if the last of them is terminal, it has ended. -/
def Yielded (c : Client) (l : Nat) (es : List RunEvent) : Prop :=
  (∀ e ∈ es, e.state.isTerminal = false) ∨ EndsOnce es ∧ c.Closed l

section

variable {p : Profile} {c : Client} {l : Nat} {es : List RunEvent}

theorem Yielded.endsOnce (h : Yielded c l es) : EndsOnce es := h.elim endsOnce_of_forall (·.1)

theorem Yielded.run (h : Yielded c l es) (hr : Reached p c) (moves : List Gateway.Move) :
    Yielded (c.run moves) l es := by
  obtain ⟨before, rfl⟩ := hr
  exact h.imp_right (And.imp_right (·.remains (Client.numbered_run p before) moves))

/-- Nothing is yielded after a terminal event. -/
theorem Yielded.concat {now : Nat} {e : RunEvent} (h : Yielded c l es) (hr : Reached p c)
    (hp : (c.pull now l).1 = .event e) : Yielded (c.run [.pull now l]) l (es ++ [e]) := by
  rcases h with h | ⟨-, hclosed⟩
  · cases ht : e.state.isTerminal with
    | false =>
      refine .inl fun x hx => ?_
      rcases List.mem_append.1 hx with hx | hx
      · exact h x hx
      · rw [List.mem_singleton.1 hx, ht]
    | true =>
      obtain ⟨before, rfl⟩ := hr
      have ho := Client.housed_run p before
      obtain ⟨s, hs⟩ : ∃ s, (Client.after p before).streams.get? l = some s := by
        cases hs : (Client.after p before).streams.get? l with
        | none => simp [Client.pull, hs] at hp
        | some s => exact ⟨s, rfl⟩
      exact .inr ⟨endsOnce_concat h e,
        Client.closed_of_pull (ho.streams l s hs) (ho.unasked hs) hs (.inr ⟨e, hp, ht⟩)⟩
  · rw [hclosed.pull_eq now] at hp
    cases hp

end

/-- **Where a turn stands** that has been told these news: what was put into the channel and what is ahead make
up the tale of a run that does what it was told of, whatever it may be told yet. -/
inductive Stands (p : Profile) : List News → Scene → Prop where
  /-- It has not been told anything. -/
  | waits {s : Scene} : s.live.task.stage.part = .opening → (∀ script, Along script script.events s.watched) →
      Reached p s.client → Stands p [] s
  /-- Its run could not be started. -/
  | refused {s : Scene} : s.live.task.stage.part = .closing → Along .unstartable [] s.watched →
      Stands p [.refused] s
  /-- Its run goes on. -/
  | follows {s : Scene} {es : List RunEvent} {l : Nat} : s.live.task.stage.part = .middle →
      s.live.source = .run l → (∀ more, Along (.yields (es ++ more)) more s.watched) → Reached p s.client →
      Yielded s.client l es → Stands p (.granted :: es.map .event) s
  /-- It pulls no more events. -/
  | leaves {s : Scene} {es : List RunEvent} : s.live.task.stage.part = .closing →
      Along (.yields es) [] s.watched → EndsOnce es → Stands p (.granted :: es.map .event) s

theorem Stands.new (p : Profile) (moves : List Gateway.Move) (q : Request) (capacity : Nat) :
    Stands p [] (.new (.after p moves) q capacity) :=
  .waits rfl (Along.new capacity) ⟨moves, rfl⟩

section

variable {p : Profile} {news : List News} {s : Scene}

theorem Stands.opening (h : Stands p news s) (hs : s.live.task.stage.part = .opening) :
    news = [] ∧ (∀ script, Along script script.events s.watched) ∧ Reached p s.client := by
  cases h with
  | waits _ ha hr => exact ⟨rfl, ha, hr⟩
  | refused hs' => cases hs.symm.trans hs'
  | follows hs' => cases hs.symm.trans hs'
  | leaves hs' => cases hs.symm.trans hs'

theorem Stands.middle (h : Stands p news s) (hs : s.live.task.stage.part = .middle) :
    ∃ es l, news = .granted :: es.map .event ∧ s.live.source = .run l ∧
      (∀ more, Along (.yields (es ++ more)) more s.watched) ∧ Reached p s.client ∧ Yielded s.client l es := by
  cases h with
  | waits hs' => cases hs.symm.trans hs'
  | refused hs' => cases hs.symm.trans hs'
  | follows _ hsrc ha hr hy => exact ⟨_, _, rfl, hsrc, ha, hr, hy⟩
  | leaves hs' => cases hs.symm.trans hs'

/-- Others act on the client. -/
theorem Stands.client (h : Stands p news s) (moves : List Gateway.Move) :
    Stands p news { s with client := s.client.run moves } := by
  cases h with
  | waits hs ha hr => exact .waits hs ha (hr.run moves)
  | refused hs ha => exact .refused hs ha
  | follows hs hsrc ha hr hy => exact .follows hs hsrc ha (hr.run moves) (hy.run hr moves)
  | leaves hs ha he => exact .leaves hs ha he

/-- The task and its reader go on, without any news. -/
theorem Stands.goes {t : Task} {gone : List Event} (h : Stands p news s)
    (hs : t.stage.part = s.live.task.stage.part)
    (ha : ∀ script es, Along script es s.watched → Along script es ⟨t, gone⟩) :
    Stands p news { s with live := { s.live with task := t }, gone := gone } := by
  cases h with
  | waits hs' ha' hr => exact .waits (hs.trans hs') (fun script => ha _ _ (ha' script)) hr
  | refused hs' ha' => exact .refused (hs.trans hs') (ha _ _ ha')
  | follows hs' hsrc ha' hr hy => exact .follows (hs.trans hs') hsrc (fun more => ha _ _ (ha' more)) hr hy
  | leaves hs' ha' he => exact .leaves (hs.trans hs') (ha _ _ ha') he

theorem Stands.exists_along (h : Stands p news s) : ∃ script es, Along script es s.watched := by
  cases h with
  | waits _ ha => exact ⟨_, _, ha .unstartable⟩
  | refused _ ha => exact ⟨_, _, ha⟩
  | follows _ _ ha => exact ⟨_, _, ha []⟩
  | leaves _ ha => exact ⟨_, _, ha⟩

/-- The turn pulls an event. -/
theorem Stands.hears {c : Client} {q : Request} {t : Task} {l now : Nat} {gone : List Event} {errored : Bool}
    {e : RunEvent} (h : Stands p news ⟨c, ⟨q, t, .run l⟩, gone⟩) (hs : t.stage = .pulling errored)
    (hp : (c.pull now l).1 = .event e) :
    Stands p (news ++ [.event e]) ⟨c.run [.pull now l], ⟨q, t.pull (some e), .run l⟩, gone⟩ := by
  obtain ⟨es, l', rfl, hsrc, ha, hr, hy⟩ := h.middle (by simp [hs, Stage.part])
  cases hsrc
  have hy' := hy.concat hr hp
  have hnext : (t.pull (some e)).stage = .sending (t.writer.answer e).2 (Task.nextAfter errored e.state) := by
    simp [Task.pull, hs, Task.respond]
  have hnews : News.granted :: es.map .event ++ [.event e] = .granted :: (es ++ [e]).map .event := by simp
  have hmore : ∀ more, Along (.yields (es ++ [e] ++ more)) more ⟨t.pull (some e), gone⟩ := by
    intro more
    rw [List.append_assoc]
    exact (ha (e :: more)).pull hs
  rw [hnews]
  cases hst : settles e with
  | true =>
    refine .leaves ?_ ?_ hy'.endsOnce
    · rw [hnext, nextAfter_of_settles hst]
      rfl
    · have hlast := hmore []
      rwa [List.append_nil] at hlast
  | false =>
    refine .follows ?_ rfl hmore (hr.run _) hy'
    rw [hnext]
    cases hstate : e.state with
    | delta => rfl
    | error => rfl
    | final => simp [settles, hstate] at hst
    | aborted => simp [settles, hstate] at hst

/-- **The turn makes its own step.** -/
theorem Stands.advances {c c' : Client} {l l' : Live} {gone : List Event} {now : Nat} {names : FreshNames}
    {new : Option News} (h : Stands p news ⟨c, l, gone⟩) (ha : Advances now names c l new l' c') :
    Stands p (news ++ new.toList) ⟨c', l', gone⟩ := by
  have still : Stands p news ⟨c', l', gone⟩ → Stands p (news ++ (none : Option News).toList) ⟨c', l', gone⟩ := by
    intro h
    rwa [Option.toList_none, List.append_nil]
  cases ha with
  | @task q t t' src ht =>
    obtain ⟨_, _, hopen⟩ := h.exists_along
    exact still (h.goes (part_of_advance ht hopen.isOpen) fun _ _ ha => ha.advance ht)
  | connects hs =>
    have hpart := congrArg Stage.part hs
    obtain ⟨rfl, ha, hr⟩ := h.opening hpart
    exact .waits hpart ha (hr.run _)
  | sends hs =>
    have hpart := congrArg Stage.part hs
    obtain ⟨rfl, ha, hr⟩ := h.opening hpart
    exact .waits hpart ha (hr.run _)
  | refused hs =>
    obtain ⟨rfl, ha, -⟩ := h.opening (congrArg Stage.part hs)
    exact .refused (by simp [Task.begin, hs, Stage.part]) ((ha .unstartable).begin hs)
  | granted hs =>
    obtain ⟨rfl, ha, hr⟩ := h.opening (congrArg Stage.part hs)
    exact @Stands.follows p ⟨_, _, gone⟩ [] _ (by simp [Task.begin, hs, Stage.part]) rfl
      (fun more => (ha (.yields more)).begin hs) (hr.run _) (.inl (by simp))
  | hears hs hp => exact h.hears hs hp
  | hearsEnd hs =>
    obtain ⟨es, l, rfl, -, ha, hr, hy⟩ := h.middle (congrArg Stage.part hs)
    have hlast := (ha []).pull hs
    rw [List.append_nil] at hlast
    exact still (.leaves (by simp [Task.pull, hs, Stage.part]) hlast hy.endsOnce)
  | waits hs => exact still (h.client _)
  | letsGo hs =>
    have hpart := congrArg Stage.part hs
    cases h with
    | waits hs' => cases hpart.symm.trans hs'
    | refused _ ha => exact .refused hpart ha
    | follows hs' => cases hpart.symm.trans hs'
    | leaves _ ha he => exact still (.leaves hpart ha he)

/-- Every act leaves a turn where its news say. -/
theorem Stands.act (h : Stands p news s) (a : Act) : Stands p (news ++ (s.news? a).toList) (s.act a) := by
  obtain ⟨c, l, gone⟩ := s
  cases a with
  | client m =>
    rw [show (Scene.news? ⟨c, l, gone⟩ (.client m)).toList = [] from rfl, List.append_nil]
    exact h.client [m]
  | turn now names =>
    cases ha : l.advance c now names with
    | none =>
      have hnews := news?_of_advance_eq_none ha
      simp only [Scene.act, Scene.news?, ha, hnews, Option.toList_none, List.append_nil]
      exact h
    | some lc =>
      simp only [Scene.act, ha]
      exact h.advances (advances_of_advance ha)
  | read =>
    rw [show (Scene.news? ⟨c, l, gone⟩ .read).toList = [] from rfl, List.append_nil]
    cases ht : l.task.read with
    | none =>
      simp only [Scene.act, ht]
      exact h
    | some et =>
      simp only [Scene.act, ht]
      exact h.goes (congrArg Stage.part (stage_of_read ht)) fun _ _ ha => ha.read ht

end

/-! ### Every run -/

/-- **Every turn stands where its news say**, whatever happens. -/
theorem stands_run (p : Profile) (moves : List Gateway.Move) (q : Request) (capacity : Nat) (acts : List Act) :
    Stands p ((Scene.new (.after p moves) q capacity).news acts)
      ((Scene.new (.after p moves) q capacity).run acts) := by
  induction acts using List.reverseRecOn with
  | nil => exact .new p moves q capacity
  | append_singleton acts a ih =>
    rw [Scene.news_concat, Scene.run_concat]
    exact ih.act a

/-- **At most one error in a turn.** Let a turn be begun over a client to which anything has happened, and let
anything happen: the gateway and the sockets do what they like, others use the client, and the turn and its reader
move as they are scheduled; only, nobody cancels the turn, and its reader stays. If the turn has ended, its outward
stream is made of pieces of the answer, at most one error between them, and the closing event. If its run could not
be started, the stream is the error that says so and a closing event without text. Otherwise there is an error if
and only if the run's stream yielded an event in the state `error`, and the closing event says that the run was
stopped if and only if it yielded one in the state `aborted`. -/
theorem one_error_per_turn (p : Profile) (moves : List Gateway.Move) (q : Request) (capacity : Nat)
    (acts : List Act) (ending : Ending)
    (hend : ((Scene.new (.after p moves) q capacity).run acts).live.task.ending? = some ending) :
    let sent := ((Scene.new (.after p moves) q capacity).run acts).sent
    let news := (Scene.new (.after p moves) q capacity).news acts
    ∃ error? aborted, Outward sent error? aborted ∧
      (.refused ∈ news → sent = [.error connectionFailed, .done [] false]) ∧
      (.refused ∉ news → .granted ∈ news ∧
        (error?.isSome = true ↔ ∃ e, .event e ∈ news ∧ e.state = .error) ∧
        (aborted = true ↔ ∃ e, .event e ∈ news ∧ e.state = .aborted)) := by
  have h := stands_run p moves q capacity acts
  generalize (Scene.new (.after p moves) q capacity).run acts = s at h hend
  generalize (Scene.new (.after p moves) q capacity).news acts = news at h
  have hs : s.live.task.stage = .ended ending := by
    unfold Task.ending? at hend
    split at hend
    · rename_i hs
      rw [hs, Option.some.inj hend]
    · cases hend
  have hpart := congrArg Stage.part hs
  cases h with
  | waits hs' => cases hpart.symm.trans hs'
  | follows hs' => cases hpart.symm.trans hs'
  | refused _ ha =>
    have hsent : s.sent = [.error connectionFailed, .done [] false] := ha.of_ended hs
    refine ⟨some connectionFailed, false, ⟨[.error connectionFailed], [], hsent, ?_⟩, fun _ => hsent, fun hno => ?_⟩
    · exact @Says.trouble [] _ _ .nil .nil
    · exact absurd (List.mem_singleton.2 rfl) hno
  | @leaves _ es _ ha he =>
    have hsent : s.sent = (Script.yields es).tale.events := ha.of_ended hs
    refine ⟨_, _, hsent ▸ outward_tale he, fun hno => ?_, fun _ => ⟨List.mem_cons_self, ?_, ?_⟩⟩
    · simp at hno
    · simp
    · simp

/-- A turn makes so many steps. -/
def steps (n : Nat) : List Act := List.replicate n (.turn 0 ⟨"c-1", "k-1"⟩)

/-- A turn asks for a run, which starts and fails. -/
def failing : List Act :=
  steps 2 ++ [.client (.takeCommand 0 "unused")] ++ steps 1 ++ [.client (.takeCommand 0 "unused")] ++
    (Gateway.arrival Gateway.acknowledgement).map .client ++ steps 2 ++
    (Gateway.arrival (.event "chat" (some (Gateway.eventOf .error).encode) none)).map .client ++ steps 7

theorem one_error_per_turn_failing :
    let start := Scene.new (.after Gateway.localProfile Gateway.greeting) ⟨"main", "hi", none, none⟩ 2
    (start.run failing).live.task.ending? = some (.returned .errored) ∧
      start.news failing = [.granted, .event (Gateway.eventOf .error)] ∧
      ∃ message, Outward (start.run failing).sent (some message) false := by
  intro start
  have hrun : (start.run failing).live.task.ending? = some (.returned .errored) ∧
      start.news failing = [.granted, .event (Gateway.eventOf .error)] := by decide +kernel
  obtain ⟨error?, aborted, hout, -, hnews⟩ := one_error_per_turn _ _ _ _ _ _ hrun.1
  rw [show Scene.news _ failing = _ from hrun.2] at hnews
  obtain ⟨-, herror, haborted⟩ := hnews (by simp)
  obtain ⟨message, rfl⟩ := Option.isSome_iff_exists.1 (herror.2 ⟨Gateway.eventOf .error, by simp, rfl⟩)
  obtain rfl : aborted = false := by
    rw [← Bool.not_eq_true, haborted]
    simp [Gateway.eventOf]
  exact ⟨hrun.1, hrun.2, message, hout⟩

end TurnRelay.Turn
