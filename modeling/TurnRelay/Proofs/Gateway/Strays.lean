import TurnRelay.Proofs.Gateway.Dialing
import TurnRelay.Proofs.Gateway.Shutdown

/-!
# What sockets a client leaves behind

A socket runs until it breaks, the gateway closes it, or its client has it closed. The supervisor closes its own
socket when the attempt or connection ends, and one that was opened too late when it is told of it. Once the
supervisor has stopped, a socket that could still be opened ends at once, as nobody is left to be told. In between
lies a report that the supervisor has not taken yet: it is lost with the queue when the supervisor stops, and the
socket with it.

## The model

* `Sockets.isLoose` — a socket that is open, and that nobody has told to close.
* `Client.admitted`, `Client.unheeded` — the sockets the supervisor is told to be open, and those it would have been
  told of when it stops.
* `Attended` — no socket outlives its client.
* `Tended` — what every move keeps.

## What is proved

* `attended_iff` — no socket outlives its client unless the report that it is open was still in the queue when the
  supervisor stopped; such a socket does, for as long as it is open.
-/

namespace TurnRelay.Gateway

/-! ### Sockets that nobody has told to close -/

theorem Socket.isOpen_of_isLoose {s : Socket} (h : s.isLoose = true) : s.isOpen = true := by
  cases s <;> first | rfl | cases h

namespace Sockets

variable {ss : Sockets} {epoch : Nat}

theorem isOpen_of_isLoose (h : ss.isLoose epoch = true) : ss.isOpen epoch = true := by
  unfold isLoose at h
  unfold isOpen
  cases hs : ss.get? epoch with
  | none => simp [hs] at h
  | some s =>
    rw [hs] at h
    exact Socket.isOpen_of_isLoose h

/-- Frames neither close nor open a socket. -/
theorem isLoose_modify_enqueue (epoch' : Nat) (f : Wire.Frame) :
    isLoose (Table.modify ss epoch' (Socket.enqueue f)) epoch = ss.isLoose epoch := by
  unfold isLoose
  rw [Table.get?_modify]
  split
  · rename_i he
    subst he
    cases ss.get? epoch with
    | none => rfl
    | some s => cases s <;> rfl
  · rfl

/-- A socket that is told to close is not loose. -/
theorem isLoose_modify_cancel (epoch' : Nat) :
    isLoose (Table.modify ss epoch' Socket.cancel) epoch = true ↔ ss.isLoose epoch = true ∧ epoch ≠ epoch' := by
  unfold isLoose
  rw [Table.get?_modify]
  split
  · rename_i he
    subst he
    cases ss.get? epoch with
    | none => simp
    | some s => cases s <;> simp [Socket.cancel, Socket.isLoose]
  · rename_i he
    simp [he]

theorem isOpen_modify {f : Socket → Socket} (hf : ∀ s, (f s).isOpen = s.isOpen) (epoch' : Nat) :
    isOpen (Table.modify ss epoch' f) epoch = ss.isOpen epoch := by
  unfold isOpen
  rw [Table.get?_modify]
  split
  · rename_i he
    subst he
    cases ss.get? epoch with
    | none => rfl
    | some s => exact hf s
  · rfl

/-- **Effects leave a socket loose that they neither close nor dial**, and no other. -/
theorem isLoose_onSockets {es : List Effect} : isLoose (es.foldl Effect.onSockets ss) epoch = true ↔
    ss.isLoose epoch = true ∧ .close epoch ∉ es ∧ .dial epoch ∉ es := by
  induction es generalizing ss with
  | nil => simp
  | cons e es ih =>
    rw [List.foldl_cons, ih]
    cases e with
    | dial epoch' =>
      by_cases he : epoch = epoch'
      · simp [Effect.onSockets, isLoose, Table.get?_set, he, Socket.isLoose]
      · simp [Effect.onSockets, isLoose, Table.get?_set, he]
    | close epoch' =>
      simp only [Effect.onSockets, isLoose_modify_cancel, List.mem_cons, Effect.close.injEq, not_or,
        reduceCtorEq, false_or]
      constructor
      · rintro ⟨⟨hl, hn⟩, hc, hd⟩
        exact ⟨hl, ⟨hn, hc⟩, hd⟩
      · rintro ⟨hl, ⟨hn, hc⟩, hd⟩
        exact ⟨⟨hl, hn⟩, hc, hd⟩
    | send epoch' f => simp [Effect.onSockets, isLoose_modify_enqueue]
    | answer n a => simp [Effect.onSockets]
    | deliver box e => simp [Effect.onSockets]

/-- Effects open no socket. -/
theorem isOpen_of_onSockets {es : List Effect} (h : isOpen (es.foldl Effect.onSockets ss) epoch = true) :
    ss.isOpen epoch = true ∧ .dial epoch ∉ es := by
  induction es generalizing ss with
  | nil => exact ⟨h, List.not_mem_nil⟩
  | cons e es ih =>
    obtain ⟨ho, hd⟩ := ih h
    cases e with
    | dial epoch' =>
      by_cases he : epoch = epoch'
      · simp [Effect.onSockets, isOpen, Table.get?_set, he, Socket.isOpen] at ho
      · simp only [Effect.onSockets, isOpen, Table.get?_set, he, if_false] at ho
        exact ⟨ho, by simp [he, hd]⟩
    | close epoch' =>
      rw [Effect.onSockets, isOpen_modify Socket.isOpen_cancel] at ho
      exact ⟨ho, by simp [hd]⟩
    | send epoch' f =>
      rw [Effect.onSockets, isOpen_modify (Socket.isOpen_enqueue f)] at ho
      exact ⟨ho, by simp [hd]⟩
    | answer n a => exact ⟨ho, by simp [hd]⟩
    | deliver box e => exact ⟨ho, by simp [hd]⟩

end Sockets

/-! ### The supervisor and its socket -/

namespace Connection

variable {env : Surroundings} {p : Profile} {c c' : Connection} {i : Input} {es : List Effect} {epoch : Nat}

/-- The supervisor closes its own socket, or one it is told of. -/
theorem link_of_close (ha : Acts env p c i c' es) (h : .close epoch ∈ es) :
    c.link = some epoch ∨ i = .report epoch .opened := by
  cases ha with
  | late =>
    cases List.mem_singleton.1 h
    exact .inr rfl
  | ends =>
    left
    simpa [farewells] using h
  | destroys =>
    left
    simpa [farewells] using h
  | deserts =>
    left
    simpa [farewells] using h
  | enters => simp at h
  | delivers => simp at h
  | _ => simp at h

/-- A socket becomes the supervisor's own when it is told of it. -/
theorem link_of_acts (ha : Acts env p c i c' es) (h : c'.link = some epoch) :
    c.link = some epoch ∨ i = .report epoch .opened := by
  cases ha with
  | opens =>
    cases h
    exact .inr rfl
  | ends => cases h
  | destroys => cases h
  | deserts => cases h
  | _ => exact .inl h

/-- The supervisor keeps its own socket or closes it, and so it does with one it is told of. -/
theorem close_or_link_of_acts (hp : c.InPhase) (ha : Acts env p c i c' es)
    (h : c.link = some epoch ∨ i = .report epoch .opened) : .close epoch ∈ es ∨ c'.link = some epoch := by
  cases ha with
  | late =>
    rcases h with h | h
    · exact .inr h
    · cases h
      exact .inl List.mem_cons_self
  | opens =>
    rcases h with h | h
    · exact .inr (congrArg some (hp.eq_epoch_of_link h).symm)
    · cases h
      exact .inr rfl
  | ends hends =>
    rcases h with h | rfl
    · exact .inl (by simp [farewells, h])
    · cases hends
  | destroys =>
    rcases h with h | h
    · exact .inl (by simp [farewells, h])
    · cases h
  | deserts =>
    rcases h with h | h
    · exact .inl (by simp [farewells, h])
    · cases h
  | passes hpass =>
    rcases h with h | rfl
    · exact .inr h
    · cases hpass with
      | stale _ hr => exact absurd rfl hr
  | attempts hi =>
    rcases h with h | rfl
    · exact .inr h
    · cases hi
  | _ =>
    rcases h with h | h
    · exact .inr h
    · cases h

/-- The supervisor dials for a new attempt. -/
theorem eq_of_dial (ha : Acts env p c i c' es) (h : .dial epoch ∈ es) : epoch = c.epoch + 1 := by
  cases ha with
  | attempts => simpa using h
  | _ => simp [farewells] at h

end Connection

/-! ### The task of a socket -/

/-- What becomes of a socket in a move of its task, its state before being `s`. -/
inductive Turns (isRunning : Bool) (s : Option Socket) : Option Socket × Option Report → Prop where
  /-- It is as open as before. -/
  | stays {d : Option Socket × Option Report} : (d.1 <|> s).any Socket.isOpen = s.any Socket.isOpen →
      (d.1 <|> s).any Socket.isLoose = s.any Socket.isLoose → d.2 ≠ some .opened → Turns isRunning s d
  /-- It ends. -/
  | ends {r : Option Report} : r ≠ some .opened → Turns isRunning s (some .ended, r)
  /-- It is opened, and the supervisor is told. -/
  | opens : isRunning = true → Turns isRunning s (some (.opened [] false), some .opened)

theorem turns_deed (m : Move) (isRunning : Bool) (s : Option Socket) :
    Turns isRunning s (m.deed isRunning s) := by
  have hnothing : Turns isRunning s (none, none) := .stays rfl rfl (by simp)
  cases m with
  | dial epoch =>
    simp only [Move.deed]
    split
    · rename_i hs
      subst hs
      exact .stays rfl rfl (by simp)
    · exact hnothing
  | dialed epoch =>
    simp only [Move.deed]
    split
    · split
      · rename_i hr
        exact .opens hr
      · exact .ends (by simp)
    · exact hnothing
  | refused epoch reason =>
    simp only [Move.deed]
    split
    · exact .ends (by simp)
    · exact hnothing
  | receive epoch x =>
    simp only [Move.deed]
    split
    · split
      · exact .ends (by simp)
      · exact .stays rfl rfl (by simp)
      · exact hnothing
    · exact hnothing
  | fail epoch reason =>
    simp only [Move.deed]
    split
    · exact .ends (by simp)
    · exact hnothing
  | transmit epoch =>
    simp only [Move.deed]
    split
    · exact .stays rfl rfl (by simp)
    · exact .ends (by simp)
    · exact hnothing
  | _ => exact hnothing

theorem Sockets.get?_put (ss : Sockets) (epoch : Nat) (s : Option Socket) (epoch' : Nat) :
    (ss.put epoch s).get? epoch' = if epoch' = epoch then s <|> ss.get? epoch' else ss.get? epoch' := by
  cases s with
  | none => simp [Sockets.put]
  | some s => simp [Sockets.put, Table.get?_set]

/-! ### What every move keeps -/

/-- The epoch of a socket that is reported open. -/
def opened? : Nat × Report → Option Nat
  | (epoch, .opened) => some epoch
  | _ => none

/-- The epoch of the socket that the supervisor is told to be open. -/
def Input.admitted? : Input → Option Nat
  | .report epoch r => opened? (epoch, r)
  | _ => none

theorem opened?_eq_some_iff {x : Nat × Report} {epoch : Nat} : opened? x = some epoch ↔ x = (epoch, .opened) := by
  obtain ⟨epoch', r⟩ := x
  cases r <;> simp [opened?]

theorem Input.admitted?_eq_some_iff {i : Input} {epoch : Nat} :
    i.admitted? = some epoch ↔ i = .report epoch .opened := by
  cases i with
  | report epoch' r => simp [Input.admitted?, opened?_eq_some_iff]
  | _ => simp [Input.admitted?]

namespace Client

/-- The epoch of a socket that the supervisor is told in the move to be open. -/
def admitted (c : Client) (m : Move) : List Nat := ((c.cue? m).bind fun x => x.input.admitted?).toList

/-- The epochs of the sockets that are reported open when the supervisor stops in the move: nobody takes the reports
any more. -/
def unheeded (c : Client) (m : Move) : List Nat := if c.shutsDown m then c.reports.filterMap opened? else []

/-- **What every move keeps**, `heard` being the sockets that the supervisor was told to be open, and `lost` those
it would have been told of when it stopped. -/
structure Tended (heard lost : List Nat) (c : Client) : Prop where
  /-- Each socket is reported open once at most. -/
  once : ∀ epoch, c.openings epoch ≤ 1
  /-- It is not reported again. -/
  settled : ∀ epoch ∈ heard, c.openings epoch = 0
  /-- The sockets it was told of are not those of attempts to come. -/
  known : ∀ epoch ∈ heard, epoch ≤ c.connection.epoch
  /-- The supervisor was told of its own. -/
  own : ∀ epoch, c.connection.link = some epoch → epoch ∈ heard
  /-- Those it was not told of were not told to close. -/
  waiting : ∀ epoch, (epoch, .opened) ∈ c.reports → c.sockets.isOpen epoch = true →
    c.sockets.isLoose epoch = true
  /-- While there is a supervisor, a socket that was not told to close is its own, or it will be told of it. -/
  running : c.isRunning = true → ∀ epoch, c.sockets.isLoose epoch = true →
    c.connection.link = some epoch ∨ (epoch, .opened) ∈ c.reports
  /-- So far no report was lost. -/
  found : c.isRunning = true → lost = []
  /-- Afterwards it is one of those that the supervisor was never told of. -/
  stopped : c.isRunning = false → ∀ epoch,
    c.sockets.isLoose epoch = true ↔ epoch ∈ lost ∧ c.sockets.isOpen epoch = true

variable {c : Client} {m : Move} {x : Cue} {epoch : Nat} {heard lost : List Nat}

theorem tended_new (p : Profile) : (Client.new p).Tended [] [] := by
  constructor
  case once => exact fun _ => Nat.zero_le _
  case settled => exact fun _ h => absurd h List.not_mem_nil
  case known => exact fun _ h => absurd h List.not_mem_nil
  case own => exact fun _ h => by cases h
  case waiting => exact fun _ h => absurd h List.not_mem_nil
  case running => exact fun _ _ h => by cases h
  case found => exact fun _ => rfl
  case stopped => exact fun h => by cases h

/-- A socket is not reported open that may not be. -/
theorem not_mem_of_openings (h : c.openings epoch = 0) : (epoch, Report.opened) ∉ c.reports := by
  unfold openings at h
  exact List.count_eq_zero.1 (by omega)

/-- The supervisor is told of its own socket no more. -/
theorem Tended.not_mem_of_link (h : c.Tended heard lost) (hl : c.connection.link = some epoch) :
    (epoch, Report.opened) ∉ c.reports := not_mem_of_openings (h.settled epoch (h.own epoch hl))

/-! ### The moves of others -/

/-- A move of callers and readers keeps it so, as they look at no socket. -/
theorem Tended.rig (h : c.Tended heard lost) (hx : c.cue? m = none) (he : m.epoch? = none) :
    (c.move m).Tended heard lost := by
  have hrig := move_rig c.sockets c.reports he hx hx
  change c.move m = _ at hrig
  have hsockets : (c.move m).sockets = c.sockets := by
    rw [hrig]
    rfl
  have hreports : (c.move m).reports = c.reports := by
    rw [hrig]
    rfl
  have hrunning := isRunning_of_does hx (does_move c m)
  have hconn := connection_of_idle hx
  have hopenings : ∀ epoch, (c.move m).openings epoch = c.openings epoch := by
    intro epoch
    unfold openings isDialing
    rw [hsockets, hreports]
  constructor
  case once => simpa only [hopenings] using h.once
  case settled => simpa only [hopenings] using h.settled
  case known => simpa only [hconn] using h.known
  case own => simpa only [hconn] using h.own
  case waiting => simpa only [hreports, hsockets] using h.waiting
  case running => simpa only [hrunning, hconn, hreports, hsockets] using h.running
  case found => simpa only [hrunning] using h.found
  case stopped => simpa only [hrunning, hsockets] using h.stopped

/-- A turn of another socket's task changes nothing for a socket. -/
theorem isLoose_ply_of_ne {epoch' : Nat} {d : Option Socket × Option Report} (hne : epoch' ≠ epoch) :
    (c.ply epoch d).sockets.isLoose epoch' = c.sockets.isLoose epoch' ∧
      (c.ply epoch d).sockets.isOpen epoch' = c.sockets.isOpen epoch' := by
  simp only [ply, Sockets.isLoose, Sockets.isOpen, Sockets.get?_put, if_neg hne, and_self]

/-- The task of a socket reports only of its own. -/
theorem mem_reports_ply_iff {epoch' : Nat} {d : Option Socket × Option Report} :
    (epoch', Report.opened) ∈ (c.ply epoch d).reports ↔ (epoch', Report.opened) ∈ c.reports ∨
      (c.isRunning = true ∧ epoch' = epoch ∧ d.2 = some .opened) := by
  simp only [ply, List.mem_append]
  refine or_congr_right ?_
  split
  · rename_i hr
    simp only [Option.mem_toList, Option.map_eq_some_iff, Prod.mk.injEq, hr, true_and]
    constructor
    · rintro ⟨r, hd, he, hr⟩
      exact ⟨he.symm, hr ▸ hd⟩
    · rintro ⟨he, hd⟩
      exact ⟨_, hd, he.symm, rfl⟩
  · rename_i hr
    simp [hr]

/-- The task of a socket keeps it so: what it opens it reports. -/
theorem Tended.ply (h : c.Tended heard lost) (m : Move) (epoch : Nat) :
    (c.ply epoch (m.deed c.isRunning (c.sockets.get? epoch))).Tended heard lost := by
  have hopenings := openings_ply_le c m epoch
  have hturns := turns_deed m c.isRunning (c.sockets.get? epoch)
  generalize m.deed c.isRunning (c.sockets.get? epoch) = d at hopenings hturns
  have hnew : ∀ epoch', (c.ply epoch d).sockets.get? epoch' =
      if epoch' = epoch then d.1 <|> c.sockets.get? epoch' else c.sockets.get? epoch' := by
    intro epoch'
    rw [Client.ply, Sockets.get?_put]
  constructor
  case once => exact fun epoch' => Nat.le_trans (hopenings epoch') (h.once epoch')
  case settled => exact fun epoch' he => Nat.le_zero.1 (h.settled epoch' he ▸ hopenings epoch')
  case known => exact h.known
  case own => exact h.own
  case found => exact h.found
  case waiting =>
    intro epoch' hr ho
    by_cases he : epoch' = epoch
    · subst he
      rw [mem_reports_ply_iff] at hr
      simp only [Sockets.isOpen, Sockets.isLoose, hnew, if_true] at ho ⊢
      cases hturns with
      | stays hopen hloose hd =>
        rw [hopen] at ho
        rw [hloose]
        exact h.waiting epoch' (hr.resolve_right fun hr => hd hr.2.2) ho
      | ends => cases ho
      | opens => rfl
    · rw [(isLoose_ply_of_ne he).2] at ho
      rw [(isLoose_ply_of_ne he).1]
      exact h.waiting epoch' ((mem_reports_ply_iff.1 hr).resolve_right fun hr => he hr.2.1) ho
  case running =>
    intro hrun epoch' hl
    rw [mem_reports_ply_iff]
    by_cases he : epoch' = epoch
    · subst he
      simp only [Sockets.isLoose, hnew, if_true] at hl
      cases hturns with
      | stays hopen hloose =>
        rw [hloose] at hl
        exact (h.running hrun epoch' hl).imp_right .inl
      | ends => cases hl
      | opens hr => exact .inr (.inr ⟨hr, rfl, rfl⟩)
    · rw [(isLoose_ply_of_ne he).1] at hl
      exact (h.running hrun epoch' hl).imp_right .inl
  case stopped =>
    intro hrun epoch'
    by_cases he : epoch' = epoch
    · subst he
      have hold := h.stopped hrun epoch'
      simp only [Sockets.isLoose, Sockets.isOpen, hnew, if_true] at hold ⊢
      cases hturns with
      | stays hopen hloose =>
        rw [hopen, hloose]
        exact hold
      | ends => simp [Socket.isLoose, Socket.isOpen]
      | opens hr => exact absurd hr (Bool.eq_false_iff.1 hrun)
    · rw [(isLoose_ply_of_ne he).1, (isLoose_ply_of_ne he).2]
      exact h.stopped hrun epoch'

/-! ### The moves of the supervisor -/

/-- A report that the supervisor does not take stays where it is, while there is a supervisor. -/
theorem mem_reportsAfter (hx : c.cue? m = some x) (hl : x.input.isLast = false)
    (h : (epoch, Report.opened) ∈ c.reports) :
    x.input = .report epoch .opened ∨ (epoch, Report.opened) ∈ c.reportsAfter x.input := by
  cases hi : x.input with
  | report epoch' r =>
    rw [reports_of_cue? hx hi] at h
    rcases List.mem_cons.1 h with h | h
    · cases h
      exact .inl rfl
    · exact .inr (hi ▸ h)
  | _ =>
    right
    rw [hi] at hl
    simpa [reportsAfter, hl] using h

/-- The supervisor is told once that a socket is open. -/
theorem Tended.not_mem_of_opened (h : c.Tended heard lost) (hx : c.cue? m = some x)
    (hi : x.input = .report epoch .opened) : (epoch, Report.opened) ∉ c.reportsAfter x.input := by
  have honce := h.once epoch
  have hcount : 1 ≤ c.reports.count (epoch, .opened) ∧
      c.reports.count (epoch, .opened) = (c.reportsAfter x.input).count (epoch, .opened) + 1 := by
    rw [reports_of_cue? hx hi, List.count_cons_self]
    exact ⟨Nat.succ_le_succ (Nat.zero_le _), rfl⟩
  unfold openings at honce
  exact List.count_eq_zero.1 (by omega)

/-- A socket the supervisor will be told of is not closed. -/
theorem Tended.not_close (h : c.Tended heard lost) (hs : c.Sound) (hx : c.cue? m = some x)
    (hr : (epoch, Report.opened) ∈ c.reportsAfter x.input) : .close epoch ∉ (c.outcome x).2 := by
  intro hc
  rcases Connection.link_of_close (hs.acts hx) hc with hl | hi
  · exact h.not_mem_of_link hl (mem_of_mem_reportsAfter hr)
  · exact h.not_mem_of_opened hx hi hr

/-- The sockets of a client that the supervisor has stopped: those of which it was never told run on. -/
theorem Tended.stops (h : c.Tended heard lost) (hs : c.Sound) (hx : c.cue? m = some x)
    (hl : x.input.isLast = true) : (c.handle x).sockets.isLoose epoch = true ↔
      (epoch, Report.opened) ∈ c.reports ∧ (c.handle x).sockets.isOpen epoch = true := by
  have ha := hs.acts hx
  have hreport : x.input ≠ .report epoch .opened := by
    intro hi
    rw [hi] at hl
    cases hl
  have hlink : (c.handle x).connection.link = none := by
    rw [handle_eq, (Connection.acts_of_isLast ha hl).1]
    rfl
  rw [handle_eq] at hlink ⊢
  constructor
  · intro hloose
    refine ⟨?_, Sockets.isOpen_of_isLoose hloose⟩
    obtain ⟨hold, hclose, -⟩ := Sockets.isLoose_onSockets.1 hloose
    refine (h.running (isRunning_of_cue? hx) epoch hold).resolve_left fun hown => ?_
    -- its own is closed
    rcases Connection.close_or_link_of_acts hs.phase ha (.inl hown) with hc | hc
    · exact hclose hc
    · rw [hlink] at hc
      cases hc
  · rintro ⟨hr, ho⟩
    obtain ⟨hold, hdial⟩ := Sockets.isOpen_of_onSockets ho
    refine Sockets.isLoose_onSockets.2 ⟨h.waiting epoch hr hold, fun hc => ?_, hdial⟩
    rcases Connection.link_of_close ha hc with hown | hi
    · exact h.not_mem_of_link hown hr
    · exact hreport hi

/-- **The supervisor keeps it so**: it takes over the socket it is told of, or has it closed. -/
theorem Tended.handle (h : c.Tended heard lost) (hs : c.Sound) (hx : c.cue? m = some x) :
    (c.handle x).Tended (heard ++ x.input.admitted?.toList)
      (lost ++ if x.input.isLast then c.reports.filterMap opened? else []) := by
  have ha := hs.acts hx
  have hrun := isRunning_of_cue? hx
  have hconn : (c.handle x).connection = (c.outcome x).1 := by rw [handle_eq]
  have hsockets : (c.handle x).sockets = (c.outcome x).2.foldl Effect.onSockets c.sockets := by rw [handle_eq]
  have hreports : (c.handle x).reports = c.reportsAfter x.input := by rw [handle_eq]
  have hrunning : (c.handle x).isRunning = ! x.input.isLast := by rw [handle_eq, hrun, Bool.true_and]
  have hadmitted : ∀ {epoch}, epoch ∈ x.input.admitted?.toList ↔ x.input = .report epoch .opened := by
    intro epoch
    rw [Option.mem_toList, Input.admitted?_eq_some_iff]
  have hknown : ∀ {epoch}, x.input = .report epoch .opened → epoch ≤ c.connection.epoch := by
    intro epoch hi
    have he := hs.expects hx
    rw [hi] at he
    exact he.1
  have hdial : ∀ {epoch}, epoch ≤ c.connection.epoch → .dial epoch ∉ (c.outcome x).2 := by
    intro epoch he hd
    have := Connection.eq_of_dial ha hd
    omega
  constructor
  case once =>
    intro epoch
    by_cases hd : .dial epoch ∈ (c.outcome x).2
    · have he := Connection.eq_of_dial ha hd
      exact openings_handle_le_one hs (by omega)
    · exact Nat.le_trans (openings_handle_le hd) (h.once epoch)
  case settled =>
    intro epoch he
    rcases List.mem_append.1 he with he | he
    · exact Nat.le_zero.1 (h.settled epoch he ▸ openings_handle_le (hdial (h.known epoch he)))
    · have hi := hadmitted.1 he
      have hlt := openings_handle_lt hx hi (hdial (hknown hi))
      have hone := h.once epoch
      omega
  case known =>
    intro epoch he
    rw [hconn]
    refine Nat.le_trans ?_ (Connection.epoch_le_of_acts ha)
    rcases List.mem_append.1 he with he | he
    · exact h.known epoch he
    · exact hknown (hadmitted.1 he)
  case own =>
    intro epoch hl
    rw [hconn] at hl
    rcases Connection.link_of_acts ha hl with hl | hi
    · exact List.mem_append_left _ (h.own epoch hl)
    · exact List.mem_append_right _ (hadmitted.2 hi)
  case waiting =>
    intro epoch hr ho
    rw [hreports] at hr
    rw [hsockets] at ho ⊢
    obtain ⟨hold, hd⟩ := Sockets.isOpen_of_onSockets ho
    exact Sockets.isLoose_onSockets.2
      ⟨h.waiting epoch (mem_of_mem_reportsAfter hr) hold, h.not_close hs hx hr, hd⟩
  case running =>
    intro hgo epoch hl
    rw [hsockets] at hl
    rw [hconn, hreports]
    obtain ⟨hold, hclose, -⟩ := Sockets.isLoose_onSockets.1 hl
    rcases h.running hrun epoch hold with hown | hr
    · exact .inl ((Connection.close_or_link_of_acts hs.phase ha (.inl hown)).resolve_left hclose)
    · rcases mem_reportsAfter hx (by simpa [hrunning] using hgo) hr with hi | hr
      · exact .inl ((Connection.close_or_link_of_acts hs.phase ha (.inr hi)).resolve_left hclose)
      · exact .inr hr
  case found =>
    intro hgo
    rw [h.found hrun]
    simp only [hrunning, Bool.not_eq_true'] at hgo
    simp [hgo]
  case stopped =>
    intro hgo epoch
    have hl : x.input.isLast = true := by simpa [hrunning] using hgo
    rw [h.stops hs hx hl, h.found hrun, hl, if_pos rfl, List.nil_append]
    refine and_congr_left' ⟨fun hr => List.mem_filterMap.2 ⟨_, hr, rfl⟩, fun hr => ?_⟩
    obtain ⟨y, hy, he⟩ := List.mem_filterMap.1 hr
    exact opened?_eq_some_iff.1 he ▸ hy

theorem Tended.move (h : c.Tended heard lost) (hs : c.Sound) (m : Move) :
    (c.move m).Tended (heard ++ c.admitted m) (lost ++ c.unheeded m) := by
  cases hx : c.cue? m with
  | some x =>
    rw [move_of_cue? hx]
    simpa [admitted, unheeded, shutsDown, hx] using h.handle hs hx
  | none =>
    have hnothing : heard ++ c.admitted m = heard ∧ lost ++ c.unheeded m = lost := by
      simp [admitted, unheeded, shutsDown, hx]
    rw [hnothing.1, hnothing.2]
    cases he : m.epoch? with
    | none => exact h.rig hx he
    | some epoch =>
      rw [move_eq_ply he]
      exact h.ply m epoch

end Client

/-! ### Every run -/

open Client

theorem tended_run (p : Profile) (moves : List Move) : (Client.after p moves).Tended
    ((Client.new p).gather admitted moves) ((Client.new p).gather unheeded moves) := by
  refine run_induction (P := fun moves c => c.Tended ((Client.new p).gather admitted moves)
    ((Client.new p).gather unheeded moves)) (tended_new p) (fun moves m h => ?_) moves
  rw [gather_concat, gather_concat]
  exact h.move (sound_run p moves) m

/-- **No socket outlives its client** in a run. While there is a supervisor, the sockets that it was told to be open
are its own, told to close, or gone; once it has stopped, each socket that was opened was told to close or is
gone. -/
structure Attended (p : Profile) (moves : List Move) : Prop where
  /-- While there is a supervisor. -/
  running : (Client.after p moves).isRunning = true → ∀ epoch ∈ (Client.new p).gather admitted moves,
    (Client.after p moves).sockets.isLoose epoch = true → (Client.after p moves).connection.link = some epoch
  /-- Once it has stopped. -/
  stopped : (Client.after p moves).isRunning = false → ∀ epoch,
    (Client.after p moves).sockets.isLoose epoch = false

/-- **When no socket outlives its client.** As long as there is a supervisor, none does. Once it has stopped, those do
that are still open and were reported open when it stopped, the report being still in the queue; all others were told
to close, or are gone. -/
theorem attended_iff (p : Profile) (moves : List Move) : Attended p moves ↔
    ((Client.after p moves).isRunning = true ∨ ∀ epoch ∈ (Client.new p).gather unheeded moves,
      (Client.after p moves).sockets.isOpen epoch = false) := by
  have h := tended_run p moves
  constructor
  · intro ha
    cases hr : (Client.after p moves).isRunning with
    | true => exact .inl rfl
    | false =>
      refine .inr fun epoch he => Bool.eq_false_iff.2 fun ho => ?_
      have hl := (h.stopped hr epoch).2 ⟨he, ho⟩
      rw [ha.stopped hr epoch] at hl
      cases hl
  · intro hc
    refine ⟨fun hr epoch he hl => ?_, fun hr epoch => Bool.eq_false_iff.2 fun hl => ?_⟩
    · exact (h.running hr epoch hl).resolve_right (not_mem_of_openings (h.settled epoch he))
    · obtain ⟨he, ho⟩ := (h.stopped hr epoch).1 hl
      rcases hc with hc | hc
      · rw [hr] at hc
        cases hc
      · rw [hc epoch he] at ho
        cases ho

/-- The connection is lost and the next attempt opens its socket; before the supervisor takes the report, a caller
shuts the client down. -/
def deserting : List Move :=
  greeting ++ [.receive 1 .broken, .takeReport 0 "unused", .takeAlarm 1000000000 "unused", .dialed 3, .destroy,
    .takeCommand 1000000000 "unused"]

/-- The socket of that attempt outlives the client. -/
theorem not_attended_deserting : ¬ Attended localProfile deserting := by
  intro h
  have hgone : (Client.after localProfile deserting).isRunning = false := by decide +kernel
  have hloose : (Client.after localProfile deserting).sockets.isLoose 3 = true := by decide +kernel
  rw [h.stopped hgone 3] at hloose
  cases hloose

end TurnRelay.Gateway
