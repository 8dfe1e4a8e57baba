import TurnRelay.Proofs.Gateway.Perspective
import TurnRelay.Proofs.Gateway.Strays

/-!
# Users of one connection do not interfere

Two runs are compared. In one everything happens; in the other, a party's, the supervisor is not told what other
callers and readers want, and the gateway's frames that are not for the party do not arrive. As long as the connection
lasts, and with its end as the last thing that the supervisor takes, the calls of the party come to the same in both,
and its streams yield the same, at the same moves.

What others do shifts the moves in which the supervisor takes something, so a run is written out first: as its moves
without those of the supervisor, and what the supervisor took, in their order (`Client.beats`). The second run leaves
out what is not for the party.

The two runs look the same to the party (`Party.view`), and their links are equally open: this is what every step
keeps. That the links are so needs one thing of the first run, that the supervisor's own socket was not told to close;
otherwise the socket could end sooner in the second run, which has fewer frames to send.

## The model

* `Beat`, `Client.beats` — a run, written out.
* `Party.glimpse?`, `Party.glimpses` — what a party learns of its calls and streams in the second run.
* `Client.Lasts`, `Party.owns`, `Party.Follows` — what the first run must satisfy.
* `Party.Parallel` — the two runs agree.

## What is proved

* `holdsLink_run` — the supervisor's own socket is not told to close.
* `Parallel.moves`, `Parallel.takes`, `Parallel.passes` — every step keeps the two runs in agreement.
* `glimpses_run` — users of one connection do not interfere.
-/

namespace TurnRelay.Gateway

/-! ### The supervisor's own socket -/

namespace Connection

variable {env : Surroundings} {p : Profile} {c c' : Connection} {i : Input} {es : List Effect} {link : Nat}

/-- A supervisor that keeps its socket neither closes it nor dials for it. -/
theorem link_undisturbed (hepoch : ∀ link, c.link = some link → link = c.epoch) (ha : Acts env p c i c' es)
    (h : c'.link = some link) : .close link ∉ es ∧ .dial link ∉ es := by
  cases ha with
  | late hne =>
    have hlink := hepoch link h
    exact ⟨by simpa using fun he : link = _ => hne (he.symm.trans hlink), by simp⟩
  | attempts =>
    have hlink := hepoch link h
    exact ⟨by simp, by simp [hlink]⟩
  | ends => cases h
  | destroys => cases h
  | deserts => cases h
  | enters => exact ⟨by simp, by simp⟩
  | delivers => exact ⟨by simp, by simp⟩
  | _ => exact ⟨by simp, by simp⟩

/-- On a connection the supervisor gets no other socket. -/
theorem link_of_up (hl : c.link = some c.epoch) (ha : Acts env p c i c' es) (h : c'.link = some link) :
    c.link = some link := by
  cases ha with
  | opens =>
    cases h
    exact hl
  | ends => cases h
  | destroys => cases h
  | deserts => cases h
  | _ => exact h

end Connection

namespace Client

/-- The supervisor's own socket was not told to close. -/
def HoldsLink (c : Client) : Prop :=
  ∀ link, c.connection.link = some link → c.sockets.isOpen link = true → c.sockets.isLoose link = true

variable {c : Client} {m : Move} {x : Cue} {heard lost : List Nat}

theorem HoldsLink.handle (h : c.HoldsLink) (hs : c.Sound) (ht : c.Tended heard lost) (hx : c.cue? m = some x) :
    (c.handle x).HoldsLink := by
  intro link hl ho
  rw [handle_eq] at hl ho ⊢
  have ha := hs.acts hx
  obtain ⟨hclose, hdial⟩ := Connection.link_undisturbed (fun _ => hs.phase.eq_epoch_of_link) ha hl
  have hopen := (Sockets.isOpen_of_onSockets ho).1
  refine Sockets.isLoose_onSockets.2 ⟨?_, hclose, hdial⟩
  rcases Connection.link_of_acts ha hl with hl' | hi
  · exact h link hl' hopen
  · exact ht.waiting link (reports_of_cue? hx hi ▸ List.mem_cons_self) hopen

theorem HoldsLink.ply (h : c.HoldsLink) (m : Move) (epoch : Nat) :
    (c.ply epoch (m.deed c.isRunning (c.sockets.get? epoch))).HoldsLink := by
  have hturns := turns_deed m c.isRunning (c.sockets.get? epoch)
  generalize m.deed c.isRunning (c.sockets.get? epoch) = δ at hturns
  intro link hl ho
  by_cases he : link = epoch
  · subst he
    have hold := h link hl
    simp only [Client.ply, Sockets.isOpen, Sockets.isLoose, Sockets.get?_put, if_true] at hold ho ⊢
    cases hturns with
    | stays hopen hloose =>
      rw [hopen] at ho
      rw [hloose]
      exact hold ho
    | ends => cases ho
    | opens => rfl
  · rw [(isLoose_ply_of_ne he).2] at ho
    rw [(isLoose_ply_of_ne he).1]
    exact h link hl ho

theorem holdsLink_run (p : Profile) (moves : List Move) : (after p moves).HoldsLink := by
  refine run_induction (P := fun _ c => c.HoldsLink) (fun _ h => by cases h) (fun moves m h => ?_) moves
  cases hx : (after p moves).cue? m with
  | some x =>
    rw [move_of_cue? hx]
    exact h.handle (sound_run p moves) (tended_run p moves) hx
  | none =>
    cases he : m.epoch? with
    | some epoch =>
      rw [move_eq_ply he]
      exact h.ply m epoch
    | none =>
      have hself := move_rig (after p moves).sockets (after p moves).reports he hx hx
      change (after p moves).move m = _ at hself
      intro link hl ho
      rw [connection_of_idle hx] at hl
      rw [hself] at ho ⊢
      exact h link hl ho

end Client

/-! ### Sockets, frames apart -/

/-- A socket without the frames that are to go out. -/
def Socket.bare : Socket → Socket
  | .opened _ isCancelled => .opened [] isCancelled
  | s => s

/-- The socket of an epoch, frames apart. -/
def Sockets.bare? (ss : Sockets) (epoch : Nat) : Option Socket := (ss.get? epoch).map Socket.bare

theorem Sockets.isOpen_eq (ss : Sockets) (epoch : Nat) : ss.isOpen epoch = (ss.bare? epoch).any Socket.isOpen := by
  unfold isOpen bare?
  cases ss.get? epoch with
  | none => rfl
  | some s => cases s <;> rfl

/-- Effects leave a socket that they neither close nor dial as it is, frames apart. -/
theorem Sockets.bare?_onSockets {es : List Effect} {ss : Sockets} {epoch : Nat} (hclose : .close epoch ∉ es)
    (hdial : .dial epoch ∉ es) : bare? (es.foldl Effect.onSockets ss) epoch = ss.bare? epoch := by
  induction es generalizing ss with
  | nil => rfl
  | cons e es ih =>
    rw [List.mem_cons, not_or] at hclose hdial
    rw [List.foldl_cons, ih hclose.2 hdial.2]
    unfold bare?
    cases e with
    | answer n a => rfl
    | deliver box e => rfl
    | send k f =>
      simp only [Effect.onSockets, Table.get?_modify]
      split
      · rename_i hk
        rw [← hk, Option.map_map]
        congr 1
        funext s
        cases s <;> rfl
      · rfl
    | close k =>
      have hk : epoch ≠ k := fun hk => hclose.1 (hk ▸ rfl)
      simp only [Effect.onSockets, Table.get?_modify, if_neg hk]
    | dial k =>
      have hk : epoch ≠ k := fun hk => hdial.1 (hk ▸ rfl)
      simp only [Effect.onSockets, Table.get?_set, if_neg hk]

/-- The task of a socket does the same with fewer frames to send, if it was not told to close the socket. -/
theorem bare_deed {s s' : Option Socket} (h : s.map Socket.bare = s'.map Socket.bare)
    (hl : s.any Socket.isOpen = true → s.any Socket.isLoose = true) (m : Move) (isRunning : Bool) :
    ((m.deed isRunning s).1 <|> s).map Socket.bare = ((m.deed isRunning s').1 <|> s').map Socket.bare := by
  have hcases : s = s' ∨ ∃ q q', s = some (.opened q false) ∧ s' = some (.opened q' false) := by
    cases s with
    | none =>
      cases s' with
      | none => exact .inl rfl
      | some t' => cases h
    | some t =>
      cases s' with
      | none => cases h
      | some t' =>
        cases t with
        | opened q b =>
          cases b with
          | true => exact absurd (hl rfl) Bool.false_ne_true
          | false => cases t' <;> simp_all [Socket.bare]
        | _ => cases t' <;> simp_all [Socket.bare]
  rcases hcases with rfl | ⟨q, q', rfl, rfl⟩
  · rfl
  · cases m with
    | receive epoch x =>
      simp only [Move.deed]
      cases x with
      | close why => cases (Inbound.close why).ending? <;> rfl
      | _ => rfl
    | transmit epoch => cases q <;> cases q' <;> rfl
    | _ => rfl

/-! ### A run, written out -/

/-- What happens next: the supervisor takes something, or somebody else makes a move. -/
inductive Beat where
  /-- The supervisor takes something. -/
  | takes (x : Cue)
  /-- A move of somebody else. -/
  | moves (m : Move)

namespace Client

/-- What becomes of a client. -/
def beat (c : Client) : Beat → Client
  | .takes x => c.handle x
  | .moves m => c.move m

/-- What happens in a move. In one of the supervisor it may have nothing to take. -/
def beatsOf (c : Client) (m : Move) : List Beat :=
  match c.cue? m with
  | some x => [.takes x]
  | none => if m.supervises then [] else [.moves m]

/-- A run, written out. -/
def beats (c : Client) (moves : List Move) : List Beat := c.gather beatsOf moves

theorem beats_cons (c : Client) (m : Move) (moves : List Move) :
    c.beats (m :: moves) = c.beatsOf m ++ (c.move m).beats moves := rfl

/-- The move of a supervisor that has nothing to take changes nothing. -/
theorem move_of_supervises {c : Client} {m : Move} (hm : m.supervises = true) (hx : c.cue? m = none) :
    c.move m = c := by
  cases m with
  | takeCommand => exact takeCommand_of_idle hx
  | takeReport => exact takeReport_of_idle hx
  | takeAlarm => exact takeAlarm_of_idle hx
  | _ => cases hm

/-- What is written of a run is what happens in it. -/
theorem foldl_beats (c : Client) (moves : List Move) : (c.beats moves).foldl beat c = c.run moves := by
  induction moves generalizing c with
  | nil => rfl
  | cons m moves ih =>
    rw [beats_cons, List.foldl_append, run_cons, ← ih (c.move m)]
    congr 1
    unfold beatsOf
    split
    · rename_i x hx
      exact (move_of_cue? hx).symm
    · rename_i hx
      cases hm : m.supervises with
      | true => exact (move_of_supervises hm hx).symm
      | false => rfl

/-- Something holds at every move of a run. -/
def Throughout (Q : Client → Move → Prop) (c : Client) : List Move → Prop
  | [] => True
  | m :: moves => Q c m ∧ (c.move m).Throughout Q moves

/-- Whether it does can be seen move by move. -/
def decideThroughout (Q : Client → Move → Prop) [∀ c m, Decidable (Q c m)] (c : Client) :
    (moves : List Move) → Decidable (c.Throughout Q moves)
  | [] => isTrue trivial
  | m :: moves =>
    have := decideThroughout Q (c.move m) moves
    inferInstanceAs (Decidable (Q c m ∧ (c.move m).Throughout Q moves))

instance (Q : Client → Move → Prop) [∀ c m, Decidable (Q c m)] (c : Client) (moves : List Move) :
    Decidable (c.Throughout Q moves) := decideThroughout Q c moves

theorem throughout_append {Q : Client → Move → Prop} {c : Client} {before later : List Move} :
    c.Throughout Q (before ++ later) ↔ c.Throughout Q before ∧ (c.run before).Throughout Q later := by
  induction before generalizing c with
  | nil => simp [Throughout]
  | cons m before ih => exact (and_congr_right fun _ => ih).trans and_assoc.symm

/-- The supervisor takes something only while there is a connection; the last thing may end it. -/
def Lasts (c : Client) (m : Move) : Prop := c.connection.phase = .connected ∨ (c.cue? m).isNone = true

end Client

/-! ### What a party learns -/

/-- What a user learns. -/
inductive Glimpse where
  /-- What a look at a call comes to. -/
  | result (n : Nat) (r : Option (Except Fault Yield))
  /-- What a look at a stream comes to. -/
  | pulled (stream : Nat) (r : Client.Pulled)
  deriving DecidableEq

/-- The name under which a move asks for a run. -/
def Move.runName? : Move → Option String
  | .send _ id _ => some id
  | _ => none

namespace Party

variable (P : Party)

/-- What the party learns in a move: it looks at one of its calls or streams. -/
def glimpse? (c : Client) : Move → Option Glimpse
  | .poll now n =>
    if (c.calls.get? n).any fun call => call.purpose.name?.any P.ids then some (.result n (c.poll now n).1) else none
  | .pull now stream => if P.hears stream then some (.pulled stream (c.pull now stream).1) else none
  | _ => none

/-- What happens concerns the party, or the connection as a whole. What others do without the supervisor does not
matter. -/
def minds : Beat → Bool
  | .takes x => P.keeps x.input
  | .moves _ => true

/-- The supervisor is not told what others want. -/
def quiet (c : Client) : Client := { c with commands := c.commands.filter P.wants }

/-- What the party learns when the supervisor is not told what others want. -/
def glimpses (c : Client) : List Beat → List Glimpse
  | [] => []
  | .takes x :: beats => glimpses (P.quiet (c.handle x)) beats
  | .moves m :: beats => (P.glimpse? c m).toList ++ glimpses (P.quiet (c.move m)) beats

/-- A run that a listener of the party is to follow is asked for under a name of the party. -/
def Owns (c : Client) (m : Move) : Prop := ∀ id ∈ m.runName?, P.hears c.nextListener = true → P.ids id = true

instance (c : Client) (m : Move) : Decidable (P.Owns c m) :=
  inferInstanceAs (Decidable (∀ id ∈ m.runName?, P.hears c.nextListener = true → P.ids id = true))

instance (c : Connection) : Decidable (P.Follows c) :=
  inferInstanceAs (Decidable (∀ m ∈ c.audience.members, P.hears m.2.box = true → P.runs m.1 = true))

instance (c : Client) (m : Move) : Decidable (c.Lasts m) :=
  inferInstanceAs (Decidable (c.connection.phase = .connected ∨ (c.cue? m).isNone = true))

/-! ### The numbers of its calls -/

/-- The number that a call under a name of the party gets in a move. -/
def number? (c : Client) (m : Move) : Option Nat := if m.name?.any P.ids then some c.nextTicket else none

/-- The numbers of the calls under the party's names. -/
def calls (c : Client) (moves : List Move) : List Nat := c.collect P.number? moves

end Party

namespace Client

variable {c : Client} {m : Move}

theorem nextTicket_le_move (c : Client) (m : Move) : c.nextTicket ≤ (c.move m).nextTicket := by
  cases hx : c.cue? m with
  | some x =>
    have heq : (c.handle x).nextTicket = c.nextTicket := by rw [handle_eq]
    exact Nat.le_of_eq (move_of_cue? hx ▸ heq.symm)
  | none => exact (idle_of_does hx (does_move c m)).nextTicket

theorem nextTicket_of_name? (h : m.name?.isSome = true) : (c.move m).nextTicket = c.nextTicket + 1 := by
  cases m with
  | query => simp only [move, query, begin, tell_eq]
  | send => simp only [move, send, begin, tell_eq]
  | _ => cases h

end Client

namespace Party

variable {P : Party} {p : Profile}

theorem number?_eq_some_iff {c : Client} {m : Move} {n : Nat} :
    P.number? c m = some n ↔ m.name?.any P.ids = true ∧ c.nextTicket = n := by
  unfold number?
  split
  · rename_i h
    simp [h]
  · rename_i h
    simp [h]

/-- Calls get their numbers in their order. -/
theorem lt_of_mem_calls (p : Profile) (moves : List Move) :
    ∀ n ∈ P.calls (Client.new p) moves, n < (Client.after p moves).nextTicket := by
  refine Client.run_induction (P := fun moves c => ∀ n ∈ P.calls (Client.new p) moves, n < c.nextTicket)
    (fun n h => absurd h List.not_mem_nil) (fun moves m ih n h => ?_) moves
  rw [calls, Client.collect_concat] at h
  rcases List.mem_append.1 h with h | h
  · exact Nat.lt_of_lt_of_le (ih n h) (Client.nextTicket_le_move _ m)
  · obtain ⟨hname, rfl⟩ := number?_eq_some_iff.1 (Option.mem_toList.1 h)
    have hsome : m.name?.isSome = true := by
      cases hm : m.name? with
      | none => simp [hm] at hname
      | some id => rfl
    rw [Client.nextTicket_of_name? hsome]
    exact Nat.lt_succ_self _

theorem le_of_mem_calls {c : Client} {n : Nat} {moves : List Move} (h : n ∈ P.calls c moves) :
    c.nextTicket ≤ n := by
  induction moves generalizing c with
  | nil => cases h
  | cons m moves ih =>
    rcases List.mem_append.1 h with h | h
    · exact Nat.le_of_eq (number?_eq_some_iff.1 (Option.mem_toList.1 h)).2
    · exact Nat.le_trans (Client.nextTicket_le_move c m) (ih h)

/-- Whether the number that a call gets in a move is one of the party's. -/
theorem mem_calls_iff {before later : List Move} {m : Move}
    (hm : ((Client.after p before).move m).nextTicket = (Client.after p before).nextTicket + 1) :
    (Client.after p before).nextTicket ∈ P.calls (Client.new p) (before ++ m :: later) ↔
      m.name?.any P.ids = true := by
  have hearlier : (Client.after p before).nextTicket ∉ P.calls (Client.new p) before :=
    fun h => Nat.lt_irrefl _ (lt_of_mem_calls p before _ h)
  have hlater : (Client.after p before).nextTicket ∉ P.calls ((Client.after p before).move m) later := by
    intro h
    have hle := le_of_mem_calls h
    omega
  have hcalls : P.calls (Client.new p) (before ++ m :: later) = P.calls (Client.new p) before ++
      ((P.number? (Client.after p before) m).toList ++ P.calls ((Client.after p before).move m) later) := by
    rw [calls, Client.collect_append, Client.collect_cons]
    rfl
  rw [hcalls, List.mem_append, List.mem_append, or_iff_right hearlier, or_iff_left hlater, Option.mem_toList,
    number?_eq_some_iff]
  exact and_iff_left rfl

/-- **The party's calls have numbers of their own.** -/
theorem numbers_calls {before later : List Move} {m : Move} (ho : P.Owns (Client.after p before) m) :
    P.Numbers (fun n => decide (n ∈ P.calls (Client.new p) (before ++ m :: later))) (Client.after p before) m := by
  have hiff : ((Client.after p before).move m).nextTicket = (Client.after p before).nextTicket + 1 →
      decide ((Client.after p before).nextTicket ∈ P.calls (Client.new p) (before ++ m :: later)) = m.name?.any P.ids := by
    intro hm
    rw [Bool.eq_iff_iff, decide_eq_true_iff]
    exact mem_calls_iff hm
  cases m with
  | connect now => exact hiff (by simp only [Client.move, Client.connect, Client.begin, Client.tell_eq])
  | query now id q timeout => exact hiff (Client.nextTicket_of_name? rfl)
  | send now id params => exact ⟨hiff (Client.nextTicket_of_name? rfl), ho id rfl⟩
  | destroy => exact hiff (by simp only [Client.move, Client.destroy, Client.begin, Client.tell_eq])
  | _ => trivial

/-! ### The two runs agree -/

/-- Two clients agree as far as a party is concerned; the supervisor of the second is not told what others want. -/
structure Parallel (P : Party) (mine : Nat → Bool) (c d : Client) : Prop where
  /-- They look the same to the party. -/
  view : P.view mine c = P.view mine d
  /-- The second supervisor is not told what others want. -/
  quiet : ∀ cmd ∈ d.commands, P.wants cmd = true
  /-- What is the party's is kept apart in the first client, -/
  suits : P.Suits mine c
  /-- and in the second. -/
  suits' : P.Suits mine d
  /-- On a connection their links are the same, frames apart. -/
  socket : c.connection.phase = .connected → ∀ link, c.connection.link = some link →
    d.sockets.bare? link = c.sockets.bare? link

variable {mine : Nat → Bool} {c d : Client} {m : Move} {x : Cue}

theorem view_quiet (c : Client) : P.view mine (P.quiet c) = P.view mine c := by
  simp [view, Party.quiet, List.filter_filter]

theorem Suits.quiet (h : P.Suits mine c) : P.Suits mine (P.quiet c) :=
  ⟨h.connection, fun cmd hcmd => h.commands cmd (List.mem_filter.1 hcmd).1, h.calls⟩

theorem wants_of_mem_quiet {cmd : Command} (h : cmd ∈ (P.quiet c).commands) : P.wants cmd = true :=
  (List.mem_filter.1 h).2

theorem parallel_quiet (hs : P.Suits mine c) : P.Parallel mine c (P.quiet c) :=
  ⟨(view_quiet c).symm, fun _ => wants_of_mem_quiet, hs, hs.quiet, fun _ _ _ => rfl⟩

namespace Parallel

/-- The two connections differ in requests and listeners of others only. -/
theorem share_eq (h : P.Parallel mine c d) : P.share c.connection = P.share d.connection :=
  congrArg Client.connection h.view

theorem link_eq (h : P.Parallel mine c d) : c.connection.link = d.connection.link :=
  show (P.share c.connection).link = (P.share d.connection).link from congrArg Connection.link h.share_eq

theorem epoch_eq (h : P.Parallel mine c d) : c.connection.epoch = d.connection.epoch :=
  show (P.share c.connection).epoch = (P.share d.connection).epoch from congrArg Connection.epoch h.share_eq

theorem isDestroyed_eq (h : P.Parallel mine c d) : c.connection.isDestroyed = d.connection.isDestroyed :=
  show (P.share c.connection).isDestroyed = (P.share d.connection).isDestroyed from congrArg Connection.isDestroyed h.share_eq

theorem nextTicket_eq (h : P.Parallel mine c d) : c.nextTicket = d.nextTicket :=
  show (P.view mine c).nextTicket = (P.view mine d).nextTicket from congrArg Client.nextTicket h.view

theorem nextListener_eq (h : P.Parallel mine c d) : c.nextListener = d.nextListener :=
  show (P.view mine c).nextListener = (P.view mine d).nextListener from congrArg Client.nextListener h.view

theorem isRunning_eq (h : P.Parallel mine c d) : c.isRunning = d.isRunning :=
  show (P.view mine c).isRunning = (P.view mine d).isRunning from congrArg Client.isRunning h.view

/-- The second supervisor has the commands that concern the party. -/
theorem commands_eq (h : P.Parallel mine c d) : c.commands.filter P.wants = d.commands :=
  (congrArg Client.commands h.view).trans (List.filter_eq_self.2 h.quiet)

/-- The number that a call gets in a move is the same. -/
theorem numbers (h : P.Parallel mine c d) (hn : P.Numbers mine c m) : P.Numbers mine d m := by
  cases m <;> simp only [Numbers, ← h.nextTicket_eq, ← h.nextListener_eq] at hn ⊢ <;> exact hn

/-! ### The moves of others than the supervisor -/

/-- The task of a socket. -/
theorem ply (h : P.Parallel mine c d) (hl : c.HoldsLink) (m : Move) (epoch : Nat) :
    P.Parallel mine (c.ply epoch (m.deed c.isRunning (c.sockets.get? epoch)))
      (P.quiet (d.ply epoch (m.deed d.isRunning (d.sockets.get? epoch)))) := by
  refine ⟨h.view.trans (view_quiet _).symm, fun _ => wants_of_mem_quiet,
    ⟨h.suits.connection, h.suits.commands, h.suits.calls⟩,
    Suits.quiet ⟨h.suits'.connection, h.suits'.commands, h.suits'.calls⟩, fun hp link hlink => ?_⟩
  have hbare := h.socket hp link hlink
  simp only [Client.ply, Party.quiet, Sockets.bare?, Sockets.get?_put] at hbare ⊢
  split
  · rename_i he
    subst he
    rw [← h.isRunning_eq]
    exact (bare_deed hbare.symm (hl link hlink) m c.isRunning).symm
  · exact hbare

/-- A caller or reader. -/
theorem rig (h : P.Parallel mine c d) (hm : m.supervises = false) (he : m.epoch? = none)
    (hn : P.Numbers mine c m) : P.Parallel mine (c.move m) (P.quiet (d.move m)) := by
  have hx := Client.cue?_of_not_supervises hm c
  have hx' := Client.cue?_of_not_supervises hm d
  have hsockets : ∀ c : Client, (c.move m).sockets = c.sockets := by
    intro c
    have hx := Client.cue?_of_not_supervises hm c
    have hself := Client.move_rig c.sockets c.reports he hx hx
    change c.move m = _ at hself
    rw [hself]
    rfl
  refine ⟨?_, fun _ => wants_of_mem_quiet, h.suits.move hx hn, (h.suits'.move hx' (h.numbers hn)).quiet, ?_⟩
  · rw [view_quiet, view_move h.suits hm he, view_move h.suits' hm he, h.view]
  · rw [Client.connection_of_idle hx, hsockets c]
    show _ → ∀ link, _ → (d.move m).sockets.bare? link = _
    rw [hsockets d]
    exact h.socket

/-- **What others than the supervisor do keeps the two runs in agreement.** -/
theorem moves (h : P.Parallel mine c d) (hl : c.HoldsLink) (hm : m.supervises = false)
    (hn : P.Numbers mine c m) : P.Parallel mine (c.move m) (P.quiet (d.move m)) := by
  cases he : m.epoch? with
  | some epoch =>
    rw [Client.move_eq_ply he, Client.move_eq_ply he]
    exact h.ply hl m epoch
  | none => exact h.rig hm he hn

/-- **The party learns the same.** -/
theorem glimpse?_eq (h : P.Parallel mine c d) (m : Move) : P.glimpse? c m = P.glimpse? d m := by
  have hview : ∀ c, P.Suits mine c → P.glimpse? c m = P.glimpse? (P.view mine c) m := by
    intro c hs
    cases m with
    | poll now n =>
      simp only [glimpse?]
      cases hn : mine n with
      | true =>
        have hcalls : (P.view mine c).calls.get? n = c.calls.get? n := Table.get?_keep_of_true _ hn
        rw [hcalls, (poll_view hs hn now).1]
      | false =>
        have hnone : (P.view mine c).calls.get? n = none := Table.get?_keep_of_false _ hn
        have hothers : ((c.calls.get? n).any fun call => call.purpose.name?.any P.ids) = false := by
          cases hcall : c.calls.get? n with
          | none => rfl
          | some call => exact (hs.calls n call hcall).1.symm.trans hn
        rw [hnone, hothers]
        rfl
    | pull now stream =>
      simp only [glimpse?]
      cases hl : P.hears stream with
      | true => rw [(pull_view hs hl now).1]
      | false => rfl
    | _ => rfl
  rw [hview c h.suits, h.view, ← hview d h.suits']

/-! ### What the supervisor takes -/

/-- The link of a connection that goes on stays as it is, frames apart. -/
theorem bare?_handle (hs : c.connection.link = some c.connection.epoch) (hd : c.connection.isDestroyed = false)
    (link : Nat) (hl : (c.handle x).connection.link = some link) :
    c.connection.link = some link ∧ (c.handle x).sockets.bare? link = c.sockets.bare? link := by
  rw [Client.handle_eq] at hl ⊢
  have ha : Acts (c.surroundings x.now x.freshId) c.profile c.connection x.input (c.outcome x).1 (c.outcome x).2 :=
    acts_handle hd x.input
  have hepoch : ∀ link, c.connection.link = some link → link = c.connection.epoch :=
    fun link hlink => (Option.some.inj (hs.symm.trans hlink)).symm
  obtain ⟨hclose, hdial⟩ := Connection.link_undisturbed hepoch ha hl
  exact ⟨Connection.link_of_up hs ha hl, Sockets.bare?_onSockets hclose hdial⟩

variable (h : P.Parallel mine c d) (hs : c.Sound) (hx : c.cue? m = some x) (hp : c.connection.phase = .connected)

include h hs hx hp

/-- **What concerns the party, or the connection as a whole, keeps the two runs in agreement.** -/
theorem takes (hk : P.keeps x.input = true) : P.Parallel mine (c.handle x) (P.quiet (d.handle x)) := by
  have hup := hs.phase.isUp hp
  have halive' : d.connection.isDestroyed = false := h.isDestroyed_eq ▸ hup.alive
  have hup' : d.connection.link = some d.connection.epoch := by rw [← h.link_eq, ← h.epoch_eq, hup.link]
  have hi := h.suits.parts hx
  have hopen : ∀ link, c.connection.link = some link → d.sockets.isOpen link = c.sockets.isOpen link := by
    intro link hlink
    rw [Sockets.isOpen_eq, Sockets.isOpen_eq, h.socket hp link hlink]
  have hportion := portion_outcome h.suits h.suits' h.view hopen hup.alive hi hk
  have hcommands : (c.commandsAfter x.input).filter P.wants = (d.commandsAfter x.input).filter P.wants := by
    cases hlast : x.input.isLast with
    | true => rw [Client.commandsAfter_of_isLast hlast, Client.commandsAfter_of_isLast hlast]
    | false =>
      cases hinput : x.input with
      | command cmd =>
        rw [hinput] at hlast hk
        have hcmds := Client.commands_of_cue? hx hinput
        have hd : P.quiet d = d := by
          simp only [Party.quiet, List.filter_eq_self.2 h.quiet]
        rw [Client.commandsAfter_command hlast, Client.commandsAfter_command hlast, ← h.commands_eq, hcmds,
          List.filter_cons_of_pos (by exact hk), List.tail_cons, List.tail_cons, List.filter_filter]
        simp only [Bool.and_self]
      | _ =>
        rw [hinput] at hlast
        rw [Client.commandsAfter_eq_self hlast (by simp), Client.commandsAfter_eq_self hlast (by simp)]
        exact congrArg Client.commands h.view
  refine ⟨?_, fun _ => wants_of_mem_quiet, h.suits.handle hup.alive hi, (h.suits'.handle halive' hi).quiet, ?_⟩
  · rw [view_quiet, view_handle, view_handle, hportion, hcommands, h.isRunning_eq]
    have hview := h.view
    simp only [Party.view, Client.mk.injEq] at hview ⊢
    simp only [hview, and_self]
  · intro _ link hl
    obtain ⟨hlink, hbare⟩ := bare?_handle hup.link hup.alive link hl
    have hl' : (d.handle x).connection.link = some link := by
      have hshare : (P.portion mine (c.outcome x)).1 = (P.portion mine (d.outcome x)).1 := congrArg Prod.fst hportion
      rw [Client.handle_eq] at hl ⊢
      exact (congrArg Connection.link hshare).symm.trans hl
    rw [hbare, ← h.socket hp link hlink]
    exact (bare?_handle hup' halive' link hl').2

/-- **What does not concern the party can be left out.** -/
theorem passes (hf : P.Follows c.connection) (hk : P.keeps x.input = false) : P.Parallel mine (c.handle x) d := by
  have hup := hs.phase.isUp hp
  have hi := h.suits.parts hx
  have hportion : P.portion mine (c.outcome x) = (P.share c.connection, []) :=
    portion_of_not_keeps h.suits.connection hp hf hi hk
  have hlast : x.input.isLast = false := by
    cases hinput : x.input with
    | command cmd =>
      rw [hinput] at hk
      cases cmd <;> first | rfl | cases hk
    | report epoch r => rfl
    | alarm a => rfl
    | deserted =>
      rw [hinput] at hk
      cases hk
  have hcommands : (c.commandsAfter x.input).filter P.wants = c.commands.filter P.wants := by
    cases hinput : x.input with
    | command cmd =>
      rw [hinput] at hlast hk
      have hwants : P.wants cmd = false := hk
      rw [Client.commandsAfter_command hlast, Client.commands_of_cue? hx hinput, List.tail_cons,
        List.filter_cons_of_neg (by simp [hwants])]
    | _ =>
      rw [hinput] at hlast
      rw [Client.commandsAfter_eq_self hlast (by simp)]
  have hview : P.view mine (c.handle x) = P.view mine c := by
    rw [view_handle, hportion, hcommands, hlast]
    simp [Party.view]
  refine ⟨hview.trans h.view, h.quiet, h.suits.handle hup.alive hi, h.suits', fun _ link hl => ?_⟩
  obtain ⟨hlink, hbare⟩ := bare?_handle hup.link hup.alive link hl
  rw [hbare, h.socket hp link hlink]

end Parallel

/-! ### Every run -/

theorem suits_new (p : Profile) : P.Suits mine (Client.new p) :=
  ⟨⟨fun _ h => absurd h List.not_mem_nil, fun _ h => absurd h List.not_mem_nil⟩,
    fun _ h => absurd h List.not_mem_nil, fun _ _ h => by cases h⟩

/-- What is the party's is kept apart in every run. -/
theorem suits_run (p : Profile) {moves : List Move} (ho : (Client.new p).Throughout P.Owns moves)
    (hmine : ∀ before m later, moves = before ++ m :: later → P.Owns (Client.after p before) m →
      P.Numbers mine (Client.after p before) m) : P.Suits mine (Client.after p moves) := by
  induction moves using List.reverseRecOn with
  | nil => exact suits_new p
  | append_singleton moves m ih =>
    rw [Client.throughout_append] at ho
    have hs : P.Suits mine (Client.after p moves) := ih ho.1 fun before m' later he =>
      hmine before m' (later ++ [m]) (by simp [he])
    rw [Client.after_concat]
    cases hx : (Client.after p moves).cue? m with
    | none => exact hs.move hx (hmine moves m [] rfl ho.2.1)
    | some x =>
      rw [Client.move_of_cue? hx]
      have halive := (Client.sound_run p moves).isDestroyed_eq_false (Client.isRunning_of_cue? hx)
      exact hs.handle halive (hs.parts hx)

/-- A supervisor's move shows a party nothing. -/
theorem glimpse?_of_supervises (hm : m.supervises = true) (c : Client) : P.glimpse? c m = none := by
  cases m <;> first | rfl | cases hm

/-- In agreement at the start, the two runs show the party the same. -/
theorem Parallel.collect_eq {p : Profile} {moves before : List Move}
    (h : P.Parallel mine (Client.after p before) d)
    (hmine : ∀ done m later, moves = done ++ m :: later → P.Numbers mine (Client.after p (before ++ done)) m)
    (hlasts : (Client.after p before).Throughout Client.Lasts moves)
    (hfollows : (Client.after p before).Throughout (fun c _ => P.Follows c.connection) moves) :
    (Client.after p before).collect P.glimpse? moves =
      P.glimpses d (((Client.after p before).beats moves).filter P.minds) := by
  induction moves generalizing before d with
  | nil => rfl
  | cons m moves ih =>
    have hnext : ∀ d', P.Parallel mine ((Client.after p before).move m) d' →
        ((Client.after p before).move m).collect P.glimpse? moves =
          P.glimpses d' ((((Client.after p before).move m).beats moves).filter P.minds) := by
      intro d' h'
      rw [← Client.after_concat] at h' ⊢
      refine ih h' (fun done m' later he => ?_) (Client.after_concat p before m ▸ hlasts.2)
        (Client.after_concat p before m ▸ hfollows.2)
      rw [List.append_assoc]
      exact hmine (m :: done) m' later (by rw [he, List.cons_append])
    rw [Client.collect_cons, Client.beats_cons, List.filter_append]
    cases hx : (Client.after p before).cue? m with
    | some x =>
      have hs := Client.sound_run p before
      have hp : (Client.after p before).connection.phase = .connected := hlasts.1.resolve_right (by simp [hx])
      have hmove := Client.move_of_cue? hx
      have hm : m.supervises = true := by
        by_contra hm
        rw [Client.cue?_of_not_supervises (Bool.eq_false_iff.2 hm)] at hx
        cases hx
      have hbeats : (Client.after p before).beatsOf m = [.takes x] := by simp [Client.beatsOf, hx]
      rw [glimpse?_of_supervises hm, hbeats]
      cases hk : P.keeps x.input with
      | true =>
        rw [List.filter_cons_of_pos (by exact hk)]
        exact hnext _ (hmove ▸ h.takes hs hx hp hk)
      | false =>
        rw [List.filter_cons_of_neg (by simp [minds, hk])]
        exact hnext _ (hmove ▸ h.passes hs hx hp hfollows.1 hk)
    | none =>
      cases hm : m.supervises with
      | true =>
        -- the supervisor has nothing to take
        have hbeats : (Client.after p before).beatsOf m = [] := by simp [Client.beatsOf, hx, hm]
        rw [glimpse?_of_supervises hm, hbeats]
        exact hnext _ ((Client.move_of_supervises hm hx).symm ▸ h)
      | false =>
        have hbeats : (Client.after p before).beatsOf m = [.moves m] := by simp [Client.beatsOf, hx, hm]
        have hn : P.Numbers mine (Client.after p before) m := by
          have := hmine [] m moves rfl
          rwa [List.append_nil] at this
        rw [hbeats, h.glimpse?_eq m]
        exact congrArg _ (hnext _ (h.moves (Client.holdsLink_run p before) hm hn))

/-- **Users of one connection do not interfere.** In a run that goes on while there is a connection, and lasts no
longer than it, the calls of a party come to what they would come to, and its streams yield what they would yield, if
the supervisor were not told what other callers and readers want, and if the responses to their requests, the events
of their runs and whatever has no meaning to the supervisor did not arrive. The party is given by the names of its
requests and the numbers of its listeners; it may be that of a single request, which has no listener, or that of a
single stream, with the request that created it. A listener of the party that comes with a request comes with one of
its own, and the party's runs are those that its listeners follow. -/
theorem glimpses_run (p : Profile) (P : Party) (before moves : List Move)
    (howns : (Client.new p).Throughout P.Owns (before ++ moves))
    (hlasts : (Client.after p before).Throughout Client.Lasts moves)
    (hfollows : (Client.after p before).Throughout (fun c _ => P.Follows c.connection) moves) :
    (Client.after p before).collect P.glimpse? moves =
      P.glimpses (P.quiet (Client.after p before)) (((Client.after p before).beats moves).filter P.minds) := by
  let mine : Nat → Bool := fun n => decide (n ∈ P.calls (Client.new p) (before ++ moves))
  have hnumbers : ∀ done m later, before ++ moves = done ++ m :: later → P.Owns (Client.after p done) m →
      P.Numbers mine (Client.after p done) m := by
    intro done m later he ho
    have hn : P.Numbers (fun n => decide (n ∈ P.calls (Client.new p) (done ++ m :: later))) _ m := numbers_calls ho
    rwa [← he] at hn
  obtain ⟨hbefore, hafter⟩ := Client.throughout_append.1 howns
  have hsuits : P.Suits mine (Client.after p before) := by
    refine suits_run p hbefore fun done m later he ho => ?_
    exact hnumbers done m (later ++ moves) (by rw [he, List.append_assoc, List.cons_append]) ho
  refine (parallel_quiet hsuits).collect_eq (fun done m later he => ?_) hlasts hfollows
  refine hnumbers (before ++ done) m later (by rw [he, List.append_assoc]) ?_
  rw [he, Client.throughout_append] at hafter
  rw [Client.after, Client.run_append]
  exact hafter.2.1

/-- A caller who has asked for a run. -/
def sender : Party := ⟨fun id => decide (id = "c-1"), fun l => decide (l = 1), fun run => decide (run = "r-1")⟩

/-- While the caller follows its run, somebody else asks a query, follows another run and goes away again; texts
arrive that mean nothing, and in the end the gateway closes the connection. -/
def crowdedRun : List Move :=
  [.takeReport 0 "unused", .query 0 "c-2" (.plain "status" .null) (.ofSeconds 5), .subscribe "r-2",
    .takeCommand 0 "unused", .takeCommand 0 "unused", .transmit 1, .poll 0 1, .beginPull 0 1] ++
  arrival (.event "chat" (some ({ eventOf .delta with runId := "r-2" }).encode) none) ++
  arrival (.event "chat" (some (eventOf .delta).encode) none) ++
  [.receive 1 (.text "?"), .takeReport 0 "unused", .pull 0 1, .pull 0 2] ++
  arrival (.event "tick" none none) ++
  arrival (.response "c-2" false none none) ++
  [.poll 0 2, .dropStream 2, .takeCommand 0 "unused", .receive 1 (.close none), .takeReport 0 "unused",
    .beginPull 0 1, .pull 0 1]

-- Most of what the supervisor takes is left out, and the caller learns the same.
theorem glimpses_sender :
    (Client.new localProfile).Throughout sender.Owns (sentRun ++ crowdedRun) ∧
    (Client.after localProfile sentRun).Throughout Client.Lasts crowdedRun ∧
    (Client.after localProfile sentRun).Throughout (fun c _ => sender.Follows c.connection) crowdedRun ∧
    (Client.after localProfile sentRun).collect sender.glimpse? crowdedRun =
      sender.glimpses (sender.quiet (Client.after localProfile sentRun))
        (((Client.after localProfile sentRun).beats crowdedRun).filter sender.minds) ∧
    (Client.after localProfile sentRun).collect sender.glimpse? crowdedRun =
      [.result 1 (some (.ok (.run ⟨"r-1", none⟩ 1))), .pulled 1 (.event (eventOf .delta)), .pulled 1 .ended] ∧
    (((Client.after localProfile sentRun).beats crowdedRun).filter fun b => ! sender.minds b).length = 6 := by
  have hrun : (Client.new localProfile).Throughout sender.Owns (sentRun ++ crowdedRun) ∧
      (Client.after localProfile sentRun).Throughout Client.Lasts crowdedRun ∧
      (Client.after localProfile sentRun).Throughout (fun c _ => sender.Follows c.connection) crowdedRun ∧
      (Client.after localProfile sentRun).collect sender.glimpse? crowdedRun =
        [.result 1 (some (.ok (.run ⟨"r-1", none⟩ 1))), .pulled 1 (.event (eventOf .delta)), .pulled 1 .ended] ∧
      (((Client.after localProfile sentRun).beats crowdedRun).filter fun b => ! sender.minds b).length = 6 := by
    decide +kernel
  obtain ⟨howns, hlasts, hfollows, hresult, hleft⟩ := hrun
  exact ⟨howns, hlasts, hfollows, glimpses_run localProfile sender sentRun crowdedRun howns hlasts hfollows,
    hresult, hleft⟩

end Party

end TurnRelay.Gateway
