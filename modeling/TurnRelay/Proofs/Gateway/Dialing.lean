import TurnRelay.Proofs.Gateway.Phase

/-!
# What becomes of sockets

The task of a socket dials it, reports how that went, hands on what comes in, and reports the end. It looks at its
own socket, and at whether the supervisor is still there; callers and readers look at no socket at all, nor at the
reports. So a socket is reported open at most once, and that only while its attempt waits for it.

## The model

* `Move.deed` — what the task of a socket does in a move.
* `Client.rig` — a client with other sockets and reports.
* `Client.openings` — how often a socket may still be reported open.

## What is proved

* `move_eq_ply` — the task of a socket changes a client as its deed says.
* `move_rig` — the moves of callers and readers neither read nor change sockets and reports.
* `OpensOnce.dialing_of_opened` — when the supervisor takes the report that the socket of the present attempt is
  open, the attempt waits for it.
-/

namespace TurnRelay.Gateway

/-! ### The task of a socket -/

/-- The epoch of the socket whose task makes a move. -/
def Move.epoch? : Move → Option Nat
  | .dial epoch => some epoch
  | .dialed epoch => some epoch
  | .refused epoch _ => some epoch
  | .receive epoch _ => some epoch
  | .fail epoch _ => some epoch
  | .transmit epoch => some epoch
  | _ => none

/-- What the task of a socket does in a move: the state of the socket afterwards, unless it stays as it is, and what
the supervisor is to be told. It depends on the state of the socket before, if it is known, and on whether the
supervisor is there. -/
def Move.deed (isRunning : Bool) (s : Option Socket) : Move → Option Socket × Option Report
  | .dial _ => if s = some .wanted then (some .dialing, none) else (none, none)
  | .dialed _ =>
    if s = some .wanted ∨ s = some .dialing then
      if isRunning then (some (.opened [] false), some .opened) else (some .ended, none)
    else (none, none)
  | .refused _ reason =>
    if s = some .wanted ∨ s = some .dialing then (some .ended, some (.failed reason)) else (none, none)
  | .receive _ x =>
    match s with
    | some (.opened _ _) =>
      match x, x.ending? with
      | _, some reason => (some .ended, some (.closed reason))
      | .text t, none => (none, some (.text t))
      | _, none => (none, none)
    | _ => (none, none)
  | .fail _ reason =>
    if s.any Socket.isOpen then (some .ended, some (.closed reason)) else (none, none)
  | .transmit _ =>
    match s with
    | some (.opened (_ :: queue) isCancelled) => (some (.opened queue isCancelled), none)
    | some (.opened [] true) => (some .ended, some (.closed "closed locally"))
    | _ => (none, none)
  | _ => (none, none)

/-- The sockets once one of them is in another state, if it is. -/
def Sockets.put (ss : Sockets) (epoch : Nat) : Option Socket → Sockets
  | some s => ss.set epoch s
  | none => ss

namespace Client

/-- The client once the task of a socket has put it into a state, and has had something to tell. -/
def ply (c : Client) (epoch : Nat) (x : Option Socket × Option Report) : Client :=
  { c with
    sockets := c.sockets.put epoch x.1
    reports := c.reports ++ if c.isRunning then (x.2.map fun r => (epoch, r)).toList else [] }

variable {c : Client} {m : Move}

theorem ply_none (c : Client) (epoch : Nat) : c.ply epoch (none, none) = c := by
  simp [ply, Sockets.put]

theorem setSocket_eq_ply (c : Client) (epoch : Nat) (s : Socket) :
    c.setSocket epoch s = c.ply epoch (some s, none) := by
  simp [setSocket, ply, Sockets.put]

theorem setSocket_reportOn_eq_ply (c : Client) (epoch : Nat) (s : Socket) (r : Report) :
    (c.setSocket epoch s).reportOn epoch r = c.ply epoch (some s, some r) := by
  cases hr : c.isRunning <;> simp [setSocket, reportOn, ply, Sockets.put, hr]

theorem reportOn_eq_ply (c : Client) (epoch : Nat) (r : Report) :
    c.reportOn epoch r = c.ply epoch (none, some r) := by
  cases hr : c.isRunning with
  | false =>
    simp only [reportOn, ply, Sockets.put, hr, Bool.false_eq_true, if_false, List.append_nil]
    rw [← hr]
  | true => simp [reportOn, ply, Sockets.put, hr]

theorem receive_eq_ply (c : Client) (epoch : Nat) (x : Inbound) : (c.receive epoch x).2 =
    c.ply epoch ((Move.receive epoch x).deed c.isRunning (c.sockets.get? epoch)) := by
  unfold receive
  cases c.sockets.get? epoch with
  | none => exact (ply_none c epoch).symm
  | some s =>
    cases s with
    | opened queue isCancelled =>
      cases x with
      | text t => exact reportOn_eq_ply c epoch _
      | binary payload => exact (ply_none c epoch).symm
      | ping payload => exact (ply_none c epoch).symm
      | broken => exact setSocket_reportOn_eq_ply c epoch _ _
      | close why =>
        simp only [Move.deed]
        cases (Inbound.close why).ending? with
        | none => exact (ply_none c epoch).symm
        | some reason => exact setSocket_reportOn_eq_ply c epoch _ _
    | _ => exact (ply_none c epoch).symm

theorem transmit_eq_ply (c : Client) (epoch : Nat) : ((c.transmit epoch).map (·.2)).getD c =
    c.ply epoch ((Move.transmit epoch).deed c.isRunning (c.sockets.get? epoch)) := by
  unfold transmit
  cases c.sockets.get? epoch with
  | none => exact (ply_none c epoch).symm
  | some s =>
    cases s with
    | opened queue isCancelled =>
      cases queue with
      | cons f queue => exact setSocket_eq_ply c epoch _
      | nil =>
        cases isCancelled with
        | true => exact setSocket_reportOn_eq_ply c epoch _ _
        | false => exact (ply_none c epoch).symm
    | _ => exact (ply_none c epoch).symm

/-- **The task of a socket changes a client as its deed says.** -/
theorem move_eq_ply {epoch : Nat} (h : m.epoch? = some epoch) :
    c.move m = c.ply epoch (m.deed c.isRunning (c.sockets.get? epoch)) := by
  cases m with
  | dial =>
    cases h
    simp only [move, Move.deed]
    split
    · exact setSocket_eq_ply c epoch _
    · exact (ply_none c epoch).symm
  | dialed =>
    cases h
    simp only [move, Move.deed, isDialing, dialed, decide_eq_true_eq]
    split
    · split
      · exact setSocket_reportOn_eq_ply c epoch _ _
      · exact setSocket_eq_ply c epoch _
    · exact (ply_none c epoch).symm
  | refused _ reason =>
    cases h
    simp only [move, Move.deed, isDialing, refused, decide_eq_true_eq]
    split
    · exact setSocket_reportOn_eq_ply c epoch _ _
    · exact (ply_none c epoch).symm
  | receive _ x =>
    cases h
    exact receive_eq_ply c epoch x
  | fail _ reason =>
    cases h
    simp only [move, Move.deed]
    by_cases ho : c.sockets.isOpen epoch = true
    · have ho' : (c.sockets.get? epoch).any Socket.isOpen = true := ho
      rw [if_pos ho, if_pos ho']
      exact setSocket_reportOn_eq_ply c epoch _ _
    · have ho' : ¬ (c.sockets.get? epoch).any Socket.isOpen = true := ho
      rw [if_neg ho, if_neg ho']
      exact (ply_none c epoch).symm
  | transmit =>
    cases h
    exact transmit_eq_ply c epoch
  | _ => cases h

end Client

/-! ### The moves of callers and readers -/

namespace Client

variable {c : Client} {m : Move}

/-- The client with other sockets and other reports. -/
def rig (c : Client) (ss : Sockets) (rs : List (Nat × Report)) : Client :=
  { c with sockets := ss, reports := rs }

variable (ss : Sockets) (rs : List (Nat × Report))

theorem tell_rig (c : Client) (cmd : Command) : (c.rig ss rs).tell cmd = (c.tell cmd).rig ss rs := by
  rw [tell_eq, tell_eq]
  rfl

theorem begin_rig (c : Client) (cmd : Nat → Command) (call : Call) :
    ((c.rig ss rs).begin cmd call).2 = (c.begin cmd call).2.rig ss rs := by
  simp only [begin, tell_eq]
  rfl

theorem conclude_rig (c : Client) (purpose : Purpose) (a : Answer) :
    ((c.rig ss rs).conclude purpose a).2 = (c.conclude purpose a).2.rig ss rs := by
  cases purpose with
  | run id timeout l =>
    cases a with
    | error f => rfl
    | ok v =>
      simp only [conclude]
      split <;> rfl
  | _ => rfl

theorem expire_rig (c : Client) (purpose : Purpose) :
    ((c.rig ss rs).expire purpose).2 = (c.expire purpose).2.rig ss rs := by
  cases purpose with
  | connection => rfl
  | shutdown => rfl
  | query => exact tell_rig ss rs _ _
  | run id timeout l => exact tell_rig ss rs { c with boxes := c.boxes.erase l } _

theorem poll_rig (c : Client) (now n : Nat) :
    ((c.rig ss rs).poll now n).2 = (c.poll now n).2.rig ss rs := by
  have hcalls : (c.rig ss rs).calls = c.calls := rfl
  have hask : (c.rig ss rs).tickets.ask n ((c.rig ss rs).holdsTicket n) = c.tickets.ask n (c.holdsTicket n) := rfl
  unfold poll
  rw [hcalls, hask]
  cases c.calls.get? n with
  | none => rfl
  | some call =>
    dsimp only
    cases (c.tickets.ask n (c.holdsTicket n)).1 with
    | answer a => exact conclude_rig ss rs (c.endCall n) call.purpose a
    | lost => exact conclude_rig ss rs (c.endCall n) call.purpose (.error .destroyed)
    | nothing =>
      dsimp only
      split
      · exact expire_rig ss rs (c.endCall n) call.purpose
      · rfl

theorem abandon_rig (c : Client) (n : Nat) : (c.rig ss rs).abandon n = (c.abandon n).rig ss rs := by
  have hcalls : (c.rig ss rs).calls = c.calls := rfl
  unfold abandon
  rw [hcalls]
  split <;> rfl

theorem subscribe_rig (c : Client) (run : String) :
    ((c.rig ss rs).subscribe run).2 = (c.subscribe run).2.rig ss rs := by
  have hrun : (c.rig ss rs).isRunning = c.isRunning := rfl
  simp only [subscribe, tell_eq, hrun]
  split <;> rfl

theorem pull_rig (c : Client) (now stream : Nat) :
    ((c.rig ss rs).pull now stream).2 = (c.pull now stream).2.rig ss rs := by
  have hstreams : (c.rig ss rs).streams = c.streams := rfl
  have hboxes : (c.rig ss rs).boxes = c.boxes := rfl
  have hfeeds : (c.rig ss rs).feeds stream = c.feeds stream := rfl
  unfold pull
  rw [hstreams, hboxes, hfeeds]
  cases c.streams.get? stream with
  | none => rfl
  | some s =>
    dsimp only
    split
    · rfl
    · split
      · rfl
      · rfl
      · split
        · exact tell_rig ss rs (c.endPull stream true false) _
        · rfl

theorem dropStream_rig (c : Client) (stream : Nat) :
    (c.rig ss rs).dropStream stream = (c.dropStream stream).rig ss rs := by
  have hstreams : (c.rig ss rs).streams = c.streams := rfl
  unfold dropStream
  rw [hstreams]
  cases c.streams.get? stream with
  | none => rfl
  | some s =>
    simp only [unlisten, tell_eq]
    cases s.sawTerminal <;> rfl

theorem move_rig (hm : m.epoch? = none) (h : c.cue? m = none) (h' : (c.rig ss rs).cue? m = none) :
    (c.rig ss rs).move m = (c.move m).rig ss rs := by
  cases m with
  | share => rfl
  | letGo => rfl
  | connect now => exact begin_rig ss rs c _ _
  | query now id q timeout => exact begin_rig ss rs c _ _
  | send now id params => exact begin_rig ss rs { c with nextListener := _, boxes := _ } _ _
  | destroy => exact begin_rig ss rs c _ _
  | poll now n => exact poll_rig ss rs c now n
  | abandon n =>
    have hcalls : (c.rig ss rs).calls = c.calls := rfl
    simp only [move, hcalls, abandon_rig]
    split <;> rfl
  | subscribe run => exact subscribe_rig ss rs c run
  | beginPull now stream => rfl
  | leavePull stream => rfl
  | pull now stream => exact pull_rig ss rs c now stream
  | dropStream stream => exact dropStream_rig ss rs c stream
  | takeCommand now freshId => rw [takeCommand_of_idle h, takeCommand_of_idle h']
  | takeReport now freshId => rw [takeReport_of_idle h, takeReport_of_idle h']
  | takeAlarm now freshId => rw [takeAlarm_of_idle h, takeAlarm_of_idle h']
  | _ => cases hm

end Client

/-! ### A socket is opened once -/

namespace Socket

theorem isOpen_enqueue (f : Wire.Frame) (s : Socket) : (s.enqueue f).isOpen = s.isOpen := by
  cases s <;> rfl

theorem isOpen_cancel (s : Socket) : s.cancel.isOpen = s.isOpen := by
  cases s <;> rfl

theorem enqueue_eq_self {f : Wire.Frame} {s : Socket} (h : s.isOpen = false) : s.enqueue f = s := by
  cases s <;> first | rfl | cases h

theorem cancel_eq_self {s : Socket} (h : s.isOpen = false) : s.cancel = s := by
  cases s <;> first | rfl | cases h

end Socket

/-- A change to open sockets leaves the others alone. -/
theorem Sockets.get?_of_modify {ss : Sockets} {epoch epoch' : Nat} {s : Socket} {f : Socket → Socket}
    (hf : ∀ s, (f s).isOpen = s.isOpen) (hself : ∀ s : Socket, s.isOpen = false → f s = s)
    (hs : s.isOpen = false) (h : (Table.modify ss epoch' f).get? epoch = some s) :
    ss.get? epoch = some s := by
  rw [Table.get?_modify] at h
  split at h
  · rename_i he
    subst he
    obtain ⟨s', hs', rfl⟩ := Option.map_eq_some_iff.1 h
    rw [hself s' (hf s' ▸ hs)]
    exact hs'
  · exact h

/-- Effects dial sockets as they say, and otherwise change only open ones. -/
theorem get?_of_onSockets {es : List Effect} {ss : Sockets} {epoch : Nat} {s : Socket}
    (hs : s.isOpen = false) (h : (es.foldl Effect.onSockets ss).get? epoch = some s) :
    ss.get? epoch = some s ∨ .dial epoch ∈ es := by
  induction es generalizing ss with
  | nil => exact .inl h
  | cons e es ih =>
    obtain h | h := ih h
    · cases e with
      | dial epoch' =>
        rw [Effect.onSockets, Table.get?_set] at h
        split at h
        · rename_i he
          exact .inr (he ▸ List.mem_cons_self)
        · exact .inl h
      | send epoch' f =>
        exact .inl (Sockets.get?_of_modify (Socket.isOpen_enqueue f) (fun _ => Socket.enqueue_eq_self) hs h)
      | close epoch' =>
        exact .inl (Sockets.get?_of_modify Socket.isOpen_cancel (fun _ => Socket.cancel_eq_self) hs h)
      | answer n a => exact .inl h
      | deliver box e => exact .inl h
    · exact .inr (List.mem_cons_of_mem _ h)

namespace Client

variable {c c' : Client} {m : Move} {x : Cue} {epoch : Nat}

/-- How often a socket may still be reported open: it is being dialed, or the report is on its way. -/
def openings (c : Client) (epoch : Nat) : Nat :=
  (if c.isDialing epoch then 1 else 0) + c.reports.count (epoch, .opened)

/-- The socket of the present attempt may be reported open once, while the attempt waits for it, and not
otherwise. -/
def OpensOnce (c : Client) : Prop :=
  c.openings c.connection.epoch ≤ if c.connection.phase = .connecting .dialing then 1 else 0

/-- A socket that is not known is not reported open. -/
theorem Sound.openings_eq_zero (h : c.Sound) (he : c.connection.epoch < epoch) : c.openings epoch = 0 := by
  have hd : c.isDialing epoch = false := by
    by_contra hd
    have := (h.sockets epoch (isSome_of_isDialing (by simpa using hd))).1
    omega
  have hr : c.reports.count (epoch, .opened) = 0 := by
    refine List.count_eq_zero.2 fun hm => ?_
    have := (h.reports _ hm).1
    simp only at this
    omega
  simp [openings, hd, hr]

/-- The state into which its task puts a socket. -/
theorem state_of_deed {isRunning : Bool} {s : Option Socket} {s' : Socket}
    (h : (m.deed isRunning s).1 = some s') :
    s'.isOpen = true ∨ s' = .ended ∨ s = some .wanted ∧ s' = .dialing := by
  cases m with
  | dial =>
    simp only [Move.deed] at h
    split at h
    · rename_i hs
      cases h
      exact .inr (.inr ⟨hs, rfl⟩)
    · cases h
  | dialed =>
    simp only [Move.deed] at h
    split at h
    · split at h
      · cases h
        exact .inl rfl
      · cases h
        exact .inr (.inl rfl)
    · cases h
  | refused =>
    simp only [Move.deed] at h
    split at h
    · cases h
      exact .inr (.inl rfl)
    · cases h
  | receive _ x =>
    simp only [Move.deed] at h
    split at h
    · split at h
      · cases h
        exact .inr (.inl rfl)
      · cases h
      · cases h
    · cases h
  | fail =>
    simp only [Move.deed] at h
    split at h
    · cases h
      exact .inr (.inl rfl)
    · cases h
  | transmit =>
    simp only [Move.deed] at h
    split at h
    · cases h
      exact .inl rfl
    · cases h
      exact .inr (.inl rfl)
    · cases h
  | _ => cases h

/-- Its task reports a socket open that it has been dialing. -/
theorem opened_of_deed {isRunning : Bool} {s : Option Socket} (h : (m.deed isRunning s).2 = some .opened) :
    (s = some .wanted ∨ s = some .dialing) ∧ (m.deed isRunning s).1 = some (.opened [] false) := by
  cases m with
  | dialed =>
    simp only [Move.deed] at h ⊢
    split at h
    · rename_i hs
      split at h
      · rename_i hr
        exact ⟨hs, by rw [if_pos hs, if_pos hr]⟩
      · cases h
    · cases h
  | dial =>
    simp only [Move.deed] at h
    split at h <;> cases h
  | refused =>
    simp only [Move.deed] at h
    split at h <;> cases h
  | receive =>
    simp only [Move.deed] at h
    split at h
    · split at h <;> cases h
    · cases h
  | fail =>
    simp only [Move.deed] at h
    split at h <;> cases h
  | transmit =>
    simp only [Move.deed] at h
    split at h <;> cases h
  | _ => cases h

theorem isDialing_iff : c.isDialing epoch = true ↔
    c.sockets.get? epoch = some .wanted ∨ c.sockets.get? epoch = some .dialing := by
  simp [isDialing]

theorem isDialing_ply_of_ne {epoch' : Nat} {d : Option Socket × Option Report} (he : epoch' ≠ epoch) :
    (c.ply epoch d).isDialing epoch' = c.isDialing epoch' := by
  obtain ⟨s, r⟩ := d
  cases s with
  | none => rfl
  | some s => simp [isDialing, ply, Sockets.put, Table.get?_set, he]

theorem openings_le_of (hd : c'.isDialing epoch = true → c.isDialing epoch = true)
    (hr : c'.reports.count (epoch, .opened) ≤ c.reports.count (epoch, .opened)) :
    c'.openings epoch ≤ c.openings epoch := by
  unfold openings
  split
  · rename_i hd'
    rw [if_pos (hd hd')]
    omega
  · omega

/-- No task of a socket begins to dial of its own accord. -/
theorem isDialing_of_deed {epoch' : Nat}
    (h : (c.ply epoch (m.deed c.isRunning (c.sockets.get? epoch))).isDialing epoch' = true) :
    c.isDialing epoch' = true := by
  by_cases he : epoch' = epoch
  · subst he
    cases hs : (m.deed c.isRunning (c.sockets.get? epoch')).1 with
    | none => simpa [isDialing, ply, Sockets.put, hs] using h
    | some s =>
      obtain ho | rfl | ⟨hw, -⟩ := state_of_deed hs
      · cases s with
        | opened => simp [isDialing, ply, Sockets.put, hs, Table.get?_set] at h
        | _ => cases ho
      · simp [isDialing, ply, Sockets.put, hs, Table.get?_set] at h
      · exact isDialing_iff.2 (.inl hw)
  · rwa [isDialing_ply_of_ne he] at h

/-- The task of a socket has it reported open no more often than it may. -/
theorem openings_ply_le (c : Client) (m : Move) (epoch epoch' : Nat) :
    (c.ply epoch (m.deed c.isRunning (c.sockets.get? epoch))).openings epoch' ≤ c.openings epoch' := by
  by_cases hr : (m.deed c.isRunning (c.sockets.get? epoch)).2 = some .opened ∧ epoch' = epoch
  · obtain ⟨hr, rfl⟩ := hr
    obtain ⟨hs, hs'⟩ := opened_of_deed hr
    have hbefore : c.isDialing epoch' = true := isDialing_iff.2 hs
    have hafter : (c.ply epoch' (m.deed c.isRunning (c.sockets.get? epoch'))).isDialing epoch' = false := by
      simp [isDialing, ply, Sockets.put, hs', Table.get?_set]
    have hcount : (c.ply epoch' (m.deed c.isRunning (c.sockets.get? epoch'))).reports.count
        (epoch', .opened) ≤ c.reports.count (epoch', .opened) + 1 := by
      simp only [ply, List.count_append, hr]
      split <;> simp
    unfold openings
    rw [hafter, hbefore]
    simp only [Bool.false_eq_true, if_false, if_true]
    omega
  · refine openings_le_of isDialing_of_deed (Nat.le_of_eq ?_)
    simp only [ply, List.count_append, Nat.add_eq_left]
    refine List.count_eq_zero.2 fun hm => hr ?_
    split at hm
    · obtain ⟨r', hr', he⟩ := Option.map_eq_some_iff.1 (Option.mem_toList.1 hm)
      cases he
      exact ⟨hr', rfl⟩
    · cases hm

/-- The supervisor has a socket dialed only when it says so. -/
theorem isDialing_of_handle (hd : (c.handle x).isDialing epoch = true) :
    c.isDialing epoch = true ∨ .dial epoch ∈ (c.outcome x).2 := by
  rw [handle_eq, isDialing_iff] at hd
  obtain hd | hd := hd
  · exact (get?_of_onSockets rfl hd).imp_left fun h => isDialing_iff.2 (.inl h)
  · exact (get?_of_onSockets rfl hd).imp_left fun h => isDialing_iff.2 (.inr h)

/-- What the supervisor takes is the first report. -/
theorem reports_of_cue? {r : Report} (h : c.cue? m = some x) (hi : x.input = .report epoch r) :
    c.reports = (epoch, r) :: c.reportsAfter x.input := by
  have hr := isRunning_of_cue? h
  cases m with
  | takeReport now freshId =>
    simp only [cue?, hr, if_true, Option.map_eq_some_iff] at h
    obtain ⟨y, hy, rfl⟩ := h
    cases hi
    simp only [reportsAfter, Input.isLast, Bool.false_eq_true, if_false]
    obtain ⟨rest, hrest⟩ := List.head?_eq_some_iff.1 hy
    rw [hrest]
    rfl
  | takeCommand now freshId =>
    simp only [cue?, hr, if_true] at h
    split at h
    · cases h
      cases hi
    · split at h
      · cases h
      · cases h
        cases hi
  | takeAlarm now freshId =>
    simp only [cue?, hr, if_true, Option.map_eq_some_iff] at h
    obtain ⟨a, ha, rfl⟩ := h
    cases hi
  | _ => cases h

/-- The supervisor has a socket reported open once more at most, and that only if it has it dialed. -/
theorem openings_handle_le (hd : .dial epoch ∉ (c.outcome x).2) :
    (c.handle x).openings epoch ≤ c.openings epoch := by
  refine openings_le_of (fun h => (isDialing_of_handle h).resolve_right hd) ?_
  rw [handle_eq]
  exact (reportsAfter_suffix _ _).sublist.count_le _

/-- Once the supervisor has been told that a socket is open, it is told so less often. -/
theorem openings_handle_lt (hx : c.cue? m = some x) (hi : x.input = .report epoch .opened)
    (hd : .dial epoch ∉ (c.outcome x).2) : (c.handle x).openings epoch < c.openings epoch := by
  have hcount : c.reports.count (epoch, .opened) =
      (c.handle x).reports.count (epoch, .opened) + 1 := by
    rw [reports_of_cue? hx hi, List.count_cons_self, handle_eq]
  have hdialing : (c.handle x).isDialing epoch = true → c.isDialing epoch = true :=
    fun h => (isDialing_of_handle h).resolve_right hd
  unfold openings
  rw [hcount]
  split
  · rename_i h
    rw [if_pos (hdialing h)]
    omega
  · omega

/-- A socket that is not known may be reported open once at most. -/
theorem openings_handle_le_one (h : c.Sound) (he : c.connection.epoch < epoch) :
    (c.handle x).openings epoch ≤ 1 := by
  have hzero := h.openings_eq_zero he
  have hcount : (c.handle x).reports.count (epoch, .opened) ≤ c.reports.count (epoch, .opened) := by
    rw [handle_eq]
    exact (reportsAfter_suffix _ _).sublist.count_le _
  simp only [openings, Nat.add_eq_zero_iff] at hzero ⊢
  split <;> omega

theorem opensOnce_new (p : Profile) : (Client.new p).OpensOnce := Nat.zero_le _

/-- The supervisor keeps it so that a socket is reported open once. -/
theorem OpensOnce.handle (h : c.OpensOnce) (hs : c.Sound) (hx : c.cue? m = some x) :
    (c.handle x).OpensOnce := by
  have ha := hs.acts hx
  have hconn : (c.handle x).connection = (c.outcome x).1 := by rw [handle_eq]
  have hle : ∀ {epoch}, .dial epoch ∉ (c.outcome x).2 →
      (c.handle x).openings epoch ≤ c.openings epoch := openings_handle_le
  have hlt : x.input = .report c.connection.epoch .opened →
      .dial c.connection.epoch ∉ (c.outcome x).2 →
      (c.handle x).openings c.connection.epoch < c.openings c.connection.epoch := openings_handle_lt hx
  have hnext : .dial (c.connection.epoch + 1) ∉ (c.outcome x).2 →
      (c.handle x).openings (c.connection.epoch + 1) ≤ 0 := by
    intro hd
    exact hs.openings_eq_zero (Nat.lt_succ_self _) ▸ hle hd
  unfold OpensOnce at h ⊢
  rw [hconn]
  generalize (c.outcome x).1 = connection, (c.outcome x).2 = es at ha hle hlt hnext
  generalize hi : x.input = i at ha
  cases ha with
  | attempts =>
    rw [if_pos rfl]
    exact openings_handle_le_one hs (Nat.lt_succ_self _)
  | opens =>
    have hlt := hlt hi (by simp)
    have hone : c.openings c.connection.epoch ≤ 1 := by
      split at h <;> omega
    simp only
    omega
  | greets ht hp =>
    rw [if_neg (by simp [hp])] at h
    exact Nat.le_trans (Nat.le_trans (hle (by simp)) h) (Nat.zero_le _)
  | enters ht hp =>
    rw [if_neg (by simp [hp])] at h
    exact Nat.le_trans (Nat.le_trans (hle (by simp)) h) (Nat.zero_le _)
  | ends => exact Nat.le_trans (hnext (by simp [Connection.farewells])) (Nat.zero_le _)
  | destroys => exact Nat.le_trans (hnext (by simp [Connection.farewells])) (Nat.zero_le _)
  | deserts => exact Nat.le_trans (hnext (by simp [Connection.farewells])) (Nat.zero_le _)
  | _ => exact Nat.le_trans (hle (by simp)) h

/-- Every move keeps it so that a socket is reported open once. -/
theorem OpensOnce.move (h : c.OpensOnce) (hs : c.Sound) (m : Move) : (c.move m).OpensOnce := by
  cases hx : c.cue? m with
  | some x =>
    rw [move_of_cue? hx]
    exact h.handle hs hx
  | none =>
    have hle : (c.move m).openings c.connection.epoch ≤ c.openings c.connection.epoch := by
      cases he : m.epoch? with
      | some epoch =>
        rw [move_eq_ply he]
        exact openings_ply_le c m epoch _
      | none =>
        -- the move neither reads nor changes sockets and reports
        have hrig := move_rig c.sockets c.reports he hx hx
        change c.move m = _ at hrig
        rw [hrig]
        exact Nat.le_refl _
    unfold OpensOnce
    rw [connection_of_idle hx]
    exact Nat.le_trans hle h

theorem opensOnce_run (p : Profile) (moves : List Move) : (Client.after p moves).OpensOnce :=
  run_induction (P := fun _ c => c.OpensOnce) (opensOnce_new p)
    (fun moves m h => h.move (sound_run p moves) m) moves

/-- **The socket of the present attempt is reported open while the attempt waits for it**, and not again. -/
theorem OpensOnce.dialing_of_opened (h : c.OpensOnce) (hx : c.cue? m = some x)
    (hi : x.input = .report c.connection.epoch .opened) : c.connection.phase = .connecting .dialing := by
  by_contra hp
  have hpos : 0 < c.reports.count (c.connection.epoch, .opened) := by
    rw [reports_of_cue? hx hi, List.count_cons_self]
    exact Nat.succ_pos _
  rw [OpensOnce, if_neg hp, openings] at h
  omega

end Client

end TurnRelay.Gateway
