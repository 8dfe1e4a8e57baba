import TurnRelay.Proofs.Gateway.Following
import TurnRelay.Proofs.Gateway.Register

/-!
# What listeners are given

The audience by itself: listeners come and are let go, events of runs are given out, everybody is sent away, and all
the while the readers look into their mailboxes, close them or throw them away. Whatever the order, a listener is
given the events of its run that come while it is there, each once and in their order, up to the first terminal one.
It is there from when it is let in until it is let go, another takes its place, all are sent away, or its mailbox is
closed.

## The model

* `Hall` — the audience, written down in both ways, and the mailboxes, each of one listener.
* `Deed`, `Hall.step`, `Hall.run` — what can be done, and what becomes of a hall.
* `Hall.gives`, `Hall.reads` — what a deed puts into a mailbox and takes out of it.
* `Hall.stretch`, `dispatched` — the deeds for as long as a listener is there, and the events of its run among them.

## What is proved

* `Sound.step` — every mailbox is one listener's, and the register shows the audience.
* `Seated.step_iff`, `Unseated.step` — what a deed means for one listener.
* `Seated.given`, `taken` — what comes into a mailbox, and what is taken out of it.
* `lawful_run` — the law of the audience, in every history.
-/

namespace TurnRelay.Gateway

open TurnRelay.Wire

/-! ### Deeds -/

/-- An audience, and the mailboxes of its listeners. -/
structure Hall where
  /-- The audience. -/
  audience : Audience
  /-- The same, run by run. -/
  register : Register
  /-- The mailboxes. -/
  boxes : Mailboxes
  /-- The mailboxes of listeners who have not come yet. -/
  held : List Nat
  /-- The number of the next mailbox. -/
  next : Nat

/-- What can be done. -/
inductive Deed where
  /-- A listener gets ready: there is a new mailbox. -/
  | prepare
  /-- The listener with a mailbox comes, to follow a run under a number. -/
  | add (run : String) (id box : Nat)
  /-- The listener of a run and a number is let go. -/
  | remove (run : String) (id : Nat)
  /-- A run has gone on. -/
  | dispatch (e : RunEvent)
  /-- All are sent away. -/
  | clear
  /-- A reader looks into its mailbox. -/
  | read (box : Nat)
  /-- A reader closes its mailbox. -/
  | close (box : Nat)
  /-- A reader throws its mailbox away. -/
  | drop (box : Nat)
  deriving DecidableEq

/-- The event that a reader gets. -/
def Mail.event? : Mail → Option RunEvent
  | .event e => some e
  | _ => none

namespace Hall

/-- Nobody has come. -/
def empty : Hall := ⟨.empty, .empty, .empty, [], 0⟩

/-- What becomes of a hall. A listener comes once, if at all. -/
def step (h : Hall) : Deed → Hall
  | .prepare => { h with boxes := h.boxes.set h.next .new, held := h.next :: h.held, next := h.next + 1 }
  | .add run id box =>
    if box ∈ h.held then
      { h with
        audience := (h.audience.add h.boxes.accepts run ⟨id, box⟩).2
        register := (h.register.add h.boxes.accepts run ⟨id, box⟩).2
        held := h.held.filter (· ≠ box) }
    else h
  | .remove run id =>
    { h with audience := (h.audience.remove run id).2, register := (h.register.remove run id).2 }
  | .dispatch e =>
    { h with
      audience := (h.audience.dispatch h.boxes.accepts e).2
      register := (h.register.dispatch h.boxes.accepts e).2
      boxes := ((h.audience.dispatch h.boxes.accepts e).1.map fun box => .deliver box e).foldl Effect.onBoxes
        h.boxes }
  | .clear => { h with audience := .empty, register := .empty }
  | .read box => { h with boxes := h.boxes.modify box fun b => (b.take (h.audience.holds box)).2 }
  | .close box => { h with boxes := h.boxes.modify box (·.close) }
  | .drop box => { h with boxes := h.boxes.erase box }

/-- One deed after the other. -/
def run (h : Hall) (ds : List Deed) : Hall := ds.foldl step h

/-- What a deed puts into a mailbox. -/
def gives (box : Nat) (h : Hall) : Deed → List RunEvent
  | .dispatch e => List.replicate ((h.audience.dispatch h.boxes.accepts e).1.count box) e
  | _ => []

/-- What a reader takes out of its mailbox. -/
def reads (box : Nat) (h : Hall) : Deed → List RunEvent
  | .read k =>
    if k = box then ((h.boxes.get? k).bind fun b => (b.take (h.audience.holds k)).1.event?).toList else []
  | _ => []

/-- What deeds put into a mailbox, or take out of it, one after the other. -/
def gather (f : Hall → Deed → List RunEvent) (h : Hall) : List Deed → List RunEvent
  | [] => []
  | d :: ds => f h d ++ (h.step d).gather f ds

/-- Whether a deed lets the listener of a run and a number go, or closes its mailbox. -/
def unseats (h : Hall) (run : String) (id box : Nat) : Deed → Bool
  | .add run' id' k => decide (run' = run ∧ id' = id ∧ k ∈ h.held) && h.boxes.accepts k
  | .remove run' id' => decide (run' = run ∧ id' = id)
  | .clear => true
  | .close k => decide (k = box)
  | .drop k => decide (k = box)
  | _ => false

/-- The deeds for as long as the listener is there. -/
def stretch (run : String) (id box : Nat) (h : Hall) : List Deed → List Deed
  | [] => []
  | d :: ds => if h.unseats run id box d then [] else d :: (h.step d).stretch run id box ds

end Hall

/-- The event of the run that a deed gives out. -/
def Deed.event? (run : String) : Deed → Option RunEvent
  | .dispatch e => if e.runId = run then some e else none
  | _ => none

/-- The events of the run that are given out. -/
def dispatched (run : String) (ds : List Deed) : List RunEvent := ds.filterMap (·.event? run)

namespace Hall

variable {h : Hall} {d : Deed} {ds : List Deed} {run : String} {id box : Nat} {m : String × Listener}

@[simp] theorem run_nil (h : Hall) : h.run [] = h := rfl

@[simp] theorem run_cons (h : Hall) (d : Deed) (ds : List Deed) : h.run (d :: ds) = (h.step d).run ds := rfl

theorem run_append (h : Hall) (ds ds' : List Deed) : h.run (ds ++ ds') = (h.run ds).run ds' :=
  List.foldl_append

theorem gather_append (f : Hall → Deed → List RunEvent) (h : Hall) (ds ds' : List Deed) :
    h.gather f (ds ++ ds') = h.gather f ds ++ (h.run ds).gather f ds' := by
  induction ds generalizing h with
  | nil => rfl
  | cons d ds ih =>
    rw [List.cons_append, gather, gather, ih, List.append_assoc]
    rfl

theorem gather_concat (f : Hall → Deed → List RunEvent) (h : Hall) (ds : List Deed) (d : Deed) :
    h.gather f (ds ++ [d]) = h.gather f ds ++ f (h.run ds) d := by
  rw [gather_append, gather, gather, List.append_nil]

/-! ### What a deed changes -/

/-- Mailboxes have one number after the other. -/
theorem next_le_step (h : Hall) (d : Deed) : h.next ≤ (h.step d).next := by
  cases d with
  | prepare => exact Nat.le_succ _
  | add run id box =>
    simp only [step]
    split <;> exact Nat.le_refl _
  | _ => exact Nat.le_refl _

/-- The listener of a mailbox comes once. -/
theorem mem_held_of_step (hbox : box ∈ (h.step d).held) : box ∈ h.held ∨ d = .prepare ∧ box = h.next := by
  cases d with
  | prepare =>
    obtain rfl | hbox := List.mem_cons.1 hbox
    · exact .inr ⟨rfl, rfl⟩
    · exact .inl hbox
  | add run id k =>
    simp only [step] at hbox
    split at hbox
    · exact .inl (List.mem_filter.1 hbox).1
    · exact .inl hbox
  | _ => exact .inl hbox

theorem not_mem_held_step (hlt : box < h.next) (hnot : box ∉ h.held) : box ∉ (h.step d).held := by
  intro hheld
  obtain hheld | ⟨-, he⟩ := mem_held_of_step hheld
  · exact hnot hheld
  · exact absurd he (Nat.ne_of_lt hlt)

/-- Nobody is in the audience after a deed who was not there before, but one who comes. -/
theorem members_step (h : Hall) (d : Deed) :
    (h.step d).audience.members.Sublist h.audience.members ∨
      ∃ run id box, d = .add run id box ∧ box ∈ h.held ∧
        (h.step d).held = h.held.filter (· ≠ box) ∧
        (h.step d).audience.members = (h.audience.without run id).members ++ [(run, ⟨id, box⟩)] := by
  cases d with
  | add run id box =>
    by_cases hheld : box ∈ h.held
    · cases hopen : h.boxes.accepts box with
      | true => exact .inr ⟨run, id, box, rfl, hheld, by simp [step, hheld], by simp [step, hheld, Audience.add, hopen]⟩
      | false =>
        refine .inl ?_
        simp only [step, if_pos hheld, Audience.add, hopen, Bool.false_eq_true, if_false]
        exact List.Sublist.refl _
    · simp only [step, if_neg hheld]
      exact .inl (List.Sublist.refl _)
  | remove run id => exact .inl List.filter_sublist
  | dispatch e =>
    refine .inl ?_
    simp only [step, Audience.dispatch]
    split
    · exact List.filter_sublist.trans List.filter_sublist
    · exact List.filter_sublist
  | clear => exact .inl (List.nil_sublist _)
  | _ => exact .inl (List.Sublist.refl _)

theorem mem_of_step (hm : m ∈ (h.step d).audience.members) :
    m ∈ h.audience.members ∨ m.2.box ∈ h.held ∧ m.2.box ∉ (h.step d).held := by
  obtain hsub | ⟨run, id, box, -, hheld, hafter, he⟩ := members_step h d
  · exact .inl (hsub.subset hm)
  · rw [he, List.mem_append, List.mem_singleton] at hm
    obtain hm | rfl := hm
    · exact .inl (List.mem_filter.1 hm).1
    · exact .inr ⟨hheld, by simp [hafter]⟩

/-! ### Open mailboxes -/

/-- What leaves every mailbox open or closed leaves all of them so. -/
theorem isOpen_modify (bs : Mailboxes) (k box : Nat) {f : Mailbox → Mailbox} (hf : ∀ b, (f b).isOpen = b.isOpen) :
    ((bs.modify k f).get? box).map (·.isOpen) = (bs.get? box).map (·.isOpen) := by
  rw [Table.get?_modify]
  split
  · rename_i hk
    rw [hk, Option.map_map]
    exact congrArg (fun g => (bs.get? k).map g) (funext hf)
  · rfl

theorem isOpen_onBoxes (e : RunEvent) (ks : List Nat) (bs : Mailboxes) (box : Nat) :
    (((ks.map fun k => .deliver k e).foldl Effect.onBoxes bs).get? box).map (·.isOpen) =
      (bs.get? box).map (·.isOpen) := by
  obtain ⟨es, hes, -⟩ := exists_get?_onBoxes e ks bs box
  rw [hes, Option.map_map]
  rfl

/-- A mailbox is closed or thrown away by its reader only. -/
theorem isOpen_step (hbox : d = .prepare → box ≠ h.next) :
    ((h.step d).boxes.get? box).map (·.isOpen) =
      if d = .drop box then none
      else if d = .close box then (h.boxes.get? box).map fun _ => false
      else (h.boxes.get? box).map (·.isOpen) := by
  cases d with
  | prepare => simp [step, h.boxes.get?_set_of_ne _ (hbox rfl)]
  | add run id k =>
    simp only [step]
    split <;> simp
  | dispatch e => simpa [step] using isOpen_onBoxes e _ h.boxes box
  | read k =>
    have hread := isOpen_modify h.boxes k box (f := fun b => (b.take (h.audience.holds k)).2) fun b => by
      unfold Mailbox.take
      split <;> rfl
    simpa [step] using hread
  | close k =>
    by_cases hk : box = k
    · subst hk
      simp [step, Table.get?_modify, Mailbox.close, Function.comp_def]
    · simp [step, Table.get?_modify, hk, Ne.symm hk]
  | drop k =>
    by_cases hk : box = k
    · subst hk
      simp [step, Table.get?_erase]
    · simp [step, Table.get?_erase, hk, Ne.symm hk]
  | _ => simp [step]

theorem accepts_eq (bs : Mailboxes) (box : Nat) :
    bs.accepts box = ((bs.get? box).map (·.isOpen)).getD false := by
  unfold Mailboxes.accepts
  cases bs.get? box <;> rfl

theorem accepts_step (hbox : d = .prepare → box ≠ h.next) : (h.step d).boxes.accepts box =
    (h.boxes.accepts box && decide (d ≠ .close box ∧ d ≠ .drop box)) := by
  rw [accepts_eq, accepts_eq, isOpen_step hbox]
  by_cases hdrop : d = .drop box
  · simp [hdrop]
  · by_cases hclose : d = .close box
    · cases h.boxes.get? box <;> simp [hclose]
    · simp [hdrop, hclose]

/-- A mailbox takes events until it is closed or thrown away. -/
theorem accepts_run_iff (hbox : box < h.next) (ds : List Deed) : (h.run ds).boxes.accepts box = true ↔
    h.boxes.accepts box = true ∧ .close box ∉ ds ∧ .drop box ∉ ds := by
  induction ds generalizing h with
  | nil => simp
  | cons d ds ih =>
    rw [run_cons, ih (Nat.lt_of_lt_of_le hbox (h.next_le_step d)), accepts_step fun _ => Nat.ne_of_lt hbox,
      Bool.and_eq_true, decide_eq_true_eq, List.mem_cons, List.mem_cons, not_or, not_or]
    constructor
    · rintro ⟨⟨hopen, hclose, hdrop⟩, hcloses, hdrops⟩
      exact ⟨hopen, ⟨Ne.symm hclose, hcloses⟩, Ne.symm hdrop, hdrops⟩
    · rintro ⟨hopen, ⟨hclose, hcloses⟩, hdrop, hdrops⟩
      exact ⟨⟨hopen, Ne.symm hclose, Ne.symm hdrop⟩, hcloses, hdrops⟩

/-- Mailboxes are made by getting ready only. -/
theorem get?_step_of_none (hbox : d = .prepare → box ≠ h.next) (hnone : h.boxes.get? box = none) :
    (h.step d).boxes.get? box = none := by
  have hmap := isOpen_step hbox
  simpa [hnone] using hmap

/-! ### Every mailbox is one listener's -/

/-- **Every mailbox is one listener's**, and the register shows the audience. -/
structure Sound (h : Hall) : Prop where
  /-- Mailboxes to come are not there. -/
  boxes : ∀ box, h.next ≤ box → h.boxes.get? box = none
  /-- Those of listeners who have not come are. -/
  held : ∀ box ∈ h.held, box < h.next
  /-- Who is in the audience has come. -/
  members : ∀ m ∈ h.audience.members, m.2.box < h.next ∧ m.2.box ∉ h.held
  /-- No two have the same mailbox. -/
  apart : (h.audience.members.map (·.2.box)).Nodup
  /-- The register. -/
  lists : h.register.Lists h.audience

theorem sound_empty : empty.Sound where
  boxes _ _ := rfl
  held _ hbox := by cases hbox
  members _ hm := by cases hm
  apart := List.nodup_nil
  lists := Register.lists_empty

/-- The register goes with the audience. -/
theorem lists_step (hlists : h.register.Lists h.audience) (d : Deed) :
    (h.step d).register.Lists (h.step d).audience := by
  cases d with
  | add run id box =>
    simp only [step]
    split
    · exact (hlists.add h.boxes.accepts run ⟨id, box⟩).2
    · exact hlists
  | remove run id => exact (hlists.remove run id).2
  | dispatch e => exact (hlists.dispatch h.boxes.accepts e).2
  | clear => exact Register.lists_empty
  | _ => exact hlists

/-- **Every deed keeps the mailboxes apart**, and the register with the audience. -/
theorem Sound.step (hs : h.Sound) (d : Deed) : (h.step d).Sound where
  boxes box hbox := by
    refine get?_step_of_none (fun hd he => ?_) (hs.boxes box (Nat.le_trans (h.next_le_step d) hbox))
    subst hd he
    exact absurd hbox (Nat.not_succ_le_self _)
  held box hbox := by
    obtain hbox | ⟨rfl, rfl⟩ := mem_held_of_step hbox
    · exact Nat.lt_of_lt_of_le (hs.held box hbox) (h.next_le_step d)
    · exact Nat.lt_succ_self _
  members m hm := by
    obtain hm | ⟨hheld, hnot⟩ := mem_of_step hm
    · obtain ⟨hlt, hnot⟩ := hs.members m hm
      exact ⟨Nat.lt_of_lt_of_le hlt (h.next_le_step d), not_mem_held_step hlt hnot⟩
    · exact ⟨Nat.lt_of_lt_of_le (hs.held _ hheld) (h.next_le_step d), hnot⟩
  apart := by
    obtain hsub | ⟨run, id, box, -, hheld, -, he⟩ := members_step h d
    · exact hs.apart.sublist (hsub.map _)
    · -- who comes brings a mailbox that nobody has had
      have hold : (h.audience.without run id).members.Sublist h.audience.members := List.filter_sublist
      have hnew : box ∉ (h.audience.without run id).members.map (·.2.box) := by
        intro hmem
        obtain ⟨m, hm, rfl⟩ := List.mem_map.1 hmem
        exact (hs.members m (hold.subset hm)).2 hheld
      rw [he, List.map_append]
      exact List.perm_append_comm.nodup_iff.1 (List.nodup_cons.2 ⟨hnew, hs.apart.sublist (hold.map _)⟩)
  lists := lists_step hs.lists d

theorem Sound.after (hs : h.Sound) (ds : List Deed) : (h.run ds).Sound := by
  induction ds generalizing h with
  | nil => exact hs
  | cons d ds ih => exact ih (hs.step d)

/-- The mailbox tells the listener. -/
theorem Sound.eq_of_box {m' : String × Listener} (hs : h.Sound) (hm : m ∈ h.audience.members)
    (hm' : m' ∈ h.audience.members) (hbox : m.2.box = m'.2.box) : m = m' :=
  List.inj_on_of_nodup_map hs.apart hm hm' hbox

/-- An event comes into a mailbox once, or not at all. -/
theorem Sound.nodup_reached (hs : h.Sound) (e : RunEvent) :
    (h.audience.dispatch h.boxes.accepts e).1.Nodup := by
  refine hs.apart.sublist ?_
  simp only [Audience.dispatch]
  exact (List.filter_sublist.trans List.filter_sublist).map _

theorem gives_of_not_mem {e : RunEvent} (hbox : box ∉ (h.audience.dispatch h.boxes.accepts e).1) :
    gives box h (.dispatch e) = [] := by
  rw [gives, List.count_eq_zero.2 hbox]
  rfl

theorem Sound.gives_of_mem {e : RunEvent} (hs : h.Sound)
    (hbox : box ∈ (h.audience.dispatch h.boxes.accepts e).1) : gives box h (.dispatch e) = [e] := by
  rw [gives, List.count_eq_one_of_mem (hs.nodup_reached e) hbox]
  rfl

/-! ### Who has not come, and who has gone -/

/-- The listener with the mailbox has not come yet. -/
def Awaits (h : Hall) (box : Nat) : Prop := h.next ≤ box ∨ box ∈ h.held

theorem awaits_of_step (ha : (h.step d).Awaits box) : h.Awaits box := by
  obtain hnext | hheld := ha
  · exact .inl (Nat.le_trans (h.next_le_step d) hnext)
  · obtain hheld | ⟨-, he⟩ := mem_held_of_step hheld
    · exact .inr hheld
    · exact .inl (Nat.le_of_eq he.symm)

theorem awaits_of_run (ds : List Deed) (ha : (h.run ds).Awaits box) : h.Awaits box := by
  induction ds generalizing h with
  | nil => exact ha
  | cons d ds ih => exact awaits_of_step (ih ha)

theorem Sound.not_mem_of_awaits (hs : h.Sound) (ha : h.Awaits box) :
    ∀ m ∈ h.audience.members, m.2.box ≠ box := by
  rintro m hm rfl
  obtain ⟨hlt, hnot⟩ := hs.members m hm
  obtain hnext | hheld := ha
  · exact absurd hlt (Nat.not_lt.2 hnext)
  · exact hnot hheld

/-- **Before its listener comes nothing is put into a mailbox.** -/
theorem Sound.awaited (hs : h.Sound) (ha : (h.run ds).Awaits box) : h.gather (gives box) ds = [] := by
  induction ds generalizing h with
  | nil => rfl
  | cons d ds ih =>
    have hgives : gives box h d = [] := by
      cases d with
      | dispatch e =>
        refine gives_of_not_mem fun hmem => ?_
        obtain ⟨-, id, hm⟩ := Audience.mem_reached_iff.1 hmem
        exact hs.not_mem_of_awaits (awaits_of_run (.dispatch e :: ds) ha) _ hm rfl
      | _ => rfl
    rw [gather, hgives, ih (hs.step d) ha]
    rfl

/-- The listener with the mailbox has come, and if it is in the audience, it takes nothing. -/
structure Unseated (h : Hall) (box : Nat) : Prop where
  /-- The mailbox was made. -/
  lt : box < h.next
  /-- Its listener has come. -/
  come : box ∉ h.held
  /-- It takes nothing. -/
  shut : ∀ m ∈ h.audience.members, m.2.box = box → h.boxes.accepts box = false

theorem Unseated.gives_eq_nil (hu : h.Unseated box) : gives box h d = [] := by
  cases d with
  | dispatch e =>
    refine gives_of_not_mem fun hmem => ?_
    obtain ⟨hopen, id, hm⟩ := Audience.mem_reached_iff.1 hmem
    rw [hu.shut _ hm rfl] at hopen
    cases hopen
  | _ => rfl

theorem Unseated.step (hu : h.Unseated box) (d : Deed) : (h.step d).Unseated box where
  lt := Nat.lt_of_lt_of_le hu.lt (h.next_le_step d)
  come := not_mem_held_step hu.lt hu.come
  shut m hm hbox := by
    obtain hm | ⟨hheld, -⟩ := mem_of_step hm
    · rw [accepts_step fun _ => Nat.ne_of_lt hu.lt, hu.shut m hm hbox, Bool.false_and]
    · exact absurd (hbox ▸ hheld) hu.come

/-- **After its listener has gone nothing is put into a mailbox.** -/
theorem Unseated.given (hu : h.Unseated box) (ds : List Deed) : h.gather (gives box) ds = [] := by
  induction ds generalizing h with
  | nil => rfl
  | cons d ds ih => rw [gather, hu.gives_eq_nil, ih (hu.step d), List.append_nil]

/-! ### Who is there -/

/-- The listener is in the audience, and its mailbox is open. -/
structure Seated (h : Hall) (run : String) (id box : Nat) : Prop where
  /-- It is there. -/
  mem : (run, ⟨id, box⟩) ∈ h.audience.members
  /-- Its mailbox is open. -/
  accepts : h.boxes.accepts box = true

theorem Unseated.not_seated (hu : h.Unseated box) : ¬ h.Seated run id box := by
  intro hseated
  have hshut := hu.shut _ hseated.mem rfl
  rw [hseated.accepts] at hshut
  cases hshut

/-- A mailbox whose listener does not stay is given nothing any more. -/
theorem Seated.unseated_step (hseated : h.Seated run id box) (hs : h.Sound)
    (hout : ¬ (h.step d).Seated run id box) : (h.step d).Unseated box := by
  obtain ⟨hlt, hnot⟩ := hs.members _ hseated.mem
  refine ⟨Nat.lt_of_lt_of_le hlt (h.next_le_step d), not_mem_held_step hlt hnot, fun m hm hbox => ?_⟩
  obtain hold | ⟨hheld, -⟩ := mem_of_step hm
  · rw [hs.eq_of_box hold hseated.mem hbox] at hm
    exact Bool.eq_false_iff.2 fun hopen => hout ⟨hm, hopen⟩
  · exact absurd (hbox ▸ hheld) hnot

/-- What comes into the mailbox of a listener who is there: the event of its run, if there is one. -/
theorem Seated.gives_eq (hseated : h.Seated run id box) (hs : h.Sound) (d : Deed) :
    gives box h d = (d.event? run).toList := by
  cases d with
  | dispatch e =>
    by_cases hrun : e.runId = run
    · rw [hs.gives_of_mem (Audience.mem_reached_iff.2 ⟨hseated.accepts, id, hrun ▸ hseated.mem⟩)]
      simp [Deed.event?, hrun]
    · have hout : box ∉ (h.audience.dispatch h.boxes.accepts e).1 := by
        intro hmem
        obtain ⟨-, id', hm⟩ := Audience.mem_reached_iff.1 hmem
        exact hrun (congrArg Prod.fst (hs.eq_of_box hm hseated.mem rfl))
      rw [gives_of_not_mem hout]
      simp [Deed.event?, hrun]
  | _ => rfl

/-- **Who stays:** a listener who is neither let go nor shut out, unless its run ends. -/
theorem Seated.step_iff (hseated : h.Seated run id box) (hs : h.Sound) (d : Deed) :
    (h.step d).Seated run id box ↔
      h.unseats run id box d = false ∧ ∀ e, d.event? run = some e → e.state.isTerminal = false := by
  obtain ⟨hm, hopen⟩ := hseated
  have haccepts : (h.step d).boxes.accepts box = decide (d ≠ .close box ∧ d ≠ .drop box) := by
    rw [accepts_step fun _ => Nat.ne_of_lt (hs.members _ hm).1, hopen, Bool.true_and]
  have hsplit : (h.step d).Seated run id box ↔
      (run, ⟨id, box⟩) ∈ (h.step d).audience.members ∧ d ≠ .close box ∧ d ≠ .drop box := by
    constructor
    · rintro ⟨hm, ha⟩
      exact ⟨hm, of_decide_eq_true (haccepts ▸ ha)⟩
    · rintro ⟨hm, ha⟩
      exact ⟨hm, haccepts ▸ decide_eq_true ha⟩
  rw [hsplit]
  cases d with
  | add run' id' k =>
    by_cases hheld : k ∈ h.held
    · have hne : (run, (⟨id, box⟩ : Listener)) ≠ (run', ⟨id', k⟩) := by
        intro he
        cases he
        exact (hs.members _ hm).2 hheld
      simp only [Hall.step, if_pos hheld, Audience.mem_add_iff_of_ne hne, hm, true_and]
      grind [unseats, Deed.event?]
    · simp [Hall.step, unseats, Deed.event?, hheld, hm]
  | remove run' id' =>
    simp only [Hall.step, Audience.mem_remove_iff, hm, true_and]
    simp [unseats, Deed.event?, @eq_comm _ run run', @eq_comm _ id id']
  | dispatch e =>
    simp only [Hall.step, Audience.mem_dispatch_iff, hm, hopen, true_and]
    simp [unseats, Deed.event?, @eq_comm _ run]
  | clear => simp [Hall.step, unseats, Audience.empty]
  | _ => simp [Hall.step, unseats, Deed.event?, hm]

/-- Who lets a listener go gives no event out. -/
theorem event?_of_unseats (hout : h.unseats run id box d = true) : d.event? run = none := by
  cases d with
  | dispatch e => cases hout
  | _ => rfl

theorem dispatched_cons (run : String) (d : Deed) (ds : List Deed) :
    dispatched run (d :: ds) = (d.event? run).toList ++ dispatched run ds := by
  unfold dispatched
  cases hd : d.event? run <;> simp [hd]

/-- **What a listener is given:** the events of its run for as long as it is there, up to the first terminal
one. -/
theorem Seated.given (hseated : h.Seated run id box) (hs : h.Sound) (ds : List Deed) :
    h.gather (gives box) ds = throughTerminal (dispatched run (h.stretch run id box ds)) := by
  induction ds generalizing h with
  | nil => rfl
  | cons d ds ih =>
    -- as long as the listener is there it is given every event of its run; once it is not, nothing more comes
    have hafter := hseated.step_iff hs d
    rw [gather, stretch, hseated.gives_eq hs]
    cases hout : h.unseats run id box d with
    | true =>
      have hgone : (h.step d).Unseated box := hseated.unseated_step hs (by simp [hafter, hout])
      rw [event?_of_unseats hout, hgone.given]
      rfl
    | false =>
      rw [if_neg Bool.false_ne_true, dispatched_cons]
      cases he : d.event? run with
      | none => exact ih (hafter.2 ⟨hout, by simp [he]⟩) (hs.step d)
      | some e =>
        rw [Option.toList_some, List.singleton_append, List.singleton_append, throughTerminal]
        cases ht : e.state.isTerminal with
        | true =>
          have hgone : (h.step d).Unseated box := hseated.unseated_step hs (by simp [hafter, he, ht])
          rw [hgone.given]
          rfl
        | false =>
          rw [ih (hafter.2 ⟨hout, by simpa [he] using ht⟩) (hs.step d)]
          rfl

theorem Unseated.after (hu : h.Unseated box) (ds : List Deed) : (h.run ds).Unseated box := by
  induction ds generalizing h with
  | nil => exact hu
  | cons d ds ih => exact ih (hu.step d)

/-- **How long a listener is there:** until it is let go or its mailbox is closed, and no longer than to a terminal
event. -/
theorem Seated.after_iff (hseated : h.Seated run id box) (hs : h.Sound) (ds : List Deed) :
    (h.run ds).Seated run id box ↔
      h.stretch run id box ds = ds ∧ ∀ e ∈ dispatched run ds, e.state.isTerminal = false := by
  induction ds generalizing h with
  | nil => simpa [stretch, dispatched] using hseated
  | cons d ds ih =>
    have hafter := hseated.step_iff hs d
    rw [run_cons, stretch, dispatched_cons]
    by_cases hstays : (h.step d).Seated run id box
    · obtain ⟨hin, hmore⟩ := hafter.1 hstays
      rw [ih hstays (hs.step d), hin, if_neg Bool.false_ne_true, List.cons.injEq, and_iff_right rfl]
      simp only [List.mem_append, Option.mem_toList]
      refine and_congr_right fun _ => ⟨fun hrest e he => ?_, fun hall e he => hall e (.inr he)⟩
      exact he.elim (hmore e) (hrest e)
    · have hgone : (h.step d).Unseated box := hseated.unseated_step hs hstays
      refine iff_of_false (hgone.after ds).not_seated fun ⟨hwhole, hall⟩ => hstays (hafter.2 ⟨?_, fun e he => ?_⟩)
      · cases hout : h.unseats run id box d with
        | false => rfl
        | true =>
          rw [if_pos hout] at hwhole
          cases hwhole
      · exact hall e (List.mem_append_left _ (Option.mem_toList.2 he))

/-! ### What is taken out -/

/-- A mailbox that is not open is given nothing. -/
theorem gives_of_shut (hshut : h.boxes.accepts box = false) : gives box h d = [] := by
  cases d with
  | dispatch e =>
    refine gives_of_not_mem fun hmem => ?_
    rw [(Audience.mem_reached_iff.1 hmem).1] at hshut
    cases hshut
  | _ => rfl

theorem reads_of_none (hnone : h.boxes.get? box = none) : reads box h d = [] := by
  cases d with
  | read k =>
    simp only [reads]
    split
    · rename_i hk
      rw [hk, hnone]
      rfl
    · rfl
  | _ => rfl

/-- What is in a mailbox that stays: what was in it, without what is taken out and with what is put in. -/
theorem Sound.queue_step (hs : h.Sound) {b b' : Mailbox} (hb : h.boxes.get? box = some b)
    (hb' : (h.step d).boxes.get? box = some b') : reads box h d ++ b'.queue = b.queue ++ gives box h d := by
  -- most deeds leave the mailbox as it is
  have hsame : (h.step d).boxes.get? box = some b → reads box h d = [] → gives box h d = [] →
      reads box h d ++ b'.queue = b.queue ++ gives box h d := fun hkept hreads hgives => by
    rw [hreads, hgives, Option.some.inj (hb'.symm.trans hkept), List.nil_append, List.append_nil]
  cases d with
  | prepare =>
    refine hsame ((h.boxes.get?_set_of_ne _ ?_).trans hb) rfl rfl
    rintro rfl
    rw [hs.boxes _ (Nat.le_refl _)] at hb
    cases hb
  | add run id k =>
    refine hsame ?_ rfl rfl
    simp only [Hall.step]
    split <;> exact hb
  | dispatch e =>
    by_cases hmem : box ∈ (h.audience.dispatch h.boxes.accepts e).1
    · obtain ⟨before, after, hreached⟩ := List.append_of_mem hmem
      have hnodup := hs.nodup_reached e
      rw [hreached] at hnodup
      have hopen : b.isOpen = true := by
        have haccepts := (Audience.mem_reached_iff.1 hmem).1
        rwa [accepts_eq, hb] at haccepts
      have hdeliver : (h.step (.dispatch e)).boxes.get? box = some (b.deliver e) := by
        simp only [Hall.step]
        rw [hreached, get?_onBoxes_of_mem e (List.nodup_cons.1 (List.nodup_middle.1 hnodup)).1, hb]
        rfl
      rw [hs.gives_of_mem hmem, Option.some.inj (hb'.symm.trans hdeliver), Mailbox.deliver, if_pos hopen]
      rfl
    · exact hsame ((get?_onBoxes_of_not_mem e hmem _).trans hb) rfl (gives_of_not_mem hmem)
  | read k =>
    by_cases hk : k = box
    · subst hk
      have htake : (h.step (.read k)).boxes.get? k = some (b.take (h.audience.holds k)).2 := by
        simp [Hall.step, Table.get?_modify, hb]
      rw [Option.some.inj (hb'.symm.trans htake)]
      simp only [reads, hb, if_true, Option.bind_some, gives, List.append_nil, Mailbox.take]
      split
      · rename_i hqueue
        rw [hqueue]
        rfl
      · rename_i hqueue
        rw [hqueue]
        split <;> rfl
    · exact hsame ((h.boxes.get?_modify_of_ne _ (Ne.symm hk)).trans hb) (by simp [reads, hk]) rfl
  | close k =>
    have hclose : (h.step (.close k)).boxes.get? box = some (if box = k then b.close else b) := by
      simp only [Hall.step, Table.get?_modify]
      split
      · rename_i hk
        rw [← hk, hb]
        rfl
      · exact hb
    rw [Option.some.inj (hb'.symm.trans hclose)]
    split <;> simp [reads, gives, Mailbox.close]
  | drop k =>
    refine hsame ?_ rfl rfl
    have hne : box ≠ k := by
      rintro rfl
      simp [Hall.step, Table.get?_erase] at hb'
    exact (h.boxes.get?_erase_of_ne hne).trans hb
  | _ => exact hsame hb rfl rfl

/-- `rest` was put into the mailbox and not taken out. It is what is in the mailbox, if that is there; before it is
made there is nothing. -/
structure Left (h : Hall) (box : Nat) (rest : List RunEvent) : Prop where
  /-- It is in the mailbox. -/
  queue : ∀ b, h.boxes.get? box = some b → b.queue = rest
  /-- There is nothing before. -/
  fresh : h.next ≤ box → rest = []

theorem Left.step {rest : List RunEvent} (hl : h.Left box rest) (hs : h.Sound) (d : Deed) :
    ∃ rest', reads box h d ++ rest' = rest ++ gives box h d ∧ (h.step d).Left box rest' := by
  have hnext : h.boxes.get? box ≠ none → ¬ (h.step d).next ≤ box := fun hsome hle =>
    hsome (hs.boxes box (Nat.le_trans (h.next_le_step d) hle))
  cases hb : h.boxes.get? box with
  | none =>
    have hgives : gives box h d = [] := gives_of_shut (by rw [accepts_eq, hb]; rfl)
    refine ⟨rest, by rw [reads_of_none hb, hgives, List.nil_append, List.append_nil], fun b hb' => ?_,
      fun hle => hl.fresh (Nat.le_trans (h.next_le_step d) hle)⟩
    by_cases hmade : d = .prepare ∧ box = h.next
    · obtain ⟨rfl, rfl⟩ := hmade
      rw [hl.fresh (Nat.le_refl _), ← Option.some.inj ((h.boxes.get?_set_self h.next .new).symm.trans hb')]
      rfl
    · rw [get?_step_of_none (fun hd he => hmade ⟨hd, he⟩) hb] at hb'
      cases hb'
  | some b =>
    have hrest := hl.queue b hb
    have hthere := hnext (by simp [hb])
    cases hb' : (h.step d).boxes.get? box with
    | some b' =>
      refine ⟨b'.queue, hrest ▸ hs.queue_step hb hb', fun b'' hb'' => ?_, fun hle => absurd hle hthere⟩
      rw [Option.some.inj (hb'.symm.trans hb'')]
    | none =>
      -- only its reader takes a mailbox away, and then nothing is taken out any more
      have hdrop : d = .drop box := by
        have hmap := @isOpen_step h d box fun _ he => by
          rw [hs.boxes box (Nat.le_of_eq he.symm)] at hb
          cases hb
        by_contra hne
        rw [hb, hb', if_neg hne] at hmap
        split at hmap <;> cases hmap
      subst hdrop
      refine ⟨rest, (List.append_nil _).symm, fun b'' hb'' => ?_, fun hle => absurd hle hthere⟩
      rw [hb'] at hb''
      cases hb''

/-- **What was put into a mailbox is what was taken out of it and what is left in it**, in this order. -/
theorem taken (ds : List Deed) (box : Nat) :
    ∃ rest, empty.gather (reads box) ds ++ rest = empty.gather (gives box) ds ∧ (empty.run ds).Left box rest := by
  induction ds using List.reverseRecOn with
  | nil =>
    refine ⟨[], rfl, fun b hb => ?_, fun _ => rfl⟩
    cases hb
  | append_singleton ds d ih =>
    obtain ⟨rest, hrest, hl⟩ := ih
    obtain ⟨rest', hstep, hl'⟩ := hl.step (sound_empty.after ds) d
    refine ⟨rest', ?_, by rwa [run_append]⟩
    rw [gather_concat, gather_concat, List.append_assoc, hstep, ← List.append_assoc, hrest]

/-! ### The law -/

/-- Who comes with an open mailbox is there. -/
theorem seated_add (hheld : box ∈ h.held) (hopen : h.boxes.accepts box = true) :
    (h.step (.add run id box)).Seated run id box where
  mem := by
    simp only [Hall.step, if_pos hheld]
    exact (Audience.mem_add_iff hopen).2 (.inl rfl)
  accepts := by
    rw [accepts_step (by simp), hopen]
    simp

/-- Who comes with a mailbox that is not open is not there. -/
theorem Sound.unseated_add (hs : h.Sound) (hheld : box ∈ h.held) (hshut : h.boxes.accepts box = false) :
    (h.step (.add run id box)).Unseated box where
  lt := Nat.lt_of_lt_of_le (hs.held box hheld) (h.next_le_step _)
  come := by simp [Hall.step, hheld]
  shut _ _ _ := by rw [accepts_step (by simp), hshut, Bool.false_and]

/-- **What is true of a listener** who comes, for the first time, between some deeds and others. -/
structure Attends (before after : List Deed) (run : String) (id box : Nat) : Prop where
  /-- It is let in if and only if its mailbox is open. -/
  admitted : ((empty.run before).register.add (empty.run before).boxes.accepts run ⟨id, box⟩).1 =
    (empty.run before).boxes.accepts box
  /-- Let in, it is given the events of its run from then on for as long as it is there, each once and in their
  order, up to the first terminal one, and nothing else. -/
  given : (empty.run before).boxes.accepts box = true →
    empty.gather (gives box) (before ++ .add run id box :: after) =
      throughTerminal (dispatched run (((empty.run before).step (.add run id box)).stretch run id box after))
  /-- Refused, it is given nothing. -/
  refused : (empty.run before).boxes.accepts box = false →
    empty.gather (gives box) (before ++ .add run id box :: after) = []
  /-- Let in, it is there until it is let go, another takes its place, all are sent away, its mailbox is closed or
  its run has ended. -/
  seated : (empty.run before).boxes.accepts box = true →
    ((empty.run (before ++ .add run id box :: after)).Seated run id box ↔
      ((empty.run before).step (.add run id box)).stretch run id box after = after ∧
        ∀ e ∈ dispatched run after, e.state.isTerminal = false)

theorem attends (before after : List Deed) (run : String) (id box : Nat) (hheld : box ∈ (empty.run before).held) :
    Attends before after run id box := by
  have hs : (empty.run before).Sound := sound_empty.after before
  have hs' := hs.step (.add run id box)
  have hgather : empty.gather (gives box) (before ++ .add run id box :: after) =
      ((empty.run before).step (.add run id box)).gather (gives box) after := by
    rw [gather_append, sound_empty.awaited (.inr hheld)]
    rfl
  refine ⟨?_, fun hopen => ?_, fun hshut => ?_, fun hopen => ?_⟩
  · rw [(hs.lists.add (empty.run before).boxes.accepts run ⟨id, box⟩).1, Audience.add]
    split
    · rename_i hopen
      exact hopen.symm
    · rename_i hshut
      exact (Bool.eq_false_iff.2 hshut).symm
  · rw [hgather]
    exact (seated_add hheld hopen).given hs' after
  · rw [hgather]
    exact (hs.unseated_add hheld hshut).given after
  · rw [run_append]
    exact (seated_add hheld hopen).after_iff hs' after

/-- **The law of the audience**, for what was done so far. -/
structure Lawful (ds : List Deed) : Prop where
  /-- A mailbox is open until it is closed or thrown away. -/
  opens : ∀ before after, ds = before ++ .prepare :: after →
    ((empty.run ds).boxes.accepts (empty.run before).next = true ↔
      .close (empty.run before).next ∉ after ∧ .drop (empty.run before).next ∉ after)
  /-- Every listener who comes. -/
  attends : ∀ before run id box after, ds = before ++ .add run id box :: after →
    box ∈ (empty.run before).held → Attends before after run id box
  /-- Who has not come is given nothing. -/
  absent : ∀ box, (empty.run ds).Awaits box → empty.gather (gives box) ds = []
  /-- A reader takes what its listener was given, in the same order; the rest is in the mailbox. -/
  taken : ∀ box, ∃ rest, empty.gather (reads box) ds ++ rest = empty.gather (gives box) ds ∧
    ∀ b, (empty.run ds).boxes.get? box = some b → b.queue = rest
  /-- An event is given to as many as are listeners of its run with an open mailbox. -/
  count : ∀ e, ((empty.run ds).register.dispatch (empty.run ds).boxes.accepts e).1.length =
    (((empty.run ds).audience.listeners e.runId).filter fun l => (empty.run ds).boxes.accepts l.box).length
  /-- The register shows the audience, and keeps no run with nobody under it. -/
  lists : (empty.run ds).register.Lists (empty.run ds).audience
  /-- Its size is the number of the runs that anybody follows. -/
  size : (empty.run ds).register.size = (empty.run ds).audience.runs.length ∧
    (empty.run ds).audience.runs.Nodup ∧
    ∀ run, run ∈ (empty.run ds).audience.runs ↔ (empty.run ds).audience.listeners run ≠ []

/-- **In every history the audience keeps its law.** Let listeners come and be let go, events of runs be given out,
all be sent away, and readers look into their mailboxes, close them or throw them away, in any order. A listener is
let in if and only if its mailbox is open. Then it is given the events of its run, each once and in their order,
until a terminal one, or until it is let go, replaced or sent away or its mailbox is closed. An event is given to as
many as have an open mailbox among the listeners of its run, and no run is kept that nobody follows. -/
theorem lawful_run (ds : List Deed) : Lawful ds where
  opens before after hds := by
    have hmade : ((empty.run before).step .prepare).boxes.accepts (empty.run before).next = true := by
      simp [Mailboxes.accepts, Hall.step, Table.get?_set_self, Mailbox.new]
    rw [hds, run_append, run_cons, accepts_run_iff (Nat.lt_succ_self _), and_iff_right hmade]
  attends before run id box after _ hheld := attends before after run id box hheld
  absent _ ha := sound_empty.awaited ha
  taken box := by
    obtain ⟨rest, hrest, hleft⟩ := taken ds box
    exact ⟨rest, hrest, hleft.queue⟩
  count e := by
    rw [((sound_empty.after ds).lists.dispatch _ e).1.length_eq, Audience.reached_eq, List.length_map]
  lists := (sound_empty.after ds).lists
  size := ⟨(sound_empty.after ds).lists.size_eq, Audience.nodup_runs _, fun _ => Audience.mem_runs_iff⟩

-- another takes the place of a listener between two events
example :
    let ds := [.prepare, .prepare, .add "r-1" 1 0, .dispatch (eventOf .delta), .add "r-1" 1 1,
      .dispatch (eventOf .final)]
    empty.gather (gives 0) ds = [eventOf .delta] ∧ empty.gather (gives 1) ds = [eventOf .final] := by
  decide

end Hall

end TurnRelay.Gateway
