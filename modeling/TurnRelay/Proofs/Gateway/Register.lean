import TurnRelay.Gateway.Audience
import TurnRelay.Proofs.Table
import Mathlib.Data.List.Basic
import Mathlib.Data.List.Perm.Basic
import Mathlib.Data.List.Nodup

/-!
# The audience, run by run

Who follows which run can be written down in two ways: as one list of runs and listeners, or run by run, with the
mailboxes of a run's listeners under their numbers. Written the second way every operation has to look after the
runs, too: the first listener of a run opens an entry for it, and the entry has to go with the last one, whichever
way it leaves: let go, its mailbox closed, or done with the run.

The two ways show the same. Every operation gives the same result on both, an event reaches the same mailboxes, and
no run is left in the register with nobody under it, so its size is the number of runs that are followed.

## The model

* `Register` — the listeners, run by run.
* `Register.add`, `Register.remove`, `Register.dispatch` — its operations.
* `Register.Lists r a` — the register shows the audience, and nothing else.

## What is proved

* `mem_add_iff`, `mem_remove_iff`, `mem_dispatch_iff` — who is in the audience after each operation.
* `listeners_add_of_ne`, `listeners_remove_of_ne`, `listeners_dispatch_of_ne` — other runs keep their listeners.
* `Lists.add`, `Lists.remove`, `Lists.dispatch` — the operations agree.
* `Lists.size_eq` — the size of the register.
-/

namespace TurnRelay.Gateway

/-! ### Who is in the audience -/

namespace Audience

variable {accepts : Nat → Bool} {a : Audience} {run run' : String} {l x : Listener} {id : Nat}
  {e : Wire.RunEvent}

theorem mem_listeners_iff : l ∈ a.listeners run ↔ (run, l) ∈ a.members := by
  simp [listeners]

theorem mem_runs_iff : run ∈ a.runs ↔ a.listeners run ≠ [] := by
  rw [runs, List.mem_eraseDups, List.mem_map]
  constructor
  · rintro ⟨m, hm, rfl⟩
    exact List.ne_nil_of_mem (mem_listeners_iff.2 hm)
  · intro h
    obtain ⟨l, hl⟩ := List.exists_mem_of_ne_nil _ h
    exact ⟨(run, l), mem_listeners_iff.1 hl, rfl⟩

theorem mem_remove_iff : (run', l) ∈ (a.remove run id).2.members ↔
    (run', l) ∈ a.members ∧ ¬ (run' = run ∧ l.id = id) := by
  simp only [remove, without, List.mem_filter, Bool.not_eq_true', Bool.and_eq_false_iff, decide_eq_false_iff_not]
  rw [not_and_or]

/-- Who is admitted takes the place of one with its run and number. -/
theorem mem_add_iff (h : accepts x.box = true) : (run', l) ∈ (a.add accepts run x).2.members ↔
    (run', l) = (run, x) ∨ (run', l) ∈ a.members ∧ ¬ (run' = run ∧ l.id = x.id) := by
  rw [add, if_pos h]
  simp only [List.mem_append, List.mem_singleton]
  rw [or_comm]
  exact or_congr_right mem_remove_iff

theorem add_of_refused (h : accepts x.box = false) : a.add accepts run x = (false, a) := by
  simp [add, h]

/-- Who is admitted, if anybody is, leaves the others where they are. -/
theorem mem_add_iff_of_ne (h : (run', l) ≠ (run, x)) : (run', l) ∈ (a.add accepts run x).2.members ↔
    (run', l) ∈ a.members ∧ ¬ (accepts x.box = true ∧ run' = run ∧ l.id = x.id) := by
  cases hopen : accepts x.box with
  | true =>
    rw [mem_add_iff hopen]
    simp [h]
  | false =>
    rw [add_of_refused hopen]
    simp

/-- Of a run that has gone on those stay whose mailboxes are open, if it has not ended. -/
theorem mem_dispatch_iff : (run', l) ∈ (a.dispatch accepts e).2.members ↔ (run', l) ∈ a.members ∧
    (run' = e.runId → accepts l.box = true ∧ e.state.isTerminal = false) := by
  unfold dispatch
  by_cases hrun : run' = e.runId
  · cases ht : e.state.isTerminal <;> simp [hrun]
  · split <;> simp [hrun]

/-- An event reaches those of its run whose mailboxes are open. -/
theorem reached_eq (accepts : Nat → Bool) (a : Audience) (e : Wire.RunEvent) :
    (a.dispatch accepts e).1 = ((a.listeners e.runId).filter fun l => accepts l.box).map (·.box) := by
  simp only [dispatch, listeners, List.filter_map, List.filter_filter, List.map_map]
  congr 1
  refine List.filter_congr fun m _ => ?_
  by_cases hrun : m.1 = e.runId <;> simp [hrun]

theorem mem_reached_iff {box : Nat} : box ∈ (a.dispatch accepts e).1 ↔
    accepts box = true ∧ ∃ id, (e.runId, ⟨id, box⟩) ∈ a.members := by
  simp only [reached_eq, List.mem_map, List.mem_filter, mem_listeners_iff]
  constructor
  · rintro ⟨⟨id, box⟩, ⟨hm, hopen⟩, rfl⟩
    exact ⟨hopen, id, hm⟩
  · rintro ⟨hopen, id, hm⟩
    exact ⟨⟨id, box⟩, ⟨hm, hopen⟩, rfl⟩

/-! ### Other runs -/

/-- Where those are kept whose run it is, the run keeps its listeners. -/
theorem listeners_filter {f : String × Listener → Bool} (h : ∀ m ∈ a.members, m.1 = run → f m = true) :
    (⟨a.members.filter f⟩ : Audience).listeners run = a.listeners run := by
  simp only [listeners, List.filter_filter]
  congr 1
  refine List.filter_congr fun m hm => ?_
  by_cases hrun : m.1 = run
  · simp [hrun, h m hm hrun]
  · simp [hrun]

theorem listeners_remove_of_ne (h : run' ≠ run) (id : Nat) :
    (a.remove run id).2.listeners run' = a.listeners run' :=
  listeners_filter fun m _ hm => by simp [hm, h]

theorem listeners_add_of_ne (h : run' ≠ run) : (a.add accepts run x).2.listeners run' = a.listeners run' := by
  unfold add
  split
  · refine Eq.trans ?_ (listeners_remove_of_ne h x.id)
    simp [listeners, remove, List.filter_append, Ne.symm h]
  · rfl

theorem listeners_dispatch_of_ne (h : run ≠ e.runId) :
    (a.dispatch accepts e).2.listeners run = a.listeners run := by
  unfold dispatch
  split
  · exact (listeners_filter (a := ⟨_⟩) fun m _ hm => by simp [hm, h]).trans
      (listeners_filter fun m _ hm => by simp [hm, h])
  · exact listeners_filter fun m _ hm => by simp [hm, h]

/-! ### Runs and numbers -/

/-- For a run and a number there is one listener. -/
def IsDistinct (a : Audience) : Prop := (a.members.map fun m => (m.1, m.2.id)).Nodup

theorem isDistinct_empty : Audience.empty.IsDistinct := List.nodup_nil

theorem IsDistinct.filter (h : a.IsDistinct) (f : String × Listener → Bool) :
    (⟨a.members.filter f⟩ : Audience).IsDistinct :=
  h.sublist (List.filter_sublist.map _)

theorem IsDistinct.remove (h : a.IsDistinct) (run : String) (id : Nat) : (a.remove run id).2.IsDistinct :=
  h.filter _

theorem IsDistinct.add (h : a.IsDistinct) : (a.add accepts run x).2.IsDistinct := by
  unfold Audience.add
  split
  · have hnew : (run, x.id) ∉ (a.remove run x.id).2.members.map fun m => (m.1, m.2.id) := by
      intro hm
      obtain ⟨⟨run', l⟩, hm, he⟩ := List.mem_map.1 hm
      exact (mem_remove_iff.1 hm).2 ((Prod.mk.injEq ..).mp he)
    show (((a.remove run x.id).2.members ++ [(run, x)]).map fun m => (m.1, m.2.id)).Nodup
    rw [List.map_append]
    exact List.perm_append_comm.nodup_iff.1 (List.nodup_cons.2 ⟨hnew, h.remove run x.id⟩)
  · exact h

theorem IsDistinct.dispatch (h : a.IsDistinct) : (a.dispatch accepts e).2.IsDistinct := by
  unfold Audience.dispatch
  split
  · exact (h.filter _).filter _
  · exact h.filter _

/-- The listeners of a run have different numbers. -/
theorem IsDistinct.nodup_listeners (h : a.IsDistinct) (run : String) : ((a.listeners run).map (·.id)).Nodup := by
  have hrun : ((a.members.filter fun m => decide (m.1 = run)).map fun m => (m.1, m.2.id)).Nodup := h.filter _
  rw [listeners, List.map_map]
  refine List.Nodup.of_map (fun id => (run, id)) ?_
  rw [List.map_map]
  refine (congrArg List.Nodup (List.map_congr_left fun m hm => ?_)).mp hrun
  rw [← of_decide_eq_true (List.mem_filter.1 hm).2]
  rfl

/-- No run is named twice. -/
theorem nodup_runs (a : Audience) : a.runs.Nodup := by
  -- by the length, since the names behind the first are filtered
  have hdedup : ∀ n (names : List String), names.length ≤ n → names.eraseDups.Nodup := by
    intro n
    induction n with
    | zero =>
      intro names hn
      rw [List.length_eq_zero_iff.1 (Nat.le_zero.1 hn)]
      exact List.nodup_nil
    | succ n ih =>
      intro names hn
      cases names with
      | nil => exact List.nodup_nil
      | cons name names =>
        rw [List.eraseDups_cons, List.nodup_cons]
        refine ⟨fun hm => ?_, ih _ ?_⟩
        · simp at hm
        · exact Nat.le_trans (List.length_filter_le _ _) (Nat.le_of_succ_le_succ hn)
  exact hdedup _ _ (Nat.le_refl _)

end Audience

/-! ### The register -/

/-- The listeners, run by run: under each run that anybody follows, the mailboxes by the listeners' numbers. -/
abbrev Register := Table String (Table Nat Nat)

namespace Register

/-- A listener begins to follow a run; the first opens the entry of the run. -/
def add (accepts : Nat → Bool) (r : Register) (run : String) (l : Listener) : Bool × Register :=
  if accepts l.box then (true, r.set run (((r.get? run).getD .empty).set l.id l.box)) else (false, r)

/-- The entry of a run, if there is anybody in it, else none. -/
def put (r : Register) (run : String) (ls : Table Nat Nat) : Register :=
  if ls.entries.isEmpty then r.erase run else r.set run ls

/-- A listener follows a run no longer; with the last the entry of the run goes. -/
def remove (r : Register) (run : String) (id : Nat) : Bool × Register :=
  match r.get? run with
  | none => (false, r)
  | some ls => (ls.contains id, r.put run (ls.erase id))

/-- An event goes to those of its run whose mailboxes are open; the others go, and after a terminal event all. -/
def dispatch (accepts : Nat → Bool) (r : Register) (e : Wire.RunEvent) : List Nat × Register :=
  match r.get? e.runId with
  | none => ([], r)
  | some ls =>
    let kept : Table Nat Nat := ⟨ls.entries.filter fun x => accepts x.2⟩
    (kept.values, if e.state.isTerminal then r.erase e.runId else r.put e.runId kept)

/-- **The register shows the audience**, and nothing else. -/
structure Lists (r : Register) (a : Audience) : Prop where
  /-- A run has one entry. -/
  runs : r.HasDistinctKeys
  /-- A number has one mailbox in it. -/
  ids : ∀ run ls, r.get? run = some ls → ls.HasDistinctKeys
  /-- Nobody's entry is not there. -/
  nonempty : ∀ run ls, r.get? run = some ls → ls.entries ≠ []
  /-- Who is listed is in the audience, and the other way round. -/
  mem_iff : ∀ run id box, (run, ⟨id, box⟩) ∈ a.members ↔ ∃ ls, r.get? run = some ls ∧ ls.get? id = some box
  /-- For a run and a number there is one listener. -/
  distinct : a.IsDistinct

variable {accepts : Nat → Bool} {r : Register} {a : Audience} {run : String} {id : Nat} {e : Wire.RunEvent}

theorem lists_empty : Lists .empty .empty where
  runs := Table.hasDistinctKeys_empty
  ids _ _ h := by cases h
  nonempty _ _ h := by cases h
  mem_iff run id box := by
    constructor
    · intro h
      cases h
    · rintro ⟨ls, h, -⟩
      cases h
  distinct := Audience.isDistinct_empty

/-! ### Entries of runs -/

variable {ls ls' : Table Nat Nat} {run' : String}

theorem get?_put (r : Register) (run : String) (ls : Table Nat Nat) (run' : String) :
    (r.put run ls).get? run' =
      if run' = run then (if ls.entries.isEmpty then none else some ls) else r.get? run' := by
  unfold put
  split
  · exact r.get?_erase run run'
  · exact r.get?_set run run' ls

theorem get?_put_self_iff : (r.put run ls).get? run = some ls' ↔ ls' = ls ∧ ls.entries ≠ [] := by
  rw [get?_put, if_pos rfl]
  split
  · rename_i hempty
    simp [List.isEmpty_iff.1 hempty]
  · rename_i hempty
    rw [List.isEmpty_iff] at hempty
    rw [Option.some.injEq]
    exact ⟨fun h => ⟨h.symm, hempty⟩, fun h => h.1.symm⟩

theorem put_of_ne_nil (r : Register) (run : String) (h : ls.entries ≠ []) : r.put run ls = r.set run ls := by
  rw [put, if_neg (by simpa using h)]

/-- The entry of a run is made to show what the audience shows of it. -/
theorem Lists.put {a' : Audience} (h : r.Lists a) (hkeys : ls.HasDistinctKeys) (hdistinct : a'.IsDistinct)
    (hself : ∀ id box, (run, ⟨id, box⟩) ∈ a'.members ↔ ls.get? id = some box)
    (hothers : ∀ run' l, run' ≠ run → ((run', l) ∈ a'.members ↔ (run', l) ∈ a.members)) :
    (r.put run ls).Lists a' where
  runs := by
    unfold Register.put
    split
    · exact h.runs.erase run
    · exact h.runs.set run ls
  ids run' ls' hls := by
    by_cases hrun : run' = run
    · subst hrun
      exact (get?_put_self_iff.1 hls).1 ▸ hkeys
    · rw [get?_put, if_neg hrun] at hls
      exact h.ids run' ls' hls
  nonempty run' ls' hls := by
    by_cases hrun : run' = run
    · subst hrun
      obtain ⟨rfl, hne⟩ := get?_put_self_iff.1 hls
      exact hne
    · rw [get?_put, if_neg hrun] at hls
      exact h.nonempty run' ls' hls
  mem_iff run' id box := by
    by_cases hrun : run' = run
    · subst hrun
      rw [hself]
      constructor
      · intro hbox
        exact ⟨ls, get?_put_self_iff.2 ⟨rfl, List.ne_nil_of_mem (Table.mem_of_get? hbox)⟩, hbox⟩
      · rintro ⟨ls', hls, hbox⟩
        exact (get?_put_self_iff.1 hls).1 ▸ hbox
    · rw [hothers _ _ hrun, h.mem_iff, get?_put, if_neg hrun]
  distinct := hdistinct

/-- What the register shows of a run. -/
theorem Lists.mem_self (h : r.Lists a) (run : String) (id box : Nat) :
    (run, ⟨id, box⟩) ∈ a.members ↔ ((r.get? run).getD .empty).get? id = some box := by
  rw [h.mem_iff]
  cases r.get? run with
  | none => simp [Table.empty, Table.get?_nil]
  | some ls => simp

/-- A run without an entry has nobody. -/
theorem Lists.ne_of_mem (h : r.Lists a) (hls : r.get? run = none) {l : Listener} (hl : (run', l) ∈ a.members) :
    run' ≠ run := by
  rintro rfl
  obtain ⟨ls, hls', -⟩ := (h.mem_iff run' l.id l.box).1 hl
  rw [hls] at hls'
  cases hls'

/-- Without an entry of the run there is nothing to change. -/
theorem Lists.unchanged {a' : Audience} (h : r.Lists a) (hdistinct : a'.IsDistinct)
    (hsame : ∀ run l, (run, l) ∈ a'.members ↔ (run, l) ∈ a.members) : r.Lists a' where
  runs := h.runs
  ids := h.ids
  nonempty := h.nonempty
  mem_iff run id box := (hsame run ⟨id, box⟩).trans (h.mem_iff run id box)
  distinct := hdistinct

/-- The entry of a run has its listeners, in whatever order. -/
theorem Lists.entries_perm (h : r.Lists a) (hls : r.get? run = some ls) :
    ls.entries.Perm ((a.listeners run).map fun l => (l.id, l.box)) := by
  have hkeys := h.ids run ls hls
  have hlisteners : ((a.listeners run).map fun l => (l.id, l.box)).Nodup := by
    refine List.Nodup.of_map Prod.fst ?_
    rw [List.map_map]
    exact h.distinct.nodup_listeners run
  refine (List.perm_ext_iff_of_nodup (List.Nodup.of_map _ hkeys) hlisteners).2 ?_
  rintro ⟨id, box⟩
  rw [hkeys.mem_iff, List.mem_map]
  have hself := h.mem_self run id box
  rw [hls, Option.getD_some] at hself
  rw [← hself]
  constructor
  · exact fun hm => ⟨⟨id, box⟩, Audience.mem_listeners_iff.2 hm, rfl⟩
  · rintro ⟨l, hl, he⟩
    obtain ⟨rfl, rfl⟩ := Prod.mk.inj he
    exact Audience.mem_listeners_iff.1 hl

/-! ### The operations -/

theorem Lists.add (h : r.Lists a) (accepts : Nat → Bool) (run : String) (l : Listener) :
    (r.add accepts run l).1 = (a.add accepts run l).1 ∧
      (r.add accepts run l).2.Lists (a.add accepts run l).2 := by
  by_cases hopen : accepts l.box = true
  · refine ⟨by simp [Register.add, Audience.add, hopen], ?_⟩
    have hput : (r.add accepts run l).2 = r.put run (((r.get? run).getD .empty).set l.id l.box) := by
      rw [Register.add, if_pos hopen, put_of_ne_nil]
      exact List.ne_nil_of_mem (Table.mem_of_get? (Table.get?_set_self _ l.id l.box))
    have hkeys : ((r.get? run).getD .empty).HasDistinctKeys := by
      cases hls : r.get? run with
      | none => exact Table.hasDistinctKeys_empty
      | some ls => exact h.ids run ls hls
    rw [hput]
    refine h.put (hkeys.set l.id l.box) h.distinct.add (fun id box => ?_) fun run' x hrun => ?_
    · rw [Audience.mem_add_iff hopen, Table.get?_set, h.mem_self]
      by_cases hid : id = l.id
      · obtain ⟨lid, lbox⟩ := l
        subst hid
        simp [eq_comm]
      · have hne : (run, (⟨id, box⟩ : Listener)) ≠ (run, l) := fun he => hid (congrArg (·.2.id) he)
        simp [hid, hne]
    · rw [Audience.mem_add_iff hopen]
      simp [hrun]
  · have hclosed : accepts l.box = false := by simpa using hopen
    rw [Audience.add_of_refused hclosed]
    simpa [Register.add, hclosed] using h

theorem Lists.remove (h : r.Lists a) (run : String) (id : Nat) :
    (r.remove run id).1 = (a.remove run id).1 ∧ (r.remove run id).2.Lists (a.remove run id).2 := by
  have hresult : (a.remove run id).1 = true ↔ ∃ box, (run, ⟨id, box⟩) ∈ a.members := by
    simp only [Audience.remove, List.any_eq_true, Audience.mem_listeners_iff, decide_eq_true_eq]
    constructor
    · rintro ⟨⟨id, box⟩, hm, rfl⟩
      exact ⟨box, hm⟩
    · rintro ⟨box, hm⟩
      exact ⟨⟨id, box⟩, hm, rfl⟩
  unfold Register.remove
  cases hls : r.get? run with
  | none =>
    refine ⟨?_, h.unchanged (h.distinct.remove run id) fun run' l => ?_⟩
    · rw [eq_comm, Bool.eq_false_iff, Ne, hresult]
      rintro ⟨box, hm⟩
      exact h.ne_of_mem hls hm rfl
    · rw [Audience.mem_remove_iff]
      exact and_iff_left_of_imp fun hm he => h.ne_of_mem hls hm he.1
  | some ls =>
    have hself : ∀ {id box}, (run, ⟨id, box⟩) ∈ a.members ↔ ls.get? id = some box := fun {id box} => by
      rw [h.mem_self, hls, Option.getD_some]
    refine ⟨?_, h.put ((h.ids run ls hls).erase id) (h.distinct.remove run id) (fun id' box => ?_)
      fun run' l hrun => ?_⟩
    · rw [Bool.eq_iff_iff, hresult]
      simp only [hself, Table.contains, Option.isSome_iff_exists]
    · rw [Audience.mem_remove_iff, hself, Table.get?_erase_eq_some_iff]
      simp [and_comm]
    · rw [Audience.mem_remove_iff]
      simp [hrun]

theorem Lists.dispatch (h : r.Lists a) (accepts : Nat → Bool) (e : Wire.RunEvent) :
    ((r.dispatch accepts e).1.Perm (a.dispatch accepts e).1) ∧
      (r.dispatch accepts e).2.Lists (a.dispatch accepts e).2 := by
  unfold Register.dispatch
  cases hls : r.get? e.runId with
  | none =>
    refine ⟨?_, h.unchanged h.distinct.dispatch fun run l => ?_⟩
    · have hnobody : (a.dispatch accepts e).1 = [] := by
        refine List.eq_nil_iff_forall_not_mem.2 fun box hbox => ?_
        obtain ⟨-, id, hm⟩ := Audience.mem_reached_iff.1 hbox
        exact h.ne_of_mem hls hm rfl
      rw [hnobody]
    · rw [Audience.mem_dispatch_iff]
      exact and_iff_left_of_imp fun hm he => absurd he (h.ne_of_mem hls hm)
  | some ls =>
    have hkeys := h.ids _ ls hls
    refine ⟨?_, ?_⟩
    · rw [Audience.reached_eq]
      have hperm := ((h.entries_perm hls).filter fun x => accepts x.2).map Prod.snd
      rw [List.filter_map, List.map_map] at hperm
      exact hperm
    · have hothers : ∀ run' l, run' ≠ e.runId →
          ((run', l) ∈ (a.dispatch accepts e).2.members ↔ (run', l) ∈ a.members) := fun run' l hrun => by
        rw [Audience.mem_dispatch_iff]
        simp [hrun]
      cases ht : e.state.isTerminal with
      | true =>
        -- the entry goes, as it does when nobody is left in it
        refine h.put Table.hasDistinctKeys_empty h.distinct.dispatch (fun id box => ?_) hothers
        rw [Audience.mem_dispatch_iff]
        simp [ht, Table.empty, Table.get?_nil]
      | false =>
        refine h.put (hkeys.filter _) h.distinct.dispatch (fun id box => ?_) hothers
        rw [Audience.mem_dispatch_iff, ← (hkeys.filter _).mem_iff, List.mem_filter, hkeys.mem_iff, h.mem_self, hls,
          Option.getD_some]
        simp [ht]

/-- **The size of the register is the number of runs that are followed.** -/
theorem Lists.size_eq (h : r.Lists a) : r.size = a.runs.length := by
  have hperm : (r.entries.map Prod.fst).Perm a.runs := by
    refine (List.perm_ext_iff_of_nodup h.runs a.nodup_runs).2 fun run => ?_
    rw [Audience.mem_runs_iff]
    constructor
    · intro hm
      obtain ⟨⟨run, ls⟩, hentry, rfl⟩ := List.mem_map.1 hm
      have hls := h.runs.mem_iff.1 hentry
      obtain ⟨⟨id, box⟩, hbox⟩ := List.exists_mem_of_ne_nil _ (h.nonempty run ls hls)
      have hmember := (h.mem_iff run id box).2 ⟨ls, hls, (h.ids run ls hls).mem_iff.1 hbox⟩
      exact List.ne_nil_of_mem (Audience.mem_listeners_iff.2 hmember)
    · intro hne
      obtain ⟨l, hl⟩ := List.exists_mem_of_ne_nil _ hne
      obtain ⟨ls, hls, -⟩ := (h.mem_iff run l.id l.box).1 (Audience.mem_listeners_iff.1 hl)
      exact List.mem_map_of_mem (Table.mem_of_get? hls)
  exact (List.length_map Prod.fst).symm.trans hperm.length_eq

end Register

end TurnRelay.Gateway
