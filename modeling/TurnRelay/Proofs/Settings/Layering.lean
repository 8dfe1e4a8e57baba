import Mathlib.Data.List.Induction
import Mathlib.Data.String.Basic
import TurnRelay.Settings.Variable

/-!
# Layers of settings

Layers are laid over one another, tables entry by entry and all else as a whole. At any place the uppermost layer that
says something there is the one that counts, as long as there are tables on the way in all of them: a layer that has
something else where others have a table would hide the whole table.

Tables say things too, and of tables neither wins. But where a setting is looked for, a table is no answer: whether one
stands there alone or two are laid over one another makes no difference (`Stands`).

## The model

* `Value.at?` — what stands at a place.
* `Value.Opens` — there are tables on the way, as far as it goes.
* `Value.Shows` — what a layer says at a place, tables apart.
* `Variable.said?` — what the last of the variables says that belong to a place.

## What is proved

* `find?_entriesOnto` — an entry of a table that is laid over another.
* `Shows.overlay` — the upper layer counts if it says something, and the lower one if not.
* `shows_layer` — the layer of the variables says what the last variable says.
-/

namespace TurnRelay.Settings

namespace Value

/-! ### Entries by name -/

/-- The names of the entries increase. -/
def IsSorted (es : Entries) : Prop := es.Pairwise fun a b => a.1 < b.1

variable {name key : String} {v w : Value} {es upper lower : Entries} {merge : Value → Value}

theorem isSorted_nil : IsSorted [] := List.Pairwise.nil

theorem isSorted_singleton (name : String) (v : Value) : IsSorted [(name, v)] := List.pairwise_singleton _ _

theorem mem_of_find? (h : find? name es = some v) : (name, v) ∈ es := by
  induction es with
  | nil => cases h
  | cons e es ih =>
    rw [find?] at h
    split at h
    · rename_i he
      injection h with h
      rw [← he, ← h]
      exact List.mem_cons_self
    · exact List.mem_cons_of_mem _ (ih h)

theorem find?_eq_none (h : ∀ e ∈ es, e.1 ≠ name) : find? name es = none := by
  cases hv : find? name es with
  | none => rfl
  | some v => exact absurd rfl (h _ (mem_of_find? hv))

/-- Behind an entry there is none of its name. -/
theorem IsSorted.find?_tail {e : String × Value} (h : IsSorted (e :: es)) : find? e.1 es = none :=
  find?_eq_none fun e' he' hname => ne_of_lt ((List.pairwise_cons.1 h).1 e' he') hname.symm

theorem mem_names_putWith :
    name ∈ (putWith merge key v es).map Prod.fst ↔ name = key ∨ name ∈ es.map Prod.fst := by
  induction es with
  | nil => simp [putWith]
  | cons e es ih =>
    obtain ⟨k, w⟩ := e
    rw [putWith]
    split_ifs with hlt heq
    · simp
    · subst heq
      simp
    · rw [List.map_cons, List.mem_cons, ih, List.map_cons, List.mem_cons]
      tauto

theorem IsSorted.putWith (h : IsSorted es) (merge : Value → Value) (key : String) (v : Value) :
    IsSorted (putWith merge key v es) := by
  induction es with
  | nil => exact isSorted_singleton _ _
  | cons e es ih =>
    obtain ⟨k, w⟩ := e
    obtain ⟨he, hes⟩ := List.pairwise_cons.1 h
    rw [Value.putWith]
    split_ifs with hlt heq
    · refine List.pairwise_cons.2 ⟨List.forall_mem_cons.2 ⟨hlt, fun e' he' => ?_⟩, h⟩
      exact lt_trans hlt (he e' he')
    · subst heq
      exact List.pairwise_cons.2 ⟨he, hes⟩
    · refine List.pairwise_cons.2 ⟨fun e' he' => ?_, ih hes⟩
      obtain hname | hmem := mem_names_putWith.1 (List.mem_map_of_mem he')
      · rw [hname]
        exact lt_of_le_of_ne (not_lt.1 hlt) (Ne.symm heq)
      · obtain ⟨e'', he'', hname⟩ := List.mem_map.1 hmem
        rw [← hname]
        exact he e'' he''

/-- The entries after one has been put to them. -/
theorem IsSorted.find?_putWith (h : IsSorted es) (merge : Value → Value) (key : String) (v : Value) (name : String) :
    find? name (Value.putWith merge key v es) =
      if name = key then some ((find? key es).elim v merge) else find? name es := by
  induction es with
  | nil => simp [Value.putWith, find?, eq_comm]
  | cons e es ih =>
    obtain ⟨k, w⟩ := e
    obtain ⟨he, hes⟩ := List.pairwise_cons.1 h
    rw [Value.putWith]
    by_cases hlt : key < k
    · -- it comes before all others, so it was not there
      have hnone : find? key ((k, w) :: es) = none :=
        find?_eq_none (List.forall_mem_cons.2 ⟨ne_of_gt hlt, fun e' he' => ne_of_gt (lt_trans hlt (he e' he'))⟩)
      rw [if_pos hlt, hnone, find?]
      simp only [eq_comm, Option.elim]
    · rw [if_neg hlt]
      by_cases heq : key = k
      · subst heq
        by_cases hname : name = key
        · simp [find?, hname]
        · simp [find?, hname, Ne.symm hname]
      · rw [if_neg heq, find?, find?, ih hes, find?, if_neg (Ne.symm heq)]
        by_cases hname : name = key
        · rw [if_pos hname, if_pos hname, if_neg fun hk => heq (hname.symm.trans hk.symm)]
        · rw [if_neg hname, if_neg hname]

theorem put_eq_putWith (key : String) (v : Value) (es : Entries) : put key v es = putWith (fun _ => v) key v es := by
  induction es with
  | nil => rfl
  | cons e es ih => rw [put, putWith, ih]

/-- A table of entries in any order has them sorted, and has no others. -/
theorem exists_ofEntries (es : Entries) :
    ∃ t, ofEntries es = .table t ∧ IsSorted t ∧ ∀ name v, find? name t = some v → (name, v) ∈ es := by
  refine ⟨_, rfl, ?_⟩
  suffices hfold : ∀ t, IsSorted t → IsSorted (es.foldl (fun t e => put e.1 e.2 t) t) ∧
      ∀ name v, find? name (es.foldl (fun t e => put e.1 e.2 t) t) = some v → find? name t = some v ∨ (name, v) ∈ es by
    obtain ⟨hsorted, hfrom⟩ := hfold [] isSorted_nil
    exact ⟨hsorted, fun name v hv => (hfrom name v hv).resolve_left fun h => by cases h⟩
  induction es with
  | nil => exact fun t ht => ⟨ht, fun _ _ hv => .inl hv⟩
  | cons e es ih =>
    intro t ht
    have hput := ht.putWith (fun _ => e.2) e.1 e.2
    rw [← put_eq_putWith] at hput
    obtain ⟨hsorted, hfrom⟩ := ih _ hput
    refine ⟨hsorted, fun name v hv => ?_⟩
    obtain hv | hv := hfrom name v hv
    · rw [put_eq_putWith, ht.find?_putWith] at hv
      split at hv
      · rename_i hname
        have hvalue : v = e.2 := by
          cases hold : find? e.1 t <;> rw [hold] at hv <;> exact (Option.some.inj hv).symm
        exact .inr (by rw [hname, hvalue]; exact List.mem_cons_self)
      · exact .inl hv
    · exact .inr (List.mem_cons_of_mem _ hv)

/-! ### Tables laid over one another -/

theorem IsSorted.entriesOnto (h : IsSorted lower) (upper : Entries) : IsSorted (entriesOnto upper lower) := by
  induction upper generalizing lower with
  | nil => rwa [Value.entriesOnto]
  | cons e upper ih =>
    rw [Value.entriesOnto]
    exact ih (h.putWith _ _ _)

/-- **An entry of a table that is laid over another.** -/
theorem find?_entriesOnto (hl : IsSorted lower) (hu : IsSorted upper) (name : String) :
    find? name (entriesOnto upper lower) =
      ((find? name upper).map fun v => (find? name lower).elim v v.onto).or (find? name lower) := by
  induction upper generalizing lower with
  | nil => rw [entriesOnto]; rfl
  | cons e upper ih =>
    obtain ⟨k, v⟩ := e
    have htail := hu.find?_tail
    rw [entriesOnto, ih (hl.putWith _ _ _) (List.pairwise_cons.1 hu).2, hl.find?_putWith, find?]
    by_cases hname : name = k
    · subst hname
      have htail : find? name upper = none := htail
      rw [htail, if_pos rfl, if_pos rfl]
      rfl
    · rw [if_neg hname, if_neg (Ne.symm hname)]

/-! ### Places -/

/-- What stands at a place. -/
def at? : List String → Value → Option Value
  | [], v => some v
  | name :: path, .table es => (find? name es).bind (at? path)
  | _ :: _, _ => none

/-- On the way to a place there are tables, as far as it goes. -/
def Opens : List String → Value → Prop
  | [], _ => True
  | name :: path, v => ∃ es, v = .table es ∧ IsSorted es ∧ ∀ w, find? name es = some w → Opens path w

/-- One value stands for another: they are the same, or both are tables. -/
def Stands (w v : Value) : Prop := w = v ∨ (∃ es, w = .table es) ∧ ∃ es, v = .table es

theorem Stands.refl (v : Value) : Stands v v := .inl rfl

theorem Stands.trans {u : Value} (h : Stands u w) (h' : Stands w v) : Stands u v := by
  obtain rfl | ⟨hu, hw⟩ := h
  · exact h'
  · obtain rfl | ⟨-, hv⟩ := h'
    · exact .inr ⟨hu, hw⟩
    · exact .inr ⟨hu, hv⟩

/-- What is laid over something else stands for itself. -/
theorem stands_onto (v w : Value) : Stands (v.onto w) v := by
  cases v with
  | table es =>
    refine .inr ⟨?_, es, rfl⟩
    rw [onto.eq_def]
    cases w <;> exact ⟨_, rfl⟩
  | _ => exact .inl (by rw [onto])

theorem opens_overlay {path : List String} {t u : Value} (ht : Opens path t) (hu : Opens path u) :
    Opens path (t.overlay u) := by
  induction path generalizing t u with
  | nil => trivial
  | cons name path ih =>
    obtain ⟨lower, rfl, hl, htail⟩ := ht
    obtain ⟨upper, rfl, hup, hutail⟩ := hu
    refine ⟨entriesOnto upper lower, by rw [overlay, onto], hl.entriesOnto _, fun w hw => ?_⟩
    rw [find?_entriesOnto hl hup] at hw
    cases hupper : find? name upper with
    | none =>
      rw [hupper] at hw
      exact htail w hw
    | some x =>
      cases hlower : find? name lower with
      | none =>
        rw [hupper, hlower] at hw
        cases hw
        exact hutail _ hupper
      | some y =>
        rw [hupper, hlower] at hw
        cases hw
        exact ih (htail _ hlower) (hutail _ hupper)

/-- What the upper layer has at a place stands there. -/
theorem at?_overlay_of_some {path : List String} {t u : Value} (ht : Opens path t) (hu : Opens path u)
    (hv : at? path u = some v) : ∃ w, at? path (t.overlay u) = some w ∧ Stands w v := by
  induction path generalizing t u with
  | nil =>
    obtain rfl := Option.some.inj hv
    exact ⟨_, rfl, stands_onto u t⟩
  | cons name path ih =>
    obtain ⟨lower, rfl, hl, htail⟩ := ht
    obtain ⟨upper, rfl, hup, hutail⟩ := hu
    obtain ⟨x, hupper, hv⟩ := Option.bind_eq_some_iff.1 hv
    rw [overlay, onto, at?, find?_entriesOnto hl hup, hupper]
    cases hlower : find? name lower with
    | none => exact ⟨v, hv, .refl v⟩
    | some y => exact ih (htail _ hlower) (hutail _ hupper) hv

/-- Where the upper layer has nothing, the lower one is as before. -/
theorem at?_overlay_of_none {path : List String} {t u : Value} (ht : Opens path t) (hu : Opens path u)
    (hv : at? path u = none) : at? path (t.overlay u) = at? path t := by
  induction path generalizing t u with
  | nil => cases hv
  | cons name path ih =>
    obtain ⟨lower, rfl, hl, htail⟩ := ht
    obtain ⟨upper, rfl, hup, hutail⟩ := hu
    rw [overlay, onto, at?, at?, find?_entriesOnto hl hup]
    cases hupper : find? name upper with
    | none => rfl
    | some x =>
      rw [at?, hupper] at hv
      cases hlower : find? name lower with
      | none => exact hv
      | some y => exact ih (htail _ hlower) (hutail _ hupper) hv

/-- **What a layer says at a place**, tables apart. -/
structure Shows (path : List String) (t : Value) (o : Option Value) : Prop where
  /-- There are tables on the way. -/
  opens : Opens path t
  /-- It says this, -/
  said : ∀ v, o = some v → ∃ w, at? path t = some w ∧ Stands w v
  /-- or nothing. -/
  unsaid : o = none → at? path t = none

theorem Opens.shows {path : List String} {t : Value} (h : Opens path t) : Shows path t (at? path t) :=
  ⟨h, fun v hv => ⟨v, hv, .refl v⟩, id⟩

/-- **The upper layer counts where it says something**, and the lower one elsewhere. -/
theorem Shows.overlay {path : List String} {t u : Value} {o p : Option Value} (ht : Shows path t o)
    (hu : Shows path u p) : Shows path (t.overlay u) (p.or o) := by
  refine ⟨opens_overlay ht.opens hu.opens, fun v hv => ?_, fun hv => ?_⟩
  · cases p with
    | none =>
      rw [at?_overlay_of_none ht.opens hu.opens (hu.unsaid rfl)]
      exact ht.said v hv
    | some x =>
      obtain rfl := Option.some.inj hv
      obtain ⟨w, hw, hstands⟩ := hu.said _ rfl
      obtain ⟨w', hw', hstands'⟩ := at?_overlay_of_some ht.opens hu.opens hw
      exact ⟨w', hw', hstands'.trans hstands⟩
  · obtain ⟨rfl, rfl⟩ := Option.or_eq_none_iff.1 hv
    rw [at?_overlay_of_none ht.opens hu.opens (hu.unsaid rfl), ht.unsaid rfl]

/-! ### Values under names -/

/-- Two places of which neither lies inside the other. -/
def Apart (path path' : List String) : Prop := ¬ path <+: path' ∧ ¬ path' <+: path

theorem shows_nested_self (path : List String) (v : Value) : Shows path (nested path v) (some v) := by
  induction path with
  | nil => exact ⟨trivial, fun w hw => ⟨v, rfl, Option.some.inj hw ▸ .refl v⟩, fun h => by cases h⟩
  | cons name path ih =>
    have hfind : find? name [(name, nested path v)] = some (nested path v) := if_pos rfl
    refine ⟨⟨_, rfl, isSorted_singleton _ _, fun w hw => ?_⟩, fun w hw => ?_, fun h => by cases h⟩
    · rw [hfind] at hw
      exact Option.some.inj hw ▸ ih.opens
    · rw [nested, at?, hfind]
      exact ih.said w hw

theorem shows_nested_of_apart {path path' : List String} (h : Apart path path') (v : Value) :
    Shows path (nested path' v) none := by
  induction path generalizing path' with
  | nil => exact absurd List.nil_prefix h.1
  | cons name path ih =>
    cases path' with
    | nil => exact absurd List.nil_prefix h.2
    | cons name' path' =>
      by_cases hname : name' = name
      · subst hname
        have hapart : Apart path path' := by simpa [Apart, List.cons_prefix_cons] using h
        have hfind : find? name' [(name', nested path' v)] = some (nested path' v) := if_pos rfl
        have hinner := ih hapart
        refine ⟨⟨_, rfl, isSorted_singleton _ _, fun w hw => ?_⟩, fun w hw => absurd hw (by simp), fun _ => ?_⟩
        · rw [hfind] at hw
          exact Option.some.inj hw ▸ hinner.opens
        · rw [nested, at?, hfind]
          exact hinner.unsaid rfl
      · have hfind : find? name [(name', nested path' v)] = none := if_neg hname
        refine ⟨⟨_, rfl, isSorted_singleton _ _, fun w hw => ?_⟩, fun w hw => absurd hw (by simp), fun _ => ?_⟩
        · rw [hfind] at hw
          cases hw
        · rw [nested, at?, hfind]
          rfl

end Value

/-! ### Variables -/

namespace Variable

open Value (Apart Shows)

/-- What the last of the variables says that belong to a place. -/
def said? (vars : List (String × String)) (path : List String) : Option Value :=
  (vars.reverse.find? fun x => decide (path? x.1 = some path)).map fun x => value x.2

theorem said?_concat (vars : List (String × String)) (x : String × String) (path : List String) :
    said? (vars ++ [x]) path = if path? x.1 = some path then some (value x.2) else said? vars path := by
  rw [said?, List.reverse_concat, List.find?_cons]
  by_cases h : path? x.1 = some path
  · simp [h]
  · simp [h, said?]

theorem layer_concat (vars : List (String × String)) (x : String × String) :
    layer (vars ++ [x]) =
      (path? x.1).elim (layer vars) fun path => (layer vars).overlay (Value.nested path (value x.2)) := by
  obtain ⟨name, text⟩ := x
  rw [layer, List.foldl_concat, ← layer]
  dsimp only
  cases path? name <;> rfl

/-- **The layer of the variables says what the last variable says** that belongs to a place, if none belongs to a place
around it or inside it. -/
theorem shows_layer {vars : List (String × String)} {path : List String} (hne : path ≠ [])
    (hvars : ∀ x ∈ vars, ∀ path', path? x.1 = some path' → path' = path ∨ Apart path path') :
    Shows path (layer vars) (said? vars path) := by
  induction vars using List.reverseRecOn with
  | nil =>
    obtain ⟨name, path, rfl⟩ := List.exists_cons_of_ne_nil hne
    exact ⟨⟨[], rfl, Value.isSorted_nil, fun w hw => absurd hw (by simp [Value.find?])⟩,
      fun v hv => absurd hv (by simp [said?]), fun _ => rfl⟩
  | append_singleton vars x ih =>
    have hbefore := ih fun y hy => hvars y (List.mem_append_left _ hy)
    rw [layer_concat, said?_concat]
    cases hx : path? x.1 with
    | none => simpa using hbefore
    | some path' =>
      obtain rfl | hapart := hvars x (by simp) path' hx
      · rw [if_pos rfl]
        exact hbefore.overlay (Value.shows_nested_self _ _)
      · have hne' : path' ≠ path := by
          rintro rfl
          exact hapart.1 (List.prefix_refl _)
        rw [if_neg fun h => hne' (Option.some.inj h)]
        exact hbefore.overlay (Value.shows_nested_of_apart hapart _)

end Variable

end TurnRelay.Settings
