import TurnRelay.Proofs.Settings.Variables

/-!
# One setting among layers

Laying over is not commutative, as the upper layer wins, and not even associative: what is no table in a layer between
hides the tables below it, but not from the one above. A single setting, however, that no layer says but one may be said
anywhere. It may be said in a layer of its own on top of all, in one below others, or in a layer together with other
settings, as long as it stands in tables wherever there is something on the way to it.

## The model

* `Value.Lacks` — a layer says nothing at a place, and has tables on the way to it.

## What is proved

* `IsSorted.ext` — sorted entries are known by what is found under each name.
* `overlay_exchange` — a layer that lacks a place may be laid below a setting at this place, or over it.
* `overlay_nested_assoc` — a setting may be laid over a layer, or over all below it as well.
* `lacks_layer`, `layer_insert` — among variables, the one that belongs to a place might as well be the last.
-/

namespace TurnRelay.Settings

namespace Value

variable {path : List String} {t u v w leaf : Value} {es es' lower upper : Entries} {name : String}

/-! ### Entries -/

/-- Entries behind another have greater names. -/
theorem IsSorted.lt_of_find? {e : String × Value} (h : IsSorted (e :: es)) (hv : find? name es = some v) :
    e.1 < name := (List.pairwise_cons.1 h).1 _ (mem_of_find? hv)

/-- **Sorted entries are known by what is found under each name.** -/
theorem IsSorted.ext (h : IsSorted es) (h' : IsSorted es') (hfind : ∀ name, find? name es = find? name es') :
    es = es' := by
  induction es generalizing es' with
  | nil =>
    cases es' with
    | nil => rfl
    | cons e' es' =>
      have hno := hfind e'.1
      rw [find?, find?, if_pos rfl] at hno
      cases hno
  | cons e es ih =>
    obtain ⟨k, v⟩ := e
    cases es' with
    | nil =>
      have hno := hfind k
      rw [find?, find?, if_pos rfl] at hno
      cases hno
    | cons e' es' =>
      obtain ⟨k', v'⟩ := e'
      have hk := hfind k
      have hk' := hfind k'
      simp only [find?, if_true] at hk hk'
      -- each of the two first names is found in the other list, and so not in front of its first
      have heq : k = k' := by
        by_contra hne
        rw [if_neg (Ne.symm hne)] at hk
        rw [if_neg hne] at hk'
        exact lt_asymm (h.lt_of_find? hk') (h'.lt_of_find? hk.symm)
      subst heq
      rw [if_pos rfl] at hk
      obtain rfl := Option.some.inj hk
      have htail : es = es' := by
        refine ih (List.pairwise_cons.1 h).2 (List.pairwise_cons.1 h').2 fun name => ?_
        by_cases hname : k = name
        · subst hname
          have hnone := h.find?_tail
          have hnone' := h'.find?_tail
          rw [hnone, hnone']
        · have hfound := hfind name
          rwa [find?, find?, if_neg hname, if_neg hname] at hfound
      rw [htail]

theorem empty_overlay (h : IsSorted es) : (table []).overlay (.table es) = .table es := by
  rw [overlay, onto]
  refine congrArg table ((isSorted_nil.entriesOnto es).ext h fun name => ?_)
  rw [find?_entriesOnto isSorted_nil h]
  cases find? name es <;> rfl

/-- The entries of a table over which one entry is laid. -/
theorem find?_entriesOnto_singleton (h : IsSorted lower) (name : String) (v : Value) (key : String) :
    find? key (entriesOnto [(name, v)] lower) =
      if key = name then some ((find? name lower).elim v v.onto) else find? key lower := by
  rw [find?_entriesOnto h (isSorted_singleton name v), find?]
  by_cases hkey : key = name
  · subst hkey
    rw [if_pos rfl, if_pos rfl]
    rfl
  · rw [if_neg (Ne.symm hkey), if_neg hkey]
    rfl

/-! ### One setting -/

/-- A layer says nothing at a place, and has tables on the way to it. -/
structure Lacks (path : List String) (v : Value) : Prop where
  /-- There are tables on the way. -/
  opens : Opens path v
  /-- Nothing is there. -/
  nothing : at? path v = none

theorem Lacks.shows (h : Lacks path v) : Shows path v none :=
  ⟨h.opens, fun w hw => absurd hw (by simp), fun _ => h.nothing⟩

theorem not_lacks_nil (v : Value) : ¬ Lacks [] v := fun h => by cases h.nothing

theorem Lacks.inner {path : List String} (h : Lacks (name :: path) (.table es)) (hv : find? name es = some v) :
    Lacks path v := by
  obtain ⟨⟨es', hes, -, hopens⟩, hnone⟩ := h
  cases hes
  rw [at?, hv] at hnone
  exact ⟨hopens v hv, hnone⟩

theorem Lacks.overlay (ht : Lacks path t) (hu : Lacks path u) : Lacks path (t.overlay u) :=
  ⟨opens_overlay ht.opens hu.opens, by rw [at?_overlay_of_none ht.opens hu.opens hu.nothing, ht.nothing]⟩

/-- **A layer that lacks a place** may be laid over a setting at this place, or below it. -/
theorem overlay_exchange (leaf : Value) (ht : Opens path t) (hu : Lacks path u) :
    (t.overlay (nested path leaf)).overlay u = (t.overlay u).overlay (nested path leaf) := by
  induction path generalizing t u with
  | nil => exact absurd hu (not_lacks_nil u)
  | cons name path ih =>
    obtain ⟨lower, rfl, hlower, hinner⟩ := ht
    obtain ⟨upper, rfl, hupper, -⟩ := hu.opens
    have hsingle := isSorted_singleton name (nested path leaf)
    simp only [overlay, nested, onto]
    refine congrArg table (((hlower.entriesOnto _).entriesOnto _).ext ((hlower.entriesOnto _).entriesOnto _)
      fun key => ?_)
    rw [find?_entriesOnto (hlower.entriesOnto _) hupper, find?_entriesOnto_singleton hlower,
      find?_entriesOnto_singleton (hlower.entriesOnto _), find?_entriesOnto hlower hupper,
      find?_entriesOnto hlower hupper]
    by_cases hkey : key = name
    · subst hkey
      rw [if_pos rfl, if_pos rfl]
      cases hfound : find? key upper with
      | none => rfl
      | some w =>
        have hw : Lacks path w := hu.inner hfound
        cases hbelow : find? key lower with
        | some y => exact congrArg some (ih (hinner y hbelow) hw)
        | none =>
          -- neither was there, so it is as if both were laid over an empty table
          cases path with
          | nil => exact absurd hw (not_lacks_nil w)
          | cons name' path =>
            obtain ⟨ws, rfl, hws, -⟩ := hw.opens
            have hempty : Opens (name' :: path) (table []) := ⟨[], rfl, isSorted_nil, fun w hw => by cases hw⟩
            have hboth := ih hempty hw
            rw [nested, empty_overlay (isSorted_singleton _ _), empty_overlay hws] at hboth
            exact congrArg some hboth
    · rw [if_neg hkey, if_neg hkey]

/-- **A setting may be laid over a layer**, or over everything below the layer as well. -/
theorem overlay_nested_assoc (hleaf : ∀ w, leaf.onto w = leaf) (ht : Opens path t) (hu : Opens path u) :
    t.overlay (u.overlay (nested path leaf)) = (t.overlay u).overlay (nested path leaf) := by
  induction path generalizing t u with
  | nil => rw [nested, overlay, overlay, overlay, hleaf, hleaf, hleaf]
  | cons name path ih =>
    obtain ⟨lower, rfl, hlower, hinner⟩ := ht
    obtain ⟨upper, rfl, hupper, hinner'⟩ := hu
    simp only [overlay, nested, onto]
    have hsorted := hupper.entriesOnto [(name, nested path leaf)]
    refine congrArg table ((hlower.entriesOnto _).ext ((hlower.entriesOnto _).entriesOnto _) fun key => ?_)
    rw [find?_entriesOnto hlower hsorted, find?_entriesOnto_singleton hupper,
      find?_entriesOnto_singleton (hlower.entriesOnto _), find?_entriesOnto hlower hupper,
      find?_entriesOnto hlower hupper]
    by_cases hkey : key = name
    · subst hkey
      rw [if_pos rfl, if_pos rfl]
      cases hupperFound : find? key upper with
      | none => cases find? key lower <;> rfl
      | some w =>
        cases hlowerFound : find? key lower with
        | none => rfl
        | some y => exact congrArg some (ih (hinner y hlowerFound) (hinner' w hupperFound))
    · rw [if_neg hkey, if_neg hkey]

end Value

/-! ### Variables -/

namespace Variable

open Value (Lacks Opens)

variable {path : List String}

/-- What a variable says lacks a place, if it belongs anywhere. -/
def Lacks (path : List String) (x : String × String) : Prop :=
  ∀ path', path? x.1 = some path' → Value.Lacks path (Value.nested path' (value x.2))

/-- **Variables that lack a place lack it together.** -/
theorem lacks_layer (hne : path ≠ []) {vars : List (String × String)} (h : ∀ x ∈ vars, Variable.Lacks path x) :
    Value.Lacks path (layer vars) := by
  induction vars using List.reverseRecOn with
  | nil =>
    obtain ⟨name, path, rfl⟩ := List.exists_cons_of_ne_nil hne
    exact ⟨⟨[], rfl, Value.isSorted_nil, fun w hw => by cases hw⟩, rfl⟩
  | append_singleton vars x ih =>
    have hbefore := ih fun y hy => h y (List.mem_append_left _ hy)
    rw [layer_concat]
    cases hx : path? x.1 with
    | none => exact hbefore
    | some path' => exact hbefore.overlay (h x (by simp) path' hx)

/-- **A variable among others that lack its place** might as well be the last. -/
theorem layer_insert {before after : List (String × String)} {x : String × String} (hx : path? x.1 = some path)
    (h : ∀ y ∈ before ++ after, Variable.Lacks path y) :
    layer (before ++ x :: after) = (layer (before ++ after)).overlay (Value.nested path (value x.2)) := by
  induction after using List.reverseRecOn with
  | nil =>
    rw [layer_concat, hx, List.append_nil]
    rfl
  | append_singleton after y ih =>
    have hothers : ∀ z ∈ before ++ after, Variable.Lacks path z := fun z hz =>
      h z (by rw [← List.append_assoc]; exact List.mem_append_left _ hz)
    have hlayer := lacks_layer (path?_ne_nil hx) hothers
    rw [← List.cons_append, ← List.append_assoc, ← List.append_assoc, layer_concat, layer_concat, ih hothers]
    cases hy : path? y.1 with
    | none => rfl
    | some path' => exact Value.overlay_exchange _ hlayer.opens (h y (by simp) path' hy)

end Variable

end TurnRelay.Settings
