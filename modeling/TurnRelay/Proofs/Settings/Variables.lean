import TurnRelay.Proofs.Settings.Document
import TurnRelay.Proofs.Settings.Literals

/-!
# Variables as a layer

Each variable says one table inside another down to its place, and all of them are laid over one another. What comes of
it is a table of sorted entries, and so is each of its sections that is a table: whatever a variable says, a table in
braces as well, is sorted when it is read.

## The model

* `Value.IsLayer` — a table of sorted entries, with sorted sections.

## What is proved

* `path?_ne_nil` — a variable that belongs to a place has a name for it.
* `orderly_value` — what a variable says is orderly.
* `isLayer_layer` — all variables together are a layer.
-/

namespace TurnRelay.Settings

open Value (IsSorted)

variable {v w : Value}

/-- A layer: a table of sorted entries, of which those that are tables are sorted as well. -/
def Value.IsLayer (v : Value) : Prop :=
  ∃ es, v = .table es ∧ IsSorted es ∧ ∀ name w, Value.find? name es = some w → w.Orderly

/-- What is laid over something orderly is orderly. -/
theorem Value.Orderly.onto (hv : v.Orderly) (hw : w.Orderly) : (v.onto w).Orderly := by
  cases v with
  | table upper =>
    cases w with
    | table lower =>
      rw [Value.onto]
      rintro es ⟨⟩
      exact (hw lower rfl).entriesOnto upper
    | _ =>
      rw [Value.onto]
      · exact hv
      · exact fun _ h => by cases h
  | _ =>
    rw [Value.onto]
    exact fun _ h => by cases h

theorem Value.orderly_nested (path : List String) (hv : v.Orderly) : (Value.nested path v).Orderly := by
  cases path with
  | nil => exact hv
  | cons name path =>
    rintro es ⟨⟩
    exact Value.isSorted_singleton _ _

namespace Variable

theorem pieces_ne_nil (cs : List Char) : pieces cs ≠ [] := by
  cases cs with
  | nil => simp [pieces]
  | cons c cs =>
    rw [pieces, List.foldr_cons]
    split
    · exact List.cons_ne_nil _ _
    · split <;> exact List.cons_ne_nil _ _

/-- A variable that belongs to a place has a name for it. -/
theorem path?_ne_nil {name : String} {path : List String} (h : path? name = some path) : path ≠ [] := by
  unfold path? at h
  dsimp only at h
  split at h
  · split at h
    · cases h
    · cases h
      exact fun hnil => pieces_ne_nil _ (List.map_eq_nil_iff.1 hnil)
  · cases h

theorem Reads.orderly {cs : List Char} (h : Reads cs v) : v.Orderly := by
  cases h with
  | table es rest => exact Value.orderly_ofEntries es
  | word =>
    intro es hes
    obtain ⟨x, hx⟩ | ⟨signed, i, hx⟩ | ⟨s, hx⟩ := word_cases _ <;> rw [hx] at hes <;> cases hes
  | _ => exact fun es hes => by cases hes

/-- **What a variable says is orderly.** -/
theorem orderly_value (text : String) : (value text).Orderly := by
  unfold value
  dsimp only
  split
  · rename_i hread
    exact (reads_of_read? hread).orderly
  · exact fun es hes => by cases hes

/-- **All variables together are a layer.** -/
theorem isLayer_layer (vars : List (String × String)) : (layer vars).IsLayer := by
  induction vars using List.reverseRecOn with
  | nil => exact ⟨[], rfl, Value.isSorted_nil, fun name w h => by cases h⟩
  | append_singleton vars x ih =>
    rw [layer_concat]
    cases hx : path? x.1 with
    | none => exact ih
    | some path =>
      obtain ⟨lower, hlower, hsorted, horderly⟩ := ih
      obtain ⟨name, path, rfl⟩ := List.exists_cons_of_ne_nil (path?_ne_nil hx)
      have hupper := Value.isSorted_singleton name (Value.nested path (value x.2))
      rw [Option.elim, hlower, Value.overlay, Value.nested, Value.onto]
      refine ⟨_, rfl, hsorted.entriesOnto _, fun key w hw => ?_⟩
      rw [Value.find?_entriesOnto hsorted hupper] at hw
      have hnested := Value.orderly_nested path (orderly_value x.2)
      by_cases hname : name = key
      · rw [Value.find?, if_pos hname] at hw
        cases hold : Value.find? key lower with
        | none =>
          rw [hold] at hw
          cases hw
          exact hnested
        | some u =>
          rw [hold] at hw
          cases hw
          exact hnested.onto (horderly _ _ hold)
      · rw [Value.find?, if_neg hname] at hw
        exact horderly _ _ hw

end Variable

end TurnRelay.Settings
