import TurnRelay.Proofs.Settings.Layering

/-!
# Settings files as layers

The reader of settings files builds a tree as it goes and makes tables of it at the end. The tables of its tree become
tables with sorted entries; an inline table became one when it was read, and since then it stands in the tree as a
value. So to know that the sections of a document are sorted, whichever way they were written, one has to follow the
values into the tree and through all that may still happen to it.

## The model

* `Value.Orderly`, `Node.Orderly` — tables have sorted entries, now or when they are made.
* `Keeps` — a change of a table keeps it so.

## What is proved

* `orderly_of_value?` — the values that are read are orderly.
* `keeps_descend`, `keeps_within` — a change of some table inside keeps the whole orderly.
* `exists_of_parse?` — a document is a table of sorted entries, and so is each of its sections that is a table.
-/

namespace TurnRelay.Settings

open Value (IsSorted)

/-- The value is a table of sorted entries, if it is a table. -/
def Value.Orderly (v : Value) : Prop := ∀ es, v = .table es → IsSorted es

theorem Value.orderly_ofEntries (es : Value.Entries) : (Value.ofEntries es).Orderly := by
  obtain ⟨t, ht, hsorted, -⟩ := Value.exists_ofEntries es
  intro es' hes'
  rw [ht] at hes'
  cases hes'
  exact hsorted

namespace Toml

/-- Values in the tree are orderly. -/
inductive Node.Orderly : Node → Prop where
  /-- The value itself is. -/
  | leaf {v : Value} : v.Orderly → Node.Orderly (.leaf v)
  /-- Those in a table are. -/
  | table {origin : Origin} {entries : List (String × Node)} : (∀ e ∈ entries, Node.Orderly e.2) →
      Node.Orderly (.table origin entries)
  /-- Those in all tables of a series are. -/
  | series {tables : List (List (String × Node))} : (∀ t ∈ tables, ∀ e ∈ t, Node.Orderly e.2) →
      Node.Orderly (.series tables)

/-- The values in the entries of a table are orderly. -/
def Nodes.Orderly (ns : Nodes) : Prop := ∀ e ∈ ns, e.2.Orderly

/-- A change keeps the values in a table orderly. -/
def Keeps (change : Nodes → Option Nodes) : Prop :=
  ∀ ns ns', Nodes.Orderly ns → change ns = some ns' → Nodes.Orderly ns'

variable {name : String} {n : Node} {ns : Nodes} {v : Value} {change : Nodes → Option Nodes} {origin : Origin}

theorem orderly_nil : Nodes.Orderly [] := fun _ h => absurd h List.not_mem_nil

theorem Node.Orderly.entries {entries : Nodes} (h : Node.Orderly (.table origin entries)) : Nodes.Orderly entries := by
  cases h with
  | table h => exact h

theorem Node.Orderly.tables {tables : List Nodes} (h : Node.Orderly (.series tables)) :
    ∀ t ∈ tables, Nodes.Orderly t := by
  cases h with
  | series h => exact h

theorem Nodes.Orderly.find? (h : Nodes.Orderly ns) (hn : Nodes.find? name ns = some n) : n.Orderly := by
  obtain ⟨e, he, rfl⟩ := Option.map_eq_some_iff.1 hn
  exact h e (List.mem_of_find?_eq_some he)

theorem Nodes.Orderly.put (h : Nodes.Orderly ns) (hn : n.Orderly) : Nodes.Orderly (Nodes.put name n ns) := by
  intro e he
  unfold Nodes.put at he
  split at he
  · obtain ⟨e', he', rfl⟩ := List.mem_map.1 he
    split
    · exact hn
    · exact h e' he'
  · obtain he | he := List.mem_append.1 he
    · exact h e he
    · obtain rfl := List.mem_singleton.1 he
      exact hn

/-- The last table of a series is changed, and the others stay. -/
theorem orderly_series {tables : List Nodes} {t : Nodes} (h : ∀ t ∈ tables, Nodes.Orderly t)
    (ht : Nodes.Orderly t) : Node.Orderly (.series (tables.dropLast ++ [t])) := by
  refine .series fun t' ht' => ?_
  obtain ht' | ht' := List.mem_append.1 ht'
  · exact h t' (List.dropLast_subset _ ht')
  · obtain rfl := List.mem_singleton.1 ht'
    exact ht

/-! ### Changes -/

theorem keeps_place (name : String) (hv : v.Orderly) : Keeps (place name v) := by
  intro ns ns' h hplace
  unfold place at hplace
  split at hplace
  · cases hplace
  · cases hplace
    exact h.put (.leaf hv)

theorem keeps_openTable (name : String) : Keeps (openTable name) := by
  intro ns ns' h hopen
  unfold openTable at hopen
  split at hopen
  · cases hopen
    exact h.put (.table fun e he => absurd he List.not_mem_nil)
  · rename_i inner hfind
    cases hopen
    exact h.put (.table (h.find? hfind).entries)
  · cases hopen

theorem keeps_openNext (name : String) : Keeps (openNext name) := by
  intro ns ns' h hopen
  unfold openNext at hopen
  split at hopen
  · cases hopen
    refine h.put (.series fun t ht => ?_)
    obtain rfl := List.mem_singleton.1 ht
    exact orderly_nil
  · rename_i tables hfind
    cases hopen
    refine h.put (.series fun t ht => ?_)
    obtain ht | ht := List.mem_append.1 ht
    · exact (h.find? hfind).tables t ht
    · obtain rfl := List.mem_singleton.1 ht
      exact orderly_nil
  · cases hopen

/-- A change of a table inside, on a path that is made as far as it is not there. -/
theorem keeps_descend (hc : Keeps change) (origin : Origin) (path : List String) :
    Keeps (descend origin change path) := by
  induction path with
  | nil => exact hc
  | cons name path ih =>
    intro ns ns' h hd
    rw [descend] at hd
    split at hd
    · obtain ⟨inner, hinner, hd⟩ := Option.bind_eq_some_iff.1 hd
      cases hd
      exact h.put (.table (ih _ _ orderly_nil hinner))
    · rename_i o inner hfind
      split at hd
      · cases hd
      · obtain ⟨inner', hinner, hd⟩ := Option.bind_eq_some_iff.1 hd
        cases hd
        exact h.put (.table (ih _ _ (h.find? hfind).entries hinner))
    · rename_i tables hfind
      have htables := (h.find? hfind).tables
      split at hd
      · cases hd
      · split at hd
        · cases hd
        · rename_i last hlast
          obtain ⟨inner, hinner, hd⟩ := Option.bind_eq_some_iff.1 hd
          cases hd
          exact h.put (orderly_series htables (ih _ _ (htables _ (List.mem_of_getLast? hlast)) hinner))
    · cases hd

/-- A change of a table inside, on a path that is there. -/
theorem keeps_within (hc : Keeps change) (path : List String) : Keeps (within change path) := by
  induction path with
  | nil => exact hc
  | cons name path ih =>
    intro ns ns' h hd
    rw [within] at hd
    split at hd
    · rename_i o inner hfind
      obtain ⟨inner', hinner, hd⟩ := Option.bind_eq_some_iff.1 hd
      cases hd
      exact h.put (.table (ih _ _ (h.find? hfind).entries hinner))
    · rename_i tables hfind
      have htables := (h.find? hfind).tables
      split at hd
      · cases hd
      · rename_i last hlast
        obtain ⟨inner, hinner, hd⟩ := Option.bind_eq_some_iff.1 hd
        cases hd
        exact h.put (orderly_series htables (ih _ _ (htables _ (List.mem_of_getLast? hlast)) hinner))
    · cases hd

/-! ### Values -/

/-- Whatever is read is orderly. -/
def Tidies (o : Option Value) : Prop := ∀ v, o = some v → v.Orderly

theorem tidies_none : Tidies none := fun _ h => by cases h

/-- All values but tables are. -/
theorem tidies_some (h : ∀ es, v ≠ .table es) : Tidies (some v) := by
  rintro v' ⟨⟩ es rfl
  exact absurd rfl (h es)

theorem tidies_bind {α : Type} {o : Option α} {f : α → Option Value} (h : ∀ a, Tidies (f a)) : Tidies (o >>= f) := by
  intro v hv
  obtain ⟨a, -, ha⟩ := Option.bind_eq_some_iff.1 hv
  exact h a v ha

theorem tidies_ite {c : Prop} [Decidable c] {o o' : Option Value} (h : Tidies o) (h' : Tidies o') :
    Tidies (if c then o else o') := by
  split
  · exact h
  · exact h'

theorem tidies_based? (base : Nat) (cs : List Char) : Tidies (based? base cs) :=
  tidies_bind fun _ => tidies_ite (tidies_some fun _ => by simp) tidies_none

theorem tidies_number? (cs : List Char) : Tidies (number? cs) := by
  unfold number?
  -- every way to the end ends with an integer or a float
  repeat' first
    | exact tidies_none
    | exact tidies_some fun _ => by simp
    | refine tidies_bind fun _ => ?_
    | refine tidies_ite ?_ ?_
    | split
    | dsimp only

theorem orderly_of_word? {cs rest : List Char} (h : word? cs = some (v, rest)) : v.Orderly := by
  unfold word? at h
  split at h
  · cases h
    rintro es ⟨⟩
    exact Value.isSorted_singleton _ _
  · -- whichever word it is, it is read first and then stands before the rest
    have hrest {o : Option Value} (ho : Tidies o) {tail : List Char}
        (h : (o.bind fun v => some (v, tail)) = some (v, rest)) : v.Orderly := by
      obtain ⟨w, hw, h⟩ := Option.bind_eq_some_iff.1 h
      cases h
      exact ho _ hw
    dsimp only at h
    split at h
    · exact hrest (tidies_some fun _ => by simp) h
    · exact hrest (tidies_some fun _ => by simp) h
    · exact hrest (tidies_based? _ _) h
    · exact hrest (tidies_based? _ _) h
    · exact hrest (tidies_based? _ _) h
    · exact hrest (tidies_number? _) h

/-- **The values that are read are orderly.** -/
theorem orderly_of_value? {fuel : Nat} {cs rest : List Char} (h : value? fuel cs = some (v, rest)) : v.Orderly := by
  cases fuel with
  | zero => cases h
  | succ fuel =>
    rw [value?.eq_def] at h
    dsimp only at h
    split at h
    · obtain ⟨x, -, h⟩ := Option.map_eq_some_iff.1 h
      cases h
      exact fun es hes => by cases hes
    · split at h
      · cases h
        rintro es ⟨⟩
        exact Value.isSorted_nil
      · obtain ⟨x, -, h⟩ := Option.map_eq_some_iff.1 h
        cases h
        exact Value.orderly_ofEntries _
    · obtain ⟨x, -, h⟩ := Option.map_eq_some_iff.1 h
      cases h
      exact fun es hes => by cases hes
    · obtain ⟨x, -, h⟩ := Option.map_eq_some_iff.1 h
      cases h
      exact fun es hes => by cases hes
    · exact orderly_of_word? h

/-! ### Documents -/

/-- The lines of a document are read into the tree. -/
theorem orderly_of_lines? {fuel : Nat} {here : List String} {ns ns' : Nodes} {cs : List Char} (h : Nodes.Orderly ns)
    (hl : lines? fuel here ns cs = some ns') : Nodes.Orderly ns' := by
  induction fuel generalizing here ns cs with
  | zero => cases hl
  | succ fuel ih =>
    rw [lines?] at hl
    split at hl
    · cases hl
      exact h
    · obtain ⟨⟨path, name, rest⟩, -, hl⟩ := Option.bind_eq_some_iff.1 hl
      obtain ⟨ns₁, hns₁, hl⟩ := Option.bind_eq_some_iff.1 hl
      exact ih (keeps_descend (keeps_openNext name) _ _ _ _ h hns₁) hl
    · obtain ⟨⟨path, name, rest⟩, -, hl⟩ := Option.bind_eq_some_iff.1 hl
      obtain ⟨ns₁, hns₁, hl⟩ := Option.bind_eq_some_iff.1 hl
      exact ih (keeps_descend (keeps_openTable name) _ _ _ _ h hns₁) hl
    · obtain ⟨⟨path, name, rest⟩, -, hl⟩ := Option.bind_eq_some_iff.1 hl
      dsimp only at hl
      split at hl
      · obtain ⟨⟨v, rest'⟩, hv, hl⟩ := Option.bind_eq_some_iff.1 hl
        obtain ⟨ns₁, hns₁, hl⟩ := Option.bind_eq_some_iff.1 hl
        obtain ⟨rest'', -, hl⟩ := Option.bind_eq_some_iff.1 hl
        have hplace := keeps_place name (orderly_of_value? hv)
        exact ih (keeps_within (keeps_descend hplace _ _) _ _ _ h hns₁) hl
      · cases hl

theorem Node.Orderly.value (h : n.Orderly) : n.value.Orderly := by
  cases h with
  | leaf h => exact h
  | table h => exact Value.orderly_ofEntries _
  | series h => exact fun es hes => by cases hes

theorem exists_of_mem_entryValues {e : String × Value} {ns : Nodes} (h : e ∈ entryValues ns) :
    ∃ n, (e.1, n) ∈ ns ∧ e.2 = n.value := by
  induction ns with
  | nil => cases h
  | cons e' ns ih =>
    obtain ⟨k, n⟩ := e'
    rw [entryValues] at h
    obtain rfl | h := List.mem_cons.1 h
    · exact ⟨n, List.mem_cons_self, rfl⟩
    · obtain ⟨n', hn', he⟩ := ih h
      exact ⟨n', List.mem_cons_of_mem _ hn', he⟩

/-- **A document is a table of sorted entries**, and so is each of its sections that is a table. -/
theorem exists_of_parse? {text : String} (h : parse? text = some v) :
    ∃ es, v = .table es ∧ IsSorted es ∧ ∀ name w, Value.find? name es = some w → w.Orderly := by
  obtain ⟨ns, hns, rfl⟩ := Option.map_eq_some_iff.1 h
  have horderly := orderly_of_lines? orderly_nil hns
  obtain ⟨t, ht, hsorted, hfrom⟩ := Value.exists_ofEntries (entryValues ns)
  refine ⟨t, ht, hsorted, fun name w hw => ?_⟩
  obtain ⟨n, hn, hvalue⟩ := exists_of_mem_entryValues (hfrom name w hw)
  have hvalue : w = n.value := hvalue
  exact hvalue ▸ (horderly _ hn).value

end Toml

end TurnRelay.Settings
