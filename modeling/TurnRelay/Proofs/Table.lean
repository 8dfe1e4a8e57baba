import TurnRelay.Table

/-!
# What tables hold

What is found under a key after each operation on a table, and which entries there are then.

## What is proved

* `get?_set`, `get?_modify`, `get?_erase` — what is found under a key.
* `mem_set`, `mem_erase` — which entries there are.
* `HasDistinctKeys.mem_iff` — of distinct keys every entry is found; the operations keep them so.
* `get?_keep`, `keep_set`, `keep_modify`, `keep_erase` — the same for some of the entries only.
-/

namespace TurnRelay.Table

variable {κ α : Type} [DecidableEq κ]

/-! ### What is found under a key -/

theorem get?_nil (k : κ) : (⟨[]⟩ : Table κ α).get? k = none := rfl

theorem get?_cons (e : κ × α) (es : List (κ × α)) (k : κ) :
    (⟨e :: es⟩ : Table κ α).get? k = if e.1 = k then some e.2 else (⟨es⟩ : Table κ α).get? k := by
  by_cases h : e.1 = k <;> simp [get?, h]

theorem get?_append (es fs : List (κ × α)) (k : κ) :
    (⟨es ++ fs⟩ : Table κ α).get? k = ((⟨es⟩ : Table κ α).get? k).or ((⟨fs⟩ : Table κ α).get? k) := by
  induction es with
  | nil => rfl
  | cons e es ih =>
    rw [List.cons_append, get?_cons, get?_cons, ih]
    split <;> rfl

theorem get?_modify (t : Table κ α) (k k' : κ) (f : α → α) :
    (t.modify k f).get? k' = if k' = k then (t.get? k).map f else t.get? k' := by
  obtain ⟨es⟩ := t
  simp only [modify]
  induction es with
  | nil => simp [get?_nil]
  | cons e es ih =>
    rw [List.map_cons, get?_cons, get?_cons, get?_cons, ih]
    by_cases hk : k' = k
    · subst hk
      by_cases he : e.1 = k' <;> simp [he]
    · by_cases he : e.1 = k
      · subst he
        simp [hk, Ne.symm hk]
      · simp [he, hk]

/-- To put an entry in the place of the one of its key is to change that one. -/
theorem replace_eq_modify (es : List (κ × α)) (k : κ) (a : α) :
    (⟨es.map fun e => if e.1 = k then (k, a) else e⟩ : Table κ α) = (⟨es⟩ : Table κ α).modify k fun _ => a := by
  simp only [modify, mk.injEq]
  refine List.map_congr_left fun e _ => ?_
  split
  · rename_i h
    rw [h]
  · rfl

/-- An entry that takes the place of one of its key. -/
theorem get?_replace (es : List (κ × α)) (k k' : κ) (a : α) :
    (⟨es.map fun e => if e.1 = k then (k, a) else e⟩ : Table κ α).get? k' =
      if k' = k then ((⟨es⟩ : Table κ α).get? k).map fun _ => a else (⟨es⟩ : Table κ α).get? k' := by
  rw [replace_eq_modify, get?_modify]

theorem get?_set (t : Table κ α) (k k' : κ) (a : α) :
    (t.set k a).get? k' = if k' = k then some a else t.get? k' := by
  unfold set
  split
  · rename_i hc
    obtain ⟨b, hb⟩ := Option.isSome_iff_exists.1 hc
    rw [get?_replace]
    split
    · show (t.get? k).map (fun _ => a) = some a
      rw [hb]
      rfl
    · rfl
  · rename_i hc
    have hn : t.get? k = none := by simpa [contains] using hc
    rw [get?_append, get?_cons]
    by_cases hk : k' = k
    · subst hk
      show (t.get? k').or _ = _
      simp [hn]
    · show (t.get? k').or _ = _
      simp [Ne.symm hk, hk, get?_nil]

theorem get?_erase (t : Table κ α) (k k' : κ) :
    (t.erase k).get? k' = if k' = k then none else t.get? k' := by
  obtain ⟨es⟩ := t
  simp only [erase]
  induction es with
  | nil => simp [get?_nil]
  | cons e es ih =>
    rw [List.filter_cons, get?_cons]
    by_cases he : e.1 = k
    · subst he
      simp only [ne_eq, not_true_eq_false, decide_false, Bool.false_eq_true, if_false, ih]
      by_cases hk : k' = e.1
      · simp [hk]
      · simp [hk, Ne.symm hk]
    · simp only [ne_eq, he, not_false_eq_true, decide_true, if_true, get?_cons, ih]
      by_cases hk : k' = k
      · subst hk
        simp [he]
      · simp [hk]

theorem get?_set_self (t : Table κ α) (k : κ) (a : α) : (t.set k a).get? k = some a := by
  rw [get?_set, if_pos rfl]

theorem get?_set_of_ne (t : Table κ α) {k k' : κ} (a : α) (h : k' ≠ k) :
    (t.set k a).get? k' = t.get? k' := by
  rw [get?_set, if_neg h]

theorem get?_erase_self (t : Table κ α) (k : κ) : (t.erase k).get? k = none := by
  rw [get?_erase, if_pos rfl]

theorem get?_erase_of_ne (t : Table κ α) {k k' : κ} (h : k' ≠ k) : (t.erase k).get? k' = t.get? k' := by
  rw [get?_erase, if_neg h]

theorem get?_erase_eq_some_iff {t : Table κ α} {k k' : κ} {a : α} :
    (t.erase k).get? k' = some a ↔ k' ≠ k ∧ t.get? k' = some a := by
  by_cases h : k' = k <;> simp [get?_erase, h]

/-- What is found after a removal was there before. -/
theorem get?_of_erase {t : Table κ α} {k k' : κ} {a : α} (h : (t.erase k).get? k' = some a) :
    t.get? k' = some a := (get?_erase_eq_some_iff.1 h).2

theorem get?_modify_of_ne (t : Table κ α) {k k' : κ} (f : α → α) (h : k' ≠ k) :
    (t.modify k f).get? k' = t.get? k' := by
  rw [get?_modify, if_neg h]

theorem isSome_get?_modify (t : Table κ α) (k k' : κ) (f : α → α) :
    ((t.modify k f).get? k').isSome = (t.get? k').isSome := by
  rw [get?_modify]
  split
  · rename_i h
    rw [Option.isSome_map, h]
  · rfl

/-! ### Which entries there are -/

theorem mem_of_get? {t : Table κ α} {k : κ} {a : α} (h : t.get? k = some a) : (k, a) ∈ t.entries := by
  obtain ⟨e, he, rfl⟩ := Option.map_eq_some_iff.1 h
  have hk : e.1 = k := by simpa using List.find?_some he
  subst hk
  exact List.mem_of_find?_eq_some he

theorem isSome_get?_of_mem {t : Table κ α} {e : κ × α} (h : e ∈ t.entries) : (t.get? e.1).isSome := by
  rw [get?, Option.isSome_map, List.find?_isSome]
  exact ⟨e, h, decide_eq_true rfl⟩

theorem mem_set {t : Table κ α} {k : κ} {a : α} {e : κ × α} (h : e ∈ (t.set k a).entries) :
    e = (k, a) ∨ e ∈ t.entries := by
  unfold set at h
  split at h
  · obtain ⟨e', he', rfl⟩ := List.mem_map.1 h
    split
    · exact .inl rfl
    · exact .inr he'
  · rcases List.mem_append.1 h with h | h
    · exact .inr h
    · exact .inl (List.mem_singleton.1 h)

theorem mem_erase {t : Table κ α} {k : κ} {e : κ × α} :
    e ∈ (t.erase k).entries ↔ e ∈ t.entries ∧ e.1 ≠ k := by
  simp [erase]

/-! ### One entry for a key -/

/-- No key has two entries. -/
def HasDistinctKeys (t : Table κ α) : Prop := (t.entries.map Prod.fst).Nodup

omit [DecidableEq κ] in
theorem hasDistinctKeys_empty : (empty : Table κ α).HasDistinctKeys := List.nodup_nil

theorem HasDistinctKeys.set {t : Table κ α} (h : t.HasDistinctKeys) (k : κ) (a : α) :
    (t.set k a).HasDistinctKeys := by
  unfold Table.set
  split
  · have hkeys : (t.entries.map fun e => if e.1 = k then (k, a) else e).map Prod.fst = t.entries.map Prod.fst := by
      rw [List.map_map]
      refine List.map_congr_left fun e _ => ?_
      by_cases he : e.1 = k <;> simp [he]
    exact (congrArg List.Nodup hkeys).mpr h
  · rename_i hc
    have hnew : k ∉ t.entries.map Prod.fst := by
      intro hmem
      obtain ⟨e, he, hk⟩ := List.mem_map.1 hmem
      refine hc ?_
      show ((t.entries.find? fun e => decide (e.1 = k)).map (·.2)).isSome = true
      rw [Option.isSome_map, List.find?_isSome]
      exact ⟨e, he, decide_eq_true hk⟩
    have hkeys : (t.entries ++ [(k, a)]).map Prod.fst = t.entries.map Prod.fst ++ [k] := List.map_append
    refine (congrArg List.Nodup hkeys).mpr ?_
    exact List.perm_append_comm.nodup_iff.1 (List.nodup_cons.2 ⟨hnew, h⟩)

omit [DecidableEq κ] in
theorem HasDistinctKeys.filter {t : Table κ α} (h : t.HasDistinctKeys) (f : κ × α → Bool) :
    (⟨t.entries.filter f⟩ : Table κ α).HasDistinctKeys :=
  h.sublist (List.filter_sublist.map Prod.fst)

theorem HasDistinctKeys.erase {t : Table κ α} (h : t.HasDistinctKeys) (k : κ) : (t.erase k).HasDistinctKeys :=
  h.filter _

/-- Of distinct keys every entry is found. -/
theorem HasDistinctKeys.mem_iff {t : Table κ α} (h : t.HasDistinctKeys) {k : κ} {a : α} :
    (k, a) ∈ t.entries ↔ t.get? k = some a := by
  refine ⟨fun hmem => ?_, mem_of_get?⟩
  obtain ⟨es⟩ := t
  induction es with
  | nil => cases hmem
  | cons e es ih =>
    obtain ⟨hnew, hes⟩ := List.nodup_cons.1 h
    rw [get?_cons]
    obtain rfl | hmem := List.mem_cons.1 hmem
    · exact if_pos rfl
    · have hk : e.1 ≠ k := fun hk => hnew (hk ▸ List.mem_map_of_mem hmem)
      rw [if_neg hk]
      exact ih hes hmem

/-! ### Some of the entries -/

/-- The entries whose keys pass a test. -/
def keep (t : Table κ α) (f : κ → Bool) : Table κ α := ⟨t.entries.filter fun e => f e.1⟩

variable {f : κ → Bool} {k : κ}

theorem get?_keep (t : Table κ α) (f : κ → Bool) (k : κ) :
    (t.keep f).get? k = if f k = true then t.get? k else none := by
  obtain ⟨es⟩ := t
  simp only [keep]
  induction es with
  | nil => simp [get?_nil]
  | cons e es ih =>
    rw [List.filter_cons, get?_cons]
    by_cases hf : f e.1 = true
    · rw [if_pos hf, get?_cons, ih]
      by_cases he : e.1 = k
      · simp [he, he ▸ hf]
      · simp [he]
    · rw [if_neg hf, ih]
      by_cases he : e.1 = k
      · simp [he ▸ hf]
      · simp [he]

theorem get?_keep_of_true (t : Table κ α) (h : f k = true) : (t.keep f).get? k = t.get? k := by
  rw [get?_keep, if_pos h]

theorem get?_keep_of_false (t : Table κ α) (h : f k = false) : (t.keep f).get? k = none := by
  rw [get?_keep, if_neg (by simp [h])]

omit [DecidableEq κ] in
@[simp] theorem keep_keep (t : Table κ α) (f : κ → Bool) : (t.keep f).keep f = t.keep f := by
  simp [keep, List.filter_filter]

theorem keep_modify (t : Table κ α) (f : κ → Bool) (k : κ) (g : α → α) :
    (t.modify k g).keep f = (t.keep f).modify k g := by
  simp only [keep, modify, mk.injEq, List.filter_map]
  congr 1
  refine List.filter_congr fun e _ => ?_
  simp only [Function.comp]
  split <;> rfl

theorem keep_erase (t : Table κ α) (f : κ → Bool) (k : κ) : (t.erase k).keep f = (t.keep f).erase k := by
  simp only [keep, erase, List.filter_filter, mk.injEq]
  exact List.filter_congr fun e _ => Bool.and_comm _ _

/-- A change to an entry that is not there. -/
theorem keep_modify_of_false (t : Table κ α) (h : f k = false) (g : α → α) :
    (t.modify k g).keep f = t.keep f := by
  rw [keep_modify]
  simp only [modify, keep, mk.injEq]
  refine (List.map_congr_left fun e he => ?_).trans (List.map_id _)
  have hf : f e.1 = true := (List.mem_filter.1 he).2
  rw [if_neg (by rintro rfl; simp [h] at hf)]
  rfl

/-- The removal of an entry that is not there. -/
theorem keep_erase_of_false (t : Table κ α) (h : f k = false) : (t.erase k).keep f = t.keep f := by
  simp only [keep, erase, List.filter_filter, mk.injEq]
  refine List.filter_congr fun e _ => ?_
  by_cases he : e.1 = k
  · simp [he, h]
  · simp [he]

theorem keep_set (t : Table κ α) (h : f k = true) (a : α) : (t.set k a).keep f = (t.keep f).set k a := by
  unfold set contains
  rw [get?_keep_of_true t h]
  split
  · rw [replace_eq_modify, keep_modify, replace_eq_modify]
  · simp [keep, List.filter_append, h]

theorem keep_set_of_false (t : Table κ α) (h : f k = false) (a : α) : (t.set k a).keep f = t.keep f := by
  unfold set
  split
  · rw [replace_eq_modify, keep_modify_of_false _ h]
  · simp [keep, List.filter_append, h]

/-- What is put into some of the entries is put into all of them. -/
theorem keep_set_keep (t : Table κ α) (f : κ → Bool) (k : κ) (a : α) :
    ((t.keep f).set k a).keep f = (t.set k a).keep f := by
  cases h : f k with
  | true => rw [keep_set _ h, keep_set _ h, keep_keep]
  | false => rw [keep_set_of_false _ h, keep_set_of_false _ h, keep_keep]

end TurnRelay.Table
