import TurnRelay.Json.Decode
import Mathlib.Data.List.Perm.Basic
import Mathlib.Data.String.Basic

/-!
# Members by name

A structure is read from the members of an object by their names. In which order they stand does not matter,
nor do members whose names the structure does not know; what matters is what stands under each known name,
and that it stands there once.

## The model

* `Json.under name ms` — what stands under a name.
* `Json.HasDistinctNames` — no name is repeated in an object.
* `Json.Carries names ms l` — the members `ms` of known names are those of `l`, in whatever order.
* `Field.Reads`, `Record.Reads` — what is read from members.

## What is proved

* `table_perm` — a table of members with distinct names has the same members.
* `Carries.under`, `Carries.reads` — what stands under a known name, and what it is read as.
* `Record.Reads.field`, `Record.Reads.decode` — a structure is read field by field.
-/

namespace TurnRelay

namespace Json

/-! ### What stands under a name -/

/-- The values of the members of a name, in their order. -/
def under (name : String) (ms : Members) : List Json := (ms.filter fun m => decide (m.1 = name)).map (·.2)

variable {name key : String} {v w : Json} {ms l : Members}

theorem under_cons (m : String × Json) (ms : Members) (name : String) :
    under name (m :: ms) = if m.1 = name then m.2 :: under name ms else under name ms := by
  by_cases h : m.1 = name <;> simp [under, h]

theorem find?_eq_head? (name : String) (ms : Members) : find? name ms = (under name ms).head? := by
  induction ms with
  | nil => rfl
  | cons m ms ih =>
    rw [find?, under_cons, ih]
    split <;> rfl

theorem mem_under_iff : v ∈ under name ms ↔ (name, v) ∈ ms := by
  simp [under]

theorem length_under (name : String) (ms : Members) :
    (ms.filter fun m => decide (m.1 = name)).length = (under name ms).length := by
  rw [under, List.length_map]

theorem find?_append (name : String) (ms l : Members) :
    find? name (ms ++ l) = (find? name ms).or (find? name l) := by
  induction ms with
  | nil => rfl
  | cons m ms ih =>
    rw [List.cons_append, find?, find?, ih]
    split <;> rfl

theorem find?_member? {α : Type} (name key : String) (write : α → Json) (o : Option α) :
    find? name (member? key write o) = if key = name then o.map write else none := by
  cases o <;> simp [member?, find?]

theorem mem_member?_iff {α : Type} {m : String × Json} {write : α → Json} {o : Option α} :
    m ∈ member? key write o ↔ ∃ a, o = some a ∧ m = (key, write a) := by
  cases o <;> simp [member?]

theorem under_perm (h : ms.Perm l) (name : String) : (under name ms).Perm (under name l) :=
  (h.filter _).map _

/-- Of members with distinct names at most one has a given name. -/
theorem under_of_nodup (h : (ms.map Prod.fst).Nodup) (name : String) :
    under name ms = (find? name ms).toList := by
  induction ms with
  | nil => rfl
  | cons m ms ih =>
    rw [List.map_cons, List.nodup_cons] at h
    rw [under_cons, find?, ih h.2]
    split
    · rename_i hm
      have hnone : find? name ms = none := by
        rw [find?_eq_head?, List.head?_eq_none_iff, List.eq_nil_iff_forall_not_mem]
        intro v hv
        exact h.1 (hm ▸ List.mem_map.2 ⟨_, mem_under_iff.1 hv, rfl⟩)
      rw [hnone]
      rfl
    · rfl

/-- Among members with distinct names the one of a name is found. -/
theorem find?_eq_some_iff (h : (ms.map Prod.fst).Nodup) : find? name ms = some v ↔ (name, v) ∈ ms := by
  rw [← mem_under_iff, under_of_nodup h, Option.mem_toList]

/-- In which order they stand does not matter. -/
theorem find?_of_perm (hp : ms.Perm l) (h : (ms.map Prod.fst).Nodup) (name : String) :
    find? name ms = find? name l := by
  refine Option.ext fun v => ?_
  rw [find?_eq_some_iff h, find?_eq_some_iff ((hp.map Prod.fst).nodup_iff.1 h), hp.mem_iff]

/-! ### Tables -/

theorem mem_names_insert {k : String} : k ∈ (insert key v l).map Prod.fst ↔ k = key ∨ k ∈ l.map Prod.fst := by
  induction l with
  | nil => simp [insert]
  | cons m l ih =>
    obtain ⟨k', v'⟩ := m
    rw [insert]
    split_ifs with h1 h2
    · simp
    · subst h2
      simp
    · rw [List.map_cons, List.mem_cons, ih, List.map_cons, List.mem_cons]
      tauto

/-- A member of a new name comes to those that are there. -/
theorem insert_perm (h : key ∉ l.map Prod.fst) : (insert key v l).Perm ((key, v) :: l) := by
  induction l with
  | nil => exact .refl _
  | cons m l ih =>
    obtain ⟨k', v'⟩ := m
    rw [List.map_cons, List.mem_cons, not_or] at h
    rw [insert, if_neg h.1]
    split
    · exact .refl _
    · exact ((ih h.2).cons _).trans (.swap _ _ _)

theorem foldl_insert_perm (ms t : Members) (h : ((t ++ ms).map Prod.fst).Nodup) :
    (ms.foldl (fun t m => insert m.1 m.2 t) t).Perm (t ++ ms) := by
  induction ms generalizing t with
  | nil => simp
  | cons m ms ih =>
    have hperm : (insert m.1 m.2 t ++ ms).Perm (t ++ m :: ms) := by
      have hnew : m.1 ∉ t.map Prod.fst := by
        rw [List.map_append, List.map_cons, List.nodup_append] at h
        exact fun hm => h.2.2 _ hm _ List.mem_cons_self rfl
      exact ((insert_perm hnew).append_right ms).trans List.perm_middle.symm
    exact (ih _ ((hperm.map Prod.fst).nodup_iff.2 h)).trans hperm

/-- **A table of members with distinct names has the same members.** -/
theorem table_perm (h : (ms.map Prod.fst).Nodup) : (table ms).Perm ms :=
  foldl_insert_perm ms [] h

/-- The names of the members increase. -/
def IsSorted (ms : Members) : Prop := ms.Pairwise fun a b => a.1 < b.1

theorem IsSorted.insert (h : IsSorted l) : IsSorted (Json.insert key v l) := by
  induction l with
  | nil => exact List.pairwise_singleton _ _
  | cons m l ih =>
    obtain ⟨k', v'⟩ := m
    obtain ⟨hm, hl⟩ := List.pairwise_cons.1 h
    rw [Json.insert]
    split_ifs with h1 h2
    · refine List.pairwise_cons.2 ⟨List.forall_mem_cons.2 ⟨h1, fun m hmem => ?_⟩, h⟩
      exact lt_trans h1 (hm m hmem)
    · subst h2
      exact List.pairwise_cons.2 ⟨hm, hl⟩
    · refine List.pairwise_cons.2 ⟨fun m hmem => ?_, ih hl⟩
      rcases mem_names_insert.1 (List.mem_map_of_mem hmem) with he | hmem
      · rw [he]
        exact lt_of_le_of_ne (not_lt.1 h1) (Ne.symm h2)
      · obtain ⟨m', hm', he⟩ := List.mem_map.1 hmem
        rw [← he]
        exact hm m' hm'

theorem isSorted_table (ms : Members) : IsSorted (table ms) := by
  have hfold : ∀ t : Members, IsSorted t → IsSorted (ms.foldl (fun t m => Json.insert m.1 m.2 t) t) := by
    induction ms with
    | nil => exact fun t ht => ht
    | cons m ms ih => exact fun t ht => ih _ ht.insert
  exact hfold [] List.Pairwise.nil

theorem IsSorted.nodup (h : IsSorted ms) : (ms.map Prod.fst).Nodup :=
  List.pairwise_map.2 (h.imp fun hlt => ne_of_lt hlt)

/-- A table of members in order is the members. -/
theorem IsSorted.table (h : IsSorted ms) : Json.table ms = ms := by
  refine (table_perm h.nodup).eq_of_pairwise (fun a b _ _ hab hba => ?_) (isSorted_table ms) h
  exact absurd hab (lt_asymm hba)

/-! ### Normal form -/

/-- No name is repeated in an object. -/
def HasDistinctNames : Json → Prop
  | .object ms => (ms.map Prod.fst).Nodup
  | _ => True

theorem normalizeMembers_eq_map (ms : Members) :
    normalizeMembers ms = ms.map fun m => (m.1, m.2.normalize) := by
  induction ms with
  | nil => rfl
  | cons m ms ih => rw [normalizeMembers, ih, List.map_cons]

theorem names_normalizeMembers (ms : Members) : (normalizeMembers ms).map Prod.fst = ms.map Prod.fst := by
  rw [normalizeMembers_eq_map, List.map_map]
  rfl

theorem under_normalizeMembers (name : String) (ms : Members) :
    under name (normalizeMembers ms) = (under name ms).map normalize := by
  rw [normalizeMembers_eq_map]
  simp only [under, List.filter_map, List.map_map]
  rfl

theorem normalizeMembers_of_normal (h : ∀ m ∈ ms, m.2.normalize = m.2) : normalizeMembers ms = ms := by
  induction ms with
  | nil => rfl
  | cons m ms ih =>
    obtain ⟨key, v⟩ := m
    obtain ⟨hv, hms⟩ := List.forall_mem_cons.1 h
    rw [normalizeMembers, hv, ih hms]

/-- An object of values in normal form is in normal form once its members are sorted. -/
theorem normalize_ofMembers (hn : ∀ m ∈ ms, m.2.normalize = m.2) (hd : (ms.map Prod.fst).Nodup) :
    (ofMembers ms).normalize = ofMembers ms := by
  have hvalues : normalizeMembers (table ms) = table ms :=
    normalizeMembers_of_normal fun m hm => hn m ((table_perm hd).mem_iff.1 hm)
  rw [ofMembers, normalize, hvalues, (isSorted_table ms).table]

/-- A normal form repeats no name. -/
theorem hasDistinctNames_normalize (v : Json) : v.normalize.HasDistinctNames := by
  cases v with
  | object ms => exact (isSorted_table _).nodup
  | _ => trivial

theorem hasDistinctNames_of_normal (h : v.normalize = v) : v.HasDistinctNames := h ▸ hasDistinctNames_normalize v

theorem hasDistinctNames_of_normalize_ne (h : ∀ l, v.normalize ≠ .object l) : v.HasDistinctNames := by
  cases v with
  | object ms => exact absurd rfl (h _)
  | _ => trivial

/-- A value without parts is the normal form of no other value. -/
theorem eq_of_normalize_eq {w : Json} (h : v.normalize = w) (ho : ∀ ms, w ≠ .object ms) (ha : ∀ vs, w ≠ .array vs) :
    v = w := by
  cases v with
  | object ms => exact absurd h.symm (ho _)
  | array vs => exact absurd h.symm (ha _)
  | _ => exact h

/-- A value that is an object with known members once in normal form is one with these members. -/
theorem exists_of_normalize_eq_object (h : v.normalize = .object l) (hd : v.HasDistinctNames) :
    ∃ ms, v = .object ms ∧ (normalizeMembers ms).Perm l := by
  cases v with
  | object ms =>
    rw [normalize, object.injEq] at h
    refine ⟨ms, rfl, ?_⟩
    rw [← h]
    refine (table_perm ?_).symm
    rw [names_normalizeMembers]
    exact hd
  | _ => cases h

/-! ### Known members -/

/-- The members `ms` whose names are known are, in whatever order, those of `l`; inside of their values members
may stand in any order, too. -/
structure Carries (names : List String) (ms l : Members) : Prop where
  /-- The members of known names, their values in normal form. -/
  known : (normalizeMembers (ms.filter fun m => decide (m.1 ∈ names))).Perm l
  /-- Their values repeat no names. -/
  distinct : ∀ m ∈ ms, m.1 ∈ names → m.2.HasDistinctNames

/-- **What stands under a known name**: what `l` has there, but for the order of members in it. -/
theorem Carries.under {names : List String} (h : Carries names ms l) (hl : (l.map Prod.fst).Nodup)
    (hname : name ∈ names) : (find? name l = none ∧ under name ms = []) ∨
      ∃ v w, find? name l = some v ∧ under name ms = [w] ∧ w.normalize = v ∧ w.HasDistinctNames := by
  have hfilter : Json.under name (ms.filter fun m => decide (m.1 ∈ names)) = Json.under name ms := by
    simp only [Json.under, List.filter_filter]
    congr 1
    refine List.filter_congr fun m _ => ?_
    by_cases hm : m.1 = name
    · simp [hm, hname]
    · simp [hm]
  have hperm := under_perm h.known name
  rw [under_normalizeMembers, hfilter, under_of_nodup hl] at hperm
  cases hf : find? name l with
  | none =>
    rw [hf, Option.toList_none, List.perm_nil, List.map_eq_nil_iff] at hperm
    exact .inl ⟨rfl, hperm⟩
  | some v =>
    rw [hf, Option.toList_some, List.perm_singleton] at hperm
    obtain ⟨w, hw, hn⟩ := List.map_eq_singleton_iff.1 hperm
    have hmem : (name, w) ∈ ms := mem_under_iff.1 (hw ▸ List.mem_singleton_self w)
    exact .inr ⟨v, w, rfl, hw, hn, h.distinct _ hmem hname⟩

/-- No known name is repeated. -/
theorem Carries.length_under_le {names : List String} (h : Carries names ms l) (hl : (l.map Prod.fst).Nodup)
    (hname : name ∈ names) : (Json.under name ms).length ≤ 1 := by
  rcases h.under hl hname with ⟨-, hu⟩ | ⟨v, w, -, hu, -, -⟩ <;> simp [hu]

/-- Members with distinct names carry all that they have. -/
theorem carries_of_perm {names : List String} (h : (normalizeMembers ms).Perm l)
    (hd : ∀ m ∈ ms, m.2.HasDistinctNames) (hnames : ∀ m ∈ l, m.1 ∈ names) : Carries names ms l := by
  refine ⟨?_, fun m hm _ => hd m hm⟩
  have hall : ms.filter (fun m => decide (m.1 ∈ names)) = ms := by
    refine List.filter_eq_self.2 fun m hm => decide_eq_true ?_
    have hn : m.1 ∈ (normalizeMembers ms).map Prod.fst := by
      rw [names_normalizeMembers]
      exact List.mem_map_of_mem hm
    obtain ⟨m', hm', he⟩ := List.mem_map.1 ((h.map Prod.fst).mem_iff.1 hn)
    exact he ▸ hnames m' hm'
  rwa [hall]

end Json

/-! ### Structures -/

open Json

variable {α β : Type} {ms : Members}

/-- What a field is read as: the value under its name, which stands there once, or what stands for it. -/
inductive Field.Reads (f : Field α) (ms : Members) : α → Prop where
  /-- The member is there. -/
  | value {w : Json} {a : α} : under f.name ms = [w] → f.read w = .ok a → f.Reads ms a
  /-- It is not. -/
  | absent {a : α} : under f.name ms = [] → f.absent = some a → f.Reads ms a

/-- A field of known members is read as the member that they carry. -/
theorem Json.Carries.reads {names : List String} {f : Field α} {l : Members} {a : α}
    (h : Carries names ms l) (hl : (l.map Prod.fst).Nodup) (hname : f.name ∈ names)
    (hvalue : ∀ v w, find? f.name l = some v → w.normalize = v → w.HasDistinctNames → f.read w = .ok a)
    (habsent : find? f.name l = none → f.absent = some a) : f.Reads ms a := by
  rcases h.under hl hname with ⟨hfind, hu⟩ | ⟨v, w, hfind, hu, hn, hd⟩
  · exact .absent hu (habsent hfind)
  · exact .value hu (hvalue v w hfind hn hd)

/-- Where the field's reader takes the carried value, and all that have it as their normal form, for `a`. -/
theorem Json.Carries.reads_some {names : List String} {f : Field α} {l : Members} {v : Json} {a : α}
    (h : Carries names ms l) (hl : (l.map Prod.fst).Nodup) (hname : f.name ∈ names)
    (hfind : find? f.name l = some v)
    (hread : ∀ w, w.normalize = v → w.HasDistinctNames → f.read w = .ok a) : f.Reads ms a := by
  refine h.reads hl hname (fun v' w hv hn hd => hread w ?_ hd) fun hnone => ?_
  · rw [hn, ← Option.some.injEq, ← hv, hfind]
  · rw [hfind] at hnone
    cases hnone

theorem Json.Carries.reads_string {names : List String} {l : Members} {name s : String}
    (h : Carries names ms l) (hl : (l.map Prod.fst).Nodup) (hname : name ∈ names)
    (hfind : find? name l = some (.string s)) : (Field.required name Decoder.string).Reads ms s :=
  h.reads_some hl hname hfind fun w hn _ => by rw [eq_of_normalize_eq hn (by simp) (by simp)]; rfl

theorem Json.Carries.reads_bool {names : List String} {l : Members} {name : String} {b : Bool}
    (h : Carries names ms l) (hl : (l.map Prod.fst).Nodup) (hname : name ∈ names)
    (hfind : find? name l = some (.bool b)) : (Field.required name Decoder.bool).Reads ms b :=
  h.reads_some hl hname hfind fun w hn _ => by rw [eq_of_normalize_eq hn (by simp) (by simp)]; rfl

/-- An optional field is read as what its member was written from, if there is one. -/
theorem Json.Carries.reads_optional {names : List String} {d : Decoder α} {l : Members} {name : String}
    {o : Option α} {g : α → Json} (h : Carries names ms l) (hl : (l.map Prod.fst).Nodup)
    (hname : name ∈ names) (hfind : find? name l = o.map g)
    (hread : ∀ a ∈ o, ∀ w, w.normalize = g a → w.HasDistinctNames → w ≠ .null ∧ d w = .ok a) :
    (Field.optional name d).Reads ms o := by
  cases o with
  | none =>
    refine h.reads hl hname (fun v w hv _ _ => ?_) fun _ => rfl
    exact absurd (hv.symm.trans hfind) (by simp)
  | some a =>
    refine h.reads_some hl hname hfind fun w hn hd => ?_
    obtain ⟨hnull, hok⟩ := hread a rfl w hn hd
    show Decoder.option d w = _
    rw [Decoder.option, hok]
    · rfl
    · exact hnull

/-- What a structure is read as. -/
structure Record.Reads (r : Record α) (ms : Members) (a : α) : Prop where
  /-- Every member can be read. -/
  check : ∀ m ∈ ms, r.check m.1 m.2 = .ok ()
  /-- The structure. -/
  value : r.ofMembers ms = .ok a

namespace Record.Reads

theorem unit (a : α) (ms : Members) : (Record.unit a).Reads ms a := ⟨fun _ _ => rfl, rfl⟩

/-- A structure with one more field. -/
theorem field {r : Record (α → β)} {f : Field α} {build : α → β} {a : α} (hr : r.Reads ms build)
    (hf : f.Reads ms a) : (r.field f).Reads ms (build a) := by
  cases hf with
  | @value w _ hu hread =>
    refine ⟨fun m hm => ?_, ?_⟩
    · show (if m.1 = f.name then _ else _) = _
      split
      · rename_i hname
        have hw : m.2 ∈ under f.name ms := mem_under_iff.2 (hname ▸ hm)
        rw [hu, List.mem_singleton] at hw
        rw [hw, hread]
        rfl
      · exact hr.check m hm
    · show (r.ofMembers ms >>= _) = _
      rw [hr.value, find?_eq_head?, hu]
      show (f.read w >>= _) = _
      rw [hread]
      rfl
  | absent hu habsent =>
    refine ⟨fun m hm => ?_, ?_⟩
    · show (if m.1 = f.name then _ else _) = _
      split
      · rename_i hname
        have hw : m.2 ∈ under f.name ms := mem_under_iff.2 (hname ▸ hm)
        rw [hu] at hw
        cases hw
      · exact hr.check m hm
    · show (r.ofMembers ms >>= _) = _
      rw [hr.value, find?_eq_head?, hu, habsent]
      rfl

theorem fromMembers {r : Record α} {a : α} (h : r.Reads ms a) : r.fromMembers ms = .ok a := by
  have hall : ∀ us : Members, (∀ m ∈ us, r.check m.1 m.2 = .ok ()) → r.checkAll us = .ok () := by
    intro us hus
    induction us with
    | nil => rfl
    | cons m us ih =>
      obtain ⟨hm, hus⟩ := List.forall_mem_cons.1 hus
      rw [checkAll, hm]
      exact ih hus
  unfold Record.fromMembers
  rw [hall ms h.check]
  exact h.value

theorem decode {r : Record α} {a : α} (h : r.Reads ms a) (name : String) :
    r.decode name (.object ms) = .ok a := h.fromMembers

end Record.Reads

end TurnRelay
