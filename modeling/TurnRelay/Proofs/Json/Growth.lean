import Mathlib.Data.List.Nodup
import TurnRelay.Proofs.Json.Reading

/-!
# Members that are passed over

The two ends of a connection may know different versions of a structure: an object may have members that its reader
has never heard of, and so may the objects inside of it that the reader looks into. What is read must not depend on
them. How far a reader looks is part of what it knows: a value that it takes as a whole, a message say, belongs to
the data with all of its members, and nothing may be added there.

## The model

* `Reach` — how far a reader looks into a value.
* `Json.Grows` — a value that has got more members where its reader does not look.
* `Json.Extends` — what this means for the members of an object.
* `Decoder.Tolerates`, `Record.Follows` — reading is not changed by it.

## What is proved

* `Grows.preserves` — what survives one member more survives growth.
* `Extends.filter` — a reader that passes some members over sees the others grow.
* `Record.Follows.field` — a structure tolerates what its fields tolerate.
* `Record.Follows.tolerates` — a structure that is read field by field tolerates growth.
* `Record.Finds.decode` — a structure is read from the members that were written for it.
-/

namespace TurnRelay

/-- How far a reader looks into a value. -/
inductive Reach where
  /-- It takes the value as a whole. -/
  | whole
  /-- It looks for members of these names, and into each of them so far. -/
  | members (known : List (String × Reach))

/-- A reader that takes the members of these names as a whole. -/
def Reach.flat (names : List String) : Reach := .members (names.map fun name => (name, .whole))

namespace Json

variable {known : List (String × Reach)} {name key : String} {reach : Reach} {v w u : Json} {ms ms' : Members}

/-! ### One member more -/

theorem find?_insert (key : String) (w : Json) (ms : Members) (name : String) :
    find? name (insert key w ms) = if key = name then some w else find? name ms := by
  induction ms with
  | nil => rfl
  | cons m ms ih =>
    obtain ⟨k, v⟩ := m
    rw [insert]
    by_cases hlt : key < k
    · rw [if_pos hlt, find?]
    · rw [if_neg hlt]
      by_cases heq : key = k
      · subst heq
        rw [if_pos rfl, find?, find?]
        split <;> rfl
      · rw [if_neg heq, find?, find?, ih]
        by_cases hk : k = name
        · rw [if_pos hk, if_pos hk, if_neg fun h => heq (h.trans hk.symm)]
        · rw [if_neg hk, if_neg hk]

theorem mem_of_mem_insert {m : String × Json} (h : m ∈ insert key w ms) : m = (key, w) ∨ m ∈ ms := by
  induction ms with
  | nil => exact .inl (List.mem_singleton.1 h)
  | cons m' ms ih =>
    obtain ⟨k, v⟩ := m'
    rw [insert] at h
    split_ifs at h
    · exact List.mem_cons.1 h
    · exact (List.mem_cons.1 h).imp id (List.mem_cons_of_mem _)
    · obtain h | h := List.mem_cons.1 h
      · exact .inr (h ▸ List.mem_cons_self)
      · exact (ih h).imp id (List.mem_cons_of_mem _)

theorem mem_of_find? (h : find? name ms = some v) : (name, v) ∈ ms := by
  rw [find?_eq_head?] at h
  exact mem_under_iff.1 (List.mem_of_mem_head? h)

/-! ### Growth -/

/-- **A value that has got more members where its reader does not look.** -/
inductive Grows : Reach → Json → Json → Prop where
  /-- It is as before. -/
  | same {reach : Reach} {v : Json} : Grows reach v v
  /-- It gets a member of a name that the reader does not know. -/
  | adds {known : List (String × Reach)} {v : Json} {ms : Members} {name : String} (w : Json) :
      name ∉ known.map Prod.fst → Grows (.members known) v (.object ms) →
      Grows (.members known) v (.object (insert name w ms))
  /-- A member that the reader looks into has grown. -/
  | inside {known : List (String × Reach)} {v u w : Json} {ms : Members} {name : String} {reach : Reach} :
      (name, reach) ∈ known → find? name ms = some u → Grows reach u w → Grows (.members known) v (.object ms) →
      Grows (.members known) v (.object (insert name w ms))

/-- What is taken as a whole does not grow. -/
theorem Grows.eq (h : Grows .whole v w) : w = v := by
  cases h
  rfl

/-- Members in place of others, for a reader that knows these names. -/
structure Extends (known : List (String × Reach)) (ms ms' : Members) : Prop where
  /-- What is found under a known name is still there, perhaps grown; and nothing is found that was not there. -/
  found : ∀ name reach, (name, reach) ∈ known → Option.Rel (Grows reach) (find? name ms) (find? name ms')
  /-- A member is unknown or comes from one of its name. -/
  comes : ∀ m ∈ ms', m.1 ∉ known.map Prod.fst ∨ ∃ reach v, (m.1, reach) ∈ known ∧ (m.1, v) ∈ ms ∧ Grows reach v m.2

theorem rel_same (reach : Reach) (o : Option Json) : Option.Rel (Grows reach) o o := by
  cases o with
  | none => exact .none
  | some v => exact .some .same

/-- A member that is already there comes from itself. -/
theorem comes_self {m : String × Json} (known : List (String × Reach)) (h : m ∈ ms) :
    m.1 ∉ known.map Prod.fst ∨ ∃ reach v, (m.1, reach) ∈ known ∧ (m.1, v) ∈ ms ∧ Grows reach v m.2 := by
  by_cases hm : m.1 ∈ known.map Prod.fst
  · obtain ⟨p, hp, hname⟩ := List.mem_map.1 hm
    exact .inr ⟨p.2, m.2, hname ▸ hp, h, .same⟩
  · exact .inl hm

theorem extends_adds (w : Json) (ms : Members) (hnew : name ∉ known.map Prod.fst) :
    Extends known ms (insert name w ms) where
  found key reach hkey := by
    have hne : name ≠ key := fun h => hnew (List.mem_map.2 ⟨_, hkey, h.symm⟩)
    rw [find?_insert, if_neg hne]
    exact rel_same reach _
  comes m hm := by
    obtain rfl | hm := mem_of_mem_insert hm
    · exact .inl hnew
    · exact comes_self known hm

theorem extends_inside (hd : (known.map Prod.fst).Nodup) (hname : (name, reach) ∈ known)
    (hu : find? name ms = some u) (hg : Grows reach u w) : Extends known ms (insert name w ms) where
  found key reach' hkey := by
    rw [find?_insert]
    split
    · rename_i heq
      subst heq
      -- names are known once, so this is how far the reader looks
      obtain rfl : reach = reach' := congrArg Prod.snd (List.inj_on_of_nodup_map hd hname hkey rfl)
      rw [hu]
      exact .some hg
    · exact rel_same reach' _
  comes m hm := by
    obtain rfl | hm := mem_of_mem_insert hm
    · exact .inr ⟨reach, u, hname, mem_of_find? hu, hg⟩
    · exact comes_self known hm

theorem find?_filter {keep : String → Bool} (h : keep name = true) (ms : Members) :
    find? name (ms.filter fun m => keep m.1) = find? name ms := by
  induction ms with
  | nil => rfl
  | cons m ms ih =>
    rw [List.filter_cons]
    split
    · rw [find?, find?, ih]
    · rename_i hk
      have hne : m.1 ≠ name := fun he => hk (he ▸ h)
      rw [ih, find?, if_neg hne]

/-- What a reader sees who knows only some of the names, and from whom others are kept. -/
theorem Extends.filter {known' : List (String × Reach)} (h : Extends known ms ms') (hd : (known.map Prod.fst).Nodup)
    (hsub : ∀ p ∈ known', p ∈ known) {k : String → Bool} (hkeep : ∀ p ∈ known', k p.1 = true) :
    Extends known' (ms.filter fun m => k m.1) (ms'.filter fun m => k m.1) where
  found name reach hname := by
    rw [find?_filter (hkeep _ hname), find?_filter (hkeep _ hname)]
    exact h.found name reach (hsub _ hname)
  comes m hm := by
    by_cases hknown : m.1 ∈ known'.map Prod.fst
    · obtain ⟨p, hp, hname⟩ := List.mem_map.1 hknown
      obtain hnew | ⟨reach, v, hreach, hv, hg⟩ := h.comes m (List.mem_filter.1 hm).1
      · exact absurd (hname ▸ List.mem_map_of_mem (hsub p hp)) hnew
      · obtain rfl : p = (m.1, reach) := List.inj_on_of_nodup_map hd (hsub p hp) hreach hname
        exact .inr ⟨reach, v, hp, List.mem_filter.2 ⟨hv, (List.mem_filter.1 hm).2⟩, hg⟩
    · exact .inl hknown

/-- What is taken as a whole is the same as before. -/
theorem Extends.find?_eq (h : Extends known ms ms') (hname : (name, .whole) ∈ known) : find? name ms' = find? name ms := by
  have hfound := h.found name .whole hname
  cases hu : find? name ms with
  | none =>
    rw [hu] at hfound
    cases hw : find? name ms' with
    | none => rfl
    | some w =>
      rw [hw] at hfound
      cases hfound
  | some u =>
    rw [hu] at hfound
    cases hw : find? name ms' with
    | none =>
      rw [hw] at hfound
      cases hfound
    | some w =>
      rw [hw] at hfound
      cases hfound with
      | some hg => rw [hg.eq]

/-- **What survives one member more survives growth.** -/
theorem Grows.preserves {P : Json → Prop} (hd : (known.map Prod.fst).Nodup)
    (step : ∀ ms ms', Extends known ms ms' → P (.object ms) → P (.object ms'))
    (h : Grows (.members known) v w) (hv : P v) : P w := by
  generalize hreach : Reach.members known = reach at h
  induction h with
  | same => exact hv
  | adds w hnew _ ih =>
    cases hreach
    exact step _ _ (extends_adds w _ hnew) (ih hv rfl)
  | inside hname hu hg _ _ ih =>
    cases hreach
    exact step _ _ (extends_inside hd hname hu hg) (ih hv rfl)

end Json

open Json

variable {α β : Type}

/-! ### Readers that tolerate growth -/

/-- What is read does not depend on members that the reader does not look for. -/
def Decoder.Tolerates (d : Decoder α) (reach : Reach) : Prop := ∀ v w a, Grows reach v w → d v = .ok a → d w = .ok a

theorem Decoder.tolerates_whole (d : Decoder α) : d.Tolerates .whole := by
  intro v w a hg ha
  rw [hg.eq]
  exact ha

namespace Record

/-- **A structure that is read from the members of these names**, looking into each so far. -/
structure Follows (r : Record α) (known : List (String × Reach)) : Prop where
  /-- No name is known twice. -/
  distinct : (known.map Prod.fst).Nodup
  /-- Other members pass. -/
  passes : ∀ name, name ∉ known.map Prod.fst → ∀ v, r.check name v = .ok ()
  /-- A member that has grown passes as before. -/
  checks : ∀ name reach, (name, reach) ∈ known → ∀ v w, Grows reach v w → r.check name v = .ok () →
    r.check name w = .ok ()
  /-- What is read depends on what is found under the names. -/
  reads : ∀ ms ms', (∀ name reach, (name, reach) ∈ known → Option.Rel (Grows reach) (find? name ms) (find? name ms')) →
    ∀ a, r.ofMembers ms = .ok a → r.ofMembers ms' = .ok a

namespace Follows

variable {known : List (String × Reach)} {ms ms' : Members}

theorem unit (a : α) : (Record.unit a).Follows [] where
  distinct := List.nodup_nil
  passes _ _ _ := rfl
  checks _ _ _ _ _ _ _ := rfl
  reads _ _ _ _ ha := ha

/-- **A structure with one more field.** -/
theorem field {r : Record (α → β)} {f : Field α} {reach : Reach} (hr : r.Follows known)
    (hnew : f.name ∉ known.map Prod.fst) (hf : f.read.Tolerates reach) :
    (r.field f).Follows (known ++ [(f.name, reach)]) where
  distinct := by
    rw [List.map_append]
    refine List.nodup_append.2 ⟨hr.distinct, List.nodup_singleton _, fun key hkey key' hkey' => ?_⟩
    rintro rfl
    have hname : key = f.name := List.mem_singleton.1 hkey'
    exact hnew (hname ▸ hkey)
  passes name hname v := by
    rw [List.map_append, List.mem_append, not_or] at hname
    show (if name = f.name then _ else _) = _
    rw [if_neg fun h => hname.2 (List.mem_singleton.2 h)]
    exact hr.passes name hname.1 v
  checks name reach' hname v w hg hv := by
    change (if name = f.name then _ else _) = _ at hv
    show (if name = f.name then _ else _) = _
    obtain hname | hname := List.mem_append.1 hname
    · have hne : name ≠ f.name := fun h => hnew (h ▸ List.mem_map_of_mem hname)
      rw [if_neg hne] at hv ⊢
      exact hr.checks name reach' hname v w hg hv
    · obtain ⟨rfl, rfl⟩ := Prod.mk.inj (List.mem_singleton.1 hname)
      rw [if_pos rfl] at hv ⊢
      cases ha : f.read v with
      | error e =>
        rw [ha] at hv
        cases hv
      | ok a =>
        rw [hf v w a hg ha]
        rfl
  reads ms ms' hfound b hb := by
    obtain ⟨build, hbuild, hlast⟩ := exists_of_bind_eq_ok hb
    have hbuild' := hr.reads ms ms' (fun name reach h => hfound name reach (List.mem_append_left _ h)) build hbuild
    have hfound := hfound f.name reach (List.mem_append_right _ List.mem_cons_self)
    show (r.ofMembers ms' >>= _) = _
    rw [hbuild']
    dsimp only [bind, Except.bind]
    cases hu : find? f.name ms with
    | none =>
      rw [hu] at hfound hlast
      cases hw : find? f.name ms' with
      | none => exact hlast
      | some w =>
        rw [hw] at hfound
        cases hfound
    | some u =>
      rw [hu] at hfound hlast
      cases hw : find? f.name ms' with
      | none =>
        rw [hw] at hfound
        cases hfound
      | some w =>
        rw [hw] at hfound
        obtain ⟨a, ha, hb⟩ := exists_of_bind_eq_ok hlast
        cases hfound with
        | some hg =>
          dsimp only
          rw [hf u w a hg ha]
          exact hb

/-- A field whose member is taken as a whole. -/
theorem plain {r : Record (α → β)} {f : Field α} (hr : r.Follows known) (hnew : f.name ∉ known.map Prod.fst) :
    (r.field f).Follows (known ++ [(f.name, .whole)]) := hr.field hnew f.read.tolerates_whole

variable {r : Record α} {a : α}

/-- What is read from members is read from all that extend them. -/
theorem reads_of_extends (h : r.Follows known) (hext : Extends known ms ms') (ha : r.Reads ms a) : r.Reads ms' a := by
  refine ⟨fun m hm => ?_, h.reads ms ms' hext.found a ha.value⟩
  obtain hname | ⟨reach, v, hname, hv, hg⟩ := hext.comes m hm
  · exact h.passes m.1 hname m.2
  · exact h.checks m.1 reach hname v m.2 hg (ha.check _ hv)

/-- **A structure that is read field by field tolerates growth.** -/
theorem tolerates (h : r.Follows known) (name : String) : Decoder.Tolerates (r.decode name) (.members known) := by
  intro v w a hg ha
  refine hg.preserves h.distinct (P := fun v => r.decode name v = .ok a) (fun ms ms' hext hms => ?_) ha
  exact (h.reads_of_extends hext (fromMembers_iff.1 hms)).decode name

end Follows

end Record

/-! ### What was written -/

section

variable {l : Members} {a : α}

/-- Among the members that were written is what a field is read as. -/
def Field.Finds (f : Field α) (l : Members) (a : α) : Prop :=
  (∃ w, find? f.name l = some w ∧ f.read w = .ok a) ∨ find? f.name l = none ∧ f.absent = some a

theorem Field.finds_required {name : String} {d : Decoder α} {w : Json} (h : find? name l = some w)
    (hread : d w = .ok a) : (Field.required name d).Finds l a := .inl ⟨w, h, hread⟩

theorem Field.finds_withDefault {name : String} {d : Decoder α} {w : Json} {b : α} (h : find? name l = some w)
    (hread : d w = .ok a) : (Field.withDefault name d b).Finds l a := .inl ⟨w, h, hread⟩

/-- A field that may be missing, written only if there is something to write. -/
theorem Field.finds_optional {name : String} {d : Decoder α} {write : α → Json} {o : Option α}
    (h : find? name l = o.map write) (hread : ∀ a ∈ o, write a ≠ .null ∧ d (write a) = .ok a) :
    (Field.optional name d).Finds l o := by
  cases o with
  | none => exact .inr ⟨h, rfl⟩
  | some a =>
    obtain ⟨hnull, hok⟩ := hread a rfl
    refine .inl ⟨write a, h, ?_⟩
    show Decoder.option d (write a) = _
    rw [Decoder.option, hok]
    · rfl
    · exact hnull

/-- The members that were written are what a structure is read as, in whatever order they come. -/
def Record.Finds (r : Record α) (l : Members) (a : α) : Prop :=
  (l.map Prod.fst).Nodup → ∀ ms : Members, ms.Perm l → r.Reads ms a

namespace Record.Finds

theorem unit (a : α) (l : Members) : (Record.unit a).Finds l a := fun _ ms _ => .unit a ms

/-- A structure with one more field. -/
theorem field {r : Record (α → β)} {f : Field α} {build : α → β} (hr : r.Finds l build) (hf : f.Finds l a) :
    (r.field f).Finds l (build a) := by
  intro hl ms hp
  have hms : (ms.map Prod.fst).Nodup := (hp.map Prod.fst).nodup_iff.2 hl
  refine (hr hl ms hp).field ((Field.reads_iff hms).2 ?_)
  rwa [find?_of_perm hp hms f.name]

/-- **A structure is read from the members that were written for it.** -/
theorem decode {r : Record α} (h : r.Finds l a) (hl : (l.map Prod.fst).Nodup) (name : String) :
    r.decode name (.ofMembers l) = .ok a := (h hl _ (table_perm hl)).decode name

end Record.Finds

end

end TurnRelay
