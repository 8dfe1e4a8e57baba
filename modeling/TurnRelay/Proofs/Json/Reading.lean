import TurnRelay.Proofs.Json.Members
import TurnRelay.Proofs.Json.Nesting

/-!
# What has been read

From what a reader of structures returns one can tell what it has read: each field stands for the member of its
name, or for its absence. And what holds of everything that the fields can be read as, and is kept by putting a
structure together, holds of everything that the structure can be read as.

## The model

* `Field.Ensures`, `Record.Ensures` — everything that can be read has a property.

## What is proved

* `Record.fromMembers_iff` — what is read from an object is what its members are read as.
* `Record.Reads.exists_field` — the fields of what has been read, if no name is repeated.
* `Record.Ensures.field` — a structure has a property if its fields give it one.
-/

namespace TurnRelay

open Json

variable {α β : Type} {ms : Members}

/-! ### Strings -/

theorem Decoder.string_eq_ok_iff {v : Json} {s : String} : Decoder.string v = .ok s ↔ v = .string s := by
  cases v <;> simp [Decoder.string]

/-- A string that may be missing: `null` stands for none. -/
theorem Decoder.option_string_eq_ok_iff {v : Json} {o : Option String} :
    Decoder.option Decoder.string v = .ok o ↔ v = (o.map Json.string).getD .null := by
  cases v <;> cases o <;> simp [Decoder.option, Decoder.string, Except.map]

/-! ### Fields -/

/-- If no name is repeated, a field is read as what stands under its name first. -/
theorem Field.reads_iff {f : Field α} {a : α} (hd : (ms.map Prod.fst).Nodup) : f.Reads ms a ↔
    (∃ w, find? f.name ms = some w ∧ f.read w = .ok a) ∨ find? f.name ms = none ∧ f.absent = some a := by
  have hunder := under_of_nodup hd f.name
  constructor
  · rintro (@⟨w, _, hu, hread⟩ | ⟨hu, habsent⟩)
    · exact .inl ⟨w, by rw [find?_eq_head?, hu, List.head?_cons], hread⟩
    · exact .inr ⟨by rw [find?_eq_head?, hu, List.head?_nil], habsent⟩
  · rintro (⟨w, hfind, hread⟩ | ⟨hfind, habsent⟩)
    · exact .value (by rw [hunder, hfind, Option.toList_some]) hread
    · exact .absent (by rw [hunder, hfind, Option.toList_none]) habsent

theorem Field.reads_string_iff {name s : String} (hd : (ms.map Prod.fst).Nodup) :
    (Field.required name Decoder.string).Reads ms s ↔ find? name ms = some (.string s) := by
  rw [Field.reads_iff hd]
  simp [Field.required, Decoder.string_eq_ok_iff]

theorem Field.reads_option_string_iff {name : String} {o : Option String} (hd : (ms.map Prod.fst).Nodup) :
    (Field.optional name Decoder.string).Reads ms o ↔
      (find? name ms).getD .null = (o.map Json.string).getD .null := by
  rw [Field.reads_iff hd]
  cases hfind : find? name ms with
  | none => cases o <;> simp [Field.optional, hfind]
  | some w => simp [Field.optional, hfind, Decoder.option_string_eq_ok_iff]

/-- Everything that a field can be read as has the property. -/
structure Field.Ensures (f : Field α) (P : α → Prop) : Prop where
  /-- From a value. -/
  read : ∀ v a, f.read v = .ok a → P a
  /-- Without a member. -/
  absent : ∀ a, f.absent = some a → P a
  /-- Behind the end of an array. -/
  trailing : ∀ a, f.trailing = some a → P a

theorem Field.ensures_true (f : Field α) : f.Ensures fun _ => True :=
  ⟨fun _ _ _ => trivial, fun _ _ => trivial, fun _ _ => trivial⟩

theorem Field.ensures_withDefault {name : String} {d : Decoder α} {a : α} {P : α → Prop}
    (h : ∀ v b, d v = .ok b → P b) (ha : P a) : (Field.withDefault name d a).Ensures P where
  read := h
  absent _ hb := Option.some.inj hb ▸ ha
  trailing _ hb := Option.some.inj hb ▸ ha

theorem Field.ensures_optional {name : String} {d : Decoder α} {P : α → Prop} (h : ∀ v a, d v = .ok a → P a) :
    (Field.optional name d).Ensures fun o => ∀ a ∈ o, P a := by
  have hnone : ∀ o : Option α, some none = some o → ∀ a ∈ o, P a := by
    rintro _ ⟨⟩ a ha
    cases ha
  refine ⟨fun v o hv => ?_, hnone, hnone⟩
  by_cases hn : v = .null
  · subst hn
    exact hnone o (congrArg some (Except.ok.inj hv))
  · change Decoder.option d v = _ at hv
    rw [Decoder.option] at hv
    · cases hdv : d v with
      | error e => rw [hdv] at hv; cases hv
      | ok a =>
        rw [hdv] at hv
        rintro b hb
        obtain rfl : some a = o := Except.ok.inj hv
        exact Option.some.inj hb ▸ h v a hdv
    · exact hn

/-! ### Structures -/

namespace Record

variable {r : Record α} {a : α}

/-- **What is read from an object is what its members are read as.** -/
theorem fromMembers_iff : r.fromMembers ms = .ok a ↔ r.Reads ms a := by
  refine ⟨fun h => ?_, Reads.fromMembers⟩
  obtain ⟨u, hchecked, hvalue⟩ := exists_of_bind_eq_ok h
  refine ⟨?_, hvalue⟩
  clear hvalue h
  induction ms with
  | nil => exact fun m hm => absurd hm List.not_mem_nil
  | cons m ms ih =>
    obtain ⟨⟨⟩, hm, hms⟩ := exists_of_bind_eq_ok hchecked
    exact List.forall_mem_cons.2 ⟨hm, ih hms⟩

/-- **The last field of what has been read**, and what has been read of the others. -/
theorem Reads.exists_field {r : Record (α → β)} {f : Field α} {b : β} (h : (r.field f).Reads ms b)
    (hd : (ms.map Prod.fst).Nodup) (hnew : ∀ v, r.check f.name v = .ok ()) :
    ∃ build a, r.Reads ms build ∧ f.Reads ms a ∧ b = build a := by
  obtain ⟨build, hbuild, hlast⟩ := exists_of_bind_eq_ok h.value
  have hothers : r.Reads ms build := by
    refine ⟨fun m hm => ?_, hbuild⟩
    by_cases hname : m.1 = f.name
    · rw [hname]
      exact hnew m.2
    · have hcheck := h.check m hm
      simp only [Record.field, if_neg hname] at hcheck
      exact hcheck
  split at hlast
  · rename_i v hfind
    obtain ⟨a, hread, hb⟩ := exists_of_bind_eq_ok hlast
    exact ⟨build, a, hothers, (Field.reads_iff hd).2 (.inl ⟨v, hfind, hread⟩), (Except.ok.inj hb).symm⟩
  · rename_i hfind
    split at hlast
    · rename_i a habsent
      exact ⟨build, a, hothers, (Field.reads_iff hd).2 (.inr ⟨hfind, habsent⟩), (Except.ok.inj hlast).symm⟩
    · cases hlast

theorem ofItems_unit_iff {start : Nat} {expected : String} {items rest : List Json} {b : α} :
    (Record.unit a).ofItems start expected items = .ok (b, rest) ↔ items = rest ∧ b = a := by
  simp only [Record.unit, Except.ok.injEq, Prod.mk.injEq]
  exact ⟨fun h => ⟨h.2, h.1.symm⟩, fun h => ⟨h.2.symm, h.1⟩⟩

/-- The last field takes the next item, or stands for the end of the array. -/
theorem ofItems_field_iff {r : Record (α → β)} {f : Field α} {start : Nat} {expected : String}
    {items rest : List Json} {b : β} : (r.field f).ofItems start expected items = .ok (b, rest) ↔
    ∃ build us, r.ofItems start expected items = .ok (build, us) ∧
      ((∃ v a, us = v :: rest ∧ f.read v = .ok a ∧ b = build a) ∨
        us = [] ∧ rest = [] ∧ ∃ a, f.trailing = some a ∧ b = build a) := by
  constructor
  · intro h
    obtain ⟨⟨build, us⟩, hbuild, hlast⟩ := exists_of_bind_eq_ok h
    refine ⟨build, us, hbuild, ?_⟩
    cases us with
    | cons v us =>
      obtain ⟨a, hread, hb⟩ := exists_of_bind_eq_ok hlast
      obtain ⟨rfl, rfl⟩ := Prod.mk.inj (Except.ok.inj hb)
      exact .inl ⟨v, a, rfl, hread, rfl⟩
    | nil =>
      simp only at hlast
      split at hlast
      · rename_i a htrailing
        obtain ⟨rfl, rfl⟩ := Prod.mk.inj (Except.ok.inj hlast)
        exact .inr ⟨rfl, rfl, a, htrailing, rfl⟩
      · cases hlast
  · rintro ⟨build, us, hbuild, ⟨v, a, rfl, hread, rfl⟩ | ⟨rfl, rfl, a, htrailing, rfl⟩⟩
    · show (r.ofItems start expected items >>= _) = _
      rw [hbuild]
      show (f.read v >>= _) = _
      rw [hread]
      rfl
    · show (r.ofItems start expected items >>= _) = _
      rw [hbuild]
      simp only [bind, Except.bind, htrailing]
      rfl

/-- A structure is read from an array of which no item is left over. -/
theorem fromItems_iff {name : String} {items : List Json} :
    r.fromItems name items = .ok a ↔ r.ofItems 0 (r.sized name) items = .ok (a, []) := by
  constructor
  · intro h
    obtain ⟨⟨b, rest⟩, hvalue, hb⟩ := exists_of_bind_eq_ok h
    cases rest with
    | nil => exact Except.ok.inj hb ▸ hvalue
    | cons v vs => cases hb
  · intro h
    show (r.ofItems 0 (r.sized name) items >>= _) = _
    rw [h]
    rfl

/-- Everything that a structure can be read as has the property. -/
structure Ensures (r : Record α) (P : α → Prop) : Prop where
  /-- From members. -/
  members : ∀ ms a, r.ofMembers ms = .ok a → P a
  /-- From items. -/
  items : ∀ start expected items x, r.ofItems start expected items = .ok x → P x.1

namespace Ensures

variable {P : α → Prop} {Q : β → Prop}

theorem unit (h : P a) : (Record.unit a).Ensures P where
  members _ _ hb := Except.ok.inj hb ▸ h
  items _ _ _ _ hb := Except.ok.inj hb ▸ h

/-- A structure with one more field. -/
theorem field {r : Record (α → β)} {f : Field α} (hr : r.Ensures fun build => ∀ a, P a → Q (build a))
    (hf : f.Ensures P) : (r.field f).Ensures Q where
  members ms b hb := by
    obtain ⟨build, hbuild, hlast⟩ := exists_of_bind_eq_ok hb
    have hall := hr.members ms build hbuild
    split at hlast
    · obtain ⟨a, hread, hb⟩ := exists_of_bind_eq_ok hlast
      exact Except.ok.inj hb ▸ hall a (hf.read _ a hread)
    · split at hlast
      · rename_i a habsent
        exact Except.ok.inj hlast ▸ hall a (hf.absent a habsent)
      · cases hlast
  items start expected items x hb := by
    obtain ⟨build, us, hbuild, hlast⟩ := ofItems_field_iff.1 hb
    have hall := hr.items start expected items _ hbuild
    obtain ⟨v, a, -, hread, hx⟩ | ⟨-, -, a, htrailing, hx⟩ := hlast
    · exact hx ▸ hall a (hf.read v a hread)
    · exact hx ▸ hall a (hf.trailing a htrailing)

theorem fromMembers (h : r.Ensures P) (hr : r.fromMembers ms = .ok a) : P a := by
  obtain ⟨-, -, hvalue⟩ := exists_of_bind_eq_ok hr
  exact h.members ms a hvalue

theorem fromItems {name : String} {items : List Json} (h : r.Ensures P)
    (hr : r.fromItems name items = .ok a) : P a :=
  h.items _ _ _ _ (fromItems_iff.1 hr)

end Ensures

end Record

end TurnRelay
