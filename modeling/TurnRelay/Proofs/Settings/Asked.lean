import TurnRelay.Proofs.Settings.Precedence
import TurnRelay.Proofs.Settings.Variables

/-!
# The preset that is asked for

Who asks for a preset on the command line gets the preset's layer. But the preset's name is a setting like all others:
the file and the variables lie above that layer, and if they name another preset, the settings say so, while the
address is the one of the preset that was asked for. The address in its turn is lost if the section it stands in is
not laid over but replaced, by an array or by anything else that is no table.

There is no other way. So the preset that is asked for and the one that the settings report are the same, with its
address, exactly if nobody names another one and nobody replaces the section.

## The model

* `Sources.says?` — what the variables say at a place, or else the file.
* `Value.SetsHost`, `Sources.LeavesHost` — the address is set, by name or by position; nobody sets it.
* `Sources.Heeds` — the settings are those of the preset that is asked for.
* `Sources.Amenable` — nobody names another preset or replaces the server's section.

## What is proved

* `Sources.shows_lay` — what all layers show.
* `Sources.exists_section` — where the server's section is read from.
* `heeds_iff` — the preset that is asked for is heeded exactly if the file and the variables are amenable to it.
* `not_heeded` — they need not be.
-/

namespace TurnRelay.Settings

open Value (IsSorted Opens Shows)

/-! ### Sections as a whole -/

namespace Value

variable {name : String} {v w t u : Value} {es lower upper : Entries}

theorem onto_of_not_isTable (h : v.isTable = false) (w : Value) : v.onto w = v := by
  cases v with
  | table es => cases h
  | _ => rw [onto]

theorem table_onto_of_not_isTable (es : Entries) (h : w.isTable = false) : (table es).onto w = .table es := by
  cases w with
  | table lower => cases h
  | _ =>
    rw [onto]
    exact fun _ h => by cases h

theorem at?_singleton (name : String) (es : Entries) : at? [name] (.table es) = find? name es := by
  rw [at?]
  cases find? name es <;> rfl

/-- Behind a table stands what stands in it. -/
theorem at?_cons_of_table {path : List String} (h : at? [name] v = some (.table es)) :
    at? (name :: path) v = at? path (.table es) := by
  cases v with
  | table es' =>
    rw [at?_singleton] at h
    rw [at?, h]
    rfl
  | _ => cases h

/-- A value, and what there is to lay over it. -/
def under (w : Value) (o : Option Value) : Value := o.elim w fun v => v.onto w

/-- What stands under a name that the lower of two layers has. -/
theorem at?_singleton_overlay (hl : IsSorted lower) (hu : IsSorted upper)
    (h : at? [name] (table lower) = some w) :
    at? [name] ((table lower).overlay (table upper)) = some (w.under (at? [name] (table upper))) := by
  rw [at?_singleton] at h
  rw [overlay, onto, at?_singleton, at?_singleton, find?_entriesOnto hl hu, h, under]
  cases find? name upper <;> rfl

theorem ne_of_find?_eq_none (h : find? name es = none) : ∀ e ∈ es, e.1 ≠ name := by
  induction es with
  | nil => exact fun e he => absurd he List.not_mem_nil
  | cons e es ih =>
    obtain ⟨k, v⟩ := e
    rw [find?] at h
    split at h
    · cases h
    · rename_i hk
      exact List.forall_mem_cons.2 ⟨hk, ih h⟩

/-- A layer sets the address, by its name or, in an array, by its position. -/
def SetsHost (v : Value) : Prop :=
  v.at? hostLeaf.path ≠ none ∨ ∃ item items, v.at? ["server"] = some (.array (item :: items))

end Value

theorem option_preset_iff {v : Value} {p : Preset} :
    Reader.option Preset.read v = .ok (some p) ↔ Preset.read v = .ok p := by
  by_cases h : v = .nothing
  · subst h
    exact iff_of_false (fun h => by cases h) fun h => by cases h
  · rw [option_of_ne _ h]
    cases Preset.read v with
    | error c => exact iff_of_false (fun h => by cases h) fun h => by cases h
    | ok q =>
      refine ⟨fun h => ?_, fun h => ?_⟩
      · cases h
        rfl
      · cases h
        rfl

namespace ServerSection

variable {s : ServerSection} {w : Value} {es : Value.Entries}

/-- What is no table and has no items sets no address. -/
theorem host_of_not_isTable (h : read w = .ok s) (hw : w.isTable = false)
    (hitems : ∀ item items, w ≠ .array (item :: items)) : s.host = none := by
  cases w with
  | table es => cases hw
  | array items =>
    cases items with
    | nil =>
      cases h
      rfl
    | cons item items => exact absurd rfl (hitems item items)
  | _ => cases h

/-- Nor does a table without it. -/
theorem host_of_find?_eq_none (h : read (.table es) = .ok s) (hes : Value.find? "host" es = none) : s.host = none := by
  rw [read_eq, readSection] at h
  have hget := independent.get_of_unnamed (List.mem_cons_self) (Value.ne_of_find?_eq_none hes) h
  exact hget

end ServerSection

/-- Settings as a layer have the server's section as a table. -/
theorem exists_server_layer (s : Settings) : ∃ es es', s.layer = .table es ∧ Value.IsSorted es ∧
    Value.at? ["server"] (.table es) = some (.table es') := by
  obtain ⟨es, hlayer, hsorted, hfind⟩ := layer_written (g := serverSlot) (by simp [slots]) s
  obtain ⟨es', hsection, -⟩ := ServerSection.independent.written List.mem_cons_self s.server
  refine ⟨es, es', hlayer, hsorted, ?_⟩
  rw [Value.at?_singleton, ← hsection]
  exact hfind

/-! ### What the sources say -/

namespace Sources

/-- What the variables say at a place, or else the file. -/
def says? (x : Sources) (path : List String) : Option Value :=
  ((Variable.layer x.vars).at? path).or (x.document.at? path)

/-- Neither the file nor the variables set the address. -/
def LeavesHost (x : Sources) : Prop := ∀ v ∈ [x.document, Variable.layer x.vars], ¬ v.SetsHost

/-- **The settings are those of the preset that is asked for**: they report it, and have its address if no other is
set. -/
structure Heeds (x : Sources) (p : Preset) (s : Settings) : Prop where
  /-- They report it. -/
  preset : s.preset = some p
  /-- They have its address. -/
  host : x.LeavesHost → s.server.host = some p.host

/-- **The file and the variables are amenable to a preset.** -/
structure Amenable (x : Sources) (p : Preset) : Prop where
  /-- They name no other. -/
  names : ∀ v, x.says? presetLeaf.path = some v → Preset.read v = .ok p
  /-- They do not replace the section in which its address stands. -/
  sections : x.LeavesHost → ∀ v ∈ [x.document, Variable.layer x.vars], ∀ w, v.at? ["server"] = some w →
    w.isTable = true

variable {x : Sources} {p : Preset} {s : Settings} {base : Value} {o : Option Value} {path : List String}

/-- Where there are tables on the way, all layers show what the file and the variables say, or else what is below. -/
theorem shows_lay (hdoc : Opens path x.document) (hvars : Opens path (Variable.layer x.vars))
    (hbase : Shows path base o) : Shows path (x.lay base) ((x.says? path).or o) := by
  rw [says?, Option.or_assoc]
  exact (hbase.overlay hdoc.shows).overlay hvars.shows

/-- The file and the variables are layers. -/
theorem isLayer (hdoc : Toml.parse? (x.file.getD "") = some x.document) :
    ∀ v ∈ [x.document, Variable.layer x.vars], v.IsLayer := by
  simp only [List.forall_mem_cons]
  exact ⟨Toml.exists_of_parse? hdoc, Variable.isLayer_layer x.vars, List.forall_mem_nil _⟩

theorem opens_profile {v : Value} (h : v.IsLayer) : Opens presetLeaf.path v := by
  obtain ⟨es, hes, hsorted, -⟩ := h
  exact ⟨es, hes, hsorted, fun _ _ => trivial⟩

theorem opens_host {v : Value} (h : v.IsLayer) (hsection : ∀ w, v.at? ["server"] = some w → w.isTable = true) :
    Opens hostLeaf.path v := by
  obtain ⟨es, rfl, hsorted, horderly⟩ := h
  refine ⟨es, rfl, hsorted, fun w hw => ?_⟩
  have htable := hsection w (by rw [Value.at?_singleton, hw])
  cases w with
  | table es' => exact ⟨es', rfl, horderly "server" _ hw es' rfl, fun _ _ => trivial⟩
  | _ => cases htable

/-- What is read if a preset is asked for. -/
theorem read_of_asked (hasked : x.asked = some p) (hs : x.load = .ok s) :
    Toml.parse? (x.file.getD "") = some x.document ∧
      Settings.read (x.lay ((ofPreset none).layer.overlay (ofPreset (some p)).layer)) = .ok s := by
  obtain ⟨hdoc, hread⟩ := read_of_load hs
  rw [hasked] at hread
  exact ⟨hdoc, hread⟩

variable (hasked : x.asked = some p) (hs : x.load = .ok s)

include hasked hs

/-- A setting whose place is open in the file and the variables is what they say, or else what the preset says. -/
theorem read_asked {ℓ : Leaf} (hℓ : ℓ.Works) (hopens : ∀ v ∈ [x.document, Variable.layer x.vars], Opens ℓ.path v) :
    (∀ v, x.says? ℓ.path = some v → ℓ.read v = .ok (ℓ.get s)) ∧
      (x.says? ℓ.path = none → ℓ.get s = ℓ.get (ofPreset (some p))) := by
  obtain ⟨-, hread⟩ := read_of_asked hasked hs
  obtain ⟨v, hv, hbelow⟩ := hℓ.shows_layers (ofPreset none) (ofPreset (some p))
  have hshows := shows_lay (hopens _ List.mem_cons_self) (hopens _ (List.mem_cons_of_mem _ List.mem_cons_self)) hv
  constructor
  · intro w hw
    rw [hw] at hshows
    exact hℓ.read_shown hshows hread
  · intro hnone
    rw [hnone] at hshows
    exact Except.ok.inj ((hℓ.read_shown hshows hread).symm.trans hbelow)

/-- **The preset that is reported** is the one that is asked for, unless the file or the variables name another. -/
theorem preset_iff : s.preset = some p ↔ ∀ v, x.says? presetLeaf.path = some v → Preset.read v = .ok p := by
  obtain ⟨hdoc, -⟩ := read_of_asked hasked hs
  obtain ⟨hsaid, hunsaid⟩ := read_asked hasked hs works_preset fun v hv => opens_profile (isLayer hdoc v hv)
  cases hsays : x.says? presetLeaf.path with
  | none => exact iff_of_true (hunsaid hsays) fun v hv => by cases hv
  | some w =>
    have hw : Reader.option Preset.read w = .ok s.preset := hsaid w hsays
    constructor
    · rintro hpreset v ⟨⟩
      rwa [hpreset, option_preset_iff] at hw
    · intro h
      rw [option_preset_iff.2 (h w rfl)] at hw
      exact (Except.ok.inj hw).symm

/-- **The address is the one of the preset** if nobody sets it and the section is not replaced. -/
theorem host_of_sections (hleaves : x.LeavesHost)
    (hsections : ∀ v ∈ [x.document, Variable.layer x.vars], ∀ w, v.at? ["server"] = some w → w.isTable = true) :
    s.server.host = some p.host := by
  obtain ⟨hdoc, -⟩ := read_of_asked hasked hs
  have hopens : ∀ v ∈ [x.document, Variable.layer x.vars], Opens hostLeaf.path v := fun v hv =>
    opens_host (isLayer hdoc v hv) (hsections v hv)
  have hnone {v : Value} (hv : v ∈ [x.document, Variable.layer x.vars]) : v.at? hostLeaf.path = none :=
    not_not.1 fun h => hleaves v hv (.inl h)
  refine (read_asked hasked hs (works_of_mem_leaves hostLeaf_mem) hopens).2 ?_
  rw [says?, hnone List.mem_cons_self, hnone (List.mem_cons_of_mem _ List.mem_cons_self)]
  rfl

/-- The server's section is read from what stands there in all layers: a table, and the file's and the variables' over
it. -/
theorem exists_section : ∃ es, ServerSection.read (((Value.table es).under (x.document.at? ["server"])).under
    ((Variable.layer x.vars).at? ["server"])) = .ok s.server := by
  obtain ⟨hdoc, hread⟩ := read_of_asked hasked hs
  obtain ⟨document, hdocument, hsorted, -⟩ := isLayer hdoc _ List.mem_cons_self
  obtain ⟨vars, hvars, hsorted', -⟩ := isLayer hdoc _ (List.mem_cons_of_mem _ List.mem_cons_self)
  obtain ⟨lower, inner, hlower, hlowerSorted, hinner⟩ := exists_server_layer (ofPreset none)
  obtain ⟨upper, outer, hupper, hupperSorted, houter⟩ := exists_server_layer (ofPreset (some p))
  have hbase := Value.at?_singleton_overlay hlowerSorted hupperSorted hinner
  rw [houter] at hbase
  have hbaseSorted := hlowerSorted.entriesOnto upper
  have hfile := Value.at?_singleton_overlay hbaseSorted hsorted hbase
  have hall := Value.at?_singleton_overlay (hbaseSorted.entriesOnto document) hsorted' hfile
  rw [lay, hlower, hupper, hdocument, hvars] at hread
  simp only [Value.overlay, Value.onto] at hread hall
  rw [hdocument, hvars]
  rw [Value.at?_singleton] at hall
  exact ⟨_, read_slot (g := serverSlot) (by simp [slots]) ((hbaseSorted.entriesOnto document).entriesOnto vars) hread
    hall⟩

/-- If an address is there that nobody sets, the section was not replaced. -/
theorem sections_of_host (hleaves : x.LeavesHost) (hhost : s.server.host ≠ none) :
    ∀ v ∈ [x.document, Variable.layer x.vars], ∀ w, v.at? ["server"] = some w → w.isTable = true := by
  obtain ⟨hdoc, -⟩ := read_of_asked hasked hs
  obtain ⟨es, hsection⟩ := exists_section hasked hs
  have hdocument := hleaves _ List.mem_cons_self
  have hvars := hleaves _ (List.mem_cons_of_mem _ List.mem_cons_self)
  have hempty {v w : Value} (hv : ¬ v.SetsHost) (hw : v.at? ["server"] = some w) (item : Value) (items : List Value) :
      w ≠ .array (item :: items) := fun h => hv (.inr ⟨item, items, h ▸ hw⟩)
  have hupper : ∀ w, (Variable.layer x.vars).at? ["server"] = some w → w.isTable = true := by
    intro w hw
    by_contra hno
    have hno : w.isTable = false := Bool.not_eq_true _ ▸ hno
    rw [hw, Value.under, Option.elim, Value.onto_of_not_isTable hno] at hsection
    exact hhost (ServerSection.host_of_not_isTable hsection hno (hempty hvars hw))
  simp only [List.forall_mem_cons]
  refine ⟨fun w hw => ?_, hupper, List.forall_mem_nil _⟩
  by_contra hno
  have hno : w.isTable = false := Bool.not_eq_true _ ▸ hno
  rw [hw, Value.under, Value.under, Option.elim_some, Value.onto_of_not_isTable hno] at hsection
  cases hu : (Variable.layer x.vars).at? ["server"] with
  | none =>
    rw [hu] at hsection
    exact hhost (ServerSection.host_of_not_isTable hsection hno (hempty hdocument hw))
  | some u =>
    have htable := hupper u hu
    cases u with
    | table es' =>
      -- the variables' table stands alone, and has no address
      rw [hu, Option.elim_some, Value.table_onto_of_not_isTable es' hno] at hsection
      have hnone : (Variable.layer x.vars).at? ["server", "host"] = none := not_not.1 fun h => hvars (.inl h)
      rw [Value.at?_cons_of_table hu, Value.at?_singleton] at hnone
      exact hhost (ServerSection.host_of_find?_eq_none hsection hnone)
    | _ => cases htable

omit hasked hs

end Sources

/-- **When the preset that is asked for is heeded.** Settings that are loaded with a preset asked for report this preset,
and have its address whenever neither the file nor the variables set one, if and only if the file and the variables
name no other preset and do not replace the server's section by something that is no table. -/
theorem heeds_iff (x : Sources) (p : Preset) (s : Settings) (hasked : x.asked = some p) (hs : x.load = .ok s) :
    x.Heeds p s ↔ x.Amenable p := by
  have hpreset := Sources.preset_iff hasked hs
  constructor
  · intro h
    refine ⟨hpreset.1 h.preset, fun hleaves => ?_⟩
    have hhost : s.server.host ≠ none := by
      rw [h.host hleaves]
      exact Option.some_ne_none _
    exact Sources.sections_of_host hasked hs hleaves hhost
  · intro h
    exact ⟨hpreset.2 h.names, fun hleaves => Sources.host_of_sections hasked hs hleaves (h.sections hleaves)⟩

/-- Whoever asks for the preset that the file names anyway is heeded, so the file and the variables are amenable. -/
theorem heeds_iff_desk :
    Sources.load { desk with asked := some .server } = .ok deskSettings ∧
      Sources.Heeds { desk with asked := some .server } .server deskSettings ∧
      Sources.Amenable { desk with asked := some .server } .server := by
  have hload : Sources.load { desk with asked := some .server } = .ok deskSettings := by decide +kernel
  have hheeds : Sources.Heeds { desk with asked := some .server } .server deskSettings := ⟨rfl, fun _ => rfl⟩
  exact ⟨hload, hheeds, (heeds_iff _ .server deskSettings rfl hload).1 hheeds⟩

/-- A file that names a preset, and another one that is asked for. -/
def disputed : Sources := ⟨some "profile = \"local\"\n", [], some .server⟩

/-- What is loaded reports the preset of the file and has the address of the other. -/
theorem load_disputed : disputed.load = .ok { preset := some .localOnly, server := { host := some "0.0.0.0" } } := by
  decide +kernel

/-- **The preset that is asked for need not be heeded.** -/
theorem not_heeded : ¬ ∀ (x : Sources) (p : Preset) (s : Settings), x.asked = some p → x.load = .ok s → x.Heeds p s := by
  intro h
  have hpreset := (h disputed .server _ rfl load_disputed).preset
  cases hpreset

end TurnRelay.Settings
