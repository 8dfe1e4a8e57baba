import TurnRelay.Proofs.Settings.Document
import TurnRelay.Proofs.Settings.Leaves

/-!
# Which layer counts

Settings are loaded twice. The first time only the preset is looked for, and the second time there is one more layer,
which says what the preset stands for. That layer says everything, as the defaults below it do, so all that can be
hoped for is that it has the same to say: it differs from the defaults in the preset's name and in the address, and
nowhere else. With it in place each setting comes from the last of the variables, the file, the preset and the defaults
that gives it, whole, and depends on nothing else.

## The model

* `Sources` — what settings are loaded from.
* `Sources.given?` — what the variables say for a setting, or else the file.
* `Sources.preset` — the preset that counts.
* `Sources.Proper` — sections are tables, and variables belong to single settings.
* `Sources.AgreeBut` — two sources differ in one setting at most.

## What is proved

* `Leaf.Works.read_shown` — a setting is what the layers show at its place.
* `ofTable?_lay` — the preset that is found first.
* `get_ofPreset` — a preset says no more than its address.
* `Proper.read_given`, `Proper.get_of_not_given` — what a setting is, whether it is given or not.
* `Proper.get_of_agreeBut` — a setting depends on no other, but for the address.
* `loaded_by_layers` — every setting is the one of the uppermost layer that gives it, and depends on no other.
-/

namespace TurnRelay.Settings

open Value (Opens Shows)

/-! ### What the layers show -/

/-- **A setting is what the layers show at its place.** -/
theorem Leaf.Works.read_shown {ℓ : Leaf} (hℓ : ℓ.Works) {t v : Value} {s : Settings} (ht : Shows ℓ.path t (some v))
    (hs : Settings.read t = .ok s) : ℓ.read v = .ok (ℓ.get s) := by
  obtain ⟨w, hw, hstands⟩ := ht.said v rfl
  have hread := hℓ.read_at t s w ht.opens hs hw
  obtain rfl | ⟨⟨es, rfl⟩, -⟩ := hstands
  · exact hread
  · exact absurd hread (hℓ.read_table es _)

/-- Settings laid over others show what they are. -/
theorem Leaf.Works.shows_layers {ℓ : Leaf} (hℓ : ℓ.Works) (s s' : Settings) :
    ∃ v, Shows ℓ.path (s.layer.overlay s'.layer) (some v) ∧ ℓ.read v = .ok (ℓ.get s') := by
  obtain ⟨v, hv, hread⟩ := hℓ.at_layer s'
  have hshows := (hℓ.opens_layer s).shows.overlay (hℓ.opens_layer s').shows
  rw [hv] at hshows
  exact ⟨v, hshows, hread⟩

/-- The preset that a table names is the one that is shown. -/
theorem Preset.ofTable?_of_shows {t : Value} {o : Option Value} (h : Shows presetLeaf.path t o) :
    Preset.ofTable? t = o.bind fun v => (Preset.read v).toOption := by
  obtain ⟨es, rfl, -⟩ := h.opens
  have hat : Value.at? presetLeaf.path (.table es) = Value.find? "profile" es := by
    rw [presetLeaf, Value.at?]
    cases Value.find? "profile" es <;> rfl
  cases o with
  | none =>
    have hnone := h.unsaid rfl
    rw [hat] at hnone
    rw [Preset.ofTable?, hnone]
  | some v =>
    obtain ⟨w, hw, hstands⟩ := h.said v rfl
    rw [hat] at hw
    rw [Preset.ofTable?, hw]
    obtain rfl | ⟨⟨es, rfl⟩, ⟨es', rfl⟩⟩ := hstands
    · rfl
    · -- neither table names one
      have hnone (es : Value.Entries) : (Preset.read (.table es)).toOption = none := by
        cases hread : Preset.read (.table es) with
        | error c => rfl
        | ok p => exact absurd hread (plain_preset.read_table es p)
      rw [Option.bind_some, Option.bind_some, hnone, hnone]

/-- The address to listen on. -/
def hostLeaf : Leaf := ⟨["server", "host"], .option .string, fun s => s.server.host⟩

theorem hostLeaf_mem : hostLeaf ∈ leaves :=
  List.mem_cons_of_mem _ (List.mem_append_left _ (List.mem_append_left _ List.mem_cons_self))

/-- **A preset says no more than its address**, beside its own name. -/
theorem get_ofPreset (preset : Option Preset) : ∀ ℓ ∈ leaves, ℓ.path ≠ presetLeaf.path → ℓ.path ≠ hostLeaf.path →
    ℓ.get (ofPreset preset) = ℓ.get {} := by
  cases preset with
  | none => exact fun _ _ _ _ => rfl
  | some p =>
    refine forall_leaves (fun hprofile => absurd rfl hprofile) (fun f hf _ hhost => ?_) (fun _ _ _ _ => rfl)
      fun _ _ _ _ => rfl
    obtain rfl | hf := List.mem_cons.1 hf
    · exact absurd rfl hhost
    · obtain rfl := List.mem_singleton.1 hf
      rfl

/-- A leaf is the preset, or it stands in a section. -/
theorem path_of_mem_leaves : ∀ ℓ ∈ leaves, ℓ.path = presetLeaf.path ∨
    ∃ name ∈ ["server", "gateway", "relay"], ∃ key, ℓ.path = [name, key] :=
  forall_leaves (.inl rfl) (fun f _ => .inr ⟨"server", by simp, f.name, rfl⟩)
    (fun f _ => .inr ⟨"gateway", by simp, f.name, rfl⟩) fun f _ => .inr ⟨"relay", by simp, f.name, rfl⟩

/-! ### Sources -/

/-- What settings are loaded from. -/
structure Sources where
  /-- The settings file's text, if there is one. -/
  file : Option String
  /-- The variables in their order. -/
  vars : List (String × String)
  /-- The preset that is asked for. -/
  asked : Option Preset

namespace Sources

/-- The settings. -/
def load (x : Sources) : Except LoadError Settings := Settings.load x.file x.vars x.asked

/-- The table that the file holds. -/
def document (x : Sources) : Value := (Toml.parse? (x.file.getD "")).getD (.table [])

/-- **What is given for a place**: what the last variable says that belongs there, or else what the file says. -/
def given? (x : Sources) (path : List String) : Option Value :=
  (Variable.said? x.vars path).or (x.document.at? path)

/-- **The preset that counts**: the one that is asked for, or else the one that is given. -/
def preset (x : Sources) : Option Preset :=
  x.asked.or ((x.given? presetLeaf.path).bind fun v => (Preset.read v).toOption)

/-- Sections are tables, and every variable of a setting belongs to a single one. -/
structure Proper (x : Sources) : Prop where
  /-- A section that is in the file is a table. -/
  sections : ∀ name ∈ ["server", "gateway", "relay"], ∀ v, x.document.at? [name] = some v → ∃ es, v = .table es
  /-- A variable names a single setting. -/
  vars : ∀ y ∈ x.vars, ∀ path, Variable.path? y.1 = some path → path ∈ leaves.map Leaf.path

/-- Two sources that give the same, except at one place. -/
structure AgreeBut (path : List String) (x x' : Sources) : Prop where
  /-- The same preset is asked for, unless presets are what they differ in. -/
  asked : path ≠ presetLeaf.path → x'.asked = x.asked
  /-- The variables say the same. -/
  said : ∀ ℓ ∈ leaves, ℓ.path ≠ path → Variable.said? x'.vars ℓ.path = Variable.said? x.vars ℓ.path
  /-- The files say the same. -/
  written : ∀ ℓ ∈ leaves, ℓ.path ≠ path → x'.document.at? ℓ.path = x.document.at? ℓ.path

/-- The file and the variables laid over something. -/
def lay (x : Sources) (base : Value) : Value := (base.overlay x.document).overlay (Variable.layer x.vars)

variable {x x' : Sources} {s s' : Settings} {ℓ : Leaf} {base v : Value} {o : Option Value}

/-- Settings that are loaded are read from all layers. -/
theorem read_of_load (h : x.load = .ok s) :
    Toml.parse? (x.file.getD "") = some x.document ∧
      Settings.read (x.lay ((ofPreset none).layer.overlay
        (ofPreset (x.asked <|> Preset.ofTable? (x.lay (ofPreset none).layer))).layer)) = .ok s := by
  unfold load Settings.load at h
  cases hdoc : Toml.parse? (x.file.getD "") with
  | none =>
    rw [hdoc] at h
    cases h
  | some d =>
    rw [hdoc] at h
    have hd : x.document = d := by rw [document, hdoc, Option.getD_some]
    refine ⟨by rw [hd], ?_⟩
    simp only [lay, hd]
    revert h
    dsimp only [bind, Except.bind]
    split
    · rintro ⟨⟩
      assumption
    · rintro ⟨⟩

theorem Proper.opens_document (hx : x.Proper) (hdoc : Toml.parse? (x.file.getD "") = some x.document)
    (hℓ : ℓ ∈ leaves) : Opens ℓ.path x.document := by
  obtain ⟨es, hes, hsorted, horderly⟩ := Toml.exists_of_parse? hdoc
  obtain hpath | ⟨name, hname, key, hpath⟩ := path_of_mem_leaves ℓ hℓ
  · rw [hpath]
    exact ⟨es, hes, hsorted, fun _ _ => trivial⟩
  · rw [hpath]
    refine ⟨es, hes, hsorted, fun w hw => ?_⟩
    obtain ⟨es', rfl⟩ := hx.sections name hname w (by rw [hes]; exact Option.bind_eq_some_iff.2 ⟨w, hw, rfl⟩)
    exact ⟨es', rfl, horderly name _ hw es' rfl, fun _ _ => trivial⟩

theorem Proper.shows_vars (hx : x.Proper) (hℓ : ℓ ∈ leaves) :
    Shows ℓ.path (Variable.layer x.vars) (Variable.said? x.vars ℓ.path) := by
  have hne : ℓ.path ≠ [] := by
    obtain hpath | ⟨name, -, key, hpath⟩ := path_of_mem_leaves ℓ hℓ <;> rw [hpath] <;> exact List.cons_ne_nil _ _
  refine Variable.shows_layer hne fun y hy path hpath => ?_
  obtain ⟨ℓ', hℓ', rfl⟩ := List.mem_map.1 (hx.vars y hy path hpath)
  exact apart_leaves ℓ hℓ ℓ' hℓ'

/-- The file and the variables show what is given, and elsewhere what is below them. -/
theorem Proper.shows_lay (hx : x.Proper) (hdoc : Toml.parse? (x.file.getD "") = some x.document) (hℓ : ℓ ∈ leaves)
    (hbase : Shows ℓ.path base o) : Shows ℓ.path (x.lay base) ((x.given? ℓ.path).or o) := by
  rw [given?, Option.or_assoc]
  exact (hbase.overlay (hx.opens_document hdoc hℓ).shows).overlay (hx.shows_vars hℓ)

/-- **The preset that is found first is the one that is given.** -/
theorem Proper.ofTable?_lay (hx : x.Proper) (hdoc : Toml.parse? (x.file.getD "") = some x.document) :
    (x.asked <|> Preset.ofTable? (x.lay (ofPreset none).layer)) = x.preset := by
  have hworks := works_preset
  obtain ⟨w, hw, hread⟩ := hworks.at_layer (ofPreset none)
  have hbase := (hworks.opens_layer (ofPreset none)).shows
  rw [hw] at hbase
  -- by default none is named
  have hnone : (Preset.read w).toOption = none := by
    cases hp : Preset.read w with
    | error c => rfl
    | ok p =>
      have hw : w ≠ .nothing := by
        rintro rfl
        cases hp
      have hread : Reader.option Preset.read w = .ok none := hread
      rw [option_of_ne Preset.read hw, hp] at hread
      cases hread
  rw [Preset.ofTable?_of_shows (hx.shows_lay hdoc List.mem_cons_self hbase), preset]
  cases x.asked with
  | some p => rfl
  | none =>
    cases x.given? presetLeaf.path with
    | some v => rfl
    | none => exact hnone

variable (hx : x.Proper) (h : x.load = .ok s) (hℓ : ℓ ∈ leaves)

include hx h hℓ

theorem Proper.shows_all :
    ∃ v, Shows ℓ.path (x.lay ((ofPreset none).layer.overlay (ofPreset x.preset).layer))
        ((x.given? ℓ.path).or (some v)) ∧ ℓ.read v = .ok (ℓ.get (ofPreset x.preset)) ∧
      Settings.read (x.lay ((ofPreset none).layer.overlay (ofPreset x.preset).layer)) = .ok s := by
  obtain ⟨hdoc, hread⟩ := read_of_load h
  rw [hx.ofTable?_lay hdoc] at hread
  obtain ⟨v, hv, hleaf⟩ := (works_of_mem_leaves hℓ).shows_layers (ofPreset none) (ofPreset x.preset)
  exact ⟨v, hx.shows_lay hdoc hℓ hv, hleaf, hread⟩

/-- A setting that is given is what is given. -/
theorem Proper.read_given (hv : x.given? ℓ.path = some v) : ℓ.read v = .ok (ℓ.get s) := by
  obtain ⟨w, hshows, -, hread⟩ := hx.shows_all h hℓ
  rw [hv] at hshows
  exact (works_of_mem_leaves hℓ).read_shown hshows hread

/-- One that is not is what the preset says. -/
theorem Proper.get_of_not_given (hv : x.given? ℓ.path = none) : ℓ.get s = ℓ.get (ofPreset x.preset) := by
  obtain ⟨w, hshows, hleaf, hread⟩ := hx.shows_all h hℓ
  rw [hv] at hshows
  exact Except.ok.inj (((works_of_mem_leaves hℓ).read_shown hshows hread).symm.trans hleaf)

omit hℓ in
/-- An address that is not given is the preset's. -/
theorem Proper.host_of_not_given (hv : x.given? hostLeaf.path = none) :
    s.server.host = x.preset.map Preset.host := by
  have hget : s.server.host = (ofPreset x.preset).server.host := hx.get_of_not_given h hostLeaf_mem hv
  rw [hget]
  cases x.preset <;> rfl

/-- **Two sources that differ in one place** have the same settings elsewhere, but for the address if it is the
preset's place. -/
theorem Proper.get_of_agreeBut (hx' : x'.Proper) (h' : x'.load = .ok s') {path : List String}
    (hagree : x.AgreeBut path x') (hpath : ℓ.path ≠ path) (hexcept : path = presetLeaf.path → ℓ.path ≠ hostLeaf.path) :
    ℓ.get s' = ℓ.get s := by
  have hgiven {ℓ : Leaf} (hℓ : ℓ ∈ leaves) (hpath : ℓ.path ≠ path) : x'.given? ℓ.path = x.given? ℓ.path := by
    rw [given?, given?, hagree.said ℓ hℓ hpath, hagree.written ℓ hℓ hpath]
  have hsame := hgiven hℓ hpath
  cases hv : x.given? ℓ.path with
  | some v =>
    rw [hv] at hsame
    exact Except.ok.inj ((hx'.read_given h' hℓ hsame).symm.trans (hx.read_given h hℓ hv))
  | none =>
    rw [hv] at hsame
    rw [hx.get_of_not_given h hℓ hv, hx'.get_of_not_given h' hℓ hsame]
    by_cases hpreset : path = presetLeaf.path
    · -- the presets may differ, but this setting does not depend on them
      have hprofile : ℓ.path ≠ presetLeaf.path := fun h => hpath (h.trans hpreset.symm)
      rw [get_ofPreset _ ℓ hℓ hprofile (hexcept hpreset), get_ofPreset _ ℓ hℓ hprofile (hexcept hpreset)]
    · have hasked : x'.asked = x.asked := hagree.asked hpreset
      have hprofile : x'.given? presetLeaf.path = x.given? presetLeaf.path :=
        hgiven List.mem_cons_self (Ne.symm hpreset)
      have heq : x'.preset = x.preset := by rw [preset, preset, hasked, hprofile]
      rw [heq]

omit hx h hℓ

/-- Whoever asks for another preset differs in the preset only. -/
theorem agreeBut_ask (x : Sources) (preset : Option Preset) :
    x.AgreeBut presetLeaf.path { x with asked := preset } :=
  ⟨fun hne => absurd rfl hne, fun _ _ _ => rfl, fun _ _ _ => rfl⟩

/-- One more variable makes a difference where it belongs. -/
theorem agreeBut_concat (x : Sources) (y : String × String) {path : List String}
    (hy : Variable.path? y.1 = some path) : x.AgreeBut path { x with vars := x.vars ++ [y] } := by
  refine ⟨fun _ => rfl, fun ℓ _ hne => ?_, fun _ _ _ => rfl⟩
  rw [Variable.said?_concat, if_neg]
  rw [hy]
  exact fun hpath => hne (Option.some.inj hpath).symm

end Sources

/-- **Every setting is the one of the uppermost layer that gives it.** Where sections are tables and variables belong to
single settings, settings that are loaded are read, each as a whole, from the last variable that belongs to them, or
else from the file. An address that is not given is the one of the preset that is asked for, or else of the one that is
given, and any other setting is as it is by default. So if two sources differ in one place only, then the settings do,
but for the address if the place is the preset's. -/
theorem loaded_by_layers (x : Sources) (s : Settings) (hx : x.Proper) (hs : x.load = .ok s) :
    (∀ ℓ ∈ leaves, ∀ v, x.given? ℓ.path = some v → ℓ.read v = .ok (ℓ.get s)) ∧
    (x.given? hostLeaf.path = none → s.server.host = x.preset.map Preset.host) ∧
    (∀ ℓ ∈ leaves, ℓ.path ≠ presetLeaf.path → ℓ.path ≠ hostLeaf.path → x.given? ℓ.path = none →
      ℓ.get s = ℓ.get {}) ∧
    (∀ (path : List String) (x' : Sources) (s' : Settings), x'.Proper → x'.load = .ok s' → x.AgreeBut path x' →
      ∀ ℓ ∈ leaves, ℓ.path ≠ path → (path = presetLeaf.path → ℓ.path ≠ hostLeaf.path) → ℓ.get s' = ℓ.get s) := by
  refine ⟨fun ℓ hℓ v hv => hx.read_given hs hℓ hv, hx.host_of_not_given hs, fun ℓ hℓ hprofile hhost hnone => ?_,
    fun path x' s' hx' hs' hagree ℓ hℓ hpath hexcept => hx.get_of_agreeBut hs hℓ hx' hs' hagree hpath hexcept⟩
  rw [hx.get_of_not_given hs hℓ hnone, get_ofPreset _ ℓ hℓ hprofile hhost]

/-- Whether a value is a table. -/
def Value.isTable : Value → Bool
  | .table _ => true
  | _ => false

/-- A file that names a preset, and a secret that stands in a variable too. -/
def desk : Sources where
  file := some "profile = \"server\"\n[server]\nport = 8080\n[gateway]\nurl = \"ws://gw:1\"\ntoken = \"t\"\n"
  vars := [("CHAT_RELAY_GATEWAY__TOKEN", "secret"), ("HOME", "/root")]
  asked := none

/-- What is loaded from it. -/
def deskSettings : Settings where
  preset := some .server
  server := { host := some "0.0.0.0", port := some 8080 }
  gateway := { url := "ws://gw:1", token := some "secret" }

/-- A port of its own. -/
def deskPort : String × String := ("CHAT_RELAY_SERVER__PORT", "9090")

/-- If another preset is asked for, the address is another, and if another port is set, nothing else changes. -/
theorem loaded_by_layers_desk :
    desk.Proper ∧ desk.load = .ok deskSettings ∧
      (∀ ℓ ∈ leaves, ∀ v, desk.given? ℓ.path = some v → ℓ.read v = .ok (ℓ.get deskSettings)) ∧
      deskSettings.server.host = (some Preset.server).map Preset.host ∧
      (∀ s', Sources.load { desk with asked := some .localOnly } = .ok s' → s'.server.host = some "127.0.0.1" ∧
        ∀ ℓ ∈ leaves, ℓ.path ≠ presetLeaf.path → ℓ.path ≠ hostLeaf.path → ℓ.get s' = ℓ.get deskSettings) ∧
      ∀ s', Sources.load { desk with vars := desk.vars ++ [deskPort] } = .ok s' →
        ∀ ℓ ∈ leaves, ℓ.path ≠ ["server", "port"] → ℓ.get s' = ℓ.get deskSettings := by
  have hsections : ∀ name ∈ ["server", "gateway", "relay"], ∀ v, desk.document.at? [name] = some v →
      ∃ es, v = .table es := by
    intro name hname v hv
    have htables : ∀ name ∈ ["server", "gateway", "relay"], (desk.document.at? [name]).all Value.isTable = true := by
      decide +kernel
    have htable := htables name hname
    rw [hv] at htable
    cases v with
    | table es => exact ⟨es, rfl⟩
    | _ => cases htable
  have hvars : ∀ y ∈ desk.vars ++ [deskPort], ∀ path ∈ Variable.path? y.1, path ∈ leaves.map Leaf.path := by
    decide +kernel
  have hproper : desk.Proper := ⟨hsections, fun y hy => hvars y (List.mem_append_left _ hy)⟩
  have hload : desk.load = .ok deskSettings := by decide +kernel
  have hpreset : desk.preset = some .server := by decide +kernel
  have hhost : desk.given? hostLeaf.path = none := Option.isNone_iff_eq_none.1 (by decide +kernel)
  have hport : Variable.path? deskPort.1 = some ["server", "port"] := by decide +kernel
  obtain ⟨hgiven, haddress, -, hagree⟩ := loaded_by_layers desk deskSettings hproper hload
  refine ⟨hproper, hload, hgiven, hpreset ▸ haddress hhost, fun s' hs' => ?_, fun s' hs' ℓ hℓ hother => ?_⟩
  · have hproper' : Sources.Proper { desk with asked := some .localOnly } := ⟨hproper.sections, hproper.vars⟩
    refine ⟨(loaded_by_layers _ s' hproper' hs').2.1 hhost, fun ℓ hℓ hprofile hother => ?_⟩
    exact hagree presetLeaf.path _ s' hproper' hs' (desk.agreeBut_ask _) ℓ hℓ hprofile fun _ => hother
  · have hproper' : Sources.Proper { desk with vars := desk.vars ++ [deskPort] } := ⟨hsections, hvars⟩
    exact hagree ["server", "port"] _ s' hproper' hs' (desk.agreeBut_concat deskPort hport) ℓ hℓ hother
      fun hpath => absurd hpath (by decide +kernel)

end TurnRelay.Settings
