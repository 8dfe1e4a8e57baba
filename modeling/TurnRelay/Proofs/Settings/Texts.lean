import TurnRelay.Proofs.Settings.Exchange
import TurnRelay.Proofs.Settings.Literals
import TurnRelay.Proofs.Settings.Precedence
import TurnRelay.Proofs.Settings.Written

/-!
# Texts in the file and in variables

A text that nothing else says may be put into the file, or into a variable. Where it is put makes no difference for how
the layers come to lie: the file is below the variables and above everything else, and so is a single place of it. What
makes a difference is what the text is taken for. In the file it stands in quotes and is a text whatever it looks like;
in a variable it is one only if it does not look like anything else. A secret of digits alone is a number there, and
the settings cannot be loaded.

## The model

* `textPaths` — the places of the settings that are texts.
* `Sources.Lacks` — nothing is said at a place.
* `Sources.Writes`, `Sources.Exports` — the same sources with a text at the place, in the file or in a variable.

## What is proved

* `Leaf.ReadsText` — nothing but a text, or a character, is read as the text.
* `Sources.lay_writes`, `Sources.lay_exports` — either way, it is as if the text were laid over everything.
* `Sources.load_eq` — settings are loaded alike if the variable says the text.
* `texts_alike_iff` — they are, if the text is no literal, and otherwise they are not.
* `not_texts_alike` — so the file and the variables are not equivalent.
-/

namespace TurnRelay.Settings

open Value (Opens Shows)

/-! ### Texts -/

/-- The places of the settings that are texts. -/
def textPaths : List (List String) :=
  [["server", "host"], ["gateway", "url"], ["gateway", "token"], ["gateway", "client_id"],
    ["gateway", "client_version"], ["gateway", "platform"], ["gateway", "mode"], ["gateway", "role"],
    ["relay", "default_session_key"]]

/-- Nothing but a text, or a character, is read as what the text is read as. -/
def Leaf.ReadsText (ℓ : Leaf) : Prop :=
  ∀ text v a, ℓ.read (.string text) = .ok a → ℓ.read v = .ok a →
    v = .string text ∨ ∃ c, v = .char c ∧ text = String.singleton c

theorem eq_of_read_string {text : String} {v : Value} (h : Reader.string v = .ok text) :
    v = .string text ∨ ∃ c, v = .char c ∧ text = String.singleton c := by
  cases v with
  | string s =>
    cases h
    exact .inl rfl
  | char c =>
    cases h
    exact .inr ⟨c, rfl, rfl⟩
  | _ => cases h

theorem eq_of_read_option_string {text : String} {v : Value} (h : Reader.option .string v = .ok (some text)) :
    v = .string text ∨ ∃ c, v = .char c ∧ text = String.singleton c := by
  by_cases hv : v = .nothing
  · subst hv
    cases h
  · rw [option_of_ne _ hv] at h
    cases hread : Reader.string v with
    | error c =>
      rw [hread] at h
      cases h
    | ok s =>
      rw [hread] at h
      cases h
      exact eq_of_read_string hread

/-- **The settings at these places are read as texts.** -/
theorem readsText_of_mem : ∀ ℓ ∈ leaves, ℓ.path ∈ textPaths → ℓ.ReadsText := by
  have string (text : String) (v : Value) (s : String) (htext : Reader.string (.string text) = .ok s)
      (hv : Reader.string v = .ok s) : v = .string text ∨ ∃ c, v = .char c ∧ text = String.singleton c := by
    cases htext
    exact eq_of_read_string hv
  have option (text : String) (v : Value) (s : Option String)
      (htext : Reader.option .string (.string text) = .ok s) (hv : Reader.option .string v = .ok s) :
      v = .string text ∨ ∃ c, v = .char c ∧ text = String.singleton c := by
    cases htext
    exact eq_of_read_option_string hv
  have other {ℓ : Leaf} (hℓ : ℓ.path ∉ textPaths) : ℓ.path ∈ textPaths → ℓ.ReadsText := fun h => absurd h hℓ
  refine forall_leaves (other (by decide +kernel)) ?_ ?_ ?_
  · simp only [ServerSection.slots, List.forall_mem_cons]
    exact ⟨fun _ => option, other (by decide +kernel), List.forall_mem_nil _⟩
  · simp only [GatewaySection.slots, List.forall_mem_cons]
    exact ⟨fun _ => string, fun _ => option, fun _ => string, fun _ => string, fun _ => string, fun _ => string,
      fun _ => string, other (by decide +kernel), other (by decide +kernel), other (by decide +kernel),
      other (by decide +kernel), other (by decide +kernel), other (by decide +kernel), other (by decide +kernel),
      other (by decide +kernel), List.forall_mem_nil _⟩
  · simp only [RelaySection.slots, List.forall_mem_cons]
    exact ⟨fun _ => string, other (by decide +kernel), other (by decide +kernel), List.forall_mem_nil _⟩

theorem exists_leaf {path : List String} (h : path ∈ textPaths) : ∃ ℓ ∈ leaves, ℓ.path = path ∧ ℓ.ReadsText := by
  have hpaths : ∀ path ∈ textPaths, path ∈ leaves.map Leaf.path := by decide +kernel
  obtain ⟨ℓ, hℓ, rfl⟩ := List.mem_map.1 (hpaths path h)
  exact ⟨ℓ, hℓ, rfl, readsText_of_mem ℓ hℓ h⟩

/-! ### One text more -/

namespace Sources

/-- Nothing is said at a place, and the file can be read. -/
structure Lacks (x : Sources) (path : List String) : Prop where
  /-- The file is a document. -/
  readable : Toml.parse? (x.file.getD "") = some x.document
  /-- The file says nothing there. -/
  document : Value.Lacks path x.document
  /-- No variable does. -/
  vars : ∀ y ∈ x.vars, Variable.Lacks path y

/-- Sources with a text at a place of the file, and all else equal. -/
structure Writes (x : Sources) (path : List String) (text : String) (x' : Sources) : Prop where
  /-- The file has the text at the place. -/
  file : Toml.parse? (x'.file.getD "") = some (x.document.overlay (Value.nested path (.string text)))
  /-- The variables are the same. -/
  vars : x'.vars = x.vars
  /-- The same preset is asked for. -/
  asked : x'.asked = x.asked

/-- Sources with a variable of a text that belongs to a place, wherever it stands among the others, and all else
equal. -/
def Exports (x : Sources) (path : List String) (text : String) (y : Sources) : Prop :=
  ∃ name before after, Variable.path? name = some path ∧ x.vars = before ++ after ∧
    y = { x with vars := before ++ (name, text) :: after }

variable {x x' y : Sources} {path : List String} {text : String} {base : Value} {s : Settings}

/-- The settings that are loaded from a file and variables that are laid over something. -/
def loadLaid (lay : Value → Value) (asked : Option Preset) : Except LoadError Settings :=
  match Settings.read (lay ((ofPreset none).layer.overlay
    (ofPreset (asked <|> Preset.ofTable? (lay (ofPreset none).layer))).layer)) with
  | .ok s => .ok s
  | .error c => .error (.misfit c)

theorem load_of_parse (hdoc : Toml.parse? (x.file.getD "") = some x.document) :
    x.load = loadLaid x.lay x.asked := by
  rw [load, Settings.load, hdoc]
  rfl

theorem document_of_parse {v : Value} (hdoc : Toml.parse? (x.file.getD "") = some v) : x.document = v := by
  rw [document, hdoc, Option.getD_some]

/-- **A text in the file** is as good as one that is laid over everything. -/
theorem lay_writes (hne : path ≠ []) (hx : x.Lacks path) (hx' : x.Writes path text x') (hbase : Opens path base) :
    x'.lay base = (x.lay base).overlay (Value.nested path (.string text)) := by
  have hvars := Variable.lacks_layer hne hx.vars
  rw [lay, lay, document_of_parse hx'.file, hx'.vars,
    Value.overlay_nested_assoc (fun w => by rw [Value.onto]) hbase hx.document.opens]
  exact Value.overlay_exchange _ (Value.opens_overlay hbase hx.document.opens) hvars

/-- What the variables say with one more among them. -/
theorem layer_exports (hx : x.Lacks path) (hy : x.Exports path text y) :
    Variable.layer y.vars = (Variable.layer x.vars).overlay (Value.nested path (Variable.value text)) := by
  obtain ⟨name, before, after, hname, hvars, rfl⟩ := hy
  have hlacks := hx.vars
  rw [hvars] at hlacks ⊢
  exact Variable.layer_insert hname hlacks

/-- **A text in a variable** is so, too, if the variable says the text. -/
theorem lay_exports (hne : path ≠ []) (hx : x.Lacks path) (hy : x.Exports path text y)
    (htext : Variable.value text = .string text) (hbase : Opens path base) :
    y.lay base = (x.lay base).overlay (Value.nested path (.string text)) := by
  have hlayer := layer_exports hx hy
  have hvars := Variable.lacks_layer hne hx.vars
  obtain ⟨name, before, after, hname, hsplit, rfl⟩ := hy
  rw [lay, lay, hlayer, htext]
  exact Value.overlay_nested_assoc (fun w => by rw [Value.onto])
    (Value.opens_overlay hbase hx.document.opens) hvars.opens

/-- **Settings are loaded alike if the variable says the text.** -/
theorem load_eq {ℓ : Leaf} (hℓ : ℓ ∈ leaves) (hne : ℓ.path ≠ []) (hx : x.Lacks ℓ.path) (hx' : x.Writes ℓ.path text x')
    (hy : x.Exports ℓ.path text y) (htext : Variable.value text = .string text) : y.load = x'.load := by
  have hopens := (works_of_mem_leaves hℓ).opens_layer
  have hsame {base : Value} (hbase : Opens ℓ.path base) : y.lay base = x'.lay base := by
    rw [lay_exports hne hx hy htext hbase, lay_writes hne hx hx' hbase]
  have hdoc : Toml.parse? (y.file.getD "") = some y.document := by
    obtain ⟨name, before, after, -, -, rfl⟩ := hy
    exact hx.readable
  have hdoc' : Toml.parse? (x'.file.getD "") = some x'.document := by
    rw [document_of_parse hx'.file]
    exact hx'.file
  have hasked : y.asked = x'.asked := by
    obtain ⟨name, before, after, -, -, rfl⟩ := hy
    exact hx'.asked.symm
  rw [load_of_parse hdoc, load_of_parse hdoc', loadLaid, loadLaid, hasked, hsame (hopens _),
    hsame (Value.opens_overlay (hopens _) (hopens _))]

/-- The text in the file is what the setting is read from. -/
theorem read_writes {ℓ : Leaf} (hℓ : ℓ ∈ leaves) (hne : ℓ.path ≠ []) (hx : x.Lacks ℓ.path)
    (hx' : x.Writes ℓ.path text x') (hs : x'.load = .ok s) : ℓ.read (.string text) = .ok (ℓ.get s) := by
  have hworks := works_of_mem_leaves hℓ
  obtain ⟨-, hread⟩ := read_of_load hs
  obtain ⟨v, hv, -⟩ := hworks.shows_layers (ofPreset none)
    (ofPreset (x'.asked <|> Preset.ofTable? (x'.lay (ofPreset none).layer)))
  rw [lay_writes hne hx hx' hv.opens] at hread
  have hlay : Shows ℓ.path (x.lay _) (some v) := (hv.overlay hx.document.shows).overlay
    (Variable.lacks_layer hne hx.vars).shows
  exact hworks.read_shown (hlay.overlay (Value.shows_nested_self _ _)) hread

/-- The variable is what the setting is read from. -/
theorem read_exports {ℓ : Leaf} (hℓ : ℓ ∈ leaves) (hne : ℓ.path ≠ []) (hx : x.Lacks ℓ.path)
    (hy : x.Exports ℓ.path text y) (hs : y.load = .ok s) : ℓ.read (Variable.value text) = .ok (ℓ.get s) := by
  have hworks := works_of_mem_leaves hℓ
  obtain ⟨-, hread⟩ := read_of_load hs
  obtain ⟨v, hv, -⟩ := hworks.shows_layers (ofPreset none)
    (ofPreset (y.asked <|> Preset.ofTable? (y.lay (ofPreset none).layer)))
  have hlayer := layer_exports hx hy
  have hdocument : Shows ℓ.path y.document none := by
    obtain ⟨name, before, after, -, -, rfl⟩ := hy
    exact hx.document.shows
  rw [lay, hlayer] at hread
  have hvars := (Variable.lacks_layer hne hx.vars).shows.overlay
    (Value.shows_nested_self ℓ.path (Variable.value text))
  exact hworks.read_shown ((hv.overlay hdocument).overlay hvars) hread

end Sources

/-- **Every text can be put into a file**, if there is none. -/
theorem exists_writes {path : List String} (hpath : path ∈ textPaths) (vars : List (String × String))
    (asked : Option Preset) (text : String) : ∃ x', Sources.Writes ⟨none, vars, asked⟩ path text x' := by
  have hnames : ∀ path ∈ textPaths, path.length = 2 ∧
      ∀ name ∈ path, name.toList ≠ [] ∧ name.toList.all Toml.isKeyChar = true := by decide +kernel
  obtain ⟨hlength, hbare⟩ := hnames path hpath
  obtain ⟨a, b, rfl⟩ := List.length_eq_two.1 hlength
  have hname {name : String} (h : name ∈ [a, b]) : Toml.IsBare name.toList :=
    ⟨(hbare name h).1, List.all_eq_true.1 (hbare name h).2⟩
  have hparse := Toml.parse?_lineOf (hname List.mem_cons_self) (hname (List.mem_cons_of_mem _ List.mem_cons_self))
    text.toList
  rw [String.ofList_toList, String.ofList_toList, String.ofList_toList] at hparse
  have hdocument : Sources.document ⟨none, vars, asked⟩ = .table [] := rfl
  refine ⟨⟨some (String.ofList (Toml.lineOf a.toList b.toList text.toList)), vars, asked⟩, ?_, rfl, rfl⟩
  rw [hdocument, Value.nested, Value.empty_overlay (Value.isSorted_singleton _ _)]
  exact hparse

/-- No variable says a character of which it consists. -/
theorem Variable.value_ne_char {text : String} {c : Char} (h : text = String.singleton c) : value text ≠ .char c := by
  intro hvalue
  unfold value at hvalue
  dsimp only at hvalue
  split at hvalue
  · rename_i hread
    rw [hvalue] at hread
    have hlength := length_of_read?_char hread
    rw [h, String.toList_singleton, List.length_singleton] at hlength
    omega
  · cases hvalue

/-- **When a text may as well be put into a variable.** Let nothing be said at the place of a setting that is a text, and
let a text without blanks around it be put there, into the file or into a variable. If the text is no literal, the two
ways lead to the same settings, or to the same failure. If it is one, and there are settings with the text in the file,
the variable does not lead to them. -/
theorem texts_alike_iff (x x' y : Sources) (path : List String) (text : String) (hpath : path ∈ textPaths)
    (htext : Variable.IsTrimmed text.toList) (hx : x.Lacks path) (hx' : x.Writes path text x')
    (hy : x.Exports path text y) :
    (¬ Variable.IsLiteral text.toList → y.load = x'.load) ∧
    (Variable.IsLiteral text.toList → ∀ s, x'.load = .ok s → y.load ≠ .ok s) := by
  obtain ⟨ℓ, hℓ, rfl, hreads⟩ := exists_leaf hpath
  have hne : ℓ.path ≠ [] := by
    obtain ⟨name, before, after, hname, -⟩ := hy
    exact Variable.path?_ne_nil hname
  constructor
  · intro hno
    exact Sources.load_eq hℓ hne hx hx' hy ((Variable.value_eq_string_iff htext).2 hno)
  · intro hliteral s hs hs'
    have hfile := Sources.read_writes hℓ hne hx hx' hs
    have hvariable := Sources.read_exports hℓ hne hx hy hs'
    obtain hsame | ⟨c, hchar, hsingle⟩ := hreads text _ _ hfile hvariable
    · exact (Variable.value_eq_string_iff htext).1 hsame hliteral
    · exact Variable.value_ne_char hsingle hchar

/-! ### A secret -/

/-- The place of the secret. -/
def tokenPath : List String := ["gateway", "token"]

/-- Nothing at all. -/
def unset : Sources := ⟨none, [], none⟩

/-- A secret that is a word, in the file. -/
def wordFiled : Sources := ⟨some "[gateway]\ntoken = \"secret\"\n", [], none⟩

/-- A secret of digits, in the file. -/
def digitsFiled : Sources := ⟨some "[gateway]\ntoken = \"123456\"\n", [], none⟩

/-- A secret in a variable. -/
def exported (text : String) : Sources := { unset with vars := [("CHAT_RELAY_GATEWAY__TOKEN", text)] }

theorem tokenPath_mem_textPaths : tokenPath ∈ textPaths := by decide +kernel

theorem document_unset : unset.document = .table [] := rfl

theorem lacks_unset : unset.Lacks tokenPath where
  readable := rfl
  document := ⟨⟨[], rfl, Value.isSorted_nil, fun w hw => by cases hw⟩, rfl⟩
  vars := List.forall_mem_nil _

theorem writes_wordFiled : unset.Writes tokenPath "secret" wordFiled where
  file := by
    rw [document_unset, tokenPath, Value.nested, Value.empty_overlay (Value.isSorted_singleton _ _)]
    decide +kernel
  vars := rfl
  asked := rfl

theorem writes_digitsFiled : unset.Writes tokenPath "123456" digitsFiled where
  file := by
    rw [document_unset, tokenPath, Value.nested, Value.empty_overlay (Value.isSorted_singleton _ _)]
    decide +kernel
  vars := rfl
  asked := rfl

theorem exports_exported (text : String) : unset.Exports tokenPath text (exported text) :=
  ⟨"CHAT_RELAY_GATEWAY__TOKEN", [], [], by decide +kernel, rfl, rfl⟩

theorem not_isLiteral_secret : ¬ Variable.IsLiteral "secret".toList := by
  change ¬ Variable.IsLiteral ['s', 'e', 'c', 'r', 'e', 't']
  rw [Variable.IsLiteral, if_neg (by decide)]
  rintro (⟨b, hb⟩ | ⟨-, hnumeral⟩)
  · cases b <;> cases hb
  · obtain hd | hp | hm | hpoint := hnumeral.head <;> contradiction

theorem isLiteral_digits : Variable.IsLiteral "123456".toList := by
  change Variable.IsLiteral ['1', '2', '3', '4', '5', '6']
  rw [Variable.IsLiteral, if_neg (by decide)]
  exact .inr ⟨by simp [Variable.isSeparator], .inr (.inl (by decide +kernel))⟩

/-- A word may be put into a variable, and a number may not. -/
theorem texts_alike_iff_token :
    (exported "secret").load = wordFiled.load ∧
    digitsFiled.load = .ok { gateway := { token := some "123456" } } ∧
    ∀ s, digitsFiled.load = .ok s → (exported "123456").load ≠ .ok s := by
  have hword : Variable.IsTrimmed "secret".toList := by
    unfold Variable.IsTrimmed
    decide +kernel
  have hdigits : Variable.IsTrimmed "123456".toList := by
    unfold Variable.IsTrimmed
    decide +kernel
  refine ⟨?_, by decide +kernel, ?_⟩
  · exact (texts_alike_iff unset wordFiled (exported "secret") tokenPath "secret" tokenPath_mem_textPaths hword
      lacks_unset writes_wordFiled (exports_exported _)).1 not_isLiteral_secret
  · exact (texts_alike_iff unset digitsFiled (exported "123456") tokenPath "123456" tokenPath_mem_textPaths hdigits
      lacks_unset writes_digitsFiled (exports_exported _)).2 isLiteral_digits

/-- **The file and the variables are not equivalent**: a secret of digits alone can be put into the file only. -/
theorem not_texts_alike : ¬ ∀ (x x' y : Sources) (path : List String) (text : String), path ∈ textPaths →
    Variable.IsTrimmed text.toList → x.Lacks path → x.Writes path text x' → x.Exports path text y →
      y.load = x'.load := by
  intro h
  have hdigits : Variable.IsTrimmed "123456".toList := by
    unfold Variable.IsTrimmed
    decide +kernel
  have hsame := h unset digitsFiled (exported "123456") tokenPath "123456" tokenPath_mem_textPaths hdigits
    lacks_unset writes_digitsFiled (exports_exported _)
  have hfiled : digitsFiled.load = .ok { gateway := { token := some "123456" } } := by decide +kernel
  have hexported : (exported "123456").load =
      .error (.misfit ⟨tokenPath, .kind (.integer false 123456) "a string"⟩) := by decide +kernel
  rw [hfiled, hexported] at hsame
  cases hsame

end TurnRelay.Settings
