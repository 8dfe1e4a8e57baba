import TurnRelay.Proofs.Json.Members
import TurnRelay.Proofs.Settings.Layering
import TurnRelay.Settings.Load

/-!
# Single settings

Settings are structures of structures, and each is read and written one by one. What is read, what is written and what a
structure has under a name is kept in three places; a `Slot` says it once. The sections are what their slots say, and
that slots do not get in each other's way is all one has to know of a section in order to follow a single setting
through reading and writing.

## The model

* `Slot` — a setting of a section: how it is read and written, and where it is kept.
* `Independent` — the slots of a section do not get in each other's way.
* `Leaf`, `leaves` — the single settings: the preset and those in the sections.

## What is proved

* `read_eq`, `encode_eq_ofMembers` — the sections are read and written slot by slot.
* `Independent.read`, `Independent.written` — one slot of a section that is read, and of one that is written.
* `works_of_mem_leaves` — what a table has at the place of a leaf is what is read as the leaf, and settings as a layer
  have something there.
-/

namespace TurnRelay.Settings

open Value (IsSorted Opens)

/-! ### Slots -/

/-- A setting of a section. -/
structure Slot (σ : Type) where
  /-- What it is. -/
  {α : Type}
  /-- Its name. -/
  name : String
  /-- How it is read, -/
  read : Reader α
  /-- and written. -/
  write : α → Json
  /-- What a section has there. -/
  get : σ → α
  /-- A section with something else there. -/
  put : α → σ → σ

namespace Slot

variable {σ : Type}

/-- The entry that is read. -/
def entry (f : Slot σ) : Entry σ := .reading f.name f.read f.put

/-- The member that is written. -/
def member (f : Slot σ) (s : σ) : String × Json := (f.name, f.write (f.get s))

end Slot

/-! ### Reading one entry after the other -/

section

variable {σ : Type} {f : Slot σ} {es : Value.Entries} {s s' : σ} {v : Value}

theorem within_eq_ok {α : Type} {name : String} {x : Except Complaint α} {a : α} (h : within name x = .ok a) :
    x = .ok a := by
  cases x with
  | error c => cases h
  | ok b => exact h

/-- What setting an entry does, if there is one. -/
def Entry.Sets (v : Value) (s s' : σ) : Option (Entry σ) → Prop
  | some e => e.set v s = .ok s'
  | none => s' = s

/-- One entry of a table is set, and then the others. -/
theorem Entry.exists_of_setNamed {entries : List (Entry σ)} {e : String × Value}
    (hset : Entry.setNamed entries (e :: es) s = .ok s') :
    ∃ s₁, Entry.setNamed entries es s₁ = .ok s' ∧
      Entry.Sets e.2 s s₁ (entries.find? fun x => decide (x.name = e.1)) := by
  rw [Entry.setNamed] at hset
  cases hx : entries.find? fun x => decide (x.name = e.1) with
  | none =>
    rw [hx] at hset
    exact ⟨s, hset, rfl⟩
  | some x =>
    simp only [hx] at hset
    cases hfirst : within e.1 (x.set e.2 s) with
    | error c =>
      rw [hfirst] at hset
      cases hset
    | ok s₁ =>
      rw [hfirst] at hset
      exact ⟨s₁, hset, within_eq_ok hfirst⟩

/-- A slot is read from an entry and put into its place. -/
theorem Slot.exists_of_set (h : f.entry.set v s = .ok s') : ∃ a, f.read v = .ok a ∧ s' = f.put a s := by
  have h : (f.read v).map (fun a => f.put a s) = .ok s' := h
  cases ha : f.read v with
  | error c =>
    rw [ha] at h
    cases h
  | ok a =>
    rw [ha] at h
    exact ⟨a, rfl, (Except.ok.inj h).symm⟩

end

/-! ### One slot among others -/

/-- **The slots of a section do not get in each other's way.** -/
structure Independent {σ : Type} (fs : List (Slot σ)) : Prop where
  /-- No name is repeated. -/
  nodup : (fs.map Slot.name).Nodup
  /-- What is put into a slot is there. -/
  get_put : ∀ f ∈ fs, ∀ a s, f.get (f.put a s) = a
  /-- It changes no other. -/
  keeps : ∀ f ∈ fs, ∀ g ∈ fs, g.name ≠ f.name → ∀ a s, f.get (g.put a s) = f.get s

namespace Independent

variable {σ : Type} {fs : List (Slot σ)} {f : Slot σ} {es : Value.Entries} {s s' : σ} {v : Value}

/-- The entry of a slot is found by its name. -/
theorem find? (h : Independent fs) (hf : f ∈ fs) :
    ((fs.map Slot.entry).find? fun e => decide (e.name = f.name)) = some f.entry := by
  have hnodup := h.nodup
  clear h
  induction fs with
  | nil => cases hf
  | cons g fs ih =>
    obtain ⟨hg, hfs⟩ := List.nodup_cons.1 hnodup
    rw [List.map_cons, List.find?_cons]
    obtain rfl | hf := List.mem_cons.1 hf
    · rw [decide_eq_true (show f.entry.name = f.name from rfl)]
    · have hne : g.name ≠ f.name := fun hname => hg (hname ▸ List.mem_map_of_mem hf)
      rw [decide_eq_false (show ¬ g.entry.name = f.name from hne)]
      exact ih hf hfs

/-- An entry of another name leaves a slot alone. -/
theorem get_of_other (h : Independent fs) (hf : f ∈ fs) {e : String × Value} (hname : e.1 ≠ f.name)
    (hset : Entry.Sets e.2 s s' ((fs.map Slot.entry).find? fun x => decide (x.name = e.1))) : f.get s' = f.get s := by
  cases hx : (fs.map Slot.entry).find? fun x => decide (x.name = e.1) with
  | none =>
    rw [hx] at hset
    exact congrArg f.get hset
  | some x =>
    rw [hx] at hset
    obtain ⟨g, hg, rfl⟩ := List.mem_map.1 (List.mem_of_find?_eq_some hx)
    have hgname : g.entry.name = e.1 := of_decide_eq_true (List.find?_some hx :)
    obtain ⟨a, -, rfl⟩ := Slot.exists_of_set hset
    exact h.keeps f hf g hg (fun hfg => hname (hgname.symm.trans hfg)) a s

/-- A table without the name leaves a slot alone. -/
theorem get_of_unnamed (h : Independent fs) (hf : f ∈ fs) (hes : ∀ e ∈ es, e.1 ≠ f.name)
    (hset : Entry.setNamed (fs.map Slot.entry) es s = .ok s') : f.get s' = f.get s := by
  induction es generalizing s with
  | nil =>
    cases hset
    rfl
  | cons e es ih =>
    obtain ⟨he, hes⟩ := List.forall_mem_cons.1 hes
    obtain ⟨s₁, hset, hfirst⟩ := Entry.exists_of_setNamed hset
    rw [ih hes hset, h.get_of_other hf he hfirst]

/-- **A slot is read from the entry of its name.** -/
theorem read (h : Independent fs) (hf : f ∈ fs) (hes : IsSorted es)
    (hset : Entry.setNamed (fs.map Slot.entry) es s = .ok s') (hv : Value.find? f.name es = some v) :
    f.read v = .ok (f.get s') := by
  induction es generalizing s with
  | nil => cases hv
  | cons e es ih =>
    obtain ⟨k, w⟩ := e
    obtain ⟨hk, hes'⟩ := List.pairwise_cons.1 hes
    obtain ⟨s₁, hset, hfirst⟩ := Entry.exists_of_setNamed hset
    by_cases hname : k = f.name
    · rw [Value.find?, if_pos hname] at hv
      obtain rfl := Option.some.inj hv
      subst hname
      rw [h.find? hf] at hfirst
      obtain ⟨a, ha, rfl⟩ := Slot.exists_of_set hfirst
      have hlater : ∀ e ∈ es, e.1 ≠ f.name := fun e he => ne_of_gt (hk e he)
      rw [h.get_of_unnamed hf hlater hset, h.get_put f hf]
      exact ha
    · rw [Value.find?, if_neg hname] at hv
      exact ih hes' hset hv

end Independent

/-! ### Written settings -/

theorem ofJsonMembers_eq_map (ms : Json.Members) : ofJsonMembers ms = ms.map fun m => (m.1, ofJson m.2) := by
  induction ms with
  | nil => rfl
  | cons m ms ih =>
    obtain ⟨k, v⟩ := m
    rw [ofJsonMembers, ih, List.map_cons]

theorem find?_ofJsonMembers (name : String) (ms : Json.Members) :
    Value.find? name (ofJsonMembers ms) = (Json.find? name ms).map ofJson := by
  induction ms with
  | nil => rfl
  | cons m ms ih =>
    obtain ⟨k, v⟩ := m
    rw [ofJsonMembers, Value.find?, Json.find?, ih]
    split <;> rfl

/-- **A section that is written is a table**, and has every slot under its name. -/
theorem Independent.written {σ : Type} {fs : List (Slot σ)} {f : Slot σ} (h : Independent fs) (hf : f ∈ fs) (s : σ) :
    ∃ es, ofJson (.ofMembers (fs.map (·.member s))) = .table es ∧ IsSorted es ∧
      Value.find? f.name es = some (ofJson (f.write (f.get s))) := by
  have hnodup : ((fs.map (·.member s)).map Prod.fst).Nodup := by
    rw [List.map_map]
    exact h.nodup
  have hsorted := Json.isSorted_table (fs.map (·.member s))
  refine ⟨ofJsonMembers (Json.table (fs.map (·.member s))), by rw [Json.ofMembers, ofJson], ?_, ?_⟩
  · rw [ofJsonMembers_eq_map]
    exact List.pairwise_map.2 hsorted
  · have hfind : Json.find? f.name (Json.table (fs.map (·.member s))) = some (f.write (f.get s)) :=
      (Json.find?_eq_some_iff hsorted.nodup).2
        ((Json.table_perm hnodup).mem_iff.2 (List.mem_map.2 ⟨f, hf, rfl⟩))
    rw [find?_ofJsonMembers, hfind]
    rfl

/-! ### The slots of the sections -/

/-- The slots of the server's section. -/
def ServerSection.slots : List (Slot ServerSection) := [
  ⟨"host", .option .string, encodeOption .string, host, fun a s => { s with host := a }⟩,
  ⟨"port", .option .port, encodeOption (fun p => .ofNat p.toNat), port, fun a s => { s with port := a }⟩]

/-- The slots of the gateway's section. -/
def GatewaySection.slots : List (Slot GatewaySection) := [
  ⟨"url", .string, .string, url, fun a s => { s with url := a }⟩,
  ⟨"token", .option .string, encodeOption .string, token, fun a s => { s with token := a }⟩,
  ⟨"client_id", .string, .string, clientId, fun a s => { s with clientId := a }⟩,
  ⟨"client_version", .string, .string, clientVersion, fun a s => { s with clientVersion := a }⟩,
  ⟨"platform", .string, .string, platform, fun a s => { s with platform := a }⟩,
  ⟨"mode", .string, .string, mode, fun a s => { s with mode := a }⟩,
  ⟨"role", .string, .string, role, fun a s => { s with role := a }⟩,
  ⟨"scopes", .list .string, .strings, scopes, fun a s => { s with scopes := a }⟩,
  ⟨"min_protocol", .word32, .ofWord32, minProtocol, fun a s => { s with minProtocol := a }⟩,
  ⟨"max_protocol", .word32, .ofWord32, maxProtocol, fun a s => { s with maxProtocol := a }⟩,
  ⟨"connect_timeout_ms", .word64, .ofWord64, connectTimeout, fun a s => { s with connectTimeout := a }⟩,
  ⟨"request_timeout_ms", .word64, .ofWord64, requestTimeout, fun a s => { s with requestTimeout := a }⟩,
  ⟨"backoff_base_ms", .word64, .ofWord64, backoffBase, fun a s => { s with backoffBase := a }⟩,
  ⟨"backoff_max_ms", .word64, .ofWord64, backoffMax, fun a s => { s with backoffMax := a }⟩,
  ⟨"run_idle_timeout_ms", .word64, .ofWord64, runIdleTimeout, fun a s => { s with runIdleTimeout := a }⟩]

/-- The slots of the relay's section. -/
def RelaySection.slots : List (Slot RelaySection) := [
  ⟨"default_session_key", .string, .string, defaultSessionKey, fun a s => { s with defaultSessionKey := a }⟩,
  ⟨"keep_alive_secs", .word64, .ofWord64, keepAliveSecs, fun a s => { s with keepAliveSecs := a }⟩,
  ⟨"channel_capacity", .count, .ofWord64, channelCapacity, fun a s => { s with channelCapacity := a }⟩]

/-- The slot of the preset. -/
def presetSlot : Slot Settings :=
  ⟨"profile", .option Preset.read, encodeOption (fun p => .string p.name), preset, fun a s => { s with preset := a }⟩

/-- The slot of the server's section. -/
def serverSlot : Slot Settings :=
  ⟨"server", ServerSection.read, ServerSection.encode, server, fun a s => { s with server := a }⟩

/-- The slot of the gateway's section. -/
def gatewaySlot : Slot Settings :=
  ⟨"gateway", GatewaySection.read, GatewaySection.encode, gateway, fun a s => { s with gateway := a }⟩

/-- The slot of the relay's section. -/
def relaySlot : Slot Settings :=
  ⟨"relay", RelaySection.read, RelaySection.encode, relay, fun a s => { s with relay := a }⟩

/-- The slots of all settings. -/
def slots : List (Slot Settings) := [presetSlot, serverSlot, gatewaySlot, relaySlot]

theorem ServerSection.read_eq :
    ServerSection.read = readSection "struct ServerFileConfig" (ServerSection.slots.map Slot.entry) {} := rfl

theorem ServerSection.encode_eq_ofMembers (s : ServerSection) :
    s.encode = .ofMembers (ServerSection.slots.map (·.member s)) := rfl

theorem GatewaySection.read_eq :
    GatewaySection.read = readSection "struct GatewayFileConfig" (GatewaySection.slots.map Slot.entry) {} := rfl

theorem GatewaySection.encode_eq_ofMembers (s : GatewaySection) :
    s.encode = .ofMembers (GatewaySection.slots.map (·.member s)) := rfl

theorem RelaySection.read_eq :
    RelaySection.read = readSection "struct RelayFileConfig" (RelaySection.slots.map Slot.entry) {} := rfl

theorem RelaySection.encode_eq_ofMembers (s : RelaySection) :
    s.encode = .ofMembers (RelaySection.slots.map (·.member s)) := rfl

theorem read_eq : Settings.read = readSection "struct FileConfig" (slots.map Slot.entry) {} := rfl

theorem encode_eq_ofMembers (s : Settings) : s.encode = .ofMembers (slots.map (·.member s)) := rfl

theorem ServerSection.independent : Independent ServerSection.slots where
  nodup := by decide +kernel
  get_put := by simp [slots]
  keeps := by simp [slots]

theorem GatewaySection.independent : Independent GatewaySection.slots where
  nodup := by decide +kernel
  get_put := by simp [slots]
  keeps := by simp [slots]

theorem RelaySection.independent : Independent RelaySection.slots where
  nodup := by decide +kernel
  get_put := by simp [slots]
  keeps := by simp [slots]

theorem independent : Independent slots where
  nodup := by decide +kernel
  get_put := by simp [slots, presetSlot, serverSlot, gatewaySlot, relaySlot]
  keeps := by simp [slots, presetSlot, serverSlot, gatewaySlot, relaySlot]

/-! ### Plain settings -/

/-- **A setting that is no section**: what is written is read, and a table is not. -/
structure Plain {α : Type} (read : Reader α) (write : α → Json) : Prop where
  /-- What is written is read. -/
  read_write : ∀ a, read (ofJson (write a)) = .ok a
  /-- A table is not. -/
  read_table : ∀ es a, read (.table es) ≠ .ok a

theorem read_natBelow {limit : Nat} (name : String) {n : Nat} (h : n < limit) :
    Reader.natBelow limit name (ofJson (.ofNat n)) = .ok n := by
  rw [Json.ofNat, ofJson, Reader.natBelow, if_pos ⟨Int.natCast_nonneg n, Int.ofNat_lt.2 h⟩, Int.toNat_natCast]

theorem plain_port : Plain .port fun p => .ofNat p.toNat where
  read_write p := by
    rw [Reader.port, read_natBelow _ p.toNat_lt]
    exact congrArg Except.ok UInt16.ofNat_toNat
  read_table es p h := by cases h

theorem plain_word32 : Plain .word32 .ofWord32 where
  read_write n := by
    rw [Reader.word32, Json.ofWord32, read_natBelow _ n.toNat_lt]
    exact congrArg Except.ok UInt32.ofNat_toNat
  read_table es n h := by cases h

theorem plain_word64 : Plain .word64 .ofWord64 where
  read_write n := by
    rw [Reader.word64, Json.ofWord64, read_natBelow _ n.toNat_lt]
    exact congrArg Except.ok UInt64.ofNat_toNat
  read_table es n h := by cases h

theorem plain_count : Plain .count .ofWord64 where
  read_write n := by
    rw [Reader.count, Json.ofWord64, read_natBelow _ n.toNat_lt]
    exact congrArg Except.ok UInt64.ofNat_toNat
  read_table es n h := by cases h

theorem plain_string : Plain .string .string where
  read_write s := by rw [ofJson, Reader.string]
  read_table es s h := by cases h

theorem plain_strings : Plain (.list .string) .strings where
  read_write ss := by
    have hitems : ∀ i, Reader.items .string i (ofJsonItems (ss.map .string)) = .ok ss := by
      induction ss with
      | nil => exact fun i => rfl
      | cons s ss ih =>
        intro i
        rw [List.map_cons, ofJsonItems, Reader.items, plain_string.read_write, ih]
        rfl
    rw [Json.strings, ofJson, Reader.list, hitems]
  read_table es ss h := by cases h

theorem plain_preset : Plain Preset.read fun p => .string p.name where
  read_write p := by cases p <;> decide +kernel
  read_table es p h := by
    cases es with
    | nil => cases h
    | cons e es =>
      rw [Preset.read] at h
      cases hnamed : Preset.named e.1 <;> rw [hnamed] at h <;> cases h

theorem option_of_ne {α : Type} (read : Reader α) {v : Value} (h : v ≠ .nothing) :
    Reader.option read v = (read v).map some := by
  cases v with
  | nothing => exact absurd rfl h
  | _ => rfl

/-- What may be nothing is written as nothing, or as it is. -/
theorem Plain.option {α : Type} {read : Reader α} {write : α → Json} (h : Plain read write)
    (hnull : ∀ a, ofJson (write a) ≠ .nothing) : Plain (.option read) (encodeOption write) where
  read_write o := by
    cases o with
    | none => rfl
    | some a =>
      have hsome : encodeOption write (some a) = write a := rfl
      rw [hsome, option_of_ne read (hnull a), h.read_write]
      rfl
  read_table es o ho := by
    rw [option_of_ne read (by simp)] at ho
    cases hread : read (.table es) with
    | error c =>
      rw [hread] at ho
      cases ho
    | ok a => exact h.read_table es a hread

theorem ServerSection.plain : ∀ f ∈ slots, Plain f.read f.write := by
  simp only [slots, List.forall_mem_cons]
  exact ⟨plain_string.option fun s => by simp [ofJson], plain_port.option fun p => by simp [Json.ofNat, ofJson],
    List.forall_mem_nil _⟩

theorem GatewaySection.plain : ∀ f ∈ slots, Plain f.read f.write := by
  simp only [slots, List.forall_mem_cons]
  exact ⟨plain_string, plain_string.option fun s => by simp [ofJson], plain_string, plain_string, plain_string,
    plain_string, plain_string, plain_strings, plain_word32, plain_word32, plain_word64, plain_word64, plain_word64,
    plain_word64, plain_word64, List.forall_mem_nil _⟩

theorem RelaySection.plain : ∀ f ∈ slots, Plain f.read f.write := by
  simp only [slots, List.forall_mem_cons]
  exact ⟨plain_string, plain_word64, plain_count, List.forall_mem_nil _⟩

/-! ### Leaves -/

/-- A single setting. -/
structure Leaf where
  /-- What it is. -/
  {α : Type}
  /-- Where it stands. -/
  path : List String
  /-- How it is read. -/
  read : Reader α
  /-- What the settings have there. -/
  get : Settings → α

/-- A single setting of a section. -/
def Slot.leaf (g : Slot Settings) (f : Slot g.α) : Leaf := ⟨[g.name, f.name], f.read, fun s => f.get (g.get s)⟩

/-- The preset. -/
def presetLeaf : Leaf := ⟨["profile"], .option Preset.read, preset⟩

/-- The single settings. -/
def leaves : List Leaf :=
  presetLeaf ::
    (ServerSection.slots.map serverSlot.leaf ++ GatewaySection.slots.map gatewaySlot.leaf ++
      RelaySection.slots.map relaySlot.leaf)

/-- What holds of the preset and in each section holds of every leaf. -/
theorem forall_leaves {P : Leaf → Prop} (hpreset : P presetLeaf)
    (hserver : ∀ f ∈ ServerSection.slots, P (serverSlot.leaf f))
    (hgateway : ∀ f ∈ GatewaySection.slots, P (gatewaySlot.leaf f))
    (hrelay : ∀ f ∈ RelaySection.slots, P (relaySlot.leaf f)) : ∀ ℓ ∈ leaves, P ℓ := by
  rw [leaves, List.forall_mem_cons, List.forall_mem_append, List.forall_mem_append]
  exact ⟨hpreset, ⟨List.forall_mem_map.2 hserver, List.forall_mem_map.2 hgateway⟩, List.forall_mem_map.2 hrelay⟩

/-- **A leaf is where its path says it is.** -/
structure Leaf.Works (ℓ : Leaf) : Prop where
  /-- What a table has there is what is read. -/
  read_at : ∀ t s v, Opens ℓ.path t → Settings.read t = .ok s → t.at? ℓ.path = some v → ℓ.read v = .ok (ℓ.get s)
  /-- There are tables on the way in settings as a layer, -/
  opens_layer : ∀ s : Settings, Opens ℓ.path s.layer
  /-- and what they are is there. -/
  at_layer : ∀ s : Settings, ∃ v, s.layer.at? ℓ.path = some v ∧ ℓ.read v = .ok (ℓ.get s)
  /-- It is no table. -/
  read_table : ∀ es a, ℓ.read (.table es) ≠ .ok a

/-- Settings as a layer are a table that has every slot. -/
theorem layer_written {g : Slot Settings} (hg : g ∈ slots) (s : Settings) :
    ∃ es, s.layer = .table es ∧ IsSorted es ∧ Value.find? g.name es = some (ofJson (g.write (g.get s))) := by
  rw [layer, encode_eq_ofMembers]
  exact independent.written hg s

/-- A slot of the settings is read from a table. -/
theorem read_slot {g : Slot Settings} (hg : g ∈ slots) {es : Value.Entries} {s : Settings} {v : Value}
    (hes : IsSorted es) (h : Settings.read (.table es) = .ok s) (hv : Value.find? g.name es = some v) :
    g.read v = .ok (g.get s) := by
  rw [read_eq, readSection] at h
  exact independent.read hg hes h hv

theorem works_preset : presetLeaf.Works where
  read_at := by
    rintro t s v ⟨es, rfl, hes, -⟩ hs hv
    obtain ⟨w, hw, hv⟩ := Option.bind_eq_some_iff.1 hv
    cases hv
    exact read_slot (g := presetSlot) List.mem_cons_self hes hs hw
  opens_layer s := by
    obtain ⟨es, hlayer, hes, -⟩ := layer_written (g := presetSlot) List.mem_cons_self s
    exact ⟨es, hlayer, hes, fun _ _ => trivial⟩
  at_layer s := by
    obtain ⟨es, hlayer, -, hfind⟩ := layer_written (g := presetSlot) List.mem_cons_self s
    refine ⟨_, by rw [hlayer]; exact Option.bind_eq_some_iff.2 ⟨_, hfind, rfl⟩, ?_⟩
    exact (plain_preset.option fun p => by simp [ofJson]).read_write _
  read_table := (plain_preset.option fun p => by simp [ofJson]).read_table

/-- **The leaves of a section work** if it is read and written slot by slot. -/
theorem works_of_slot {g : Slot Settings} (hg : g ∈ slots) {fs : List (Slot g.α)} {name : String} {default : g.α}
    (hread : g.read = readSection name (fs.map Slot.entry) default)
    (hwrite : ∀ a, g.write a = .ofMembers (fs.map (·.member a))) (hfs : Independent fs)
    (hplain : ∀ f ∈ fs, Plain f.read f.write) {f : Slot g.α} (hf : f ∈ fs) : (g.leaf f).Works := by
  have hlayer (s : Settings) : ∃ es es', s.layer = .table es ∧ IsSorted es ∧ IsSorted es' ∧
      Value.find? g.name es = some (.table es') ∧
      Value.find? f.name es' = some (ofJson (f.write (f.get (g.get s)))) := by
    obtain ⟨es, hlayer, hes, hsection⟩ := layer_written hg s
    obtain ⟨es', hes', hsorted, hfind⟩ := hfs.written hf (g.get s)
    rw [hwrite, hes'] at hsection
    exact ⟨es, es', hlayer, hes, hsorted, hsection, hfind⟩
  refine ⟨?_, fun s => ?_, fun s => ?_, (hplain f hf).read_table⟩
  · rintro t s v ⟨es, rfl, hes, hopens⟩ hs hv
    obtain ⟨w, hw, hv⟩ := Option.bind_eq_some_iff.1 hv
    obtain ⟨es', rfl, hes', -⟩ := hopens w hw
    obtain ⟨v', hv', hv⟩ := Option.bind_eq_some_iff.1 hv
    cases hv
    have hsection := read_slot hg hes hs hw
    rw [hread] at hsection
    exact hfs.read hf hes' hsection hv'
  · obtain ⟨es, es', hlayer, hes, hes', hsection, -⟩ := hlayer s
    refine ⟨es, hlayer, hes, fun w hw => ?_⟩
    rw [hsection] at hw
    cases hw
    exact ⟨es', rfl, hes', fun _ _ => trivial⟩
  · obtain ⟨es, es', hlayer, -, -, hsection, hfind⟩ := hlayer s
    refine ⟨_, ?_, (hplain f hf).read_write _⟩
    rw [hlayer]
    exact Option.bind_eq_some_iff.2 ⟨_, hsection, Option.bind_eq_some_iff.2 ⟨_, hfind, rfl⟩⟩

/-- **Every leaf is where its path says it is.** -/
theorem works_of_mem_leaves {ℓ : Leaf} (h : ℓ ∈ leaves) : ℓ.Works := by
  refine forall_leaves works_preset (fun f hf => ?_) (fun f hf => ?_) (fun f hf => ?_) ℓ h
  · exact works_of_slot (g := serverSlot) (by simp [slots]) ServerSection.read_eq ServerSection.encode_eq_ofMembers
      ServerSection.independent ServerSection.plain hf
  · exact works_of_slot (g := gatewaySlot) (by simp [slots]) GatewaySection.read_eq GatewaySection.encode_eq_ofMembers
      GatewaySection.independent GatewaySection.plain hf
  · exact works_of_slot (g := relaySlot) (by simp [slots]) RelaySection.read_eq RelaySection.encode_eq_ofMembers
      RelaySection.independent RelaySection.plain hf

/-- No leaf stands inside another. -/
theorem apart_leaves : ∀ ℓ ∈ leaves, ∀ ℓ' ∈ leaves, ℓ'.path = ℓ.path ∨ Value.Apart ℓ.path ℓ'.path := by
  have hpaths : ∀ p ∈ leaves.map Leaf.path, ∀ p' ∈ leaves.map Leaf.path, p' = p ∨ ¬ p <+: p' ∧ ¬ p' <+: p := by
    decide +kernel
  exact fun ℓ hℓ ℓ' hℓ' => hpaths _ (List.mem_map_of_mem hℓ) _ (List.mem_map_of_mem hℓ')

end TurnRelay.Settings
