import TurnRelay.Marker.Basic
import TurnRelay.Proofs.Json.Growth
import TurnRelay.Proofs.Wire.FrameText
import TurnRelay.Wire.Handshake

/-!
# Payloads on their way

Everything that client and gateway say to each other is written as a JSON value and read again at the other end, which
may be older or younger and know other members. A payload arrives if it is read as what it was before, even with more
members in it than the reader knows, and with more in the objects inside of it that the reader looks into.

There is one exception. An optional value without restriction may be `null`, and then it is written although it is
there; but the reader takes `null` for nothing. Payloads that say `null` in this way do not arrive.

## The model

* `Travels` — values of a type arrive.
* `Hello.reach` and its like — how far the readers of payloads look.
* `RunEvent.IsDefinite`, `Marker.IsDefinite` — no optional value is `null`.

## What is proved

* `decode_encode` of every type — a payload is read as what was written.
* `follows` of every type — its reader does not look further than its reach.
* `tolerates_marker` — neither does the reader of markers, who looks for the kind first.
* `payloads_travel` — all payloads arrive, and a hello is accepted if its tag says so.
-/

namespace TurnRelay

open Json

variable {α : Type}

/-! ### Plain values -/

theorem Decoder.word32_ofWord32 (n : UInt32) : Decoder.word32 (ofWord32 n) = .ok n := by
  have hn : 0 ≤ (n.toNat : Int) ∧ (n.toNat : Int) < UInt32.size :=
    ⟨Int.natCast_nonneg _, Int.ofNat_lt.2 n.toNat_lt_size⟩
  rw [Decoder.word32, ofWord32, ofNat, Decoder.natBelow, if_pos hn, Int.toNat_natCast]
  exact congrArg Except.ok (UInt32.ofNat_toNat)

/-- Items that are written one by one are read one by one. -/
theorem Decoder.list_map {d : Decoder α} {write : α → Json} (h : ∀ a, d (write a) = .ok a) (as : List α) :
    Decoder.list d (.array (as.map write)) = .ok as := by
  rw [Decoder.list]
  induction as with
  | nil => rfl
  | cons a as ih =>
    rw [List.map_cons, List.mapM_cons, h, ih]
    rfl

theorem Decoder.list_strings (ss : List String) : Decoder.list Decoder.string (strings ss) = .ok ss := by
  have hstring : ∀ s, Decoder.string (.string s) = .ok s := fun _ => rfl
  exact Decoder.list_map hstring ss

theorem Decoder.list_any (vs : List Json) : Decoder.list Decoder.any (.array vs) = .ok vs := by
  have h : Decoder.list Decoder.any (.array (vs.map id)) = .ok vs := Decoder.list_map (fun _ => rfl) vs
  rwa [List.map_id] at h

/-! ### Optional members -/

section

variable {name : String} {l : Members}

theorem Field.finds_string {o : Option String} (h : find? name l = o.map .string) :
    (Field.optional name .string).Finds l o := Field.finds_optional h fun _ _ => ⟨by simp, rfl⟩

theorem Field.finds_bool {o : Option Bool} (h : find? name l = o.map .bool) :
    (Field.optional name .bool).Finds l o := Field.finds_optional h fun _ _ => ⟨by simp, rfl⟩

theorem Field.finds_word32 {o : Option UInt32} (h : find? name l = o.map ofWord32) :
    (Field.optional name .word32).Finds l o :=
  Field.finds_optional h fun n _ => ⟨by simp [ofWord32, ofNat], Decoder.word32_ofWord32 n⟩

theorem Field.finds_word64 {o : Option UInt64} (h : find? name l = o.map ofWord64) :
    (Field.optional name .word64).Finds l o :=
  Field.finds_optional h fun n _ => ⟨by simp [ofWord64, ofNat], Wire.Frame.word64_ofWord64 n⟩

/-- An optional value without restriction is read as it was, unless it is `null`. -/
theorem Field.finds_any {o : Option Json} (h : find? name l = o.map id) (hnull : o ≠ some .null) :
    (Field.optional name .any).Finds l o :=
  Field.finds_optional h fun v hv => ⟨fun hv' => hnull (by rw [hv, ← hv']; rfl), rfl⟩

end

/-! ### Payloads -/

/-- **Values of a type travel**: such a value is read as itself from what is written for it, and from everything that
this may have grown into. -/
def Travels (decode : Decoder α) (encode : α → Json) (reach : Reach) (IsFit : α → Prop) : Prop :=
  ∀ x, IsFit x → ∀ v, Grows reach (encode x) v → decode v = .ok x

/-- Payloads arrive if they are read as written, by a reader that tolerates growth. -/
theorem travels_of_tolerates {decode : Decoder α} {encode : α → Json} {reach : Reach} {IsFit : α → Prop}
    (ht : decode.Tolerates reach) (h : ∀ x, IsFit x → decode (encode x) = .ok x) :
    Travels decode encode reach IsFit := fun x hx v hv => ht _ v x hv (h x hx)

namespace Wire

/-! ### Failures -/

namespace Failure

theorem follows : record.Follows [("code", .whole), ("message", .whole), ("retryable", .whole)] :=
  (((Record.Follows.unit _).plain (by decide)).plain (by decide)).plain (by decide)

theorem decode_encode (x : Failure) : decode x.encode = .ok x := by
  refine ((((Record.Finds.unit _ _).field ?_).field ?_).field ?_).decode ?_ _
  · exact Field.finds_required rfl rfl
  · exact Field.finds_required rfl rfl
  · exact Field.finds_bool (by simp [find?, find?_member?])
  · cases x.retryable <;> simp [member?]

end Failure

/-! ### The handshake -/

namespace Identity

theorem follows : record.Follows [("id", .whole), ("version", .whole), ("platform", .whole), ("mode", .whole)] :=
  ((((Record.Follows.unit _).plain (by decide)).plain (by decide)).plain (by decide)).plain (by decide)

theorem decode_encode (x : Identity) : decode x.encode = .ok x := by
  refine (((((Record.Finds.unit _ _).field ?_).field ?_).field ?_).field ?_).decode (by simp) _
  · exact Field.finds_required rfl rfl
  · exact Field.finds_required rfl rfl
  · exact Field.finds_required rfl rfl
  · exact Field.finds_required rfl rfl

end Identity

namespace Authorization

theorem follows : record.Follows [("token", .whole)] := (Record.Follows.unit _).plain (by decide)

theorem decode_encode (x : Authorization) : decode x.encode = .ok x := by
  refine ((Record.Finds.unit _ _).field ?_).decode ?_ _
  · exact Field.finds_string (by simp [find?_member?])
  · cases x.token <;> simp [member?]

end Authorization

namespace ConnectParams

/-- How far the parameters are looked into. -/
def reach : Reach := .members [("minProtocol", .whole), ("maxProtocol", .whole), ("client", .flat Identity.record.names),
  ("auth", .flat Authorization.record.names), ("role", .whole), ("scopes", .whole)]

theorem follows : record.Follows [("minProtocol", .whole), ("maxProtocol", .whole),
    ("client", .flat Identity.record.names), ("auth", .flat Authorization.record.names), ("role", .whole),
    ("scopes", .whole)] :=
  ((((((Record.Follows.unit _).plain (by decide)).plain (by decide)).field (by decide)
    (Identity.follows.tolerates _)).field (by decide) (Authorization.follows.tolerates _)).plain (by decide)).plain
    (by decide)

theorem decode_encode (x : ConnectParams) : decode x.encode = .ok x := by
  refine (((((((Record.Finds.unit _ _).field ?_).field ?_).field ?_).field ?_).field ?_).field ?_).decode (by simp) _
  · exact Field.finds_required rfl (Decoder.word32_ofWord32 x.minProtocol)
  · exact Field.finds_required rfl (Decoder.word32_ofWord32 x.maxProtocol)
  · exact Field.finds_required rfl x.client.decode_encode
  · exact Field.finds_required rfl x.auth.decode_encode
  · exact Field.finds_required rfl rfl
  · exact Field.finds_required rfl (Decoder.list_strings _)

end ConnectParams

namespace Server

theorem follows : record.Follows [("connId", .whole)] := (Record.Follows.unit _).plain (by decide)

theorem decode_encode (x : Server) : decode x.encode = .ok x := by
  refine ((Record.Finds.unit _ _).field ?_).decode (by simp) _
  exact Field.finds_required rfl rfl

end Server

namespace Features

theorem follows : record.Follows [("methods", .whole), ("events", .whole)] :=
  ((Record.Follows.unit _).plain (by decide)).plain (by decide)

theorem decode_encode (x : Features) : decode x.encode = .ok x := by
  refine (((Record.Finds.unit _ _).field ?_).field ?_).decode (by simp) _
  · exact Field.finds_withDefault rfl (Decoder.list_strings _)
  · exact Field.finds_withDefault rfl (Decoder.list_strings _)

end Features

namespace Policy

theorem follows : record.Follows [("maxPayload", .whole), ("tickIntervalMs", .whole)] :=
  ((Record.Follows.unit _).plain (by decide)).plain (by decide)

theorem decode_encode (x : Policy) : decode x.encode = .ok x := by
  refine (((Record.Finds.unit _ _).field ?_).field ?_).decode ?_ _
  · exact Field.finds_word64 (by simp [find?_append, find?_member?])
  · exact Field.finds_word64 (by simp [find?_append, find?_member?])
  · cases x.maxPayload <;> cases x.tickIntervalMs <;> simp [member?]

end Policy

namespace Hello

/-- How far a hello is looked into. -/
def reach : Reach := .members [("type", .whole), ("protocol", .whole), ("server", .flat Server.record.names),
  ("features", .flat Features.record.names), ("policy", .flat Policy.record.names)]

theorem follows : record.Follows [("type", .whole), ("protocol", .whole), ("server", .flat Server.record.names),
    ("features", .flat Features.record.names), ("policy", .flat Policy.record.names)] :=
  (((((Record.Follows.unit _).plain (by decide)).plain (by decide)).field (by decide)
    (Server.follows.tolerates _)).field (by decide) (Features.follows.tolerates _)).field (by decide)
    (Policy.follows.tolerates _)

theorem decode_encode (x : Hello) : decode x.encode = .ok x := by
  refine ((((((Record.Finds.unit _ _).field ?_).field ?_).field ?_).field ?_).field ?_).decode (by simp) _
  · exact Field.finds_required rfl rfl
  · exact Field.finds_required rfl (Decoder.word32_ofWord32 x.protocol)
  · exact Field.finds_required rfl x.server.decode_encode
  · exact Field.finds_withDefault rfl x.features.decode_encode
  · exact Field.finds_withDefault rfl x.policy.decode_encode

/-- A payload that is read as a hello is one that accepts, if its tag says so. -/
theorem ofPayload?_of_decode {v : Json} {x : Hello} (h : decode v = .ok x) :
    ofPayload? v = if x.tag = acceptedTag then some x else none := by
  rw [ofPayload?, h]

end Hello

/-! ### Chat methods -/

namespace SendParams

theorem follows : record.Follows [("sessionKey", .whole), ("message", .whole), ("idempotencyKey", .whole),
    ("timeoutMs", .whole), ("attachments", .whole)] :=
  (((((Record.Follows.unit _).plain (by decide)).plain (by decide)).plain (by decide)).plain (by decide)).plain
    (by decide)

theorem decode_encode (x : SendParams) : decode x.encode = .ok x := by
  refine ((((((Record.Finds.unit _ _).field ?_).field ?_).field ?_).field ?_).field ?_).decode ?_ _
  · exact Field.finds_required rfl rfl
  · exact Field.finds_required rfl rfl
  · exact Field.finds_required rfl rfl
  · exact Field.finds_word64 (by simp [find?, find?_append, find?_member?])
  · exact Field.finds_optional (by simp [find?, find?_append, find?_member?])
      fun vs _ => ⟨by simp, Decoder.list_any vs⟩
  · cases x.timeoutMs <;> cases x.attachments <;> simp [member?]

end SendParams

namespace SendAck

theorem follows : record.Follows [("runId", .whole), ("status", .whole)] :=
  ((Record.Follows.unit _).plain (by decide)).plain (by decide)

theorem decode_encode (x : SendAck) : decode x.encode = .ok x := by
  refine (((Record.Finds.unit _ _).field ?_).field ?_).decode ?_ _
  · exact Field.finds_required rfl rfl
  · exact Field.finds_string (by simp [find?, find?_member?])
  · cases x.status <;> simp [member?]

end SendAck

namespace HistoryParams

theorem follows : record.Follows [("sessionKey", .whole), ("limit", .whole)] :=
  ((Record.Follows.unit _).plain (by decide)).plain (by decide)

theorem decode_encode (x : HistoryParams) : decode x.encode = .ok x := by
  refine (((Record.Finds.unit _ _).field ?_).field ?_).decode ?_ _
  · exact Field.finds_required rfl rfl
  · exact Field.finds_word32 (by simp [find?, find?_member?])
  · cases x.limit <;> simp [member?]

end HistoryParams

namespace History

theorem follows : record.Follows [("sessionKey", .whole), ("sessionId", .whole), ("messages", .whole)] :=
  (((Record.Follows.unit _).plain (by decide)).plain (by decide)).plain (by decide)

theorem decode_encode (x : History) : decode x.encode = .ok x := by
  refine ((((Record.Finds.unit _ _).field ?_).field ?_).field ?_).decode ?_ _
  · exact Field.finds_required rfl rfl
  · exact Field.finds_string (by simp [find?, find?_append, find?_member?])
  · exact Field.finds_withDefault (by simp [find?, find?_append, find?_member?]) (Decoder.list_any x.messages)
  · cases x.sessionId <;> simp [member?]

end History

namespace AbortParams

theorem follows : record.Follows [("sessionKey", .whole), ("runId", .whole)] :=
  ((Record.Follows.unit _).plain (by decide)).plain (by decide)

theorem decode_encode (x : AbortParams) : decode x.encode = .ok x := by
  refine (((Record.Finds.unit _ _).field ?_).field ?_).decode ?_ _
  · exact Field.finds_required rfl rfl
  · exact Field.finds_string (by simp [find?, find?_member?])
  · cases x.runId <;> simp [member?]

end AbortParams

namespace AbortResult

theorem follows : record.Follows [("ok", .whole), ("aborted", .whole), ("runIds", .whole)] :=
  (((Record.Follows.unit _).plain (by decide)).plain (by decide)).plain (by decide)

theorem decode_encode (x : AbortResult) : decode x.encode = .ok x := by
  refine ((((Record.Finds.unit _ _).field ?_).field ?_).field ?_).decode (by simp) _
  · exact Field.finds_withDefault rfl rfl
  · exact Field.finds_withDefault rfl rfl
  · exact Field.finds_withDefault rfl (Decoder.list_strings _)

end AbortResult

namespace InjectParams

theorem follows : record.Follows [("sessionKey", .whole), ("message", .whole), ("label", .whole)] :=
  (((Record.Follows.unit _).plain (by decide)).plain (by decide)).plain (by decide)

theorem decode_encode (x : InjectParams) : decode x.encode = .ok x := by
  refine ((((Record.Finds.unit _ _).field ?_).field ?_).field ?_).decode ?_ _
  · exact Field.finds_required rfl rfl
  · exact Field.finds_required rfl rfl
  · exact Field.finds_string (by simp [find?, find?_member?])
  · cases x.label <;> simp [member?]

end InjectParams

namespace InjectResult

theorem follows : record.Follows [("ok", .whole), ("messageId", .whole)] :=
  ((Record.Follows.unit _).plain (by decide)).plain (by decide)

theorem decode_encode (x : InjectResult) : decode x.encode = .ok x := by
  refine (((Record.Finds.unit _ _).field ?_).field ?_).decode ?_ _
  · exact Field.finds_withDefault rfl rfl
  · exact Field.finds_string (by simp [find?, find?_member?])
  · cases x.messageId <;> simp [member?]

end InjectResult

/-! ### Events of a run -/

namespace RunEvent

/-- Neither the message nor what the run used up is `null`. -/
def IsDefinite (x : RunEvent) : Prop := x.message ≠ some .null ∧ x.usage ≠ some .null

theorem follows : record.Follows [("runId", .whole), ("sessionKey", .whole), ("seq", .whole), ("state", .whole),
    ("message", .whole), ("errorMessage", .whole), ("usage", .whole), ("stopReason", .whole)] :=
  ((((((((Record.Follows.unit _).plain (by decide)).plain (by decide)).plain (by decide)).plain (by decide)).plain
    (by decide)).plain (by decide)).plain (by decide)).plain (by decide)

theorem decode_state (s : RunState) : RunState.decode s.encode = .ok s := by
  cases s <;> rfl

theorem decode_encode (x : RunEvent) (h : x.IsDefinite) : decode x.encode = .ok x := by
  refine (((((((((Record.Finds.unit _ _).field ?_).field ?_).field ?_).field ?_).field ?_).field ?_).field ?_).field
    ?_).decode ?_ _
  · exact Field.finds_required rfl rfl
  · exact Field.finds_required rfl rfl
  · exact Field.finds_withDefault rfl (Frame.word64_ofWord64 x.seq)
  · exact Field.finds_required rfl (decode_state x.state)
  · exact Field.finds_any (by simp [find?, find?_append, find?_member?]) h.1
  · exact Field.finds_string (by simp [find?, find?_append, find?_member?])
  · exact Field.finds_any (by simp [find?, find?_append, find?_member?]) h.2
  · exact Field.finds_string (by simp [find?, find?_append, find?_member?])
  · cases x.message <;> cases x.errorMessage <;> cases x.usage <;> cases x.stopReason <;> simp [member?]

end RunEvent

end Wire

/-! ### Markers -/

namespace Marker

/-- How far a marker is looked into. -/
def reach : Reach := .flat ["type", "intent", "data", "component", "props"]

/-- A dashboard's data is not `null`. -/
def IsDefinite (m : Marker) : Prop := ∀ intent, m ≠ .dashboard intent (some .null)

theorem follows_dashboard : dashboardRecord.Follows [("intent", .whole), ("data", .whole)] :=
  ((Record.Follows.unit _).plain (by decide)).plain (by decide)

theorem follows_render : renderRecord.Follows [("component", .whole), ("props", .whole)] :=
  ((Record.Follows.unit _).plain (by decide)).plain (by decide)

/-- The names that are known of a kind, beside the type. -/
def Kind.known : Kind → List (String × Reach)
  | .dashboard => [("intent", .whole), ("data", .whole)]
  | .render => [("component", .whole), ("props", .whole)]

theorem Kind.follows (k : Kind) : k.record.Follows k.known := by
  cases k with
  | dashboard => exact follows_dashboard
  | render => exact follows_render

theorem decodeKind_name (k : Kind) : decodeKind (.string k.name) = .ok k := by
  cases k <;> rfl

/-- The members of an object other than its type. -/
def untyped (ms : Members) : Members := ms.filter fun m => decide (m.1 ≠ "type")

/-- An object is read as a marker of the kind that its type names. -/
theorem decode_object_iff {ms : Members} {m : Marker} : decode (.object ms) = .ok m ↔
    ∃ tag k, find? "type" ms = some tag ∧ decodeKind tag = .ok k ∧ k.record.Reads (untyped ms) m := by
  rw [decode]
  cases find? "type" ms with
  | none => simp
  | some tag =>
    dsimp only
    constructor
    · intro h
      obtain ⟨k, hk, hm⟩ := Record.exists_of_bind_eq_ok h
      exact ⟨tag, k, rfl, hk, Record.fromMembers_iff.1 hm⟩
    · rintro ⟨tag', k, htag, hk, hm⟩
      obtain rfl := Option.some.inj htag
      rw [hk]
      exact Record.fromMembers_iff.2 hm

/-- **Growth does not change what is read as a marker**: neither its type nor what is read behind it. -/
theorem tolerates_marker : Decoder.Tolerates decode reach := by
  intro v w m hg hm
  have hd : (["type", "intent", "data", "component", "props"].map fun name => (name, Reach.whole)).map Prod.fst |>.Nodup := by
    decide
  refine hg.preserves (P := fun v => decode v = .ok m) hd (fun ms ms' hext hms => ?_) hm
  obtain ⟨tag, k, htag, hk, hreads⟩ := decode_object_iff.1 hms
  have hrest : Extends k.known (untyped ms) (untyped ms') := by
    refine hext.filter hd (fun p hp => ?_) (k := fun name => decide (name ≠ "type")) fun p hp => ?_
    · cases k <;> revert p <;> simp [Kind.known]
    · cases k <;> revert p <;> simp [Kind.known]
  refine decode_object_iff.2 ⟨tag, k, ?_, hk, k.follows.reads_of_extends hrest hreads⟩
  rw [hext.find?_eq (by simp), htag]

/-- The members of a marker other than its type are what is read behind it. -/
theorem finds_payload (m : Marker) (h : m.IsDefinite) : m.kind.record.Finds m.payload m := by
  cases m with
  | dashboard intent data =>
    refine ((Record.Finds.unit _ _).field ?_).field ?_
    · exact Field.finds_required rfl rfl
    · refine Field.finds_any (by simp [payload, find?, find?_member?]) fun hdata => ?_
      exact h intent (by rw [hdata])
  | render component props =>
    refine ((Record.Finds.unit _ _).field ?_).field ?_
    · exact Field.finds_required rfl rfl
    · exact Field.finds_required rfl rfl

theorem untyped_payload (m : Marker) : untyped m.payload = m.payload := by
  cases m with
  | dashboard intent data => cases data <;> rfl
  | render component props => rfl

theorem nodup_payload (m : Marker) : ((("type", Json.string m.kind.name) :: m.payload).map Prod.fst).Nodup := by
  cases m with
  | dashboard intent data => cases data <;> simp [payload, member?]
  | render component props => simp [payload]

theorem decode_encode (m : Marker) (h : m.IsDefinite) : decode m.encode = .ok m := by
  have hl := m.nodup_payload
  have hp := table_perm hl
  refine decode_object_iff.2 ⟨.string m.kind.name, m.kind, ?_, decodeKind_name _, ?_⟩
  · rw [← find?_of_perm hp.symm hl]
    rfl
  · have hrest : (untyped (table (("type", .string m.kind.name) :: m.payload))).Perm m.payload := by
      have h := hp.filter fun m => decide (m.1 ≠ "type")
      rwa [List.filter_cons_of_neg (by simp), ← untyped, ← untyped, untyped_payload] at h
    exact m.finds_payload h (List.nodup_cons.1 hl).2 _ hrest

end Marker

/-! ### All payloads -/

/-- **All payloads travel**: the parameters of a connection, the hello, the parameters and the results of the chat
methods, the events of a run, failures and markers are read as what was written, with whatever members under unknown
names besides; and a hello is accepted exactly if its tag says so. -/
theorem payloads_travel :
    Travels Wire.ConnectParams.decode Wire.ConnectParams.encode Wire.ConnectParams.reach (fun _ => True) ∧
    Travels Wire.Hello.decode Wire.Hello.encode Wire.Hello.reach (fun _ => True) ∧
    Travels Wire.SendParams.decode Wire.SendParams.encode (.flat Wire.SendParams.record.names) (fun _ => True) ∧
    Travels Wire.SendAck.decode Wire.SendAck.encode (.flat Wire.SendAck.record.names) (fun _ => True) ∧
    Travels Wire.HistoryParams.decode Wire.HistoryParams.encode (.flat Wire.HistoryParams.record.names)
      (fun _ => True) ∧
    Travels Wire.History.decode Wire.History.encode (.flat Wire.History.record.names) (fun _ => True) ∧
    Travels Wire.AbortParams.decode Wire.AbortParams.encode (.flat Wire.AbortParams.record.names) (fun _ => True) ∧
    Travels Wire.AbortResult.decode Wire.AbortResult.encode (.flat Wire.AbortResult.record.names) (fun _ => True) ∧
    Travels Wire.InjectParams.decode Wire.InjectParams.encode (.flat Wire.InjectParams.record.names)
      (fun _ => True) ∧
    Travels Wire.InjectResult.decode Wire.InjectResult.encode (.flat Wire.InjectResult.record.names)
      (fun _ => True) ∧
    Travels Wire.RunEvent.decode Wire.RunEvent.encode (.flat Wire.RunEvent.record.names) Wire.RunEvent.IsDefinite ∧
    Travels Wire.Failure.decode Wire.Failure.encode (.flat Wire.Failure.record.names) (fun _ => True) ∧
    Travels Marker.decode Marker.encode Marker.reach Marker.IsDefinite ∧
    ∀ x v, Grows Wire.Hello.reach (Wire.Hello.encode x) v →
      Wire.Hello.ofPayload? v = if x.tag = Wire.Hello.acceptedTag then some x else none := by
  have hello : Travels Wire.Hello.decode Wire.Hello.encode Wire.Hello.reach (fun _ => True) :=
    travels_of_tolerates (Wire.Hello.follows.tolerates _) fun x _ => x.decode_encode
  refine ⟨?_, hello, ?_, ?_, ?_, ?_, ?_, ?_, ?_, ?_, ?_, ?_, ?_, fun x v hv => ?_⟩
  · exact travels_of_tolerates (Wire.ConnectParams.follows.tolerates _) fun x _ => x.decode_encode
  · exact travels_of_tolerates (Wire.SendParams.follows.tolerates _) fun x _ => x.decode_encode
  · exact travels_of_tolerates (Wire.SendAck.follows.tolerates _) fun x _ => x.decode_encode
  · exact travels_of_tolerates (Wire.HistoryParams.follows.tolerates _) fun x _ => x.decode_encode
  · exact travels_of_tolerates (Wire.History.follows.tolerates _) fun x _ => x.decode_encode
  · exact travels_of_tolerates (Wire.AbortParams.follows.tolerates _) fun x _ => x.decode_encode
  · exact travels_of_tolerates (Wire.AbortResult.follows.tolerates _) fun x _ => x.decode_encode
  · exact travels_of_tolerates (Wire.InjectParams.follows.tolerates _) fun x _ => x.decode_encode
  · exact travels_of_tolerates (Wire.InjectResult.follows.tolerates _) fun x _ => x.decode_encode
  · exact travels_of_tolerates (Wire.RunEvent.follows.tolerates _) fun x h => x.decode_encode h
  · exact travels_of_tolerates (Wire.Failure.follows.tolerates _) fun x _ => x.decode_encode
  · exact travels_of_tolerates Marker.tolerates_marker fun m h => m.decode_encode h
  · exact Wire.Hello.ofPayload?_of_decode (hello x trivial v hv)

end TurnRelay
