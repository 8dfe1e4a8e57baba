import TurnRelay.Wire.Frame
import TurnRelay.Proofs.Json.Members
import TurnRelay.Proofs.Json.Outline
import TurnRelay.Proofs.Json.Reading

/-!
# The text of a frame

A frame is read back from its text, and from every other text of an object that has its members: in whatever
order they stand, the kind among them, with whatever blanks and escapes, and with whatever other members that
the reader of a frame of this kind does not know. The objects inside of its members may be in another order,
too.

Three things set the bounds. A value without restriction has to be in normal form, since that is what the reader
makes of it; an optional one must not be `null`, since that is read as none; and the containers of the text must
not be nested deeper than the reader follows.

## The model

* `Frame.record`, `Frame.names` — how frames of a kind are read, and the names that are known there.
* `Frame.payload?`, `Frame.freeForms` — the optional value of a frame, and the values without restriction.
* `Frame.IsCarriedBy` — an object has the members of a frame.

## What is proved

* `decode_of_isCarriedBy` — an object that has the members of a frame is read as the frame.
* `frame_readable` — the text of a frame, and every other text with its members, is read as the frame.
* `hasDistinctNames_of_parse?` — what is read without restriction repeats no name.
-/

namespace TurnRelay.Wire

open Json

variable {ms l : Members}

/-- No known name is repeated, so the check for it passes. -/
theorem Frame.distinct_of_carries {α : Type} {names : List String} (h : Carries names ms l)
    (hl : (l.map Prod.fst).Nodup) (d : Decoder α) : distinct names d (.object ms) = d (.object ms) := by
  have hnone : names.find? (fun name => decide (1 < (ms.filter fun m => m.1 = name).length)) = none := by
    refine List.find?_eq_none.2 fun name hname => ?_
    rw [decide_eq_true_eq, length_under]
    exact Nat.not_lt.2 (h.length_under_le hl hname)
  rw [distinct, hnone]

/-! ### Failures -/

namespace Failure

/-- The members of a failure. -/
def members (x : Failure) : Members :=
  [("code", .string x.code), ("message", .string x.message)] ++ member? "retryable" .bool x.retryable

theorem names_record : record.names = ["code", "message", "retryable"] := rfl

variable {x : Failure}

theorem nodup_members (x : Failure) : (x.members.map Prod.fst).Nodup := by
  cases h : x.retryable <;> simp [members, member?, h]

/-- The values of a failure are strings and truth values. -/
theorem plain_of_mem {m : String × Json} (h : m ∈ x.members) :
    m.1 ∈ record.names ∧ m.2.normalize = m.2 ∧ m.2.isIntegral = true ∧ ∀ l, m.2 ≠ .object l := by
  rw [members, List.mem_append, List.mem_pair] at h
  rcases h with (rfl | rfl) | h
  · exact ⟨by simp [names_record], rfl, rfl, by simp⟩
  · exact ⟨by simp [names_record], rfl, rfl, by simp⟩
  · obtain ⟨b, -, rfl⟩ := mem_member?_iff.1 h
    exact ⟨by simp [names_record], rfl, rfl, by simp⟩

theorem normalize_encode (x : Failure) : x.encode.normalize = x.encode :=
  normalize_ofMembers (fun _ hm => (plain_of_mem hm).2.1) x.nodup_members

theorem isIntegral_encode (x : Failure) : x.encode.isIntegral = true :=
  membersIntegral_iff.2 fun _ hm => (plain_of_mem ((table_perm x.nodup_members).mem_iff.1 hm)).2.2.1

theorem reads_record (h : Carries record.names ms x.members) : record.Reads ms x := by
  have hl := x.nodup_members
  refine (((Record.Reads.unit _ ms).field ?_).field ?_).field ?_
  · exact h.reads_string hl (by decide) rfl
  · exact h.reads_string hl (by decide) rfl
  · refine h.reads_optional hl (by decide) (g := .bool) ?_ fun b _ w hn _ => ?_
    · rw [members, find?_append, find?_member?]
      rfl
    · rw [eq_of_normalize_eq hn (by simp) (by simp)]
      exact ⟨by simp, rfl⟩

/-- A failure is read from every value that has its written form as the normal form. -/
theorem decode_of_normalize_eq {w : Json} (hn : w.normalize = x.encode) (hd : w.HasDistinctNames) :
    w ≠ .null ∧ Frame.distinct record.names decode w = .ok x := by
  obtain ⟨ms, rfl, hperm⟩ := exists_of_normalize_eq_object hn hd
  have hmembers : (normalizeMembers ms).Perm x.members := hperm.trans (table_perm x.nodup_members)
  have hcarries : Carries record.names ms x.members := by
    refine carries_of_perm hmembers (fun m hm => ?_) fun m hm => (plain_of_mem hm).1
    have hmem : (m.1, m.2.normalize) ∈ x.members := by
      rw [← hmembers.mem_iff, normalizeMembers_eq_map]
      exact List.mem_map_of_mem hm
    exact hasDistinctNames_of_normalize_ne (plain_of_mem hmem).2.2.2
  refine ⟨by simp, ?_⟩
  rw [Frame.distinct_of_carries hcarries x.nodup_members]
  exact (reads_record hcarries).decode _

end Failure

/-! ### Members of frames -/

namespace Frame

/-- How the frames of this kind are read. -/
def record : Frame → Record Frame
  | .request _ _ _ => requestRecord
  | .response _ _ _ _ => responseRecord
  | .event _ _ _ => eventRecord

/-- The name of the kind. -/
def kind : Frame → String
  | .request _ _ _ => "request"
  | .response _ _ _ _ => "response"
  | .event _ _ _ => "event"

/-- The names that the reader of a frame of this kind knows. -/
def names (f : Frame) : List String := "kind" :: f.record.names

/-- The value that the frame may go without. -/
def payload? : Frame → Option Json
  | .request _ _ _ => none
  | .response _ _ payload _ => payload
  | .event _ payload _ => payload

/-- The values without restriction. -/
def freeForms : Frame → List Json
  | .request _ _ params => [params]
  | .response _ _ payload _ => payload.toList
  | .event _ payload _ => payload.toList

/-- The members `ms` are those of the frame, in whatever order, and others of unknown names. -/
def IsCarriedBy (f : Frame) (ms : Members) : Prop := Carries f.names ms f.members

variable {f : Frame}

theorem names_request (name method : String) (params : Json) :
    (request name method params).names = ["kind", "id", "method", "params"] := rfl

theorem names_response (name : String) (ok : Bool) (payload : Option Json) (error : Option Failure) :
    (response name ok payload error).names = ["kind", "id", "ok", "payload", "error"] := rfl

theorem names_event (name : String) (payload : Option Json) (seq : Option UInt64) :
    (event name payload seq).names = ["kind", "name", "payload", "seq"] := rfl

theorem recordOf_kind (f : Frame) : recordOf (.string f.kind) = .ok f.record := by
  cases f <;> rfl

theorem find?_kind (f : Frame) : find? "kind" f.members = some (.string f.kind) := by
  cases f <;> rfl

theorem nodup_members (f : Frame) : (f.members.map Prod.fst).Nodup := by
  cases f with
  | request id method params => simp [members]
  | response id ok payload error => cases payload <;> cases error <;> simp [members, member?]
  | event name payload seq => cases payload <;> cases seq <;> simp [members, member?]

theorem word64_ofWord64 (n : UInt64) : Decoder.word64 (ofWord64 n) = .ok n := by
  have hn : 0 ≤ (n.toNat : Int) ∧ (n.toNat : Int) < UInt64.size :=
    ⟨Int.natCast_nonneg _, Int.ofNat_lt.2 n.toNat_lt_size⟩
  rw [Decoder.word64, ofWord64, ofNat, Decoder.natBelow, if_pos hn, Int.toNat_natCast]
  exact congrArg Except.ok (UInt64.ofNat_toNat)

theorem isIntegral_ofWord64 (n : UInt64) : (ofWord64 n).isIntegral = true := by
  rw [ofWord64, ofNat, isIntegral, decide_eq_true_eq]
  have hneg : -(Nat.pow 2 63 : Int) ≤ 0 := Int.neg_nonpos_of_nonneg (Int.natCast_nonneg _)
  exact ⟨hneg.trans (Int.natCast_nonneg _), Int.ofNat_lt.2 n.toNat_lt_size⟩

/-- A value is read as its normal form; only `null` stands for none. -/
theorem freeForm_of_normalize_eq {v w : Json} (hn : w.normalize = v) (hv : v ≠ .null) :
    w ≠ .null ∧ freeForm w = .ok v :=
  ⟨fun hw => hv (by rw [← hn, hw]; rfl), congrArg Except.ok hn⟩

/-- An object that has the members of a frame has its fields. -/
theorem reads_record (h : f.IsCarriedBy ms) (hnull : f.payload? ≠ some .null) : f.record.Reads ms f := by
  have hl := f.nodup_members
  cases f with
  | request name method params =>
    refine (((Record.Reads.unit _ ms).field ?_).field ?_).field ?_
    · exact h.reads_string hl (by simp [names_request]) rfl
    · exact h.reads_string hl (by simp [names_request]) rfl
    · refine h.reads_some hl (by simp [names_request, Field.withDefault]) rfl fun w hn _ => ?_
      exact congrArg Except.ok hn
  | response name ok payload error =>
    refine ((((Record.Reads.unit _ ms).field ?_).field ?_).field ?_).field ?_
    · exact h.reads_string hl (by simp [names_response]) rfl
    · exact h.reads_bool hl (by simp [names_response]) rfl
    · refine h.reads_optional hl (by simp [names_response]) (g := id) ?_ fun v hv w hn _ => ?_
      · simp [members, find?, find?_append, find?_member?]
      · exact freeForm_of_normalize_eq hn fun hv' => hnull (hv' ▸ hv)
    · refine h.reads_optional hl (by simp [names_response]) (g := Failure.encode) ?_ fun x _ w hn hd => ?_
      · simp [members, find?, find?_append, find?_member?]
      · exact Failure.decode_of_normalize_eq hn hd
  | event name payload seq =>
    refine (((Record.Reads.unit _ ms).field ?_).field ?_).field ?_
    · exact h.reads_string hl (by simp [names_event]) rfl
    · refine h.reads_optional hl (by simp [names_event]) (g := id) ?_ fun v hv w hn _ => ?_
      · simp [members, find?, find?_append, find?_member?]
      · exact freeForm_of_normalize_eq hn fun hv' => hnull (hv' ▸ hv)
    · refine h.reads_optional hl (by simp [names_event]) (g := ofWord64) ?_ fun n _ w hn _ => ?_
      · simp [members, find?, find?_append, find?_member?]
      · rw [eq_of_normalize_eq hn (by simp [ofWord64, ofNat]) (by simp [ofWord64, ofNat])]
        exact ⟨by simp [ofWord64, ofNat], word64_ofWord64 n⟩

/-- **An object that has the members of a frame is read as the frame.** -/
theorem decode_of_isCarriedBy (h : f.IsCarriedBy ms) (hnull : f.payload? ≠ some .null) :
    decode (.object ms) = .ok f := by
  have hkind : find? "kind" ms = some (.string f.kind) := by
    have hknown : "kind" ∈ f.names := List.mem_cons_self
    rcases h.under f.nodup_members hknown with ⟨hnone, -⟩ | ⟨v, w, hv, hu, hn, -⟩
    · rw [find?_kind] at hnone
      cases hnone
    · rw [find?_kind, Option.some.injEq] at hv
      subst hv
      rw [find?_eq_head?, hu, eq_of_normalize_eq hn (by simp) (by simp)]
      rfl
  rw [decode, hkind]
  show (recordOf (.string f.kind) >>= _) = _
  rw [recordOf_kind]
  show distinct f.names (fun _ => f.record.fromMembers ms) (.object ms) = _
  rw [distinct_of_carries h f.nodup_members]
  exact (reads_record h hnull).fromMembers

/-! ### Values that have been read -/

theorem hasDistinctNames_of_freeForm (v w : Json) (h : freeForm v = .ok w) : w.HasDistinctNames :=
  Except.ok.inj h ▸ hasDistinctNames_normalize v

/-- The frames of each kind are read with values that repeat no names. -/
theorem ensures_of_recordOf {tag : Json} {r : Record Frame} (h : recordOf tag = .ok r) :
    r.Ensures fun f => ∀ v ∈ f.freeForms, v.HasDistinctNames := by
  have hpayload : ∀ payload : Option Json, (∀ v ∈ payload, v.HasDistinctNames) →
      ∀ v ∈ payload.toList, v.HasDistinctNames := fun payload hp v hv => hp v (Option.mem_toList.1 hv)
  unfold recordOf at h
  split at h
  · split_ifs at h
    · obtain rfl := Except.ok.inj h
      refine .field (.field (.field (.unit ?_) (Field.ensures_true _)) (Field.ensures_true _))
        (Field.ensures_withDefault hasDistinctNames_of_freeForm trivial)
      intro name _ method _ params hparams v hv
      exact List.mem_singleton.1 hv ▸ hparams
    · obtain rfl := Except.ok.inj h
      refine .field (.field (.field (.field (.unit ?_) (Field.ensures_true _)) (Field.ensures_true _))
        (Field.ensures_optional hasDistinctNames_of_freeForm)) (Field.ensures_true _)
      exact fun name _ ok _ payload hp error _ => hpayload payload hp
    · obtain rfl := Except.ok.inj h
      refine .field (.field (.field (.unit ?_) (Field.ensures_true _))
        (Field.ensures_optional hasDistinctNames_of_freeForm)) (Field.ensures_true _)
      exact fun name _ payload hp seq _ => hpayload payload hp
  · cases h

/-- **The values of a frame that has been read from a text repeat no names.** -/
theorem hasDistinctNames_of_parse? {text : String} (h : parse? text = some f) :
    ∀ v ∈ f.freeForms, v.HasDistinctNames := by
  unfold parse? at h
  split at h
  · cases h
  · rename_i v _
    split at h
    · rename_i g hdecode
      obtain rfl := Option.some.inj h
      unfold decode at hdecode
      split at hdecode
      · split at hdecode
        · cases hdecode
        · obtain ⟨r, hr, hread⟩ := Record.exists_of_bind_eq_ok hdecode
          unfold distinct at hread
          simp only at hread
          split at hread
          · cases hread
          · exact (ensures_of_recordOf hr).fromMembers hread
      · cases hdecode
      · obtain ⟨r, hr, hread⟩ := Record.exists_of_bind_eq_ok hdecode
        exact (ensures_of_recordOf hr).fromItems hread
      · cases hdecode
    · cases h

/-! ### Texts -/

/-- A member of a frame has a known name; its value is one without restriction, or in normal form and without
fractions. -/
theorem known_of_mem {m : String × Json} (h : m ∈ f.members) :
    m.1 ∈ f.names ∧ (m.2 ∈ f.freeForms ∨ (m.2.normalize = m.2 ∧ m.2.isIntegral = true)) := by
  cases f with
  | request name method params =>
    simp only [members, List.mem_cons, List.not_mem_nil, or_false] at h
    rcases h with rfl | rfl | rfl | rfl
    · exact ⟨by simp [names_request], .inr ⟨rfl, rfl⟩⟩
    · exact ⟨by simp [names_request], .inr ⟨rfl, rfl⟩⟩
    · exact ⟨by simp [names_request], .inr ⟨rfl, rfl⟩⟩
    · exact ⟨by simp [names_request], .inl (by simp [freeForms])⟩
  | response name ok payload error =>
    simp only [members, List.mem_append, List.mem_cons, List.not_mem_nil, or_false, mem_member?_iff] at h
    rcases h with ((rfl | rfl | rfl) | ⟨v, rfl, rfl⟩) | ⟨x, rfl, rfl⟩
    · exact ⟨by simp [names_response], .inr ⟨rfl, rfl⟩⟩
    · exact ⟨by simp [names_response], .inr ⟨rfl, rfl⟩⟩
    · exact ⟨by simp [names_response], .inr ⟨rfl, rfl⟩⟩
    · exact ⟨by simp [names_response], .inl (by simp [freeForms])⟩
    · exact ⟨by simp [names_response], .inr ⟨x.normalize_encode, x.isIntegral_encode⟩⟩
  | event name payload seq =>
    simp only [members, List.mem_append, List.mem_cons, List.not_mem_nil, or_false, mem_member?_iff] at h
    rcases h with ((rfl | rfl) | ⟨v, rfl, rfl⟩) | ⟨n, rfl, rfl⟩
    · exact ⟨by simp [names_event], .inr ⟨rfl, rfl⟩⟩
    · exact ⟨by simp [names_event], .inr ⟨rfl, rfl⟩⟩
    · exact ⟨by simp [names_event], .inl (by simp [freeForms])⟩
    · exact ⟨by simp [names_event], .inr ⟨rfl, isIntegral_ofWord64 n⟩⟩

/-- A frame whose values are in normal form has its own members. -/
theorem isCarriedBy_members (h : ∀ v ∈ f.freeForms, v.normalize = v) : f.IsCarriedBy f.members := by
  have hnormal : ∀ m ∈ f.members, m.2.normalize = m.2 := fun m hm =>
    (known_of_mem hm).2.elim (h m.2) fun hm => hm.1
  refine carries_of_perm (by rw [normalizeMembers_of_normal hnormal]) (fun m hm => ?_) fun m hm => ?_
  · exact hasDistinctNames_of_normal (hnormal m hm)
  · exact (known_of_mem hm).1

theorem isIntegral_encode (h : ∀ v ∈ f.freeForms, v.isIntegral = true) : f.encode.isIntegral = true :=
  membersIntegral_iff.2 fun _ hm => (known_of_mem hm).2.elim (h _) fun hm => hm.2

/-- A text with the members of a frame is read as the frame. -/
theorem parse?_of_isCarriedBy {text : String} (h : f.IsCarriedBy ms) (hnull : f.payload? ≠ some .null)
    (hd : (Json.object ms).depth ≤ maxDepth) (ht : Typeset text.toList (Json.object ms).outline) :
    parse? text = some f := by
  rw [parse?, parseRaw_of_typeset ht hd]
  simp only [decode_of_isCarriedBy h hnull]

/-- **A frame is read back from its text, and from every text that has its members.** -/
theorem frame_readable (f : Frame) (hnull : f.payload? ≠ some .null) :
    ((∀ v ∈ f.freeForms, v.normalize = v ∧ v.isIntegral = true) → f.encode.depth ≤ maxDepth →
      parse? f.text = some f) ∧
    ∀ ms text, f.IsCarriedBy ms → (Json.object ms).depth ≤ maxDepth →
      Typeset text.toList (Json.object ms).outline → parse? text = some f := by
  refine ⟨fun hvalues hd => ?_, fun ms text h hd ht => parse?_of_isCarriedBy h hnull hd ht⟩
  have hown : f.IsCarriedBy f.members := isCarriedBy_members fun v hv => (hvalues v hv).1
  have htext : Typeset f.text.toList f.encode.outline := by
    rw [text, compress, String.toList_ofList]
    exact typeset_chars (isIntegral_encode fun v hv => (hvalues v hv).2)
  exact parse?_of_isCarriedBy hown hnull hd htext

/-- A response that failed, with the largest and the smallest integer in its payload. -/
def refusal : Frame :=
  .response "7" false
    (some (.object [("bounds", .array [ofNat 18446744073709551615, .number (.integer (-9223372036854775808))]),
      ("note", .string "a\nb")]))
    (some ⟨"busy", "try \"later\"", some true⟩)

/-- Its members from the last to the first, between members of another name. -/
def refusalMembers : Members :=
  [("trace", .array [.object []]),
    ("error", .object [("retryable", .bool true), ("message", .string "try \"later\""), ("code", .string "busy")]),
    ("payload", .object [("note", .string "a\nb"),
      ("bounds", .array [ofNat 18446744073709551615, .number (.integer (-9223372036854775808))])]),
    ("ok", .bool false), ("trace", .null), ("id", .string "7"), ("kind", .string "response")]

/-- A text of these members with some blanks. -/
def refusalText : String := String.ofList ('{' :: '\n' :: ' ' :: (membersChars refusalMembers ++ ['\n']))

theorem typeset_refusalText : Typeset refusalText.toList (Json.object refusalMembers).outline := by
  have hend : Typeset ['\n'] [] := .blank rfl .nil
  have hbody := typeset_membersChars_append refusalMembers _ [] (by decide +kernel) hend
  rw [List.append_nil] at hbody
  rw [refusalText, String.toList_ofList]
  exact (Typeset.blank rfl (.blank rfl hbody)).cons (w := ['{']) .openObject fun _ => trivial

theorem isCarriedBy_refusalMembers : refusal.IsCarriedBy refusalMembers := by
  refine ⟨by decide +kernel, fun m hm _ => ?_⟩
  simp only [refusalMembers, List.mem_cons, List.not_mem_nil, or_false] at hm
  rcases hm with rfl | rfl | rfl | rfl | rfl | rfl | rfl <;> simp [HasDistinctNames]

theorem refusal_readable : parse? refusal.text = some refusal ∧ parse? refusalText = some refusal :=
  have hread := frame_readable refusal (by simp [refusal, payload?])
  ⟨hread.1 (by decide +kernel) (by decide +kernel),
    hread.2 refusalMembers refusalText isCarriedBy_refusalMembers (by decide +kernel) typeset_refusalText⟩

end Frame

end TurnRelay.Wire
