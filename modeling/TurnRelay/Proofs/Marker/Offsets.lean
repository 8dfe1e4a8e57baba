import TurnRelay.Proofs.Marker.Octets
import TurnRelay.Proofs.Marker.Verdict

/-!
# Markers by offsets

The examination of a marker, the search for the first literal and the search for the end of a text that could begin
one, by the offsets of octets. Each checks where it cuts a text and what it subtracts, and each comes to what it comes
to character by character, without a fault.

## The model

* `scanObject`, `scanDashboard`, `scanProps`, `scanRender`, `scan` — the examination.
* `findLiteral` — the offset of the first literal, and its kind.
* `openLength` — the number of octets at the end that could begin a literal.

## What is proved

* `scan_eq` — the examination comes to the same verdict, its length in octets.
* `findLiteral_eq`, `openLength_eq` — the searches find the same.
-/

namespace TurnRelay

namespace Marker

/-! ### The examination -/

/-- How a component's name ends. -/
inductive NameEnd where
  /-- It does not, as far as the text goes. -/
  | missing
  /-- At the colon of an offset. -/
  | colon (i : Nat)
  /-- At an offset where something stands that cannot be in a name. -/
  | broken (i : Nat)
  deriving DecidableEq, Repr

/-- How the name ends that begins before the offset `i`, among the octets from there on. -/
def nameEnd : (i : Nat) → List UInt8 → NameEnd
  | _, [] => .missing
  | i, b :: bs =>
    if b = ':'.toUInt8 then .colon i
    else if b = ']'.toUInt8 ∨ b = '['.toUInt8 ∨ b = '\n'.toUInt8 ∨ b = '\r'.toUInt8 then .broken i
    else nameEnd (i + 1) bs

/-- Examines an object from an offset on. -/
def scanObject (parse : List Char → Option Marker) (text : List Char) (start : Nat) : Except Fault Verdict := do
  match ← objectEnd .code 0 start ((octets text).drop start) with
  | none => return .incomplete
  | some stop =>
    match (octets text)[stop]? with
    | none => return .incomplete
    | some b =>
      if b = ']'.toUInt8 then
        let body ← slice text start stop
        return settle (parse body) (stop + 1)
      else return .malformed stop

/-- Examines a text that begins with the literal of a dashboard. -/
def scanDashboard (text : List Char) : Except Fault Verdict :=
  let start := size Kind.dashboard.literal
  match (octets text)[start]? with
  | none => return .incomplete
  | some b => if b = '{'.toUInt8 then scanObject dashboardBody? text start else return .malformed start

/-- Examines the properties of a component from an offset on. -/
def scanProps (component : List Char) (text : List Char) (start : Nat) : Except Fault Verdict :=
  match (octets text)[start]? with
  | none => return .incomplete
  | some b =>
    if b = '{'.toUInt8 then scanObject (renderBody? component) text start
    else do
      match ← unnestedClose .code 0 start ((octets text).drop start) with
      | none => return .incomplete
      | some stop =>
        let body ← slice text start stop
        return settle (renderBody? component body) (stop + 1)

/-- Examines a text that begins with the literal of a rendering, once the end of the component's name is known. -/
def scanNamed (text : List Char) : NameEnd → Except Fault Verdict
  | .missing => return .incomplete
  | .broken i => return .malformed i
  | .colon i => do
    let start := size Kind.render.literal
    if i = start then return .malformed (i + 1)
    else
      let component ← slice text start i
      scanProps component text (i + 1)

/-- Examines a text that begins with the literal of a rendering. -/
def scanRender (text : List Char) : Except Fault Verdict :=
  let start := size Kind.render.literal
  scanNamed text (nameEnd start ((octets text).drop start))

/-- Examines a text that begins with the literal of a kind. -/
def scan (kind : Kind) (text : List Char) : Except Fault Verdict :=
  match kind with
  | .dashboard => scanDashboard text
  | .render => scanRender text

/-- A verdict on a text, with its length in octets. -/
def Verdict.inOctets (text : List Char) : Verdict → Verdict
  | .incomplete => .incomplete
  | .complete m n => .complete m (size (text.take n))
  | .malformed n => .malformed (size (text.take n))

theorem inOctets_malformed (a b : List Char) :
    (Verdict.malformed a.length).inOctets (a ++ b) = .malformed (size a) := by
  rw [Verdict.inOctets, List.take_left]

theorem inOctets_settle (o : Option Marker) (a b : List Char) :
    (settle o a.length).inOctets (a ++ b) = settle o (size a) := by
  cases o with
  | none => exact inOctets_malformed a b
  | some m => rw [settle, settle, Verdict.inOctets, List.take_left]

theorem drop_octets (a b : List Char) : (octets (a ++ b)).drop (size a) = octets b := by
  rw [octets_append, size, List.drop_left]

theorem getElem?_octets_nil (a : List Char) : (octets a)[size a]? = none := by
  rw [List.getElem?_eq_none_iff, size]

/-- The first octet of a character tells whether it is one of ASCII, and which. -/
theorem exists_getElem?_octets (a : List Char) (c : Char) (cs : List Char) :
    ∃ b, (octets (a ++ c :: cs))[size a]? = some b ∧ ∀ d : Char, d.toNat < 128 → (b = d.toUInt8 ↔ c = d) := by
  have hget : (octets (a ++ c :: cs))[size a]? = (String.utf8EncodeChar c ++ octets cs)[0]? := by
    rw [octets_append, size, List.getElem?_append_right (Nat.le_refl _), Nat.sub_self, octets_cons]
  rw [hget]
  cases hb : String.utf8EncodeChar c with
  | nil => exact absurd hb String.utf8EncodeChar_ne_nil
  | cons b bs =>
    refine ⟨b, rfl, fun d hd => ?_⟩
    by_cases hc : c.toNat < 128
    · rw [utf8EncodeChar_of_ascii hc] at hb
      cases hb
      exact toUInt8_eq_iff hc hd
    · have habove := le_of_mem_utf8EncodeChar hc (hb ▸ List.mem_cons_self)
      exact iff_of_false (ne_toUInt8_of_le habove hd) fun h => hc (h ▸ hd)

/-- A body up to its closing bracket is settled the same in octets. -/
theorem settle_slice (parse : List Char → Option Marker) (front mid rest : List Char) :
    (slice (front ++ mid ++ ']' :: rest) (size front) (size (front ++ mid)) >>= fun body =>
        return settle (parse body) (size (front ++ mid) + 1)) =
      .ok ((settle (parse mid) (front.length + mid.length + 1)).inOctets (front ++ mid ++ ']' :: rest)) := by
  have hsplit : front ++ mid ++ ']' :: rest = (front ++ mid ++ [']']) ++ rest := by simp
  have hlen : front.length + mid.length + 1 = (front ++ mid ++ [']']).length := by
    simp only [List.length_append, List.length_singleton]
  have hsize : size (front ++ mid ++ [']']) = size (front ++ mid) + 1 := size_append _ [']']
  rw [slice_append, ok_bind, hsplit, hlen, inOctets_settle, hsize]
  rfl

theorem scanObject_eq (parse : List Char → Option Marker) (front cs : List Char) :
    scanObject parse (front ++ '{' :: cs) (size front) =
      .ok ((examineObject parse front.length ('{' :: cs)).inOctets (front ++ '{' :: cs)) := by
  rw [scanObject, drop_octets, objectEnd_object, ok_bind, examineObject]
  cases hn : balancedLength .code 0 ('{' :: cs) with
  | none => rfl
  | some n =>
    have hle := balancedLength_le hn
    generalize '{' :: cs = body at hle ⊢
    obtain ⟨mid, back, rfl, rfl⟩ : ∃ mid back, body = mid ++ back ∧ n = mid.length :=
      ⟨body.take n, body.drop n, (List.take_append_drop n body).symm, by rw [List.length_take_of_le hle]⟩
    simp only [Option.map_some, List.take_left, List.drop_left]
    rw [← size_append, ← List.append_assoc]
    cases back with
    | nil =>
      rw [List.append_nil, getElem?_octets_nil]
      rfl
    | cons c rest =>
      obtain ⟨b, hget, hb⟩ := exists_getElem?_octets (front ++ mid) c rest
      simp only [hget, hb ']' (by decide)]
      split
      · rename_i hc
        subst hc
        exact settle_slice parse front mid rest
      · rw [← List.length_append, inOctets_malformed]
        rfl

theorem scanDashboard_eq (body : List Char) :
    scanDashboard (Kind.dashboard.literal ++ body) =
      .ok ((examineDashboard Kind.dashboard.literal.length body).inOctets (Kind.dashboard.literal ++ body)) := by
  unfold scanDashboard
  cases body with
  | nil =>
    simp only [List.append_nil, getElem?_octets_nil]
    rfl
  | cons c cs =>
    obtain ⟨b, hget, hb⟩ := exists_getElem?_octets Kind.dashboard.literal c cs
    simp only [hget, hb '{' (by decide), examineDashboard]
    split
    · rename_i hc
      subst hc
      exact scanObject_eq dashboardBody? _ cs
    · rw [inOctets_malformed]
      rfl

theorem scanProps_eq (component front body : List Char) :
    scanProps component (front ++ body) (size front) =
      .ok ((examineProps component front.length body).inOctets (front ++ body)) := by
  unfold scanProps
  cases body with
  | nil =>
    rw [List.append_nil, getElem?_octets_nil]
    rfl
  | cons c cs =>
    obtain ⟨b, hget, hb⟩ := exists_getElem?_octets front c cs
    simp only [hget, hb '{' (by decide), examineProps]
    split
    · rename_i hc
      subst hc
      exact scanObject_eq (renderBody? component) front cs
    · rw [drop_octets, unnestedClose_octets, ok_bind]
      cases hn : unnestedLength .code 0 (c :: cs) with
      | none => rfl
      | some n =>
        obtain ⟨mid, rest, hbody, rfl⟩ := exists_of_unnestedLength hn
        rw [hbody]
        simp only [Option.map_some, List.take_left]
        rw [← size_append, ← List.append_assoc]
        exact settle_slice (renderBody? component) front mid rest

/-- In a name, octets above ASCII are passed over. -/
theorem nameEnd_append {bs : List UInt8} (h : ∀ b ∈ bs, 128 ≤ b.toNat) (i : Nat) (more : List UInt8) :
    nameEnd i (bs ++ more) = nameEnd (i + bs.length) more := by
  induction bs generalizing i with
  | nil => rfl
  | cons b bs ih =>
    have hb := h b List.mem_cons_self
    have hnone : ¬ (b = ']'.toUInt8 ∨ b = '['.toUInt8 ∨ b = '\n'.toUInt8 ∨ b = '\r'.toUInt8) := by
      rintro (h | h | h | h) <;> exact ne_toUInt8_of_le hb (by decide) h
    rw [List.cons_append, nameEnd, if_neg (ne_toUInt8_of_le hb (by decide)), if_neg hnone,
      ih fun b' hb' => h b' (List.mem_cons_of_mem b hb'), List.length_cons, Nat.add_assoc, Nat.add_comm 1]

/-- A character that can stand in a component's name is passed over. -/
theorem nameEnd_cons {c : Char} (hc : c ≠ ':') (he : endsName c = false) (i : Nat) (cs : List Char) :
    nameEnd i (octets (c :: cs)) = nameEnd (i + c.utf8Size) (octets cs) := by
  simp only [endsName, Bool.or_eq_false_iff, decide_eq_false_iff_not] at he
  obtain ⟨⟨⟨hclose, hopen⟩, hline⟩, hreturn⟩ := he
  by_cases ha : c.toNat < 128
  · rw [octets_cons_of_ascii ha, utf8Size_of_ascii ha, nameEnd, if_neg, if_neg]
    · simp only [toUInt8_eq_iff ha (d := ']') (by decide), toUInt8_eq_iff ha (d := '[') (by decide),
        toUInt8_eq_iff ha (d := '\n') (by decide), toUInt8_eq_iff ha (d := '\r') (by decide)]
      simp [hclose, hopen, hline, hreturn]
    · rwa [toUInt8_eq_iff ha (by decide)]
  · rw [octets_cons, ← String.length_utf8EncodeChar]
    exact nameEnd_append (fun b hb => le_of_mem_utf8EncodeChar ha hb) i (octets cs)

/-- A character that cannot stand in a component's name ends it. -/
theorem nameEnd_of_endsName {c : Char} (he : endsName c = true) (i : Nat) (cs : List Char) :
    nameEnd i (octets (c :: cs)) = .broken i := by
  simp only [endsName, Bool.or_eq_true, decide_eq_true_eq] at he
  rcases he with ((rfl | rfl) | rfl) | rfl <;>
    rw [octets_cons_of_ascii (by decide), nameEnd, if_neg (by decide), if_pos (by decide)]

theorem scanNamed_eq (name cs : List Char) :
    scanNamed (Kind.render.literal ++ name.reverse ++ cs)
        (nameEnd (size (Kind.render.literal ++ name.reverse)) (octets cs)) =
      .ok ((examineRender (Kind.render.literal ++ name.reverse).length name cs).inOctets
        (Kind.render.literal ++ name.reverse ++ cs)) := by
  induction cs generalizing name with
  | nil => rfl
  | cons c cs ih =>
    rw [examineRender]
    split
    · rename_i hc
      subst hc
      have hsplit : Kind.render.literal ++ name.reverse ++ ':' :: cs =
          (Kind.render.literal ++ name.reverse ++ [':']) ++ cs := by simp
      have hlen : (Kind.render.literal ++ name.reverse).length + 1 =
          (Kind.render.literal ++ name.reverse ++ [':']).length := by
        simp only [List.length_append, List.length_singleton]
      have hsize : size (Kind.render.literal ++ name.reverse ++ [':']) =
          size (Kind.render.literal ++ name.reverse) + 1 := size_append _ [':']
      rw [octets_cons_of_ascii (by decide), nameEnd, if_pos rfl, scanNamed, hlen]
      by_cases hn : name = []
      · rw [if_pos hn, if_pos (by rw [hn]; rfl), hsplit, inOctets_malformed, hsize]
        rfl
      · have hpos : 0 < size name.reverse := size_pos (by simpa using hn)
        have hne : size (Kind.render.literal ++ name.reverse) ≠ size Kind.render.literal := by
          rw [size_append]
          omega
        rw [if_neg hn, if_neg hne, slice_append, ok_bind, ← hsize, hsplit, scanProps_eq]
    · rename_i hc
      split
      · rename_i he
        rw [nameEnd_of_endsName he, inOctets_malformed]
        rfl
      · rename_i he
        rw [Bool.not_eq_true] at he
        have htext : Kind.render.literal ++ (c :: name).reverse ++ cs =
            Kind.render.literal ++ name.reverse ++ c :: cs := by simp
        have hlen : (Kind.render.literal ++ (c :: name).reverse).length =
            (Kind.render.literal ++ name.reverse).length + 1 := by simp [Nat.add_assoc]
        have hsize : size (Kind.render.literal ++ (c :: name).reverse) =
            size (Kind.render.literal ++ name.reverse) + c.utf8Size := by simp [Nat.add_assoc]
        have h := ih (c :: name)
        rw [htext, hlen, hsize] at h
        rw [nameEnd_cons hc he]
        exact h

theorem scanRender_eq (body : List Char) :
    scanRender (Kind.render.literal ++ body) =
      .ok ((examineRender Kind.render.literal.length [] body).inOctets (Kind.render.literal ++ body)) := by
  have h := scanNamed_eq [] body
  rw [List.reverse_nil, List.append_nil] at h
  rw [scanRender, drop_octets, h]

/-- **The examination by offsets has no fault**: it never cuts a text elsewhere than between two of its characters,
no count underflows, and it comes to the verdict to which the examination comes character by character. -/
theorem scan_eq {k : Kind} {text : List Char} (hk : k.literal <+: text) :
    scan k text = .ok ((examine k text).inOctets text) := by
  obtain ⟨body, rfl⟩ := hk
  cases k with
  | dashboard =>
    simp only [scan, examine, List.drop_left]
    exact scanDashboard_eq body
  | render =>
    simp only [scan, examine, List.drop_left]
    exact scanRender_eq body

/-! ### The first literal -/

/-- The offset of the first place where a literal stands. -/
def find (literal : List Char) : List Char → Option Nat
  | [] => none
  | c :: cs => if literal.isPrefixOf (c :: cs) then some 0 else (find literal cs).map (· + c.utf8Size)

/-- The offset of the first literal, and its kind. -/
def findLiteral (text : List Char) : Option (Nat × Kind) :=
  match find Kind.dashboard.literal text, find Kind.render.literal text with
  | some d, some r => some (if d ≤ r then (d, .dashboard) else (r, .render))
  | some d, none => some (d, .dashboard)
  | none, some r => some (r, .render)
  | none, none => none

theorem find_of_prefix {k : Kind} {text : List Char} (h : k.literal <+: text) : find k.literal text = some 0 := by
  cases text with
  | nil =>
    have hpos := literal_pos k
    rw [List.prefix_nil.1 h] at hpos
    exact absurd hpos (Nat.lt_irrefl 0)
  | cons c cs => rw [find, if_pos (List.isPrefixOf_iff_prefix.2 h)]

theorem find_cons {k : Kind} {c : Char} {cs : List Char} (h : ¬ k.literal <+: c :: cs) :
    find k.literal (c :: cs) = (find k.literal cs).map (· + c.utf8Size) := by
  rw [find, if_neg fun hp => h (List.isPrefixOf_iff_prefix.1 hp)]

/-- Which of two offsets is the first does not depend on what stands in front of both. -/
theorem findLiteral_cons {c : Char} {cs : List Char} (h : ∀ k : Kind, ¬ k.literal <+: c :: cs) :
    findLiteral (c :: cs) = (findLiteral cs).map fun (i, k) => (i + c.utf8Size, k) := by
  rw [findLiteral, findLiteral, find_cons (h .dashboard), find_cons (h .render)]
  cases find Kind.dashboard.literal cs with
  | none => cases find Kind.render.literal cs <;> rfl
  | some d =>
    cases find Kind.render.literal cs with
    | none => rfl
    | some r =>
      simp only [Option.map_some, Nat.add_le_add_iff_right]
      split <;> rfl

theorem findLiteral_of_literalAt {text : List Char} {k : Kind} (h : literalAt text = some k) :
    findLiteral text = some (0, k) := by
  have hp := literalAt_eq_some_iff.1 h
  cases k with
  | dashboard =>
    rw [findLiteral, find_of_prefix hp]
    cases find Kind.render.literal text with
    | none => rfl
    | some r => simp only [Nat.zero_le, if_true]
  | render =>
    rw [findLiteral, find_of_prefix hp]
    cases text with
    | nil => rfl
    | cons c cs =>
      have hd : ¬ Kind.dashboard.literal <+: c :: cs := fun hd => by cases kind_eq_of_literals hd hp
      have hpos := c.utf8Size_pos
      rw [find_cons hd]
      cases find Kind.dashboard.literal cs with
      | none => rfl
      | some d =>
        have hlt : ¬ d + c.utf8Size ≤ 0 := by omega
        simp only [Option.map_some, if_neg hlt]

/-- **The search by offsets finds the first literal.** -/
theorem findLiteral_eq (text : List Char) :
    findLiteral text = (firstLiteral text).map fun x => (size x.1, x.2.1) := by
  induction text with
  | nil => rfl
  | cons c cs ih =>
    rw [firstLiteral]
    cases hk : literalAt (c :: cs) with
    | some k => exact findLiteral_of_literalAt hk
    | none =>
      simp only [findLiteral_cons (literalAt_eq_none_iff.1 hk), ih, Option.map_map]
      congr 1
      funext x
      obtain ⟨before, k, rest⟩ := x
      simp only [Function.comp_apply, size_cons, Nat.add_comm]

/-! ### The end that could begin a literal -/

/-- Whether octets are the beginning of a literal, shorter than the literal. -/
def begins (bs : List UInt8) : Bool :=
  [Kind.dashboard, Kind.render].any fun k =>
    decide (bs.length < (octets k.literal).length) && bs.isPrefixOf (octets k.literal)

/-- The length of the longest end of at most so many octets that is the beginning of a literal. -/
def openWithin (bs : List UInt8) : Nat → Except Fault Nat
  | 0 => return 0
  | n + 1 => do
    let start ← difference bs.length (n + 1)
    if begins (bs.drop start) then return n + 1 else openWithin bs n

/-- The length of the longest end of a text that is the beginning of a literal. -/
def openLength (text : List Char) : Except Fault Nat := do
  let longest ← difference (max (size Kind.dashboard.literal) (size Kind.render.literal)) 1
  openWithin (octets text) (min longest (size text))

theorem ascii_of_mem_literal {k : Kind} {c : Char} (h : c ∈ k.literal) : c.toNat < 128 := by
  have hall : k.literal.all (fun c => decide (c.toNat < 128)) = true := by cases k <;> decide
  exact of_decide_eq_true (List.all_eq_true.1 hall c h)

theorem begins_iff {bs : List UInt8} :
    begins bs = true ↔ ∃ k : Kind, bs.length < size k.literal ∧ bs <+: octets k.literal := by
  simp only [begins, List.any_cons, List.any_nil, Bool.or_false, Bool.or_eq_true, Bool.and_eq_true,
    decide_eq_true_eq, List.isPrefixOf_iff_prefix]
  constructor
  · rintro (h | h)
    · exact ⟨.dashboard, h⟩
    · exact ⟨.render, h⟩
  · rintro ⟨k, h⟩
    cases k with
    | dashboard => exact .inl h
    | render => exact .inr h

theorem lt_of_mem_octets {l : List Char} (hl : ∀ c ∈ l, c.toNat < 128) {b : UInt8} (h : b ∈ octets l) :
    b.toNat < 128 := by
  obtain ⟨c, hc, hb⟩ := List.mem_flatMap.1 h
  rw [utf8EncodeChar_of_ascii (hl c hc), List.mem_singleton] at hb
  rw [hb, toNat_toUInt8 (hl c hc)]
  exact hl c hc

/-- Octets of ASCII at the end of a text are those of an end of it. -/
theorem exists_suffix_of_octets {text : List Char} {bs : List UInt8} (h : bs <:+ octets text)
    (ha : ∀ b ∈ bs, b.toNat < 128) : ∃ t, t <:+ text ∧ octets t = bs := by
  induction text with
  | nil => exact ⟨[], List.suffix_rfl, (List.suffix_nil.1 h).symm⟩
  | cons c cs ih =>
    rw [octets_cons] at h
    rcases List.suffix_or_suffix_of_suffix h (List.suffix_append _ (octets cs)) with hin | ⟨e, rfl⟩
    · obtain ⟨t, ht, hb⟩ := ih hin
      exact ⟨t, ht.trans (List.suffix_cons c cs), hb⟩
    · -- What is left of the first character is all of it, or nothing.
      have he : e <:+ String.utf8EncodeChar c := ((List.suffix_append_inj_of_length_eq rfl).1 h).1
      by_cases hc : c.toNat < 128
      · rw [utf8EncodeChar_of_ascii hc, List.suffix_cons_iff, List.suffix_nil] at he
        rcases he with rfl | rfl
        · exact ⟨c :: cs, List.suffix_rfl, octets_cons_of_ascii hc cs⟩
        · exact ⟨cs, List.suffix_cons c cs, rfl⟩
      · cases e with
        | nil => exact ⟨cs, List.suffix_cons c cs, rfl⟩
        | cons b e =>
          have hb := ha b (List.mem_append_left _ List.mem_cons_self)
          have := le_of_mem_utf8EncodeChar hc (he.subset List.mem_cons_self)
          omega

theorem isOpening_of_begins {t : List Char} (h : begins (octets t) = true) : isOpening t = true := by
  obtain ⟨k, hlt, hp⟩ := begins_iff.1 h
  obtain ⟨r, hr⟩ := prefix_of_octets hp
  refine isOpening_iff_exists_append.2 ⟨k, r, ?_, hr⟩
  rintro rfl
  rw [← hr, List.append_nil] at hlt
  exact Nat.lt_irrefl _ hlt

theorem begins_of_isOpening {t : List Char} (h : isOpening t = true) : begins (octets t) = true := by
  obtain ⟨k, r, hne, hr⟩ := isOpening_iff_exists_append.1 h
  have hpos := size_pos hne
  refine begins_iff.2 ⟨k, ?_, octets r, by rw [← octets_append, hr]⟩
  rw [← hr, size_append]
  show size t < _
  omega

/-- All of the longest literal but its last octet. -/
theorem size_le_of_isOpening {t : List Char} (h : isOpening t = true) : size t ≤ 10 := by
  obtain ⟨k, hlt, -⟩ := begins_iff.1 (begins_of_isOpening h)
  have hk : size k.literal ≤ 11 := by cases k <;> decide
  exact Nat.le_of_lt_succ (Nat.lt_of_lt_of_le hlt hk)

/-- The search goes down to the longest end that begins a literal. -/
theorem openWithin_eq {bs : List UInt8} {m n : Nat} (hmn : m ≤ n) (hn : n ≤ bs.length)
    (hm : begins (bs.drop (bs.length - m)) = true)
    (hmax : ∀ l, l ≤ n → begins (bs.drop (bs.length - l)) = true → l ≤ m) : openWithin bs n = .ok m := by
  induction n with
  | zero =>
    obtain rfl : m = 0 := Nat.le_zero.1 hmn
    rfl
  | succ n ih =>
    have hdiff : difference bs.length (n + 1) = .ok (bs.length - (n + 1)) := by rw [difference, if_pos hn]
    rw [openWithin, hdiff, ok_bind]
    split
    · rename_i hb
      have := hmax (n + 1) (Nat.le_refl _) hb
      obtain rfl : m = n + 1 := by omega
      rfl
    · rename_i hb
      have hne : m ≠ n + 1 := by
        rintro rfl
        exact hb hm
      exact ih (by omega) (by omega) fun l hl => hmax l (by omega)

/-- **The search from the end finds the open tail**, and never looks in front of the text. -/
theorem openLength_eq (text : List Char) : openLength text = .ok (size (openTail text)) := by
  obtain ⟨front, hfront⟩ := openTail_suffix text
  have hsize : size front + size (openTail text) = size text := by rw [← size_append, hfront]
  have hlongest := size_le_of_isOpening (isOpening_openTail text)
  have htail : (octets text).drop (size text - size (openTail text)) = octets (openTail text) := by
    have hfrom : size text - size (openTail text) = size front := by omega
    rw [hfrom]
    conv_lhs => rw [← hfront]
    exact drop_octets front (openTail text)
  have hmax : ∀ l, l ≤ min 10 (size text) → begins ((octets text).drop (size text - l)) = true →
      l ≤ size (openTail text) := by
    intro l hl hb
    obtain ⟨k, -, hp⟩ := begins_iff.1 hb
    have hascii : ∀ b ∈ (octets text).drop (size text - l), b.toNat < 128 := fun b hmem =>
      lt_of_mem_octets (fun c hc => ascii_of_mem_literal hc) (hp.subset hmem)
    obtain ⟨t, ht, ho⟩ := exists_suffix_of_octets (List.drop_suffix _ _) hascii
    obtain ⟨r, hr⟩ := suffix_openTail ht (isOpening_of_begins (ho ▸ hb))
    have hl' : size t = l := by
      have hlen := congrArg List.length ho
      rw [List.length_drop] at hlen
      show (octets t).length = l
      unfold size at hl hlen
      omega
    rw [← hr, size_append]
    omega
  have hdiff : difference (max (size Kind.dashboard.literal) (size Kind.render.literal)) 1 = .ok 10 := by decide
  rw [openLength, hdiff, ok_bind]
  exact openWithin_eq (Nat.le_min.2 ⟨hlongest, by omega⟩) (Nat.min_le_right _ _)
    (htail ▸ begins_of_isOpening (isOpening_openTail text)) hmax

end Marker

end TurnRelay
