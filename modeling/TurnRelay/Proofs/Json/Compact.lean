import TurnRelay.Proofs.Json.Members
import TurnRelay.Proofs.Json.Outline

/-!
# The compact form is one line

The compact form of a value goes into texts whose lines mean something, such as a stream of events. Whatever the value
is, and whatever is in its strings, nothing in its compact form ends a line: control characters are escaped in strings
and in names, and nothing else that is written is one.

## The model

* `Json.Visible` — a text without control characters.

## What is proved

* `visible_chars` — the compact form of every value is such a text.
* `parse?_chars` — it is read as the value, if this is in normal form with integers only and not nested too deep.
-/

namespace TurnRelay

namespace Json

/-- A text without characters below `U+0020`. -/
def Visible (cs : List Char) : Prop := ∀ c ∈ cs, 32 ≤ c.toNat

@[simp] theorem visible_nil : Visible [] := fun _ h => absurd h List.not_mem_nil

@[simp] theorem visible_cons {c : Char} {cs : List Char} : Visible (c :: cs) ↔ 32 ≤ c.toNat ∧ Visible cs :=
  List.forall_mem_cons

@[simp] theorem visible_append {cs ds : List Char} : Visible (cs ++ ds) ↔ Visible cs ∧ Visible ds :=
  List.forall_mem_append

/-- Its characters end no line. -/
theorem Visible.ne_of_mem {cs : List Char} {c : Char} (h : Visible cs) (hc : c ∈ cs) : c ≠ '\n' ∧ c ≠ '\r' := by
  have hle := h c hc
  constructor <;> rintro rfl <;> exact absurd hle (by decide)

/-! ### Numbers -/

theorem visible_of_isDigit {cs : List Char} (h : ∀ c ∈ cs, IsDigit c) : Visible cs := by
  intro c hc
  have hlow : ('0' : Char).toNat ≤ c.toNat := (h c hc).1
  exact Nat.le_trans (by decide) hlow

theorem visible_digitsOf (n : Nat) : Visible (digitsOf n) := visible_of_isDigit (isDigit_of_mem_digitsOf n)

theorem visible_integerChars (i : Int) : Visible (integerChars i) := by
  unfold integerChars
  split
  · exact visible_cons.2 ⟨by decide, visible_digitsOf _⟩
  · exact visible_digitsOf _

theorem visible_replicate_zero (n : Nat) : Visible (List.replicate n '0') := fun c hc => by
  rw [List.eq_of_mem_replicate hc]
  decide

theorem visible_positional (d : Decimal) : Visible d.positional := by
  have hdigits := visible_digitsOf d.digits
  have hpoint : 32 ≤ ('.' : Char).toNat ∧ 32 ≤ ('0' : Char).toNat := by decide
  unfold Decimal.positional
  dsimp only
  split
  · simp only [visible_append, visible_cons, visible_nil, and_true]
    exact ⟨⟨hdigits, visible_replicate_zero _⟩, hpoint⟩
  · split
    · simp only [visible_append, visible_cons]
      exact ⟨fun c hc => hdigits c (List.mem_of_mem_take hc), hpoint.1, fun c hc => hdigits c (List.mem_of_mem_drop hc)⟩
    · simp only [visible_append, visible_cons]
      exact ⟨hpoint.2, hpoint.1, visible_replicate_zero _, hdigits⟩

theorem visible_scientific (d : Decimal) : Visible d.scientific := by
  have hdigits := visible_digitsOf d.digits
  have hpower := visible_integerChars (d.exponent + (digitsOf d.digits).length - 1)
  have hletter : 32 ≤ ('e' : Char).toNat ∧ 32 ≤ ('.' : Char).toNat := by decide
  unfold Decimal.scientific
  dsimp only
  generalize digitsOf d.digits = ds at hdigits hpower
  split
  · exact visible_cons.2 ⟨hletter.1, hpower⟩
  · simp only [visible_cons] at hdigits ⊢
    exact ⟨hdigits.1, hletter.1, hpower⟩
  · simp only [visible_append, visible_cons] at hdigits ⊢
    exact ⟨hdigits.1, hletter.2, hdigits.2, hletter.1, hpower⟩

theorem Number.visible_chars (n : Number) : Visible n.chars := by
  cases n with
  | integer i => exact visible_integerChars i
  | float x =>
    simp only [Number.chars, Number.floatChars, Binary64.signChars, visible_append]
    constructor
    · split
      · exact visible_cons.2 ⟨by decide, visible_nil⟩
      · exact visible_nil
    · split
      · exact visible_positional _
      · exact visible_scientific _

/-! ### Strings -/

theorem visible_hexChar : ∀ n < 16, 32 ≤ (hexChar n).toNat := by decide

/-- A character that is escaped is a control character no longer. -/
theorem visible_charEscape (c : Char) : Visible (charEscape c) := by
  have hpair : ∀ d : Char, 32 ≤ d.toNat → Visible ['\\', d] := fun d hd =>
    visible_cons.2 ⟨by decide, visible_cons.2 ⟨hd, visible_nil⟩⟩
  by_cases hlow : c.toNat < 32
  · have hword : Visible ['\\', 'u', '0', '0', hexChar (c.toNat / 16), hexChar (c.toNat % 16)] := by
      have hhigh := visible_hexChar (c.toNat / 16) (by omega)
      have hrest := visible_hexChar (c.toNat % 16) (by omega)
      simp [hhigh, hrest]
    unfold charEscape
    split_ifs <;> first | exact hword | exact hpair _ (by decide)
  · have hself : Visible [c] := visible_cons.2 ⟨Nat.le_of_not_lt hlow, visible_nil⟩
    unfold charEscape
    split_ifs <;> first | exact hself | exact hpair _ (by decide)

theorem visible_stringChars (s : List Char) : Visible (stringChars s) := by
  have hquote : 32 ≤ ('"' : Char).toNat := by decide
  simp only [stringChars, visible_cons, visible_append]
  refine ⟨hquote, fun c hc => ?_, hquote, visible_nil⟩
  obtain ⟨d, -, hd⟩ := List.mem_flatMap.1 hc
  exact visible_charEscape d c hd

/-! ### Values -/

mutual

/-- **No control character stands in the compact form of a value.** -/
theorem visible_chars : ∀ v : Json, Visible v.chars
  | .null => by simp [chars]
  | .bool true => by simp [chars]
  | .bool false => by simp [chars]
  | .number n => n.visible_chars
  | .string s => visible_stringChars s.toList
  | .array items => visible_cons.2 ⟨by decide, visible_itemsChars items⟩
  | .object members => visible_cons.2 ⟨by decide, visible_membersChars members⟩

theorem visible_itemsChars : ∀ vs : List Json, Visible (itemsChars vs)
  | [] => by simp [itemsChars]
  | [v] => by simp [itemsChars, visible_chars v]
  | v :: w :: vs => by simp [itemsChars, visible_chars v, visible_itemsChars (w :: vs)]

theorem visible_membersChars : ∀ ms : List (String × Json), Visible (membersChars ms)
  | [] => by simp [membersChars]
  | [(k, v)] => by simp [membersChars, visible_stringChars, visible_chars v]
  | (k, v) :: m :: ms => by
    simp [membersChars, visible_stringChars, visible_chars v, visible_membersChars (m :: ms)]

end

/-- **The compact form of a value is read as the value**, if it is in normal form, its numbers are integers of 64 bits
and it is not nested too deep. -/
theorem parse?_chars {v : Json} (hn : v.normalize = v) (hi : v.isIntegral = true) (hd : v.depth ≤ maxDepth) :
    parse? v.chars = some v := by
  rw [parse?, parseRaw_chars hi hd, Option.map_some, hn]

end Json

end TurnRelay
