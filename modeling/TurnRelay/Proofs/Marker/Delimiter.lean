import TurnRelay.Marker.Scan
import TurnRelay.Proofs.Json.Balance

/-!
# Delimiters of bodies

The two scans that look for the end of a body count open brackets and pass over strings, without
knowing what a value is. On a balanced text the count comes back to where it was; so the scan of an
object ends at the object's own brace, and the scan for a closing bracket passes over a whole value.

## The model

* `Passes f g w` — scanning with `f` reads `w` and goes on behind it as `g`.
* `Counts scan least` — what the two scans have in common, as long as at least so many brackets are
  open.

## What is proved

* `Counts.passes_balanced` — a scan that counts passes over every balanced text.
* `balancedLength_object`, `unnestedLength_balanced` — where the two scans end.
-/

namespace TurnRelay

namespace Marker

open Json

/-! ### Scans that count -/

/-- Scanning with `f` reads the text and goes on behind it as `g`. -/
def Passes (f g : List Char → Option Nat) (w : List Char) : Prop :=
  ∀ y, f (w ++ y) = (g y).map (· + w.length)

theorem Passes.nil (f : List Char → Option Nat) : Passes f f [] := by
  intro y
  simp

theorem Passes.append {f g h : List Char → Option Nat} {v w : List Char} (hv : Passes f g v)
    (hw : Passes g h w) : Passes f h (v ++ w) := by
  intro y
  rw [List.append_assoc, hv, hw, Option.map_map]
  congr 1
  funext n
  simp only [Function.comp_apply, List.length_append]
  omega

theorem Passes.cons {f g h : List Char → Option Nat} {c : Char} {w : List Char} (hc : Passes f g [c])
    (hw : Passes g h w) : Passes f h (c :: w) :=
  hc.append hw

/-- A scan that counts open brackets outside of strings; the count is right as long as at least
`least` of them are open. -/
structure Counts (scan : Place → Nat → List Char → Option Nat) (least : Nat) : Prop where
  /-- A quote begins a string. -/
  quote : ∀ d, Passes (scan .code d) (scan .text d) ['"']
  /-- In a string a character says where the scan stands. -/
  text : ∀ d c, Passes (scan .text d) (scan (.inside c) d) [c]
  /-- Behind a backslash every character belongs to the string. -/
  escape : ∀ d c, Passes (scan .escape d) (scan .text d) [c]
  /-- Characters that are no brackets do not count. -/
  inert : ∀ d c, IsInert c → Passes (scan .code d) (scan .code d) [c]
  /-- Braces cancel out. -/
  object : ∀ d, least ≤ d → ∃ d', least ≤ d' ∧ Passes (scan .code d) (scan .code d') ['{'] ∧
    Passes (scan .code d') (scan .code d) ['}']
  /-- Brackets cancel out. -/
  array : ∀ d, least ≤ d → ∃ d', least ≤ d' ∧ Passes (scan .code d) (scan .code d') ['['] ∧
    Passes (scan .code d') (scan .code d) [']']

theorem Counts.passes_quoted {scan : Place → Nat → List Char → Option Nat} {least : Nat}
    (hs : Counts scan least) {w : List Char} (hw : Quoted w) (d : Nat) :
    Passes (scan .text d) (scan .code d) w := by
  induction hw with
  | close => exact hs.text d '"'
  | @escape c w _ ih => exact (hs.text d '\\').cons ((hs.escape d c).cons ih)
  | @char c w hq hb _ ih =>
    have hc := hs.text d c
    rw [Place.inside, if_neg hb, if_neg hq] at hc
    exact hc.cons ih

/-- **A scan that counts passes over every balanced text.** -/
theorem Counts.passes_balanced {scan : Place → Nat → List Char → Option Nat} {least : Nat}
    (hs : Counts scan least) {w : List Char} (hw : Balanced w) {d : Nat} (hd : least ≤ d) :
    Passes (scan .code d) (scan .code d) w := by
  induction hw generalizing d with
  | nil => exact .nil _
  | inert hc => exact hs.inert d _ hc
  | string hq => exact (hs.quote d).cons (hs.passes_quoted hq d)
  | object _ ih =>
    obtain ⟨d', hd', ho, hc⟩ := hs.object d hd
    exact ho.cons ((ih hd').append hc)
  | array _ ih =>
    obtain ⟨d', hd', ho, hc⟩ := hs.array d hd
    exact ho.cons ((ih hd').append hc)
  | append _ _ ih ih' => exact (ih hd).append (ih' hd)

theorem not_special_of_inert {c : Char} (h : IsInert c) :
    c ≠ '"' ∧ c ≠ '{' ∧ c ≠ '}' ∧ c ≠ '[' ∧ c ≠ ']' := by
  simpa [IsInert] using h

/-! ### The scan of an object -/

theorem counts_balancedLength : Counts balancedLength 1 where
  quote := fun _ _ => rfl
  text := fun _ _ _ => rfl
  escape := fun _ _ _ => rfl
  inert := by
    intro d c hc y
    obtain ⟨hq, ho, hcl, -, -⟩ := not_special_of_inert hc
    simp [balancedLength, hq, ho, hcl]
  object := by
    intro d hd
    refine ⟨d + 1, by omega, fun _ => rfl, fun y => ?_⟩
    have hd' : ¬ d + 1 ≤ 1 := by omega
    simp [balancedLength, hd']
  array := fun d hd => ⟨d, hd, fun _ => rfl, fun _ => rfl⟩

/-- An object ends at the brace that balances its first one. -/
theorem balancedLength_object {w : List Char} (hw : Balanced w) :
    balancedLength .code 0 ('{' :: (w ++ ['}'])) = some (w.length + 2) := by
  have h : balancedLength .code 0 ('{' :: (w ++ ['}'])) =
    (balancedLength .code 1 (w ++ ['}'])).map (· + 1) := rfl
  rw [h, counts_balancedLength.passes_balanced hw (Nat.le_refl 1)]
  simp [balancedLength]
  omega

/-! ### The scan for a closing bracket -/

theorem counts_unnestedLength : Counts unnestedLength 0 where
  quote := fun _ _ => rfl
  text := fun _ _ _ => rfl
  escape := fun _ _ _ => rfl
  inert := by
    intro d c hc y
    obtain ⟨hq, ho, hcl, hao, hac⟩ := not_special_of_inert hc
    simp [unnestedLength, hq, ho, hcl, hao, hac]
  object := fun d _ => ⟨d + 1, Nat.zero_le _, fun _ => rfl, fun _ => rfl⟩
  array := by
    intro d _
    refine ⟨d + 1, Nat.zero_le _, fun _ => rfl, fun y => ?_⟩
    simp [unnestedLength]

/-- A balanced text ends at the first closing bracket that closes nothing. -/
theorem unnestedLength_balanced {w : List Char} (hw : Balanced w) (y : List Char) :
    unnestedLength .code 0 (w ++ ']' :: y) = some w.length := by
  rw [counts_unnestedLength.passes_balanced hw (Nat.le_refl 0)]
  simp [unnestedLength]

end Marker

end TurnRelay
