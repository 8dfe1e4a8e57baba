import TurnRelay.Marker.Scan

/-!
# Sieving markers out of a text

A text that arrives in chunks is separated into plain text and markers. What may still become a
marker is withheld until more text tells: from the first literal whose marker is incomplete, or else
the end of the text that could begin a literal. When no more text is to come, an unfinished marker's
literal is released as plain text and what follows it is sieved again.

## Main definitions

* `Extraction`: plain text and markers.
* `Sieve`: the withheld text; `Sieve.push`, `Sieve.flush`.
* `Extraction.ofText`: a whole text.
-/

namespace TurnRelay

open Marker

/-- Plain text without its markers, and the markers in order. -/
structure Extraction where
  /-- The plain text. -/
  text : List Char
  /-- The markers. -/
  markers : List Marker
  deriving DecidableEq, Repr, Inhabited

namespace Extraction

/-- No text and no markers. -/
def empty : Extraction := ⟨[], []⟩

/-- Whether there is neither text nor marker. -/
def isEmpty (e : Extraction) : Bool := e.text.isEmpty && e.markers.isEmpty

/-- One extraction behind another. -/
def append (a b : Extraction) : Extraction := ⟨a.text ++ b.text, a.markers ++ b.markers⟩

instance : Append Extraction := ⟨append⟩

/-- Plain text alone. -/
def ofPlain (text : List Char) : Extraction := ⟨text, []⟩

/-- A marker alone. -/
def ofMarker (m : Marker) : Extraction := ⟨[], [m]⟩

end Extraction

namespace Marker

/-! ### Progress -/

theorem length_firstLiteral {text before rest : List Char} {kind : Kind}
    (h : firstLiteral text = some (before, kind, rest)) :
    before.length + rest.length = text.length ∧ kind.literal <+: rest := by
  induction text generalizing before with
  | nil => simp [firstLiteral] at h
  | cons c cs ih =>
    simp only [firstLiteral] at h
    split at h
    · rename_i k hk
      simp only [Option.some.injEq, Prod.mk.injEq] at h
      obtain ⟨rfl, rfl, rfl⟩ := h
      refine ⟨by simp, ?_⟩
      simp only [literalAt] at hk
      split at hk
      · rename_i hp
        cases hk
        exact List.isPrefixOf_iff_prefix.1 hp
      · split at hk
        · rename_i hp
          cases hk
          exact List.isPrefixOf_iff_prefix.1 hp
        · cases hk
    · simp only [Option.map_eq_some_iff] at h
      obtain ⟨⟨b, k, r⟩, hf, he⟩ := h
      simp only [Prod.mk.injEq] at he
      obtain ⟨rfl, rfl, rfl⟩ := he
      have := ih hf
      simp only [List.length_cons]
      exact ⟨by omega, this.2⟩

/-- The number of characters that a verdict settles. -/
def Verdict.settled : Verdict → Option Nat
  | .incomplete => none
  | .complete _ n => some n
  | .malformed n => some n

theorem settled_settle (m : Option Marker) (n : Nat) : (settle m n).settled = some n := by
  cases m <;> rfl

theorem settled_examineObject {parse : List Char → Option Marker} {start n : Nat}
    {body : List Char} (h : (examineObject parse start body).settled = some n) : start ≤ n := by
  unfold examineObject at h
  split at h
  · simp [Verdict.settled] at h
  · split at h
    · simp [Verdict.settled] at h
    · split at h
      · rw [settled_settle, Option.some.injEq] at h
        omega
      · simp only [Verdict.settled, Option.some.injEq] at h
        omega

theorem settled_examineDashboard {start n : Nat} {body : List Char}
    (h : (examineDashboard start body).settled = some n) : start ≤ n := by
  unfold examineDashboard at h
  split at h
  · simp [Verdict.settled] at h
  · split at h
    · exact settled_examineObject h
    · simp only [Verdict.settled, Option.some.injEq] at h
      omega

theorem settled_examineProps {component : List Char} {start n : Nat} {body : List Char}
    (h : (examineProps component start body).settled = some n) : start ≤ n := by
  unfold examineProps at h
  split at h
  · simp [Verdict.settled] at h
  · split at h
    · exact settled_examineObject h
    · split at h
      · simp [Verdict.settled] at h
      · rw [settled_settle, Option.some.injEq] at h
        omega

theorem settled_examineRender {start n : Nat} {name body : List Char}
    (h : (examineRender start name body).settled = some n) : start ≤ n := by
  induction body generalizing start name with
  | nil => simp [examineRender, Verdict.settled] at h
  | cons c cs ih =>
    unfold examineRender at h
    split at h
    · split at h
      · simp only [Verdict.settled, Option.some.injEq] at h
        omega
      · have := settled_examineProps h
        omega
    · split at h
      · simp only [Verdict.settled, Option.some.injEq] at h
        omega
      · have := ih h
        omega

/-- What is settled is never shorter than the literal. -/
theorem settled_examine {kind : Kind} {text : List Char} {n : Nat}
    (h : (examine kind text).settled = some n) : kind.literal.length ≤ n := by
  cases kind
  · exact settled_examineDashboard h
  · exact settled_examineRender h

theorem literal_pos (kind : Kind) : 0 < kind.literal.length := by
  cases kind <;> decide

end Marker

/-- Separates a text as far as it is settled; gives also what is withheld. -/
def sift (text : List Char) : Extraction × List Char :=
  match _hf : firstLiteral text with
  | none =>
    let tail := openTail text
    (.ofPlain (text.take (text.length - tail.length)), tail)
  | some (before, kind, rest) =>
    match _hv : examine kind rest with
    | .incomplete => (.ofPlain before, rest)
    | .complete m n =>
      let later := sift (rest.drop n)
      (.ofPlain before ++ .ofMarker m ++ later.1, later.2)
    | .malformed n =>
      let later := sift (rest.drop n)
      (.ofPlain (before ++ rest.take n) ++ later.1, later.2)
termination_by text.length
decreasing_by
  all_goals
    have hl := length_firstLiteral _hf
    have hn : kind.literal.length ≤ n := settled_examine (by rw [_hv]; rfl)
    have hp := literal_pos kind
    have := hl.2.length_le
    simp only [List.length_drop]
    omega

/-- The text that may still become a marker. -/
structure Sieve where
  /-- The withheld characters. -/
  withheld : List Char
  deriving DecidableEq, Repr, Inhabited

namespace Sieve

/-- Nothing withheld. -/
def empty : Sieve := ⟨[]⟩

/-- Takes the next chunk of text. -/
def push (s : Sieve) (chunk : List Char) : Extraction × Sieve :=
  let (e, rest) := sift (s.withheld ++ chunk)
  (e, ⟨rest⟩)

theorem length_openTail_le (text : List Char) : (openTail text).length ≤ text.length := by
  induction text with
  | nil => simp [openTail]
  | cons c cs ih =>
    unfold openTail
    split
    · exact Nat.le_refl _
    · simp only [List.length_cons]
      omega

theorem length_sift_le (text : List Char) : (sift text).2.length ≤ text.length := by
  fun_induction sift text with
  | case1 text hf tail => exact length_openTail_le text
  | case2 text before kind rest hf hv =>
    have := (length_firstLiteral hf).1
    simp only
    omega
  | case3 text before kind rest hf m n hv later ih =>
    have := (length_firstLiteral hf).1
    simp only [List.length_drop, later] at ih ⊢
    omega
  | case4 text before kind rest hf n hv later ih =>
    have := (length_firstLiteral hf).1
    simp only [List.length_drop, later] at ih ⊢
    omega

/-- How many characters of an unfinished end are released at once: the literal it begins with, or all
of it. -/
def releaseLength (text : List Char) : Nat :=
  match literalAt text with
  | some kind => kind.literal.length
  | none => text.length

/-- Settles an end to which nothing is added any more. -/
def release (text : List Char) : Extraction :=
  if _h : text = [] then .empty
  else
    let later := sift (text.drop (releaseLength text))
    .ofPlain (text.take (releaseLength text)) ++ later.1 ++ release later.2
termination_by text.length
decreasing_by
  have hs := length_sift_le (text.drop (releaseLength text))
  have hpos : 0 < releaseLength text := by
    unfold releaseLength
    split
    · exact literal_pos _
    · exact List.length_pos_iff.2 _h
  have : 0 < text.length := List.length_pos_iff.2 _h
  simp only [List.length_drop] at hs
  omega

/-- Settles everything withheld; no more text is to come. -/
def flush (s : Sieve) : Extraction × Sieve :=
  let (e, rest) := sift s.withheld
  (e ++ release rest, .empty)

end Sieve

/-- The plain text and the markers of a whole text. -/
def Extraction.ofText (text : List Char) : Extraction :=
  let (first, s) := Sieve.empty.push text
  first ++ s.flush.1

end TurnRelay
