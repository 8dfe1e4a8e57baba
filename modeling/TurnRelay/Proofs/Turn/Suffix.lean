import TurnRelay.Proofs.Marker.Octets
import TurnRelay.Proofs.Turn.Transcript

/-!
# What a text adds, by offsets

What a text adds to the one before is found by the offset of the first character in which the two differ. The offset
is counted in the one text, and the other text is cut at it. That is no mistake, because up to there the two are the
same: characters that differ in their later octets only differ as characters, and so the cut never falls inside of one.

If neither text differs from the other as far as both go, one of them begins with the other, and the offset is the
length of the shorter one. A text that begins with the one before need not be compared in this way, and the answer is
the same.

## The model

* `firstDifference`, `partingOffset` — where two texts part.
* `cutBehind` — what is cut off there; `addition`, `additions` — what a text adds to the one before, and each of
  several.

## What is proved

* `exists_common` — what a text adds stands behind what it has in common with the one before.
* `cutBehind_eq`, `addition_eq` — both ways come to what a text adds, and no cut goes wrong.
* `additions_exact` — what is common is all that is, and texts of which each begins with the one before add up to the
  last.
-/

namespace TurnRelay.Turn

open Marker (Fault cutAt cutAt_append ok_bind size size_append size_cons)

/-! ### Where two texts part -/

/-- The characters of a text with their offsets, that of the first being `i`. -/
def placedFrom : (i : Nat) → List Char → List (Nat × Char)
  | _, [] => []
  | i, c :: cs => (i, c) :: placedFrom (i + c.utf8Size) cs

/-- The offset of the first character that differs from the one in its place in the other text. The offset of the
first character is `i`. -/
def firstDifference (i : Nat) (previous current : List Char) : Option Nat :=
  (((placedFrom i previous).zip current).find? fun x => decide (x.1.2 ≠ x.2)).map fun x => x.1.1

/-- The offset at which two texts part. -/
def partingOffset (previous current : List Char) : Nat :=
  (firstDifference 0 previous current).getD (min (size previous) (size current))

/-- What stands in a text behind the offset at which it parts from the one before. -/
def cutBehind (previous current : List Char) : Except Fault (List Char) := do
  let parts ← cutAt current (partingOffset previous current)
  return parts.2

/-- What a text adds to the one before. -/
def addition (previous current : List Char) : Except Fault (List Char) :=
  match previous.isPrefixOf? current with
  | some rest => return rest
  | none => cutBehind previous current

/-- What each text adds to the one before it, the first to `previous`. -/
def additions (previous : List Char) : List (List Char) → Except Fault (List (List Char))
  | [] => return []
  | t :: ts => do
    let first ← addition previous t
    let later ← additions t ts
    return first :: later

/-! ### What is common -/

/-- The two texts do not begin with the same character. -/
def Apart (a b : List Char) : Prop := ∀ c, c ∈ a.head? → c ∉ b.head?

/-- **What a text adds stands behind what it has in common with the one before.** -/
theorem exists_common (previous current : List Char) :
    ∃ common left, previous = common ++ left ∧ current = common ++ suffixBehind previous current ∧
      Apart left (suffixBehind previous current) := by
  fun_induction suffixBehind previous current with
  | case1 ps c cs ih =>
    obtain ⟨common, left, hprevious, hcurrent, hapart⟩ := ih
    refine ⟨c :: common, left, ?_, ?_, hapart⟩
    · rw [List.cons_append, ← hprevious]
    · rw [List.cons_append, ← hcurrent]
  | case2 p ps c cs hne =>
    refine ⟨[], p :: ps, rfl, rfl, ?_⟩
    intro d hd hd'
    rw [List.head?_cons, Option.mem_some_iff] at hd hd'
    exact hne (hd.trans hd'.symm)
  | case3 previous current h =>
    refine ⟨[], previous, rfl, rfl, ?_⟩
    intro c hc hc'
    obtain ⟨ps, rfl⟩ := List.head?_eq_some_iff.1 hc
    obtain ⟨cs, rfl⟩ := List.head?_eq_some_iff.1 hc'
    exact h c ps c cs rfl rfl

theorem prefix_of_apart {common left right p : List Char} (h : Apart left right) (hl : p <+: common ++ left)
    (hr : p <+: common ++ right) : p <+: common := by
  rcases List.prefix_or_prefix_of_prefix hl (List.prefix_append common left) with hp | ⟨more, rfl⟩
  · exact hp
  · rw [List.prefix_append_right_inj] at hl hr
    cases more with
    | nil => rw [List.append_nil]
    | cons c more =>
      obtain ⟨l, rfl⟩ := hl
      obtain ⟨r, rfl⟩ := hr
      exact absurd rfl (h c rfl)

/-! ### Cutting -/

/-- The search passes over what is common, and counts it in the offset. -/
theorem firstDifference_common (i : Nat) (common left right : List Char) :
    firstDifference i (common ++ left) (common ++ right) = firstDifference (i + size common) left right := by
  induction common generalizing i with
  | nil => rfl
  | cons c common ih =>
    have hstep : firstDifference i (c :: common ++ left) (c :: common ++ right) =
        firstDifference (i + c.utf8Size) (common ++ left) (common ++ right) := by
      simp [firstDifference, placedFrom]
    rw [hstep, ih, size_cons, Nat.add_assoc]

theorem partingOffset_common {common left right : List Char} (h : Apart left right) :
    partingOffset (common ++ left) (common ++ right) = size common := by
  rw [partingOffset, firstDifference_common, size_append, size_append]
  -- A difference is found only where both texts go on; otherwise the shorter text is what is common.
  cases left with
  | nil => simp [firstDifference, placedFrom]
  | cons a left =>
    cases right with
    | nil => simp [firstDifference, placedFrom]
    | cons b right =>
      have hne : a ≠ b := by
        rintro rfl
        exact h a rfl rfl
      simp [firstDifference, placedFrom, hne]

/-- **The cut never goes wrong**, and what stands behind it is what a text adds. -/
theorem cutBehind_eq (previous current : List Char) :
    cutBehind previous current = .ok (suffixBehind previous current) := by
  obtain ⟨common, left, hprevious, hcurrent, hapart⟩ := exists_common previous current
  generalize suffixBehind previous current = right at hcurrent hapart
  subst hprevious hcurrent
  rw [cutBehind, partingOffset_common hapart, cutAt_append, ok_bind]
  rfl

/-- Two characters that differ in their last octet only are told apart as a whole. -/
example : cutBehind "café".toList "cafès".toList = .ok "ès".toList := by decide

theorem suffixBehind_append (previous added : List Char) : suffixBehind previous (previous ++ added) = added :=
  List.append_cancel_left (append_suffixBehind (List.prefix_append previous added))

/-- A text that begins with the one before is cut as any other. -/
theorem addition_eq (previous current : List Char) :
    addition previous current = .ok (suffixBehind previous current) := by
  unfold addition
  split
  · rename_i rest hrest
    rw [← List.isPrefixOf?_eq_some_iff_append_eq.1 hrest, suffixBehind_append]
    rfl
  · exact cutBehind_eq previous current

theorem additions_eq (previous : List Char) (texts : List (List Char)) :
    additions previous texts = .ok (suffixes previous texts) := by
  induction texts generalizing previous with
  | nil => rfl
  | cons t texts ih =>
    rw [additions, addition_eq, ok_bind, ih, ok_bind]
    rfl

/-- **What a text adds is all that is not common.**

Of every two texts there is a longest common beginning, and what the second adds is the second without it. The offset
at which it is cut is the length of that beginning, so that no character is cut in two, and the way past the comparison
comes to the same. Of texts of which each begins with the one before, each adds something by offsets, and together they
add up to the last. -/
theorem additions_exact :
    (∀ previous current : List Char, ∃ common,
      current = common ++ suffixBehind previous current ∧ common <+: previous ∧
      (∀ p, p <+: previous → p <+: current → p <+: common) ∧
      partingOffset previous current = size common ∧
      cutBehind previous current = .ok (suffixBehind previous current) ∧
      addition previous current = .ok (suffixBehind previous current)) ∧
    ∀ texts : List (List Char), texts.IsChain (· <+: ·) →
      additions [] texts = .ok (suffixes [] texts) ∧ (suffixes [] texts).flatten = lastText texts := by
  constructor
  · intro previous current
    obtain ⟨common, left, hprevious, hcurrent, hapart⟩ := exists_common previous current
    have hoffset : partingOffset previous current = size common := by
      conv_lhs => rw [hprevious, hcurrent]
      exact partingOffset_common hapart
    refine ⟨common, hcurrent, ⟨left, hprevious.symm⟩, ?_, hoffset, cutBehind_eq previous current,
      addition_eq previous current⟩
    intro p hp hc
    rw [hprevious] at hp
    rw [hcurrent] at hc
    exact prefix_of_apart hapart hp hc
  · intro texts hchain
    exact ⟨additions_eq [] texts, heardText_of_isChain hchain⟩

theorem additions_exact_naive :
    ["naï".toList, "naïve".toList, "naïve".toList, "naïvety".toList].IsChain (· <+: ·) ∧
    additions [] ["naï".toList, "naïve".toList, "naïve".toList, "naïvety".toList] =
      .ok ["naï".toList, "ve".toList, [], "ty".toList] ∧
    ["naï".toList, "ve".toList, [], "ty".toList].flatten = "naïvety".toList := by
  have hchain : ["naï".toList, "naïve".toList, "naïve".toList, "naïvety".toList].IsChain (· <+: ·) := by decide
  obtain ⟨hadditions, hlast⟩ := additions_exact.2 _ hchain
  exact ⟨hchain, hadditions, hlast⟩

end TurnRelay.Turn
