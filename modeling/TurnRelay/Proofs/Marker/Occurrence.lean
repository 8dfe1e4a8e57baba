import TurnRelay.Proofs.Marker.Chunks
import TurnRelay.Proofs.Marker.Offsets

/-!
# Where a literal can still begin

What a text without literals may become depends on its end alone. A literal that begins in it and is completed by what
follows begins no earlier than the open tail, and one can begin exactly there. So the sieve gives out all the text in
which no literal can begin any more, and no more than that.

A literal is looked for among the octets of a text. It cannot begin inside of a character, since all octets of a
character above ASCII lie above its bracket.

## The model

* `StartsAt k text i` — the literal of a kind starts at an offset of the text.

## What is proved

* `startsAt_iff` — then it stands there character by character, with whole characters in front.
* `Settled.le_of_startsAt` — no literal starts in a settled piece.
* `withheld_exact` — of a text without literals, the sieve withholds what begins at the least offset at which a
  literal can start, whatever follows.
-/

namespace TurnRelay

namespace Marker

open Extraction

/-! ### Occurrences -/

/-- The literal of the kind starts at the offset among the octets of the text. -/
def StartsAt (k : Kind) (text : List Char) (i : Nat) : Prop := octets k.literal <+: (octets text).drop i

/-- Inside of a character no literal starts. -/
theorem not_startsAt_inside {k : Kind} {c : Char} {cs : List Char} {i : Nat} (hpos : 0 < i) (hi : i < c.utf8Size) :
    ¬ StartsAt k (c :: cs) i := by
  intro h
  have hc : ¬ c.toNat < 128 := by
    intro hc
    rw [utf8Size_of_ascii hc] at hi
    omega
  rw [← String.length_utf8EncodeChar] at hi
  rw [StartsAt, octets_cons, List.drop_append_of_le_length hi.le, List.drop_eq_getElem_cons hi, literal_eq_cons,
    octets_cons_of_ascii (by decide), List.cons_append, List.cons_prefix_cons] at h
  exact ne_toUInt8_of_le (le_of_mem_utf8EncodeChar hc (List.getElem_mem hi)) (by decide) h.1.symm

/-- **Where a literal starts, it stands character by character**, with whole characters in front of it. -/
theorem startsAt_iff {k : Kind} {text : List Char} {i : Nat} :
    StartsAt k text i ↔ ∃ before rest, text = before ++ rest ∧ k.literal <+: rest ∧ size before = i := by
  constructor
  · intro h
    -- From character to character up to the offset, which may stop in front of one but not inside.
    induction text generalizing i with
    | nil =>
      rw [StartsAt, octets_nil, List.drop_nil, List.prefix_nil, literal_eq_cons, octets_cons_of_ascii (by decide)] at h
      cases h
    | cons c cs ih =>
      by_cases hzero : i = 0
      · subst hzero
        exact ⟨[], c :: cs, rfl, prefix_of_octets h, rfl⟩
      · by_cases hi : i < c.utf8Size
        · exact absurd h (not_startsAt_inside (Nat.pos_of_ne_zero hzero) hi)
        · have hcs : StartsAt k cs (i - c.utf8Size) := by
            rw [StartsAt, octets_cons, List.drop_append, String.length_utf8EncodeChar, List.drop_eq_nil_of_le] at h
            · exact h
            · rw [String.length_utf8EncodeChar]
              omega
          obtain ⟨before, rest, rfl, hrest, hsize⟩ := ih hcs
          refine ⟨c :: before, rest, rfl, hrest, ?_⟩
          rw [size_cons]
          omega
  · rintro ⟨before, rest, rfl, ⟨more, rfl⟩, rfl⟩
    rw [StartsAt, drop_octets, octets_append]
    exact List.prefix_append _ _

/-! ### Settled pieces -/

theorem Settled.right {p q z : List Char} (h : Settled (p ++ q) z) : Settled q z := by
  induction p with
  | nil => exact h
  | cons c p ih => exact ih h.2.2

/-- No literal starts in a settled piece. -/
theorem Settled.le_of_startsAt {p z : List Char} {k : Kind} {i : Nat} (h : Settled p z)
    (hi : StartsAt k (p ++ z) i) : size p ≤ i := by
  obtain ⟨before, rest, htext, hrest, rfl⟩ := startsAt_iff.1 hi
  rcases List.append_eq_append_iff.1 htext with ⟨inside, rfl, rfl⟩ | ⟨inside, rfl, rfl⟩
  · rw [size_append]
    omega
  · -- If the literal started at a character of the piece, that one would not be settled.
    cases inside with
    | nil => rw [List.append_nil]
    | cons c inside =>
      obtain ⟨hnone, -, -⟩ := h.right
      rw [List.cons_append, ← literalAt_eq_some_iff, hnone] at hrest
      cases hrest

/-! ### The withheld end -/

theorem sift_append_openTail {given withheld : List Char} (h : firstLiteral (given ++ withheld) = none)
    (htail : openTail (given ++ withheld) = withheld) : sift (given ++ withheld) = (.ofPlain given, withheld) := by
  rw [sift_of_none h, htail, List.length_append, Nat.add_sub_cancel, List.take_left]

/-- **The withheld end is exact.** Of a text in which no literal stands, the sieve gives out the beginning and withholds
the end whose length is found from behind. Whatever follows the text, every literal starts at the withheld end or
later; and something can follow that completes a literal which starts exactly there. -/
theorem withheld_exact {text : List Char} (h : IsPlain text) :
    ∃ n given withheld, openLength text = .ok n ∧ n ≤ size text ∧
      sift text = (.ofPlain given, withheld) ∧ given ++ withheld = text ∧ size withheld = n ∧
      (∀ more k i, StartsAt k (text ++ more) i → size text - n ≤ i) ∧
      ∃ more k, more ≠ [] ∧ text ++ more = given ++ k.literal ∧ StartsAt k (text ++ more) (size text - n) := by
  have hnone := firstLiteral_eq_none_iff.2 h
  have hlength := openLength_eq text
  obtain ⟨k, more, hne, hliteral⟩ := isOpening_iff_exists_append.1 (isOpening_openTail text)
  obtain ⟨given, htext, hsettled⟩ := settled_openTail hnone
  generalize htail : openTail text = withheld at hlength hliteral htext hsettled
  subst htext
  have hgiven : size (given ++ withheld) - size withheld = size given := by rw [size_append, Nat.add_sub_cancel]
  have hwhole : given ++ withheld ++ more = given ++ k.literal := by rw [List.append_assoc, hliteral]
  refine ⟨size withheld, given, withheld, hlength, ?_, sift_append_openTail hnone htail, rfl, rfl, ?_,
    more, k, hne, hwhole, ?_⟩
  · rw [size_append]
    omega
  · intro more k i hi
    rw [List.append_assoc] at hi
    rw [hgiven]
    exact (hsettled.append more).le_of_startsAt hi
  · rw [hgiven, hwhole]
    exact startsAt_iff.2 ⟨given, k.literal, rfl, List.prefix_rfl, rfl⟩

/-- Of two brackets, the first cannot begin a literal any more. -/
theorem withheld_exact_brackets :
    IsPlain "naïve [R[DA".toList ∧ openLength "naïve [R[DA".toList = .ok 3 ∧
    (∀ more k i, StartsAt k ("naïve [R[DA".toList ++ more) i → 9 ≤ i) ∧
    ∃ more k, more ≠ [] ∧ StartsAt k ("naïve [R[DA".toList ++ more) 9 := by
  have hplain : IsPlain "naïve [R[DA".toList := by decide +kernel
  have hlength : openLength "naïve [R[DA".toList = .ok 3 := by decide +kernel
  have hsize : size "naïve [R[DA".toList = 12 := by decide +kernel
  obtain ⟨n, given, withheld, hn, -, -, -, -, hall, more, k, hne, -, hstarts⟩ := withheld_exact hplain
  obtain rfl : n = 3 := by
    rw [hlength, Except.ok.injEq] at hn
    exact hn.symm
  rw [hsize] at hall hstarts
  exact ⟨hplain, hlength, hall, more, k, hne, hstarts⟩

end Marker

end TurnRelay
