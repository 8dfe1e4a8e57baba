import TurnRelay.Proofs.Marker.Offsets
import TurnRelay.Proofs.Marker.Chunks

/-!
# Sieving by offsets

The sieve as it works on the octets of its text. A cursor goes through the text in rounds: to the next literal, and
behind what its examination settles. What is left behind the cursor in the end is withheld. To give all out, the
literal in front of what is withheld is released, and the rest is gone through again, until nothing is left.

A round cuts the text at offsets that it got from searches and examinations, and a loop may go on for ever. Neither
happens to go wrong, whatever the text: that the loops are functions here costs a check in each that the round got on,
and like every other check it never fails.

## The model

* `Pass`, `Round`, `round` — where a cursor stands, and what a round leads to.
* `extract` — the rounds of a text; what comes out, and what is withheld.
* `releaseRound`, `flush` — giving out what is withheld.

## What is proved

* `extract_eq`, `flush_eq` — both come to what `Sieve` comes to.
* `sieve_total` — no offset is out of place, no count underflows and no loop goes on for ever.
-/

namespace TurnRelay

namespace Marker

open Extraction

/-! ### Rounds -/

/-- How far a text is settled, and what came out of it. -/
structure Pass where
  /-- The offset of what is not settled. -/
  cursor : Nat
  /-- What came out. -/
  out : Extraction
  deriving DecidableEq, Repr

/-- What a round leads to. -/
inductive Round where
  /-- Another round. -/
  | again (p : Pass)
  /-- The end. -/
  | last (p : Pass)
  deriving DecidableEq, Repr

/-- What a verdict on the literal at an offset leads to. A span of plain text is not shorter than the literal. -/
def conclude (text : List Char) (k : Kind) (p : Pass) : Verdict → Except Fault Round
  | .incomplete => return .last p
  | .complete m n => return .again ⟨p.cursor + n, p.out ++ ofMarker m⟩
  | .malformed n =>
    if n < size k.literal then throw .shortSpan
    else do
      let span ← slice text p.cursor (p.cursor + n)
      return .again ⟨p.cursor + n, p.out ++ ofPlain span⟩

/-- A round: up to the next literal, and behind what is settled there. -/
def round (text : List Char) (p : Pass) : Except Fault Round := do
  let (_, rest) ← cutAt text p.cursor
  match findLiteral rest with
  | none =>
    let withheld ← openLength rest
    let settled ← difference (size rest) withheld
    let (plain, _) ← cutAt rest settled
    return .last ⟨p.cursor + settled, p.out ++ ofPlain plain⟩
  | some (offset, k) =>
    let (plain, _) ← cutAt rest offset
    let (_, candidate) ← cutAt text (p.cursor + offset)
    let verdict ← scan k candidate
    conclude text k ⟨p.cursor + offset, p.out ++ ofPlain plain⟩ verdict

/-- Rounds to the last one. -/
def extractFrom (text : List Char) (p : Pass) : Except Fault Pass :=
  match round text p with
  | .error f => .error f
  | .ok (.last p') => .ok p'
  | .ok (.again p') =>
    if _h : p.cursor < p'.cursor ∧ p'.cursor ≤ size text then extractFrom text p' else .error .stuck
termination_by size text - p.cursor
decreasing_by omega

/-- What comes out of a text, and what is withheld. -/
def extract (text : List Char) : Except Fault (Extraction × List Char) := do
  let p ← extractFrom text ⟨0, .empty⟩
  let (_, withheld) ← cutAt text p.cursor
  return (p.out, withheld)

/-! ### A round -/

/-- Without a literal, the round is the last one, and stops in front of the open tail. -/
theorem round_of_none {rest : List Char} (h : firstLiteral rest = none) (done : List Char) (out : Extraction) :
    ∃ plain, rest = plain ++ (sift rest).2 ∧ (sift rest).1 = ofPlain plain ∧
      round (done ++ rest) ⟨size done, out⟩ = .ok (.last ⟨size (done ++ plain), out ++ ofPlain plain⟩) := by
  obtain ⟨plain, hplain⟩ := openTail_suffix rest
  have hlen : rest.length - (openTail rest).length = plain.length := by
    have := congrArg List.length hplain
    rw [List.length_append] at this
    omega
  have htake : rest.take plain.length = plain := by
    conv_lhs => rw [← hplain]
    exact List.take_left
  have hsize : size rest = size plain + size (openTail rest) := by rw [← size_append, hplain]
  have hcut : cutAt rest (size plain) = .ok (plain, openTail rest) := cutAt_eq_ok_iff.2 ⟨hplain.symm, rfl⟩
  refine ⟨plain, ?_, ?_, ?_⟩
  · rw [sift_of_none h, hplain]
  · rw [sift_of_none h, hlen, htake]
  · rw [round, cutAt_append, ok_bind]
    simp only [findLiteral_eq, h, Option.map_none]
    rw [openLength_eq, ok_bind, hsize, difference_add, ok_bind, hcut, ok_bind, size_append]
    rfl

/-- With a literal, the round examines it. -/
theorem round_of_some {rest before candidate : List Char} {k : Kind}
    (h : firstLiteral rest = some (before, k, candidate)) (done : List Char) (out : Extraction) :
    round (done ++ rest) ⟨size done, out⟩ =
      conclude (done ++ rest) k ⟨size (done ++ before), out ++ ofPlain before⟩
        ((examine k candidate).inOctets candidate) := by
  obtain ⟨rfl, hk, -⟩ := settled_of_firstLiteral h
  have hsize : size done + size before = size (done ++ before) := (size_append done before).symm
  have hcut : cutAt (done ++ (before ++ candidate)) (size (done ++ before)) = .ok (done ++ before, candidate) :=
    cutAt_eq_ok_iff.2 ⟨(List.append_assoc ..).symm, rfl⟩
  rw [round, cutAt_append, ok_bind]
  simp only [findLiteral_eq, h, Option.map_some]
  rw [cutAt_append, ok_bind]
  simp only [hsize]
  rw [hcut, ok_bind]
  simp only [scan_eq (literalAt_eq_some_iff.1 hk), ok_bind]

theorem conclude_complete (a w z : List Char) (k : Kind) (out : Extraction) (m : Marker) :
    conclude (a ++ (w ++ z)) k ⟨size a, out⟩ ((Verdict.complete m w.length).inOctets (w ++ z)) =
      .ok (.again ⟨size (a ++ w), out ++ ofMarker m⟩) := by
  rw [Verdict.inOctets, List.take_left, conclude, size_append]
  rfl

theorem conclude_malformed (a w z : List Char) {k : Kind} (hk : k.literal <+: w) (out : Extraction) :
    conclude (a ++ (w ++ z)) k ⟨size a, out⟩ ((Verdict.malformed w.length).inOctets (w ++ z)) =
      .ok (.again ⟨size (a ++ w), out ++ ofPlain w⟩) := by
  have hle : ¬ size w < size k.literal := by
    obtain ⟨r, rfl⟩ := hk
    rw [size_append]
    omega
  rw [Verdict.inOctets, List.take_left, conclude, if_neg hle]
  simp only [← size_append]
  rw [← List.append_assoc, slice_append, ok_bind]
  rfl

/-- What a verdict settles begins with the literal, and ends where the verdict does. -/
theorem exists_span {text : List Char} {k : Kind} {n : Nat} (hk : literalAt text = some k)
    (h : (examine k text).settled = some n) : ∃ w z, text = w ++ z ∧ w.length = n ∧ k.literal <+: w := by
  obtain ⟨w, z, rfl, hlen, -⟩ := exists_append_of_settled hk h
  refine ⟨w, z, rfl, hlen, ?_⟩
  exact List.prefix_of_prefix_length_le (literalAt_eq_some_iff.1 hk) (List.prefix_append w z)
    (hlen ▸ settled_examine h)

/-- All that a round can lead to when the cursor stands in front of `rest`, and how it is on the way to what is sifted
out of `rest`. -/
inductive Leads (done rest : List Char) (out : Extraction) : Round → Prop where
  /-- The last round stops in front of what is withheld. -/
  | last {plain : List Char} : rest = plain ++ (sift rest).2 → (sift rest).1 = ofPlain plain →
      Leads done rest out (.last ⟨size (done ++ plain), out ++ ofPlain plain⟩)
  /-- Any other round consumes a literal at least. -/
  | again {front back : List Char} {e : Extraction} {k : Kind} : rest = front ++ back → k.literal <:+: front →
      sift rest = (e ++ (sift back).1, (sift back).2) →
      Leads done rest out (.again ⟨size (done ++ front), out ++ e⟩)

/-- **A round has no fault**, wherever between two characters the cursor stands. -/
theorem exists_leads (done rest : List Char) (out : Extraction) :
    ∃ r, round (done ++ rest) ⟨size done, out⟩ = .ok r ∧ Leads done rest out r := by
  cases hf : firstLiteral rest with
  | none =>
    obtain ⟨plain, hrest, hplain, hround⟩ := round_of_none hf done out
    exact ⟨_, hround, .last hrest hplain⟩
  | some f =>
    obtain ⟨before, k, candidate⟩ := f
    obtain ⟨rfl, hk, -⟩ := settled_of_firstLiteral hf
    rw [round_of_some hf]
    cases hv : examine k candidate with
    | incomplete =>
      have hs : sift (before ++ candidate) = (ofPlain before, candidate) := by rw [sift_of_some hf, hv]
      exact ⟨_, rfl, .last (by rw [hs]) (by rw [hs])⟩
    | complete m n =>
      obtain ⟨w, z, rfl, rfl, hw⟩ := exists_span hk (by rw [hv]; rfl)
      rw [← List.append_assoc, conclude_complete, Extraction.append_assoc, List.append_assoc]
      refine ⟨_, rfl, .again (List.append_assoc ..).symm
        (hw.isInfix.trans (List.suffix_append before w).isInfix) ?_⟩
      rw [sift_of_some hf, hv]
      simp only [List.drop_left]
    | malformed n =>
      obtain ⟨w, z, rfl, rfl, hw⟩ := exists_span hk (by rw [hv]; rfl)
      rw [← List.append_assoc, conclude_malformed _ _ _ hw, Extraction.append_assoc, List.append_assoc,
        ← ofPlain_append]
      refine ⟨_, rfl, .again (List.append_assoc ..).symm
        (hw.isInfix.trans (List.suffix_append before w).isInfix) ?_⟩
      rw [sift_of_some hf, hv]
      simp only [List.take_left, List.drop_left]

theorem size_le_of_part {a b : List Char} (h : a <:+: b) : size a ≤ size b := by
  obtain ⟨front, back, rfl⟩ := h
  rw [size_append, size_append]
  omega

theorem size_literal_pos (k : Kind) : 0 < size k.literal := size_pos (List.length_pos_iff.1 (literal_pos k))

/-! ### The rounds of a text -/

/-- From a cursor in front of `rest`, the rounds come to what is sifted out of `rest`. -/
theorem extractFrom_eq (done rest : List Char) (out : Extraction) :
    ∃ front, done ++ rest = front ++ (sift rest).2 ∧
      extractFrom (done ++ rest) ⟨size done, out⟩ = .ok ⟨size front, out ++ (sift rest).1⟩ := by
  induction hn : rest.length using Nat.strongRecOn generalizing done rest out with
  | _ n ih =>
    subst hn
    obtain ⟨r, hround, hr⟩ := exists_leads done rest out
    rw [extractFrom, hround]
    cases hr with
    | @last plain hrest hplain =>
      refine ⟨done ++ plain, ?_, by rw [hplain]⟩
      rw [List.append_assoc, ← hrest]
    | @again front back e k hrest hk hs =>
      subst hrest
      have hlit := size_le_of_part hk
      have hpos := size_literal_pos k
      have hlen : 0 < front.length := Nat.lt_of_lt_of_le (literal_pos k) hk.length_le
      obtain ⟨front', hsplit, hmore⟩ := ih back.length (by rw [List.length_append]; omega) (done ++ front) back
        (out ++ e) rfl
      rw [List.append_assoc] at hsplit hmore
      have hon : size done < size (done ++ front) ∧ size (done ++ front) ≤ size (done ++ (front ++ back)) := by
        simp only [size_append]
        omega
      simp only [dif_pos hon, hmore, hs]
      exact ⟨front', hsplit, by rw [Extraction.append_assoc]⟩

/-- **Going through a text by offsets comes to what it comes to character by character**, without a fault. -/
theorem extract_eq (text : List Char) : extract text = .ok (sift text) := by
  obtain ⟨front, hsplit, h⟩ := extractFrom_eq [] text .empty
  rw [List.nil_append] at hsplit h
  have hcut : cutAt text (size front) = .ok (front, (sift text).2) := cutAt_eq_ok_iff.2 ⟨hsplit, rfl⟩
  rw [extract, ← size_nil, h, ok_bind, hcut]
  rfl

/-! ### Giving all out -/

/-- How many octets of what is withheld are released at once: those of a literal in front, or all. -/
def releaseSize (text : List Char) : Nat :=
  if Kind.dashboard.literal.isPrefixOf text then size Kind.dashboard.literal
  else if Kind.render.literal.isPrefixOf text then size Kind.render.literal
  else size text

/-- Releases the beginning of what is withheld, and goes through the rest again. -/
def releaseRound (out : Extraction) (text : List Char) : Except Fault (Extraction × List Char) := do
  let (plain, rest) ← cutAt text (releaseSize text)
  let (e, withheld) ← extract rest
  return (out ++ ofPlain plain ++ e, withheld)

/-- Releases until nothing is withheld. -/
def releaseFrom (out : Extraction) (text : List Char) : Except Fault (Extraction × List Char) :=
  if text = [] then .ok (out, [])
  else
    match releaseRound out text with
    | .error f => .error f
    | .ok (out', rest) => if _h : size rest < size text then releaseFrom out' rest else .error .stuck
termination_by size text

/-- Gives out all of a text; gives also what is withheld even then. -/
def flush (text : List Char) : Except Fault (Extraction × List Char) := do
  let (out, withheld) ← extract text
  releaseFrom out withheld

/-- What is released at once is cut off between two characters, and is not nothing. -/
theorem cutAt_releaseSize (text : List Char) :
    cutAt text (releaseSize text) =
      .ok (text.take (Sieve.releaseLength text), text.drop (Sieve.releaseLength text)) := by
  have hsize : releaseSize text = size (text.take (Sieve.releaseLength text)) := by
    unfold releaseSize Sieve.releaseLength literalAt
    split
    · rename_i hd
      obtain ⟨r, rfl⟩ := List.isPrefixOf_iff_prefix.1 hd
      simp only [List.take_left]
    · split
      · rename_i hr
        obtain ⟨r, rfl⟩ := List.isPrefixOf_iff_prefix.1 hr
        simp only [List.take_left]
      · simp only [List.take_length]
  exact cutAt_eq_ok_iff.2 ⟨(List.take_append_drop _ text).symm, hsize⟩

theorem releaseLength_pos {text : List Char} (h : text ≠ []) : 0 < Sieve.releaseLength text := by
  unfold Sieve.releaseLength
  split
  · exact literal_pos _
  · exact List.length_pos_iff.2 h

theorem sift_suffix (text : List Char) : (sift text).2 <:+ text := by
  obtain ⟨front, hsplit, -⟩ := extractFrom_eq [] text .empty
  exact ⟨front, hsplit.symm⟩

/-- A round of releasing has no fault, and leaves less than there was. -/
theorem releaseRound_eq (out : Extraction) (text : List Char) :
    releaseRound out text = .ok (out ++ ofPlain (text.take (Sieve.releaseLength text)) ++
      (sift (text.drop (Sieve.releaseLength text))).1, (sift (text.drop (Sieve.releaseLength text))).2) := by
  rw [releaseRound, cutAt_releaseSize, ok_bind]
  simp only [extract_eq, ok_bind]
  rfl

theorem size_released_lt {text : List Char} (h : text ≠ []) :
    size (sift (text.drop (Sieve.releaseLength text))).2 < size text := by
  have hle := size_le_of_part (sift_suffix (text.drop (Sieve.releaseLength text))).isInfix
  have hpos : 0 < size (text.take (Sieve.releaseLength text)) := by
    refine size_pos fun he => ?_
    rcases List.take_eq_nil_iff.1 he with hz | hnil
    · exact Nat.lt_irrefl 0 (hz ▸ releaseLength_pos h)
    · exact h hnil
  have hsum : size (text.take (Sieve.releaseLength text)) + size (text.drop (Sieve.releaseLength text)) =
      size text := by rw [← size_append, List.take_append_drop]
  omega

theorem releaseFrom_eq (out : Extraction) (text : List Char) :
    releaseFrom out text = .ok (out ++ Sieve.release text, []) := by
  induction hn : size text using Nat.strongRecOn generalizing out text with
  | _ n ih =>
    subst hn
    rw [releaseFrom, Sieve.release]
    by_cases h : text = []
    · rw [if_pos h, dif_pos h, append_empty]
    · simp only [if_neg h, dif_neg h, releaseRound_eq, dif_pos (size_released_lt h)]
      rw [ih _ (size_released_lt h) _ _ rfl]
      simp only [Extraction.append_assoc]

/-- **Giving all out by offsets comes to what it comes to character by character**, and leaves nothing. -/
theorem flush_eq (text : List Char) : flush text = .ok ((Sieve.flush ⟨text⟩).1, []) := by
  rw [flush, extract_eq, ok_bind]
  exact releaseFrom_eq (sift text).1 (sift text).2

/-! ### The whole -/

/-- An offset lies between two characters of a text, or at an end. -/
def IsBoundary (text : List Char) (n : Nat) : Prop := ∃ a b, text = a ++ b ∧ n = size a

/-- Nothing can be cut elsewhere than at a boundary, and everything there. -/
theorem exists_cutAt_iff {text : List Char} {n : Nat} : (∃ ab, cutAt text n = .ok ab) ↔ IsBoundary text n := by
  constructor
  · rintro ⟨⟨a, b⟩, h⟩
    exact ⟨a, b, cutAt_eq_ok_iff.1 h⟩
  · rintro ⟨a, b, h⟩
    exact ⟨(a, b), cutAt_eq_ok_iff.2 h⟩

/-- What an examination by offsets comes to: a length that it settles is a boundary, and is not shorter than the
literal. -/
theorem exists_scan {k : Kind} {text : List Char} (hk : k.literal <+: text) :
    ∃ v, scan k text = .ok v ∧ ∀ n, v.settled = some n → size k.literal ≤ n ∧ IsBoundary text n := by
  refine ⟨_, scan_eq hk, fun n hn => ?_⟩
  have hspan : ∀ m, (examine k text).settled = some m →
      size k.literal ≤ size (text.take m) ∧ IsBoundary text (size (text.take m)) := by
    intro m hm
    obtain ⟨w, z, rfl, rfl, hw⟩ := exists_span (literalAt_eq_some_iff.2 hk) hm
    rw [List.take_left]
    exact ⟨size_le_of_part hw.isInfix, w, z, rfl, rfl⟩
  cases hv : examine k text with
  | incomplete =>
    rw [hv] at hn
    exact absurd hn settled_incomplete
  | complete m l =>
    rw [hv] at hn
    cases hn
    exact hspan l (by rw [hv]; rfl)
  | malformed l =>
    rw [hv] at hn
    cases hn
    exact hspan l (by rw [hv]; rfl)

/-- **The sieve is total**, for every text that is withheld and every chunk.

A text is cut at its boundaries only, or there is a fault. But the sieve comes to an end without a fault, when it takes
the chunk and when it gives all out, and what it comes to is what `Sieve` comes to. From every boundary a round comes
to another boundary, and, unless it is the last one, is farther by a literal at least; a round of releasing leaves less
than there was. What an examination settles ends at a boundary, and not in front of the end of the literal. The counts
of open brackets do not underflow. -/
theorem sieve_total :
    (∀ (text : List Char) (n : Nat), (∃ ab, cutAt text n = .ok ab) ↔ IsBoundary text n) ∧
    (∀ withheld chunk : List Char, extract (withheld ++ chunk) =
      .ok ((Sieve.push ⟨withheld⟩ chunk).1, (Sieve.push ⟨withheld⟩ chunk).2.withheld)) ∧
    (∀ withheld : List Char, flush withheld = .ok ((Sieve.flush ⟨withheld⟩).1, [])) ∧
    (∀ (text : List Char) (p : Pass), IsBoundary text p.cursor →
      (∃ p', round text p = .ok (.last p') ∧ IsBoundary text p'.cursor) ∨
      ∃ p' k, round text p = .ok (.again p') ∧ IsBoundary text p'.cursor ∧
        p.cursor + size (Kind.literal k) ≤ p'.cursor) ∧
    (∀ (out : Extraction) (text : List Char), text ≠ [] →
      ∃ out' rest, releaseRound out text = .ok (out', rest) ∧ size rest < size text) ∧
    (∀ (k : Kind) (text : List Char), k.literal <+: text →
      ∃ v, scan k text = .ok v ∧ ∀ n, v.settled = some n → size k.literal ≤ n ∧ IsBoundary text n) ∧
    (∀ (i : Nat) (text : List Char), ∃ stop, objectEnd .code 0 i (octets ('{' :: text)) = .ok stop) ∧
    ∀ (i : Nat) (text : List Char), ∃ stop, unnestedClose .code 0 i (octets text) = .ok stop := by
  refine ⟨fun text n => exists_cutAt_iff, fun withheld chunk => extract_eq _, flush_eq, fun text p hp => ?_,
    fun out text h => ?_, fun k text hk => exists_scan hk, fun i text => ⟨_, objectEnd_object i text⟩,
    fun i text => ⟨_, unnestedClose_octets .code 0 i text⟩⟩
  · obtain ⟨done, rest, rfl, hcursor⟩ := hp
    obtain ⟨cursor, out⟩ := p
    obtain rfl : cursor = size done := hcursor
    obtain ⟨r, hround, hr⟩ := exists_leads done rest out
    cases hr with
    | @last plain hrest _ =>
      refine .inl ⟨_, hround, done ++ plain, (sift rest).2, ?_, rfl⟩
      rw [List.append_assoc, ← hrest]
    | @again front back e k hrest hk _ =>
      refine .inr ⟨_, k, hround, ⟨done ++ front, back, by rw [hrest, List.append_assoc], rfl⟩, ?_⟩
      rw [size_append]
      exact Nat.add_le_add_left (size_le_of_part hk) (size done)
  · exact ⟨_, _, releaseRound_eq out text, size_released_lt h⟩

end Marker

end TurnRelay
