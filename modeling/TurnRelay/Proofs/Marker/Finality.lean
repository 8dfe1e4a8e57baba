import TurnRelay.Proofs.Marker.Delimiter
import TurnRelay.Proofs.Marker.Offsets

/-!
# Verdicts that are final

A verdict is given as soon as it can be, and nothing that follows changes it. The converse holds too: a text on which
there is no verdict yet can be continued so that there is one, whatever it has come to. An open string can be closed,
an open bracket too, and a name that goes on can be broken off. So an examination is final exactly if it has come to a
verdict; and the search for the first literal is final exactly if it has found one.

## The model

* `Place.wayOut` — characters that lead out of a string.
* `Final f text` — `f` comes to the same whatever follows the text.

## What is proved

* `exists_balancedLength_append`, `exists_unnestedLength_append` — every scan for the end of a body can be brought to
  its end.
* `exists_examine_append` — every text that begins with a literal can be continued to a verdict.
* `verdicts_final` — an examination is final exactly if it has come to a verdict, and a search exactly if it has found
  a literal, also by offsets.
-/

namespace TurnRelay

namespace Marker

/-! ### Scans that are brought to their end -/

/-- Characters that lead out of a string. -/
def Place.wayOut : Place → List Char
  | .code => []
  | .text => ['"']
  | .escape => ['"', '"']

theorem Counts.passes_wayOut {scan : Place → Nat → List Char → Option Nat} {least : Nat} (hs : Counts scan least)
    (place : Place) (d : Nat) : Passes (scan place d) (scan .code d) place.wayOut := by
  cases place with
  | code => exact .nil _
  | text => exact hs.text d '"'
  | escape => exact (hs.escape d '"').cons (hs.text d '"')

/-- A scan that can be brought to its end outside of strings can be brought there from everywhere. -/
theorem Counts.exists_end {scan : Place → Nat → List Char → Option Nat} {least : Nat} (hs : Counts scan least)
    (hcode : ∀ d, ∃ more n, scan .code d more = some n) (place : Place) (d : Nat) :
    ∃ more n, scan place d more = some n := by
  obtain ⟨more, n, h⟩ := hcode d
  refine ⟨place.wayOut ++ more, n + place.wayOut.length, ?_⟩
  rw [hs.passes_wayOut place d more, h]
  rfl

theorem exists_balancedLength_code (d : Nat) : ∃ more n, balancedLength .code d more = some n := by
  induction d with
  | zero => exact ⟨['}'], 1, rfl⟩
  | succ d ih =>
    by_cases hd : d + 1 ≤ 1
    · exact ⟨['}'], 1, by simp [balancedLength, hd]⟩
    · obtain ⟨more, n, h⟩ := ih
      exact ⟨'}' :: more, n + 1, by simp [balancedLength, hd, h]⟩

theorem exists_unnestedLength_code (d : Nat) : ∃ more n, unnestedLength .code d more = some n := by
  induction d with
  | zero => exact ⟨[']'], 0, rfl⟩
  | succ d ih =>
    obtain ⟨more, n, h⟩ := ih
    exact ⟨']' :: more, n + 1, by simp [unnestedLength, h]⟩

/-- Whatever was read of an object, more text ends it. -/
theorem exists_balancedLength_append (place : Place) (depth : Nat) (cs : List Char) :
    ∃ more n, balancedLength place depth (cs ++ more) = some n := by
  -- Where what was read ends, the way out begins; in all other cases the scan reads on or is over.
  fun_induction balancedLength place depth cs with
  | case1 place depth => exact counts_balancedLength.exists_end exists_balancedLength_code place depth
  | case6 depth cs hd => exact ⟨[], 1, by simp [balancedLength, hd]⟩
  | case2 depth c cs ih | case3 depth c cs ih | case4 depth cs ih | case5 depth cs hq ih =>
    obtain ⟨more, n, h⟩ := ih
    exact ⟨more, n + 1, by simp [balancedLength, h]⟩
  | case7 depth cs hd hq ho ih =>
    obtain ⟨more, n, h⟩ := ih
    exact ⟨more, n + 1, by simp [balancedLength, hd, h]⟩
  | case8 depth c cs hq ho hc ih =>
    obtain ⟨more, n, h⟩ := ih
    exact ⟨more, n + 1, by simp [balancedLength, hq, ho, hc, h]⟩

/-- Whatever was read of any other body, more text brings the bracket that closes nothing. -/
theorem exists_unnestedLength_append (place : Place) (depth : Nat) (cs : List Char) :
    ∃ more n, unnestedLength place depth (cs ++ more) = some n := by
  fun_induction unnestedLength place depth cs with
  | case1 place depth => exact counts_unnestedLength.exists_end exists_unnestedLength_code place depth
  | case7 cs => exact ⟨[], 0, by simp [unnestedLength]⟩
  | case2 depth c cs ih | case3 depth c cs ih | case4 depth cs ih | case6 depth cs hq ho ih =>
    obtain ⟨more, n, h⟩ := ih
    exact ⟨more, n + 1, by simp [unnestedLength, h]⟩
  | case5 depth c cs hq ho ih =>
    obtain ⟨more, n, h⟩ := ih
    exact ⟨more, n + 1, by simp [unnestedLength, hq, ho, h]⟩
  | case8 depth cs hd hq ho hc ih =>
    obtain ⟨more, n, h⟩ := ih
    exact ⟨more, n + 1, by simp [unnestedLength, hd, h]⟩
  | case9 depth c cs hq ho hc hb ih =>
    obtain ⟨more, n, h⟩ := ih
    exact ⟨more, n + 1, by simp [unnestedLength, hq, ho, hc, hb, h]⟩

/-! ### Examinations that are brought to a verdict -/

theorem settle_ne_incomplete (m : Option Marker) (n : Nat) : settle m n ≠ .incomplete := by
  intro h
  cases m with
  | none => cases h
  | some m => cases h

theorem malformed_ne_incomplete (n : Nat) : Verdict.malformed n ≠ .incomplete := by
  intro h
  cases h

theorem exists_settled_of_ne {v : Verdict} (h : v ≠ .incomplete) : ∃ n, v.settled = some n := by
  cases v with
  | incomplete => exact absurd rfl h
  | complete m n => exact ⟨n, rfl⟩
  | malformed n => exact ⟨n, rfl⟩

/-- An object is settled by the character behind it. -/
theorem exists_examineObject_append (parse : List Char → Option Marker) (start : Nat) (body : List Char) :
    ∃ more, examineObject parse start (body ++ more) ≠ .incomplete := by
  obtain ⟨more, n, h⟩ := exists_balancedLength_append .code 0 body
  have hle := balancedLength_le h
  -- The bracket stands right behind the brace, unless there was text behind the brace before.
  refine ⟨more ++ [']'], ?_⟩
  rw [← List.append_assoc, examineObject, balancedLength_append h]
  simp only [List.drop_append_of_le_length hle]
  cases (body ++ more).drop n with
  | nil => exact settle_ne_incomplete _ _
  | cons c rest =>
    simp only [List.cons_append]
    split
    · exact settle_ne_incomplete _ _
    · exact malformed_ne_incomplete _

theorem exists_examineDashboard_append (start : Nat) (body : List Char) :
    ∃ more, examineDashboard start (body ++ more) ≠ .incomplete := by
  cases body with
  | nil => exact ⟨[']'], malformed_ne_incomplete start⟩
  | cons c cs =>
    by_cases hc : c = '{'
    · obtain ⟨more, h⟩ := exists_examineObject_append dashboardBody? start (c :: cs)
      refine ⟨more, ?_⟩
      rw [List.cons_append, examineDashboard, if_pos hc]
      exact h
    · refine ⟨[], ?_⟩
      rw [List.append_nil, examineDashboard, if_neg hc]
      exact malformed_ne_incomplete _

theorem exists_examineProps_append (component : List Char) (start : Nat) (body : List Char) :
    ∃ more, examineProps component start (body ++ more) ≠ .incomplete := by
  cases body with
  | nil => exact ⟨[']'], settle_ne_incomplete (renderBody? component []) (start + 1)⟩
  | cons c cs =>
    by_cases hc : c = '{'
    · obtain ⟨more, h⟩ := exists_examineObject_append (renderBody? component) start (c :: cs)
      refine ⟨more, ?_⟩
      rw [List.cons_append, examineProps, if_pos hc]
      exact h
    · obtain ⟨more, n, h⟩ := exists_unnestedLength_append .code 0 (c :: cs)
      refine ⟨more, ?_⟩
      rw [List.cons_append] at h ⊢
      simp only [examineProps, if_neg hc, h]
      exact settle_ne_incomplete _ _

/-- A name that goes on can be broken off. -/
theorem exists_examineRender_append (start : Nat) (name body : List Char) :
    ∃ more, examineRender start name (body ++ more) ≠ .incomplete := by
  induction body generalizing start name with
  | nil => exact ⟨[']'], malformed_ne_incomplete start⟩
  | cons c cs ih =>
    by_cases hc : c = ':'
    · by_cases hn : name = []
      · refine ⟨[], ?_⟩
        rw [List.append_nil, examineRender, if_pos hc, if_pos hn]
        exact malformed_ne_incomplete _
      · obtain ⟨more, h⟩ := exists_examineProps_append name.reverse (start + 1) cs
        refine ⟨more, ?_⟩
        rw [List.cons_append, examineRender, if_pos hc, if_neg hn]
        exact h
    · by_cases he : endsName c = true
      · refine ⟨[], ?_⟩
        rw [List.append_nil, examineRender, if_neg hc, if_pos he]
        exact malformed_ne_incomplete _
      · obtain ⟨more, h⟩ := ih (start + 1) (c :: name)
        refine ⟨more, ?_⟩
        rw [List.cons_append, examineRender, if_neg hc, if_neg he]
        exact h

/-- **Every text that begins with a literal can be continued to a verdict.** -/
theorem exists_examine_append {k : Kind} {text : List Char} (hk : k.literal <+: text) :
    ∃ more, examine k (text ++ more) ≠ .incomplete := by
  obtain ⟨body, rfl⟩ := hk
  cases k with
  | dashboard =>
    simp only [examine, List.append_assoc, List.drop_left]
    exact exists_examineDashboard_append _ body
  | render =>
    simp only [examine, List.append_assoc, List.drop_left]
    exact exists_examineRender_append _ [] body

/-! ### What is final -/

/-- `f` comes to the same whatever follows the text. -/
def Final {α : Type} (f : List Char → α) (text : List Char) : Prop := ∀ more, f (text ++ more) = f text

theorem final_examine_iff {k : Kind} {text : List Char} (hk : k.literal <+: text) :
    Final (examine k) text ↔ examine k text ≠ .incomplete := by
  constructor
  · intro hfinal hv
    obtain ⟨more, hmore⟩ := exists_examine_append hk
    apply hmore
    rw [hfinal more, hv]
  · intro hv more
    obtain ⟨n, hn⟩ := exists_settled_of_ne hv
    exact (examine_append hk hn more).2

theorem inOctets_eq_incomplete_iff {text : List Char} {v : Verdict} :
    v.inOctets text = .incomplete ↔ v = .incomplete := by
  cases v <;> simp [Verdict.inOctets]

/-- A verdict within a text has the same length in octets whatever follows the text. -/
theorem inOctets_append {text : List Char} {v : Verdict} {n : Nat} (hv : v.settled = some n) (hn : n ≤ text.length)
    (more : List Char) : v.inOctets (text ++ more) = v.inOctets text := by
  cases v with
  | incomplete => rfl
  | complete m l =>
    cases hv
    rw [Verdict.inOctets, Verdict.inOctets, List.take_append_of_le_length hn]
  | malformed l =>
    cases hv
    rw [Verdict.inOctets, Verdict.inOctets, List.take_append_of_le_length hn]

theorem final_scan_iff {k : Kind} {text : List Char} (hk : k.literal <+: text) :
    Final (scan k) text ↔ examine k text ≠ .incomplete := by
  have hscan : ∀ more, scan k (text ++ more) = .ok ((examine k (text ++ more)).inOctets (text ++ more)) :=
    fun more => scan_eq (hk.trans (List.prefix_append text more))
  constructor
  · intro hfinal hv
    obtain ⟨more, hmore⟩ := exists_examine_append hk
    have h := hfinal more
    rw [hscan, scan_eq hk, Except.ok.injEq, hv] at h
    exact hmore (inOctets_eq_incomplete_iff.1 h)
  · intro hv more
    obtain ⟨n, hn⟩ := exists_settled_of_ne hv
    obtain ⟨hle, hsame⟩ := examine_append hk hn more
    rw [hscan, scan_eq hk, hsame, inOctets_append hn hle]

/-- The first literal of a text stays the first one. -/
theorem firstLiteral_append {text before rest : List Char} {k : Kind} (h : firstLiteral text = some (before, k, rest))
    (more : List Char) : firstLiteral (text ++ more) = some (before, k, rest ++ more) := by
  obtain ⟨rfl, hk, hs⟩ := settled_of_firstLiteral h
  rw [List.append_assoc, firstLiteral_settled (hs.append more), firstLiteral_of_literalAt (literalAt_append hk more),
    Option.map_some]
  simp only [List.append_nil]

theorem final_findLiteral_iff {text : List Char} : Final findLiteral text ↔ findLiteral text ≠ none := by
  constructor
  · intro hfinal hnone
    have hplain : IsPlain (text ++ Kind.dashboard.literal) := by
      rw [← firstLiteral_eq_none_iff]
      have h := hfinal Kind.dashboard.literal
      rwa [hnone, findLiteral_eq, Option.map_eq_none_iff] at h
    exact hplain .dashboard (List.suffix_append text _).isInfix
  · intro hsome more
    cases hf : firstLiteral text with
    | none =>
      rw [findLiteral_eq, hf] at hsome
      exact absurd rfl hsome
    | some x =>
      obtain ⟨before, k, rest⟩ := x
      rw [findLiteral_eq, findLiteral_eq, firstLiteral_append hf more, hf]
      rfl

/-- **What has been decided is final, and nothing else is.**

The examination of a text that begins with a literal gives a verdict, by offsets too; whatever follows the text, it
gives the same one, of the same marker and the same length, exactly if the verdict is that the marker is complete or
malformed. The search for a literal in any text finds the same one in front of whatever follows, exactly if it finds
one at all. -/
theorem verdicts_final :
    (∀ (k : Kind) (text : List Char), k.literal <+: text →
      (Final (examine k) text ↔ examine k text ≠ .incomplete) ∧
      ∃ v, scan k text = .ok v ∧ (Final (scan k) text ↔ v ≠ .incomplete)) ∧
    ∀ text : List Char,
      (∀ before k rest, firstLiteral text = some (before, k, rest) →
        ∀ more, firstLiteral (text ++ more) = some (before, k, rest ++ more)) ∧
      (Final findLiteral text ↔ findLiteral text ≠ none) := by
  constructor
  · intro k text hk
    refine ⟨final_examine_iff hk, _, scan_eq hk, ?_⟩
    rw [final_scan_iff hk, ne_eq, ne_eq, inOctets_eq_incomplete_iff]
  · intro text
    exact ⟨fun before k rest h => firstLiteral_append h, final_findLiteral_iff⟩

/-- A card whose properties hold a bracket in a text. -/
def bracketCard : List Char := "[RENDER:card:[\"é]\"]]".toList

/-- The card as a marker. -/
def bracketCardMarker : Marker := .render "card" (.array [.string "é]"])

theorem verdicts_final_card :
    Kind.render.literal <+: bracketCard ∧
    scan .render bracketCard = .ok (.complete bracketCardMarker 21) ∧
    (∀ more, scan .render (bracketCard ++ more) = .ok (.complete bracketCardMarker 21)) ∧
    firstLiteral ("naïve ".toList ++ bracketCard) = some ("naïve ".toList, .render, bracketCard) ∧
    ∀ more, firstLiteral ("naïve ".toList ++ bracketCard ++ more) =
      some ("naïve ".toList, .render, bracketCard ++ more) := by
  have hliteral : Kind.render.literal <+: bracketCard := by decide
  have hscan : scan .render bracketCard = .ok (.complete bracketCardMarker 21) := by decide +kernel
  have hfirst : firstLiteral ("naïve ".toList ++ bracketCard) = some ("naïve ".toList, .render, bracketCard) := by
    decide +kernel
  refine ⟨hliteral, hscan, ?_, hfirst, (verdicts_final.2 _).1 _ _ _ hfirst⟩
  intro more
  obtain ⟨v, hv, hfinal⟩ := (verdicts_final.1 .render bracketCard hliteral).2
  obtain rfl : v = .complete bracketCardMarker 21 := by
    rw [hscan, Except.ok.injEq] at hv
    exact hv.symm
  have hdecided : Verdict.complete bracketCardMarker 21 ≠ .incomplete := by
    intro h
    cases h
  rw [hfinal.2 hdecided more, hscan]

end Marker

end TurnRelay
