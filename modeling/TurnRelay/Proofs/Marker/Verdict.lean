import TurnRelay.Proofs.Marker.Literal

/-!
# Verdicts that stand

An examination that has come to a verdict has not looked further than the verdict reaches: with more
text behind, the verdict is the same. Each function of the examination has one lemma that says both,
how far its verdict reaches and that it stands.

## What is proved

* `examine_append` — a verdict that settles some length of a text lies within the text, and stands
  whatever follows.
-/

namespace TurnRelay

namespace Marker

/-! ### Delimiters -/

theorem balancedLength_le {place : Place} {depth n : Nat} {cs : List Char}
    (h : balancedLength place depth cs = some n) : n ≤ cs.length := by
  fun_induction balancedLength place depth cs generalizing n with
  | case1 => cases h
  | case6 depth cs hd => cases h; exact Nat.succ_le_succ (Nat.zero_le _)
  | case2 depth c cs ih | case3 depth c cs ih | case4 depth cs ih | case5 depth cs hq ih
  | case7 depth cs hd hq ho ih | case8 depth c cs hq ho hc ih =>
    obtain ⟨m, hm, rfl⟩ := Option.map_eq_some_iff.1 h
    exact Nat.succ_le_succ (ih hm)

theorem balancedLength_append {place : Place} {depth n : Nat} {cs : List Char}
    (h : balancedLength place depth cs = some n) (y : List Char) :
    balancedLength place depth (cs ++ y) = some n := by
  fun_induction balancedLength place depth cs generalizing n with
  | case1 => cases h
  | case6 depth cs hd => cases h; simp [balancedLength, hd]
  | case2 depth c cs ih | case3 depth c cs ih | case4 depth cs ih | case5 depth cs hq ih =>
    obtain ⟨m, hm, rfl⟩ := Option.map_eq_some_iff.1 h
    simp [balancedLength, ih hm]
  | case7 depth cs hd hq ho ih =>
    obtain ⟨m, hm, rfl⟩ := Option.map_eq_some_iff.1 h
    simp [balancedLength, hd, ih hm]
  | case8 depth c cs hq ho hc ih =>
    obtain ⟨m, hm, rfl⟩ := Option.map_eq_some_iff.1 h
    simp [balancedLength, hq, ho, hc, ih hm]

/-- The bracket that closes nothing stands where it is found. -/
theorem drop_unnestedLength {place : Place} {depth n : Nat} {cs : List Char}
    (h : unnestedLength place depth cs = some n) : ∃ rest, cs.drop n = ']' :: rest := by
  fun_induction unnestedLength place depth cs generalizing n with
  | case1 => cases h
  | case7 cs => cases h; exact ⟨cs, rfl⟩
  | case2 depth c cs ih | case3 depth c cs ih | case4 depth cs ih | case5 depth c cs hq ho ih
  | case6 depth cs hq ho ih | case8 depth cs hd hq ho hc ih | case9 depth c cs hq ho hc hb ih =>
    obtain ⟨m, hm, rfl⟩ := Option.map_eq_some_iff.1 h
    exact ih hm

theorem unnestedLength_lt {place : Place} {depth n : Nat} {cs : List Char}
    (h : unnestedLength place depth cs = some n) : n < cs.length := by
  obtain ⟨rest, hr⟩ := drop_unnestedLength h
  have := congrArg List.length hr
  simp only [List.length_drop, List.length_cons] at this
  omega

/-- What stands in front of the bracket, and the bracket. -/
theorem exists_of_unnestedLength {place : Place} {depth n : Nat} {cs : List Char}
    (h : unnestedLength place depth cs = some n) : ∃ mid rest, cs = mid ++ ']' :: rest ∧ n = mid.length := by
  obtain ⟨rest, hr⟩ := drop_unnestedLength h
  refine ⟨cs.take n, rest, ?_, (List.length_take_of_le (unnestedLength_lt h).le).symm⟩
  rw [← hr, List.take_append_drop]

theorem unnestedLength_append {place : Place} {depth n : Nat} {cs : List Char}
    (h : unnestedLength place depth cs = some n) (y : List Char) :
    unnestedLength place depth (cs ++ y) = some n := by
  fun_induction unnestedLength place depth cs generalizing n with
  | case1 => cases h
  | case7 => cases h; simp [unnestedLength]
  | case2 depth c cs ih | case3 depth c cs ih | case4 depth cs ih | case6 depth cs hq ho ih =>
    obtain ⟨m, hm, rfl⟩ := Option.map_eq_some_iff.1 h
    simp [unnestedLength, ih hm]
  | case5 depth c cs hq ho ih =>
    obtain ⟨m, hm, rfl⟩ := Option.map_eq_some_iff.1 h
    simp [unnestedLength, hq, ho, ih hm]
  | case8 depth cs hd hq ho hc ih =>
    obtain ⟨m, hm, rfl⟩ := Option.map_eq_some_iff.1 h
    simp [unnestedLength, hd, ih hm]
  | case9 depth c cs hq ho hc hb ih =>
    obtain ⟨m, hm, rfl⟩ := Option.map_eq_some_iff.1 h
    simp [unnestedLength, hq, ho, hc, hb, ih hm]

/-! ### Examination -/

theorem settled_incomplete {n : Nat} : (Verdict.incomplete).settled ≠ some n := by
  simp [Verdict.settled]

theorem examineObject_append {parse : List Char → Option Marker} {start n : Nat} {body : List Char}
    (h : (examineObject parse start body).settled = some n) (y : List Char) :
    n ≤ start + body.length ∧ examineObject parse start (body ++ y) = examineObject parse start body := by
  unfold examineObject at h ⊢
  cases hb : balancedLength .code 0 body with
  | none => simp [hb, settled_incomplete] at h
  | some m =>
    have hm := balancedLength_le hb
    simp only [hb] at h
    rw [balancedLength_append hb y]
    simp only [List.drop_append_of_le_length hm, List.take_append_of_le_length hm]
    cases hd : body.drop m with
    | nil => simp [hd, settled_incomplete] at h
    | cons c rest =>
      have hl : m + 1 ≤ body.length := by
        have := congrArg List.length hd
        simp only [List.length_drop, List.length_cons] at this
        omega
      refine ⟨?_, rfl⟩
      simp only [hd] at h
      split at h
      · rw [settled_settle, Option.some.injEq] at h
        omega
      · simp only [Verdict.settled, Option.some.injEq] at h
        omega

theorem examineDashboard_append {start n : Nat} {body : List Char}
    (h : (examineDashboard start body).settled = some n) (y : List Char) :
    n ≤ start + body.length ∧ examineDashboard start (body ++ y) = examineDashboard start body := by
  cases body with
  | nil => exact absurd h settled_incomplete
  | cons c cs =>
    rw [List.cons_append, examineDashboard, examineDashboard]
    rw [examineDashboard] at h
    split at h
    · rename_i hc
      simp only [if_pos hc]
      exact examineObject_append h y
    · rename_i hc
      simp only [Verdict.settled, Option.some.injEq] at h
      exact ⟨by omega, by simp only [if_neg hc]⟩

theorem examineProps_append {component : List Char} {start n : Nat} {body : List Char}
    (h : (examineProps component start body).settled = some n) (y : List Char) :
    n ≤ start + body.length ∧
      examineProps component start (body ++ y) = examineProps component start body := by
  cases body with
  | nil => exact absurd h settled_incomplete
  | cons c cs =>
    rw [List.cons_append, examineProps, examineProps]
    rw [examineProps] at h
    split at h
    · rename_i hc
      simp only [if_pos hc]
      exact examineObject_append h y
    · rename_i hc
      simp only [if_neg hc]
      cases hu : unnestedLength .code 0 (c :: cs) with
      | none => simp [hu, settled_incomplete] at h
      | some m =>
        have hm := unnestedLength_lt hu
        simp only [hu, settled_settle, Option.some.injEq] at h
        refine ⟨by omega, ?_⟩
        rw [← List.cons_append, unnestedLength_append hu y]
        simp only [List.take_append_of_le_length hm.le]

theorem examineRender_append {start n : Nat} {name body : List Char}
    (h : (examineRender start name body).settled = some n) (y : List Char) :
    n ≤ start + body.length ∧ examineRender start name (body ++ y) = examineRender start name body := by
  induction body generalizing start name with
  | nil => exact absurd h settled_incomplete
  | cons c cs ih =>
    rw [List.cons_append, examineRender, examineRender]
    rw [examineRender] at h
    rw [List.length_cons]
    split at h
    · rename_i hc
      simp only [if_pos hc]
      split at h
      · rename_i hn
        simp only [Verdict.settled, Option.some.injEq] at h
        exact ⟨by omega, by simp only [if_pos hn]⟩
      · rename_i hn
        simp only [if_neg hn]
        obtain ⟨hle, heq⟩ := examineProps_append h y
        exact ⟨by omega, heq⟩
    · rename_i hc
      simp only [if_neg hc]
      split at h
      · rename_i he
        simp only [Verdict.settled, Option.some.injEq] at h
        exact ⟨by omega, by simp only [if_pos he]⟩
      · rename_i he
        simp only [if_neg he]
        obtain ⟨hle, heq⟩ := ih h
        exact ⟨by omega, heq⟩

/-- **A verdict stands**: it reaches no further than the text that was examined, and it is the same
whatever follows that text. -/
theorem examine_append {k : Kind} {text : List Char} {n : Nat} (hk : k.literal <+: text)
    (h : (examine k text).settled = some n) (y : List Char) :
    n ≤ text.length ∧ examine k (text ++ y) = examine k text := by
  obtain ⟨body, rfl⟩ := hk
  rw [List.length_append]
  cases k with
  | dashboard =>
    simp only [examine, List.append_assoc, List.drop_left] at h ⊢
    exact examineDashboard_append h y
  | render =>
    simp only [examine, List.append_assoc, List.drop_left] at h ⊢
    exact examineRender_append h y

end Marker

end TurnRelay
