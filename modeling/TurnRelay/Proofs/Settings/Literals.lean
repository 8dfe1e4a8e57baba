import Mathlib.Data.List.Induction
import Mathlib.Data.List.TakeWhile
import Mathlib.Data.String.Basic
import TurnRelay.Settings.Variable

/-!
# Texts that are taken as they stand

A variable has a text only, and so its text may look like something else: a boolean, a number, a text in quotes, a
character, an array or a table. Then it is what it looks like. Any other text without blanks around it stands for
itself.

## The model

* `Variable.IsNumeral` — characters that are read as a number.
* `Variable.IsLiteral` — characters that are read as something else than themselves.
* `Variable.Reads` — the kinds of things that are read in front of a text.

## What is proved

* `length_lt_of_basic?` — what stands in quotes is shorter than what it is written with.
* `reads_of_read?` — what is read is of one of these kinds.
* `ne_string_of_read?` — what an opening character leads to is never the text itself.
* `value_eq_string_iff` — a text without blanks around it stands for itself exactly if it is no literal.
-/

namespace TurnRelay.Settings

variable {c : Char} {cs rest s : List Char} {v : Value}

/-! ### Texts in quotes -/

namespace Toml

theorem length_le_of_numbered? {size : Nat} (h : numbered? size cs = some (c, rest)) : rest.length ≤ cs.length := by
  unfold numbered? at h
  split at h
  · cases h
  · obtain ⟨n, -, h⟩ := Option.bind_eq_some_iff.1 h
    split at h
    · cases h
      rw [List.length_drop]
      exact Nat.sub_le _ _
    · cases h

theorem length_le_of_escape? (h : escape? cs = some (c, rest)) : rest.length ≤ cs.length := by
  unfold escape? at h
  split at h
  case h_8 => exact Nat.le_succ_of_le (length_le_of_numbered? h)
  case h_9 => exact Nat.le_succ_of_le (length_le_of_numbered? h)
  case h_10 => cases h
  -- one letter stands for one character
  all_goals
    cases h
    exact Nat.le_succ _

/-- What stands in quotes is shorter than what it is written with. -/
theorem length_lt_of_basic? {fuel : Nat} (h : basic? fuel cs = some (s, rest)) : s.length < cs.length := by
  induction fuel generalizing cs s with
  | zero => cases h
  | succ fuel ih =>
    cases cs with
    | nil => cases h
    | cons c cs =>
      rw [basic?] at h
      split at h
      · cases h
        exact Nat.succ_pos _
      · split at h
        · obtain ⟨⟨e, cs'⟩, he, h⟩ := Option.bind_eq_some_iff.1 h
          obtain ⟨⟨s', rest'⟩, hs, h⟩ := Option.bind_eq_some_iff.1 h
          cases h
          exact Nat.succ_lt_succ (Nat.lt_of_lt_of_le (ih hs) (length_le_of_escape? he))
        · split at h
          · obtain ⟨⟨s', rest'⟩, hs, h⟩ := Option.bind_eq_some_iff.1 h
            cases h
            exact Nat.succ_lt_succ (ih hs)
          · cases h

end Toml

namespace Variable

/-! ### What is read -/

/-- The characters with which texts in quotes, characters, arrays and tables begin. -/
def isOpening (c : Char) : Bool := c = '{' || c = '[' || c = '"' || c = '\''

/-- The characters of a boolean. -/
def booleanText : Bool → List Char
  | true => ['t', 'r', 'u', 'e']
  | false => ['f', 'a', 'l', 's', 'e']

/-- What is read in front of a text that does not begin with a blank. -/
inductive Reads : List Char → Value → Prop where
  /-- A boolean. -/
  | boolean (b : Bool) (rest : List Char) : Reads (booleanText b ++ rest) (.bool b)
  /-- A table. -/
  | table (es : Value.Entries) (rest : List Char) : Reads ('{' :: rest) (.ofEntries es)
  /-- An array. -/
  | array (vs : List Value) (rest : List Char) : Reads ('[' :: rest) (.array vs)
  /-- A text in quotes. -/
  | quoted {fuel : Nat} {cs s rest : List Char} : Toml.basic? fuel cs = some (s, rest) →
      Reads ('"' :: cs) (.string (String.ofList s))
  /-- A character in quotes. -/
  | character (c : Char) (rest : List Char) : Reads ('\'' :: c :: '\'' :: rest) (.char c)
  /-- A word. -/
  | word {cs : List Char} : (∀ c rest, cs = c :: rest → isOpening c = false) →
      Reads cs (word (cs.takeWhile (! isSeparator ·)))

/-- **What is read is one of these.** -/
theorem reads_of_read? {fuel : Nat} (h : read? fuel cs = some (v, rest)) : Reads (cs.dropWhile isGap) v := by
  cases fuel with
  | zero => simp [read?] at h
  | succ fuel =>
    -- what is read comes first, and then the blanks behind it are skipped
    have hfront {o : Option (Value × List Char)}
        (h : (o.bind fun p => some (p.1, p.2.dropWhile isGap)) = some (v, rest)) : ∃ rest', o = some (v, rest') := by
      obtain ⟨⟨w, rest'⟩, hw, h⟩ := Option.bind_eq_some_iff.1 h
      cases h
      exact ⟨rest', hw⟩
    rw [read?] at h
    split at h
    · rename_i hcs
      obtain ⟨rest', hread⟩ := hfront h
      cases hread
      rw [hcs]
      exact .boolean true _
    · rename_i hcs
      obtain ⟨rest', hread⟩ := hfront h
      cases hread
      rw [hcs]
      exact .boolean false _
    · rename_i hcs
      obtain ⟨rest', hread⟩ := hfront h
      obtain ⟨x, -, hx⟩ := Option.map_eq_some_iff.1 hread
      cases hx
      rw [hcs]
      exact .table _ _
    · rename_i hcs
      obtain ⟨rest', hread⟩ := hfront h
      obtain ⟨x, -, hx⟩ := Option.map_eq_some_iff.1 hread
      cases hx
      rw [hcs]
      exact .array _ _
    · rename_i hcs
      obtain ⟨rest', hread⟩ := hfront h
      obtain ⟨x, hquoted, hx⟩ := Option.map_eq_some_iff.1 hread
      cases hx
      rw [hcs]
      exact .quoted hquoted
    · rename_i hcs
      obtain ⟨rest', hread⟩ := hfront h
      cases hread
      rw [hcs]
      exact .character _ _
    · cases h
    · rename_i htable harray hquoted _ hcharacter
      obtain ⟨rest', hread⟩ := hfront h
      cases hread
      refine .word fun c rest hcs => Bool.eq_false_iff.2 fun hc => ?_
      simp only [isOpening, Bool.or_eq_true, decide_eq_true_eq] at hc
      obtain ((rfl | rfl) | rfl) | rfl := hc
      · exact htable rest hcs
      · exact harray rest hcs
      · exact hquoted rest hcs
      · exact hcharacter rest hcs

/-- A word is a number or a text. -/
theorem word_cases (cs : List Char) :
    (∃ x, word cs = .float x) ∨ (∃ signed i, word cs = .integer signed i) ∨ ∃ s, word cs = .string s := by
  unfold word
  dsimp only
  split
  · exact .inl ⟨_, rfl⟩
  · split
    · exact .inr (.inl ⟨_, _, rfl⟩)
    · split
      · exact .inr (.inl ⟨_, _, rfl⟩)
      · exact .inr (.inr ⟨_, rfl⟩)

/-! ### Blanks -/

theorem isBlank_of_isGap (h : isGap c = true) : Text.isBlank c = true := by
  simp only [isGap, Bool.or_eq_true, decide_eq_true_eq] at h
  obtain (((rfl | rfl) | rfl) | rfl) | rfl := h <;> decide

theorem isGap_of_isSeparator (h : isSeparator c = true) : isGap c = false := by
  simp only [isSeparator, Bool.or_eq_true, decide_eq_true_eq] at h
  obtain (((rfl | rfl) | rfl) | rfl) | rfl := h <;> decide

/-- Characters without blanks around them. -/
def IsTrimmed (cs : List Char) : Prop := Text.trimChars cs = cs

/-- Nothing is dropped in front. -/
theorem IsTrimmed.dropWhile_eq (h : IsTrimmed cs) : cs.dropWhile Text.isBlank = cs := by
  have hlast := (List.dropWhile_suffix Text.isBlank (l := (cs.dropWhile Text.isBlank).reverse)).length_le
  rw [List.length_reverse] at hlast
  have hlength : cs.length ≤ (cs.dropWhile Text.isBlank).length := by
    rw [IsTrimmed, Text.trimChars] at h
    have hcs := congrArg List.length h
    rw [List.length_reverse] at hcs
    omega
  exact (List.dropWhile_suffix _).eq_of_length_le hlength

theorem IsTrimmed.head (h : IsTrimmed (c :: cs)) : Text.isBlank c = false := by
  have hdrop := h.dropWhile_eq
  by_contra hc
  rw [List.dropWhile_cons_of_pos (Bool.not_eq_false _ ▸ hc)] at hdrop
  have hlength := (List.dropWhile_suffix Text.isBlank (l := cs)).length_le
  rw [hdrop, List.length_cons] at hlength
  omega

theorem IsTrimmed.last (h : IsTrimmed (cs ++ [c])) : Text.isBlank c = false := by
  have hdrop := h.dropWhile_eq
  by_contra hc
  rw [IsTrimmed, Text.trimChars, hdrop, List.reverse_concat,
    List.dropWhile_cons_of_pos (Bool.not_eq_false _ ▸ hc)] at h
  have hlength := (List.dropWhile_suffix Text.isBlank (l := cs.reverse)).length_le
  have hcs := congrArg List.length h
  rw [List.length_reverse, List.length_append, List.length_singleton] at hcs
  rw [List.length_reverse] at hlength
  omega

/-- Blanks at the end are none. -/
theorem IsTrimmed.suffix_nil (h : IsTrimmed cs) (hrest : rest <:+ cs) (hgap : rest.dropWhile isGap = []) : rest = [] := by
  obtain ⟨front, rfl⟩ := hrest
  cases rest using List.reverseRecOn with
  | nil => rfl
  | append_singleton rest c =>
    have hc : isGap c = true := by
      rw [List.dropWhile_eq_nil_iff] at hgap
      exact hgap c (by simp)
    rw [← List.append_assoc] at h
    have hlast := h.last
    rw [isBlank_of_isGap hc] at hlast
    cases hlast

theorem IsTrimmed.dropWhile_isGap (h : IsTrimmed cs) : cs.dropWhile isGap = cs := by
  cases cs with
  | nil => rfl
  | cons c cs =>
    refine List.dropWhile_cons_of_neg fun hc => ?_
    have hhead := h.head
    rw [isBlank_of_isGap hc] at hhead
    cases hhead

/-! ### Literals -/

/-- **Characters that are read as a number**: with a point, without a sign, or with one. -/
def IsNumeral (cs : List Char) : Prop :=
  '.' ∈ cs ∧ (float? cs).isSome ∨ (natural? cs).isSome ∨ (signedInteger? cs).isSome

/-- **Characters that are read as something else than themselves.** Behind an opening character they have to be read to
their end, and else they are a boolean or a number. -/
def IsLiteral : List Char → Prop
  | [] => False
  | c :: cs =>
    if isOpening c then ∃ v, read? (cs.length + 2) (c :: cs) = some (v, [])
    else (∃ b, c :: cs = booleanText b) ∨ (∀ d ∈ c :: cs, isSeparator d = false) ∧ IsNumeral (c :: cs)

/-! ### Numerals -/

theorem isDigit_of_digits? {n : Nat} (h : digits? (c :: cs) = some n) : isDigit c = true := by
  unfold digits? at h
  split at h
  · rename_i hall
    exact (Bool.and_eq_true_iff.1 hall.2).1
  · cases h

/-- A number begins with a digit, a sign or a point. -/
theorem IsNumeral.head (h : IsNumeral (c :: cs)) : isDigit c = true ∨ c = '+' ∨ c = '-' ∨ c = '.' := by
  by_contra hc
  rw [not_or, not_or, not_or] at hc
  obtain ⟨hdigit, hplus, hminus, hpoint⟩ := hc
  have hdigits : digits? (c :: cs) = none := by
    cases hn : digits? (c :: cs) with
    | none => rfl
    | some n => exact absurd (isDigit_of_digits? hn) hdigit
  obtain ⟨-, hfloat⟩ | hnatural | hsigned := h
  · have hnone : float? (c :: cs) = none := by
      rw [float?]
      · rw [unsignedFloat?, List.takeWhile_cons_of_neg hdigit, List.dropWhile_cons_of_neg hdigit]
        split
        · rename_i heq
          split at heq
          · rename_i hcs
            exact absurd (List.cons.inj hcs).1 hpoint
          · cases heq
            rfl
      · exact fun r hr => hminus (List.cons.inj hr).1
      · exact fun r hr => hplus (List.cons.inj hr).1
    rw [hnone] at hfloat
    cases hfloat
  · have hnone : natural? (c :: cs) = none := by
      unfold natural?
      split
      · rename_i hcs
        exact absurd (List.cons.inj hcs).1 hplus
      · rw [hdigits]
        rfl
    rw [hnone] at hnatural
    cases hnatural
  · have hnone : signedInteger? (c :: cs) = none := by
      unfold signedInteger?
      split
      · rename_i hcs
        exact absurd (List.cons.inj hcs).1 hminus
      · rename_i hcs
        exact absurd (List.cons.inj hcs).1 hplus
      · rw [hdigits]
        rfl
    rw [hnone] at hsigned
    cases hsigned

/-! ### Words -/

/-- A word is itself, unless it is a number. -/
theorem word_eq_string_iff (h : IsTrimmed cs) : word cs = .string (String.ofList cs) ↔ ¬ IsNumeral cs := by
  have htrim : Text.trimChars cs = cs := h
  unfold word
  dsimp only
  rw [htrim, IsNumeral, not_or, not_or, Option.not_isSome_iff_eq_none, Option.not_isSome_iff_eq_none]
  cases hfloat : if '.' ∈ cs then float? cs else none with
  | some x =>
    refine iff_of_false (by simp) fun hno => hno.1 ?_
    split at hfloat
    · rename_i hpoint
      exact ⟨hpoint, by rw [hfloat]; rfl⟩
    · cases hfloat
  | none =>
    have hnofloat : ¬ ('.' ∈ cs ∧ (float? cs).isSome = true) := by
      rintro ⟨hpoint, hsome⟩
      rw [if_pos hpoint] at hfloat
      rw [hfloat] at hsome
      cases hsome
    cases hnatural : natural? cs with
    | some n => exact iff_of_false (by simp) fun hno => by cases hno.2.1
    | none =>
      cases hsigned : signedInteger? cs with
      | some i => exact iff_of_false (by simp) fun hno => by cases hno.2.2
      | none => exact iff_of_true rfl ⟨hnofloat, rfl, rfl⟩

/-! ### What a text says -/

theorem not_isGap_of_isOpening (h : isOpening c = true) : isGap c = false := by
  simp only [isOpening, Bool.or_eq_true, decide_eq_true_eq] at h
  obtain ((rfl | rfl) | rfl) | rfl := h <;> decide

/-- **Behind an opening character the text is not itself**: it is no text at all, or shorter. -/
theorem ne_string_of_read? {fuel : Nat} (hc : isOpening c = true) (h : read? fuel (c :: cs) = some (v, rest)) :
    v ≠ .string (String.ofList (c :: cs)) := by
  have hreads := reads_of_read? h
  rw [List.dropWhile_cons_of_neg (by simp [not_isGap_of_isOpening hc])] at hreads
  generalize htext : c :: cs = text at hreads
  cases hreads with
  | boolean b rest => simp
  | table es rest => simp [Value.ofEntries]
  | array vs rest => simp
  | quoted hquoted =>
    intro heq
    injection heq with heq
    have hlength := Toml.length_lt_of_basic? hquoted
    rw [String.ofList_injective heq, List.length_cons] at hlength
    omega
  | character d rest => simp
  | word hword =>
    rw [hword c cs htext.symm] at hc
    cases hc

theorem dropWhile_isSeparator_ne_nil (h : ∃ d ∈ cs, isSeparator d = true) :
    (cs.dropWhile (! isSeparator ·)).dropWhile isGap ≠ [] := by
  cases hdrop : cs.dropWhile (! isSeparator ·) with
  | nil =>
    obtain ⟨d, hd, hsep⟩ := h
    have hno := List.dropWhile_eq_nil_iff.1 hdrop d hd
    rw [hsep] at hno
    cases hno
  | cons d ds =>
    have hsep : isSeparator d = true := by
      have hhead := List.head?_dropWhile_not (! isSeparator ·) cs
      rw [hdrop] at hhead
      simpa using hhead
    rw [List.dropWhile_cons_of_neg (by simp [isGap_of_isSeparator hsep])]
    exact List.cons_ne_nil _ _

/-- Without an opening character, a boolean is read in front, or a word. -/
theorem read?_of_not_isOpening (fuel : Nat) (h : IsTrimmed (c :: cs)) (hc : isOpening c = false) :
    (∃ b rest, c :: cs = booleanText b ++ rest ∧ read? (fuel + 1) (c :: cs) = some (.bool b, rest.dropWhile isGap)) ∨
    (∀ b rest, c :: cs ≠ booleanText b ++ rest) ∧ read? (fuel + 1) (c :: cs) =
      some (word ((c :: cs).takeWhile (! isSeparator ·)), ((c :: cs).dropWhile (! isSeparator ·)).dropWhile isGap) := by
  have hno {d : Char} (hd : isOpening d = true) : c ≠ d := fun hcd => by
    rw [hcd, hd] at hc
    cases hc
  rw [read?, h.dropWhile_isGap]
  split
  case h_1 rest heq => exact .inl ⟨true, rest, heq, rfl⟩
  case h_2 rest heq => exact .inl ⟨false, rest, heq, rfl⟩
  case h_8 htrue hfalse _ _ _ _ _ =>
    refine .inr ⟨fun b rest heq => ?_, rfl⟩
    cases b with
    | true => exact htrue rest heq
    | false => exact hfalse rest heq
  -- in all other cases the text begins with an opening character
  all_goals
    rename_i heq
    exact absurd (List.cons.inj heq).1 (hno (by decide))

/-- A boolean does not begin like a number. -/
theorem not_isNumeral_booleanText (b : Bool) (rest : List Char) : ¬ IsNumeral (booleanText b ++ rest) := by
  intro h
  cases b with
  | true => obtain hd | hp | hm | hpoint := IsNumeral.head h <;> contradiction
  | false => obtain hd | hp | hm | hpoint := IsNumeral.head h <;> contradiction

theorem booleanText_append_ne {b b' : Bool} {rest : List Char} (hrest : rest ≠ []) :
    booleanText b ++ rest ≠ booleanText b' := by
  intro h
  cases b <;> cases b' <;> simp [booleanText, hrest] at h

/-- **Without an opening character** a text is read to its end as itself, unless it is a literal. -/
theorem read?_eq_string_iff (fuel : Nat) (h : IsTrimmed (c :: cs)) (hc : isOpening c = false) :
    (∀ v, read? (fuel + 1) (c :: cs) = some (v, []) → v = .string (String.ofList (c :: cs))) ↔
      ¬ IsLiteral (c :: cs) := by
  rw [IsLiteral, if_neg (by simp [hc])]
  obtain ⟨b, rest, heq, hread⟩ | ⟨hno, hread⟩ := read?_of_not_isOpening fuel h hc
  · rw [hread]
    by_cases hrest : rest = []
    · subst hrest
      rw [List.append_nil] at heq
      refine iff_of_false (fun hall => ?_) fun hlit => hlit (.inl ⟨b, heq⟩)
      have hstring := hall (.bool b) rfl
      cases hstring
    · have hgap : rest.dropWhile isGap ≠ [] := fun hnil =>
        hrest (h.suffix_nil ⟨booleanText b, heq.symm⟩ hnil)
      refine iff_of_true (fun v hv => ?_) ?_
      · injection hv with hv
        exact absurd (Prod.mk.inj hv).2 hgap
      · rw [heq]
        rintro (⟨b', hb'⟩ | ⟨-, hnumeral⟩)
        · exact booleanText_append_ne hrest hb'
        · exact not_isNumeral_booleanText b rest hnumeral
  · rw [hread]
    have hboolean : ¬ ∃ b, c :: cs = booleanText b := by
      rintro ⟨b, hb⟩
      exact hno b [] (hb.trans (List.append_nil _).symm)
    by_cases hsep : ∃ d ∈ c :: cs, isSeparator d = true
    · have hgap := dropWhile_isSeparator_ne_nil hsep
      refine iff_of_true (fun v hv => ?_) ?_
      · injection hv with hv
        exact absurd (Prod.mk.inj hv).2 hgap
      · rintro (hb | ⟨hplain, -⟩)
        · exact hboolean hb
        · obtain ⟨d, hd, hsep⟩ := hsep
          rw [hplain d hd] at hsep
          cases hsep
    · have hplain : ∀ d ∈ c :: cs, isSeparator d = false := fun d hd =>
        Bool.eq_false_iff.2 fun hd' => hsep ⟨d, hd, hd'⟩
      have htake : (c :: cs).takeWhile (! isSeparator ·) = c :: cs :=
        List.takeWhile_eq_self_iff.2 fun d hd => by simp [hplain d hd]
      have hdrop : (c :: cs).dropWhile (! isSeparator ·) = [] :=
        List.dropWhile_eq_nil_iff.2 fun d hd => by simp [hplain d hd]
      rw [htake, hdrop]
      constructor
      · intro hall
        have hnumeral := (word_eq_string_iff h).1 (hall _ rfl)
        rintro (hb | ⟨-, hnum⟩)
        · exact hboolean hb
        · exact hnumeral hnum
      · intro hlit v hv
        injection hv with hv
        obtain ⟨rfl, -⟩ := Prod.mk.inj hv
        exact (word_eq_string_iff h).2 fun hnum => hlit (.inr ⟨hplain, hnum⟩)

/-- A character takes two quotes to be written. -/
theorem length_of_read?_char {fuel : Nat} {d : Char} (h : read? fuel cs = some (.char d, rest)) : 3 ≤ cs.length := by
  have hreads := reads_of_read? h
  have hlength := (List.dropWhile_suffix isGap (l := cs)).length_le
  generalize cs.dropWhile isGap = text at hreads hlength
  generalize hv : Value.char d = v at hreads
  cases hreads with
  | character d rest => exact le_trans (by simp) hlength
  | word => obtain ⟨x, hx⟩ | ⟨signed, i, hx⟩ | ⟨s, hx⟩ := word_cases _ <;> rw [hx] at hv <;> cases hv
  | _ => cases hv

/-- A text says what it is read as, to its end, and else itself. -/
theorem value_eq_string_iff_read? (text : String) : value text = .string text ↔
    ∀ v, read? (text.toList.length + 1) text.toList = some (v, []) → v = .string text := by
  unfold value
  dsimp only
  split
  · rename_i v hread
    rw [hread]
    refine ⟨fun h v' hv' => ?_, fun h => h v rfl⟩
    injection hv' with hv'
    exact (Prod.mk.inj hv').1.symm.trans h
  · rename_i hread
    exact iff_of_true rfl fun v hv => absurd hv (hread v)

/-- **A text without blanks around it stands for itself**, unless it is a literal. -/
theorem value_eq_string_iff {text : String} (h : IsTrimmed text.toList) :
    value text = .string text ↔ ¬ IsLiteral text.toList := by
  rw [value_eq_string_iff_read?]
  obtain ⟨cs, rfl⟩ : ∃ cs, text = String.ofList cs := ⟨text.toList, String.ofList_toList.symm⟩
  rw [String.toList_ofList] at h ⊢
  cases cs with
  | nil =>
    have hread : read? 1 [] = some (.string (String.ofList []), []) := rfl
    refine iff_of_true (fun v hv => ?_) fun hlit => hlit
    rw [List.length_nil, hread] at hv
    injection hv with hv
    exact (Prod.mk.inj hv).1.symm
  | cons c cs =>
    cases hc : isOpening c with
    | false => exact read?_eq_string_iff _ h hc
    | true =>
      rw [IsLiteral, if_pos hc]
      constructor
      · rintro hall ⟨v, hv⟩
        exact ne_string_of_read? hc hv (hall v hv)
      · exact fun hno v hv => absurd ⟨v, hv⟩ hno

end Variable

end TurnRelay.Settings
