import TurnRelay.Json.Printer
import TurnRelay.Json.Token
import Mathlib.Tactic.SplitIfs

/-!
# Ways to write tokens

A token can be written in many ways: the characters of a string as themselves or as escapes, a number with
or without a fraction and an exponent, and blanks may stand in front of every token and behind the last. The
reader of tokens takes each of these ways for the token that it is, as long as nothing stands behind a number
that would belong to it. The compact form of a token is one of the ways.

## The model

* `StringText s w`, `NumberText.Spelled t w` — ways to write the characters of a string, and a number.
* `Spells t w` — ways to write a token.
* `Typeset text ts` — the text is made of ways to write the tokens, with blanks in between.

## What is proved

* `tokens_of_typeset` — a text has the tokens that it is made of.
* `stringText_flatMap`, `exists_spelled_integer` — strings and integers in their compact form.
-/

namespace TurnRelay

namespace Json

/-! ### Strings -/

/-- The number of a character that one escape can stand for: it is no half of a surrogate pair. -/
def IsWhole (n : Nat) : Prop := n < 0xD800 ∨ 0xE000 ≤ n

/-- Ways to write the characters of a string between its quotes. -/
inductive StringText : List Char → List Char → Prop where
  /-- No characters. -/
  | nil : StringText [] []
  /-- A character that stands for itself. -/
  | plain {c : Char} {s w : List Char} : c ≠ '"' → c ≠ '\\' → 32 ≤ c.toNat → StringText s w →
      StringText (c :: s) (c :: w)
  /-- A character behind a backslash. -/
  | escape {e c : Char} {s w : List Char} : escaped? e = some c → StringText s w →
      StringText (c :: s) ('\\' :: e :: w)
  /-- Four hexadecimal digits. -/
  | word {a b c d : Char} {n : Nat} {s w : List Char} : hexWord? a b c d = some n → IsWhole n →
      StringText s w → StringText (Char.ofNat n :: s) ('\\' :: 'u' :: a :: b :: c :: d :: w)
  /-- Twice four hexadecimal digits, a surrogate pair. -/
  | pair {a b c d a' b' c' d' : Char} {n m : Nat} {s w : List Char} : hexWord? a b c d = some n →
      0xD800 ≤ n ∧ n < 0xDC00 → hexWord? a' b' c' d' = some m → 0xDC00 ≤ m ∧ m < 0xE000 → StringText s w →
      StringText (Char.ofNat (0x10000 + (n - 0xD800) * 0x400 + (m - 0xDC00)) :: s)
        ('\\' :: 'u' :: a :: b :: c :: d :: '\\' :: 'u' :: a' :: b' :: c' :: d' :: w)

theorem stringPieces_plain {c : Char} {rest : List Char} (hq : c ≠ '"') (hb : c ≠ '\\') (hc : 32 ≤ c.toNat) :
    stringPieces (c :: rest) = (stringPieces rest).map fun x => (.char c :: x.1, x.2) := by
  rw [stringPieces]
  · rw [if_neg (by omega)]
    cases stringPieces rest <;> rfl
  · exact fun h => absurd h hq
  · rintro a b d e us h -
    exact absurd h hb
  · rintro e us h -
    exact absurd h hb

theorem stringPieces_escape {e c : Char} {rest : List Char} (he : escaped? e = some c) :
    stringPieces ('\\' :: e :: rest) = (stringPieces rest).map fun x => (.char c :: x.1, x.2) := by
  rw [stringPieces]
  · rw [he]
    cases stringPieces rest <;> rfl
  · rintro a b c' d us h -
    subst h
    cases he

theorem stringPieces_word {a b c d : Char} {n : Nat} {rest : List Char} (h : hexWord? a b c d = some n) :
    stringPieces ('\\' :: 'u' :: a :: b :: c :: d :: rest) =
      (stringPieces rest).map fun x => (.unit n :: x.1, x.2) := by
  rw [stringPieces, h]
  cases stringPieces rest <;> rfl

/-- The characters of a string are read from each way to write them. -/
theorem StringText.exists_pieces {s w : List Char} (h : StringText s w) (rest : List Char) :
    ∃ ps, stringPieces (w ++ '"' :: rest) = some (ps, rest) ∧ decodePieces ps = some s := by
  induction h with
  | nil => exact ⟨[], rfl, rfl⟩
  | @plain c s w hq hb hc _ ih =>
    obtain ⟨ps, hp, hd⟩ := ih
    exact ⟨.char c :: ps, by rw [List.cons_append, stringPieces_plain hq hb hc, hp]; rfl,
      by simp [decodePieces, hd]⟩
  | @escape e c s w he _ ih =>
    obtain ⟨ps, hp, hd⟩ := ih
    exact ⟨.char c :: ps, by rw [List.cons_append, List.cons_append, stringPieces_escape he, hp]; rfl,
      by simp [decodePieces, hd]⟩
  | @word a b c d n s w hn hw _ ih =>
    obtain ⟨ps, hp, hd⟩ := ih
    refine ⟨.unit n :: ps, ?_, ?_⟩
    · simp only [List.cons_append]
      rw [stringPieces_word hn, hp]
      rfl
    · unfold IsWhole at hw
      rw [decodePieces.eq_def]
      simp only [if_neg (show ¬ (0xD800 ≤ n ∧ n < 0xDC00) by omega),
        if_neg (show ¬ (0xDC00 ≤ n ∧ n < 0xE000) by omega), hd, Option.map_some]
  | @pair a b c d a' b' c' d' n m s w hn hhigh hm hlow _ ih =>
    obtain ⟨ps, hp, hd⟩ := ih
    refine ⟨.unit n :: .unit m :: ps, ?_, ?_⟩
    · simp only [List.cons_append]
      rw [stringPieces_word hn, stringPieces_word hm, hp]
      rfl
    · rw [decodePieces, if_pos hhigh]
      simp only [if_pos hlow, hd, Option.map_some]

/-! ### The compact form of strings -/

theorem hexWord_of_control : ∀ n < 32, hexWord? '0' '0' (hexChar (n / 16)) (hexChar (n % 16)) = some n := by
  decide

/-- The compact form of a character is a way to write it. -/
theorem StringText.charEscape {c : Char} {s w : List Char} (h : StringText s w) :
    StringText (c :: s) (Json.charEscape c ++ w) := by
  unfold Json.charEscape
  split_ifs with h1 h2 h3 h4 h5 h6 h7 h8
  · exact .escape (by rw [h1]; rfl) h
  · exact .escape (by rw [h2]; rfl) h
  · exact .escape (by rw [h3]; rfl) h
  · exact .escape (by rw [h4]; rfl) h
  · exact .escape (by rw [h5]; rfl) h
  · exact .escape (by rw [h6]; rfl) h
  · exact .escape (by rw [h7]; rfl) h
  · have hw := StringText.word (hexWord_of_control c.toNat h8) (.inl (by omega)) h
    rwa [Char.ofNat_toNat] at hw
  · exact .plain h1 h2 (by omega) h

/-- The compact form of a string is a way to write it. -/
theorem stringText_flatMap (s : List Char) : StringText s (s.flatMap Json.charEscape) := by
  induction s with
  | nil => exact .nil
  | cons c s ih =>
    rw [List.flatMap_cons]
    exact ih.charEscape

/-! ### Numbers -/

/-- A decimal digit. -/
def IsDigit (c : Char) : Prop := '0' ≤ c ∧ c ≤ '9'

instance (c : Char) : Decidable (IsDigit c) := inferInstanceAs (Decidable (_ ∧ _))

/-- What stands behind a number does not belong to it. -/
def EndsNumber (rest : List Char) : Prop :=
  ∀ c ∈ rest.head?, ¬ IsDigit c ∧ c ≠ '.' ∧ c ≠ 'e' ∧ c ≠ 'E'

/-- Digits before the point: a single zero, or digits that do not begin with one. -/
def IsWholePart (ds : List Char) : Prop := ds ≠ [] ∧ (∀ c ∈ ds, IsDigit c) ∧ (ds.head? = some '0' → ds = ['0'])

/-- Ways to write a fraction. -/
inductive FractionText : Option (List Char) → List Char → Prop where
  /-- There is none. -/
  | none : FractionText none []
  /-- A point and digits. -/
  | some {ds : List Char} : ds ≠ [] → (∀ c ∈ ds, IsDigit c) → FractionText (some ds) ('.' :: ds)

/-- Ways to write an exponent. -/
inductive ExponentText : Option (Bool × List Char) → List Char → Prop where
  /-- There is none. -/
  | none : ExponentText none []
  /-- Without a sign. -/
  | unsigned {e : Char} {ds : List Char} : e = 'e' ∨ e = 'E' → ds ≠ [] → (∀ c ∈ ds, IsDigit c) →
      ExponentText (some (false, ds)) (e :: ds)
  /-- With a sign. -/
  | signed {e : Char} {negative : Bool} {ds : List Char} : e = 'e' ∨ e = 'E' → ds ≠ [] →
      (∀ c ∈ ds, IsDigit c) →
      ExponentText (some (negative, ds)) (e :: (if negative then '-' else '+') :: ds)

/-- Ways to write a number. -/
inductive NumberText.Spelled (t : NumberText) : List Char → Prop where
  /-- Its sign and its parts. -/
  | intro {f e : List Char} : IsWholePart t.whole → FractionText t.fraction f → ExponentText t.exponent e →
      t.Spelled ((if t.negative then ['-'] else []) ++ (t.whole ++ (f ++ e)))

/-- The digits at the front are those up to the first other character. -/
theorem spanDigits_append {ds rest : List Char} (hd : ∀ c ∈ ds, IsDigit c)
    (hr : ∀ c ∈ rest.head?, ¬ IsDigit c) : spanDigits (ds ++ rest) = (ds, rest) := by
  induction ds with
  | nil =>
    cases rest with
    | nil => rfl
    | cons c rest =>
      rw [List.nil_append, spanDigits]
      exact if_neg (hr c rfl)
  | cons c ds ih =>
    obtain ⟨hc, hd⟩ := List.forall_mem_cons.1 hd
    rw [List.cons_append, spanDigits, ih hd]
    exact if_pos hc

theorem wholePart_append {ds rest : List Char} (hd : IsWholePart ds) (hr : ∀ c ∈ rest.head?, ¬ IsDigit c) :
    wholePart (ds ++ rest) = some (ds, rest) := by
  obtain ⟨hne, hd, hz⟩ := hd
  unfold wholePart
  rw [spanDigits_append hd hr]
  split
  · rename_i h
    cases h
    exact absurd rfl hne
  · rename_i c cs us h
    cases h
    cases hz rfl
  · rename_i h
    cases h
    rfl

theorem ExponentText.head {o : Option (Bool × List Char)} {e rest : List Char} (h : ExponentText o e)
    (hr : EndsNumber rest) : ∀ c ∈ (e ++ rest).head?, ¬ IsDigit c ∧ c ≠ '.' := by
  intro c hc
  cases h with
  | none => exact ⟨(hr c hc).1, (hr c hc).2.1⟩
  | unsigned he | signed he =>
    cases hc
    rcases he with rfl | rfl <;> decide

theorem FractionText.head {o : Option (List Char)} {f rest : List Char} (h : FractionText o f)
    (hr : ∀ c ∈ rest.head?, ¬ IsDigit c ∧ c ≠ '.') : ∀ c ∈ (f ++ rest).head?, ¬ IsDigit c := by
  intro c hc
  cases h with
  | none => exact (hr c hc).1
  | some =>
    cases hc
    decide

theorem fractionPart_append {o : Option (List Char)} {f rest : List Char} (h : FractionText o f)
    (hr : ∀ c ∈ rest.head?, ¬ IsDigit c ∧ c ≠ '.') : fractionPart (f ++ rest) = some (o, rest) := by
  cases h with
  | none =>
    rw [List.nil_append]
    unfold fractionPart
    split
    · exact absurd rfl (hr '.' rfl).2
    · rfl
  | @some ds hne hd =>
    rw [List.cons_append, fractionPart, spanDigits_append hd fun c hc => (hr c hc).1]
    cases ds with
    | nil => exact absurd rfl hne
    | cons c ds => rfl

theorem exponentSign_of_digit {c : Char} {cs : List Char} (h : IsDigit c) :
    exponentSign (c :: cs) = (false, c :: cs) := by
  unfold exponentSign
  split
  · rename_i hc
    cases hc
    exact absurd h (by decide)
  · rename_i hc
    cases hc
    exact absurd h (by decide)
  · rfl

theorem exponentPart_append {o : Option (Bool × List Char)} {e rest : List Char} (h : ExponentText o e)
    (hr : EndsNumber rest) : exponentPart (e ++ rest) = some (o, rest) := by
  have hdigit : ∀ c ∈ rest.head?, ¬ IsDigit c := fun c hc => (hr c hc).1
  cases h with
  | none =>
    cases rest with
    | nil => rfl
    | cons c rest =>
      obtain ⟨-, -, h1, h2⟩ := hr c rfl
      rw [List.nil_append, exponentPart]
      exact if_neg (by simp [h1, h2])
  | @unsigned e ds he hne hd =>
    cases ds with
    | nil => exact absurd rfl hne
    | cons d ds =>
      rw [List.cons_append, exponentPart, if_pos he, List.cons_append,
        exponentSign_of_digit (List.forall_mem_cons.1 hd).1, ← List.cons_append]
      simp only [spanDigits_append hd hdigit]
  | @signed e negative ds he hne hd =>
    cases ds with
    | nil => exact absurd rfl hne
    | cons d ds =>
      have hspan := spanDigits_append hd hdigit
      rw [List.cons_append] at hspan
      rw [List.cons_append, List.cons_append, List.cons_append, exponentPart, if_pos he]
      cases negative with
      | false => simp only [Bool.false_eq_true, if_false, exponentSign, hspan]
      | true => simp only [if_true, exponentSign, hspan]

/-- A number is read from each way to write it. -/
theorem numberParts_append {t : NumberText} {f e rest : List Char} (hw : IsWholePart t.whole)
    (hf : FractionText t.fraction f) (he : ExponentText t.exponent e) (hr : EndsNumber rest) :
    numberParts t.negative (t.whole ++ (f ++ e) ++ rest) = some (t, rest) := by
  have hexp := he.head hr
  have hfrac := hf.head hexp
  unfold numberParts
  rw [List.append_assoc, List.append_assoc, wholePart_append hw hfrac]
  simp only [Option.bind_eq_bind, Option.bind_some]
  rw [fractionPart_append hf hexp]
  simp only [Option.bind_some]
  rw [exponentPart_append he hr]
  rfl

/-! ### Tokens -/

/-- Ways to write a token. -/
inductive Spells : Token → List Char → Prop where
  /-- The opening brace. -/
  | openObject : Spells .openObject ['{']
  /-- The closing brace. -/
  | closeObject : Spells .closeObject ['}']
  /-- The opening bracket. -/
  | openArray : Spells .openArray ['[']
  /-- The closing bracket. -/
  | closeArray : Spells .closeArray [']']
  /-- The colon. -/
  | colon : Spells .colon [':']
  /-- The comma. -/
  | comma : Spells .comma [',']
  /-- The literal `null`. -/
  | null : Spells .null ['n', 'u', 'l', 'l']
  /-- The literal `true`. -/
  | true : Spells (.bool true) ['t', 'r', 'u', 'e']
  /-- The literal `false`. -/
  | false : Spells (.bool false) ['f', 'a', 'l', 's', 'e']
  /-- A string. -/
  | string {s w : List Char} : StringText s w → Spells (.string (some s)) ('"' :: (w ++ ['"']))
  /-- A number. -/
  | number {t : NumberText} {n : Number} {w : List Char} : t.Spelled w → t.value? = some n →
      Spells (.number (some n)) w

/-- What stands behind a token does not belong to it. -/
def Token.EndsBefore : Token → List Char → Prop
  | .number _, rest => EndsNumber rest
  | _, _ => True

theorem firstToken_of_digit {c : Char} {cs : List Char} (h : IsDigit c) :
    firstToken (c :: cs) = (numberParts false (c :: cs)).map fun x => (.number x.1.value?, x.2) := by
  unfold firstToken
  split
  case h_1 he => cases he
  case h_13 => rfl
  all_goals
    rename_i he
    cases he
    exact absurd h (by decide)

theorem isBlank_of_digit {c : Char} (h : IsDigit c) : isBlank c = false := by
  rw [Bool.eq_false_iff]
  intro hb
  simp only [isBlank, Bool.or_eq_true, decide_eq_true_eq] at hb
  rcases hb with ((rfl | rfl) | rfl) | rfl <;> exact absurd h (by decide)

/-- A token is read from each way to write it, which begins with no blank. -/
theorem Spells.firstToken {t : Token} {w rest : List Char} (h : Spells t w) (hr : t.EndsBefore rest) :
    Json.firstToken (w ++ rest) = some (t, rest) ∧ ∃ c cs, w = c :: cs ∧ isBlank c = Bool.false := by
  cases h with
  | string hs =>
    obtain ⟨ps, hp, hd⟩ := hs.exists_pieces rest
    refine ⟨?_, _, _, rfl, rfl⟩
    rw [List.cons_append, List.append_assoc, List.singleton_append, Json.firstToken, hp]
    simp only [Option.map_some, hd]
  | @number t n w hs hn =>
    obtain ⟨negative, whole, fraction, exponent⟩ := t
    obtain @⟨f, e, hw, hf, he⟩ := hs
    have hp := numberParts_append hw hf he hr
    obtain ⟨hne, hd, -⟩ := hw
    cases whole with
    | nil => exact absurd rfl hne
    | cons c cs =>
      cases negative with
      | true =>
        refine ⟨?_, _, _, rfl, rfl⟩
        simp only [if_true, List.cons_append, List.nil_append] at hp ⊢
        rw [Json.firstToken, hp]
        simp only [Option.map_some, hn]
      | false =>
        have hc := (List.forall_mem_cons.1 hd).1
        refine ⟨?_, _, _, rfl, isBlank_of_digit hc⟩
        simp only [Bool.false_eq_true, if_false, List.cons_append, List.nil_append] at hp ⊢
        rw [firstToken_of_digit hc, hp, Option.map_some, hn]
  | _ => exact ⟨rfl, _, _, rfl, rfl⟩

/-! ### Texts -/

/-- The text is made of ways to write the tokens, with blanks in between. -/
inductive Typeset : List Char → List Token → Prop where
  /-- The end. -/
  | nil : Typeset [] []
  /-- A blank. -/
  | blank {c : Char} {text : List Char} {ts : List Token} : isBlank c = true → Typeset text ts →
      Typeset (c :: text) ts
  /-- A token. -/
  | token {w text : List Char} {t : Token} {ts : List Token} : Spells t w → t.EndsBefore text →
      Typeset text ts → Typeset (w ++ text) (t :: ts)

theorem tokensWithin_of_typeset {text : List Char} {ts : List Token} (h : Typeset text ts) {fuel : Nat}
    (hf : text.length ≤ fuel) : tokensWithin fuel text = ts := by
  induction h generalizing fuel with
  | nil => cases fuel <;> rfl
  | @blank c text ts hc _ ih =>
    cases fuel with
    | zero => cases hf
    | succ fuel =>
      rw [tokensWithin, if_pos hc]
      exact ih (Nat.le_of_succ_le_succ hf)
  | @token w text t ts hs he _ ih =>
    obtain ⟨hfirst, c, cs, rfl, hc⟩ := hs.firstToken he
    cases fuel with
    | zero => cases hf
    | succ fuel =>
      rw [List.cons_append, List.length_cons, List.length_append] at hf
      rw [List.cons_append] at hfirst ⊢
      rw [tokensWithin, if_neg (by simp [hc]), hfirst]
      simp only [ih (show text.length ≤ fuel by omega)]

/-- **A text has the tokens that it is made of.** -/
theorem tokens_of_typeset {text : List Char} {ts : List Token} (h : Typeset text ts) : tokens text = ts :=
  tokensWithin_of_typeset h (Nat.le_refl _)

/-! ### The compact form of integers -/

theorem toNat_digitChar : ∀ d < 10, (digitChar d).toNat - 48 = d := by decide

theorem isDigit_digitChar : ∀ d < 10, IsDigit (digitChar d) := by decide

theorem digitChar_eq_zero : ∀ d < 10, digitChar d = '0' → d = 0 := by decide

theorem digitsOf_ne_nil (n : Nat) : digitsOf n ≠ [] := by
  rw [digitsOf]
  split <;> simp

theorem isDigit_of_mem_digitsOf (n : Nat) : ∀ c ∈ digitsOf n, IsDigit c := by
  induction n using digitsOf.induct with
  | case1 n h =>
    rw [digitsOf, if_pos h]
    simpa using isDigit_digitChar n h
  | case2 n h ih =>
    rw [digitsOf, if_neg h]
    refine List.forall_mem_append.2 ⟨ih, ?_⟩
    simpa using isDigit_digitChar (n % 10) (Nat.mod_lt _ (by decide))

/-- Only zero is written with a zero in front. -/
theorem eq_zero_of_head_digitsOf (n : Nat) (h : (digitsOf n).head? = some '0') : n = 0 := by
  induction n using digitsOf.induct with
  | case1 n hn =>
    rw [digitsOf, if_pos hn] at h
    exact digitChar_eq_zero n hn (Option.some.inj h)
  | case2 n hn ih =>
    rw [digitsOf, if_neg hn, List.head?_append, Option.or_of_isSome (by simp [digitsOf_ne_nil])] at h
    have hz := ih h
    omega

theorem isWholePart_digitsOf (n : Nat) : IsWholePart (digitsOf n) := by
  refine ⟨digitsOf_ne_nil n, isDigit_of_mem_digitsOf n, fun h => ?_⟩
  rw [eq_zero_of_head_digitsOf n h, digitsOf]
  rfl

theorem accumulate_append {n : Nat} {ds es : List Char} {m : Nat}
    (h : NumberText.accumulate n ds = (m, [])) :
    NumberText.accumulate n (ds ++ es) = NumberText.accumulate m es := by
  induction ds generalizing n with
  | nil =>
    cases h
    rfl
  | cons d ds ih =>
    rw [NumberText.accumulate] at h
    rw [List.cons_append, NumberText.accumulate]
    split at h
    · rename_i hn
      simp only [if_pos hn]
      exact ih h
    · cases h

/-- A number that fits in 64 bits is read from its digits. -/
theorem accumulate_digitsOf (n : Nat) (h : n < UInt64.size) : NumberText.accumulate 0 (digitsOf n) = (n, []) := by
  induction n using digitsOf.induct with
  | case1 n hn =>
    rw [digitsOf, if_pos hn, NumberText.accumulate, toNat_digitChar n hn]
    simp only [Nat.mul_zero, Nat.zero_add, if_pos h]
    rfl
  | case2 n hn ih =>
    have hlast := toNat_digitChar (n % 10) (Nat.mod_lt _ (by decide))
    have hsum : 10 * (n / 10) + n % 10 = n := Nat.div_add_mod n 10
    rw [digitsOf, if_neg hn, accumulate_append (ih (by omega)), NumberText.accumulate, hlast, hsum]
    simp only [if_pos h]
    rfl

/-- The compact form of an integer that fits in 64 bits is a way to write it. -/
theorem exists_spelled_integer {i : Int} (h : IntegerFits i) :
    ∃ t : NumberText, t.Spelled (integerChars i) ∧ t.value? = some (.integer i) := by
  obtain ⟨hlow, hhigh⟩ := h
  have hpow : Nat.pow 2 63 < UInt64.size := by decide
  refine ⟨⟨decide (i < 0), digitsOf i.natAbs, none, none⟩, ?_, ?_⟩
  · have hs := NumberText.Spelled.intro (t := ⟨decide (i < 0), digitsOf i.natAbs, none, none⟩)
      (isWholePart_digitsOf i.natAbs) .none .none
    unfold integerChars
    by_cases hi : i < 0
    · rw [if_pos hi]
      simpa [hi] using hs
    · rw [if_neg hi]
      simpa [hi] using hs
  · have ha := accumulate_digitsOf i.natAbs (by omega)
    unfold NumberText.value?
    simp only [ha]
    by_cases hi : i < 0
    · rw [if_pos (by simp), if_pos (by simpa using hi), if_pos ⟨by omega, by omega⟩]
      rw [show -((i.natAbs : Nat) : Int) = i by omega]
    · rw [if_pos (by simp), if_neg (by simpa using hi), show ((i.natAbs : Nat) : Int) = i by omega]

end Json

end TurnRelay
