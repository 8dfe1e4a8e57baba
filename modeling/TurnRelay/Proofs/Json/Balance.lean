import TurnRelay.Proofs.Json.Nesting

/-!
# Balance of texts

A text whose tokens are nested is balanced as a text: outside of its strings every bracket has its
partner. A scan of the characters can therefore find the ends of values without knowing the tokens.

## The model

* `Quoted w` — a string's text behind its opening quote, up to the closing one.
* `Balanced w` — outside of strings every bracket has its partner.
* `Lexeme t w`, `Lexed text ts` — `w` is a way to write the token, and the text is made of ways to
  write the tokens, with blanks in between.

## What is proved

* `lexed_tokens` — a text is made of its tokens, if they are all well-formed.
* `Lexed.balanced` — a text made of nested tokens is balanced.
* `Lexed.object` — a text from brace to brace that is made of one object is balanced between them.
-/

namespace TurnRelay

namespace Json

/-! ### Strings -/

/-- A string's text behind its opening quote, up to the closing one and with it. -/
inductive Quoted : List Char → Prop where
  /-- The closing quote. -/
  | close : Quoted ['"']
  /-- A backslash and what stands behind it. -/
  | escape {c : Char} {w : List Char} : Quoted w → Quoted ('\\' :: c :: w)
  /-- Any other character. -/
  | char {c : Char} {w : List Char} : c ≠ '"' → c ≠ '\\' → Quoted w → Quoted (c :: w)

theorem Quoted.hex {c : Char} {n : Nat} {w : List Char} (hc : hexValue? c = some n) (h : Quoted w) :
    Quoted (c :: w) := by
  refine .char ?_ ?_ h
  · rintro rfl
    cases hc
  · rintro rfl
    cases hc

theorem Quoted.hexWord {a b c d : Char} {n : Nat} {w : List Char} (h : hexWord? a b c d = some n)
    (hw : Quoted w) : Quoted (a :: b :: c :: d :: w) := by
  simp only [hexWord?, Option.bind_eq_bind, Option.bind_eq_some_iff] at h
  obtain ⟨na, ha, nb, hb, nc, hc, nd, hd, -⟩ := h
  exact .hex ha (.hex hb (.hex hc (.hex hd hw)))

/-- The pieces of a string are taken from its text. -/
theorem quoted_of_stringPieces {cs rest : List Char} {ps : List Piece}
    (h : stringPieces cs = some (ps, rest)) : ∃ w, cs = w ++ rest ∧ Quoted w := by
  fun_induction stringPieces cs generalizing ps with
  | case1 => cases h
  | case2 us =>
    cases h
    exact ⟨['"'], rfl, .close⟩
  | case3 a b c d us ih =>
    obtain ⟨n, hn, h⟩ := Option.bind_eq_some_iff.1 h
    obtain ⟨⟨qs, vs⟩, hp, hr⟩ := Option.bind_eq_some_iff.1 h
    cases hr
    obtain ⟨w, rfl, hw⟩ := ih hp
    exact ⟨_, rfl, .escape (hw.hexWord hn)⟩
  | case4 e us _ ih =>
    obtain ⟨c, -, h⟩ := Option.bind_eq_some_iff.1 h
    obtain ⟨⟨qs, vs⟩, hp, hr⟩ := Option.bind_eq_some_iff.1 h
    cases hr
    obtain ⟨w, rfl, hw⟩ := ih hp
    exact ⟨_, rfl, .escape hw⟩
  | case5 => cases h
  | case6 c us hq _ he _ ih =>
    obtain ⟨⟨qs, vs⟩, hp, hr⟩ := Option.bind_eq_some_iff.1 h
    cases hr
    obtain ⟨w, rfl, hw⟩ := ih hp
    refine ⟨c :: w, rfl, .char hq ?_ hw⟩
    -- a backslash would have been read together with what stands behind it
    rintro rfl
    cases hw <;> exact he _ _ rfl rfl

/-! ### Balanced texts -/

/-- Whether a character outside of strings is no bracket and begins no string. -/
def IsInert (c : Char) : Prop := c ∉ ['"', '{', '}', '[', ']']

instance (c : Char) : Decidable (IsInert c) := inferInstanceAs (Decidable (_ ∉ _))

/-- Outside of strings every bracket has its partner. -/
inductive Balanced : List Char → Prop where
  /-- No text. -/
  | nil : Balanced []
  /-- A character that is no bracket. -/
  | inert {c : Char} : IsInert c → Balanced [c]
  /-- A string. -/
  | string {w : List Char} : Quoted w → Balanced ('"' :: w)
  /-- Braces around a balanced text. -/
  | object {w : List Char} : Balanced w → Balanced ('{' :: (w ++ ['}']))
  /-- Brackets around a balanced text. -/
  | array {w : List Char} : Balanced w → Balanced ('[' :: (w ++ [']']))
  /-- Balanced texts in a row. -/
  | append {v w : List Char} : Balanced v → Balanced w → Balanced (v ++ w)

theorem balanced_of_inert {w : List Char} (h : ∀ c ∈ w, IsInert c) : Balanced w := by
  induction w with
  | nil => exact .nil
  | cons c w ih =>
    rw [List.forall_mem_cons] at h
    exact .append (.inert h.1) (ih h.2)

/-! ### Numbers -/

theorem isInert_of_digit {c : Char} (h : '0' ≤ c ∧ c ≤ '9') : IsInert c := by
  intro hm
  simp only [List.mem_cons, List.not_mem_nil, or_false] at hm
  rcases hm with rfl | rfl | rfl | rfl | rfl <;> revert h <;> decide

theorem spanDigits_inert (cs : List Char) :
    cs = (spanDigits cs).1 ++ (spanDigits cs).2 ∧ ∀ c ∈ (spanDigits cs).1, IsInert c := by
  induction cs with
  | nil => exact ⟨rfl, by simp [spanDigits]⟩
  | cons c cs ih =>
    rw [spanDigits]
    split
    · rename_i hc
      exact ⟨congrArg (c :: ·) ih.1, List.forall_mem_cons.2 ⟨isInert_of_digit hc, ih.2⟩⟩
    · exact ⟨rfl, by simp⟩

/-- The digits at the front. -/
theorem exists_of_spanDigits {cs ds rest : List Char} (h : spanDigits cs = (ds, rest)) :
    cs = ds ++ rest ∧ ∀ c ∈ ds, IsInert c := by
  have hs := spanDigits_inert cs
  rwa [h] at hs

theorem exists_of_wholePart {cs ds rest : List Char} (h : wholePart cs = some (ds, rest)) :
    cs = ds ++ rest ∧ ds ≠ [] ∧ ∀ c ∈ ds, IsInert c := by
  unfold wholePart at h
  split at h
  · cases h
  · cases h
  · rename_i hne _ hs
    cases h
    obtain ⟨he, hi⟩ := exists_of_spanDigits hs
    exact ⟨he, hne, hi⟩

theorem exists_of_fractionPart {cs rest : List Char} {f : Option (List Char)}
    (h : fractionPart cs = some (f, rest)) : ∃ w, cs = w ++ rest ∧ ∀ c ∈ w, IsInert c := by
  unfold fractionPart at h
  split at h
  · split at h
    · cases h
    · rename_i hs
      cases h
      obtain ⟨rfl, hi⟩ := exists_of_spanDigits hs
      exact ⟨_, rfl, List.forall_mem_cons.2 ⟨by decide, hi⟩⟩
  · cases h
    exact ⟨[], rfl, by simp⟩

theorem exists_of_exponentSign (cs : List Char) :
    ∃ w, cs = w ++ (exponentSign cs).2 ∧ ∀ c ∈ w, IsInert c := by
  unfold exponentSign
  split
  · exact ⟨['+'], rfl, by simp [IsInert]⟩
  · exact ⟨['-'], rfl, by simp [IsInert]⟩
  · exact ⟨[], rfl, by simp⟩

theorem exists_of_exponentPart {cs rest : List Char} {e : Option (Bool × List Char)}
    (h : exponentPart cs = some (e, rest)) : ∃ w, cs = w ++ rest ∧ ∀ c ∈ w, IsInert c := by
  unfold exponentPart at h
  split at h
  · cases h
    exact ⟨[], rfl, by simp⟩
  · rename_i c cs
    split at h
    · rename_i hc
      obtain ⟨sign, hsign, hi⟩ := exists_of_exponentSign cs
      simp only at h
      split at h
      · cases h
      · rename_i ds us _ hs
        cases h
        obtain ⟨he, hd⟩ := exists_of_spanDigits hs
        rw [he] at hsign
        refine ⟨c :: (sign ++ ds), by rw [hsign]; simp, List.forall_mem_cons.2 ⟨?_, ?_⟩⟩
        · rcases hc with rfl | rfl <;> decide
        · exact List.forall_mem_append.2 ⟨hi, hd⟩
    · cases h
      exact ⟨[], rfl, by simp⟩

theorem exists_of_numberParts {negative : Bool} {cs rest : List Char} {t : NumberText}
    (h : numberParts negative cs = some (t, rest)) :
    ∃ w, cs = w ++ rest ∧ w ≠ [] ∧ ∀ c ∈ w, IsInert c := by
  obtain ⟨⟨whole, cs₁⟩, hw, h⟩ := Option.bind_eq_some_iff.1 h
  obtain ⟨⟨fraction, cs₂⟩, hf, h⟩ := Option.bind_eq_some_iff.1 h
  obtain ⟨⟨exponent, cs₃⟩, he, h⟩ := Option.bind_eq_some_iff.1 h
  cases h
  obtain ⟨rfl, hne, hwi⟩ := exists_of_wholePart hw
  obtain ⟨f, rfl, hfi⟩ := exists_of_fractionPart hf
  obtain ⟨e, rfl, hei⟩ := exists_of_exponentPart he
  refine ⟨whole ++ (f ++ e), by simp, by simp [hne], ?_⟩
  exact List.forall_mem_append.2 ⟨hwi, List.forall_mem_append.2 ⟨hfi, hei⟩⟩

/-! ### Tokens -/

/-- The bracket that a token is. -/
def Token.bracket? : Token → Option Char
  | .openObject => some '{'
  | .closeObject => some '}'
  | .openArray => some '['
  | .closeArray => some ']'
  | _ => none

theorem bracket_of_isInert {t : Token} (h : t.isInert = true) : t.bracket? = none := by
  cases t with
  | openObject | closeObject | openArray | closeArray => cases h
  | _ => rfl

/-- The ways to write a token. -/
inductive Lexeme : Token → List Char → Prop where
  /-- A bracket. -/
  | bracket {t : Token} {c : Char} : t.bracket? = some c → Lexeme t [c]
  /-- A token that is no bracket, written as something balanced. -/
  | inert {t : Token} {w : List Char} : t.isInert = true → w ≠ [] → Balanced w → Lexeme t w

theorem Lexeme.ne_nil {t : Token} {w : List Char} (h : Lexeme t w) : w ≠ [] := by
  cases h with
  | bracket => simp
  | inert _ hw _ => exact hw

theorem lexeme_of_inert {t : Token} {w : List Char} (ht : t.isInert = true) (hne : w ≠ [])
    (h : ∀ c ∈ w, IsInert c) : Lexeme t w :=
  .inert ht hne (balanced_of_inert h)

theorem lexeme_of_firstToken {cs rest : List Char} {t : Token} (h : firstToken cs = some (t, rest)) :
    ∃ w, cs = w ++ rest ∧ Lexeme t w := by
  unfold firstToken at h
  split at h
  · cases h
  · cases h
    exact ⟨['{'], rfl, .bracket rfl⟩
  · cases h
    exact ⟨['}'], rfl, .bracket rfl⟩
  · cases h
    exact ⟨['['], rfl, .bracket rfl⟩
  · cases h
    exact ⟨[']'], rfl, .bracket rfl⟩
  · cases h
    exact ⟨[':'], rfl, lexeme_of_inert rfl (by simp) (by simp [IsInert])⟩
  · cases h
    exact ⟨[','], rfl, lexeme_of_inert rfl (by simp) (by simp [IsInert])⟩
  · cases h
    exact ⟨"null".toList, rfl, lexeme_of_inert rfl (by simp) (by simp [IsInert])⟩
  · cases h
    exact ⟨"true".toList, rfl, lexeme_of_inert rfl (by simp) (by simp [IsInert])⟩
  · cases h
    exact ⟨"false".toList, rfl, lexeme_of_inert rfl (by simp) (by simp [IsInert])⟩
  · obtain ⟨⟨ps, us⟩, hp, he⟩ := Option.map_eq_some_iff.1 h
    cases he
    obtain ⟨w, rfl, hw⟩ := quoted_of_stringPieces hp
    exact ⟨'"' :: w, rfl, .inert rfl (by simp) (.string hw)⟩
  · obtain ⟨⟨n, us⟩, hp, he⟩ := Option.map_eq_some_iff.1 h
    cases he
    obtain ⟨w, rfl, -, hi⟩ := exists_of_numberParts hp
    exact ⟨'-' :: w, rfl, lexeme_of_inert rfl (by simp) (List.forall_mem_cons.2 ⟨by decide, hi⟩)⟩
  · obtain ⟨⟨n, us⟩, hp, he⟩ := Option.map_eq_some_iff.1 h
    cases he
    obtain ⟨w, rfl, hne, hi⟩ := exists_of_numberParts hp
    exact ⟨w, rfl, lexeme_of_inert rfl hne hi⟩

/-- The text is made of ways to write the tokens, with blanks in between. -/
inductive Lexed : List Char → List Token → Prop where
  /-- The end. -/
  | nil : Lexed [] []
  /-- A blank. -/
  | blank {c : Char} {text : List Char} {ts : List Token} : isBlank c = true → Lexed text ts →
      Lexed (c :: text) ts
  /-- A token. -/
  | token {w text : List Char} {t : Token} {ts : List Token} : Lexeme t w → Lexed text ts →
      Lexed (w ++ text) (t :: ts)

/-- A text is made of its tokens. -/
theorem lexed_tokensWithin {fuel : Nat} {text : List Char} (hf : text.length ≤ fuel)
    (h : .malformed ∉ tokensWithin fuel text) : Lexed text (tokensWithin fuel text) := by
  induction fuel generalizing text with
  | zero =>
    rw [List.length_eq_zero_iff.1 (Nat.le_zero.1 hf)]
    exact .nil
  | succ fuel ih =>
    cases text with
    | nil => exact .nil
    | cons c cs =>
      rw [List.length_cons] at hf
      rw [tokensWithin] at h ⊢
      split at h
      · rename_i hc
        rw [if_pos hc]
        exact .blank hc (ih (by omega) h)
      · rename_i hc
        rw [if_neg hc]
        split at h
        · rename_i t rest ht
          obtain ⟨w, he, hw⟩ := lexeme_of_firstToken ht
          have hpos := List.length_pos_iff.2 hw.ne_nil
          have hlen := congrArg List.length he
          rw [List.length_cons, List.length_append] at hlen
          rw [he]
          exact .token hw (ih (by omega) fun hm => h (List.mem_cons_of_mem t hm))
        · exact absurd (List.mem_singleton.2 rfl) h

theorem lexed_tokens {text : List Char} (h : .malformed ∉ tokens text) : Lexed text (tokens text) :=
  lexed_tokensWithin (Nat.le_refl _) h

/-! ### Nested tokens -/

theorem isInert_of_isBlank {c : Char} (h : isBlank c = true) : IsInert c := by
  simp only [isBlank, Bool.or_eq_true, decide_eq_true_eq] at h
  rcases h with ((rfl | rfl) | rfl) | rfl <;> decide

/-- The text is cut at a token; blanks before the token stay with what stands before. -/
theorem Lexed.exists_middle {text : List Char} {ts us : List Token} {u : Token}
    (h : Lexed text (ts ++ u :: us)) :
    ∃ before w behind, text = before ++ (w ++ behind) ∧ Lexed before ts ∧ Lexeme u w ∧ Lexed behind us := by
  generalize hl : ts ++ u :: us = l at h
  induction h generalizing ts with
  | nil => simp at hl
  | @blank c text l hc _ ih =>
    obtain ⟨before, w, behind, rfl, hb, hw, hr⟩ := ih hl
    exact ⟨c :: before, w, behind, rfl, .blank hc hb, hw, hr⟩
  | @token v text t l hv hr ih =>
    cases ts with
    | nil =>
      cases hl
      exact ⟨[], v, text, rfl, .nil, hv, hr⟩
    | cons t' ts =>
      cases hl
      obtain ⟨before, w, behind, rfl, hb, hw, hr⟩ := ih rfl
      exact ⟨v ++ before, w, behind, by simp, .token hv hb, hw, hr⟩

/-- Only blanks stand before the first token. -/
theorem Lexed.exists_cons {text : List Char} {us : List Token} {u : Token} (h : Lexed text (u :: us)) :
    ∃ before w behind, text = before ++ (w ++ behind) ∧ Lexed before [] ∧ Lexeme u w ∧ Lexed behind us :=
  @exists_middle text [] us u h

/-- The text is cut between tokens. -/
theorem Lexed.exists_append {text : List Char} {ts us : List Token} (h : Lexed text (ts ++ us)) :
    ∃ v w, text = v ++ w ∧ Lexed v ts ∧ Lexed w us := by
  cases us with
  | nil => exact ⟨text, [], by simp, by simpa using h, .nil⟩
  | cons u us =>
    obtain ⟨before, w, behind, rfl, hb, hw, hr⟩ := h.exists_middle
    exact ⟨before, w ++ behind, rfl, hb, .token hw hr⟩

theorem Lexed.isBlank_of_mem {text : List Char} (h : Lexed text []) : ∀ c ∈ text, isBlank c = true := by
  generalize hl : ([] : List Token) = l at h
  induction h with
  | nil => simp
  | blank hc _ ih => exact List.forall_mem_cons.2 ⟨hc, ih hl⟩
  | token => cases hl

theorem Lexed.balanced_nil {text : List Char} (h : Lexed text []) : Balanced text :=
  balanced_of_inert fun c hc => isInert_of_isBlank (h.isBlank_of_mem c hc)

theorem Lexeme.balanced {t : Token} {w : List Char} (h : Lexeme t w) (ht : t.isInert = true) :
    Balanced w := by
  cases h with
  | bracket hc =>
    rw [bracket_of_isInert ht] at hc
    cases hc
  | inert _ _ hw => exact hw

theorem Lexeme.eq_bracket {t : Token} {c : Char} {w : List Char} (h : Lexeme t w)
    (hc : t.bracket? = some c) : w = [c] := by
  cases h with
  | bracket hc' => rw [Option.some.inj (hc'.symm.trans hc)]
  | inert ht =>
    rw [bracket_of_isInert ht] at hc
    cases hc

/-- What stands between a bracket and its partner. -/
theorem Lexed.exists_between {text : List Char} {ts : List Token} {t u : Token}
    (h : Lexed text (t :: (ts ++ [u]))) :
    ∃ before v inside w behind, text = before ++ ((v ++ (inside ++ w)) ++ behind) ∧ Lexed before [] ∧
      Lexeme t v ∧ Lexed inside ts ∧ Lexeme u w ∧ Lexed behind [] := by
  obtain ⟨before, v, rest, rfl, hb, hv, hr⟩ := h.exists_cons
  obtain ⟨inside, w, behind, rfl, hi, hw, hr⟩ := hr.exists_middle
  exact ⟨before, v, inside, w, behind, by simp, hb, hv, hi, hw, hr⟩

/-- **A text made of nested tokens is balanced.** -/
theorem Lexed.balanced {text : List Char} {ts : List Token} (h : Lexed text ts) (hn : Nested ts) :
    Balanced text := by
  induction hn generalizing text with
  | nil => exact h.balanced_nil
  | inert ht =>
    obtain ⟨before, w, behind, rfl, hb, hw, hr⟩ := h.exists_cons
    exact .append hb.balanced_nil (.append (hw.balanced ht) hr.balanced_nil)
  | object _ ih =>
    obtain ⟨before, v, inside, w, behind, rfl, hb, hv, hi, hw, hr⟩ := h.exists_between
    rw [hv.eq_bracket rfl, hw.eq_bracket rfl]
    exact .append hb.balanced_nil (.append (.object (ih hi)) hr.balanced_nil)
  | array _ ih =>
    obtain ⟨before, v, inside, w, behind, rfl, hb, hv, hi, hw, hr⟩ := h.exists_between
    rw [hv.eq_bracket rfl, hw.eq_bracket rfl]
    exact .append hb.balanced_nil (.append (.array (ih hi)) hr.balanced_nil)
  | append _ _ ih ih' =>
    obtain ⟨v, w, rfl, hv, hw⟩ := h.exists_append
    exact .append (ih hv) (ih' hw)

/-- An object from brace to brace is balanced between them. -/
theorem Lexed.object {text : List Char} {ts : List Token}
    (h : Lexed text (.openObject :: (ts ++ [.closeObject]))) (hn : Nested ts)
    (hhead : text.head? = some '{') (hlast : text.getLast? = some '}') :
    ∃ w, text = '{' :: (w ++ ['}']) ∧ Balanced w := by
  obtain ⟨before, v, inside, w, behind, rfl, hb, hv, hi, hw, hr⟩ := h.exists_between
  rw [hv.eq_bracket rfl, hw.eq_bracket rfl] at hhead hlast ⊢
  refine ⟨inside, ?_, hi.balanced hn⟩
  have hbefore : before = [] := by
    cases before with
    | nil => rfl
    | cons c before =>
      cases hhead
      exact absurd (hb.isBlank_of_mem '{' (by simp)) (by decide)
  have hbehind : behind = [] := by
    rcases List.eq_nil_or_concat behind with hn | ⟨rest, c, rfl⟩
    · exact hn
    · simp only [List.concat_eq_append, ← List.append_assoc, List.getLast?_concat,
        Option.some.injEq] at hlast
      subst hlast
      exact absurd (hr.isBlank_of_mem '}' (by simp)) (by decide)
  rw [hbefore, hbehind]
  simp

end Json

end TurnRelay
