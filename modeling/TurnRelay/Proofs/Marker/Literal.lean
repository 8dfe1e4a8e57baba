import TurnRelay.Marker.Sieve
import Mathlib.Data.List.Infix

/-!
# Literals in a text

The two literals begin with a bracket and hold no other, so that no literal begins inside another one
and what stands in front of a literal cannot change which literal that is. From this follows when a
piece of a text is settled, `Settled p z`: neither a literal nor the beginning of one starts in `p`,
when `z` comes behind.

## What is proved

* `Settled.append` — what is settled stays so, whatever follows.
* `settled_of_isPlain` — a text without literals is settled in front of a bracket.
* `settled_of_firstLiteral`, `settled_openTail` — what stands before the first literal is settled; if
  there is none, so is what stands before the open tail.
* `firstLiteral_settled`, `openTail_settled` — a settled piece does not matter for what follows it.
-/

namespace TurnRelay

namespace Marker

/-! ### The literals -/

theorem literal_eq_cons (k : Kind) : k.literal = '[' :: k.literal.tail := by
  cases k <;> rfl

theorem bracket_not_mem_tail (k : Kind) : '[' ∉ k.literal.tail := by
  cases k <;> decide

/-- Neither literal is the beginning of the other. -/
theorem kind_eq_of_literals {k k' : Kind} {text : List Char} (h : k.literal <+: text)
    (h' : k'.literal <+: text) : k = k' := by
  rcases List.prefix_or_prefix_of_prefix h h' with hp | hp <;> revert hp <;>
    cases k <;> cases k' <;> decide

theorem literalAt_eq_some_iff {text : List Char} {k : Kind} :
    literalAt text = some k ↔ k.literal <+: text := by
  unfold literalAt
  constructor
  · intro h
    split at h
    · rename_i hp
      cases h
      exact List.isPrefixOf_iff_prefix.1 hp
    · split at h
      · rename_i hp
        cases h
        exact List.isPrefixOf_iff_prefix.1 hp
      · cases h
  · intro h
    split
    · rename_i hp
      rw [kind_eq_of_literals h (List.isPrefixOf_iff_prefix.1 hp)]
    · rename_i hd
      split
      · rename_i hp
        rw [kind_eq_of_literals h (List.isPrefixOf_iff_prefix.1 hp)]
      · rename_i hr
        cases k with
        | dashboard => exact absurd (List.isPrefixOf_iff_prefix.2 h) hd
        | render => exact absurd (List.isPrefixOf_iff_prefix.2 h) hr

theorem literalAt_eq_none_iff {text : List Char} :
    literalAt text = none ↔ ∀ k : Kind, ¬ k.literal <+: text := by
  rw [Option.eq_none_iff_forall_ne_some]
  exact forall_congr' fun k => not_congr literalAt_eq_some_iff

theorem literalAt_append {text : List Char} {k : Kind} (h : literalAt text = some k) (y : List Char) :
    literalAt (text ++ y) = some k :=
  literalAt_eq_some_iff.2 ((literalAt_eq_some_iff.1 h).trans (List.prefix_append text y))

theorem isOpening_iff {text : List Char} :
    isOpening text = true ↔ ∃ k : Kind, text.length < k.literal.length ∧ text <+: k.literal := by
  simp only [isOpening, List.any_cons, List.any_nil, Bool.or_false, Bool.or_eq_true, Bool.and_eq_true,
    decide_eq_true_eq, List.isPrefixOf_iff_prefix]
  constructor
  · rintro (h | h)
    · exact ⟨.dashboard, h⟩
    · exact ⟨.render, h⟩
  · rintro ⟨k, h⟩
    cases k with
    | dashboard => exact .inl h
    | render => exact .inr h

/-- The beginning of a literal is what something can be added to, to make the literal. -/
theorem isOpening_iff_exists_append {text : List Char} :
    isOpening text = true ↔ ∃ (k : Kind) (r : List Char), r ≠ [] ∧ text ++ r = k.literal := by
  rw [isOpening_iff]
  refine exists_congr fun k => ⟨fun ⟨hlt, r, hr⟩ => ⟨r, ?_, hr⟩, fun ⟨r, hne, hr⟩ => ⟨?_, r, hr⟩⟩
  · rintro rfl
    rw [← hr, List.append_nil] at hlt
    exact Nat.lt_irrefl _ hlt
  · have := List.length_pos_iff.2 hne
    rw [← hr, List.length_append]
    omega

theorem isOpening_of_append {text y : List Char} (h : isOpening (text ++ y) = true) :
    isOpening text = true := by
  obtain ⟨k, hl, hp⟩ := isOpening_iff.1 h
  rw [List.length_append] at hl
  exact isOpening_iff.2 ⟨k, by omega, (List.prefix_append text y).trans hp⟩

/-- What is neither a literal nor the beginning of one does not become a literal. -/
theorem literalAt_append_eq_none {text : List Char} (h : literalAt text = none)
    (ho : isOpening text = false) (y : List Char) : literalAt (text ++ y) = none := by
  rw [literalAt_eq_none_iff] at h ⊢
  intro k hk
  rcases List.prefix_or_prefix_of_prefix hk (List.prefix_append text y) with hp | hp
  · exact h k hp
  · by_cases hl : text.length < k.literal.length
    · rw [isOpening_iff.2 ⟨k, hl, hp⟩] at ho
      cases ho
    · exact h k (hp.eq_of_length_le (by omega) ▸ List.prefix_rfl)

/-! ### Settled pieces -/

/-- Neither a literal nor the beginning of one starts in `p`, when `z` comes behind. -/
def Settled : (p z : List Char) → Prop
  | [], _ => True
  | c :: p, z => literalAt (c :: (p ++ z)) = none ∧ isOpening (c :: (p ++ z)) = false ∧ Settled p z

/-- What is settled stays so, whatever follows. -/
theorem Settled.append {p z : List Char} (h : Settled p z) (y : List Char) : Settled p (z ++ y) := by
  induction p with
  | nil => trivial
  | cons c p ih =>
    obtain ⟨hl, ho, hp⟩ := h
    rw [Settled, ← List.append_assoc, ← List.cons_append]
    refine ⟨literalAt_append_eq_none hl ho y, ?_, ih hp⟩
    rw [Bool.eq_false_iff] at ho ⊢
    exact fun h => ho (isOpening_of_append h)

/-- A list without a character that ends before it. -/
theorem prefix_of_prefix_append_cons {l p y : List Char} {c : Char} (hc : c ∉ l)
    (h : l <+: p ++ c :: y) : l <+: p := by
  rcases List.prefix_or_prefix_of_prefix h (List.prefix_append p (c :: y)) with hp | ⟨m, rfl⟩
  · exact hp
  · rw [List.prefix_append_right_inj] at h
    cases m with
    | nil => simp
    | cons d m =>
      rw [List.cons_prefix_cons] at h
      exact absurd (by simp [h.1]) hc

/-- A literal cannot reach over the bracket that begins another one. -/
theorem literalAt_cons_append_bracket {c : Char} {p y : List Char} {k : Kind}
    (h : literalAt (c :: (p ++ '[' :: y)) = some k) : k.literal <+: c :: p := by
  rw [literalAt_eq_some_iff, literal_eq_cons, List.cons_prefix_cons] at h
  rw [literal_eq_cons, List.cons_prefix_cons]
  exact ⟨h.1, prefix_of_prefix_append_cons (bracket_not_mem_tail k) h.2⟩

theorem isOpening_cons_append_bracket (c : Char) (p y : List Char) :
    isOpening (c :: (p ++ '[' :: y)) = false := by
  rw [Bool.eq_false_iff]
  intro h
  obtain ⟨k, -, hp⟩ := isOpening_iff.1 h
  rw [literal_eq_cons, List.cons_prefix_cons] at hp
  exact bracket_not_mem_tail k (hp.2.subset (by simp))

/-- No literal stands in the text. -/
def IsPlain (text : List Char) : Prop := ∀ k : Kind, ¬ k.literal <:+: text

theorem IsPlain.tail {c : Char} {p : List Char} (h : IsPlain (c :: p)) : IsPlain p :=
  fun k hk => h k (hk.trans (List.suffix_cons c p).isInfix)

/-- A text without literals is settled in front of a bracket. -/
theorem settled_of_isPlain {p : List Char} (h : IsPlain p) (y : List Char) : Settled p ('[' :: y) := by
  induction p with
  | nil => trivial
  | cons c p ih =>
    refine ⟨?_, isOpening_cons_append_bracket c p y, ih h.tail⟩
    rw [Option.eq_none_iff_forall_ne_some]
    exact fun k hk => h k (literalAt_cons_append_bracket hk).isInfix

/-! ### The first literal and the open tail -/

theorem firstLiteral_eq_none_iff {text : List Char} : firstLiteral text = none ↔ IsPlain text := by
  induction text with
  | nil =>
    refine ⟨fun _ k hk => ?_, fun _ => rfl⟩
    have hpos := literal_pos k
    rw [List.infix_nil.1 hk] at hpos
    exact absurd hpos (Nat.lt_irrefl 0)
  | cons c cs ih =>
    rw [firstLiteral]
    split
    · rename_i k hk
      simp only [reduceCtorEq, false_iff]
      exact fun hp => hp k (literalAt_eq_some_iff.1 hk).isInfix
    · rename_i hn
      rw [Option.map_eq_none_iff, ih]
      refine forall_congr' fun k => not_congr ?_
      rw [List.infix_cons_iff]
      exact (or_iff_right (literalAt_eq_none_iff.1 hn k)).symm

instance (text : List Char) : Decidable (IsPlain text) := decidable_of_iff _ firstLiteral_eq_none_iff

theorem firstLiteral_of_literalAt {text : List Char} {k : Kind} (h : literalAt text = some k) :
    firstLiteral text = some ([], k, text) := by
  cases text with
  | nil => cases h
  | cons c cs => simp [firstLiteral, h]

/-- What stands before the first literal is settled. -/
theorem settled_of_firstLiteral {text before rest : List Char} {k : Kind}
    (h : firstLiteral text = some (before, k, rest)) :
    text = before ++ rest ∧ literalAt rest = some k ∧ Settled before rest := by
  induction text generalizing before with
  | nil => cases h
  | cons c cs ih =>
    rw [firstLiteral] at h
    split at h
    · rename_i k' hk
      cases h
      exact ⟨rfl, hk, trivial⟩
    · rename_i hn
      obtain ⟨⟨before', k', rest'⟩, hf, he⟩ := Option.map_eq_some_iff.1 h
      cases he
      obtain ⟨rfl, hk, hs⟩ := ih hf
      refine ⟨rfl, hk, hn, ?_, hs⟩
      obtain ⟨tail, rfl⟩ := literalAt_eq_some_iff.1 hk
      rw [literal_eq_cons]
      exact isOpening_cons_append_bracket c before' _

theorem settled_openTail {text : List Char} (h : firstLiteral text = none) :
    ∃ p, text = p ++ openTail text ∧ Settled p (openTail text) := by
  induction text with
  | nil => exact ⟨[], rfl, trivial⟩
  | cons c cs ih =>
    rw [firstLiteral] at h
    split at h
    · cases h
    · rename_i hn
      rw [openTail]
      split
      · exact ⟨[], rfl, trivial⟩
      · rename_i ho
        obtain ⟨p, hp, hs⟩ := ih (Option.map_eq_none_iff.1 h)
        rw [Bool.not_eq_true] at ho
        exact ⟨c :: p, by rw [List.cons_append, ← hp], by rwa [← hp], by rwa [← hp], hs⟩

theorem firstLiteral_settled {p z : List Char} (h : Settled p z) :
    firstLiteral (p ++ z) = (firstLiteral z).map fun (before, k, rest) => (p ++ before, k, rest) := by
  induction p with
  | nil => simp
  | cons c p ih =>
    obtain ⟨hl, -, hp⟩ := h
    rw [List.cons_append, firstLiteral, hl]
    simp only [ih hp, Option.map_map]
    rfl

theorem openTail_settled {p z : List Char} (h : Settled p z) : openTail (p ++ z) = openTail z := by
  induction p with
  | nil => rfl
  | cons c p ih =>
    obtain ⟨-, ho, hp⟩ := h
    rw [List.cons_append, openTail, ho, if_neg Bool.false_ne_true, ih hp]

theorem isOpening_openTail (text : List Char) : isOpening (openTail text) = true := by
  induction text with
  | nil => rfl
  | cons c cs ih =>
    rw [openTail]
    split
    · rename_i ho
      exact ho
    · exact ih

theorem openTail_suffix (text : List Char) : openTail text <:+ text := by
  induction text with
  | nil => exact List.suffix_rfl
  | cons c cs ih =>
    rw [openTail]
    split
    · exact List.suffix_rfl
    · exact ih.trans (List.suffix_cons c cs)

/-- The open tail is the longest end of a text that is the beginning of a literal. -/
theorem suffix_openTail {t text : List Char} (h : t <:+ text) (ho : isOpening t = true) : t <:+ openTail text := by
  induction text with
  | nil => exact h
  | cons c cs ih =>
    rw [openTail]
    split
    · exact h
    · rename_i hno
      rcases List.suffix_cons_iff.1 h with rfl | h
      · exact absurd ho hno
      · exact ih h

end Marker

end TurnRelay
