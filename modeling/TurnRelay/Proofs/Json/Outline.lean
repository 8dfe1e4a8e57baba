import TurnRelay.Json.Reader
import TurnRelay.Proofs.Json.Spelling

/-!
# Values and their tokens

A value has just one row of tokens. Whatever text is made of these tokens, in whichever of the ways to write
them and with whatever blanks, is read as the value, as long as its containers are not nested too deep. The
compact form is such a text if the value's numbers are integers of 64 bits.

## The model

* `Json.outline` — the tokens of a value.
* `Json.depth` — how deep its containers are nested.
* `Json.isIntegral` — its numbers are integers of 64 bits.

## What is proved

* `parseRaw_of_typeset` — a text made of a value's tokens is read as the value.
* `typeset_chars`, `parseRaw_chars` — the compact form of a value with integers only is made of its tokens, and read as
  the value.
-/

namespace TurnRelay

namespace Json

/-! ### Tokens and depth -/

mutual

/-- The tokens of a value. -/
def outline : Json → List Token
  | .null => [.null]
  | .bool b => [.bool b]
  | .number n => [.number (some n)]
  | .string s => [.string (some s.toList)]
  | .array items => .openArray :: itemsOutline items
  | .object members => .openObject :: membersOutline members

/-- The tokens of an array's items and its closing bracket. -/
def itemsOutline : List Json → List Token
  | [] => [.closeArray]
  | [v] => outline v ++ [.closeArray]
  | v :: vs => outline v ++ .comma :: itemsOutline vs

/-- The tokens of an object's members and its closing brace. -/
def membersOutline : List (String × Json) → List Token
  | [] => [.closeObject]
  | [(k, v)] => .string (some k.toList) :: .colon :: (outline v ++ [.closeObject])
  | (k, v) :: ms => .string (some k.toList) :: .colon :: (outline v ++ .comma :: membersOutline ms)

end

mutual

/-- How many containers stand inside one another. -/
def depth : Json → Nat
  | .array items => itemsDepth items + 1
  | .object members => membersDepth members + 1
  | _ => 0

/-- How deep the items of an array are. -/
def itemsDepth : List Json → Nat
  | [] => 0
  | v :: vs => max (depth v) (itemsDepth vs)

/-- How deep the members of an object are. -/
def membersDepth : List (String × Json) → Nat
  | [] => 0
  | (_, v) :: ms => max (depth v) (membersDepth ms)

end

mutual

/-- All numbers are integers of 64 bits, signed or unsigned. -/
def isIntegral : Json → Bool
  | .number (.integer i) => decide (IntegerFits i)
  | .number (.float _) => false
  | .array items => areIntegral items
  | .object members => membersIntegral members
  | _ => true

/-- All numbers in the items of an array are. -/
def areIntegral : List Json → Bool
  | [] => true
  | v :: vs => isIntegral v && areIntegral vs

/-- All numbers in the members of an object are. -/
def membersIntegral : List (String × Json) → Bool
  | [] => true
  | (_, v) :: ms => isIntegral v && membersIntegral ms

end

theorem membersIntegral_iff {ms : Members} : membersIntegral ms = true ↔ ∀ m ∈ ms, m.2.isIntegral = true := by
  induction ms with
  | nil => simp [membersIntegral]
  | cons m ms ih => rw [membersIntegral, Bool.and_eq_true, ih, List.forall_mem_cons]

/-! ### Reading -/

/-- No value begins with a closing bracket. -/
theorem outline_append_ne (v : Json) (ts us : List Token) : v.outline ++ ts ≠ .closeArray :: us := by
  cases v <;> simp [outline]

theorem itemsOutline_append_ne {v : Json} {vs : List Json} {ts us : List Token} :
    itemsOutline (v :: vs) ++ ts ≠ .closeArray :: us := by
  cases vs with
  | nil =>
    rw [itemsOutline, List.append_assoc]
    exact outline_append_ne v _ us
  | cons w ws =>
    rw [itemsOutline, List.append_assoc]
    · exact outline_append_ne v _ us
    · simp

/-- The members of an object begin with a name. -/
theorem exists_membersOutline_append (m : String × Json) (ms : Members) (rest : List Token) :
    ∃ k us, membersOutline (m :: ms) ++ rest = .string (some k) :: .colon :: us := by
  cases ms with
  | nil => exact ⟨_, _, rfl⟩
  | cons m' ms =>
    rw [membersOutline]
    · exact ⟨_, _, rfl⟩
    · simp

variable {limit : Nat}

mutual

/-- A value's tokens are read as the value. -/
theorem readValue_outline : ∀ (v : Json) (outer : List Open) (rest : List Token),
    outer.length + v.depth ≤ limit →
    readValue limit outer (v.outline ++ rest) = closeValue limit v outer rest
  | .null, outer, rest, _ => by rw [outline, List.singleton_append, readValue]
  | .bool b, outer, rest, _ => by rw [outline, List.singleton_append, readValue]
  | .number n, outer, rest, _ => by rw [outline, List.singleton_append, readValue]
  | .string s, outer, rest, _ => by rw [outline, List.singleton_append, readValue, String.ofList_toList]
  | .array [], outer, rest, h => by
    rw [outline, itemsOutline, List.cons_append, List.singleton_append, readValue,
      if_pos (by simp only [depth, itemsDepth] at h; omega)]
  | .array (v :: vs), outer, rest, h => by
    rw [outline, List.cons_append, readValue]
    · rw [if_pos (by simp only [depth] at h; omega)]
      exact readValue_itemsOutline (v :: vs) (by simp) [] outer rest (by simpa only [depth] using h)
    · exact fun ts hts => itemsOutline_append_ne hts
  | .object [], outer, rest, h => by
    rw [outline, membersOutline, List.cons_append, List.singleton_append, readValue,
      if_pos (by simp only [depth, membersDepth] at h; omega)]
  | .object (m :: ms), outer, rest, h => by
    obtain ⟨k, us, hus⟩ := exists_membersOutline_append m ms rest
    rw [outline, List.cons_append, hus, readValue, if_pos (by simp only [depth] at h; omega)]
    exact readValue_membersOutline (m :: ms) [] outer rest (by simpa only [depth] using h) k us hus

/-- The items of an array are read behind those that have been read, `done`, the newest first. -/
theorem readValue_itemsOutline : ∀ (vs : List Json), vs ≠ [] → ∀ (done : List Json) (outer : List Open)
    (rest : List Token), outer.length + (itemsDepth vs + 1) ≤ limit →
    readValue limit (.array done :: outer) (itemsOutline vs ++ rest) =
      closeValue limit (.array (done.reverse ++ vs)) outer rest
  | [], hne, _, _, _, _ => absurd rfl hne
  | [v], _, done, outer, rest, h => by
    rw [itemsOutline, List.append_assoc, List.singleton_append,
      readValue_outline v _ _ (by simp only [itemsDepth, List.length_cons] at h ⊢; omega), closeValue,
      List.reverse_cons]
  | v :: w :: vs, _, done, outer, rest, h => by
    rw [itemsDepth] at h
    rw [itemsOutline, List.append_assoc, List.cons_append,
      readValue_outline v _ _ (by simp only [List.length_cons]; omega), closeValue,
      readValue_itemsOutline (w :: vs) (by simp) _ _ _ (by omega), List.reverse_cons, List.append_assoc,
      List.singleton_append]
    simp

/-- The members of an object are read behind those that have been read; the name of the first has been
read, too. -/
theorem readValue_membersOutline : ∀ (ms : List (String × Json)) (done : Members) (outer : List Open)
    (rest : List Token), outer.length + (membersDepth ms + 1) ≤ limit →
    ∀ k us, membersOutline ms ++ rest = .string (some k) :: .colon :: us →
    readValue limit (.object done (String.ofList k) :: outer) us =
      closeValue limit (.object (done.reverse ++ ms)) outer rest
  | [], _, _, _, _, k, us, hus => by simp [membersOutline] at hus
  | [(l, v)], done, outer, rest, h, k, us, hus => by
    simp only [membersOutline, List.cons_append, List.append_assoc, List.nil_append, List.cons.injEq,
      Token.string.injEq, Option.some.injEq, true_and] at hus
    obtain ⟨rfl, rfl⟩ := hus
    rw [readValue_outline v _ _ (by simp only [membersDepth, List.length_cons] at h ⊢; omega), closeValue,
      List.reverse_cons, String.ofList_toList]
  | (l, v) :: m :: ms, done, outer, rest, h, k, us, hus => by
    rw [membersDepth] at h
    obtain ⟨k', us', hus'⟩ := exists_membersOutline_append m ms rest
    rw [membersOutline, List.cons_append, List.cons_append, List.append_assoc, List.cons_append, hus'] at hus
    · simp only [List.cons.injEq, Token.string.injEq, Option.some.injEq, true_and] at hus
      obtain ⟨rfl, rfl⟩ := hus
      rw [readValue_outline v _ _ (by simp only [List.length_cons]; omega), closeValue,
        readValue_membersOutline (m :: ms) _ outer rest (by omega) k' us' hus', List.reverse_cons,
        String.ofList_toList, List.append_assoc, List.singleton_append]
    · simp

end

/-- **A text made of a value's tokens is read as the value**, if it is not nested too deep. -/
theorem parseRaw_of_typeset {text : List Char} {v : Json} (ht : Typeset text v.outline)
    (hd : v.depth ≤ maxDepth) : parseRaw? text = some v := by
  have hread := readValue_outline v [] [] (by simpa using hd)
  rw [List.append_nil, closeValue] at hread
  unfold parseRaw?
  rw [tokens_of_typeset ht, hread]

/-! ### Writing -/

theorem endsNumber_cons {c : Char} (h : c = ',' ∨ c = ']' ∨ c = '}') (rest : List Char) :
    EndsNumber (c :: rest) := by
  intro d hd
  cases hd
  rcases h with rfl | rfl | rfl <;> decide

/-- A token behind which anything can stand. -/
theorem Typeset.cons {t : Token} {w text : List Char} {ts : List Token} (hs : Spells t w)
    (ht : ∀ rest, t.EndsBefore rest) (h : Typeset text ts) : Typeset (w ++ text) (t :: ts) :=
  .token hs (ht text) h

theorem Typeset.stringChars {text : List Char} {ts : List Token} (s : List Char) (h : Typeset text ts) :
    Typeset (Json.stringChars s ++ text) (.string (some s) :: ts) :=
  h.cons (.string (stringText_flatMap s)) fun _ => trivial

mutual

/-- The compact form of a value is made of its tokens. -/
theorem typeset_chars_append : ∀ (v : Json) (rest : List Char) (ts : List Token), v.isIntegral = true →
    EndsNumber rest → Typeset rest ts → Typeset (v.chars ++ rest) (v.outline ++ ts)
  | .null, rest, ts, _, _, h => h.cons .null fun _ => trivial
  | .bool true, rest, ts, _, _, h => h.cons .true fun _ => trivial
  | .bool false, rest, ts, _, _, h => h.cons .false fun _ => trivial
  | .number (.integer i), rest, ts, hv, hr, h => by
    obtain ⟨t, ht, hi⟩ := exists_spelled_integer (of_decide_eq_true hv)
    exact .token (.number ht hi) hr h
  | .number (.float x), rest, ts, hv, _, _ => by cases hv
  | .string s, rest, ts, _, _, h => h.stringChars s.toList
  | .array items, rest, ts, hv, _, h =>
    (typeset_itemsChars_append items rest ts hv h).cons (w := ['[']) .openArray fun _ => trivial
  | .object members, rest, ts, hv, _, h =>
    (typeset_membersChars_append members rest ts hv h).cons (w := ['{']) .openObject fun _ => trivial

/-- The items of an array and its closing bracket are made of their tokens. -/
theorem typeset_itemsChars_append : ∀ (vs : List Json) (rest : List Char) (ts : List Token),
    areIntegral vs = true → Typeset rest ts → Typeset (itemsChars vs ++ rest) (itemsOutline vs ++ ts)
  | [], rest, ts, _, h => h.cons .closeArray fun _ => trivial
  | [v], rest, ts, hv, h => by
    simp only [areIntegral, Bool.and_true] at hv
    rw [itemsChars, itemsOutline, List.append_assoc, List.append_assoc]
    exact typeset_chars_append v _ _ hv (endsNumber_cons (by simp) _) (h.cons .closeArray fun _ => trivial)
  | v :: w :: vs, rest, ts, hv, h => by
    rw [areIntegral, Bool.and_eq_true] at hv
    have hmore := (typeset_itemsChars_append (w :: vs) rest ts hv.2 h).cons .comma fun _ => trivial
    rw [itemsChars, itemsOutline, List.append_assoc, List.append_assoc]
    · exact typeset_chars_append v _ _ hv.1 (endsNumber_cons (by simp) _) hmore
    all_goals simp

/-- The members of an object and its closing brace are made of their tokens. -/
theorem typeset_membersChars_append : ∀ (ms : List (String × Json)) (rest : List Char) (ts : List Token),
    membersIntegral ms = true → Typeset rest ts →
    Typeset (membersChars ms ++ rest) (membersOutline ms ++ ts)
  | [], rest, ts, _, h => h.cons .closeObject fun _ => trivial
  | [(k, v)], rest, ts, hv, h => by
    simp only [membersIntegral, Bool.and_true] at hv
    have hvalue := typeset_chars_append v ('}' :: rest) (.closeObject :: ts) hv (endsNumber_cons (by simp) _)
      (h.cons .closeObject fun _ => trivial)
    have hmember := (hvalue.cons .colon fun _ => trivial).stringChars k.toList
    simpa [membersChars, membersOutline] using hmember
  | (k, v) :: m :: ms, rest, ts, hv, h => by
    rw [membersIntegral, Bool.and_eq_true] at hv
    have hmore := (typeset_membersChars_append (m :: ms) rest ts hv.2 h).cons .comma fun _ => trivial
    have hvalue := typeset_chars_append v _ _ hv.1 (endsNumber_cons (by simp) _) hmore
    have hmember := (hvalue.cons .colon fun _ => trivial).stringChars k.toList
    simpa [membersChars, membersOutline] using hmember

end

/-- **The compact form of a value with integers only is made of its tokens.** -/
theorem typeset_chars {v : Json} (h : v.isIntegral = true) : Typeset v.chars v.outline := by
  have ht := typeset_chars_append v [] [] h (by simp [EndsNumber]) .nil
  rwa [List.append_nil, List.append_nil] at ht

/-- The compact form of a value with integers only is read as the value, if it is not nested too deep. -/
theorem parseRaw_chars {v : Json} (hi : v.isIntegral = true) (hd : v.depth ≤ maxDepth) :
    parseRaw? v.chars = some v :=
  parseRaw_of_typeset (typeset_chars hi) hd

end Json

end TurnRelay
