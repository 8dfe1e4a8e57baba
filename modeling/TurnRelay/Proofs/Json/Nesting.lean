import TurnRelay.Json.Body

/-!
# Nesting of tokens

Whatever a reader takes from a token list has its brackets in pairs. A value is one token without a
bracket, or stands between a bracket and its partner; the readers do not see this at once, since they
keep a stack of open containers, and so the induction is about the tokens that close all of them.

## The model

* `Nested ts` — every bracket has its partner.
* `Item ts` — the tokens of one value.
* `Closes outer ts` — the tokens finish the open containers, from the innermost to the outermost.

## What is proved

* `skipValue_of_readValue` — what the strict reader reads, the lenient one passes over.
* `item_of_skipValue`, `item_of_readValue` — what a reader takes is one value.
* `Record.nested_of_parse` — an object from which a structure is read has its braces around nested
  tokens, and nothing behind.
-/

namespace TurnRelay

namespace Json

/-! ### Nested tokens -/

/-- Whether a token can stand anywhere in a nested list. -/
def Token.isInert : Token → Bool
  | .openObject | .closeObject | .openArray | .closeArray | .malformed => false
  | _ => true

/-- Every bracket has its partner, and no token is malformed. -/
inductive Nested : List Token → Prop where
  /-- No tokens. -/
  | nil : Nested []
  /-- A token that is no bracket. -/
  | inert {t : Token} : t.isInert = true → Nested [t]
  /-- Braces around nested tokens. -/
  | object {ts : List Token} : Nested ts → Nested (.openObject :: (ts ++ [.closeObject]))
  /-- Brackets around nested tokens. -/
  | array {ts : List Token} : Nested ts → Nested (.openArray :: (ts ++ [.closeArray]))
  /-- Nested tokens in a row. -/
  | append {ts us : List Token} : Nested ts → Nested us → Nested (ts ++ us)

theorem Nested.cons {t : Token} {ts : List Token} (ht : t.isInert = true) (h : Nested ts) :
    Nested (t :: ts) :=
  .append (.inert ht) h

theorem Nested.malformed_not_mem {ts : List Token} (h : Nested ts) : Token.malformed ∉ ts := by
  induction h with
  | nil => simp
  | inert ht =>
    intro hm
    rw [← List.mem_singleton.1 hm] at ht
    cases ht
  | object _ ih | array _ ih => simpa using ih
  | append _ _ ih ih' => simpa using ⟨ih, ih'⟩

/-- The tokens of one value. -/
inductive Item : List Token → Prop where
  /-- A value without parts. -/
  | inert {t : Token} : t.isInert = true → Item [t]
  /-- An object. -/
  | object {ts : List Token} : Nested ts → Item (.openObject :: (ts ++ [.closeObject]))
  /-- An array. -/
  | array {ts : List Token} : Nested ts → Item (.openArray :: (ts ++ [.closeArray]))

theorem Item.nested {ts : List Token} (h : Item ts) : Nested ts := by
  cases h with
  | inert ht => exact .inert ht
  | object h => exact .object h
  | array h => exact .array h

/-- A value that begins with a brace ends with its partner. -/
theorem Item.exists_nested {ts : List Token} (h : Item (.openObject :: ts)) :
    ∃ inner, ts = inner ++ [.closeObject] ∧ Nested inner := by
  cases h with
  | inert ht => cases ht
  | object h => exact ⟨_, rfl, h⟩

/-! ### Open containers -/

/-- The tokens finish the open containers, the innermost first; of each is said whether it is an
object. -/
inductive Closes : List Bool → List Token → Prop where
  /-- Nothing is open. -/
  | nil : Closes [] []
  /-- The rest of an object. -/
  | object {outer : List Bool} {inner ts : List Token} : Nested inner → Closes outer ts →
      Closes (true :: outer) (inner ++ .closeObject :: ts)
  /-- The rest of an array. -/
  | array {outer : List Bool} {inner ts : List Token} : Nested inner → Closes outer ts →
      Closes (false :: outer) (inner ++ .closeArray :: ts)

/-- More tokens inside the innermost container. -/
theorem Closes.nested_append {b : Bool} {outer : List Bool} {inner ts : List Token} (hi : Nested inner)
    (h : Closes (b :: outer) ts) : Closes (b :: outer) (inner ++ ts) := by
  cases h with
  | object h ht =>
    rw [← List.append_assoc]
    exact .object (hi.append h) ht
  | array h ht =>
    rw [← List.append_assoc]
    exact .array (hi.append h) ht

/-- A container that is opened and finished is a value. -/
theorem Closes.exists_object {outer : List Bool} {inner ts : List Token} (hi : Nested inner)
    (h : Closes (true :: outer) ts) :
    ∃ item later, .openObject :: (inner ++ ts) = item ++ later ∧ Item item ∧ Closes outer later := by
  cases h with
  | @object _ rest later hr hl => exact ⟨_, later, by simp, .object (hi.append hr), hl⟩

theorem Closes.exists_array {outer : List Bool} {inner ts : List Token} (hi : Nested inner)
    (h : Closes (false :: outer) ts) :
    ∃ item later, .openArray :: (inner ++ ts) = item ++ later ∧ Item item ∧ Closes outer later := by
  cases h with
  | @array _ rest later hr hl => exact ⟨_, later, by simp, .array (hi.append hr), hl⟩

/-! ### The lenient reader -/

/-- What the lenient reader passes over is one value and what finishes the open containers. -/
theorem closes_of_skipValue :
    (∀ outer ts rest, skipValue outer ts = some rest →
      ∃ item later, ts = item ++ later ++ rest ∧ Item item ∧ Closes outer later) ∧
    ∀ outer ts rest, closeSkipped outer ts = some rest →
      ∃ later, ts = later ++ rest ∧ Closes outer later := by
  -- the cases are those of the two functions: up to the ninth at a value, from there on behind one
  apply skipValue.mutual_induct
  case case1 | case2 | case3 | case4 =>
    intros
    rename_i ih rest h
    obtain ⟨later, rfl, hc⟩ := ih rest h
    exact ⟨[_], later, rfl, .inert rfl, hc⟩
  case case5 =>
    intro outer ts ih rest h
    obtain ⟨later, rfl, hc⟩ := ih rest h
    exact ⟨_, later, rfl, .array .nil, hc⟩
  case case6 =>
    intro outer ts hne ih rest h
    rw [skipValue] at h
    · obtain ⟨item, later, rfl, hi, hc⟩ := ih rest h
      obtain ⟨item', later', he, hi', hc'⟩ := hc.exists_array hi.nested
      exact ⟨item', later', by rw [← he, List.cons_append], hi', hc'⟩
    · exact hne
  case case7 =>
    intro outer ts ih rest h
    obtain ⟨later, rfl, hc⟩ := ih rest h
    exact ⟨_, later, rfl, .object .nil, hc⟩
  case case8 =>
    intro outer k ts ih rest h
    obtain ⟨item, later, rfl, hi, hc⟩ := ih rest h
    have hmember : Nested (.string k :: .colon :: item) := .cons rfl (.cons rfl hi.nested)
    obtain ⟨item', later', he, hi', hc'⟩ := hc.exists_object hmember
    exact ⟨item', later', by rw [← he]; rfl, hi', hc'⟩
  case case9 =>
    intros
    rename_i h
    rw [skipValue] at h
    · cases h
    all_goals assumption
  case case10 =>
    intro ts rest h
    rw [closeSkipped, Option.some.injEq] at h
    exact ⟨[], h, .nil⟩
  case case11 =>
    intro outer ts ih rest h
    obtain ⟨item, later, rfl, hi, hc⟩ := ih rest h
    exact ⟨.comma :: (item ++ later), rfl, hc.nested_append (.cons rfl hi.nested)⟩
  case case12 =>
    intro outer ts ih rest h
    obtain ⟨later, rfl, hc⟩ := ih rest h
    exact ⟨.closeArray :: later, rfl, .array .nil hc⟩
  case case13 =>
    intro outer k ts ih rest h
    obtain ⟨item, later, rfl, hi, hc⟩ := ih rest h
    have hmember : Nested (.comma :: .string k :: .colon :: item) :=
      .cons rfl (.cons rfl (.cons rfl hi.nested))
    exact ⟨.comma :: .string k :: .colon :: (item ++ later), rfl, hc.nested_append hmember⟩
  case case14 =>
    intro outer ts ih rest h
    obtain ⟨later, rfl, hc⟩ := ih rest h
    exact ⟨.closeObject :: later, rfl, .object .nil hc⟩
  case case15 =>
    intros
    rename_i h
    rw [closeSkipped] at h
    · cases h
    all_goals assumption

/-- What the lenient reader passes over is one value. -/
theorem item_of_skipValue {ts rest : List Token} (h : skipValue [] ts = some rest) :
    ∃ item, ts = item ++ rest ∧ Item item := by
  obtain ⟨item, later, rfl, hi, hc⟩ := closes_of_skipValue.1 [] ts rest h
  cases hc
  exact ⟨item, by rw [List.append_nil], hi⟩

/-! ### The strict reader -/

/-- Whether an open container is an object. -/
def Open.isObject : Open → Bool
  | .array _ => false
  | .object _ _ => true

/-- What the strict reader reads, the lenient one passes over. -/
theorem skipValue_of_readValue (limit : Nat) :
    (∀ outer ts v rest, readValue limit outer ts = some (v, rest) →
      skipValue (outer.map Open.isObject) ts = some rest) ∧
    ∀ w outer ts v rest, closeValue limit w outer ts = some (v, rest) →
      closeSkipped (outer.map Open.isObject) ts = some rest := by
  -- up to the thirteenth case at a value, from there on behind one
  apply readValue.mutual_induct limit
  case case1 | case2 | case3 | case4 =>
    intros
    rename_i ih v rest h
    exact ih v rest h
  case case5 | case9 =>
    intro outer ts hl ih v rest h
    rw [readValue, if_pos hl] at h
    exact ih v rest h
  case case6 | case10 =>
    intro outer ts hl v rest h
    rw [readValue, if_neg hl] at h
    cases h
  case case7 =>
    intro outer ts hne hl ih v rest h
    rw [readValue, if_pos hl] at h
    · rw [skipValue]
      · exact ih v rest h
      · exact hne
    · exact hne
  case case8 =>
    intro outer ts hne hl v rest h
    rw [readValue, if_neg hl] at h
    · cases h
    · exact hne
  case case11 =>
    intro outer k ts hl ih v rest h
    rw [readValue, if_pos hl] at h
    exact ih v rest h
  case case12 =>
    intro outer k ts hl v rest h
    rw [readValue, if_neg hl] at h
    cases h
  case case13 =>
    intros
    rename_i h
    rw [readValue] at h
    · cases h
    all_goals assumption
  case case14 =>
    intro w ts v rest h
    rw [closeValue] at h
    cases h
    rw [List.map_nil, closeSkipped]
  case case15 | case16 | case17 | case18 =>
    intros
    rename_i ih v rest h
    exact ih v rest h
  case case19 =>
    intros
    rename_i h
    rw [closeValue] at h
    · cases h
    all_goals assumption

/-- What the strict reader reads is one value. -/
theorem item_of_readValue {limit : Nat} {ts rest : List Token} {v : Json}
    (h : readValue limit [] ts = some (v, rest)) : ∃ item, ts = item ++ rest ∧ Item item :=
  item_of_skipValue ((skipValue_of_readValue limit).1 [] ts v rest h)

/-- The tokens of a text that is one value. -/
theorem item_of_parse {text : List Char} {v : Json} (h : parse? text = some v) : Item (tokens text) := by
  obtain ⟨w, hw, -⟩ := Option.map_eq_some_iff.1 h
  unfold parseRaw? at hw
  split at hw
  · rename_i hr
    obtain ⟨item, he, hi⟩ := item_of_readValue hr
    rw [List.append_nil] at he
    exact he ▸ hi
  · cases hw

end Json

/-! ### Structures -/

namespace Record

open Json

variable {α : Type}

theorem exists_of_bind_eq_ok {ε β γ : Type} {x : Except ε β} {f : β → Except ε γ} {c : γ}
    (h : x >>= f = .ok c) : ∃ b, x = .ok b ∧ f b = .ok c := by
  cases x with
  | error e => cases h
  | ok b => exact ⟨b, rfl, h⟩

theorem item_of_readField {r : Record α} {shapes : String → Shape} {name : String} {ts rest : List Token}
    {v : Json} (h : r.readField shapes name ts = .ok (v, rest)) :
    ∃ item, ts = item ++ rest ∧ Item item := by
  unfold readField at h
  split at h
  · cases h
  · split at h
    · cases h
    · rename_i hr
      obtain ⟨u, -, hu⟩ := exists_of_bind_eq_ok h
      cases hu
      exact item_of_readValue hr

/-- What follows a member: the closing brace, or a comma and more members. -/
theorem nested_of_separator {done ms : Members} {ts rest : List Token}
    {more : List Token → Except TextFault (Members × List Token)}
    (hmore : ∀ us, more us = .ok (ms, rest) → ∃ inner, us = inner ++ .closeObject :: rest ∧ Nested inner)
    (h : (match ts with
      | .closeObject :: us => pure (done, us)
      | .comma :: us => more us
      | _ => .error .malformed) = Except.ok (ms, rest)) :
    ∃ inner, ts = inner ++ .closeObject :: rest ∧ Nested inner := by
  split at h
  · cases h
    exact ⟨[], rfl, .nil⟩
  · rename_i us
    obtain ⟨inner, rfl, hi⟩ := hmore us h
    exact ⟨.comma :: inner, rfl, .cons rfl hi⟩
  · cases h

theorem nested_of_member {k : List Char} {item ts rest : List Token} (hi : Item item)
    (h : ∃ inner, ts = inner ++ .closeObject :: rest ∧ Nested inner) :
    ∃ inner, .string (some k) :: .colon :: (item ++ ts) = inner ++ .closeObject :: rest ∧ Nested inner := by
  obtain ⟨inner, rfl, hn⟩ := h
  refine ⟨.string (some k) :: .colon :: (item ++ inner), by simp, ?_⟩
  exact .cons rfl (.cons rfl (hi.nested.append hn))

/-- The members of an object are nested, and the closing brace is behind them. -/
theorem nested_of_readMembers {r : Record α} {shapes : String → Shape} {fuel : Nat} {done ms : Members}
    {ts rest : List Token} (h : r.readMembers shapes fuel done ts = .ok (ms, rest)) :
    ∃ inner, ts = inner ++ .closeObject :: rest ∧ Nested inner := by
  fun_induction readMembers r shapes fuel done ts with
  | case1 => cases h
  | case2 fuel done k ts name after _ _ ih =>
    obtain ⟨⟨v, us⟩, hf, hc⟩ := exists_of_bind_eq_ok h
    obtain ⟨item, rfl, hi⟩ := item_of_readField hf
    exact nested_of_member hi (nested_of_separator (ih _) hc)
  | case3 fuel done k ts name after _ us hs ih =>
    obtain ⟨item, rfl, hi⟩ := item_of_skipValue hs
    exact nested_of_member hi (nested_of_separator (ih done) h)
  | case4 => cases h
  | case5 => cases h

theorem nested_of_readText {r : Record α} {shapes : String → Shape} {ts rest : List Token} {a : α}
    (h : r.readText shapes (.openObject :: ts) = .ok (a, rest)) :
    ∃ inner, ts = inner ++ .closeObject :: rest ∧ Nested inner := by
  unfold readText at h
  split at h
  · rename_i he
    obtain ⟨b, -, hb⟩ := exists_of_bind_eq_ok h
    cases hb
    cases he
    exact ⟨[], rfl, .nil⟩
  · rename_i he
    obtain ⟨⟨ms, us⟩, hm, hb⟩ := exists_of_bind_eq_ok h
    obtain ⟨b, -, hb⟩ := exists_of_bind_eq_ok hb
    cases hb
    cases he
    exact nested_of_readMembers hm
  · rename_i he
    cases he
  · rename_i he
    cases he
  all_goals cases h

/-- **An object from which a structure is read has its braces around nested tokens**, and nothing
behind. -/
theorem nested_of_parse {r : Record α} {shapes : String → Shape} {text : List Char} {a : α}
    {ts : List Token} (ht : tokens text = .openObject :: ts) (h : r.parse shapes text = .ok a) :
    ∃ inner, ts = inner ++ [.closeObject] ∧ Nested inner := by
  obtain ⟨⟨value, rest⟩, hr, hc⟩ := exists_of_bind_eq_ok h
  rw [ht] at hr
  cases rest with
  | nil => exact nested_of_readText hr
  | cons t us => cases hc

end Record

end TurnRelay
