import TurnRelay.Json.Printer
import TurnRelay.Proofs.Settings.Layering
import TurnRelay.Settings.Toml

/-!
# Any text can be written into a settings file

A string of a settings file may have any character in it if the character is given by its number. So there is a file for
every text and every setting of a section, of a single line, that says this text there and nothing else.

## The model

* `Toml.numberedText` — a text with every character given by its number.
* `Toml.lineOf` — the line that gives a text to a setting of a section.

## What is proved

* `basic?_numberedText` — the text is read from its numbers.
* `parse?_lineOf` — the document that consists of the line says the text at the setting's place.
-/

namespace TurnRelay.Settings.Toml

open Json (hexChar)

variable {cs rest : List Char}

/-! ### Characters by number -/

/-- Eight hexadecimal digits. -/
def hexDigits (n : Nat) : List Char :=
  [hexChar (n / 268435456 % 16), hexChar (n / 16777216 % 16), hexChar (n / 1048576 % 16), hexChar (n / 65536 % 16),
    hexChar (n / 4096 % 16), hexChar (n / 256 % 16), hexChar (n / 16 % 16), hexChar (n % 16)]

theorem hexChar_cases : ∀ d < 16, isDigit (hexChar d) = true ∧ (hexChar d).toNat - 48 = d ∨
    isDigit (hexChar d) = false ∧ ('a' ≤ hexChar d ∧ hexChar d ≤ 'f') ∧ (hexChar d).toNat - 87 = d := by
  decide

/-- One more digit is read. -/
theorem hexNumber?_concat (cs : List Char) {d : Nat} (hd : d < 16) :
    hexNumber? (cs ++ [hexChar d]) = (hexNumber? cs).map fun n => 16 * n + d := by
  rw [hexNumber?, List.foldlM_append, ← hexNumber?]
  cases hexNumber? cs with
  | none => rfl
  | some n =>
    obtain ⟨hdigit, hvalue⟩ | ⟨hdigit, hletter, hvalue⟩ := hexChar_cases d hd
    · simp [List.foldlM_cons, hdigit, hvalue]
    · simp [List.foldlM_cons, hdigit, hletter, hvalue]

theorem hexNumber?_hexDigits {n : Nat} (h : n < 4294967296) : hexNumber? (hexDigits n) = some n := by
  have hdigit (m : Nat) : m % 16 < 16 := Nat.mod_lt _ (by decide)
  have hsplit : hexDigits n = [] ++ [hexChar (n / 268435456 % 16)] ++ [hexChar (n / 16777216 % 16)] ++
      [hexChar (n / 1048576 % 16)] ++ [hexChar (n / 65536 % 16)] ++ [hexChar (n / 4096 % 16)] ++
      [hexChar (n / 256 % 16)] ++ [hexChar (n / 16 % 16)] ++ [hexChar (n % 16)] := rfl
  rw [hsplit]
  iterate 8 rw [hexNumber?_concat _ (hdigit _)]
  have hnil : hexNumber? [] = some 0 := rfl
  rw [hnil]
  simp only [Option.map_some, Option.some.injEq]
  omega

/-- A text with every character given by its number. -/
def numberedText (cs : List Char) : List Char := cs.flatMap fun c => '\\' :: 'U' :: hexDigits c.toNat

theorem numbered?_hexDigits (c : Char) (rest : List Char) :
    numbered? 8 (hexDigits c.toNat ++ rest) = some (c, rest) := by
  have hvalid : c.toNat < 0xD800 ∨ (0xDFFF < c.toNat ∧ c.toNat < 0x110000) := c.valid
  have hlength : ¬ (hexDigits c.toNat ++ rest).length < 8 := by
    simp [hexDigits]
  have htake : (hexDigits c.toNat ++ rest).take 8 = hexDigits c.toNat := rfl
  have hdrop : (hexDigits c.toNat ++ rest).drop 8 = rest := rfl
  rw [numbered?, if_neg hlength, htake, hdrop, hexNumber?_hexDigits (by omega)]
  simp [hvalid, Char.ofNat_toNat]

/-- **A text is read from its numbers.** -/
theorem basic?_numberedText {fuel : Nat} (h : cs.length < fuel) (rest : List Char) :
    basic? fuel (numberedText cs ++ '"' :: rest) = some (cs, rest) := by
  induction cs generalizing fuel with
  | nil =>
    obtain ⟨fuel, rfl⟩ := Nat.exists_eq_add_of_lt h
    rfl
  | cons c cs ih =>
    obtain ⟨fuel, rfl⟩ := Nat.exists_eq_succ_of_ne_zero (Nat.ne_of_gt (Nat.zero_lt_of_lt h))
    have hrest := ih (Nat.lt_of_succ_lt_succ h)
    have hsplit : numberedText (c :: cs) ++ '"' :: rest =
        '\\' :: 'U' :: (hexDigits c.toNat ++ (numberedText cs ++ '"' :: rest)) := by
      simp [numberedText]
    rw [hsplit, basic?, if_neg (by decide), if_pos rfl, escape?, numbered?_hexDigits]
    simp [hrest]

/-! ### Names -/

/-- A name that needs no quotes. -/
structure IsBare (name : List Char) : Prop where
  /-- There is one. -/
  ne_nil : name ≠ []
  /-- It consists of letters, digits, underscores and hyphens. -/
  chars : ∀ c ∈ name, isKeyChar c = true

section

variable {a b name : List Char} {c : Char}

/-- What begins with a character of a name does not begin with any other. -/
theorem cons_ne_of_isKeyChar {d : Char} {rest' : List Char} (h : isKeyChar c = true) (hd : isKeyChar d = false) :
    c :: rest ≠ d :: rest' := by
  rintro ⟨⟩
  rw [h] at hd
  cases hd

theorem keyPart?_of_isBare (h : IsBare name) (hc : isKeyChar c = false) (rest : List Char) :
    keyPart? (name ++ c :: rest) = some (String.ofList name, c :: rest) := by
  obtain ⟨d, name, rfl⟩ := List.exists_cons_of_ne_nil h.ne_nil
  have hd : isKeyChar d = true := h.chars d List.mem_cons_self
  have htake : (d :: name ++ c :: rest).takeWhile isKeyChar = d :: name := by
    rw [List.takeWhile_append_of_pos h.chars, List.takeWhile_cons_of_neg (by simp [hc]), List.append_nil]
  rw [keyPart?]
  · rw [htake, List.drop_left]
    rfl
  -- it does not begin with a quote
  all_goals exact fun _ => cons_ne_of_isKeyChar hd (by decide)

theorem skipBlanks_of_isKeyChar (h : isKeyChar c = true) (rest : List Char) : skipBlanks (c :: rest) = c :: rest := by
  rw [skipBlanks]
  · exact fun _ => cons_ne_of_isKeyChar h (by decide)
  · exact fun _ => cons_ne_of_isKeyChar h (by decide)

theorem skipBlanks_of_isBare (h : IsBare name) (rest : List Char) : skipBlanks (name ++ rest) = name ++ rest := by
  obtain ⟨d, name, rfl⟩ := List.exists_cons_of_ne_nil h.ne_nil
  exact skipBlanks_of_isKeyChar (h.chars d List.mem_cons_self) _

/-- A dotted key of two names. -/
theorem key?_of_isBare (ha : IsBare a) (hb : IsBare b) (fuel : Nat) (rest : List Char) :
    key? (fuel + 2) (a ++ '.' :: (b ++ ' ' :: '=' :: rest)) =
      some ([String.ofList a], String.ofList b, '=' :: rest) := by
  have hlast : key? (fuel + 1) (b ++ ' ' :: '=' :: rest) = some ([], String.ofList b, '=' :: rest) := by
    rw [key?, skipBlanks_of_isBare hb, keyPart?_of_isBare hb (by decide)]
    rfl
  have hpoint : skipBlanks ('.' :: (b ++ ' ' :: '=' :: rest)) = '.' :: (b ++ ' ' :: '=' :: rest) := rfl
  rw [key?, skipBlanks_of_isBare ha, keyPart?_of_isBare ha (by decide)]
  simp only [Option.bind_eq_bind, Option.bind_some, hpoint, hlast]
  rfl

/-! ### Lines -/

/-- The line that gives a text to a setting of a section. -/
def lineOf (a b cs : List Char) : List Char := a ++ '.' :: (b ++ ' ' :: '=' :: ' ' :: '"' :: (numberedText cs ++ ['"']))

theorem length_numberedText (cs : List Char) : (numberedText cs).length = 10 * cs.length := by
  induction cs with
  | nil => rfl
  | cons c cs ih =>
    rw [numberedText, List.flatMap_cons, List.length_append, ← numberedText, ih]
    simp only [hexDigits, List.length_cons, List.length_nil]
    omega

theorem value?_numberedText (fuel : Nat) (cs : List Char) :
    value? (fuel + 1) ('"' :: (numberedText cs ++ ['"'])) = some (.string (String.ofList cs), []) := by
  have hlength : cs.length < (numberedText cs ++ ['"']).length + 1 := by
    rw [List.length_append, length_numberedText, List.length_singleton]
    omega
  have hstring : string? ('"' :: (numberedText cs ++ ['"'])) = some (cs, []) := by
    rw [string?]
    · exact basic?_numberedText hlength []
    · cases cs with
      | nil => exact fun _ hr => by cases hr
      | cons c cs => exact fun _ hr => by cases hr
  rw [value?, hstring]
  rfl

theorem skipLines_of_isKeyChar (n : Nat) (h : isKeyChar c = true) (rest : List Char) :
    skipLines n (c :: rest) = c :: rest := by
  cases n with
  | zero => rfl
  | succ n =>
    have hcomment : skipComment (c :: rest) = c :: rest := by
      rw [skipComment]
      exact fun _ => cons_ne_of_isKeyChar h (by decide)
    have hend : lineEnd? (c :: rest) = none := by
      rw [lineEnd?]
      · exact fun _ => cons_ne_of_isKeyChar h (by decide)
      · exact fun _ => cons_ne_of_isKeyChar h (by decide)
    rw [skipLines, skipBlanks_of_isKeyChar h, hcomment, hend]

/-- The line begins with a character of a name. -/
theorem exists_lineOf (ha : IsBare a) (b cs : List Char) :
    ∃ d rest, isKeyChar d = true ∧ lineOf a b cs = d :: rest := by
  obtain ⟨d, a, rfl⟩ := List.exists_cons_of_ne_nil ha.ne_nil
  exact ⟨d, _, ha.chars d List.mem_cons_self, rfl⟩

/-- The tree of a document that consists of the line. -/
theorem lines?_lineOf (ha : IsBare a) (hb : IsBare b) (fuel : Nat) (cs : List Char) :
    lines? (fuel + 2) [] [] (lineOf a b cs) = some [(String.ofList a, .table .dotted
      [(String.ofList b, .leaf (.string (String.ofList cs)))])] := by
  have hkey (n : Nat) : key? (n + 2) (lineOf a b cs) = some ([String.ofList a], String.ofList b,
      '=' :: ' ' :: '"' :: (numberedText cs ++ ['"'])) := key?_of_isBare ha hb n _
  obtain ⟨n, hn⟩ : ∃ n, (lineOf a b cs).length = n + 2 := by
    refine ⟨(lineOf a b cs).length - 2, ?_⟩
    simp only [lineOf, List.length_append, List.length_cons]
    omega
  have hvalue (m : Nat) := value?_numberedText m cs
  obtain ⟨d, rest, hd, hline⟩ := exists_lineOf ha b cs
  rw [lines?, hline, skipLines_of_isKeyChar _ hd]
  split
  · rename_i heq
    cases heq
  · rename_i heq
    exact absurd heq (cons_ne_of_isKeyChar hd (by decide))
  · rename_i heq
    exact absurd heq (cons_ne_of_isKeyChar hd (by decide))
  · rw [← hline, hn, hkey]
    have hequals : skipBlanks ('=' :: ' ' :: '"' :: (numberedText cs ++ ['"'])) =
        '=' :: ' ' :: '"' :: (numberedText cs ++ ['"']) := rfl
    have hspace : skipBlanks (' ' :: '"' :: (numberedText cs ++ ['"'])) = '"' :: (numberedText cs ++ ['"']) := rfl
    simp only [Option.bind_eq_bind, Option.bind_some, hequals, hspace]
    rw [hvalue]
    rfl

/-- **The document that consists of the line** says the text at the setting's place, and nothing else. -/
theorem parse?_lineOf (ha : IsBare a) (hb : IsBare b) (cs : List Char) :
    parse? (String.ofList (lineOf a b cs)) =
      some (Value.nested [String.ofList a, String.ofList b] (.string (String.ofList cs))) := by
  obtain ⟨d, rest, hd, hline⟩ := exists_lineOf ha b cs
  have hmark : ¬ d.toNat = 0xfeff := by
    intro hmark
    have hchar : d = Char.ofNat 0xfeff := by rw [← hmark, Char.ofNat_toNat]
    rw [hchar] at hd
    exact absurd hd (by decide)
  obtain ⟨n, hn⟩ : ∃ n, (lineOf a b cs).length + 1 = n + 2 := ⟨rest.length, by rw [hline]; rfl⟩
  have hlines := lines?_lineOf ha hb n cs
  rw [hline] at hn hlines
  rw [parse?, String.toList_ofList, hline]
  simp only [if_neg hmark, hn, hlines]
  rfl

end

end TurnRelay.Settings.Toml
