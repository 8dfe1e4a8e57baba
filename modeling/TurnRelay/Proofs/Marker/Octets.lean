import TurnRelay.Marker.Scan

/-!
# Texts as octets

A text can be worked on by the offsets of its octets in UTF-8, and a scanner that looks for delimiters in ASCII need
not decode it: every octet of any other character lies above them. But an offset is a dangerous thing. It may lie
behind the end of the text, or inside of a character, where the text cannot be cut; and a difference of two offsets,
or a count of open brackets, may fall below zero. Here all of this is checked where it happens, and a `Fault` says
what went wrong.

The scanners for the end of a body work like this. They find what `balancedLength` and `unnestedLength` find, which
count characters, and there is never a fault.

## The model

* `octets`, `size` — the octets of a text, and how many there are.
* `Fault` — what would stop such a program.
* `cutAt`, `slice` — a text cut at an offset, and between two.
* `objectEnd`, `unnestedClose` — the scanners for the end of a body.

## What is proved

* `prefix_of_octets` — what begins with the octets of a text begins with the text.
* `cutAt_eq_ok_iff` — a cut succeeds at the offsets between two characters, and at no other.
* `objectEnd_octets`, `unnestedClose_octets` — the scanners find what they find character by character.
-/

namespace TurnRelay

namespace Marker

/-! ### Octets -/

/-- The octets of a text. -/
def octets (text : List Char) : List UInt8 := text.flatMap String.utf8EncodeChar

/-- The number of octets of a text. -/
def size (text : List Char) : Nat := (octets text).length

@[simp] theorem octets_nil : octets [] = [] := rfl

@[simp] theorem octets_cons (c : Char) (cs : List Char) :
    octets (c :: cs) = String.utf8EncodeChar c ++ octets cs := rfl

@[simp] theorem octets_append (a b : List Char) : octets (a ++ b) = octets a ++ octets b := List.flatMap_append

@[simp] theorem size_nil : size [] = 0 := rfl

@[simp] theorem size_cons (c : Char) (cs : List Char) : size (c :: cs) = c.utf8Size + size cs := by
  simp [size]

@[simp] theorem size_append (a b : List Char) : size (a ++ b) = size a + size b := by
  simp [size]

theorem size_pos {text : List Char} (h : text ≠ []) : 0 < size text := by
  cases text with
  | nil => exact absurd rfl h
  | cons c cs =>
    have := c.utf8Size_pos
    rw [size_cons]
    omega

/-- A text begins with another if its octets begin with those of the other. -/
theorem prefix_of_octets {a b : List Char} (h : octets a <+: octets b) : a <+: b := by
  obtain ⟨more, hmore⟩ := h
  apply List.isPrefix_of_utf8Encode_append_eq_utf8Encode more.toByteArray
  show (octets a).toByteArray ++ more.toByteArray = (octets b).toByteArray
  rw [← List.toByteArray_append, hmore]

/-- A character of ASCII is one octet. -/
theorem utf8EncodeChar_of_ascii {c : Char} (h : c.toNat < 128) : String.utf8EncodeChar c = [c.toUInt8] := by
  refine String.utf8EncodeChar_eq_singleton (Char.utf8Size_eq_one_iff.2 ?_)
  rw [UInt32.le_iff_toNat_le]
  exact Nat.le_of_lt_succ h

/-- Every octet of any other character lies above ASCII. -/
theorem le_of_mem_utf8EncodeChar {c : Char} (h : ¬ c.toNat < 128) {b : UInt8}
    (hb : b ∈ String.utf8EncodeChar c) : 128 ≤ b.toNat := by
  have hc : ¬ c.val.toNat ≤ 127 := fun hle => h (Nat.lt_succ_of_le hle)
  simp only [String.utf8EncodeChar, if_neg hc] at hb
  split at hb
  · simp only [List.mem_cons, List.not_mem_nil, or_false] at hb
    rcases hb with rfl | rfl <;> rw [UInt8.toNat_ofNat'] <;> omega
  · split at hb
    · simp only [List.mem_cons, List.not_mem_nil, or_false] at hb
      rcases hb with rfl | rfl | rfl <;> rw [UInt8.toNat_ofNat'] <;> omega
    · simp only [List.mem_cons, List.not_mem_nil, or_false] at hb
      rcases hb with rfl | rfl | rfl | rfl <;> rw [UInt8.toNat_ofNat'] <;> omega

theorem toNat_toUInt8 {c : Char} (h : c.toNat < 128) : c.toUInt8.toNat = c.toNat := by
  show c.toNat % 256 = c.toNat
  exact Nat.mod_eq_of_lt (by omega)

theorem utf8Size_of_ascii {c : Char} (h : c.toNat < 128) : c.utf8Size = 1 := by
  rw [← String.length_utf8EncodeChar, utf8EncodeChar_of_ascii h, List.length_singleton]

/-- Characters of ASCII are told apart by their octets. -/
theorem toUInt8_eq_iff {c d : Char} (hc : c.toNat < 128) (hd : d.toNat < 128) :
    c.toUInt8 = d.toUInt8 ↔ c = d := by
  refine ⟨fun h => ?_, fun h => h ▸ rfl⟩
  have hn := congrArg UInt8.toNat h
  rw [toNat_toUInt8 hc, toNat_toUInt8 hd] at hn
  exact Char.ext (UInt32.toNat_inj.1 hn)

/-! ### Faults and cuts -/

/-- What would stop a program that works with offsets. -/
inductive Fault where
  /-- An offset behind the end of a text. -/
  | beyondEnd
  /-- An offset inside of a character. -/
  | insideCharacter
  /-- A difference below zero. -/
  | underflow
  /-- A span that is shorter than the literal it begins with. -/
  | shortSpan
  /-- A turn of a loop that does not get on. -/
  | stuck
  deriving DecidableEq, Repr

/-- A difference. -/
def difference (m n : Nat) : Except Fault Nat := if n ≤ m then .ok (m - n) else .error .underflow

/-- The text before an offset, and the text from there on. -/
def cutAt : List Char → Nat → Except Fault (List Char × List Char)
  | cs, 0 => .ok ([], cs)
  | [], _ + 1 => .error .beyondEnd
  | c :: cs, n + 1 =>
    if c.utf8Size ≤ n + 1 then (cutAt cs (n + 1 - c.utf8Size)).map fun (a, b) => (c :: a, b)
    else .error .insideCharacter

/-- The text between two offsets. -/
def slice (text : List Char) (start stop : Nat) : Except Fault (List Char) := do
  let front ← cutAt text stop
  let back ← cutAt front.1 start
  return back.2

theorem ok_bind {α β : Type} (a : α) (f : α → Except Fault β) : (Except.ok a >>= f) = f a := rfl

theorem difference_add (m n : Nat) : difference (m + n) n = .ok m := by
  rw [difference, if_pos (Nat.le_add_left n m), Nat.add_sub_cancel]

theorem cutAt_append (a b : List Char) : cutAt (a ++ b) (size a) = .ok (a, b) := by
  induction a with
  | nil => cases b <;> rfl
  | cons c a ih =>
    obtain ⟨n, hn⟩ : ∃ n, c.utf8Size + size a = n + 1 := ⟨_, (Nat.succ_pred_eq_of_pos (by
      have := c.utf8Size_pos
      omega)).symm⟩
    rw [size_cons, hn, List.cons_append, cutAt, if_pos (by omega), ← hn, Nat.add_sub_cancel_left, ih]
    rfl

/-- **A cut succeeds at the offsets between two characters**, and at no other. -/
theorem cutAt_eq_ok_iff {text a b : List Char} {n : Nat} :
    cutAt text n = .ok (a, b) ↔ text = a ++ b ∧ n = size a := by
  constructor
  · intro h
    fun_induction cutAt text n generalizing a with
    | case1 =>
      cases h
      exact ⟨rfl, rfl⟩
    | case2 => cases h
    | case3 c cs n hc ih =>
      cases hcut : cutAt cs (n + 1 - c.utf8Size) with
      | error f => simp [hcut, Except.map] at h
      | ok ab =>
        obtain ⟨a', b'⟩ := ab
        simp only [hcut, Except.map, Except.ok.injEq, Prod.mk.injEq] at h
        obtain ⟨rfl, rfl⟩ := h
        obtain ⟨rfl, hn⟩ := ih hcut
        exact ⟨rfl, by rw [size_cons]; omega⟩
    | case4 => cases h
  · rintro ⟨rfl, rfl⟩
    exact cutAt_append a b

theorem slice_append (a b c : List Char) : slice (a ++ b ++ c) (size a) (size (a ++ b)) = .ok b := by
  rw [slice, cutAt_append, ok_bind, cutAt_append, ok_bind]
  rfl

/-! ### The scanners -/

/-- The place behind an octet that is read inside a string. -/
def Place.insideOctet (b : UInt8) : Place :=
  if b = '\\'.toUInt8 then .escape else if b = '"'.toUInt8 then .code else .text

/-- The offset behind the brace that closes the outermost of `depth` open ones, among the octets from the offset `i`
on. -/
def objectEnd : Place → (depth i : Nat) → List UInt8 → Except Fault (Option Nat)
  | _, _, _, [] => .ok none
  | .escape, depth, i, _ :: bs => objectEnd .text depth (i + 1) bs
  | .text, depth, i, b :: bs => objectEnd (.insideOctet b) depth (i + 1) bs
  | .code, depth, i, b :: bs =>
    if b = '"'.toUInt8 then objectEnd .text depth (i + 1) bs
    else if b = '{'.toUInt8 then objectEnd .code (depth + 1) (i + 1) bs
    else if b = '}'.toUInt8 then do
      let depth ← difference depth 1
      if depth = 0 then return some (i + 1) else objectEnd .code depth (i + 1) bs
    else objectEnd .code depth (i + 1) bs

/-- The offset of the first bracket that closes nothing, among the octets from the offset `i` on. A brace too many is
passed over. -/
def unnestedClose : Place → (depth i : Nat) → List UInt8 → Except Fault (Option Nat)
  | _, _, _, [] => .ok none
  | .escape, depth, i, _ :: bs => unnestedClose .text depth (i + 1) bs
  | .text, depth, i, b :: bs => unnestedClose (.insideOctet b) depth (i + 1) bs
  | .code, depth, i, b :: bs =>
    if b = '"'.toUInt8 then unnestedClose .text depth (i + 1) bs
    else if b = '['.toUInt8 ∨ b = '{'.toUInt8 then unnestedClose .code (depth + 1) (i + 1) bs
    else if b = '}'.toUInt8 then unnestedClose .code (depth - 1) (i + 1) bs
    else if b = ']'.toUInt8 then
      if depth = 0 then .ok (some i)
      else do
        let depth ← difference depth 1
        unnestedClose .code depth (i + 1) bs
    else unnestedClose .code depth (i + 1) bs

theorem insideOctet_toUInt8 {c : Char} (h : c.toNat < 128) : Place.insideOctet c.toUInt8 = .inside c := by
  simp only [Place.insideOctet, Place.inside, toUInt8_eq_iff h (d := '\\') (by decide),
    toUInt8_eq_iff h (d := '"') (by decide)]

/-- An octet above ASCII is none of ASCII. -/
theorem ne_toUInt8_of_le {b : UInt8} {c : Char} (hb : 128 ≤ b.toNat) (hc : c.toNat < 128) : b ≠ c.toUInt8 := by
  intro h
  rw [h, toNat_toUInt8 hc] at hb
  omega

/-- What the two scanners have in common: in a string they know what an octet means, and outside of strings they pass
over those above ASCII. -/
structure Passing (scan : Place → (depth i : Nat) → List UInt8 → Except Fault (Option Nat)) : Prop where
  /-- In a string an octet says where the scan stands. -/
  text : ∀ d i b bs, scan .text d i (b :: bs) = scan (.insideOctet b) d (i + 1) bs
  /-- Behind a backslash every octet belongs to the string. -/
  escape : ∀ d i b bs, scan .escape d i (b :: bs) = scan .text d (i + 1) bs
  /-- Octets above ASCII are no delimiters. -/
  above : ∀ d i b bs, 128 ≤ b.toNat → scan .code d i (b :: bs) = scan .code d (i + 1) bs

section

variable {scan : Place → (depth i : Nat) → List UInt8 → Except Fault (Option Nat)}

theorem insideOctet_of_le {b : UInt8} (h : 128 ≤ b.toNat) : Place.insideOctet b = .text := by
  rw [Place.insideOctet, if_neg (ne_toUInt8_of_le h (by decide)), if_neg (ne_toUInt8_of_le h (by decide))]

/-- Octets above ASCII leave a scan where it stands, outside of strings and inside. -/
theorem Passing.append (hs : Passing scan) {place : Place} (hp : place ≠ .escape) {bs : List UInt8}
    (h : ∀ b ∈ bs, 128 ≤ b.toNat) (d i : Nat) (more : List UInt8) :
    scan place d i (bs ++ more) = scan place d (i + bs.length) more := by
  induction bs generalizing i with
  | nil => rfl
  | cons b bs ih =>
    have hb := h b List.mem_cons_self
    have hstep : scan place d i (b :: (bs ++ more)) = scan place d (i + 1) (bs ++ more) := by
      cases place with
      | code => exact hs.above d i b _ hb
      | text => rw [hs.text, insideOctet_of_le hb]
      | escape => exact absurd rfl hp
    rw [List.cons_append, hstep, ih fun b' hb' => h b' (List.mem_cons_of_mem b hb'), List.length_cons,
      Nat.add_assoc, Nat.add_comm 1]

/-- Outside of strings, a character that is not of ASCII is passed over. -/
theorem Passing.code (hs : Passing scan) {c : Char} (hc : ¬ c.toNat < 128) (d i : Nat) (more : List UInt8) :
    scan .code d i (String.utf8EncodeChar c ++ more) = scan .code d (i + c.utf8Size) more := by
  rw [hs.append (by simp) fun b hb => le_of_mem_utf8EncodeChar hc hb, String.length_utf8EncodeChar]

/-- In a string, a character says where the scan stands. -/
theorem Passing.inside (hs : Passing scan) (c : Char) (d i : Nat) (more : List UInt8) :
    scan .text d i (String.utf8EncodeChar c ++ more) = scan (.inside c) d (i + c.utf8Size) more := by
  by_cases hc : c.toNat < 128
  · rw [← String.length_utf8EncodeChar, utf8EncodeChar_of_ascii hc, List.singleton_append, hs.text,
      insideOctet_toUInt8 hc, List.length_singleton]
  · have hin : Place.inside c = .text := by
      rw [Place.inside, if_neg, if_neg] <;> rintro rfl <;> exact hc (by decide)
    rw [hin, hs.append (by simp) fun b hb => le_of_mem_utf8EncodeChar hc hb, String.length_utf8EncodeChar]

/-- Behind a backslash, every character belongs to the string. -/
theorem Passing.behind (hs : Passing scan) (c : Char) (d i : Nat) (more : List UInt8) :
    scan .escape d i (String.utf8EncodeChar c ++ more) = scan .text d (i + c.utf8Size) more := by
  rw [← String.length_utf8EncodeChar]
  cases hb : String.utf8EncodeChar c with
  | nil => exact absurd hb (String.utf8EncodeChar_ne_nil)
  | cons b bs =>
    rw [List.cons_append, hs.escape]
    by_cases hc : c.toNat < 128
    · rw [utf8EncodeChar_of_ascii hc] at hb
      cases hb
      rfl
    · have habove : ∀ b' ∈ bs, 128 ≤ b'.toNat := fun b' hb' =>
        le_of_mem_utf8EncodeChar hc (hb ▸ List.mem_cons_of_mem b hb')
      rw [hs.append (by simp) habove, List.length_cons, Nat.add_assoc, Nat.add_comm 1]

end

theorem passing_objectEnd : Passing objectEnd where
  text := fun _ _ _ _ => rfl
  escape := fun _ _ _ _ => rfl
  above := by
    intro d i b bs hb
    rw [objectEnd, if_neg (ne_toUInt8_of_le hb (by decide)), if_neg (ne_toUInt8_of_le hb (by decide)),
      if_neg (ne_toUInt8_of_le hb (by decide))]

theorem passing_unnestedClose : Passing unnestedClose where
  text := fun _ _ _ _ => rfl
  escape := fun _ _ _ _ => rfl
  above := by
    intro d i b bs hb
    have hopen : ¬ (b = '['.toUInt8 ∨ b = '{'.toUInt8) := by
      rintro (h | h)
      · exact ne_toUInt8_of_le hb (by decide) h
      · exact ne_toUInt8_of_le hb (by decide) h
    rw [unnestedClose, if_neg (ne_toUInt8_of_le hb (by decide)), if_neg hopen,
      if_neg (ne_toUInt8_of_le hb (by decide)), if_neg (ne_toUInt8_of_le hb (by decide))]

/-- A length found behind a character, as an offset. -/
theorem map_size_take (o : Option Nat) (c : Char) (cs : List Char) (i : Nat) :
    (o.map (· + 1)).map (fun n => i + size ((c :: cs).take n)) =
      o.map fun n => i + c.utf8Size + size (cs.take n) := by
  rw [Option.map_map]
  congr 1
  funext n
  simp only [Function.comp_apply, List.take_succ_cons, size_cons]
  omega

theorem octets_cons_of_ascii {c : Char} (h : c.toNat < 128) (cs : List Char) :
    octets (c :: cs) = c.toUInt8 :: octets cs := by
  rw [octets_cons, utf8EncodeChar_of_ascii h]
  rfl

/-- **The scan of an object finds what it finds character by character**, and the count of open braces does not
underflow: as long as one brace is open, a brace that closes has one to close. -/
theorem objectEnd_octets {place : Place} {depth : Nat} (hd : 0 < depth) (i : Nat) (cs : List Char) :
    objectEnd place depth i (octets cs) =
      .ok ((balancedLength place depth cs).map fun n => i + size (cs.take n)) := by
  fun_induction balancedLength place depth cs generalizing i with
  | case1 => rw [octets_nil, objectEnd]; rfl
  | case2 depth c cs ih => rw [octets_cons, passing_objectEnd.behind, ih hd, map_size_take]
  | case3 depth c cs ih => rw [octets_cons, passing_objectEnd.inside, ih hd, map_size_take]
  | case4 depth cs ih =>
    rw [octets_cons_of_ascii (by decide), objectEnd, if_pos rfl, ih hd, map_size_take]
    rfl
  | case5 depth cs hq ih =>
    rw [octets_cons_of_ascii (by decide), objectEnd, if_neg (by decide), if_pos rfl, ih (Nat.succ_pos _),
      map_size_take]
    rfl
  | case6 depth cs hle =>
    obtain rfl : depth = 1 := by omega
    rw [octets_cons_of_ascii (by decide), objectEnd, if_neg (by decide), if_neg (by decide), if_pos rfl]
    rfl
  | case7 depth cs hle hq ho ih =>
    obtain ⟨d, rfl⟩ : ∃ d, depth = d + 1 + 1 := ⟨depth - 2, by omega⟩
    rw [octets_cons_of_ascii (by decide), objectEnd, if_neg (by decide), if_neg (by decide), if_pos rfl,
      difference_add, ok_bind, if_neg (Nat.succ_ne_zero d), map_size_take]
    exact ih (Nat.succ_pos d) (i + 1)
  | case8 depth c cs hq ho hc ih =>
    rw [map_size_take, ← ih hd]
    by_cases ha : c.toNat < 128
    · rw [octets_cons_of_ascii ha, utf8Size_of_ascii ha, objectEnd, if_neg, if_neg, if_neg]
      · rwa [toUInt8_eq_iff ha (by decide)]
      · rwa [toUInt8_eq_iff ha (by decide)]
      · rwa [toUInt8_eq_iff ha (by decide)]
    · rw [octets_cons, passing_objectEnd.code ha]

/-- An object's first brace opens the count. -/
theorem objectEnd_object (i : Nat) (cs : List Char) :
    objectEnd .code 0 i (octets ('{' :: cs)) =
      .ok ((balancedLength .code 0 ('{' :: cs)).map fun n => i + size (('{' :: cs).take n)) := by
  have hopen : balancedLength .code 0 ('{' :: cs) = (balancedLength .code 1 cs).map (· + 1) := rfl
  rw [octets_cons_of_ascii (by decide), objectEnd, if_neg (by decide), if_pos rfl,
    objectEnd_octets Nat.one_pos, hopen, map_size_take]
  rfl

/-- **The scan for a closing bracket finds what it finds character by character**, and its count does not
underflow. -/
theorem unnestedClose_octets (place : Place) (depth i : Nat) (cs : List Char) :
    unnestedClose place depth i (octets cs) =
      .ok ((unnestedLength place depth cs).map fun n => i + size (cs.take n)) := by
  fun_induction unnestedLength place depth cs generalizing i with
  | case1 => rw [octets_nil, unnestedClose]; rfl
  | case2 depth c cs ih => rw [octets_cons, passing_unnestedClose.behind, ih, map_size_take]
  | case3 depth c cs ih => rw [octets_cons, passing_unnestedClose.inside, ih, map_size_take]
  | case4 depth cs ih =>
    rw [octets_cons_of_ascii (by decide), unnestedClose, if_pos rfl, ih, map_size_take]
    rfl
  | case5 depth c cs hq ho ih =>
    have ha : c.toNat < 128 := by rcases ho with rfl | rfl <;> decide
    have hopen : c.toUInt8 = '['.toUInt8 ∨ c.toUInt8 = '{'.toUInt8 := by
      rcases ho with rfl | rfl
      · exact .inl rfl
      · exact .inr rfl
    rw [octets_cons_of_ascii ha, unnestedClose, if_neg, if_pos hopen, ih, map_size_take, utf8Size_of_ascii ha]
    rwa [toUInt8_eq_iff ha (by decide)]
  | case6 depth cs hq ho ih =>
    rw [octets_cons_of_ascii (by decide), unnestedClose, if_neg (by decide), if_neg (by decide), if_pos rfl, ih,
      map_size_take]
    rfl
  | case7 cs =>
    rw [octets_cons_of_ascii (by decide), unnestedClose, if_neg (by decide), if_neg (by decide),
      if_neg (by decide), if_pos rfl]
    rfl
  | case8 depth cs hd hq ho hc ih =>
    obtain ⟨d, rfl⟩ : ∃ d, depth = d + 1 := Nat.exists_eq_succ_of_ne_zero hd
    rw [octets_cons_of_ascii (by decide), unnestedClose, if_neg (by decide), if_neg (by decide),
      if_neg (by decide), if_pos rfl, if_neg hd, difference_add, ok_bind, map_size_take]
    exact ih (i + 1)
  | case9 depth c cs hq ho hc hb ih =>
    rw [map_size_take, ← ih]
    by_cases ha : c.toNat < 128
    · rw [octets_cons_of_ascii ha, utf8Size_of_ascii ha, unnestedClose, if_neg, if_neg, if_neg, if_neg]
      · rwa [toUInt8_eq_iff ha (by decide)]
      · rwa [toUInt8_eq_iff ha (by decide)]
      · rwa [toUInt8_eq_iff ha (by decide), toUInt8_eq_iff ha (by decide)]
      · rwa [toUInt8_eq_iff ha (by decide)]
    · rw [octets_cons, passing_unnestedClose.code ha]

end Marker

end TurnRelay
