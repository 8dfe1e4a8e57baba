/-!
# Reading UTF-8 leniently

Bytes as characters. Where the bytes are not well-formed, each longest piece that could still have
begun a character becomes one replacement character, and so does each byte that could not.

## Main definitions

* `Text.decodeLossy`: the characters of bytes.
* `Text.bytes`: the bytes of characters.
-/

namespace TurnRelay

namespace Text

/-- What stands for bytes that are no character. -/
def replacement : Char := Char.ofNat 0xfffd

/-- Whether a byte continues a character. -/
def isContinuation (b : Nat) : Bool := decide (0x80 ≤ b ∧ b ≤ 0xbf)

/-- The number of bytes that follow a first byte, and the bounds of the second. -/
def following? (b : Nat) : Option (Nat × Nat × Nat) :=
  if 0xc2 ≤ b ∧ b ≤ 0xdf then some (1, 0x80, 0xbf)
  else if b = 0xe0 then some (2, 0xa0, 0xbf)
  else if b = 0xed then some (2, 0x80, 0x9f)
  else if 0xe1 ≤ b ∧ b ≤ 0xef then some (2, 0x80, 0xbf)
  else if b = 0xf0 then some (3, 0x90, 0xbf)
  else if 0xf1 ≤ b ∧ b ≤ 0xf3 then some (3, 0x80, 0xbf)
  else if b = 0xf4 then some (3, 0x80, 0x8f)
  else none

/-- The bits of a first byte that belong to the character. -/
def leadBits (b count : Nat) : Nat := b % Nat.pow 2 (6 - count)

/-- The continuing bytes at the front, at most `count` of them, the first within bounds. -/
def continuing : Nat → Nat → Nat → List Nat → List Nat
  | count + 1, low, high, b :: bs =>
    if low ≤ b ∧ b ≤ high then b :: continuing count 0x80 0xbf bs else []
  | _, _, _, _ => []

/-- The characters of bytes, at most `fuel` of them. -/
def decodeWithin : Nat → List Nat → List Char
  | fuel + 1, b :: bs =>
    if b < 0x80 then Char.ofNat b :: decodeWithin fuel bs
    else
      match following? b with
      | none => replacement :: decodeWithin fuel bs
      | some (count, low, high) =>
        let more := continuing count low high bs
        let c :=
          if more.length = count then
            Char.ofNat (more.foldl (fun n x => 64 * n + x % 64) (leadBits b count))
          else replacement
        c :: decodeWithin fuel (bs.drop more.length)
  | _, _ => []

/-- The characters of bytes. -/
def decodeLossy (bs : List Nat) : List Char := decodeWithin bs.length bs

/-- The bytes of characters. -/
def bytes (cs : List Char) : List Nat := (String.ofList cs).toUTF8.toList.map (·.toNat)

end Text

end TurnRelay
