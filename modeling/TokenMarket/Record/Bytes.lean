import TokenMarket.Error
import TokenMarket.Text.Blank
import TokenMarket.Text.Hex

/-!
# Records of bytes

Some records of the contract are a fixed sequence of bytes: words of 64
bits with the low byte first, hashes, and single bytes.  They arrive as
hexadecimal text.  Bytes behind the fixed ones are ignored.
-/

namespace TokenMarket.Bytes

/-- The number that the bytes stand for, the low byte first. -/
def value : List UInt8 → Nat
  | [] => 0
  | b :: rest => b.toNat + 256 * value rest

/-- The low `count` bytes of a number, the lowest first. -/
def ofNat : (count n : Nat) → List UInt8
  | 0, _ => []
  | count + 1, n => UInt8.ofNat n :: ofNat count (n / 256)

/-- The eight bytes of a word. -/
def ofWord (n : UInt64) : List UInt8 :=
  ofNat 8 n.toNat

/-- The word that starts at a position. -/
def wordAt (bytes : List UInt8) (position : Nat) : UInt64 :=
  UInt64.ofNat (value ((bytes.drop position).take 8))

/-- The bytes of a record in hexadecimal text.  Blanks at the ends do not
count; a complaint shows the text with them. -/
def ofHex (record text : String) : Except Error (List UInt8) :=
  match Hex.decode (Text.trimBoth text.toList) with
  | some bytes => .ok bytes
  | none => .error (.invalidField record "bytes" text)

end TokenMarket.Bytes
