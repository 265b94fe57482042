/-!
# UTF-8

Text as bytes and bytes as text.  A sequence of bytes that is no UTF-8
has two readings.  `decode?` refuses it; `decodeLossy` puts U+FFFD in
the place of every ill-formed part.  An ill-formed part is the longest
start of a well-formed character, or one byte if there is none, so one
bad byte never hides the good character after it.
-/

namespace TokenMarket.Utf8

/-- U+FFFD, which stands for bytes that are no text. -/
def replacement : Char := '\uFFFD'

/-- The UTF-8 bytes of a text. -/
def encode (cs : List Char) : List UInt8 :=
  cs.flatMap String.utf8EncodeChar

/-- The characters of the codes 0 to 255, as a reading of single bytes. -/
def byteChar (b : UInt8) : Char :=
  Char.ofNat b.toNat

/-- What a first byte announces: how many bytes follow, its share of the
code point, and the range in which the second byte has to lie. -/
structure Lead where
  following : Nat
  share : Nat
  low : Nat
  high : Nat
deriving DecidableEq, Repr

/-- The announcement of a first byte.  The ranges of the second byte rule
out overlong forms, surrogates and codes beyond U+10FFFF. -/
def lead? (b : UInt8) : Option Lead :=
  let n := b.toNat
  if n < 0x80 then some ⟨0, n, 0, 0⟩
  else if n < 0xC2 then none
  else if n < 0xE0 then some ⟨1, n - 0xC0, 0x80, 0xBF⟩
  else if n = 0xE0 then some ⟨2, 0, 0xA0, 0xBF⟩
  else if n = 0xED then some ⟨2, 0xD, 0x80, 0x9F⟩
  else if n < 0xF0 then some ⟨2, n - 0xE0, 0x80, 0xBF⟩
  else if n = 0xF0 then some ⟨3, 0, 0x90, 0xBF⟩
  else if n < 0xF4 then some ⟨3, n - 0xF0, 0x80, 0xBF⟩
  else if n = 0xF4 then some ⟨3, 4, 0x80, 0x8F⟩
  else none

/-- Takes the bytes that follow a first byte.  The answer holds the code
point, or nothing when a byte is missing or out of range, and the bytes
left over. -/
def following : (count share low high : Nat) → List UInt8 → Option Nat × List UInt8
  | 0, share, _, _, bytes => (some share, bytes)
  | _ + 1, _, _, _, [] => (none, [])
  | count + 1, share, low, high, b :: bytes =>
    if low ≤ b.toNat ∧ b.toNat ≤ high then
      following count (64 * share + (b.toNat - 0x80)) 0x80 0xBF bytes
    else (none, b :: bytes)

/-- Bytes are only taken away. -/
theorem following_length_le (count share low high : Nat) (bytes : List UInt8) :
    (following count share low high bytes).2.length ≤ bytes.length := by
  induction count generalizing share low high bytes with
  | zero => simp [following]
  | succ count ih =>
    cases bytes with
    | nil => simp [following]
    | cons b bytes =>
      simp only [following]
      split
      · exact Nat.le_succ_of_le (ih _ _ _ bytes)
      · simp

/-- Takes one character, or one ill-formed part, off the front. -/
def next (b : UInt8) (bytes : List UInt8) : Option Char × List UInt8 :=
  match lead? b with
  | none => (none, bytes)
  | some l =>
    let (code, rest) := following l.following l.share l.low l.high bytes
    (code.map Char.ofNat, rest)

theorem next_length_le (b : UInt8) (bytes : List UInt8) :
    (next b bytes).2.length ≤ bytes.length := by
  unfold next
  split
  · exact Nat.le_refl _
  · exact following_length_le ..

/-- The characters and the ill-formed parts of a sequence of bytes. -/
def scan : List UInt8 → List (Option Char)
  | [] => []
  | b :: bytes => (next b bytes).1 :: scan (next b bytes).2
termination_by bytes => bytes.length
decreasing_by
  have := next_length_le b bytes
  simp only [List.length_cons]
  omega

/-- The text of the bytes, if they are well-formed. -/
def decode? (bytes : List UInt8) : Option (List Char) :=
  (scan bytes).mapM id

/-- The text of the bytes, with U+FFFD for each ill-formed part. -/
def decodeLossy (bytes : List UInt8) : List Char :=
  (scan bytes).map fun c => c.getD replacement

end TokenMarket.Utf8
