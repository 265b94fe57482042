import TokenMarket.Text.Blank
import TokenMarket.Text.Hex
import TokenMarket.Text.Numeral
import TokenMarket.Text.Quoted
import TokenMarket.Text.Utf8

/-!
# Account and contract hashes

A hash is 32 bytes.  It is written as 64 lower-case digits, bare in
records and dictionary keys, and with a tag in front where the chain
wants to know what it names: `account-hash-` or `hash-`.

Reading takes either form and either case.  Blanks at the ends are
dropped, and then at most one tag of the hash's own kind.  What is left
must be 64 bytes long before its digits are looked at, so a text of the
wrong length is told its length and not its first bad digit.

The kind is part of the type.  An account hash cannot be put where a
contract hash is asked for, and the tag of the one is not read as the tag
of the other.
-/

namespace TokenMarket

/-- What a hash names. -/
inductive HashKind where
  | account
  | contract
deriving DecidableEq, Repr

/-- The tag in front of a hash of this kind. -/
def HashKind.tag : HashKind → String
  | .account => "account-hash-"
  | .contract => "hash-"

/-- A hash of 32 bytes. -/
structure Hash (kind : HashKind) where
  /-- The bytes, in the order in which they are written. -/
  bytes : List UInt8
  length_bytes : bytes.length = 32
deriving DecidableEq

/-- The hash of an account. -/
abbrev AccountHash := Hash .account

/-- The hash of a contract. -/
abbrev ContractHash := Hash .contract

/-- Why a text is no hash. -/
inductive HashError where
  /-- The digits take the wrong number of bytes. -/
  | length (got : Nat)
  /-- The byte at this position is no digit. -/
  | digit (byte : UInt8) (position : Nat)
deriving DecidableEq, Repr

namespace HashError

/-- The short name of the cause. -/
def kind : HashError → String
  | length _ => "Length"
  | digit _ _ => "Hex"

/-- The sentence that tells the cause. -/
def message : HashError → String
  | length got => "expected 64 hex characters, got " ++ Numeral.decimal got
  | digit byte position =>
    "invalid hex: Invalid character " ++ Text.quotedSingle (Utf8.byteChar byte)
      ++ " at position " ++ Numeral.decimal position

end HashError

namespace Hash

variable {kind : HashKind}

/-- The 64 digits. -/
def hex (h : Hash kind) : String :=
  String.ofList (Hex.encode h.bytes)

/-- The 64 digits behind the tag of the kind. -/
def formatted (h : Hash kind) : String :=
  kind.tag ++ h.hex

/-- The first byte that is no hexadecimal digit, and its position. -/
def firstBad? : (position : Nat) → List UInt8 → Option (UInt8 × Nat)
  | _, [] => none
  | i, b :: bytes =>
    if Hex.isDigit (Utf8.byteChar b) then firstBad? (i + 1) bytes else some (b, i)

/-- A text without the blanks at its ends and without the tag. -/
def bare (kind : HashKind) (cs : List Char) : List Char :=
  let body := Text.trimBoth cs
  (Text.dropLead? kind.tag.toList body).getD body

/-- Reads the digits of a hash, which were freed of blanks and tag. -/
def ofDigits (kind : HashKind) (digits : List UInt8) : Except HashError (Hash kind) :=
  if digits.length ≠ 64 then .error (.length digits.length)
  else match firstBad? 0 digits with
    | some (byte, position) => .error (.digit byte position)
    | none =>
      match Hex.decode (digits.map Utf8.byteChar) with
      | some bytes =>
        if h : bytes.length = 32 then .ok ⟨bytes, h⟩ else .error (.length digits.length)
      | none => .error (.length digits.length)

/-- Reads a hash, tagged or bare. -/
def parse (kind : HashKind) (text : String) : Except HashError (Hash kind) :=
  ofDigits kind (Utf8.encode (bare kind text.toList))

/-- The 32 bytes as a hash. -/
def ofBytes? (kind : HashKind) (bytes : List UInt8) : Option (Hash kind) :=
  if h : bytes.length = 32 then some ⟨bytes, h⟩ else none

end Hash

end TokenMarket
