import TokenMarket.Json.Number
import TokenMarket.Text.Hex

/-!
# The tokens of a JSON text

`scan?` cuts a text into tokens and drops the four blank characters
between them.  It is strict: a control character inside a string, an
unknown escape, a number with a leading zero or a word other than the
three constants ends the scan.

A string token keeps its pieces.  An escape may name half of a surrogate
pair, and whether the halves make characters is asked only of a string
that is kept (`Piece.text?`).
-/

namespace TokenMarket.Json

/-- A piece of a string: a character, or an escape that names half of a
surrogate pair. -/
inductive Piece where
  | char (c : Char)
  | half (code : Nat)
deriving DecidableEq, Repr

namespace Piece

/-- The piece that an escape with this code stands for. -/
def ofCode (code : Nat) : Piece :=
  if 0xD800 ≤ code ∧ code ≤ 0xDFFF then .half code else .char (Char.ofNat code)

/-- The characters of the pieces.  A first half has to be followed by a
second half at once. -/
def chars? : List Piece → Option (List Char)
  | [] => some []
  | .char c :: rest => (chars? rest).map (c :: ·)
  | .half a :: .half b :: rest =>
    if a < 0xDC00 ∧ 0xDC00 ≤ b then
      (chars? rest).map (Char.ofNat (0x10000 + 0x400 * (a - 0xD800) + (b - 0xDC00)) :: ·)
    else none
  | .half _ :: _ => none

/-- The text of the pieces. -/
def text? (pieces : List Piece) : Option String :=
  (chars? pieces).map String.ofList

end Piece

/-- A token. -/
inductive Token where
  | openArray
  | closeArray
  | openObject
  | closeObject
  | comma
  | colon
  | null
  | bool (b : Bool)
  | number (t : NumberText)
  | string (pieces : List Piece)
deriving DecidableEq, Repr

namespace Token

/-- The characters that may stand between tokens. -/
def isSpace (c : Char) : Bool :=
  c == ' ' || c == '\t' || c == '\n' || c == '\r'

/-- The character of a one-letter escape. -/
def escape? : Char → Option Char
  | '"' => some '"'
  | '\\' => some '\\'
  | '/' => some '/'
  | 'b' => some '\x08'
  | 'f' => some '\x0c'
  | 'n' => some '\n'
  | 'r' => some '\r'
  | 't' => some '\t'
  | _ => none

/-- The number of four hexadecimal digits. -/
def fourDigits? (a b c d : Char) : Option Nat := do
  let a ← Hex.digitValue? a
  let b ← Hex.digitValue? b
  let c ← Hex.digitValue? c
  let d ← Hex.digitValue? d
  return ((16 * a + b) * 16 + c) * 16 + d

/-- Puts a piece in front of the rest of a string. -/
def addPiece (piece : Option Piece) (rest : Option (List Piece × List Char)) :
    Option (List Piece × List Char) :=
  match piece, rest with
  | some p, some (ps, cs) => some (p :: ps, cs)
  | _, _ => none

/-- Reads a string whose opening quote has been read. -/
def string? : List Char → Option (List Piece × List Char)
  | [] => none
  | '"' :: rest => some ([], rest)
  | '\\' :: 'u' :: a :: b :: c :: d :: rest =>
    addPiece ((fourDigits? a b c d).map Piece.ofCode) (string? rest)
  | '\\' :: e :: rest => addPiece ((escape? e).map .char) (string? rest)
  | c :: rest =>
    if c.toNat < 0x20 ∨ c = '\\' then none else addPiece (some (.char c)) (string? rest)

theorem addPiece_length {piece : Option Piece} {inner : Option (List Piece × List Char)}
    {ps : List Piece} {out : List Char} {n : Nat}
    (hin : ∀ ps out, inner = some (ps, out) → out.length < n)
    (h : addPiece piece inner = some (ps, out)) : out.length < n := by
  unfold addPiece at h
  split at h
  · obtain ⟨_, rfl⟩ := by simpa using h
    exact hin _ _ rfl
  · simp at h

/-- A string takes at least its closing quote. -/
theorem string?_length {cs out : List Char} {ps : List Piece}
    (h : string? cs = some (ps, out)) : out.length < cs.length := by
  fun_induction string? cs generalizing ps out with
  | case1 => simp at h
  | case2 rest =>
    obtain ⟨_, rfl⟩ := by simpa using h
    simp
  | case3 a b c d rest ih =>
    have := addPiece_length (fun _ _ => ih) h
    simp only [List.length_cons]
    omega
  | case4 e rest _ ih =>
    have := addPiece_length (fun _ _ => ih) h
    simp only [List.length_cons]
    omega
  | case5 => simp at h
  | case6 c rest _ _ _ _ ih =>
    have := addPiece_length (fun _ _ => ih) h
    simp only [List.length_cons]
    omega

/-- Reads the rest of a constant. -/
def constant? (t : Token) : (letters cs : List Char) → Option (Token × List Char)
  | [], cs => some (t, cs)
  | _ :: _, [] => none
  | l :: ls, c :: cs => if l = c then constant? t ls cs else none

theorem constant?_length {t u : Token} {letters cs out : List Char}
    (h : constant? t letters cs = some (u, out)) : out.length ≤ cs.length := by
  induction letters generalizing cs with
  | nil =>
    obtain ⟨_, rfl⟩ := by simpa [constant?] using h
    exact Nat.le_refl _
  | cons l ls ih =>
    cases cs with
    | nil => simp [constant?] at h
    | cons c cs =>
      simp only [constant?] at h
      split at h
      · exact Nat.le_succ_of_le (ih h)
      · simp at h

/-- Reads the token that starts with `c`. -/
def token? (c : Char) (rest : List Char) : Option (Token × List Char) :=
  match c with
  | '[' => some (.openArray, rest)
  | ']' => some (.closeArray, rest)
  | '\x7b' => some (.openObject, rest)
  | '\x7d' => some (.closeObject, rest)
  | ',' => some (.comma, rest)
  | ':' => some (.colon, rest)
  | '"' => (string? rest).map fun (ps, rest) => (.string ps, rest)
  | 'n' => constant? .null ['u', 'l', 'l'] rest
  | 't' => constant? (.bool true) ['r', 'u', 'e'] rest
  | 'f' => constant? (.bool false) ['a', 'l', 's', 'e'] rest
  | c => (NumberText.read? (c :: rest)).map fun (t, rest) => (.number t, rest)

theorem token?_length {c : Char} {rest out : List Char} {t : Token}
    (h : token? c rest = some (t, out)) : out.length ≤ rest.length := by
  have single : ∀ {u : Token}, some (u, rest) = some (t, out) → out.length ≤ rest.length := by
    intro u hu
    obtain ⟨_, rfl⟩ := by simpa using hu
    exact Nat.le_refl _
  unfold token? at h
  split at h
  · exact single h
  · exact single h
  · exact single h
  · exact single h
  · exact single h
  · exact single h
  · obtain ⟨⟨ps, r⟩, hs, he⟩ := Option.map_eq_some_iff.1 h
    obtain ⟨_, rfl⟩ := by simpa using he
    exact Nat.le_of_lt (string?_length hs)
  · exact constant?_length h
  · exact constant?_length h
  · exact constant?_length h
  · obtain ⟨⟨n, r⟩, hs, he⟩ := Option.map_eq_some_iff.1 h
    obtain ⟨_, rfl⟩ := by simpa using he
    exact Nat.le_of_lt_succ (NumberText.read?_length hs)

/-- The tokens of a text. -/
def scan? (cs : List Char) : Option (List Token) :=
  match cs with
  | [] => some []
  | c :: rest =>
    if isSpace c then scan? rest
    else
      match _ : token? c rest with
      | none => none
      | some (t, out) => (scan? out).map (t :: ·)
termination_by cs.length
decreasing_by
  · simp
  · rename_i h
    have := token?_length h
    simp only [List.length_cons]
    omega

end Token

end TokenMarket.Json
