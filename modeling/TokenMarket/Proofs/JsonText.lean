import TokenMarket.Json.Printer
import TokenMarket.Json.Record
import TokenMarket.Proofs.Hex

/-!
# JSON texts read back

The printer and the reader of JSON are two separate accounts of one
format.  This module ties them together, token by token: what the printer
writes for a string, and for the marks between the values, is what the
scanner takes in.

The escapes carry the argument.  `Token.string?_escapedChar` says that the
form of one character is one piece again, whatever follows it, and the
text of a string follows by induction.  From the tokens on nothing is
about characters any more.
-/

namespace TokenMarket

namespace Json

/-! ## Strings -/

/-- The four digits of a small code. -/
theorem Token.fourDigits?_small {n : Nat} (h : n < 256) :
    Token.fourDigits? '0' '0' (Hex.digit (n / 16)) (Hex.digit (n % 16)) = some n := by
  have hhigh : Hex.digitValue? (Hex.digit (n / 16)) = some (n / 16) :=
    Hex.digitValue?_digit (by omega)
  have hlow : Hex.digitValue? (Hex.digit (n % 16)) = some (n % 16) :=
    Hex.digitValue?_digit (by omega)
  have hzero : Hex.digitValue? '0' = some 0 := by decide
  simp only [Token.fourDigits?, hzero, hhigh, hlow, Option.bind_eq_bind, Option.bind_some,
    Option.pure_def, Option.some.injEq]
  omega

/-- A character that is no quote, no backslash and no control stands for
itself. -/
theorem escapedChar_of_ne {c : Char} (hquote : c ≠ '"') (hback : c ≠ '\\')
    (hcontrol : ¬ c.toNat < 0x20) : escapedChar c = [c] := by
  have hne : ∀ x : Char, x.toNat < 0x20 → c ≠ x := fun x hx heq => hcontrol (heq ▸ hx)
  rw [escapedChar, if_neg hquote, if_neg hback, if_neg (hne _ (by decide)),
    if_neg (hne _ (by decide)), if_neg (hne _ (by decide)), if_neg (hne _ (by decide)),
    if_neg (hne _ (by decide)), if_neg hcontrol]

/-- The three forms of a character: an escape of one letter, the escape of
a control by its code, and the character itself. -/
theorem escapedChar_cases (c : Char) :
    (∃ e, e ≠ 'u' ∧ Token.escape? e = some c ∧ escapedChar c = ['\\', e])
      ∨ (c.toNat < 0x20 ∧ escapedChar c
          = ['\\', 'u', '0', '0', Hex.digit (c.toNat / 16), Hex.digit (c.toNat % 16)])
      ∨ (c ≠ '"' ∧ c ≠ '\\' ∧ ¬ c.toNat < 0x20 ∧ escapedChar c = [c]) := by
  by_cases h : c = '"' ∨ c = '\\' ∨ c = '\x08' ∨ c = '\x0c' ∨ c = '\n' ∨ c = '\r' ∨ c = '\t'
  · left
    rcases h with rfl | rfl | rfl | rfl | rfl | rfl | rfl
    · exact ⟨'"', by decide, rfl, rfl⟩
    · exact ⟨'\\', by decide, rfl, rfl⟩
    · exact ⟨'b', by decide, rfl, rfl⟩
    · exact ⟨'f', by decide, rfl, rfl⟩
    · exact ⟨'n', by decide, rfl, rfl⟩
    · exact ⟨'r', by decide, rfl, rfl⟩
    · exact ⟨'t', by decide, rfl, rfl⟩
  · simp only [not_or] at h
    right
    by_cases hcontrol : c.toNat < 0x20
    · exact Or.inl ⟨hcontrol, by simp [escapedChar, h, hcontrol]⟩
    · exact Or.inr ⟨h.1, h.2.1, hcontrol, escapedChar_of_ne h.1 h.2.1 hcontrol⟩

/-- The form of one character is read as one piece. -/
theorem Token.string?_escapedChar (c : Char) (rest : List Char) :
    Token.string? (escapedChar c ++ rest)
      = Token.addPiece (some (.char c)) (Token.string? rest) := by
  rcases escapedChar_cases c with ⟨e, hu, he, hform⟩ | ⟨hcontrol, hform⟩ | ⟨hq, hb, hc, hform⟩
  · rw [hform]
    simp [Token.string?, hu, he]
  · have hcode : Piece.ofCode c.toNat = .char c := by
      rw [Piece.ofCode, if_neg (by omega), Char.ofNat_toNat]
    rw [hform]
    simp only [List.cons_append, List.nil_append, Token.string?,
      Token.fourDigits?_small (show c.toNat < 256 by omega), Option.map_some, hcode]
  · rw [hform]
    simp [Token.string?, hb, hc]

/-- The characters of a string are read up to the closing quote. -/
theorem Token.string?_escaped (cs rest : List Char) :
    Token.string? (cs.flatMap escapedChar ++ '"' :: rest) = some (cs.map .char, rest) := by
  induction cs with
  | nil => simp [Token.string?]
  | cons c cs ih =>
    rw [List.flatMap_cons, List.append_assoc, Token.string?_escapedChar, ih]
    rfl

@[simp] theorem Piece.chars?_map_char (cs : List Char) :
    Piece.chars? (cs.map .char) = some cs := by
  induction cs with
  | nil => rfl
  | cons c cs ih => simp [Piece.chars?, ih]

@[simp] theorem Piece.text?_map_char (s : String) : Piece.text? (s.toList.map .char) = some s := by
  simp [Piece.text?]

/-- A text as it is written without half pairs. -/
def Tree.ofText (text : String) : Tree :=
  .string (text.toList.map .char)

/-- An object whose names are written like that. -/
def Tree.ofMembers (members : List (String × Tree)) : Tree :=
  .object (members.map fun p => (p.1.toList.map .char, p.2))

@[simp] theorem Tree.value?_ofText (levels : Nat) (text : String) :
    (Tree.ofText text).value? levels = some (.string text) := by
  simp [Tree.ofText, Tree.value?]

theorem Tree.named?_map (members : List (String × Tree)) :
    Tree.named? (members.map fun p => (p.1.toList.map .char, p.2)) = some members := by
  induction members with
  | nil => rfl
  | cons p rest ih =>
    rw [Tree.named?] at ih
    simp [Tree.named?, ih]

/-- A record is read off such an object name by name. -/
theorem Tree.slots?_ofMembers (names : List String) (members : List (String × Tree)) :
    Tree.slots? names (Tree.ofMembers members) = names.mapM (single? members) := by
  rw [Tree.ofMembers, Tree.slots?, Tree.named?_map]
  rfl

/-! ## Tokens -/

/-- A token at the front of a text is the first token of the text. -/
theorem Token.scan?_of_token? {c : Char} {rest out : List Char} {t : Token}
    (hspace : Token.isSpace c = false) (htoken : Token.token? c rest = some (t, out)) :
    Token.scan? (c :: rest) = (Token.scan? out).map (t :: ·) := by
  rw [Token.scan?, if_neg (by simp [hspace])]
  split
  · next h => simp [htoken] at h
  · next h =>
    obtain ⟨rfl, rfl⟩ : t = _ ∧ out = _ := by simpa [htoken] using h
    rfl

theorem Token.scan?_openObject (rest : List Char) :
    Token.scan? ('\x7b' :: rest) = (Token.scan? rest).map (.openObject :: ·) :=
  Token.scan?_of_token? (by decide) rfl

theorem Token.scan?_closeObject (rest : List Char) :
    Token.scan? ('\x7d' :: rest) = (Token.scan? rest).map (.closeObject :: ·) :=
  Token.scan?_of_token? (by decide) rfl

theorem Token.scan?_comma (rest : List Char) :
    Token.scan? (',' :: rest) = (Token.scan? rest).map (.comma :: ·) :=
  Token.scan?_of_token? (by decide) rfl

theorem Token.scan?_colon (rest : List Char) :
    Token.scan? (':' :: rest) = (Token.scan? rest).map (.colon :: ·) :=
  Token.scan?_of_token? (by decide) rfl

/-- A string is scanned as the pieces of its characters. -/
theorem Token.scan?_stringText (s : String) (rest : List Char) :
    Token.scan? (stringText s ++ rest)
      = (Token.scan? rest).map (.string (s.toList.map .char) :: ·) := by
  have htoken : Token.token? '"' (s.toList.flatMap escapedChar ++ '"' :: rest)
      = some (.string (s.toList.map .char), rest) := by
    simp [Token.token?, Token.string?_escaped]
  have htext : stringText s ++ rest = '"' :: (s.toList.flatMap escapedChar ++ '"' :: rest) := by
    simp [stringText]
  rw [htext]
  exact Token.scan?_of_token? (by decide) htoken

end Json

end TokenMarket
