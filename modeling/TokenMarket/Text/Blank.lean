/-!
# Blank characters

The blank characters are those with the Unicode property `White_Space`.
`trim` drops them from both ends of a text.  Everything that a person
types is trimmed by this one rule, and by no narrower one: a full-width
space or a line separator counts as much as a plain space.
-/

namespace TokenMarket.Text

/-- A blank character has the Unicode property `White_Space`.  There are
25 of them. -/
def isBlank (c : Char) : Bool :=
  let n := c.toNat
  (0x9 ≤ n && n ≤ 0xD) || n == 0x20 || n == 0x85 || n == 0xA0 || n == 0x1680
    || (0x2000 ≤ n && n ≤ 0x200A) || n == 0x2028 || n == 0x2029 || n == 0x202F
    || n == 0x205F || n == 0x3000

/-- The characters left when the blanks at the end are dropped. -/
def trimEnd (cs : List Char) : List Char :=
  (cs.reverse.dropWhile isBlank).reverse

/-- The characters left when the blanks at both ends are dropped. -/
def trimBoth (cs : List Char) : List Char :=
  trimEnd (cs.dropWhile isBlank)

/-- The text without the blanks at its ends. -/
def trim (s : String) : String :=
  String.ofList (trimBoth s.toList)

/-- A text is blank when nothing is left of it after `trim`. -/
def isBlankText (s : String) : Bool :=
  s.toList.all isBlank

/-- The rest of `cs` after the leading characters `lead`, if `cs` starts
with them. -/
def dropLead? : (lead cs : List Char) → Option (List Char)
  | [], cs => some cs
  | _ :: _, [] => none
  | l :: ls, c :: cs => if l = c then dropLead? ls cs else none

/-- `dropLead?` answers exactly when the text starts with the lead. -/
theorem dropLead?_eq_some_iff {lead cs rest : List Char} :
    dropLead? lead cs = some rest ↔ cs = lead ++ rest := by
  induction lead generalizing cs with
  | nil => simp [dropLead?, eq_comm]
  | cons l ls ih =>
    cases cs with
    | nil => simp [dropLead?]
    | cons c cs =>
      by_cases h : l = c
      · simp [dropLead?, h, ih]
      · simp [dropLead?, h, Ne.symm h]

end TokenMarket.Text
