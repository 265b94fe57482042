import TokenMarket.Proofs.Hex
import TokenMarket.Proofs.Numeral
import TokenMarket.Toml.Document

/-!
# Written lines are read back

The reader of documents knows many ways to write the same thing.  This module fixes one
of them for a line of each kind: a header, or a name and a value behind an equals sign.
What is written in this way is read back, whatever a text in it holds.

There are four groups.

* Strings.  `escaped` writes a character so that it can stand between double quotes.
* Numbers.  A word of digits is neither a date nor a number to another base.
* Names.  A name without quotes ends in front of the first character of another kind.
* Lines.  `Written.line?_chars` reads one line and `lines?_written` a document, by
  induction over its lines.
-/

namespace TokenMarket.Toml

/-- Characters that differ in kind are different. -/
theorem ne_of_kind {p : Char → Bool} {c d : Char} (hc : p c = true) (hd : p d = false) : c ≠ d := by
  rintro rfl
  rw [hc] at hd
  cases hd

/-- Characters of one kind up to the first of another kind. -/
theorem span_stop {p : Char → Bool} {cs : List Char} (hcs : ∀ c ∈ cs, p c = true) {stop : Char}
    (hstop : p stop = false) (rest : List Char) :
    (cs ++ stop :: rest).takeWhile p = cs ∧ (cs ++ stop :: rest).dropWhile p = stop :: rest := by
  have hnot : ¬ p stop = true := by simp [hstop]
  constructor
  · rw [List.takeWhile_append_of_pos hcs, List.takeWhile_cons_of_neg hnot, List.append_nil]
  · rw [List.dropWhile_append_of_pos hcs, List.dropWhile_cons_of_neg hnot]

/-! ## Strings -/

/-- A character between double quotes. -/
def escaped (c : Char) : List Char :=
  if c = '"' ∨ c = '\\' then ['\\', c]
  else if isText c then [c]
  else ['\\', 'u', '0', '0', Hex.digit (c.toNat / 16), Hex.digit (c.toNat % 16)]

/-- A string between double quotes. -/
def quoted (s : String) : List Char := '"' :: (s.toList.flatMap escaped ++ ['"'])

/-- Two digits are enough for the characters that are written by their code. -/
theorem coded?_digits {c : Char} (h : c.toNat < 128) :
    coded? ['0', '0', Hex.digit (c.toNat / 16), Hex.digit (c.toNat % 16)] = some c := by
  have hall : ∀ n < 128, coded? ['0', '0', Hex.digit (n / 16), Hex.digit (n % 16)]
      = some (Char.ofNat n) := by
    decide +kernel
  rw [hall c.toNat h, Char.ofNat_toNat]

theorem basic?_text {c : Char} (htext : isText c = true) (hquote : c ≠ '"') (hslash : c ≠ '\\')
    (rest : List Char) : basic? (c :: rest) = addChar (some c) (basic? rest) := by
  have hplain : (isText c && c != '\\') = true := by simp [htext, hslash]
  conv =>
    lhs
    unfold basic?
  split
  next hcons => cases hcons
  next hcons => exact absurd (List.cons.inj hcons).1 hquote
  next hcons => exact absurd (List.cons.inj hcons).1 hslash
  next hcons => exact absurd (List.cons.inj hcons).1 hslash
  next hcons => exact absurd (List.cons.inj hcons).1 hslash
  next hcons =>
    obtain ⟨rfl, rfl⟩ := List.cons.inj hcons
    exact if_pos hplain

/-- A character is read back in front of anything. -/
theorem basic?_escaped (c : Char) (rest : List Char) :
    basic? (escaped c ++ rest) = addChar (some c) (basic? rest) := by
  rw [escaped]
  split
  next hmark =>
    rcases hmark with rfl | rfl <;> rfl
  next hmark =>
  obtain ⟨hquote, hslash⟩ := not_or.1 hmark
  split
  next htext => exact basic?_text htext hquote hslash rest
  next htext =>
    have hcode : c.toNat < 128 := by
      simp [isText] at htext
      omega
    change addChar (coded? _) (basic? rest) = _
    rw [coded?_digits hcode]

theorem basic?_quoted (s rest : List Char) :
    basic? (s.flatMap escaped ++ '"' :: rest) = some (s, rest) := by
  induction s with
  | nil => rfl
  | cons c s ih =>
    rw [List.flatMap_cons, List.append_assoc, basic?_escaped, ih]
    rfl

/-- In front of anything but a third quote a string is read back. -/
theorem string?_quoted (s : String) {rest : List Char} (hrest : rest.head? ≠ some '"') :
    string? (quoted s ++ rest) = some (s.toList, rest) := by
  have hread : basic? (s.toList.flatMap escaped ++ '"' :: rest) = some (s.toList, rest) :=
    basic?_quoted s.toList rest
  have htext : quoted s ++ rest = '"' :: (s.toList.flatMap escaped ++ '"' :: rest) := by
    simp [quoted]
  -- Only three quotes would begin a string of several lines.
  have hsingle : ∀ more, s.toList.flatMap escaped ++ '"' :: rest ≠ '"' :: '"' :: more := by
    intro more heq
    cases hs : s.toList with
    | nil =>
      rw [hs, List.flatMap_nil, List.nil_append] at heq
      exact hrest (by rw [(List.cons.inj heq).2]; rfl)
    | cons c cs =>
      rw [hs, List.flatMap_cons, List.append_assoc] at heq
      unfold escaped at heq
      split at heq
      · simp at heq
      · split at heq <;> simp_all
  rw [htext, ← hread]
  generalize s.toList.flatMap escaped ++ '"' :: rest = cs at hsingle
  unfold string?
  split
  next hcons => exact absurd (List.cons.inj hcons).2 (hsingle _)
  next hcons => rw [(List.cons.inj hcons).2]
  next hcons => exact absurd (List.cons.inj hcons).1 (by decide)
  next hcons => exact absurd (List.cons.inj hcons).1 (by decide)
  next hnone _ _ => exact (hnone _ rfl).elim

/-! ## Numbers -/

theorem mark?_eq_none {c : Char} {cs : List Char} (h : c ∉ cs) : mark? c cs = none := by
  cases cs with
  | nil => rfl
  | cons d cs => exact if_neg (List.ne_and_not_mem_of_not_mem_cons h).1

/-- A mark that a word does not have is not found behind its first digits either. -/
theorem mark?_fixed? {c : Char} {cs rest : List Char} {count n : Nat} (h : c ∉ cs)
    (hfixed : fixed? count cs = some (n, rest)) : mark? c rest = none := by
  rw [fixed?] at hfixed
  split at hfixed
  · obtain ⟨-, rfl⟩ := Prod.mk.inj (Option.some.inj hfixed)
    exact mark?_eq_none fun hmem => h (List.mem_of_mem_drop hmem)
  · cases hfixed

theorem day?_eq_none {cs : List Char} (h : '-' ∉ cs) : day? cs = none := by
  rw [day?]
  cases hyear : fixed? 4 cs with
  | none => rfl
  | some p =>
    obtain ⟨year, rest⟩ := p
    simp [mark?_fixed? h hyear]

theorem time?_eq_none {cs : List Char} (h : ':' ∉ cs) : time? cs = none := by
  rw [time?, clock?]
  cases hhour : fixed? 2 cs with
  | none => rfl
  | some p =>
    obtain ⟨hour, rest⟩ := p
    simp [mark?_fixed? h hhour]

open Numeral (digits)

theorem date?_digits (n : Nat) : date? (digits n) = none := by
  have hday : day? (digits n) = none := day?_eq_none (Numeral.not_mem_digits (by decide) n)
  have htime : time? (digits n) = none := time?_eq_none (Numeral.not_mem_digits (by decide) n)
  simp [date?, hday, htime]

theorem plainDigits?_of_forall {cs : List Char} (hne : cs ≠ [])
    (h : ∀ c ∈ cs, c.isDigit = true) : plainDigits? Char.isDigit cs = some cs := by
  induction cs with
  | nil => exact absurd rfl hne
  | cons c cs ih =>
    obtain ⟨hc, hcs⟩ := List.forall_mem_cons.1 h
    cases cs with
    | nil => exact if_pos hc
    | cons d cs =>
      have hd : d ≠ '_' := by
        rintro rfl
        exact absurd (hcs '_' List.mem_cons_self) (by decide)
      unfold plainDigits?
      split
      all_goals simp_all

theorem wholeDigits?_digits (n : Nat) : wholeDigits? (digits n) = some (digits n) := by
  rw [wholeDigits?, plainDigits?_of_forall (Numeral.digits_ne_nil n)
    (Numeral.isDigit_of_mem_digits n)]
  split
  next hzero =>
    have hdigits := Numeral.digits_zero_cons (Option.some.inj hzero)
    cases hdigits
  next => rfl

theorem sign_digits (n : Nat) : sign (digits n) = (false, digits n) := by
  unfold sign
  split
  next hcs => exact absurd (hcs ▸ List.mem_cons_self) (Numeral.not_mem_digits (by decide) n)
  next hcs => exact absurd (hcs ▸ List.mem_cons_self) (Numeral.not_mem_digits (by decide) n)
  next => rfl

theorem decimal?_digits {n : Nat} (h : Numeral.isSigned64 n = true) :
    decimal? (digits n) = some (.integer n) := by
  rw [decimal?, sign_digits]
  change (wholeDigits? (digits n)).bind (fun ds =>
    bounded? (if false = true then -(Numeral.valueOf ds : Int) else Numeral.valueOf ds)) = _
  rw [wholeDigits?_digits, Option.bind_some, if_neg Bool.false_ne_true, Numeral.valueOf_digits,
    bounded?, if_pos h]

theorem integer?_digits {n : Nat} (h : Numeral.isSigned64 n = true) :
    integer? (digits n) = some (.integer n) := by
  have hletter : ∀ {c : Char} {cs : List Char}, digits n = '0' :: c :: cs → False := by
    intro c cs hcs
    have hnil := Numeral.digits_zero_cons hcs
    cases hnil
  unfold integer?
  split
  next hcs => exact (hletter hcs).elim
  next hcs => exact (hletter hcs).elim
  next hcs => exact (hletter hcs).elim
  next => exact decimal?_digits h

theorem wordValue?_digits {n : Nat} (h : Numeral.isSigned64 n = true) :
    wordValue? (digits n) = some (.integer n) := by
  have hletter : ∀ {c : Char} {cs : List Char}, c.isDigit = false → digits n ≠ c :: cs := by
    intro c cs hc hcs
    exact absurd (hcs ▸ List.mem_cons_self) (Numeral.not_mem_digits hc n)
  rw [wordValue?, if_neg (hletter (by decide)), if_neg (hletter (by decide)), date?_digits,
    integer?_digits h]
  rfl

/-- A number at the end of a line. -/
theorem word?_digits {n : Nat} (h : Numeral.isSigned64 n = true) (rest : List Char) :
    word? (digits n ++ '\n' :: rest) = some (.integer n, '\n' :: rest) := by
  have hword : ∀ c ∈ digits n, isWordChar c = true := by
    intro c hc
    simp [isWordChar, Char.isAlphanum, Numeral.isDigit_of_mem_digits n c hc]
  have hfeed : isWordChar '\n' = false := by decide
  obtain ⟨htake, hdrop⟩ := span_stop hword hfeed rest
  have hday : day? (digits n) = none := day?_eq_none (Numeral.not_mem_digits (by decide) n)
  simp [word?, htake, hdrop, wordValue?_digits h, hday]

/-! ## Names -/

/-- A name that needs no quotes. -/
def Bare (name : String) : Prop := name.toList ≠ [] ∧ name.toList.all isBareKey = true

instance (name : String) : Decidable (Bare name) :=
  inferInstanceAs (Decidable (_ ∧ _))

theorem Bare.exists_cons {name : String} (h : Bare name) :
    ∃ c cs, name.toList = c :: cs ∧ isBareKey c = true := by
  obtain ⟨c, cs, hcs⟩ := List.exists_cons_of_ne_nil h.1
  have hall := List.all_eq_true.1 h.2
  exact ⟨c, cs, hcs, hall c (hcs ▸ List.mem_cons_self)⟩

theorem skipSpace_cons {c : Char} (h : isSpace c = false) (cs : List Char) :
    skipSpace (c :: cs) = c :: cs :=
  List.dropWhile_cons_of_neg (by simp [h])

theorem isSpace_of_isBareKey {c : Char} (h : isBareKey c = true) : isSpace c = false := by
  have hblank : c ≠ ' ' := ne_of_kind h (by decide)
  have htab : c ≠ '\t' := ne_of_kind h (by decide)
  simp [isSpace, hblank, htab]

theorem keyPart?_bare {name : String} (h : Bare name) {stop : Char}
    (hstop : isBareKey stop = false) (rest : List Char) :
    keyPart? (name.toList ++ stop :: rest) = some (name, stop :: rest) := by
  obtain ⟨htake, hdrop⟩ := span_stop (List.all_eq_true.1 h.2) hstop rest
  obtain ⟨c, cs, hcs, hc⟩ := h.exists_cons
  unfold keyPart?
  split
  next hquote =>
    rw [hcs] at hquote
    exact absurd (List.cons.inj hquote).1 (ne_of_kind hc (by decide))
  next hquote =>
    rw [hcs] at hquote
    exact absurd (List.cons.inj hquote).1 (ne_of_kind hc (by decide))
  next =>
    rw [htake, hdrop]
    split
    next hnil => exact absurd hnil h.1
    next => rw [String.ofList_toList]

/-- A key of one part.  Blanks behind it are dropped. -/
theorem key?_bare {name : String} (h : Bare name) {stop next : Char} {rest after : List Char}
    (hstop : isBareKey stop = false) (hnext : skipSpace (stop :: rest) = next :: after)
    (hdot : next ≠ '.') :
    key? (name.toList ++ stop :: rest) = some ([], name, next :: after) := by
  obtain ⟨c, cs, hcs, hc⟩ := h.exists_cons
  have hskip : skipSpace (name.toList ++ stop :: rest) = name.toList ++ stop :: rest := by
    rw [hcs, List.cons_append, skipSpace_cons (isSpace_of_isBareKey hc)]
  have hparts : keyParts? (maxDepth + 1) (name.toList ++ stop :: rest)
      = some ([name], next :: after) := by
    rw [keyParts?, hskip, keyPart?_bare h hstop]
    simp only [Option.bind_eq_bind, Option.bind_some, hnext]
    split
    next heq => exact absurd (List.cons.inj heq).1 hdot
    next => rfl
  rw [key?, hparts]
  rfl

/-! ## Lines -/

/-- A value that is written on one line. -/
inductive Datum where
  | text (s : String)
  | number (n : Nat)

namespace Datum

/-- The value. -/
def toml : Datum → Toml
  | text s => .string s
  | number n => .integer n

def chars : Datum → List Char
  | text s => quoted s
  | number n => digits n

/-- Numbers of a document have 64 bits with a sign. -/
def Fits : Datum → Prop
  | text _ => True
  | number n => Numeral.isSigned64 n = true

theorem value?_chars {d : Datum} (h : d.Fits) (fuel depth : Nat) (rest : List Char) :
    value? (fuel + 1) depth (d.chars ++ '\n' :: rest) = some (d.toml, '\n' :: rest) := by
  cases d with
  | text s =>
    have hread : string? (quoted s ++ '\n' :: rest) = some (s.toList, '\n' :: rest) :=
      string?_quoted s (by simp)
    rw [quoted, List.cons_append] at hread
    rw [chars, quoted, List.cons_append, value?, hread, Option.map_some]
    simp only [String.ofList_toList, toml]
  | number n =>
    obtain ⟨c, cs, hcs, hc⟩ := Numeral.exists_digits_cons n
    have hword := word?_digits h rest
    rw [chars]
    rw [hcs, List.cons_append] at hword ⊢
    unfold value?
    split
    next hfuel => cases hfuel
    next hcons => exact absurd (List.cons.inj hcons).1 (ne_of_kind hc (by decide))
    next hcons => exact absurd (List.cons.inj hcons).1 (ne_of_kind hc (by decide))
    next hcons => exact absurd (List.cons.inj hcons).1 (ne_of_kind hc (by decide))
    next hcons => exact absurd (List.cons.inj hcons).1 (ne_of_kind hc (by decide))
    next => exact hword

end Datum

theorem Datum.skipSpace_chars (d : Datum) (rest : List Char) :
    skipSpace (' ' :: (d.chars ++ rest)) = d.chars ++ rest := by
  have hblank : skipSpace (' ' :: (d.chars ++ rest)) = skipSpace (d.chars ++ rest) := rfl
  rw [hblank]
  cases d with
  | text s => rfl
  | number n =>
    obtain ⟨c, cs, hcs, hc⟩ := Numeral.exists_digits_cons n
    have hkey : isBareKey c = true := by simp [isBareKey, Char.isAlphanum, hc]
    rw [chars, hcs, List.cons_append, skipSpace_cons (isSpace_of_isBareKey hkey)]

/-- A line of a document. -/
inductive Written where
  | entry (name : String) (d : Datum)
  | table (name : String)
  | tableOf (name : String)

namespace Written

/-- What the line says. -/
def line : Written → Line
  | entry name d => .entry [] name d.toml
  | table name => .table [] name
  | tableOf name => .tableOf [] name

def chars : Written → List Char
  | entry name d => name.toList ++ ' ' :: '=' :: ' ' :: (d.chars ++ ['\n'])
  | table name => '[' :: (name.toList ++ [']', '\n'])
  | tableOf name => '[' :: '[' :: (name.toList ++ [']', ']', '\n'])

/-- The line can be read. -/
def Sound : Written → Prop
  | entry name d => Bare name ∧ d.Fits
  | table name | tableOf name => Bare name

variable {w : Written}

/-- A line begins with a bracket or with a character of a name. -/
theorem chars_eq_cons (h : w.Sound) :
    ∃ c cs, w.chars = c :: cs ∧ (isBareKey c = true ∨ c = '[') := by
  cases w with
  | entry name d =>
    obtain ⟨c, cs, hcs, hc⟩ := h.1.exists_cons
    exact ⟨c, _, by rw [chars, hcs, List.cons_append], Or.inl hc⟩
  | table name => exact ⟨'[', _, rfl, Or.inr rfl⟩
  | tableOf name => exact ⟨'[', _, rfl, Or.inr rfl⟩

theorem line?_entry {name : String} {d : Datum} (hname : Bare name) (hfits : d.Fits)
    (rest : List Char) :
    line? ((entry name d).chars ++ rest) = some (.entry [] name d.toml, '\n' :: rest) := by
  obtain ⟨c, cs, hcs, hc⟩ := hname.exists_cons
  have hkey : key? (name.toList ++ ' ' :: '=' :: ' ' :: (d.chars ++ '\n' :: rest))
      = some ([], name, '=' :: ' ' :: (d.chars ++ '\n' :: rest)) :=
    key?_bare hname (by decide) rfl (by decide)
  have htext : (entry name d).chars ++ rest
      = name.toList ++ ' ' :: '=' :: ' ' :: (d.chars ++ '\n' :: rest) := by
    simp [chars]
  have hbracket : ∀ more, name.toList ++ ' ' :: '=' :: ' ' :: (d.chars ++ '\n' :: rest)
      ≠ '[' :: more := by
    intro more heq
    rw [hcs] at heq
    exact ne_of_kind hc (by decide) (List.cons.inj heq).1
  rw [htext]
  unfold line?
  split
  next heq => exact absurd heq (hbracket _)
  next heq => exact absurd heq (hbracket _)
  next =>
    simp only [hkey, Option.bind_eq_bind, Option.bind_some, d.skipSpace_chars,
      Datum.value?_chars hfits]
    rfl

theorem line?_table {name : String} (hname : Bare name) (rest : List Char) :
    line? ((table name).chars ++ rest) = some (.table [] name, '\n' :: rest) := by
  obtain ⟨c, cs, hcs, hc⟩ := hname.exists_cons
  have hkey : key? (name.toList ++ ']' :: '\n' :: rest) = some ([], name, ']' :: '\n' :: rest) :=
    key?_bare hname (by decide) rfl (by decide)
  have htext : (table name).chars ++ rest = '[' :: (name.toList ++ ']' :: '\n' :: rest) := by
    simp [chars]
  rw [htext]
  unfold line?
  split
  next heq =>
    rw [hcs] at heq
    exact absurd (List.cons.inj (List.cons.inj heq).2).1 (ne_of_kind hc (by decide))
  next heq =>
    obtain ⟨-, rfl⟩ := List.cons.inj heq
    rw [hkey]
    rfl
  next hnone => exact absurd rfl (hnone _)

theorem line?_tableOf {name : String} (hname : Bare name) (rest : List Char) :
    line? ((tableOf name).chars ++ rest) = some (.tableOf [] name, '\n' :: rest) := by
  have hkey : key? (name.toList ++ ']' :: ']' :: '\n' :: rest)
      = some ([], name, ']' :: ']' :: '\n' :: rest) :=
    key?_bare hname (by decide) rfl (by decide)
  have htext : (tableOf name).chars ++ rest
      = '[' :: '[' :: (name.toList ++ ']' :: ']' :: '\n' :: rest) := by
    simp [chars]
  rw [htext, line?, hkey]
  rfl

theorem line?_chars (h : w.Sound) (rest : List Char) :
    line? (w.chars ++ rest) = some (w.line, '\n' :: rest) := by
  cases w with
  | entry name d => exact line?_entry h.1 h.2 rest
  | table name => exact line?_table h rest
  | tableOf name => exact line?_tableOf h rest

end Written

theorem expressionEnd?_lineFeed (rest : List Char) : expressionEnd? ('\n' :: rest) = some rest :=
  rfl

theorem expressionEnd?_chars {w : Written} (h : w.Sound) (rest : List Char) :
    expressionEnd? (w.chars ++ rest) = none ∧ skipSpace (w.chars ++ rest) = w.chars ++ rest := by
  obtain ⟨c, cs, hcs, hc⟩ := w.chars_eq_cons h
  have hne : ∀ d, isBareKey d = false → d ≠ '[' → c ≠ d := by
    rintro d hd hbracket rfl
    rcases hc with hc | rfl
    · exact ne_of_kind hc hd rfl
    · exact hbracket rfl
  have hspace : isSpace c = false := by
    simp [isSpace, hne ' ' (by decide) (by decide), hne '\t' (by decide) (by decide)]
  rw [hcs, List.cons_append]
  have hskip := skipSpace_cons hspace (cs ++ rest)
  refine ⟨?_, hskip⟩
  have hcomment : skipComment (c :: (cs ++ rest)) = c :: (cs ++ rest) := by
    unfold skipComment
    split
    next heq => exact absurd (List.cons.inj heq).1 (hne _ (by decide) (by decide))
    next => rfl
  rw [expressionEnd?, hskip, hcomment]
  change lineEnd? (c :: (cs ++ rest)) = none
  unfold lineEnd?
  split
  next heq => exact absurd (List.cons.inj heq).1 (hne _ (by decide) (by decide))
  next heq => exact absurd (List.cons.inj heq).1 (hne _ (by decide) (by decide))
  next => rfl

/-- The lines of a document are read back. -/
theorem lines?_written {doc : List Written} (h : ∀ w ∈ doc, w.Sound) {fuel : Nat}
    (hfuel : doc.length < fuel) :
    lines? fuel (doc.flatMap Written.chars) = some (doc.map Written.line) := by
  induction doc generalizing fuel with
  | nil =>
    obtain ⟨fuel, rfl⟩ := Nat.exists_eq_succ_of_ne_zero (Nat.ne_of_gt hfuel)
    rfl
  | cons w doc ih =>
    obtain ⟨hw, hdoc⟩ := List.forall_mem_cons.1 h
    obtain ⟨fuel, rfl⟩ := Nat.exists_eq_succ_of_ne_zero (Nat.ne_of_gt (Nat.zero_lt_of_lt hfuel))
    obtain ⟨hnone, hskip⟩ := expressionEnd?_chars hw (doc.flatMap Written.chars)
    have hrest := ih hdoc (Nat.lt_of_succ_lt_succ hfuel)
    rw [List.flatMap_cons, lines?, hnone, hskip, w.line?_chars hw]
    simp only [Option.bind_eq_bind, Option.bind_some, expressionEnd?_lineFeed, hrest]
    rfl

end TokenMarket.Toml
