import TokenMarket.Proofs.DeployDescription

/-!
# No text breaks out of its argument

An argument of a deploy is one word, `name:type='text'`, and some of the texts were
typed by a person.  A quote or a control character in such a text could end the
argument early, or make another one of it.  This module shows that no argument of a
deploy that was built holds one, and that the word can be taken apart again without
knowing what is in it.

There are three groups.

* The word.  `Argument.parts?` takes it apart at the first colon, the first equals
  sign and the two quotes.  `parts?_simple` says what it finds, and needs nothing of
  the text.
* The text.  `Harmless` rules out quotes and controls.  Numbers and hashes are
  harmless by the way they are written, and metadata because of the filter.
* The value.  `ArgumentValue.Canonical` says that the text of a number or of a hash
  is the one way to write it, and that its reader finds it again.

`Terms.build_sealed` puts them together for every argument of every order.
-/

namespace TokenMarket

/-! ## The word -/

namespace Text

/-- Cuts a text at the first separator, if there is one. -/
def cutAt? (separator : Char) : List Char → Option (List Char × List Char)
  | [] => none
  | c :: cs =>
    if c = separator then some ([], cs)
    else (cutAt? separator cs).map fun (front, back) => (c :: front, back)

/-- The text between a quote at the start and a quote at the end. -/
def unquoted? : List Char → Option (List Char)
  | '\'' :: cs => if cs.getLast? = some '\'' then some cs.dropLast else none
  | _ => none

theorem cutAt?_append {separator : Char} {front : List Char} (h : separator ∉ front)
    (back : List Char) : cutAt? separator (front ++ separator :: back) = some (front, back) := by
  induction front with
  | nil => rw [List.nil_append, cutAt?, if_pos rfl]
  | cons c front ih =>
    have hc : c ≠ separator := fun heq => h (by simp [heq])
    have hfront : separator ∉ front := fun hmem => h (by simp [hmem])
    rw [List.cons_append, cutAt?, if_neg hc, ih hfront]
    rfl

theorem unquoted?_quoted (cs : List Char) : unquoted? ('\'' :: (cs ++ ['\''])) = some cs := by
  simp [unquoted?]

end Text

/-- The name, the type and the text in the word of an argument.  The name ends at the
first colon, and the type at the first equals sign behind it. -/
def Argument.parts? (word : List Char) : Option (List Char × List Char × List Char) := do
  let (name, rest) ← Text.cutAt? ':' word
  let (type, quoted) ← Text.cutAt? '=' rest
  let text ← Text.unquoted? quoted
  return (name, type, text)

/-- The parts of a word are those that it was made of, whatever the text holds. -/
theorem Argument.parts?_simple {a : Argument} (h : ':' ∉ a.name.toList) :
    parts? a.simple.toList
      = some (a.name.toList, a.value.typeName.toList, a.value.text.toList) := by
  rw [toList_simple, parts?, Text.cutAt?_append h]
  simp only [Option.bind_eq_bind, Option.bind_some]
  rw [Text.cutAt?_append a.value.not_mem_typeName]
  simp only [Option.bind_some, Text.unquoted?_quoted]
  rfl

/-! ## The text -/

namespace Text

/-- The control characters of Unicode. -/
def IsControl (c : Char) : Prop :=
  c.toNat < 0x20 ∨ (0x7F ≤ c.toNat ∧ c.toNat < 0xA0)

/-- A text without single quotes and without controls. -/
def Harmless (cs : List Char) : Prop :=
  ∀ c ∈ cs, c ≠ '\'' ∧ ¬ IsControl c

instance (c : Char) : Decidable (IsControl c) :=
  inferInstanceAs (Decidable (_ ∨ _))

instance (cs : List Char) : Decidable (Harmless cs) :=
  List.decidableBAll (fun c => c ≠ '\'' ∧ ¬ IsControl c) cs

variable {front back : List Char}

theorem Harmless.append (hfront : Harmless front) (hback : Harmless back) :
    Harmless (front ++ back) := by
  intro c hc
  rcases List.mem_append.1 hc with hc | hc
  · exact hfront c hc
  · exact hback c hc

theorem Harmless.cons {c : Char} (hc : c ≠ '\'' ∧ ¬ IsControl c) (hback : Harmless back) :
    Harmless (c :: back) :=
  List.forall_mem_cons.2 ⟨hc, hback⟩

/-- The visible characters of ASCII from the digits on do no harm. -/
theorem harmless_of_code {c : Char} (hlow : 0x30 ≤ c.toNat) (hhigh : c.toNat ≤ 0x7E) :
    c ≠ '\'' ∧ ¬ IsControl c := by
  constructor
  · rintro rfl
    exact absurd hlow (by decide)
  · unfold IsControl
    omega

theorem Harmless.not_mem (h : Harmless front) : '\'' ∉ front := fun hmem => (h _ hmem).1 rfl

end Text

open Text (Harmless IsControl)

/-- The digits of a number are harmless. -/
theorem Numeral.harmless_digits (n : Nat) : Harmless (digits n) := by
  intro c hc
  have hcode := toNat_of_isDigit (isDigit_of_mem_digits n c hc)
  exact Text.harmless_of_code (by omega) (by omega)

theorem Hash.harmless_formatted {kind : HashKind} (h : Hash kind) :
    Harmless h.formatted.toList := by
  have htag : Harmless kind.tag.toList := by cases kind <;> decide
  have hhex : Harmless h.hex.toList := by
    intro c hc
    rw [hex, String.toList_ofList] at hc
    have hcode := Hex.digit_iff_toNat.1 (Hex.lowerDigit_of_mem_encode hc).digit
    exact Text.harmless_of_code (by omega) (by omega)
  rw [formatted, String.toList_append]
  exact htag.append hhex

/-- Only a text of metadata can do harm, and no number or hash. -/
theorem ArgumentValue.harmless_text {v : ArgumentValue}
    (h : ∀ s, v = .string s → Harmless s.toList) : Harmless v.text.toList := by
  cases v with
  | string s => exact h s rfl
  | u8 n | u64 n | u256 n | u512 n =>
    rw [text, Numeral.decimal, String.toList_ofList]
    exact Numeral.harmless_digits _
  | account k | contract k => exact k.harmless_formatted

theorem Metadata.harmless_of_clean {text : String} (h : Clean text) : Harmless text.toList := by
  intro c hc
  have hres := h c hc
  simp only [Reserved, not_or] at hres
  exact ⟨hres.2.1, fun hcontrol => hcontrol.elim hres.2.2.2.2.1 hres.2.2.2.2.2⟩

/-- The literal of clean metadata is harmless: its own marks are, and the texts are. -/
theorem Metadata.harmless_literal {m : Metadata} (h : ∀ p ∈ m.fields, Clean p.2) :
    Harmless m.literal.toList := by
  have hmark : Harmless ['\x7b', '"', ':', ',', '\x7d'] := by decide
  have hquoted : ∀ text, Clean text → Harmless (Json.stringText text) := by
    intro text hclean
    rw [stringText_of_clean hclean]
    exact .cons (hmark _ (by simp)) ((harmless_of_clean hclean).append (by decide))
  have hnames : Clean "name" ∧ Clean "token_uri" ∧ Clean "checksum" := by decide
  obtain ⟨hname, huri, hsum⟩ : Clean m.name ∧ Clean m.tokenUri ∧ Clean m.checksum := by
    simpa [fields] using h
  rw [literal_chars]
  refine .cons (hmark _ (by simp)) ((hquoted _ hnames.1).append (.cons (hmark _ (by simp)) ?_))
  refine (hquoted _ hname).append (.cons (hmark _ (by simp)) ?_)
  refine (hquoted _ hnames.2.1).append (.cons (hmark _ (by simp)) ?_)
  refine (hquoted _ huri).append (.cons (hmark _ (by simp)) ?_)
  refine (hquoted _ hnames.2.2).append (.cons (hmark _ (by simp)) ?_)
  exact (hquoted _ hsum).append (by decide)

/-- The texts of an order do no harm where the order is good. -/
theorem Order.Denotes.harmless {contract : ContractHash} {order : Order} {args : List Argument}
    (h : order.Denotes contract args) : ∀ a ∈ args, Harmless a.value.text.toList := by
  intro a ha
  refine ArgumentValue.harmless_text fun s hs => ?_
  cases h with
  | mint hmetadata =>
    have hliteral := Metadata.harmless_literal hmetadata
    simp only [List.mem_cons, List.not_mem_nil, or_false] at ha
    rcases ha with rfl | rfl | rfl | rfl
    · obtain rfl := ArgumentValue.string.inj hs
      exact hliteral
    all_goals simp at hs
  | install => exact absurd ha List.not_mem_nil
  | publish | approve | buy | cancel | disapprove =>
    simp only [List.mem_cons, List.not_mem_nil, or_false] at ha
    rcases ha with rfl | rfl | rfl | rfl <;> simp at hs

theorem Order.wire_harmless (order : Order) :
    ∀ p ∈ order.wire, '=' ∉ p.1.toList ∧ Harmless p.1.toList := by
  cases order <;> simp only [wire] <;> decide

/-! ## The value -/

/-- The text is the tag of the kind and 64 lower-case digits, and is read as the
hash. -/
def Hash.Written {kind : HashKind} (h : Hash kind) (text : String) : Prop :=
  ∃ digits, text.toList = kind.tag.toList ++ digits ∧ digits.length = 64
    ∧ (∀ c ∈ digits, Hex.LowerDigit c) ∧ Hash.parse kind text = .ok h

/-- The text of the value is the one way to write it, and is read as the value.  There
is no reader of 512 bits to compare with, so there the text denotes the number. -/
def ArgumentValue.Canonical (v : ArgumentValue) : Prop :=
  match v with
  | string _ => True
  | u8 n => Numeral.Canonical v.text.toList n.toNat
    ∧ ∀ argument, Number.readByte argument v.text = .ok n
  | u64 n => Numeral.Canonical v.text.toList n.toNat
    ∧ ∀ argument, Number.readWord64 argument v.text = .ok n
  | u256 n => Numeral.Canonical v.text.toList n.toNat
    ∧ ∀ argument, Number.readWord256 argument v.text = .ok n
  | u512 n => Numeral.Canonical v.text.toList n.toNat
  | account h => h.Written v.text
  | contract h => h.Written v.text

theorem Hash.written_formatted {kind : HashKind} (h : Hash kind) : h.Written h.formatted := by
  refine ⟨Hex.encode h.bytes, ?_, ?_, fun c => Hex.lowerDigit_of_mem_encode, ?_⟩
  · rw [formatted, hex, String.toList_append, String.toList_ofList]
  · rw [Hex.length_encode, h.length_bytes]
  · exact parse_eq_ok_iff.2 h.denotes_formatted

theorem ArgumentValue.canonical (v : ArgumentValue) : v.Canonical := by
  have hdecimal : ∀ n, Numeral.Canonical (Numeral.decimal n).toList n := by
    intro n
    rw [Numeral.decimal, String.toList_ofList]
    exact Numeral.canonical_digits n
  cases v with
  | string s => trivial
  | u8 n =>
    exact ⟨hdecimal _, fun argument => Number.readByte_eq_ok_iff.2 (Number.denotes_decimal _)⟩
  | u64 n =>
    exact ⟨hdecimal _, fun argument => Number.readWord64_eq_ok_iff.2 (Number.denotes_decimal _)⟩
  | u256 n =>
    exact ⟨hdecimal _, fun argument => Number.readWord256_eq_ok_iff.2 (Number.denotes_decimal _)⟩
  | u512 n => exact hdecimal _
  | account h | contract h => exact h.written_formatted

/-! ## All arguments -/

/-- Nothing in the word of the argument can be taken for anything else. -/
structure Argument.Sealed (a : Argument) : Prop where
  /-- There are two quotes, one behind the first equals sign and one at the end. -/
  quotes : ∃ front text, a.simple.toList = front ++ '=' :: '\'' :: (text ++ ['\''])
    ∧ '=' ∉ front ∧ a.simple.toList.count '\'' = 2
  controls : ∀ c ∈ a.simple.toList, ¬ IsControl c
  /-- The parts of the word are the name, the type and the text. -/
  parts : parts? a.simple.toList
    = some (a.name.toList, a.value.typeName.toList, a.value.text.toList)
  canonical : a.value.Canonical

theorem Argument.sealed_of_harmless {a : Argument} (hcolon : ':' ∉ a.name.toList)
    (hequals : '=' ∉ a.name.toList) (hname : Harmless a.name.toList)
    (htext : Harmless a.value.text.toList) : a.Sealed := by
  have htype : Harmless a.value.typeName.toList := by
    cases a.value <;> simp only [ArgumentValue.typeName] <;> decide
  have hfront : Harmless (a.name.toList ++ ':' :: a.value.typeName.toList) :=
    hname.append (.cons (by decide) htype)
  have hword : a.simple.toList = (a.name.toList ++ ':' :: a.value.typeName.toList)
      ++ '=' :: '\'' :: (a.value.text.toList ++ ['\'']) := by
    rw [toList_simple, List.append_assoc, List.cons_append]
  refine ⟨⟨_, _, hword, ?_, ?_⟩, ?_, parts?_simple hcolon, a.value.canonical⟩
  · intro hmem
    rcases List.mem_append.1 hmem with hmem | hmem
    · exact hequals hmem
    · exact a.value.not_mem_typeName ((List.mem_cons.1 hmem).resolve_left (by decide))
  · have hnone := List.count_eq_zero.2 hfront.not_mem
    have hinside := List.count_eq_zero.2 htext.not_mem
    rw [hword, List.count_append, hnone, List.count_cons_of_ne (by decide), List.count_cons_self,
      List.count_append, hinside]
    rfl
  · intro c hc
    rw [hword] at hc
    simp only [List.mem_append, List.mem_cons, List.not_mem_nil, or_false] at hc
    rcases hc with (hc | rfl | hc) | rfl | rfl | hc | rfl
    · exact (hname c hc).2
    · decide
    · exact (htype c hc).2
    · decide
    · decide
    · exact (htext c hc).2
    · decide

/-- Every argument of a deploy that was built is sealed. -/
theorem Terms.build_sealed {c : Config} {signer : String} {order : Order} {d : Deploy}
    (h : (ofConfig c).build signer order = .ok d) {a : Argument} (ha : a ∈ d.args) : a.Sealed := by
  have hcolon : ':' ∉ a.name.toList := build_named h a ha
  obtain ⟨hequals, hname⟩ := order.wire_harmless _ (mem_wire h ha)
  obtain ⟨args, hmeans, rfl⟩ := build_eq_ok_iff.1 h
  exact Argument.sealed_of_harmless hcolon hequals hname (hmeans.harmless a ha)

/-- Metadata full of marks, and numbers with zeros and blanks around them. -/
def Order.marked : Order :=
  .mint ⟨⟨"a:b=c ☃", "=:$(x)`y`", "\x7b\x7d;!"⟩, " 007\t", "3600", Config.demoAccount1⟩

theorem Terms.build_sealed_marks : ∃ d a,
    (ofConfig {}).build "keys/a.pem" .marked = .ok d
      ∧ a ∈ d.args ∧ a.name = "metadata" ∧ a.Sealed := by
  refine ⟨_, ⟨"metadata", .string _⟩, rfl, List.mem_cons_self, rfl, ?_⟩
  exact @build_sealed {} "keys/a.pem" .marked _ rfl _ List.mem_cons_self

end TokenMarket
