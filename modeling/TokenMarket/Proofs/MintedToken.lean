import TokenMarket.Deploy.Order
import TokenMarket.Proofs.JsonText
import TokenMarket.Proofs.TokenRecord

/-!
# A minted token can be read again

A token goes a long way.  Its metadata is written as a JSON literal, the
contract cuts the literal at the double quotes and joins what it finds
with commas, and a reader takes the record apart at the commas.  Nothing
on this way can be mended later, so the texts that would not come through
are refused before anything is built.

There are four groups.

* The filter.  `firstReserved?_cases` says what it lets through, and which
  character it names otherwise.
* The literal.  `literal_parse` reads it as metadata again, whatever the
  texts are.  `literal_parts` cuts it at the quotes, and needs the filter.
* The record.  `minted?` is what the contract makes of a literal, which is the record
  of the token that was meant.
* The order.  `Terms.mint_reads_back` puts these together.
-/

namespace TokenMarket

namespace Metadata

/-! ## The filter -/

/-- The characters that have a meaning in the literal or in the record, and
the controls, which are the characters up to U+001F and from U+007F to
U+009F. -/
def Reserved (c : Char) : Prop :=
  c = '"' ∨ c = '\'' ∨ c = ',' ∨ c = '\\' ∨ c.toNat < 0x20 ∨ (0x7F ≤ c.toNat ∧ c.toNat < 0xA0)

instance (c : Char) : Decidable (Reserved c) :=
  inferInstanceAs (Decidable (_ ∨ _))

/-- A text that can be minted. -/
def Clean (text : String) : Prop :=
  ∀ c ∈ text.toList, ¬ Reserved c

instance (text : String) : Decidable (Clean text) :=
  List.decidableBAll (fun c => ¬ Reserved c) text.toList

theorem isReserved_iff {c : Char} : isReserved c = true ↔ Reserved c := by
  simp [isReserved, Reserved, or_assoc]

theorem find?_isReserved_eq_none_iff {text : String} :
    text.toList.find? isReserved = none ↔ Clean text := by
  simp only [List.find?_eq_none, isReserved_iff, Clean]

/-- `c` is the first reserved character in the text of `field`, and no text
before that one holds any. -/
def FirstReserved (fields : List (String × String)) (field : String) (c : Char) : Prop :=
  ∃ before text after front back,
    fields = before ++ (field, text) :: after ∧ (∀ p ∈ before, Clean p.2)
      ∧ text.toList = front ++ c :: back ∧ (∀ x ∈ front, ¬ Reserved x) ∧ Reserved c

theorem firstReserved_head {text : String} {c : Char} (field : String)
    (rest : List (String × String)) (h : text.toList.find? isReserved = some c) :
    FirstReserved ((field, text) :: rest) field c := by
  obtain ⟨hc, front, back, htext, hfront⟩ := List.find?_eq_some_iff_append.1 h
  refine ⟨[], text, rest, front, back, rfl, by simp, htext, ?_, isReserved_iff.1 hc⟩
  intro x hx hres
  have hclear := hfront x hx
  rw [isReserved_iff.2 hres] at hclear
  exact absurd hclear (by decide)

theorem firstReserved_cons {fields : List (String × String)} {field : String} {c : Char}
    {p : String × String} (hp : Clean p.2) (h : FirstReserved fields field c) :
    FirstReserved (p :: fields) field c := by
  obtain ⟨before, text, after, front, back, hsplit, hbefore, hmore⟩ := h
  refine ⟨p :: before, text, after, front, back, by rw [hsplit, List.cons_append], ?_, hmore⟩
  intro q hq
  rcases List.mem_cons.1 hq with rfl | hq
  · exact hp
  · exact hbefore q hq

/-- The first reserved character is the one that is found. -/
theorem firstReserved?_of_firstReserved {fields : List (String × String)} {field : String}
    {c : Char} (h : FirstReserved fields field c) : firstReserved? fields = some (field, c) := by
  obtain ⟨before, text, after, front, back, rfl, hbefore, htext, hfront, hc⟩ := h
  induction before with
  | nil =>
    have hfind : text.toList.find? isReserved = some c := by
      refine List.find?_eq_some_iff_append.2 ⟨isReserved_iff.2 hc, front, back, htext, ?_⟩
      intro x hx
      simp [Bool.eq_false_iff, isReserved_iff, hfront x hx]
    rw [List.nil_append, firstReserved?, hfind]
  | cons p before ih =>
    have hclean := find?_isReserved_eq_none_iff.2 (hbefore p List.mem_cons_self)
    rw [List.cons_append, firstReserved?, hclean]
    exact ih fun q hq => hbefore q (List.mem_cons_of_mem p hq)

/-- Either all texts are clean, or the first that is not is named with its
first reserved character. -/
theorem firstReserved?_cases (fields : List (String × String)) :
    (firstReserved? fields = none ∧ ∀ p ∈ fields, Clean p.2)
      ∨ ∃ field c, firstReserved? fields = some (field, c) ∧ FirstReserved fields field c := by
  induction fields with
  | nil => exact Or.inl ⟨rfl, by simp⟩
  | cons p rest ih =>
    obtain ⟨field, text⟩ := p
    cases hfind : text.toList.find? isReserved with
    | some c =>
      refine Or.inr ⟨field, c, ?_, firstReserved_head field rest hfind⟩
      rw [firstReserved?, hfind]
    | none =>
      have hclean : Clean text := find?_isReserved_eq_none_iff.1 hfind
      have hskip : firstReserved? ((field, text) :: rest) = firstReserved? rest := by
        rw [firstReserved?, hfind]
      rw [hskip]
      rcases ih with ⟨hnone, hrest⟩ | ⟨other, c, hsome, hfirst⟩
      · exact Or.inl ⟨hnone, by simpa using ⟨hclean, by simpa using hrest⟩⟩
      · exact Or.inr ⟨other, c, hsome, firstReserved_cons hclean hfirst⟩

/-- The text of the first reserved character is among the texts. -/
theorem FirstReserved.not_clean {fields : List (String × String)} {field : String} {c : Char}
    (h : FirstReserved fields field c) : ∃ p ∈ fields, ¬ Clean p.2 := by
  obtain ⟨before, text, after, front, back, rfl, _, htext, _, hc⟩ := h
  refine ⟨(field, text), by simp, ?_⟩
  intro hclean
  exact hclean c (by simp [htext]) hc

/-- Clean metadata is minted as its literal. -/
theorem mintable_eq_ok_iff {m : Metadata} {literal : String} :
    m.mintable = .ok literal ↔ (∀ p ∈ m.fields, Clean p.2) ∧ literal = m.literal := by
  rcases firstReserved?_cases m.fields with ⟨hnone, hclean⟩ | ⟨field, c, hsome, hfirst⟩
  · simp only [mintable, hnone, Except.ok.injEq]
    exact ⟨fun h => ⟨hclean, h.symm⟩, fun h => h.2.symm⟩
  · simp only [mintable, hsome, reduceCtorEq, false_iff, not_and]
    intro hclean
    obtain ⟨p, hp, hdirty⟩ := hfirst.not_clean
    exact absurd (hclean p hp) hdirty

/-- Other metadata is refused, and the complaint names the first reserved
character and its text. -/
theorem mintable_eq_error {m : Metadata} (h : ∃ p ∈ m.fields, ¬ Clean p.2) :
    ∃ field c, FirstReserved m.fields field c
      ∧ m.mintable = .error (.invalidArgument "metadata"
          (field ++ " contains reserved character " ++ Text.quotedSingle c)) := by
  rcases firstReserved?_cases m.fields with ⟨_, hclean⟩ | ⟨field, c, hsome, hfirst⟩
  · obtain ⟨p, hp, hdirty⟩ := h
    exact absurd (hclean p hp) hdirty
  · exact ⟨field, c, hfirst, by rw [mintable, hsome]⟩

/-- Why metadata is refused. -/
def Fault (m : Metadata) (e : Error) : Prop :=
  ∃ field c, FirstReserved m.fields field c
    ∧ e = .invalidArgument "metadata"
      (field ++ " contains reserved character " ++ Text.quotedSingle c)

theorem mintable_eq_error_iff {m : Metadata} {e : Error} : m.mintable = .error e ↔ m.Fault e := by
  constructor
  · intro h
    rcases firstReserved?_cases m.fields with ⟨hnone, -⟩ | ⟨field, c, hsome, hfirst⟩
    · simp [mintable, hnone] at h
    · rw [mintable, hsome] at h
      exact ⟨field, c, hfirst, (Except.error.inj h).symm⟩
  · rintro ⟨field, c, hfirst, rfl⟩
    rw [mintable, firstReserved?_of_firstReserved hfirst]

/-! ## The literal -/

/-- The members of the literal, as trees. -/
def members (m : Metadata) : List (String × Json.Tree) :=
  [("name", .ofText m.name), ("token_uri", .ofText m.tokenUri), ("checksum", .ofText m.checksum)]

theorem literal_chars (m : Metadata) :
    m.literal.toList
      = '\x7b' :: (Json.stringText "name" ++ ':' :: (Json.stringText m.name
        ++ ',' :: (Json.stringText "token_uri" ++ ':' :: (Json.stringText m.tokenUri
        ++ ',' :: (Json.stringText "checksum" ++ ':' :: (Json.stringText m.checksum
        ++ ['\x7d'])))))) := by
  simp [literal, Json.compact, Json.compactChars, Json.compactMembers]

theorem parse?_literal (m : Metadata) :
    Json.Tree.parse? m.literal.toList = some (.ofMembers m.members) := by
  rw [Json.Tree.parse?, literal_chars]
  simp only [Json.Token.scan?_openObject, Json.Token.scan?_stringText, Json.Token.scan?_colon,
    Json.Token.scan?_comma, Json.Token.scan?_closeObject]
  rw [Json.Token.scan?]
  rfl

/-- The literal is read as the metadata that it was written for. -/
theorem literal_parse (m : Metadata) : Metadata.parse m.literal = .ok m := by
  have hslots : Json.Tree.slots? memberNames (.ofMembers m.members)
      = some [some (.ofText m.name), some (.ofText m.tokenUri), some (.ofText m.checksum)] := by
    rw [Json.Tree.slots?_ofMembers]
    simp [members, memberNames, Json.single?]
  have hparse : parse? m.literal = some m := by
    rw [parse?, parse?_literal, Option.bind_eq_bind, Option.bind_some, hslots]
    simp [Json.slotValue?, ofSlots?]
  rw [parse, hparse]

/-- A clean text holds neither of the two separators. -/
theorem not_mem_of_clean {text : String} (h : Clean text) :
    '"' ∉ text.toList ∧ ',' ∉ text.toList := by
  constructor
  · intro hmem
    exact h _ hmem (Or.inl rfl)
  · intro hmem
    exact h _ hmem (Or.inr (Or.inr (Or.inl rfl)))

/-- A clean text stands between its quotes as it is. -/
theorem stringText_of_clean {text : String} (h : Clean text) :
    Json.stringText text = '"' :: (text.toList ++ ['"']) := by
  have hself : ∀ c ∈ text.toList, Json.escapedChar c = [c] := by
    intro c hc
    have hres := h c hc
    simp only [Reserved, not_or] at hres
    exact Json.escapedChar_of_ne hres.1 hres.2.2.2.1 hres.2.2.2.2.1
  rw [Json.stringText, List.flatMap_def, List.map_congr_left hself, ← List.flatMap_def,
    List.flatMap_singleton', List.cons_append]

/-- The texts between the quotes of the literal. -/
def parts (m : Metadata) : List (List Char) :=
  [['\x7b'], "name".toList, [':'], m.name.toList, [','], "token_uri".toList, [':'],
    m.tokenUri.toList, [','], "checksum".toList, [':'], m.checksum.toList, ['\x7d']]

/-- Cut at the quotes, the literal of clean texts has thirteen parts.  The
texts are the parts 3, 7 and 11, counted from 0. -/
theorem literal_parts {m : Metadata} (h : ∀ p ∈ m.fields, Clean p.2) :
    Text.splitOn '"' m.literal.toList = m.parts := by
  obtain ⟨hname, huri, hsum⟩ : Clean m.name ∧ Clean m.tokenUri ∧ Clean m.checksum := by
    simpa [fields] using h
  have hjoin : m.literal.toList = Text.joinWith ['"'] m.parts := by
    have hkeys : Clean "name" ∧ Clean "token_uri" ∧ Clean "checksum" := by decide
    rw [literal_chars, stringText_of_clean hname, stringText_of_clean huri,
      stringText_of_clean hsum, stringText_of_clean hkeys.1, stringText_of_clean hkeys.2.1,
      stringText_of_clean hkeys.2.2]
    simp [parts, Text.joinWith]
  have hquote : ∀ part ∈ m.parts, '"' ∉ part := by
    simp [parts, (not_mem_of_clean hname).1, (not_mem_of_clean huri).1, (not_mem_of_clean hsum).1]
  rw [hjoin, Text.splitOn_joinWith (by simp [parts]) hquote]

end Metadata

namespace Token

/-! ## The record -/

/-- The record that the contract stores for a minted token.  It cuts the
literal at the double quotes, where the texts are the parts 3, 7 and 11,
and joins them, the price and the commission with commas.  There is no
record if the literal has too few parts. -/
def minted? (literal price commission : String) : Option String := do
  let parts := Text.splitOn '"' literal.toList
  let name ← parts[3]?
  let tokenUri ← parts[7]?
  let checksum ← parts[11]?
  return String.ofList
    (Text.joinWith [','] [name, tokenUri, checksum, price.toList, commission.toList])

/-- Of clean metadata the contract stores the record of its token. -/
theorem minted?_literal {m : Metadata} (h : ∀ p ∈ m.fields, Metadata.Clean p.2)
    (price : BitVec 256) (commission : UInt8) :
    minted? m.literal (ArgumentValue.u256 price).text (Numeral.decimal commission.toNat)
      = some (Token.encode ⟨m.name, m.tokenUri, m.checksum, price, commission⟩) := by
  rw [minted?, Metadata.literal_parts h]
  simp [Metadata.parts, encode, Fields.join, Fields.separator, ArgumentValue.text, Numeral.decimal]

end Token

/-! ## The order -/

/-- Everyone on the way of a token finds in the literal and the price what
the metadata says. -/
structure Metadata.ReadsBack (m : Metadata) (literal : String) (price : BitVec 256) : Prop where
  /-- The contract finds thirteen parts, and the texts among them. -/
  parts : (Text.splitOn '"' literal.toList).length = 13
    ∧ (Text.splitOn '"' literal.toList)[3]? = some m.name.toList
    ∧ (Text.splitOn '"' literal.toList)[7]? = some m.tokenUri.toList
    ∧ (Text.splitOn '"' literal.toList)[11]? = some m.checksum.toList
  /-- The literal is a record of the metadata. -/
  metadata : Metadata.parse literal = .ok m
  /-- The stored record is one of the token, whatever its commission is. -/
  record : ∀ commission : UInt8, ∃ record,
    Token.minted? literal (ArgumentValue.u256 price).text (Numeral.decimal commission.toNat)
        = some record
      ∧ Token.decode record = .ok ⟨m.name, m.tokenUri, m.checksum, price, commission⟩

theorem Metadata.readsBack_of_clean {m : Metadata} (h : ∀ p ∈ m.fields, Clean p.2)
    (price : BitVec 256) : m.ReadsBack m.literal price where
  parts := by
    rw [literal_parts h]
    exact ⟨rfl, rfl, rfl, rfl⟩
  metadata := literal_parse m
  record := by
    intro commission
    refine ⟨_, Token.minted?_literal h price commission, Token.decode_encode ?_ ?_ ?_⟩
    · exact (not_mem_of_clean (h ("name", m.name) (by simp [fields]))).2
    · exact (not_mem_of_clean (h ("token_uri", m.tokenUri) (by simp [fields]))).2
    · exact (not_mem_of_clean (h ("checksum", m.checksum) (by simp [fields]))).2

/-- What a mint deploy is made of. -/
theorem Terms.mint_eq_ok_iff {t : Terms} {signer : String} {order : MintOrder} {d : Deploy} :
    t.mint signer order = .ok d ↔ ∃ literal price amount,
      order.metadata.mintable = .ok literal ∧ Number.readWord256 "price" order.price = .ok price
        ∧ Number.readWord64 "amount" order.amount = .ok amount
        ∧ d = t.call signer t.payments.mint "mint"
          [⟨"metadata", .string literal⟩, ⟨"price", .u256 price⟩, ⟨"amount", .u64 amount⟩,
            ⟨"recipient", .account order.recipient⟩] := by
  simp only [mint, Error.bind_eq_ok_iff, pure, Except.pure, Except.ok.injEq]
  constructor
  · rintro ⟨literal, hl, price, hp, amount, ha, rfl⟩
    exact ⟨literal, price, amount, hl, hp, ha, rfl⟩
  · rintro ⟨literal, price, amount, hl, hp, ha, rfl⟩
    exact ⟨literal, hl, price, hp, amount, ha, rfl⟩

/-- What is minted reads back everywhere on its way, and metadata that would
not is refused with its first reserved character. -/
theorem Terms.mint_reads_back (t : Terms) (signer : String) (order : MintOrder) :
    (∀ d, t.mint signer order = .ok d → ∃ literal price,
      Argument.find? d.args "metadata" = some (.string literal)
        ∧ Argument.find? d.args "price" = some (.u256 price)
        ∧ Number.readWord256 "price" order.price = .ok price
        ∧ order.metadata.ReadsBack literal price)
    ∧ ((∃ p ∈ order.metadata.fields, ∃ c ∈ p.2.toList, Metadata.Reserved c) → ∃ field c,
      Metadata.FirstReserved order.metadata.fields field c
        ∧ t.mint signer order = .error (.invalidArgument "metadata"
            (field ++ " contains reserved character " ++ Text.quotedSingle c))) := by
  constructor
  · intro d hd
    obtain ⟨literal, price, amount, hliteral, hprice, _, rfl⟩ := Terms.mint_eq_ok_iff.1 hd
    obtain ⟨hclean, rfl⟩ := Metadata.mintable_eq_ok_iff.1 hliteral
    refine ⟨order.metadata.literal, price, ?_, ?_, hprice, ?_⟩
    · simp [Terms.call, Argument.find?]
    · simp [Terms.call, Argument.find?]
    · exact Metadata.readsBack_of_clean hclean price
  · rintro ⟨p, hp, c, hc, hres⟩
    have hdirty : ∃ p ∈ order.metadata.fields, ¬ Metadata.Clean p.2 :=
      ⟨p, hp, fun hclean => hclean c hc hres⟩
    obtain ⟨field, first, hfirst, herror⟩ := Metadata.mintable_eq_error hdirty
    refine ⟨field, first, hfirst, ?_⟩
    rw [Terms.mint, herror, Error.error_bind]

/-- Metadata beyond ASCII, with blanks and braces, comes through.  Of two
texts with reserved characters the first is named. -/
theorem Terms.mint_reads_back_snow :
    (∃ d literal price,
      (Terms.ofConfig {}).mint "keys/a.pem"
          ⟨⟨"snow ☃", "ipfs://a b;c", "\x7bsum: $1\x7d"⟩, " 007 ", "3600", Config.demoAccount1⟩
        = .ok d
        ∧ Argument.find? d.args "metadata" = some (.string literal)
        ∧ Metadata.ReadsBack ⟨"snow ☃", "ipfs://a b;c", "\x7bsum: $1\x7d"⟩ literal price)
    ∧ ∃ field c,
      Metadata.FirstReserved (Metadata.fields ⟨"snow", "a\tb,c", ","⟩) field c
        ∧ (Terms.ofConfig {}).mint "keys/a.pem"
            ⟨⟨"snow", "a\tb,c", ","⟩, "1", "2", Config.demoAccount1⟩
          = .error (.invalidArgument "metadata"
              (field ++ " contains reserved character " ++ Text.quotedSingle c)) := by
  constructor
  · obtain ⟨d, hd⟩ : ∃ d, (Terms.ofConfig {}).mint "keys/a.pem"
        ⟨⟨"snow ☃", "ipfs://a b;c", "\x7bsum: $1\x7d"⟩, " 007 ", "3600", Config.demoAccount1⟩
          = .ok d :=
      ⟨_, rfl⟩
    obtain ⟨literal, price, hliteral, _, _, hread⟩ := (Terms.mint_reads_back _ _ _).1 d hd
    exact ⟨d, literal, price, hd, hliteral, hread⟩
  · have hreserved : ∃ c ∈ "a\tb,c".toList, Metadata.Reserved c :=
      ⟨',', by decide, Or.inr (Or.inr (Or.inl rfl))⟩
    exact (Terms.mint_reads_back (Terms.ofConfig {}) "keys/a.pem"
      ⟨⟨"snow", "a\tb,c", ","⟩, "1", "2", Config.demoAccount1⟩).2
      ⟨("token_uri", "a\tb,c"), by simp [Metadata.fields], hreserved⟩

end TokenMarket
