import TokenMarket.Proofs.RequestRecord
import TokenMarket.Proofs.TokenRecord

/-!
# No number of a record is filled in

A number that is shown for a record should stand in the record.  `Written` says so of
one record: what is read has digits in the place of each number, and where nothing is
written in the place of the first bad field, the complaint names it.

The readers of fields are decided field by field (`Fields.Decided`), so nearly all of
this is read off what they denote (`Decided.written`).  One field does not keep the
rule.  A price may be missing altogether, and then the token costs nothing
(`numbers_written`).
-/

namespace TokenMarket

/-! ## One record -/

namespace Fields

/-- A digit stands in the field. -/
def HasDigit (field : List Char) : Prop :=
  ∃ c ∈ field, c.isDigit = true

/-- Nothing is filled in where the answer to a record is found. -/
structure Written {α : Type} (record : String) (rows : List Row) (numbers : List (List Char))
    (answer : Except Error α) : Prop where
  digits : ∀ r, answer = .ok r → ∀ field ∈ numbers, HasDigit field
  named : ∀ row, FirstBad rows row → row.text = [] →
    answer = .error (.invalidField record row.name "")

/-- It is enough that the fields of a record that is denoted have digits. -/
theorem Decided.written {α : Type} {record : String} {rows : List Row} {Denotes : α → Prop}
    {answer : Except Error α} {numbers : List (List Char)}
    (h : Decided record rows Denotes answer)
    (hdigits : ∀ r, Denotes r → ∀ field ∈ numbers, HasDigit field) :
    Written record rows numbers answer where
  digits := by
    intro r hr
    exact hdigits r ((h.ok_iff r).1 hr)
  named := by
    intro row hbad hempty
    exact h.error_of_empty hbad hempty

end Fields

open Fields

/-! ## Tokens -/

namespace Token

variable {text : String} {name tokenUri checksum price commission : List Char} {t : Token}

theorem written_of_price (hcut : Cut text [name, tokenUri, checksum, price, commission])
    (hprice : price ≠ []) :
    Written "token" (rows price commission) [price, commission] (decode text) := by
  refine (decided hcut hprice).written fun t ht => ?_
  exact List.forall_mem_cons.2
    ⟨ht.price.exists_isDigit, List.forall_mem_singleton.2 ht.commission.exists_isDigit⟩

/-- Without a price, the commission alone decides. -/
theorem decode_of_no_price (hcut : Cut text [name, tokenUri, checksum, [], commission]) :
    decode text = match Numeral.readByte? commission with
      | some c =>
        .ok ⟨String.ofList name, String.ofList tokenUri, String.ofList checksum, 0, c⟩
      | none => .error (.invalidField "token" "commission" (String.ofList commission)) := by
  have hprice : Fields.read "token" "price" Numeral.readWord256? [] = .ok 0 :=
    read_eq_ok_iff.2 rfl
  rw [decode_of_cut hcut, hprice]
  show (Fields.read "token" "commission" Numeral.readByte? commission >>= _) = _
  rw [Fields.read]
  cases Numeral.readByte? commission with
  | none => rfl
  | some c => rfl

theorem not_written_of_no_price (hcut : Cut text [name, tokenUri, checksum, [], commission]) :
    ¬ Written "token" (rows [] commission) [[], commission] (decode text) := by
  intro h
  have hbad : FirstBad (rows [] commission) ⟨"price", [], _⟩ :=
    firstBad_cons.2 (Or.inl ⟨rfl, Numeral.not_exists_unsigned_nil⟩)
  have hcomplaint := h.named _ hbad rfl
  rw [decode_of_no_price hcut] at hcomplaint
  -- The record is read, or the complaint is about the commission.
  cases hread : Numeral.readByte? commission with
  | none => simp [hread] at hcomplaint
  | some c => simp [hread] at hcomplaint

theorem price_of_no_price (hcut : Cut text [name, tokenUri, checksum, [], commission])
    (h : decode text = .ok t) : t.price = 0 := by
  obtain ⟨-, -, -, hprice, -⟩ := reads_of_decode hcut h
  exact (Option.some.inj hprice).symm

end Token

/-! ## Requests -/

theorem Request.written {text : String} {holderId amount commission producer publisher : List Char}
    (hcut : Cut text [holderId, amount, commission, producer, publisher]) :
    Written "request" (rows holderId amount commission producer publisher)
      [holderId, amount, commission] (decode text) := by
  refine (decided hcut).written fun r hr => ?_
  exact List.forall_mem_cons.2 ⟨hr.holderId.exists_isDigit, List.forall_mem_cons.2
    ⟨hr.amount.exists_isDigit, List.forall_mem_singleton.2 hr.commission.exists_isDigit⟩⟩

/-! ## All records -/

/-- Only texts of five fields are read.  The numbers of a request are written in its
record, and those of a token are exactly if the field of the price is not empty.  If
it is, the price is 0. -/
theorem numbers_written (text : String) :
    (∀ t, Token.decode text = .ok t → ∃ name tokenUri checksum price commission,
        Cut text [name, tokenUri, checksum, price, commission])
      ∧ (∀ name tokenUri checksum price commission,
        Cut text [name, tokenUri, checksum, price, commission] →
        (Written "token" (Token.rows price commission) [price, commission] (Token.decode text)
            ↔ price ≠ [])
          ∧ (price = [] → ∀ t, Token.decode text = .ok t → t.price = 0))
      ∧ (∀ r, Request.decode text = .ok r → ∃ holderId amount commission producer publisher,
        Cut text [holderId, amount, commission, producer, publisher])
      ∧ ∀ holderId amount commission producer publisher,
        Cut text [holderId, amount, commission, producer, publisher] →
        Written "request" (Request.rows holderId amount commission producer publisher)
          [holderId, amount, commission] (Request.decode text) := by
  refine ⟨fun t => Token.exists_cut_of_decode, ?_, fun r => Request.exists_cut_of_decode, ?_⟩
  · intro name tokenUri checksum price commission hcut
    refine ⟨⟨?_, Token.written_of_price hcut⟩, ?_⟩
    · intro h hempty
      rw [hempty] at hcut h
      exact Token.not_written_of_no_price hcut h
    · intro hempty t h
      rw [hempty] at hcut
      exact Token.price_of_no_price hcut h
  · intro holderId amount commission producer publisher hcut
    exact Request.written hcut

/-- A price of 0 that is written, two records with an empty field, and a price that is
missing. -/
theorem numbers_written_empty :
    HasDigit "0".toList
      ∧ Token.decode "n,u,c,7," = .error (.invalidField "token" "commission" "")
      ∧ Request.decode ",,,," = .error (.invalidField "request" "holder_id" "")
      ∧ ∀ t, Token.decode "n,u,c,,5" = .ok t → t.price = 0 := by
  have hwritten : HasDigit "0".toList := by
    have hread : Token.decode "n,u,c,0,+5" = .ok ⟨"n", "u", "c", 0, 5⟩ := rfl
    have hcut : Cut "n,u,c,0,+5"
        ["n".toList, "u".toList, "c".toList, "0".toList, "+5".toList] :=
      ⟨by decide, by decide, by decide⟩
    exact (((numbers_written _).2.1 _ _ _ _ _ hcut).1.2 (by decide)).digits _ hread _
      List.mem_cons_self
  have hcommission : Token.decode "n,u,c,7," = .error (.invalidField "token" "commission" "") := by
    have hcut : Cut "n,u,c,7," ["n".toList, "u".toList, "c".toList, "7".toList, []] :=
      ⟨by decide, by decide, by decide⟩
    have hprice : ∃ n < Power.two 256, Numeral.Unsigned "7".toList n :=
      ⟨7, by decide, Numeral.read?_eq_some_iff.1 (by decide)⟩
    exact (((numbers_written _).2.1 _ _ _ _ _ hcut).1.2 (by decide)).named _
      ⟨[_], [], rfl, List.forall_mem_singleton.2 hprice, Numeral.not_exists_signed_nil⟩ rfl
  have hholder : Request.decode ",,,," = .error (.invalidField "request" "holder_id" "") := by
    have hcut : Cut ",,,," [[], [], [], [], []] := ⟨by decide, by decide, by decide⟩
    exact ((numbers_written _).2.2.2 _ _ _ _ _ hcut).named _
      ⟨[], _, rfl, by simp, Numeral.not_exists_signed_nil⟩ rfl
  have hmissing : Cut "n,u,c,,5" ["n".toList, "u".toList, "c".toList, [], "5".toList] :=
    ⟨by decide, by decide, by decide⟩
  exact ⟨hwritten, hcommission, hholder, ((numbers_written _).2.1 _ _ _ _ _ hmissing).2 rfl⟩

/-- A price without a digit is read as 0. -/
theorem not_price_written :
    ¬ ∀ text name tokenUri checksum price commission,
      Cut text [name, tokenUri, checksum, price, commission] →
      Written "token" (Token.rows price commission) [price, commission] (Token.decode text) := by
  intro h
  have hread : Token.decode "n,u,c,,5" = .ok ⟨"n", "u", "c", 0, 5⟩ := rfl
  have hcut : Cut "n,u,c,,5" ["n".toList, "u".toList, "c".toList, [], "5".toList] :=
    ⟨by decide, by decide, by decide⟩
  obtain ⟨c, hc, -⟩ := (h _ _ _ _ _ _ hcut).digits _ hread [] List.mem_cons_self
  exact List.not_mem_nil hc

end TokenMarket
