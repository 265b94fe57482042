import TokenMarket.Record.Request
import TokenMarket.Proofs.HashText
import TokenMarket.Proofs.Numeral
import TokenMarket.Proofs.RecordFields

/-!
# Records of requests

The record of a request has five fields, and each of them can be bad: two words, a
byte and two accounts.  An account may be written bare or with its tag, so a request
has four records (`record`), and each of them is read as the request.

`decided` says what a record of five fields is read as, and `decode_of_count` what
every other text is.
-/

namespace TokenMarket.Request

/-! ## Fields -/

/-- The request that five fields denote. -/
structure Denotes (holderId amount commission producer publisher : List Char) (r : Request) :
    Prop where
  holderId : Numeral.Signed holderId r.holderId.toNat
  amount : Numeral.Signed amount r.amount.toNat
  commission : Numeral.Signed commission r.commission.toNat
  producer : Hash.Denotes (String.ofList producer) r.producer
  publisher : Hash.Denotes (String.ofList publisher) r.publisher

/-- The fields in the order in which they are read. -/
def rows (holderId amount commission producer publisher : List Char) : List Fields.Row :=
  [⟨"holder_id", holderId, ∃ n < UInt64.size, Numeral.Signed holderId n⟩,
    ⟨"amount", amount, ∃ n < UInt64.size, Numeral.Signed amount n⟩,
    ⟨"commission", commission, ∃ n < UInt8.size, Numeral.Signed commission n⟩,
    ⟨"producer", producer, Hash.Spelled .account (String.ofList producer)⟩,
    ⟨"publisher", publisher, Hash.Spelled .account (String.ofList publisher)⟩]

variable {text : String} {holderId amount commission producer publisher : List Char}
  {r : Request}

theorem account?_eq_some_iff {field : List Char} {h : AccountHash} :
    account? field = some h ↔ Hash.Denotes (String.ofList field) h := by
  rw [← Hash.parse_eq_ok_iff, account?]
  cases Hash.parse .account (String.ofList field) with
  | ok other => simp [Except.toOption]
  | error why => simp [Except.toOption]

theorem exists_account?_iff {field : List Char} :
    (∃ h, account? field = some h) ↔ Hash.Spelled .account (String.ofList field) := by
  simp only [account?_eq_some_iff, Hash.exists_denotes_iff]

/-- A text with too few separators or too many is told the number of its fields. -/
theorem decode_of_count (h : text.toList.count Fields.separator ≠ 4) :
    decode text
      = .error (.fieldCountMismatch "request" 5 (text.toList.count Fields.separator + 1)) := by
  rw [decode]
  split
  · next hfive => exact absurd (Fields.splitOn_eq_iff.1 hfive).count_eq h
  · rw [Text.length_splitOn]

theorem decode_of_cut
    (hcut : Fields.Cut text [holderId, amount, commission, producer, publisher]) :
    decode text = (do
      let holderId ← Fields.read "request" "holder_id" Numeral.readWord64? holderId
      let amount ← Fields.read "request" "amount" Numeral.readWord64? amount
      let commission ← Fields.read "request" "commission" Numeral.readByte? commission
      let producer ← Fields.read "request" "producer" account? producer
      let publisher ← Fields.read "request" "publisher" account? publisher
      return ⟨holderId, amount, commission, producer, publisher⟩) := by
  rw [decode, Fields.splitOn_eq_iff.2 hcut]

/-- Five fields are decided one by one. -/
theorem decided (hcut : Fields.Cut text [holderId, amount, commission, producer, publisher]) :
    Fields.Decided "request" (rows holderId amount commission producer publisher)
      (Denotes holderId amount commission producer publisher) (decode text) := by
  rw [decode_of_cut hcut]
  refine Fields.Decided.congr
    (Fields.decided_read Numeral.exists_readWord64?_iff fun holderId _ =>
      Fields.decided_read Numeral.exists_readWord64?_iff fun amount _ =>
      Fields.decided_read Numeral.exists_readByte?_iff fun commission _ =>
      Fields.decided_read exists_account?_iff fun producer _ =>
      Fields.decided_read exists_account?_iff fun publisher _ =>
      Fields.decided_pure "request" _) fun r => ?_
  simp only [Numeral.readWord64?_eq_some_iff, Numeral.readByte?_eq_some_iff,
    account?_eq_some_iff]
  constructor
  · intro ⟨holderId, hholder, amount, hamount, commission, hcommission, producer, hproducer,
      publisher, hpublisher, hr⟩
    rw [hr]
    exact ⟨hholder, hamount, hcommission, hproducer, hpublisher⟩
  · intro ⟨hholder, hamount, hcommission, hproducer, hpublisher⟩
    exact ⟨_, hholder, _, hamount, _, hcommission, _, hproducer, _, hpublisher, rfl⟩

/-- A request is read from five fields. -/
theorem exists_cut_of_decode (h : decode text = .ok r) :
    ∃ holderId amount commission producer publisher,
      Fields.Cut text [holderId, amount, commission, producer, publisher] :=
  Fields.exists_cut_of_ok decode_of_count h

/-! ## Written records -/

/-- The ways in which an account is written. -/
def spellings (h : AccountHash) : List String :=
  [h.hex, h.formatted]

/-- The record of the request, with its accounts written in some way. -/
def record (r : Request) (producer publisher : String) : String :=
  String.ofList (Fields.join
    [Numeral.digits r.holderId.toNat, Numeral.digits r.amount.toNat,
      Numeral.digits r.commission.toNat, producer.toList, publisher.toList])

variable {h : AccountHash} {spelling : String}

theorem denotes_of_spelling (hspelling : spelling ∈ spellings h) : Hash.Denotes spelling h := by
  simp only [spellings, List.mem_cons, List.not_mem_nil, or_false] at hspelling
  rcases hspelling with rfl | rfl
  · exact h.denotes_hex
  · exact h.denotes_formatted

/-- No account is written with the separator. -/
theorem not_mem_of_spelling (hspelling : spelling ∈ spellings h) :
    Fields.separator ∉ spelling.toList := by
  have hhex : Fields.separator ∉ h.hex.toList := by
    rw [Hash.hex, String.toList_ofList]
    intro hmem
    exact absurd (Hex.lowerDigit_of_mem_encode hmem) (by decide)
  have htag : Fields.separator ∉ HashKind.account.tag.toList := by decide
  simp only [spellings, List.mem_cons, List.not_mem_nil, or_false] at hspelling
  rcases hspelling with rfl | rfl
  · exact hhex
  · rw [Hash.formatted, String.toList_append, List.mem_append, not_or]
    exact ⟨htag, hhex⟩

/-- Each record of a request is read as the request. -/
theorem decode_record (r : Request) {producer publisher : String}
    (hproducer : producer ∈ spellings r.producer)
    (hpublisher : publisher ∈ spellings r.publisher) :
    decode (r.record producer publisher) = .ok r := by
  have hdigits : ∀ n, Fields.separator ∉ Numeral.digits n := Numeral.not_mem_digits (by decide)
  have hcut : Fields.Cut (r.record producer publisher) [Numeral.digits r.holderId.toNat,
      Numeral.digits r.amount.toNat, Numeral.digits r.commission.toNat, producer.toList,
      publisher.toList] := by
    refine Fields.cut_join (by simp) ?_
    simp [hdigits, not_mem_of_spelling hproducer, not_mem_of_spelling hpublisher]
  rw [(decided hcut).ok_iff]
  refine ⟨Numeral.signed_digits _, Numeral.signed_digits _, Numeral.signed_digits _, ?_, ?_⟩
  · rw [String.ofList_toList]
    exact denotes_of_spelling hproducer
  · rw [String.ofList_toList]
    exact denotes_of_spelling hpublisher

/-- What every text is read as, and how requests are read back. -/
theorem request_decided :
    (∀ text,
      (text.toList.count Fields.separator ≠ 4 → decode text
        = .error (.fieldCountMismatch "request" 5 (text.toList.count Fields.separator + 1)))
      ∧ (text.toList.count Fields.separator = 4 ↔ ∃ holderId amount commission producer publisher,
        Fields.Cut text [holderId, amount, commission, producer, publisher])
      ∧ ∀ holderId amount commission producer publisher,
        Fields.Cut text [holderId, amount, commission, producer, publisher] →
        Fields.Decided "request" (rows holderId amount commission producer publisher)
          (Denotes holderId amount commission producer publisher) (decode text))
    ∧ ∀ r : Request, ∀ producer ∈ spellings r.producer, ∀ publisher ∈ spellings r.publisher,
      decode (r.record producer publisher) = .ok r := by
  refine ⟨fun text => ⟨decode_of_count, Fields.count_eq_iff, ?_⟩, ?_⟩
  · intro holderId amount commission producer publisher hcut
    exact decided hcut
  · intro r producer hproducer publisher hpublisher
    exact r.decode_record hproducer hpublisher

/-- A request between two accounts. -/
def sample : Request :=
  ⟨4, 25, 10, ⟨List.replicate 32 0xab, rfl⟩, ⟨List.replicate 32 0xcd, rfl⟩⟩

/-- One account is bare and the other has its tag.  Of several bad fields the first is
told. -/
theorem request_decided_sample :
    decode (sample.record sample.producer.hex sample.publisher.formatted) = .ok sample
      ∧ decode "+4,,300,x,y" = .error (.invalidField "request" "amount" "")
      ∧ decode "4,25,10" = .error (.fieldCountMismatch "request" 5 3) := by
  have hbad : decode "+4,,300,x,y" = .error (.invalidField "request" "amount" "") := by
    have hcut : Fields.Cut "+4,,300,x,y" ["+4".toList, [], "300".toList, "x".toList, "y".toList] :=
      ⟨by decide, by decide, by decide⟩
    have hholder : ∃ n < UInt64.size, Numeral.Signed "+4".toList n :=
      ⟨4, by decide, Numeral.readSigned?_eq_some_iff.1 (by decide)⟩
    rw [((request_decided.1 _).2.2 _ _ _ _ _ hcut).error_iff]
    exact ⟨_, ⟨[_], _, rfl, List.forall_mem_singleton.2 hholder, Numeral.not_exists_signed_nil⟩, rfl⟩
  exact ⟨request_decided.2 sample _ (by simp [spellings]) _ (by simp [spellings]), hbad,
    (request_decided.1 "4,25,10").1 (by decide)⟩

end TokenMarket.Request
