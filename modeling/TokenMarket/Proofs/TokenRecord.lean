import TokenMarket.Record.Token
import TokenMarket.Proofs.Error
import TokenMarket.Proofs.Numeral
import TokenMarket.Proofs.RecordFields

/-!
# Records of tokens

The record of a token has five fields.  Three of them are taken as they are, so only
the price and the commission can be bad.  The two are not written in the same way: a
commission may have a plus sign and a price may not.

`decided` says what a record of five fields is read as, and `decode_of_count` what
every other text is.  A price without any digit is left out of `decided`.  The record
that is written for a token is one of five fields (`cut_encode`), and from there it
follows that it is read as the token.
-/

namespace TokenMarket.Token

/-! ## Fields -/

/-- The token that five fields denote. -/
structure Denotes (name tokenUri checksum price commission : List Char) (t : Token) : Prop where
  name : t.name.toList = name
  tokenUri : t.tokenUri.toList = tokenUri
  checksum : t.checksum.toList = checksum
  price : Numeral.Unsigned price t.price.toNat
  commission : Numeral.Signed commission t.commission.toNat

/-- The fields that have to be read, in their order. -/
def rows (price commission : List Char) : List Fields.Row :=
  [⟨"price", price, ∃ n < Power.two 256, Numeral.Unsigned price n⟩,
    ⟨"commission", commission, ∃ n < UInt8.size, Numeral.Signed commission n⟩]

variable {text : String} {name tokenUri checksum price commission : List Char} {t : Token}

/-- A text with too few separators or too many is told the number of its fields. -/
theorem decode_of_count (h : text.toList.count Fields.separator ≠ 4) :
    decode text
      = .error (.fieldCountMismatch "token" 5 (text.toList.count Fields.separator + 1)) := by
  rw [decode]
  split
  · next hfive => exact absurd (Fields.splitOn_eq_iff.1 hfive).count_eq h
  · rw [Text.length_splitOn]

theorem decode_of_cut
    (hcut : Fields.Cut text [name, tokenUri, checksum, price, commission]) :
    decode text = (do
      let price ← Fields.read "token" "price" Numeral.readWord256? price
      let commission ← Fields.read "token" "commission" Numeral.readByte? commission
      return ⟨String.ofList name, String.ofList tokenUri, String.ofList checksum, price,
        commission⟩) := by
  rw [decode, Fields.splitOn_eq_iff.2 hcut]

/-- Five fields are decided by the price and the commission. -/
theorem decided (hcut : Fields.Cut text [name, tokenUri, checksum, price, commission])
    (hprice : price ≠ []) :
    Fields.Decided "token" (rows price commission)
      (Denotes name tokenUri checksum price commission) (decode text) := by
  rw [decode_of_cut hcut]
  refine Fields.Decided.congr
    (Fields.decided_read (Numeral.exists_readWord256?_iff hprice) fun p _ =>
      Fields.decided_read Numeral.exists_readByte?_iff fun c _ =>
        Fields.decided_pure "token" _) fun t => ?_
  constructor
  · intro ⟨p, hp, c, hc, ht⟩
    rw [ht]
    exact ⟨String.toList_ofList, String.toList_ofList, String.toList_ofList,
      (Numeral.readWord256?_eq_some_iff hprice).1 hp, Numeral.readByte?_eq_some_iff.1 hc⟩
  · intro ⟨hname, huri, hsum, hp, hc⟩
    refine ⟨t.price, (Numeral.readWord256?_eq_some_iff hprice).2 hp, t.commission,
      Numeral.readByte?_eq_some_iff.2 hc, ?_⟩
    rw [← hname, ← huri, ← hsum, String.ofList_toList, String.ofList_toList, String.ofList_toList]

/-! ## Written records -/

/-- The fields of a token that is written. -/
theorem cut_encode (hname : Fields.separator ∉ t.name.toList)
    (huri : Fields.separator ∉ t.tokenUri.toList) (hsum : Fields.separator ∉ t.checksum.toList) :
    Fields.Cut t.encode [t.name.toList, t.tokenUri.toList, t.checksum.toList,
      Numeral.digits t.price.toNat, Numeral.digits t.commission.toNat] := by
  have hdigits : ∀ n, Fields.separator ∉ Numeral.digits n := Numeral.not_mem_digits (by decide)
  refine Fields.cut_join (by simp) ?_
  simp [hname, huri, hsum, hdigits]

/-- A record whose texts hold no comma is read as the token that it was
written for. -/
theorem decode_encode (hname : Fields.separator ∉ t.name.toList)
    (huri : Fields.separator ∉ t.tokenUri.toList) (hsum : Fields.separator ∉ t.checksum.toList) :
    decode t.encode = .ok t := by
  have hprice := Numeral.digits_ne_nil t.price.toNat
  rw [(decided (cut_encode hname huri hsum) hprice).ok_iff]
  exact ⟨rfl, rfl, rfl, Numeral.unsigned_digits t.price.toNat,
    Numeral.signed_digits t.commission.toNat⟩

/-- A token is read from five fields. -/
theorem exists_cut_of_decode (h : decode text = .ok t) :
    ∃ name tokenUri checksum price commission,
      Fields.Cut text [name, tokenUri, checksum, price, commission] :=
  Fields.exists_cut_of_ok decode_of_count h

/-- What is known of a token that was read, also if its price has no digit. -/
theorem reads_of_decode (hcut : Fields.Cut text [name, tokenUri, checksum, price, commission])
    (h : decode text = .ok t) :
    t.name.toList = name ∧ t.tokenUri.toList = tokenUri ∧ t.checksum.toList = checksum
      ∧ Numeral.readWord256? price = some t.price
      ∧ Numeral.readByte? commission = some t.commission := by
  rw [decode_of_cut hcut] at h
  simp only [Error.bind_eq_ok_iff, Fields.read_eq_ok_iff] at h
  obtain ⟨p, hp, c, hc, ht⟩ := h
  obtain rfl := Except.ok.inj ht
  exact ⟨String.toList_ofList, String.toList_ofList, String.toList_ofList, hp, hc⟩

/-- A token that was read is written as a record of its own. -/
theorem decode_encode_of_decode (h : decode text = .ok t) : decode t.encode = .ok t := by
  obtain ⟨name, tokenUri, checksum, price, commission, hcut⟩ := exists_cut_of_decode h
  obtain ⟨hname, huri, hsum, -⟩ := reads_of_decode hcut h
  refine decode_encode ?_ ?_ ?_
  · exact hname ▸ hcut.free name (by simp)
  · exact huri ▸ hcut.free tokenUri (by simp)
  · exact hsum ▸ hcut.free checksum (by simp)

/-- What every text is read as, and which tokens are read back. -/
theorem token_decided :
    (∀ text,
      (text.toList.count Fields.separator ≠ 4 → decode text
        = .error (.fieldCountMismatch "token" 5 (text.toList.count Fields.separator + 1)))
      ∧ (text.toList.count Fields.separator = 4 ↔ ∃ name tokenUri checksum price commission,
        Fields.Cut text [name, tokenUri, checksum, price, commission])
      ∧ ∀ name tokenUri checksum price commission,
        Fields.Cut text [name, tokenUri, checksum, price, commission] → price ≠ [] →
        Fields.Decided "token" (rows price commission)
          (Denotes name tokenUri checksum price commission) (decode text))
    ∧ (∀ t : Token, Fields.separator ∉ t.name.toList → Fields.separator ∉ t.tokenUri.toList →
      Fields.separator ∉ t.checksum.toList → decode t.encode = .ok t)
    ∧ ∀ text t, decode text = .ok t → decode t.encode = .ok t := by
  refine ⟨fun text => ⟨decode_of_count, Fields.count_eq_iff, ?_⟩, ?_, ?_⟩
  · intro name tokenUri checksum price commission hcut hprice
    exact decided hcut hprice
  · intro t hname huri hsum
    exact decode_encode hname huri hsum
  · intro text t h
    exact decode_encode_of_decode h

/-- Zeros in front of a price are read over, and so is the plus sign of a commission.  A
price has no sign. -/
theorem token_decided_signs :
    decode "good3,uri abc,,0010,+5" = .ok ⟨"good3", "uri abc", "", 10, 5⟩
      ∧ decode (encode ⟨"good3", "uri abc", "", 10, 5⟩) = .ok ⟨"good3", "uri abc", "", 10, 5⟩
      ∧ decode (encode ⟨"", "", "", .allOnes 256, 255⟩) = .ok ⟨"", "", "", .allOnes 256, 255⟩
      ∧ decode "good3,uri abc,,+10,5" = .error (.invalidField "token" "price" "+10")
      ∧ decode "good3,10,5" = .error (.fieldCountMismatch "token" 5 3) := by
  have hread : decode "good3,uri abc,,0010,+5" = .ok ⟨"good3", "uri abc", "", 10, 5⟩ := by
    have hcut : Fields.Cut "good3,uri abc,,0010,+5"
        ["good3".toList, "uri abc".toList, [], "0010".toList, "+5".toList] :=
      ⟨by decide, by decide, by decide⟩
    rw [((token_decided.1 _).2.2 _ _ _ _ _ hcut (by decide)).ok_iff]
    exact ⟨rfl, rfl, rfl, Numeral.read?_eq_some_iff.1 (by decide),
      Numeral.readSigned?_eq_some_iff.1 (by decide)⟩
  have hsign : decode "good3,uri abc,,+10,5" = .error (.invalidField "token" "price" "+10") := by
    have hcut : Fields.Cut "good3,uri abc,,+10,5"
        ["good3".toList, "uri abc".toList, [], "+10".toList, "5".toList] :=
      ⟨by decide, by decide, by decide⟩
    have hbad : ¬ ∃ n < Power.two 256, Numeral.Unsigned "+10".toList n := by
      intro ⟨n, _, hn⟩
      exact absurd (hn.2.1 '+' (by decide)) (by decide)
    rw [((token_decided.1 _).2.2 _ _ _ _ _ hcut (by decide)).error_iff]
    exact ⟨_, ⟨[], _, rfl, by simp, hbad⟩, rfl⟩
  exact ⟨hread, token_decided.2.2 _ _ hread,
    token_decided.2.1 _ (by decide) (by decide) (by decide), hsign,
    (token_decided.1 "good3,10,5").1 (by decide)⟩

end TokenMarket.Token
