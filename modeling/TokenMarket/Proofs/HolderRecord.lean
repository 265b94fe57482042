import TokenMarket.Record.Holder
import TokenMarket.Proofs.RecordBytes

/-!
# Holder records read and written

A holder record is 24 bytes, and its text may go on behind them.  `codec` says that a
text is read as a record exactly if its bytes start with those of the record, and
everything else here follows from it and from the laws of the digits.
-/

namespace TokenMarket.HolderRecord

/-- The bytes of the record, the fields one behind the other. -/
def layout (r : HolderRecord) : List UInt8 :=
  Bytes.ofWord r.remaining ++ (Bytes.ofWord r.amount ++ Bytes.ofWord r.tokenId)

@[simp] theorem length_layout (r : HolderRecord) : r.layout.length = 24 := by
  simp [layout]

theorem toList_encode (r : HolderRecord) : r.encode.toList = Hex.encode r.layout := by
  rw [encode, String.toList_ofList, layout, List.append_assoc]

/-- The record at the start of enough bytes. -/
def read (bytes : List UInt8) : HolderRecord :=
  ⟨Bytes.wordAt bytes 0, Bytes.wordAt bytes 8, Bytes.wordAt bytes 16⟩

theorem layout_read {bytes : List UInt8} (h : 24 ≤ bytes.length) :
    (read bytes).layout = bytes.take 24 := by
  have hremaining : bytes.take 8 = Bytes.ofWord (Bytes.wordAt bytes 0) :=
    Bytes.take_add_word (by omega)
  have hamount : bytes.take 16 = bytes.take 8 ++ Bytes.ofWord (Bytes.wordAt bytes 8) :=
    Bytes.take_add_word (by omega)
  have htoken : bytes.take 24 = bytes.take 16 ++ Bytes.ofWord (Bytes.wordAt bytes 16) :=
    Bytes.take_add_word (by omega)
  rw [htoken, hamount, hremaining, List.append_assoc]
  rfl

theorem read_layout (r : HolderRecord) (tail : List UInt8) : read (r.layout ++ tail) = r := by
  have hremaining : Bytes.wordAt (r.layout ++ tail) 0 = r.remaining := by
    have hword := Bytes.wordAt_append []
      (Bytes.ofWord r.amount ++ (Bytes.ofWord r.tokenId ++ tail)) r.remaining
    simpa [layout] using hword
  have hamount : Bytes.wordAt (r.layout ++ tail) 8 = r.amount := by
    have hword := Bytes.wordAt_append (Bytes.ofWord r.remaining)
      (Bytes.ofWord r.tokenId ++ tail) r.amount
    simpa [layout] using hword
  have htoken : Bytes.wordAt (r.layout ++ tail) 16 = r.tokenId := by
    have hword := Bytes.wordAt_append (Bytes.ofWord r.remaining ++ Bytes.ofWord r.amount)
      tail r.tokenId
    simpa [layout] using hword
  rw [read, hremaining, hamount, htoken]

theorem layout_injective : Function.Injective layout := by
  intro r s h
  rw [← read_layout r [], h, read_layout]

/-- Holder records are read by their layout. -/
theorem codec : Bytes.Codec "holder" 24 layout decode :=
  Bytes.Codec.of_reader length_layout layout_injective (fun _ hshort => if_pos hshort)
    fun bytes hlong => ⟨read bytes, if_neg (Nat.not_lt.2 hlong), layout_read hlong⟩

variable {text : String} {r : HolderRecord} {e : Error}

theorem decode_eq_error_iff : decode text = .error e ↔ Bytes.Fault "holder" 24 text e :=
  codec.error_iff

/-- The record of a text is the one that is written with the first digits. -/
theorem decode_eq_ok_iff_encode :
    decode text = .ok r ↔ Bytes.Holds 24 text
      ∧ r.encode.toList = ((Bytes.digits text).take 48).map Char.toLower := by
  rw [codec.ok_iff_digits, toList_encode]

/-- Every text of enough bytes is read. -/
theorem exists_decode_iff : (∃ r, decode text = .ok r) ↔ Bytes.Holds 24 text :=
  codec.exists_ok_iff

/-- A record that was written is read back, with more bytes behind it and blanks
around it. -/
theorem decode_encode (r : HolderRecord) {tail front back : List Char} (htail : Hex.Paired tail)
    (hfront : ∀ c ∈ front, Text.isBlank c = true) (hback : ∀ c ∈ back, Text.isBlank c = true) :
    decode (String.ofList (front ++ (r.encode.toList ++ tail) ++ back)) = .ok r := by
  rw [toList_encode]
  exact codec.decode_written r htail hfront hback

/-- Reading and writing holder records: what every text is read as, and how a record
is read back. -/
theorem holder_codec :
    (∀ text, ((∃ r, decode text = .ok r) ↔ Bytes.Holds 24 text)
      ∧ (∀ r, decode text = .ok r ↔ Bytes.Holds 24 text
        ∧ r.encode.toList = ((Bytes.digits text).take 48).map Char.toLower)
      ∧ (∀ e, decode text = .error e ↔ Bytes.Fault "holder" 24 text e))
    ∧ ∀ (r : HolderRecord) (tail front back : List Char), Hex.Paired tail →
      (∀ c ∈ front, Text.isBlank c = true) → (∀ c ∈ back, Text.isBlank c = true) →
      decode (String.ofList (front ++ (r.encode.toList ++ tail) ++ back)) = .ok r := by
  refine ⟨fun text => ⟨exists_decode_iff, fun r => decode_eq_ok_iff_encode, fun e =>
    decode_eq_error_iff⟩, ?_⟩
  intro r tail front back htail hfront hback
  exact r.decode_encode htail hfront hback

/-- A record with a tail in upper case, a blank in front and the end of a line
behind. -/
theorem holder_codec_upper :
    decode (String.ofList ([' '] ++ ((HolderRecord.mk 1000 3600 1).encode.toList
      ++ "DEADBEEF".toList) ++ ['\n'])) = .ok ⟨1000, 3600, 1⟩ :=
  holder_codec.2 ⟨1000, 3600, 1⟩ "DEADBEEF".toList [' '] ['\n'] (by decide)
    (List.forall_mem_singleton.2 rfl) (List.forall_mem_singleton.2 rfl)

end TokenMarket.HolderRecord
