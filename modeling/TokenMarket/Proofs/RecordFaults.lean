import TokenMarket.Proofs.HolderRecord
import TokenMarket.Proofs.Reads

/-!
# What can be wrong with an entry

An entry of a dictionary is looked up and then decoded.  The entry can be missing, and its
record can be at fault in three ways: it is too short, it has another number of fields, or one
of its fields cannot be read.  Nothing else is told of an entry by a content, and what is told
names the dictionary or the record that it is about.

`RecordFault` are the faults of records.  `EntryFault` are those of entries, and with them the
complaint of a node that is out of order.  There is one lemma for every decoder, and then one
for every read of a single entry that a composite read is made of.
-/

namespace TokenMarket

open Error (FailsAs)

/-- What can be wrong with a record. -/
inductive RecordFault (record : String) : Error → Prop
  | truncated (expected got : Nat) : RecordFault record (.truncatedRecord record expected got)
  | fieldCount (expected got : Nat) : RecordFault record (.fieldCountMismatch record expected got)
  | field (name value : String) : RecordFault record (.invalidField record name value)

/-- What can be wrong with an entry of a dictionary. -/
inductive EntryFault (dictionary record : String) : Error → Prop
  | unavailable (reason : String) : EntryFault dictionary record (.nodeUnavailable reason)
  | missing (key : String) : EntryFault dictionary record (.notFound dictionary key)
  | record {e : Error} (h : RecordFault record e) : EntryFault dictionary record e

/-! ## Decoders -/

theorem Fields.read_failsAs {α : Type} (record name : String) (reader : List Char → Option α)
    (field : List Char) : FailsAs (RecordFault record) (read record name reader field) := by
  rw [read]
  split
  · exact Error.failsAs_ok _ _
  · exact Error.failsAs_error (.field _ _)

theorem HolderRecord.decode_failsAs (text : String) :
    FailsAs (RecordFault "holder") (decode text) := by
  intro e h
  cases decode_eq_error_iff.1 h with
  | improper => exact .field _ _
  | short => exact .truncated _ _

theorem Token.decode_failsAs (text : String) : FailsAs (RecordFault "token") (decode text) := by
  rw [decode]
  split
  · refine (Fields.read_failsAs _ _ _ _).bind fun price => ?_
    refine (Fields.read_failsAs _ _ _ _).bind fun commission => ?_
    exact Error.failsAs_ok _ _
  · exact Error.failsAs_error (.fieldCount _ _)

theorem Request.decode_failsAs (text : String) :
    FailsAs (RecordFault "request") (decode text) := by
  rw [decode]
  split
  · refine (Fields.read_failsAs _ _ _ _).bind fun holderId => ?_
    refine (Fields.read_failsAs _ _ _ _).bind fun amount => ?_
    refine (Fields.read_failsAs _ _ _ _).bind fun commission => ?_
    refine (Fields.read_failsAs _ _ _ _).bind fun producer => ?_
    refine (Fields.read_failsAs _ _ _ _).bind fun publisher => ?_
    exact Error.failsAs_ok _ _
  · exact Error.failsAs_error (.fieldCount _ _)

theorem IdList.decodeItems_failsAs (items : List Json) :
    FailsAs (RecordFault "id list") (decodeItems items) := by
  induction items with
  | nil => exact Error.failsAs_ok _ _
  | cons v rest ih =>
    rw [decodeItems]
    split
    · exact Error.failsAs_error (.field _ _)
    · exact fun e h => ih e (Error.map_eq_error_iff.1 h)

theorem IdList.decode_failsAs (v : Json) : FailsAs (RecordFault "id list") (decode v) := by
  rw [decode]
  split
  · exact decodeItems_failsAs _
  · exact Error.failsAs_error (.field _ _)

/-! ## Reads of one entry -/

namespace Content

variable (c : Content)

theorem decodeText_failsAs {α : Type} {record : String} {decode : String → Except Error α}
    (h : ∀ text, FailsAs (RecordFault record) (decode text)) (value : StoredValue) :
    FailsAs (RecordFault record) (decodeText record decode value) := by
  rw [decodeText]
  split
  · exact h _
  · exact Error.failsAs_error (.field _ _)

/-- An entry is missing, or its record is at fault. -/
theorem entry_failsAs {α : Type} {record : String} {decode : StoredValue → Except Error α}
    (h : ∀ value, FailsAs (RecordFault record) (decode value)) (dictionary key : String) :
    FailsAs (EntryFault dictionary record) (c.lookup dictionary key >>= decode) := by
  refine Error.FailsAs.bind ?_ fun value => (h value).mono fun e => .record
  rw [lookup]
  split
  · exact Error.failsAs_ok _ _
  · exact Error.failsAs_error (.missing key)

theorem token_failsAs (id : UInt64) : FailsAs (EntryFault "metadatas" "token") (c.token id) :=
  c.entry_failsAs (decodeText_failsAs Token.decode_failsAs) _ _

theorem request_failsAs (id : UInt64) :
    FailsAs (EntryFault "request_objects" "request") (c.request id) :=
  c.entry_failsAs (decodeText_failsAs Request.decode_failsAs) _ _

theorem ids_failsAs (list : AccountList) (account : AccountHash) :
    FailsAs (EntryFault (listName list) "id list") (c.ids list account) :=
  c.entry_failsAs (fun value => IdList.decode_failsAs value.parsed) _ _

/-- What can be wrong with a holding is wrong with its record or with its token. -/
theorem holder_failsAs (id : UInt64) :
    FailsAs (fun e => EntryFault "holders" "holder" e ∨ EntryFault "metadatas" "token" e)
      (c.holder id) := by
  have hrecord := c.entry_failsAs (fun value => HolderRecord.decode_failsAs value.bytes) "holders"
    (Numeral.decimal id.toNat)
  have htoken : ∀ record : HolderRecord, FailsAs (EntryFault "metadatas" "token")
      (c.token record.tokenId >>= fun token => pure (⟨record, token⟩ : Holder)) :=
    fun record => (c.token_failsAs record.tokenId).bind fun _ => Error.failsAs_ok _ _
  have hholder : c.holder id = (c.lookup "holders" (Numeral.decimal id.toNat) >>= fun value =>
      HolderRecord.decode value.bytes) >>= fun record =>
        c.token record.tokenId >>= fun token => pure ⟨record, token⟩ := by
    rw [holder, bind_assoc]
  rw [hholder]
  exact (hrecord.mono fun _ => Or.inl).bind fun record => (htoken record).mono fun _ => Or.inr

end Content

end TokenMarket
