import TokenMarket.Record.Approved
import TokenMarket.Proofs.RecordReader

/-!
# Records of approved holdings

The record has six fields and 89 bytes.  Two accounts stand side by side in it, and so
do two words, so that a mistake about a position would give another holding and no
complaint.

The record is read twice here.  `decode` looks fields up at their positions, and
`fields` walks over the bytes and knows none.  `exact_fields` is the law of the walk.
From it come `layout_injective`, which is the half of `codec` that does not follow
from the positions, and `fields_run`, which says that both find the same holding.
-/

namespace TokenMarket.ApprovedHolding

/-! ## The layout -/

/-- The bytes of the record, the fields one behind the other. -/
def layout (r : ApprovedHolding) : List UInt8 :=
  Bytes.ofWord r.holderId ++ (Bytes.ofWord r.amount ++ (r.owner.bytes
    ++ (r.publisher.bytes ++ (Bytes.ofWord r.tokenId ++ [r.percentage]))))

@[simp] theorem length_layout (r : ApprovedHolding) : r.layout.length = 89 := by
  simp [layout, Hash.length_bytes]

theorem toList_encode (r : ApprovedHolding) : r.encode.toList = Hex.encode r.layout := by
  simp only [encode, String.toList_ofList, layout, List.append_assoc]

/-! ## The walk -/

/-- The record, read field after field. -/
def fields : Bytes.Reader ApprovedHolding := do
  let holderId ← .word
  let amount ← .word
  let owner ← .account
  let publisher ← .account
  let tokenId ← .word
  let percentage ← .byte
  return ⟨holderId, amount, owner, publisher, tokenId, percentage⟩

/-- The walk takes the bytes of the record, and nothing else. -/
theorem exact_fields : fields.Exact layout := by
  intro bytes r rest
  simp only [fields, Bytes.Reader.run_bind_eq_some_iff, Bytes.Reader.run_pure_eq_some_iff,
    Bytes.Reader.exact_word.run_eq_some_iff, Bytes.Reader.exact_account.run_eq_some_iff,
    Bytes.Reader.exact_byte.run_eq_some_iff]
  constructor
  · intro ⟨holderId, _, hholder, amount, _, hamount, owner, _, howner, publisher, _, hpublisher,
      tokenId, _, htoken, percentage, _, hpercentage, hr, hrest⟩
    rw [hholder, hamount, howner, hpublisher, htoken, hpercentage, hrest, ← hr]
    simp only [layout, List.append_assoc]
  · intro hbytes
    refine ⟨r.holderId, _, ?_, r.amount, _, rfl, r.owner, _, rfl, r.publisher, _, rfl, r.tokenId,
      _, rfl, r.percentage, rest, rfl, rfl, rfl⟩
    rw [hbytes]
    simp only [layout, List.append_assoc]

/-- One walk cannot end in two ways, so different holdings have different bytes. -/
theorem layout_injective : Function.Injective layout := by
  intro r s h
  have hr : fields.run r.layout = some (r, []) := exact_fields.run_eq_some_iff.2 (by simp)
  have hs : fields.run r.layout = some (s, []) := exact_fields.run_eq_some_iff.2 (by simp [h])
  rw [hs] at hr
  exact ((Prod.mk.inj (Option.some.inj hr)).1).symm

/-! ## The positions -/

/-- The record at the start of bytes that reach to its last one. -/
def read (bytes : List UInt8) (h : 88 < bytes.length) : ApprovedHolding where
  holderId := Bytes.wordAt bytes 0
  amount := Bytes.wordAt bytes 8
  owner := accountAt bytes 16 (by omega)
  publisher := accountAt bytes 48 (by omega)
  tokenId := Bytes.wordAt bytes 80
  percentage := bytes[88]

/-- With an account, the bytes read so far are 32 more. -/
theorem take_add_account {bytes : List UInt8} {position : Nat} (h : position + 32 ≤ bytes.length) :
    bytes.take (position + 32) = bytes.take position ++ (accountAt bytes position h).bytes :=
  List.take_add

/-- The positions leave no byte out, and no byte is used twice. -/
theorem layout_read {bytes : List UInt8} (h : 88 < bytes.length) :
    (read bytes h).layout = bytes.take 89 := by
  have hholder : bytes.take 8 = Bytes.ofWord (Bytes.wordAt bytes 0) :=
    Bytes.take_add_word (by omega)
  have hamount : bytes.take 16 = bytes.take 8 ++ Bytes.ofWord (Bytes.wordAt bytes 8) :=
    Bytes.take_add_word (by omega)
  have howner : bytes.take 48 = bytes.take 16 ++ (accountAt bytes 16 (by omega)).bytes :=
    take_add_account (by omega)
  have hpublisher : bytes.take 80 = bytes.take 48 ++ (accountAt bytes 48 (by omega)).bytes :=
    take_add_account (by omega)
  have htoken : bytes.take 88 = bytes.take 80 ++ Bytes.ofWord (Bytes.wordAt bytes 80) :=
    Bytes.take_add_word (by omega)
  have hpercentage : bytes.take 89 = bytes.take 88 ++ [bytes[88]] :=
    List.take_succ_eq_append_getElem (by omega)
  rw [hpercentage, htoken, hpublisher, howner, hamount, hholder]
  simp only [layout, read, List.append_assoc]

/-- Approved holdings are read by their layout. -/
theorem codec : Bytes.Codec "approved" 89 layout decode :=
  Bytes.Codec.of_reader length_layout layout_injective (fun _ hshort => dif_pos hshort)
    fun bytes hlong => ⟨read bytes hlong, dif_neg (Nat.not_lt.2 hlong), layout_read hlong⟩

variable {text : String} {r : ApprovedHolding} {bytes : List UInt8}

/-- The walk over the bytes that were checked finds the holding and ends with them. -/
theorem fields_run (hhex : Bytes.ofHex "approved" text = .ok bytes) (hlong : 89 ≤ bytes.length) :
    ∃ r, decode text = .ok r ∧ fields.run (bytes.take 89) = some (r, []) := by
  refine ⟨read bytes hlong, ?_, ?_⟩
  · rw [codec.ok_iff, layout_read hlong, hhex]
    exact ⟨bytes.drop 89, by rw [List.take_append_drop]⟩
  · rw [exact_fields.run_eq_some_iff, layout_read hlong, List.append_nil]

/-- The holding of a text is the one that is written with the first digits. -/
theorem decode_eq_ok_iff_encode :
    decode text = .ok r ↔ Bytes.Holds 89 text
      ∧ r.encode.toList = ((Bytes.digits text).take 178).map Char.toLower := by
  rw [codec.ok_iff_digits, toList_encode]

theorem encode_injective : Function.Injective encode := by
  intro r s h
  have hlayout : Hex.encode r.layout = Hex.encode s.layout := by
    rw [← toList_encode, h, toList_encode]
  exact layout_injective (Hex.encode_injective hlayout)

/-- Reading approved holdings: what every text is read as, how far the reader looks, and
that each holding is read from its own digits and from no others. -/
theorem approved_codec :
    (∀ text, ((∃ r, decode text = .ok r) ↔ Bytes.Holds 89 text)
      ∧ (∀ r, decode text = .ok r ↔ Bytes.Holds 89 text
        ∧ r.encode.toList = ((Bytes.digits text).take 178).map Char.toLower)
      ∧ (∀ e, decode text = .error e ↔ Bytes.Fault "approved" 89 text e)
      ∧ ∀ bytes, Bytes.ofHex "approved" text = .ok bytes → 89 ≤ bytes.length →
        ∃ r, decode text = .ok r ∧ fields.run (bytes.take 89) = some (r, []))
    ∧ Function.Injective encode
    ∧ ∀ (r : ApprovedHolding) (tail front back : List Char), Hex.Paired tail →
      (∀ c ∈ front, Text.isBlank c = true) → (∀ c ∈ back, Text.isBlank c = true) →
      decode (String.ofList (front ++ (r.encode.toList ++ tail) ++ back)) = .ok r := by
  refine ⟨fun text => ⟨codec.exists_ok_iff, fun r => decode_eq_ok_iff_encode,
    fun e => codec.error_iff, fun bytes => fields_run⟩, encode_injective, ?_⟩
  intro r tail front back htail hfront hback
  rw [toList_encode]
  exact codec.decode_written r htail hfront hback

/-- A holding whose two accounts differ, and so do its words. -/
def sample : ApprovedHolding :=
  ⟨3, 40, ⟨List.replicate 32 0x11, rfl⟩, ⟨List.replicate 32 0x22, rfl⟩, 9, 15⟩

/-- It is read with a tail in upper case, a blank in front and the end of a line
behind. -/
theorem approved_codec_sample :
    decode (String.ofList ([' '] ++ (sample.encode.toList ++ "DEADBEEF".toList) ++ ['\n']))
        = .ok sample
      ∧ fields.run sample.layout = some (sample, []) := by
  have hread := approved_codec.2.2 sample "DEADBEEF".toList [' '] ['\n'] (by decide)
    (List.forall_mem_singleton.2 rfl) (List.forall_mem_singleton.2 rfl)
  obtain ⟨tail, hhex⟩ := codec.ok_iff.1 hread
  have hlong : 89 ≤ (sample.layout ++ tail).length := by simp
  obtain ⟨r, hr, hwalk⟩ := (approved_codec.1 _).2.2.2 _ hhex hlong
  obtain rfl := Except.ok.inj (hr.symm.trans hread)
  rw [List.take_left' (length_layout sample)] at hwalk
  exact ⟨hread, hwalk⟩

end TokenMarket.ApprovedHolding
