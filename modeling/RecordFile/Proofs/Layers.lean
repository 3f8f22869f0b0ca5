import Mathlib
import RecordFile.Proofs.Opened

/-! One header in three readings: by its layout, as a table's and as a block's. The shorter readings take the
bytes that the longer ones start with. So whoever knows a header only in part can edit that part, by writing it
over the start, and nothing else of the header changes. -/
namespace RecordFile

namespace Header

theorem take_canonical {bytes : List UInt8} (long : 16 ≤ bytes.length) :
    (canonical bytes).take 16 = bytes.take 16 := by
  unfold canonical
  split
  · rw [List.append_assoc]
    exact List.take_left' (by simpa using long)
  · rfl

end Header

namespace BlockHeader

/-- A link is all that linking a block changes in its header. -/
theorem encode_next (b : BlockHeader) (next : Option Extent) :
    ({ b with next } : BlockHeader).encode = b.encode.take 16 ++ encodeLink next := by
  have length : (LittleEndian.encode 2 b.kind.code.toNat ++ LittleEndian.encode 2 b.headerSize.toNat ++
      LittleEndian.encode 4 b.blockSize.toNat ++ LittleEndian.encode 8 b.firstRecord.toNat).length = 16 := by
    simp only [List.length_append, LittleEndian.length_encode]
  rw [encode, encode, List.take_left' length]

/-- All before the link is written as it was read. -/
theorem take_encode_of_decode {bytes : List UInt8} {b : BlockHeader} (read : decode bytes = .ok b) :
    b.encode.take 16 = bytes.take 16 := by
  have long : 32 ≤ bytes.length := (exists_decode.mp ⟨b, read⟩).1
  rw [encode_of_decode read, Header.take_canonical (by rw [List.length_take]; omega), List.take_take]
  rfl

end BlockHeader

namespace Header

variable {bytes : List UInt8} {h : Header}

theorem blockPart_of_decode (read : decode bytes = .ok h) : BlockHeader.decode bytes = .ok h.blockPart := by
  have parts := decode_eq_ok.mp read
  cases h with
  | block b => exact parts.2
  | table t => exact (TableHeader.of_decode parts.2).2.2
  | file f => exact (TableHeader.of_decode (FileHeader.of_decode parts.2)).2.2

theorem tablePart_of_decode (read : decode bytes = .ok h) {t : TableHeader} (part : h.tablePart? = some t) :
    TableHeader.decode bytes = .ok t := by
  have parts := decode_eq_ok.mp read
  cases h with
  | block b => cases part
  | table t' =>
    cases part
    exact parts.2
  | file f =>
    cases part
    exact FileHeader.of_decode parts.2

/-- A plain header is too short to be a table's, or followed by enough bytes and refused for its kind. -/
theorem noTablePart_of_decode (read : decode bytes = .ok h) (part : h.tablePart? = none) :
    TableHeader.decode bytes = .error (if bytes.length < tableHeaderSize.toNat then
      .tooShort tableHeaderSize bytes.length else .noTablePart h.blockPart.kind) := by
  have block := blockPart_of_decode read
  cases h with
  | table t => cases part
  | file f => cases part
  | block b =>
    have plain : b.kind.isTableHead = false := (wellFormed_of_decode read).1
    rw [TableHeader.decode, needBytes]
    split
    case isTrue short => rfl
    case isFalse enough =>
      rw [block]
      simp [bind, Except.bind, blockPart, plain, throw, throwThe, MonadExceptOf.throw]

theorem take_encode_of_decode (read : decode bytes = .ok h) : h.blockPart.encode.take 16 = bytes.take 16 :=
  BlockHeader.take_encode_of_decode (blockPart_of_decode read)

theorem take_encode_block (h : Header) : h.encode.take 32 = h.blockPart.encode := by
  obtain ⟨rest, start⟩ := encode_eq_block h
  rw [start, List.take_left' (BlockHeader.length_encode _)]

theorem take_encode_table {t : TableHeader} (part : h.tablePart? = some t) : h.encode.take 40 = t.encode := by
  obtain ⟨rest, start⟩ := encode_eq_table part
  rw [start, List.take_left' (TableHeader.length_encode _)]

/-- Bytes that follow a header do not matter to it. -/
theorem decode_append (read : decode bytes = .ok h) (more : List UInt8) : decode (bytes ++ more) = .ok h := by
  have announced := announcedSize_of_decode read
  obtain ⟨-, -, whole⟩ := size_le_of_decode read
  obtain ⟨enough, -, -⟩ := announcedSize_eq_ok.mp announced
  have announced' : announcedSize (bytes ++ more) = .ok h.size := by
    rw [← announcedSize_take_of enough, List.take_append_of_le_length (Nat.le_refl _), List.take_length,
      announced]
  rw [← decode_take announced', List.take_append_of_le_length whole, decode_take announced, read]

/-- Of what follows the link, nothing is written another way than it stood. -/
theorem drop_encode_of_decode (read : decode bytes = .ok h) :
    h.encode.drop 32 = (bytes.take h.size.toNat).drop 32 := by
  obtain ⟨least, -, whole⟩ := size_le_of_decode read
  rw [encode_of_decode read, ← size_of_decode read, canonical]
  split
  · refine List.drop_left' ?_
    rw [List.length_append, List.length_take, List.length_take, List.length_replicate]
    omega
  · rfl

/-- Over the start of the bytes of a header, the start of another header of that size which ends as it does. -/
theorem decode_overwritten (read : decode bytes = .ok h) {edited : Header} (wf : edited.WellFormed)
    (sized : edited.size = h.size) {front : List UInt8} (linked : 32 ≤ front.length)
    (begins : edited.encode = front ++ h.encode.drop front.length) :
    decode (front ++ bytes.drop front.length) = .ok edited := by
  obtain ⟨least, -, whole⟩ := size_le_of_decode read
  have length := length_encode wf
  have inside : front.length ≤ h.size.toNat := by
    rw [begins, List.length_append, sized] at length
    omega
  have kept : h.encode.drop front.length = (bytes.take h.size.toNat).drop front.length := by
    have later := congrArg (List.drop (front.length - 32)) (drop_encode_of_decode read)
    rwa [List.drop_drop, List.drop_drop, Nat.add_sub_cancel' linked] at later
  have rest : bytes.drop front.length =
      (bytes.take h.size.toNat).drop front.length ++ bytes.drop h.size.toNat := by
    conv_lhs => rw [← List.take_append_drop h.size.toNat bytes]
    refine List.drop_append_of_le_length ?_
    rw [List.length_take]
    omega
  rw [rest, ← kept, ← List.append_assoc, ← begins]
  exact decode_encode wf _

theorem mapBlock_wellFormed (wf : h.WellFormed) {b : BlockHeader} (kind : b.kind = h.blockPart.kind)
    (sized : b.headerSize = h.blockPart.headerSize) (storable : b.Storable) :
    (h.mapBlock fun _ => b).WellFormed := by
  cases h with
  | block b' => exact ⟨(congrArg _ kind).trans wf.1, sized.trans wf.2.1, storable⟩
  | table t => exact ⟨kind.trans wf.1, sized.trans wf.2.1, storable, wf.2.2.record, wf.2.2.last⟩
  | file f => exact ⟨(congrArg _ kind).trans wf.1, sized.trans wf.2.1, storable, wf.2.2.record, wf.2.2.last⟩

/-- A block header over the start changes the block part, and nothing else. -/
theorem decode_overwritten_block (read : decode bytes = .ok h) {b : BlockHeader}
    (kind : b.kind = h.blockPart.kind) (sized : b.headerSize = h.blockPart.headerSize) (storable : b.Storable) :
    decode (b.encode ++ bytes.drop 32) = .ok (h.mapBlock fun _ => b) := by
  have wf := mapBlock_wellFormed (wellFormed_of_decode read) kind sized storable
  have same : (h.mapBlock fun _ => b).size = h.size := by
    rw [size, blockPart_mapBlock, sized, size]
  have begins := encode_mapBlock h fun _ => b
  have length := BlockHeader.length_encode b
  rw [← length] at begins ⊢
  exact decode_overwritten read wf same (Nat.le_of_eq length.symm) begins

/-- A table header over the start changes the table part, and nothing else. Where there is none, its first 32
bytes are what changes, and the others follow the header. -/
theorem decode_overwritten_table (read : decode bytes = .ok h) {t : TableHeader}
    (kind : t.block.kind = h.blockPart.kind) (sized : t.block.headerSize = h.blockPart.headerSize)
    (storable : t.Storable) :
    decode (t.encode ++ bytes.drop 40) = .ok ((h.mapBlock fun _ => t.block).mapTable fun _ => t) := by
  have length := TableHeader.length_encode t
  have wf := wellFormed_of_decode read
  have block := mapBlock_wellFormed wf kind sized storable.block
  cases h with
  | block b =>
    rw [TableHeader.encode, List.append_assoc, List.append_assoc]
    exact decode_encode block _
  | table t' =>
    have begins := encode_mapTable (h := .table t') rfl fun _ => t
    rw [← length] at begins ⊢
    have edited : WellFormed (.table t) := ⟨block.1, block.2.1, storable⟩
    exact decode_overwritten read edited sized (by omega) begins
  | file f =>
    have begins := encode_mapTable (h := .file f) rfl fun _ => t
    rw [← length] at begins ⊢
    have edited : WellFormed (.file { f with table := t }) := ⟨block.1, block.2.1, storable⟩
    exact decode_overwritten read edited sized (by omega) begins

/-- Other bytes for the link are read as the other link, and as nothing else. -/
theorem decode_relinked (read : decode bytes = .ok h) {e : Extent} (storable : e.Storable) :
    decode (bytes.take 16 ++ BlockHeader.encodeLink (some e) ++ bytes.drop 32) =
      .ok (h.mapBlock fun b => { b with next := some e }) := by
  have fits : ({ h.blockPart with next := some e } : BlockHeader).Storable := by
    intro e' same
    cases same
    exact storable
  have edited := decode_overwritten_block read (b := { h.blockPart with next := some e }) rfl rfl fits
  have same : (h.mapBlock fun b => { b with next := some e }) =
      h.mapBlock fun _ => { h.blockPart with next := some e } := by
    cases h <;> rfl
  rw [same, ← edited, BlockHeader.encode_next, take_encode_of_decode read]

/-- The readings of one header agree, in its bytes and in what they give, and each part that is written over the
start is all that changes. -/
theorem layers_agree (read : decode bytes = .ok h) :
    BlockHeader.decode bytes = .ok h.blockPart ∧
    (∀ t, h.tablePart? = some t → TableHeader.decode bytes = .ok t) ∧
    (h.tablePart? = none → TableHeader.decode bytes = .error (if bytes.length < tableHeaderSize.toNat then
      .tooShort tableHeaderSize bytes.length else .noTablePart h.blockPart.kind)) ∧
    h.encode.take 32 = h.blockPart.encode ∧
    (∀ t, h.tablePart? = some t → h.encode.take 40 = t.encode) ∧
    (∀ b : BlockHeader, b.kind = h.blockPart.kind → b.headerSize = h.blockPart.headerSize → b.Storable →
      decode (b.encode ++ bytes.drop 32) = .ok (h.mapBlock fun _ => b)) ∧
    ∀ t : TableHeader, t.block.kind = h.blockPart.kind → t.block.headerSize = h.blockPart.headerSize →
      t.Storable →
      decode (t.encode ++ bytes.drop 40) = .ok ((h.mapBlock fun _ => t.block).mapTable fun _ => t) := by
  refine ⟨blockPart_of_decode read, fun _ => tablePart_of_decode read, noTablePart_of_decode read,
    take_encode_block h, fun _ => take_encode_table, ?_, ?_⟩
  · intro b kind sized storable
    exact decode_overwritten_block read kind sized storable
  · intro t kind sized storable
    exact decode_overwritten_table read kind sized storable

/-- The head of a file is linked through its first 32 bytes and counts a record through its first 40. -/
theorem layers_agree_head :
    let bytes := (FileHeader.fresh 64 5).encode ++ List.replicate 16 0
    let linked : BlockHeader := { (FileHeader.fresh 64 5).table.block with next := some ⟨64, 64⟩ }
    decode (linked.encode ++ bytes.drop 32) =
        .ok (.file { FileHeader.fresh 64 5 with table := { block := linked, recordSize := 5 } }) ∧
      decode (({ block := linked, recordSize := 5, lastRecord := 3 } : TableHeader).encode ++ bytes.drop 40) =
        .ok (.file { FileHeader.fresh 64 5 with table := { block := linked, recordSize := 5, lastRecord := 3 } }) := by
  intro bytes linked
  have read : decode bytes = .ok (.file (FileHeader.fresh 64 5)) :=
    decode_encode (file_fresh_wellFormed 64 (by decide)) _
  have storable : linked.Storable := by
    intro e same
    cases same
    exact ⟨by decide, by decide, by decide⟩
  obtain ⟨-, -, -, -, -, block, table⟩ := layers_agree read
  exact ⟨block linked rfl rfl storable, table _ rfl rfl ⟨storable, by decide, by decide⟩⟩

end Header
end RecordFile
