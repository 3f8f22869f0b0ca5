import RecordFile.Proofs.Codec

/-! Whatever bytes are read as a header, the header is well formed. So the well-formed headers are
just those that their own encoding gives back, and a header made for a new block is one of them. -/
namespace RecordFile

theorem bind_eq_ok {ε α β : Type} {first : Except ε α} {rest : α → Except ε β} {result : β} :
    (first >>= rest) = .ok result ↔ ∃ value, first = .ok value ∧ rest value = .ok result := by
  cases first with
  | error e => simp [bind, Except.bind]
  | ok value => simp [bind, Except.bind]

theorem unless_throw_eq_ok {ε α : Type} {holds : Prop} [Decidable holds] {defect : ε}
    {rest : Except ε α} {result : α} :
    (do unless holds do throw defect
        rest) = .ok result ↔ holds ∧ rest = .ok result := by
  by_cases h : holds
  · simp [h]
  · simp [h, throw, throwThe, MonadExceptOf.throw, bind, Except.bind]

namespace BlockHeader
open LittleEndian

theorem storable_of_decodeLink {offset size : Nat} {next : Option Extent}
    (read : decodeLink offset size = .ok next) : ∀ e, next = some e → e.Storable := by
  intro e found
  unfold decodeLink at read
  split at read
  case isTrue negative => cases read
  case isFalse positive =>
    split at read
    case isTrue none =>
      cases read
      cases found
    case isFalse nonzero =>
      cases read
      cases found
      have offset' : (UInt64.ofNat offset).toNat = offset := by simp; omega
      have size' : (UInt64.ofNat size).toNat = size := by simp; omega
      refine ⟨?_, by rw [offset']; omega, by rw [size']; omega⟩
      intro zero
      exact nonzero (offset'.symm.trans (congrArg UInt64.toNat zero))

/-- The fields that tell the layout are read where the announcement has them. -/
theorem of_decode {bytes : List UInt8} {b : BlockHeader} (read : decode bytes = .ok b) :
    b.Storable ∧ decodeKind (UInt16.ofNat (field bytes 0 2)) = .ok b.kind ∧
      b.headerSize = UInt16.ofNat (field bytes 2 2) := by
  simp only [decode, bind_eq_ok] at read
  obtain ⟨-, -, kind, known, next, link, same⟩ := read
  cases same
  exact ⟨storable_of_decodeLink link, known, rfl⟩

end BlockHeader

namespace TableHeader
open LittleEndian

theorem small_of_decodeCount {defect : Int → HeaderDefect} {bits : Nat} {count : UInt32}
    (read : decodeCount defect bits = .ok count) : count.toNat < 2 ^ 31 := by
  unfold decodeCount at read
  split at read
  case isTrue negative => cases read
  case isFalse positive =>
    cases read
    rw [UInt32.toNat_ofNat']
    omega

theorem of_decode {bytes : List UInt8} {t : TableHeader} (read : decode bytes = .ok t) :
    t.Storable ∧ t.block.kind.isTableHead = true ∧ BlockHeader.decode bytes = .ok t.block := by
  simp only [decode, bind_eq_ok, unless_throw_eq_ok] at read
  obtain ⟨-, -, block, start, head, record, readRecord, last, readLast, same⟩ := read
  cases same
  refine ⟨?_, head, start⟩
  constructor
  · exact (BlockHeader.of_decode start).1
  · exact small_of_decodeCount readRecord
  · exact small_of_decodeCount readLast

end TableHeader

theorem FileHeader.of_decode {bytes : List UInt8} {f : FileHeader} (read : decode bytes = .ok f) :
    TableHeader.decode bytes = .ok f.table := by
  simp only [decode, bind_eq_ok, unless_throw_eq_ok] at read
  obtain ⟨-, -, table, start, -, same⟩ := read
  cases same
  exact start

namespace Header
open LittleEndian

theorem of_announcedSize {bytes : List UInt8} {size : UInt16} (read : announcedSize bytes = .ok size) :
    size = UInt16.ofNat (field bytes 2 2) ∧
      ∃ kind, decodeKind (UInt16.ofNat (field bytes 0 2)) = .ok kind ∧ size ∈ kind.storedSizes := by
  unfold announcedSize at read
  split at read
  case isTrue short => cases read
  case isFalse enough =>
    simp only [bind_eq_ok, unless_throw_eq_ok] at read
    obtain ⟨kind, known, possible, same⟩ := read
    cases same
    exact ⟨rfl, kind, known, possible⟩

/-- What is announced and what a layout reads of itself are one kind and one size. -/
theorem announced_blockPart {bytes : List UInt8} {size : UInt16} {b : BlockHeader}
    (announced : announcedSize bytes = .ok size) (read : BlockHeader.decode bytes = .ok b) :
    b.headerSize = size ∧ size ∈ b.kind.storedSizes := by
  obtain ⟨same, kind, known, possible⟩ := of_announcedSize announced
  obtain ⟨-, known', same'⟩ := BlockHeader.of_decode read
  cases known.symm.trans known'
  exact ⟨same'.trans same.symm, possible⟩

/-- The size alone tells plain blocks from table heads. -/
theorem layout_of_storedSizes {kind : BlockKind} {size : UInt16} (possible : size ∈ kind.storedSizes) :
    (size = blockHeaderSize ∧ kind.isTableHead = false) ∨
      (size = tableHeaderSize ∧ kind = .table) ∨ size = fileHeaderSize := by
  cases kind with
  | generic | data => exact .inl ⟨List.mem_singleton.mp possible, rfl⟩
  | table =>
    apply Or.inr
    rcases List.mem_pair.mp possible with short | long
    · exact .inl ⟨short, rfl⟩
    · exact .inr long
  | file => exact .inr (.inr (List.mem_singleton.mp possible))

/-- No bytes read as a header that is not well formed. -/
theorem wellFormed_of_decode {bytes : List UInt8} {h : Header} (read : decode bytes = .ok h) :
    h.WellFormed := by
  simp only [decode, bind_eq_ok] at read
  obtain ⟨size, announced, read⟩ := read
  obtain ⟨-, _, -, among⟩ := of_announcedSize announced
  rcases layout_of_storedSizes among with ⟨rfl, -⟩ | ⟨rfl, -⟩ | rfl
  · obtain ⟨b, start, same⟩ := bind_eq_ok.mp read
    cases same
    obtain ⟨sized, possible⟩ := announced_blockPart announced start
    rcases layout_of_storedSizes possible with ⟨-, plain⟩ | ⟨clash, -⟩ | clash
    · exact ⟨plain, sized, (BlockHeader.of_decode start).1⟩
    · cases clash
    · cases clash
  · obtain ⟨t, start, same⟩ := bind_eq_ok.mp read
    cases same
    obtain ⟨storable, -, block⟩ := TableHeader.of_decode start
    obtain ⟨sized, possible⟩ := announced_blockPart announced block
    rcases layout_of_storedSizes possible with ⟨clash, -⟩ | ⟨-, kind⟩ | clash
    · cases clash
    · exact ⟨kind, sized, storable⟩
    · cases clash
  · obtain ⟨f, start, same⟩ := bind_eq_ok.mp read
    cases same
    obtain ⟨storable, head, block⟩ := TableHeader.of_decode (FileHeader.of_decode start)
    exact ⟨head, (announced_blockPart announced block).1, storable⟩

theorem decode_encode_iff {h : Header} : decode h.encode = .ok h ↔ h.WellFormed := by
  constructor
  · intro read
    exact wellFormed_of_decode read
  · intro wf
    simpa using decode_encode wf []

theorem size_fresh (kind : BlockKind) (blockSize recordSize chunkSize : UInt32) :
    (fresh kind blockSize recordSize chunkSize).size = kind.headerSize := by
  cases kind <;> rfl

theorem decode_stamp {buffer : List UInt8} {kind : BlockKind}
    (enough : kind.headerSize.toNat ≤ buffer.length) (blockSize chunkSize : UInt32)
    {recordSize : UInt32} (small : recordSize.toNat < 2 ^ 31) :
    ∃ written, stamp buffer kind blockSize recordSize chunkSize = .ok written ∧
      written.length = buffer.length ∧
      decode written = .ok (fresh kind blockSize recordSize chunkSize) ∧
      written.drop kind.headerSize.toNat = buffer.drop kind.headerSize.toNat := by
  have wf := fresh_wellFormed kind blockSize chunkSize small
  have length := length_encode wf
  rw [size_fresh] at length
  refine ⟨_, if_neg (by omega), ?_, decode_encode wf _, List.drop_left' length⟩
  rw [List.length_append, length, List.length_drop]
  omega

/-- Decoding undoes encoding on the well-formed headers and on no others, and a header for a new
block or a new file is one of them if its record size fits. -/
theorem readback :
    (∀ h : Header, decode h.encode = .ok h ↔ h.WellFormed) ∧
    (∀ h : Header, h.WellFormed →
      h.encode.length = h.size.toNat ∧ ∀ rest, decode (h.encode ++ rest) = .ok h) ∧
    (∀ recordSize : UInt32, recordSize.toNat < 2 ^ 31 →
      (∀ chunkSize, (file (FileHeader.fresh chunkSize recordSize)).WellFormed) ∧
      ∀ kind blockSize chunkSize, (fresh kind blockSize recordSize chunkSize).WellFormed ∧
        ∀ buffer : List UInt8, kind.headerSize.toNat ≤ buffer.length →
          ∃ written, stamp buffer kind blockSize recordSize chunkSize = .ok written ∧
            written.length = buffer.length ∧
            decode written = .ok (fresh kind blockSize recordSize chunkSize) ∧
            written.drop kind.headerSize.toNat = buffer.drop kind.headerSize.toNat) := by
  refine ⟨fun h => decode_encode_iff, ?_, ?_⟩
  · intro h wf
    exact ⟨length_encode wf, decode_encode wf⟩
  · intro recordSize small
    refine ⟨fun chunkSize => file_fresh_wellFormed chunkSize small, ?_⟩
    intro kind blockSize chunkSize
    refine ⟨fresh_wellFormed kind blockSize chunkSize small, ?_⟩
    intro buffer enough
    exact decode_stamp enough blockSize chunkSize small

/-- A linked table head of the longer layout, and one that no reader can get back. -/
theorem readback_table :
    let linked : Header := .file { chunkSize := 64, table := { recordSize := 5, lastRecord := 2, block :=
      { kind := .table, headerSize := 48, blockSize := 64, firstRecord := 1, next := some ⟨64, 64⟩ } } }
    let sunk : Header := .block { kind := .data, headerSize := 32, blockSize := 64, next := some ⟨0, 64⟩ }
    (∀ rest, Header.decode (linked.encode ++ rest) = .ok linked) ∧
      Header.decode sunk.encode ≠ .ok sunk := by
  intro linked sunk
  have wf : linked.WellFormed := by
    refine ⟨rfl, rfl, ?_, by decide, by decide⟩
    intro e found
    cases found
    exact ⟨by decide, by decide, by decide⟩
  constructor
  · exact (readback.2.1 linked wf).2
  · intro read
    obtain ⟨-, -, storable⟩ := (readback.1 sunk).mp read
    exact (storable _ rfl).1 rfl

end Header
end RecordFile
