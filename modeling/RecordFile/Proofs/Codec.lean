import Mathlib
import RecordFile.Header.Basic

/-! Headers and their bytes. A well-formed header reads back from its encoding whatever follows it,
and the two short layouts can be read, and rewritten, as the start of a longer one. -/
namespace RecordFile

namespace LittleEndian

theorem decode_encode {width n : Nat} (h : n < 256 ^ width) : decode (encode width n) = n := by
  induction width generalizing n with
  | zero => simp [encode, decode] at h ⊢; omega
  | succ width ih =>
    have hq : n / 256 < 256 ^ width := by
      rw [Nat.pow_succ] at h
      omega
    simp only [encode, decode, ih hq, UInt8.toNat_ofNat']
    omega

theorem field_encode {width n : Nat} (h : n < 256 ^ width) (rest : List UInt8) :
    field (encode width n ++ rest) 0 width = n := by
  rw [field, List.drop_zero, List.take_left' (length_encode width n), decode_encode h]

theorem field_skip {a : List UInt8} {offset : Nat} (h : a.length ≤ offset) (b : List UInt8)
    (width : Nat) : field (a ++ b) offset width = field b (offset - a.length) width := by
  rw [field, List.drop_append, List.drop_of_length_le h, List.nil_append, field]

theorem field_take {bytes : List UInt8} {count offset width : Nat} (h : offset + width ≤ count) :
    field (bytes.take count) offset width = field bytes offset width := by
  rw [field, field, List.drop_take, List.take_take, Nat.min_eq_left (by omega)]

end LittleEndian

/-- A link that the two signed words of a header can hold and that does not read as none. -/
def Extent.Storable (e : Extent) : Prop :=
  e.offset ≠ 0 ∧ e.offset.toNat < 2 ^ 63 ∧ e.size.toNat < 2 ^ 63

def BlockHeader.Storable (b : BlockHeader) : Prop := ∀ e, b.next = some e → e.Storable

/-- The counts are signed words on disk. -/
structure TableHeader.Storable (t : TableHeader) : Prop where
  block : t.block.Storable
  record : t.recordSize.toNat < 2 ^ 31
  last : t.lastRecord.toNat < 2 ^ 31

/-- Layout, kind and header size agree, and every field fits its place on disk. -/
def Header.WellFormed : Header → Prop
  | .block b => b.kind.isTableHead = false ∧ b.headerSize = blockHeaderSize ∧ b.Storable
  | .table t => t.block.kind = .table ∧ t.block.headerSize = tableHeaderSize ∧ t.Storable
  | .file f => f.table.block.kind.isTableHead = true ∧ f.table.block.headerSize = fileHeaderSize ∧
      f.table.Storable

theorem decodeKind_code (kind : BlockKind) : decodeKind kind.code = .ok kind := by
  simp [decodeKind]

namespace BlockHeader
open LittleEndian

theorem fields_encode (b : BlockHeader) (rest : List UInt8) :
    field (b.encode ++ rest) 0 2 = b.kind.code.toNat ∧
      field (b.encode ++ rest) 2 2 = b.headerSize.toNat ∧
      field (b.encode ++ rest) 4 4 = b.blockSize.toNat ∧
      field (b.encode ++ rest) 8 8 = b.firstRecord.toNat := by
  have kind := b.kind.code.toNat_lt
  have size := b.headerSize.toNat_lt
  have whole := b.blockSize.toNat_lt
  have first := b.firstRecord.toNat_lt
  simp only [encode, List.append_assoc]
  refine ⟨field_encode (by simpa using kind) _, ?_, ?_, ?_⟩
  · rw [field_skip (by simp)]
    exact field_encode (by simpa using size) _
  · rw [field_skip (by simp), field_skip (by simp)]
    exact field_encode (by simpa using whole) _
  · rw [field_skip (by simp), field_skip (by simp), field_skip (by simp)]
    exact field_encode (by simpa using first) _

theorem link_encode (b : BlockHeader) (rest : List UInt8) (width offset : Nat) :
    field (b.encode ++ rest) (linkOffset + offset) width =
      field (encodeLink b.next ++ rest) offset width := by
  simp only [encode, List.append_assoc, linkOffset]
  rw [field_skip (by simp; omega), field_skip (by simp; omega), field_skip (by simp; omega),
    field_skip (by simp; omega)]
  simp only [LittleEndian.length_encode]
  congr 1
  omega

/-- What reading a link back gives. Its words are written as they are, and read as signed ones. -/
def rereadLink : Option Extent → Except HeaderDefect (Option Extent)
  | none => .ok none
  | some e => decodeLink e.offset.toNat e.size.toNat

theorem decodeLink_encodeLink (next : Option Extent) (rest : List UInt8) :
    decodeLink (field (encodeLink next ++ rest) 0 8) (field (encodeLink next ++ rest) 8 8) = rereadLink next := by
  cases next with
  | none =>
    simp only [encodeLink, List.append_assoc]
    rw [field_encode (by decide), field_skip (by simp)]
    rw [LittleEndian.length_encode, Nat.sub_self, field_encode (by decide)]
    rfl
  | some e =>
    have offset := e.offset.toNat_lt
    have size := e.size.toNat_lt
    simp only [encodeLink, List.append_assoc]
    rw [field_encode (by omega), field_skip (by simp)]
    rw [LittleEndian.length_encode, Nat.sub_self, field_encode (by omega)]
    rfl

theorem rereadLink_storable {next : Option Extent} (storable : ∀ e, next = some e → e.Storable) :
    rereadLink next = .ok next := by
  cases next with
  | none => rfl
  | some e =>
    obtain ⟨nonzero, offset, size⟩ := storable e rfl
    have offset' : e.offset.toNat ≠ 0 := fun zero => nonzero (UInt64.toNat_inj.mp zero)
    rw [rereadLink, decodeLink, if_neg (by omega), if_neg offset']
    simp

/-- A block at the start of a file cannot be told from none. -/
theorem rereadLink_zero {e : Extent} (zero : e.offset = 0) (size : e.size.toNat < 2 ^ 63) :
    rereadLink (some e) = .ok none := by
  have offset : e.offset.toNat = 0 := by rw [zero]; rfl
  rw [rereadLink, decodeLink, if_neg (by omega), if_pos offset]

theorem rereadLink_large {e : Extent} (large : 2 ^ 63 ≤ e.offset.toNat ∨ 2 ^ 63 ≤ e.size.toNat) :
    rereadLink (some e) = .error
      (.negativeLink (signed (2 ^ 63) e.offset.toNat) (signed (2 ^ 63) e.size.toNat)) := if_pos large

theorem decode_encode_reread (b : BlockHeader) (rest : List UInt8) :
    decode (b.encode ++ rest) = (rereadLink b.next).map fun next => { b with next } := by
  obtain ⟨kind, size, whole, first⟩ := fields_encode b rest
  have enough : ¬ (b.encode ++ rest).length < blockHeaderSize.toNat := by
    simp [blockHeaderSize]
  have link := decodeLink_encodeLink b.next rest
  rw [← link_encode b rest 8 0, ← link_encode b rest 8 8] at link
  rw [decode, needBytes, if_neg enough, kind, size, whole, first]
  simp only [Nat.add_zero] at link
  rw [link]
  cases rereadLink b.next <;> simp [decodeKind_code, bind, Except.bind, pure, Except.pure, Except.map]

theorem decode_encode {b : BlockHeader} (h : b.Storable) (rest : List UInt8) :
    decode (b.encode ++ rest) = .ok b := by
  rw [decode_encode_reread, rereadLink_storable h]
  rfl

end BlockHeader

namespace TableHeader
open LittleEndian

theorem counts_encode (t : TableHeader) (rest : List UInt8) :
    field (t.encode ++ rest) 32 4 = t.recordSize.toNat ∧
      field (t.encode ++ rest) 36 4 = t.lastRecord.toNat := by
  have record := t.recordSize.toNat_lt
  have last := t.lastRecord.toNat_lt
  simp only [encode, List.append_assoc]
  constructor
  · rw [field_skip (by simp), BlockHeader.length_encode]
    exact field_encode (by simpa using record) _
  · rw [field_skip (by simp), field_skip (by simp), BlockHeader.length_encode]
    exact field_encode (by simpa using last) _

theorem decodeCount_toNat (defect : Int → HeaderDefect) (count : UInt32) : decodeCount defect count.toNat =
    if 2 ^ 31 ≤ count.toNat then .error (defect (count.toNat - 2 ^ 32)) else .ok count := by
  have half : 0x80000000 = 2 ^ 31 := rfl
  rw [decodeCount, half]
  by_cases large : 2 ^ 31 ≤ count.toNat
  · rw [if_pos large, if_pos large, signed, if_neg (Nat.not_lt_of_le large)]
    rfl
  · rw [if_neg large, if_neg large, UInt32.ofNat_toNat]

/-- What reading the header back gives. The counts are written as they are, and read as signed words. -/
def reread (t : TableHeader) : Except HeaderDefect TableHeader :=
  if 2 ^ 31 ≤ t.recordSize.toNat then .error (.negativeRecordSize (t.recordSize.toNat - 2 ^ 32))
  else if 2 ^ 31 ≤ t.lastRecord.toNat then .error (.negativeLastRecord (t.lastRecord.toNat - 2 ^ 32))
  else .ok t

theorem decode_encode_reread {t : TableHeader} (storable : t.block.Storable)
    (head : t.block.kind.isTableHead = true) (rest : List UInt8) : decode (t.encode ++ rest) = t.reread := by
  obtain ⟨record, last⟩ := counts_encode t rest
  have enough : ¬ (t.encode ++ rest).length < tableHeaderSize.toNat := by
    simp [tableHeaderSize]
  have block : BlockHeader.decode (t.encode ++ rest) = .ok t.block := by
    simp only [encode, List.append_assoc]
    exact BlockHeader.decode_encode storable _
  rw [decode, needBytes, if_neg enough, block, record, last, decodeCount_toNat, decodeCount_toNat, reread]
  by_cases large : 2 ^ 31 ≤ t.recordSize.toNat
  · rw [if_pos large, if_pos large]
    simp [head, bind, Except.bind]
  · rw [if_neg large, if_neg large]
    by_cases large' : 2 ^ 31 ≤ t.lastRecord.toNat
    · rw [if_pos large', if_pos large']
      simp [head, bind, Except.bind]
    · rw [if_neg large', if_neg large']
      simp [head, bind, Except.bind, pure, Except.pure]

theorem Storable.reread {t : TableHeader} (h : t.Storable) : t.reread = .ok t := by
  rw [TableHeader.reread, if_neg (Nat.not_le_of_lt h.record), if_neg (Nat.not_le_of_lt h.last)]

theorem decode_encode {t : TableHeader} (h : t.Storable) (head : t.block.kind.isTableHead = true)
    (rest : List UInt8) : decode (t.encode ++ rest) = .ok t := by
  rw [decode_encode_reread h.block head, h.reread]

end TableHeader

namespace FileHeader
open LittleEndian

theorem mark_encode (f : FileHeader) (rest : List UInt8) : markOf (f.encode ++ rest) = magic := by
  simp only [markOf, encode, List.append_assoc]
  rw [List.drop_left' (TableHeader.length_encode _)]
  exact List.take_left' rfl

theorem chunk_encode (f : FileHeader) (rest : List UInt8) :
    field (f.encode ++ rest) 44 4 = f.chunkSize.toNat := by
  have chunk := f.chunkSize.toNat_lt
  simp only [encode, List.append_assoc]
  rw [field_skip (by simp), field_skip (by simp [magic]), TableHeader.length_encode]
  exact field_encode (by simpa using chunk) _

theorem decode_encode_reread {f : FileHeader} (storable : f.table.block.Storable)
    (head : f.table.block.kind.isTableHead = true) (rest : List UInt8) :
    decode (f.encode ++ rest) = f.table.reread.map fun table => { f with table } := by
  have enough : ¬ (f.encode ++ rest).length < fileHeaderSize.toNat := by
    simp [fileHeaderSize]
  have table : TableHeader.decode (f.encode ++ rest) = f.table.reread := by
    simp only [encode, List.append_assoc]
    exact TableHeader.decode_encode_reread storable head _
  rw [decode, needBytes, if_neg enough, table, mark_encode, chunk_encode]
  cases f.table.reread with
  | error defect => rfl
  | ok table => simp [bind, Except.bind, pure, Except.pure, Except.map]

theorem decode_encode {f : FileHeader} (h : f.table.Storable)
    (head : f.table.block.kind.isTableHead = true) (rest : List UInt8) :
    decode (f.encode ++ rest) = .ok f := by
  rw [decode_encode_reread h.block head, h.reread]
  rfl

end FileHeader

namespace Header
open LittleEndian

theorem encode_eq_block (h : Header) : ∃ rest, h.encode = h.blockPart.encode ++ rest := by
  cases h with
  | block b => exact ⟨[], (List.append_nil _).symm⟩
  | table t => exact ⟨_, List.append_assoc ..⟩
  | file f => exact ⟨_, by simp only [encode, FileHeader.encode, TableHeader.encode, List.append_assoc]; rfl⟩

theorem length_encode {h : Header} (wf : h.WellFormed) : h.encode.length = h.size.toNat := by
  cases h with
  | block b => simp [encode, size, blockPart, wf.2.1, blockHeaderSize]
  | table t => simp [encode, size, blockPart, wf.2.1, tableHeaderSize]
  | file f => simp [encode, size, blockPart, wf.2.1, fileHeaderSize]

theorem size_mem_storedSizes {h : Header} (wf : h.WellFormed) :
    h.size ∈ h.blockPart.kind.storedSizes := by
  cases h with
  | block b =>
    obtain ⟨kind, size, -⟩ := wf
    cases same : b.kind <;> simp_all [Header.size, blockPart, BlockKind.storedSizes, BlockKind.isTableHead]
  | table t => simp [Header.size, blockPart, wf.1, wf.2.1, BlockKind.storedSizes]
  | file f =>
    obtain ⟨kind, size, -⟩ := wf
    cases same : f.table.block.kind <;>
      simp_all [Header.size, blockPart, BlockKind.storedSizes, BlockKind.isTableHead]

theorem announcedSize_encode_of {h : Header} (known : h.size ∈ h.blockPart.kind.storedSizes) (rest : List UInt8) :
    announcedSize (h.encode ++ rest) = .ok h.size := by
  obtain ⟨more, start⟩ := encode_eq_block h
  obtain ⟨kind, size, -, -⟩ := BlockHeader.fields_encode h.blockPart (more ++ rest)
  rw [Header.size] at known ⊢
  rw [start, List.append_assoc]
  rw [announcedSize, if_neg (by simp [announcementSize]; omega), kind, size]
  simp [decodeKind_code, known, bind, Except.bind, pure, Except.pure]

theorem announcedSize_encode {h : Header} (wf : h.WellFormed) (rest : List UInt8) :
    announcedSize (h.encode ++ rest) = .ok h.size := announcedSize_encode_of (size_mem_storedSizes wf) rest

theorem announcedSize_take (bytes : List UInt8) :
    announcedSize (bytes.take announcementSize) = announcedSize bytes := by
  by_cases short : bytes.length < announcementSize
  · rw [List.take_of_length_le (by omega)]
  · rw [announcedSize, announcedSize, field_take (by decide), field_take (by decide)]
    rw [if_neg short, if_neg (by simp; omega)]

theorem decode_encode {h : Header} (wf : h.WellFormed) (rest : List UInt8) :
    decode (h.encode ++ rest) = .ok h := by
  have announced := announcedSize_encode wf rest
  rw [decode, announced]
  cases h with
  | block b =>
    have block := BlockHeader.decode_encode wf.2.2 rest
    simp [size, blockPart, wf.2.1, encode, block, bind, Except.bind, pure, Except.pure]
  | table t =>
    have head : t.block.kind.isTableHead = true := by rw [wf.1]; rfl
    have table := TableHeader.decode_encode wf.2.2 head rest
    simp [size, blockPart, wf.2.1, encode, table, bind, Except.bind, pure, Except.pure,
      tableHeaderSize, blockHeaderSize]
  | file f =>
    have file := FileHeader.decode_encode wf.2.2 wf.1 rest
    simp [size, blockPart, wf.2.1, encode, file, bind, Except.bind, pure, Except.pure,
      tableHeaderSize, blockHeaderSize, fileHeaderSize]

def mapTable (change : TableHeader → TableHeader) : Header → Header
  | block b => .block b
  | table t => .table (change t)
  | file f => .file { f with table := change f.table }

theorem encode_mapBlock (h : Header) (change : BlockHeader → BlockHeader) :
    (h.mapBlock change).encode = (change h.blockPart).encode ++ h.encode.drop 32 := by
  cases h with
  | block b => simp [mapBlock, encode, blockPart]
  | table t =>
    simp only [mapBlock, encode, blockPart, TableHeader.encode, List.append_assoc]
    rw [List.drop_left' (BlockHeader.length_encode _)]
  | file f =>
    simp only [mapBlock, encode, blockPart, FileHeader.encode, TableHeader.encode, List.append_assoc]
    rw [List.drop_left' (BlockHeader.length_encode _)]

theorem encode_mapTable {h : Header} {t : TableHeader} (part : h.tablePart? = some t)
    (change : TableHeader → TableHeader) :
    (h.mapTable change).encode = (change t).encode ++ h.encode.drop 40 := by
  cases h with
  | block b => cases part
  | table t' =>
    cases part
    simp [mapTable, encode]
  | file f =>
    cases part
    simp only [mapTable, encode, FileHeader.encode, List.append_assoc]
    rw [List.drop_left' (TableHeader.length_encode _)]

theorem storable_blockPart {h : Header} (wf : h.WellFormed) : h.blockPart.Storable := by
  cases h with
  | block b => exact wf.2.2
  | table t => exact wf.2.2.block
  | file f => exact wf.2.2.block

theorem wellFormed_tablePart {h : Header} {t : TableHeader} (wf : h.WellFormed)
    (part : h.tablePart? = some t) :
    t.Storable ∧ t.block.kind.isTableHead = true ∧ t.block = h.blockPart := by
  cases h with
  | block b => cases part
  | table t' =>
    cases part
    exact ⟨wf.2.2, by rw [wf.1]; rfl, rfl⟩
  | file f =>
    cases part
    exact ⟨wf.2.2, wf.1, rfl⟩

/-- The first 32 bytes of any header are a block header. -/
theorem decode_take_block {h : Header} (wf : h.WellFormed) (rest : List UInt8) :
    BlockHeader.decode ((h.encode ++ rest).take 32) = .ok h.blockPart := by
  obtain ⟨more, start⟩ := encode_eq_block h
  rw [start, List.append_assoc, List.take_left' (BlockHeader.length_encode _)]
  simpa using BlockHeader.decode_encode (storable_blockPart wf) []

theorem encode_eq_table {h : Header} {t : TableHeader} (part : h.tablePart? = some t) :
    ∃ rest, h.encode = t.encode ++ rest := by
  have same : h.mapTable id = h := by cases h <;> rfl
  have start := encode_mapTable part id
  rw [same] at start
  exact ⟨_, start⟩

theorem decode_take_table {h : Header} {t : TableHeader} (wf : h.WellFormed)
    (part : h.tablePart? = some t) (rest : List UInt8) :
    TableHeader.decode ((h.encode ++ rest).take 40) = .ok t := by
  obtain ⟨storable, head, -⟩ := wellFormed_tablePart wf part
  obtain ⟨more, start⟩ := encode_eq_table part
  rw [start, List.append_assoc, List.take_left' (TableHeader.length_encode _)]
  simpa using TableHeader.decode_encode storable head []

/-- No table header is read where a block of another kind starts. -/
theorem decode_take_plain {h : Header} (wf : h.WellFormed) (part : h.tablePart? = none)
    (rest : List UInt8) : ∃ defect, TableHeader.decode ((h.encode ++ rest).take 40) = .error defect := by
  cases h with
  | table t => cases part
  | file f => cases part
  | block b =>
    have block : BlockHeader.decode ((b.encode ++ rest).take 40) = .ok b := by
      rw [List.take_append, List.take_of_length_le (by simp)]
      exact BlockHeader.decode_encode wf.2.2 _
    rw [TableHeader.decode, needBytes, encode, block]
    split
    · exact ⟨_, rfl⟩
    · refine ⟨.noTablePart b.kind, ?_⟩
      have plain : b.kind.isTableHead = false := wf.1
      simp only [bind, Except.bind, plain]
      rfl

@[simp] theorem blockPart_mapBlock (h : Header) (change : BlockHeader → BlockHeader) :
    (h.mapBlock change).blockPart = change h.blockPart := by cases h <;> rfl

theorem tablePart?_mapBlock (h : Header) (change : BlockHeader → BlockHeader) :
    (h.mapBlock change).tablePart? =
      h.tablePart?.map fun t => { t with block := change t.block } := by cases h <;> rfl

theorem tablePart?_mapTable (h : Header) (change : TableHeader → TableHeader) :
    (h.mapTable change).tablePart? = h.tablePart?.map change := by cases h <;> rfl

theorem WellFormed.mapBlock {h : Header} (wf : h.WellFormed) {change : BlockHeader → BlockHeader}
    (kind : ∀ b, (change b).kind = b.kind) (sized : ∀ b, (change b).headerSize = b.headerSize)
    (storable : ∀ b, b.Storable → (change b).Storable) : (h.mapBlock change).WellFormed := by
  cases h with
  | block b => exact ⟨(kind b).symm ▸ wf.1, (sized b).trans wf.2.1, storable b wf.2.2⟩
  | table t =>
    exact ⟨(kind t.block).trans wf.1, (sized t.block).trans wf.2.1, storable _ wf.2.2.block,
      wf.2.2.record, wf.2.2.last⟩
  | file f =>
    exact ⟨(kind f.table.block).symm ▸ wf.1, (sized f.table.block).trans wf.2.1,
      storable _ wf.2.2.block, wf.2.2.record, wf.2.2.last⟩

theorem WellFormed.mapBlock_next {h : Header} (wf : h.WellFormed) {e : Extent} (fits : e.Storable) :
    (h.mapBlock fun b => { b with next := some e }).WellFormed := by
  refine wf.mapBlock (fun _ => rfl) (fun _ => rfl) ?_
  intro b _ e' same
  cases same
  exact fits

theorem WellFormed.mapTable_last {h : Header} (wf : h.WellFormed) {record : UInt32}
    (small : record.toNat < 2 ^ 31) :
    (h.mapTable fun t => { t with lastRecord := record }).WellFormed := by
  cases h with
  | block b => exact wf
  | table t => exact ⟨wf.1, wf.2.1, wf.2.2.block, wf.2.2.record, small⟩
  | file f => exact ⟨wf.1, wf.2.1, wf.2.2.block, wf.2.2.record, small⟩

theorem fresh_wellFormed (kind : BlockKind) (blockSize chunkSize : UInt32) {recordSize : UInt32}
    (small : recordSize.toNat < 2 ^ 31) : (fresh kind blockSize recordSize chunkSize).WellFormed := by
  have none : (0 : UInt32).toNat < 2 ^ 31 := by decide
  cases kind with
  | generic | data => exact ⟨rfl, rfl, nofun⟩
  | table | file => exact ⟨rfl, rfl, nofun, small, none⟩

theorem file_fresh_wellFormed (chunkSize : UInt32) {recordSize : UInt32}
    (small : recordSize.toNat < 2 ^ 31) : (file (.fresh chunkSize recordSize)).WellFormed := by
  have none : (0 : UInt32).toNat < 2 ^ 31 := by decide
  exact ⟨rfl, rfl, nofun, small, none⟩

end Header
end RecordFile
