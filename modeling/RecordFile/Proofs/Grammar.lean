import RecordFile.Fault
import RecordFile.Proofs.Readback

/-! Which bytes start with a header. A header is read just where the grammar of headers has one, and no
read on the way leaves the bytes. What was read is written again as it stood, except that a link which is
none is written without a size. -/
namespace RecordFile

namespace LittleEndian

theorem decode_lt (bytes : List UInt8) : decode bytes < 256 ^ bytes.length := by
  induction bytes with
  | nil => exact Nat.one_pos
  | cons b rest ih =>
    have := b.toNat_lt
    rw [List.length_cons, Nat.pow_succ, decode]
    omega

theorem field_lt (bytes : List UInt8) (offset width : Nat) : field bytes offset width < 256 ^ width := by
  refine (decode_lt _).trans_le (Nat.pow_le_pow_right (by decide) ?_)
  rw [List.length_take]
  exact Nat.min_le_left _ _

/-- A field is encoded as the bytes that it was read from. -/
theorem encode_field {bytes : List UInt8} {offset width : Nat} (inside : offset + width ≤ bytes.length) :
    encode width (field bytes offset width) = (bytes.drop offset).take width := by
  have length : ((bytes.drop offset).take width).length = width := by
    rw [List.length_take, List.length_drop]
    omega
  have same := encode_decode ((bytes.drop offset).take width)
  rwa [length] at same

theorem signed_nonneg {half bits : Nat} (range : bits < 2 * half) : 0 ≤ signed half bits ↔ bits < half := by
  unfold signed
  split <;> omega

end LittleEndian

theorem needBytes_eq_ok {needed : UInt16} {bytes : List UInt8} {done : Unit} :
    needBytes needed bytes = .ok done ↔ needed.toNat ≤ bytes.length := by
  unfold needBytes
  split
  · simp
    omega
  · simp
    omega

theorem decodeKind_eq_ok {tag : UInt16} {kind : BlockKind} : decodeKind tag = .ok kind ↔ tag = kind.code := by
  constructor
  · intro known
    unfold decodeKind at known
    split at known
    case h_1 found =>
      cases known
      exact (BlockKind.code_of_ofCode? found).symm
    case h_2 => cases known
  · rintro rfl
    exact decodeKind_code kind

namespace Header
open LittleEndian

/-- The sizes that a header may have after a tag; after a tag of no kind it has none. -/
def sizesAfter (tag : Nat) : List Nat :=
  match tag with
  | 1 | 2 => [32]
  | 3 => [40, 48]
  | 4 => [48]
  | _ => []

/-- The bytes start with a header. -/
@[mk_iff]
structure Spelled (bytes : List UInt8) : Prop where
  announced : 4 ≤ bytes.length
  sized : field bytes 2 2 ∈ sizesAfter (field bytes 0 2)
  whole : field bytes 2 2 ≤ bytes.length
  link : 0 ≤ signed (2 ^ 63) (field bytes 16 8) ∧ 0 ≤ signed (2 ^ 63) (field bytes 24 8)
  counts : field bytes 2 2 ∈ [40, 48] →
    0 ≤ signed (2 ^ 31) (field bytes 32 4) ∧ 0 ≤ signed (2 ^ 31) (field bytes 36 4)
  mark : field bytes 2 2 = 48 → (bytes.drop 40).take 4 = ['R', 'N', 'D', 'B'].map fun c => UInt8.ofNat c.toNat

instance (bytes : List UInt8) : Decidable (Spelled bytes) := decidable_of_iff _ (spelled_iff bytes).symm

theorem mem_sizesAfter {tag n : Nat} :
    n ∈ sizesAfter tag ↔ ∃ kind : BlockKind, tag = kind.code.toNat ∧ n ∈ kind.storedSizes.map UInt16.toNat := by
  constructor
  · intro mem
    unfold sizesAfter at mem
    split at mem
    · exact ⟨.generic, rfl, mem⟩
    · exact ⟨.data, rfl, mem⟩
    · exact ⟨.table, rfl, mem⟩
    · exact ⟨.file, rfl, mem⟩
    · cases mem
  · rintro ⟨kind, rfl, mem⟩
    cases kind <;> exact mem

/-- A field of two bytes is the word that it is read as. -/
theorem toNat_field (bytes : List UInt8) (offset : Nat) :
    (UInt16.ofNat (field bytes offset 2)).toNat = field bytes offset 2 :=
  UInt16.toNat_ofNat_of_lt' (field_lt bytes offset 2)

theorem announcedSize_eq_ok {bytes : List UInt8} {size : UInt16} :
    announcedSize bytes = .ok size ↔
      4 ≤ bytes.length ∧ size.toNat = field bytes 2 2 ∧ field bytes 2 2 ∈ sizesAfter (field bytes 0 2) := by
  have width := toNat_field bytes 2
  have tag := toNat_field bytes 0
  constructor
  · intro read
    have enough : ¬ bytes.length < announcementSize := by
      intro short
      rw [announcedSize, if_pos short] at read
      cases read
    obtain ⟨rfl, kind, known, possible⟩ := of_announcedSize read
    rw [decodeKind_eq_ok] at known
    refine ⟨Nat.le_of_not_lt enough, width, mem_sizesAfter.mpr ⟨kind, ?_, ?_⟩⟩
    · rw [← known, tag]
    · rw [← width]
      exact List.mem_map_of_mem possible
  · rintro ⟨enough, sized, mem⟩
    obtain ⟨kind, known, mem⟩ := mem_sizesAfter.mp mem
    obtain ⟨size', possible, same⟩ := List.mem_map.mp mem
    obtain rfl : UInt16.ofNat (field bytes 2 2) = size := UInt16.toNat_inj.mp (width.trans sized.symm)
    obtain rfl : UInt16.ofNat (field bytes 2 2) = size' := UInt16.toNat_inj.mp (width.trans same.symm)
    have tag' : UInt16.ofNat (field bytes 0 2) = kind.code := UInt16.toNat_inj.mp (tag.trans known)
    have long : ¬ bytes.length < announcementSize := Nat.not_lt.mpr enough
    rw [announcedSize, if_neg long]
    simp only [bind_eq_ok, unless_throw_eq_ok]
    exact ⟨kind, decodeKind_eq_ok.mpr tag', possible, rfl⟩

end Header

namespace BlockHeader
open LittleEndian

theorem exists_decodeLink {offset size : Nat} (offset_lt : offset < 2 ^ 64) (size_lt : size < 2 ^ 64) :
    (∃ next, decodeLink offset size = .ok next) ↔
      0 ≤ signed (2 ^ 63) offset ∧ 0 ≤ signed (2 ^ 63) size := by
  rw [signed_nonneg offset_lt, signed_nonneg size_lt]
  unfold decodeLink
  split
  · simp
    omega
  · split <;> simp <;> omega

theorem exists_decode {bytes : List UInt8} : (∃ b, decode bytes = .ok b) ↔
    32 ≤ bytes.length ∧ (∃ kind : BlockKind, field bytes 0 2 = kind.code.toNat) ∧
      0 ≤ signed (2 ^ 63) (field bytes 16 8) ∧ 0 ≤ signed (2 ^ 63) (field bytes 24 8) := by
  have tag := Header.toNat_field bytes 0
  rw [← exists_decodeLink (field_lt bytes 16 8) (field_lt bytes 24 8)]
  simp only [decode, bind_eq_ok, needBytes_eq_ok, decodeKind_eq_ok]
  constructor
  · rintro ⟨b, -, enough, kind, known, next, link, -⟩
    exact ⟨enough, ⟨kind, by rw [← known, tag]⟩, next, link⟩
  · rintro ⟨enough, ⟨kind, known⟩, next, link⟩
    exact ⟨_, (), enough, kind, UInt16.toNat_inj.mp (tag.trans known), next, link, rfl⟩

end BlockHeader

namespace TableHeader
open LittleEndian

theorem exists_decodeCount (defect : Int → HeaderDefect) {bits : Nat} (range : bits < 2 ^ 32) :
    (∃ count, decodeCount defect bits = .ok count) ↔ 0 ≤ signed (2 ^ 31) bits := by
  rw [signed_nonneg range]
  unfold decodeCount
  split <;> simp <;> omega

theorem exists_decode {bytes : List UInt8} : (∃ t, decode bytes = .ok t) ↔
    40 ≤ bytes.length ∧ (∃ b, BlockHeader.decode bytes = .ok b ∧ b.kind.isTableHead = true) ∧
      0 ≤ signed (2 ^ 31) (field bytes 32 4) ∧ 0 ≤ signed (2 ^ 31) (field bytes 36 4) := by
  rw [← exists_decodeCount .negativeRecordSize (field_lt bytes 32 4),
    ← exists_decodeCount .negativeLastRecord (field_lt bytes 36 4)]
  simp only [decode, bind_eq_ok, needBytes_eq_ok, unless_throw_eq_ok]
  constructor
  · rintro ⟨t, -, enough, b, block, head, record, readRecord, last, readLast, -⟩
    exact ⟨enough, ⟨b, block, head⟩, ⟨record, readRecord⟩, last, readLast⟩
  · rintro ⟨enough, ⟨b, block, head⟩, ⟨record, readRecord⟩, last, readLast⟩
    exact ⟨_, (), enough, b, block, head, record, readRecord, last, readLast, rfl⟩

end TableHeader

theorem FileHeader.exists_decode {bytes : List UInt8} : (∃ f, decode bytes = .ok f) ↔
    48 ≤ bytes.length ∧ (∃ t, TableHeader.decode bytes = .ok t) ∧ markOf bytes = magic := by
  simp only [decode, bind_eq_ok, needBytes_eq_ok, unless_throw_eq_ok]
  constructor
  · rintro ⟨f, -, enough, t, table, mark, -⟩
    exact ⟨enough, ⟨t, table⟩, mark⟩
  · rintro ⟨enough, ⟨t, table⟩, mark⟩
    exact ⟨_, (), enough, t, table, mark, rfl⟩

namespace Header
open LittleEndian

/-- A header is read in the layout whose size the bytes announce. -/
theorem decode_eq_ok {bytes : List UInt8} {h : Header} : decode bytes = .ok h ↔
    match h with
    | .block b => announcedSize bytes = .ok blockHeaderSize ∧ BlockHeader.decode bytes = .ok b
    | .table t => announcedSize bytes = .ok tableHeaderSize ∧ TableHeader.decode bytes = .ok t
    | .file f => announcedSize bytes = .ok fileHeaderSize ∧ FileHeader.decode bytes = .ok f := by
  constructor
  · intro read
    simp only [decode, bind_eq_ok] at read
    obtain ⟨size, announced, read⟩ := read
    obtain ⟨-, _, -, possible⟩ := of_announcedSize announced
    rcases layout_of_storedSizes possible with ⟨rfl, -⟩ | ⟨rfl, -⟩ | rfl
    · obtain ⟨b, start, same⟩ := bind_eq_ok.mp read
      cases same
      exact ⟨announced, start⟩
    · obtain ⟨t, start, same⟩ := bind_eq_ok.mp read
      cases same
      exact ⟨announced, start⟩
    · obtain ⟨f, start, same⟩ := bind_eq_ok.mp read
      cases same
      exact ⟨announced, start⟩
  · intro parts
    cases h <;>
    · obtain ⟨announced, start⟩ := parts
      rw [decode, announced]
      exact bind_eq_ok.mpr ⟨_, rfl, bind_eq_ok.mpr ⟨_, start, rfl⟩⟩

theorem isTableHead_of_storedSizes {kind : BlockKind} {size : UInt16} (possible : size ∈ kind.storedSizes)
    (long : size ≠ blockHeaderSize) : kind.isTableHead = true := by
  rcases layout_of_storedSizes possible with ⟨short, -⟩ | ⟨-, rfl⟩ | rfl
  · exact absurd short long
  · rfl
  · cases kind with
    | generic | data => exact absurd possible (by decide)
    | table | file => rfl

/-- Once the tag and the size are known to go together, the parts are read where the grammar has them. -/
theorem exists_table_iff {bytes : List UInt8} {size : UInt16} (announced : announcedSize bytes = .ok size)
    (long : size ≠ blockHeaderSize) :
    (∃ t, TableHeader.decode bytes = .ok t) ↔ 40 ≤ bytes.length ∧
      (0 ≤ signed (2 ^ 63) (field bytes 16 8) ∧ 0 ≤ signed (2 ^ 63) (field bytes 24 8)) ∧
      0 ≤ signed (2 ^ 31) (field bytes 32 4) ∧ 0 ≤ signed (2 ^ 31) (field bytes 36 4) := by
  obtain ⟨-, -, mem⟩ := announcedSize_eq_ok.mp announced
  obtain ⟨kind, known, -⟩ := mem_sizesAfter.mp mem
  rw [TableHeader.exists_decode]
  constructor
  · rintro ⟨enough, ⟨b, block, -⟩, counts⟩
    exact ⟨enough, (BlockHeader.exists_decode.mp ⟨b, block⟩).2.2, counts⟩
  · rintro ⟨enough, link, counts⟩
    obtain ⟨b, block⟩ := BlockHeader.exists_decode.mpr ⟨by omega, ⟨kind, known⟩, link⟩
    exact ⟨enough, ⟨b, block, isTableHead_of_storedSizes (announced_blockPart announced block).2 long⟩, counts⟩

theorem exists_decode {bytes : List UInt8} : (∃ h, decode bytes = .ok h) ↔ Spelled bytes := by
  constructor
  · rintro ⟨h, read⟩
    have parts := decode_eq_ok.mp read
    cases h with
    | block b =>
      obtain ⟨announced, start⟩ := parts
      obtain ⟨least, sized, mem⟩ := announcedSize_eq_ok.mp announced
      obtain ⟨enough, -, link⟩ := BlockHeader.exists_decode.mp ⟨b, start⟩
      have size : field bytes 2 2 = 32 := sized.symm
      exact ⟨least, mem, by omega, link, by simp [size], by simp [size]⟩
    | table t =>
      obtain ⟨announced, start⟩ := parts
      obtain ⟨least, sized, mem⟩ := announcedSize_eq_ok.mp announced
      obtain ⟨enough, link, counts⟩ := (exists_table_iff announced (by decide)).mp ⟨t, start⟩
      have size : field bytes 2 2 = 40 := sized.symm
      exact ⟨least, mem, by omega, link, fun _ => counts, by simp [size]⟩
    | file f =>
      obtain ⟨announced, start⟩ := parts
      obtain ⟨least, sized, mem⟩ := announcedSize_eq_ok.mp announced
      obtain ⟨enough, table, mark⟩ := FileHeader.exists_decode.mp ⟨f, start⟩
      obtain ⟨-, link, counts⟩ := (exists_table_iff announced (by decide)).mp table
      have size : field bytes 2 2 = 48 := sized.symm
      exact ⟨least, mem, by omega, link, fun _ => counts, fun _ => mark⟩
  · intro spelled
    obtain ⟨kind, -, possible⟩ := mem_sizesAfter.mp spelled.sized
    obtain ⟨size, possible, sized⟩ := List.mem_map.mp possible
    have announced := announcedSize_eq_ok.mpr ⟨spelled.announced, sized, spelled.sized⟩
    have whole := spelled.whole
    have counts := spelled.counts
    have mark := spelled.mark
    rw [← sized] at whole counts mark
    rcases layout_of_storedSizes possible with ⟨rfl, -⟩ | ⟨rfl, -⟩ | rfl
    · obtain ⟨kind, known, -⟩ := mem_sizesAfter.mp spelled.sized
      obtain ⟨b, start⟩ := BlockHeader.exists_decode.mpr ⟨whole, ⟨kind, known⟩, spelled.link⟩
      exact ⟨.block b, decode_eq_ok.mpr ⟨announced, start⟩⟩
    · obtain ⟨t, start⟩ := (exists_table_iff announced (by decide)).mpr
        ⟨whole, spelled.link, counts (by decide)⟩
      exact ⟨.table t, decode_eq_ok.mpr ⟨announced, start⟩⟩
    · have long : 48 ≤ bytes.length := whole
      have table := (exists_table_iff announced (by decide)).mpr
        ⟨by omega, spelled.link, counts (by decide)⟩
      obtain ⟨f, start⟩ := FileHeader.exists_decode.mpr ⟨whole, table, mark rfl⟩
      exact ⟨.file f, decode_eq_ok.mpr ⟨announced, start⟩⟩

/-- The bytes of a header, with two zeros for a link that has a size but no offset. -/
def canonical (bytes : List UInt8) : List UInt8 :=
  if field bytes 16 8 = 0 ∧ field bytes 24 8 ≠ 0 then
    bytes.take 16 ++ List.replicate 16 0 ++ bytes.drop 32
  else bytes

theorem canonical_append {front : List UInt8} (long : 32 ≤ front.length) (rest : List UInt8) :
    canonical (front ++ rest) = canonical front ++ rest := by
  have same {offset : Nat} (inside : offset + 8 ≤ 32) :
      field (front ++ rest) offset 8 = field front offset 8 := by
    have reach : offset + 8 ≤ front.length := by omega
    rw [← field_take reach, List.take_left]
  unfold canonical
  rw [same (by decide), same (by decide)]
  split
  · rw [List.take_append_of_le_length (by omega), List.drop_append_of_le_length long, List.append_assoc,
      List.append_assoc, List.append_assoc]
  · rfl

end Header

namespace BlockHeader
open LittleEndian

theorem encodeLink_of_decodeLink {offset size : Nat} {next : Option Extent}
    (read : decodeLink offset size = .ok next) : encodeLink next =
      if offset = 0 then List.replicate 16 0 else LittleEndian.encode 8 offset ++ LittleEndian.encode 8 size := by
  unfold decodeLink at read
  split at read
  case isTrue negative => cases read
  case isFalse positive =>
    split at read
    case isTrue none =>
      cases read
      rw [if_pos none]
      rfl
    case isFalse nonzero =>
      cases read
      have offset' : (UInt64.ofNat offset).toNat = offset := by simp; omega
      have size' : (UInt64.ofNat size).toNat = size := by simp; omega
      rw [if_neg nonzero, encodeLink, offset', size']

theorem encode_of_decode {bytes : List UInt8} {b : BlockHeader} (read : decode bytes = .ok b) :
    b.encode = Header.canonical (bytes.take 32) := by
  simp only [decode, bind_eq_ok, needBytes_eq_ok, decodeKind_eq_ok] at read
  obtain ⟨-, enough, kind, known, next, link, same⟩ := read
  cases same
  have long : 32 ≤ bytes.length := enough
  have link : decodeLink (field bytes 16 8) (field bytes 24 8) = .ok next := link
  have tag : kind.code.toNat = field bytes 0 2 := by rw [← known, Header.toNat_field]
  have whole : (UInt32.ofNat (field bytes 4 4)).toNat = field bytes 4 4 :=
    UInt32.toNat_ofNat_of_lt' (field_lt bytes 4 4)
  have first : (UInt64.ofNat (field bytes 8 8)).toNat = field bytes 8 8 :=
    UInt64.toNat_ofNat_of_lt' (field_lt bytes 8 8)
  have front : bytes.take 16 = bytes.take 2 ++ (bytes.drop 2).take 2 ++ (bytes.drop 4).take 4 ++
      (bytes.drop 8).take 8 := by
    rw [← List.take_add, ← List.take_add, ← List.take_add]
  have back : bytes.take 32 = bytes.take 16 ++ ((bytes.drop 16).take 8 ++ (bytes.drop 24).take 8) := by
    rw [← List.append_assoc, ← List.take_add, ← List.take_add]
  have start : field (bytes.take 32) 16 8 = field bytes 16 8 := field_take (by decide)
  have stop : field (bytes.take 32) 24 8 = field bytes 24 8 := field_take (by decide)
  simp only [encode, tag, Header.toNat_field, whole, first, encodeLink_of_decodeLink link]
  rw [encode_field (by omega), encode_field (by omega), encode_field (by omega), encode_field (by omega),
    List.drop_zero, ← front, Header.canonical, start, stop]
  have offset : LittleEndian.encode 8 (field bytes 16 8) = (bytes.drop 16).take 8 := encode_field (by omega)
  have size : LittleEndian.encode 8 (field bytes 24 8) = (bytes.drop 24).take 8 := encode_field (by omega)
  by_cases none : field bytes 16 8 = 0
  · rw [if_pos none]
    by_cases sizeless : field bytes 24 8 = 0
    · rw [if_neg (by simp [sizeless]), back, ← offset, ← size, none, sizeless]
      rfl
    · rw [if_pos ⟨none, sizeless⟩, List.take_take, List.drop_of_length_le (by simp), List.append_nil]
      rfl
  · rw [if_neg none, if_neg (by simp [none]), offset, size, back]

end BlockHeader

theorem TableHeader.encode_of_decode {bytes : List UInt8} {t : TableHeader} (read : decode bytes = .ok t) :
    t.encode = Header.canonical (bytes.take 40) := by
  simp only [decode, bind_eq_ok, needBytes_eq_ok, unless_throw_eq_ok] at read
  obtain ⟨-, enough, block, start, -, record, readRecord, last, readLast, same⟩ := read
  cases same
  have long : 40 ≤ bytes.length := enough
  have counted {defect : Int → HeaderDefect} {bits : Nat} {count : UInt32}
      (ok : decodeCount defect bits = .ok count) : count.toNat = bits := by
    unfold decodeCount at ok
    split at ok
    case isTrue => cases ok
    case isFalse small =>
      cases ok
      exact UInt32.toNat_ofNat_of_lt' (by show bits < 2 ^ 32; omega)
  have parts : bytes.take 40 = bytes.take 32 ++ ((bytes.drop 32).take 4 ++ (bytes.drop 36).take 4) := by
    rw [← List.append_assoc, ← List.take_add, ← List.take_add]
  rw [parts, Header.canonical_append (by simp; omega), encode, BlockHeader.encode_of_decode start,
    counted readRecord, counted readLast, LittleEndian.encode_field (by omega),
    LittleEndian.encode_field (by omega), List.append_assoc]

theorem FileHeader.encode_of_decode {bytes : List UInt8} {f : FileHeader} (read : decode bytes = .ok f) :
    f.encode = Header.canonical (bytes.take 48) := by
  simp only [decode, bind_eq_ok, needBytes_eq_ok, unless_throw_eq_ok] at read
  obtain ⟨-, enough, table, start, mark, same⟩ := read
  cases same
  have long : 48 ≤ bytes.length := enough
  have chunk : (UInt32.ofNat (LittleEndian.field bytes 44 4)).toNat = LittleEndian.field bytes 44 4 :=
    UInt32.toNat_ofNat_of_lt' (LittleEndian.field_lt bytes 44 4)
  have parts : bytes.take 48 = bytes.take 40 ++ ((bytes.drop 40).take 4 ++ (bytes.drop 44).take 4) := by
    rw [← List.append_assoc, ← List.take_add, ← List.take_add]
  rw [parts, Header.canonical_append (by simp; omega), encode, TableHeader.encode_of_decode start, chunk,
    LittleEndian.encode_field (by omega), ← mark, markOf, List.append_assoc]

namespace Header
open LittleEndian

theorem encode_of_decode {bytes : List UInt8} {h : Header} (read : decode bytes = .ok h) :
    h.encode = canonical (bytes.take (field bytes 2 2)) := by
  have parts := decode_eq_ok.mp read
  cases h with
  | block b =>
    obtain ⟨announced, start⟩ := parts
    obtain ⟨-, sized, -⟩ := announcedSize_eq_ok.mp announced
    rw [← sized]
    exact BlockHeader.encode_of_decode start
  | table t =>
    obtain ⟨announced, start⟩ := parts
    obtain ⟨-, sized, -⟩ := announcedSize_eq_ok.mp announced
    rw [← sized]
    exact TableHeader.encode_of_decode start
  | file f =>
    obtain ⟨announced, start⟩ := parts
    obtain ⟨-, sized, -⟩ := announcedSize_eq_ok.mp announced
    rw [← sized]
    exact FileHeader.encode_of_decode start

end Header

/-- Reading a header with the bound of every read checked. Nothing comes of a read that leaves the bytes. -/
abbrev Bounded := ExceptT HeaderDefect Option

namespace Bounded

/-- A number, where the bytes reach so far. -/
def field (bytes : List UInt8) (offset width : Nat) : Bounded Nat :=
  ExceptT.mk (if offset + width ≤ bytes.length then some (.ok (LittleEndian.field bytes offset width)) else none)

/-- A run of bytes, where the bytes reach so far. -/
def slice (bytes : List UInt8) (offset width : Nat) : Bounded (List UInt8) :=
  ExceptT.mk (if offset + width ≤ bytes.length then some (.ok ((bytes.drop offset).take width)) else none)

def announcedSize (bytes : List UInt8) : Bounded UInt16 := do
  if bytes.length < announcementSize then throw (.unannounced bytes.length)
  let tag ← field bytes 0 2
  let size ← field bytes 2 2
  let kind ← decodeKind (UInt16.ofNat tag)
  unless UInt16.ofNat size ∈ kind.storedSizes do throw (.impossibleSize kind (UInt16.ofNat size))
  return UInt16.ofNat size

def block (bytes : List UInt8) : Bounded BlockHeader := do
  needBytes blockHeaderSize bytes
  let tag ← field bytes 0 2
  let kind ← decodeKind (UInt16.ofNat tag)
  let headerSize ← field bytes 2 2
  let blockSize ← field bytes 4 4
  let firstRecord ← field bytes 8 8
  let offset ← field bytes 16 8
  let size ← field bytes 24 8
  let next ← BlockHeader.decodeLink offset size
  return {
    kind
    headerSize := UInt16.ofNat headerSize
    blockSize := UInt32.ofNat blockSize
    firstRecord := UInt64.ofNat firstRecord
    next }

def table (bytes : List UInt8) : Bounded TableHeader := do
  needBytes tableHeaderSize bytes
  let block ← block bytes
  unless block.kind.isTableHead do throw (.noTablePart block.kind)
  let recordSize ← field bytes 32 4
  let recordSize ← TableHeader.decodeCount .negativeRecordSize recordSize
  let lastRecord ← field bytes 36 4
  let lastRecord ← TableHeader.decodeCount .negativeLastRecord lastRecord
  return { block, recordSize, lastRecord }

def file (bytes : List UInt8) : Bounded FileHeader := do
  needBytes fileHeaderSize bytes
  let table ← table bytes
  let mark ← slice bytes 40 4
  unless mark = magic do throw (.badMagic mark)
  let chunkSize ← field bytes 44 4
  return { table, chunkSize := UInt32.ofNat chunkSize }

def header (bytes : List UInt8) : Bounded Header := do
  let size ← announcedSize bytes
  if size = blockHeaderSize then return .block (← block bytes)
  else if size = tableHeaderSize then return .table (← table bytes)
  else return .file (← file bytes)

variable {bytes : List UInt8} {offset width : Nat}

theorem field_eq (inside : offset + width ≤ bytes.length) :
    field bytes offset width = pure (LittleEndian.field bytes offset width) := by
  rw [field, if_pos inside]
  rfl

theorem slice_eq (inside : offset + width ≤ bytes.length) :
    slice bytes offset width = pure ((bytes.drop offset).take width) := by
  rw [slice, if_pos inside]
  rfl

theorem liftM_bind {α β : Type} (first : Except HeaderDefect α) (rest : α → Except HeaderDefect β) :
    (liftM (first >>= rest) : Bounded β) = liftM first >>= fun value => liftM (rest value) := by
  cases first <;> rfl

/-- Two readings that start alike go on alike. -/
theorem bind_congr {α β : Type} {first : Bounded α} {rest rest' : α → Bounded β}
    (same : ∀ value, rest value = rest' value) : first >>= rest = first >>= rest' :=
  congrArg (first >>= ·) (funext same)

theorem announcedSize_eq (bytes : List UInt8) : announcedSize bytes = liftM (Header.announcedSize bytes) := by
  rw [announcedSize, Header.announcedSize]
  by_cases short : bytes.length < announcementSize
  · rw [if_pos short, if_pos short]
    rfl
  · have enough : 4 ≤ bytes.length := Nat.le_of_not_lt short
    rw [if_neg short, if_neg short, field_eq (by omega), field_eq (by omega), pure_bind, pure_bind, liftM_bind]
    refine bind_congr fun kind => ?_
    dsimp only
    split <;> rfl

theorem block_eq (bytes : List UInt8) : block bytes = liftM (BlockHeader.decode bytes) := by
  rw [block, BlockHeader.decode, needBytes]
  by_cases short : bytes.length < blockHeaderSize.toNat
  · rw [if_pos short]
    rfl
  · have enough : 32 ≤ bytes.length := Nat.le_of_not_lt short
    rw [if_neg short, field_eq (by omega), field_eq (by omega), field_eq (by omega), field_eq (by omega),
      field_eq (by omega), field_eq (by omega)]
    simp only [pure_bind, liftM_bind]
    rfl

theorem table_eq (bytes : List UInt8) : table bytes = liftM (TableHeader.decode bytes) := by
  rw [table, TableHeader.decode, needBytes]
  by_cases short : bytes.length < tableHeaderSize.toNat
  · rw [if_pos short]
    rfl
  · have enough : 40 ≤ bytes.length := Nat.le_of_not_lt short
    rw [if_neg short, field_eq (by omega), field_eq (by omega), block_eq]
    simp only [pure_bind, liftM_bind]
    refine bind_congr fun _ => bind_congr fun block => ?_
    by_cases head : block.kind.isTableHead = true
    · simp only [if_pos head, liftM_bind]
      rfl
    · simp only [if_neg head]
      rfl

theorem file_eq (bytes : List UInt8) : file bytes = liftM (FileHeader.decode bytes) := by
  rw [file, FileHeader.decode, needBytes]
  by_cases short : bytes.length < fileHeaderSize.toNat
  · rw [if_pos short]
    rfl
  · have enough : 48 ≤ bytes.length := Nat.le_of_not_lt short
    rw [if_neg short, field_eq (by omega), slice_eq (by omega), table_eq, ← FileHeader.markOf]
    simp only [pure_bind, liftM_bind]
    refine bind_congr fun _ => bind_congr fun table => ?_
    by_cases marked : FileHeader.markOf bytes = magic
    · simp only [if_pos marked]
      rfl
    · simp only [if_neg marked]
      rfl

/-- No read of a header leaves the bytes that it is read from. -/
theorem header_eq (bytes : List UInt8) : header bytes = liftM (Header.decode bytes) := by
  rw [header, Header.decode, announcedSize_eq, liftM_bind]
  refine bind_congr fun size => ?_
  rw [block_eq, table_eq, file_eq]
  by_cases plain : size = blockHeaderSize
  · rw [if_pos plain, if_pos plain, liftM_bind]
    rfl
  · rw [if_neg plain, if_neg plain]
    by_cases table : size = tableHeaderSize
    · rw [if_pos table, if_pos table, liftM_bind]
      rfl
    · rw [if_neg table, if_neg table, liftM_bind]
      rfl

end Bounded

namespace Header
open LittleEndian

theorem size_of_decode {bytes : List UInt8} {h : Header} (read : decode bytes = .ok h) :
    h.size.toNat = field bytes 2 2 := by
  have parts := decode_eq_ok.mp read
  have sized {b : BlockHeader} (start : BlockHeader.decode bytes = .ok b) :
      b.headerSize.toNat = field bytes 2 2 := by
    rw [(BlockHeader.of_decode start).2.2, toNat_field]
  cases h with
  | block b => exact sized parts.2
  | table t => exact sized (TableHeader.of_decode parts.2).2.2
  | file f => exact sized (TableHeader.of_decode (FileHeader.of_decode parts.2)).2.2

/-- Just the bytes that are spelled as the grammar has it are read as a header; all others are refused as
corrupt, and no read leaves the bytes. What was read is written as it stood, but for a link without an
offset, which loses its size; and that is read as the same header again. -/
theorem grammar (bytes : List UInt8) :
    ((∃ h, decode bytes = .ok h) ↔ Spelled bytes) ∧
    (¬ Spelled bytes → ∃ defect, (decode bytes).mapError Fault.corruptHeader = .error (.corruptHeader defect)) ∧
    (Bounded.header bytes).run = some (decode bytes) ∧
    ∀ h, decode bytes = .ok h →
      h.size.toNat = field bytes 2 2 ∧ h.encode = canonical (bytes.take h.size.toNat) ∧
      decode h.encode = .ok h := by
  refine ⟨exists_decode, ?_, ?_, ?_⟩
  · intro misspelled
    cases read : decode bytes with
    | ok h => exact absurd (exists_decode.mp ⟨h, read⟩) misspelled
    | error defect => exact ⟨defect, rfl⟩
  · rw [Bounded.header_eq]
    rfl
  · intro h read
    have sized := size_of_decode read
    have written := encode_of_decode read
    rw [← sized] at written
    exact ⟨sized, written, decode_encode_iff.mpr (wellFormed_of_decode read)⟩

/-- A data block without a link, but with the size of one. -/
example : Spelled ([2, 0, 32, 0, 64, 0, 0, 0] ++ List.replicate 16 0 ++ [5, 0, 0, 0, 0, 0, 0, 0]) := by decide

end Header
end RecordFile
