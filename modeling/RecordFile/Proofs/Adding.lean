import Mathlib
import RecordFile.Proofs.LocateOutcome

/-! Adding a block to a file that may hold anything: nothing of it is left where it fails, and just the block
and the link to it where it does not. The link is checked again once the block is there, by another reader
than before. That check passes, for the bytes that it reads are still those of the tail. -/
namespace RecordFile

/-- The header that a new block has: an unlinked one of its kind, with all its parts. Record numbers start where
the spec says, if it says so. -/
inductive BlockSpec.Heads (spec : BlockSpec) (chunkSize : UInt32) : Header → Prop
  | plain : spec.kind = .generic ∨ spec.kind = .data → Heads spec chunkSize (.block {
      kind := spec.kind, headerSize := 32, blockSize := spec.size, firstRecord := spec.firstRecord, next := none })
  | table : spec.kind = .table → Heads spec chunkSize (.table {
      block := { kind := .table, headerSize := 40, blockSize := spec.size,
                 firstRecord := if spec.firstRecord = 0 then 1 else spec.firstRecord, next := none }
      recordSize := spec.recordSize, lastRecord := 0 })
  | file : spec.kind = .file → Heads spec chunkSize (.file {
      table := {
        block := { kind := .file, headerSize := 48, blockSize := spec.size,
                   firstRecord := if spec.firstRecord = 0 then 1 else spec.firstRecord, next := none }
        recordSize := spec.recordSize, lastRecord := 0 }
      chunkSize })

theorem BlockSpec.heads_header (spec : BlockSpec) (chunkSize : UInt32) :
    spec.Heads chunkSize (spec.header chunkSize) := by
  obtain ⟨kind, size, recordSize, firstRecord⟩ := spec
  by_cases unsaid : firstRecord = 0
  · subst unsaid
    cases kind
    · exact .plain (.inl rfl)
    · exact .plain (.inr rfl)
    · exact .table rfl
    · exact .file rfl
  · have header (kind : BlockKind) : header ⟨kind, size, recordSize, firstRecord⟩ chunkSize =
        (Header.fresh kind size recordSize chunkSize).mapBlock fun b => { b with firstRecord } := if_neg unsaid
    rw [header]
    cases kind
    · exact .plain (.inl rfl)
    · exact .plain (.inr rfl)
    · have table := @Heads.table ⟨.table, size, recordSize, firstRecord⟩ chunkSize rfl
      rwa [if_neg unsaid] at table
    · have file := @Heads.file ⟨.file, size, recordSize, firstRecord⟩ chunkSize rfl
      rwa [if_neg unsaid] at file

namespace Content

variable {c c' : Content} {o : Nat} {header : Header} {spec : BlockSpec} {chunkSize : UInt32}

theorem Shows.relinked (shows : c.Shows o header) {e : Extent} (storable : e.Storable) {more : List UInt8}
    (bytes : c'.toList = c.toList.take (o + 16) ++ BlockHeader.encodeLink (some e) ++ c.toList.drop (o + 32) ++
      more) : c'.Shows o (header.mapBlock fun b => { b with next := some e }) := by
  obtain ⟨least, -, inside⟩ := shows.inside
  have before : (c.toList.take o).length = o := by
    rw [List.length_take, length_toList]
    omega
  have there : c'.toList.drop o = (c.toList.drop o).take 16 ++ BlockHeader.encodeLink (some e) ++
      (c.toList.drop o).drop 32 ++ more := by
    rw [bytes, List.take_add, List.append_assoc, List.append_assoc, List.append_assoc, List.drop_left' before,
      List.drop_drop]
    simp only [List.append_assoc]
  refine ⟨?_, ?_⟩
  · rw [there]
    exact Header.decode_append (Header.decode_relinked shows.spelled storable) more
  · have size : (header.mapBlock fun b => { b with next := some e }).size = header.size := by cases header <;> rfl
    rw [size]
    exact shows.reached

/-- What there is after a block with this header was to be added: what there was, where that failed, and the block
after the bytes `front` where it did not. -/
def Gains (c c' : Content) (spec : BlockSpec) (chunkSize : UInt32) (header : Header)
    (front : Extent → List UInt8) : Except Fault Extent → Prop
  | .error _ => c'.toList = c.toList
  | .ok block => block.start = c.size ∧ block.size.toNat = spec.size.toNat ∧ chunkSize.toNat ∣ c.size ∧
      c'.toList = front block ++ header.encode ++ List.replicate (spec.size.toNat - header.encode.length) 0

/-- A block of this spec can come to the end of the file. It is of whole chunks and holds its header, its record size
can be stored, and it comes to a chunk boundary. -/
structure Takes (c : Content) (spec : BlockSpec) (chunkSize : UInt32) : Prop where
  whole : chunkSize.toNat ∣ spec.size.toNat
  header : spec.kind.headerSize.toNat ≤ spec.size.toNat
  signed : spec.recordSize.toNat < 2 ^ 31
  even : chunkSize.toNat ∣ c.size
  room : c.size + spec.size.toNat ≤ maxOffset

theorem Takes.checked (takes : c.Takes spec chunkSize) : spec.check chunkSize = .ok () :=
  BlockSpec.check_of takes.whole takes.header takes.signed

theorem takes_of_checked (checked : spec.check chunkSize = .ok ()) (even : chunkSize.toNat ∣ c.size)
    (room : c.size + spec.size.toNat ≤ maxOffset) : c.Takes spec chunkSize := by
  obtain ⟨-, whole, header, signed⟩ := BlockSpec.check_ok checked
  exact ⟨whole, header, signed, even, room⟩

theorem takes_iff (checked : spec.check chunkSize = .ok ()) :
    c.Takes spec chunkSize ↔ c.bars chunkSize spec.size.toNat = none := by
  constructor
  · intro takes
    have room := takes.room
    rw [bars, if_neg (by omega), if_neg (not_not_intro takes.even), if_neg (by omega)]
  · intro free
    obtain ⟨even, room⟩ := bars_eq_none free
    exact takes_of_checked checked even room

/-- The extent of a block that comes to the end of the file. -/
def extentAfter (c : Content) (size : UInt32) : Extent where
  offset := UInt64.ofNat c.size
  size := UInt64.ofNat size.toNat

theorem Takes.extent (takes : c.Takes spec chunkSize) :
    (c.extentAfter spec.size).start = c.size ∧ (c.extentAfter spec.size).size.toNat = spec.size.toNat := by
  have room := takes.room
  have limit : maxOffset < 2 ^ 64 := by decide
  exact ⟨UInt64.toNat_ofNat_of_lt' (by show _ < 2 ^ 64; omega),
    UInt64.toNat_ofNat_of_lt' (by show _ < 2 ^ 64; omega)⟩

theorem Takes.storable (takes : c.Takes spec chunkSize) (some : c.size ≠ 0) :
    (c.extentAfter spec.size).Storable := by
  have room := takes.room
  have limit : maxOffset < 2 ^ 63 := by decide
  obtain ⟨start, size⟩ := takes.extent
  refine ⟨fun zero => some ?_, ?_, ?_⟩
  · rw [← start, Extent.start, zero]
    rfl
  · exact start.trans_lt (by omega)
  · omega

theorem Takes.gains (takes : c.Takes spec chunkSize) {front : Extent → List UInt8}
    (bytes : c'.toList = front (c.extentAfter spec.size) ++ (Layout.fresh spec chunkSize).bytes) :
    c.Gains c' spec chunkSize (spec.header chunkSize) front (.ok (c.extentAfter spec.size)) := by
  obtain ⟨start, size⟩ := takes.extent
  refine ⟨start, size, takes.even, ?_⟩
  rw [bytes, List.append_assoc, Layout.fresh, Block.blank, Block.bytes, BlockHeader.payload,
    BlockSpec.header_blockSize, ← Header.size, Header.length_encode (BlockSpec.header_wellFormed takes.checked)]

end Content

namespace Handle

variable {h : Handle} {s : Store} {f : OpenFile} {c : Content} {spec : BlockSpec} {tail : Nat}

/-- What stands against a block stands against it as long as the file is what it is. -/
theorem exec_append_stopped (sees : h.Sees s f c) (refused : ¬ c.Takes spec f.header.chunkSize) :
    ∃ fault s', (h.append spec).exec s = (.error fault, s') ∧ h.Scanned s f c s' ∧ fault.isRetryable = false := by
  cases checked : spec.check f.header.chunkSize with
  | error fault =>
    refine ⟨fault, s, ?_, sees.scanned, BlockSpec.check_final checked⟩
    rw [append, Action.exec_bind_ok (exec_chunkSize sees), checked]
    exact Action.exec_bind_error (Action.exec_liftExcept (.error fault) s) _
  | ok =>
    rw [Content.takes_iff checked, ← ne_eq, Option.ne_none_iff_exists'] at refused
    obtain ⟨fault, barred⟩ := refused
    obtain ⟨s', ran, scanned⟩ := exec_append_barred sees rfl checked barred
    exact ⟨fault, s', ran, scanned, Content.bars_final barred⟩

theorem exec_append_unable (sees : h.Sees s f c) (refused : ¬ c.Takes spec f.header.chunkSize) :
    ∃ fault s', (h.append spec).exec s = (.error fault, s') ∧ h.Scanned s f c s' := by
  obtain ⟨fault, s', ran, scanned, -⟩ := exec_append_stopped sees refused
  exact ⟨fault, s', ran, scanned⟩

/-- Nothing is written unless the tail can be read and has no link, and the block can come to the end. -/
theorem exec_appendAfter_unable (sees : h.Sees s f c)
    (refused : ¬ (c.Takes spec f.header.chunkSize ∧ ∃ header, c.headerAt tail = .ok header ∧ header.next = none)) :
    ∃ fault s', (h.appendAfter tail spec).exec s = (.error fault, s') ∧ h.Scanned s f c s' := by
  obtain ⟨s₁, ran₁, p, e, left₁⟩ := scans_readHeader (c := c) tail sees rfl
  cases read : c.headerAt tail with
  | error fault =>
    rw [read] at ran₁
    exact ⟨fault, s₁, Action.exec_bind_error ran₁ _, p, e, left₁⟩
  | ok header =>
    rw [read] at ran₁
    cases last : header.next with
    | some existing =>
      refine ⟨.alreadyLinked tail existing.start, s₁, ?_, p, e, left₁⟩
      rw [appendAfter, Action.exec_bind_ok ran₁]
      simp only [last]
      exact Action.exec_bind_error (Action.exec_throw ..) _
    | none =>
      have refused : ¬ c.Takes spec f.header.chunkSize := fun takes => refused ⟨takes, header, read, last⟩
      obtain ⟨fault, s₂, ran₂, scanned⟩ := exec_append_unable left₁.sees refused
      refine ⟨fault, s₂, ?_, Scanned.trans left₁ scanned⟩
      rw [appendAfter, Action.exec_bind_ok ran₁]
      simp only [last]
      exact Action.exec_bind_error ran₂ _

/-- Adding a block changes no byte where it fails. Where it does not, the block has come to the old end of the
file, which was even, with a header that is all that the spec says, and all that changed before it is the link of
the block it was added after. -/
theorem added_wholly_or_not (sees : h.Sees s f c) (spec : BlockSpec) :
    ∃ made, spec.Heads f.header.chunkSize made ∧
    (∃ result s' c' p e, (h.append spec).exec s = (result, s') ∧
      h.Leaves s { f with position := p, lastErrno := e } c' s.locks s' ∧
      c.Gains c' spec f.header.chunkSize made (fun _ => c.toList) result ∧
      (result.isOk ↔ c.Takes spec f.header.chunkSize) ∧
      ∀ block, result = .ok block → ((h.readHeader block.start).exec s').1 = .ok made) ∧
    ∀ tail, ∃ result s' c' p e, (h.appendAfter tail spec).exec s = (result, s') ∧
      h.Leaves s { f with position := p, lastErrno := e } c' s.locks s' ∧
      c.Gains c' spec f.header.chunkSize made (fun block => c.toList.take (tail + 16) ++
        BlockHeader.encodeLink (some block) ++ c.toList.drop (tail + 32)) result ∧
      (result.isOk ↔ c.Takes spec f.header.chunkSize ∧
        ∃ header, ((h.readHeader tail).exec s).1 = .ok header ∧ header.next = none) ∧
      ∀ block, result = .ok block →
        ((h.readHeader block.start).exec s').1 = .ok made ∧
        ∃ header, ((h.readHeader tail).exec s).1 = .ok header ∧ header.next = none ∧
          ((h.readHeader tail).exec s').1 = .ok (header.mapBlock fun b => { b with next := some block }) := by
  refine ⟨_, spec.heads_header _, ?_, ?_⟩
  · by_cases takes : c.Takes spec f.header.chunkSize
    · obtain ⟨s', c', ran, left, bytes⟩ :=
        exec_append_free sees rfl takes.checked ((Content.takes_iff takes.checked).mp takes)
      refine ⟨.ok (c.extentAfter spec.size), s', c', f.position, f.lastErrno, ran, left, takes.gains bytes,
        iff_of_true rfl takes, ?_⟩
      intro _ same
      cases same
      have length := Content.length_toList c
      have shows := Content.Shows.added takes.checked (length ▸ takes.room) bytes
      rw [result_readHeader left.sees, takes.extent.1, Content.headerAt_eq_ok]
      exact length ▸ shows
    · obtain ⟨fault, s', ran, p, e, left⟩ := exec_append_unable sees takes
      exact ⟨_, s', c, p, e, ran, left, rfl, iff_of_false Bool.false_ne_true takes, nofun⟩
  · intro tail
    simp only [result_readHeader sees]
    by_cases able : c.Takes spec f.header.chunkSize ∧ ∃ header, c.headerAt tail = .ok header ∧ header.next = none
    · obtain ⟨takes, header, read, last⟩ := able
      have shows := Content.headerAt_eq_ok.mp read
      obtain ⟨s', c', p, e, ran, left, bytes⟩ := exec_appendAfter_free sees rfl takes.checked shows last
        ((Content.takes_iff takes.checked).mp takes)
      have some : c.size ≠ 0 := by
        obtain ⟨least, -, inside⟩ := shows.inside
        omega
      refine ⟨.ok (c.extentAfter spec.size), s', c', p, e, ran, left, takes.gains bytes,
        iff_of_true rfl ⟨takes, header, read, last⟩, ?_⟩
      intro _ same
      cases same
      rw [result_readHeader left.sees, result_readHeader left.sees, takes.extent.1]
      exact ⟨Content.headerAt_eq_ok.mpr (shows.grafted takes.checked takes.room bytes), header, read, last,
        Content.headerAt_eq_ok.mpr (shows.relinked (takes.storable some) bytes)⟩
    · obtain ⟨fault, s', ran, p, e, left⟩ := exec_appendAfter_unable sees able
      exact ⟨_, s', c, p, e, ran, left, rfl, iff_of_false Bool.false_ne_true able, nofun⟩

/-- A second block of the lone table is linked from the first, a table of its own can come after it, and a block of
half a chunk more is refused. -/
theorem added_wholly_or_not_lone : ∃ s f, (⟨0⟩ : Handle).Sees s f lone ∧
    (∃ fault s' c', ((⟨0⟩ : Handle).append (.data 96 1)).exec s = (.error fault, s') ∧
      s'.content? f.location = some c' ∧ c'.toList = lone.toList) ∧
    (∃ block s', ((⟨0⟩ : Handle).append (.table 128 24)).exec s = (.ok block, s') ∧
      (((⟨0⟩ : Handle).readHeader 64).exec s').1 = .ok (.table {
        block := { kind := .table, headerSize := 40, blockSize := 128, firstRecord := 1, next := none }
        recordSize := 24, lastRecord := 0 })) ∧
    ∃ block s' c', ((⟨0⟩ : Handle).appendAfter 0 (.data 64 3)).exec s = (.ok block, s') ∧
      s'.content? f.location = some c' ∧ block.start = 64 ∧ c'.size = 128 ∧
      (((⟨0⟩ : Handle).readHeader 64).exec s').1 = .ok (.block
        { kind := .data, headerSize := 32, blockSize := 64, firstRecord := 3, next := none }) := by
  have read : FileHeader.ofContent lone = .ok (FileHeader.fresh 64 5) := by decide +kernel
  have spelled : Header.decode (lone.toList.drop 0) = .ok (.file (FileHeader.fresh 64 5)) := by decide +kernel
  obtain ⟨f, opened, same, -⟩ := opened_alone read
  have chunk : f.header.chunkSize = 64 := by rw [same]; rfl
  obtain ⟨_, -, uneven, -⟩ := added_wholly_or_not opened.toSees (.data 96 1)
  obtain ⟨table, tableHeads, founded, -⟩ := added_wholly_or_not opened.toSees (.table 128 24)
  obtain ⟨data, dataHeads, -, linked⟩ := added_wholly_or_not opened.toSees (.data 64 3)
  refine ⟨_, f, opened.toSees, ?_, ?_, ?_⟩
  · obtain ⟨result, s', c', p, e, ran, left, gains, able, -⟩ := uneven
    cases result with
    | error fault => exact ⟨fault, s', c', ran, left.sees.content, gains⟩
    | ok block =>
      have checked := (able.mp rfl).checked
      rw [chunk] at checked
      exact absurd checked (by decide)
  · obtain ⟨result, s', c', p, e, ran, left, gains, able, shown⟩ := founded
    have takes : lone.Takes (.table 128 24) f.header.chunkSize :=
      ⟨by rw [chunk]; decide, by decide, by decide, by rw [chunk, size_lone]; decide, by rw [size_lone]; decide⟩
    cases result with
    | error fault => exact absurd (able.mpr takes) Bool.false_ne_true
    | ok block =>
      have there := shown block rfl
      rw [gains.1, size_lone] at there
      cases tableHeads with
      | plain kind => exact absurd kind (by decide)
      | table _ => exact ⟨block, s', ran, there⟩
      | file kind => exact absurd kind (by decide)
  · obtain ⟨result, s', c', p, e, ran, left, gains, able, shown⟩ := linked 0
    have takes : lone.Takes (.data 64 3) f.header.chunkSize :=
      ⟨by rw [chunk]; decide, by decide, by decide, by rw [chunk, size_lone]; decide, by rw [size_lone]; decide⟩
    have first := result_readHeader opened.toSees 0
    rw [Content.headerAt_eq_ok.mpr ⟨spelled, by decide⟩] at first
    cases result with
    | error fault => exact absurd (able.mpr ⟨takes, _, first, rfl⟩) Bool.false_ne_true
    | ok block =>
      obtain ⟨start, -, -, bytes⟩ := gains
      have there := (shown block rfl).1
      rw [size_lone] at start
      rw [start] at there
      cases dataHeads with
      | plain _ =>
        refine ⟨block, s', c', ran, left.sees.content, start, ?_, there⟩
        rw [← Content.length_toList, bytes]
        simp only [List.length_append, List.length_take, List.length_drop, BlockHeader.length_encodeLink,
          Content.length_toList, size_lone]
        decide
      | table kind => exact absurd kind (by decide)
      | file kind => exact absurd kind (by decide)

end Handle
end RecordFile
