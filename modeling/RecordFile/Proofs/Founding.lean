import Mathlib
import RecordFile.Proofs.Adding

/-! Adding a table to a file that may hold anything. It comes to the end of the file in the smallest block that
holds its header and one record. What is asked of the record size is asked in three places, before growth is locked
and after; together they come to one condition, and where that fails no byte changes. -/
namespace RecordFile

theorem BlockSpec.header_table (size recordSize chunkSize : UInt32) : (table size recordSize).header chunkSize =
    .table { recordSize,
             block := { kind := .table, headerSize := tableHeaderSize, blockSize := size, firstRecord := 1 } } := rfl

/-- A block of this size holds a record of the table that it heads. -/
theorem TableHeader.one_le_capacity {t : TableHeader} (some : t.recordSize ≠ 0)
    (header : t.block.headerSize = tableHeaderSize) (room : 40 + (t.recordSize.toNat + 1) ≤ t.block.blockSize.toNat) :
    ∃ count, t.capacity t.block = .ok count ∧ 1 ≤ count := by
  have width : t.slotSize = .ok (t.recordSize.toNat + presenceSize) := if_neg some
  refine ⟨t.block.slots (t.recordSize.toNat + presenceSize), ?_, ?_⟩
  · rw [capacity, width]
    rfl
  · rw [BlockHeader.slots, BlockHeader.payload, header]
    refine (Nat.le_div_iff_mul_le (Nat.succ_pos _)).mpr ?_
    show 1 * (t.recordSize.toNat + 1) ≤ t.block.blockSize.toNat - 40
    omega

namespace Handle

variable {h : Handle} {s : Store} {f : OpenFile} {c : Content}

section Growing

variable {spec : BlockSpec}

/-- Under the growth lock a block comes to the end of the file, if growth can be locked and the file takes it. -/
theorem exec_growing_append (sees : h.Sees s f c) (takes : c.Takes spec f.header.chunkSize)
    (free : h.Free s f .growth) :
    ∃ s' c' t, Action.exec (h.growing (m := StateM Store) (h.append spec)) s = (.ok (c.extentAfter spec.size), s') ∧
      h.Leaves s f c' t s' ∧ c'.toList = c.toList ++ (Layout.fresh spec f.header.chunkSize).bytes := by
  obtain ⟨s₁, holds, left₁⟩ := exec_hold sees Region.growth_fits.1 Region.growth_fits.2 free
  obtain ⟨s₂, c₂, ran₂, left₂, bytes⟩ :=
    exec_append_free left₁.sees rfl takes.checked ((Content.takes_iff takes.checked).mp takes)
  obtain ⟨s₃, ran₃, left₃⟩ := exec_growing sees holds left₁ ran₂ left₂ rfl rfl fun _ failed => by cases failed
  exact ⟨s₃, c₂, _, ran₃, left₃, bytes⟩

theorem exec_growing_append_unable (sees : h.Sees s f c)
    (refused : ¬ (c.Takes spec f.header.chunkSize ∧ h.Free s f .growth)) :
    ∃ fault s' p e t, Action.exec (h.growing (m := StateM Store) (h.append spec)) s = (.error fault, s') ∧
      h.Leaves s { f with position := p, lastErrno := e } c t s' := by
  by_cases free : h.Free s f .growth
  · obtain ⟨s₁, holds, left₁⟩ := exec_hold sees Region.growth_fits.1 Region.growth_fits.2 free
    obtain ⟨fault, s₂, ran₂, ⟨p, e, left₂⟩, final⟩ :=
      exec_append_stopped left₁.sees fun takes => refused ⟨takes, free⟩
    obtain ⟨s₃, ran₃, left₃⟩ := exec_growing sees holds left₁ ran₂ left₂ rfl rfl
      fun _ failed => Except.error.inj failed ▸ final
    exact ⟨fault, s₃, p, e, _, ran₃, left₃⟩
  · obtain ⟨fault, ran, -⟩ := exec_growing_refused sees free (h.append spec)
    exact ⟨fault, s, f.position, f.lastErrno, _, ran, sees.leaves⟩

end Growing

section Founding

variable {recordSize : UInt32}

/-- The file takes a new table whose block has this size. -/
structure Founds (h : Handle) (s : Store) (f : OpenFile) (c : Content) (recordSize : UInt32) (size : Nat) : Prop where
  least : 1 ≤ recordSize.toNat
  signed : recordSize.toNat ≤ 2 ^ 31 - 1
  word : size < 2 ^ 32
  even : f.header.chunkSize.toNat ∣ c.size
  free : h.Free s f ⟨40, 8⟩
  room : c.size + size ≤ maxOffset

theorem founds_iff (positive : 0 < f.header.chunkSize.toNat) {size : UInt32}
    (whole : size.toNat = roundUp (40 + (recordSize.toNat + 1)) f.header.chunkSize.toNat) :
    h.Founds s f c recordSize size.toNat ↔
      recordSize ≠ 0 ∧ c.Takes (.table size recordSize) f.header.chunkSize ∧ h.Free s f .growth := by
  have some : recordSize ≠ 0 ↔ 1 ≤ recordSize.toNat := by
    rw [Nat.one_le_iff_ne_zero, not_iff_not]
    exact ⟨fun zero => by rw [zero]; rfl, fun zero => UInt32.toNat_inj.mp zero⟩
  have checked := BlockSpec.check_table positive whole
  constructor
  · intro founds
    have signed := founds.signed
    have takes := Content.takes_of_checked (checked.mpr (by omega)) founds.even founds.room
    exact ⟨some.mpr founds.least, takes, founds.free⟩
  · rintro ⟨nonzero, takes, free⟩
    have signed := checked.mp takes.checked
    exact ⟨some.mp nonzero, by omega, size.toNat_lt, takes.even, free, takes.room⟩

/-- Where no table can come the file stays as it is. -/
theorem exec_addTable_unable (sees : h.Sees s f c) (positive : 0 < f.header.chunkSize.toNat)
    (refused : ¬ h.Founds s f c recordSize (roundUp (40 + (recordSize.toNat + 1)) f.header.chunkSize.toNat)) :
    ∃ fault s' p e t, (h.addTable recordSize).exec s = (.error fault, s') ∧
      h.Leaves s { f with position := p, lastErrno := e } c t s' := by
  rcases exec_addTable_cases sees recordSize with ⟨-, fault, ran⟩ | ⟨size, some, whole, same⟩
  · exact ⟨fault, s, f.position, f.lastErrno, _, ran, sees.leaves⟩
  · rw [← whole, founds_iff positive whole] at refused
    rw [same]
    exact exec_growing_append_unable sees fun able => refused ⟨some, able⟩

/-- What there is of a new table: its block at the old end of the file, whose header reads back. -/
structure Founded (h : Handle) (c c' : Content) (s' : Store) (recordSize : UInt32) (size : Nat) (block : Extent) :
    Prop where
  start : block.start = c.size
  sized : block.size.toNat = size
  kept : c'.toList.take c.size = c.toList
  grown : c'.size = c.size + size
  read : ∃ table count, ((h.readTable block.start).exec s').1 = .ok table ∧ table.recordSize = recordSize ∧
    table.lastRecord = 0 ∧ table.block.firstRecord = 1 ∧ table.block.next = none ∧
    table.block.blockSize.toNat = size ∧ table.capacity table.block = .ok count ∧ 1 ≤ count

theorem exec_addTable_founds (sees : h.Sees s f c) (positive : 0 < f.header.chunkSize.toNat)
    (founds : h.Founds s f c recordSize (roundUp (40 + (recordSize.toNat + 1)) f.header.chunkSize.toNat)) :
    ∃ block s' c' t, (h.addTable recordSize).exec s = (.ok block, s') ∧ h.Leaves s f c' t s' ∧
      h.Founded c c' s' recordSize (roundUp (40 + (recordSize.toNat + 1)) f.header.chunkSize.toNat) block := by
  rcases exec_addTable_cases sees recordSize with ⟨zero | large, -⟩ | ⟨size, some, whole, same⟩
  · exact absurd founds.least (by rw [zero]; decide)
  · exact absurd founds.word (Nat.not_lt_of_le large)
  rw [← whole] at founds ⊢
  obtain ⟨-, takes, free⟩ := (founds_iff positive whole).mp founds
  obtain ⟨s', c', t, ran, left, bytes⟩ := exec_growing_append sees takes free
  have length := Content.length_toList c
  have shows := Content.Shows.added takes.checked (length ▸ takes.room) bytes
  rw [length, BlockSpec.header_table] at shows
  obtain ⟨start, sized⟩ := takes.extent
  refine ⟨_, s', c', t, same.trans ran, left, start, sized, ?_, ?_, ?_⟩
  · rw [bytes, List.take_left' length]
  · have block := Layout.size_fresh takes.checked
    rw [← Content.length_toList, bytes, List.length_append, length, ← Block.size, block]
    rfl
  · have room : 40 + (recordSize.toNat + 1) ≤ size.toNat := whole ▸ le_roundUp positive
    obtain ⟨count, holds, one⟩ := TableHeader.one_le_capacity (t := { recordSize, block := {
      kind := .table, headerSize := tableHeaderSize, blockSize := size, firstRecord := 1 } }) some rfl room
    refine ⟨_, count, ?_, rfl, rfl, rfl, rfl, rfl, holds, one⟩
    rw [result_readTable left.sees, start, Content.headerAt_eq_ok.mpr shows]
    rfl

/-- A table can be added just where its record size can be stored, its block is small enough and comes to a chunk
boundary, and nobody holds what growth locks. It is there then, empty, with room for a record. Where it cannot be
added no byte changes. -/
theorem addTable_exact (opened : h.Opened s f c) (recordSize : UInt32) :
    ∃ size result s' c' p e t,
      IsLeast {n | f.header.chunkSize.toNat ∣ n ∧ 40 + (recordSize.toNat + 1) ≤ n} size ∧
      (h.addTable recordSize).exec s = (result, s') ∧
      h.Leaves s { f with position := p, lastErrno := e } c' t s' ∧
      (result.isOk ↔ h.Founds s f c recordSize size) ∧
      (∀ fault, result = .error fault → c' = c) ∧
      ∀ block, result = .ok block → h.Founded c c' s' recordSize size block := by
  have positive := opened.chunk_pos
  refine ⟨roundUp (40 + (recordSize.toNat + 1)) f.header.chunkSize.toNat, ?_⟩
  by_cases founds : h.Founds s f c recordSize (roundUp (40 + (recordSize.toNat + 1)) f.header.chunkSize.toNat)
  · obtain ⟨block, s', c', t, ran, left, founded⟩ := exec_addTable_founds opened.toSees positive founds
    refine ⟨.ok block, s', c', f.position, f.lastErrno, t, isLeast_roundUp positive, ran, left,
      iff_of_true rfl founds, nofun, ?_⟩
    intro _ same
    cases same
    exact founded
  · obtain ⟨fault, s', p, e, t, ran, left⟩ := exec_addTable_unable opened.toSees positive founds
    exact ⟨.error fault, s', c, p, e, t, isLeast_roundUp positive, ran, left,
      iff_of_false Bool.false_ne_true founds, fun _ _ => rfl, nofun⟩

/-- A table of records of 24 bytes comes after the lone one in two chunks; the largest record sizes are refused. -/
theorem addTable_exact_lone : ∃ s f, (⟨0⟩ : Handle).Opened s f lone ∧
    (∃ block s' c', ((⟨0⟩ : Handle).addTable 24).exec s = (.ok block, s') ∧ s'.content? f.location = some c' ∧
      block.start = 64 ∧ c'.size = 192) ∧
    ∃ fault s', ((⟨0⟩ : Handle).addTable 0x80000000).exec s = (.error fault, s') ∧
      s'.content? f.location = some lone := by
  have read : FileHeader.ofContent lone = .ok (FileHeader.fresh 64 5) := by decide +kernel
  obtain ⟨f, opened, same, free⟩ := opened_alone read
  have chunk : f.header.chunkSize.toNat = 64 := by
    rw [same]
    rfl
  refine ⟨_, f, opened, ?_, ?_⟩
  · obtain ⟨size, result, s', c', p, e, t, least, ran, left, able, -, founded⟩ := addTable_exact opened 24
    rw [chunk] at least
    obtain rfl : size = 128 := least.unique (isLeast_roundUp (by decide : 0 < 64))
    have founds : (⟨0⟩ : Handle).Founds _ f lone 24 128 :=
      ⟨by decide, by decide, by decide, by rw [chunk, size_lone], free _, by rw [size_lone]; decide⟩
    cases result with
    | error fault => exact absurd (able.mpr founds) Bool.false_ne_true
    | ok block =>
      obtain ⟨start, -, -, grown, -⟩ := founded block rfl
      rw [size_lone] at start grown
      exact ⟨block, s', c', ran, left.sees.content, start, grown⟩
  · obtain ⟨size, result, s', c', p, e, t, -, ran, left, able, kept, -⟩ := addTable_exact opened 0x80000000
    cases result with
    | error fault => exact ⟨fault, s', ran, kept fault rfl ▸ left.sees.content⟩
    | ok block => exact absurd (able.mp rfl).signed (by decide)

end Founding

end Handle
end RecordFile
