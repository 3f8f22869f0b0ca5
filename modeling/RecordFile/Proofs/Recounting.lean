import Mathlib
import RecordFile.Proofs.Bytewise
import RecordFile.Proofs.Committing
import RecordFile.Proofs.Opened

/-! The counts that a commit writes. They are written as they are and read as signed words, so what a body leaves
there can be read again only if it is small enough. -/
namespace RecordFile

/-- The body of a reservation that looks up records of the table, leaves these counts in the header that it was
lent, and commits. -/
def Handle.recounting (h : Handle) (head : Nat) (lookups : TableHeader → Slot → Lookups)
    (counts : TableHeader → Slot → UInt32 × UInt32) (table : TableHeader) (slot : Slot) :
    Action (Outcome (UInt32 × UInt32) × TableHeader) := do
  (lookups table slot).run h head table
  let (recordSize, lastRecord) := counts table slot
  return (.commit (recordSize, lastRecord), { table with recordSize, lastRecord })

theorem Handle.exec_recounting {h : Handle} {head : Nat} {lookups : TableHeader → Slot → Lookups}
    {counts : TableHeader → Slot → UInt32 × UInt32} {lent : TableHeader} {slot : Slot} {s s' : Store}
    (ran : ((lookups lent slot).run h head lent).exec s = (.ok (), s')) :
    (h.recounting head lookups counts lent slot).exec s = (.ok (.commit (counts lent slot),
      { lent with recordSize := (counts lent slot).1, lastRecord := (counts lent slot).2 }), s') := by
  rw [recounting, Action.exec_bind_ok ran, Action.exec_pure]

namespace Header

variable {header : Header} {table : TableHeader}

theorem announcedSize_recounted (wf : header.WellFormed) (recordSize lastRecord : UInt32) (rest : List UInt8) :
    announcedSize ((header.mapTable fun t => { t with recordSize, lastRecord }).encode ++ rest) =
      .ok header.size := by
  have same : (header.mapTable fun t => { t with recordSize, lastRecord }).blockPart = header.blockPart := by
    cases header <;> rfl
  have sized : (header.mapTable fun t => { t with recordSize, lastRecord }).size = header.size :=
    congrArg BlockHeader.headerSize same
  rw [← sized]
  refine announcedSize_encode_of ?_ rest
  rw [sized, same]
  exact size_mem_storedSizes wf

/-- A header whose counts were changed reads back as far as the counts do. -/
theorem decode_recounted (wf : header.WellFormed) (part : header.tablePart? = some table)
    (recordSize lastRecord : UInt32) (rest : List UInt8) :
    decode ((header.mapTable fun t => { t with recordSize, lastRecord }).encode ++ rest) =
      ({ table with recordSize, lastRecord } : TableHeader).reread.map fun t => header.mapTable fun _ => t := by
  rw [decode, announcedSize_recounted wf]
  cases header with
  | block b => cases part
  | table t =>
    cases part
    have head : table.block.kind.isTableHead = true := by rw [wf.1]; rfl
    have read := TableHeader.decode_encode_reread
      (t := { table with recordSize, lastRecord }) wf.2.2.block head rest
    cases reread : TableHeader.reread { table with recordSize, lastRecord } <;>
      simp [size, blockPart, wf.2.1, mapTable, encode, read, reread, bind, Except.bind, pure, Except.pure,
        Except.map, tableHeaderSize, blockHeaderSize]
  | file f =>
    cases part
    have read := FileHeader.decode_encode_reread
      (f := { f with table := { f.table with recordSize, lastRecord } }) wf.2.2.block wf.1 rest
    cases reread : TableHeader.reread { f.table with recordSize, lastRecord } <;>
      simp [size, blockPart, wf.2.1, mapTable, encode, read, reread, bind, Except.bind, pure, Except.pure,
        Except.map, tableHeaderSize, blockHeaderSize, fileHeaderSize]

end Header

namespace Handle

variable {h : Handle} {s : Store} {f : OpenFile} {c : Content} {L : Layout} {settings : Settings} {o : Nat}
  {b b' : Block} {table : TableHeader}

/-- What is read after a header was written, with other counts, to a block that was linked to a next one since
it was read. -/
theorem headerAt_recounted (laid : c.LaidOut L) (proper : L.Proper settings) (found : L.at? o = some b')
    (linked : b' = b ∨ ∃ e, b' = b.setNext e) (wf : b.header.WellFormed)
    (part : b.header.tablePart? = some table) (recordSize lastRecord : UInt32) :
    (c.write o ({ table with recordSize, lastRecord } : TableHeader).encodeVector.toList).headerAt o =
      (({ table with recordSize, lastRecord } : TableHeader).reread.map fun t =>
        b.header.mapTable fun _ => t).mapError .corruptHeader := by
  -- The link is written too, so the block is as it was when its header was read, but for the counts.
  let edited : Block := { b with header := b.header.mapTable fun t => { t with recordSize, lastRecord } }
  obtain ⟨size, past⟩ := Block.past_linked linked
  have bytes := Block.bytes_mapTable part fun t => { t with recordSize, lastRecord }
  have long := Block.length_encode_table part
  have least := b.size_eq
  have same : edited.size = b'.size := by
    have whole := congrArg List.length bytes
    simp only [List.take_zero, List.nil_append, List.length_append, TableHeader.length_encode,
      List.length_drop] at whole
    change edited.size = 40 + (b.size - (0 + 40)) at whole
    omega
  have written : (c.write o ({ table with recordSize, lastRecord } : TableHeader).encodeVector.toList).toList =
      (L.edit (fun _ => edited) o).bytes := by
    have length : (({ table with recordSize, lastRecord } : TableHeader).encodeVector.toList).length = 40 :=
      Vector.length_toList
    show (c.write (o + 0) _).toList = _
    refine laid.toList_write found ?_ ?_
    · rw [length]
      omega
    · rw [length, Nat.zero_add, past]
      exact bytes
  have whole : (c.write o ({ table with recordSize, lastRecord } : TableHeader).encodeVector.toList).size =
      L.size := by
    rw [← Content.length_toList, written]
    refine Layout.size_edit fun x there => ?_
    rw [found] at there
    cases there
    exact same
  have fits := Layout.at?_le found
  have small := proper.small
  have enough := Header.length_encode wf
  obtain ⟨before, after, rfl, -, edit⟩ := Layout.bytes_split found
  have tail := congrArg (List.drop before.length) written
  rw [edit, List.append_assoc, List.drop_left, Block.bytes, List.append_assoc] at tail
  have announced := Header.announcedSize_recounted wf recordSize lastRecord (b.payload ++ after)
  rw [Content.headerAt_of_announced (tail ▸ announced) (by omega) (by omega), tail]
  exact congrArg _ (Header.decode_recounted wf part recordSize lastRecord (b.payload ++ after))

theorem readTable_of_reread (sees : h.Sees s f c) (part : b.header.tablePart? = some table) {edited : TableHeader}
    (read : c.headerAt o = (edited.reread.map fun t => b.header.mapTable fun _ => t).mapError .corruptHeader) :
    ((h.readTable o).exec s).1 = edited.reread.mapError .corruptHeader := by
  rw [result_readTable sees, read]
  cases edited.reread with
  | error defect => rfl
  | ok t =>
    simp only [Except.map, Except.mapError, bind, Except.bind, Header.tablePart?_mapTable, part, Option.map_some]

end Handle

namespace History

variable {t : History} {L : Layout} {h : Handle} {head : Nat} {b : Block}

theorem Sound.sees_after (sound : t.Sound L) (mem : h ∈ t.handles) {h' : Handle} {f : OpenFile} {c : Content}
    {T : LockTable} {s : Store} (left : h'.Leaves t.store f c T s) (place : f.location = t.location) :
    ∃ f', h.Sees s f' c := by
  obtain ⟨f', opened, place', -, position⟩ := Tracked.handles sound h mem
  by_cases same : h.descriptor = h'.descriptor
  · exact ⟨f, same ▸ left.sees.opened, left.sees.content, left.sees.position⟩
  · refine ⟨f', (left.others _ same).trans opened, ?_, position⟩
    rw [place', ← place]
    exact left.sees.content

/-- What is read of a table, by any handle, after a commit left these counts in its head. -/
structure Recounted (t : History) (head : Nat) (recordSize lastRecord : UInt32) (after : Store) : Prop where
  small : recordSize.toNat < 2 ^ 31 → lastRecord.toNat < 2 ^ 31 → ∀ h ∈ t.handles, ∃ table,
    ((h.readTable head).exec after).1 = .ok table ∧ table.recordSize = recordSize ∧ table.lastRecord = lastRecord
  large : 2 ^ 31 ≤ recordSize.toNat → ∀ h ∈ t.handles, ((h.readTable head).exec after).1 =
    .error (.corruptHeader (.negativeRecordSize (recordSize.toNat - 2 ^ 32)))
  largeLast : recordSize.toNat < 2 ^ 31 → 2 ^ 31 ≤ lastRecord.toNat → ∀ h ∈ t.handles,
    ((h.readTable head).exec after).1 = .error (.corruptHeader (.negativeLastRecord (lastRecord.toNat - 2 ^ 32)))

/-- The counts that a commit leaves are read back if both are less than `2 ^ 31`. If not, the table cannot be read
any more, though the commit succeeded. -/
theorem run_recounted (run : Run Loose t) (mem : h ∈ t.handles) (laid : t.LaidOut L) (found : L.at? head = some b)
    (lookups : TableHeader → Slot → Lookups) (counts : TableHeader → Slot → UInt32 × UInt32)
    {recordSize lastRecord : UInt32} {after : Store}
    (ran : Action.exec (h.reserveWith (m := StateM Store) head (h.recounting head lookups counts)) t.store =
      (.ok (recordSize, lastRecord), after)) :
    t.Recounted head recordSize lastRecord after := by
  obtain ⟨K, sound⟩ := run.sound
  obtain rfl := sound.unique laid
  obtain ⟨f, c, sees, laid', place, chunk⟩ := sound.sees mem
  obtain ⟨fresh, slot, s₁, p, c₁, T, M, b', -, left₁, laid₁, proper₁, found₁, part₁, ends⟩ :=
    Handle.exec_reserveWith_ok sees laid' sound.proper chunk found ran
  obtain ⟨s₂, p₂, e, c₂, T₂, N, ran₂, left₂, laid₂, proper₂, extended⟩ :=
    (lookups fresh slot).exec_run left₁.sees laid₁ proper₁ chunk found₁
  obtain ⟨told, left₃⟩ := ends (Handle.exec_recounting ran₂) left₂.sees rfl
  have counted : counts fresh slot = (recordSize, lastRecord) := Except.ok.inj told
  rw [counted] at left₃
  obtain ⟨b'', found₂, linked⟩ := extended head b' found₁
  have read {h : Handle} (mem : h ∈ t.handles) : ((h.readTable head).exec after).1 =
      ({ fresh with recordSize, lastRecord } : TableHeader).reread.mapError .corruptHeader := by
    obtain ⟨f', sees'⟩ := sound.sees_after mem ((left₁.trans left₂ rfl).trans left₃ rfl) place
    exact Handle.readTable_of_reread sees' part₁ (Handle.headerAt_recounted laid₂ proper₂ found₂
      (linked.imp id And.right) (laid₁.sound.at? found₁).wellFormed part₁ recordSize lastRecord)
  constructor
  · intro small small' h mem
    refine ⟨{ fresh with recordSize, lastRecord }, ?_, rfl, rfl⟩
    rw [read mem, TableHeader.reread, if_neg (Nat.not_le_of_lt small), if_neg (Nat.not_le_of_lt small')]
    rfl
  · intro large h mem
    rw [read mem, TableHeader.reread, if_pos large]
    rfl
  · intro small large h mem
    rw [read mem, TableHeader.reread, if_neg (Nat.not_le_of_lt small), if_pos large]
    rfl

/-- The record size of a table and a last number that is too large for a signed word. -/
def tooMany (table : TableHeader) (_ : Slot) : UInt32 × UInt32 := (table.recordSize, 0x80000000)

theorem run_recounted_third : ∃ L b after, sample.LaidOut L ∧ L.at? 0 = some b ∧
    Action.exec (Handle.reserveWith (m := StateM Store) ⟨0⟩ 0 (Handle.recounting ⟨0⟩ 0 third tooMany)) sample.store =
      (.ok (5, 0x80000000), after) ∧ sample.Recounted 0 5 0x80000000 after := by
  obtain ⟨L, b, laid, found⟩ := (run_sample Loose).first
  have told : (Action.exec (Handle.reserveWith (m := StateM Store) ⟨0⟩ 0 (Handle.recounting ⟨0⟩ 0 third tooMany))
      sample.store).1 = .ok (5, 0x80000000) := by decide +kernel
  rcases ran : Action.exec (Handle.reserveWith (m := StateM Store) ⟨0⟩ 0 (Handle.recounting ⟨0⟩ 0 third tooMany))
    sample.store with ⟨result, after⟩
  rw [ran] at told
  obtain rfl : result = .ok (5, 0x80000000) := told
  exact ⟨L, b, after, laid, found, rfl, run_recounted (run_sample Loose) (by simp) laid found third tooMany ran⟩

/-- The commit succeeds, and leaves a table that cannot be read. -/
theorem commit_unreadable :
    let ran := Action.exec (Handle.reserveWith (m := StateM Store) ⟨0⟩ 0
      (Handle.recounting ⟨0⟩ 0 (fun _ _ => .done) tooMany)) sample.store
    ran.1 = .ok (5, 0x80000000) ∧ (((⟨0⟩ : Handle).readTable 0).exec ran.2).1 =
      .error (.corruptHeader (.negativeLastRecord (-0x80000000))) := by
  decide +kernel

end History
end RecordFile
