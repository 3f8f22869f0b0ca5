import Mathlib
import RecordFile.Proofs.Ledger

/-! How the tables of a file count their records over a run. Every block says right which record it
starts with, so looking for a record of a table finds nothing wrong with its chain. -/
namespace RecordFile

namespace Room

variable {slotSize start : Nat} {rooms : List Room}

theorem Numbered.isChain (numbered : Numbered slotSize start rooms) :
    rooms.IsChain fun r r' => r'.first = r.first + r.bytes / slotSize := by
  induction rooms generalizing start with
  | nil => exact .nil
  | cons r rest ih =>
    obtain ⟨first, -, later⟩ := numbered
    cases rest with
    | nil => exact .singleton r
    | cons r' rest =>
      have next : r'.first = start + r.bytes / slotSize := later.1
      exact .cons_cons (first ▸ next) (ih later)

theorem Numbered.pos (numbered : Numbered slotSize start rooms) : ∀ r ∈ rooms, 0 < r.bytes / slotSize := by
  induction rooms generalizing start with
  | nil => exact nofun
  | cons r rest ih =>
    obtain ⟨-, some, later⟩ := numbered
    exact List.forall_mem_cons.mpr ⟨some, ih later⟩

end Room

namespace History

variable {t : History} {L : Layout} {h : Handle}

/-- Looking for a record of a table finds nothing wrong with its chain. -/
theorem Kept.locate_sound (kept : t.Kept L) {head : Nat} {blocks : List (Nat × Header)}
    {table known : TableHeader}
    (ledger : Ledger t.settings.chunkSize t.headers t.given L head blocks table)
    (same : known.recordSize = table.recordSize) {s store : Store} {f : OpenFile} {c : Content}
    (sees : h.Sees s f c) (laid : c.LaidOut L) (chunk : f.header.chunkSize = t.settings.chunkSize)
    {record : UInt32} {fault : Fault}
    (failed : (h.locate head known record).exec s = (.error fault, store)) : fault.isStructural = false := by
  have width := TableHeader.width_congr same
  rcases Handle.exec_locate sees laid kept.sound.proper chunk ledger.chained.chain known record with
    ⟨slotSize, offset, M, s', p, c', T, -, -, -, ran, -⟩ | ⟨fault', s', p, e, T, ran, -, wrong⟩
  · rw [failed] at ran
    cases ran
  · rw [failed] at ran
    cases ran
    by_contra structural
    obtain ⟨positive, slotSize, slots, place⟩ := wrong (by simpa using structural)
    have some := one_le_record positive
    obtain ⟨-, rfl⟩ := TableHeader.eq_width slots
    rw [width] at place
    rcases ledger.chained.place some with ⟨offset, -, right⟩ | ⟨-, tail, right⟩
    · rw [place] at right
      cases right
    · rw [place] at right
      cases right

/-- What the numbering of records comes to for those who use the tables. -/
structure Counted (t : History) (c : Content) (L : Layout) : Prop where
  content : t.store.content? t.location = some c
  laid : c.LaidOut L
  tables : ∀ head ∈ t.heads, ∃ b rest table, L.at? head = some b ∧ L.table? head = some table ∧
    table.slotSize = .ok table.width ∧ L.Chain head ((head, b.header) :: rest) ∧
    b.header.blockPart.firstRecord = 1 ∧
    (∀ block ∈ rest, block.2.blockPart.kind = .data) ∧
    (∀ block ∈ (head, b.header) :: rest, 1 ≤ block.2.blockPart.slots table.width) ∧
    ((head, b.header) :: rest).IsChain (fun block next => next.2.blockPart.firstRecord.toNat =
      block.2.blockPart.firstRecord.toNat + block.2.blockPart.slots table.width) ∧
    table.lastRecord.toNat ≤
      (((head, b.header) :: rest).map fun block => block.2.blockPart.slots table.width).sum
  /-- No record makes the search through a table fail for what it finds in the file. -/
  sound : ∀ h ∈ t.handles, ∀ head ∈ t.heads, ∃ table store,
    (h.readTable head).exec t.store = (.ok table, store) ∧ ∀ record fault store',
      (h.locate head table record).exec store = (.error fault, store') → fault.isStructural = false
  /-- Nor does it if the header was read before. -/
  recalled : ∀ h ∈ t.handles, ∀ head table, (head, table) ∈ t.headers → ∀ record fault store,
    (h.locate head table record).exec t.store = (.error fault, store) → fault.isStructural = false

theorem Kept.counted (kept : t.Kept L) : ∃ c, t.Counted c L := by
  obtain ⟨c, content, laid⟩ := kept.sound.content
  refine ⟨c, content, laid, fun head mem => ?_, fun h opened head mem => ?_,
    fun h opened head known read record fault store failed => ?_⟩
  · obtain ⟨blocks, table, ledger⟩ := kept.ledgers head mem
    obtain ⟨b, rest, found, rfl⟩ := ledger.chained.chain.head_eq
    have numbered := ledger.chained.numbered
    have first : b.header.blockPart.firstRecord = 1 := UInt64.toNat_inj.mp numbered.1
    refine ⟨b, rest, table, found, ledger.chained.table?_head, TableHeader.slotSize_eq ledger.chained.sized,
      ledger.chained.chain, first, ledger.chained.data, ?_, ?_, ?_⟩
    · intro block mem
      exact numbered.pos _ (List.mem_map_of_mem mem)
    · exact (List.isChain_map Room.ofBlock).mp numbered.isChain
    · have last := ledger.chained.last
      rw [Room.capacity, List.map_map] at last
      exact last
  · obtain ⟨f, c', sees, laid', -, chunk⟩ := Tracked.sees kept.sound opened
    obtain ⟨blocks, table, ledger⟩ := kept.ledgers head mem
    obtain ⟨b, found, part, -⟩ := ledger.chained.at?_head
    obtain ⟨s₁, p, ran, left⟩ := Handle.exec_readTable sees laid' kept.sound.proper.small found part
    exact ⟨table, s₁, ran, fun record fault store' failed =>
      kept.locate_sound ledger rfl left.sees laid' chunk failed⟩
  · obtain ⟨f, c', sees, laid', -, chunk⟩ := Tracked.sees kept.sound opened
    obtain ⟨blocks, table, ledger⟩ := kept.ledgers head (kept.headers head known read)
    exact kept.locate_sound ledger (ledger.headers known read) sees laid' chunk failed

/-- Over any run the tables count their records without a gap. -/
theorem run_counted (run : Run Orderly t) : ∃ c L, t.Counted c L := by
  obtain ⟨L, kept⟩ := run.kept
  obtain ⟨c, counted⟩ := kept.counted
  exact ⟨c, L, counted⟩

theorem run_counted_sample :
    ((sample.ask ⟨0⟩ (.readTable 0)).ask ⟨0⟩ (.locate 0 (FileHeader.fresh 64 5).table 9)).headers =
        [(0, (FileHeader.fresh 64 5).table)] ∧
      ∃ c L, ((sample.ask ⟨0⟩ (.readTable 0)).ask ⟨0⟩
        (.locate 0 (FileHeader.fresh 64 5).table 9)).Counted c L :=
  ⟨by decide +kernel,
    run_counted (.asked (.asked (run_sample Orderly) (by simp) (.readTable (by simp)))
      (by simp) (.locate 9 (by decide +kernel)))⟩

end History
end RecordFile
