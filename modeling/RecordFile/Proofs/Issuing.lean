import Mathlib
import RecordFile.Proofs.Ledger

/-! The numbers given out over a run. They count up from 1 in every table, whoever asks, and as long as
there are numbers left nothing but a lock of somebody else keeps the next from being given out. -/
namespace RecordFile

/-- The stores differ at most in that the owner has let go of bytes of the region. -/
structure Store.SameBut (s s' : Store) (owner : Nat) (r : Region) : Prop where
  contents : ∀ location, s'.content? location = s.content? location
  opened : ∀ descriptor, s'.openFile? descriptor = s.openFile? descriptor
  directories : s'.directories = s.directories
  locks : ∀ other byte, s'.locks.Owns other byte ↔
    s.locks.Owns other byte ∧ (other = owner → byte ∉ r)

namespace Handle

variable {h : Handle} {s s' : Store} {f : OpenFile} {c : Content}

theorem Sees.sameBut (sees : h.Sees s f c) {r : Region} {file : Location}
    (left : h.Leaves s f c ((s.locks.add h.descriptor file r).remove h.descriptor r) s') :
    s.SameBut s' h.descriptor r where
  contents location := by
    by_cases here : location = f.location
    · rw [here, left.sees.content, sees.content]
    · exact left.files location here
  opened descriptor := by
    by_cases here : descriptor = h.descriptor
    · rw [here, left.sees.opened, sees.opened]
    · exact left.others descriptor here
  directories := left.directories
  locks other byte := by
    rw [left.locks, LockTable.owns_remove, LockTable.owns_add]
    constructor
    · rintro ⟨⟨rfl, inside⟩ | owns, outside⟩
      · exact absurd inside (outside rfl)
      · exact ⟨owns, outside⟩
    · rintro ⟨owns, outside⟩
      exact ⟨.inr owns, outside⟩

end Handle

theorem TableHeader.nextRecord_of_lt {table : TableHeader} (more : table.lastRecord.toNat < 2 ^ 31 - 1) :
    ∃ record, table.nextRecord = .ok record := by
  rw [nextRecord, if_neg (by omega)]
  exact ⟨_, rfl⟩

theorem TableHeader.nextRecord_of_le {table : TableHeader} (out : 2 ^ 31 - 1 ≤ table.lastRecord.toNat) :
    table.nextRecord = .error (.recordOverflow (table.lastRecord.toNat + 1)) := by
  rw [nextRecord, if_pos (by omega)]

namespace History

variable {t : History} {L : Layout} {h : Handle}

/-- Where there is a number left, and room, and the locks are free, the next number is given out. -/
theorem Kept.reserve_next (kept : t.Kept L) (handle : h ∈ t.handles) {head : Nat}
    {blocks : List (Nat × Header)} {table : TableHeader}
    (ledger : Ledger t.settings.chunkSize t.headers t.given L head blocks table) {f : OpenFile}
    (opened : t.store.openFile? h.descriptor = some f) (free : h.Free t.store f (.head head))
    (growth : h.Free t.store f .growth) (more : table.lastRecord.toNat < 2 ^ 31 - 1)
    (room : L.size + roundUp (32 + table.width) t.settings.chunkSize.toNat ≤ maxOffset) :
    ∃ record offset store M b table', (h.reserve head).exec t.store = (.ok { record, offset }, store) ∧
      record.toNat = table.lastRecord.toNat + 1 ∧ Sound { t with store } M ∧ M.at? head = some b ∧
      b.header.tablePart? = some table' ∧ table'.lastRecord = record := by
  obtain ⟨f', c, sees, laid, place, chunk⟩ := Tracked.sees kept.sound handle
  rw [sees.opened] at opened
  cases opened
  have proper := kept.sound.proper
  have chain := ledger.chained.chain
  obtain ⟨b, found, part, -⟩ := ledger.chained.at?_head
  obtain ⟨record, next⟩ := TableHeader.nextRecord_of_lt more
  obtain ⟨number, -⟩ := Handle.nextRecord_ok next
  obtain ⟨offset, M, serves⟩ := ledger.chained.serves_next room
  rw [← number] at serves
  obtain ⟨store, c', T, b', table', ran, left, laid', proper', found', part'⟩ :=
    Handle.exec_reserve_served sees laid proper found free chunk part chain next
      (TableHeader.slotSize_eq ledger.chained.sized) serves growth
  exact ⟨record, offset, store, _, _, _, ran, number,
    Tracked.step kept.sound left place chunk laid' (proper'.setLast record head),
    Layout.at?_setLast record found', Layout.tablePart?_setLast record part', rfl⟩

/-- What the numbering of records comes to for those who give out numbers. -/
structure Issued (t : History) (c : Content) (L : Layout) : Prop where
  content : t.store.content? t.location = some c
  laid : c.LaidOut L
  /-- The numbers given out of a table count up from 1 to its last record number. -/
  counted : ∀ head ∈ t.heads, ∃ table, L.table? head = some table ∧
    ((t.given.reverse.filter fun entry => entry.1 = head).map fun entry => entry.2.record.toNat) =
      List.range' 1 table.lastRecord.toNat
  /-- While there are numbers left, every handle gets the next, which then is the last for all. -/
  granted : ∀ h ∈ t.handles, ∀ head ∈ t.heads, ∀ table f, L.table? head = some table →
    t.store.openFile? h.descriptor = some f → h.Free t.store f (.head head) →
    h.Free t.store f .growth →
    c.size + roundUp (32 + table.width) t.settings.chunkSize.toNat ≤ maxOffset →
    table.lastRecord.toNat < 2 ^ 31 - 1 →
    ∃ slot store, (h.reserve head).exec t.store = (.ok slot, store) ∧
      slot.record.toNat = table.lastRecord.toNat + 1 ∧
      ∀ h' ∈ t.handles, ∃ table' store', (h'.readTable head).exec store = (.ok table', store') ∧
        table'.lastRecord = slot.record
  /-- When they are used up, it is told so and nothing changes. -/
  refused : ∀ h ∈ t.handles, ∀ head ∈ t.heads, ∀ table f, L.table? head = some table →
    t.store.openFile? h.descriptor = some f → h.Free t.store f (.head head) →
    2 ^ 31 - 1 ≤ table.lastRecord.toNat →
    ∃ store, (h.reserve head).exec t.store =
        (.error (.recordOverflow (table.lastRecord.toNat + 1)), store) ∧
      t.store.SameBut store h.descriptor (.head head)

theorem Kept.issued (kept : t.Kept L) : ∃ c, t.Issued c L := by
  obtain ⟨c, content, laid⟩ := kept.sound.content
  refine ⟨c, content, laid, fun head mem => ?_, fun h handle head mem table f known opened free growth
    room more => ?_, fun h handle head mem table f known opened free out => ?_⟩
  · obtain ⟨blocks, table, ledger⟩ := kept.ledgers head mem
    refine ⟨table, ledger.chained.table?_head, ?_⟩
    rw [List.filter_reverse, List.map_reverse, ledger.numbers, List.reverse_reverse]
  · obtain ⟨blocks, table', ledger⟩ := kept.ledgers head mem
    rw [ledger.chained.table?_head] at known
    cases known
    rw [laid.size] at room
    obtain ⟨record, offset, store, M, b, table', ran, number, sound, found, part, last⟩ :=
      kept.reserve_next handle ledger opened free growth more room
    refine ⟨_, store, ran, number, fun h' open' => ?_⟩
    obtain ⟨f', c', sees, laid', -⟩ := Tracked.sees sound open'
    obtain ⟨store', p, ran', -⟩ := Handle.exec_readTable sees laid' sound.proper.small found part
    exact ⟨table', store', ran', last⟩
  · obtain ⟨blocks, table', ledger⟩ := kept.ledgers head mem
    rw [ledger.chained.table?_head] at known
    cases known
    obtain ⟨f', c', sees, laid', -⟩ := Tracked.sees kept.sound handle
    rw [sees.opened] at opened
    cases opened
    obtain ⟨b, found, part, -⟩ := ledger.chained.at?_head
    obtain ⟨store, ran, left⟩ := Handle.exec_reserve_overflow sees laid' kept.sound.proper found free part
      (TableHeader.nextRecord_of_le out)
    exact ⟨store, ran, sees.sameBut left⟩

/-- Over any run the numbers given out are without gap, and the next can be given out. -/
theorem run_issued (run : Run Orderly t) : ∃ c L, t.Issued c L := by
  obtain ⟨L, kept⟩ := run.kept
  obtain ⟨c, issued⟩ := kept.issued
  exact ⟨c, L, issued⟩

theorem run_issued_sample :
    ((sample.ask ⟨0⟩ (.reserve 0)).ask ⟨0⟩ (.reserve 0)).given = [(0, ⟨2, 54⟩), (0, ⟨1, 48⟩)] ∧
      ∃ c L, ((sample.ask ⟨0⟩ (.reserve 0)).ask ⟨0⟩ (.reserve 0)).Issued c L :=
  ⟨by decide +kernel,
    run_issued (.asked (.asked (run_sample Orderly) (by simp) (.reserve (by simp)))
      (by simp) (.reserve (by simp)))⟩

end History
end RecordFile
