import Mathlib
import RecordFile.Proofs.Tiling

/-! The chain of a table. Its blocks count the records through, so a growth that starts where the count
ends keeps the numbering, and no change elsewhere in the file touches it. -/
namespace RecordFile

/-- Bytes of a slot of the table. -/
def TableHeader.width (t : TableHeader) : Nat := t.recordSize.toNat + presenceSize

theorem TableHeader.slotSize_eq {t : TableHeader} (sized : t.recordSize ≠ 0) : t.slotSize = .ok t.width := by
  rw [slotSize, if_neg sized, width]

theorem TableHeader.eq_width {t : TableHeader} {slotSize : Nat} (slots : t.slotSize = .ok slotSize) :
    t.recordSize ≠ 0 ∧ slotSize = t.width := by
  rw [TableHeader.slotSize] at slots
  split at slots
  · cases slots
  case isFalse sized => exact ⟨sized, (Except.ok.inj slots).symm⟩

theorem TableHeader.width_congr {t t' : TableHeader} (same : t.recordSize = t'.recordSize) :
    t.width = t'.width := by rw [width, same, width]

theorem TableHeader.width_pos (t : TableHeader) : 0 < t.width := Nat.succ_pos _

@[simp] theorem Room.ofBlock_setNext (o : Nat) (e : Extent) (b : Block) :
    Room.ofBlock (o, (b.setNext e).header) = Room.ofBlock (o, b.header) := by
  simp [Room.ofBlock, Block.setNext, BlockHeader.payload]

@[simp] theorem Room.ofBlock_setLast (o : Nat) (record : UInt32) (b : Block) :
    Room.ofBlock (o, (b.setLast record).header) = Room.ofBlock (o, b.header) := by
  simp only [Room.ofBlock, Block.setLast]
  cases b.header <;> rfl

namespace Layout

/-- What holds at all times of a table, with the blocks of its chain and the header in its first. -/
structure Table (chunkSize : UInt32) (L : Layout) (head : Nat) (blocks : List (Nat × Header))
    (table : TableHeader) : Prop where
  chain : L.Chain head blocks
  part : ∃ b, L.at? head = some b ∧ b.header.tablePart? = some table
  unlinked : L.Unlinked head
  sized : table.recordSize ≠ 0
  numbered : Room.Numbered table.width 1 (blocks.map Room.ofBlock)
  data : ∀ block ∈ blocks.tail, block.2.blockPart.kind = .data
  last : table.lastRecord.toNat ≤ Room.capacity table.width (blocks.map Room.ofBlock)
  /-- A block for one more record is not too large. -/
  grows : roundUp (32 + table.width) chunkSize.toNat < 2 ^ 32

/-- The header of the table at `head`, if there is one. -/
def table? (L : Layout) (head : Nat) : Option TableHeader := (L.at? head).bind fun b => b.header.tablePart?

variable {settings : Settings} {chunkSize : UInt32} {L M : Layout} {head tail o : Nat}
  {blocks : List (Nat × Header)} {table : TableHeader} {b last : Block}

/-- A chain whose last block is linked to one that is added goes on to that one. -/
theorem Chain.attach {front : List (Nat × Header)} {added : Block}
    (chain : L.Chain o (front ++ [(tail, last.header)])) (proper : L.Proper settings)
    (found : L.at? tail = some last) (ends : added.header.next = none) :
    Chain (L.attach tail added) o (front ++ [(tail, (last.setNext
      { offset := UInt64.ofNat L.size, size := UInt64.ofNat added.size }).header), (L.size, added.header)]) := by
  let e : Extent := { offset := UInt64.ofNat L.size, size := UInt64.ofNat added.size }
  have start : e.start = L.size := proper.start_end _
  have onward : (L.attach tail added).at? e.start = some added := start ▸ at?_attach_end found added
  have kept : ∀ block ∈ front, ∃ b, (L.attach tail added).at? block.1 = some b ∧ b.header = block.2 := by
    intro block mem
    obtain ⟨x, found', header⟩ := chain.at?_of_mem (List.mem_append_left _ mem)
    have sorted := chain.sorted proper
    rw [List.map_append, List.pairwise_append] at sorted
    have before := sorted.2.2 block.1 (List.mem_map_of_mem mem) tail (by simp)
    exact ⟨x, at?_attach_apart found added found' (Nat.ne_of_lt before), header⟩
  have whole := chain.extend kept (at?_attach_tail found added) (Block.next_setNext e last) onward ends
  rwa [start] at whole

/-- No link leads to where the next block will be added. -/
theorem Proper.unlinked_end (proper : L.Proper settings) : L.Unlinked L.size := by
  intro o b e found next
  obtain ⟨-, target, there, -⟩ := proper.forward found next
  have := at?_lt there
  omega

theorem Unlinked.append (unlinked : L.Unlinked head) (ends : b.header.next = none) :
    Unlinked (L ++ [b]) head := by
  intro p x e found next
  exact unlinked p x e (next_append ends found next) next

theorem Unlinked.attach (unlinked : L.Unlinked head) (found : L.at? tail = some last)
    (inside : head < L.size) (small : L.size ≤ maxOffset) (ends : b.header.next = none) :
    Unlinked (L.attach tail b) head := by
  intro p x e there next
  rcases next_attach found ends there next with ⟨-, rfl⟩ | ⟨-, there⟩
  · change (UInt64.ofNat L.size).toNat ≠ head
    rw [toNat_offset small]
    omega
  · exact unlinked p x e there next

theorem Unlinked.edit (unlinked : L.Unlinked head) {change : Block → Block}
    (size : ∀ b, L.at? o = some b → (change b).size = b.size)
    (same : ∀ b, (change b).header.next = b.header.next) : Unlinked (L.edit change o) head := by
  intro p x e there next
  rw [at?_edit size] at there
  split at there
  case isTrue here =>
    obtain ⟨b, found, rfl⟩ := Option.map_eq_some_iff.mp there
    rw [same] at next
    exact unlinked o b e found next
  case isFalse => exact unlinked p x e there next

namespace Table

theorem at?_head (t : Table chunkSize L head blocks table) : ∃ b, L.at? head = some b ∧
    b.header.tablePart? = some table ∧ (head, b.header) ∈ blocks := by
  obtain ⟨b, found, part⟩ := t.part
  obtain ⟨b', rest, found', rfl⟩ := t.chain.head_eq
  rw [found] at found'
  cases found'
  exact ⟨b, found, part, by simp⟩

theorem part_eq (t : Table chunkSize L head blocks table) {known : TableHeader} (found : L.at? head = some b)
    (part : b.header.tablePart? = some known) : known = table := by
  obtain ⟨b', found', part', -⟩ := t.at?_head
  rw [found] at found'
  cases found'
  rw [part] at part'
  exact Option.some.inj part'

theorem table?_head (t : Table chunkSize L head blocks table) : L.table? head = some table := by
  obtain ⟨b, found, part, -⟩ := t.at?_head
  rw [table?, found, Option.bind_some, part]

theorem single (found : L.at? head = some b) (ends : b.header.next = none)
    (part : b.header.tablePart? = some table) (unlinked : L.Unlinked head) (sized : table.recordSize ≠ 0)
    (first : b.header.blockPart.firstRecord = 1) (room : table.width ≤ b.header.blockPart.payload)
    (last : table.lastRecord = 0) (grows : roundUp (32 + table.width) chunkSize.toNat < 2 ^ 32) :
    Table chunkSize L head [(head, b.header)] table := by
  refine ⟨.tail found ends, ⟨b, found, part⟩, unlinked, sized, ?_, nofun, ?_, grows⟩
  · refine ⟨?_, Nat.div_pos room table.width_pos, trivial⟩
    show b.header.blockPart.firstRecord.toNat = 1
    rw [first]
    rfl
  · rw [last]
    exact Nat.zero_le _

theorem congr (t : Table chunkSize L head blocks table)
    (same : ∀ block ∈ blocks, ∃ b, M.at? block.1 = some b ∧ b.header = block.2)
    (unlinked : M.Unlinked head) : Table chunkSize M head blocks table := by
  obtain ⟨b, -, part, mem⟩ := t.at?_head
  obtain ⟨b', found, header⟩ := same _ mem
  exact { t with chain := t.chain.congr same, part := ⟨b', found, header ▸ part⟩, unlinked }

theorem append (t : Table chunkSize L head blocks table) (ends : b.header.next = none) :
    Table chunkSize (L ++ [b]) head blocks table := by
  refine t.congr (fun block mem => ?_) (t.unlinked.append ends)
  obtain ⟨x, found, header⟩ := t.chain.at?_of_mem mem
  exact ⟨x, at?_append_old b found, header⟩

theorem attach_apart (t : Table chunkSize L head blocks table) (proper : L.Proper settings)
    (found : L.at? tail = some last) (apart : tail ∉ blocks.map Prod.fst) (ends : b.header.next = none) :
    Table chunkSize (L.attach tail b) head blocks table := by
  obtain ⟨first, there, -⟩ := t.at?_head
  refine t.congr (fun block mem => ?_) (t.unlinked.attach found (at?_lt there) proper.small ends)
  obtain ⟨x, found', header⟩ := t.chain.at?_of_mem mem
  have other : block.1 ≠ tail := fun same => apart (same ▸ List.mem_map_of_mem mem)
  exact ⟨x, at?_attach_apart found b found' other, header⟩

theorem edit (t : Table chunkSize L head blocks table) {change : Block → Block}
    (size : ∀ b, L.at? o = some b → (change b).size = b.size)
    (same : ∀ b, L.at? o = some b → (o, b.header) ∈ blocks → (change b).header = b.header)
    (next : ∀ b, (change b).header.next = b.header.next) :
    Table chunkSize (L.edit change o) head blocks table := by
  refine t.congr (fun block mem => ?_) (t.unlinked.edit size next)
  obtain ⟨x, found, header⟩ := t.chain.at?_of_mem mem
  rw [at?_edit size]
  split
  case isTrue here =>
    rw [here] at found
    refine ⟨change x, by rw [found]; rfl, ?_⟩
    rw [same x found (by rw [header, ← here]; exact mem), header]
  case isFalse => exact ⟨x, found, header⟩

/-- A search for a record of the table finds its slot, or ends where the next block would start. -/
theorem place (t : Table chunkSize L head blocks table) {record : Nat} (positive : 1 ≤ record) :
    (∃ offset, Room.slot table.width (blocks.map Room.ofBlock) (record - 1) = some offset ∧
      Search.place (searchAll table.width record 1 head blocks) = .ok (.slot offset)) ∨
    (Room.capacity table.width (blocks.map Room.ofBlock) < record ∧
      ∃ tail, Search.place (searchAll table.width record 1 head blocks) =
        .ok (.beyond tail (1 + Room.capacity table.width (blocks.map Room.ofBlock)))) := by
  have result := searchAll_numbered (o := head) t.numbered positive
  cases there : Room.slot table.width (blocks.map Room.ofBlock) (record - 1) with
  | some offset =>
    rw [there] at result
    exact .inl ⟨offset, rfl, Search.place_found result⟩
  | none =>
    rw [there] at result
    refine .inr ⟨?_, ?_⟩
    · by_contra more
      have below : record - 1 < Room.capacity table.width (blocks.map Room.ofBlock) := by omega
      have inside := Room.slot_isSome.mpr below
      rw [there] at inside
      cases inside
    · cases ran : searchAll table.width record 1 head blocks with
      | mk ending search =>
        rw [ran] at result
        cases result
        exact ⟨ending.offset, rfl⟩

/-- A chain that grows by a data block numbered on from its count keeps its count. -/
theorem attach_own (t : Table chunkSize L head blocks table) (proper : L.Proper settings)
    {front : List (Nat × Header)} (split : blocks = front ++ [(tail, last.header)])
    (found : L.at? tail = some last) {added : Block} (ends : added.header.next = none)
    (data : added.header.blockPart.kind = .data)
    (first : added.header.blockPart.firstRecord.toNat =
      1 + Room.capacity table.width (blocks.map Room.ofBlock))
    (some_ : 0 < added.header.blockPart.payload / table.width) :
    ∃ blocks' table', Table chunkSize (L.attach tail added) head blocks' table' ∧
      blocks'.map Room.ofBlock = blocks.map Room.ofBlock ++ [Room.ofBlock (L.size, added.header)] ∧
      table'.recordSize = table.recordSize ∧ table'.lastRecord = table.lastRecord := by
  let e : Extent := { offset := UInt64.ofNat L.size, size := UInt64.ofNat added.size }
  obtain ⟨first', there, part, mem⟩ := t.at?_head
  have chain := (split ▸ t.chain).attach proper found ends
  have rooms : (front ++ [(tail, (last.setNext e).header), (L.size, added.header)]).map Room.ofBlock =
      blocks.map Room.ofBlock ++ [Room.ofBlock (L.size, added.header)] := by
    rw [split]
    simp
  -- The link may have come into the head itself.
  obtain ⟨b', table', found', part', record, counted⟩ : ∃ b' table', (L.attach tail added).at? head = some b' ∧
      b'.header.tablePart? = some table' ∧ table'.recordSize = table.recordSize ∧
      table'.lastRecord = table.lastRecord := by
    by_cases here : head = tail
    · rw [here, found] at there
      cases there
      rw [here]
      exact ⟨_, { table with block.next := some e }, at?_attach_tail found added, Block.tablePart?_setNext part e,
        rfl, rfl⟩
    · exact ⟨first', table, at?_attach_apart found added there here, part, rfl, rfl⟩
  have width := TableHeader.width_congr record
  refine ⟨_, table', ⟨chain, ⟨b', found', part'⟩, ?_, ?_, ?_, ?_, ?_, ?_⟩, rooms, record, counted⟩
  · exact t.unlinked.attach found (at?_lt there) proper.small ends
  · rw [record]
    exact t.sized
  · rw [rooms, width, Room.numbered_append]
    exact ⟨t.numbered, first, some_, trivial⟩
  · intro block mem
    have old := t.data
    rw [split] at old
    cases front with
    | nil =>
      rw [List.mem_singleton.mp mem]
      exact data
    | cons block₀ front =>
      rw [List.cons_append, List.tail_cons, List.mem_append] at mem
      rcases mem with mem | mem
      · exact old block (by simp [mem])
      · rcases List.mem_cons.mp mem with rfl | mem
        · have kind := old (tail, last.header) (by simp)
          simpa [Block.setNext] using kind
        · rw [List.mem_singleton.mp mem]
          exact data
  · rw [rooms, width, counted, Room.capacity_append]
    exact t.last.trans (Nat.le_add_right _ _)
  · rw [width]
    exact t.grows

/-- The table after a change that may have made its chain longer. -/
def Grows (settings : Settings) (M : Layout) (head : Nat) (blocks : List (Nat × Header))
    (table : TableHeader) (blocks' : List (Nat × Header)) (table' : TableHeader) : Prop :=
  Table settings.chunkSize M head blocks' table' ∧
    blocks.map Room.ofBlock <+: blocks'.map Room.ofBlock ∧ table'.recordSize = table.recordSize ∧
    table'.lastRecord = table.lastRecord

theorem serves (t : Table settings.chunkSize L head blocks table) (proper : L.Proper settings)
    {record offset : Nat} (positive : 1 ≤ record) (small : record < 2 ^ 32)
    (served : L.Serves settings head blocks table.width record offset M) :
    ∃ blocks' table', Grows settings M head blocks table blocks' table' ∧
      Room.slot table.width (blocks'.map Room.ofBlock) (record - 1) = some offset := by
  have place := t.place positive
  cases served with
  | found here =>
    rcases place with ⟨offset', there, place⟩ | ⟨-, tail, place⟩
    · rw [here] at place
      cases place
      exact ⟨blocks, table, ⟨t, List.prefix_refl _, rfl, rfl⟩, there⟩
    · rw [here] at place
      cases place
  | @grown tail start size here sized fits =>
    rcases place with ⟨offset', there, place⟩ | ⟨large, tail', place⟩
    · rw [here] at place
      cases place
    · rw [here] at place
      obtain ⟨rfl, rfl⟩ : tail = tail' ∧
          start = 1 + Room.capacity table.width (blocks.map Room.ofBlock) := by
        cases place
        exact ⟨rfl, rfl⟩
      generalize counted : 1 + Room.capacity table.width (blocks.map Room.ofBlock) = start at *
      obtain ⟨⟨front, b, split, found, -⟩, -, high⟩ := t.chain.beyond positive here
      have header := BlockSpec.header_data size settings.chunkSize (UInt64.ofNat start)
      have first : (UInt64.ofNat start).toNat = start :=
        UInt64.toNat_ofNat_of_lt' (by show start < 2 ^ 64; omega)
      have room : (record - start + 1) * table.width ≤ size.toNat - 32 := by
        rw [growthSize_ok sized]
        have : 32 + (record - start + 1) * table.width ≤
          roundUp (32 + (record - start + 1) * table.width) settings.chunkSize.toNat :=
            le_roundUp proper.chunk_some
        omega
      have enough : record - start < (size.toNat - 32) / table.width := by
        rw [← Nat.add_one_le_iff, Nat.le_div_iff_mul_le table.width_pos]
        exact room
      obtain ⟨blocks', table', grown, rooms, same, last⟩ :=
        t.attach_own proper split found (next_fresh (.data size (UInt64.ofNat start)) settings.chunkSize)
          (by simp only [fresh, Block.blank, header]; rfl)
          (by simp only [fresh, Block.blank, header, Header.blockPart, first, counted])
          (by simp only [fresh, Block.blank, header]; exact Nat.zero_lt_of_lt enough)
      refine ⟨blocks', table', ⟨grown, ⟨_, rooms.symm⟩, same, last⟩, ?_⟩
      have index : record - 1 - Room.capacity table.width (blocks.map Room.ofBlock) = record - start := by
        omega
      rw [rooms, Room.slot_append, if_neg (by omega), index]
      simp only [fresh, Block.blank, header]
      exact if_pos enough

/-- The chain can always serve the next record, if the file may grow by the block that this may take. -/
theorem serves_next (t : Table settings.chunkSize L head blocks table)
    (room : L.size + roundUp (32 + table.width) settings.chunkSize.toNat ≤ maxOffset) :
    ∃ offset M, L.Serves settings head blocks table.width (table.lastRecord.toNat + 1) offset M := by
  rcases t.place (Nat.le_add_left 1 table.lastRecord.toNat) with ⟨offset, -, place⟩ | ⟨past, tail, place⟩
  · exact ⟨offset, L, .found place⟩
  · -- All that was given out is full, so the block is for one record.
    have full : Room.capacity table.width (blocks.map Room.ofBlock) = table.lastRecord.toNat := by
      have := t.last
      omega
    rw [full, Nat.add_comm 1] at place
    have one : 32 + (table.lastRecord.toNat + 1 - (table.lastRecord.toNat + 1) + 1) * table.width =
        32 + table.width := by
      rw [Nat.sub_self, Nat.zero_add, Nat.one_mul]
    have sized : growthSize (table.lastRecord.toNat + 1 - (table.lastRecord.toNat + 1) + 1) table.width
        settings.chunkSize = .ok (UInt32.ofNat (roundUp (32 + table.width) settings.chunkSize.toNat)) := by
      have header : blockHeaderSize.toNat = 32 := rfl
      have grows := t.grows
      rw [growthSize, header, one, if_neg (by omega)]
    refine ⟨_, _, .grown place sized ?_⟩
    rw [UInt32.toNat_ofNat_of_lt' t.grows]
    exact room

/-- Serving a record of one table leaves those alone that share no block with it. -/
theorem serves_apart (t : Table chunkSize L head blocks table) (proper : L.Proper settings)
    {head' slotSize record offset : Nat} {blocks' : List (Nat × Header)} (chain : L.Chain head' blocks')
    (apart : ∀ x ∈ blocks'.map Prod.fst, x ∉ blocks.map Prod.fst) (positive : 1 ≤ record)
    (served : L.Serves settings head' blocks' slotSize record offset M) :
    Table chunkSize M head blocks table := by
  cases served with
  | found place => exact t
  | @grown tail start size place sized fits =>
    obtain ⟨⟨front, b, split, found, -⟩, -⟩ := chain.beyond positive place
    exact t.attach_apart proper found (apart tail (by rw [split]; simp)) (next_fresh _ _)

theorem setLast (t : Table chunkSize L head blocks table) {record : UInt32}
    (fits : record.toNat ≤ Room.capacity table.width (blocks.map Room.ofBlock)) :
    ∃ blocks', Table chunkSize (L.edit (Block.setLast record) head) head blocks'
        { table with lastRecord := record } ∧
      blocks'.map Room.ofBlock = blocks.map Room.ofBlock := by
  obtain ⟨b, found, part, -⟩ := t.at?_head
  obtain ⟨b', rest, found', split⟩ := t.chain.head_eq
  rw [found] at found'
  cases found'
  have here := at?_setLast record found
  have chain : Chain (L.edit (Block.setLast record) head) head ((head, (b.setLast record).header) :: rest) := by
    have old := t.chain
    rw [split] at old
    by_cases more : rest = []
    · subst more
      exact .tail here ((Block.next_setLast record b).trans old.next_of_single)
    · obtain ⟨-, e, next, onward⟩ := old.rest_of_cons more
      refine .link here ((Block.next_setLast record b).trans next) (onward.congr fun block mem => ?_)
      obtain ⟨x, there, header⟩ := onward.at?_of_mem mem
      have other : block.1 ≠ head := fun same =>
        t.unlinked head b e found next (onward.eq_of_unlinked t.unlinked
          (same ▸ List.mem_map_of_mem mem)).symm
      exact ⟨x, by rw [at?_edit fun b _ => Block.size_setLast record b, if_neg other, there], header⟩
  have rooms : ((head, (b.setLast record).header) :: rest).map Room.ofBlock = blocks.map Room.ofBlock := by
    rw [split]
    simp
  refine ⟨_, ⟨chain, ⟨_, here, tablePart?_setLast record part⟩, ?_, t.sized, ?_, ?_, ?_, t.grows⟩, rooms⟩
  · exact t.unlinked.edit (fun b _ => Block.size_setLast record b) (fun b => Block.next_setLast record b)
  · rw [rooms]
    exact t.numbered
  · have data := t.data
    rw [split] at data
    exact data
  · rw [rooms]
    exact fits

end Table

end Layout
end RecordFile
