import Mathlib
import RecordFile.Proofs.Tables

/-! What was told of the tables over a run. As long as tables are changed by what is made for them only,
the numbers given out of each are an unbroken count, and each slot stays where it was. -/
namespace RecordFile

/-- A table, and all that was told of it: the headers read and the slots given out. -/
structure Ledger (chunkSize : UInt32) (headers : List (Nat × TableHeader)) (given : List (Nat × Slot))
    (L : Layout) (head : Nat) (blocks : List (Nat × Header)) (table : TableHeader) : Prop where
  chained : Layout.Table chunkSize L head blocks table
  headers : ∀ known, (head, known) ∈ headers → known.recordSize = table.recordSize
  /-- The numbers given out, the latest first, count down to 1. -/
  numbers : (given.filter fun entry => entry.1 = head).map (fun entry => entry.2.record.toNat) =
    (List.range' 1 table.lastRecord.toNat).reverse
  places : ∀ slot, (head, slot) ∈ given →
    Room.slot table.width (blocks.map Room.ofBlock) (slot.record.toNat - 1) = some slot.offset

namespace History

/-- Requests that leave tables to what is made for them: blocks are linked outside the chains of tables,
records located by a header read from the table, and bytes written in slots given out. -/
inductive Orderly (t : History) : Request → Prop
  | addTable (recordSize : UInt32) : Orderly t (.addTable recordSize)
  | append (spec : BlockSpec) : Orderly t (.append spec)
  | appendAfter {L : Layout} {tail : Nat} {b : Block} (spec : BlockSpec) : t.LaidOut L →
      L.at? tail = some b →
      (∀ head ∈ t.heads, ∀ blocks, L.Chain head blocks → tail ∉ blocks.map Prod.fst) →
      Orderly t (.appendAfter tail spec)
  | readTable {head : Nat} : head ∈ t.heads → Orderly t (.readTable head)
  | locate {head : Nat} {table : TableHeader} (record : UInt32) : (head, table) ∈ t.headers →
      Orderly t (.locate head table record)
  | reserve {head : Nat} : head ∈ t.heads → Orderly t (.reserve head)
  | write {L : Layout} {head : Nat} {slot : Slot} {b : Block} {table : TableHeader} {offset : Nat}
      {bytes : List UInt8} : t.LaidOut L → (head, slot) ∈ t.given → L.at? head = some b →
      b.header.tablePart? = some table → slot.offset ≤ offset →
      offset + bytes.length ≤ slot.offset + table.width → Orderly t (.write offset bytes)

/-- The layout is proper, and the ledgers of all tables are right. -/
structure Kept (t : History) (L : Layout) : Prop where
  sound : t.Sound L
  ledgers : ∀ head ∈ t.heads, ∃ blocks table,
    Ledger t.settings.chunkSize t.headers t.given L head blocks table
  headers : ∀ head table, (head, table) ∈ t.headers → head ∈ t.heads
  given : ∀ head slot, (head, slot) ∈ t.given → head ∈ t.heads

end History

namespace Layout

theorem Sound.room {L : Layout} (sound : L.Sound) {o : Nat} {b : Block} (found : L.at? o = some b) :
    (Room.ofBlock (o, b.header)).start = o + b.header.size.toNat ∧
      (Room.ofBlock (o, b.header)).start + (Room.ofBlock (o, b.header)).bytes = o + b.size := by
  have block := sound.at? found
  have size := block.headerSize_le
  refine ⟨rfl, ?_⟩
  show o + b.header.size.toNat + (b.header.blockPart.blockSize.toNat - b.header.size.toNat) = _
  rw [block.announced]
  omega

theorem Table.first {settings : Settings} (proper : Layout.Proper settings [Layout.first settings]) :
    Table settings.chunkSize [Layout.first settings] 0 [(0, (Layout.first settings).header)]
      (FileHeader.fresh settings.chunkSize settings.recordSize).table := by
  obtain ⟨sized, -, room⟩ := Settings.check_ok proper.accepted
  refine .single rfl rfl rfl ?_ sized rfl ?_ rfl ?_
  · intro o b e found next
    rw [(at?_first found).2] at next
    cases next
  · show settings.recordSize.toNat + 1 ≤ settings.chunkSize.toNat - 48
    omega
  · have fits : 32 + (settings.recordSize.toNat + 1) ≤ settings.chunkSize.toNat := by omega
    exact Nat.lt_of_le_of_lt (roundUp_le_chunk (by omega) fits) settings.chunkSize.toNat_lt

theorem Table.slot_inside {chunkSize : UInt32} {L : Layout} {head index offset : Nat}
    {blocks : List (Nat × Header)} {table : TableHeader} (t : Table chunkSize L head blocks table)
    (sound : L.Sound) (slot : Room.slot table.width (blocks.map Room.ofBlock) index = some offset) :
    ∃ o b, L.at? o = some b ∧ (o, b.header) ∈ blocks ∧ o + b.header.size.toNat ≤ offset ∧
      offset + table.width ≤ o + b.size := by
  obtain ⟨room, mem, low, high⟩ := Room.slot_inside slot
  obtain ⟨block, inChain, rfl⟩ := List.mem_map.mp mem
  obtain ⟨b, found, header⟩ := t.chain.at?_of_mem inChain
  obtain ⟨start, stop⟩ := sound.room found
  have same : (block.1, b.header) = block := by rw [header]
  rw [same] at start stop
  exact ⟨block.1, b, found, same ▸ inChain, start ▸ low, stop ▸ high⟩

/-- The last record number of a table is in its head only. -/
theorem Table.setLast_apart {chunkSize : UInt32} {L : Layout} {head head' : Nat}
    {blocks : List (Nat × Header)} {table : TableHeader} (t : Table chunkSize L head' blocks table)
    (apart : head ∉ blocks.map Prod.fst) (record : UInt32) :
    Table chunkSize (L.edit (Block.setLast record) head) head' blocks table :=
  t.edit (fun b _ => Block.size_setLast record b)
    (fun _ _ mem => absurd (List.mem_map_of_mem mem) apart) fun b => Block.next_setLast record b

end Layout

namespace Ledger

variable {settings : Settings} {headers : List (Nat × TableHeader)} {given : List (Nat × Slot)}
  {L M : Layout} {head : Nat} {blocks blocks' : List (Nat × Header)} {table table' : TableHeader}

theorem grow (ledger : Ledger settings.chunkSize headers given L head blocks table)
    (grows : Layout.Table.Grows settings M head blocks table blocks' table') :
    Ledger settings.chunkSize headers given M head blocks' table' := by
  obtain ⟨grown, longer, record, last⟩ := grows
  refine ⟨grown, fun known mem => (ledger.headers known mem).trans record.symm, ?_, fun slot mem => ?_⟩
  · rw [last]
    exact ledger.numbers
  · have width : table'.width = table.width := TableHeader.width_congr record
    rw [width]
    exact Room.slot_of_prefix longer (ledger.places slot mem)

theorem keep (ledger : Ledger settings.chunkSize headers given L head blocks table)
    (same : Layout.Table settings.chunkSize M head blocks table) :
    Ledger settings.chunkSize headers given M head blocks table :=
  { ledger with chained := same }

theorem other (ledger : Ledger settings.chunkSize headers given L head blocks table) {head' : Nat}
    (differ : head' ≠ head) (slot : Slot) :
    Ledger settings.chunkSize headers ((head', slot) :: given) L head blocks table := by
  refine ⟨ledger.chained, ledger.headers, ?_, fun slot' mem => ?_⟩
  · rw [List.filter_cons_of_neg (by simpa using differ)]
    exact ledger.numbers
  · rcases List.mem_cons.mp mem with same | mem
    · cases same
      exact absurd rfl differ
    · exact ledger.places slot' mem

theorem next (ledger : Ledger settings.chunkSize headers given L head blocks table) {slot : Slot}
    (moved : Layout.Table settings.chunkSize M head blocks' { table with lastRecord := slot.record })
    (rooms : blocks'.map Room.ofBlock = blocks.map Room.ofBlock)
    (number : slot.record.toNat = table.lastRecord.toNat + 1)
    (place : Room.slot table.width (blocks.map Room.ofBlock) (slot.record.toNat - 1) = some slot.offset) :
    Ledger settings.chunkSize headers ((head, slot) :: given) M head blocks'
      { table with lastRecord := slot.record } := by
  refine ⟨moved, ledger.headers, ?_, fun slot' mem => ?_⟩
  · rw [List.filter_cons_of_pos (by simp), List.map_cons, ledger.numbers, number, List.range'_1_concat,
      List.reverse_append, Nat.add_comm]
    rfl
  · rw [rooms]
    rcases List.mem_cons.mp mem with same | mem
    · cases same
      exact place
    · exact ledger.places slot' mem

end Ledger

namespace History

variable {t : History} {L M : Layout} {h : Handle} {request : Request}

namespace Kept

theorem apart (kept : t.Kept L) {head head' : Nat} (mem : head ∈ t.heads) (mem' : head' ∈ t.heads)
    (differ : head ≠ head') {blocks blocks' : List (Nat × Header)} (chain : L.Chain head blocks)
    (chain' : L.Chain head' blocks') : ∀ x ∈ blocks.map Prod.fst, x ∉ blocks'.map Prod.fst := by
  obtain ⟨_, _, ledger⟩ := kept.ledgers head mem
  obtain ⟨_, _, ledger'⟩ := kept.ledgers head' mem'
  intro x inside
  exact chain.disjoint kept.sound.proper chain' ledger.chained.unlinked ledger'.chained.unlinked differ inside

theorem at?_head (kept : t.Kept L) {head : Nat} (mem : head ∈ t.heads) : ∃ b, L.at? head = some b := by
  obtain ⟨_, _, ledger⟩ := kept.ledgers head mem
  obtain ⟨b, found, -⟩ := ledger.chained.at?_head
  exact ⟨b, found⟩

theorem laidOut (kept : t.Kept L) : t.LaidOut L := kept.sound.content

theorem loose (kept : t.Kept L) (permitted : Orderly t request) : Loose t request := by
  cases permitted with
  | addTable recordSize => exact .addTable recordSize
  | append spec => exact .append spec
  | appendAfter spec known found => exact .appendAfter spec known found
  | readTable mem =>
    obtain ⟨b, found⟩ := kept.at?_head mem
    exact .readTable kept.laidOut found
  | locate record mem =>
    obtain ⟨b, found⟩ := kept.at?_head (kept.headers _ _ mem)
    exact .locate _ record kept.laidOut found
  | reserve mem =>
    obtain ⟨b, found⟩ := kept.at?_head mem
    exact .reserve kept.laidOut found
  | @write _ head slot b table offset bytes known mem found part low high =>
    rw [kept.sound.unique known] at found
    obtain ⟨blocks, table', ledger⟩ := kept.ledgers head (kept.given head slot mem)
    obtain rfl := ledger.chained.part_eq found part
    obtain ⟨c, -, laid⟩ := kept.sound.content
    obtain ⟨o, x, there, -, below, above⟩ := ledger.chained.slot_inside laid.sound (ledger.places slot mem)
    exact .write kept.laidOut there (below.trans low) (by omega)

/-- A change of the layout under which every table keeps its ledger. -/
theorem relay (kept : t.Kept L) {store : Store} (sound : Sound { t with store } M)
    (tables : ∀ head ∈ t.heads, ∀ blocks table,
      Ledger t.settings.chunkSize t.headers t.given L head blocks table →
      ∃ blocks' table', Ledger t.settings.chunkSize t.headers t.given M head blocks' table') :
    Kept { t with store } M where
  sound := sound
  ledgers head mem := by
    obtain ⟨blocks, table, ledger⟩ := kept.ledgers head mem
    exact tables head mem blocks table ledger
  headers := kept.headers
  given := kept.given

theorem size_not_mem (kept : t.Kept L) : L.size ∉ t.heads := by
  intro mem
  obtain ⟨b, found⟩ := kept.at?_head mem
  have := Layout.at?_lt found
  omega

/-- Nothing was given out where no table starts. -/
theorem given_of_not_mem (kept : t.Kept L) {head : Nat} (mem : head ∉ t.heads) :
    t.given.filter (fun entry => entry.1 = head) = [] := by
  rw [List.filter_eq_nil_iff]
  intro entry inGiven same
  exact mem (of_decide_eq_true same ▸ kept.given entry.1 entry.2 inGiven)

theorem started (kept : t.Kept L) {recordSize size : UInt32} (positive : recordSize ≠ 0)
    (whole : size.toNat = roundUp (40 + (recordSize.toNat + 1)) t.settings.chunkSize.toNat) :
    Layout.Table t.settings.chunkSize (L ++ [Layout.fresh (.table size recordSize) t.settings.chunkSize])
      L.size [(L.size, (BlockSpec.table size recordSize).header t.settings.chunkSize)]
      { block := { kind := .table, headerSize := tableHeaderSize, blockSize := size, firstRecord := 1 }
        recordSize } := by
  have ends := Layout.next_fresh (.table size recordSize) t.settings.chunkSize
  have room : 40 + (recordSize.toNat + 1) ≤ size.toNat := whole ▸ le_roundUp kept.sound.proper.chunk_some
  refine .single ?_ ends rfl ?_ positive rfl ?_ rfl ?_
  · rw [Layout.at?_append, if_pos rfl]
  · exact kept.sound.proper.unlinked_end.append ends
  · show recordSize.toNat + 1 ≤ size.toNat - 40
    omega
  · refine Nat.lt_of_le_of_lt (roundUp_mono ?_) (whole ▸ size.toNat_lt)
    show 32 + (recordSize.toNat + 1) ≤ _
    omega

theorem tableAdded (kept : t.Kept L) {recordSize size : UInt32} {store : Store} (positive : recordSize ≠ 0)
    (whole : size.toNat = roundUp (40 + (recordSize.toNat + 1)) t.settings.chunkSize.toNat)
    (sound : Sound { t with store, heads := L.size :: t.heads }
      (L ++ [Layout.fresh (.table size recordSize) t.settings.chunkSize])) :
    Kept { t with store, heads := L.size :: t.heads }
      (L ++ [Layout.fresh (.table size recordSize) t.settings.chunkSize]) where
  sound := sound
  ledgers head mem := by
    have ends := Layout.next_fresh (.table size recordSize) t.settings.chunkSize
    rcases List.mem_cons.mp mem with rfl | mem
    · refine ⟨_, _, kept.started positive whole, fun known mem => ?_, ?_, fun slot mem => ?_⟩
      · exact absurd (kept.headers _ _ mem) kept.size_not_mem
      · rw [kept.given_of_not_mem kept.size_not_mem]
        rfl
      · exact absurd (kept.given _ _ mem) kept.size_not_mem
    · obtain ⟨blocks, table, ledger⟩ := kept.ledgers head mem
      exact ⟨blocks, table, ledger.keep (ledger.chained.append ends)⟩
  headers head table mem := List.mem_cons_of_mem _ (kept.headers head table mem)
  given head slot mem := List.mem_cons_of_mem _ (kept.given head slot mem)

/-- A number that is given out is the next of its table; the other tables are as they were. -/
theorem reserved (kept : t.Kept L) {head offset slotSize : Nat} (mem : head ∈ t.heads) {b : Block}
    {blocks : List (Nat × Header)} {table : TableHeader} {record : UInt32} {store : Store}
    (found : L.at? head = some b) (part : b.header.tablePart? = some table) (chain : L.Chain head blocks)
    (next : table.nextRecord = .ok record) (slots : table.slotSize = .ok slotSize)
    (serves : L.Serves t.settings head blocks slotSize record.toNat offset M)
    (sound : Sound { t with store, given := (head, { record, offset }) :: t.given }
      (M.edit (Block.setLast record) head)) :
    Kept { t with store, given := (head, { record, offset }) :: t.given }
      (M.edit (Block.setLast record) head) where
  sound := sound
  ledgers head' mem' := by
    obtain ⟨number, -⟩ := Handle.nextRecord_ok next
    obtain ⟨-, rfl⟩ := TableHeader.eq_width slots
    have proper := kept.sound.proper
    by_cases same : head = head'
    · subst same
      obtain ⟨blocks', table', ledger⟩ := kept.ledgers head mem'
      obtain rfl := ledger.chained.chain.unique chain
      obtain rfl := ledger.chained.part_eq found part
      obtain ⟨grown, table', grows, place⟩ :=
        ledger.chained.serves proper (by omega) record.toNat_lt serves
      have ledger' := ledger.grow grows
      obtain ⟨-, -, sized, last⟩ := grows
      have width : table'.width = table.width := TableHeader.width_congr sized
      rw [← width] at place
      have room : record.toNat - 1 < Room.capacity table'.width (grown.map Room.ofBlock) :=
        Room.slot_isSome.mp (by rw [place]; rfl)
      obtain ⟨edited, moved, rooms⟩ := ledger'.chained.setLast (show record.toNat ≤ _ by omega)
      refine ⟨edited, _, ledger'.next moved rooms ?_ place⟩
      rw [last]
      exact number
    · obtain ⟨blocks', table', ledger⟩ := kept.ledgers head' mem'
      have apart := kept.apart mem mem' same chain ledger.chained.chain
      have still := ledger.chained.serves_apart proper chain apart (by omega) serves
      have outside : head ∉ blocks'.map Prod.fst := by
        obtain ⟨b', rest, -, split⟩ := chain.head_eq
        exact apart head (by rw [split]; simp)
      have edited := still.setLast_apart outside record
      exact ⟨blocks', table', (ledger.keep edited).other same _⟩
  headers := kept.headers
  given head' slot mem' := by
    rcases List.mem_cons.mp mem' with same | mem'
    · cases same
      exact mem
    · exact kept.given head' slot mem'

/-- A chain that has come to serve a record has its ledger, and the other tables keep theirs. -/
theorem located (kept : t.Kept L) {head record offset : Nat} (mem : head ∈ t.heads)
    {blocks : List (Nat × Header)} {table : TableHeader}
    (ledger : Ledger t.settings.chunkSize t.headers t.given L head blocks table) (positive : 1 ≤ record)
    (small : record < 2 ^ 32) (serves : L.Serves t.settings head blocks table.width record offset M)
    {store : Store} (sound : Sound { t with store } M) : Kept { t with store } M := by
  have proper := kept.sound.proper
  refine kept.relay sound fun head' mem' blocks' table' ledger' => ?_
  by_cases same : head = head'
  · subst same
    obtain ⟨grown, table'', grows, -⟩ := ledger.chained.serves proper positive small serves
    exact ⟨grown, table'', ledger.grow grows⟩
  · exact ⟨blocks', table', ledger'.keep (ledger'.chained.serves_apart proper ledger.chained.chain
      (kept.apart mem mem' same ledger.chained.chain ledger'.chained.chain) positive serves)⟩

/-- The number whose slot was found is given out: it is the next of its table. -/
theorem committed (kept : t.Kept L) {head : Nat} (mem : head ∈ t.heads) {blocks : List (Nat × Header)}
    {table : TableHeader} {slot : Slot}
    (ledger : Ledger t.settings.chunkSize t.headers t.given L head blocks table)
    (number : slot.record.toNat = table.lastRecord.toNat + 1)
    (place : Room.slot table.width (blocks.map Room.ofBlock) (slot.record.toNat - 1) = some slot.offset)
    {store : Store} (sound : Sound { t with store, given := (head, slot) :: t.given }
      (L.edit (Block.setLast slot.record) head)) :
    Kept { t with store, given := (head, slot) :: t.given } (L.edit (Block.setLast slot.record) head) where
  sound := sound
  ledgers head' mem' := by
    by_cases same : head = head'
    · subst same
      have room : slot.record.toNat - 1 < Room.capacity table.width (blocks.map Room.ofBlock) :=
        Room.slot_isSome.mp (by rw [place]; rfl)
      obtain ⟨edited, moved, rooms⟩ := ledger.chained.setLast (show slot.record.toNat ≤ _ by omega)
      exact ⟨edited, _, ledger.next moved rooms number place⟩
    · obtain ⟨blocks', table', ledger'⟩ := kept.ledgers head' mem'
      have outside : head ∉ blocks'.map Prod.fst := by
        obtain ⟨b, rest, -, split⟩ := ledger.chained.chain.head_eq
        exact kept.apart mem mem' same ledger.chained.chain ledger'.chained.chain head (by rw [split]; simp)
      exact ⟨blocks', table', (ledger'.keep (ledger'.chained.setLast_apart outside slot.record)).other same _⟩
  headers := kept.headers
  given head' slot' mem' := by
    rcases List.mem_cons.mp mem' with same | mem'
    · cases same
      exact mem
    · exact kept.given head' slot' mem'

theorem ask (kept : t.Kept L) (mem : h ∈ t.handles) (permitted : Orderly t request) :
    ∃ M, (t.ask h request).Kept M := by
  obtain ⟨M, answer, sound⟩ := kept.sound.ask mem (kept.loose permitted)
  refine ⟨M, ?_⟩
  have proper := kept.sound.proper
  generalize t.ask h request = t' at answer sound
  cases answer with
  | refused => exact kept.relay sound fun _ _ blocks table ledger => ⟨blocks, table, ledger⟩
  | tableAdded positive whole _ _ => exact kept.tableAdded positive whole sound
  | appended checked fits =>
    exact kept.relay sound fun _ _ blocks table ledger =>
      ⟨blocks, table, ledger.keep (ledger.chained.append (Layout.next_fresh _ _))⟩
  | attached found _ checked fits =>
    cases permitted with
    | appendAfter spec known _ outside =>
      rw [kept.sound.unique known] at outside
      exact kept.relay sound fun head mem blocks table ledger => ⟨blocks, table, ledger.keep
        (ledger.chained.attach_apart proper found (outside head mem blocks ledger.chained.chain)
          (Layout.next_fresh _ _))⟩
  | @read head b known store found part =>
    cases permitted with
    | readTable mem =>
      refine ⟨sound, fun head' mem' => ?_, fun head' table mem' => ?_, kept.given⟩
      · obtain ⟨blocks, table, ledger⟩ := kept.ledgers head' mem'
        refine ⟨blocks, table, { ledger with headers := fun known' mem' => ?_ }⟩
        rcases List.mem_cons.mp mem' with same | mem'
        · cases same
          rw [ledger.chained.part_eq found part]
        · exact ledger.headers known' mem'
      · rcases List.mem_cons.mp mem' with same | mem'
        · cases same
          exact mem
        · exact kept.headers head' table mem'
  | @located head blocks known record slotSize offset M store chain slots positive serves =>
    cases permitted with
    | locate record inHeaders =>
      have mem := kept.headers head known inHeaders
      have some := one_le_record positive
      obtain ⟨blocks', table, ledger⟩ := kept.ledgers head mem
      obtain rfl := ledger.chained.chain.unique chain
      obtain ⟨-, rfl⟩ := TableHeader.eq_width slots
      rw [TableHeader.width_congr (ledger.headers known inHeaders)] at serves
      exact kept.located mem ledger some record.toNat_lt serves sound
  | reserved found part chain next slots serves =>
    cases permitted with
    | reserve mem => exact kept.reserved mem found part chain next slots serves sound
  | @written o skip b bytes store found inside =>
    have size : ∀ b', L.at? o = some b' → (b'.fill skip bytes).size = b'.size := by
      intro b' found'
      rw [found] at found'
      cases found'
      exact Block.size_fill inside
    exact kept.relay sound fun _ _ blocks table ledger => ⟨blocks, table,
      ledger.keep (ledger.chained.edit size (fun _ _ _ => rfl) fun _ => rfl)⟩

end Kept

theorem Kept.created {location : Location} {settings : Settings} {store : Store} {h : Handle}
    (sound : Sound { location, settings, store, handles := [h] } [Layout.first settings]) :
    Kept { location, settings, store, handles := [h] } [Layout.first settings] where
  sound := sound
  ledgers head mem := by
    obtain rfl := List.mem_singleton.mp mem
    exact ⟨_, _, Layout.Table.first sound.proper, nofun, rfl, nofun⟩
  headers _ _ mem := nomatch mem
  given _ _ mem := nomatch mem

theorem Run.kept (run : Run Orderly t) : ∃ L, t.Kept L :=
  run.invariant Kept.sound Kept.created Kept.ask fun kept sound => { kept with sound }

end History
end RecordFile
