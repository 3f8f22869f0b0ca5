import Mathlib
import RecordFile.Proofs.Bytewise
import RecordFile.Proofs.LayoutPersistence

/-! What requests leave alone. A request about one table changes the last number in its head, or the link of
its last block, or both, and adds to the file; no other table can tell that it was made. -/
namespace RecordFile

/-- Operations on the blocks at some offsets, and those that only add to the file. -/
inductive Request.Within (offsets : List Nat) : Request → Prop
  | addTable (recordSize : UInt32) : Within offsets (.addTable recordSize)
  | append (spec : BlockSpec) : Within offsets (.append spec)
  | appendAfter {tail : Nat} (spec : BlockSpec) : tail ∈ offsets → Within offsets (.appendAfter tail spec)
  | locate {chain : Nat} (table : TableHeader) (record : UInt32) : chain ∈ offsets →
      Within offsets (.locate chain table record)
  | reserve {head : Nat} : head ∈ offsets → Within offsets (.reserve head)

namespace Layout

variable {settings : Settings} {L M : Layout} {o p slotSize record offset : Nat}
  {blocks rest : List (Nat × Header)} {b : Block}

theorem Chain.mem_of_mem (chain : L.Chain o blocks) (inside : p ∈ blocks.map Prod.fst) (onward : L.Chain p rest)
    {x : Nat} (mem : x ∈ rest.map Prod.fst) : x ∈ blocks.map Prod.fst := by
  induction chain with
  | tail found next =>
    obtain rfl : p = _ := by simpa using inside
    rwa [(Chain.tail found next).unique onward]
  | link found next chain ih =>
    rw [List.map_cons, List.mem_cons] at inside
    rcases inside with rfl | inside
    · rwa [(Chain.link found next chain).unique onward]
    · exact List.mem_cons_of_mem _ (ih inside)

theorem le_capacity_of_slot (positive : 1 ≤ record)
    (place : Search.place (searchAll slotSize record 1 o blocks) = .ok (.slot offset)) :
    record ≤ Room.capacity slotSize (blocks.map Room.ofBlock) := by
  have := searchAll_found (Search.of_place_slot place)
  omega

theorem capacity_lt_of_beyond {tail start : Nat} (positive : 1 ≤ record)
    (place : Search.place (searchAll slotSize record 1 o blocks) = .ok (.beyond tail start)) :
    Room.capacity slotSize (blocks.map Room.ofBlock) < record := by
  have := searchAll_passed (Search.of_place_beyond place)
  omega

theorem Serves.at?_apart (serves : L.Serves settings p rest slotSize record offset M) (onward : L.Chain p rest)
    (positive : 1 ≤ record) (found : L.at? o = some b) (apart : o ∉ rest.map Prod.fst) :
    M.at? o = some b := by
  cases serves with
  | found => exact found
  | grown place _ _ =>
    obtain ⟨⟨front, last, rfl, there, -⟩, -⟩ := onward.beyond positive place
    apply at?_attach_apart there _ found
    intro same
    exact apart (by simp [same])

/-- What is added to a chain for a record is linked to its last block. -/
theorem Serves.linked (serves : L.Serves settings p rest slotSize record offset M) (onward : L.Chain p rest)
    (positive : 1 ≤ record) : (M = L ∧ record ≤ Room.capacity slotSize (rest.map Room.ofBlock)) ∨
      Room.capacity slotSize (rest.map Room.ofBlock) < record ∧ ∃ tail last added,
        rest.getLast? = some (tail, last.header) ∧ L.at? tail = some last ∧ last.header.next = none ∧
        M = L.attach tail added := by
  cases serves with
  | found place => exact .inl ⟨rfl, le_capacity_of_slot positive place⟩
  | grown place _ _ =>
    obtain ⟨⟨front, last, rfl, there, ends⟩, -⟩ := onward.beyond positive place
    exact .inr ⟨capacity_lt_of_beyond positive place, _, last, _, List.getLast?_concat, there, ends, rfl⟩

/-- The last record number is moved after a block was linked, which may have been linked to the head. -/
theorem linked_setLast {tail head : Nat} {last : Block} {table : TableHeader} (there : L.at? tail = some last)
    (ends : last.header.next = none) (added : Block) (found : L.at? head = some b)
    (part : b.header.tablePart? = some table) (record : UInt32) : Linked tail [⟨head + 36, 4⟩] L.bytes
      (bytes ((L.attach tail added).edit (Block.setLast record) head)) := by
  have size {K : Layout} : ∀ b, K.at? head = some b → (b.setLast record).size = b.size :=
    fun b _ => Block.size_setLast record b
  obtain ⟨x, found', becomes⟩ := GrowsTo.attach there ends added head b found
  obtain ⟨table', part'⟩ := Option.isSome_iff_exists.mp (becomes.part.trans (by rw [part]; rfl))
  obtain ⟨y, there', becomes'⟩ :=
    GrowsTo.edit size (Block.Becomes.setLast record) tail _ (at?_attach_tail there added)
  exact linked_of there ends added (changed_setLast found' part' record) (size_edit size) there'
    (becomes'.link _ (Block.next_setNext _ _))

end Layout

namespace History

/-- The bytes of the file. -/
def bytes (t : History) : List UInt8 := ((t.store.content? t.location).getD Content.empty).toList

variable {t t' : History} {L M : Layout} {h : Handle} {request : Request} {o : Nat}
  {blocks : List (Nat × Header)}

theorem Sound.bytes (sound : t.Sound L) : t.bytes = L.bytes := by
  obtain ⟨c, there, laid⟩ := sound.content
  rw [History.bytes, there, Option.getD_some, laid.bytes]

theorem Answer.size_le (answer : Answer t L request t' M) : L.size ≤ M.size := by
  have served {chain slotSize record offset : Nat} {blocks : List (Nat × Header)} {N : Layout}
      (serves : L.Serves t.settings chain blocks slotSize record offset N) : L.size ≤ N.size := by
    cases serves with
    | found => exact Nat.le_refl _
    | grown =>
      rw [Layout.size_attach]
      exact Nat.le_add_right _ _
  cases answer with
  | refused => exact Nat.le_refl _
  | tableAdded => exact Layout.size_append L _ ▸ Nat.le_add_right _ _
  | appended => exact Layout.size_append L _ ▸ Nat.le_add_right _ _
  | attached => exact Layout.size_attach _ _ ▸ Nat.le_add_right _ _
  | read => exact Nat.le_refl _
  | located chain slots positive serves => exact served serves
  | reserved found part chain next slots serves =>
    rw [Layout.size_edit fun b _ => Block.size_setLast _ b]
    exact served serves
  | @written o skip b bytes store found inside =>
    rw [Layout.size_edit]
    intro b' found'
    rw [found] at found'
    cases found'
    exact Block.size_fill inside

/-- A request about blocks of one chain changes no block outside it. -/
theorem Answer.at?_apart (answer : Answer t L request t' M) {head : Nat} (chain : L.Chain head blocks)
    (within : request.Within (blocks.map Prod.fst)) {b : Block} (found : L.at? o = some b)
    (apart : o ∉ blocks.map Prod.fst) : M.at? o = some b := by
  cases answer with
  | refused => exact found
  | tableAdded => exact Layout.at?_append_old _ found
  | appended => exact Layout.at?_append_old _ found
  | attached there =>
    cases within with
    | appendAfter spec mem =>
      apply Layout.at?_attach_apart there _ found
      intro same
      exact apart (same ▸ mem)
  | read => exact found
  | located onward slots positive serves =>
    cases within with
    | locate table record mem =>
      apply serves.at?_apart onward (one_le_record positive) found
      intro inside
      exact apart (chain.mem_of_mem mem onward inside)
  | @reserved start b' rest table record slotSize offset N store there part onward next slots serves =>
    cases within with
    | reserve mem =>
      have kept : N.at? o = some b := by
        apply serves.at?_apart onward (Handle.one_le_next next) found
        intro inside
        exact apart (chain.mem_of_mem mem onward inside)
      have other : o ≠ start := by
        intro same
        exact apart (same ▸ mem)
      rw [Layout.at?_edit fun b _ => Block.size_setLast _ b, if_neg other, kept]
  | written => cases within

theorem Sound.loose_of_within (sound : t.Sound L) {head : Nat} (chain : L.Chain head blocks)
    (within : request.Within (blocks.map Prod.fst)) : Loose t request := by
  have block {o : Nat} (mem : o ∈ blocks.map Prod.fst) : ∃ b, L.at? o = some b := by
    obtain ⟨entry, inside, rfl⟩ := List.mem_map.mp mem
    obtain ⟨b, found, -⟩ := chain.at?_of_mem inside
    exact ⟨b, found⟩
  cases within with
  | addTable recordSize => exact .addTable recordSize
  | append spec => exact .append spec
  | appendAfter spec mem =>
    obtain ⟨b, found⟩ := block mem
    exact .appendAfter spec sound.content found
  | locate table record mem =>
    obtain ⟨b, found⟩ := block mem
    exact .locate table record sound.content found
  | reserve mem =>
    obtain ⟨b, found⟩ := block mem
    exact .reserve sound.content found

/-- Where the chain has room for a record, the chain alone decides what is told of the record. -/
theorem Sound.located_iff (sound : t.Sound L) (mem : h ∈ t.handles) (chain : L.Chain o blocks)
    {table : TableHeader} {record : UInt32}
    (room : record.toNat ≤ Room.capacity table.width (blocks.map Room.ofBlock)) (offset : Nat) :
    ((h.locate o table record).exec t.store).1 = .ok offset ↔ record ≠ 0 ∧ table.recordSize ≠ 0 ∧
      Search.place (searchAll table.width record.toNat 1 o blocks) = .ok (.slot offset) := by
  obtain ⟨f, c, sees, laid, -, chunk⟩ := sound.sees mem
  have proper := sound.proper
  constructor
  · intro located
    rcases Handle.exec_locate sees laid proper chunk chain table record with
      ⟨slotSize, offset', M, s, p, c', T, slots, positive, serves, ran, -⟩ | ⟨fault, s, p, e, T, ran, -⟩
    · obtain ⟨sized, rfl⟩ := TableHeader.eq_width slots
      rw [ran] at located
      cases located
      cases serves with
      | found place => exact ⟨positive, sized, place⟩
      | grown place _ _ =>
        have past := Layout.capacity_lt_of_beyond (one_le_record positive) place
        omega
    · rw [ran] at located
      cases located
  · rintro ⟨positive, sized, place⟩
    obtain ⟨s, p, ran, -⟩ := Handle.exec_locate_found sees laid proper chunk chain
      (TableHeader.slotSize_eq sized) positive place
    rw [ran]

/-- What a request leaves of a table that it is not about. -/
structure Apart (t : History) (L : Layout) (t' : History) (head : Nat) (blocks : List (Nat × Header)) :
    Prop where
  table : ∃ M, t'.LaidOut M ∧ M.IsHead head ∧ M.table? head = L.table? head ∧ M.Chain head blocks
  bytes : ∀ block ∈ blocks, ∀ i, block.1 ≤ i → i < block.1 + block.2.blockPart.blockSize.toNat →
    t'.bytes[i]? = t.bytes[i]?
  offsets : ∀ h ∈ t.handles, ∀ table record offset,
    record.toNat ≤ Room.capacity table.width (blocks.map Room.ofBlock) →
    (((h.locate head table record).exec t'.store).1 = .ok offset ↔
      ((h.locate head table record).exec t.store).1 = .ok offset)

/-- What requests to a handle change in the file. -/
structure Confined (t : History) (L : Layout) (h : Handle) : Prop where
  reserved : ∀ {head blocks table slot}, L.Chain head blocks → L.table? head = some table →
    ((h.reserve head).exec t.store).1 = .ok slot →
    if slot.record.toNat ≤ Room.capacity table.width (blocks.map Room.ofBlock) then
      (t.ask h (.reserve head)).bytes.length = t.bytes.length ∧
        ChangedIn [⟨head + 36, 4⟩] t.bytes (t.ask h (.reserve head)).bytes
    else ∃ tail header, blocks.getLast? = some (tail, header) ∧
      Linked tail [⟨head + 36, 4⟩] t.bytes (t.ask h (.reserve head)).bytes
  located : ∀ {chain blocks} (table : TableHeader) (record : UInt32), L.Chain chain blocks →
    (t.ask h (.locate chain table record)).bytes = t.bytes ∨
      Room.capacity table.width (blocks.map Room.ofBlock) < record.toNat ∧
        ∃ tail header, blocks.getLast? = some (tail, header) ∧
          Linked tail [] t.bytes (t.ask h (.locate chain table record)).bytes
  tableAdded : ∀ recordSize, ChangedIn [] t.bytes (t.ask h (.addTable recordSize)).bytes
  appended : ∀ spec, ChangedIn [] t.bytes (t.ask h (.append spec)).bytes
  longer : ∀ {request}, Loose t request → t.bytes.length ≤ (t.ask h request).bytes.length
  apart : ∀ {head head' blocks blocks' request}, L.IsHead head → L.IsHead head' → head ≠ head' →
    L.Chain head blocks → L.Chain head' blocks' → request.Within (blocks.map Prod.fst) →
    Apart t L (t.ask h request) head' blocks'

theorem Sound.reserved (sound : t.Sound L) (mem : h ∈ t.handles) {head : Nat} {table : TableHeader}
    {slot : Slot} (chain : L.Chain head blocks) (part : L.table? head = some table)
    (ran : ((h.reserve head).exec t.store).1 = .ok slot) :
    if slot.record.toNat ≤ Room.capacity table.width (blocks.map Room.ofBlock) then
      (t.ask h (.reserve head)).bytes.length = t.bytes.length ∧
        ChangedIn [⟨head + 36, 4⟩] t.bytes (t.ask h (.reserve head)).bytes
    else ∃ tail header, blocks.getLast? = some (tail, header) ∧
      Linked tail [⟨head + 36, 4⟩] t.bytes (t.ask h (.reserve head)).bytes := by
  obtain ⟨b, rest, found, -⟩ := chain.head_eq
  rw [Layout.table?, found, Option.bind_some] at part
  obtain ⟨M, answer, sound'⟩ := sound.ask mem (.reserve sound.content found)
  have given : (t.ask h (.reserve head)).given = (head, slot) :: t.given := by
    simp only [History.ask]
    rcases ended : (h.reserve head).exec t.store with ⟨_ | slot', s⟩
    · rw [ended] at ran
      cases ran
    · rw [ended] at ran
      cases ran
      rfl
  rw [sound.bytes, sound'.bytes]
  generalize t.ask h (.reserve head) = t' at answer given
  cases answer with
  | refused => exact absurd given.symm (List.cons_ne_self _ _)
  | @reserved _ b' rest' table' record slotSize offset N store found' part' chain' next slots serves =>
    cases List.cons.inj given with
    | intro same _ =>
      cases same
      obtain rfl := chain.unique chain'
      rw [found] at found'
      cases found'
      rw [part] at part'
      cases part'
      obtain ⟨-, rfl⟩ := TableHeader.eq_width slots
      rcases serves.linked chain (Handle.one_le_next next) with
        ⟨rfl, room⟩ | ⟨full, tail, last, added, atEnd, there, ends, rfl⟩
      · rw [if_pos room]
        constructor
        · exact Layout.size_edit fun b _ => Block.size_setLast record b
        · exact Layout.changed_setLast found part record
      · rw [if_neg (Nat.not_le_of_lt full)]
        exact ⟨tail, last.header, atEnd, Layout.linked_setLast there ends added found part record⟩

theorem Sound.located (sound : t.Sound L) (mem : h ∈ t.handles) (table : TableHeader) (record : UInt32)
    (chain : L.Chain o blocks) : (t.ask h (.locate o table record)).bytes = t.bytes ∨
      Room.capacity table.width (blocks.map Room.ofBlock) < record.toNat ∧
        ∃ tail header, blocks.getLast? = some (tail, header) ∧
          Linked tail [] t.bytes (t.ask h (.locate o table record)).bytes := by
  obtain ⟨b, rest, found, -⟩ := chain.head_eq
  obtain ⟨M, answer, sound'⟩ := sound.ask mem (.locate table record sound.content found)
  rw [sound.bytes, sound'.bytes]
  generalize t.ask h (.locate o table record) = t' at answer
  cases answer with
  | refused => exact .inl rfl
  | @located _ blocks' _ _ slotSize offset _ store chain' slots positive serves =>
    obtain rfl := chain.unique chain'
    obtain ⟨-, rfl⟩ := TableHeader.eq_width slots
    rcases serves.linked chain (one_le_record positive) with
      ⟨rfl, -⟩ | ⟨full, tail, last, added, atEnd, there, ends, rfl⟩
    · exact .inl rfl
    · refine .inr ⟨full, tail, last.header, atEnd, ?_⟩
      exact Layout.linked_of there ends added (.refl _) rfl (Layout.at?_attach_tail there added)
        (Block.next_setNext _ _)

theorem Sound.apart (sound : t.Sound L) (mem : h ∈ t.handles) {head head' : Nat}
    {blocks' : List (Nat × Header)} (is : L.IsHead head) (is' : L.IsHead head') (differ : head ≠ head')
    (chain : L.Chain head blocks) (chain' : L.Chain head' blocks')
    (within : request.Within (blocks.map Prod.fst)) : Apart t L (t.ask h request) head' blocks' := by
  have proper := sound.proper
  obtain ⟨M, answer, sound'⟩ := sound.ask mem (sound.loose_of_within chain within)
  have kept {x : Nat × Header} (mem : x ∈ blocks') : ∃ b, L.at? x.1 = some b ∧ M.at? x.1 = some b ∧
      b.header = x.2 := by
    obtain ⟨b, found, header⟩ := chain'.at?_of_mem mem
    have apart := chain'.disjoint proper chain is'.unlinked is.unlinked differ.symm (List.mem_map_of_mem mem)
    exact ⟨b, found, answer.at?_apart chain within found apart, header⟩
  have chain'' : M.Chain head' blocks' := by
    apply chain'.congr
    intro x mem
    obtain ⟨b, -, found, header⟩ := kept mem
    exact ⟨b, found, header⟩
  constructor
  · refine ⟨M, sound'.content, answer.isHead proper is', ?_, chain''⟩
    obtain ⟨b, rest, found, rfl⟩ := chain'.head_eq
    obtain ⟨b', found', still, -⟩ := kept List.mem_cons_self
    rw [Layout.table?, Layout.table?, found', still]
  · intro x mem i low high
    obtain ⟨b, found, still, header⟩ := kept mem
    obtain ⟨c, -, laid⟩ := sound.content
    obtain ⟨k, rfl⟩ := Nat.exists_eq_add_of_le low
    have inside : k < b.size := by
      rw [← (laid.sound.at? found).announced, header]
      omega
    rw [sound.bytes, sound'.bytes, Layout.getElem?_bytes found inside, Layout.getElem?_bytes still inside]
  · intro h' mem' table record offset room
    have mem'' : h' ∈ (t.ask h request).handles := by rwa [handles_ask]
    exact (sound'.located_iff mem'' chain'' room offset).trans (sound.located_iff mem' chain' room offset).symm

/-- On every file that was made by requests about its blocks, tables keep out of each other's way, and a
request changes no bytes but those it is for. -/
theorem run_confined (run : Run Loose t) : ∃ L, t.LaidOut L ∧ (∀ head ∈ t.heads, L.IsHead head) ∧
    ∀ h ∈ t.handles, t.Confined L h := by
  obtain ⟨L, headed⟩ := run.headed
  have sound := headed.sound
  refine ⟨L, sound.content, headed.heads, ?_⟩
  intro h mem
  constructor
  · intro head blocks table slot chain part ran
    exact sound.reserved mem chain part ran
  · intro start blocks table record chain
    exact sound.located mem table record chain
  · intro recordSize
    obtain ⟨M, answer, sound'⟩ := sound.ask mem (.addTable recordSize)
    rw [sound.bytes, sound'.bytes]
    generalize t.ask h (.addTable recordSize) = t' at answer
    cases answer with
    | refused => exact .refl _
    | tableAdded => exact Layout.changed_append _ _
  · intro spec
    obtain ⟨M, answer, sound'⟩ := sound.ask mem (.append spec)
    rw [sound.bytes, sound'.bytes]
    generalize t.ask h (.append spec) = t' at answer
    cases answer with
    | refused => exact .refl _
    | appended => exact Layout.changed_append _ _
  · intro request permitted
    obtain ⟨M, answer, sound'⟩ := sound.ask mem permitted
    rw [sound.bytes, sound'.bytes]
    exact answer.size_le
  · intro head head' blocks blocks' request is is' differ chain chain' within
    exact sound.apart mem is is' differ chain chain' within

/-- In a file of two tables a number of the one is given out. -/
theorem run_confined_sample :
    let two := sample.ask ⟨0⟩ (.addTable 7)
    (two.heads = [64, 0] ∧
      (((⟨0⟩ : Handle).reserve 64).exec two.store).1.toOption = some { record := 1, offset := 104 }) ∧
    ∃ L, two.LaidOut L ∧ L.IsHead 64 ∧ L.IsHead 0 ∧ two.Confined L ⟨0⟩ := by
  intro two
  have seen : two.heads = [64, 0] ∧
      (((⟨0⟩ : Handle).reserve 64).exec two.store).1.toOption = some { record := 1, offset := 104 } := by
    decide +kernel
  have run : Run Loose two := .asked (run_sample Loose) (by simp) (.addTable 7)
  obtain ⟨L, laid, heads, confined⟩ := run_confined run
  rw [seen.1] at heads
  exact ⟨seen, L, laid, heads 64 (by simp), heads 0 (by simp), confined ⟨0⟩ (by simp [two])⟩

end History
end RecordFile
