import Mathlib
import RecordFile.Region
import RecordFile.Proofs.Edits

/-! Which bytes of a file a change of its layout touches. A header is written back whole, yet of all its
bytes only those of the field that was changed come out different. -/
namespace RecordFile

/-- The one list of bytes is the other, with changes in the regions only, and maybe more at its end. -/
structure ChangedIn (regions : List Region) (old new : List UInt8) : Prop where
  longer : old.length ≤ new.length
  same : ∀ i < old.length, (∀ r ∈ regions, i ∉ r) → new[i]? = old[i]?

namespace ChangedIn

variable {regions more : List Region} {old mid new : List UInt8}

theorem refl (bytes : List UInt8) : ChangedIn [] bytes bytes := ⟨Nat.le_refl _, fun _ _ _ => rfl⟩

theorem trans (first : ChangedIn regions old mid) (second : ChangedIn more mid new) :
    ChangedIn (regions ++ more) old new := by
  constructor
  · exact first.longer.trans second.longer
  · intro i inside apart
    have later := second.same i (Nat.lt_of_lt_of_le inside first.longer)
      fun r mem => apart r (List.mem_append_right _ mem)
    exact later.trans (first.same i inside fun r mem => apart r (List.mem_append_left _ mem))

theorem append (old added : List UInt8) : ChangedIn [] old (old ++ added) := by
  constructor
  · rw [List.length_append]
    omega
  · intro i inside _
    exact List.getElem?_append_left inside

theorem splice (front rest : List UInt8) {part part' : List UInt8} (length : part'.length = part.length) :
    ChangedIn [⟨front.length, part.length⟩] (front ++ part ++ rest) (front ++ part' ++ rest) := by
  constructor
  · simp only [List.length_append, length]
    omega
  · intro i inside apart
    have outside : ¬ (front.length ≤ i ∧ i < front.length + part.length) := apart _ (List.mem_singleton_self _)
    by_cases before : i < front.length
    · rw [List.append_assoc, List.append_assoc, List.getElem?_append_left before,
        List.getElem?_append_left before]
    · have past : front.length + part.length ≤ i := by omega
      rw [List.getElem?_append_right (by simpa [length] using past),
        List.getElem?_append_right (by simpa using past)]
      simp only [List.length_append, length]

end ChangedIn

/-- A block was added at the end, and the one at `tail`, which had no link, was linked to it. Beside that
there are changes in the other regions only. -/
structure Linked (tail : Nat) (others : List Region) (old new : List UInt8) : Prop where
  changed : ChangedIn (⟨tail + 16, 16⟩ :: others) old new
  longer : old.length < new.length
  before : (old.drop (tail + 16)).take 16 = List.replicate 16 0
  after : (new.drop (tail + 16)).take 16 = BlockHeader.encodeLink (some {
    offset := UInt64.ofNat old.length
    size := UInt64.ofNat (new.length - old.length) })

namespace Block

variable {b : Block}

/-- All of a block but its link, around the link. -/
theorem bytes_link (b : Block) : ∃ front rest, front.length = 16 ∧
    b.bytes = front ++ BlockHeader.encodeLink b.header.next ++ rest ∧
    ∀ e, (b.setNext e).bytes = front ++ BlockHeader.encodeLink (some e) ++ rest := by
  obtain ⟨more, start⟩ := Header.encode_eq_block b.header
  have whole : b.bytes = b.header.blockPart.encode ++ (more ++ b.payload) := by
    rw [bytes, start, List.append_assoc]
  refine ⟨LittleEndian.encode 2 b.header.blockPart.kind.code.toNat ++
    LittleEndian.encode 2 b.header.blockPart.headerSize.toNat ++
    LittleEndian.encode 4 b.header.blockPart.blockSize.toNat ++
    LittleEndian.encode 8 b.header.blockPart.firstRecord.toNat, more ++ b.payload, ?_, ?_, ?_⟩
  · simp only [List.length_append, LittleEndian.length_encode]
  · exact whole
  · intro e
    rw [bytes_setNext, whole, List.take_zero, List.nil_append]
    rw [List.drop_left' (BlockHeader.length_encode _)]
    rfl

theorem bytes_last {table : TableHeader} (part : b.header.tablePart? = some table) :
    ∃ front rest, front.length = 36 ∧
      b.bytes = front ++ LittleEndian.encode 4 table.lastRecord.toNat ++ rest ∧
      ∀ record : UInt32, (b.setLast record).bytes = front ++ LittleEndian.encode 4 record.toNat ++ rest := by
  have same : b.setLast table.lastRecord = b := by
    obtain ⟨header, payload⟩ := b
    cases header <;> cases part <;> rfl
  have set (record : UInt32) : (b.setLast record).bytes =
      table.block.encode ++ LittleEndian.encode 4 table.recordSize.toNat ++
        LittleEndian.encode 4 record.toNat ++ b.bytes.drop 40 := by
    rw [bytes_setLast part, List.take_zero, List.nil_append]
    rfl
  refine ⟨_, b.bytes.drop 40, ?_, ?_, set⟩
  · simp only [List.length_append, LittleEndian.length_encode, BlockHeader.length_encode]
  · have old := set table.lastRecord
    rwa [same] at old

end Block

namespace Layout

variable {L : Layout} {o tail : Nat} {b : Block}

theorem bytes_split (found : L.at? o = some b) : ∃ before after : List UInt8, before.length = o ∧
    L.bytes = before ++ b.bytes ++ after ∧
    ∀ change : Block → Block, (L.edit change o).bytes = before ++ (change b).bytes ++ after := by
  obtain ⟨before, after, rfl, rfl⟩ := split_at? found
  refine ⟨before.bytes, after.bytes, rfl, ?_, ?_⟩
  · simp only [bytes, List.flatMap_append, List.flatMap_cons, List.append_assoc]
  · intro change
    rw [edit_split]
    simp only [bytes, List.flatMap_append, List.flatMap_cons, List.append_assoc]

theorem getElem?_bytes (found : L.at? o = some b) {i : Nat} (inside : i < b.size) :
    L.bytes[o + i]? = b.bytes[i]? := by
  obtain ⟨before, after, rfl, whole, -⟩ := bytes_split found
  rw [whole, List.append_assoc, List.getElem?_append_right (by omega), Nat.add_sub_cancel_left]
  exact List.getElem?_append_left inside

/-- The bytes of a block's link are where the block has them. -/
theorem link_bytes (found : L.at? o = some b) :
    (L.bytes.drop (o + 16)).take 16 = BlockHeader.encodeLink b.header.next := by
  obtain ⟨before, after, rfl, whole, -⟩ := bytes_split found
  obtain ⟨front, rest, length, bytes, -⟩ := b.bytes_link
  have place : before.length + 16 = (before ++ front).length := by rw [List.length_append, length]
  rw [whole, bytes, place]
  simp only [List.append_assoc]
  rw [← List.append_assoc before front, List.drop_left]
  exact List.take_left' (BlockHeader.length_encodeLink _)

theorem changed_setNext (found : L.at? o = some b) (e : Extent) :
    ChangedIn [⟨o + 16, 16⟩] L.bytes (L.edit (Block.setNext e) o).bytes := by
  obtain ⟨before, after, rfl, whole, edited⟩ := bytes_split found
  obtain ⟨front, rest, length, bytes, linked⟩ := b.bytes_link
  have same : (BlockHeader.encodeLink (some e)).length = (BlockHeader.encodeLink b.header.next).length := by
    simp
  have change := ChangedIn.splice (before ++ front) (rest ++ after) same
  rw [List.length_append, length, BlockHeader.length_encodeLink] at change
  rw [whole, edited, bytes, linked]
  simpa only [List.append_assoc] using change

theorem changed_setLast (found : L.at? o = some b) {table : TableHeader}
    (part : b.header.tablePart? = some table) (record : UInt32) :
    ChangedIn [⟨o + 36, 4⟩] L.bytes (L.edit (Block.setLast record) o).bytes := by
  obtain ⟨before, after, rfl, whole, edited⟩ := bytes_split found
  obtain ⟨front, rest, length, bytes, set⟩ := Block.bytes_last part
  have same : (LittleEndian.encode 4 record.toNat).length =
      (LittleEndian.encode 4 table.lastRecord.toNat).length := by simp
  have change := ChangedIn.splice (before ++ front) (rest ++ after) same
  rw [List.length_append, length, LittleEndian.length_encode] at change
  rw [whole, edited, bytes, set]
  simpa only [List.append_assoc] using change

theorem changed_append (L : Layout) (added : Block) : ChangedIn [] L.bytes (bytes (L ++ [added])) := by
  have whole : bytes (L ++ [added]) = L.bytes ++ added.bytes := by simp [bytes]
  rw [whole]
  exact .append _ _

theorem changed_attach (found : L.at? tail = some b) (added : Block) :
    ChangedIn [⟨tail + 16, 16⟩] L.bytes (L.attach tail added).bytes :=
  (changed_append L added).trans (changed_setNext (at?_append_old added found) _)

/-- The regions are those of changes made after the block was linked. -/
theorem linked_of {M : Layout} {others : List Region} (found : L.at? tail = some b)
    (ends : b.header.next = none) (added : Block)
    (later : ChangedIn others (L.attach tail added).bytes M.bytes) (size : M.size = (L.attach tail added).size)
    {b' : Block} (found' : M.at? tail = some b') (next : b'.header.next =
      some { offset := UInt64.ofNat L.size, size := UInt64.ofNat added.size }) :
    Linked tail others L.bytes M.bytes := by
  have least := added.size_ge
  rw [size_attach] at size
  have longer : M.bytes.length - L.bytes.length = added.size := by
    change M.size - L.size = added.size
    omega
  refine ⟨(changed_attach found added).trans later, ?_, ?_, ?_⟩
  · change L.size < M.size
    omega
  · rw [link_bytes found, ends]
    rfl
  · rw [link_bytes found', next, longer]
    rfl

end Layout
end RecordFile
