import Mathlib
import RecordFile.Proofs.Chains

/-! The ways in which blocks and layouts change: a link or a last record number is set, a part of a
payload is overwritten, a block is added. A proper layout stays one under each of them. -/
namespace RecordFile

theorem toNat_offset {n : Nat} (fits : n ≤ maxOffset) : (UInt64.ofNat n).toNat = n :=
  UInt64.toNat_ofNat_of_lt' (Nat.lt_of_le_of_lt fits (by decide))

namespace Block

/-- Links another block after this one. -/
def setNext (e : Extent) (b : Block) : Block :=
  { b with header := b.header.mapBlock fun block => { block with next := some e } }

/-- Moves the last record number of a table's head. -/
def setLast (record : UInt32) (b : Block) : Block :=
  { b with header := b.header.mapTable fun table => { table with lastRecord := record } }

/-- Overwrites bytes of the payload. -/
def fill (skip : Nat) (data : List UInt8) (b : Block) : Block :=
  { b with payload := b.payload.take skip ++ data ++ b.payload.drop (skip + data.length) }

variable {b : Block}

@[simp] theorem next_setNext (e : Extent) (b : Block) : (b.setNext e).header.next = some e := by
  simp [setNext, Header.next]

@[simp] theorem next_setLast (record : UInt32) (b : Block) :
    (b.setLast record).header.next = b.header.next := by
  simp only [setLast]
  cases b.header <;> rfl

theorem tablePart?_setNext {t : TableHeader} (part : b.header.tablePart? = some t) (e : Extent) :
    (b.setNext e).header.tablePart? = some { t with block.next := some e } := by
  rw [setNext, Header.tablePart?_mapBlock, part]
  rfl

theorem length_encode_le (header : Header) : 32 ≤ header.encode.length := by
  obtain ⟨rest, start⟩ := Header.encode_eq_block header
  rw [start, List.length_append, BlockHeader.length_encode]
  omega

theorem length_encode_table {header : Header} {t : TableHeader} (part : header.tablePart? = some t) :
    40 ≤ header.encode.length := by
  revert part
  cases header <;> simp [Header.tablePart?, Header.encode]

@[simp] theorem size_setNext (e : Extent) (b : Block) : (b.setNext e).size = b.size := by
  have := length_encode_le b.header
  simp only [size_eq, setNext, Header.encode_mapBlock, List.length_append, List.length_drop,
    BlockHeader.length_encode]
  omega

@[simp] theorem size_setLast (record : UInt32) (b : Block) : (b.setLast record).size = b.size := by
  simp only [size_eq, setLast]
  cases b.header <;> simp [Header.mapTable, Header.encode]

theorem size_fill {skip : Nat} {data : List UInt8} (inside : skip + data.length ≤ b.payload.length) :
    (b.fill skip data).size = b.size := by
  simp only [size_eq, fill, List.length_append, List.length_take, List.length_drop]
  omega

/-- A link is set by writing the first 32 bytes of a header. -/
theorem bytes_setNext (e : Extent) (b : Block) :
    (b.setNext e).bytes =
      b.bytes.take 0 ++ ({ b.header.blockPart with next := some e } : BlockHeader).encode
        ++ b.bytes.drop (0 + 32) := by
  have := length_encode_le b.header
  simp only [bytes, setNext, Header.encode_mapBlock, List.take_zero, List.nil_append, Nat.zero_add]
  rw [List.drop_append_of_le_length (by omega), List.append_assoc]

/-- The counts are set by writing the first 40 bytes of a table's head. -/
theorem bytes_mapTable {t : TableHeader} (part : b.header.tablePart? = some t) (change : TableHeader → TableHeader) :
    ({ b with header := b.header.mapTable change } : Block).bytes =
      b.bytes.take 0 ++ (change t).encode ++ b.bytes.drop (0 + 40) := by
  have long := length_encode_table part
  simp only [bytes, Header.encode_mapTable part, List.take_zero, List.nil_append, Nat.zero_add]
  rw [List.drop_append_of_le_length long, List.append_assoc]

theorem bytes_setLast {t : TableHeader} (part : b.header.tablePart? = some t) (record : UInt32) :
    (b.setLast record).bytes =
      b.bytes.take 0 ++ ({ t with lastRecord := record } : TableHeader).encode ++ b.bytes.drop (0 + 40) :=
  bytes_mapTable part _

theorem bytes_fill {skip : Nat} {data : List UInt8} (b : Block) :
    (b.fill skip data).bytes =
      b.bytes.take (b.header.encode.length + skip) ++ data
        ++ b.bytes.drop (b.header.encode.length + skip + data.length) := by
  simp only [bytes, fill, Nat.add_assoc, List.take_length_add_append, List.drop_length_add_append]
  simp only [List.append_assoc]

theorem Sound.setNext (sound : b.Sound) {e : Extent} (fits : e.Storable) : (b.setNext e).Sound where
  wellFormed := sound.wellFormed.mapBlock_next fits
  announced := by
    rw [size_setNext, ← sound.announced]
    simp [Block.setNext]

theorem Sound.setLast (sound : b.Sound) {record : UInt32} (small : record.toNat < 2 ^ 31) :
    (b.setLast record).Sound where
  wellFormed := sound.wellFormed.mapTable_last small
  announced := by
    rw [size_setLast, ← sound.announced]
    simp only [Block.setLast]
    cases b.header <;> rfl

theorem Sound.fill (sound : b.Sound) {skip : Nat} {data : List UInt8}
    (inside : skip + data.length ≤ b.payload.length) : (b.fill skip data).Sound where
  wellFormed := sound.wellFormed
  announced := by
    rw [size_fill inside, ← sound.announced]
    rfl

end Block

namespace Layout

/-- Adds a block and links it after the one at `tail`. -/
def attach (L : Layout) (tail : Nat) (b : Block) : Layout :=
  (L ++ [b]).edit (Block.setNext { offset := UInt64.ofNat L.size, size := UInt64.ofNat b.size }) tail

variable {settings : Settings} {L : Layout}

theorem mem_edit {change : Block → Block} {o : Nat} {x : Block} (mem : x ∈ L.edit change o) :
    x ∈ L ∨ ∃ b, L.at? o = some b ∧ x = change b := by
  cases found : L.at? o with
  | none =>
    rw [edit_of_none found] at mem
    exact .inl mem
  | some b =>
    obtain ⟨before, after, rfl, rfl⟩ := split_at? found
    rw [edit_split] at mem
    rcases List.mem_append.mp mem with mem | mem
    · exact .inl (by simp [mem])
    · rcases List.mem_cons.mp mem with rfl | mem
      · exact .inr ⟨b, rfl, rfl⟩
      · exact .inl (by simp [mem])

theorem at?_attach {tail : Nat} {last : Block} (found : L.at? tail = some last) (b : Block) (o : Nat) :
    (L.attach tail b).at? o =
      if o = tail then some (last.setNext { offset := UInt64.ofNat L.size, size := UInt64.ofNat b.size })
      else if o = L.size then some b else L.at? o := by
  rw [attach, at?_edit fun _ _ => Block.size_setNext _ _, at?_append_old b found, at?_append]
  rfl

section Added

variable {o tail : Nat} {b last x : Block} {e : Extent}

/-- A block without a link adds no link. -/
theorem next_append (ends : b.header.next = none) (there : at? (L ++ [b]) o = some x)
    (next : x.header.next = some e) : L.at? o = some x := by
  rw [at?_append] at there
  split at there
  · cases there
    rw [ends] at next
    cases next
  · exact there

theorem at?_attach_tail (found : L.at? tail = some last) (b : Block) : (L.attach tail b).at? tail =
    some (last.setNext { offset := UInt64.ofNat L.size, size := UInt64.ofNat b.size }) := by
  rw [at?_attach found, if_pos rfl]

theorem at?_attach_end (found : L.at? tail = some last) (b : Block) :
    (L.attach tail b).at? L.size = some b := by
  have := at?_lt found
  rw [at?_attach found, if_neg (by omega), if_pos rfl]

theorem at?_attach_apart (found : L.at? tail = some last) (b : Block) (there : L.at? o = some x)
    (apart : o ≠ tail) : (L.attach tail b).at? o = some x := by
  have := at?_lt there
  rw [at?_attach found, if_neg apart, if_neg (by omega), there]

/-- A link is the new one or an old one. -/
theorem next_attach (found : L.at? tail = some last) (ends : b.header.next = none)
    (there : (L.attach tail b).at? o = some x) (next : x.header.next = some e) :
    (o = tail ∧ e = { offset := UInt64.ofNat L.size, size := UInt64.ofNat b.size }) ∨
      (o ≠ tail ∧ L.at? o = some x) := by
  by_cases here : o = tail
  · subst here
    rw [at?_attach_tail found] at there
    cases there
    rw [Block.next_setNext] at next
    cases next
    exact .inl ⟨rfl, rfl⟩
  · rw [at?_attach found, if_neg here] at there
    split at there
    · cases there
      rw [ends] at next
      cases next
    · exact .inr ⟨here, there⟩

end Added

theorem size_attach (tail : Nat) (b : Block) : (L.attach tail b).size = L.size + b.size := by
  rw [attach, size_edit fun _ _ => Block.size_setNext _ _, size_append, size_cons, size_nil]
  rfl

namespace Proper

/-- Changes that keep a block's size and link, and the settings in the first block. -/
theorem edit (proper : L.Proper settings) {change : Block → Block} {o : Nat}
    (size : ∀ b, L.at? o = some b → (change b).size = b.size)
    (next : ∀ b, (change b).header.next = b.header.next)
    (head : ∀ b header, b.header = .file header → ∃ header', (change b).header = .file header' ∧
      header'.chunkSize = header.chunkSize ∧ header'.table.recordSize = header.table.recordSize) :
    Proper settings (L.edit change o) := by
  have back : ∀ {p b}, (L.edit change o).at? p = some b →
      ∃ b', L.at? p = some b' ∧ b'.header.next = b.header.next ∧ b'.size = b.size := by
    intro p b found
    rw [at?_edit size] at found
    split at found
    case isTrue here =>
      obtain ⟨b', found', rfl⟩ := Option.map_eq_some_iff.mp found
      exact ⟨b', here ▸ found', (next b').symm, (size b' found').symm⟩
    case isFalse => exact ⟨b, found, rfl, rfl⟩
  have forth : ∀ {p b}, L.at? p = some b →
      ∃ b', (L.edit change o).at? p = some b' ∧ b'.size = b.size := by
    intro p b found
    rw [at?_edit size]
    split
    case isTrue here =>
      subst here
      exact ⟨change b, by rw [found]; rfl, size b found⟩
    case isFalse => exact ⟨b, found, rfl⟩
  refine ⟨proper.accepted, ?_, ?_, ?_, ?_, ?_⟩
  · rw [size_edit size]
    exact proper.small
  · intro x mem
    rcases mem_edit mem with mem | ⟨b, found, rfl⟩
    · exact proper.chunked x mem
    · rw [size b found]
      exact proper.chunked b (mem_of_at? found)
  · intro p b e found link
    obtain ⟨b', found', next', -⟩ := back found
    obtain ⟨later, target, there, size'⟩ := proper.forward found' (next'.trans link)
    obtain ⟨target', there', same⟩ := forth there
    exact ⟨later, target', there', same.trans size'⟩
  · intro p p' b b' e e' found found' link link' same
    obtain ⟨c, foundC, nextC, -⟩ := back found
    obtain ⟨c', foundC', nextC', -⟩ := back found'
    exact proper.single foundC foundC' (nextC.trans link) (nextC'.trans link') same
  · obtain ⟨b, header, found, file, chunk, record⟩ := proper.head
    rw [at?_edit size]
    split
    case isTrue here =>
      subst here
      obtain ⟨header', file', chunk', record'⟩ := head b header file
      exact ⟨change b, header', by rw [found]; rfl, file', chunk'.trans chunk, record'.trans record⟩
    case isFalse => exact ⟨b, header, found, file, chunk, record⟩

theorem size_pos (proper : L.Proper settings) : 0 < L.size := by
  obtain ⟨b, header, found, -⟩ := proper.head
  exact at?_lt found

theorem append (proper : L.Proper settings) {b : Block} (chunked : settings.chunkSize.toNat ∣ b.size)
    (fits : L.size + b.size ≤ maxOffset) (ends : b.header.next = none) :
    Proper settings (L ++ [b]) := by
  refine ⟨proper.accepted, ?_, ?_, ?_, ?_, ?_⟩
  · rw [size_append, size_cons, size_nil]
    exact fits
  · intro x mem
    rcases List.mem_append.mp mem with mem | mem
    · exact proper.chunked x mem
    · rw [List.mem_singleton.mp mem]
      exact chunked
  · intro p x e found link
    obtain ⟨later, target, there, size⟩ := proper.forward (next_append ends found link) link
    exact ⟨later, target, at?_append_old b there, size⟩
  · intro p p' x x' e e' found found' link link' same
    exact proper.single (next_append ends found link) (next_append ends found' link') link link' same
  · obtain ⟨x, header, found, rest⟩ := proper.head
    exact ⟨x, header, at?_append_old b found, rest⟩

theorem attach (proper : L.Proper settings) {tail : Nat} {last b : Block}
    (found : L.at? tail = some last) (chunked : settings.chunkSize.toNat ∣ b.size)
    (fits : L.size + b.size ≤ maxOffset) (ends : b.header.next = none) :
    Proper settings (L.attach tail b) := by
  let e : Extent := { offset := UInt64.ofNat L.size, size := UInt64.ofNat b.size }
  have start : e.start = L.size := toNat_offset (by omega)
  have size : e.size.toNat = b.size := toNat_offset (by omega)
  have kept : ∀ {p x}, L.at? p = some x → ∃ y, (L.attach tail b).at? p = some y ∧ y.size = x.size := by
    intro p x there
    by_cases here : p = tail
    · subst here
      rw [found] at there
      cases there
      exact ⟨_, at?_attach_tail found b, Block.size_setNext _ _⟩
    · exact ⟨x, at?_attach_apart found b there here, rfl⟩
  -- No old link leads to where the new block is.
  have apart : ∀ {p x e'}, L.at? p = some x → x.header.next = some e' → e'.start ≠ L.size := by
    intro p x e' there next
    obtain ⟨-, target, within, -⟩ := proper.forward there next
    exact Nat.ne_of_lt (at?_lt within)
  refine ⟨proper.accepted, ?_, ?_, ?_, ?_, ?_⟩
  · rw [size_attach]
    exact fits
  · intro x mem
    rcases mem_edit mem with mem | ⟨y, there, rfl⟩
    · rcases List.mem_append.mp mem with mem | mem
      · exact proper.chunked x mem
      · rw [List.mem_singleton.mp mem]
        exact chunked
    · rw [at?_append_old b found] at there
      cases there
      rw [Block.size_setNext]
      exact proper.chunked last (mem_of_at? found)
  · intro p x e' there next
    rcases next_attach found ends there next with ⟨rfl, rfl⟩ | ⟨-, there⟩
    · rw [start]
      exact ⟨at?_lt found, b, at?_attach_end found b, size.symm⟩
    · obtain ⟨later, target, there, same⟩ := proper.forward there next
      obtain ⟨y, there, same'⟩ := kept there
      exact ⟨later, y, there, same'.trans same⟩
  · intro p p' x x' e₁ e₂ there there' next next' same
    rcases next_attach found ends there next with ⟨rfl, rfl⟩ | ⟨-, old⟩
    · rcases next_attach found ends there' next' with ⟨rfl, -⟩ | ⟨-, old'⟩
      · rfl
      · exact absurd (same.symm.trans start) (apart old' next')
    · rcases next_attach found ends there' next' with ⟨rfl, rfl⟩ | ⟨-, old'⟩
      · exact absurd (same.trans start) (apart old next)
      · exact proper.single old old' next next' same
  · obtain ⟨x, header, there, file, rest⟩ := proper.head
    by_cases here : 0 = tail
    · subst here
      rw [found] at there
      cases there
      exact ⟨_, { header with table.block.next := some e }, at?_attach_tail found b,
        by simp only [Block.setNext, file, Header.mapBlock, e], rest⟩
    · exact ⟨x, header, at?_attach_apart found b there here, file, rest⟩

end Proper

end Layout
end RecordFile
