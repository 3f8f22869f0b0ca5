import Mathlib
import RecordFile.Content
import RecordFile.Proofs.Codec

/-! A file as the concatenation of its blocks. A layout is looked up by offset; main statements: what
the bytes at a block's offset are, and which layout a write inside a block or past the end leaves. -/
namespace RecordFile

/-- A block as it lies in a file: its header and the bytes up to the next block. -/
structure Block where
  header : Header
  payload : List UInt8

namespace Block

def bytes (b : Block) : List UInt8 := b.header.encode ++ b.payload

def size (b : Block) : Nat := b.bytes.length

/-- The block in which all bytes after the header are zero. -/
def blank (header : Header) : Block := ⟨header, List.replicate header.blockPart.payload 0⟩

/-- The header reads back, and the size it announces is that of the block. -/
structure Sound (b : Block) : Prop where
  wellFormed : b.header.WellFormed
  announced : b.header.blockPart.blockSize.toNat = b.size

theorem size_eq (b : Block) : b.size = b.header.encode.length + b.payload.length := by
  simp [size, bytes]

theorem Sound.headerSize_le {b : Block} (h : b.Sound) : b.header.size.toNat ≤ b.size := by
  rw [size_eq, Header.length_encode h.wellFormed]
  omega

theorem size_ge (b : Block) : 32 ≤ b.size := by
  obtain ⟨rest, start⟩ := Header.encode_eq_block b.header
  rw [size_eq, start, List.length_append, BlockHeader.length_encode]
  omega

theorem size_blank {header : Header} (wf : header.WellFormed)
    (room : header.size.toNat ≤ header.blockPart.blockSize.toNat) :
    (blank header).size = header.blockPart.blockSize.toNat := by
  rw [size_eq, blank, Header.length_encode wf, List.length_replicate, BlockHeader.payload]
  rw [Header.size] at room ⊢
  omega

theorem sound_blank {header : Header} (wf : header.WellFormed)
    (room : header.size.toNat ≤ header.blockPart.blockSize.toNat) : (blank header).Sound :=
  ⟨wf, (size_blank wf room).symm⟩

end Block

/-- The blocks of a file, in the order in which they follow each other. -/
abbrev Layout := List Block

namespace Layout

def bytes (L : Layout) : List UInt8 := L.flatMap Block.bytes

def size (L : Layout) : Nat := L.bytes.length

def Sound (L : Layout) : Prop := ∀ b ∈ L, b.Sound

/-- The block that starts at an offset. -/
def at? : Layout → Nat → Option Block
  | [], _ => none
  | b :: rest, offset =>
    if offset = 0 then some b else if offset < b.size then none else at? rest (offset - b.size)

/-- Changes the block that starts at an offset. -/
def edit (change : Block → Block) : Layout → Nat → Layout
  | [], _ => []
  | b :: rest, offset =>
    if offset = 0 then change b :: rest
    else if offset < b.size then b :: rest
    else b :: edit change rest (offset - b.size)

@[simp] theorem size_nil : size [] = 0 := rfl

@[simp] theorem size_cons (b : Block) (L : Layout) : size (b :: L) = b.size + L.size := by
  simp [size, bytes, Block.size]

@[simp] theorem size_append (L M : Layout) : size (L ++ M) = L.size + M.size := by
  simp [size, bytes]

theorem split_at? {L : Layout} {offset : Nat} {b : Block} (found : L.at? offset = some b) :
    ∃ before after : Layout, L = before ++ b :: after ∧ before.size = offset := by
  induction L generalizing offset with
  | nil => cases found
  | cons first rest ih =>
    rw [at?] at found
    split at found
    case isTrue zero =>
      cases found
      exact ⟨[], rest, rfl, zero.symm⟩
    case isFalse later =>
      split at found
      · cases found
      · obtain ⟨before, after, rfl, size⟩ := ih found
        refine ⟨first :: before, after, rfl, ?_⟩
        rw [size_cons]
        omega

theorem edit_split (before after : Layout) (b : Block) (change : Block → Block) :
    edit change (before ++ b :: after) before.size = before ++ change b :: after := by
  induction before with
  | nil => rfl
  | cons first before ih =>
    have pos := first.size_ge
    rw [List.cons_append, edit, size_cons, if_neg (by omega), if_neg (by omega),
      Nat.add_sub_cancel_left, ih]
    rfl

theorem mem_of_at? {L : Layout} {offset : Nat} {b : Block} (found : L.at? offset = some b) :
    b ∈ L := by
  obtain ⟨before, after, rfl, -⟩ := split_at? found
  simp

theorem Sound.at? {L : Layout} (sound : L.Sound) {offset : Nat} {b : Block}
    (found : L.at? offset = some b) : b.Sound := sound b (mem_of_at? found)

theorem at?_le {L : Layout} {offset : Nat} {b : Block} (found : L.at? offset = some b) :
    offset + b.size ≤ L.size := by
  obtain ⟨before, after, rfl, rfl⟩ := split_at? found
  simp

theorem at?_disjoint {L : Layout} {o o' : Nat} {b b' : Block} (found : L.at? o = some b)
    (found' : L.at? o' = some b') (lt : o < o') : o + b.size ≤ o' := by
  induction L generalizing o o' with
  | nil => cases found
  | cons first rest ih =>
    rw [at?] at found found'
    split at found'
    · omega
    · split at found'
      · cases found'
      · split at found
        case isTrue zero =>
          cases found
          omega
        case isFalse =>
          split at found
          · cases found
          · have := ih found found' (by omega)
            omega

theorem edit_of_none {L : Layout} {o : Nat} (found : L.at? o = none) (change : Block → Block) :
    L.edit change o = L := by
  induction L generalizing o with
  | nil => rfl
  | cons first rest ih =>
    rw [at?] at found
    rw [edit]
    split at found
    · cases found
    case isFalse zero =>
      rw [if_neg zero]
      split at found
      case isTrue inside => rw [if_pos inside]
      case isFalse inside => rw [if_neg inside, ih found]

theorem at?_replace (before after : Layout) {b c : Block} (same : c.size = b.size) (o : Nat) :
    at? (before ++ c :: after) o =
      if o = before.size then some c else at? (before ++ b :: after) o := by
  induction before generalizing o with
  | nil =>
    simp only [List.nil_append, at?, size_nil, same]
    split <;> rfl
  | cons first before ih =>
    have pos := first.size_ge
    simp only [List.cons_append, at?, size_cons, ih]
    by_cases zero : o = 0
    · rw [if_pos zero, if_pos zero, if_neg (by omega)]
    · rw [if_neg zero, if_neg zero]
      by_cases inside : o < first.size
      · rw [if_pos inside, if_pos inside, if_neg (by omega)]
      · rw [if_neg inside, if_neg inside]
        by_cases here : o = first.size + size before
        · rw [if_pos here, if_pos (by omega)]
        · rw [if_neg here, if_neg (by omega)]

/-- Only the block at the edited offset changes, and offsets stay as they are. -/
theorem at?_edit {L : Layout} {change : Block → Block} {o : Nat}
    (same : ∀ b, L.at? o = some b → (change b).size = b.size) (o' : Nat) :
    at? (L.edit change o) o' = if o' = o then (L.at? o).map change else L.at? o' := by
  cases found : L.at? o with
  | none =>
    rw [edit_of_none found]
    split
    · subst o'
      exact found
    · rfl
  | some b =>
    have keeps := same b found
    obtain ⟨before, after, rfl, rfl⟩ := split_at? found
    rw [edit_split, at?_replace before after keeps]
    rfl

theorem size_edit {L : Layout} {change : Block → Block} {o : Nat}
    (same : ∀ b, L.at? o = some b → (change b).size = b.size) : size (L.edit change o) = L.size := by
  cases found : L.at? o with
  | none => rw [edit_of_none found]
  | some b =>
    have keeps := same b found
    obtain ⟨before, after, rfl, rfl⟩ := split_at? found
    rw [edit_split]
    simp [keeps]

theorem Sound.edit {L : Layout} (sound : L.Sound) {change : Block → Block} {o : Nat}
    (keeps : ∀ b, L.at? o = some b → (change b).Sound) : Sound (L.edit change o) := by
  cases found : L.at? o with
  | none => rwa [edit_of_none found]
  | some b =>
    have changed := keeps b found
    obtain ⟨before, after, rfl, rfl⟩ := split_at? found
    rw [edit_split]
    intro x hx
    rcases List.mem_append.mp hx with hx | hx
    · exact sound x (by simp [hx])
    · rcases List.mem_cons.mp hx with rfl | hx
      · exact changed
      · exact sound x (by simp [hx])

theorem at?_append (L : Layout) (b : Block) (o : Nat) :
    at? (L ++ [b]) o = if o = L.size then some b else L.at? o := by
  have pos := b.size_ge
  induction L generalizing o with
  | nil =>
    by_cases zero : o = 0
    · simp [at?, zero]
    · simp [at?, zero]
  | cons first rest ih =>
    have pos := first.size_ge
    simp only [List.cons_append, at?, size_cons, ih]
    by_cases zero : o = 0
    · have ne : ¬ 0 = first.size + size rest := by omega
      simp [zero, ne]
    · by_cases inside : o < first.size
      · have ne : ¬ o = first.size + size rest := by omega
        simp [zero, inside, ne]
      · have shift : o - first.size = size rest ↔ o = first.size + size rest := by omega
        simp [zero, inside, shift]

theorem at?_lt {L : Layout} {offset : Nat} {b : Block} (found : L.at? offset = some b) :
    offset < L.size := by
  have := at?_le found
  have := b.size_ge
  omega

/-- What was in a layout stays where it was. -/
theorem at?_append_old {L : Layout} {o : Nat} {x : Block} (b : Block) (there : L.at? o = some x) :
    at? (L ++ [b]) o = some x := by
  have := at?_lt there
  rw [at?_append, if_neg (by omega), there]

theorem bytes_cons_ne_nil (b : Block) (rest : Layout) : bytes (b :: rest) ≠ [] := by
  intro none
  have least := b.size_ge
  have lengths := congrArg List.length none
  rw [bytes, List.flatMap_cons, List.length_append, List.length_nil, ← Block.size] at lengths
  omega

/-- A file has one layout only: each header tells where the next block starts. -/
theorem Sound.unique {L M : Layout} (left : L.Sound) (right : M.Sound) (same : L.bytes = M.bytes) :
    L = M := by
  induction L generalizing M with
  | nil =>
    cases M with
    | nil => rfl
    | cons b rest => exact absurd same.symm (bytes_cons_ne_nil b rest)
  | cons a rest ih =>
    cases M with
    | nil => exact absurd same (bytes_cons_ne_nil a rest)
    | cons b rest' =>
      have soundA := left a (by simp)
      have soundB := right b (by simp)
      simp only [bytes, List.flatMap_cons] at same
      have header : a.header = b.header := by
        have readA := Header.decode_encode soundA.wellFormed (a.payload ++ bytes rest)
        have readB := Header.decode_encode soundB.wellFormed (b.payload ++ bytes rest')
        simp only [Block.bytes, List.append_assoc] at same
        rw [bytes, same] at readA
        rw [bytes, readA] at readB
        exact Except.ok.inj readB
      have sizes : a.bytes.length = b.bytes.length := by
        have announcedA := soundA.announced
        have announcedB := soundB.announced
        rw [header] at announcedA
        rw [Block.size] at announcedA announcedB
        omega
      obtain ⟨block, later⟩ := List.append_inj same sizes
      have payload : a.payload = b.payload := by
        rw [Block.bytes, Block.bytes, header] at block
        exact List.append_cancel_left block
      have tail := ih (fun x hx => left x (by simp [hx])) (fun x hx => right x (by simp [hx])) later
      cases a
      cases b
      simp_all

end Layout

namespace Content

/-- `L` is the layout of the file. -/
structure LaidOut (c : Content) (L : Layout) : Prop where
  bytes : c.toList = L.bytes
  sound : L.Sound

theorem LaidOut.size {c : Content} {L : Layout} (laid : c.LaidOut L) : c.size = L.size := by
  rw [← length_toList, laid.bytes, Layout.size]

theorem LaidOut.unique {c : Content} {L M : Layout} (left : c.LaidOut L) (right : c.LaidOut M) :
    L = M := left.sound.unique right.sound (left.bytes.symm.trans right.bytes)

theorem LaidOut.read {c : Content} {L : Layout} (laid : c.LaidOut L) {o : Nat} {b : Block}
    (found : L.at? o = some b) : ∃ rest, ∀ count, c.read o count = (b.bytes ++ rest).take count := by
  obtain ⟨before, after, rfl, rfl⟩ := Layout.split_at? found
  refine ⟨Layout.bytes after, fun count => ?_⟩
  have split : Layout.bytes (before ++ b :: after) = before.bytes ++ (b.bytes ++ Layout.bytes after) := by
    simp [Layout.bytes]
  have length : Layout.size before = (Layout.bytes before).length := rfl
  rw [toList_read, laid.bytes, split, length, List.drop_left]

/-- A write that stays within the file replaces just the bytes it covers. -/
theorem toList_overwrite {c : Content} {offset : Nat} {data : List UInt8}
    (inside : offset + data.length ≤ c.size) :
    (c.write offset data).toList =
      c.toList.take offset ++ data ++ c.toList.drop (offset + data.length) := by
  by_cases none : data = []
  · subst none
    simp
  · have gap : offset - c.size = 0 := by omega
    rw [toList_write c offset none, gap, List.replicate_zero, List.append_nil]

/-- A write inside a block changes the bytes of that block. -/
theorem LaidOut.toList_write {c : Content} {L : Layout} (laid : c.LaidOut L) {o : Nat} {b : Block}
    (found : L.at? o = some b) {skip : Nat} {data : List UInt8} (inside : skip + data.length ≤ b.size)
    {change : Block → Block}
    (edited : (change b).bytes = b.bytes.take skip ++ data ++ b.bytes.drop (skip + data.length)) :
    (c.write (o + skip) data).toList = (L.edit change o).bytes := by
  have fits := Layout.at?_le found
  rw [← laid.size] at fits
  rw [toList_overwrite (by omega), laid.bytes]
  obtain ⟨before, after, rfl, rfl⟩ := Layout.split_at? found
  rw [Layout.edit_split]
  have length : Layout.size before = (Layout.bytes before).length := rfl
  rw [Block.size] at inside
  simp only [Layout.bytes, List.flatMap_append, List.flatMap_cons, edited]
  rw [← Layout.bytes, ← Layout.bytes, length, Nat.add_assoc, List.take_length_add_append,
    List.drop_length_add_append, List.take_append_of_le_length (by omega),
    List.drop_append_of_le_length (by omega)]
  simp only [List.append_assoc]

theorem LaidOut.write {c : Content} {L : Layout} (laid : c.LaidOut L) {o : Nat} {b : Block}
    (found : L.at? o = some b) {skip : Nat} {data : List UInt8} (inside : skip + data.length ≤ b.size)
    {change : Block → Block} (keeps : (change b).Sound)
    (edited : (change b).bytes = b.bytes.take skip ++ data ++ b.bytes.drop (skip + data.length)) :
    (c.write (o + skip) data).LaidOut (L.edit change o) := by
  refine ⟨laid.toList_write found inside edited, laid.sound.edit fun b' found' => ?_⟩
  rw [found] at found'
  cases found'
  exact keeps

/-- A block is added by its last byte and its header; what lies between is zeros. -/
theorem toList_blank (c : Content) {header : Header} (wf : header.WellFormed)
    (room : header.size.toNat ≤ header.blockPart.blockSize.toNat) :
    ((c.write (c.size + (header.blockPart.blockSize.toNat - 1)) [0]).write c.size header.encode).toList =
      c.toList ++ (Block.blank header).bytes := by
  have length := Header.length_encode wf
  have positive : 0 < header.encode.length := by
    obtain ⟨rest, start⟩ := Header.encode_eq_block header
    rw [start, List.length_append, BlockHeader.length_encode]
    omega
  have extended : (c.write (c.size + (header.blockPart.blockSize.toNat - 1)) [0]).toList =
      c.toList ++ List.replicate header.blockPart.blockSize.toNat 0 := by
    rw [toList_write _ _ (by simp), List.take_of_length_le (by simp), List.drop_of_length_le (by simp; omega),
      List.append_nil, List.append_assoc, Nat.add_sub_cancel_left]
    have split : header.blockPart.blockSize.toNat = header.blockPart.blockSize.toNat - 1 + 1 := by omega
    conv_rhs => rw [split, List.replicate_succ']
  have size : (c.write (c.size + (header.blockPart.blockSize.toNat - 1)) [0]).size =
      c.size + header.blockPart.blockSize.toNat := by
    rw [← length_toList, extended]
    simp
  have drop : c.size + header.encode.length = c.toList.length + header.encode.length := rfl
  rw [toList_overwrite (by omega), extended, drop, List.drop_length_add_append, ← length_toList,
    List.take_left' rfl, List.drop_replicate, length]
  simp [Block.bytes, Block.blank, BlockHeader.payload, Header.size]

theorem LaidOut.append {c : Content} {L : Layout} (laid : c.LaidOut L) {header : Header}
    (wf : header.WellFormed) (room : header.size.toNat ≤ header.blockPart.blockSize.toNat) :
    ((c.write (c.size + (header.blockPart.blockSize.toNat - 1)) [0]).write c.size header.encode).LaidOut
      (L ++ [Block.blank header]) := by
  refine ⟨?_, ?_⟩
  · rw [toList_blank c wf room, laid.bytes]
    simp [Layout.bytes]
  · intro b hb
    rcases List.mem_append.mp hb with hb | hb
    · exact laid.sound b hb
    · rw [List.mem_singleton.mp hb]
      exact Block.sound_blank wf room

end Content
end RecordFile
