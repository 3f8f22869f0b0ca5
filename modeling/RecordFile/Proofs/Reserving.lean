import Mathlib
import RecordFile.Proofs.Lending

/-! Giving out record numbers and adding tables. A reservation finds the slot first and then moves the
last record number in the head as it is after that, so a link that the growth just put there stays. -/
namespace RecordFile

namespace Layout

variable {L : Layout} {o : Nat}

theorem at?_setLast (record : UInt32) {b : Block} (found : L.at? o = some b) :
    (L.edit (Block.setLast record) o).at? o = some (b.setLast record) := by
  rw [at?_edit fun b _ => Block.size_setLast record b, if_pos rfl, found]
  rfl

theorem tablePart?_setLast (record : UInt32) {b : Block} {table : TableHeader}
    (part : b.header.tablePart? = some table) :
    (b.setLast record).header.tablePart? = some { table with lastRecord := record } := by
  rw [Block.setLast, Header.tablePart?_mapTable, part]
  rfl

end Layout

/-- A table's block that was rounded up to chunks passes if its record size can be stored. -/
theorem BlockSpec.check_table {size recordSize chunkSize : UInt32} (positive : 0 < chunkSize.toNat)
    (whole : size.toNat = roundUp (40 + (recordSize.toNat + 1)) chunkSize.toNat) :
    (table size recordSize).check chunkSize = .ok () ↔ recordSize.toNat < 2 ^ 31 := by
  constructor
  · intro checked
    exact (check_ok checked).2.2.2
  · intro signed
    have room : 40 + (recordSize.toNat + 1) ≤ size.toNat := whole ▸ le_roundUp positive
    refine check_of (whole ▸ dvd_roundUp) ?_ signed
    show 40 ≤ size.toNat
    omega

namespace Handle

variable {h : Handle} {s : Store} {f : OpenFile} {c : Content} {L M : Layout} {settings : Settings}

section Reserve

variable {o : Nat} {b : Block} {table : TableHeader} {record : UInt32}

theorem laidOut_setLast (laid : c.LaidOut L) (found : L.at? o = some b)
    (part : b.header.tablePart? = some table) (small : record.toNat < 2 ^ 31) :
    (c.write o ({ table with lastRecord := record } : TableHeader).encodeVector.toList).LaidOut
      (L.edit (Block.setLast record) o) := by
  have length : (({ table with lastRecord := record } : TableHeader).encodeVector.toList).length = 40 :=
    Vector.length_toList
  have sound := laid.sound.at? found
  have long := Block.length_encode_table part
  have least := b.size_eq
  show Content.LaidOut (c.write (o + 0) _) _
  refine laid.write found ?_ (sound.setLast small) ?_
  · rw [length]
    omega
  · rw [length]
    exact Block.bytes_setLast part record

/-- The body of a reservation that commits the number and does nothing else. -/
def giveOut (table : TableHeader) (slot : Slot) : Work Unit (Outcome Slot × TableHeader) :=
  pure (.commit slot, { table with lastRecord := slot.record })

theorem mirrors_reserve : Work.Mirrors (h.reserveWith o giveOut) (h.reserve o) := .reserveWith fun _ _ => .pure _

theorem exec_reserve_of {result : Except Fault Slot} {s' : Store}
    (ran : Work.exec (h.reserveWith o giveOut) () s = ((result, ()), s')) :
    (h.reserve o).exec s = (result, s') := by
  rw [← mirrors_reserve () s, ran]

section Locked

variable (sees : h.Sees s f c) (laid : c.LaidOut L) (proper : L.Proper settings) (found : L.at? o = some b)
  (free : h.Free s f (.head o))

include sees laid proper found free

/-- A number is given out where there is one left, the chain can serve it, and the head and growth can be
locked. -/
theorem exec_reserve_served (chunk : f.header.chunkSize = settings.chunkSize)
    (part : b.header.tablePart? = some table) {blocks : List (Nat × Header)} (chain : L.Chain o blocks)
    (next : table.nextRecord = .ok record) {slotSize offset : Nat} (slots : table.slotSize = .ok slotSize)
    (serves : L.Serves settings o blocks slotSize record.toNat offset M) (growth : h.Free s f .growth) :
    ∃ s' c' t' b' table', (h.reserve o).exec s = (.ok { record, offset }, s') ∧ h.Leaves s f c' t' s' ∧
      c'.LaidOut (M.edit (Block.setLast record) o) ∧ M.Proper settings ∧ M.at? o = some b' ∧
      b'.header.tablePart? = some table' := by
  obtain ⟨bytes, rest, s₁, p, starts, left₁, -, -, finish⟩ := Work.exec_reserveWith sees laid proper found free
  obtain ⟨s₂, p₂, c₂, t₂, fresh, b', prepared, left₂, laid₂, proper₂, found', part'⟩ :=
    exec_prepare_served left₁.sees laid proper chunk found part chain starts next slots serves
      (growth.inside (head_fits proper found).2.2 left₁)
  obtain ⟨s₃, ran₃, left₃⟩ := finish prepared giveOut rfl left₂.sees rfl
  exact ⟨s₃, _, _, b', fresh, exec_reserve_of ran₃, (left₁.trans left₂ rfl).trans left₃ rfl,
    laidOut_setLast laid₂ found' part' (nextRecord_ok next).2, proper₂, found', part'⟩

/-- When the numbers are used up, nothing changes at all but for locks of the handle's own on the head. -/
theorem exec_reserve_overflow (part : b.header.tablePart? = some table) {fault : Fault}
    (next : table.nextRecord = .error fault) :
    ∃ s', (h.reserve o).exec s = (.error fault, s') ∧
      h.Leaves s f c ((s.locks.add h.descriptor f.location (.head o)).remove h.descriptor (.head o)) s' := by
  obtain ⟨bytes, rest, s₁, p, starts, left₁, failed, -, -⟩ := Work.exec_reserveWith sees laid proper found free
  obtain ⟨s₂, ran₂, left₂⟩ := failed (exec_prepare_overflow laid found part starts next s₁) left₁.sees rfl
    giveOut ()
  exact ⟨s₂, exec_reserve_of ran₂, left₁.locks ▸ left₁.trans left₂ rfl⟩

end Locked

/-- Either the slot of the next number has been found before the body runs, and the reservation comes to what any
body then does with it, or whatever the body would do no byte changes. -/
theorem exec_reserveWith_found (sees : h.Sees s f c) (laid : c.LaidOut L) (proper : L.Proper settings)
    (chunk : f.header.chunkSize = settings.chunkSize) (found : L.at? o = some b)
    {blocks : List (Nat × Header)} (chain : L.Chain o blocks) :
    (∃ table record slotSize offset M s₁ p c₁ t fresh b', b.header.tablePart? = some table ∧
      table.nextRecord = .ok record ∧ table.slotSize = .ok slotSize ∧
      L.Serves settings o blocks slotSize record.toNat offset M ∧
      h.Leaves s { f with position := p, held := .head o :: f.held } c₁ t s₁ ∧ c₁.LaidOut M ∧ M.at? o = some b' ∧
      b'.header.tablePart? = some fresh ∧
      ∀ {ρ α : Type} (body : TableHeader → Slot → Work ρ (Outcome α × TableHeader)) {x y result s₂ f₂ c₂},
        Work.exec (body fresh { record, offset }) x s₁ = ((result, y), s₂) → h.Sees s₂ f₂ c₂ →
        f₂.held = .head o :: f.held →
        ∃ s₃, Work.exec (h.reserveWith o body) x s = ((result.map fun ended => ended.1.value, y), s₃) ∧
          h.Leaves s₂ { f₂ with position := f.position, held := f.held } (committed o c₂ result)
            (s₂.locks.remove h.descriptor (.head o)) s₃) ∨
    (∃ fault e, ∀ {ρ α : Type} (body : TableHeader → Slot → Work ρ (Outcome α × TableHeader)) (x : ρ),
      ∃ s' t, Work.exec (h.reserveWith o body) x s = ((.error fault, x), s') ∧
        h.Leaves s { f with lastErrno := e } c t s') := by
  by_cases free : h.Free s f (.head o)
  case neg =>
    obtain ⟨nonempty, fits, -⟩ := head_fits proper found
    obtain ⟨fault, refused, -⟩ := exec_hold_refused sees nonempty (fits.trans proper.small) free
    exact .inr ⟨fault, f.lastErrno, fun _ _ => ⟨s, _, Work.exec_reserveWith_refused refused, sees.leaves⟩⟩
  obtain ⟨bytes, rest, s₁, p, starts, left₁, failed, -, finish⟩ := Work.exec_reserveWith sees laid proper found free
  rcases exec_prepare left₁.sees laid proper chunk found chain starts with
    ⟨table, record, slotSize, offset, M, s₂, p₂, c₂, t₂, fresh, b', part, next, slots, serves, prepared, left₂,
      laid₂, found', part'⟩ | ⟨fault, s₂, p₂, e, t₂, prepared, left₂⟩
  · exact .inl ⟨table, record, slotSize, offset, M, s₂, p₂, c₂, t₂, fresh, b', part, next, slots, serves,
      left₁.trans left₂ rfl, laid₂, found', part', finish prepared⟩
  · refine .inr ⟨fault, e, fun body x => ?_⟩
    obtain ⟨s₃, ran₃, left₃⟩ := failed prepared left₂.sees rfl body x
    exact ⟨s₃, _, ran₃, (left₁.trans left₂ rfl).trans left₃ rfl⟩

/-- A reservation whose body does nothing with the store either lends the body the next number and its slot or
changes no byte. -/
theorem exec_reserveWith_saying (sees : h.Sees s f c) (laid : c.LaidOut L) (proper : L.Proper settings)
    (chunk : f.header.chunkSize = settings.chunkSize) (found : L.at? o = some b)
    {blocks : List (Nat × Header)} (chain : L.Chain o blocks) {ρ α : Type}
    (say : TableHeader → Slot → ρ → Except Fault (Outcome α × TableHeader) × ρ) (x : ρ) :
    (∃ table record slotSize offset M s' c' t fresh b', b.header.tablePart? = some table ∧
      table.nextRecord = .ok record ∧ table.slotSize = .ok slotSize ∧
      L.Serves settings o blocks slotSize record.toNat offset M ∧ c'.LaidOut M ∧ M.at? o = some b' ∧
      b'.header.tablePart? = some fresh ∧
      Work.exec (h.reserveWith o fun table slot => Work.saying (say table slot)) x s =
        (((say fresh { record, offset } x).1.map fun ended => ended.1.value, (say fresh { record, offset } x).2),
          s') ∧
      h.Leaves s f (committed o c' (say fresh { record, offset } x).1) t s') ∨
    (∃ fault s' e t, Work.exec (h.reserveWith o fun table slot => Work.saying (say table slot)) x s =
        ((.error fault, x), s') ∧ h.Leaves s { f with lastErrno := e } c t s') := by
  rcases exec_reserveWith_found sees laid proper chunk found chain with
    ⟨table, record, slotSize, offset, M, s₁, p, c₁, t₁, fresh, b', part, next, slots, serves, left₁, laid₁, found',
      part', finish⟩ | ⟨fault, e, fails⟩
  · obtain ⟨s₂, ran₂, left₂⟩ := finish (fun table slot => Work.saying (say table slot)) rfl left₁.sees rfl
    exact .inl ⟨table, record, slotSize, offset, M, s₂, c₁, _, fresh, b', part, next, slots, serves, laid₁, found',
      part', ran₂, left₁.trans left₂ rfl⟩
  · obtain ⟨s', t, ran, left⟩ := fails (fun table slot => Work.saying (say table slot)) x
    exact .inr ⟨fault, s', e, t, ran, left⟩

/-- A reservation either gives out the next number or changes no byte. -/
theorem exec_reserve (sees : h.Sees s f c) (laid : c.LaidOut L) (proper : L.Proper settings)
    (chunk : f.header.chunkSize = settings.chunkSize) (found : L.at? o = some b)
    {blocks : List (Nat × Header)} (chain : L.Chain o blocks) :
    (∃ table record slotSize offset M s' c' t, b.header.tablePart? = some table ∧
      table.nextRecord = .ok record ∧ table.slotSize = .ok slotSize ∧
      L.Serves settings o blocks slotSize record.toNat offset M ∧
      (h.reserve o).exec s = (.ok { record, offset }, s') ∧ h.Leaves s f c' t s' ∧
      c'.LaidOut (M.edit (Block.setLast record) o)) ∨
    (∃ fault s' e t, (h.reserve o).exec s = (.error fault, s') ∧
      h.Leaves s { f with lastErrno := e } c t s') := by
  rcases exec_reserveWith_saying sees laid proper chunk found chain
      (fun table slot x => (.ok (.commit slot, { table with lastRecord := slot.record }), x)) () with
    ⟨table, record, slotSize, offset, M, s', c', t, fresh, b', part, next, slots, serves, laid', found', part', ran,
      left⟩ | ⟨fault, s', e, t, ran, left⟩
  · exact .inl ⟨table, record, slotSize, offset, M, s', _, t, part, next, slots, serves, exec_reserve_of ran, left,
      laidOut_setLast laid' found' part' (nextRecord_ok next).2⟩
  · exact .inr ⟨fault, s', e, t, exec_reserve_of ran, left⟩

end Reserve

/-- A table is refused for the size of its records, or its block is appended under the growth lock. -/
theorem exec_addTable_cases (sees : h.Sees s f c) (recordSize : UInt32) :
    ((recordSize = 0 ∨ 2 ^ 32 ≤ roundUp (40 + (recordSize.toNat + 1)) f.header.chunkSize.toNat) ∧
      ∃ fault, (h.addTable recordSize).exec s = (.error fault, s)) ∨
    ∃ size : UInt32, recordSize ≠ 0 ∧
      size.toNat = roundUp (40 + (recordSize.toNat + 1)) f.header.chunkSize.toNat ∧
      (h.addTable recordSize).exec s =
        Action.exec (h.growing (m := StateM Store) (h.append (.table size recordSize))) s := by
  have room : tableHeaderSize.toNat + (recordSize.toNat + presenceSize) = 40 + (recordSize.toNat + 1) := rfl
  by_cases zero : recordSize = 0
  · refine .inl ⟨.inl zero, .variableLength, ?_⟩
    simp only [addTable, if_pos zero]
    rfl
  simp only [addTable, if_neg zero]
  rw [Action.exec_bind_ok (exec_chunkSize sees), room]
  by_cases large : 0x100000000 ≤ roundUp (40 + (recordSize.toNat + 1)) f.header.chunkSize.toNat
  · refine .inl ⟨.inr large, .parameter (.recordTooLarge recordSize), ?_⟩
    rw [if_pos large]
    rfl
  · refine .inr ⟨.ofNat _, zero, UInt32.toNat_ofNat_of_lt' (Nat.lt_of_not_le large), ?_⟩
    rw [if_neg large]

/-- A table's head is added at the end of the file, or no byte changes; the latter only if growth is
locked, or if the size of the records or of the file does not allow it. -/
theorem exec_addTable (sees : h.Sees s f c) (laid : c.LaidOut L) (proper : L.Proper settings)
    (chunk : f.header.chunkSize = settings.chunkSize) (recordSize : UInt32) :
    (∃ size s' c' t, recordSize ≠ 0 ∧
      size.toNat = roundUp (40 + (recordSize.toNat + 1)) settings.chunkSize.toNat ∧
      (BlockSpec.table size recordSize).check settings.chunkSize = .ok () ∧
      L.size + size.toNat ≤ maxOffset ∧
      (h.addTable recordSize).exec s =
        (.ok { offset := UInt64.ofNat L.size, size := UInt64.ofNat size.toNat }, s') ∧
      h.Leaves s f c' t s' ∧
      c'.LaidOut (L ++ [Layout.fresh (.table size recordSize) settings.chunkSize])) ∨
    (∃ fault s' e t, (h.addTable recordSize).exec s = (.error fault, s') ∧
      h.Leaves s { f with lastErrno := e } c t s' ∧
      (h.Free s f .growth → recordSize ≠ 0 → recordSize.toNat < 2 ^ 31 →
        roundUp (40 + (recordSize.toNat + 1)) settings.chunkSize.toNat < 2 ^ 32 →
        maxOffset < L.size + roundUp (40 + (recordSize.toNat + 1)) settings.chunkSize.toNat)) := by
  rcases exec_addTable_cases sees recordSize with ⟨wrong, fault, ran⟩ | ⟨size, nonzero, whole, same⟩
  · refine .inr ⟨fault, s, f.lastErrno, _, ran, sees.leaves, fun _ some _ small => ?_⟩
    rw [chunk] at wrong
    exact absurd small (Nat.not_lt_of_le (wrong.resolve_left some))
  rw [chunk] at whole
  rw [same, ← whole]
  by_cases free : h.Free s f .growth
  case neg =>
    obtain ⟨fault, ran, -⟩ := exec_growing_refused sees free (h.append (.table size recordSize))
    exact .inr ⟨fault, s, f.lastErrno, _, ran, sees.leaves, fun some => absurd some free⟩
  obtain ⟨s₁, holds, left₁⟩ := exec_hold sees Region.growth_fits.1 Region.growth_fits.2 free
  by_cases served : (BlockSpec.table size recordSize).check settings.chunkSize = .ok () ∧
      L.size + size.toNat ≤ maxOffset
  · obtain ⟨s₂, c₂, ran₂, left₂, laid₂⟩ := exec_append left₁.sees laid proper chunk served.1 served.2
    obtain ⟨s₃, ran₃, left₃⟩ := exec_growing sees holds left₁ ran₂ left₂ rfl rfl fun _ failed => by cases failed
    exact .inl ⟨size, s₃, c₂, _, nonzero, rfl, served.1, served.2, ran₃, left₃, laid₂⟩
  · have refused : (BlockSpec.table size recordSize).check settings.chunkSize = .ok () →
        maxOffset < L.size + (BlockSpec.table size recordSize).size.toNat :=
      fun checked => Nat.lt_of_not_le fun fits => served ⟨checked, fits⟩
    obtain ⟨fault, s₂, e, ran₂, left₂, -, final⟩ := exec_append_refused left₁.sees laid proper chunk refused
    obtain ⟨s₃, ran₃, left₃⟩ := exec_growing sees holds left₁ ran₂ left₂ rfl rfl
      fun _ failed => Except.error.inj failed ▸ final
    exact .inr ⟨fault, s₃, e, _, ran₃, left₃, fun _ _ signed _ =>
      refused ((BlockSpec.check_table proper.chunk_some whole).mpr signed)⟩

end Handle
end RecordFile
