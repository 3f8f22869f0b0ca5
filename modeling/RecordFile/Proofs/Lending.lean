import Mathlib
import RecordFile.Proofs.Locating
import RecordFile.Proofs.Working

/-! Lending the head of a table to a body. What happens before the body and after it depends on the
store alone, so a reservation is known once its body is. -/
namespace RecordFile

/-- The bytes of a table's head that a reservation locks. -/
def Region.head (offset : Nat) : Region := ⟨offset, tableHeaderSize.toNat⟩

theorem Region.head_stop (offset : Nat) : (head offset).stop = offset + 40 := rfl

theorem LockTable.contended_add (t : LockTable) (owner : Nat) (file location : Location) (r r' : Region) :
    (t.add owner file r).contended owner location r' = t.contended owner location r' := by
  simp [contended, add]

namespace Handle

variable {h : Handle} {s : Store} {f : OpenFile} {c : Content}

/-- The bytes of a file after a body that was lent those of a region. -/
def edited {α : Type} {r : Region} (c : Content) : Except Fault (Outcome α × Vector UInt8 r.len) → Content
  | .ok (outcome, bytes) => if outcome.isCommit then c.write r.offset bytes.toList else c
  | .error _ => c

theorem exec_writeBack (sees : h.Sees s f c) {r : Region} {bytes : List UInt8}
    (length : bytes.length = r.len) (fits : r.stop ≤ maxOffset) :
    ∃ s' p, (h.writeBack r bytes).exec s = (.ok (), s') ∧
      h.Leaves s { f with position := p } (c.write r.offset bytes) s.locks s' := by
  obtain ⟨s', p, ran, left⟩ := exec_writeAt sees r.offset bytes (by rw [length]; exact fits)
  refine ⟨s', p, ?_, left⟩
  rw [writeBack, Action.exec_tryCatch, ran]

/-- What is done with the bytes of a region that a body returns. -/
def lend {ρ α : Type} (h : Handle) (r : Region) (body : Work ρ (Outcome α × Vector UInt8 r.len)) : Work ρ α := do
  let (outcome, edited) ← body
  if outcome.isCommit then
    perform (h.writeBack r edited.toList)
  return outcome.value

end Handle

namespace Work

variable {h : Handle} {s : Store} {f : OpenFile} {c : Content} {r : Region} {ρ α : Type}

theorem exec_lend {f₂ : OpenFile} {c₂ : Content} {s₂ : Store}
    {body : Work ρ (Outcome α × Vector UInt8 r.len)} {result : Except Fault (Outcome α × Vector UInt8 r.len)}
    {x y : ρ} (fits : r.stop ≤ maxOffset) (ran : exec body x s = ((result, y), s₂)) (sees : h.Sees s₂ f₂ c₂) :
    ∃ s₃ p, exec (h.lend r body) x s = ((result.map fun ended => ended.1.value, y), s₃) ∧
      h.Leaves s₂ { f₂ with position := p } (Handle.edited c₂ result) s₂.locks s₃ := by
  rw [Handle.lend]
  cases result with
  | error fault => exact ⟨s₂, f₂.position, exec_bind_error ran _, sees.leaves⟩
  | ok ended =>
    obtain ⟨outcome, bytes⟩ := ended
    cases outcome with
    | keep value => exact ⟨s₂, f₂.position, exec_bind_ok ran _, sees.leaves⟩
    | commit value =>
      obtain ⟨s₃, p, ran₃, left₃⟩ := Handle.exec_writeBack sees bytes.length_toList fits
      refine ⟨s₃, p, ?_, left₃⟩
      exact (exec_bind_ok ran _).trans (exec_bind_ok (exec_perform_of ran₃ y) _)

/-- Only the body has a say in what is in mind after it. -/
theorem mind_lend (body : Work ρ (Outcome α × Vector UInt8 r.len)) (x : ρ) (s : Store) :
    (exec (h.lend r body) x s).1.2 = (exec body x s).1.2 := by
  rw [Handle.lend, exec_bind]
  rcases exec body x s with ⟨⟨fault | ⟨value | value, edited⟩, y⟩, s'⟩
  · rfl
  · rfl
  · show (exec (perform _ >>= _) y s').1.2 = y
    rw [exec_bind, exec_perform]
    rcases (h.writeBack r edited.toList).exec s' with ⟨_ | _, s''⟩ <;> rfl

theorem exec_ensuring_congr {work work' : Work ρ α} {x : ρ} {s s' : Store} (same : exec work x s = exec work' x s')
    (after : Work ρ Unit) : exec (ensuring work after) x s = exec (ensuring work' after) x s' := by
  simp only [exec_ensuring, same]

/-- Once a region is locked and its bytes are read, they are lent to the body. -/
theorem exec_editing_eq (sees : h.Sees s f c) (some : r.len ≠ 0) (fits : r.stop ≤ maxOffset)
    (free : h.Free s f r) {bytes : Vector UInt8 r.len} (read : c.read r.offset r.len = bytes.toList) :
    ∃ s₁ p, h.Leaves s { f with position := p, held := r :: f.held } c
        (s.locks.add h.descriptor f.location r) s₁ ∧
      ∀ {ρ α : Type} (body : Vector UInt8 r.len → Work ρ (Outcome α × Vector UInt8 r.len)) (x : ρ),
        exec (h.editing r body) x s =
          exec (ensuring (ensuring (h.lend r (body bytes)) (perform (h.seek f.position)))
            (perform (h.letGo r))) x s₁ := by
  obtain ⟨s₁, holds, left₁⟩ := Handle.exec_hold sees some fits free
  obtain ⟨s₂, p, ran₂, left₂⟩ := Handle.exec_readAt left₁.sees r.offset r.len fits
  refine ⟨s₂, p, left₁.trans_quiet left₂ rfl, ?_⟩
  intro ρ α body x
  have whole : (c.read r.offset r.len).length = r.len := by rw [read, Vector.length_toList]
  have same : (⟨(c.read r.offset r.len).toArray, whole⟩ : Vector UInt8 r.len) = bytes :=
    Vector.toList_inj.mp read
  have saved := exec_perform_of (Handle.exec_position left₁.sees) x
  rw [Handle.editing, Handle.locked, exec_bind_ok (exec_perform_of holds x)]
  apply exec_ensuring_congr
  rw [Handle.keepingPosition, exec_bind_ok saved]
  apply exec_ensuring_congr
  rw [exec_bind_ok (exec_perform_of ran₂ x), dif_pos whole, same]
  rfl

/-- A body runs on the bytes of a region that is locked. When it is over the region is let go, whatever
else has happened to the store. -/
theorem exec_editing (sees : h.Sees s f c) (some : r.len ≠ 0) (fits : r.stop ≤ maxOffset)
    (free : h.Free s f r) {bytes : Vector UInt8 r.len} (read : c.read r.offset r.len = bytes.toList) :
    ∃ s₁ p, h.Leaves s { f with position := p, held := r :: f.held } c
        (s.locks.add h.descriptor f.location r) s₁ ∧
      (∀ {ρ α : Type} (body : Vector UInt8 r.len → Work ρ (Outcome α × Vector UInt8 r.len)) (x : ρ),
        (exec (h.editing r body) x s).1.2 = (exec (body bytes) x s₁).1.2) ∧
      ∀ {ρ α : Type} (body : Vector UInt8 r.len → Work ρ (Outcome α × Vector UInt8 r.len))
        {x y result s₂ f₂ c₂ rest}, exec (body bytes) x s₁ = ((result, y), s₂) → h.Sees s₂ f₂ c₂ →
        f₂.held = r :: rest →
        ∃ s₃, exec (h.editing r body) x s = ((result.map fun ended => ended.1.value, y), s₃) ∧
          h.Leaves s₂ { f₂ with position := f.position, held := rest } (Handle.edited c₂ result)
            (s₂.locks.remove h.descriptor r) s₃ := by
  obtain ⟨s₁, p, left₁, edits⟩ := exec_editing_eq sees some fits free read
  refine ⟨s₁, p, left₁, ?_, ?_⟩
  · intro ρ α body x
    rw [edits]
    exact mind_lend (body bytes) x s₁
  · intro ρ α body x y result s₂ f₂ c₂ rest ran₂ sees₂ held
    obtain ⟨s₃, p₃, ran₃, left₃⟩ := exec_lend fits ran₂ sees₂
    obtain ⟨s₄, ran₄, left₄⟩ := Handle.exec_seek left₃.sees _ sees.position
    have both := left₃.trans_quiet left₄ rfl
    obtain ⟨s₅, ran₅, left₅⟩ := Handle.exec_letGo both.sees some fits held
    refine ⟨s₅, ?_, both.locks ▸ both.trans left₅ rfl⟩
    rw [edits]
    simp only [exec_ensuring, ran₃, exec_perform, ran₄, ran₅]
    cases result <;> rfl

theorem perform_bind {β : Type} (act : Action α) (next : α → Action β) :
    (perform (act >>= next) : Work ρ β) = perform act >>= fun value => perform (next value) := by
  funext x s
  show ((((act >>= next).exec s).1, x), ((act >>= next).exec s).2) = exec (perform act >>= _) x s
  rw [exec_bind, Action.exec_bind, exec_perform]
  rcases act.exec s with ⟨fault | value, s'⟩ <;> rfl

theorem perform_liftExcept (result : Except Fault α) : (perform (liftM result) : Work ρ α) = liftM result := by
  cases result <;> rfl

end Work

namespace Handle

variable {h : Handle} {s : Store} {f : OpenFile} {c : Content} {L M : Layout} {settings : Settings}

/-- What a reservation does with the first bytes of a table's head before its body is run. -/
def prepare (h : Handle) (head : Nat) (bytes : Vector UInt8 tableHeaderSize.toNat) :
    Action (TableHeader × Slot) := do
  let table ← orFault (TableHeader.decode bytes.toList) .corruptHeader
  let record ← (liftM table.nextRecord : Action UInt32)
  let offset ← h.locate head table record
  let fresh ← h.readTable head
  return (fresh, { record, offset })

/-- What a reservation does with the first bytes of a table's head. -/
def reserving {ρ α : Type} (h : Handle) (head : Nat) (body : TableHeader → Slot → Work ρ (Outcome α × TableHeader))
    (bytes : Vector UInt8 tableHeaderSize.toNat) : Work ρ (Outcome α × Vector UInt8 tableHeaderSize.toNat) := do
  let (fresh, slot) ← perform (h.prepare head bytes)
  let (outcome, edited) ← body fresh slot
  return (outcome, if outcome.isCommit then edited.encodeVector else bytes)

theorem reserveWith_eq {ρ α : Type} (h : Handle) (head : Nat)
    (body : TableHeader → Slot → Work ρ (Outcome α × TableHeader)) :
    h.reserveWith head body = h.editing (.head head) (h.reserving head body) := by
  refine congrArg (h.editing (.head head)) (funext fun bytes => ?_)
  simp only [reserving, prepare, Work.perform_bind, Work.perform_liftExcept, bind_assoc]
  rfl

section Prepare

variable {o : Nat} {b : Block} {blocks : List (Nat × Header)} {table : TableHeader} {record : UInt32}
  {bytes : Vector UInt8 tableHeaderSize.toNat} {rest : List UInt8}

/-- The region that a reservation locks lies in the file, and the region that growth locks is apart
from it. -/
theorem head_fits (proper : L.Proper settings) (found : L.at? o = some b) :
    (Region.head o).len ≠ 0 ∧ (Region.head o).stop ≤ L.size ∧ ¬ (Region.head o).Overlaps .growth := by
  have large := proper.chunk_le_size found
  have chunk_pos := proper.chunk_pos
  have inside := Layout.at?_le found
  refine ⟨by simp [Region.head, tableHeaderSize], ?_, ?_⟩
  · rw [Region.head_stop]
    omega
  · obtain ⟨k, rfl⟩ := proper.dvd_at? found
    rintro ⟨before, after⟩
    have start : Region.growth.offset = 40 := rfl
    have stop : Region.growth.stop = 48 := rfl
    rw [stop] at before
    rw [start, Region.head_stop] at after
    have here : settings.chunkSize.toNat * k < 48 := before
    have zero : k = 0 := by
      by_contra some
      have := Nat.le_mul_of_pos_right settings.chunkSize.toNat (Nat.pos_of_ne_zero some)
      omega
    subst zero
    omega

theorem Free.inside {r r' : Region} {s₁ : Store} {p : Nat} (free : h.Free s f r') (apart : ¬ r.Overlaps r')
    (left : h.Leaves s { f with position := p, held := r :: f.held } c
      (s.locks.add h.descriptor f.location r) s₁) :
    h.Free s₁ { f with position := p, held := r :: f.held } r' := by
  refine ⟨fun region mem => ?_, ?_⟩
  · rcases List.mem_cons.mp mem with rfl | mem
    · exact apart
    · exact free.held region mem
  · rw [left.locks, LockTable.contended_add]
    exact free.locks

theorem nextRecord_ok (next : table.nextRecord = .ok record) :
    record.toNat = table.lastRecord.toNat + 1 ∧ record.toNat < 2 ^ 31 := by
  rw [TableHeader.nextRecord] at next
  split at next
  · cases next
  case isFalse small =>
    cases next
    have one : (1 : UInt32).toNat = 1 := rfl
    have sum : (table.lastRecord + 1).toNat = table.lastRecord.toNat + 1 := by
      rw [UInt32.toNat_add, one]
      omega
    omega

theorem one_le_next (next : table.nextRecord = .ok record) : 1 ≤ record.toNat := by
  rw [(nextRecord_ok next).1]
  omega

theorem head_read (laid : c.LaidOut L) (found : L.at? o = some b) (fits : (Region.head o).stop ≤ L.size) :
    ∃ (bytes : Vector UInt8 tableHeaderSize.toNat) (rest : List UInt8),
      c.read o tableHeaderSize.toNat = bytes.toList ∧ bytes.toList = (b.header.encode ++ rest).take 40 := by
  have size : tableHeaderSize.toNat = 40 := rfl
  obtain ⟨rest, bytes⟩ := laid.read found
  have whole : (c.read o tableHeaderSize.toNat).length = tableHeaderSize.toNat := by
    rw [Region.head_stop, ← laid.size] at fits
    rw [Content.toList_read, size, List.length_take, List.length_drop, Content.length_toList]
    omega
  refine ⟨⟨(c.read o tableHeaderSize.toNat).toArray, whole⟩, b.payload ++ rest, rfl, ?_⟩
  show c.read o 40 = _
  rw [bytes, Block.bytes, List.append_assoc]

theorem exec_prepare_next (laid : c.LaidOut L) (found : L.at? o = some b)
    (part : b.header.tablePart? = some table) (starts : bytes.toList = (b.header.encode ++ rest).take 40)
    (next : table.nextRecord = .ok record) (s : Store) :
    (h.prepare o bytes).exec s = Action.exec (do
      let offset ← h.locate o table record
      let fresh ← h.readTable o
      return (fresh, ({ record, offset } : Slot))) s := by
  have decoded := Header.decode_take_table (laid.sound.at? found).wellFormed part rest
  rw [← starts] at decoded
  rw [prepare, decoded, Action.exec_bind_ok (Action.exec_orFault_ok ..), next]
  exact Action.exec_bind_ok (Action.exec_liftExcept (.ok record) s) _

theorem exec_prepare_located (laid : c.LaidOut L) (found : L.at? o = some b)
    (part : b.header.tablePart? = some table) (starts : bytes.toList = (b.header.encode ++ rest).take 40)
    (next : table.nextRecord = .ok record) {offset : Nat} {s₁ : Store} {f₁ : OpenFile} {c₁ : Content}
    {t : LockTable} (ran : (h.locate o table record).exec s = (.ok offset, s₁))
    (left : h.Leaves s f₁ c₁ t s₁) (laid₁ : c₁.LaidOut M) (small : M.size ≤ maxOffset) {b' : Block}
    (found' : M.at? o = some b') {fresh : TableHeader} (part' : b'.header.tablePart? = some fresh) :
    ∃ s₂ p, (h.prepare o bytes).exec s = (.ok (fresh, { record, offset }), s₂) ∧
      h.Leaves s { f₁ with position := p } c₁ t s₂ := by
  obtain ⟨s₂, p, ran₂, left₂⟩ := exec_readTable left.sees laid₁ small found' part'
  refine ⟨s₂, p, ?_, left.trans_quiet left₂ rfl⟩
  rw [exec_prepare_next laid found part starts next, Action.exec_bind_ok ran, Action.exec_bind_ok ran₂,
    Action.exec_pure]

theorem exec_prepare_overflow (laid : c.LaidOut L) (found : L.at? o = some b)
    (part : b.header.tablePart? = some table) (starts : bytes.toList = (b.header.encode ++ rest).take 40)
    {fault : Fault} (next : table.nextRecord = .error fault) (s : Store) :
    (h.prepare o bytes).exec s = (.error fault, s) := by
  have decoded := Header.decode_take_table (laid.sound.at? found).wellFormed part rest
  rw [← starts] at decoded
  rw [prepare, decoded, Action.exec_bind_ok (Action.exec_orFault_ok ..), next]
  exact Action.exec_bind_error (Action.exec_liftExcept (.error fault) s) _

/-- Either the next number is found its slot, by growing the chain where that is needed, or no byte
changes. -/
theorem exec_prepare (sees : h.Sees s f c) (laid : c.LaidOut L) (proper : L.Proper settings)
    (chunk : f.header.chunkSize = settings.chunkSize) (found : L.at? o = some b) (chain : L.Chain o blocks)
    (starts : bytes.toList = (b.header.encode ++ rest).take 40) :
    (∃ table record slotSize offset M s' p c' t fresh b', b.header.tablePart? = some table ∧
      table.nextRecord = .ok record ∧ table.slotSize = .ok slotSize ∧
      L.Serves settings o blocks slotSize record.toNat offset M ∧
      (h.prepare o bytes).exec s = (.ok (fresh, { record, offset }), s') ∧
      h.Leaves s { f with position := p } c' t s' ∧ c'.LaidOut M ∧ M.at? o = some b' ∧
      b'.header.tablePart? = some fresh) ∨
    (∃ fault s' p e t, (h.prepare o bytes).exec s = (.error fault, s') ∧
      h.Leaves s { f with position := p, lastErrno := e } c t s') := by
  cases part : b.header.tablePart? with
  | none =>
    obtain ⟨defect, decoded⟩ := Header.decode_take_plain (laid.sound.at? found).wellFormed part rest
    rw [← starts] at decoded
    refine .inr ⟨.corruptHeader defect, s, f.position, f.lastErrno, _, ?_, sees.leaves⟩
    rw [prepare, decoded]
    exact Action.exec_bind_error (Action.exec_orFault_error ..) _
  | some table =>
    cases next : table.nextRecord with
    | error fault =>
      exact .inr ⟨fault, s, f.position, f.lastErrno, _, exec_prepare_overflow laid found part starts next s,
        sees.leaves⟩
    | ok record =>
      rcases exec_locate sees laid proper chunk chain table record with
        ⟨slotSize, offset, M, s₁, p, c₁, t, slots, positive, serves, ran, left, laid₁⟩ |
        ⟨fault, s₁, p, e, t, ran, left, -⟩
      · have some_ := one_le_record positive
        obtain ⟨b', fresh, found', part'⟩ := serves.tablePart? chain some_ found part
        obtain ⟨s₂, p₂, ran₂, left₂⟩ := exec_prepare_located laid found part starts next ran left laid₁
          (serves.proper proper chain some_).small found' part'
        exact .inl ⟨table, record, slotSize, offset, M, s₂, p₂, c₁, t, fresh, b', rfl, next, slots, serves, ran₂,
          left₂, laid₁, found', part'⟩
      · refine .inr ⟨fault, s₁, p, e, t, ?_, left⟩
        rw [exec_prepare_next laid found part starts next, Action.exec_bind_error ran]

/-- A number that is left, and that the chain can serve, is found its slot if growth can be locked. -/
theorem exec_prepare_served (sees : h.Sees s f c) (laid : c.LaidOut L) (proper : L.Proper settings)
    (chunk : f.header.chunkSize = settings.chunkSize) (found : L.at? o = some b)
    (part : b.header.tablePart? = some table) (chain : L.Chain o blocks)
    (starts : bytes.toList = (b.header.encode ++ rest).take 40) (next : table.nextRecord = .ok record)
    {slotSize offset : Nat} (slots : table.slotSize = .ok slotSize)
    (serves : L.Serves settings o blocks slotSize record.toNat offset M) (free : h.Free s f .growth) :
    ∃ s' p c' t fresh b', (h.prepare o bytes).exec s = (.ok (fresh, { record, offset }), s') ∧
      h.Leaves s { f with position := p } c' t s' ∧ c'.LaidOut M ∧ M.Proper settings ∧ M.at? o = some b' ∧
      b'.header.tablePart? = some fresh := by
  have some_ := one_le_next next
  have positive : record ≠ 0 := by
    rintro rfl
    exact absurd some_ (by decide)
  obtain ⟨s₁, p, c₁, t, ran, left, laid₁⟩ :=
    exec_locate_served sees laid proper chunk chain slots positive serves free
  have proper₁ := serves.proper proper chain some_
  obtain ⟨b', fresh, found', part'⟩ := serves.tablePart? chain some_ found part
  obtain ⟨s₂, p₂, ran₂, left₂⟩ := exec_prepare_located laid found part starts next ran left laid₁
    proper₁.small found' part'
  exact ⟨s₂, p₂, c₁, t, fresh, b', ran₂, left₂, laid₁, proper₁, found', part'⟩

/-- The bytes of a file after a body that was lent the head of a table. -/
def committed {α : Type} (head : Nat) (c : Content) : Except Fault (Outcome α × TableHeader) → Content
  | .ok (.commit _, table) => c.write head table.encodeVector.toList
  | _ => c

end Prepare

end Handle

namespace Work

variable {h : Handle} {s : Store} {f : OpenFile} {c : Content} {L : Layout} {settings : Settings}
  {ρ α : Type}

theorem exec_reserveWith_refused {head : Nat} {fault : Fault} {x : ρ}
    {body : TableHeader → Slot → Work ρ (Outcome α × TableHeader)}
    (refused : (h.hold (.head head)).exec s = (.error fault, s)) :
    exec (h.reserveWith head body) x s = ((.error fault, x), s) :=
  exec_bind_error (exec_perform_of refused x) _

theorem mind_reserving {head : Nat} {bytes : Vector UInt8 tableHeaderSize.toNat} {s₂ : Store} {fresh : TableHeader}
    {slot : Slot} (ran : (h.prepare head bytes).exec s = (.ok (fresh, slot), s₂))
    (body : TableHeader → Slot → Work ρ (Outcome α × TableHeader)) (x : ρ) :
    (exec (h.reserving head body bytes) x s).1.2 = (exec (body fresh slot) x s₂).1.2 := by
  rw [Handle.reserving, exec_bind_ok (exec_perform_of ran x), exec_bind]
  rcases exec (body fresh slot) x s₂ with ⟨⟨_ | _, y⟩, s₃⟩ <;> rfl

/-- A reservation of a table whose head can be locked: first what is done before the body, and if that
succeeds the body, on the header and the slot that were found. -/
theorem exec_reserveWith (sees : h.Sees s f c) (laid : c.LaidOut L) (proper : L.Proper settings)
    {o : Nat} {b : Block} (found : L.at? o = some b) (free : h.Free s f (.head o)) :
    ∃ (bytes : Vector UInt8 tableHeaderSize.toNat) (rest : List UInt8) (s₁ : Store) (p : Nat),
      bytes.toList = (b.header.encode ++ rest).take 40 ∧
      h.Leaves s { f with position := p, held := .head o :: f.held } c
        (s.locks.add h.descriptor f.location (.head o)) s₁ ∧
      (∀ {fault s₂ f₂ c₂}, (h.prepare o bytes).exec s₁ = (.error fault, s₂) → h.Sees s₂ f₂ c₂ →
        f₂.held = .head o :: f.held →
        ∀ {ρ α : Type} (body : TableHeader → Slot → Work ρ (Outcome α × TableHeader)) x,
        ∃ s₃, exec (h.reserveWith o body) x s = ((.error fault, x), s₃) ∧
          h.Leaves s₂ { f₂ with position := f.position, held := f.held } c₂
            (s₂.locks.remove h.descriptor (.head o)) s₃) ∧
      (∀ {fresh slot s₂}, (h.prepare o bytes).exec s₁ = (.ok (fresh, slot), s₂) →
        ∀ {ρ α : Type} (body : TableHeader → Slot → Work ρ (Outcome α × TableHeader)) x,
        (exec (h.reserveWith o body) x s).1.2 = (exec (body fresh slot) x s₂).1.2) ∧
      ∀ {fresh slot s₂}, (h.prepare o bytes).exec s₁ = (.ok (fresh, slot), s₂) →
        ∀ {ρ α : Type} (body : TableHeader → Slot → Work ρ (Outcome α × TableHeader))
          {x y result s₃ f₃ c₃}, exec (body fresh slot) x s₂ = ((result, y), s₃) → h.Sees s₃ f₃ c₃ →
        f₃.held = .head o :: f.held →
        ∃ s₄, exec (h.reserveWith o body) x s = ((result.map fun ended => ended.1.value, y), s₄) ∧
          h.Leaves s₃ { f₃ with position := f.position, held := f.held } (Handle.committed o c₃ result)
            (s₃.locks.remove h.descriptor (.head o)) s₄ := by
  obtain ⟨nonempty, fits, -⟩ := Handle.head_fits proper found
  obtain ⟨bytes, rest, read, starts⟩ := Handle.head_read laid found fits
  obtain ⟨s₁, p, left₁, minds, finish⟩ := exec_editing sees nonempty (fits.trans proper.small) free read
  refine ⟨bytes, rest, s₁, p, starts, left₁, ?_, ?_, ?_⟩
  · intro fault s₂ f₂ c₂ ran sees₂ held ρ α body x
    rw [h.reserveWith_eq o body]
    exact finish (h.reserving o body) (exec_bind_error (exec_perform_of ran x) _) sees₂ held
  · intro fresh slot s₂ ran ρ α body x
    rw [h.reserveWith_eq o body]
    exact (minds (h.reserving o body) x).trans (mind_reserving ran body x)
  · intro fresh slot s₂ ran ρ α body x y result s₃ f₃ c₃ ran₃ sees₃ held
    let stored (ended : Outcome α × TableHeader) : Outcome α × Vector UInt8 tableHeaderSize.toNat :=
      (ended.1, if ended.1.isCommit then ended.2.encodeVector else bytes)
    have whole : exec (h.reserving o body bytes) x s₁ = ((result.map stored, y), s₃) := by
      rw [Handle.reserving, exec_bind_ok (exec_perform_of ran x)]
      cases result with
      | error fault => exact exec_bind_error ran₃ _
      | ok ended => exact exec_bind_ok ran₃ _
    obtain ⟨s₄, ran₄, left₄⟩ := finish (h.reserving o body) whole sees₃ held
    refine ⟨s₄, ?_, ?_⟩
    · rw [h.reserveWith_eq o body]
      refine ran₄.trans ?_
      cases result <;> rfl
    · have bytes : Handle.edited (r := .head o) c₃ (result.map stored) = Handle.committed o c₃ result := by
        rcases result with fault | ⟨value | value, edited⟩ <;> rfl
      exact bytes ▸ left₄

end Work
end RecordFile
