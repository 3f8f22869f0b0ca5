import Mathlib
import RecordFile.Proofs.Growth
import RecordFile.Proofs.Holding
import RecordFile.Proofs.Placement

/-! Locating a record, growing its chain where that is needed. The chain grows by one block or not at
all, and the record's slot is then in the block that was added. -/
namespace RecordFile

/-- The bytes of the file header whose lock lets one handle at a time make the file longer. -/
def Region.growth : Region := ⟨growthOffset, growthLength⟩

theorem Region.growth_fits : growth.len ≠ 0 ∧ growth.stop ≤ maxOffset := by decide

theorem TableHeader.slotSize_pos {table : TableHeader} {slotSize : Nat}
    (slots : table.slotSize = .ok slotSize) : 0 < slotSize := by
  rw [TableHeader.slotSize] at slots
  split at slots
  · cases slots
  · cases slots
    exact Nat.succ_pos _

/-- How a chain can serve a record: there is a slot, or a block for it fits after the tail. -/
inductive Layout.Serves (settings : Settings) (L : Layout) (o : Nat) (blocks : List (Nat × Header))
    (slotSize record : Nat) : Nat → Layout → Prop
  | found {offset : Nat} :
      Search.place (searchAll slotSize record 1 o blocks) = .ok (.slot offset) →
      Serves settings L o blocks slotSize record offset L
  | grown {tail start : Nat} {size : UInt32} :
      Search.place (searchAll slotSize record 1 o blocks) = .ok (.beyond tail start) →
      growthSize (record - start + 1) slotSize settings.chunkSize = .ok size →
      L.size + size.toNat ≤ maxOffset →
      Serves settings L o blocks slotSize record (L.size + 32 + (record - start) * slotSize)
        (L.attach tail (Layout.fresh (.data size (UInt64.ofNat start)) settings.chunkSize))

theorem BlockSpec.check_data {records slotSize : Nat} {chunkSize size : UInt32}
    (positive : 0 < chunkSize.toNat) (ok : growthSize records slotSize chunkSize = .ok size)
    (first : UInt64) : (data size first).check chunkSize = .ok () := by
  have whole := growthSize_ok ok
  have room : 32 + records * slotSize ≤ size.toNat := whole ▸ le_roundUp positive
  refine check_of (whole ▸ dvd_roundUp) ?_ (show 0 < 2 ^ 31 by decide)
  show 32 ≤ size.toNat
  omega

theorem BlockSpec.header_data (size chunkSize : UInt32) (first : UInt64) :
    (data size first).header chunkSize =
      .block { kind := .data, headerSize := blockHeaderSize, blockSize := size, firstRecord := first } := by
  rw [header]
  by_cases zero : first = 0
  · subst zero
    rfl
  · have some : (data size first).firstRecord ≠ 0 := zero
    rw [if_neg some]
    rfl

theorem Layout.Chain.beyond {L : Layout} {o slotSize record tail start : Nat}
    {blocks : List (Nat × Header)} (chain : L.Chain o blocks) (positive : 1 ≤ record)
    (place : Search.place (searchAll slotSize record 1 o blocks) = .ok (.beyond tail start)) :
    (∃ front b, blocks = front ++ [(tail, b.header)] ∧ L.at? tail = some b ∧ b.header.next = none) ∧
      1 ≤ start ∧ start ≤ record := by
  obtain ⟨front, last, b, rfl, found, next⟩ := chain.split_last
  cases ran : searchAll slotSize record 1 o (front ++ [(last, b.header)]) with
  | mk ending result =>
    rw [ran] at place
    cases result with
    | found offset => cases place
    | misnumbered offset stored expected => cases place
    | searching start' =>
      obtain ⟨rfl, low, high⟩ := searchAll_searching positive ran
      simp only [Search.place, Ending.offset, List.map_append, List.map_cons, List.map_nil,
        List.getLastD_concat] at place
      cases place
      exact ⟨⟨front, b, rfl, found, next⟩, low, high⟩

namespace Layout

variable {settings : Settings} {L M : Layout} {o slotSize record offset : Nat}
  {blocks : List (Nat × Header)}

/-- Every block of the one is in the other, where it may be linked to a next one if it was not before. -/
def Extends (L M : Layout) : Prop :=
  ∀ p b, L.at? p = some b → ∃ b', M.at? p = some b' ∧ (b' = b ∨ b.header.next = none ∧ ∃ e, b' = b.setNext e)

theorem Extends.refl (L : Layout) : L.Extends L := fun _ b found => ⟨b, found, .inl rfl⟩

theorem Extends.trans {N : Layout} (first : L.Extends M) (second : M.Extends N) : L.Extends N := by
  intro p b found
  obtain ⟨b', found', same⟩ := first p b found
  obtain ⟨b'', found'', same'⟩ := second p b' found'
  refine ⟨b'', found'', ?_⟩
  rcases same with rfl | ⟨ends, e, rfl⟩
  · exact same'
  · rcases same' with rfl | ⟨ends', -⟩
    · exact .inr ⟨ends, e, rfl⟩
    · rw [Block.next_setNext] at ends'
      cases ends'

theorem Extends.tablePart? (extended : L.Extends M) {p : Nat} {b : Block} {table : TableHeader}
    (found : L.at? p = some b) (part : b.header.tablePart? = some table) :
    ∃ b' table', M.at? p = some b' ∧ b'.header.tablePart? = some table' := by
  obtain ⟨b', found', rfl | ⟨-, e, rfl⟩⟩ := extended p b found
  · exact ⟨b', table, found', part⟩
  · exact ⟨_, _, found', Block.tablePart?_setNext part e⟩

theorem Serves.proper (serves : L.Serves settings o blocks slotSize record offset M)
    (proper : L.Proper settings) (chain : L.Chain o blocks) (positive : 1 ≤ record) :
    M.Proper settings := by
  cases serves with
  | found place => exact proper
  | grown place sized fits =>
    obtain ⟨⟨front, b, -, found, -⟩, -⟩ := chain.beyond positive place
    exact proper.attach_fresh (BlockSpec.check_data proper.chunk_some sized _) fits found

/-- Serving a record changes no block but for the link of one that had none. -/
theorem Serves.extends (serves : L.Serves settings o blocks slotSize record offset M)
    (chain : L.Chain o blocks) (positive : 1 ≤ record) : L.Extends M := by
  intro p b found
  cases serves with
  | found place => exact ⟨b, found, .inl rfl⟩
  | @grown tail start size place sized fits =>
    obtain ⟨⟨front, last, -, there, next⟩, -⟩ := chain.beyond positive place
    by_cases here : p = tail
    · subst here
      rw [there] at found
      cases found
      exact ⟨_, at?_attach_tail there _, .inr ⟨next, _, rfl⟩⟩
    · exact ⟨b, at?_attach_apart there _ found here, .inl rfl⟩

theorem Serves.tablePart? (serves : L.Serves settings o blocks slotSize record offset M)
    (chain : L.Chain o blocks) (positive : 1 ≤ record) {p : Nat} {b : Block} {table : TableHeader}
    (found : L.at? p = some b) (part : b.header.tablePart? = some table) :
    ∃ b' table', M.at? p = some b' ∧ b'.header.tablePart? = some table' :=
  (serves.extends chain positive).tablePart? found part

end Layout

/-- The block that a chain grows by has the record that it grows for. -/
theorem Search.step_fresh {slotSize record start o : Nat} {size chunkSize : UInt32}
    (high : start ≤ record) (small : record < 2 ^ 32) (positive : 0 < slotSize)
    (chunked : 0 < chunkSize.toNat)
    (ok : growthSize (record - start + 1) slotSize chunkSize = .ok size) :
    Search.step slotSize record ((BlockSpec.data size (UInt64.ofNat start)).header chunkSize) o
        (.searching start) = .done (.found (o + 32 + (record - start) * slotSize)) := by
  have first : (UInt64.ofNat start).toNat = start :=
    UInt64.toNat_ofNat_of_lt' (by show start < 2 ^ 64; omega)
  have room : 32 + (record - start + 1) * slotSize ≤ size.toNat := by
    rw [growthSize_ok ok]
    exact le_roundUp chunked
  have enough : record - start < (size.toNat - 32) / slotSize := by
    rw [← Nat.add_one_le_iff, Nat.le_div_iff_mul_le positive]
    omega
  have right : ¬ (UInt64.ofNat start ≠ 0 ∧ (UInt64.ofNat start).toNat ≠ start) := fun wrong => wrong.2 first
  rw [BlockSpec.header_data]
  exact (if_neg right).trans (if_pos enough)

theorem searchAll_fresh {slotSize record start o : Nat} {size chunkSize : UInt32}
    (high : start ≤ record) (small : record < 2 ^ 32) (positive : 0 < slotSize)
    (chunked : 0 < chunkSize.toNat)
    (ok : growthSize (record - start + 1) slotSize chunkSize = .ok size) :
    (searchAll slotSize record start o
      [(o, (BlockSpec.data size (UInt64.ofNat start)).header chunkSize)]).2 =
        .found (o + 32 + (record - start) * slotSize) := by
  simp only [searchAll, visitAll, Search.step_fresh high small positive chunked ok]

namespace Handle

variable {h : Handle} {s : Store} {f : OpenFile} {c : Content} {L : Layout} {settings : Settings}

theorem exec_retrying {α : Type} {op : Action α} {s' : Store} {result : Except Fault α}
    (sees : h.Sees s f c) (ran : op.exec s = (result, s'))
    (last : ∀ fault, result = .error fault → fault.isRetryable = true → s' = s) :
    Action.exec (h.retrying (m := StateM Store) (fun _ => pure ()) op) s = (result, s') := by
  rw [retrying]
  refine (Action.exec_bind_ok (exec_file sees) _).trans ?_
  rw [Backoff.run, Backoff.exec_retryFrom _ (fun fault s₁ failed again => ?_), ran]
  rw [ran] at failed
  cases failed
  exact last fault rfl again

theorem exec_growing_refused {α : Type} (sees : h.Sees s f c) (taken : ¬ h.Free s f .growth)
    (op : Action α) : ∃ fault, Action.exec (h.growing (m := StateM Store) op) s = (.error fault, s) ∧
      fault.isStructural = false := by
  obtain ⟨fault, refused, kind⟩ := exec_hold_refused sees Region.growth_fits.1 Region.growth_fits.2 taken
  refine ⟨fault, ?_, ?_⟩
  · rw [growing]
    exact exec_retrying sees (exec_locked_refused refused) fun _ _ _ => rfl
  · rcases kind with rfl | rfl <;> rfl

theorem exec_growing {α : Type} {op : Action α} {s₁ s₂ : Store} {result : Except Fault α}
    {f₁ f₂ : OpenFile} {c₁ c₂ : Content} {t t₂ : LockTable} {rest : List Region} (sees : h.Sees s f c)
    (holds : (h.hold .growth).exec s = (.ok (), s₁)) (left₁ : h.Leaves s f₁ c₁ t s₁)
    (ran : op.exec s₁ = (result, s₂)) (left₂ : h.Leaves s₁ f₂ c₂ t₂ s₂) (place : f₂.location = f₁.location)
    (held : f₂.held = .growth :: rest) (last : ∀ fault, result = .error fault → fault.isRetryable = false) :
    ∃ s₃, Action.exec (h.growing (m := StateM Store) op) s = (result, s₃) ∧
      h.Leaves s { f₂ with held := rest } c₂ (t₂.remove h.descriptor .growth) s₃ := by
  obtain ⟨s₃, ran₃, left₃⟩ :=
    exec_locked Region.growth_fits.1 Region.growth_fits.2 holds left₁ ran left₂ place held
  refine ⟨s₃, ?_, left₃⟩
  rw [growing]
  refine exec_retrying sees ran₃ fun fault failed again => ?_
  rw [last fault failed] at again
  cases again

theorem exec_growing_appendAfter (sees : h.Sees s f c) (laid : c.LaidOut L) (proper : L.Proper settings)
    (chunk : f.header.chunkSize = settings.chunkSize) {tail : Nat} {b : Block}
    (found : L.at? tail = some b) (next : b.header.next = none) {spec : BlockSpec}
    (checked : spec.check settings.chunkSize = .ok ()) (fits : L.size + spec.size.toNat ≤ maxOffset)
    (free : h.Free s f .growth) :
    ∃ s' p c' t, Action.exec (h.growing (m := StateM Store) (h.appendAfter tail spec)) s =
        (.ok { offset := UInt64.ofNat L.size, size := UInt64.ofNat spec.size.toNat }, s') ∧
      h.Leaves s { f with position := p } c' t s' ∧
      c'.LaidOut (L.attach tail (Layout.fresh spec settings.chunkSize)) := by
  obtain ⟨s₁, holds, left₁⟩ := exec_hold sees Region.growth_fits.1 Region.growth_fits.2 free
  obtain ⟨s₂, p, c₂, ran₂, left₂, laid₂⟩ :=
    exec_appendAfter left₁.sees laid proper chunk found next checked fits
  obtain ⟨s₃, ran₃, left₃⟩ := exec_growing sees holds left₁ ran₂ left₂ rfl rfl fun _ failed => by cases failed
  exact ⟨s₃, p, c₂, _, ran₃, left₃, laid₂⟩

theorem exec_growing_appendAfter_refused (sees : h.Sees s f c) (laid : c.LaidOut L)
    (proper : L.Proper settings) (chunk : f.header.chunkSize = settings.chunkSize) {tail : Nat} {b : Block}
    (found : L.at? tail = some b) (next : b.header.next = none) {spec : BlockSpec}
    (refused : spec.check settings.chunkSize = .ok () → L.size + spec.size.toNat ≤ maxOffset →
      ¬ h.Free s f .growth) :
    ∃ fault s' p e t, Action.exec (h.growing (m := StateM Store) (h.appendAfter tail spec)) s =
        (.error fault, s') ∧
      h.Leaves s { f with position := p, lastErrno := e } c t s' ∧ fault.isStructural = false := by
  by_cases free : h.Free s f .growth
  · obtain ⟨s₁, holds, left₁⟩ := exec_hold sees Region.growth_fits.1 Region.growth_fits.2 free
    obtain ⟨fault, s₂, p, e, ran₂, left₂, plain, final⟩ :=
      exec_appendAfter_refused left₁.sees laid proper chunk found next
        fun checked => Nat.lt_of_not_le fun fits => refused checked fits free
    obtain ⟨s₃, ran₃, left₃⟩ := exec_growing sees holds left₁ ran₂ left₂ rfl rfl
      fun _ failed => Except.error.inj failed ▸ final
    exact ⟨fault, s₃, p, e, _, ran₃, left₃, plain⟩
  · obtain ⟨fault, ran, plain⟩ := exec_growing_refused sees free (h.appendAfter tail spec)
    exact ⟨fault, s, f.position, f.lastErrno, _, ran, sees.leaves, plain⟩

/-- What stands between a request for a record and the search for it. -/
theorem exec_locate_ok {o : Nat} {table : TableHeader} {record : UInt32} {slotSize : Nat}
    (slots : table.slotSize = .ok slotSize) (positive : record ≠ 0) {place : Place} {s' : Store}
    (ran : (h.search o slotSize record.toNat 1).exec s = (.ok place, s')) :
    (h.locate o table record).exec s = Action.exec (match place with
      | .slot offset => pure offset
      | .beyond tail start => do
        let size ← growthSize (record.toNat - start + 1) slotSize (← h.chunkSize)
        let block ← h.growing (m := StateM Store) (h.appendAfter tail (.data size (UInt64.ofNat start)))
        match ← h.search block.start slotSize record.toNat start with
        | .slot offset => return offset
        | .beyond tail _ => throw (.corruptChain (.unresolved tail record.toNat))) s' := by
  rw [locate, slots]
  refine (Action.exec_bind_ok (Action.exec_liftExcept (.ok slotSize) s) _).trans ?_
  simp only [if_neg positive]
  refine (Action.exec_bind_ok ran _).trans ?_
  cases place <;> rfl

theorem exec_locate_error {o : Nat} {table : TableHeader} {record : UInt32} {slotSize : Nat}
    (slots : table.slotSize = .ok slotSize) (positive : record ≠ 0) {fault : Fault} {s' : Store}
    (ran : (h.search o slotSize record.toNat 1).exec s = (.error fault, s')) :
    (h.locate o table record).exec s = (.error fault, s') := by
  rw [locate, slots]
  refine (Action.exec_bind_ok (Action.exec_liftExcept (.ok slotSize) s) _).trans ?_
  simp only [if_neg positive]
  exact Action.exec_bind_error ran _

section Locate

variable {o : Nat} {blocks : List (Nat × Header)} {table : TableHeader} {record : UInt32} {slotSize : Nat}

theorem exec_locate_found (sees : h.Sees s f c) (laid : c.LaidOut L) (proper : L.Proper settings)
    (chunk : f.header.chunkSize = settings.chunkSize) (chain : L.Chain o blocks)
    (slots : table.slotSize = .ok slotSize) (positive : record ≠ 0) {offset : Nat}
    (place : Search.place (searchAll slotSize record.toNat 1 o blocks) = .ok (.slot offset)) :
    ∃ s' p, (h.locate o table record).exec s = (.ok offset, s') ∧
      h.Leaves s { f with position := p } c s.locks s' := by
  obtain ⟨s₁, p₁, ran₁, left₁⟩ := exec_search sees laid proper chunk chain slotSize record.toNat 1
  rw [place] at ran₁
  refine ⟨s₁, p₁, ?_, left₁⟩
  rw [exec_locate_ok slots positive ran₁, Action.exec_pure]

theorem exec_locate_grown (sees : h.Sees s f c) (laid : c.LaidOut L) (proper : L.Proper settings)
    (chunk : f.header.chunkSize = settings.chunkSize) (chain : L.Chain o blocks)
    (slots : table.slotSize = .ok slotSize) (positive : record ≠ 0) {tail start : Nat} {size : UInt32}
    (place : Search.place (searchAll slotSize record.toNat 1 o blocks) = .ok (.beyond tail start))
    (sized : growthSize (record.toNat - start + 1) slotSize settings.chunkSize = .ok size)
    (fits : L.size + size.toNat ≤ maxOffset) (free : h.Free s f .growth) :
    ∃ s' p c' t, (h.locate o table record).exec s =
        (.ok (L.size + 32 + (record.toNat - start) * slotSize), s') ∧
      h.Leaves s { f with position := p } c' t s' ∧
      c'.LaidOut (L.attach tail (Layout.fresh (.data size (UInt64.ofNat start)) settings.chunkSize)) := by
  have chunk_pos := proper.chunk_some
  have some := one_le_record positive
  obtain ⟨⟨front, b, -, found, next⟩, -, high⟩ := chain.beyond some place
  have checked := BlockSpec.check_data chunk_pos sized (UInt64.ofNat start)
  have proper₂ := proper.attach_fresh checked fits found
  have fresh := searchAll_fresh (o := L.size) high record.toNat_lt (TableHeader.slotSize_pos slots)
    chunk_pos sized
  obtain ⟨s₁, p₁, ran₁, left₁⟩ := exec_search sees laid proper chunk chain slotSize record.toNat 1
  rw [place] at ran₁
  have free₁ : h.Free s₁ { f with position := p₁ } .growth :=
    ⟨free.held, by rw [left₁.locks]; exact free.locks⟩
  obtain ⟨s₂, p₂, c₂, t₂, ran₂, left₂, laid₂⟩ :=
    exec_growing_appendAfter left₁.sees laid proper chunk found next checked fits free₁
  obtain ⟨s₃, p₃, ran₃, left₃⟩ :=
    exec_search left₂.sees laid₂ proper₂ chunk (.of_attach found) slotSize record.toNat start
  rw [Search.place_found fresh] at ran₃
  refine ⟨s₃, p₃, c₂, _, ?_, (left₁.trans left₂ rfl).trans left₃ rfl, laid₂⟩
  rw [exec_locate_ok slots positive ran₁]
  simp only
  rw [Action.exec_bind_ok (exec_chunkSize left₁.sees), chunk, sized]
  refine (Action.exec_bind_ok (Action.exec_liftExcept (.ok size) s₁) _).trans ?_
  rw [Action.exec_bind_ok ran₂, proper.start_end, Action.exec_bind_ok ran₃]
  rfl

/-- Without the size, the room or the lock that a growth needs, no byte changes. -/
theorem exec_locate_stuck (sees : h.Sees s f c) (laid : c.LaidOut L) (proper : L.Proper settings)
    (chunk : f.header.chunkSize = settings.chunkSize) (chain : L.Chain o blocks)
    (slots : table.slotSize = .ok slotSize) (positive : record ≠ 0) {tail start : Nat}
    (place : Search.place (searchAll slotSize record.toNat 1 o blocks) = .ok (.beyond tail start))
    (stuck : ∀ size, growthSize (record.toNat - start + 1) slotSize settings.chunkSize = .ok size →
      L.size + size.toNat ≤ maxOffset → ¬ h.Free s f .growth) :
    ∃ fault s' p e t, (h.locate o table record).exec s = (.error fault, s') ∧
      h.Leaves s { f with position := p, lastErrno := e } c t s' ∧ fault.isStructural = false := by
  have some := one_le_record positive
  obtain ⟨⟨front, b, -, found, next⟩, -, high⟩ := chain.beyond some place
  obtain ⟨s₁, p₁, ran₁, left₁⟩ := exec_search sees laid proper chunk chain slotSize record.toNat 1
  rw [place] at ran₁
  rw [exec_locate_ok slots positive ran₁]
  simp only
  rw [Action.exec_bind_ok (exec_chunkSize left₁.sees), chunk]
  cases sized : growthSize (record.toNat - start + 1) slotSize settings.chunkSize with
  | error fault =>
    refine ⟨fault, s₁, p₁, f.lastErrno, _, ?_, left₁, ?_⟩
    · exact Action.exec_bind_error (Action.exec_liftExcept (.error fault) s₁) _
    · rw [growthSize_error sized]
      rfl
  | ok size =>
    have stuck₁ : (BlockSpec.data size (UInt64.ofNat start)).check settings.chunkSize = .ok () →
        L.size + size.toNat ≤ maxOffset → ¬ h.Free s₁ { f with position := p₁ } .growth :=
      fun _ fits free => stuck size sized fits ⟨free.held, by rw [← left₁.locks]; exact free.locks⟩
    obtain ⟨fault, s₂, p₂, e, t, ran₂, left₂, plain⟩ :=
      exec_growing_appendAfter_refused left₁.sees laid proper chunk found next stuck₁
    refine ⟨fault, s₂, p₂, e, t, ?_, left₁.trans left₂ rfl, plain⟩
    refine (Action.exec_bind_ok (Action.exec_liftExcept (.ok size) s₁) _).trans ?_
    exact Action.exec_bind_error ran₂ _

/-- A record that a chain can serve is located, if growth can be locked. -/
theorem exec_locate_served (sees : h.Sees s f c) (laid : c.LaidOut L) (proper : L.Proper settings)
    (chunk : f.header.chunkSize = settings.chunkSize) (chain : L.Chain o blocks)
    (slots : table.slotSize = .ok slotSize) (positive : record ≠ 0) {offset : Nat} {M : Layout}
    (serves : L.Serves settings o blocks slotSize record.toNat offset M) (free : h.Free s f .growth) :
    ∃ s' p c' t, (h.locate o table record).exec s = (.ok offset, s') ∧
      h.Leaves s { f with position := p } c' t s' ∧ c'.LaidOut M := by
  cases serves with
  | found place =>
    obtain ⟨s', p, ran, left⟩ := exec_locate_found sees laid proper chunk chain slots positive place
    exact ⟨s', p, c, _, ran, left, laid⟩
  | grown place sized fits =>
    exact exec_locate_grown sees laid proper chunk chain slots positive place sized fits free

/-- Locating a record either serves it or changes no byte. The blocks are to blame for a failure only
if they are numbered wrong. -/
theorem exec_locate (sees : h.Sees s f c) (laid : c.LaidOut L) (proper : L.Proper settings)
    (chunk : f.header.chunkSize = settings.chunkSize) (chain : L.Chain o blocks) (table : TableHeader)
    (record : UInt32) :
    (∃ slotSize offset M s' p c' t, table.slotSize = .ok slotSize ∧ record ≠ 0 ∧
      L.Serves settings o blocks slotSize record.toNat offset M ∧
      (h.locate o table record).exec s = (.ok offset, s') ∧
      h.Leaves s { f with position := p } c' t s' ∧ c'.LaidOut M) ∨
    (∃ fault s' p e t, (h.locate o table record).exec s = (.error fault, s') ∧
      h.Leaves s { f with position := p, lastErrno := e } c t s' ∧
      (fault.isStructural = true → record ≠ 0 ∧ ∃ slotSize, table.slotSize = .ok slotSize ∧
        Search.place (searchAll slotSize record.toNat 1 o blocks) = .error fault)) := by
  cases slots : table.slotSize with
  | error fault =>
    refine .inr ⟨fault, s, f.position, f.lastErrno, _, ?_, sees.leaves, ?_⟩
    · rw [locate, slots]
      exact Action.exec_bind_error (Action.exec_liftExcept (.error fault) s) _
    · rw [TableHeader.slotSize] at slots
      split at slots
      · rw [← Except.error.inj slots]
        exact nofun
      · cases slots
  | ok slotSize =>
    by_cases zero : record = 0
    · refine .inr ⟨.parameter .recordZero, s, f.position, f.lastErrno, _, ?_, sees.leaves, nofun⟩
      rw [locate, slots]
      refine (Action.exec_bind_ok (Action.exec_liftExcept (.ok slotSize) s) _).trans ?_
      simp only [if_pos zero]
      rfl
    · cases place : Search.place (searchAll slotSize record.toNat 1 o blocks) with
      | error fault =>
        obtain ⟨s₁, p₁, ran₁, left₁⟩ := exec_search sees laid proper chunk chain slotSize record.toNat 1
        rw [place] at ran₁
        exact .inr ⟨fault, s₁, p₁, f.lastErrno, _, exec_locate_error slots zero ran₁, left₁,
          fun _ => ⟨zero, slotSize, rfl, place⟩⟩
      | ok found =>
        cases found with
        | slot offset =>
          obtain ⟨s', p, ran, left⟩ := exec_locate_found sees laid proper chunk chain slots zero place
          exact .inl ⟨slotSize, offset, L, s', p, c, _, rfl, zero, .found place, ran, left, laid⟩
        | beyond tail start =>
          by_cases grows : ∃ size, growthSize (record.toNat - start + 1) slotSize settings.chunkSize =
              .ok size ∧ L.size + size.toNat ≤ maxOffset ∧ h.Free s f .growth
          · obtain ⟨size, sized, fits, free⟩ := grows
            obtain ⟨s', p, c', t, ran, left, laid'⟩ :=
              exec_locate_grown sees laid proper chunk chain slots zero place sized fits free
            exact .inl ⟨slotSize, _, _, s', p, c', t, rfl, zero, .grown place sized fits, ran, left, laid'⟩
          · obtain ⟨fault, s', p, e, t, ran, left, plain⟩ :=
              exec_locate_stuck sees laid proper chunk chain slots zero place
                fun size sized fits free => grows ⟨size, sized, fits, free⟩
            refine .inr ⟨fault, s', p, e, t, ran, left, fun structural => ?_⟩
            rw [plain] at structural
            cases structural

end Locate

end Handle
end RecordFile
