import Mathlib
import RecordFile.Proofs.AppendOutcome
import RecordFile.Proofs.WalkOutcome

/-! Where a record is, by definition, on files that may hold anything. Counted through over the blocks that a
walk comes by, the first block that is numbered wrong, or that has the record, decides; past all of them the
chain grows by a block for the record. -/
namespace RecordFile

/-- The count of records over blocks that follow each other, for a record of a table. -/
structure Reckoning where
  slotSize : Nat
  record : Nat
  blocks : List (Nat × Header)

namespace Reckoning

variable (k : Reckoning)

/-- The number of the first record of the block with this index, counted over the blocks before it. -/
def first (i : Nat) : Nat := 1 + ((k.blocks.take i).map fun b => b.2.blockPart.slots k.slotSize).sum

/-- The block says of itself which record it starts at, and this is not the one that the count has. -/
def Misnumbered (i : Nat) (b : Nat × Header) : Prop :=
  b.2.blockPart.firstRecord ≠ 0 ∧ b.2.blockPart.firstRecord.toNat ≠ k.first i

/-- The block has the record's slot. -/
def Holds (i : Nat) (b : Nat × Header) : Prop := k.record - k.first i < b.2.blockPart.slots k.slotSize

instance (i : Nat) (b : Nat × Header) : Decidable (k.Misnumbered i b) := inferInstanceAs (Decidable (_ ∧ _))

instance (i : Nat) (b : Nat × Header) : Decidable (k.Holds i b) := Nat.decLt _ _

/-- The first blocks, so many of them, are numbered right, and none of them has the record. -/
def Passes (n : Nat) : Prop := ∀ i b, i < n → k.blocks[i]? = some b → ¬ k.Misnumbered i b ∧ ¬ k.Holds i b

/-- This is how many bytes a block has that begins where the count ends and has the record as its last. -/
def Sized (chunkSize : UInt32) (size : Nat) : Prop :=
  IsLeast {n | chunkSize.toNat ∣ n ∧ 32 + (k.record - k.first k.blocks.length + 1) * k.slotSize ≤ n} size

/-- The block that a chain grows by. -/
def added (size : Nat) : BlockHeader where
  kind := .data
  headerSize := 32
  blockSize := UInt32.ofNat size
  firstRecord := UInt64.ofNat (k.first k.blocks.length)

/-- The bytes with such a block at their end, linked to the one at `tail`. -/
def grown (bytes : List UInt8) (tail size : Nat) : List UInt8 :=
  bytes.take (tail + 16) ++
    BlockHeader.encodeLink (some { offset := UInt64.ofNat bytes.length, size := UInt64.ofNat size }) ++
    bytes.drop (tail + 32) ++ ((k.added size).encode ++ List.replicate (size - 32) 0)

theorem size_added {size : Nat} (small : size < 2 ^ 32) :
    (BlockSpec.data (UInt32.ofNat size) (UInt64.ofNat (k.first k.blocks.length))).size.toNat = size :=
  UInt32.toNat_ofNat_of_lt' small

theorem bytes_added {size : Nat} (small : size < 2 ^ 32) (chunkSize : UInt32) :
    (Layout.fresh (.data (UInt32.ofNat size) (UInt64.ofNat (k.first k.blocks.length))) chunkSize).bytes =
      (k.added size).encode ++ List.replicate (size - 32) 0 := by
  rw [Layout.fresh, BlockSpec.header_data]
  change (k.added size).encode ++ List.replicate ((UInt32.ofNat size).toNat - 32) 0 = _
  rw [UInt32.toNat_ofNat_of_lt' small]

/-- What locating the record gives, and the bytes of the file after it, where a walk comes by the blocks and
ends as told. -/
inductive Gives (c : Content) (chunkSize : UInt32) (ending : Except Fault Nat) :
    Except Fault Nat → List UInt8 → Prop
  | misnumbered {i : Nat} {b : Nat × Header} : k.blocks[i]? = some b → k.Passes i → k.Misnumbered i b →
      Gives c chunkSize ending
        (.error (.corruptChain (.misnumbered b.1 b.2.blockPart.firstRecord.toNat (k.first i)))) c.toList
  | found {i : Nat} {b : Nat × Header} : k.blocks[i]? = some b → k.Passes i → ¬ k.Misnumbered i b → k.Holds i b →
      Gives c chunkSize ending
        (.ok (b.1 + b.2.blockPart.headerSize.toNat + (k.record - k.first i) * k.slotSize)) c.toList
  | failed {fault : Fault} : k.Passes k.blocks.length → ending = .error fault →
      Gives c chunkSize ending (.error fault) c.toList
  | large {tail size : Nat} : k.Passes k.blocks.length → ending = .ok tail →
      k.Sized chunkSize size → 2 ^ 32 ≤ size →
      Gives c chunkSize ending (.error (.recordOverflow (k.record - k.first k.blocks.length + 1))) c.toList
  | barred {tail size : Nat} {fault : Fault} : k.Passes k.blocks.length → ending = .ok tail →
      k.Sized chunkSize size → size < 2 ^ 32 → c.bars chunkSize size = some fault →
      Gives c chunkSize ending (.error fault) c.toList
  | grown {tail size : Nat} : k.Passes k.blocks.length → ending = .ok tail →
      k.Sized chunkSize size → size < 2 ^ 32 → c.bars chunkSize size = none →
      Gives c chunkSize ending (.ok (c.size + 32 + (k.record - k.first k.blocks.length) * k.slotSize))
        (k.grown c.toList tail size)

variable {k : Reckoning}

theorem first_succ {i : Nat} {b : Nat × Header} (there : k.blocks[i]? = some b) :
    k.first (i + 1) = k.first i + b.2.blockPart.slots k.slotSize := by
  rw [first, first, List.take_add_one, there]
  simp
  omega

/-- The count does not go past the record while blocks are passed. -/
theorem first_le (positive : 1 ≤ k.record) {n : Nat} (passes : k.Passes n) (inside : n ≤ k.blocks.length) :
    1 ≤ k.first n ∧ k.first n ≤ k.record := by
  induction n with
  | zero => exact ⟨Nat.le_refl 1, positive⟩
  | succ n ih =>
    have there := List.getElem?_eq_getElem (Nat.lt_of_succ_le inside)
    obtain ⟨low, high⟩ := ih (fun i b less => passes i b (by omega)) (by omega)
    have past := (passes n _ (Nat.lt_succ_self n) there).2
    rw [Holds] at past
    rw [first_succ there]
    omega

/-- Some block decides, or all are passed. -/
theorem passes_or (k : Reckoning) (n : Nat) : k.Passes n ∨
    ∃ i b, k.blocks[i]? = some b ∧ k.Passes i ∧ (k.Misnumbered i b ∨ k.Holds i b) := by
  induction n with
  | zero => exact .inl fun _ _ less => absurd less (Nat.not_lt_zero _)
  | succ n ih =>
    rcases ih with passes | decided
    · by_cases decides : ∃ b, k.blocks[n]? = some b ∧ (k.Misnumbered n b ∨ k.Holds n b)
      · obtain ⟨b, there, decides⟩ := decides
        exact .inr ⟨n, b, there, passes, decides⟩
      · refine .inl fun i b less there => ?_
        rcases Nat.lt_succ_iff_lt_or_eq.mp less with less | rfl
        · exact passes i b less there
        · exact not_or.mp fun here => decides ⟨b, there, here⟩
    · exact .inr decided

theorem sized_iff (k : Reckoning) {chunkSize : UInt32} (positive : 0 < chunkSize.toNat) {size : Nat} :
    k.Sized chunkSize size ↔
      size = roundUp (32 + (k.record - k.first k.blocks.length + 1) * k.slotSize) chunkSize.toNat :=
  ⟨fun least => least.unique (isLeast_roundUp positive), fun same => same ▸ isLeast_roundUp positive⟩

theorem gives_some (k : Reckoning) (c : Content) {chunkSize : UInt32} (positive : 0 < chunkSize.toNat)
    (ending : Except Fault Nat) : ∃ result bytes, k.Gives c chunkSize ending result bytes := by
  rcases k.passes_or k.blocks.length with passes | ⟨i, b, there, passes, decides⟩
  · cases ending with
    | error fault => exact ⟨_, _, .failed passes rfl⟩
    | ok tail =>
      obtain ⟨size, sized⟩ : ∃ size, k.Sized chunkSize size := ⟨_, (k.sized_iff positive).mpr rfl⟩
      by_cases large : 2 ^ 32 ≤ size
      · exact ⟨_, _, .large passes rfl sized large⟩
      · have small := Nat.lt_of_not_le large
        cases barred : c.bars chunkSize size with
        | some fault => exact ⟨_, _, .barred passes rfl sized small barred⟩
        | none => exact ⟨_, _, .grown passes rfl sized small barred⟩
  · by_cases wrong : k.Misnumbered i b
    · exact ⟨_, _, .misnumbered there passes wrong⟩
    · exact ⟨_, _, .found there passes wrong (decides.resolve_left wrong)⟩

/-- The size of the block to be added is the one that is asked for. -/
theorem Sized.growthSize {k : Reckoning} {chunkSize : UInt32} {size : Nat} (sized : k.Sized chunkSize size)
    (positive : 0 < chunkSize.toNat) : RecordFile.growthSize (k.record - k.first k.blocks.length + 1) k.slotSize
      chunkSize = if 2 ^ 32 ≤ size then .error (.recordOverflow (k.record - k.first k.blocks.length + 1))
        else .ok (UInt32.ofNat size) := by
  rw [(k.sized_iff positive).mp sized]
  rfl

end Reckoning

/-- What the search for a record does at a block. -/
def seekRecord (slotSize record : Nat) (header : Header) (o : Nat) (seen : Search) (x : Unit) :
    ForInStep Search × Unit :=
  (seen.step slotSize record header o, x)

namespace Reckoning

variable {k : Reckoning} {i : Nat} {b : Nat × Header} {ending : Except Fault Nat}

theorem seekRecord_past (right : ¬ k.Misnumbered i b) (past : ¬ k.Holds i b) :
    seekRecord k.slotSize k.record b.2 b.1 (.searching (k.first i)) () =
      (.yield (.searching (k.first i + b.2.blockPart.slots k.slotSize)), ()) :=
  congrArg (·, ()) ((if_neg right).trans (if_neg past))

theorem seekRecord_misnumbered (wrong : k.Misnumbered i b) :
    seekRecord k.slotSize k.record b.2 b.1 (.searching (k.first i)) () =
      (.done (.misnumbered b.1 b.2.blockPart.firstRecord.toNat (k.first i)), ()) :=
  congrArg (·, ()) (if_pos wrong)

theorem seekRecord_found (right : ¬ k.Misnumbered i b) (here : k.Holds i b) :
    seekRecord k.slotSize k.record b.2 b.1 (.searching (k.first i)) () =
      (.done (.found (b.1 + b.2.blockPart.headerSize.toNat + (k.record - k.first i) * k.slotSize)), ()) :=
  congrArg (·, ()) ((if_neg right).trans (if_pos here))

/-- What the search comes to. -/
def sought (k : Reckoning) (ending : Except Fault Nat) : Except Fault Place :=
  (follow (seekRecord k.slotSize k.record) ending k.blocks (.searching 1) ()).1 >>= Search.place

/-- The search goes on behind the blocks that are passed. -/
theorem sought_passes {n : Nat} (passes : k.Passes n) (inside : n ≤ k.blocks.length) :
    k.sought ending =
      (follow (seekRecord k.slotSize k.record) ending (k.blocks.drop n) (.searching (k.first n)) ()).1 >>=
        Search.place := by
  induction n with
  | zero => rfl
  | succ n ih =>
    have there := List.getElem?_eq_getElem (Nat.lt_of_succ_le inside)
    obtain ⟨right, past⟩ := passes n _ (Nat.lt_succ_self n) there
    rw [ih (fun i b less => passes i b (by omega)) (by omega),
      List.drop_eq_getElem_cons (Nat.lt_of_succ_le inside), first_succ there, follow, seekRecord_past right past]

/-- A block that ends the search ends it there. -/
theorem sought_done (there : k.blocks[i]? = some b) (passes : k.Passes i) {found : Search}
    (ends : seekRecord k.slotSize k.record b.2 b.1 (.searching (k.first i)) () = (.done found, ())) :
    k.sought ending = Search.place (.stopped b.1, found) := by
  obtain ⟨inside, rfl⟩ := List.getElem?_eq_some_iff.mp there
  rw [sought_passes passes (Nat.le_of_lt inside), List.drop_eq_getElem_cons inside, follow, ends]
  rfl

theorem sought_all (passes : k.Passes k.blocks.length) :
    k.sought ending = ending.map fun tail => .beyond tail (k.first k.blocks.length) := by
  rw [sought_passes passes (Nat.le_refl _), List.drop_length]
  cases ending <;> rfl

end Reckoning

namespace Handle

variable {h : Handle} {s : Store} {f : OpenFile} {c : Content} {chunkSize : UInt32}

theorem Free.scanned {r : Region} (free : h.Free s f r) {s' : Store} {p : Nat} {e : Option Int}
    (left : h.Leaves s { f with position := p, lastErrno := e } c s.locks s') :
    h.Free s' { f with position := p, lastErrno := e } r :=
  ⟨free.held, left.locks ▸ free.locks⟩

/-- A search, on a file of any bytes, goes over the blocks of the trail. -/
theorem exec_search_trail (sees : h.Sees s f c) (chunk : f.header.chunkSize = chunkSize)
    (o slotSize record start : Nat) : ∃ s', (h.search o slotSize record start).exec s =
      ((follow (seekRecord slotSize record) (c.trail chunkSize.toNat o (maxOffset + 1) 0 o).2
        (c.trail chunkSize.toNat o (maxOffset + 1) 0 o).1 (.searching start) ()).1 >>= Search.place, s') ∧
      h.Scanned s f c s' := by
  obtain ⟨s', ran, scanned⟩ := exec_walk_plain
    (fun header offset (seen : Search) => seen.step slotSize record header offset) sees chunk o (.searching start)
  refine ⟨s', ?_, scanned⟩
  change _ = ((follow (seekRecord slotSize record) _ _ (.searching start) ()).1, s') at ran
  rw [search]
  generalize follow (seekRecord slotSize record) (c.trail chunkSize.toNat o (maxOffset + 1) 0 o).2
    (c.trail chunkSize.toNat o (maxOffset + 1) 0 o).1 (.searching start) () = came at ran ⊢
  rcases came with ⟨fault | ⟨ending, _ | _ | _⟩, _⟩
  · exact Action.exec_bind_error ran _
  all_goals exact (Action.exec_bind_ok ran _).trans rfl

/-- A search that starts at a block with the record's slot, and without a link, ends there. -/
theorem exec_search_shown (sees : h.Sees s f c) (positive : 0 < f.header.chunkSize.toNat) {o : Nat} {header : Header}
    (shows : c.Shows o header) (last : header.next = none) {slotSize record start offset : Nat}
    (found : Search.step slotSize record header o (.searching start) = .done (.found offset)) :
    ∃ s', (h.search o slotSize record start).exec s = (.ok (.slot offset), s') ∧ h.Scanned s f c s' := by
  obtain ⟨s', ran, scanned⟩ := exec_search_trail sees rfl o slotSize record start
  obtain ⟨reached, blocks⟩ := (c.trail_start o positive).1.of_ends ⟨.here, shows, last⟩
  refine ⟨s', ?_, scanned⟩
  rw [ran, reached, blocks, List.nil_append, follow, seekRecord, found]
  rfl

variable {k : Reckoning} {ending : Except Fault Nat} {o tail : Nat} {table : TableHeader} {record : UInt32}

theorem exec_search_reckoned (sees : h.Sees s f c) (numbered : k.record = record.toNat)
    (trail : c.trail f.header.chunkSize.toNat o (maxOffset + 1) 0 o = (k.blocks, ending)) :
    ∃ s', (h.search o k.slotSize record.toNat 1).exec s = (k.sought ending, s') ∧ h.Scanned s f c s' := by
  obtain ⟨s', ran, scanned⟩ := exec_search_trail sees rfl o k.slotSize record.toNat 1
  rw [trail, ← numbered] at ran
  exact ⟨s', numbered ▸ ran, scanned⟩

theorem exec_locate_beyond {slotSize start : Nat} {s₁ : Store} {f₁ : OpenFile} {c₁ : Content}
    (slots : table.slotSize = .ok slotSize) (positive : record ≠ 0) (sees₁ : h.Sees s₁ f₁ c₁)
    (ran : (h.search o slotSize record.toNat 1).exec s = (.ok (.beyond tail start), s₁)) :
    (h.locate o table record).exec s = Action.exec (do
        let size ← growthSize (record.toNat - start + 1) slotSize f₁.header.chunkSize
        let block ← h.growing (m := StateM Store) (h.appendAfter tail (.data size (UInt64.ofNat start)))
        match ← h.search block.start slotSize record.toNat start with
        | .slot offset => return offset
        | .beyond tail _ => throw (.corruptChain (.unresolved tail record.toNat))) s₁ := by
  rw [exec_locate_ok slots positive ran]
  exact Action.exec_bind_ok (exec_chunkSize sees₁) _

/-- Past all blocks, and with a size for the new one, all that is left to do is to add it. -/
theorem exec_locate_sized (opened : h.Opened s f c) (slots : table.slotSize = .ok k.slotSize) (positive : record ≠ 0)
    (numbered : k.record = record.toNat)
    (trail : c.trail f.header.chunkSize.toNat o (maxOffset + 1) 0 o = (k.blocks, .ok tail))
    (passes : k.Passes k.blocks.length) {size : Nat} (sized : k.Sized f.header.chunkSize size)
    (small : size < 2 ^ 32) :
    ∃ s₁ p e header, h.Leaves s { f with position := p, lastErrno := e } c s.locks s₁ ∧
      c.Shows tail header ∧ header.next = none ∧
      growthSize (record.toNat - k.first k.blocks.length + 1) k.slotSize f.header.chunkSize =
        .ok (UInt32.ofNat size) ∧
      (h.locate o table record).exec s = Action.exec (do
        let block ← h.growing (m := StateM Store) (h.appendAfter tail
          (.data (UInt32.ofNat size) (UInt64.ofNat (k.first k.blocks.length))))
        match ← h.search block.start k.slotSize record.toNat (k.first k.blocks.length) with
        | .slot offset => return offset
        | .beyond tail _ => throw (.corruptChain (.unresolved tail record.toNat))) s₁ := by
  have chunk_pos := opened.chunk_pos
  obtain ⟨s₁, searched, p, e, left⟩ := exec_search_reckoned opened.toSees numbered trail
  rw [Reckoning.sought_all passes] at searched
  have walked := (c.trail_start o chunk_pos).1
  rw [trail] at walked
  obtain ⟨front, header, ends⟩ := walked.ok_iff.mp rfl
  have granted := sized.growthSize chunk_pos
  rw [if_neg (Nat.not_le.mpr small), numbered] at granted
  refine ⟨s₁, p, e, header, left, ends.shows, ends.last, granted, ?_⟩
  rw [exec_locate_beyond slots positive left.sees searched, granted]
  exact Action.exec_bind_ok (Action.exec_liftExcept (.ok _) s₁) _

/-- Where the file has room at its end, the block is added there and linked to the tail, and has the record. -/
theorem exec_locate_grafted (opened : h.Opened s f c) (free : h.Free s f .growth)
    (slots : table.slotSize = .ok k.slotSize) (positive : record ≠ 0) (numbered : k.record = record.toNat)
    (trail : c.trail f.header.chunkSize.toNat o (maxOffset + 1) 0 o = (k.blocks, .ok tail))
    (passes : k.Passes k.blocks.length) {size : Nat} (sized : k.Sized f.header.chunkSize size)
    (small : size < 2 ^ 32) (room : c.bars f.header.chunkSize size = none) :
    ∃ s' c' t p e, (h.locate o table record).exec s =
        (.ok (c.size + 32 + (k.record - k.first k.blocks.length) * k.slotSize), s') ∧
      h.Leaves s { f with position := p, lastErrno := e } c' t s' ∧ c'.toList = k.grown c.toList tail size := by
  have chunk_pos := opened.chunk_pos
  obtain ⟨s₁, p, e, header, left, shows, last, granted, same⟩ :=
    exec_locate_sized opened slots positive numbered trail passes sized small
  have checked := BlockSpec.check_data chunk_pos granted (UInt64.ofNat (k.first k.blocks.length))
  have count := k.size_added small
  rw [← count] at room
  obtain ⟨s₂, c₂, p₂, e₂, t, ran₂, left₂, bytes⟩ :=
    exec_growing_free left.sees rfl checked shows last room (free.scanned left)
  have fits := (Content.bars_eq_none room).2
  have there := shows.grafted checked fits bytes
  have high := (Reckoning.first_le (numbered ▸ one_le_record positive) passes (Nat.le_refl _)).2
  have found := Search.step_fresh (o := c.size) (numbered ▸ high) record.toNat_lt
    (TableHeader.slotSize_pos slots) chunk_pos granted
  obtain ⟨s₃, ran₃, p₃, e₃, left₃⟩ :=
    exec_search_shown left₂.sees chunk_pos there (BlockSpec.header_next _ _) found
  have start : (UInt64.ofNat c.size).toNat = c.size := toNat_offset (by omega)
  refine ⟨s₃, c₂, _, p₃, e₃, ?_, (left.trans left₂ rfl).trans left₃ rfl, ?_⟩
  · rw [same, Action.exec_bind_ok ran₂, Extent.start, start, Action.exec_bind_ok ran₃, numbered]
    rfl
  · rw [bytes, Reckoning.grown, Content.length_toList, k.bytes_added small, count]

/-- Where the record is, or where a block for it belongs, comes out as the count has it. -/
theorem exec_locate_gives (opened : h.Opened s f c) (free : h.Free s f .growth)
    (slots : table.slotSize = .ok k.slotSize) (positive : record ≠ 0) (numbered : k.record = record.toNat)
    (trail : c.trail f.header.chunkSize.toNat o (maxOffset + 1) 0 o = (k.blocks, ending))
    {result : Except Fault Nat} {bytes : List UInt8} (gives : k.Gives c f.header.chunkSize ending result bytes) :
    ∃ s' c' t p e, (h.locate o table record).exec s = (result, s') ∧
      h.Leaves s { f with position := p, lastErrno := e } c' t s' ∧ c'.toList = bytes := by
  have chunk_pos := opened.chunk_pos
  obtain ⟨s₁, searched, p, e, left⟩ := exec_search_reckoned opened.toSees numbered trail
  cases gives with
  | misnumbered there passes wrong =>
    rw [Reckoning.sought_done there passes (Reckoning.seekRecord_misnumbered wrong)] at searched
    exact ⟨s₁, c, _, p, e, exec_locate_error slots positive searched, left, rfl⟩
  | found there passes right here =>
    rw [Reckoning.sought_done there passes (Reckoning.seekRecord_found right here)] at searched
    exact ⟨s₁, c, _, p, e, exec_locate_ok slots positive searched, left, rfl⟩
  | failed passes ended =>
    rw [Reckoning.sought_all passes, ended] at searched
    exact ⟨s₁, c, _, p, e, exec_locate_error slots positive searched, left, rfl⟩
  | large passes ended sized large =>
    rw [Reckoning.sought_all passes, ended] at searched
    have refused := sized.growthSize chunk_pos
    rw [if_pos large, numbered] at refused
    refine ⟨s₁, c, _, p, e, ?_, left, rfl⟩
    rw [exec_locate_beyond slots positive left.sees searched, refused, numbered]
    exact Action.exec_bind_error (Action.exec_liftExcept (.error _) s₁) _
  | @barred tail size fault passes ended sized small barred =>
    subst ended
    obtain ⟨s₁, p, e, header, left, shows, last, granted, same⟩ :=
      exec_locate_sized opened slots positive numbered trail passes sized small
    have checked := BlockSpec.check_data chunk_pos granted (UInt64.ofNat (k.first k.blocks.length))
    rw [← k.size_added small] at barred
    obtain ⟨s₂, p₂, e₂, t, ran₂, left₂⟩ :=
      exec_growing_barred left.sees rfl checked shows last barred (free.scanned left)
    exact ⟨s₂, c, t, p₂, e₂, same.trans (Action.exec_bind_error ran₂ _), left.trans left₂ rfl, rfl⟩
  | @grown tail size passes ended sized small room =>
    subst ended
    exact exec_locate_grafted opened free slots positive numbered trail passes sized small room

/-- A walk that notes each block and always goes on notes the whole trail. -/
theorem exec_walk_noted (sees : h.Sees s f c) (o : Nat) : ∃ s',
    Work.exec (h.walk o () fun header offset _ => do
      modify fun seen => seen ++ [(offset, header)]
      return .yield ()) [] s =
        (((c.trail f.header.chunkSize.toNat o (maxOffset + 1) 0 o).2.map fun tail => (.tail tail, ()),
          (c.trail f.header.chunkSize.toNat o (maxOffset + 1) 0 o).1), s') ∧ h.Scanned s f c s' := by
  obtain ⟨s', ran, scanned⟩ := exec_walk_trail
    (fun header offset (_ : Unit) (seen : List (Nat × Header)) => (.yield (), seen ++ [(offset, header)]))
    sees rfl o () []
  have noted (blocks : List (Nat × Header)) :
      blocks.foldl (fun seen b => seen ++ [(b.1, b.2)]) [] = blocks := by
    rw [List.foldl_append_eq_append]
    exact List.flatMap_singleton' blocks
  rw [follow_noting, noted] at ran
  exact ⟨s', ran, scanned⟩

/-- Where a record is, on a file of any bytes: walked over from the start, the first block that is numbered wrong
or has the record decides, and where there is none, the walk's own ending; past a tail the chain grows. -/
theorem locate_reckoned (opened : h.Opened s f c) (free : h.Free s f .growth) (o : Nat) (table : TableHeader)
    (record : UInt32) (fixed : table.recordSize ≠ 0) (positive : record ≠ 0) : ∃ blocks ending,
    (∃ s', Work.exec (h.walk o () fun header offset _ => do
        modify fun seen => seen ++ [(offset, header)]
        return .yield ()) [] s = ((ending.map fun tail => (.tail tail, ()), blocks), s')) ∧
    (∃ result bytes, Reckoning.Gives ⟨table.recordSize.toNat + 1, record.toNat, blocks⟩ c f.header.chunkSize
      ending result bytes) ∧
    ∀ result bytes, Reckoning.Gives ⟨table.recordSize.toNat + 1, record.toNat, blocks⟩ c f.header.chunkSize
        ending result bytes →
      ∃ s' c' t p e, (h.locate o table record).exec s = (result, s') ∧
        h.Leaves s { f with position := p, lastErrno := e } c' t s' ∧ c'.toList = bytes := by
  obtain ⟨s', ran, -⟩ := exec_walk_noted opened.toSees o
  rcases trail : c.trail f.header.chunkSize.toNat o (maxOffset + 1) 0 o with ⟨blocks, ending⟩
  rw [trail] at ran
  refine ⟨blocks, ending, ⟨s', ran⟩, Reckoning.gives_some _ c opened.chunk_pos ending, ?_⟩
  intro result bytes gives
  have slots : table.slotSize = .ok (table.recordSize.toNat + 1) := if_neg fixed
  exact exec_locate_gives opened free slots positive rfl trail gives

/-- A file of one block, which has two slots of six bytes. -/
def lone : Content := .ofList ((FileHeader.fresh 64 5).encode ++ List.replicate 16 0)

theorem size_lone : lone.size = 64 := by decide +kernel

/-- The fourth record's slot is the second of the block that is added for it. -/
theorem locate_reckoned_lone : ∃ s f s' c', (⟨0⟩ : Handle).Opened s f lone ∧
    ((⟨0⟩ : Handle).locate 0 (FileHeader.fresh 64 5).table 4).exec s = (.ok 102, s') ∧
    s'.content? f.location = some c' ∧ c'.size = 128 := by
  have read : FileHeader.ofContent lone = .ok (FileHeader.fresh 64 5) := by decide +kernel
  have spelled : Header.decode (lone.toList.drop 0) = .ok (.file (FileHeader.fresh 64 5)) := by decide +kernel
  obtain ⟨f, opened, same, free⟩ := opened_alone read
  obtain ⟨blocks, ending, ⟨s₁, ran⟩, -, gives⟩ :=
    locate_reckoned opened (free .growth) 0 (FileHeader.fresh 64 5).table 4 (by decide) (by decide)
  obtain ⟨s₂, again, -⟩ := exec_walk_noted opened.toSees 0
  obtain ⟨reached, along⟩ := (lone.trail_start 0 opened.chunk_pos).1.of_ends
    (.mk .here ⟨spelled, by decide⟩ rfl)
  rw [reached, along, ran] at again
  simp only [Prod.mk.injEq] at again
  obtain ⟨⟨ended, rfl⟩, -⟩ := again
  obtain rfl : ending = .ok 0 := by
    cases ending with
    | error fault => cases ended
    | ok tail =>
      cases ended
      rfl
  rw [same] at gives
  have passes : Reckoning.Passes ⟨6, 4, [(0, .file (FileHeader.fresh 64 5))]⟩ 1 := by
    intro i b less there
    obtain rfl : i = 0 := by omega
    cases there
    exact ⟨by decide, by decide⟩
  have sized : Reckoning.Sized ⟨6, 4, [(0, .file (FileHeader.fresh 64 5))]⟩ 64 64 :=
    (Reckoning.sized_iff _ (by decide)).mpr (by decide)
  have room : lone.bars 64 64 = none := by
    rw [Content.bars, size_lone]
    decide
  obtain ⟨s', c', t, p, e, ran', left, bytes⟩ := gives _ _ (.grown passes rfl sized (by decide) room)
  rw [size_lone] at ran'
  refine ⟨_, f, s', c', opened, ran', left.sees.content, ?_⟩
  rw [← Content.length_toList, bytes]
  decide +kernel

end Handle
end RecordFile
