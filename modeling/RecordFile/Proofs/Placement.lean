import Mathlib
import RecordFile.Records.Locate
import RecordFile.Proofs.Walking

/-! Where the records of a table lie. The rooms of a chain are the payloads of its blocks; counted
through from one room to the next, every index has one slot of its own, and rooms added at the end
move none of them. -/
namespace RecordFile

theorem one_le_record {record : UInt32} (positive : record ≠ 0) : 1 ≤ record.toNat :=
  Nat.one_le_iff_ne_zero.mpr fun zero => positive (UInt32.toNat_inj.mp zero)

/-- The room that a block has for records. -/
structure Room where
  start : Nat
  bytes : Nat
  /-- The lowest record number, as the block has it. -/
  first : Nat

namespace Room

/-- The room of a block with this offset and header. -/
def ofBlock (block : Nat × Header) : Room where
  start := block.1 + block.2.blockPart.headerSize.toNat
  bytes := block.2.blockPart.payload
  first := block.2.blockPart.firstRecord.toNat

/-- How many slots fit into the rooms. -/
def capacity (slotSize : Nat) (rooms : List Room) : Nat := (rooms.map fun r => r.bytes / slotSize).sum

/-- The offset of the slot with this index, counted from 0. -/
def slot (slotSize : Nat) : List Room → Nat → Option Nat
  | [], _ => none
  | r :: rest, index =>
    if index < r.bytes / slotSize then some (r.start + index * slotSize)
    else slot slotSize rest (index - r.bytes / slotSize)

/-- Each room has its place in the count of records, from `start` on, and takes at least one. -/
def Numbered (slotSize : Nat) : Nat → List Room → Prop
  | _, [] => True
  | start, r :: rest =>
    r.first = start ∧ 0 < r.bytes / slotSize ∧ Numbered slotSize (start + r.bytes / slotSize) rest

variable {slotSize : Nat} {rooms more : List Room} {index index' start offset offset' : Nat}

@[simp] theorem capacity_nil : capacity slotSize [] = 0 := rfl

@[simp] theorem capacity_cons (r : Room) :
    capacity slotSize (r :: rooms) = r.bytes / slotSize + capacity slotSize rooms := by
  simp [capacity]

@[simp] theorem capacity_append :
    capacity slotSize (rooms ++ more) = capacity slotSize rooms + capacity slotSize more := by
  simp [capacity]

theorem slot_isSome : (slot slotSize rooms index).isSome ↔ index < capacity slotSize rooms := by
  induction rooms generalizing index with
  | nil => simp [slot]
  | cons r rest ih =>
    rw [slot, capacity_cons]
    split
    · simp
      omega
    · rw [ih]
      omega

theorem slot_append : slot slotSize (rooms ++ more) index =
    if index < capacity slotSize rooms then slot slotSize rooms index
    else slot slotSize more (index - capacity slotSize rooms) := by
  induction rooms generalizing index with
  | nil => simp
  | cons r rest ih =>
    rw [List.cons_append, slot, slot, capacity_cons, ih]
    by_cases here : index < r.bytes / slotSize
    · rw [if_pos here, if_pos here, if_pos (by omega)]
    · rw [if_neg here, if_neg here]
      by_cases later : index - r.bytes / slotSize < capacity slotSize rest
      · rw [if_pos later, if_pos (by omega)]
      · rw [if_neg later, if_neg (by omega), Nat.sub_sub]

theorem slot_of_prefix (extended : rooms <+: more) (found : slot slotSize rooms index = some offset) :
    slot slotSize more index = some offset := by
  obtain ⟨added, rfl⟩ := extended
  have inside : index < capacity slotSize rooms := slot_isSome.mp (by rw [found]; rfl)
  rw [slot_append, if_pos inside, found]

theorem slot_inside (found : slot slotSize rooms index = some offset) :
    ∃ r ∈ rooms, r.start ≤ offset ∧ offset + slotSize ≤ r.start + r.bytes := by
  induction rooms generalizing index with
  | nil => cases found
  | cons r rest ih =>
    rw [slot] at found
    split at found
    case isTrue inside =>
      cases found
      refine ⟨r, by simp, by omega, ?_⟩
      have whole : (index + 1) * slotSize ≤ r.bytes :=
        (Nat.mul_le_mul_right _ inside).trans (Nat.div_mul_le_self _ _)
      rw [Nat.add_mul, Nat.one_mul] at whole
      omega
    case isFalse =>
      obtain ⟨r', mem, inside⟩ := ih found
      exact ⟨r', by simp [mem], inside⟩

theorem slot_disjoint (apart : rooms.Pairwise fun r r' => r.start + r.bytes ≤ r'.start)
    (less : index < index') (found : slot slotSize rooms index = some offset)
    (found' : slot slotSize rooms index' = some offset') : offset + slotSize ≤ offset' := by
  induction rooms generalizing index index' with
  | nil => cases found
  | cons r rest ih =>
    rw [List.pairwise_cons] at apart
    have inFirst : ∀ {i o}, i < r.bytes / slotSize → slot slotSize (r :: rest) i = some o →
        o = r.start + i * slotSize := by
      intro i o inside there
      rw [slot, if_pos inside] at there
      exact (Option.some.inj there).symm
    by_cases here : index < r.bytes / slotSize
    · by_cases here' : index' < r.bytes / slotSize
      · have step : (index + 1) * slotSize ≤ index' * slotSize := Nat.mul_le_mul_right _ less
        rw [Nat.add_mul, Nat.one_mul] at step
        rw [inFirst here found, inFirst here' found']
        omega
      · rw [slot, if_neg here'] at found'
        obtain ⟨r', mem, inside, -⟩ := slot_inside found'
        have before := apart.1 r' mem
        have whole : (index + 1) * slotSize ≤ r.bytes :=
          (Nat.mul_le_mul_right _ here).trans (Nat.div_mul_le_self _ _)
        rw [Nat.add_mul, Nat.one_mul] at whole
        rw [inFirst here found]
        omega
    · rw [slot, if_neg here] at found
      rw [slot, if_neg (by omega)] at found'
      exact ih apart.2 (by omega) found found'

theorem numbered_append : Numbered slotSize start (rooms ++ more) ↔
    Numbered slotSize start rooms ∧ Numbered slotSize (start + capacity slotSize rooms) more := by
  induction rooms generalizing start with
  | nil => simp [Numbered]
  | cons r rest ih =>
    rw [List.cons_append, Numbered, Numbered, ih, capacity_cons, Nat.add_assoc]
    tauto

end Room

/-- The search for a record among blocks that follow each other from offset `o` on. -/
def searchAll (slotSize target start o : Nat) (blocks : List (Nat × Header)) : Ending × Search :=
  visitAll (fun header offset result => result.step slotSize target header offset) o blocks
    (.searching start)

/-- What a search comes to, as a place or a fault. -/
def Search.place : Ending × Search → Except Fault Place
  | (_, .found offset) => .ok (.slot offset)
  | (_, .misnumbered offset stored expected) => .error (.corruptChain (.misnumbered offset stored expected))
  | (ending, .searching start) => .ok (.beyond ending.offset start)

theorem Search.place_found {result : Ending × Search} {offset : Nat} (found : result.2 = .found offset) :
    place result = .ok (.slot offset) := by
  obtain ⟨ending, search⟩ := result
  cases found
  rfl

theorem Search.of_place_slot {result : Ending × Search} {offset : Nat}
    (place : Search.place result = .ok (.slot offset)) : result.2 = .found offset := by
  obtain ⟨ending, search⟩ := result
  cases search <;> cases place
  rfl

theorem Search.of_place_beyond {result : Ending × Search} {tail start : Nat}
    (place : Search.place result = .ok (.beyond tail start)) : result.2 = .searching start := by
  obtain ⟨ending, search⟩ := result
  cases search <;> cases place
  rfl

section Searching

variable {slotSize target start o : Nat} {blocks : List (Nat × Header)}

@[simp] theorem searchAll_nil : searchAll slotSize target start o [] = (.tail o, .searching start) := rfl

theorem searchAll_cons (p : Nat) (header : Header) (rest : List (Nat × Header)) :
    searchAll slotSize target start o ((p, header) :: rest) =
      if header.blockPart.firstRecord ≠ 0 ∧ header.blockPart.firstRecord.toNat ≠ start then
        (.stopped p, .misnumbered p header.blockPart.firstRecord.toNat start)
      else if target - start < header.blockPart.slots slotSize then
        (.stopped p, .found (p + header.blockPart.headerSize.toNat + (target - start) * slotSize))
      else searchAll slotSize target (start + header.blockPart.slots slotSize) p rest := by
  simp only [searchAll, visitAll, Search.step]
  by_cases wrong : header.blockPart.firstRecord ≠ 0 ∧ header.blockPart.firstRecord.toNat ≠ start
  · rw [if_pos wrong, if_pos wrong]
  · rw [if_neg wrong, if_neg wrong]
    by_cases here : target - start < header.blockPart.slots slotSize
    · rw [if_pos here, if_pos here]
    · rw [if_neg here, if_neg here]

open Room in
/-- Each step of a search goes by the room of a block. -/
theorem searchAll_room (block : Nat × Header) (rest : List (Nat × Header)) :
    (searchAll slotSize target start o (block :: rest)).2 =
      if (ofBlock block).first ≠ 0 ∧ (ofBlock block).first ≠ start then
        .misnumbered block.1 (ofBlock block).first start
      else if target - start < (ofBlock block).bytes / slotSize then
        .found ((ofBlock block).start + (target - start) * slotSize)
      else (searchAll slotSize target (start + (ofBlock block).bytes / slotSize) block.1 rest).2 := by
  obtain ⟨p, header⟩ := block
  have zero : header.blockPart.firstRecord ≠ 0 ↔ header.blockPart.firstRecord.toNat ≠ 0 :=
    not_congr UInt64.toNat_inj.symm
  rw [searchAll_cons]
  simp only [zero, apply_ite Prod.snd]
  rfl

/-- A search that comes to the end of the blocks is at the last of them and has not passed the record. -/
theorem searchAll_searching {ending : Ending} {next : Nat} (below : start ≤ target)
    (ran : searchAll slotSize target start o blocks = (ending, .searching next)) :
    ending = .tail ((blocks.map Prod.fst).getLastD o) ∧ start ≤ next ∧ next ≤ target := by
  induction blocks generalizing start o with
  | nil =>
    cases ran
    exact ⟨rfl, Nat.le_refl _, below⟩
  | cons block rest ih =>
    obtain ⟨p, header⟩ := block
    rw [searchAll_cons] at ran
    split at ran
    · cases ran
    · split at ran
      · cases ran
      case isFalse past =>
        obtain ⟨last, from_, upTo⟩ := ih (by omega) ran
        refine ⟨?_, by omega, upTo⟩
        rw [last, List.map_cons, List.getLastD_cons]

/-- However the blocks are numbered, a record is found only if they have room for it. -/
theorem searchAll_found {offset : Nat}
    (ran : (searchAll slotSize target start o blocks).2 = .found offset) :
    target - start < Room.capacity slotSize (blocks.map Room.ofBlock) := by
  induction blocks generalizing start o with
  | nil => cases ran
  | cons block rest ih =>
    rw [searchAll_room] at ran
    rw [List.map_cons, Room.capacity_cons]
    generalize (Room.ofBlock block).bytes / slotSize = slots at ran ⊢
    split at ran
    · cases ran
    · split at ran
      case isTrue here => omega
      case isFalse past =>
        have := ih ran
        omega

theorem searchAll_passed {next : Nat}
    (ran : (searchAll slotSize target start o blocks).2 = .searching next) :
    Room.capacity slotSize (blocks.map Room.ofBlock) ≤ target - start := by
  induction blocks generalizing start o with
  | nil => exact Nat.zero_le _
  | cons block rest ih =>
    rw [searchAll_room] at ran
    rw [List.map_cons, Room.capacity_cons]
    generalize (Room.ofBlock block).bytes / slotSize = slots at ran ⊢
    split at ran
    · cases ran
    · split at ran
      · cases ran
      case isFalse past =>
        have := ih ran
        omega

open Room in
/-- In rooms that are numbered right, a search finds the record's slot or comes to the end. -/
theorem searchAll_numbered (numbered : Numbered slotSize start (blocks.map ofBlock)) (below : start ≤ target) :
    (searchAll slotSize target start o blocks).2 =
      match slot slotSize (blocks.map ofBlock) (target - start) with
      | some offset => .found offset
      | none => .searching (start + capacity slotSize (blocks.map ofBlock)) := by
  induction blocks generalizing start o with
  | nil => rfl
  | cons block rest ih =>
    obtain ⟨first, -, later⟩ := numbered
    have right : ¬ ((ofBlock block).first ≠ 0 ∧ (ofBlock block).first ≠ start) := fun wrong => wrong.2 first
    rw [searchAll_room, if_neg right, List.map_cons, slot, capacity_cons]
    by_cases here : target - start < (ofBlock block).bytes / slotSize
    · rw [if_pos here, if_pos here]
    · rw [if_neg here, if_neg here, ih later (by omega), Nat.sub_sub, Nat.add_assoc]

open Room in
/-- What was found stays where it is when rooms are added at the end. -/
theorem searchAll_of_prefix {o' offset : Nat} {blocks' : List (Nat × Header)}
    (extended : blocks.map ofBlock <+: blocks'.map ofBlock)
    (ran : (searchAll slotSize target start o blocks).2 = .found offset) :
    (searchAll slotSize target start o' blocks').2 = .found offset := by
  induction blocks generalizing start o o' blocks' with
  | nil => cases ran
  | cons block rest ih =>
    cases blocks' with
    | nil => cases List.prefix_nil.mp extended
    | cons block' rest' =>
      obtain ⟨same, later⟩ := List.cons_prefix_cons.mp extended
      rw [searchAll_room, same] at ran
      rw [searchAll_room]
      split at ran
      · cases ran
      case isFalse right =>
        rw [if_neg right]
        split at ran
        case isTrue here => rw [if_pos here, ← ran]
        case isFalse past =>
          rw [if_neg past]
          exact ih later ran

open Room in
/-- Where the rooms go on, so does a search that came to their end. -/
theorem searchAll_onward {o' o'' next offset : Nat} {blocks' more : List (Nat × Header)}
    (rooms : blocks'.map ofBlock = blocks.map ofBlock ++ more.map ofBlock)
    (ran : (searchAll slotSize target start o blocks).2 = .searching next)
    (onward : (searchAll slotSize target next o'' more).2 = .found offset) :
    (searchAll slotSize target start o' blocks').2 = .found offset := by
  induction blocks generalizing start o o' blocks' with
  | nil =>
    cases ran
    exact searchAll_of_prefix (rooms ▸ List.prefix_refl _) onward
  | cons block rest ih =>
    cases blocks' with
    | nil => cases rooms
    | cons block' rest' =>
      obtain ⟨same, later⟩ := List.cons.inj rooms
      rw [searchAll_room, ← same] at ran
      rw [searchAll_room]
      split at ran
      · cases ran
      case isFalse right =>
        rw [if_neg right]
        split at ran
        · cases ran
        case isFalse past =>
          rw [if_neg past]
          exact ih later ran
end Searching

section Rounding

variable {bytes chunk records slotSize : Nat} {chunkSize size : UInt32}

theorem dvd_roundUp : chunk ∣ roundUp bytes chunk := Nat.dvd_mul_left _ _

theorem le_roundUp (positive : 0 < chunk) : bytes ≤ roundUp bytes chunk := by
  have := Nat.div_add_mod (bytes + chunk - 1) chunk
  have := Nat.mod_lt (bytes + chunk - 1) positive
  rw [roundUp, Nat.mul_comm]
  omega

/-- Of the multiples that reach, it is the smallest. -/
theorem isLeast_roundUp (positive : 0 < chunk) :
    IsLeast {n | chunk ∣ n ∧ bytes ≤ n} (roundUp bytes chunk) := by
  refine ⟨⟨dvd_roundUp, le_roundUp positive⟩, ?_⟩
  rintro n ⟨⟨k, rfl⟩, enough⟩
  have most : (bytes + chunk - 1) / chunk ≤ k := by
    apply Nat.le_of_lt_succ
    apply Nat.div_lt_of_lt_mul
    rw [Nat.mul_succ]
    omega
  rw [roundUp, Nat.mul_comm]
  exact Nat.mul_le_mul_left _ most

theorem roundUp_mono {bytes' : Nat} (le : bytes ≤ bytes') : roundUp bytes chunk ≤ roundUp bytes' chunk :=
  Nat.mul_le_mul_right _ (Nat.div_le_div_right (by omega))

theorem roundUp_le_chunk (positive : 0 < chunk) (fits : bytes ≤ chunk) : roundUp bytes chunk ≤ chunk :=
  (isLeast_roundUp positive).2 ⟨Nat.dvd_refl chunk, fits⟩

theorem roundUp_lt_add (positive : 0 < chunk) : roundUp bytes chunk < bytes + chunk := by
  have most := Nat.div_mul_le_self (bytes + chunk - 1) chunk
  rw [roundUp]
  omega

theorem growthSize_ok (ok : growthSize records slotSize chunkSize = .ok size) :
    size.toNat = roundUp (32 + records * slotSize) chunkSize.toNat := by
  rw [growthSize] at ok
  split at ok
  · cases ok
  case isFalse small =>
    cases ok
    exact UInt32.toNat_ofNat_of_lt' (Nat.lt_of_not_le small)

theorem growthSize_error {fault : Fault} (refused : growthSize records slotSize chunkSize = .error fault) :
    fault = .recordOverflow records := by
  rw [growthSize] at refused
  split at refused
  · exact (Except.error.inj refused).symm
  · cases refused

end Rounding

namespace Handle

variable {h : Handle} {s : Store} {f : OpenFile} {c : Content} {L : Layout} {settings : Settings}

theorem exec_search (sees : h.Sees s f c) (laid : c.LaidOut L) (proper : L.Proper settings)
    (chunk : f.header.chunkSize = settings.chunkSize) {o : Nat} {blocks : List (Nat × Header)}
    (chain : L.Chain o blocks) (slotSize target start : Nat) :
    ∃ s' p, (h.search o slotSize target start).exec s =
        (Search.place (searchAll slotSize target start o blocks), s') ∧
      h.Leaves s { f with position := p } c s.locks s' := by
  obtain ⟨s₁, p, ran, left⟩ :=
    exec_walk (fun header offset (result : Search) => result.step slotSize target header offset) sees laid
      proper chunk chain (.searching start)
  refine ⟨s₁, p, ?_, left⟩
  rw [search]
  refine (Action.exec_bind_ok ran _).trans ?_
  rw [searchAll]
  rcases visitAll _ o blocks (Search.searching start) with ⟨ending, _ | _ | _⟩ <;> rfl

end Handle
end RecordFile
