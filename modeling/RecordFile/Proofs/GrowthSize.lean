import Mathlib
import RecordFile.Proofs.NoOverflow

/-! The size of the block that a chain grows by: the smallest multiple of the chunk size with room for the records
that the chain lacks. Words of 64 bits hold all that is reckoned on the way to it. -/
namespace RecordFile

namespace BlockSpec

/-- The header that a data block of this size gets. -/
def dataBlock (size : UInt32) (firstRecord : UInt64) (chunkSize : UInt32) : BlockHeader :=
  ((data size firstRecord).header chunkSize).blockPart

variable {size chunkSize : UInt32} {firstRecord : UInt64} {records slotSize : Nat}

theorem payload_dataBlock : (dataBlock size firstRecord chunkSize).payload = size.toNat - 32 := by
  rw [dataBlock, header_data]
  rfl

/-- Records fit into a data block just if its size has room for them and for its header. -/
theorem le_slots_dataBlock (some : 1 ≤ records) (slots : 1 ≤ slotSize) :
    records ≤ (dataBlock size firstRecord chunkSize).slots slotSize ↔ 32 + records * slotSize ≤ size.toNat := by
  have filled : 1 ≤ records * slotSize := Nat.mul_pos some slots
  rw [BlockHeader.slots, payload_dataBlock, Nat.le_div_iff_mul_le slots]
  omega

end BlockSpec

open BlockSpec (dataBlock)

theorem TableHeader.capacity_eq {t : TableHeader} {slotSize : Nat} (width : t.slotSize = .ok slotSize)
    (block : BlockHeader) : t.capacity block = .ok (block.slots slotSize) := by
  rw [capacity, width]
  rfl

/-- What a chain grows by is as large as it needs to be, in whole chunks, and no larger. -/
theorem growthSize_exact {records slotSize : Nat} {chunkSize : UInt32} (some : 1 ≤ records) (few : records < 2 ^ 32)
    (slots : 2 ≤ slotSize) (small : slotSize ≤ 2 ^ 32) (chunked : chunkSize ≠ 0) :
    ∃ least, IsLeast {n | chunkSize.toNat ∣ n ∧ 32 + records * slotSize ≤ n} least ∧
      (least ≤ 2 ^ 32 - 1 → ∃ size, growthSize records slotSize chunkSize = .ok size ∧ size.toNat = least) ∧
      (2 ^ 32 - 1 < least → growthSize records slotSize chunkSize = .error (.recordOverflow records)) ∧
      (Checked.growthSize records slotSize chunkSize).run = Option.some (growthSize records slotSize chunkSize) ∧
      ∀ size, growthSize records slotSize chunkSize = .ok size → ∀ first (t : TableHeader), t.slotSize = .ok slotSize →
        (∃ capacity, t.capacity (dataBlock size first chunkSize) = .ok capacity ∧ records ≤ capacity) ∧
        chunkSize.toNat ≤ size.toNat ∧
        ∀ smaller : UInt32, smaller.toNat + chunkSize.toNat ≤ size.toNat →
          ∃ capacity, t.capacity (dataBlock smaller first chunkSize) = .ok capacity ∧ capacity < records := by
  have positive : 0 < chunkSize.toNat := Nat.pos_of_ne_zero fun zero => chunked (UInt32.toNat_inj.mp zero)
  have least : IsLeast {n | chunkSize.toNat ∣ n ∧ 32 + records * slotSize ≤ n}
      (roundUp (32 + records * slotSize) chunkSize.toNat) := isLeast_roundUp positive
  have header : blockHeaderSize.toNat = 32 := rfl
  refine ⟨_, least, fun fits => ?_, fun large => ?_, Checked.growthSize_eq positive few small, ?_⟩
  · refine ⟨UInt32.ofNat (roundUp (32 + records * slotSize) chunkSize.toNat), ?_, ?_⟩
    · rw [growthSize, header, if_neg (by omega)]
    · exact UInt32.toNat_ofNat_of_lt' (by show _ < 2 ^ 32; omega)
  · rw [growthSize, header, if_pos (by omega)]
  · intro size ok first t width
    have sized := growthSize_ok ok
    have enough : 32 + records * slotSize ≤ size.toNat := sized ▸ least.1.2
    have chunks : chunkSize.toNat ∣ size.toNat := sized ▸ least.1.1
    refine ⟨⟨_, t.capacity_eq width _, (BlockSpec.le_slots_dataBlock some (by omega)).mpr enough⟩,
      Nat.le_of_dvd (by omega) chunks, fun smaller less => ⟨_, TableHeader.capacity_eq width _, ?_⟩⟩
    -- A block with room for the records would show a smaller multiple that has room for them, too.
    by_contra holds
    have room := (BlockSpec.le_slots_dataBlock some (by omega)).mp (Nat.le_of_not_lt holds)
    have lower : roundUp (32 + records * slotSize) chunkSize.toNat ≤ size.toNat - chunkSize.toNat :=
      least.2 ⟨Nat.dvd_sub chunks (Nat.dvd_refl _), by omega⟩
    omega

/-- For eighty records of 50 bytes two chunks are needed. The largest request that there is is refused, and to find
that out its size was rounded up to the last number that a word holds. -/
theorem growthSize_exact_largest :
    (∃ least, IsLeast {n | 4096 ∣ n ∧ 32 + 80 * 51 ≤ n} least ∧ growthSize 80 51 4096 = .ok 8192 ∧
      ∀ t : TableHeader, t.recordSize = 50 → ∃ capacity,
        t.capacity (dataBlock 4096 80 4096) = .ok capacity ∧ capacity < 80) ∧
    (Checked.growthSize (2 ^ 32 - 1) (2 ^ 32) 4294967295).run = some (.error (.recordOverflow (2 ^ 32 - 1))) ∧
    roundUp (32 + (2 ^ 32 - 1) * 2 ^ 32) 4294967295 = 2 ^ 64 - 1 := by
  have two : growthSize 80 51 4096 = .ok 8192 := by decide
  have none : growthSize (2 ^ 32 - 1) (2 ^ 32) 4294967295 = .error (.recordOverflow (2 ^ 32 - 1)) := by
    decide +kernel
  obtain ⟨least, isLeast, -, -, -, room⟩ :=
    @growthSize_exact 80 51 4096 (by decide) (by decide) (by decide) (by decide) (by decide)
  obtain ⟨-, -, -, -, checked, -⟩ :=
    @growthSize_exact (2 ^ 32 - 1) (2 ^ 32) 4294967295 (by decide) (by decide) (by decide) (by decide) (by decide)
  refine ⟨⟨least, isLeast, two, fun t wide => ?_⟩, checked.trans (congrArg some none), by decide +kernel⟩
  have width : t.slotSize = .ok 51 := by rw [TableHeader.slotSize, wide]; rfl
  exact (room 8192 two 80 t width).2.2 4096 (by decide)

end RecordFile
