import Mathlib
import RecordFile.Proofs.Words

/-! Lengths of time in words: whole seconds, and nanoseconds of one more. What is reckoned with them is compared with
the number of nanoseconds that they stand for, which no word bounds. -/
namespace RecordFile

structure Duration where
  seconds : UInt64
  nanos : UInt32
  nanos_lt : nanos.toNat < 1000000000
  deriving DecidableEq

namespace Duration

variable {d e : Duration} {k : UInt32}

def inNanos (d : Duration) : Nat := d.seconds.toNat * 1000000000 + d.nanos.toNat

theorem inNanos_lt (d : Duration) : d.inNanos < 2 ^ 64 * 1000000000 := by
  have seconds := d.seconds.toNat_lt
  have nanos := d.nanos_lt
  simp only [inNanos]
  omega

def longest : Duration := ⟨0xffffffffffffffff, 999999999, by decide⟩

theorem inNanos_longest : longest.inNanos = 2 ^ 64 * 1000000000 - 1 := by decide

theorem inNanos_le_longest (d : Duration) : d.inNanos ≤ longest.inNanos := by
  rw [inNanos_longest]
  exact Nat.le_sub_one_of_lt d.inNanos_lt

/-! ### Comparing -/

/-- Seconds decide, and nanoseconds between as many seconds. -/
instance : LE Duration := ⟨fun d e => d.seconds < e.seconds ∨ d.seconds = e.seconds ∧ d.nanos ≤ e.nanos⟩

instance : DecidableLE Duration :=
  fun d e => inferInstanceAs (Decidable (d.seconds < e.seconds ∨ d.seconds = e.seconds ∧ d.nanos ≤ e.nanos))

instance : Min Duration := minOfLe

theorem le_iff_inNanos_le : d ≤ e ↔ d.inNanos ≤ e.inNanos := by
  have small := d.nanos_lt
  have small' := e.nanos_lt
  change d.seconds < e.seconds ∨ d.seconds = e.seconds ∧ d.nanos ≤ e.nanos ↔ _
  rw [UInt64.lt_iff_toNat_lt, ← UInt64.toNat_inj, UInt32.le_iff_toNat_le, inNanos, inNanos]
  omega

theorem inNanos_min (d e : Duration) : (min d e).inNanos = min d.inNanos e.inNanos := by
  change (if d ≤ e then d else e).inNanos = _
  split
  case isTrue less => exact (Nat.min_eq_left (le_iff_inNanos_le.mp less)).symm
  case isFalse more => exact (Nat.min_eq_right (by rw [le_iff_inNanos_le] at more; omega)).symm

/-! ### Multiples -/

/-- What the nanoseconds come to as many times, whole seconds among them. -/
def nanosTimes (d : Duration) (k : UInt32) : UInt64 := d.nanos.toUInt64 * k.toUInt64

theorem rest_lt (nanos : UInt64) : (nanos % 1000000000).toUInt32.toNat < 1000000000 := by
  rw [UInt64.toNat_toUInt32, UInt64.toNat_mod]
  exact Nat.lt_of_le_of_lt (Nat.mod_le _ _) (Nat.mod_lt _ (by decide))

/-- As many of them, unless that takes more seconds than a word holds. -/
def times? (d : Duration) (k : UInt32) : Option Duration := do
  let nanos := d.nanosTimes k
  let seconds ← Word.mul d.seconds.toNat k.toNat
  let seconds ← Word.add seconds (nanos / 1000000000).toNat
  return ⟨.ofNat seconds, (nanos % 1000000000).toUInt32, rest_lt nanos⟩

/-- As many of them, or the longest there is. -/
def times (d : Duration) (k : UInt32) : Duration := (d.times? k).getD longest

/-- Nanoseconds are fewer than a second has, so that this product never wraps. -/
theorem toNat_nanosTimes (d : Duration) (k : UInt32) : (d.nanosTimes k).toNat = d.nanos.toNat * k.toNat := by
  have fits : d.nanos.toNat * k.toNat < 2 ^ 64 := calc
    d.nanos.toNat * k.toNat ≤ 1000000000 * 2 ^ 32 := Nat.mul_le_mul d.nanos_lt.le k.toNat_lt.le
    _ < 2 ^ 64 := by norm_num
  rw [nanosTimes, UInt64.toNat_mul, UInt32.toNat_toUInt64, UInt32.toNat_toUInt64, Nat.mod_eq_of_lt fits]

theorem inNanos_mul_div (d : Duration) (k : UInt32) :
    d.inNanos * k.toNat / 1000000000 = d.seconds.toNat * k.toNat + (d.nanosTimes k / 1000000000).toNat := by
  rw [UInt64.toNat_div, toNat_nanosTimes, inNanos, Nat.add_mul, Nat.mul_right_comm, Nat.add_comm,
    Nat.add_mul_div_right _ _ (by decide), Nat.add_comm]
  rfl

theorem inNanos_mul_mod (d : Duration) (k : UInt32) :
    d.inNanos * k.toNat % 1000000000 = (d.nanosTimes k % 1000000000).toUInt32.toNat := by
  rw [UInt64.toNat_toUInt32, UInt64.toNat_mod, toNat_nanosTimes, inNanos, Nat.add_mul, Nat.mul_right_comm,
    Nat.mul_add_mod_self_right]
  exact (Nat.mod_eq_of_lt ((Nat.mod_lt _ (by decide)).trans (by decide))).symm

/-- A multiple that there is has exactly the length. -/
theorem times?_of_lt (fits : d.inNanos * k.toNat < 2 ^ 64 * 1000000000) :
    ∃ e, d.times? k = some e ∧ e.inNanos = d.inNanos * k.toNat := by
  have whole := inNanos_mul_div d k
  have seconds : d.inNanos * k.toNat / 1000000000 < 2 ^ 64 := Nat.div_lt_of_lt_mul (by omega)
  refine ⟨⟨.ofNat (d.inNanos * k.toNat / 1000000000), _, rest_lt (d.nanosTimes k)⟩, ?_, ?_⟩
  · rw [whole] at seconds ⊢
    rw [times?, Word.mul_eq (by omega)]
    change (Word.add _ _).bind _ = _
    rw [Word.add_eq seconds]
    rfl
  · rw [inNanos, UInt64.toNat_ofNat_of_lt' seconds, ← inNanos_mul_mod]
    exact Nat.div_add_mod' _ _

/-- There is none where no duration has that length. -/
theorem times?_of_le (long : 2 ^ 64 * 1000000000 ≤ d.inNanos * k.toNat) : d.times? k = none := by
  have seconds : 2 ^ 64 ≤ d.inNanos * k.toNat / 1000000000 := (Nat.le_div_iff_mul_le (by decide)).mpr long
  rw [inNanos_mul_div] at seconds
  rw [times?]
  by_cases fits : d.seconds.toNat * k.toNat < 2 ^ 64
  · rw [Word.mul_eq fits]
    change (Word.add _ _).bind _ = _
    rw [Word.add, if_neg (Nat.not_lt.mpr seconds)]
    rfl
  · rw [Word.mul, if_neg fits]
    rfl

theorem inNanos_times (d : Duration) (k : UInt32) :
    (d.times k).inNanos = min (d.inNanos * k.toNat) longest.inNanos := by
  rw [times]
  rcases Nat.lt_or_ge (d.inNanos * k.toNat) (2 ^ 64 * 1000000000) with fits | long
  · obtain ⟨e, multiple, exact⟩ := times?_of_lt fits
    rw [multiple, Option.getD_some, ← exact, Nat.min_eq_left e.inNanos_le_longest]
  · rw [times?_of_le long, Option.getD_none, inNanos_longest, Nat.min_eq_right (by omega)]

end Duration
end RecordFile
