import Mathlib
import RecordFile.Proofs.Durations
import RecordFile.Proofs.Pacing

/-! How waits grow from one retry to the next. They double until the cap of the policy is reached, or until there have
been as many doublings as there may be. A policy whose cap lies farther off than these take it never waits that long. -/
namespace RecordFile

namespace Backoff

variable {b : Backoff} {retry : Nat}

/-! ### The law of the delays -/

theorem delay_eq (b : Backoff) (retry : Nat) :
    b.delay retry = min b.cap (b.base * 2 ^ min (retry - 1) maxDoublings) := by
  rw [delay, Nat.shiftLeft_eq, Nat.min_comm]

theorem delay_le_cap (b : Backoff) (retry : Nat) : b.delay retry ≤ b.cap := Nat.min_le_right ..

theorem delay_mono (b : Backoff) : Monotone b.delay := by
  intro retry later before
  rw [delay_eq, delay_eq]
  gcongr
  exact one_le_two

/-- The wait after this try comes to the base doubled once for each try before, up to the cap: it is one of the first,
or the doublings that there may be reach the cap, or there is nothing to double. -/
def Doubles (b : Backoff) (retry : Nat) : Prop :=
  retry ≤ maxDoublings + 1 ∨ b.base = 0 ∨ b.cap ≤ b.base * 2 ^ maxDoublings

instance (b : Backoff) (retry : Nat) : Decidable (b.Doubles retry) :=
  inferInstanceAs (Decidable (retry ≤ maxDoublings + 1 ∨ b.base = 0 ∨ b.cap ≤ b.base * 2 ^ maxDoublings))

theorem delay_of_doubles (doubles : b.Doubles retry) : b.delay retry = min b.cap (b.base * 2 ^ (retry - 1)) := by
  rw [delay_eq]
  by_cases early : retry ≤ maxDoublings + 1
  · have each : min (retry - 1) maxDoublings = retry - 1 := by omega
    rw [each]
  · have spent : min (retry - 1) maxDoublings = maxDoublings := by omega
    have further : b.base * 2 ^ maxDoublings ≤ b.base * 2 ^ (retry - 1) :=
      Nat.mul_le_mul_left _ (Nat.pow_le_pow_right (by decide) (by omega))
    rw [spent]
    rcases doubles with low | none | reached
    · exact absurd low early
    · rw [none, Nat.zero_mul, Nat.zero_mul]
    · rw [Nat.min_eq_left reached, Nat.min_eq_left (reached.trans further)]

/-- Otherwise the wait is what the last doubling made of it, short of the cap. -/
theorem delay_of_not_doubles (stalled : ¬ b.Doubles retry) :
    b.delay retry = b.base * 2 ^ maxDoublings ∧ b.delay retry < b.cap ∧
      b.delay retry < b.base * 2 ^ (retry - 1) := by
  simp only [Doubles, not_or, Nat.not_le] at stalled
  obtain ⟨late, some, short⟩ := stalled
  have further : b.base * 2 ^ maxDoublings < b.base * 2 ^ (retry - 1) :=
    Nat.mul_lt_mul_of_pos_left (Nat.pow_lt_pow_right (by decide) (by omega)) (Nat.pos_of_ne_zero some)
  rw [delay_eq, Nat.min_eq_right (by omega : maxDoublings ≤ retry - 1), Nat.min_eq_right short.le]
  exact ⟨rfl, short, further⟩

/-- A wait from the one before. -/
theorem delay_succ (counted : 1 ≤ retry) : b.delay (retry + 1) =
    if b.Doubles (retry + 1) then min b.cap (2 * b.delay retry) else b.delay retry := by
  split
  case isTrue doubles =>
    have before : b.Doubles retry := doubles.imp_left (Nat.le_of_succ_le ·)
    have twice : b.base * 2 ^ retry = 2 * (b.base * 2 ^ (retry - 1)) := by
      rw [← Nat.sub_add_cancel counted, Nat.pow_succ, Nat.add_sub_cancel]
      ring
    rw [delay_of_doubles doubles, delay_of_doubles before, Nat.add_sub_cancel, twice]
    omega
  case isFalse stalled =>
    have late : maxDoublings + 1 < retry + 1 := Nat.lt_of_not_le fun early => stalled (.inl early)
    rw [delay_eq, delay_eq, Nat.min_eq_right (by omega : maxDoublings ≤ retry + 1 - 1),
      Nat.min_eq_right (by omega : maxDoublings ≤ retry - 1)]

/-! ### The waits of a run -/

def waitsOf (events : List Event) : List Nat := events.filterMap fun
  | .wait delay => some delay
  | .call _ => none

section

variable {α : Type} (b : Backoff) (outcomes : Nat → Except Fault α)

theorem waitsOf_retryFrom (left first : Nat) (events : List Event) :
    ∃ retries ≤ left, ∃ ended noted,
      (b.retryFrom noteWait (scripted outcomes) left first).run.run ⟨first, events⟩ =
        (ended, ⟨first + retries + 1, noted⟩) ∧
      waitsOf noted = waitsOf events ++ (List.range' first retries).map b.delay := by
  -- By the tries that are left: one that meets contention adds its wait to those before, any other is the last.
  induction left generalizing first events with
  | zero => exact ⟨0, Nat.le_refl 0, _, _, rfl, by simp [waitsOf]⟩
  | succ left ih =>
    by_cases contended : Contended (outcomes first)
    · obtain ⟨retries, few, ended, noted, ran, waited⟩ :=
        ih (first + 1) (events ++ [Event.call first] ++ [Event.wait (b.delay first)])
      have next : first + 1 + retries + 1 = first + (retries + 1) + 1 := by omega
      refine ⟨retries + 1, Nat.succ_le_succ few, ended, noted, ?_, ?_⟩
      · rw [run_retryFrom_contended contended, ran, next]
      · rw [waited]
        simp [waitsOf, List.range'_succ]
    · exact ⟨0, Nat.zero_le _, _, _, run_retryFrom_through contended _ _, by simp [waitsOf]⟩

/-- Between its calls a run waits as its policy has it for the first retry, the second, and so on. -/
theorem waitsOf_trial : ∃ retries < max 1 b.attempts.toNat,
    (b.trial outcomes).2.next = retries + 2 ∧
      waitsOf (b.trial outcomes).2.events = (List.range' 1 retries).map b.delay := by
  obtain ⟨retries, few, ended, noted, ran, waited⟩ :=
    b.waitsOf_retryFrom outcomes (b.attempts.toNat - 1) 1 []
  have tried : b.trial outcomes = (ended, ⟨retries + 2, noted⟩) := ran.trans (by rw [Nat.add_comm 1])
  rw [tried]
  exact ⟨retries, by omega, rfl, waited⟩

end

end Backoff

/-- How often to try and how long to wait in between, in words. -/
structure Policy where
  attempts : UInt32
  base : Duration
  cap : Duration

namespace Policy

open Backoff (maxDoublings waitsOf)

/-- So many doublings come before the wait after the failed try number `retry`. -/
def doublings (retry : UInt32) : UInt32 := min (if retry = 0 then 0 else retry - 1) 16

/-- The wait after the failed try number `retry`. -/
def delay (p : Policy) (retry : UInt32) : Duration := min (p.base.times (1 <<< doublings retry)) p.cap

def backoff (p : Policy) : Backoff := ⟨p.attempts, p.base.inNanos, p.cap.inNanos⟩

theorem toNat_doublings (retry : UInt32) : (doublings retry).toNat = min (retry.toNat - 1) maxDoublings := by
  have before : (if retry = 0 then 0 else retry - 1).toNat = retry.toNat - 1 := by
    split
    case isTrue none => rw [none]; rfl
    case isFalse some =>
      have counted : (1 : UInt32) ≤ retry := by
        rw [UInt32.le_iff_toNat_le]
        exact Nat.pos_of_ne_zero fun zero => some (UInt32.toNat_inj.mp zero)
      exact UInt32.toNat_sub_of_le _ _ counted
  rw [doublings, UInt32.toNat_min, before]
  rfl

theorem toNat_one_shiftLeft {doublings : UInt32} (few : doublings.toNat ≤ maxDoublings) :
    ((1 : UInt32) <<< doublings).toNat = 2 ^ doublings.toNat := by
  have small : doublings.toNat < 32 := Nat.lt_of_le_of_lt few (by decide)
  have fits : 2 ^ doublings.toNat < 2 ^ 32 := Nat.pow_lt_pow_right (by decide) small
  rw [UInt32.toNat_shiftLeft, Nat.mod_eq_of_lt small, Nat.shiftLeft_eq, UInt32.toNat_one, Nat.one_mul,
    Nat.mod_eq_of_lt fits]

/-- Words hold all that is reckoned, or it is past the cap. -/
theorem inNanos_delay (p : Policy) (retry : UInt32) : (p.delay retry).inNanos = p.backoff.delay retry.toNat := by
  have doublings := toNat_doublings retry
  rw [delay, Duration.inNanos_min, Duration.inNanos_times, toNat_one_shiftLeft (by omega), doublings, Backoff.delay_eq,
    Nat.min_assoc, Nat.min_eq_right p.cap.inNanos_le_longest, Nat.min_comm]
  rfl

/-- The waits before so many retries. -/
def waits (p : Policy) (retries : Nat) : List Duration :=
  (List.range' 1 retries).map fun retry => p.delay (.ofNat retry)

section

variable {p : Policy} {retries : Nat}

theorem delay_le_cap (p : Policy) (retry : UInt32) : p.delay retry ≤ p.cap := by
  rw [Duration.le_iff_inNanos_le, inNanos_delay]
  exact p.backoff.delay_le_cap _

theorem inNanos_waits (few : retries < 2 ^ 32) :
    (p.waits retries).map Duration.inNanos = (List.range' 1 retries).map p.backoff.delay := by
  rw [waits, List.map_map]
  refine List.map_congr_left fun retry made => ?_
  have small : retry < 2 ^ 32 := by
    rw [List.mem_range'_1] at made
    omega
  rw [Function.comp_apply, inNanos_delay, UInt32.toNat_ofNat_of_lt' small]

theorem waits_sorted (few : retries < 2 ^ 32) : (p.waits retries).Pairwise (· ≤ ·) := by
  have sorted : ((p.waits retries).map Duration.inNanos).Pairwise (· ≤ ·) := by
    rw [inNanos_waits few]
    exact List.pairwise_le_range'.map _ fun _ _ before => p.backoff.delay_mono before
  exact (List.pairwise_map.mp sorted).imp Duration.le_iff_inNanos_le.mpr

theorem inNanos_getElem_waits (few : retries < 2 ^ 32) {i : Nat} (made : i < (p.waits retries).length) :
    (p.waits retries)[i].inNanos = p.backoff.delay (i + 1) := by
  have same := List.getElem_of_eq (inNanos_waits (p := p) few) (by rwa [List.length_map])
  rw [List.getElem_map] at same
  rw [same, List.getElem_map, List.getElem_range']
  congr 1
  omega

end

/-- What a policy waits. After a failed try it is the base, doubled once for each try before and cut off at the cap, as
long as `Doubles` holds of the try and no longer; from then on it is the base doubled as often as it may be, which is
short of the cap. Between its calls a run waits these times in their order. They never get shorter, none is longer than
the cap, and each is twice the one before, up to the cap, or as long once the doublings are spent. -/
theorem delays_exact {α : Type} (p : Policy) (outcomes : Nat → Except Fault α) :
    (∀ retry : UInt32, (p.delay retry).inNanos = p.backoff.delay retry.toNat ∧
      ((p.delay retry).inNanos = min p.cap.inNanos (p.base.inNanos * 2 ^ (retry.toNat - 1)) ↔
        p.backoff.Doubles retry.toNat) ∧
      (¬ p.backoff.Doubles retry.toNat →
        (p.delay retry).inNanos = p.base.inNanos * 2 ^ maxDoublings ∧ (p.delay retry).inNanos < p.cap.inNanos) ∧
      p.delay retry ≤ p.cap) ∧
    ∃ retries < max 1 p.attempts.toNat,
      (p.backoff.trial outcomes).2.next = retries + 2 ∧
      waitsOf (p.backoff.trial outcomes).2.events = (p.waits retries).map Duration.inNanos ∧
      (p.waits retries).Pairwise (· ≤ ·) ∧ (∀ wait ∈ p.waits retries, wait ≤ p.cap) ∧
      ∀ i (next : i + 1 < (p.waits retries).length), (p.waits retries)[i + 1].inNanos =
        if p.backoff.Doubles (i + 2) then min p.cap.inNanos (2 * (p.waits retries)[i].inNanos)
        else (p.waits retries)[i].inNanos := by
  constructor
  · intro retry
    rw [inNanos_delay]
    refine ⟨rfl, ⟨fun law => ?_, Backoff.delay_of_doubles⟩, fun stalled => ?_, p.delay_le_cap retry⟩
    · by_contra stalled
      obtain ⟨-, short, further⟩ := Backoff.delay_of_not_doubles stalled
      exact absurd law (Nat.ne_of_lt (Nat.lt_min.mpr ⟨short, further⟩))
    · obtain ⟨spent, short, -⟩ := Backoff.delay_of_not_doubles stalled
      exact ⟨spent, short⟩
  · obtain ⟨retries, fewer, called, waited⟩ := p.backoff.waitsOf_trial outcomes
    have few : retries < 2 ^ 32 := by
      have attempts := p.attempts.toNat_lt
      change retries < max 1 p.attempts.toNat at fewer
      omega
    refine ⟨retries, fewer, called, waited.trans (inNanos_waits few).symm, waits_sorted few, ?_, fun i next => ?_⟩
    · intro wait made
      obtain ⟨retry, -, rfl⟩ := List.mem_map.mp made
      exact p.delay_le_cap _
    · rw [inNanos_getElem_waits few, inNanos_getElem_waits few]
      exact Backoff.delay_succ (Nat.succ_pos i)

/-- Every call meets contention. -/
def busy (_ : Nat) : Except Fault Unit := .error (.lockFailed ⟨40, 8⟩)

/-- Two milliseconds, and at most ten. -/
def brisk : Policy := ⟨6, ⟨0, 2000000, by decide⟩, ⟨0, 10000000, by decide⟩⟩

/-- One millisecond, and at most five minutes. -/
def patient : Policy := ⟨20, ⟨0, 1000000, by decide⟩, ⟨300, 0, by decide⟩⟩

theorem delays_exact_brisk :
    (brisk.delay 40).inNanos = 10000000 ∧ (patient.delay 40).inNanos = 65536000000 ∧
    waitsOf (brisk.backoff.trial busy).2.events = [2000000, 4000000, 8000000, 10000000, 10000000] ∧
    (brisk.waits 5).Pairwise (· ≤ ·) ∧
    ((brisk.waits 5).get ⟨3, by decide⟩).inNanos =
      min brisk.cap.inNanos (2 * ((brisk.waits 5).get ⟨2, by decide⟩).inNanos) := by
  have reached : (brisk.delay 40).inNanos = 10000000 :=
    (((delays_exact brisk busy).1 40).2.1.mpr (by decide)).trans (by decide)
  have stalled : (patient.delay 40).inNanos = 65536000000 :=
    (((delays_exact patient busy).1 40).2.2.1 (by decide)).1.trans (by decide)
  obtain ⟨-, retries, -, called, waited, sorted, -, grown⟩ := delays_exact brisk busy
  have five : retries = 5 := by
    have calls : (brisk.backoff.trial busy).2.next = 7 := by decide +kernel
    omega
  subst five
  have third := (grown 2 (by decide)).trans (if_pos (by decide))
  exact ⟨reached, stalled, waited.trans (by decide +kernel), sorted, third⟩

/-- A cap of five minutes is never reached: the waits stay at little more than one. -/
theorem patient_stalls :
    (patient.delay 18).inNanos ≠ min patient.cap.inNanos (patient.base.inNanos * 2 ^ (18 - 1)) ∧
    (waitsOf (patient.backoff.trial busy).2.events).drop 16 = [65536000000, 65536000000, 65536000000] := by
  decide +kernel

end Policy
end RecordFile
