import Mathlib
import RecordFile.Backoff

/-! How often an operation is tried, and when. The operation is known by what each of its calls comes to; what is
noted of a run is every call and every wait, in their order. -/
namespace RecordFile

namespace Backoff

/-- What is noted of a run. -/
inductive Event
  | call (number : Nat)
  | wait (delay : Nat)
  deriving DecidableEq

structure Notes where
  /-- The number that the next call gets. -/
  next : Nat := 1
  events : List Event := []
  deriving DecidableEq

/-- Whether a call met contention. -/
def Contended {α : Type} (outcome : Except Fault α) : Prop := ∃ region, outcome = .error (.lockFailed region)

section

variable {α : Type} (b : Backoff) (outcomes : Nat → Except Fault α)

/-- The operation whose call number `n` comes to `outcomes n`. -/
def scripted : ExceptT Fault (StateM Notes) α := ExceptT.mk fun notes =>
  (outcomes notes.next, { next := notes.next + 1, events := notes.events ++ [.call notes.next] })

def noteWait (delay : Nat) : StateM Notes Unit :=
  modify fun notes => { notes with events := notes.events ++ [.wait delay] }

/-- So many calls from call number `first` on, and between one and the next the wait after the one. -/
def timetable (first : Nat) : Nat → List Event
  | 0 => []
  | 1 => [.call first]
  | calls + 2 => .call first :: .wait (b.delay first) :: timetable (first + 1) (calls + 1)

/-- Call number `k` is the first that does not meet contention. -/
structure FirstThrough (k : Nat) : Prop where
  counted : 1 ≤ k
  through : ¬ Contended (outcomes k)
  before : ∀ i, 1 ≤ i → i < k → Contended (outcomes i)

variable {b outcomes}

theorem run_scripted_call (notes : Notes) : (scripted outcomes).run.run notes =
    (outcomes notes.next, { next := notes.next + 1, events := notes.events ++ [.call notes.next] }) := rfl

/-- A call that meets contention is followed by a wait and the tries that are left. -/
theorem run_retryFrom_contended {first : Nat} (contended : Contended (outcomes first)) (left : Nat) (events : List Event) :
    (b.retryFrom noteWait (scripted outcomes) (left + 1) first).run.run ⟨first, events⟩ =
      (b.retryFrom noteWait (scripted outcomes) left (first + 1)).run.run
        ⟨first + 1, events ++ [.call first] ++ [.wait (b.delay first)]⟩ := by
  obtain ⟨region, contended⟩ := contended
  rw [retryFrom, ExceptT.run_mk, StateT.run_bind, run_scripted_call, contended]
  rfl

/-- Any other call is the last. -/
theorem run_retryFrom_through {first : Nat} (through : ¬ Contended (outcomes first)) (left : Nat) (events : List Event) :
    (b.retryFrom noteWait (scripted outcomes) left first).run.run ⟨first, events⟩ =
      (outcomes first, ⟨first + 1, events ++ [.call first]⟩) := by
  cases left with
  | zero => rfl
  | succ left =>
    rw [retryFrom, ExceptT.run_mk, StateT.run_bind, run_scripted_call]
    cases outcome : outcomes first with
    | ok value => rfl
    | error fault =>
      cases fault with
      | lockFailed region => exact absurd ⟨region, outcome⟩ through
      | _ => rfl

/-- As many calls are made as it takes to get through, or all that are left. -/
theorem run_retryFrom (left first more : Nat) (enough : more ≤ left) (events : List Event)
    (before : ∀ i, first ≤ i → i < first + more → Contended (outcomes i))
    (last : more < left → ¬ Contended (outcomes (first + more))) :
    (b.retryFrom noteWait (scripted outcomes) left first).run.run ⟨first, events⟩ =
      (outcomes (first + more), ⟨first + more + 1, events ++ b.timetable first (more + 1)⟩) := by
  induction more generalizing left first events with
  | zero =>
    cases left with
    | zero => rfl
    | succ left => exact run_retryFrom_through (last (Nat.succ_pos left)) (left + 1) events
  | succ more ih =>
    obtain ⟨left, rfl⟩ := Nat.exists_eq_add_of_le' (Nat.one_le_of_lt (Nat.lt_of_succ_le enough))
    have next : first + 1 + more = first + (more + 1) := by omega
    rw [run_retryFrom_contended (before first (Nat.le_refl first) (by omega)),
      ih left (first + 1) (by omega) _ (fun i low high => before i (by omega) (by omega))
        (fun fewer => next ▸ last (by omega)), next, timetable]
    simp only [List.append_assoc, List.cons_append, List.nil_append]

/-- What an operation comes to that is tried under a policy, and what is noted meanwhile. -/
def trial (b : Backoff) (outcomes : Nat → Except Fault α) : Except Fault α × Notes :=
  (b.run noteWait (scripted outcomes)).run.run {}

theorem trial_eq {k : Nat} (counted : 1 ≤ k) (within : k ≤ max 1 b.attempts.toNat)
    (before : ∀ i, 1 ≤ i → i < k → Contended (outcomes i))
    (last : k < max 1 b.attempts.toNat → ¬ Contended (outcomes k)) :
    b.trial outcomes = (outcomes k, ⟨k + 1, b.timetable 1 k⟩) := by
  obtain ⟨more, rfl⟩ := Nat.exists_eq_add_of_le counted
  rw [trial, run, run_retryFrom _ 1 more (by omega) [] before fun fewer => last (by omega), List.nil_append,
    Nat.add_comm more]

/-- Without a call that gets through in time, all the calls before meet contention. -/
theorem contended_of_late {most : Nat} (late : ∀ k, FirstThrough outcomes k → most < k) {i : Nat} (counted : 1 ≤ i)
    (within : i ≤ most) : Contended (outcomes i) := by
  induction i using Nat.strong_induction_on with
  | _ i ih =>
    by_contra through
    have first : FirstThrough outcomes i := ⟨counted, through, fun j low high => ih j high low (by omega)⟩
    exact absurd (late i first) (by omega)

/-- A policy allows at least one call. Of those that it allows, the ones are made that come no later than the first
that does not meet contention, and what the last of them comes to is the result. Between a call and the next is the
wait that the policy has for the one. -/
theorem trial_exact (b : Backoff) (outcomes : Nat → Except Fault α) :
    let most := max 1 b.attempts.toNat
    (∀ k, FirstThrough outcomes k → k ≤ most →
      b.trial outcomes = (outcomes k, ⟨k + 1, b.timetable 1 k⟩)) ∧
    ((∀ k, FirstThrough outcomes k → most < k) →
      Contended (outcomes most) ∧ b.trial outcomes = (outcomes most, ⟨most + 1, b.timetable 1 most⟩)) ∧
    ∃ k, 1 ≤ k ∧ k ≤ most ∧ b.trial outcomes = (outcomes k, ⟨k + 1, b.timetable 1 k⟩) := by
  intro most
  have one : 1 ≤ most := Nat.le_max_left ..
  have through : ∀ k, FirstThrough outcomes k → k ≤ most →
      b.trial outcomes = (outcomes k, ⟨k + 1, b.timetable 1 k⟩) :=
    fun k first within => trial_eq first.counted within first.before fun _ => first.through
  have spent (late : ∀ k, FirstThrough outcomes k → most < k) :
      b.trial outcomes = (outcomes most, ⟨most + 1, b.timetable 1 most⟩) :=
    trial_eq one (Nat.le_refl most) (fun i low high => contended_of_late late low (Nat.le_of_lt high))
      fun fewer => absurd fewer (Nat.lt_irrefl most)
  refine ⟨through, fun late => ⟨contended_of_late late one (Nat.le_refl most), spent late⟩, ?_⟩
  by_cases late : ∀ k, FirstThrough outcomes k → most < k
  · exact ⟨most, one, Nat.le_refl most, spent late⟩
  · push Not at late
    obtain ⟨k, first, within⟩ := late
    exact ⟨k, first.counted, within, through k first within⟩

end

/-- The third call gets through. -/
def thirdTime (call : Nat) : Except Fault Unit := if call < 3 then .error (.lockFailed ⟨40, 8⟩) else .ok ()

/-- A policy of four calls makes three, and one of two calls makes both in vain. -/
theorem trial_exact_third :
    FirstThrough thirdTime 3 ∧
    trial { attempts := 4 } thirdTime =
      (.ok (), ⟨4, [.call 1, .wait 2000000, .call 2, .wait 4000000, .call 3]⟩) ∧
    trial { attempts := 2 } thirdTime =
      (.error (.lockFailed ⟨40, 8⟩), ⟨3, [.call 1, .wait 2000000, .call 2]⟩) := by
  have before : ∀ i, i < 3 → Contended (thirdTime i) := fun i early => ⟨⟨40, 8⟩, if_pos early⟩
  have first : FirstThrough thirdTime 3 := by
    refine ⟨by decide, ?_, fun i _ early => before i early⟩
    rintro ⟨region, contended⟩
    cases contended
  have late : ∀ k, FirstThrough thirdTime k → 2 < k := by
    intro k first
    by_contra early
    exact first.through (before k (by omega))
  exact ⟨first, (trial_exact { attempts := 4 } thirdTime).1 3 first (by decide),
    ((trial_exact { attempts := 2 } thirdTime).2.1 late).2⟩

end Backoff
end RecordFile
