import Mathlib
import RecordFile.Locking
import RecordFile.Proofs.Streaming

/-! Work under a lock. A region that cannot be locked is refused before anything changes; one that can
is let go again whatever the body comes to. -/
namespace RecordFile

theorem Region.lockSpan_eq {r : Region} (some : r.len ≠ 0) (fits : r.stop ≤ maxOffset) :
    r.lockSpan = .ok r := by
  rw [stop] at fits
  rw [lockSpan, if_neg (by omega), if_neg (by omega), if_neg some, if_neg (by omega)]

namespace Handle

variable {h : Handle} {s : Store} {f : OpenFile} {c : Content} {r : Region}

/-- No enclosing body of the handle and no other handle holds a byte of the region. -/
structure Free (h : Handle) (s : Store) (f : OpenFile) (r : Region) : Prop where
  held : ∀ region ∈ f.held, ¬ region.Overlaps r
  locks : s.locks.contended h.descriptor f.location r = false

theorem Sees.relock (sees : h.Sees s f c) (t : LockTable) : h.Leaves s f c t { s with locks := t } :=
  ⟨⟨sees.opened, sees.content, sees.position⟩, rfl, fun _ _ => rfl, fun _ _ => rfl, rfl⟩

theorem exec_lockBytes (sees : h.Sees s f c) (some : r.len ≠ 0) (fits : r.stop ≤ maxOffset)
    (free : s.locks.contended h.descriptor f.location r = false) :
    ∃ s', (h.lockBytes r).exec s = (.ok (), s') ∧
      h.Leaves s f c (s.locks.add h.descriptor f.location r) s' := by
  refine ⟨_, ?_, sees.relock _⟩
  rw [lockBytes, Region.lockSpan_eq some fits, Action.exec_bind_ok (Action.exec_orFault_ok ..),
    Action.exec_bind_ok (exec_file sees), Action.exec_bind_ok (Action.exec_get s)]
  simp only [free]
  exact (Action.exec_bind_ok (Action.exec_pure ..) _).trans (Action.exec_modify ..)

theorem exec_unlockBytes (sees : h.Sees s f c) (some : r.len ≠ 0) (fits : r.stop ≤ maxOffset) :
    ∃ s', (h.unlockBytes r).exec s = (.ok (), s') ∧
      h.Leaves s f c (s.locks.remove h.descriptor r) s' := by
  refine ⟨_, ?_, sees.relock _⟩
  rw [unlockBytes, Region.lockSpan_eq some fits, Action.exec_bind_ok (Action.exec_orFault_ok ..),
    Action.exec_bind_ok (exec_file sees), Action.exec_modify]

theorem exec_recording_ok {α : Type} {act : Action α} {s' : Store} {value : α}
    (ran : act.exec s = (.ok value, s')) : (h.recording act).exec s = (.ok value, s') := by
  rw [recording, Action.exec_tryCatch, ran]

theorem exec_hold (sees : h.Sees s f c) (some : r.len ≠ 0) (fits : r.stop ≤ maxOffset)
    (free : h.Free s f r) :
    ∃ s', (h.hold r).exec s = (.ok (), s') ∧
      h.Leaves s { f with held := r :: f.held } c (s.locks.add h.descriptor f.location r) s' := by
  obtain ⟨s₁, ran₁, left₁⟩ := exec_lockBytes sees some fits free.locks
  have left₂ := left₁.sees.mapOpen (fun f => { f with held := r :: f.held }) rfl sees.position
  have apart : (f.held.any fun region => decide (region.Overlaps r)) = false := by
    rw [List.any_eq_false]
    intro region mem
    simpa using free.held region mem
  refine ⟨_, ?_, left₁.trans_quiet left₂ rfl⟩
  simp only [hold, if_neg some]
  rw [Action.exec_bind_ok (exec_file sees), apart]
  simp only [Bool.false_eq_true, if_false]
  rw [Action.exec_bind_ok (exec_recording_ok ran₁), exec_update left₁.sees]

/-- A region that is not free is refused, and nothing changes. -/
theorem exec_hold_refused (sees : h.Sees s f c) (some : r.len ≠ 0) (fits : r.stop ≤ maxOffset)
    (taken : ¬ h.Free s f r) :
    ∃ fault, (h.hold r).exec s = (.error fault, s) ∧
      (fault = .regionAlreadyHeld r ∨ fault = .lockFailed r) := by
  simp only [hold, if_neg some]
  rw [Action.exec_bind_ok (exec_file sees)]
  by_cases own : (f.held.any fun region => decide (region.Overlaps r)) = true
  · refine ⟨_, ?_, .inl rfl⟩
    rw [if_pos own, Action.exec_bind_error (Action.exec_throw ..)]
  · have contended : s.locks.contended h.descriptor f.location r = true := by
      by_contra free
      refine taken ⟨fun region mem => ?_, by simpa using free⟩
      simpa using List.any_eq_false.mp (Bool.eq_false_iff.mpr own) region mem
    have refused : (h.lockBytes r).exec s = (.error (.lockFailed r), s) := by
      rw [lockBytes, Region.lockSpan_eq some fits, Action.exec_bind_ok (Action.exec_orFault_ok ..),
        Action.exec_bind_ok (exec_file sees), Action.exec_bind_ok (Action.exec_get s)]
      simp only [contended, if_true]
      rw [Action.exec_bind_error (Action.exec_throw ..)]
    refine ⟨_, ?_, .inr rfl⟩
    rw [if_neg own, recording]
    refine Action.exec_bind_error ?_ _
    rw [Action.exec_tryCatch, refused]
    rfl

theorem exec_letGo (sees : h.Sees s f c) (some : r.len ≠ 0) (fits : r.stop ≤ maxOffset) {rest : List Region}
    (held : f.held = r :: rest) :
    ∃ s', (h.letGo r).exec s = (.ok (), s') ∧
      h.Leaves s { f with held := rest } c (s.locks.remove h.descriptor r) s' := by
  have left₁ := sees.mapOpen (fun f => { f with held := f.held.erase r }) rfl sees.position
  rw [held, List.erase_cons_head] at left₁
  obtain ⟨s₂, ran₂, left₂⟩ := exec_unlockBytes left₁.sees some fits
  refine ⟨s₂, ?_, left₁.locks ▸ left₁.trans left₂ rfl⟩
  rw [letGo, Action.exec_bind_ok (exec_update sees _), exec_recording_ok ran₂]

/-- A body runs while its region is held; its own changes stay, whether or not it fails. -/
theorem exec_locked {α : Type} {op : Action α} {s₁ s₂ : Store} {result : Except Fault α}
    {f₁ f₂ : OpenFile} {c₁ c₂ : Content} {t t₂ : LockTable} {rest : List Region} (some : r.len ≠ 0)
    (fits : r.stop ≤ maxOffset) (holds : (h.hold r).exec s = (.ok (), s₁))
    (left₁ : h.Leaves s f₁ c₁ t s₁) (ran : op.exec s₁ = (result, s₂))
    (left₂ : h.Leaves s₁ f₂ c₂ t₂ s₂) (place : f₂.location = f₁.location) (held : f₂.held = r :: rest) :
    ∃ s₃, Action.exec (h.locked r op) s = (result, s₃) ∧
      h.Leaves s { f₂ with held := rest } c₂ (t₂.remove h.descriptor r) s₃ := by
  obtain ⟨s₃, ran₃, left₃⟩ := exec_letGo left₂.sees some fits held
  have both := left₁.trans left₂ place
  refine ⟨s₃, ?_, left₂.locks ▸ both.trans left₃ rfl⟩
  rw [locked]
  refine (Action.exec_bind_ok holds _).trans ((Action.exec_ensuring ran ran₃).trans ?_)
  cases result <;> rfl

theorem exec_locked_refused {α : Type} {op : Action α} {fault : Fault}
    (refused : (h.hold r).exec s = (.error fault, s)) :
    Action.exec (h.locked r op) s = (.error fault, s) := by
  rw [locked]
  exact Action.exec_bind_error refused _

end Handle

/-- One try, and the others if it met contention. -/
theorem Backoff.exec_retryFrom_succ {α : Type} (b : Backoff) (op : Action α) (s : Store) (left retry : Nat) :
    Action.exec (b.retryFrom (m := StateM Store) (fun _ => pure ()) op (left + 1) retry) s =
      match op.exec s with
      | (.error fault, s') =>
        if fault.isRetryable then
          Action.exec (b.retryFrom (m := StateM Store) (fun _ => pure ()) op left (retry + 1)) s'
        else (.error fault, s')
      | (.ok value, s') => (.ok value, s') := by
  rw [retryFrom]
  unfold Action.exec
  rw [ExceptT.run_mk, StateT.run_bind]
  rcases op.run.run s with ⟨fault | value, s'⟩
  · change StateT.run (if fault.isRetryable = true then _ else _) s' =
      if fault.isRetryable = true then _ else _
    by_cases again : fault.isRetryable = true
    · rw [if_pos again, if_pos again]
      rfl
    · rw [if_neg again, if_neg again]
      rfl
  · rfl

/-- Trying again comes to the same, unless a try that met contention changed something. -/
theorem Backoff.exec_retryFrom {α : Type} (b : Backoff) {op : Action α} {s : Store}
    (same : ∀ fault s', op.exec s = (.error fault, s') → fault.isRetryable = true → s' = s)
    (left retry : Nat) :
    Action.exec (b.retryFrom (m := StateM Store) (fun _ => pure ()) op left retry) s = op.exec s := by
  induction left generalizing retry with
  | zero => rfl
  | succ left ih =>
    rw [b.exec_retryFrom_succ]
    cases ran : op.exec s with
    | mk result s' =>
      cases result with
      | ok value => rfl
      | error fault =>
        simp only
        split
        case isTrue again =>
          obtain rfl := same fault s' ran again
          rw [ih, ran]
        case isFalse => rfl

end RecordFile
