import Mathlib
import RecordFile.Proofs.Bracketing

/-! Calls that are tried again. A call that runs a body under a lock is made again only if the one before it met
contention, and then nothing was written after its body, if that was run at all. -/
namespace RecordFile

/-- Calls that are made one after another: all but the last meet contention, and are followed by a wait. What is
known of each call is `called`. -/
inductive Tries {ρ α : Type} (called : ρ → Store → Handle.Turn → (Except Fault α × ρ) × Store → Prop)
    (wait : Nat → StateT ρ (StateM Store) Unit) (b : Backoff) :
    Nat → List Handle.Turn → ρ → Store → (Except Fault α × ρ) × Store → Prop
  | last {retry : Nat} {turn : Handle.Turn} {x : ρ} {s : Store} {ended : (Except Fault α × ρ) × Store}
      (call : called x s turn ended) : Tries called wait b retry [turn] x s ended
  | again {retry : Nat} {turn : Handle.Turn} {turns : List Handle.Turn} {x y z : ρ} {s s₁ s₂ : Store}
      {region : Region} {ended : (Except Fault α × ρ) × Store}
      (call : called x s turn ((.error (.lockFailed region), y), s₁))
      (waited : ((wait (b.delay retry)).run y).run s₁ = (((), z), s₂))
      (rest : Tries called wait b (retry + 1) turns z s₂ ended) :
      Tries called wait b retry (turn :: turns) x s ended

namespace Backoff

variable {ρ α : Type} (b : Backoff) {wait : Nat → StateT ρ (StateM Store) Unit} {op : Work ρ α}

/-- One try, and the others if it met contention. -/
theorem work_retryFrom_succ (left retry : Nat) (x : ρ) (s : Store) :
    Work.exec (b.retryFrom wait op (left + 1) retry) x s = match Work.exec op x s with
      | ((.error fault, y), s') =>
        if fault.isRetryable then
          let waited := ((wait (b.delay retry)).run y).run s'
          Work.exec (b.retryFrom wait op left (retry + 1)) waited.1.2 waited.2
        else ((.error fault, y), s')
      | ended => ended := by
  rw [retryFrom]
  unfold Work.exec
  rw [ExceptT.run_mk, StateT.run_bind, StateT.run_bind]
  rcases (op.run.run x).run s with ⟨⟨fault | value, y⟩, s'⟩
  · change StateT.run (StateT.run (if fault.isRetryable = true then _ else _) y) s' =
      if fault.isRetryable = true then _ else _
    by_cases again : fault.isRetryable = true
    · rw [if_pos again, if_pos again]
      rfl
    · rw [if_neg again, if_neg again]
      rfl
  · rfl

/-- How often an operation is tried, and what each try comes to, if `I` holds whenever it is tried. -/
theorem tries {I : Store → Prop} {called : ρ → Store → Handle.Turn → (Except Fault α × ρ) × Store → Prop}
    (calls : ∀ x s, I s → ∃ turn, called x s turn (Work.exec op x s)) (keeps : ∀ x s, I s → I (Work.exec op x s).2)
    (waits : ∀ n y s, I s → I (((wait n).run y).run s).2) (left retry : Nat) (x : ρ) (s : Store) (holds : I s) :
    ∃ turns, turns.length ≤ left + 1 ∧
      Tries called wait b retry turns x s (Work.exec (b.retryFrom wait op left retry) x s) := by
  induction left generalizing retry x s with
  | zero =>
    obtain ⟨turn, call⟩ := calls x s holds
    exact ⟨[turn], Nat.le_refl 1, .last call⟩
  | succ left ih =>
    obtain ⟨turn, call⟩ := calls x s holds
    have kept := keeps x s holds
    rw [work_retryFrom_succ]
    rcases ran : Work.exec op x s with ⟨⟨fault | value, y⟩, s₁⟩ <;> rw [ran] at call kept
    · by_cases again : fault.isRetryable = true
      · have waited := waits (b.delay retry) y s₁ kept
        obtain ⟨turns, few, rest⟩ := ih (retry + 1) _ _ waited
        refine ⟨turn :: turns, Nat.succ_le_succ few, ?_⟩
        simp only [if_pos again]
        cases fault with
        | lockFailed region => exact .again call rfl rest
        | _ => cases again
      · refine ⟨[turn], by simp, ?_⟩
        simp only [if_neg again]
        exact .last call
    · exact ⟨[turn], by simp, .last call⟩

end Backoff

namespace Handle

variable {ρ α : Type} {h : Handle} {r : Region} {s : Store} {f : OpenFile} {c : Content}
  {body : Body (StateT ρ (StateM Store)) α r}

/-- Only the last of the tries can have written bytes after its body, for it is the last that succeeds. -/
theorem count_wrote {retrieve : Bool} {place : Location} {wait : Nat → StateT ρ (StateM Store) Unit} {b : Backoff}
    {retry : Nat} {turns : List Turn} {x : ρ} {ended : (Except Fault α × ρ) × Store}
    (tries : Tries (h.Called r retrieve body place) wait b retry turns x s ended) :
    turns.count (.ran true) ≤ 1 := by
  induction tries with
  | last => exact List.count_le_length
  | @again retry turn turns x y z s s₁ s₂ region ended call waited rest ih =>
    have failed : turn ≠ .ran true := by
      rintro rfl
      obtain ⟨value, ok⟩ := call.ok
      cases ok
    rwa [List.count_cons_of_ne failed]

/-- A call that runs a body under a lock, and the same call when it is tried again while it meets contention. The
body is run on the bytes of the region, if these are to be retrieved and the file holds them all, and on none if
they are not to be. -/
theorem lent_faithfully (sees : h.Sees s f c) (small : c.size ≤ maxOffset)
    (stays : ∀ lent, h.StaysOpen (body lent)) (retrieve : Bool) (x : ρ) :
    (∃ turn, h.Called r retrieve body f.location x s turn (Work.exec (h.underLock r retrieve body) x s) ∧
      ∀ taken, (h.hold r).exec s = (.ok (), taken) →
        (turn = .idle ↔ retrieve = true ∧ c.size < r.stop) ∧
        (turn = .idle → (Work.exec (h.underLock r retrieve body) x s).1.1 = .error (unreadable r))) ∧
    ∀ wait : Nat → StateT ρ (StateM Store) Unit,
      (∀ n y s, (((wait n).run y).run s).2.openFile? h.descriptor = s.openFile? h.descriptor) →
      ∃ turns, Tries (h.Called r retrieve body f.location) wait f.settings.backoff 1 turns x s
          (Work.exec (h.retrying wait (h.underLock r retrieve body)) x s) ∧
        turns.length ≤ max 1 f.settings.backoff.attempts.toNat ∧ turns.count (.ran true) ≤ 1 := by
  constructor
  · obtain ⟨turn, called, told⟩ := called_underLock sees.opened (fun _ => sees.position) stays x
    refine ⟨turn, called, fun taken held => ?_⟩
    obtain ⟨idle, unread⟩ := told taken held
    refine ⟨idle.trans (and_congr_right fun _ => ?_), unread⟩
    rw [sees.bytesOf]
    omega
  · intro wait waits
    -- Between tries the handle is open on its file, and after a body that was lent bytes its stream is put back.
    let I (s : Store) : Prop := ∃ f', s.openFile? h.descriptor = some f' ∧ f'.location = f.location ∧
      (retrieve = true → f'.position ≤ maxOffset)
    have calls (x : ρ) (s : Store) (holds : I s) : ∃ turn, h.Called r retrieve body f.location x s turn
        (Work.exec (h.underLock r retrieve body) x s) := by
      obtain ⟨f', opened, place, position⟩ := holds
      obtain ⟨turn, called, -⟩ := called_underLock opened position stays x
      exact ⟨turn, place ▸ called⟩
    have keeps (x : ρ) (s : Store) (holds : I s) : I (Work.exec (h.underLock r retrieve body) x s).2 := by
      obtain ⟨f', opened, place, position⟩ := holds
      have open' : h.StaysOpen (h.underLock r retrieve body) := .underLock stays
      have still := open' f'.location x s (congrArg (Option.map OpenFile.location) opened)
      obtain ⟨f₂, opened₂, place₂⟩ := Store.place_eq_some still
      refine ⟨f₂, opened₂, place₂.trans place, ?_⟩
      rintro rfl
      have rewound := (rewinds opened (position rfl) stays x).1
      rw [Store.stream, opened₂] at rewound
      exact (Option.some.inj rewound).trans_le (position rfl)
    have waited (n : Nat) (y : ρ) (s : Store) (holds : I s) : I (((wait n).run y).run s).2 := by
      obtain ⟨f', opened, rest⟩ := holds
      exact ⟨f', (waits n y s).trans opened, rest⟩
    obtain ⟨turns, few, tries⟩ := f.settings.backoff.tries calls keeps waited
      (f.settings.backoff.attempts.toNat - 1) 1 x s ⟨f, sees.opened, rfl, fun _ => sees.position⟩
    rw [retrying, Work.exec_bind_ok (Work.exec_perform_of (exec_file sees) x)]
    exact ⟨turns, tries, by omega, count_wrote tries⟩

/-- A body that fills its region. -/
def filling (r : Region) : Body (StateT Unit (StateM Store)) Unit r := fun _ =>
  return (.commit (), some (.replicate r.len 7))

/-- The payload of the lone table is filled, in as many tries as that takes. -/
theorem lent_faithfully_filled : ∃ s f, (⟨0⟩ : Handle).Sees s f lone ∧
    (∃ turn, turn ≠ .idle ∧ (⟨0⟩ : Handle).Called ⟨48, 8⟩ true (filling _) f.location () s turn
      (Work.exec ((⟨0⟩ : Handle).underLock ⟨48, 8⟩ true (filling _)) () s)) ∧
    ∃ turns, Tries ((⟨0⟩ : Handle).Called ⟨48, 8⟩ true (filling _) f.location) (fun _ => pure ()) f.settings.backoff 1
      turns () s (Work.exec ((⟨0⟩ : Handle).retrying (fun _ => pure ())
        ((⟨0⟩ : Handle).underLock ⟨48, 8⟩ true (filling _))) () s) := by
  have read : FileHeader.ofContent lone = .ok (FileHeader.fresh 64 5) := by decide +kernel
  obtain ⟨f, opened, -, free⟩ := opened_alone read
  obtain ⟨taken, held, -⟩ := exec_hold opened.toSees (r := ⟨48, 8⟩) (by decide) (by decide) (free _)
  have small : lone.size ≤ maxOffset := by rw [size_lone]; decide
  have stays : ∀ lent, (⟨0⟩ : Handle).StaysOpen (filling ⟨48, 8⟩ lent) := fun _ => .pure _
  obtain ⟨⟨turn, called, told⟩, again⟩ := lent_faithfully opened.toSees small stays true ()
  obtain ⟨turns, tries, -, -⟩ := again (fun _ => pure ()) fun _ _ _ => rfl
  refine ⟨_, f, opened.toSees, ⟨turn, fun idle => ?_, called⟩, turns, tries⟩
  have short := ((told taken held).1.mp idle).2
  rw [size_lone] at short
  exact absurd short (by decide)

/-- The last byte that can be locked cannot be asked for: it ends where no offset reaches. -/
theorem last_byte_unread : let s := alone lone (FileHeader.fresh 64 5)
    (((⟨0⟩ : Handle).hold ⟨maxOffset, 1⟩).exec s).1 = .ok () ∧
      (Work.exec ((⟨0⟩ : Handle).underLock ⟨maxOffset, 1⟩ true (filling _)) () s).1.1 =
        .error (.system .invalidArgument) := by
  decide +kernel

end Handle
end RecordFile
