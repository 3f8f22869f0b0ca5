import Mathlib
import RecordFile.Proofs.Agreement
import RecordFile.Proofs.Bracketing
import RecordFile.Proofs.Composition
import RecordFile.Proofs.LocateOutcome

/-! The last system error. A handle remembers the number of the system error that it met last, and a call may meet
several steps that fail. What it remembers after a call is the error that the call fails by, if that is one of the
system, and otherwise what it remembered before. -/
namespace RecordFile

/-- What is remembered after a call that came to `result`, by a handle that remembered `before`. -/
def noted {α : Type} (result : Except Fault α) (before : Option Int) : Option Int :=
  match result with
  | .error (.system error) => error.number?
  | _ => before

theorem noted_error {α : Type} {fault : Fault} (plain : fault.isPlain) (before : Option Int) :
    noted (.error fault : Except Fault α) before = before := by
  cases fault with
  | system error => cases plain
  | _ => rfl

namespace Handle

variable {h : Handle} {α β : Type}

/-- The handle is open, its stream is where files have bytes, and this is what it remembers. -/
def Recalls (h : Handle) (s : Store) (errno : Option Int) : Prop :=
  ∃ f, s.openFile? h.descriptor = some f ∧ f.position ≤ maxOffset ∧ f.lastErrno = errno

/-- What is remembered after the action is what it failed by, if that was a system error. -/
def Remembers (h : Handle) (act : Action α) : Prop :=
  ∀ s errno, h.Recalls s errno → h.Recalls (act.exec s).2 (noted (act.exec s).1 errno)

namespace Remembers

variable {act : Action α}

theorem of_ok (gives : ∀ s errno, h.Recalls s errno → ∃ value s', act.exec s = (.ok value, s') ∧ h.Recalls s' errno) :
    h.Remembers act := by
  intro s errno recalls
  obtain ⟨value, s', ran, still⟩ := gives s errno recalls
  rw [ran]
  exact still

theorem pure (value : α) : h.Remembers (Pure.pure value : Action α) :=
  of_ok fun s _ recalls => ⟨value, s, rfl, recalls⟩

theorem throw {fault : Fault} (plain : fault.isPlain) : h.Remembers (MonadExcept.throw fault : Action α) := by
  intro s errno recalls
  rw [Action.exec_throw, noted_error plain]
  exact recalls

/-- What follows may count on what the first action gives. -/
theorem bind_of {next : α → Action β} (first : h.Remembers act)
    (rest : ∀ value s s' errno, h.Recalls s errno → act.exec s = (.ok value, s') → h.Remembers (next value)) :
    h.Remembers (act >>= next) := by
  intro s errno recalls
  have between := first s errno recalls
  rw [Action.exec_bind]
  rcases ran : act.exec s with ⟨fault | value, s'⟩
  · rw [ran] at between
    cases fault <;> exact between
  · rw [ran] at between
    exact rest value s s' errno recalls ran s' errno between

theorem bind {next : α → Action β} (first : h.Remembers act) (rest : ∀ value, h.Remembers (next value)) :
    h.Remembers (act >>= next) := bind_of first fun value _ _ _ _ _ => rest value

theorem ite {c : Prop} [Decidable c] {act' : Action α} (yes : h.Remembers act) (no : h.Remembers act') :
    h.Remembers (if c then act else act') := by
  split
  · exact yes
  · exact no

/-- A check that may fail before the rest. -/
theorem checked {c : Prop} [Decidable c] {fault : Fault} (plain : fault.isPlain) (rest : h.Remembers act) :
    h.Remembers (if c then (MonadExcept.throw fault : Action Unit) >>= fun _ => act else act) :=
  .ite (.bind (.throw plain) fun _ => rest) rest

/-- What never fails hides nothing of what was met before it. -/
theorem ensuring {after : Action Unit} (first : h.Remembers act)
    (last : ∀ s errno, h.Recalls s errno → ∃ s', after.exec s = (.ok (), s') ∧ h.Recalls s' errno) :
    h.Remembers (RecordFile.ensuring act after) := by
  intro s errno recalls
  obtain ⟨s', ran, still⟩ := last _ _ (first s errno recalls)
  rw [Action.exec_ensuring (Prod.eta (act.exec s)).symm ran]
  rcases ran₁ : act.exec s with ⟨fault | value, s₁⟩ <;> rw [ran₁] at still
  · cases fault <;> exact still
  · exact still

end Remembers

/-! ### Streams -/

theorem remembers_file : h.Remembers h.file := by
  refine .of_ok fun s errno recalls => ?_
  obtain ⟨f, opened, -⟩ := id recalls
  exact ⟨f, s, exec_file_opened opened, recalls⟩

theorem remembers_update {change : OpenFile → OpenFile} (same : ∀ f, (change f).lastErrno = f.lastErrno)
    (fits : ∀ f, f.position ≤ maxOffset → (change f).position ≤ maxOffset) : h.Remembers (h.update change) := by
  refine .of_ok fun s errno recalls => ?_
  obtain ⟨f, opened, near, here⟩ := recalls
  exact ⟨(), _, exec_update_opened opened change, change f, Store.openFile?_mapOpen_opened opened change, fits f near,
    (same f).trans here⟩

/-- A system error is remembered as it is met. -/
theorem remembers_fail (error : SystemError) : h.Remembers (h.fail error : Action α) := by
  rintro s errno ⟨f, opened, near, -⟩
  rw [fail, Action.exec_bind_ok (exec_update_opened opened _), Action.exec_throw]
  exact ⟨_, Store.openFile?_mapOpen_opened opened _, near, rfl⟩

theorem remembers_content : h.Remembers h.content :=
  .bind remembers_file fun _ => .bind (.of_ok fun s _ recalls => ⟨s, s, rfl, recalls⟩) fun _ => .pure _

theorem remembers_length : h.Remembers h.length := .bind remembers_content fun _ => .pure _

theorem remembers_position : h.Remembers h.position := .bind remembers_file fun _ => .pure _

theorem remembers_chunkSize : h.Remembers h.chunkSize := .bind remembers_file fun _ => .pure _

theorem remembers_setContent (c : Content) : h.Remembers (h.setContent c) :=
  .bind remembers_file fun f => .of_ok fun s _ recalls => ⟨(), s.put f.location c, rfl, recalls⟩

theorem remembers_seek (offset : Nat) : h.Remembers (h.seek offset) := by
  unfold seek
  split
  case isTrue => exact remembers_fail _
  case isFalse near => exact remembers_update (fun _ => rfl) fun _ _ => Nat.le_of_not_lt near

theorem remembers_seekFor (offset count : Nat) : h.Remembers (h.seekFor offset count) :=
  .bind (remembers_seek offset) fun _ => .ite (remembers_fail _) (.pure _)

theorem remembers_readAt (offset count : Nat) : h.Remembers (h.readAt offset count) := by
  refine .bind_of (remembers_seekFor offset count) fun _ s s' _ _ ran => .bind remembers_content fun c => ?_
  have near := seekFor_le (congrArg Prod.fst ran)
  have few : (c.read offset count).length ≤ count := by
    rw [Content.toList_read]
    exact List.length_take_le _ _
  exact .bind (remembers_update (fun _ => rfl) fun _ _ => by show offset + _ ≤ maxOffset; omega) fun _ => .pure _

theorem remembers_writeAt (offset : Nat) (bytes : List UInt8) : h.Remembers (h.writeAt offset bytes) := by
  refine .bind_of (remembers_seekFor offset bytes.length) fun _ s s' _ _ ran => .bind remembers_content fun c => ?_
  exact .bind (remembers_setContent _) fun _ => remembers_update (fun _ => rfl) fun _ _ =>
    seekFor_le (congrArg Prod.fst ran)

/-- The stream can always be put back. -/
theorem remembers_keepingPosition {op : Action α} (inside : h.Remembers op) :
    h.Remembers (h.keepingPosition (m := StateM Store) op) := by
  refine .bind_of remembers_position fun saved s s' errno recalls ran => .ensuring inside fun s₁ errno₁ recalls₁ => ?_
  obtain ⟨f, opened, near, -⟩ := recalls
  rw [perform_eq, exec_position_opened opened] at ran
  obtain rfl : f.position = saved := by cases ran; rfl
  obtain ⟨f₁, opened₁, -, here⟩ := recalls₁
  exact ⟨_, exec_seek_opened opened₁ near, _, Store.openFile?_sought opened₁ _, near, here⟩

/-- Whatever is done to a file that is not locked, what it fails by is remembered. -/
theorem remembers (h : Handle) : Composed fun _ act => h.Remembers (act h) where
  pure value := .pure value
  throw plain := .throw plain
  bind first rest := .bind first rest
  chunkSize := remembers_chunkSize
  length := remembers_length
  fail error := remembers_fail error
  seek offset := remembers_seek offset
  readAt offset count := remembers_readAt offset count
  writeAt offset bytes := remembers_writeAt offset bytes
  keepingPosition inside := remembers_keepingPosition inside

/-- A visitor cannot fail, and what it does beside the walk is nothing that the handle would remember. -/
theorem remembers_visit {act : StateM Store α} (keeps : Action.Keeps (Store.openFile? · h.descriptor) (unfailing act)) :
    h.Remembers (unfailing act : Action α) := by
  refine .of_ok fun s errno recalls => ?_
  obtain ⟨f, opened, rest⟩ := recalls
  exact ⟨_, _, rfl, f, (keeps s).trans opened, rest⟩

/-! ### Locks -/

/-- Locking itself remembers nothing; the error that it fails by is remembered after it. -/
theorem remembers_recording {act : Action α} (keeps : act.Keeps (Store.openFile? · h.descriptor)) :
    h.Remembers (h.recording act) := by
  rintro s errno ⟨f, opened, near, here⟩
  have still : h.Recalls (act.exec s).2 errno := ⟨f, (keeps s).trans opened, near, here⟩
  rw [recording, Action.exec_tryCatch]
  rcases ran : act.exec s with ⟨fault | value, s'⟩ <;> rw [ran] at still
  · cases fault with
    | system error => exact remembers_fail error s' errno still
    | _ => exact still
  · exact still

theorem remembers_hold (r : Region) : h.Remembers (h.hold r) := by
  have locks : (h.lockBytes r).Keeps (Store.openFile? · h.descriptor) := by
    intro s
    rcases h.exec_lockBytes_cases r s with ⟨fault, ran⟩ | ⟨span, f, -, -, -, ran⟩ <;> rw [ran]
    rfl
  refine .checked rfl (.bind remembers_file fun file => .checked rfl ?_)
  exact .bind (remembers_recording locks) fun _ => remembers_update (fun _ => rfl) fun _ near => near

/-- What could be locked can be let go of. -/
theorem remembers_locked {r : Region} {op : Action α} (inside : h.Remembers op) :
    h.Remembers (h.locked (m := StateM Store) r op) := by
  refine .bind_of (remembers_hold r) fun _ s s' errno recalls held => .ensuring inside fun s₁ errno₁ recalls₁ => ?_
  obtain ⟨f, opened, -⟩ := recalls
  obtain ⟨-, span, -⟩ := hold_ok opened held
  obtain ⟨f₁, opened₁, near, here⟩ := recalls₁
  refine ⟨_, exec_letGo_opened opened₁ span, { f₁ with held := f₁.held.erase r }, ?_, near, here⟩
  rw [Store.openFile?_released, opened₁, Option.map_some]

theorem remembers_writeBack {r : Region} {bytes : List UInt8} (fits : r.offset + bytes.length ≤ maxOffset) :
    h.Remembers (h.writeBack r bytes) := by
  refine .of_ok fun s errno recalls => ?_
  obtain ⟨f, opened, -, here⟩ := recalls
  refine ⟨(), _, ?_, _, Store.openFile?_overwritten opened f.location r.offset bytes, fits, here⟩
  rw [writeBack, Action.exec_tryCatch, exec_writeAt_opened opened fits]

/-- The bytes that were read can be written. -/
theorem remembers_editing {r : Region} {body : Vector UInt8 r.len → Action (Outcome α × Vector UInt8 r.len)}
    (inside : ∀ bytes, h.Remembers (body bytes)) : h.Remembers (h.editing (m := StateM Store) r body) := by
  refine remembers_locked (remembers_keepingPosition (.bind_of (remembers_readAt _ _) fun bytes s s' _ _ ran => ?_))
  have near := readAt_le (congrArg Prod.fst ran)
  split
  · refine .bind (inside _) fun ended => ?_
    obtain ⟨outcome, edited⟩ := ended
    have fits : r.offset + edited.toList.length ≤ maxOffset := by rwa [Vector.length_toList]
    cases outcome with
    | keep value => exact .pure value
    | commit value => exact .bind (remembers_writeBack fits) fun _ => .pure value
  · exact .throw rfl

/-- A try that meets contention is none of the system's errors. -/
theorem remembers_retryFrom (b : Backoff) {op : Action α} (inside : h.Remembers op) (left retry : Nat) :
    h.Remembers (b.retryFrom (m := StateM Store) (fun _ => pure ()) op left retry) := by
  induction left generalizing retry with
  | zero => exact inside
  | succ left ih =>
    intro s errno recalls
    have after := inside s errno recalls
    rw [b.exec_retryFrom_succ]
    rcases ran : op.exec s with ⟨fault | value, s'⟩
    · rw [ran] at after
      cases fault with
      | lockFailed region => exact ih (retry + 1) s' errno after
      | _ => exact after
    · rw [ran] at after
      exact after

theorem remembers_growing {op : Action α} (inside : h.Remembers op) : h.Remembers (h.growing (m := StateM Store) op) :=
  .bind remembers_file fun _ => remembers_retryFrom _ (remembers_locked inside) _ _

/-- So it is under locks. -/
theorem remembers_locking (h : Handle) :
    Locking (fun _ act => h.Remembers (act h)) fun _ act => h.Remembers (act h) where
  inside := h.remembers
  around := h.remembers
  growing inside := remembers_growing inside
  editing _ _ inside := remembers_editing inside

/-! ### Calls -/

/-- The handle remembers the number of the system error that a call failed by, or none if the error has none. After
any other end of the call it remembers what it remembered before. -/
def Recounts (h : Handle) (f : OpenFile) (ended : Except Fault α × Store) : Prop :=
  ∃ f', ended.2.openFile? h.descriptor = some f' ∧ f'.lastErrno = noted ended.1 f.lastErrno

theorem Remembers.recounts {act : Action α} {s : Store} {f : OpenFile} (remembers : h.Remembers act)
    (opened : s.openFile? h.descriptor = some f) (near : f.position ≤ maxOffset) : h.Recounts f (act.exec s) := by
  obtain ⟨f', opened', -, here⟩ := remembers s f.lastErrno ⟨f, opened, near, rfl⟩
  exact ⟨f', opened', here⟩

/-- No step of a call fails unnoticed by the system, and none is remembered that the call gets over. -/
theorem errno_exact {s : Store} {f : OpenFile} (opened : s.openFile? h.descriptor = some f)
    (near : f.position ≤ maxOffset) :
    h.Recounts f (h.length.exec s) ∧
    (∀ bytes, h.Recounts f ((h.extend bytes).exec s)) ∧
    (∀ spec, h.Recounts f ((h.append spec).exec s)) ∧
    (∀ tail spec, h.Recounts f ((h.appendAfter tail spec).exec s)) ∧
    (∀ offset count, h.Recounts f ((h.readExactly offset count).exec s)) ∧
    (∀ offset bytes, h.Recounts f ((h.writeAt offset bytes).exec s)) ∧
    (∀ offset, h.Recounts f ((h.readHeader offset).exec s)) ∧
    (∀ {σ : Type} (start : Nat) (seen : σ) (visit : Header → Nat → σ → StateM Store (ForInStep σ)),
      (∀ header offset seen, Action.Keeps (Store.openFile? · h.descriptor) (unfailing (visit header offset seen))) →
      h.Recounts f (Action.exec (h.walk start seen visit) s)) ∧
    (∀ start, h.Recounts f ((h.lastBlock start).exec s)) ∧
    (∀ parent next, h.Recounts f ((h.link parent next).exec s)) ∧
    (∀ head, h.Recounts f ((h.readTable head).exec s)) ∧
    (∀ chain table record, h.Recounts f ((h.locate chain table record).exec s)) ∧
    (∀ recordSize, h.Recounts f ((h.addTable recordSize).exec s)) ∧
    ∀ head, h.Recounts f ((h.reserve head).exec s) := by
  have rules := h.remembers
  have locking := h.remembers_locking
  have told {α : Type} {act : Action α} (remembers : h.Remembers act) : h.Recounts f (act.exec s) :=
    remembers.recounts opened near
  refine ⟨told rules.length, fun bytes => told (rules.extend bytes), fun spec => told (rules.append spec),
    fun tail spec => told (rules.appendAfter tail spec), fun offset count => told (rules.readExactly offset count),
    fun offset bytes => told (rules.writeAt offset bytes), fun offset => told (rules.readHeader offset), ?_,
    fun start => told (rules.lastBlock start), fun parent next => told (rules.link parent next),
    fun head => told (rules.readTable head), fun chain table record => told (locking.locate chain table record),
    fun recordSize => told (locking.addTable recordSize), fun head => told (locking.reserve head)⟩
  intro σ start seen visit visits
  exact told (rules.walk (fun header offset seen => remembers_visit (visits header offset seen)) start seen)

/-- The handle remembers the number of the error that it met beyond where files can reach, and remembers it past the
length that it tells next. Bytes that are not all there have no number. -/
theorem errno_exact_past_end :
    let met := (((⟨0⟩ : Handle).readHeader (maxOffset + 1)).exec (alone lone (FileHeader.fresh 64 5))).2
    ∃ f, met.openFile? 0 = some f ∧ f.lastErrno = some 22 ∧ f.position ≤ maxOffset ∧
      (((⟨0⟩ : Handle).length.exec met).2.openFile? 0).map (·.lastErrno) = some (some 22) ∧
      ((((⟨0⟩ : Handle).readExactly 60 8).exec met).2.openFile? 0).map (·.lastErrno) = some none := by
  have read : FileHeader.ofContent lone = .ok (FileHeader.fresh 64 5) := by decide +kernel
  obtain ⟨f, opened, -, -⟩ := opened_alone read
  obtain ⟨-, -, -, -, -, -, headers, -⟩ := errno_exact opened.opened opened.position
  obtain ⟨f₁, opened₁, here₁⟩ := headers (maxOffset + 1)
  set ran := ((⟨0⟩ : Handle).readHeader (maxOffset + 1)).exec (alone lone (FileHeader.fresh 64 5)) with same
  have refused : ran.1 = .error (.system .invalidArgument) := by rw [same]; decide +kernel
  have near : f₁.position ≤ maxOffset := by
    have still : (ran.2.openFile? 0).map (·.position) = some 0 := by rw [same]; decide +kernel
    rw [opened₁] at still
    exact (Option.some.inj still).trans_le (Nat.zero_le _)
  have told : ((⟨0⟩ : Handle).length.exec ran.2).1 = .ok 64 := by rw [same]; decide +kernel
  have short : (((⟨0⟩ : Handle).readExactly 60 8).exec ran.2).1 = .error (.system .shortRead) := by
    rw [same]; decide +kernel
  obtain ⟨⟨f₂, opened₂, here₂⟩, -, -, -, reads, -⟩ := errno_exact opened₁ near
  obtain ⟨f₃, opened₃, here₃⟩ := reads 60 8
  rw [refused] at here₁
  rw [told] at here₂
  rw [short] at here₃
  refine ⟨f₁, opened₁, here₁, near, ?_, ?_⟩
  · rw [opened₂, Option.map_some, here₂]
    exact congrArg some here₁
  · rw [opened₃, Option.map_some, here₃]
    rfl

end Handle
end RecordFile
