import Mathlib
import RecordFile.Proofs.Opened
import RecordFile.Proofs.Words

/-! Work that may be stopped against the actions that it is to come to. A handle keeps the header that it has of
its file whatever it does with the file, and an offset that it has read at is one that files have; so what is
reckoned with the chunk size and with such offsets is known step by step. -/
namespace RecordFile

namespace Action

variable {α β : Type}

theorem ok_of_bind {act : Action α} {next : α → Action β} {s : Store} {value : β}
    (ran : ((act >>= next).exec s).1 = .ok value) :
    ∃ given s', act.exec s = (.ok given, s') ∧ ((next given).exec s').1 = .ok value := by
  rw [exec_bind] at ran
  rcases first : act.exec s with ⟨fault | given, s'⟩
  · rw [first] at ran
    cases ran
  · rw [first] at ran
    exact ⟨given, s', rfl, ran⟩

end Action

/-! ### What handles keep -/

/-- The header that a handle has of its file. -/
def Store.fileHeader (d : Nat) (s : Store) : Option FileHeader := (s.openFile? d).map OpenFile.header

theorem Store.blind_fileHeader (d : Nat) : Store.Blind (Store.fileHeader d) where
  mapOpen s d' _ same := Store.map_openFile?_mapOpen (fun file => (same file).1) s d d'
  put _ _ _ := rfl

theorem Store.heedless_fileHeader (d : Nat) : Store.Heedless (Store.fileHeader d) :=
  Store.heedless_openFile d fun _ _ _ => rfl

/-! ### What is known of what is given -/

namespace Handle

variable {h : Handle} {s : Store} {offset count : Nat}

theorem seek_le (moved : ((h.seek offset).exec s).1 = .ok ()) : offset ≤ maxOffset := by
  by_contra far
  rw [seek, if_pos (Nat.lt_of_not_le far)] at moved
  obtain ⟨fault, s', ran, -⟩ := h.exec_fail_standing (α := Unit) (s := s) .invalidArgument
  rw [ran] at moved
  cases moved

theorem seekEnd_le {stop : Nat} (moved : (h.seekEnd.exec s).1 = .ok stop) : stop ≤ maxOffset := by
  obtain ⟨length, s₁, -, rest⟩ := Action.ok_of_bind moved
  obtain ⟨⟨⟩, s₂, sought, last⟩ := Action.ok_of_bind rest
  cases last
  exact seek_le (congrArg Prod.fst sought)

theorem seekFor_le (moved : ((h.seekFor offset count).exec s).1 = .ok ()) : offset + count ≤ maxOffset := by
  by_contra far
  obtain ⟨⟨⟩, s₁, -, rest⟩ := Action.ok_of_bind moved
  rw [if_pos (Nat.lt_of_not_le far)] at rest
  obtain ⟨fault, s₂, failed, -⟩ := h.exec_fail_standing (α := Unit) (s := s₁) .invalidArgument
  rw [failed] at rest
  cases rest

theorem readAt_le {bytes : List UInt8} (read : ((h.readAt offset count).exec s).1 = .ok bytes) :
    offset + count ≤ maxOffset := by
  obtain ⟨⟨⟩, s₁, sought, -⟩ := Action.ok_of_bind read
  exact seekFor_le (congrArg Prod.fst sought)

/-- What was read as a header was read where files have bytes, and is well-formed. -/
theorem readHeader_ok {header : Header} (read : ((h.readHeader offset).exec s).1 = .ok header) :
    offset ≤ maxOffset ∧ ∃ bytes, Header.decode bytes = .ok header := by
  obtain ⟨announcement, s₁, first, rest⟩ := Action.ok_of_bind read
  refine ⟨Nat.le_of_add_right_le (readAt_le (congrArg Prod.fst first)), ?_⟩
  split at rest
  · obtain ⟨⟨⟩, _, failed, -⟩ := Action.ok_of_bind rest
    cases failed
  · obtain ⟨size, s₂, -, rest⟩ := Action.ok_of_bind rest
    obtain ⟨bytes, s₃, -, rest⟩ := Action.ok_of_bind rest
    split at rest
    · obtain ⟨⟨⟩, _, failed, -⟩ := Action.ok_of_bind rest
      cases failed
    · exact ⟨bytes, mapError_eq_ok.mp rest⟩

end Handle

/-! ### Work against actions -/

namespace Checked

variable {α β : Type} {s : Store}

theorem exec_bind (work : Checked α) (next : α → Checked β) (s : Store) :
    (work >>= next).exec s = match work.exec s with
      | (some (.ok value), s') => (next value).exec s'
      | (some (.error fault), s') => (some (.error fault), s')
      | (none, s') => (none, s') := by
  unfold exec
  rw [ExceptT.run_bind, OptionT.run_bind, Option.elimM, StateT.run_bind]
  rcases work.run.run.run s with ⟨_ | _ | _, s'⟩ <;> rfl

theorem exec_ensuring (work : Checked α) (after : Checked Unit) (s : Store) :
    Checked.exec (ensuring work after) s = match work.exec s with
      | (some result, s') => match after.exec s' with
        | (some ended, s'') => (some (result >>= fun value => ended.map fun _ => value), s'')
        | (none, s'') => (none, s'')
      | (none, s') => (none, s') := by
  unfold exec ensuring
  rw [ExceptT.run_mk, OptionT.run_bind, Option.elimM, StateT.run_bind]
  rcases work.run.run.run s with ⟨_ | result, s'⟩
  · rfl
  · change StateT.run (OptionT.run (do
      let ended ← after.run
      pure (result >>= fun value => ended.map fun _ => value))) s' = _
    rw [OptionT.run_bind, Option.elimM, StateT.run_bind]
    simp only
    rcases after.run.run.run s' with ⟨_ | ended, s''⟩ <;> rfl

theorem exec_retryFrom_succ (b : Backoff) (work : Checked α) (s : Store) (left retry : Nat) :
    Checked.exec (b.retryFrom (m := OptionT (StateM Store)) (fun _ => pure ()) work (left + 1) retry) s =
      match work.exec s with
      | (some (.error fault), s') =>
        if fault.isRetryable then
          Checked.exec (b.retryFrom (m := OptionT (StateM Store)) (fun _ => pure ()) work left (retry + 1)) s'
        else (some (.error fault), s')
      | (some (.ok value), s') => (some (.ok value), s')
      | (none, s') => (none, s') := by
  rw [Backoff.retryFrom]
  unfold exec
  rw [ExceptT.run_mk, OptionT.run_bind, Option.elimM, StateT.run_bind]
  rcases work.run.run.run s with ⟨_ | fault | value, s'⟩
  · rfl
  · change StateT.run (OptionT.run (if fault.isRetryable = true then _ else _)) s' =
      if fault.isRetryable = true then _ else _
    by_cases again : fault.isRetryable = true
    · rw [if_pos again, if_pos again]
      rfl
    · rw [if_neg again, if_neg again]
      rfl
  · rfl

/-- While its handle has the header, the work is not stopped and comes to what the action comes to; this is
as told, and leaves the handle the header. -/
def Agrees (d : Nat) (header : FileHeader) (work : Checked α) (act : Action α) (Q : α → Prop) : Prop :=
  ∀ s, s.fileHeader d = some header → work.Exact act s ∧ (act.exec s).2.fileHeader d = some header ∧
    ∀ value, (act.exec s).1 = .ok value → Q value

namespace Agrees

variable {d : Nat} {header : FileHeader} {work : Checked α} {act : Action α} {Q : α → Prop}

theorem pure {value : α} (holds : Q value) :
    Agrees d header (Pure.pure value : Checked α) (Pure.pure value : Action α) Q := by
  intro s has
  refine ⟨rfl, has, ?_⟩
  rintro _ ⟨⟩
  exact holds

theorem throw (fault : Fault) :
    Agrees d header (MonadExcept.throw fault : Checked α) (MonadExcept.throw fault : Action α) Q :=
  fun _ has => ⟨rfl, has, nofun⟩

theorem perform (keeps : act.Keeps (Store.fileHeader d))
    (gives : ∀ s value, s.fileHeader d = some header → (act.exec s).1 = .ok value → Q value) :
    Agrees d header (RecordFile.perform act : Checked α) act Q :=
  fun s has => ⟨rfl, (keeps s).trans has, fun value => gives s value has⟩

/-- An action about whose outcome nothing needs to be known. -/
theorem performs (keeps : act.Keeps (Store.fileHeader d)) :
    Agrees d header (RecordFile.perform act : Checked α) act fun _ => True :=
  .perform keeps fun _ _ _ _ => trivial

theorem given {reckoned : ExceptT Fault Option α} {result : Except Fault α} (same : reckoned.run = some result)
    (gives : ∀ value, result = .ok value → Q value) :
    Agrees d header (Checked.given reckoned) (liftM result : Action α) Q := by
  intro s has
  rw [Exact, Action.exec_liftExcept]
  exact ⟨congrArg (·, s) same, has, gives⟩

theorem bind {next : α → Checked β} {next' : α → Action β} {R : β → Prop} (first : Agrees d header work act Q)
    (rest : ∀ value, Q value → Agrees d header (next value) (next' value) R) :
    Agrees d header (work >>= next) (act >>= next') R := by
  intro s has
  obtain ⟨exact, has', gives⟩ := first s has
  rw [Exact, exec_bind, Action.exec_bind, exact]
  generalize act.exec s = after at has' gives ⊢
  rcases after with ⟨fault | value, s'⟩
  · exact ⟨rfl, has', nofun⟩
  · exact rest value (gives value rfl) s' has'

/-- What would come after a failure does not matter. -/
theorem failing (fault : Fault) {next : β → Checked α} {next' : β → Action α} :
    Agrees d header (MonadExcept.throw fault >>= next : Checked α) (MonadExcept.throw fault >>= next' : Action α) Q :=
  .bind (Q := fun _ => False) (.throw fault) fun _ never => never.elim

/-- A word that holds what is reckoned. -/
theorem word {value : Option β} {held : β} {next : β → Checked α} (holds : value = some held)
    (rest : Agrees d header (next held) act Q) : Agrees d header (Checked.word value >>= next) act Q := by
  subst holds
  intro s has
  rw [Exact, exec_bind]
  exact rest s has

theorem ensuring {after : Checked Unit} {after' : Action Unit} {P : Unit → Prop} (first : Agrees d header work act Q)
    (last : Agrees d header after after' P) :
    Agrees d header (RecordFile.ensuring work after) (RecordFile.ensuring act after') Q := by
  intro s has
  obtain ⟨exact, has', gives⟩ := first s has
  obtain ⟨exact', has'', -⟩ := last _ has'
  rw [Action.exec_ensuring (Prod.eta (act.exec s)).symm (Prod.eta (after'.exec (act.exec s).2)).symm]
  refine ⟨?_, has'', ?_⟩
  · rw [Exact, exec_ensuring, exact]
    simp only
    rw [exact', Action.exec_ensuring (Prod.eta (act.exec s)).symm (Prod.eta (after'.exec (act.exec s).2)).symm]
  · intro value given
    obtain ⟨value', ran, ended⟩ := bind_eq_ok.mp given
    cases ended' : (after'.exec (act.exec s).2).1 with
    | error fault =>
      rw [ended'] at ended
      cases ended
    | ok =>
      rw [ended'] at ended
      cases ended
      exact gives _ ran

section Handles

variable (h : Handle)

theorem locked (r : Region) (agrees : Agrees d header work act Q) :
    Agrees d header (h.locked r work) (h.locked (m := StateM Store) r act) Q :=
  .bind (.performs (h.keeps_hold (Store.heedless_fileHeader d) r)) fun _ _ =>
    .ensuring agrees (.performs (h.keeps_letGo (Store.heedless_fileHeader d) r))

theorem keepingPosition (agrees : Agrees d header work act Q) :
    Agrees d header (h.keepingPosition (m := OptionT (StateM Store)) work)
      (h.keepingPosition (m := StateM Store) act) Q :=
  .bind (.performs h.keeps_position) fun saved _ =>
    .ensuring agrees (.performs (h.keeps_seek (Store.blind_fileHeader d) saved))

theorem retryFrom (b : Backoff) (agrees : Agrees d header work act Q) (left retry : Nat) :
    Agrees d header (b.retryFrom (m := OptionT (StateM Store)) (fun _ => Pure.pure ()) work left retry)
      (b.retryFrom (m := StateM Store) (fun _ => Pure.pure ()) act left retry) Q := by
  induction left generalizing retry with
  | zero => exact agrees
  | succ left ih =>
    intro s has
    obtain ⟨exact, has', gives⟩ := agrees s has
    rw [Exact, exec_retryFrom_succ, Backoff.exec_retryFrom_succ, exact]
    generalize act.exec s = after at has' gives ⊢
    rcases after with ⟨fault | value, s'⟩
    · simp only
      split
      case isTrue => exact ih (retry + 1) s' has'
      case isFalse => exact ⟨rfl, has', nofun⟩
    · exact ⟨rfl, has', gives⟩

theorem growing (agrees : Agrees d header work act Q) :
    Agrees d header (h.growing (m := OptionT (StateM Store)) work) (h.growing (m := StateM Store) act) Q :=
  .bind (.performs h.keeps_file) fun file _ => (agrees.locked h _).retryFrom file.settings.backoff _ _

theorem editing {r : Region} {body : Vector UInt8 r.len → Checked (Outcome α × Vector UInt8 r.len)}
    {body' : Vector UInt8 r.len → Action (Outcome α × Vector UInt8 r.len)}
    (agrees : ∀ bytes, Agrees d header (body bytes) (body' bytes) fun _ => True) :
    Agrees d header (h.editing r body) (h.editing (m := StateM Store) r body') fun _ => True := by
  have blind := Store.blind_fileHeader d
  refine .locked h r (.keepingPosition h (.bind (.performs (h.keeps_readAt blind _ _)) fun bytes _ => ?_))
  split
  case isFalse => exact .throw _
  case isTrue enough =>
    refine .bind (agrees ⟨bytes.toArray, enough⟩) fun ended _ => ?_
    obtain ⟨outcome, edited⟩ := ended
    cases outcome with
    | keep value => exact .pure trivial
    | commit value => exact .bind (.performs (h.keeps_writeBack blind r edited.toList)) fun _ _ => .pure trivial

end Handles

end Agrees

end Checked
end RecordFile
