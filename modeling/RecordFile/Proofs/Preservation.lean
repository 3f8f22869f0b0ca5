import Mathlib
import RecordFile.Proofs.Composition
import RecordFile.Proofs.HeldRegions

/-! Actions that lock nothing and let go of nothing. All that reads, writes, walks or makes the file
longer is of this kind. Bytes and streams are all that it changes, so whatever else is to be seen of the store
is the same after it, however it ends; what is held is. -/
namespace RecordFile

/-- What is seen of the store stays as it is. -/
def Action.Keeps {α γ : Type} (view : Store → γ) (act : Action α) : Prop := ∀ s, view (act.exec s).2 = view s

/-- What is held stays as it is. -/
def Action.Quiet {α : Type} (act : Action α) : Prop := ∀ s, (act.exec s).2.standing = s.standing

namespace Action.Keeps

variable {α β γ : Type} {view : Store → γ} {act : Action α}

theorem after {result : Except Fault α} {s s' : Store} (keeps : act.Keeps view) (ran : act.exec s = (result, s')) :
    view s' = view s := by
  have kept := keeps s
  rwa [ran] at kept

theorem pure (value : α) : Keeps view (Pure.pure value : Action α) := fun _ => rfl

theorem throw (fault : Fault) : Keeps view (MonadExcept.throw fault : Action α) := fun _ => rfl

theorem liftExcept (result : Except Fault α) : Keeps view (liftM result : Action α) := by
  intro s
  rw [exec_liftExcept]

theorem orFault {ε : Type} (result : Except ε α) (fault : ε → Fault) :
    Keeps view (RecordFile.orFault result fault) := fun _ => rfl

theorem bind {next : α → Action β} (first : act.Keeps view) (rest : ∀ value, (next value).Keeps view) :
    (act >>= next).Keeps view := by
  intro s
  rw [exec_bind]
  have before := first s
  rcases ran : act.exec s with ⟨fault | value, s'⟩
  · rw [ran] at before
    exact before
  · rw [ran] at before
    exact (rest value s').trans before

theorem ite {c : Prop} [Decidable c] {act' : Action α} (yes : act.Keeps view) (no : act'.Keeps view) :
    Keeps view (if c then act else act') := by
  split
  · exact yes
  · exact no

/-- A check that may fail before the rest. -/
theorem checked {c : Prop} [Decidable c] {fault : Fault} (rest : act.Keeps view) :
    Keeps view (if c then (MonadExcept.throw fault : Action Unit) >>= fun _ => act else act) :=
  .ite (.bind (.throw fault) fun _ => rest) rest

theorem tryCatch {handler : Fault → Action α} (first : act.Keeps view)
    (rest : ∀ fault, (handler fault).Keeps view) : Keeps view (MonadExcept.tryCatch act handler) := by
  intro s
  rw [exec_tryCatch]
  have before := first s
  rcases ran : act.exec s with ⟨fault | value, s'⟩
  · rw [ran] at before
    exact (rest fault s').trans before
  · rw [ran] at before
    exact before

theorem ensuring {after : Action Unit} (first : act.Keeps view) (last : after.Keeps view) :
    Keeps view (RecordFile.ensuring act after) := by
  intro s
  rw [exec_ensuring (Prod.eta (act.exec s)).symm (Prod.eta (after.exec (act.exec s).2)).symm]
  exact (last _).trans (first s)

end Action.Keeps

/-- Neither the bytes of files can be seen nor where their streams are. -/
structure Store.Blind {γ : Type} (view : Store → γ) : Prop where
  mapOpen : ∀ (s : Store) (d : Nat) (change : OpenFile → OpenFile), (∀ file, (change file).header = file.header ∧
    (change file).location = file.location ∧ (change file).held = file.held) → view (s.mapOpen d change) = view s
  put : ∀ (s : Store) (location : Location) (content : Content), view (s.put location content) = view s

theorem Store.blind_standing : Store.Blind Store.standing where
  mapOpen _ _ _ same := Store.standing_mapOpen fun file => (same file).2
  put _ _ _ := rfl

/-- Neither locks can be seen nor what files hold, and which errors they remember is not seen either. -/
structure Store.Heedless {γ : Type} (view : Store → γ) : Prop where
  mapOpen : ∀ (s : Store) (d : Nat) (change : OpenFile → OpenFile), (∀ file, ∃ held lastErrno,
    change file = { file with held, lastErrno }) → view (s.mapOpen d change) = view s
  locks : ∀ (s : Store) (locks : LockTable), view { s with locks } = view s

/-- All else is seen of an open file. -/
theorem Store.heedless_openFile {γ : Type} (d : Nat) {look : OpenFile → γ}
    (same : ∀ file held lastErrno, look { file with held, lastErrno } = look file) :
    Store.Heedless fun s => (s.openFile? d).map look where
  mapOpen s d' change changed := by
    refine Store.map_openFile?_mapOpen (fun file => ?_) s d d'
    obtain ⟨held, lastErrno, changed⟩ := changed file
    rw [changed, same]
  locks _ _ := rfl

/-- So is what the files hold. -/
theorem Store.heedless_content (l : Location) : Store.Heedless fun s => s.content? l where
  mapOpen _ _ _ _ := rfl
  locks _ _ := rfl

namespace Handle

section

variable {α γ : Type} {view : Store → γ} (h : Handle)

theorem keeps_file : h.file.Keeps view := by
  intro s
  rw [exec_file_eq]

theorem keeps_content : h.content.Keeps view :=
  .bind h.keeps_file fun _ => .bind (fun _ => rfl) fun _ => .pure _

theorem keeps_length : h.length.Keeps view := .bind h.keeps_content fun _ => .pure _

theorem keeps_position : h.position.Keeps view := .bind h.keeps_file fun _ => .pure _

theorem keeps_chunkSize : h.chunkSize.Keeps view := .bind h.keeps_file fun _ => .pure _

variable (blind : Store.Blind view)
include blind

theorem keeps_update {change : OpenFile → OpenFile}
    (same : ∀ file, (change file).header = file.header ∧ (change file).location = file.location ∧
      (change file).held = file.held) : (h.update change).Keeps view := by
  intro s
  rw [exec_update_eq]
  cases s.openFile? h.descriptor with
  | none => rfl
  | some file => exact blind.mapOpen s h.descriptor change same

theorem keeps_fail (error : SystemError) : (h.fail error : Action α).Keeps view :=
  .bind (h.keeps_update blind fun _ => ⟨rfl, rfl, rfl⟩) fun _ => .throw _

theorem keeps_setContent (c : Content) : (h.setContent c).Keeps view :=
  .bind h.keeps_file fun file s => blind.put s file.location c

theorem keeps_seek (offset : Nat) : (h.seek offset).Keeps view := by
  unfold seek
  split
  · exact h.keeps_fail blind _
  · exact h.keeps_update blind fun _ => ⟨rfl, rfl, rfl⟩

theorem keeps_seekFor (offset count : Nat) : (h.seekFor offset count).Keeps view := by
  refine .bind (h.keeps_seek blind offset) fun _ => ?_
  split
  · exact h.keeps_fail blind _
  · exact .pure _

theorem keeps_readAt (offset count : Nat) : (h.readAt offset count).Keeps view :=
  .bind (h.keeps_seekFor blind offset count) fun _ => .bind h.keeps_content fun _ =>
    .bind (h.keeps_update blind fun _ => ⟨rfl, rfl, rfl⟩) fun _ => .pure _

theorem keeps_writeAt (offset : Nat) (bytes : List UInt8) : (h.writeAt offset bytes).Keeps view :=
  .bind (h.keeps_seekFor blind offset _) fun _ => .bind h.keeps_content fun _ =>
    .bind (h.keeps_setContent blind _) fun _ => h.keeps_update blind fun _ => ⟨rfl, rfl, rfl⟩

theorem keeps_writeBack (r : Region) (bytes : List UInt8) : (h.writeBack r bytes).Keeps view :=
  .tryCatch (h.keeps_writeAt blind r.offset bytes) fun _ => .throw _

theorem keeps_keepingPosition {op : Action α} (quiet : op.Keeps view) :
    Action.Keeps view (h.keepingPosition (m := StateM Store) op) :=
  .bind h.keeps_position fun saved => .ensuring quiet (h.keeps_seek blind saved)

/-- All that is done to files that are not locked is of this kind. -/
theorem keeping : Composed fun _ act => (act h).Keeps view where
  pure value := .pure value
  throw {_ fault} _ := .throw fault
  bind first rest := .bind first rest
  chunkSize := h.keeps_chunkSize
  length := h.keeps_length
  fail error := h.keeps_fail blind error
  seek offset := h.keeps_seek blind offset
  readAt offset count := h.keeps_readAt blind offset count
  writeAt offset bytes := h.keeps_writeAt blind offset bytes
  keepingPosition inside := h.keeps_keepingPosition blind inside

end

section

variable {α γ : Type} {view : Store → γ} (h : Handle) (heedless : Store.Heedless view)
include heedless

theorem keeps_remembering {change : OpenFile → OpenFile}
    (changed : ∀ file, ∃ held lastErrno, change file = { file with held, lastErrno }) :
    (h.update change).Keeps view := by
  intro s
  rw [exec_update_eq]
  cases s.openFile? h.descriptor with
  | none => rfl
  | some file => exact heedless.mapOpen s h.descriptor change changed

theorem keeps_recording {act : Action α} (keeps : act.Keeps view) : (h.recording act).Keeps view := by
  refine .tryCatch keeps fun fault => ?_
  split
  · exact .bind (h.keeps_remembering heedless fun file => ⟨file.held, _, rfl⟩) fun _ => .throw _
  · exact .throw _

theorem keeps_lockBytes (r : Region) : (h.lockBytes r).Keeps view := by
  refine .bind (.orFault _ _) fun span => .bind h.keeps_file fun file => .bind (fun _ => rfl) fun s => ?_
  exact .checked fun s => heedless.locks s _

theorem keeps_unlockBytes (r : Region) : (h.unlockBytes r).Keeps view :=
  .bind (.orFault _ _) fun _ => .bind h.keeps_file fun _ s => heedless.locks s _

theorem keeps_hold (r : Region) : (h.hold r).Keeps view := by
  refine .checked (.bind h.keeps_file fun file => .checked ?_)
  exact .bind (h.keeps_recording heedless (h.keeps_lockBytes heedless r)) fun _ =>
    h.keeps_remembering heedless fun file => ⟨_, file.lastErrno, rfl⟩

theorem keeps_letGo (r : Region) : (h.letGo r).Keeps view :=
  .bind (h.keeps_remembering heedless fun file => ⟨_, file.lastErrno, rfl⟩) fun _ =>
    h.keeps_recording heedless (h.keeps_unlockBytes heedless r)

theorem keeps_locked {r : Region} {act : Action α} (inside : act.Keeps view) :
    Action.Keeps view (h.locked (m := StateM Store) r act) :=
  .bind (h.keeps_hold heedless r) fun _ => .ensuring inside (h.keeps_letGo heedless r)

theorem keeps_editing (blind : Store.Blind view) {r : Region}
    {body : Vector UInt8 r.len → Action (Outcome α × Vector UInt8 r.len)}
    (inside : ∀ bytes, (body bytes).Keeps view) : Action.Keeps view (h.editing (m := StateM Store) r body) :=
  @Composed.editing _ α (h.keeping blind) r (fun held => h.keeps_locked heedless held) (h.keeps_writeBack blind r)
    (fun _ => body) inside

end

theorem quiet (h : Handle) : Composed fun _ act => (act h).Quiet := h.keeping Store.blind_standing

end Handle
end RecordFile
