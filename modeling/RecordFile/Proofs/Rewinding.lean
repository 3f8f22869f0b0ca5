import Mathlib
import RecordFile.Proofs.Programs
import RecordFile.Proofs.LocateOutcome

/-! Where bodies under a lock leave the stream. A body may do anything with its handle but close it. If it was
lent the bytes of the region, the stream is put back after it, whatever has failed; if it was not, the stream
is where the body left it. -/
namespace RecordFile

/-- Where the stream of a descriptor is. -/
def Store.stream (d : Nat) (s : Store) : Option Nat := (s.openFile? d).map OpenFile.position

theorem Store.blind_place (d : Nat) : Store.Blind (Store.place d) where
  mapOpen s d' _ same := Store.map_openFile?_mapOpen (fun file => (same file).2.1) s d d'
  put _ _ _ := rfl

theorem Store.heedless_place (d : Nat) : Store.Heedless (Store.place d) :=
  Store.heedless_openFile d fun _ _ _ => rfl

theorem Store.heedless_stream (d : Nat) : Store.Heedless (Store.stream d) :=
  Store.heedless_openFile d fun _ _ _ => rfl

/-- No program opens or closes a file. -/
theorem Program.keeps_place {α : Type} (p : Program α) (d : Nat) : p.action.Keeps (Store.place d) := by
  have attempt {α β : Type} {act : Action β} {next : Except Fault β → Action α}
      (first : act.Keeps (Store.place d)) (rest : ∀ result, (next result).Keeps (Store.place d)) :
      Action.Keeps (Store.place d) (RecordFile.attempt act next) :=
    fun s => (rest _ _).trans (first s)
  have heedless := Store.heedless_place d
  induction p with
  | done result => exact fun _ => rfl
  | step act quiet next ih =>
    have kept : act.Keeps (Store.place d) := fun s => by
      have files := congrArg (fun σ : Standing => (σ.files d).map Prod.fst) (quiet s)
      simp only [Store.standing, Option.map_map] at files
      exact files
    show Action.Keeps _ (RecordFile.attempt act fun result => (next result).action)
    exact attempt kept ih
  | locked h r body next inside ih =>
    show Action.Keeps _ (RecordFile.attempt (h.locked (m := StateM Store) r body.action) fun result =>
      (next result).action)
    exact attempt (h.keeps_locked heedless inside) ih
  | editing h r body next inside ih =>
    show Action.Keeps _ (RecordFile.attempt (h.editing (m := StateM Store) r fun bytes => (body bytes).action)
      fun result => (next result).action)
    exact attempt (h.keeps_editing heedless (Store.blind_place d) inside) ih
  | guard h r next ih =>
    show Action.Keeps _ (RecordFile.attempt (Guard.acquire h r) fun result => (next result).action)
    exact attempt (.bind (h.keeps_lockBytes heedless r) fun _ => .pure _) ih
  | release g next ih =>
    show Action.Keeps _ (RecordFile.attempt g.release fun result => (next result).action)
    exact attempt (g.handle.keeps_unlockBytes heedless g.region) ih

namespace Handle

variable {ρ α : Type} {h : Handle} {r : Region} {s : Store} {f : OpenFile}

/-- The handle is open after the work on the file that it was open on before. Who was lent a handle cannot
close it. -/
def StaysOpen (h : Handle) (work : Work ρ α) : Prop :=
  ∀ place, Work.Stays (fun _ s => s.place h.descriptor = some place) work

namespace StaysOpen

theorem pure (value : α) : h.StaysOpen (Pure.pure value : Work ρ α) := fun _ => .pure value

theorem throw (fault : Fault) : h.StaysOpen (MonadExcept.throw fault : Work ρ α) := fun _ => .throw fault

theorem bind {β : Type} {work : Work ρ α} {next : α → Work ρ β} (first : h.StaysOpen work)
    (rest : ∀ value, h.StaysOpen (next value)) : h.StaysOpen (work >>= next) :=
  fun place => .bind (first place) fun value => rest value place

theorem perform {act : Action α} (keeps : act.Keeps (Store.place h.descriptor)) :
    h.StaysOpen (RecordFile.perform act : Work ρ α) :=
  fun _ => .perform fun _ s opened => (keeps s).trans opened

theorem program (p : Program α) : h.StaysOpen (RecordFile.perform p.action : Work ρ α) :=
  perform (p.keeps_place h.descriptor)

end StaysOpen

/-- What is done with the bytes of a region while it is locked. -/
def modifying (h : Handle) (r : Region)
    (body : Vector UInt8 r.len → Work ρ (Outcome α × Vector UInt8 r.len)) : Work ρ α := do
  let bytes ← perform (h.readAt r.offset r.len)
  if enough : bytes.length = r.len then h.lend r (body ⟨bytes.toArray, enough⟩) else throw (.lockReadFailed r)

theorem editing_eq (body : Vector UInt8 r.len → Work ρ (Outcome α × Vector UInt8 r.len)) :
    h.editing r body = h.locked r (h.keepingPosition (h.modifying r body)) := rfl

theorem StaysOpen.modifying {body : Vector UInt8 r.len → Work ρ (Outcome α × Vector UInt8 r.len)}
    (stays : ∀ bytes, h.StaysOpen (body bytes)) : h.StaysOpen (h.modifying r body) := by
  have blind := Store.blind_place h.descriptor
  refine bind (perform (h.keeps_readAt blind _ _)) fun bytes => ?_
  split
  · refine bind (stays _) fun ended => ?_
    obtain ⟨outcome, edited⟩ := ended
    cases outcome with
    | keep value => exact pure value
    | commit value => exact bind (perform (h.keeps_writeBack blind _ _)) fun _ => pure value
  · exact throw _

theorem StaysOpen.locked {work : Work ρ α} (stays : h.StaysOpen work) : h.StaysOpen (h.locked r work) := by
  have heedless := Store.heedless_place h.descriptor
  intro place
  have holds := h.keeps_hold heedless r
  exact .locked (fun _ _ _ _ opened ran => (holds.after ran).trans opened)
    (fun _ _ _ opened ran => (holds.after ran).trans opened) (stays place)
    fun _ s opened => (h.keeps_letGo heedless r s).trans opened

theorem StaysOpen.underLock {retrieve : Bool} {body : Body (StateT ρ (StateM Store)) α r}
    (stays : ∀ lent, h.StaysOpen (body lent)) :
    h.StaysOpen (h.underLock r retrieve body) := by
  cases retrieve with
  | true =>
    have edits : h.StaysOpen (h.modifying r body.on) :=
      .modifying fun bytes => bind (stays (some bytes)) fun ended => pure _
    have seeks (position : Nat) := h.keeps_seek (Store.blind_place h.descriptor) position
    exact locked (bind (perform h.keeps_position) fun saved place =>
      .ensuring (edits place) (perform (seeks saved) place))
  | false => exact locked (bind (stays none) fun ended => pure _)

/-- Neither locking nor unlocking moves the stream. -/
theorem stream_locked (work : Work ρ α) (x : ρ) (s : Store) :
    (Work.exec (h.locked r work) x s).2.stream h.descriptor = match (h.hold r).exec s with
      | (.ok (), taken) => (Work.exec work x taken).2.stream h.descriptor
      | (.error _, _) => s.stream h.descriptor := by
  have heedless := Store.heedless_stream h.descriptor
  rw [locked, Work.exec_bind, Work.exec_perform]
  rcases ran : (h.hold r).exec s with ⟨fault | ⟨⟩, taken⟩
  · exact (h.keeps_hold heedless r).after ran
  · exact h.keeps_letGo heedless r _

theorem stream_keepingPosition {op : Work ρ α} (opened : s.openFile? h.descriptor = some f)
    (fits : f.position ≤ maxOffset) (stays : h.StaysOpen op) (x : ρ) :
    (Work.exec (h.keepingPosition op) x s).2.stream h.descriptor = some f.position := by
  rw [keepingPosition, Work.exec_bind_ok (Work.exec_perform_of (exec_position_opened opened) x), Work.exec_ensuring]
  have still := stays f.location x s (congrArg (Option.map OpenFile.location) opened)
  obtain ⟨f', opened', -⟩ := Store.place_eq_some still
  show ((h.seek f.position).exec (Work.exec op x s).2).2.stream h.descriptor = _
  rw [exec_seek_opened opened' fits, Store.stream, Store.openFile?_sought opened', Option.map_some]

/-- Around the bytes that are lent the stream is put back, after the region was locked and before it is let go. -/
theorem stream_editing (opened : s.openFile? h.descriptor = some f) (fits : f.position ≤ maxOffset)
    {body : Vector UInt8 r.len → Work ρ (Outcome α × Vector UInt8 r.len)}
    (stays : ∀ bytes, h.StaysOpen (body bytes)) (x : ρ) :
    (Work.exec (h.editing r body) x s).2.stream h.descriptor = some f.position := by
  have before : s.stream h.descriptor = some f.position := congrArg (Option.map OpenFile.position) opened
  rw [editing_eq, stream_locked]
  rcases ran : (h.hold r).exec s with ⟨fault | ⟨⟩, taken⟩
  · exact before
  · have kept := (h.keeps_hold (Store.heedless_stream h.descriptor) r).after ran
    obtain ⟨f', opened', same⟩ := Option.map_eq_some_iff.mp (kept.trans before)
    rw [← same]
    exact stream_keepingPosition opened' (same ▸ fits) (.modifying stays) x

/-- After a body that was lent the bytes of the region the stream is where it was before the region was locked,
whatever has failed. After one that was lent none it is where the body left it. -/
theorem rewinds (opened : s.openFile? h.descriptor = some f) (fits : f.position ≤ maxOffset)
    {body : Body (StateT ρ (StateM Store)) α r}
    (stays : ∀ lent, h.StaysOpen (body lent)) (x : ρ) :
    (Work.exec (h.underLock r true body) x s).2.stream h.descriptor = some f.position ∧
    (Work.exec (h.underLock r false body) x s).2.stream h.descriptor = match (h.hold r).exec s with
      | (.ok (), taken) => (Work.exec (body none) x taken).2.stream h.descriptor
      | (.error _, _) => some f.position := by
  have before : s.stream h.descriptor = some f.position := congrArg (Option.map OpenFile.position) opened
  constructor
  · rw [underLock, if_pos rfl]
    refine stream_editing opened fits (fun bytes => ?_) x
    exact .bind (stays (some bytes)) fun ended => .pure _
  · rw [underLock, if_neg Bool.false_ne_true, stream_locked, before]
    rcases (h.hold r).exec s with ⟨fault | ⟨⟩, taken⟩
    · rfl
    · simp only
      rw [Work.exec_bind]
      rcases Work.exec (body none) x taken with ⟨⟨fault | ended, y⟩, s'⟩ <;> rfl

/-- A body that moves the stream. -/
def adrift (r : Region) : Body (StateT Unit (StateM Store)) Unit r := fun _ => do
  perform ((⟨0⟩ : Handle).seek 5)
  return (.keep (), none)

theorem rewinds_adrift : ∃ s f, (⟨0⟩ : Handle).Sees s f lone ∧
    (Work.exec ((⟨0⟩ : Handle).underLock ⟨0, 8⟩ true (adrift _)) () s).2.stream 0 = some f.position := by
  have read : FileHeader.ofContent lone = .ok (FileHeader.fresh 64 5) := by decide +kernel
  obtain ⟨f, opened, -, -⟩ := opened_alone read
  have stays : ∀ lent, (⟨0⟩ : Handle).StaysOpen (adrift ⟨0, 8⟩ lent) := fun _ =>
    .bind (.perform (keeps_seek _ (Store.blind_place _) 5)) fun _ => .pure _
  exact ⟨_, f, opened.toSees, (rewinds (r := ⟨0, 8⟩) opened.opened opened.position stays ()).1⟩

/-- The same body is lent nothing, and the stream stays where it went. -/
theorem adrift_after : let s := alone lone (FileHeader.fresh 64 5)
    s.stream 0 = some 0 ∧
      (Work.exec ((⟨0⟩ : Handle).underLock ⟨0, 8⟩ false (adrift _)) () s).2.stream 0 = some 5 := by
  decide +kernel

end Handle
end RecordFile
