import Mathlib
import RecordFile.Proofs.Composition
import RecordFile.Proofs.Locating
import RecordFile.Proofs.HeldRegions

/-! What the operations of a handle go by. A handle has a position, settings, the file header that it read
once and the error that it met last; of all this only the chunk size bears on what an operation gives and
on what it does to the file. Of what else there is, it goes by the bytes of the file and by what is locked of it. -/
namespace RecordFile

namespace LockTable

/-- What others than `owner` have locked of a file. -/
def elsewhere (t : LockTable) (owner : Nat) (file : Location) : List Region :=
  (t.entries.filter fun l => l.file = file ∧ l.owner ≠ owner).map Lock.region

variable {t : LockTable} {owner : Nat} {file : Location}

theorem contended_eq (t : LockTable) (owner : Nat) (file : Location) (r : Region) :
    t.contended owner file r = (t.elsewhere owner file).any fun region => region.Overlaps r := by
  rw [Bool.eq_iff_iff, contended_iff]
  simp only [elsewhere, List.any_map, List.any_filter, List.any_eq_true, Function.comp, Bool.and_eq_true,
    decide_eq_true_eq]
  exact exists_congr fun l => and_congr_right fun _ => and_assoc.symm

theorem elsewhere_add (file' : Location) (r : Region) :
    (t.add owner file' r).elsewhere owner file = t.elsewhere owner file := by
  rw [elsewhere, add, List.filter_cons_of_neg (by simp), elsewhere]

/-- What an owner unlocks is its own. -/
theorem elsewhere_remove (r : Region) : (t.remove owner r).elsewhere owner file = t.elsewhere owner file := by
  obtain ⟨entries⟩ := t
  simp only [elsewhere, remove]
  induction entries with
  | nil => rfl
  | cons l rest ih =>
    rw [List.flatMap_cons, List.filter_append, List.map_append, ih]
    by_cases own : l.owner = owner
    · have pieces : ((l.region.minus r).map fun piece => { l with region := piece }).filter
          (fun l => l.file = file ∧ l.owner ≠ owner) = [] := by
        simp [own]
      rw [if_pos own, pieces, List.filter_cons_of_neg (by simp [own]), List.map_nil, List.nil_append]
    · rw [if_neg own, ← List.map_append, ← List.filter_append, List.singleton_append]

end LockTable

/-- What the operations of a handle go by. -/
structure Outlook where
  content : Content
  chunkSize : UInt32
  held : List Region
  /-- What others have locked of the file. -/
  others : List Region

namespace Handle

/-- The handle has this before it. -/
def Faces (h : Handle) (s : Store) (o : Outlook) : Prop :=
  ∃ f, h.Sees s f o.content ∧ f.header.chunkSize = o.chunkSize ∧ f.held = o.held ∧
    s.locks.elsewhere h.descriptor f.location = o.others

/-- What handles have before them settles what the operation gives, and what they have before them then,
whichever handle it is an operation of. If it fails, then in one of these ways. -/
def Settles {α : Type} (ends : Fault → Prop) (act : Handle → Action α) : Prop :=
  ∀ o, ∃ result o', (∀ fault, result = .error fault → ends fault) ∧
    ∀ h s, h.Faces s o → ∃ s', (act h).exec s = (result, s') ∧ h.Faces s' o'

/-- Settled whatever it comes to. -/
abbrev Decided {α : Type} (act : Handle → Action α) : Prop := Settles (fun _ => True) act

/-- Settled, and it does not fail for contention. -/
abbrev Settled {α : Type} (act : Handle → Action α) : Prop := Settles (fun fault => fault.isRetryable = false) act

theorem Leaves.faces {h : Handle} {s s' : Store} {f f' : OpenFile} {c : Content} {o : Outlook}
    (left : h.Leaves s f' c s.locks s')
    (same : f'.location = f.location ∧ f'.header = f.header ∧ f'.held = f.held)
    (chunk : f.header.chunkSize = o.chunkSize) (held : f.held = o.held)
    (others : s.locks.elsewhere h.descriptor f.location = o.others) : h.Faces s' { o with content := c } := by
  obtain ⟨place, header, holds⟩ := same
  refine ⟨f', left.sees, ?_, holds.trans held, ?_⟩
  · rw [header]
    exact chunk
  · rw [left.locks, place]
    exact others

theorem Faces.unique {h : Handle} {s : Store} {o o' : Outlook} (faces : h.Faces s o) (faces' : h.Faces s o') :
    o = o' := by
  obtain ⟨f, sees, chunk, held, others⟩ := faces
  obtain ⟨f', sees', chunk', held', others'⟩ := faces'
  obtain ⟨rfl, content⟩ := sees.unique sees'
  cases o
  cases o'
  simp_all

namespace Settles

variable {α β : Type} {ends : Fault → Prop} {act : Handle → Action α}

theorem mono {ends' : Fault → Prop} (settled : Settles ends act) (le : ∀ fault, ends fault → ends' fault) :
    Settles ends' act := by
  intro o
  obtain ⟨result, o', ending, ran⟩ := settled o
  exact ⟨result, o', fun fault failed => le fault (ending fault failed), ran⟩

theorem decided (settled : Settles ends act) : Decided act := settled.mono fun _ _ => trivial

theorem pure (value : α) : Settles ends fun _ => (Pure.pure value : Action α) :=
  fun o => ⟨.ok value, o, nofun, fun _ s faces => ⟨s, rfl, faces⟩⟩

theorem throw (fault : Fault) (last : ends fault) : Settles ends fun _ => (MonadExcept.throw fault : Action α) :=
  fun o => ⟨.error fault, o, fun _ failed => Except.error.inj failed ▸ last, fun _ s faces => ⟨s, rfl, faces⟩⟩

theorem orFault {ε : Type} (result : Except ε α) (fault : ε → Fault) (last : ∀ e, ends (fault e)) :
    Settles ends fun _ => RecordFile.orFault result fault := by
  cases result with
  | ok value => exact pure value
  | error e => exact throw (fault e) (last e)

theorem bind {next : Handle → α → Action β} (first : Settles ends act)
    (rest : ∀ value, Settles ends fun h => next h value) : Settles ends fun h => act h >>= next h := by
  intro o
  obtain ⟨result, o₁, ending, ran⟩ := first o
  cases result with
  | error fault =>
    refine ⟨.error fault, o₁, fun _ failed => ending _ (congrArg _ (Except.error.inj failed)), ?_⟩
    intro h s faces
    obtain ⟨s₁, ran₁, faces₁⟩ := ran h s faces
    exact ⟨s₁, Action.exec_bind_error ran₁ _, faces₁⟩
  | ok value =>
    obtain ⟨result, o₂, ending, ran'⟩ := rest value o₁
    refine ⟨result, o₂, ending, ?_⟩
    intro h s faces
    obtain ⟨s₁, ran₁, faces₁⟩ := ran h s faces
    obtain ⟨s₂, ran₂, faces₂⟩ := ran' h s₁ faces₁
    exact ⟨s₂, (Action.exec_bind_ok ran₁ _).trans ran₂, faces₂⟩

theorem ite {c : Prop} [Decidable c] {act' : Handle → Action α} (yes : c → Settles ends act)
    (no : ¬ c → Settles ends act') : Settles ends fun h => if c then act h else act' h := by
  by_cases holds : c
  · simpa only [if_pos holds] using yes holds
  · simpa only [if_neg holds] using no holds

/-- A check that may fail before the rest. -/
theorem checked {c : Prop} [Decidable c] {fault : Fault} (last : ends fault) (rest : Settles ends act) :
    Settles ends fun h => if c then (MonadExcept.throw fault : Action Unit) >>= fun _ => act h else act h :=
  .ite (fun _ => .bind (.throw fault last) fun _ => rest) fun _ => rest

theorem ensuring {after : Handle → Action Unit} (first : Settles ends act) (last : Settles ends after) :
    Settles ends fun h => RecordFile.ensuring (act h) (after h) := by
  intro o
  obtain ⟨result, o₁, ending, ran⟩ := first o
  obtain ⟨ended, o₂, ending', ran'⟩ := last o₁
  refine ⟨result >>= fun value => ended.map fun _ => value, o₂, ?_, ?_⟩
  · cases result with
    | error fault => exact fun _ failed => ending _ (congrArg _ (Except.error.inj failed))
    | ok value =>
      cases ended with
      | error fault => exact fun _ failed => ending' _ (congrArg _ (Except.error.inj failed))
      | ok => exact nofun
  · intro h s faces
    obtain ⟨s₁, ran₁, faces₁⟩ := ran h s faces
    obtain ⟨s₂, ran₂, faces₂⟩ := ran' h s₁ faces₁
    exact ⟨s₂, Action.exec_ensuring ran₁ ran₂, faces₂⟩

theorem tryCatch {ends' : Fault → Prop} {handler : Handle → Fault → Action α} (settled : Settles ends act)
    (handled : ∀ fault, ends fault → Settles ends' fun h => handler h fault) :
    Settles ends' fun h => MonadExcept.tryCatch (act h) (handler h) := by
  intro o
  obtain ⟨result, o₁, ending, ran⟩ := settled o
  cases result with
  | ok value =>
    refine ⟨.ok value, o₁, nofun, ?_⟩
    intro h s faces
    obtain ⟨s₁, ran₁, faces₁⟩ := ran h s faces
    exact ⟨s₁, by rw [Action.exec_tryCatch, ran₁], faces₁⟩
  | error fault =>
    obtain ⟨result, o₂, ending', ran'⟩ := handled fault (ending fault rfl) o₁
    refine ⟨result, o₂, ending', ?_⟩
    intro h s faces
    obtain ⟨s₁, ran₁, faces₁⟩ := ran h s faces
    obtain ⟨s₂, ran₂, faces₂⟩ := ran' h s₁ faces₁
    exact ⟨s₂, by rw [Action.exec_tryCatch, ran₁, ← ran₂], faces₂⟩

/-- The position differs from handle to handle, but it is put back. -/
theorem keepingPosition (settled : Settles ends act) :
    Settles ends fun h => h.keepingPosition (m := StateM Store) (act h) := by
  intro o
  obtain ⟨result, o₁, ending, ran⟩ := settled o
  refine ⟨result, o₁, ending, ?_⟩
  rintro h s faces
  obtain ⟨s₁, ran₁, f₁, sees₁, chunk₁, held₁, others₁⟩ := ran h s faces
  obtain ⟨f, sees, -⟩ := faces
  obtain ⟨s₂, ran₂, left₂⟩ := exec_seek sees₁ f.position sees.position
  refine ⟨s₂, ?_, left₂.faces ⟨rfl, rfl, rfl⟩ chunk₁ held₁ others₁⟩
  refine (Action.exec_bind_ok (exec_position sees) _).trans ((Action.exec_ensuring ran₁ ran₂).trans ?_)
  cases result <;> rfl

end Settles

/-! ### The stream -/

theorem settled_chunkSize : Settled fun h => h.chunkSize := by
  intro o
  refine ⟨.ok o.chunkSize, o, nofun, ?_⟩
  rintro h s ⟨f, sees, chunk, rest⟩
  refine ⟨s, ?_, f, sees, chunk, rest⟩
  rw [exec_chunkSize sees, chunk]

theorem settled_length : Settled fun h => h.length := by
  intro o
  refine ⟨.ok o.content.size, o, nofun, ?_⟩
  rintro h s ⟨f, sees, rest⟩
  exact ⟨s, exec_length sees, f, sees, rest⟩

theorem settles_fail {α : Type} {ends : Fault → Prop} (error : SystemError) (last : ends (.system error)) :
    Settles ends fun h => (h.fail error : Action α) := by
  intro o
  refine ⟨.error (.system error), o, fun _ failed => Except.error.inj failed ▸ last, ?_⟩
  rintro h s ⟨f, sees, chunk, held, others⟩
  obtain ⟨s', ran, left⟩ := exec_fail (α := α) sees error
  exact ⟨s', ran, left.faces ⟨rfl, rfl, rfl⟩ chunk held others⟩

/-- Remembering a fault makes it no other. -/
theorem Settles.recording {α : Type} {ends : Fault → Prop} {act : Handle → Action α} (settled : Settles ends act) :
    Settles ends fun h => h.recording (act h) := by
  refine .tryCatch settled fun fault last => ?_
  cases fault with
  | system error => exact settles_fail error last
  | _ => exact .throw _ last

theorem settled_seek (offset : Nat) : Settled fun h => h.seek offset := by
  apply Settles.ite
  · intro _
    exact settles_fail _ rfl
  · intro near o
    refine ⟨.ok (), o, nofun, ?_⟩
    rintro h s ⟨f, sees, chunk, held, others⟩
    have left := sees.mapOpen (fun f => { f with position := offset }) rfl (Nat.le_of_not_lt near)
    exact ⟨_, exec_update sees _, left.faces ⟨rfl, rfl, rfl⟩ chunk held others⟩

/-- Past the last offset nothing is read or written. -/
theorem settled_seekFor_far {α : Type} {offset count : Nat} (far : maxOffset < offset + count)
    (next : Handle → Action α) : Settled fun h => h.seekFor offset count >>= fun _ => next h := by
  intro o
  refine ⟨.error (.system .invalidArgument), o, fun _ failed => Except.error.inj failed ▸ rfl, ?_⟩
  rintro h s ⟨f, sees, chunk, held, others⟩
  obtain ⟨s', p, ran, left⟩ := exec_seekFor_far sees far
  exact ⟨s', Action.exec_bind_error ran _, left.faces ⟨rfl, rfl, rfl⟩ chunk held others⟩

theorem settled_readAt (offset count : Nat) : Settled fun h => h.readAt offset count := by
  by_cases near : offset + count ≤ maxOffset
  · intro o
    refine ⟨.ok (o.content.read offset count), o, nofun, ?_⟩
    rintro h s ⟨f, sees, chunk, held, others⟩
    obtain ⟨s', p, ran, left⟩ := exec_readAt sees offset count near
    exact ⟨s', ran, left.faces ⟨rfl, rfl, rfl⟩ chunk held others⟩
  · exact settled_seekFor_far (Nat.lt_of_not_le near) _

theorem settled_writeAt (offset : Nat) (bytes : List UInt8) : Settled fun h => h.writeAt offset bytes := by
  by_cases near : offset + bytes.length ≤ maxOffset
  · intro o
    refine ⟨.ok (), { o with content := o.content.write offset bytes }, nofun, ?_⟩
    rintro h s ⟨f, sees, chunk, held, others⟩
    obtain ⟨s', p, ran, left⟩ := exec_writeAt sees offset bytes near
    exact ⟨s', ran, left.faces ⟨rfl, rfl, rfl⟩ chunk held others⟩
  · exact settled_seekFor_far (Nat.lt_of_not_le near) _

/-- Whatever is done to a file that is not locked is settled. -/
theorem settles {ends : Fault → Prop} (final : ∀ fault, fault.isRetryable = false → ends fault) :
    Composed fun _ act => Settles ends act where
  pure value := .pure value
  throw {_ fault} plain := .throw fault (final fault (Fault.isRetryable_of_isPlain plain))
  bind first rest := .bind first rest
  chunkSize := settled_chunkSize.mono final
  length := settled_length.mono final
  fail error := settles_fail error (final _ rfl)
  seek offset := (settled_seek offset).mono final
  readAt offset count := (settled_readAt offset count).mono final
  writeAt offset bytes := (settled_writeAt offset bytes).mono final
  keepingPosition inside := .keepingPosition inside

theorem settled : Composed fun _ act => Settled act := settles fun _ final => final

/-! ### Locks -/

/-- A change of what the handle holds. -/
theorem settled_holding (change : List Region → List Region) :
    Settled fun h => h.update fun file => { file with held := change file.held } := by
  intro o
  refine ⟨.ok (), { o with held := change o.held }, nofun, ?_⟩
  rintro h s ⟨f, sees, chunk, held, others⟩
  have left := sees.mapOpen (fun file => { file with held := change file.held }) rfl sees.position
  exact ⟨_, exec_update sees _, _, left.sees, chunk, congrArg change held, others⟩

/-- Whether a region can be locked is settled by what others have locked. -/
theorem decided_lockBytes (r : Region) : Decided fun h => h.lockBytes r := by
  refine .bind (.orFault _ _ fun _ => trivial) fun span o => ?_
  by_cases contended : (o.others.any fun region => region.Overlaps span) = true
  · refine ⟨.error (.lockFailed r), o, fun _ _ => trivial, ?_⟩
    rintro h s ⟨f, sees, chunk, held, others⟩
    refine ⟨s, ?_, f, sees, chunk, held, others⟩
    rw [← others, ← LockTable.contended_eq] at contended
    rw [Action.exec_bind_ok (exec_file sees), Action.exec_bind_ok (Action.exec_get s), if_pos contended]
    rfl
  · refine ⟨.ok (), o, nofun, ?_⟩
    rintro h s ⟨f, sees, chunk, held, others⟩
    have left := sees.relock (s.locks.add h.descriptor f.location span)
    refine ⟨_, ?_, f, left.sees, chunk, held, (LockTable.elsewhere_add ..).trans others⟩
    rw [← others, ← LockTable.contended_eq] at contended
    rw [Action.exec_bind_ok (exec_file sees), Action.exec_bind_ok (Action.exec_get s), if_neg contended]
    rfl

theorem settled_unlockBytes (r : Region) : Settled fun h => h.unlockBytes r := by
  refine .bind (.orFault _ _ fun _ => rfl) fun span o => ?_
  refine ⟨.ok (), o, nofun, ?_⟩
  rintro h s ⟨f, sees, chunk, held, others⟩
  have left := sees.relock (s.locks.remove h.descriptor span)
  exact ⟨_, Action.exec_bind_ok (exec_file sees) _, f, left.sees, chunk, held,
    (LockTable.elsewhere_remove _).trans others⟩

/-- What a handle holds is told by its open file. -/
theorem decided_held {α : Type} (next : Handle → List Region → Action α)
    (rest : ∀ held, Decided fun h => next h held) : Decided fun h => h.file >>= fun f => next h f.held := by
  intro o
  obtain ⟨result, o', ending, ran⟩ := rest o.held o
  refine ⟨result, o', ending, ?_⟩
  rintro h s ⟨f, sees, chunk, held, others⟩
  obtain ⟨s', ran', faces⟩ := ran h s ⟨f, sees, chunk, held, others⟩
  refine ⟨s', ?_, faces⟩
  rw [Action.exec_bind_ok (exec_file sees), held]
  exact ran'

theorem decided_hold (r : Region) : Decided fun h => h.hold r := by
  have asked := decided_held (fun h held => do
      if held.any fun region => region.Overlaps r then throw (.regionAlreadyHeld r)
      h.recording (h.lockBytes r)
      h.update fun file => { file with held := r :: file.held })
    fun held => .checked trivial (.bind (.recording (decided_lockBytes r)) fun _ => (settled_holding (r :: ·)).decided)
  exact .checked trivial asked

theorem settled_letGo (r : Region) : Settled fun h => h.letGo r :=
  .bind (settled_holding (·.erase r)) fun _ => .recording (settled_unlockBytes r)

theorem settled_writeBack (r : Region) (bytes : List UInt8) : Settled fun h => h.writeBack r bytes :=
  .tryCatch (settled_writeAt r.offset bytes) fun _ _ => .throw _ rfl

theorem decided_locked {α : Type} {act : Handle → Action α} (r : Region) (inside : Decided act) :
    Decided fun h => h.locked r (act h) :=
  .bind (decided_hold r) fun _ => .ensuring inside (settled_letGo r).decided

theorem decided_editing {α : Type} (r : Region)
    {body : Handle → Vector UInt8 r.len → Action (Outcome α × Vector UInt8 r.len)}
    (inside : ∀ bytes, Decided fun h => body h bytes) :
    Decided fun h => h.editing (m := StateM Store) r (body h) :=
  (settles fun _ _ => trivial).editing r (decided_locked r) (fun bytes => (settled_writeBack r bytes).decided) inside

/-- How often a handle would try again does not matter: what is contended stays contended, and where nothing is
one try is enough. -/
theorem decided_growing {α : Type} {act : Handle → Action α} (inside : Settled act) :
    Decided fun h => h.growing (m := StateM Store) (act h) := by
  intro o
  obtain ⟨held, o₁, -, holds⟩ := decided_hold .growth o
  cases held with
  | ok =>
    obtain ⟨result, o₂, final, ran⟩ := Settles.ensuring inside (settled_letGo .growth) o₁
    refine ⟨result, o₂, fun _ _ => trivial, ?_⟩
    intro h s faces
    obtain ⟨s₁, taken, faces₁⟩ := holds h s faces
    obtain ⟨s₂, ran₂, faces₂⟩ := ran h s₁ faces₁
    obtain ⟨f, sees, -⟩ := faces
    refine ⟨s₂, exec_retrying sees ((Action.exec_bind_ok taken _).trans ran₂) ?_, faces₂⟩
    intro fault failed again
    rw [final fault failed] at again
    cases again
  | error fault =>
    refine ⟨.error fault, o, fun _ _ => trivial, ?_⟩
    intro h s faces
    obtain ⟨s₁, refused, -⟩ := holds h s faces
    have unchanged : (h.hold .growth).exec s = (.error fault, s) := by
      obtain ⟨f, sees, -⟩ := faces
      by_cases free : h.Free s f .growth
      · obtain ⟨s₂, granted, -⟩ := exec_hold sees Region.growth_fits.1 Region.growth_fits.2 free
        rw [granted] at refused
        cases refused
      · obtain ⟨fault', refused', -⟩ := exec_hold_refused sees Region.growth_fits.1 Region.growth_fits.2 free
        rw [refused'] at refused ⊢
        cases refused
        rfl
    obtain ⟨f, sees, rest⟩ := faces
    exact ⟨s, exec_retrying sees (exec_locked_refused unchanged) fun _ _ _ => rfl, f, sees, rest⟩

/-- Whatever is done under locks is decided. -/
theorem decided : Locking (fun _ act => Settled act) fun _ act => Decided act where
  inside := settled
  around := settles fun _ _ => trivial
  growing inside := decided_growing inside
  editing r _ inside := decided_editing r inside

end Handle
end RecordFile
