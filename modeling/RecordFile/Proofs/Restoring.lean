import Mathlib
import RecordFile.Proofs.Programs
import RecordFile.Proofs.Tiling

/-! What failure leaves behind. Whatever a handle without guards locks around bodies it lets go again, and that
undoes just what locking did, so what is held after an operation is what was held before. A reservation that
fails has changed no byte either: once the chain has grown for it, nothing is left that could fail. -/
namespace RecordFile

namespace Handle

/-- If all that is locked for the handle lies in regions that it holds, the action leaves held what was held. -/
def Restores {α : Type} (h : Handle) (act : Action α) : Prop :=
  ∀ s, s.standing.Unguarded h.descriptor → (act.exec s).2.standing = s.standing

namespace Restores

variable {h : Handle} {r : Region} {α β : Type} {act : Action α}

theorem quiet (quiet : act.Quiet) : h.Restores act := fun s _ => quiet s

theorem bind {next : α → Action β} (first : h.Restores act) (rest : ∀ value, h.Restores (next value)) :
    h.Restores (act >>= next) := by
  intro s own
  have before := first s own
  rw [Action.exec_bind]
  rcases ran : act.exec s with ⟨fault | value, s'⟩
  · rw [ran] at before
    exact before
  · rw [ran] at before
    exact (rest value s' (before ▸ own)).trans before

theorem attempt {next : Except Fault α → Action β} (first : h.Restores act)
    (rest : ∀ result, h.Restores (next result)) : h.Restores (RecordFile.attempt act next) := by
  intro s own
  have before := first s own
  exact (rest _ _ (before ▸ own)).trans before

theorem ensuring {after : Action Unit} (first : h.Restores act) (last : h.Restores after) :
    h.Restores (RecordFile.ensuring act after) := by
  intro s own
  have before := first s own
  rw [Action.exec_ensuring (Prod.eta (act.exec s)).symm (Prod.eta (after.exec (act.exec s).2)).symm]
  exact (last _ (before ▸ own)).trans before

/-- The body is left with what it began with, so letting go of the region undoes just what taking it did. -/
theorem locked (inside : h.Restores act) : h.Restores (h.locked (m := StateM Store) r act) := by
  intro s own
  rw [Handle.locked, perform_eq]
  rcases h.exec_hold_cases r s with ⟨fault, s', ran, same⟩ | ⟨file, held, s', ran, granted, taken⟩
  · rw [Action.exec_bind_error ran]
    exact same
  · have kept := (inside s' (taken ▸ own.take granted)).trans taken
    obtain ⟨s'', ran', same⟩ := h.exec_letGo_taken r _ own granted kept
    rw [Action.exec_bind_ok ran, perform_eq, Action.exec_ensuring (Prod.eta (act.exec s')).symm ran']
    exact same

theorem editing {body : Vector UInt8 r.len → Action (Outcome α × Vector UInt8 r.len)}
    (inside : ∀ bytes, h.Restores (body bytes)) : h.Restores (h.editing (m := StateM Store) r body) := by
  refine locked (bind (.quiet h.keeps_position) fun saved => ensuring ?_ (.quiet (h.quiet.seek saved)))
  refine bind (.quiet (h.quiet.readAt _ _)) fun bytes => ?_
  split
  · refine bind (inside _) fun ended => ?_
    obtain ⟨outcome, edited⟩ := ended
    cases outcome with
    | keep value => exact fun _ _ => rfl
    | commit value => exact bind (.quiet (h.keeps_writeBack Store.blind_standing _ _)) fun _ _ _ => rfl
  · exact fun _ _ => rfl

/-- So does every program that locks for this handle only and has no guards. -/
theorem program {p : Program α} (plain : p.Keeps (fun h' _ => h' = h) fun _ _ => False) : h.Restores p.action := by
  induction p with
  | done result => exact fun _ _ => rfl
  | step act quiet next ih =>
    have done : h.Restores (RecordFile.attempt act fun result => (next result).action) :=
      attempt (.quiet quiet) fun result => ih result (plain result)
    exact done
  | locked h' r body next inside ih =>
    obtain ⟨rfl, kept, onward⟩ := plain
    have done : h'.Restores (RecordFile.attempt (h'.locked (m := StateM Store) r body.action) fun result =>
        (next result).action) := attempt (locked (inside kept)) fun result => ih result (onward result)
    exact done
  | editing h' r body next inside ih =>
    obtain ⟨rfl, kept, onward⟩ := plain
    have done : h'.Restores (RecordFile.attempt (h'.editing (m := StateM Store) r fun bytes =>
        (body bytes).action) fun result => (next result).action) :=
      attempt (editing fun bytes => inside bytes (kept bytes)) fun result => ih result (onward result)
    exact done
  | guard h r next ih => exact plain.1.elim
  | release g next ih => exact plain.1.elim

end Restores

variable (h : Handle)

theorem restores_locate (chain : Nat) (table : TableHeader) (record : UInt32) :
    h.Restores (h.locate chain table record) := by
  rw [← Program.action_locate]
  exact .program (Program.keeps_locate rfl)

theorem restores_addTable (recordSize : UInt32) : h.Restores (h.addTable recordSize) := by
  rw [← Program.action_addTable]
  exact .program (Program.keeps_addTable rfl)

theorem restores_reserve (head : Nat) : h.Restores (h.reserve head) := by
  rw [← Program.action_reserve]
  exact .program (Program.keeps_reserve rfl rfl)

theorem restores_prepare (head : Nat) (bytes : Vector UInt8 tableHeaderSize.toNat) :
    h.Restores (h.prepare head bytes) :=
  .bind (.quiet (Action.Keeps.orFault _ _)) fun table => .bind (.quiet (Action.Keeps.liftExcept _)) fun record =>
    .bind (h.restores_locate head table record) fun _ => .bind (.quiet (h.quiet.readTable head)) fun _ =>
      .quiet (Action.Keeps.pure _)

variable {h : Handle} {s s' : Store} {f : OpenFile} {c : Content} {L : Layout} {settings : Settings} {o : Nat}
  {b : Block} {fault : Fault}

/-- Whatever a reservation comes to, what was locked is locked, and only the bytes and the last error of the handle
can be other. If it fails the bytes are not. -/
theorem exec_reserve_unguarded (sees : h.Sees s f c) (laid : c.LaidOut L) (proper : L.Proper settings)
    (chunk : f.header.chunkSize = settings.chunkSize) (found : L.at? o = some b)
    (own : s.standing.Unguarded h.descriptor) :
    ∃ result s' c' e, (h.reserve o).exec s = (result, s') ∧ h.Leaves s { f with lastErrno := e } c' s.locks s' ∧
      ∀ fault, result = .error fault → c' = c := by
  have restored := h.restores_reserve o s own
  obtain ⟨blocks, chain⟩ := Layout.Chain.of_at? proper found
  rcases exec_reserve sees laid proper chunk found chain with
    ⟨_, record, _, offset, _, s', c', _, -, -, -, -, ran, left, -⟩ | ⟨fault, s', e, _, ran, left⟩
  · rw [ran] at restored
    have locks : s'.locks = s.locks := congrArg Standing.locks restored
    exact ⟨.ok { record, offset }, s', c', f.lastErrno, ran,
      ⟨left.sees, locks, left.others, left.files, left.directories⟩, nofun⟩
  · rw [ran] at restored
    have locks : s'.locks = s.locks := congrArg Standing.locks restored
    exact ⟨.error fault, s', c, e, ran, ⟨left.sees, locks, left.others, left.files, left.directories⟩,
      fun _ _ => rfl⟩

/-- A reservation that fails leaves nothing but the error that the handle remembers. -/
theorem exec_reserve_failed (sees : h.Sees s f c) (laid : c.LaidOut L) (proper : L.Proper settings)
    (chunk : f.header.chunkSize = settings.chunkSize) (found : L.at? o = some b)
    (own : s.standing.Unguarded h.descriptor) (ran : (h.reserve o).exec s = (.error fault, s')) :
    ∃ e, h.Leaves s { f with lastErrno := e } c s.locks s' := by
  obtain ⟨result, s₁, c', e, ran₁, left, kept⟩ := exec_reserve_unguarded sees laid proper chunk found own
  rw [ran] at ran₁
  cases ran₁
  exact ⟨e, kept fault rfl ▸ left⟩

end Handle

/-- Nothing is to be seen of what was tried, but that the file open under `d` may remember another error. -/
structure Store.Untouched (s s' : Store) (d : Nat) : Prop where
  contents : ∀ location, s'.content? location = s.content? location
  directories : s'.directories = s.directories
  locks : s'.locks = s.locks
  own : ∃ e, s'.openFile? d = (s.openFile? d).map fun file => { file with lastErrno := e }
  others : ∀ other, other ≠ d → s'.openFile? other = s.openFile? other

theorem Handle.Leaves.untouched {h : Handle} {s s' : Store} {f : OpenFile} {c : Content} {e : Option Int}
    (left : h.Leaves s { f with lastErrno := e } c s.locks s') (sees : h.Sees s f c) :
    s.Untouched s' h.descriptor where
  contents location := by
    by_cases here : location = f.location
    · rw [here, sees.content]
      exact left.sees.content
    · exact left.files location here
  directories := left.directories
  locks := left.locks
  own := ⟨e, by rw [sees.opened]; exact left.sees.opened⟩
  others := left.others

namespace History

variable {t : History} {L : Layout} {h : Handle} {head : Nat} {b : Block} {fault : Fault} {store : Store}

/-- Where nothing is locked a handle that holds nothing can lock growth, and the run goes on. -/
theorem Run.barred (run : Run Loose t) (mem : h ∈ t.handles) (unlocked : t.store.locks.entries = [])
    (idle : (t.store.openFile? h.descriptor).map OpenFile.held = some []) :
    ∃ s', (h.hold .growth).exec t.store = (.ok (), s') ∧ Run Loose { t with store := s' } ∧
      ∀ l ∈ s'.locks.entries, l.owner = h.descriptor := by
  obtain ⟨M, sound⟩ := run.sound
  obtain ⟨f, c, sees, -, place, -⟩ := Tracked.sees sound mem
  have held : f.held = [] := by
    rw [sees.opened] at idle
    exact Option.some.inj idle
  have free : h.Free t.store f .growth := by
    refine ⟨fun region mem => ?_, ?_⟩
    · rw [held] at mem
      cases mem
    · rw [LockTable.contended, unlocked]
      rfl
  obtain ⟨s', holds, left⟩ := Handle.exec_hold sees Region.growth_fits.1 Region.growth_fits.2 free
  refine ⟨s', holds, .meanwhile run (sound.undisturbed sees place left ⟨rfl, rfl⟩), fun l locked => ?_⟩
  rw [left.locks, LockTable.mem_add, unlocked] at locked
  rcases locked with rfl | none
  · rfl
  · cases none

/-- Over any run, and whatever others have locked or the handle itself holds, a reservation that fails leaves no
trace in the file, in the locks or in the handle. -/
theorem run_untouched (run : Run Loose t) (mem : h ∈ t.handles) (laid : t.LaidOut L) (found : L.at? head = some b)
    (own : t.store.standing.Unguarded h.descriptor)
    (failed : (h.reserve head).exec t.store = (.error fault, store)) : t.store.Untouched store h.descriptor := by
  obtain ⟨M, sound⟩ := run.sound
  rw [sound.unique laid] at found
  obtain ⟨f, c, sees, laid', -, chunk⟩ := Tracked.sees sound mem
  obtain ⟨e, left⟩ := Handle.exec_reserve_failed sees laid' sound.proper chunk found own failed
  exact left.untouched sees

theorem run_untouched_contested : ∃ store L b store', Run Loose { filled with store } ∧
    LaidOut { filled with store } L ∧ L.at? 0 = some b ∧ store.standing.Unguarded 0 ∧
    ((⟨0⟩ : Handle).reserve 0).exec store = (.error (.lockFailed .growth), store') ∧
    store.Untouched store' 0 := by
  -- The other handle locks growth, so there is nowhere to put the third slot.
  have seen : filled.store.locks.entries = [] ∧ (filled.store.openFile? 1).map OpenFile.held = some [] ∧
      (((⟨0⟩ : Handle).reserve 0).exec (((⟨1⟩ : Handle).hold .growth).exec filled.store).2).1 =
        .error (.lockFailed .growth) := by decide +kernel
  obtain ⟨s', holds, run, barred⟩ := run_filled.barred (h := ⟨1⟩) (by simp) seen.1 seen.2.1
  have failed := seen.2.2
  rw [holds] at failed
  obtain ⟨L, b, laid, found⟩ := run.first
  have own : s'.standing.Unguarded 0 := by
    intro file held _ l mem owner
    have other : l.owner = 1 := barred l mem
    rw [other] at owner
    cases owner
  rcases ran : ((⟨0⟩ : Handle).reserve 0).exec s' with ⟨result, store'⟩
  rw [ran] at failed
  obtain rfl : result = .error (.lockFailed .growth) := failed
  exact ⟨s', L, b, store', run, laid, found, own, ran, run_untouched run (by simp) laid found own ran⟩

end History
end RecordFile
