import Mathlib
import RecordFile.Proofs.Restoring

/-! Lock discipline of programs without guards. However bodies are nested, and however they end, the
regions held are apart, the system has locked just their bytes, and nothing is held in the end that was
not held before. -/
namespace RecordFile

theorem Region.lockSpan_of_word {r : Region} (some : r.len ≠ 0) (short : r.len ≤ maxOffset)
    (fits : r.stop ≤ maxOffset + 1) : r.lockSpan = .ok r := by
  rw [stop] at fits
  rw [lockSpan, if_neg (by omega), if_neg (by omega), if_neg some, if_neg (by omega)]

namespace Standing

variable {σ : Standing} {running : List (Handle × Region)} {h : Handle} {r : Region}

/-- The bodies that are running have their regions held. -/
def Backs (σ : Standing) (running : List (Handle × Region)) : Prop :=
  ∀ entry ∈ running, ∃ file held, σ.files entry.1.descriptor = some (file, held) ∧ entry.2 ∈ held

theorem Backs.take (backs : σ.Backs running) {file : Location} {held : List Region}
    (granted : σ.Grants h.descriptor file held r) :
    (σ.take h.descriptor file held r).Backs ((h, r) :: running) := by
  intro entry mem
  rcases List.mem_cons.mp mem with rfl | mem
  · exact ⟨file, _, files_take, List.mem_cons_self ..⟩
  · obtain ⟨file', held', opened, inside⟩ := backs entry mem
    by_cases here : entry.1.descriptor = h.descriptor
    · rw [here, granted.opened] at opened
      cases opened
      exact ⟨file, _, by rw [here, files_take], List.mem_cons_of_mem _ inside⟩
    · exact ⟨file', held', by rw [files_take_of_ne here, opened], inside⟩

theorem Grants.unique {d : Nat} {file file' : Location} {held held' : List Region}
    (granted : σ.Grants d file held r) (granted' : σ.Grants d file' held' r) :
    file' = file ∧ held' = held := by
  have opened := granted.opened
  rw [granted'.opened] at opened
  cases opened
  exact ⟨rfl, rfl⟩

end Standing

def Scene.InOrder (scene : Scene) : Prop :=
  ∀ p ∈ scene.points, p.store.standing.Disciplined ∧ p.store.standing.Backs p.running

/-- While just this is held, just these bodies run, and all that was seen was in order. -/
def Scene.At (σ : Standing) (running : List (Handle × Region)) (scene : Scene) (s : Store) : Prop :=
  s.standing = σ ∧ scene.running = running ∧ scene.InOrder

namespace Scene

open Work (Stays)

variable {α : Type} {σ : Standing} {running : List (Handle × Region)} {h : Handle} {r : Region}

theorem reads_at : Stays.Reads (Scene.At σ running) := by
  intro scene s s' same here
  exact ⟨same.trans here.1, here.2⟩

theorem stays_point (ok : σ.Disciplined) (backs : σ.Backs running) :
    Stays (Scene.At σ running) (unfailing Scene.watcher.point) := by
  rintro scene s ⟨rfl, rfl, seen⟩
  refine ⟨rfl, rfl, fun p mem => ?_⟩
  rcases List.mem_cons.mp mem with rfl | mem
  · exact ⟨ok, backs⟩
  · exact seen p mem

theorem stays_during {body : Work Scene α} (inside : Stays (Scene.At σ ((h, r) :: running)) body) :
    Stays (Scene.At σ running) (Scene.watcher.during h r body) := by
  rintro scene s ⟨held, rfl, seen⟩
  obtain ⟨after, run, seen'⟩ := inside { scene with running := (h, r) :: scene.running } s ⟨held, rfl, seen⟩
  exact ⟨after, congrArg List.tail run, seen'⟩

/-- What holds while the region is held, if it can be: the region is added, and the body runs under it.
Letting go of it undoes that. -/
theorem under_region (ok : σ.Disciplined) (backs : σ.Backs running) (h : Handle) (r : Region) :
    ∃ J : Scene → Store → Prop, Stays.Reads J ∧
      (∀ x s s', Scene.At σ running x s → (h.hold r).exec s = (.ok (), s') → J x s') ∧
      (∀ x s, J x s → Scene.At σ running x ((h.letGo r).exec s).2) ∧
      ∀ {β : Type} (body : Work Scene β),
        (∀ σ' running', σ'.Disciplined → σ'.Backs running' → Stays (Scene.At σ' running') body) →
        Stays J (Scene.watcher.during h r body) := by
  by_cases grants : ∃ file held, σ.Grants h.descriptor file held r
  case neg =>
    -- The body never runs.
    refine ⟨fun _ _ => False, fun _ _ _ _ never => never, fun x s s' here held => ?_,
      fun _ _ never => never.elim, fun _ _ _ _ never => never.elim⟩
    rcases h.exec_hold_cases r s with ⟨fault, s'', ran, -⟩ | ⟨file, held, s'', ran, granted, -⟩
    · rw [held] at ran
      cases ran
    · exact grants ⟨file, held, here.1 ▸ granted⟩
  case pos =>
    obtain ⟨file, held, granted⟩ := grants
    refine ⟨Scene.At (σ.take h.descriptor file held r) running, reads_at, fun x s s' here holds => ?_,
      fun x s inside => ?_, fun body inside => ?_⟩
    · obtain ⟨rfl, rest⟩ := here
      rcases h.exec_hold_cases r s with ⟨fault, s'', ran, -⟩ | ⟨file', held', s'', ran, granted', taken⟩
      · rw [holds] at ran
        cases ran
      · rw [holds] at ran
        cases ran
        obtain ⟨rfl, rfl⟩ := granted.unique granted'
        exact ⟨taken, rest⟩
    · obtain ⟨taken, rest⟩ := inside
      obtain ⟨s', ran, same⟩ := h.exec_letGo_taken r s (ok.unguarded _) granted taken
      rw [ran]
      exact ⟨same, rest⟩
    · exact stays_during (inside _ _ (ok.take granted) (backs.take granted))

theorem refused_at (x : Scene) (s : Store) (fault : Fault) (s' : Store) (here : Scene.At σ running x s)
    (ran : (h.hold r).exec s = (.error fault, s')) : Scene.At σ running x s' := by
  rcases h.exec_hold_cases r s with ⟨fault', s'', ran', same⟩ | ⟨file, held, s'', ran', -⟩
  · rw [ran] at ran'
    cases ran'
    exact reads_at x s s' same here
  · rw [ran] at ran'
    cases ran'

end Scene

namespace Program

open Work (Stays)

variable {α : Type}

/-- One step of a program, and with it the whole program, leaves held what was held. -/
theorem stays_watched (p : Program α) (plain : p.Keeps (fun _ _ => True) fun _ _ => False) :
    ∀ σ running, σ.Disciplined → σ.Backs running → Stays (Scene.At σ running) p.watched := by
  induction p with
  | done result =>
    intro σ running ok backs
    exact .bind (Scene.stays_point ok backs) fun _ _ _ here => here
  | step act quiet next ih =>
    intro σ running ok backs
    refine .bind (Scene.stays_point ok backs) fun _ => .attempt (.quiet Scene.reads_at quiet) fun result => ?_
    exact ih result (plain result) σ running ok backs
  | locked h r body next inside ih =>
    intro σ running ok backs
    obtain ⟨-, kept, onward⟩ := plain
    obtain ⟨J, -, taken, given, under⟩ := Scene.under_region ok backs h r
    refine .bind (Scene.stays_point ok backs) fun _ => .attempt ?_ fun result => ?_
    · exact .locked Scene.refused_at taken (under _ (inside kept)) given
    · exact ih result (onward result) σ running ok backs
  | editing h r body next inside ih =>
    intro σ running ok backs
    obtain ⟨-, kept, onward⟩ := plain
    obtain ⟨J, reads, taken, given, under⟩ := Scene.under_region ok backs h r
    refine .bind (Scene.stays_point ok backs) fun _ => .attempt ?_ fun result => ?_
    · exact .editing reads Scene.refused_at taken (fun bytes => under _ (inside bytes (kept bytes))) given
    · exact ih result (onward result) σ running ok backs
  | guard h r next ih => exact plain.1.elim
  | release g next ih => exact plain.1.elim

end Program

namespace Handle

variable {h : Handle} {r : Region} {s : Store} {f : OpenFile}

/-- The region is refused: no body is run, and nothing changes. -/
structure Refuses (h : Handle) (r : Region) (s : Store) (fault : Fault) : Prop where
  locked : ∀ {α : Type} (body : Action α), Action.exec (h.locked r body) s = (.error fault, s)
  editing : ∀ {α : Type} (body : Vector UInt8 r.len → Action (Outcome α × Vector UInt8 r.len)),
    Action.exec (h.editing (m := StateM Store) r body) s = (.error fault, s)

theorem refuses_of_hold {fault : Fault} (refused : (h.hold r).exec s = (.error fault, s)) :
    h.Refuses r s fault where
  locked _ := exec_locked_refused refused
  editing _ := exec_locked_refused refused

theorem exec_hold_own (opened : s.openFile? h.descriptor = some f) (some : r.len ≠ 0)
    (own : ∃ region ∈ f.held, region.Overlaps r) :
    (h.hold r).exec s = (.error (.regionAlreadyHeld r), s) := by
  obtain ⟨region, mem, meet⟩ := own
  have any : (f.held.any fun region => decide (region.Overlaps r)) = true :=
    List.any_eq_true.mpr ⟨region, mem, decide_eq_true meet⟩
  have seen := exec_file_opened opened
  simp only [hold, if_neg some]
  rw [Action.exec_bind_ok seen, if_pos any]
  rfl

theorem exec_hold_free (opened : s.openFile? h.descriptor = some f) (some : r.len ≠ 0)
    (free : ∀ region ∈ f.held, ¬ region.Overlaps r) {fault : Fault} {s' : Store}
    (refused : (h.recording (h.lockBytes r)).exec s = (.error fault, s')) :
    (h.hold r).exec s = (.error fault, s') := by
  have none : ¬ (f.held.any fun region => decide (region.Overlaps r)) = true := by
    rw [List.any_eq_true]
    rintro ⟨region, mem, meet⟩
    exact free region mem (of_decide_eq_true meet)
  have seen := exec_file_opened opened
  simp only [hold, if_neg some]
  rw [Action.exec_bind_ok seen, if_neg none]
  exact Action.exec_bind_error refused _

theorem exec_lockBytes_contended (opened : s.openFile? h.descriptor = some f) {span : Region}
    (spanned : r.lockSpan = .ok span)
    (contended : s.locks.contended h.descriptor f.location span = true) :
    (h.lockBytes r).exec s = (.error (.lockFailed r), s) := by
  have seen := exec_file_opened opened
  rw [lockBytes, spanned, Action.exec_bind_ok (Action.exec_orFault_ok ..), Action.exec_bind_ok seen,
    Action.exec_bind_ok (Action.exec_get s)]
  simp only [contended, if_true]
  rw [Action.exec_bind_error (Action.exec_throw ..)]

theorem exec_hold_contended (opened : s.openFile? h.descriptor = some f) (some : r.len ≠ 0)
    (spanned : r.lockSpan = .ok r) (free : ∀ region ∈ f.held, ¬ region.Overlaps r)
    (contended : s.locks.contended h.descriptor f.location r = true) :
    (h.hold r).exec s = (.error (.lockFailed r), s) := by
  refine exec_hold_free opened some free ?_
  rw [recording, Action.exec_tryCatch, exec_lockBytes_contended opened spanned contended]
  rfl

/-- A region of more bytes than a length can say is not even asked of the system. -/
theorem exec_locked_overlong (opened : s.openFile? h.descriptor = some f)
    (free : ∀ region ∈ f.held, ¬ region.Overlaps ⟨0, maxOffset + 1⟩) {α : Type} (body : Action α) :
    ∃ s', Action.exec (h.locked ⟨0, maxOffset + 1⟩ body) s = (.error (.system .lockLengthRange), s') ∧
      s'.standing = s.standing := by
  let s' := s.mapOpen h.descriptor fun file => { file with lastErrno := none }
  have failed : (h.fail .lockLengthRange : Action Unit).exec s =
      (.error (.system .lockLengthRange), s') := by
    unfold fail
    exact Action.exec_bind_ok (exec_update_opened opened _) _
  have recorded : (h.recording (h.lockBytes ⟨0, maxOffset + 1⟩)).exec s =
      (.error (.system .lockLengthRange), s') := by
    rw [recording, Action.exec_tryCatch]
    exact failed
  refine ⟨s', ?_, Store.standing_mapOpen fun _ => ⟨rfl, rfl⟩⟩
  exact Action.exec_bind_error (exec_hold_free opened (Nat.succ_ne_zero _) free recorded) _

end Handle

/-- What lock discipline comes to at a moment of a run. -/
structure Point.Disciplined (p : Point) : Prop where
  /-- The regions that a handle holds are apart. -/
  apart : ∀ d f, p.store.openFile? d = some f → f.held.Pairwise fun r r' => ¬ r.Overlaps r'
  /-- The system has locked their bytes for the handle, and no others. -/
  owned : ∀ d f, p.store.openFile? d = some f → ∀ byte,
    p.store.locks.Owns d byte ↔ ∃ r ∈ f.held, byte ∈ r
  /-- A body that is running owns its region. -/
  running : ∀ (h : Handle) r, (h, r) ∈ p.running → ∀ byte ∈ r, p.store.locks.Owns h.descriptor byte
  /-- Bodies that are running for two handles of a file have regions apart. -/
  exclusive : ∀ (h : Handle) r (h' : Handle) r' f f', (h, r) ∈ p.running → (h', r') ∈ p.running →
    h.descriptor ≠ h'.descriptor → p.store.openFile? h.descriptor = some f →
    p.store.openFile? h'.descriptor = some f' → f.location = f'.location → ¬ r.Overlaps r'
  /-- A region of which the handle holds a byte is refused, whatever the system has locked. -/
  own : ∀ (h : Handle) f r, p.store.openFile? h.descriptor = some f → r.len ≠ 0 →
    (∃ region ∈ f.held, region.Overlaps r) →
    ∀ locks, h.Refuses r { p.store with locks } (.regionAlreadyHeld r)
  /-- A region of which only other handles hold a byte is refused as contended. -/
  contended : ∀ (h : Handle) f r (h' : Handle) f', p.store.openFile? h.descriptor = some f →
    r.len ≠ 0 → r.len < 2 ^ 63 → r.stop ≤ 2 ^ 63 → (∀ region ∈ f.held, ¬ region.Overlaps r) → h'.descriptor ≠ h.descriptor →
    p.store.openFile? h'.descriptor = some f' → f'.location = f.location →
    (∃ region ∈ f'.held, region.Overlaps r) → h.Refuses r p.store (.lockFailed r)
  /-- The one region of `2 ^ 63` bytes is refused for its length. -/
  overlong : ∀ (h : Handle) f, p.store.openFile? h.descriptor = some f →
    (∀ region ∈ f.held, ¬ region.Overlaps ⟨0, 2 ^ 63⟩) → ∀ {α : Type} (body : Action α),
    ∃ store, Action.exec (h.locked ⟨0, 2 ^ 63⟩ body) p.store =
      (.error (.system .lockLengthRange), store) ∧ store.standing = p.store.standing

theorem Point.disciplined {p : Point} (ok : p.store.standing.Disciplined)
    (backs : p.store.standing.Backs p.running) : p.Disciplined := by
  have held : ∀ {d f}, p.store.openFile? d = some f →
      p.store.standing.files d = some (f.location, f.held) := Store.files_standing
  have runs : ∀ {h r f}, (h, r) ∈ p.running → p.store.openFile? h.descriptor = some f → r ∈ f.held := by
    intro h r f mem opened
    obtain ⟨file, held', there, inside⟩ := backs (h, r) mem
    rw [held opened] at there
    cases there
    exact inside
  refine ⟨?_, ?_, ?_, ?_, ?_, ?_, ?_⟩
  · intro d f opened
    exact ok.apart d _ _ (held opened)
  · intro d f opened byte
    exact ok.owns_iff (held opened)
  · intro h r mem byte inside
    obtain ⟨file, held', there, mem'⟩ := backs (h, r) mem
    exact (ok.owns_iff there).mpr ⟨r, mem', inside⟩
  · intro h r h' r' f f' mem mem' differ opened opened' place
    have there := held opened'
    rw [← place] at there
    exact ok.apart_files (held opened) there differ (runs mem opened) (runs mem' opened')
  · intro h f r opened some own locks
    exact Handle.refuses_of_hold (Handle.exec_hold_own (s := { p.store with locks }) opened some own)
  · intro h f r h' f' opened some short fits free differ opened' place own
    obtain ⟨region, mem, meet⟩ := own
    have word : maxOffset + 1 = 2 ^ 63 := rfl
    have entry : (⟨h'.descriptor, f'.location, region⟩ : Lock) ∈ p.store.locks.entries :=
      (ok.backed _).mpr ⟨_, held opened', mem⟩
    refine Handle.refuses_of_hold <|
      Handle.exec_hold_contended opened some (Region.lockSpan_of_word some ?_ ?_) free ?_
    · omega
    · omega
    · exact LockTable.contended_iff.mpr ⟨_, entry, place, differ, meet⟩
  · intro h f opened free α body
    exact Handle.exec_locked_overlong opened free body

theorem Store.idle_of_opened {s : Store} (locks : s.locks.entries = [])
    (held : ∀ entry ∈ s.opened, ∀ file ∈ entry, file.held = []) : s.standing.Idle := by
  refine ⟨locks, fun d file regions opened => ?_⟩
  obtain ⟨f, there, -, rfl⟩ := openFile?_of_files opened
  exact held _ (List.mem_of_getElem? (Option.join_eq_some_iff.mp there)) f rfl

theorem History.idle_paired : paired.store.standing.Idle :=
  Store.idle_of_opened (by decide +kernel) (by decide +kernel)

namespace Program

variable {α : Type}

/-- Where nothing is held, a program without guards keeps lock discipline at every moment, and in the
end nothing is held. The operations that lock are such programs. -/
theorem run_disciplined (p : Program α) (plain : p.Keeps (fun _ _ => True) fun _ _ => False) {s : Store}
    (idle : s.standing.Idle) :
    (∀ point ∈ (p.watch s).1.points, point.Disciplined) ∧ (p.watch s).2.standing = s.standing ∧
      (p.watch s).2 = (p.action.exec s).2 ∧
      (∀ h recordSize, (addTable h recordSize).action = h.addTable recordSize) ∧
      (∀ h chain table record, (locate h chain table record).action = h.locate chain table record) ∧
      ∀ h head (body : TableHeader → Slot → Program (Outcome α × TableHeader)),
        (reserveWith h head body).action =
          h.reserveWith (m := StateM Store) head fun table slot => (body table slot).action := by
  have start : Scene.At s.standing [] {} s := ⟨rfl, rfl, nofun⟩
  obtain ⟨same, -, seen⟩ := stays_watched p plain s.standing [] idle.disciplined nofun {} s start
  refine ⟨fun point mem => ?_, same, p.watch_store s, action_addTable, action_locate, action_reserveWith⟩
  obtain ⟨ok, backs⟩ := seen point mem
  exact Point.disciplined ok backs

/-- A reservation in whose body another handle asks for a number of the same table. -/
def contest : Program Slot :=
  reserveWith ⟨0⟩ 0 fun table slot =>
    (reserve ⟨1⟩ 0).andThen fun _ => done (.ok (.commit slot, { table with lastRecord := slot.record }))

theorem run_disciplined_contest :
    History.paired.store.standing.Idle ∧
      (contest.Keeps (fun _ _ => True) fun _ _ => False) ∧
      ∀ point ∈ (contest.watch History.paired.store).1.points, point.Disciplined := by
  have plain : contest.Keeps (fun _ _ => True) fun _ _ => False :=
    keeps_reserveWith trivial trivial fun _ _ =>
      keeps_andThen (keeps_reserve trivial trivial) fun _ => trivial
  exact ⟨History.idle_paired, plain, (run_disciplined contest plain History.idle_paired).1⟩

/-- The longest region is not refused as contended, though another handle holds bytes of it. -/
theorem overlong_not_contended :
    Region.Overlaps ⟨40, 8⟩ ⟨0, 2 ^ 63⟩ ∧ Region.stop ⟨0, 2 ^ 63⟩ ≤ 2 ^ 63 ∧
      (Action.exec ((⟨0⟩ : Handle).locked ⟨40, 8⟩
          (attempt ((⟨1⟩ : Handle).locked ⟨0, 2 ^ 63⟩ (pure ())) fun result => pure result))
        History.paired.store).1 = .ok (.error (.system .lockLengthRange)) := by
  decide +kernel

end Program
end RecordFile
