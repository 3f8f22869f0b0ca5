import Mathlib
import RecordFile.Guard
import RecordFile.Proofs.Reserving
import RecordFile.Proofs.Working

/-! Programs that lock. A program is a tree of steps in which bodies are nested under the regions they
are run under; running it runs the real operations, and it may be watched while it runs. -/
namespace RecordFile

/-- Steps by any number of handles. How a step ended decides how it goes on. -/
inductive Program : Type → Type 1
  | done {α : Type} (result : Except Fault α) : Program α
  | step {α β : Type} (act : Action β) (quiet : act.Quiet) (next : Except Fault β → Program α) : Program α
  | locked {α β : Type} (h : Handle) (r : Region) (body : Program β) (next : Except Fault β → Program α) :
      Program α
  | editing {α β : Type} (h : Handle) (r : Region)
      (body : Vector UInt8 r.len → Program (Outcome β × Vector UInt8 r.len))
      (next : Except Fault β → Program α) : Program α
  | guard {α : Type} (h : Handle) (r : Region) (next : Except Fault Guard → Program α) : Program α
  | release {α : Type} (g : Guard) (next : Except Fault Unit → Program α) : Program α

/-- What somebody does who looks on: between steps, and where bodies begin and end. -/
structure Watcher (m : Type → Type) where
  point : m Unit
  enter : Handle → Region → m Unit
  leave : m Unit

def Watcher.during {m : Type → Type} [Monad m] {α : Type} (w : Watcher m) (h : Handle) (r : Region)
    (body : ExceptT Fault m α) : ExceptT Fault m α := ExceptT.mk do
  w.enter h r
  let result ← body.run
  w.leave
  return result

/-- A moment of a run: the store, and the bodies that are running, with the regions they run under. -/
structure Point where
  store : Store
  running : List (Handle × Region)

/-- What was seen of a run so far, the latest first. -/
structure Scene where
  running : List (Handle × Region) := []
  points : List Point := []

def Scene.watcher : Watcher (StateT Scene (StateM Store)) where
  point := do
    let store ← (get : StateM Store Store)
    modify fun scene => { scene with points := ⟨store, scene.running⟩ :: scene.points }
  enter h r := modify fun scene => { scene with running := (h, r) :: scene.running }
  leave := modify fun scene => { scene with running := scene.running.tail }

namespace Program

variable {α β γ : Type}

def run {m : Type → Type} [Monad m] [MonadLiftT (StateM Store) m] (w : Watcher m) {α : Type} :
    Program α → ExceptT Fault m α
  | done result => do
    unfailing w.point
    ExceptT.mk (pure result)
  | step act _ next => do
    unfailing w.point
    attempt (perform act) fun result => (next result).run w
  | locked h r body next => do
    unfailing w.point
    attempt (h.locked r (w.during h r (body.run w))) fun result => (next result).run w
  | editing h r body next => do
    unfailing w.point
    attempt (h.editing r fun bytes => w.during h r ((body bytes).run w)) fun result => (next result).run w
  | guard h r next => do
    unfailing w.point
    attempt (perform (Guard.acquire h r)) fun result => (next result).run w
  | release g next => do
    unfailing w.point
    attempt (perform g.release) fun result => (next result).run w

/-- The program with nobody looking on. -/
def action (p : Program α) : Action α := p.run (m := StateM Store) ⟨pure (), fun _ _ => pure (), pure ()⟩

def watched (p : Program α) : Work Scene α := p.run Scene.watcher

def watch (p : Program α) (s : Store) : Scene × Store :=
  ((Work.exec p.watched {} s).1.2, (Work.exec p.watched {} s).2)

/-- Whether the program keeps to regions of the one kind with its bodies, and of the other with guards. -/
def Keeps (bodies guards : Handle → Region → Prop) {α : Type} : Program α → Prop
  | done _ => True
  | step _ _ next => ∀ result, (next result).Keeps bodies guards
  | locked h r body next =>
    bodies h r ∧ body.Keeps bodies guards ∧ ∀ result, (next result).Keeps bodies guards
  | editing h r body next =>
    bodies h r ∧ (∀ bytes, (body bytes).Keeps bodies guards) ∧ ∀ result, (next result).Keeps bodies guards
  | guard h r next => guards h r ∧ ∀ result, (next result).Keeps bodies guards
  | release g next => guards g.handle g.region ∧ ∀ result, (next result).Keeps bodies guards

def andThen {α : Type} : Program α → (Except Fault α → Program β) → Program β
  | done result, rest => rest result
  | step act quiet next, rest => step act quiet fun result => (next result).andThen rest
  | locked h r body next, rest => locked h r body fun result => (next result).andThen rest
  | editing h r body next, rest => editing h r body fun result => (next result).andThen rest
  | guard h r next, rest => guard h r fun result => (next result).andThen rest
  | release g next, rest => release g fun result => (next result).andThen rest

def bind (p : Program α) (next : α → Program β) : Program β :=
  p.andThen fun
    | .ok value => next value
    | .error fault => done (.error fault)

theorem action_andThen (p : Program α) (rest : Except Fault α → Program β) :
    (p.andThen rest).action = attempt p.action fun result => (rest result).action := by
  induction p with
  | done result => rfl
  | step act quiet next ih => exact congrArg (attempt act) (funext fun result => ih result rest)
  | locked h r body next _ ih =>
    exact congrArg (attempt (h.locked r body.action)) (funext fun result => ih result rest)
  | editing h r body next _ ih =>
    exact congrArg (attempt (h.editing r fun bytes => (body bytes).action))
      (funext fun result => ih result rest)
  | guard h r next ih => exact congrArg (attempt (Guard.acquire h r)) (funext fun result => ih result rest)
  | release g next ih => exact congrArg (attempt g.release) (funext fun result => ih result rest)

theorem action_editing {h : Handle} {r : Region}
    (body : Vector UInt8 r.len → Program (Outcome α × Vector UInt8 r.len)) :
    (editing h r body done).action = h.editing (m := StateM Store) r fun bytes => (body bytes).action := rfl

theorem action_bind (p : Program α) (next : α → Program β) :
    (p.bind next).action = p.action >>= fun value => (next value).action := by
  rw [bind, action_andThen]
  have ends : (p.action >>= fun value => (next value).action) =
      ExceptT.mk (p.action.run >>= fun result => ExceptT.bindCont (fun value => (next value).action) result) :=
    rfl
  rw [ends, attempt]
  refine congrArg (fun rest => ExceptT.mk (p.action.run >>= rest)) (funext fun result => ?_)
  cases result <;> rfl

/-- Whoever looks on sees what the program does when nobody looks. -/
theorem mirrors_watched (p : Program α) : Work.Mirrors p.watched p.action := by
  have during : ∀ {β : Type} {work : Work Scene β} {act : Action β} (h : Handle) (r : Region),
      Work.Mirrors work act → Work.Mirrors (Scene.watcher.during h r work) act :=
    fun h r inside x s => inside { x with running := (h, r) :: x.running } s
  have point : ∀ {β : Type} {work : Work Scene β} {act : Action β}, Work.Mirrors work act →
      Work.Mirrors (do unfailing Scene.watcher.point; work) act :=
    fun inside x s => inside { x with points := ⟨s, x.running⟩ :: x.points } s
  induction p with
  | done result => exact fun x s => rfl
  | step act quiet next ih => exact point (.attempt (.perform act) ih)
  | locked h r body next inside ih => exact point (.attempt (.locked (during h r inside)) ih)
  | editing h r body next inside ih =>
    exact point (.attempt (.editing fun bytes => during h r (inside bytes)) ih)
  | guard h r next ih => exact point (.attempt (.perform _) ih)
  | release g next ih => exact point (.attempt (.perform _) ih)

theorem watch_store (p : Program α) (s : Store) : (p.watch s).2 = (p.action.exec s).2 :=
  congrArg Prod.snd (p.mirrors_watched {} s)

/-! ### The operations that lock -/

def retryFrom (p : Program α) : Nat → Program α
  | 0 => p
  | left + 1 => p.andThen fun
    | .error fault => if fault.isRetryable then p.retryFrom left else done (.error fault)
    | .ok value => done (.ok value)

def retrying (h : Handle) (p : Program α) : Program α :=
  (step h.file h.keeps_file done).bind fun file => p.retryFrom (file.settings.backoff.attempts.toNat - 1)

def growing (h : Handle) {act : Action α} (quiet : act.Quiet) : Program α :=
  retrying h (locked h .growth (step act quiet done) done)

def locate (h : Handle) (chain : Nat) (table : TableHeader) (record : UInt32) : Program Nat :=
  (done table.slotSize).bind fun slotSize =>
    if record = 0 then done (.error (.parameter .recordZero)) else
      (step _ (h.quiet.search chain slotSize record.toNat 1) done).bind fun
        | .slot offset => done (.ok offset)
        | .beyond tail start =>
          (step _ h.quiet.chunkSize done).bind fun chunkSize =>
            (done (growthSize (record.toNat - start + 1) slotSize chunkSize)).bind fun size =>
              (growing h (h.quiet.appendAfter tail (.data size (UInt64.ofNat start)))).bind fun block =>
                (step _ (h.quiet.search block.start slotSize record.toNat start) done).bind fun
                  | .slot offset => done (.ok offset)
                  | .beyond tail _ => done (.error (.corruptChain (.unresolved tail record.toNat)))

def addTable (h : Handle) (recordSize : UInt32) : Program Extent :=
  if recordSize = 0 then done (.error .variableLength) else
    (step _ h.quiet.chunkSize done).bind fun chunkSize =>
      let size := roundUp (tableHeaderSize.toNat + (recordSize.toNat + presenceSize)) chunkSize.toNat
      if 0x100000000 ≤ size then done (.error (.parameter (.recordTooLarge recordSize))) else
        growing h (h.quiet.append (.table (UInt32.ofNat size) recordSize))

def reserveWith (h : Handle) (head : Nat) (body : TableHeader → Slot → Program (Outcome α × TableHeader)) :
    Program α :=
  editing h (.head head) (fun bytes =>
    (done ((TableHeader.decode bytes.toList).mapError .corruptHeader)).bind fun table =>
      (done table.nextRecord).bind fun record =>
        (locate h head table record).bind fun offset =>
          (step _ (h.quiet.readTable head) done).bind fun fresh =>
            (body fresh { record, offset }).bind fun ended =>
              done (.ok (ended.1, if ended.1.isCommit then ended.2.encodeVector else bytes))) done

def reserve (h : Handle) (head : Nat) : Program Slot :=
  reserveWith h head fun table slot => done (.ok (.commit slot, { table with lastRecord := slot.record }))

theorem action_retryFrom (p : Program α) (b : Backoff) (left retry : Nat) :
    (p.retryFrom left).action = b.retryFrom (m := StateM Store) (fun _ => pure ()) p.action left retry := by
  induction left generalizing retry with
  | zero => rfl
  | succ left ih =>
    rw [retryFrom, action_andThen, Backoff.retryFrom, attempt]
    refine congrArg (fun rest => ExceptT.mk (p.action.run >>= rest)) (funext fun result => ?_)
    cases result with
    | ok value => rfl
    | error fault =>
      simp only
      split
      · rw [ih (retry + 1)]
        rfl
      · rfl

theorem action_retrying (h : Handle) (p : Program α) :
    (retrying h p).action = h.retrying (m := StateM Store) (fun _ => pure ()) p.action := by
  rw [retrying, action_bind]
  refine bind_congr fun file => ?_
  exact action_retryFrom p file.settings.backoff _ 1

theorem action_growing (h : Handle) {act : Action α} (quiet : act.Quiet) :
    (growing h quiet).action = h.growing (m := StateM Store) act := action_retrying h _

theorem liftM_eq (result : Except Fault α) : (liftM result : Action α) = (done result).action := by
  cases result <;> rfl

theorem action_locate (h : Handle) (chain : Nat) (table : TableHeader) (record : UInt32) :
    (locate h chain table record).action = h.locate chain table record := by
  rw [locate, action_bind, ← liftM_eq, Handle.locate]
  refine bind_congr fun slotSize => ?_
  by_cases zero : record = 0
  · simp only [if_pos zero]
    rfl
  simp only [if_neg zero]
  rw [action_bind]
  refine bind_congr fun place => ?_
  cases place with
  | slot offset => rfl
  | beyond tail start =>
    simp only
    rw [action_bind]
    refine bind_congr fun chunkSize => ?_
    rw [action_bind, ← liftM_eq]
    refine bind_congr fun size => ?_
    rw [action_bind, action_growing]
    refine bind_congr fun block => ?_
    rw [action_bind]
    refine bind_congr fun place => ?_
    cases place <;> rfl

theorem action_addTable (h : Handle) (recordSize : UInt32) :
    (addTable h recordSize).action = h.addTable recordSize := by
  rw [addTable, Handle.addTable]
  by_cases zero : recordSize = 0
  · simp only [if_pos zero]
    rfl
  simp only [if_neg zero]
  rw [action_bind]
  refine bind_congr fun chunkSize => ?_
  split
  · rfl
  · exact action_growing h _

theorem action_reserveWith (h : Handle) (head : Nat)
    (body : TableHeader → Slot → Program (Outcome α × TableHeader)) :
    (reserveWith h head body).action =
      h.reserveWith (m := StateM Store) head fun table slot => (body table slot).action := by
  rw [reserveWith, action_editing]
  refine congrArg (h.editing (m := StateM Store) (.head head)) (funext fun bytes => ?_)
  rw [action_bind]
  refine bind_congr fun table => ?_
  rw [action_bind, ← liftM_eq]
  refine bind_congr fun record => ?_
  rw [action_bind, action_locate]
  refine bind_congr fun offset => ?_
  rw [action_bind]
  refine bind_congr fun fresh => ?_
  rw [action_bind]
  rfl

theorem action_reserve (h : Handle) (head : Nat) : (reserve h head).action = h.reserve head :=
  action_reserveWith h head _

/-! ### The regions they keep to -/

section Keeps

variable {bodies guards : Handle → Region → Prop} {h : Handle}

theorem keeps_andThen {p : Program α} {rest : Except Fault α → Program β} (first : p.Keeps bodies guards)
    (more : ∀ result, (rest result).Keeps bodies guards) : (p.andThen rest).Keeps bodies guards := by
  induction p with
  | done result => exact more result
  | step act quiet next ih => exact fun result => ih result (first result) more
  | locked h r body next _ ih =>
    obtain ⟨kept, inside, next⟩ := first
    exact ⟨kept, inside, fun result => ih result (next result) more⟩
  | editing h r body next _ ih =>
    obtain ⟨kept, inside, next⟩ := first
    exact ⟨kept, inside, fun result => ih result (next result) more⟩
  | guard h r next ih => exact ⟨first.1, fun result => ih result (first.2 result) more⟩
  | release g next ih => exact ⟨first.1, fun result => ih result (first.2 result) more⟩

theorem keeps_bind {p : Program α} {next : α → Program β} (first : p.Keeps bodies guards)
    (more : ∀ value, (next value).Keeps bodies guards) : (p.bind next).Keeps bodies guards := by
  refine keeps_andThen first fun result => ?_
  cases result with
  | ok value => exact more value
  | error fault => trivial

theorem keeps_single {act : Action α} (quiet : act.Quiet) : (step act quiet done).Keeps bodies guards :=
  fun _ => trivial

theorem keeps_growing {act : Action α} (quiet : act.Quiet) (growth : bodies h .growth) :
    (growing h quiet).Keeps bodies guards := by
  refine keeps_bind (keeps_single _) fun file => ?_
  induction file.settings.backoff.attempts.toNat - 1 with
  | zero => exact ⟨growth, keeps_single _, fun _ => trivial⟩
  | succ left ih =>
    refine keeps_andThen ⟨growth, keeps_single _, fun _ => trivial⟩ fun result => ?_
    cases result with
    | ok value => trivial
    | error fault =>
      simp only
      split
      · exact ih
      · trivial

theorem keeps_locate {chain : Nat} {table : TableHeader} {record : UInt32} (growth : bodies h .growth) :
    (locate h chain table record).Keeps bodies guards := by
  refine keeps_bind trivial fun slotSize => ?_
  split
  · trivial
  refine keeps_bind (keeps_single _) fun place => ?_
  cases place with
  | slot offset => trivial
  | beyond tail start =>
    refine keeps_bind (keeps_single _) fun chunkSize => keeps_bind trivial fun size =>
      keeps_bind (keeps_growing _ growth) fun block => keeps_bind (keeps_single _) fun place => ?_
    cases place <;> trivial

theorem keeps_addTable {recordSize : UInt32} (growth : bodies h .growth) :
    (addTable h recordSize).Keeps bodies guards := by
  rw [addTable]
  split
  · trivial
  refine keeps_bind (keeps_single _) fun chunkSize => ?_
  simp only
  split
  · trivial
  · exact keeps_growing _ growth

theorem keeps_reserveWith {head : Nat} {body : TableHeader → Slot → Program (Outcome α × TableHeader)}
    (own : bodies h (.head head)) (growth : bodies h .growth)
    (inside : ∀ table slot, (body table slot).Keeps bodies guards) :
    (reserveWith h head body).Keeps bodies guards := by
  refine ⟨own, fun bytes => ?_, fun _ => trivial⟩
  exact keeps_bind trivial fun table => keeps_bind trivial fun record =>
    keeps_bind (keeps_locate growth) fun offset => keeps_bind (keeps_single _) fun fresh =>
      keeps_bind (inside fresh _) fun _ => trivial

theorem keeps_reserve {head : Nat} (own : bodies h (.head head)) (growth : bodies h .growth) :
    (reserve h head).Keeps bodies guards :=
  keeps_reserveWith own growth fun _ _ => trivial

end Keeps

end Program
end RecordFile
