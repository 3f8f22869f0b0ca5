import Mathlib
import RecordFile.Proofs.Discipline
import RecordFile.Proofs.Issuing

/-! Reservations within reservations. A script reserves, adds tables and runs scripts of the same kind in
the bodies of its reservations, through any handles of a file. While it runs, the regions held are the
heads of the tables whose reservations are running, and nothing else touches those tables. -/
namespace RecordFile

inductive Verdict
  /-- The number becomes the last of its table, and the header is written. -/
  | commit
  | keep
  | fail (fault : Fault)

namespace Verdict

/-- What is done with the header that was lent, and whether that gives the number out. -/
def outcome (table : TableHeader) (slot : Slot) : Verdict → Except Fault (Outcome (Slot × Bool) × TableHeader)
  | commit => .ok (.commit (slot, true), { table with lastRecord := slot.record })
  | keep => .ok (.keep (slot, false), table)
  | fail fault => .error fault

def answer (slot : Slot) : Verdict → Except Fault Slot
  | commit | keep => .ok slot
  | fail fault => .error fault

end Verdict

/-- Operations through handles of a file, and how they end as a body. What an operation gives decides
what comes next. -/
inductive Script (handles : List Handle)
  | ends (verdict : Verdict)
  | addTable (h : Handle) (mem : h ∈ handles) (recordSize : UInt32)
      (next : Except Fault Extent → Script handles)
  | reserve (h : Handle) (mem : h ∈ handles) (head : Nat) (next : Except Fault Slot → Script handles)
  | reserveWith (h : Handle) (mem : h ∈ handles) (head : Nat) (body : TableHeader → Slot → Script handles)
      (next : Except Fault Slot → Script handles)

structure Moment where
  store : Store
  /-- Where the tables start. -/
  heads : List Nat
  /-- The slots given out so far, the latest first, each with its table's head. -/
  given : List (Nat × Slot)
  /-- The reservations whose bodies are running, the innermost first. -/
  running : List (Handle × Nat)

structure Diary where
  heads : List Nat
  given : List (Nat × Slot)
  running : List (Handle × Nat) := []
  moments : List Moment := []

def Diary.moment (x : Diary) (store : Store) : Moment :=
  { store, heads := x.heads, given := x.given, running := x.running }

namespace Script

variable {α : Type}

def note : StateT Diary (StateM Store) Unit := do
  let store ← (get : StateM Store Store)
  modify fun x => { x with moments := x.moment store :: x.moments }

/-- Tables are known by what was given when they were added. Nothing is asked about any other offset. -/
def known (head : Nat) (op : Work Diary α) : Work Diary α := do
  let x ← unfailing (get : StateT Diary (StateM Store) Diary)
  if head ∈ x.heads then op else throw (.corruptHeader (.notTableHead head))

def giving (head : Nat) (slot : Slot) : Work Diary Unit :=
  unfailing (modify fun x => { x with given := (head, slot) :: x.given })

def adding (h : Handle) (recordSize : UInt32) : Work Diary Extent := do
  let block ← perform (h.addTable recordSize)
  unfailing (modify fun x => { x with heads := block.start :: x.heads })
  return block

def reserving (h : Handle) (head : Nat) : Work Diary Slot := known head do
  let slot ← perform (h.reserve head)
  giving head slot
  return slot

def during (h : Handle) (head : Nat) (body : StateT Diary (StateM Store) Verdict) :
    StateT Diary (StateM Store) Verdict := do
  modify fun x => { x with running := (h, head) :: x.running }
  let verdict ← body
  modify fun x => { x with running := x.running.tail }
  return verdict

def lent (h : Handle) (head : Nat) (body : TableHeader → Slot → StateT Diary (StateM Store) Verdict)
    (table : TableHeader) (slot : Slot) : Work Diary (Outcome (Slot × Bool) × TableHeader) := do
  let verdict ← unfailing (during h head (body table slot))
  ExceptT.mk (pure (verdict.outcome table slot))

def lending (h : Handle) (head : Nat) (body : TableHeader → Slot → StateT Diary (StateM Store) Verdict) :
    Work Diary Slot := known head do
  let (slot, committed) ← h.reserveWith head (lent h head body)
  if committed then giving head slot
  return slot

/-- Runs a script, and notes every moment between its operations. -/
def run {handles : List Handle} : Script handles → StateT Diary (StateM Store) Verdict
  | ends verdict => do
    note
    return verdict
  | addTable h _ recordSize next => do
    note
    let result ← (adding h recordSize).run
    (next result).run
  | reserve h _ head next => do
    note
    let result ← (reserving h head).run
    (next result).run
  | reserveWith h _ head body next => do
    note
    let result ← (lending h head fun table slot => (body table slot).run).run
    (next result).run

end Script

def Moment.history (t : History) (m : Moment) : History :=
  { t with store := m.store, heads := m.heads, given := m.given }

/-- The regions held on a file are the heads of the running reservations. -/
structure Standing.Holds (σ : Standing) (file : Location) (running : List (Handle × Nat)) : Prop where
  ok : σ.Disciplined
  held : ∀ entry ∈ running, ∃ held, σ.files entry.1.descriptor = some (file, held) ∧ .head entry.2 ∈ held
  only : ∀ d held, σ.files d = some (file, held) → ∀ r ∈ held, ∃ entry ∈ running,
    entry.1.descriptor = d ∧ r = .head entry.2

namespace Standing.Holds

variable {σ : Standing} {file : Location} {running : List (Handle × Nat)}

theorem idle (idle : σ.Idle) : σ.Holds file [] where
  ok := idle.disciplined
  held _ mem := nomatch mem
  only d held opened r mem := by
    rw [idle.files d file held opened] at mem
    cases mem

theorem take (holds : σ.Holds file running) {h : Handle} {head : Nat} {held : List Region}
    (granted : σ.Grants h.descriptor file held (.head head)) :
    (σ.take h.descriptor file held (.head head)).Holds file ((h, head) :: running) where
  ok := holds.ok.take granted
  held entry mem := by
    rcases List.mem_cons.mp mem with rfl | mem
    · exact ⟨_, files_take, List.mem_cons_self ..⟩
    · obtain ⟨held', opened, inside⟩ := holds.held entry mem
      by_cases here : entry.1.descriptor = h.descriptor
      · rw [here, granted.opened] at opened
        cases opened
        exact ⟨_, by rw [here, files_take], List.mem_cons_of_mem _ inside⟩
      · exact ⟨held', by rw [files_take_of_ne here, opened], inside⟩
  only d held' opened r mem := by
    by_cases here : d = h.descriptor
    · subst here
      rw [files_take] at opened
      cases opened
      rcases List.mem_cons.mp mem with rfl | mem
      · exact ⟨(h, head), List.mem_cons_self .., rfl, rfl⟩
      · obtain ⟨entry, inside, same⟩ := holds.only _ _ granted.opened r mem
        exact ⟨entry, List.mem_cons_of_mem _ inside, same⟩
    · rw [files_take_of_ne here] at opened
      obtain ⟨entry, inside, same⟩ := holds.only _ _ opened r mem
      exact ⟨entry, List.mem_cons_of_mem _ inside, same⟩

/-- A lock on the file is on the head of a running reservation. -/
theorem of_lock (holds : σ.Holds file running) {l : Lock} (mem : l ∈ σ.locks.entries) (here : l.file = file) :
    ∃ entry ∈ running, entry.1.descriptor = l.owner ∧ l.region = .head entry.2 := by
  obtain ⟨held, opened, inside⟩ := (holds.ok.backed l).mp mem
  exact holds.only l.owner held (here ▸ opened) l.region inside

/-- What is apart from the heads of the running reservations is free for every handle of the file. -/
theorem free {s : Store} {h : Handle} {f : OpenFile} {r : Region} (holds : s.standing.Holds file running)
    (opened : s.openFile? h.descriptor = some f) (place : f.location = file)
    (apart : ∀ entry ∈ running, ¬ (Region.head entry.2).Overlaps r) : h.Free s f r := by
  refine ⟨fun region inside => ?_, ?_⟩
  · obtain ⟨entry, there, -, rfl⟩ := holds.only _ _ (place ▸ Store.files_standing opened) region inside
    exact apart entry there
  · rw [Bool.eq_false_iff]
    intro contended
    obtain ⟨l, inside, same, -, meet⟩ := LockTable.contended_iff.mp contended
    obtain ⟨entry, there, -, region⟩ := holds.of_lock inside (same.trans place)
    exact apart entry there (region ▸ meet)

/-- The handle whose reservation of a table is running may not lock its head again. -/
theorem refused_own {s : Store} {h : Handle} {head : Nat} (holds : s.standing.Holds file running)
    (mem : (h, head) ∈ running) :
    (h.hold (.head head)).exec s = (.error (.regionAlreadyHeld (.head head)), s) := by
  obtain ⟨held, there, inside⟩ := holds.held (h, head) mem
  obtain ⟨f, opened, -, rfl⟩ := Store.openFile?_of_files there
  have some : (Region.head head).len ≠ 0 := by simp [Region.head, tableHeaderSize]
  exact h.exec_hold_own opened some ⟨_, inside, .refl some⟩

end Standing.Holds

namespace Layout

variable {settings : Settings} {L : Layout} {o o' : Nat} {b b' : Block}

/-- The heads of different tables are apart, for blocks are chunks long. -/
theorem head_apart (proper : L.Proper settings) (found : L.at? o = some b) (found' : L.at? o' = some b')
    (differ : o ≠ o') : ¬ (Region.head o).Overlaps (.head o') := by
  obtain ⟨k, rfl⟩ := proper.dvd_at? found
  obtain ⟨k', rfl⟩ := proper.dvd_at? found'
  have chunk_pos := proper.chunk_pos
  rintro ⟨before, after⟩
  rw [Region.head_stop] at before after
  have before : settings.chunkSize.toNat * k < settings.chunkSize.toNat * k' + 40 := before
  have after : settings.chunkSize.toNat * k' < settings.chunkSize.toNat * k + 40 := after
  rcases Nat.lt_trichotomy k k' with less | same | more
  · have := Nat.mul_le_mul_left settings.chunkSize.toNat less
    rw [Nat.mul_succ] at this
    omega
  · exact differ (congrArg _ same)
  · have := Nat.mul_le_mul_left settings.chunkSize.toNat more
    rw [Nat.mul_succ] at this
    omega

end Layout

namespace History

variable {t : History} {L : Layout} {σ : Standing} {running : List (Handle × Nat)} {h : Handle} {head : Nat}
  {f : OpenFile}

section Kept

variable (kept : t.Kept L) (holds : t.store.standing.Holds t.location running)
  (heads : ∀ entry ∈ running, entry.2 ∈ t.heads) (opened : t.store.openFile? h.descriptor = some f)
  (place : f.location = t.location)

include kept holds heads opened place

theorem Kept.free_head (mem : head ∈ t.heads) (free : ∀ entry ∈ running, entry.2 ≠ head) :
    h.Free t.store f (.head head) := by
  refine holds.free opened place fun entry inside => ?_
  obtain ⟨b, found⟩ := kept.at?_head (heads entry inside)
  obtain ⟨b', found'⟩ := kept.at?_head mem
  exact Layout.head_apart kept.sound.proper found found' (free entry inside)

/-- No running reservation keeps the file from growing. -/
theorem Kept.free_growth : h.Free t.store f .growth := by
  refine holds.free opened place fun entry inside => ?_
  obtain ⟨b, found⟩ := kept.at?_head (heads entry inside)
  exact (Handle.head_fits kept.sound.proper found).2.2

theorem Kept.refused_other {h' : Handle} (mem : (h', head) ∈ running) (differ : h ≠ h') :
    (h.hold (.head head)).exec t.store = (.error (.lockFailed (.head head)), t.store) := by
  obtain ⟨b, found⟩ := kept.at?_head (heads _ mem)
  obtain ⟨some, fits, -⟩ := Handle.head_fits kept.sound.proper found
  obtain ⟨held', there', inside'⟩ := holds.held (h', head) mem
  have there : t.store.standing.files h.descriptor = Option.some (t.location, f.held) :=
    place ▸ Store.files_standing opened
  have apart : h.descriptor ≠ h'.descriptor := fun same => differ (by cases h; cases h'; simp_all)
  refine h.exec_hold_contended opened some (Region.lockSpan_eq some (fits.trans kept.sound.proper.small)) ?_ ?_
  · intro region inside meet
    obtain ⟨entry, mem', -, rfl⟩ := holds.only _ _ there region inside
    obtain ⟨b', found'⟩ := kept.at?_head (heads _ mem')
    by_cases same : entry.2 = head
    · rw [same] at inside
      exact holds.ok.apart_files there there' apart inside inside' (.refl some)
    · exact Layout.head_apart kept.sound.proper found' found same meet
  · have entry : (⟨h'.descriptor, t.location, .head head⟩ : Lock) ∈ t.store.locks.entries :=
      (holds.ok.backed _).mpr ⟨held', there', inside'⟩
    exact LockTable.contended_iff.mpr ⟨_, entry, place.symm, apart.symm, .refl some⟩

end Kept

end History
end RecordFile
