import Mathlib
import RecordFile.Proofs.Nesting

/-! What is found at the moments of a script. Numbers are never lost and never given out twice, a table
whose reservation is running is refused to everybody, and everything else goes on as if it were not. -/
namespace RecordFile

def Moment.diary (m : Moment) : Diary := { heads := m.heads, given := m.given, running := m.running }

/-- What those find who ask for numbers and for tables at a moment of a script. -/
structure Moment.Fair (t : History) (m : Moment) (c : Content) (L : Layout) : Prop where
  content : m.store.content? t.location = some c
  laid : c.LaidOut L
  /-- The numbers of the reservations that committed count up from 1 to the last of their table. -/
  counted : ∀ head ∈ m.heads, ∃ table, L.table? head = some table ∧
    ((m.given.reverse.filter fun entry => entry.1 = head).map fun entry => entry.2.record.toNat) =
      List.range' 1 table.lastRecord.toNat
  /-- As long as a reservation of a table is running, every other fails, and nothing changes. -/
  refused : ∀ h' head, (h', head) ∈ m.running → ∀ h ∈ t.handles, ∃ fault,
    fault = (if h = h' then .regionAlreadyHeld (.head head) else .lockFailed (.head head)) ∧
    (h.reserve head).exec m.store = (.error fault, m.store) ∧
    ∀ (ρ α : Type) (body : TableHeader → Slot → Work ρ (Outcome α × TableHeader)) (x : ρ),
      Work.exec (h.reserveWith head body) x m.store = ((.error fault, x), m.store)
  /-- Tables can always be added. -/
  tables : ∀ h ∈ t.handles, ∀ recordSize : UInt32, recordSize ≠ 0 → recordSize.toNat < 2 ^ 31 →
    roundUp (40 + (recordSize.toNat + 1)) t.settings.chunkSize.toNat < 2 ^ 32 →
    c.size + roundUp (40 + (recordSize.toNat + 1)) t.settings.chunkSize.toNat ≤ maxOffset →
    ∃ block store, (h.addTable recordSize).exec m.store = (.ok block, store)
  /-- A table without a running reservation gives out its next number, and lends it to a body as well. -/
  granted : ∀ h ∈ t.handles, ∀ head ∈ m.heads, (∀ entry ∈ m.running, entry.2 ≠ head) →
    ∀ table, L.table? head = some table → table.lastRecord.toNat < 2 ^ 31 - 1 →
    c.size + roundUp (32 + table.width) t.settings.chunkSize.toNat ≤ maxOffset →
    (∃ slot store, (h.reserve head).exec m.store = (.ok slot, store) ∧
      slot.record.toNat = table.lastRecord.toNat + 1) ∧
    ∀ body : TableHeader → Slot → Script t.handles, ∃ fresh slot s₁ verdict y s₂ s',
      slot.record.toNat = table.lastRecord.toNat + 1 ∧
      ((body fresh slot).run { m.diary with running := (h, head) :: m.running }).run s₁ =
        ((verdict, y), s₂) ∧
      Work.exec (Script.lending h head fun table slot => (body table slot).run) m.diary m.store =
        ((verdict.answer slot, verdict.settle head slot y), s')

namespace Moment.Good

variable {t : History} {m : Moment}

theorem at_diary (good : m.Good t) :
    Diary.At t m.store.standing m.running [] m.diary m.store := by
  obtain ⟨⟨L, kept⟩, -, heads⟩ := good
  exact ⟨rfl, rfl, heads, ⟨L, kept, nofun⟩, nofun⟩

theorem fair (good : m.Good t) : ∃ c L, m.Fair t c L := by
  have here := good.at_diary
  obtain ⟨⟨L, kept⟩, holds, heads⟩ := good
  obtain ⟨c, issued⟩ := kept.issued
  have laid := issued.laid
  refine ⟨c, L, issued.content, laid, issued.counted, ?_, ?_, ?_⟩
  · intro h' head inside h mem
    have refused : (h.hold (.head head)).exec m.store =
        (.error (if h = h' then .regionAlreadyHeld (.head head) else .lockFailed (.head head)), m.store) := by
      split
      case isTrue same => exact same ▸ holds.refused_own inside
      case isFalse differ =>
        obtain ⟨f, c', sees, -, place, -⟩ := Tracked.sees kept.sound mem
        exact kept.refused_other holds heads sees.opened place inside differ
    exact ⟨_, rfl, Handle.exec_locked_refused refused, fun _ _ _ _ => Work.exec_reserveWith_refused refused⟩
  · intro h mem recordSize some signed small room
    obtain ⟨f, c', sees, laid', place, chunk⟩ := Tracked.sees kept.sound mem
    have growth := kept.free_growth holds heads sees.opened place
    rcases Handle.exec_addTable sees laid' kept.sound.proper chunk recordSize with
      ⟨_, s', _, _, -, -, -, -, ran, -⟩ | ⟨_, _, _, _, -, -, full⟩
    · exact ⟨_, s', ran⟩
    · rw [laid.size] at room
      exact absurd room (Nat.not_le_of_lt (full growth some signed small))
  · intro h mem head known free table found more room
    constructor
    · obtain ⟨f, c', sees, -, place, -⟩ := Tracked.sees kept.sound mem
      obtain ⟨slot, store, ran, number, -⟩ := issued.granted h mem head known table f found sees.opened
        (kept.free_head holds heads sees.opened place known free)
        (kept.free_growth holds heads sees.opened place) room more
      exact ⟨slot, store, ran, number⟩
    · intro body
      obtain ⟨blocks, table', ledger⟩ := kept.ledgers head known
      rw [ledger.chained.table?_head, Option.some.injEq] at found
      subst found
      rw [laid.size] at room
      rcases Script.exec_lending here holds nofun mem known free kept nofun ledger
        fun table slot => Script.fits_run (body table slot) with
        ⟨_, _, -, -, full⟩ | ⟨fresh, slot, s₁, verdict, y, s₂, s', number, ranBody, ran, -⟩
      · exact absurd ⟨more, room⟩ full
      · exact ⟨fresh, slot, s₁, verdict, y, s₂, s', number, ranBody, ran⟩

end Moment.Good

namespace History

variable {t : History}

/-- The moments of a script that is run on the file, and the moment after it. -/
def play (t : History) (script : Script t.handles) : List Moment × Moment :=
  let ((_, x), s) := (script.run { heads := t.heads, given := t.given }).run t.store
  (x.moments, x.moment s)

/-- However reservations are nested, all moments are fair, and in the end none is running. -/
theorem run_nested (run : Run Orderly t) (idle : t.store.standing.Idle) (script : Script t.handles) :
    (∀ m ∈ (t.play script).1, ∃ c L, m.Fair t c L) ∧ (∃ c L, (t.play script).2.Fair t c L) ∧
      (t.play script).2.running = [] ∧ (t.play script).2.store.standing = t.store.standing := by
  have holds : t.store.standing.Holds t.location [] := .idle idle
  obtain ⟨L, kept⟩ := run.kept
  have start : Diary.At t t.store.standing [] [] { heads := t.heads, given := t.given } t.store :=
    ⟨rfl, rfl, nofun, ⟨L, kept, nofun⟩, nofun⟩
  have ended := Script.fits_run script _ _ [] holds nofun _ _ start
  obtain ⟨standing, running, -, ⟨M, kept', -⟩, good⟩ := ended
  have last : (t.play script).2.Good t := by
    refine ⟨⟨M, kept'⟩, ?_, ?_⟩
    · show Standing.Holds (Store.standing _) _ (t.play script).2.running
      rw [show (t.play script).2.running = [] from running]
      exact standing ▸ holds
    · rw [show (t.play script).2.running = [] from running]
      nofun
  exact ⟨fun m mem => (good m mem).fair, last.fair, running, standing⟩

/-- A reservation in whose body both handles ask for its table in vain, and the one that it does not run
on adds a table and gets the first number of that. -/
def contested : Script paired.handles :=
  .reserveWith ⟨0⟩ (by decide) 0
    (fun _ _ => .reserve ⟨1⟩ (by decide) 0 fun _ => .reserve ⟨0⟩ (by decide) 0 fun _ =>
      .addTable ⟨1⟩ (by decide) 7 fun
        | .ok block => .reserve ⟨1⟩ (by decide) block.start fun _ => .ends .commit
        | .error fault => .ends (.fail fault))
    fun _ => .ends .keep

theorem run_nested_contested :
    paired.store.standing.Idle ∧ (paired.play contested).1.length = 7 ∧
      (paired.play contested).2.given = [(0, ⟨1, 48⟩), (64, ⟨1, 104⟩)] ∧
      ∀ m ∈ (paired.play contested).1, ∃ c L, m.Fair paired c L := by
  have played : (paired.play contested).1.length = 7 ∧
      (paired.play contested).2.given = [(0, ⟨1, 48⟩), (64, ⟨1, 104⟩)] := by decide +kernel
  exact ⟨idle_paired, played.1, played.2, (run_nested (run_paired Orderly) idle_paired contested).1⟩

end History
end RecordFile
