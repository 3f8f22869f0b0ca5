import Mathlib
import RecordFile.Proofs.Scripts

/-! The invariant of nested reservations. An operation leaves held what was held, keeps the ledgers of all
tables, and does not touch the tables whose reservations are running; so a body finds its table after
other operations as it was lent to it. -/
namespace RecordFile

namespace History

variable {t t' : History} {L M : Layout} {h : Handle} {request : Request}

theorem Kept.answered (kept : t.Kept L) (mem : h ∈ t.handles) (permitted : Orderly t request) :
    ∃ M, Answer t L request (t.ask h request) M ∧ (t.ask h request).Kept M := by
  obtain ⟨M, answer, sound⟩ := kept.sound.ask mem (kept.loose permitted)
  obtain ⟨M', kept'⟩ := kept.ask mem permitted
  obtain rfl := sound.unique kept'.laidOut
  exact ⟨M', answer, kept'⟩

theorem heads_ask (t : History) (h : Handle) (request : Request) :
    ∀ head ∈ t.heads, head ∈ (t.ask h request).heads := by
  intro head mem
  cases request with
  | addTable | readTable | reserve =>
    simp only [ask]
    split <;> simp [mem]
  | append | appendAfter | locate | write => exact mem

theorem Answer.table_addTable {recordSize : UInt32} {head : Nat} {blocks : List (Nat × Header)}
    {table : TableHeader} (answer : Answer t L (.addTable recordSize) t' M)
    (here : Layout.Table t.settings.chunkSize L head blocks table) :
    Layout.Table t.settings.chunkSize M head blocks table := by
  cases answer with
  | refused => exact here
  | tableAdded => exact here.append (Layout.next_fresh _ _)

theorem Kept.table_reserve (kept : t.Kept L) {head head' : Nat} {blocks : List (Nat × Header)}
    {table : TableHeader} (answer : Answer t L (.reserve head) t' M) (mem : head ∈ t.heads)
    (mem' : head' ∈ t.heads) (differ : head ≠ head')
    (here : Layout.Table t.settings.chunkSize L head' blocks table) :
    Layout.Table t.settings.chunkSize M head' blocks table := by
  cases answer with
  | refused => exact here
  | @reserved _ b blocks' table' record slotSize offset M store found part chain next slots serves =>
    have apart := kept.apart mem mem' differ chain here.chain
    have some := Handle.one_le_next next
    have outside : head ∉ blocks.map Prod.fst := by
      obtain ⟨b', rest, -, split⟩ := chain.head_eq
      exact apart head (by rw [split]; simp)
    exact (here.serves_apart kept.sound.proper chain apart some serves).setLast_apart outside record

end History

/-- As long as there are numbers and room, the next number is found its slot, unless growth is locked. -/
theorem Layout.Table.exec_prepare {h : Handle} {s : Store} {f : OpenFile} {c : Content} {L : Layout}
    {settings : Settings} {head : Nat} {blocks : List (Nat × Header)} {table : TableHeader} {b : Block}
    {bytes : Vector UInt8 tableHeaderSize.toNat} {rest : List UInt8}
    (counted : Layout.Table settings.chunkSize L head blocks table) (sees : h.Sees s f c) (laid : c.LaidOut L)
    (proper : L.Proper settings) (chunk : f.header.chunkSize = settings.chunkSize) (found : L.at? head = some b)
    (part : b.header.tablePart? = some table) (starts : bytes.toList = (b.header.encode ++ rest).take 40)
    (growth : h.Free s f .growth) (more : table.lastRecord.toNat < 2 ^ 31 - 1)
    (room : L.size + roundUp (32 + table.width) settings.chunkSize.toNat ≤ maxOffset) :
    ∃ prepared s', (h.prepare head bytes).exec s = (.ok prepared, s') := by
  obtain ⟨record, next⟩ := TableHeader.nextRecord_of_lt more
  obtain ⟨offset, M, serves⟩ := counted.serves_next room
  rw [← (Handle.nextRecord_ok next).1] at serves
  obtain ⟨s', _, _, _, fresh, _, ran, -⟩ := Handle.exec_prepare_served sees laid proper chunk found part
    counted.chain starts next (TableHeader.slotSize_eq counted.sized) serves growth
  exact ⟨_, s', ran⟩

/-- A table as it was lent to the body of its reservation. -/
structure Pin where
  head : Nat
  blocks : List (Nat × Header)
  table : TableHeader

def Layout.Pinned (chunkSize : UInt32) (L : Layout) (pins : List Pin) : Prop :=
  ∀ pin ∈ pins, Layout.Table chunkSize L pin.head pin.blocks pin.table

/-- All of them are lent to bodies that are running. -/
def Pin.Covered (nest : List (Handle × Nat)) (pins : List Pin) : Prop :=
  ∀ pin ∈ pins, ∃ entry ∈ nest, entry.2 = pin.head

theorem Pin.Covered.cons {nest : List (Handle × Nat)} {pins : List Pin} (within : Covered nest pins)
    (h : Handle) (pin : Pin) : Covered ((h, pin.head) :: nest) (pin :: pins) := by
  intro other mem
  rcases List.mem_cons.mp mem with rfl | mem
  · exact ⟨_, List.mem_cons_self .., rfl⟩
  · obtain ⟨entry, running, at_⟩ := within other mem
    exact ⟨entry, List.mem_cons_of_mem _ running, at_⟩

/-- Whatever the request comes to, the tables are as they were. -/
def History.Spares (t : History) (h : Handle) (request : Request) (pins : List Pin) : Prop :=
  ∀ L M, t.Kept L → t.Answer L request (t.ask h request) M → L.Pinned t.settings.chunkSize pins →
    M.Pinned t.settings.chunkSize pins

/-- The moment is a good one: ledgers are kept, and the heads of the running reservations are held. -/
def Moment.Good (t : History) (m : Moment) : Prop :=
  (∃ L, (m.history t).Kept L) ∧ m.store.standing.Holds t.location m.running ∧
    ∀ entry ∈ m.running, entry.2 ∈ m.heads

/-- While just this is held and just these bodies run, the ledgers are kept, the pinned tables are as they
were, and all moments noted were good. -/
structure Diary.At (t : History) (σ : Standing) (nest : List (Handle × Nat)) (pins : List Pin) (x : Diary)
    (s : Store) : Prop where
  standing : s.standing = σ
  running : x.running = nest
  heads : ∀ entry ∈ nest, entry.2 ∈ x.heads
  kept : ∃ L, ((x.moment s).history t).Kept L ∧ L.Pinned t.settings.chunkSize pins
  good : ∀ m ∈ x.moments, m.Good t

/-- What is done is what the request asks of the handle, and nothing else is taken note of. -/
structure Diary.Asked (t : History) (h : Handle) (request : Request) (x : Diary) (s : Store) (y : Diary)
    (s' : Store) : Prop where
  history : (y.moment s').history t = ((x.moment s).history t).ask h request
  running : y.running = x.running
  moments : y.moments = x.moments

theorem Diary.At.ask {t : History} {σ : Standing} {nest : List (Handle × Nat)} {pins : List Pin} {h : Handle}
    {request : Request} {x y : Diary} {s s' : Store} (here : Diary.At t σ nest pins x s) (mem : h ∈ t.handles)
    (asked : Diary.Asked t h request x s y s') (permitted : History.Orderly ((x.moment s).history t) request)
    (restored : s'.standing = σ)
    (spared : ((x.moment s).history t).Spares h request pins) :
    Diary.At t σ nest pins y s' := by
  obtain ⟨L, kept, pinned⟩ := here.kept
  obtain ⟨M, answer, kept'⟩ := kept.answered (h := h) mem permitted
  refine ⟨restored, asked.running.trans here.running, ?_, ⟨M, ?_, ?_⟩, ?_⟩
  · intro entry inside
    have grown := History.heads_ask ((x.moment s).history t) h request _ (here.heads entry inside)
    rw [← asked.history] at grown
    exact grown
  · rw [asked.history]
    exact kept'
  · exact spared L M kept answer pinned
  · rw [asked.moments]
    exact here.good

namespace Script

open Work (Stays)

variable {t : History} {σ : Standing} {nest : List (Handle × Nat)} {pins : List Pin} {h : Handle}
  {head : Nat} {x : Diary} {s : Store}

theorem exec_known {α : Type} (op : Work Diary α) : Work.exec (known head op) x s =
    if head ∈ x.heads then Work.exec op x s else ((.error (.corruptHeader (.notTableHead head)), x), s) := by
  show Work.exec (if head ∈ x.heads then op else throw (.corruptHeader (.notTableHead head))) x s = _
  split <;> rfl

theorem stays_note (holds : σ.Holds t.location nest) :
    Stays (Diary.At t σ nest pins) (unfailing note) := by
  intro x s here
  have ⟨standing, same, heads, kept, good⟩ := here
  refine ⟨standing, same, heads, kept, fun m mem => ?_⟩
  rcases List.mem_cons.mp mem with rfl | mem
  · obtain ⟨L, kept, -⟩ := kept
    refine ⟨⟨L, kept⟩, ?_, ?_⟩
    · show s.standing.Holds t.location x.running
      rw [standing, same]
      exact holds
    · show ∀ entry ∈ x.running, entry.2 ∈ x.heads
      rw [same]
      exact heads
  · exact good m mem

theorem stays_adding (ok : σ.Disciplined) (mem : h ∈ t.handles) (recordSize : UInt32) :
    Stays (Diary.At t σ nest pins) (adding h recordSize) := by
  intro x s here
  have restored := h.restores_addTable recordSize s (here.standing ▸ ok.unguarded _)
  have spared : ((x.moment s).history t).Spares h (.addTable recordSize) pins :=
    fun _ _ _ answer pinned pin inside => answer.table_addTable (pinned pin inside)
  rw [adding]
  rcases ran : (h.addTable recordSize).exec s with ⟨fault | block, s'⟩
  · rw [ran] at restored
    rw [Work.exec_bind_error (Work.exec_perform_of ran x)]
    refine here.ask mem ⟨?_, rfl, rfl⟩ (.addTable recordSize) (restored.trans here.standing) spared
    simp only [History.ask, Moment.history, Diary.moment, ran]
  · rw [ran] at restored
    rw [Work.exec_bind_ok (Work.exec_perform_of ran x)]
    refine here.ask mem ⟨?_, rfl, rfl⟩ (.addTable recordSize) (restored.trans here.standing) spared
    simp only [History.ask, Moment.history, Diary.moment, ran]
    rfl

theorem refused_at (here : Diary.At t σ nest pins x s) (holds : σ.Holds t.location nest)
    (mem : h ∈ t.handles) {h' : Handle} (inside : (h', head) ∈ nest) :
    ∃ fault, (h.hold (.head head)).exec s = (.error fault, s) := by
  obtain ⟨L, kept, -⟩ := here.kept
  obtain ⟨f, c, sees, -, place, -⟩ := Tracked.sees kept.sound mem
  have holds : s.standing.Holds t.location nest := here.standing ▸ holds
  by_cases same : h = h'
  · subst same
    exact ⟨_, holds.refused_own inside⟩
  · exact ⟨_, kept.refused_other holds here.heads sees.opened place inside same⟩

theorem stays_reserving (holds : σ.Holds t.location nest)
    (within : Pin.Covered nest pins) (mem : h ∈ t.handles) :
    Stays (Diary.At t σ nest pins) (reserving h head) := by
  intro x s here
  by_cases known : head ∈ x.heads
  case neg =>
    rw [reserving, exec_known, if_neg known]
    exact here
  rw [reserving, exec_known, if_pos known]
  by_cases busy : ∃ entry ∈ nest, entry.2 = head
  · obtain ⟨⟨h', head'⟩, inside, rfl⟩ := busy
    obtain ⟨fault, refused⟩ := refused_at here holds mem inside
    have ran : (h.reserve head').exec s = (.error fault, s) := Handle.exec_locked_refused refused
    rw [Work.exec_bind_error (Work.exec_perform_of ran x)]
    exact here
  · have restored := h.restores_reserve head s (here.standing ▸ holds.ok.unguarded _)
    have spared : ((x.moment s).history t).Spares h (.reserve head) pins := by
      intro L M kept answer pinned pin inside
      obtain ⟨entry, running, at_⟩ := within pin inside
      refine kept.table_reserve answer known (at_ ▸ here.heads entry running) ?_ (pinned pin inside)
      exact fun own => busy ⟨entry, running, at_.trans own.symm⟩
    rcases ran : (h.reserve head).exec s with ⟨fault | slot, s'⟩
    · rw [ran] at restored
      rw [Work.exec_bind_error (Work.exec_perform_of ran x)]
      refine here.ask mem ⟨?_, rfl, rfl⟩ (.reserve known) (restored.trans here.standing) spared
      simp only [History.ask, Moment.history, Diary.moment, ran]
    · rw [ran] at restored
      rw [Work.exec_bind_ok (Work.exec_perform_of ran x)]
      refine here.ask mem ⟨?_, rfl, rfl⟩ (.reserve known) (restored.trans here.standing) spared
      simp only [History.ask, Moment.history, Diary.moment, ran]
      rfl

theorem exec_lent {body : TableHeader → Slot → StateT Diary (StateM Store) Verdict} {table : TableHeader}
    {slot : Slot} {verdict : Verdict} {y : Diary} {s' : Store}
    (ran : ((body table slot).run { x with running := (h, head) :: x.running }).run s = ((verdict, y), s')) :
    Work.exec (lent h head body table slot) x s =
      ((verdict.outcome table slot, { y with running := y.running.tail }), s') := by
  have unfolded : Work.exec (lent h head body table slot) x s =
      let after := ((body table slot).run { x with running := (h, head) :: x.running }).run s
      ((after.1.1.outcome table slot, { after.1.2 with running := after.1.2.running.tail }), after.2) := rfl
  rw [unfolded, ran]

/-- What is needed of a body: it does for its own table what operations do for those around it. -/
def Fits (t : History) (body : StateT Diary (StateM Store) Verdict) : Prop :=
  ∀ σ nest pins, σ.Holds t.location nest → Pin.Covered nest pins →
    Stays (Diary.At t σ nest pins) (unfailing body)

end Script

def Verdict.settle (head : Nat) (slot : Slot) : Verdict → Diary → Diary
  | commit, y => { y with running := y.running.tail, given := (head, slot) :: y.given }
  | keep, y | fail _, y => { y with running := y.running.tail }

namespace Diary.At

variable {t : History} {σ σ' : Standing} {nest : List (Handle × Nat)} {pins : List Pin} {h : Handle}
  {head : Nat} {x : Diary} {s s' : Store} {L M : Layout}

theorem sees (kept : ((x.moment s).history t).Kept L) (mem : h ∈ t.handles) :
    ∃ f c, h.Sees s f c ∧ c.LaidOut L ∧ f.location = t.location ∧
      f.header.chunkSize = t.settings.chunkSize :=
  Tracked.sees kept.sound mem

section Enter

variable {blocks : List (Nat × Header)} {table fresh : TableHeader} {record offset : Nat} {b : Block}

/-- The body begins with its table pinned, as the chain has come to serve the next number. -/
theorem enter (here : Diary.At t σ nest pins x s) (within : Pin.Covered nest pins)
    (known : head ∈ x.heads) (free : ∀ entry ∈ nest, entry.2 ≠ head)
    (kept : ((x.moment s).history t).Kept L)
    (pinned : L.Pinned t.settings.chunkSize pins)
    (ledger : Ledger t.settings.chunkSize t.headers x.given L head blocks table) (some_ : 1 ≤ record)
    (small : record < 2 ^ 32) (serves : L.Serves t.settings head blocks table.width record offset M)
    (tracked : Tracked t.location t.settings t.handles s' M) (standing : s'.standing = σ')
    (found : M.at? head = some b) (part : b.header.tablePart? = some fresh) (h : Handle) :
    ∃ grown, Diary.At t σ' ((h, head) :: nest) (⟨head, grown, fresh⟩ :: pins)
        { x with running := (h, head) :: x.running } s' ∧
      fresh.lastRecord = table.lastRecord ∧
      Room.slot fresh.width (grown.map Room.ofBlock) (record - 1) = some offset := by
  have proper := kept.sound.proper
  obtain ⟨grown, table', ⟨moved, -, sized, last⟩, place⟩ := ledger.chained.serves proper some_ small serves
  obtain rfl := moved.part_eq found part
  refine ⟨grown, ⟨standing, congrArg _ here.running, ?_, ⟨M, ?_, ?_⟩, here.good⟩, last, ?_⟩
  · intro entry mem
    rcases List.mem_cons.mp mem with rfl | mem
    · exact known
    · exact here.heads entry mem
  · exact kept.located known ledger some_ small serves tracked
  · intro pin mem
    rcases List.mem_cons.mp mem with rfl | mem
    · exact moved
    · obtain ⟨entry, running, at_⟩ := within pin mem
      have differ : head ≠ pin.head := fun own => free entry running (at_.trans own.symm)
      have apart := kept.apart known (at_ ▸ here.heads entry running) differ ledger.chained.chain
        (pinned pin mem).chain
      exact (pinned pin mem).serves_apart proper ledger.chained.chain apart some_ serves
  · rw [TableHeader.width_congr sized]
    exact place

end Enter

/-- A body that is over leaves its table as it was lent, but for the number that it gives out. -/
theorem leave {grown : List (Nat × Header)} {fresh : TableHeader} {y : Diary} {slot : Slot} {f' : OpenFile}
    {c : Content} {locks : LockTable}
    (inside : Diary.At t σ' ((h, head) :: nest) (⟨head, grown, fresh⟩ :: pins) y s)
    (within : Pin.Covered nest pins) (free : ∀ entry ∈ nest, entry.2 ≠ head)
    (number : slot.record.toNat = fresh.lastRecord.toNat + 1) (small : slot.record.toNat < 2 ^ 31)
    (slotAt : Room.slot fresh.width (grown.map Room.ofBlock) (slot.record.toNat - 1) = some slot.offset)
    (kept : ((y.moment s).history t).Kept L)
    (pinned : L.Pinned t.settings.chunkSize (⟨head, grown, fresh⟩ :: pins))
    (laid : c.LaidOut L) (verdict : Verdict)
    (left : h.Leaves s f' (Handle.committed head c (verdict.outcome fresh slot)) locks s')
    (place : f'.location = t.location) (chunk : f'.header.chunkSize = t.settings.chunkSize)
    (standing : s'.standing = σ) : Diary.At t σ nest pins (verdict.settle head slot y) s' := by
  have heads : ∀ entry ∈ nest, entry.2 ∈ y.heads :=
    fun entry mem => inside.heads entry (List.mem_cons_of_mem _ mem)
  have known : head ∈ y.heads := inside.heads _ (List.mem_cons_self ..)
  have running : y.running.tail = nest := by rw [inside.running, List.tail_cons]
  have own : Layout.Table t.settings.chunkSize L head grown fresh := pinned _ (List.mem_cons_self ..)
  have others : L.Pinned t.settings.chunkSize pins :=
    fun pin mem => pinned pin (List.mem_cons_of_mem _ mem)
  have proper := kept.sound.proper
  have unchanged : c.LaidOut L → h.Leaves s f' c locks s' → Diary.At t σ nest pins
      { y with running := y.running.tail } s' := by
    intro laid left
    refine ⟨standing, running, heads, ⟨L, ?_, others⟩, inside.good⟩
    exact kept.relay (Tracked.step kept.sound left place chunk laid proper)
      fun _ _ blocks table ledger => ⟨blocks, table, ledger⟩
  cases verdict with
  | keep => exact unchanged laid left
  | fail fault => exact unchanged laid left
  | commit =>
    obtain ⟨b, found, part, -⟩ := own.at?_head
    obtain ⟨blocks, table, ledger⟩ := kept.ledgers head known
    obtain rfl := ledger.chained.chain.unique own.chain
    obtain rfl := ledger.chained.part_eq found part
    have laid' : (Handle.committed head c (Verdict.commit.outcome fresh slot)).LaidOut
        (L.edit (Block.setLast slot.record) head) := Handle.laidOut_setLast laid found part small
    have tracked := Tracked.step kept.sound left place chunk laid' (proper.setLast slot.record head)
    refine ⟨standing, running, heads, ⟨_, kept.committed known ledger number slotAt tracked, ?_⟩, inside.good⟩
    intro pin mem
    obtain ⟨entry, running, at_⟩ := within pin mem
    have differ : head ≠ pin.head := fun same => free entry running (at_.trans same.symm)
    have outside : head ∉ pin.blocks.map Prod.fst := by
      obtain ⟨b', rest, -, split⟩ := own.chain.head_eq
      exact kept.apart known (at_ ▸ heads entry running) differ own.chain (others pin mem).chain head
        (by rw [split]; simp)
    exact (others pin mem).setLast_apart outside slot.record

end Diary.At

namespace Script

open Work (Stays)

variable {t : History} {σ : Standing} {nest : List (Handle × Nat)} {pins : List Pin} {h : Handle}
  {head : Nat} {x : Diary} {s : Store}

theorem exec_lending_ok {body : TableHeader → Slot → StateT Diary (StateM Store) Verdict} {table : TableHeader}
    {slot : Slot} {verdict : Verdict} {y : Diary} {s' : Store} (known : head ∈ x.heads)
    (ran : Work.exec (h.reserveWith head (lent h head body)) x s =
      (((verdict.outcome table slot).map fun ended => ended.1.value, { y with running := y.running.tail }), s')) :
    Work.exec (lending h head body) x s = ((verdict.answer slot, verdict.settle head slot y), s') := by
  rw [lending, exec_known, if_pos known]
  cases verdict with
  | commit => exact Work.exec_bind_ok ran _
  | keep => exact Work.exec_bind_ok ran _
  | fail fault => exact Work.exec_bind_error ran _

theorem Fits.ends {body : StateT Diary (StateM Store) Verdict} (fits : Fits t body)
    (holds : σ.Holds t.location nest) (within : Pin.Covered nest pins) (mem : h ∈ t.handles)
    {file : Location} {held : List Region} (opened : σ.files h.descriptor = some (file, held))
    (begun : Diary.At t σ nest pins x s) :
    ∃ verdict y s' f c L, (body.run x).run s = ((verdict, y), s') ∧ Diary.At t σ nest pins y s' ∧
      ((y.moment s').history t).Kept L ∧ L.Pinned t.settings.chunkSize pins ∧ h.Sees s' f c ∧ c.LaidOut L ∧
      f.location = t.location ∧ f.header.chunkSize = t.settings.chunkSize ∧ f.held = held := by
  have after := fits σ nest pins holds within x s begun
  rcases ran : (body.run x).run s with ⟨⟨verdict, y⟩, s'⟩
  rw [Work.exec_unfailing ran] at after
  replace after : Diary.At t σ nest pins y s' := after
  obtain ⟨L, kept, pinned⟩ := after.kept
  obtain ⟨f, c, sees, laid, place, chunk⟩ := Diary.At.sees kept mem
  have there := Store.files_standing sees.opened
  rw [after.standing, opened, Option.some.injEq, Prod.mk.injEq] at there
  exact ⟨verdict, y, s', f, c, L, rfl, after, kept, pinned, sees, laid, place, chunk, there.2.symm⟩

/-- What a reservation of a table that is not in use comes to: it fails before its body is run, for want of
a number or of room, or it comes to what its body comes to on the next slot. -/
theorem exec_lending (here : Diary.At t σ nest pins x s) (holds : σ.Holds t.location nest)
    (within : Pin.Covered nest pins) (mem : h ∈ t.handles) (known : head ∈ x.heads)
    (free : ∀ entry ∈ nest, entry.2 ≠ head) {L : Layout} (kept : ((x.moment s).history t).Kept L)
    (pinned : L.Pinned t.settings.chunkSize pins)
    {blocks : List (Nat × Header)} {table : TableHeader}
    (ledger : Ledger t.settings.chunkSize t.headers x.given L head blocks table)
    {body : TableHeader → Slot → StateT Diary (StateM Store) Verdict}
    (fits : ∀ table slot, Fits t (body table slot)) :
    (∃ fault s', Work.exec (lending h head body) x s = ((.error fault, x), s') ∧
      Diary.At t σ nest pins x s' ∧ ¬ (table.lastRecord.toNat < 2 ^ 31 - 1 ∧
        L.size + roundUp (32 + table.width) t.settings.chunkSize.toNat ≤ maxOffset)) ∨
    (∃ fresh slot s₁ verdict y s₂ s', slot.record.toNat = table.lastRecord.toNat + 1 ∧
      ((body fresh slot).run { x with running := (h, head) :: x.running }).run s₁ = ((verdict, y), s₂) ∧
      Work.exec (lending h head body) x s = ((verdict.answer slot, verdict.settle head slot y), s') ∧
      Diary.At t σ nest pins (verdict.settle head slot y) s') := by
  have holds' : s.standing.Holds t.location nest := here.standing ▸ holds
  have proper : L.Proper t.settings := kept.sound.proper
  have chain := ledger.chained.chain
  obtain ⟨f, c, sees, laid, place, chunk⟩ := Diary.At.sees kept mem
  obtain ⟨b, found, part, -⟩ := ledger.chained.at?_head
  obtain ⟨nonempty, inFile, apart⟩ := Handle.head_fits proper found
  have lockable : h.Free s f (.head head) := kept.free_head holds' here.heads sees.opened place known free
  have growth : h.Free s f .growth := kept.free_growth holds' here.heads sees.opened place
  have granted := lockable.grants sees nonempty (inFile.trans proper.small)
  rw [here.standing] at granted
  obtain ⟨bytes, rest, s₁, p, starts, left₁, failed, -, ran⟩ := Work.exec_reserveWith sees laid proper found lockable
  have taken : s₁.standing = σ.take h.descriptor f.location f.held (.head head) := by
    rw [left₁.standing_take rfl rfl, here.standing]
  have tracked₁ := Tracked.step kept.sound left₁ place chunk laid proper
  have restored := h.restores_prepare head bytes s₁ (taken ▸ (holds.ok.take granted).unguarded _)
  rcases Handle.exec_prepare left₁.sees laid proper chunk found chain starts with
    ⟨_, record, slotSize, offset, M, s₂, p₂, c₂, t₂, fresh, b', there, next, slots, serves, prepared, left₂, laid₂,
      found', part'⟩ | ⟨fault, s₂, p₂, e, t₂, prepared, left₂⟩
  · right
    -- The body is run with its table pinned, so the header that it was lent is the one on disk to the end.
    rw [prepared] at restored
    obtain rfl := ledger.chained.part_eq found there
    obtain ⟨number, small⟩ := Handle.nextRecord_ok next
    have some : 1 ≤ record.toNat := by omega
    obtain ⟨-, rfl⟩ := TableHeader.eq_width slots
    have tracked₂ := tracked₁.step left₂ place chunk laid₂ (serves.proper proper chain some)
    obtain ⟨grown, entered, last, slotAt⟩ := here.enter within known free kept pinned ledger some
      record.toNat_lt serves tracked₂ (restored.trans taken) found' part' h
    rw [place] at granted
    rw [place] at entered
    obtain ⟨verdict, y, s₃, f₃, c₃, M', ranBody, after, kept₃, pinned₃, sees₃, laid₃, place₃, chunk₃, held₃⟩ :=
      (fits fresh { record, offset }).ends (holds.take granted) (within.cons h _) mem Standing.files_take entered
    obtain ⟨s₄, ran₄, left₄⟩ := ran prepared (lent h head body) (exec_lent ranBody) sees₃ held₃
    have given : s₄.standing = σ := left₄.standing_give (holds.ok.unguarded _) granted after.standing place₃ rfl
    have number' : record.toNat = fresh.lastRecord.toNat + 1 := by rw [last]; exact number
    exact ⟨fresh, { record, offset }, s₂, verdict, y, s₃, s₄, number, ranBody, exec_lending_ok known ran₄,
      after.leave within free number' small slotAt kept₃ pinned₃ laid₃ verdict left₄ place₃ chunk₃ given⟩
  · left
    rw [prepared] at restored
    obtain ⟨s₃, ran₃, left₃⟩ := failed prepared left₂.sees rfl (lent h head body) x
    have tracked₃ := (tracked₁.step left₂ place chunk laid proper).step left₃ place chunk laid proper
    have given : s₃.standing = σ := left₃.standing_give (holds.ok.unguarded _) granted (restored.trans taken) rfl rfl
    refine ⟨fault, s₃, ?_, ⟨given, here.running, here.heads, ⟨L, ?_, pinned⟩, here.good⟩, ?_⟩
    · rw [lending, exec_known, if_pos known]
      exact Work.exec_bind_error ran₃ _
    · exact kept.relay tracked₃ fun _ _ blocks table ledger => ⟨blocks, table, ledger⟩
    · rintro ⟨more, room⟩
      obtain ⟨_, _, served⟩ := ledger.chained.exec_prepare left₁.sees laid proper chunk found part starts
        (growth.inside apart left₁) more room
      rw [prepared] at served
      cases served

theorem stays_lending (holds : σ.Holds t.location nest)
    (within : Pin.Covered nest pins) (mem : h ∈ t.handles)
    {body : TableHeader → Slot → StateT Diary (StateM Store) Verdict}
    (fits : ∀ table slot, Fits t (body table slot)) :
    Stays (Diary.At t σ nest pins) (lending h head body) := by
  intro x s here
  by_cases known : head ∈ x.heads
  case neg =>
    rw [lending, exec_known, if_neg known]
    exact here
  by_cases busy : ∃ entry ∈ nest, entry.2 = head
  · obtain ⟨⟨h', head'⟩, inside, rfl⟩ := busy
    obtain ⟨fault, refused⟩ := refused_at here holds mem inside
    rw [lending, exec_known, if_pos known, Work.exec_bind_error (Work.exec_reserveWith_refused refused)]
    exact here
  · have free : ∀ entry ∈ nest, entry.2 ≠ head := fun entry inside same => busy ⟨entry, inside, same⟩
    obtain ⟨L, kept, pinned⟩ := here.kept
    obtain ⟨blocks, table, ledger⟩ := kept.ledgers head known
    rcases exec_lending here holds within mem known free kept pinned ledger fits with
      ⟨fault, s', ran, after, -⟩ | ⟨_, _, _, _, _, _, s', -, -, ran, after⟩
    · rw [ran]
      exact after
    · rw [ran]
      exact after

theorem stays_noted {I : Diary → Store → Prop} {α : Type} {op : Work Diary α}
    {next : Except Fault α → StateT Diary (StateM Store) Verdict} (noted : Stays I (unfailing note))
    (first : Stays I op) (rest : ∀ result, Stays I (unfailing (next result))) :
    Stays I (unfailing (do note; let result ← op.run; next result)) :=
  fun x s holds => rest _ _ _ (first _ _ (noted x s holds))

theorem fits_run (script : Script t.handles) : Fits t script.run := by
  -- A body is a script again, so that it fits is known when its reservation is looked at.
  induction script with
  | ends verdict => exact fun σ nest pins holds _ => stays_note holds
  | addTable h mem recordSize next ih =>
    intro σ nest pins holds within
    exact stays_noted (stays_note holds) (stays_adding holds.ok mem recordSize)
      fun result => ih result σ nest pins holds within
  | reserve h mem head next ih =>
    intro σ nest pins holds within
    exact stays_noted (stays_note holds) (stays_reserving holds within mem)
      fun result => ih result σ nest pins holds within
  | reserveWith h mem head body next inside ih =>
    intro σ nest pins holds within
    exact stays_noted (stays_note holds) (stays_lending holds within mem inside)
      fun result => ih result σ nest pins holds within

end Script
end RecordFile
