import Mathlib
import RecordFile.Proofs.Confining

/-! Reservations that come to nothing. What a chain grew by stays, and the slot that it grew for is found there
by the next reservation of the table, whoever makes it. -/
namespace RecordFile

/-- The body of a reservation that does nothing with the file. It notes what it was lent. -/
def noting {α : Type} (f : TableHeader → Slot → Except Fault (Outcome α × TableHeader)) (table : TableHeader)
    (slot : Slot) : Work (List (TableHeader × Slot)) (Outcome α × TableHeader) :=
  Work.saying fun lent => (f table slot, lent ++ [(table, slot)])

/-- Nothing of what was lent is committed. -/
def Undone {α : Type} (f : TableHeader → Slot → Except Fault (Outcome α × TableHeader))
    (lent : List (TableHeader × Slot)) : Prop :=
  ∀ entry ∈ lent, ∀ value edited, f entry.1 entry.2 ≠ .ok (.commit value, edited)

theorem Undone.committed {α : Type} {f : TableHeader → Slot → Except Fault (Outcome α × TableHeader)}
    {lent : List (TableHeader × Slot)} {table : TableHeader} {slot : Slot} (undone : Undone f lent)
    (mem : (table, slot) ∈ lent) (head : Nat) (c : Content) : Handle.committed head c (f table slot) = c := by
  have never : ∀ value edited, f table slot ≠ .ok (.commit value, edited) := undone _ mem
  rcases said : f table slot with fault | ⟨value | value, edited⟩
  · rfl
  · rfl
  · exact absurd said (never value edited)

theorem TableHeader.nextRecord_congr {t t' : TableHeader} (same : t.lastRecord = t'.lastRecord) :
    t.nextRecord = t'.nextRecord := by rw [nextRecord, same, nextRecord]

namespace Layout

variable {settings : Settings} {counts : Nat → Prop} {L M : Layout} {head : Nat} {blocks : List (Nat × Header)}
  {table : TableHeader} {slot : Slot}

/-- The slot is the next of the table, and its chain has room for it. -/
structure Offers (L : Layout) (head : Nat) (blocks : List (Nat × Header)) (table : TableHeader) (slot : Slot) :
    Prop where
  chain : L.Chain head blocks
  part : L.table? head = some table
  sized : table.recordSize ≠ 0
  next : table.nextRecord = .ok slot.record
  found : (searchAll table.width slot.record.toNat 1 head blocks).2 = .found slot.offset

/-- A slot stays on offer while the table does not count on. -/
theorem Offers.keep (offers : L.Offers head blocks table slot) (changes : L.Changes counts M)
    (still : ¬ counts head) (proper : M.Proper settings) : ∃ blocks' table', M.Offers head blocks' table' slot := by
  obtain ⟨table', part', sized, last⟩ := changes.table? still offers.part
  obtain ⟨b', found', -⟩ := Option.bind_eq_some_iff.mp part'
  obtain ⟨blocks', chain'⟩ := Chain.of_at? proper found'
  refine ⟨blocks', table', chain', part', ?_, ?_, ?_⟩
  · rw [sized]
    exact offers.sized
  · rw [TableHeader.nextRecord_congr last]
    exact offers.next
  · rw [TableHeader.width_congr sized]
    exact searchAll_of_prefix (changes.chain_prefix offers.chain chain') offers.found

/-- The slot that a chain serves is on offer from then on, in the block that was added if one was. -/
theorem Serves.offers {record : UInt32} {offset : Nat}
    (serves : L.Serves settings head blocks table.width record.toNat offset M) (proper : L.Proper settings)
    (chain : L.Chain head blocks) (part : L.table? head = some table) (sized : table.recordSize ≠ 0)
    (next : table.nextRecord = .ok record) :
    ∃ blocks' table', M.Offers head blocks' table' { record, offset } ∧
      table'.recordSize = table.recordSize ∧ table'.lastRecord = table.lastRecord := by
  have positive := Handle.one_le_next next
  have changes : L.Changes (fun _ => False) M := .of_extends (serves.extends chain positive)
  obtain ⟨table', part', same, last'⟩ := changes.table? id part
  have width := TableHeader.width_congr same
  suffices here : ∃ blocks', M.Chain head blocks' ∧
      (searchAll table.width record.toNat 1 head blocks').2 = .found offset by
    obtain ⟨blocks', chain', found⟩ := here
    exact ⟨blocks', table', ⟨chain', part', same ▸ sized, (TableHeader.nextRecord_congr last').trans next,
      width ▸ found⟩, same, last'⟩
  cases serves with
  | found place => exact ⟨blocks, chain, Search.of_place_slot place⟩
  | @grown tail start size place enough fits =>
    obtain ⟨⟨front, last, rfl, found, -⟩, -, high⟩ := chain.beyond positive place
    have ends := next_fresh (.data size (UInt64.ofNat start)) settings.chunkSize
    -- The search goes on past the old tail into the new block, which was made to have the room.
    refine ⟨_, chain.attach proper found ends, searchAll_onward ?_ (Search.of_place_beyond place)
      (searchAll_fresh high record.toNat_lt table.width_pos proper.chunk_some enough)⟩
    rw [List.map_append, List.map_append, List.append_assoc]
    simp only [List.map_cons, List.map_nil, Room.ofBlock_setNext]
    rfl

end Layout

namespace Handle

variable {h : Handle} {s : Store} {f : OpenFile} {c : Content} {L : Layout} {settings : Settings} {head : Nat}
  {blocks : List (Nat × Header)} {table : TableHeader} {slot : Slot}

/-- A slot on offer is lent to whatever body comes next, with the bytes of the file as they were. -/
theorem exec_reserveWith_offered (sees : h.Sees s f c) (laid : c.LaidOut L) (proper : L.Proper settings)
    (chunk : f.header.chunkSize = settings.chunkSize) (offers : L.Offers head blocks table slot)
    (free : h.Free s f (.head head)) : ∃ s₁ f₁ t, h.Leaves s f₁ c t s₁ ∧ f₁.location = f.location ∧
      (∀ {ρ α : Type} (body : TableHeader → Slot → Work ρ (Outcome α × TableHeader)) (x : ρ),
        (Work.exec (h.reserveWith head body) x s).1.2 = (Work.exec (body table slot) x s₁).1.2) ∧
      ∃ s' c' t', (h.reserve head).exec s = (.ok slot, s') ∧ h.Leaves s f c' t' s' ∧
        c'.LaidOut (L.edit (Block.setLast slot.record) head) := by
  obtain ⟨b, found, part⟩ := Option.bind_eq_some_iff.mp offers.part
  have next := offers.next
  have positive : slot.record ≠ 0 := by
    intro zero
    have := one_le_next next
    rw [zero] at this
    exact absurd this (by decide)
  obtain ⟨bytes, rest, s₁, p₁, starts, left₁, -, minds, finish⟩ :=
    Work.exec_reserveWith sees laid proper found free
  obtain ⟨s₂, p₂, located, left₂⟩ := exec_locate_found left₁.sees laid proper chunk offers.chain
    (TableHeader.slotSize_eq offers.sized) positive (Search.place_found offers.found)
  obtain ⟨s₃, p₃, prepared, left₃⟩ := exec_prepare_located laid found part starts next located left₂ laid
    proper.small found part
  have left := left₁.trans_quiet left₃ rfl
  refine ⟨s₃, _, _, left, rfl, fun body x => minds prepared body x, ?_⟩
  obtain ⟨s₄, ran₄, left₄⟩ := finish prepared giveOut rfl left₃.sees rfl
  exact ⟨s₄, _, _, exec_reserve_of ran₄, left.trans left₄ rfl,
    laidOut_setLast laid found part (nextRecord_ok next).2⟩

end Handle

namespace History

variable {t u : History} {L M : Layout} {h : Handle} {head : Nat} {blocks : List (Nat × Header)} {slot : Slot}

/-- What may go on until a table counts on: all that can be asked but a reservation of the table, and
reservations that come to nothing, also of the table. -/
inductive Pending (head : Nat) (t : History) : History → Prop
  | nothing : Pending head t t
  | asked {u : History} {h : Handle} {request : Request} : Pending head t u → h ∈ u.handles → Loose u request →
      request ≠ .reserve head → Pending head t (u.ask h request)
  | attempted {u : History} {h : Handle} {L : Layout} {head' : Nat} {b : Block} {α : Type}
      {f : TableHeader → Slot → Except Fault (Outcome α × TableHeader)} {result : Except Fault α}
      {lent : List (TableHeader × Slot)} {store : Store} : Pending head t u → h ∈ u.handles → u.LaidOut L →
      L.at? head' = some b →
      Work.exec (h.reserveWith head' (noting f)) [] u.store = ((result, lent), store) → Undone f lent →
      Pending head t { u with store }
  | opened {u : History} {path : String} {settings : Settings} {h : Handle} {store : Store} : Pending head t u →
      u.store.find path = .ok u.location →
      (Handle.openExisting path settings).exec u.store = (.ok h, store) →
      Pending head t { u with store, handles := h :: u.handles }
  | closed {u : History} {h : Handle} : Pending head t u → h ∈ u.handles →
      Pending head t { u with store := (h.close.exec u.store).2, handles := u.handles.filter (· ≠ h) }
  | meanwhile {u : History} {store : Store} : Pending head t u → u.Undisturbed store →
      Pending head t { u with store }

/-- A reservation that comes to nothing serves the slot and does no more, or does nothing. -/
theorem Sound.attempted (sound : t.Sound L) (mem : h ∈ t.handles) (chain : L.Chain head blocks) {α : Type}
    {f : TableHeader → Slot → Except Fault (Outcome α × TableHeader)} {result : Except Fault α}
    {lent : List (TableHeader × Slot)} {store : Store}
    (ran : Work.exec (h.reserveWith head (noting f)) [] t.store = ((result, lent), store))
    (undone : Undone f lent) :
    (lent = [] ∧ Sound { t with store } L) ∨ ∃ table fresh slot M, lent = [(fresh, slot)] ∧
      L.table? head = some table ∧ table.recordSize ≠ 0 ∧ table.nextRecord = .ok slot.record ∧
      L.Serves t.settings head blocks table.width slot.record.toNat slot.offset M ∧
      Sound { t with store } M := by
  obtain ⟨file, c, sees, laid, place, chunk⟩ := sound.sees mem
  obtain ⟨b, rest, found, -⟩ := chain.head_eq
  rcases Handle.exec_reserveWith_saying sees laid sound.proper chunk found chain
      (fun table slot lent => (f table slot, lent ++ [(table, slot)])) [] with
    ⟨table, record, slotSize, offset, M, s', c', T, fresh, b', part, next, slots, serves, laid', -, -, ran', left⟩ |
    ⟨fault, s', e, T, ran', left⟩
  · cases ran.symm.trans ran'
    obtain ⟨sized, rfl⟩ := TableHeader.eq_width slots
    change h.Leaves t.store file (Handle.committed head c' (f fresh { record, offset })) T _ at left
    rw [undone.committed (List.mem_singleton_self _) head c'] at left
    refine .inr ⟨table, fresh, { record, offset }, M, rfl, ?_, sized, next, serves, ?_⟩
    · rw [Layout.table?, found, Option.bind_some, part]
    · exact sound.step left place chunk laid' (serves.proper sound.proper chain (Handle.one_le_next next))
  · cases ran.symm.trans ran'
    exact .inl ⟨rfl, sound.step left place chunk laid sound.proper⟩

/-- A slot on offer stays on offer. -/
theorem Pending.offers (pending : Pending head t u) (sound : t.Sound L) {table : TableHeader}
    (offers : L.Offers head blocks table slot) :
    ∃ M blocks' table', u.Sound M ∧ M.Offers head blocks' table' slot := by
  -- Every step either leaves the layout alone or changes it without counting this table on.
  induction pending with
  | nothing => exact ⟨L, blocks, table, sound, offers⟩
  | asked _ mem permitted other ih =>
    obtain ⟨M, blocks', table', sound', offers'⟩ := ih
    obtain ⟨N, answer, sound''⟩ := sound'.ask mem permitted
    obtain ⟨blocks'', table'', offers''⟩ := offers'.keep answer.changes other sound''.proper
    exact ⟨N, blocks'', table'', sound'', offers''⟩
  | attempted _ mem laid found ran undone ih =>
    obtain ⟨M, blocks', table', sound', offers'⟩ := ih
    rw [sound'.unique laid] at found
    obtain ⟨blocks₁, chain⟩ := Layout.Chain.of_at? sound'.proper found
    rcases sound'.attempted mem chain ran undone with
      ⟨-, sound''⟩ | ⟨table₁, fresh, slot₁, N, -, -, -, next, serves, sound''⟩
    · exact ⟨M, blocks', table', sound'', offers'⟩
    · have changes : M.Changes (fun _ => False) N :=
        .of_extends (serves.extends chain (Handle.one_le_next next))
      obtain ⟨blocks'', table'', offers''⟩ := offers'.keep changes id sound''.proper
      exact ⟨N, blocks'', table'', sound'', offers''⟩
  | opened _ found ran ih =>
    obtain ⟨M, blocks', table', sound', offers'⟩ := ih
    exact ⟨M, blocks', table', sound'.opened found ran, offers'⟩
  | closed _ mem ih =>
    obtain ⟨M, blocks', table', sound', offers'⟩ := ih
    exact ⟨M, blocks', table', Tracked.close sound' mem, offers'⟩
  | meanwhile _ undisturbed ih =>
    obtain ⟨M, blocks', table', sound', offers'⟩ := ih
    have tracked := Tracked.meanwhile sound' undisturbed
    exact ⟨M, blocks', table', tracked, offers'⟩

/-- The next reservation of a table is for the slot, and does not need to make the file longer. -/
structure Awaits (u : History) (h : Handle) (head : Nat) (slot : Slot) : Prop where
  /-- Whatever the body is, it is lent the slot, once. -/
  lends : ∃ lent store, { u with store }.bytes = u.bytes ∧
    ∀ {ρ α : Type} (body : TableHeader → Slot → Work ρ (Outcome α × TableHeader)) (x : ρ),
      (Work.exec (h.reserveWith head body) x u.store).1.2 = (Work.exec (body lent slot) x store).1.2
  gives : ∃ store, (h.reserve head).exec u.store = (.ok slot, store) ∧
    { u with store }.bytes.length = u.bytes.length

theorem Sound.awaits (sound : u.Sound L) (mem : h ∈ u.handles) {table : TableHeader}
    (offers : L.Offers head blocks table slot) {f : OpenFile} (opened : u.store.openFile? h.descriptor = some f)
    (free : h.Free u.store f (.head head)) : u.Awaits h head slot := by
  obtain ⟨f', c, sees, laid, place, chunk⟩ := sound.sees mem
  rw [sees.opened] at opened
  cases opened
  obtain ⟨s₁, f₁, T, left, place₁, minds, s', c', T', ran, left', laid'⟩ :=
    Handle.exec_reserveWith_offered sees laid sound.proper chunk offers free
  constructor
  · refine ⟨table, s₁, ?_, minds⟩
    have there := left.sees.content
    rw [place₁, ← sees.content, place] at there
    exact congrArg (fun content => (content.getD Content.empty).toList) there
  · refine ⟨s', ran, ?_⟩
    have sound' : Sound { u with store := s' } _ :=
      sound.step left' place chunk laid' (sound.proper.setLast slot.record head)
    rw [sound.bytes, sound'.bytes]
    exact Layout.size_edit fun b _ => Block.size_setLast _ b

/-- What a reservation for a slot leaves that comes to nothing. -/
structure Reoffered (t : History) (L : Layout) (head : Nat) (blocks : List (Nat × Header)) (table : TableHeader)
    (slot : Slot) (store : Store) : Prop where
  part : L.table? head = some table
  next : slot.record.toNat = table.lastRecord.toNat + 1
  /-- The counts of the table are as they were. -/
  counts : ∃ M table', LaidOut { t with store } M ∧ M.table? head = some table' ∧
    table'.lastRecord = table.lastRecord ∧ table'.recordSize = table.recordSize
  /-- If the chain had no room for the slot, it is linked to a block that was added. -/
  bytes : if slot.record.toNat ≤ Room.capacity table.width (blocks.map Room.ofBlock) then
      { t with store }.bytes = t.bytes
    else ∃ tail header, blocks.getLast? = some (tail, header) ∧ Linked tail [] t.bytes { t with store }.bytes
  again : ∀ {u}, Pending head { t with store } u → ∀ h ∈ u.handles, ∀ f, u.store.openFile? h.descriptor = some f →
    h.Free u.store f (.head head) → u.Awaits h head slot

/-- A slot that was lent to a body and not committed is the next that is lent or given out, whatever goes on
until then. -/
theorem run_reoffered (run : Run Loose t) (mem : h ∈ t.handles) (laid : t.LaidOut L)
    (chain : L.Chain head blocks) {α : Type} {f : TableHeader → Slot → Except Fault (Outcome α × TableHeader)}
    {result : Except Fault α} {lent : TableHeader} {store : Store}
    (ran : Work.exec (h.reserveWith head (noting f)) [] t.store = ((result, [(lent, slot)]), store))
    (undone : ∀ value edited, f lent slot ≠ .ok (.commit value, edited)) :
    ∃ table, t.Reoffered L head blocks table slot store := by
  obtain ⟨K, sound⟩ := run.sound
  obtain rfl := sound.unique laid
  have nothing : Undone f [(lent, slot)] := by
    intro entry mem
    obtain rfl := List.mem_singleton.mp mem
    exact undone
  rcases sound.attempted mem chain ran nothing with
    ⟨none, -⟩ | ⟨table, fresh, slot', M, told, part, sized, next, serves, sound'⟩
  · cases none
  cases told
  have positive := Handle.one_le_next next
  obtain ⟨blocks', table', offers, same, last⟩ := serves.offers sound.proper chain part sized next
  refine ⟨table, part, (Handle.nextRecord_ok next).1, ⟨M, table', sound'.content, offers.part, last, same⟩, ?_, ?_⟩
  · rw [sound.bytes, sound'.bytes]
    rcases serves.linked chain positive with ⟨rfl, room⟩ | ⟨full, tail, last, added, atEnd, there, ends, rfl⟩
    · rw [if_pos room]
    · rw [if_neg (Nat.not_le_of_lt full)]
      refine ⟨tail, last.header, atEnd, ?_⟩
      exact Layout.linked_of there ends added (.refl _) rfl (Layout.at?_attach_tail there added)
        (Block.next_setNext _ _)
  · intro u pending h' mem' f' opened free
    obtain ⟨N, blocks'', table'', sound'', offers'⟩ := pending.offers sound' offers
    exact sound''.awaits mem' offers' opened free

/-- A body that changes all it is lent and commits nothing of it. -/
def scribbling (table : TableHeader) (slot : Slot) : Except Fault (Outcome Nat × TableHeader) :=
  .ok (.keep slot.offset, { table with recordSize := 0, lastRecord := table.lastRecord + 100 })

/-- The first block of the table is full, so the file gets longer for a slot that nobody takes. -/
theorem run_reoffered_scribbled : ∃ L blocks result lent store table, filled.LaidOut L ∧ L.Chain 0 blocks ∧
    Work.exec (Handle.reserveWith ⟨0⟩ 0 (noting scribbling)) [] filled.store =
      ((result, [(lent, { record := 3, offset := 96 })]), store) ∧
    filled.bytes.length = 64 ∧ { filled with store }.bytes.length = 128 ∧
    filled.Reoffered L 0 blocks table { record := 3, offset := 96 } store := by
  obtain ⟨L, b, laid, found⟩ := run_filled.first
  obtain ⟨K, sound⟩ := run_filled.sound
  obtain rfl := sound.unique laid
  obtain ⟨blocks, chain⟩ := Layout.Chain.of_at? sound.proper found
  have seen :
      let ran := Work.exec (Handle.reserveWith ⟨0⟩ 0 (noting scribbling)) [] filled.store
      ran.1.2.map Prod.snd = [{ record := 3, offset := 96 }] ∧ filled.bytes.length = 64 ∧
        { filled with store := ran.2 }.bytes.length = 128 := by
    decide +kernel
  rcases ran : Work.exec (Handle.reserveWith ⟨0⟩ 0 (noting scribbling)) [] filled.store with ⟨⟨result, told⟩, store⟩
  rw [ran] at seen
  obtain ⟨⟨lent, slot⟩, rfl, rfl⟩ := List.map_eq_singleton_iff.mp seen.1
  obtain ⟨table, reoffered⟩ := run_reoffered run_filled (by simp) laid chain ran (by simp [scribbling])
  exact ⟨L, blocks, result, lent, store, table, laid, chain, rfl, seen.2.1, seen.2.2, reoffered⟩

end History
end RecordFile
