import Mathlib
import RecordFile.Proofs.History

/-! The layout of a file over a run. Whatever is asked, and whether or not it fails, the file stays a
sequence of blocks whose links lead forward, so every chain can be walked to its end. -/
namespace RecordFile

namespace Layout

variable {settings : Settings} {L : Layout} {c : Content} {o : Nat} {b : Block}

theorem Proper.setLast (proper : L.Proper settings) (record : UInt32) (o : Nat) :
    Proper settings (L.edit (Block.setLast record) o) := by
  refine proper.edit (fun b _ => Block.size_setLast record b) (fun b => Block.next_setLast record b) ?_
  intro b header file
  exact ⟨{ header with table.lastRecord := record },
    by simp only [Block.setLast, file, Header.mapTable], rfl, rfl⟩

theorem Proper.fill (proper : L.Proper settings) (found : L.at? o = some b) {skip : Nat} {data : List UInt8}
    (inside : skip + data.length ≤ b.payload.length) : Proper settings (L.edit (Block.fill skip data) o) := by
  refine proper.edit (fun b' found' => ?_) (fun b => rfl) (fun b header file => ⟨header, file, rfl, rfl⟩)
  rw [found] at found'
  cases found'
  exact Block.size_fill inside

theorem laidOut_fill (laid : c.LaidOut L) (found : L.at? o = some b) {skip : Nat} {data : List UInt8}
    (inside : skip + data.length ≤ b.payload.length) :
    (c.write (o + b.header.size.toNat + skip) data).LaidOut (L.edit (Block.fill skip data) o) := by
  have sound := laid.sound.at? found
  have size := b.size_eq
  rw [Nat.add_assoc, ← Header.length_encode sound.wellFormed]
  exact laid.write found (by omega) (sound.fill inside) (Block.bytes_fill b)

end Layout

namespace History

/-- `L` is the layout of the file. -/
def LaidOut (t : History) (L : Layout) : Prop := ∃ c, t.store.content? t.location = some c ∧ c.LaidOut L

/-- Requests about any blocks of the file, and writes inside their payloads. -/
inductive Loose (t : History) : Request → Prop
  | addTable (recordSize : UInt32) : Loose t (.addTable recordSize)
  | append (spec : BlockSpec) : Loose t (.append spec)
  | appendAfter {L : Layout} {tail : Nat} {b : Block} (spec : BlockSpec) : t.LaidOut L →
      L.at? tail = some b → Loose t (.appendAfter tail spec)
  | readTable {L : Layout} {head : Nat} {b : Block} : t.LaidOut L → L.at? head = some b →
      Loose t (.readTable head)
  | locate {L : Layout} {chain : Nat} {b : Block} (table : TableHeader) (record : UInt32) : t.LaidOut L →
      L.at? chain = some b → Loose t (.locate chain table record)
  | reserve {L : Layout} {head : Nat} {b : Block} : t.LaidOut L → L.at? head = some b →
      Loose t (.reserve head)
  | write {L : Layout} {o : Nat} {b : Block} {offset : Nat} {bytes : List UInt8} : t.LaidOut L →
      L.at? o = some b → o + b.header.size.toNat ≤ offset → offset + bytes.length ≤ o + b.size →
      Loose t (.write offset bytes)

/-- The handles of the history are open on its file, whose layout is proper. -/
def Sound (t : History) (L : Layout) : Prop := Tracked t.location t.settings t.handles t.store L

variable {t : History} {L M : Layout} {h : Handle} {request : Request}

theorem Sound.unique (sound : t.Sound L) (laid : t.LaidOut M) : M = L := by
  obtain ⟨c, there, left⟩ := sound.content
  obtain ⟨c', there', right⟩ := laid
  rw [there] at there'
  cases there'
  exact right.unique left

/-- What one handle does without changing the bytes disturbs no other. -/
theorem Sound.undisturbed (sound : t.Sound L) {f f' : OpenFile} {c : Content} {T : LockTable} {s : Store}
    (sees : h.Sees t.store f c) (place : f.location = t.location) (left : h.Leaves t.store f' c T s)
    (same : f'.location = f.location ∧ f'.header = f.header) : t.Undisturbed s where
  content := by
    rw [← place, sees.content, ← same.1]
    exact left.sees.content
  handles other mem := by
    obtain ⟨f'', opened, -, -, position⟩ := Tracked.handles sound other mem
    by_cases here : other.descriptor = h.descriptor
    · rw [here]
      exact ⟨f, f', sees.opened, left.sees.opened, same.1, congrArg FileHeader.chunkSize same.2, left.sees.position⟩
    · exact ⟨f'', f'', opened, (left.others _ here).trans opened, rfl, rfl, position⟩

theorem Sound.opened (sound : t.Sound L) {path : String} {settings : Settings} {store : Store}
    (found : t.store.find path = .ok t.location)
    (ran : (Handle.openExisting path settings).exec t.store = (.ok h, store)) :
    Sound { t with store, handles := h :: t.handles } L := by
  obtain ⟨h', s, ran', tracked⟩ := Tracked.openExisting sound found settings
  rw [ran] at ran'
  cases ran'
  exact tracked

/-- All that a request can come to: the history and the layout after it. -/
inductive Answer (t : History) (L : Layout) : Request → History → Layout → Prop
  | refused {request : Request} {store : Store} : Answer t L request { t with store } L
  | tableAdded {recordSize size : UInt32} {store : Store} : recordSize ≠ 0 →
      size.toNat = roundUp (40 + (recordSize.toNat + 1)) t.settings.chunkSize.toNat →
      (BlockSpec.table size recordSize).check t.settings.chunkSize = .ok () →
      L.size + size.toNat ≤ maxOffset →
      Answer t L (.addTable recordSize) { t with store, heads := L.size :: t.heads }
        (L ++ [Layout.fresh (.table size recordSize) t.settings.chunkSize])
  | appended {spec : BlockSpec} {store : Store} : spec.check t.settings.chunkSize = .ok () →
      L.size + spec.size.toNat ≤ maxOffset →
      Answer t L (.append spec) { t with store } (L ++ [Layout.fresh spec t.settings.chunkSize])
  | attached {tail : Nat} {b : Block} {spec : BlockSpec} {store : Store} : L.at? tail = some b →
      b.header.next = none → spec.check t.settings.chunkSize = .ok () → L.size + spec.size.toNat ≤ maxOffset →
      Answer t L (.appendAfter tail spec) { t with store }
        (L.attach tail (Layout.fresh spec t.settings.chunkSize))
  | read {head : Nat} {b : Block} {table : TableHeader} {store : Store} : L.at? head = some b →
      b.header.tablePart? = some table →
      Answer t L (.readTable head) { t with store, headers := (head, table) :: t.headers } L
  | located {chain : Nat} {blocks : List (Nat × Header)} {table : TableHeader} {record : UInt32}
      {slotSize offset : Nat} {M : Layout} {store : Store} : L.Chain chain blocks →
      table.slotSize = .ok slotSize → record ≠ 0 →
      L.Serves t.settings chain blocks slotSize record.toNat offset M →
      Answer t L (.locate chain table record) { t with store } M
  | reserved {head : Nat} {b : Block} {blocks : List (Nat × Header)} {table : TableHeader} {record : UInt32}
      {slotSize offset : Nat} {M : Layout} {store : Store} : L.at? head = some b →
      b.header.tablePart? = some table → L.Chain head blocks → table.nextRecord = .ok record →
      table.slotSize = .ok slotSize → L.Serves t.settings head blocks slotSize record.toNat offset M →
      Answer t L (.reserve head) { t with store, given := (head, { record, offset }) :: t.given }
        (M.edit (Block.setLast record) head)
  | written {o skip : Nat} {b : Block} {bytes : List UInt8} {store : Store} : L.at? o = some b →
      skip + bytes.length ≤ b.payload.length →
      Answer t L (.write (o + b.header.size.toNat + skip) bytes) { t with store }
        (L.edit (Block.fill skip bytes) o)

/-- What is asked comes to one of its answers, and the file keeps a proper layout. -/
def Answers (t : History) (L : Layout) (h : Handle) (request : Request) : Prop :=
  ∃ M, Answer t L request (t.ask h request) M ∧ (t.ask h request).Sound M

section Answering

variable (sound : t.Sound L) (mem : h ∈ t.handles)
include sound mem

theorem answers_addTable (recordSize : UInt32) :
    t.Answers L h (.addTable recordSize) := by
  obtain ⟨f, c, sees, laid, place, chunk⟩ := sound.sees mem
  have proper := sound.proper
  rcases Handle.exec_addTable sees laid proper chunk recordSize with
    ⟨size, s', c', T, positive, whole, checked, fits, ran, left, laid'⟩ |
    ⟨fault, s', e, T, ran, left, -⟩
  · simp only [Answers, History.ask, ran, proper.start_end]
    exact ⟨_, .tableAdded positive whole checked fits,
      sound.step left place chunk laid' (proper.append_fresh checked fits)⟩
  · simp only [Answers, History.ask, ran]
    exact ⟨L, .refused, sound.step left place chunk laid proper⟩

theorem answers_append (spec : BlockSpec) :
    t.Answers L h (.append spec) := by
  obtain ⟨f, c, sees, laid, place, chunk⟩ := sound.sees mem
  have proper := sound.proper
  by_cases served : spec.check t.settings.chunkSize = .ok () ∧ L.size + spec.size.toNat ≤ maxOffset
  · obtain ⟨s', c', ran, left, laid'⟩ := Handle.exec_append sees laid proper chunk served.1 served.2
    simp only [Answers, History.ask, ran]
    exact ⟨_, .appended served.1 served.2,
      sound.step left place chunk laid' (proper.append_fresh served.1 served.2)⟩
  · obtain ⟨fault, s', e, ran, left, -⟩ := Handle.exec_append_refused sees laid proper chunk
      fun checked => Nat.lt_of_not_le fun fits => served ⟨checked, fits⟩
    simp only [Answers, History.ask, ran]
    exact ⟨L, .refused, sound.step left place chunk laid proper⟩

theorem answers_appendAfter {tail : Nat} {b : Block} (found : L.at? tail = some b) (spec : BlockSpec) :
    t.Answers L h (.appendAfter tail spec) := by
  obtain ⟨f, c, sees, laid, place, chunk⟩ := sound.sees mem
  have proper := sound.proper
  cases next : b.header.next with
  | some e =>
    obtain ⟨s', p, ran, left⟩ := Handle.exec_appendAfter_linked sees laid proper.small found next spec
    simp only [Answers, History.ask, ran]
    exact ⟨_, .refused, sound.step left place chunk laid proper⟩
  | none =>
    by_cases served : spec.check t.settings.chunkSize = .ok () ∧ L.size + spec.size.toNat ≤ maxOffset
    · obtain ⟨s', p, c', ran, left, laid'⟩ :=
        Handle.exec_appendAfter sees laid proper chunk found next served.1 served.2
      simp only [Answers, History.ask, ran]
      exact ⟨_, .attached found next served.1 served.2,
        sound.step left place chunk laid' (proper.attach_fresh served.1 served.2 found)⟩
    · obtain ⟨fault, s', p, e, ran, left, -⟩ :=
        Handle.exec_appendAfter_refused sees laid proper chunk found next
          fun checked => Nat.lt_of_not_le fun fits => served ⟨checked, fits⟩
      simp only [Answers, History.ask, ran]
      exact ⟨_, .refused, sound.step left place chunk laid proper⟩

theorem answers_readTable {head : Nat} {b : Block} (found : L.at? head = some b) :
    t.Answers L h (.readTable head) := by
  obtain ⟨f, c, sees, laid, place, chunk⟩ := sound.sees mem
  have proper := sound.proper
  cases part : b.header.tablePart? with
  | some table =>
    obtain ⟨s', p, ran, left⟩ := Handle.exec_readTable sees laid proper.small found part
    simp only [Answers, History.ask, ran]
    exact ⟨_, .read found part, sound.step left place chunk laid proper⟩
  | none =>
    obtain ⟨s', p, ran, left⟩ := Handle.exec_readHeader sees laid proper.small found
    have ran' : (h.readTable head).exec t.store = (.error (.corruptHeader (.notTableHead head)), s') := by
      rw [Handle.readTable, Action.exec_bind_ok ran, part]
      rfl
    simp only [Answers, History.ask, ran']
    exact ⟨_, .refused, sound.step left place chunk laid proper⟩

theorem answers_locate {o : Nat} {b : Block} (found : L.at? o = some b) (table : TableHeader) (record : UInt32) :
    t.Answers L h (.locate o table record) := by
  obtain ⟨f, c, sees, laid, place, chunk⟩ := sound.sees mem
  have proper := sound.proper
  obtain ⟨blocks, chain⟩ := Layout.Chain.of_at? proper found
  rcases Handle.exec_locate sees laid proper chunk chain table record with
    ⟨slotSize, offset, M, s', p, c', T, slots, positive, serves, ran, left, laid'⟩ |
    ⟨fault, s', p, e, T, ran, left, -⟩
  · have some := one_le_record positive
    simp only [Answers, History.ask, ran]
    exact ⟨M, .located chain slots positive serves,
      sound.step left place chunk laid' (serves.proper proper chain some)⟩
  · simp only [Answers, History.ask, ran]
    exact ⟨_, .refused, sound.step left place chunk laid proper⟩

theorem answers_reserve {head : Nat} {b : Block} (found : L.at? head = some b) :
    t.Answers L h (.reserve head) := by
  obtain ⟨f, c, sees, laid, place, chunk⟩ := sound.sees mem
  have proper := sound.proper
  obtain ⟨blocks, chain⟩ := Layout.Chain.of_at? proper found
  rcases Handle.exec_reserve sees laid proper chunk found chain with
    ⟨table, record, slotSize, offset, M, s', c', T, part, next, slots, serves, ran, left, laid'⟩ |
    ⟨fault, s', e, T, ran, left⟩
  · have some := Handle.one_le_next next
    simp only [Answers, History.ask, ran]
    exact ⟨_, .reserved found part chain next slots serves,
      sound.step left place chunk laid' ((serves.proper proper chain some).setLast record head)⟩
  · simp only [Answers, History.ask, ran]
    exact ⟨_, .refused, sound.step left place chunk laid proper⟩

theorem answers_write {o offset : Nat} {b : Block} {bytes : List UInt8} (found : L.at? o = some b)
    (low : o + b.header.size.toNat ≤ offset) (high : offset + bytes.length ≤ o + b.size) :
    t.Answers L h (.write offset bytes) := by
  obtain ⟨f, c, sees, laid, place, chunk⟩ := sound.sees mem
  have proper := sound.proper
  obtain ⟨skip, rfl⟩ := Nat.exists_eq_add_of_le low
  have wf := (laid.sound.at? found).wellFormed
  have inside : skip + bytes.length ≤ b.payload.length := by
    have := b.size_eq
    rw [Header.length_encode wf] at this
    omega
  have fits := Layout.at?_le found
  have small := proper.small
  obtain ⟨s', p, ran, left⟩ := Handle.exec_writeAt sees (o + b.header.size.toNat + skip) bytes (by omega)
  simp only [Answers, History.ask, ran]
  exact ⟨_, .written found inside, sound.step left place chunk (Layout.laidOut_fill laid found inside)
    (proper.fill found inside)⟩

end Answering

/-- Whatever is asked, the file keeps a proper layout. -/
theorem Sound.ask (sound : t.Sound L) (mem : h ∈ t.handles) (permitted : Loose t request) :
    ∃ M, Answer t L request (t.ask h request) M ∧ (t.ask h request).Sound M := by
  cases permitted with
  | addTable recordSize => exact answers_addTable sound mem recordSize
  | append spec => exact answers_append sound mem spec
  | appendAfter spec known found => exact answers_appendAfter sound mem (sound.unique known ▸ found) spec
  | readTable known found => exact answers_readTable sound mem (sound.unique known ▸ found)
  | locate table record known found =>
    exact answers_locate sound mem (sound.unique known ▸ found) table record
  | reserve known found => exact answers_reserve sound mem (sound.unique known ▸ found)
  | write known found low high => exact answers_write sound mem (sound.unique known ▸ found) low high

/-- What holds of a new file and is kept by requests, and by whatever else leaves the layout proper,
holds at every point of a run. -/
theorem Run.invariant {permits : History → Request → Prop} {Inv : History → Layout → Prop}
    (sound : ∀ {t L}, Inv t L → t.Sound L)
    (created : ∀ {location settings store h},
      Sound { location, settings, store, handles := [h] } [Layout.first settings] →
      Inv { location, settings, store, handles := [h] } [Layout.first settings])
    (asked : ∀ {t L h request}, Inv t L → h ∈ t.handles → permits t request →
      ∃ M, Inv (t.ask h request) M)
    (beside : ∀ {t L store handles}, Inv t L → Sound { t with store, handles } L →
      Inv { t with store, handles } L)
    (run : Run permits t) : ∃ L, Inv t L := by
  induction run with
  | created leads ran => exact ⟨_, created (Tracked.create leads ran)⟩
  | asked _ mem permitted ih =>
    obtain ⟨L, inv⟩ := ih
    exact asked inv mem permitted
  | opened _ found ran ih =>
    obtain ⟨L, inv⟩ := ih
    exact ⟨L, beside inv ((sound inv).opened found ran)⟩
  | closed _ mem ih =>
    obtain ⟨L, inv⟩ := ih
    exact ⟨L, beside inv (Tracked.close (sound inv) mem)⟩
  | meanwhile _ undisturbed ih =>
    obtain ⟨L, inv⟩ := ih
    have tracked := Tracked.meanwhile (sound inv) undisturbed
    exact ⟨L, beside inv tracked⟩

theorem Run.sound (run : Run Loose t) : ∃ L, t.Sound L := by
  refine run.invariant (fun sound => sound) (fun sound => sound) (fun sound mem permitted => ?_)
    fun _ sound => sound
  obtain ⟨M, -, sound'⟩ := sound.ask mem permitted
  exact ⟨M, sound'⟩

/-- What the layout of a file comes to for those who use it. -/
structure Tiled (t : History) (c : Content) (L : Layout) : Prop where
  content : t.store.content? t.location = some c
  /-- The file is the blocks, one after another. -/
  bytes : c.toList = L.bytes
  /-- A block's header is read where the block starts, and its size is what the header says. -/
  headers : ∀ b ∈ L, Header.decode b.bytes = .ok b.header ∧
    b.header.blockPart.blockSize.toNat = b.bytes.length
  chunked : t.settings.chunkSize.toNat ∣ c.size
  /-- A link leads to the start of a later block and gives that block's size. -/
  forward : ∀ o b e, L.at? o = some b → b.header.next = some e →
    o < e.start ∧ ∃ target, L.at? e.start = some target ∧ target.bytes.length = e.size.toNat
  /-- No block is linked from two. -/
  single : ∀ o o' b b' e e', L.at? o = some b → L.at? o' = some b' → b.header.next = some e →
    b'.header.next = some e' → e.start = e'.start → o = o'
  /-- The file header is accepted, and has the settings of creation. -/
  first : ∃ header, FileHeader.ofContent c = .ok header ∧ header.chunkSize = t.settings.chunkSize ∧
    header.table.recordSize = t.settings.recordSize ∧
    FileHeader.markOf (c.read 0 fileHeaderSize.toNat) = magic
  opens : ∀ path settings, t.store.find path = .ok t.location →
    ∃ h store, (Handle.openExisting path settings).exec t.store = (.ok h, store)
  /-- From every block a walk goes through blocks at growing offsets, and only ends where the visitor
  stops or at a block without a link. -/
  walks : ∀ h ∈ t.handles, ∀ o b, L.at? o = some b → ∃ front tail last, L.at? tail = some last ∧
    last.header.next = none ∧
    (front ++ [(tail, last.header)]).head? = some (o, b.header) ∧
    ((front ++ [(tail, last.header)]).map Prod.fst).Pairwise (· < ·) ∧
    (∀ block ∈ front, ∃ x, L.at? block.1 = some x ∧ x.header = block.2) ∧
    ∀ {α : Type} (visit : Header → Nat → α → ForInStep α) (seen : α),
      ∃ store, Action.exec (h.walk (m := StateM Store) o seen fun header offset seen =>
        pure (visit header offset seen)) t.store =
          (.ok (visitAll visit o (front ++ [(tail, last.header)]) seen), store)

theorem Sound.tiled (sound : t.Sound L) : ∃ c, t.Tiled c L := by
  obtain ⟨c, content, laid⟩ := sound.content
  have proper := sound.proper
  refine ⟨c, content, laid.bytes, fun b mem => ⟨?_, (laid.sound b mem).announced⟩, ?_, ?_, ?_, ?_, ?_, ?_⟩
  · exact Header.decode_encode (laid.sound b mem).wellFormed b.payload
  · rw [laid.size]
    exact Layout.Proper.dvd_size proper.chunked
  · intro o b e found next
    exact proper.forward found next
  · intro o o' b b' e e' found found' next next' same
    exact proper.single found found' next next' same
  · exact Tracked.ofContent laid proper
  · intro path settings found
    obtain ⟨h, store, ran, -⟩ := Tracked.openExisting sound found settings
    exact ⟨h, store, ran⟩
  · intro h mem o b found
    obtain ⟨f, c', sees, laid', -, chunk⟩ := Tracked.sees sound mem
    obtain ⟨blocks, chain⟩ := Layout.Chain.of_at? proper found
    obtain ⟨front, tail, last, rfl, there, ends⟩ := chain.split_last
    refine ⟨front, tail, last, there, ends, ?_, chain.sorted proper, fun block mem => ?_, ?_⟩
    · obtain ⟨b', rest, found', eq⟩ := chain.head_eq
      rw [found] at found'
      cases found'
      rw [eq]
      rfl
    · exact chain.at?_of_mem (List.mem_append_left _ mem)
    · intro α visit seen
      obtain ⟨store, p, ran, -⟩ := Handle.exec_walk visit sees laid' proper chunk chain seen
      exact ⟨store, ran⟩

/-- Over any run the file stays tiled by blocks that are linked forward. -/
theorem run_tiled (run : Run Loose t) : ∃ c L, t.Tiled c L := by
  obtain ⟨L, sound⟩ := run.sound
  obtain ⟨c, tiled⟩ := sound.tiled
  exact ⟨c, L, tiled⟩

theorem run_tiled_sample :
    ((sample.ask ⟨0⟩ (.addTable 7)).ask ⟨0⟩ (.append (.data 64 1))).heads = [64, 0] ∧
      ∃ c L, ((sample.ask ⟨0⟩ (.addTable 7)).ask ⟨0⟩ (.append (.data 64 1))).Tiled c L :=
  ⟨by decide +kernel, run_tiled (.asked (.asked (run_sample Loose) (by simp) (.addTable 7))
    (by simp) (.append (.data 64 1)))⟩

theorem Run.first (run : Run Loose t) : ∃ L b, t.LaidOut L ∧ L.at? 0 = some b := by
  obtain ⟨L, sound⟩ := run.sound
  obtain ⟨b, -, found, -⟩ := sound.proper.head
  exact ⟨L, b, sound.content, found⟩

theorem Run.reserved (run : Run Loose t) (mem : h ∈ t.handles) : Run Loose (t.ask h (.reserve 0)) := by
  obtain ⟨L, b, laid, found⟩ := run.first
  exact .asked run mem (.reserve laid found)

/-- Two handles on the sample, whose first block one of them has filled. -/
def filled : History := (paired.ask ⟨0⟩ (.reserve 0)).ask ⟨0⟩ (.reserve 0)

@[simp] theorem handles_filled : filled.handles = [⟨1⟩, ⟨0⟩] := by simp [filled, paired]

theorem run_filled : Run Loose filled :=
  ((run_paired Loose).reserved (by simp [paired])).reserved (by simp [paired])

end History
end RecordFile
