import Mathlib
import RecordFile.Proofs.Ledger

/-! The slots given out over a run. Each has bytes of its own, clear of all headers, and a record is
located where it was when its number was given out. -/
namespace RecordFile

theorem Slot.apart_of_numbers {entries : List (Nat × Slot)}
    (once : ∀ head, ((entries.filter fun entry => entry.1 = head).map
      fun entry => entry.2.record.toNat).Nodup) :
    entries.Pairwise fun entry entry' => entry.1 = entry'.1 →
      entry.2.record.toNat ≠ entry'.2.record.toNat := by
  induction entries with
  | nil => exact .nil
  | cons latest earlier ih =>
    rw [List.pairwise_cons]
    constructor
    · intro entry mem same number
      have fresh := once latest.1
      rw [List.filter_cons_of_pos (by simp), List.map_cons, List.nodup_cons, number] at fresh
      have among : entry ∈ earlier.filter fun entry => entry.1 = latest.1 :=
        List.mem_filter.mpr ⟨mem, by simp [same]⟩
      exact fresh.1 (List.mem_map_of_mem among)
    · exact ih fun head => (once head).sublist (((List.sublist_cons_self latest _).filter _).map _)

namespace Layout

variable {settings : Settings} {chunkSize : UInt32} {L : Layout} {head : Nat}
  {blocks : List (Nat × Header)} {table : TableHeader}

/-- Bytes of a slot of the table at `head`; none if there is no table. -/
def width (L : Layout) (head : Nat) : Nat := (L.table? head).elim 0 TableHeader.width

/-- The bytes of a slot that was given out of the table at the head noted with it. -/
def span (L : Layout) (entry : Nat × Slot) : Region := ⟨entry.2.offset, L.width entry.1⟩

theorem Table.width_eq (t : Table chunkSize L head blocks table) : L.width head = table.width := by
  rw [width, t.table?_head]
  rfl

theorem Chain.rooms (chain : L.Chain head blocks) (proper : L.Proper settings) (sound : L.Sound) :
    (blocks.map Room.ofBlock).Pairwise fun r r' => r.start + r.bytes ≤ r'.start := by
  rw [List.pairwise_map]
  refine (List.pairwise_map.mp (chain.sorted proper)).imp_of_mem fun mem mem' before => ?_
  obtain ⟨b, found, header⟩ := chain.at?_of_mem mem
  obtain ⟨b', found', header'⟩ := chain.at?_of_mem mem'
  have stop := (sound.room found).2
  have start := (sound.room found').1
  rw [header] at stop
  rw [header'] at start
  have between := at?_disjoint found found' before
  rw [stop, start]
  omega

end Layout

namespace Ledger

variable {chunkSize : UInt32} {headers : List (Nat × TableHeader)} {given : List (Nat × Slot)}
  {L : Layout} {head : Nat} {blocks : List (Nat × Header)} {table : TableHeader} {slot : Slot}

theorem record_pos (ledger : Ledger chunkSize headers given L head blocks table)
    (mem : (head, slot) ∈ given) : 1 ≤ slot.record.toNat := by
  have counted : slot.record.toNat ∈ (given.filter fun entry => entry.1 = head).map
      fun entry => entry.2.record.toNat :=
    List.mem_map_of_mem (List.mem_filter.mpr ⟨mem, by simp⟩)
  rw [ledger.numbers, List.mem_reverse, List.mem_range'_1] at counted
  exact counted.1

theorem before {settings : Settings} (ledger : Ledger chunkSize headers given L head blocks table)
    (proper : L.Proper settings) (sound : L.Sound) {slot' : Slot} (mem : (head, slot) ∈ given)
    (mem' : (head, slot') ∈ given) (less : slot.record.toNat < slot'.record.toNat) :
    (L.span (head, slot)).stop ≤ slot'.offset := by
  have positive := ledger.record_pos mem
  have earlier : slot.record.toNat - 1 < slot'.record.toNat - 1 := by omega
  rw [Region.stop, Layout.span, ledger.chained.width_eq]
  exact Room.slot_disjoint (ledger.chained.chain.rooms proper sound) earlier (ledger.places slot mem)
    (ledger.places slot' mem')

end Ledger

namespace History

variable {t : History} {L : Layout} {h : Handle}

namespace Kept

theorem span_inside (kept : t.Kept L) {entry : Nat × Slot} (mem : entry ∈ t.given) :
    ∃ blocks table o b, Ledger t.settings.chunkSize t.headers t.given L entry.1 blocks table ∧
      L.at? o = some b ∧ (o, b.header) ∈ blocks ∧ o + b.header.size.toNat ≤ entry.2.offset ∧
      (L.span entry).stop ≤ o + b.size := by
  obtain ⟨blocks, table, ledger⟩ := kept.ledgers entry.1 (kept.given entry.1 entry.2 mem)
  obtain ⟨c, -, laid⟩ := kept.sound.content
  obtain ⟨o, b, found, inChain, low, high⟩ :=
    ledger.chained.slot_inside laid.sound (ledger.places entry.2 mem)
  rw [← ledger.chained.width_eq] at high
  exact ⟨blocks, table, o, b, ledger, found, inChain, low, high⟩

theorem numbers_nodup (kept : t.Kept L) (head : Nat) :
    ((t.given.filter fun entry => entry.1 = head).map fun entry => entry.2.record.toNat).Nodup := by
  by_cases mem : head ∈ t.heads
  · obtain ⟨blocks, table, ledger⟩ := kept.ledgers head mem
    rw [ledger.numbers, List.nodup_reverse]
    exact List.nodup_range'
  · rw [kept.given_of_not_mem mem]
    exact List.nodup_nil

theorem spans_apart (kept : t.Kept L) :
    t.given.Pairwise fun entry entry' => ¬ (L.span entry).Overlaps (L.span entry') := by
  have proper := kept.sound.proper
  obtain ⟨c, -, laid⟩ := kept.sound.content
  refine (Slot.apart_of_numbers kept.numbers_nodup).imp_of_mem fun {entry entry'} mem mem' differ => ?_
  have start : (L.span entry).offset = entry.2.offset := rfl
  have start' : (L.span entry').offset = entry'.2.offset := rfl
  rintro ⟨reaches, reaches'⟩
  by_cases same : entry.1 = entry'.1
  · obtain ⟨head, slot⟩ := entry
    obtain ⟨head', slot'⟩ := entry'
    obtain rfl : head = head' := same
    obtain ⟨blocks, table, ledger⟩ := kept.ledgers head (kept.given head slot mem)
    rcases Nat.lt_or_gt_of_ne (differ rfl) with less | less
    · exact Nat.not_lt.mpr (ledger.before proper laid.sound mem mem' less) reaches'
    · exact Nat.not_lt.mpr (ledger.before proper laid.sound mem' mem less) reaches
  · -- Tables have no block in common, and blocks do not overlap.
    obtain ⟨blocks, table, o, b, ledger, found, inChain, low, high⟩ := kept.span_inside mem
    obtain ⟨blocks', table', o', b', ledger', found', inChain', low', high'⟩ := kept.span_inside mem'
    have apart := kept.apart (kept.given _ _ mem) (kept.given _ _ mem') same ledger.chained.chain
      ledger'.chained.chain o (List.mem_map_of_mem inChain)
    have differ : o ≠ o' := fun here => apart (here ▸ List.mem_map_of_mem inChain')
    rcases Nat.lt_or_gt_of_ne differ with less | less
    · have := Layout.at?_disjoint found found' less
      omega
    · have := Layout.at?_disjoint found' found less
      omega

theorem span_clear (kept : t.Kept L) {entry : Nat × Slot} (mem : entry ∈ t.given) {o : Nat} {b : Block}
    (found : L.at? o = some b) : ¬ (L.span entry).Overlaps ⟨o, b.header.size.toNat⟩ := by
  obtain ⟨c, -, laid⟩ := kept.sound.content
  obtain ⟨blocks, table, o', b', ledger, found', -, low, high⟩ := kept.span_inside mem
  have size := (laid.sound.at? found).headerSize_le
  have start : (L.span entry).offset = entry.2.offset := rfl
  rintro ⟨before, after⟩
  simp only [Region.stop] at before
  have stop : o < (L.span entry).stop := after
  rcases Nat.lt_trichotomy o o' with less | rfl | less
  · have := Layout.at?_disjoint found found' less
    omega
  · rw [found] at found'
    cases found'
    omega
  · have := Layout.at?_disjoint found' found less
    omega

/-- Locating a record that was given out reads the file only, and comes to the slot that was given. -/
theorem locate_given (kept : t.Kept L) {head : Nat} {slot : Slot} (mem : (head, slot) ∈ t.given)
    {blocks : List (Nat × Header)} {table known : TableHeader}
    (ledger : Ledger t.settings.chunkSize t.headers t.given L head blocks table)
    (same : known.recordSize = table.recordSize) {s : Store} {f : OpenFile} {c : Content}
    (sees : h.Sees s f c) (laid : c.LaidOut L) (chunk : f.header.chunkSize = t.settings.chunkSize) :
    ∃ store, (h.locate head known slot.record).exec s = (.ok slot.offset, store) := by
  have positive := ledger.record_pos mem
  have some : slot.record ≠ 0 := by
    intro zero
    rw [zero] at positive
    exact absurd positive (by decide)
  have width := TableHeader.width_congr same
  have slots : known.slotSize = .ok table.width :=
    width ▸ TableHeader.slotSize_eq (same ▸ ledger.chained.sized)
  have here := ledger.places slot mem
  rcases ledger.chained.place positive with ⟨offset, there, place⟩ | ⟨past, -⟩
  · rw [here] at there
    cases there
    obtain ⟨store, p, ran, -⟩ :=
      Handle.exec_locate_found sees laid kept.sound.proper chunk ledger.chained.chain slots some place
    exact ⟨store, ran⟩
  · have inside := Room.slot_isSome.mp (show (Room.slot _ _ _).isSome by rw [here]; rfl)
    omega

end Kept

/-- What the slots given out come to for those who use them. -/
structure Slotted (t : History) (c : Content) (L : Layout) : Prop where
  content : t.store.content? t.location = some c
  laid : c.LaidOut L
  /-- A slot is of the size of its table's records, and one more byte. -/
  sized : ∀ entry ∈ t.given, ∃ table, L.table? entry.1 = some table ∧
    (L.span entry).len = table.recordSize.toNat + 1
  /-- No two slots overlap, of one table or of two. -/
  apart : t.given.Pairwise fun entry entry' => ¬ (L.span entry).Overlaps (L.span entry')
  inside : ∀ entry ∈ t.given, (L.span entry).stop ≤ c.size
  /-- No slot overlaps with a header. -/
  clear : ∀ entry ∈ t.given, ∀ o b, L.at? o = some b → ¬ (L.span entry).Overlaps ⟨o, b.header.size.toNat⟩
  /-- Every handle locates the record where it was given out, by the header as it is read now. -/
  stays : ∀ h ∈ t.handles, ∀ head slot, (head, slot) ∈ t.given → ∃ table store store',
    (h.readTable head).exec t.store = (.ok table, store) ∧
    (h.locate head table slot.record).exec store = (.ok slot.offset, store')
  /-- Headers that were read before serve as well. -/
  recalled : ∀ h ∈ t.handles, ∀ head slot table, (head, slot) ∈ t.given → (head, table) ∈ t.headers →
    ∃ store, (h.locate head table slot.record).exec t.store = (.ok slot.offset, store)

theorem Kept.slotted (kept : t.Kept L) : ∃ c, t.Slotted c L := by
  obtain ⟨c, content, laid⟩ := kept.sound.content
  have proper := kept.sound.proper
  refine ⟨c, content, laid, fun entry mem => ?_, kept.spans_apart, fun entry mem => ?_,
    fun entry mem o b found => kept.span_clear mem found, fun h opened head slot mem => ?_,
    fun h opened head slot known mem read => ?_⟩
  · obtain ⟨blocks, table, ledger⟩ := kept.ledgers entry.1 (kept.given entry.1 entry.2 mem)
    exact ⟨table, ledger.chained.table?_head, ledger.chained.width_eq⟩
  · obtain ⟨_, _, o, b, -, found, -, -, high⟩ := kept.span_inside mem
    rw [laid.size]
    exact high.trans (Layout.at?_le found)
  · obtain ⟨f, c', sees, laid', -, chunk⟩ := Tracked.sees kept.sound opened
    obtain ⟨blocks, table, ledger⟩ := kept.ledgers head (kept.given head slot mem)
    obtain ⟨b, found, part, -⟩ := ledger.chained.at?_head
    obtain ⟨s₁, p, ran, left⟩ := Handle.exec_readTable sees laid' proper.small found part
    obtain ⟨s₂, ran₂⟩ := kept.locate_given mem ledger rfl left.sees laid' chunk
    exact ⟨table, s₁, s₂, ran, ran₂⟩
  · obtain ⟨f, c', sees, laid', -, chunk⟩ := Tracked.sees kept.sound opened
    obtain ⟨blocks, table, ledger⟩ := kept.ledgers head (kept.given head slot mem)
    exact kept.locate_given mem ledger (ledger.headers known read) sees laid' chunk

/-- Over any run the slots given out keep apart and stay where they are. -/
theorem run_slotted (run : Run Orderly t) : ∃ c L, t.Slotted c L := by
  obtain ⟨L, kept⟩ := run.kept
  obtain ⟨c, slotted⟩ := kept.slotted
  exact ⟨c, L, slotted⟩

theorem run_slotted_sample :
    (((sample.ask ⟨0⟩ (.addTable 7)).ask ⟨0⟩ (.reserve 0)).ask ⟨0⟩ (.reserve 64)).given =
        [(64, ⟨1, 104⟩), (0, ⟨1, 48⟩)] ∧
      ∃ c L, (((sample.ask ⟨0⟩ (.addTable 7)).ask ⟨0⟩ (.reserve 0)).ask ⟨0⟩ (.reserve 64)).Slotted c L := by
  have heads : (sample.ask ⟨0⟩ (.addTable 7)).heads = [64, 0] := by decide +kernel
  refine ⟨by decide +kernel, run_slotted ?_⟩
  refine .asked (.asked (.asked (run_sample Orderly) ?_ (.addTable 7)) ?_ (.reserve ?_)) ?_ (.reserve ?_)
  all_goals simp [heads]

end History
end RecordFile
