import Mathlib
import RecordFile.Proofs.Ledger

/-! What a commit does to links. The header that was lent to a body is written back with its link, so a
block that the body links to the head of the table is lost if the head had no link when it was lent. -/
namespace RecordFile

/-- Records of one table that are looked up. What one look-up gives decides on the next. -/
inductive Lookups
  | done
  | locate (record : UInt32) (next : Except Fault Nat → Lookups)

def Lookups.run (h : Handle) (head : Nat) (table : TableHeader) : Lookups → Action Unit
  | done => pure ()
  | locate record next => attempt (h.locate head table record) fun result => (next result).run h head table

/-- The body of a reservation that looks up records of the table, for which its chain may grow, and
commits. It tells which header it was lent, and the store when it is over. -/
def Handle.lookingUp (h : Handle) (head : Nat) (lookups : TableHeader → Slot → Lookups) (table : TableHeader)
    (slot : Slot) : Action (Outcome (TableHeader × Store) × TableHeader) := do
  (lookups table slot).run h head table
  let store ← get
  return (.commit (table, store), { table with lastRecord := slot.record })

theorem Header.next_of_tablePart {header : Header} {table : TableHeader}
    (part : header.tablePart? = some table) : header.next = table.block.next := by
  revert part
  cases header <;> simp only [tablePart?, next, blockPart, Option.some.injEq, reduceCtorEq, false_implies] <;>
    · rintro rfl
      rfl

theorem Block.drop_setNext (e : Extent) (b : Block) : (b.setNext e).bytes.drop 40 = b.bytes.drop 40 := by
  rw [bytes_setNext, List.take_zero, List.nil_append, List.drop_append, BlockHeader.length_encode,
    List.drop_of_length_le (by rw [BlockHeader.length_encode]; omega), List.nil_append, List.drop_drop]

/-- All of a block but its first bytes is as it was before the block was linked. -/
theorem Block.past_linked {b b' : Block} (linked : b' = b ∨ ∃ e, b' = b.setNext e) :
    b'.size = b.size ∧ b'.bytes.drop 40 = b.bytes.drop 40 := by
  rcases linked with rfl | ⟨e, rfl⟩
  · exact ⟨rfl, rfl⟩
  · exact ⟨size_setNext e b, drop_setNext e b⟩

namespace Layout

variable {settings : Settings} {L : Layout} {head : Nat} {b last : Block}

def KeepsLinks (L M : Layout) : Prop :=
  ∀ o b e, L.at? o = some b → b.header.next = some e → ∃ b', M.at? o = some b' ∧ b'.header.next = some e

def put (L : Layout) (o : Nat) (b : Block) : Layout := L.edit (fun _ => b) o

section Put

variable (found : L.at? head = some last) (size : b.size = last.size)

include found size

theorem at?_put (o : Nat) : (L.put head b).at? o = if o = head then some b else L.at? o := by
  have same : ∀ x, L.at? head = some x → ((fun _ => b) x).size = x.size := by
    intro x there
    rw [found] at there
    cases there
    exact size
  rw [put, at?_edit same, found]
  rfl

variable (link : b.header.next = none ∨ b.header.next = last.header.next)

include link

theorem keepsLinks_put : L.KeepsLinks (L.put head b) ↔ b.header.next = last.header.next := by
  constructor
  · intro keeps
    cases next : last.header.next with
    | none =>
      rw [next] at link
      exact link.elim id id
    | some e =>
      obtain ⟨x, there, next'⟩ := keeps head last e found next
      rw [at?_put found size, if_pos rfl] at there
      cases there
      exact next'
  · intro same o x e there next
    by_cases here : o = head
    · subst here
      rw [found] at there
      cases there
      exact ⟨b, by rw [at?_put found size, if_pos rfl], same.trans next⟩
    · exact ⟨x, by rw [at?_put found size, if_neg here, there], next⟩

/-- Without its link the head is the whole chain. -/
theorem chain_put (proper : L.Proper settings) {blocks : List (Nat × Header)} (chain : L.Chain head blocks) :
    ∃ blocks', (L.put head b).Chain head blocks' ∧ blocks'.map Prod.fst =
      if b.header.next = last.header.next then blocks.map Prod.fst else [head] := by
  have here : (L.put head b).at? head = some b := by rw [at?_put found size, if_pos rfl]
  have sorted := chain.sorted proper
  obtain ⟨x, rest, found', rfl⟩ := chain.head_eq
  rw [found] at found'
  cases found'
  by_cases same : b.header.next = last.header.next
  case neg =>
    have ends : b.header.next = none := link.resolve_right same
    exact ⟨_, .tail here ends, by rw [if_neg same]; rfl⟩
  rw [if_pos same]
  by_cases more : rest = []
  · subst more
    exact ⟨_, .tail here (same.trans chain.next_of_single), rfl⟩
  · obtain ⟨-, e, next, onward⟩ := chain.rest_of_cons more
    refine ⟨_, .link here (same.trans next) (onward.congr fun block mem => ?_), rfl⟩
    obtain ⟨y, there, header⟩ := onward.at?_of_mem mem
    have later := (List.pairwise_cons.mp sorted).1 block.1 (List.mem_map_of_mem mem)
    exact ⟨y, by rw [at?_put found size, if_neg (by omega), there], header⟩

end Put

end Layout

namespace Handle

variable {h : Handle} {s : Store} {f : OpenFile} {c : Content} {L : Layout} {settings : Settings} {o : Nat}

/-- A reservation that succeeds has run its body, on the header and the slot that were found. -/
theorem exec_reserveWith_ok (sees : h.Sees s f c) (laid : c.LaidOut L) (proper : L.Proper settings)
    (chunk : f.header.chunkSize = settings.chunkSize) {b : Block} (found : L.at? o = some b) {α : Type}
    {body : TableHeader → Slot → Action (Outcome α × TableHeader)} {value : α} {after : Store}
    (ran : Action.exec (h.reserveWith (m := StateM Store) o body) s = (.ok value, after)) :
    ∃ fresh slot s₁ p c₁ t M b', slot.record.toNat < 2 ^ 31 ∧
      h.Leaves s { f with position := p, held := .head o :: f.held } c₁ t s₁ ∧ c₁.LaidOut M ∧ M.Proper settings ∧
      M.at? o = some b' ∧ b'.header.tablePart? = some fresh ∧
      ∀ {result s₂ f₂ c₂}, (body fresh slot).exec s₁ = (result, s₂) → h.Sees s₂ f₂ c₂ →
        f₂.held = .head o :: f.held → (result.map fun ended => ended.1.value) = .ok value ∧
          h.Leaves s₂ { f₂ with position := f.position, held := f.held } (committed o c₂ result)
            (s₂.locks.remove h.descriptor (.head o)) after := by
  -- The body is run as work that keeps nothing in mind.
  have mirrors : Work.Mirrors (h.reserveWith o fun table slot => (perform (body table slot) : Work Unit _))
      (h.reserveWith (m := StateM Store) o body) := .reserveWith fun _ _ => .perform _
  have mirrored := mirrors () s
  rw [ran] at mirrored
  obtain ⟨blocks, chain⟩ := Layout.Chain.of_at? proper found
  rcases exec_reserveWith_found sees laid proper chunk found chain with
    ⟨table, record, slotSize, offset, M, s₁, p, c₁, t₁, fresh, b', part, next, slots, serves, left₁, laid₁, found',
      part', finish⟩ | ⟨fault, e, fails⟩
  · refine ⟨fresh, { record, offset }, s₁, p, c₁, t₁, M, b', (nextRecord_ok next).2, left₁, laid₁,
      serves.proper proper chain (one_le_next next), found', part', ?_⟩
    intro result s₂ f₂ c₂ ran₂ sees₂ held
    obtain ⟨s₃, ran₃, left₃⟩ := finish (fun table slot => perform (body table slot))
      (Work.exec_perform_of ran₂ ()) sees₂ held
    rw [ran₃] at mirrored
    obtain ⟨told, rfl⟩ := Prod.mk.inj mirrored
    exact ⟨told, left₃⟩
  · obtain ⟨s', t, ran', -⟩ := fails (fun table slot => perform (body table slot)) ()
    rw [ran'] at mirrored
    cases mirrored

/-- A header written to a block that was linked to a next one since it was read. -/
theorem laidOut_put {b b' : Block} {table : TableHeader} {record : UInt32} (laid : c.LaidOut L)
    (found : L.at? o = some b') (linked : b' = b ∨ ∃ e, b' = b.setNext e) (sound : b.Sound)
    (part : b.header.tablePart? = some table) (small : record.toNat < 2 ^ 31) :
    (c.write o ({ table with lastRecord := record } : TableHeader).encodeVector.toList).LaidOut
      (L.put o (b.setLast record)) := by
  have length : (({ table with lastRecord := record } : TableHeader).encodeVector.toList).length = 40 :=
    Vector.length_toList
  have long := Block.length_encode_table part
  have least := b.size_eq
  obtain ⟨size, past⟩ := Block.past_linked linked
  show Content.LaidOut (c.write (o + 0) _) _
  refine laid.write found ?_ (sound.setLast small) ?_
  · rw [length]
    omega
  · rw [length, Nat.zero_add, past]
    exact Block.bytes_setLast part record

end Handle

/-- Look-ups add nothing to blocks but links. -/
theorem Lookups.exec_run {h : Handle} {s : Store} {f : OpenFile} {c : Content} {L : Layout} {settings : Settings}
    {head : Nat} {b : Block} {table : TableHeader} (lookups : Lookups) (sees : h.Sees s f c) (laid : c.LaidOut L)
    (proper : L.Proper settings) (chunk : f.header.chunkSize = settings.chunkSize) (found : L.at? head = some b) :
    ∃ s' p e c' t M, (lookups.run h head table).exec s = (.ok (), s') ∧
      h.Leaves s { f with position := p, lastErrno := e } c' t s' ∧ c'.LaidOut M ∧ M.Proper settings ∧
      L.Extends M := by
  induction lookups generalizing s f c L b with
  | done => exact ⟨s, _, _, c, _, L, rfl, sees.leaves, laid, proper, .refl L⟩
  | locate record next ih =>
    rw [run]
    obtain ⟨blocks, chain⟩ := Layout.Chain.of_at? proper found
    rcases Handle.exec_locate sees laid proper chunk chain table record with
      ⟨slotSize, offset, M, s₁, p, c₁, t, slots, positive, serves, ran, left, laid₁⟩ |
      ⟨fault, s₁, p, e, t, ran, left, -⟩
    · have some_ := one_le_record positive
      have extended := serves.extends chain some_
      obtain ⟨b', found', -⟩ := extended head b found
      obtain ⟨s₂, p₂, e₂, c₂, t₂, N, ran₂, left₂, laid₂, proper₂, extended₂⟩ :=
        ih (.ok offset) left.sees laid₁ (serves.proper proper chain some_) chunk found'
      refine ⟨s₂, p₂, e₂, c₂, t₂, N, ?_, left.trans left₂ rfl, laid₂, proper₂, extended.trans extended₂⟩
      rw [Action.exec_attempt, ran]
      exact ran₂
    · obtain ⟨s₂, p₂, e₂, c₂, t₂, N, ran₂, left₂, laid₂, proper₂, extended₂⟩ :=
        ih (.error fault) left.sees laid proper chunk found
      refine ⟨s₂, p₂, e₂, c₂, t₂, N, ?_, left.trans left₂ rfl, laid₂, proper₂, extended₂⟩
      rw [Action.exec_attempt, ran]
      exact ran₂

theorem Handle.exec_lookingUp {h : Handle} {head : Nat} {lookups : TableHeader → Slot → Lookups}
    {lent : TableHeader} {slot : Slot} {s s' : Store}
    (ran : ((lookups lent slot).run h head lent).exec s = (.ok (), s')) :
    (h.lookingUp head lookups lent slot).exec s =
      (.ok (.commit (lent, s'), { lent with lastRecord := slot.record }), s') := by
  rw [lookingUp, Action.exec_bind_ok ran, Action.exec_bind_ok (Action.exec_get s'), Action.exec_pure]

namespace History

variable {t : History} {h : Handle} {head : Nat}

/-- What a commit makes of links, if `lent` was lent to the body, after which the layout is `L`, and the
head of the table `table`. In the end the layout is `M`. -/
structure Committed (t : History) (head : Nat) (lent : TableHeader) (between after : Store) (L M : Layout)
    (table : TableHeader) : Prop where
  between : LaidOut { t with store := between } L
  after : LaidOut { t with store := after } M
  found : L.table? head = some table
  /-- A link that the head had when it was lent, it has still. -/
  link : lent.block.next = none ∨ lent.block.next = table.block.next
  links : L.KeepsLinks M ↔ lent.block.next = table.block.next
  /-- If the head was linked by the body, the chain is cut off after it. -/
  chain : ∀ blocks, L.Chain head blocks → ∃ blocks', M.Chain head blocks' ∧ blocks'.map Prod.fst =
    if lent.block.next = table.block.next then blocks.map Prod.fst else [head]

theorem Committed.put {lent table : TableHeader} {between after : Store} {L : Layout} {b b' : Block}
    {record : UInt32} (laid : LaidOut { t with store := between } L)
    (written : LaidOut { t with store := after } (L.put head (b.setLast record))) (proper : L.Proper t.settings)
    (found : L.at? head = some b') (part : b.header.tablePart? = some lent)
    (part' : b'.header.tablePart? = some table)
    (linked : b' = b ∨ b.header.next = none ∧ ∃ e, b' = b.setNext e) :
    t.Committed head lent between after L (L.put head (b.setLast record)) table := by
  have lentNext : (b.setLast record).header.next = lent.block.next :=
    (Block.next_setLast record b).trans (Header.next_of_tablePart part)
  have diskNext : b'.header.next = table.block.next := Header.next_of_tablePart part'
  have size : (b.setLast record).size = b'.size := by
    rw [Block.size_setLast]
    rcases linked with rfl | ⟨-, e, rfl⟩
    · rfl
    · exact (Block.size_setNext e b).symm
  have link : (b.setLast record).header.next = none ∨ (b.setLast record).header.next = b'.header.next := by
    rw [Block.next_setLast]
    rcases linked with rfl | ⟨ends, -⟩
    · exact .inr rfl
    · exact .inl ends
  have links := Layout.keepsLinks_put found size link
  have chain := fun blocks (chain : L.Chain head blocks) => Layout.chain_put found size link proper chain
  rw [lentNext, diskNext] at link links
  simp only [lentNext, diskNext] at chain
  exact ⟨laid, written, by rw [Layout.table?, found, Option.bind_some, part'], link, links, chain⟩

/-- A commit keeps all links if the head is linked as it was when it was lent, so always if it was linked
then, and loses that of the head otherwise. -/
theorem run_committed (run : Run Orderly t) (mem : h ∈ t.handles) (known : head ∈ t.heads)
    (lookups : TableHeader → Slot → Lookups) {lent : TableHeader} {between after : Store}
    (ran : Action.exec (h.reserveWith (m := StateM Store) head (h.lookingUp head lookups)) t.store =
      (.ok (lent, between), after)) :
    ∃ L M table, t.Committed head lent between after L M table := by
  obtain ⟨L, kept⟩ := run.kept
  obtain ⟨blocks, table, ledger⟩ := kept.ledgers head known
  obtain ⟨f, c, sees, laid, place, chunk⟩ := Tracked.sees kept.sound mem
  obtain ⟨b, found, -⟩ := ledger.chained.at?_head
  obtain ⟨fresh, slot, s₁, p, c₁, T, M, b', small, left₁, laid₁, proper₁, found₁, part₁, ends⟩ :=
    Handle.exec_reserveWith_ok sees laid kept.sound.proper chunk found ran
  obtain ⟨s₂, p₂, e, c₂, T₂, N, ran₂, left₂, laid₂, proper₂, extended⟩ :=
    (lookups fresh slot).exec_run left₁.sees laid₁ proper₁ chunk found₁
  obtain ⟨told, left₃⟩ := ends (Handle.exec_lookingUp ran₂) left₂.sees rfl
  cases told
  obtain ⟨b'', table₂, found₂, part₂⟩ := extended.tablePart? found₁ part₁
  obtain ⟨_, there, linked⟩ := extended head b' found₁
  cases found₂.symm.trans there
  have written := Handle.laidOut_put laid₂ found₂ (linked.imp id And.right) (laid₁.sound.at? found₁) part₁ small
  exact ⟨N, _, table₂, .put ⟨c₂, place ▸ left₂.sees.content, laid₂⟩ ⟨_, place ▸ left₃.sees.content, written⟩
    proper₂ found₂ part₁ part₂ linked⟩

/-- A record that the first block of the sample has no slot for. -/
def third (_ : TableHeader) (_ : Slot) : Lookups := .locate 3 fun _ => .done

theorem run_committed_third : ∃ lent between after,
    Action.exec (Handle.reserveWith (m := StateM Store) ⟨0⟩ 0 (Handle.lookingUp ⟨0⟩ 0 third)) sample.store =
      (.ok (lent, between), after) ∧ ∃ L M table, sample.Committed 0 lent between after L M table := by
  rcases ran : Action.exec (Handle.reserveWith (m := StateM Store) ⟨0⟩ 0 (Handle.lookingUp ⟨0⟩ 0 third))
    sample.store with ⟨fault | ⟨lent, between⟩, after⟩
  · have fine : (Action.exec (Handle.reserveWith (m := StateM Store) ⟨0⟩ 0 (Handle.lookingUp ⟨0⟩ 0 third))
      sample.store).1.isOk = true := by decide +kernel
    rw [ran] at fine
    cases fine
  · exact ⟨lent, between, after, rfl, run_committed (run_sample Orderly) (by simp) (by simp) third ran⟩

/-- The look-up of that record links a block to the head, and the commit loses it. -/
theorem commit_unlinks :
    (Action.exec (Handle.reserveWith (m := StateM Store) ⟨0⟩ 0 (Handle.lookingUp ⟨0⟩ 0 third)) sample.store).1.map
        (fun told => ((Handle.readTable ⟨0⟩ 0).exec told.2).1.map fun table => table.block.next) =
      .ok (.ok (some { offset := 64, size := 64 })) ∧
    ((Handle.readTable ⟨0⟩ 0).exec (Action.exec (Handle.reserveWith (m := StateM Store) ⟨0⟩ 0
        (Handle.lookingUp ⟨0⟩ 0 third)) sample.store).2).1.map (fun table => table.block.next) =
      .ok none := by
  decide +kernel

end History
end RecordFile
