import Mathlib
import RecordFile.Stream
import RecordFile.Proofs.Layout

/-! Links between the blocks of a file. In a proper layout every link names a later block exactly and
no block twice, so each chain is finite and there is one way only to come to a block. -/
namespace RecordFile

theorem Settings.check_ok {settings : Settings} (accepted : settings.check = .ok ()) :
    settings.recordSize ≠ 0 ∧ settings.recordSize.toNat < 2 ^ 31 ∧
      48 + settings.recordSize.toNat + 1 ≤ settings.chunkSize.toNat := by
  rw [check] at accepted
  split at accepted
  · cases accepted
  · split at accepted
    · cases accepted
    · split at accepted
      · cases accepted
      case isFalse zero large small =>
        have least : fileHeaderSize.toNat = 48 := rfl
        rw [least, presenceSize] at small
        exact ⟨zero, by omega, by omega⟩

namespace Layout

/-- What holds of the layout of a file, made with some settings, at all times. -/
structure Proper (settings : Settings) (L : Layout) : Prop where
  accepted : settings.check = .ok ()
  small : L.size ≤ maxOffset
  chunked : ∀ b ∈ L, settings.chunkSize.toNat ∣ b.size
  /-- A link leads to a later block and gives that block's size. -/
  forward : ∀ {o b e}, L.at? o = some b → b.header.next = some e →
    o < e.start ∧ ∃ target, L.at? e.start = some target ∧ target.size = e.size.toNat
  /-- No two links lead to the same block. -/
  single : ∀ {o o' b b' e e'}, L.at? o = some b → L.at? o' = some b' → b.header.next = some e →
    b'.header.next = some e' → e.start = e'.start → o = o'
  /-- The first block holds the file header. -/
  head : ∃ b header, L.at? 0 = some b ∧ b.header = .file header ∧
    header.chunkSize = settings.chunkSize ∧ header.table.recordSize = settings.recordSize

namespace Proper

variable {settings : Settings} {L : Layout}

theorem chunk_pos (proper : L.Proper settings) : 48 < settings.chunkSize.toNat := by
  have := (Settings.check_ok proper.accepted).2.2
  omega

theorem chunk_some (proper : L.Proper settings) : 0 < settings.chunkSize.toNat :=
  Nat.zero_lt_of_lt proper.chunk_pos

theorem dvd_size (chunked : ∀ b ∈ L, settings.chunkSize.toNat ∣ b.size) :
    settings.chunkSize.toNat ∣ L.size := by
  induction L with
  | nil => exact Nat.dvd_zero _
  | cons b rest ih =>
    rw [size_cons]
    exact Nat.dvd_add (chunked b (by simp)) (ih fun x hx => chunked x (by simp [hx]))

theorem dvd_at? (proper : L.Proper settings) {o : Nat} {b : Block} (found : L.at? o = some b) :
    settings.chunkSize.toNat ∣ o := by
  obtain ⟨before, after, rfl, rfl⟩ := split_at? found
  exact dvd_size fun x hx => proper.chunked x (by simp [hx])

theorem chunk_le_size (proper : L.Proper settings) {o : Nat} {b : Block}
    (found : L.at? o = some b) : settings.chunkSize.toNat ≤ b.size := by
  have := b.size_ge
  exact Nat.le_of_dvd (by omega) (proper.chunked b (mem_of_at? found))

end Proper

/-- The blocks that links lead through from an offset on, with their offsets, up to the tail. -/
inductive Chain (L : Layout) : Nat → List (Nat × Header) → Prop
  | tail {o : Nat} {b : Block} : L.at? o = some b → b.header.next = none → Chain L o [(o, b.header)]
  | link {o : Nat} {b : Block} {e : Extent} {rest : List (Nat × Header)} : L.at? o = some b →
      b.header.next = some e → Chain L e.start rest → Chain L o ((o, b.header) :: rest)

namespace Chain

variable {settings : Settings} {L : Layout} {o : Nat} {blocks : List (Nat × Header)}

/-- Links only lead forward, so every block has a chain. -/
theorem of_at? (proper : L.Proper settings) {b : Block} (found : L.at? o = some b) :
    ∃ blocks, L.Chain o blocks := by
  generalize left : L.size - o = n
  induction n using Nat.strongRecOn generalizing o b with
  | ind n ih =>
    cases next : b.header.next with
    | none => exact ⟨_, .tail found next⟩
    | some e =>
      obtain ⟨later, target, there, -⟩ := proper.forward found next
      have inside := at?_lt there
      obtain ⟨rest, chain⟩ := ih (L.size - e.start) (by omega) there rfl
      exact ⟨_, .link found next chain⟩

theorem unique {blocks' : List (Nat × Header)} (left : L.Chain o blocks) (right : L.Chain o blocks') :
    blocks = blocks' := by
  induction left generalizing blocks' with
  | tail found next =>
    cases right with
    | tail found' _ => simp_all
    | link found' next' _ => simp_all
  | link found next chain ih =>
    cases right with
    | tail found' next' => simp_all
    | link found' next' chain' =>
      rw [found] at found'
      cases found'
      rw [next] at next'
      cases next'
      rw [ih chain']

theorem head_eq (chain : L.Chain o blocks) : ∃ b rest, L.at? o = some b ∧ blocks = (o, b.header) :: rest := by
  cases chain with
  | tail found _ => exact ⟨_, [], found, rfl⟩
  | link found _ _ => exact ⟨_, _, found, rfl⟩

theorem at?_of_mem (chain : L.Chain o blocks) {block : Nat × Header} (mem : block ∈ blocks) :
    ∃ b, L.at? block.1 = some b ∧ b.header = block.2 := by
  induction chain with
  | tail found _ =>
    rw [List.mem_singleton.mp mem]
    exact ⟨_, found, rfl⟩
  | link found _ _ ih =>
    rcases List.mem_cons.mp mem with rfl | mem
    · exact ⟨_, found, rfl⟩
    · exact ih mem

theorem le_of_mem (proper : L.Proper settings) (chain : L.Chain o blocks) {block : Nat × Header}
    (mem : block ∈ blocks) : o ≤ block.1 := by
  induction chain with
  | tail _ _ => rw [List.mem_singleton.mp mem]
  | link found next _ ih =>
    rcases List.mem_cons.mp mem with rfl | mem
    · exact Nat.le_refl _
    · have := (proper.forward found next).1
      have := ih mem
      omega

theorem sorted (proper : L.Proper settings) (chain : L.Chain o blocks) :
    (blocks.map Prod.fst).Pairwise (· < ·) := by
  induction chain with
  | tail _ _ => exact List.pairwise_singleton _ _
  | link found next chain ih =>
    rw [List.map_cons, List.pairwise_cons]
    refine ⟨fun x hx => ?_, ih⟩
    obtain ⟨block, mem, rfl⟩ := List.mem_map.mp hx
    have := (proper.forward found next).1
    have := chain.le_of_mem proper mem
    omega

theorem split_last (chain : L.Chain o blocks) : ∃ front tail b, blocks = front ++ [(tail, b.header)] ∧
    L.at? tail = some b ∧ b.header.next = none := by
  induction chain with
  | tail found next => exact ⟨[], _, _, rfl, found, next⟩
  | link found next _ ih =>
    obtain ⟨front, tail, b, rfl, there, last⟩ := ih
    exact ⟨_ :: front, tail, b, rfl, there, last⟩

theorem prev_of_mem (chain : L.Chain o blocks) {x : Nat} (mem : x ∈ blocks.map Prod.fst) :
    x = o ∨ ∃ p b e, p ∈ blocks.map Prod.fst ∧ L.at? p = some b ∧ b.header.next = some e ∧
      e.start = x := by
  induction chain with
  | tail _ _ => exact .inl (by simpa using mem)
  | link found next chain ih =>
    rw [List.map_cons, List.mem_cons] at mem
    rcases mem with rfl | mem
    · exact .inl rfl
    · right
      rcases ih mem with rfl | ⟨p, b, e, memP, there, link, rfl⟩
      · exact ⟨_, _, _, by simp, found, next, rfl⟩
      · exact ⟨p, b, e, by simp [memP], there, link, rfl⟩

/-- Where two chains meet, one of them runs through the start of the other. -/
theorem mem_or_mem (proper : L.Proper settings) {o' x : Nat} {blocks' : List (Nat × Header)}
    (left : L.Chain o blocks) (right : L.Chain o' blocks') (memLeft : x ∈ blocks.map Prod.fst)
    (memRight : x ∈ blocks'.map Prod.fst) :
    o' ∈ blocks.map Prod.fst ∨ o ∈ blocks'.map Prod.fst := by
  induction left with
  | tail _ _ =>
    obtain rfl : x = _ := by simpa using memLeft
    exact .inr memRight
  | link found next chain ih =>
    rw [List.map_cons, List.mem_cons] at memLeft
    rcases memLeft with rfl | memLeft
    · exact .inr memRight
    · rcases ih memLeft with back | on
      · exact .inl (by simp [back])
      · -- The link from `o` is the only one into the start of the rest.
        rcases right.prev_of_mem on with same | ⟨p, b, e, memP, there, link, same⟩
        · obtain ⟨b, rest, -, rfl⟩ := chain.head_eq
          exact .inl (by simp [same])
        · rw [proper.single found there next link same.symm]
          exact .inr memP

end Chain

/-- No block links to the one at an offset. -/
def Unlinked (L : Layout) (head : Nat) : Prop :=
  ∀ o b e, L.at? o = some b → b.header.next = some e → e.start ≠ head

namespace Chain

variable {settings : Settings} {L M : Layout} {o o' : Nat} {blocks blocks' : List (Nat × Header)}

theorem eq_of_unlinked (chain : L.Chain o blocks) {head : Nat} (free : L.Unlinked head)
    (mem : head ∈ blocks.map Prod.fst) : head = o := by
  rcases chain.prev_of_mem mem with same | ⟨p, b, e, -, there, link, same⟩
  · exact same
  · exact absurd same (free p b e there link)

/-- Chains from blocks that nothing links to have no block in common. -/
theorem disjoint (proper : L.Proper settings) (left : L.Chain o blocks) (right : L.Chain o' blocks')
    (freeLeft : L.Unlinked o) (freeRight : L.Unlinked o') (differ : o ≠ o') {x : Nat}
    (memLeft : x ∈ blocks.map Prod.fst) : x ∉ blocks'.map Prod.fst := by
  intro memRight
  rcases left.mem_or_mem proper right memLeft memRight with back | on
  · exact differ (left.eq_of_unlinked freeRight back).symm
  · exact differ (right.eq_of_unlinked freeLeft on)

theorem congr (chain : L.Chain o blocks)
    (same : ∀ block ∈ blocks, ∃ b, M.at? block.1 = some b ∧ b.header = block.2) :
    M.Chain o blocks := by
  induction chain with
  | @tail o b _ next =>
    obtain ⟨c, found, header⟩ : ∃ c, M.at? o = some c ∧ c.header = b.header :=
      same (o, b.header) (by simp)
    rw [← header] at next ⊢
    exact .tail found next
  | @link o b _ _ _ next _ ih =>
    obtain ⟨c, found, header⟩ : ∃ c, M.at? o = some c ∧ c.header = b.header :=
      same (o, b.header) (by simp)
    rw [← header] at next ⊢
    exact .link found next (ih fun block mem => same block (by simp [mem]))

theorem rest_of_cons {block : Nat × Header} {rest : List (Nat × Header)}
    (chain : L.Chain o (block :: rest)) (more : rest ≠ []) :
    block.1 = o ∧ ∃ e, block.2.next = some e ∧ L.Chain e.start rest := by
  generalize eq : block :: rest = blocks at chain
  cases chain with
  | tail _ _ =>
    cases eq
    exact absurd rfl more
  | link _ next chain =>
    cases eq
    exact ⟨rfl, _, next, chain⟩

theorem next_of_single {block : Nat × Header} (chain : L.Chain o [block]) : block.2.next = none := by
  obtain ⟨front, tail, b, split, -, next⟩ := chain.split_last
  cases front with
  | nil =>
    cases split
    exact next
  | cons first front =>
    have := congrArg List.length split
    simp at this

theorem extend {front : List (Nat × Header)} {tail : Nat} {header : Header} {e : Extent}
    {last added : Block} (chain : L.Chain o (front ++ [(tail, header)]))
    (same : ∀ block ∈ front, ∃ b, M.at? block.1 = some b ∧ b.header = block.2)
    (atTail : M.at? tail = some last) (linked : last.header.next = some e)
    (atEnd : M.at? e.start = some added) (ends : added.header.next = none) :
    M.Chain o (front ++ [(tail, last.header), (e.start, added.header)]) := by
  induction front generalizing o with
  | nil =>
    obtain ⟨b, rest, -, eq⟩ := chain.head_eq
    cases eq
    exact .link atTail linked (.tail atEnd ends)
  | cons block front ih =>
    obtain ⟨b, found, header⟩ := same block (by simp)
    obtain ⟨rfl, e', next, rest⟩ := chain.rest_of_cons (by simp)
    have later := ih rest fun x mem => same x (by simp [mem])
    rw [← header] at next
    have whole := Chain.link found next later
    rw [header] at whole
    exact whole

end Chain
end Layout
end RecordFile
