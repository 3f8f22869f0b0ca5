import Mathlib
import RecordFile.Proofs.Tables

/-! What lasts of a layout. Whatever is asked, blocks stay where they are and links stay as they are, and
nothing is ever linked to the head of a table. -/
namespace RecordFile

/-- What a block is made into keeps its kind of header, and its link if it has one. -/
structure Block.Becomes (b b' : Block) : Prop where
  part : b'.header.tablePart?.isSome = b.header.tablePart?.isSome
  link : ∀ e, b.header.next = some e → b'.header.next = some e

namespace Block.Becomes

variable {b b' b'' : Block}

theorem refl (b : Block) : b.Becomes b := ⟨rfl, fun _ next => next⟩

theorem trans (first : b.Becomes b') (second : b'.Becomes b'') : b.Becomes b'' where
  part := second.part.trans first.part
  link e next := second.link e (first.link e next)

theorem setNext (ends : b.header.next = none) (e : Extent) : b.Becomes (b.setNext e) where
  part := by
    rw [Block.setNext, Header.tablePart?_mapBlock]
    exact Option.isSome_map
  link e next := by
    rw [ends] at next
    cases next

theorem setLast (record : UInt32) (b : Block) : b.Becomes (b.setLast record) where
  part := by
    rw [Block.setLast, Header.tablePart?_mapTable]
    exact Option.isSome_map
  link e next := (next_setLast record b).trans next

end Block.Becomes

/-- What requests can make of a block. Only where `counts` holds is the last number of a table changed. -/
inductive Block.Changed (counts : Prop) (b : Block) : Block → Prop
  | same : Changed counts b b
  | linked {b' : Block} (e : Extent) : Changed counts b b' → b'.header.next = none →
      Changed counts b (b'.setNext e)
  | counted {b' : Block} (record : UInt32) : Changed counts b b' → counts → Changed counts b (b'.setLast record)
  | filled {b' : Block} (skip : Nat) (bytes : List UInt8) : Changed counts b b' →
      Changed counts b (b'.fill skip bytes)

namespace Block.Changed

variable {counts : Prop} {b b' : Block}

theorem becomes (changed : b.Changed counts b') : b.Becomes b' := by
  induction changed with
  | same => exact .refl b
  | linked e _ ends ih => exact ih.trans (.setNext ends e)
  | counted record _ _ ih => exact ih.trans (.setLast record _)
  | filled _ _ _ ih => exact ih.trans ⟨rfl, fun _ next => next⟩

theorem room (changed : b.Changed counts b') (o : Nat) :
    Room.ofBlock (o, b'.header) = Room.ofBlock (o, b.header) := by
  induction changed with
  | same => rfl
  | linked e _ _ ih => rw [Room.ofBlock_setNext, ih]
  | counted record _ _ ih => rw [Room.ofBlock_setLast, ih]
  | filled _ _ _ ih => exact ih

theorem count (changed : b.Changed counts b') (still : ¬ counts) {table : TableHeader}
    (part : b.header.tablePart? = some table) : ∃ table', b'.header.tablePart? = some table' ∧
      table'.recordSize = table.recordSize ∧ table'.lastRecord = table.lastRecord := by
  induction changed with
  | same => exact ⟨table, part, rfl, rfl⟩
  | linked e _ _ ih =>
    obtain ⟨table', part', sized, last⟩ := ih
    exact ⟨{ table' with block.next := some e }, Block.tablePart?_setNext part' e, sized, last⟩
  | counted _ _ counts => exact absurd counts still
  | filled _ _ _ ih => exact ih

end Block.Changed

namespace Layout

variable {settings : Settings} {L M N : Layout} {o head : Nat} {blocks blocks' : List (Nat × Header)}
  {b : Block}

/-- Every block of the one is in the other, or what it was made into. -/
def GrowsTo (L M : Layout) : Prop := ∀ o b, L.at? o = some b → ∃ b', M.at? o = some b' ∧ b.Becomes b'

namespace GrowsTo

theorem refl (L : Layout) : L.GrowsTo L := by
  intro o b found
  exact ⟨b, found, .refl b⟩

theorem trans (first : L.GrowsTo M) (second : M.GrowsTo N) : L.GrowsTo N := by
  intro o b found
  obtain ⟨b', found', becomes⟩ := first o b found
  obtain ⟨b'', found'', becomes'⟩ := second o b' found'
  exact ⟨b'', found'', becomes.trans becomes'⟩

theorem edit {change : Block → Block} (size : ∀ b, L.at? o = some b → (change b).size = b.size)
    (becomes : ∀ b : Block, b.Becomes (change b)) : L.GrowsTo (L.edit change o) := by
  intro p b found
  rw [at?_edit size]
  split
  case isTrue here =>
    subst here
    exact ⟨change b, by rw [found]; rfl, becomes b⟩
  case isFalse => exact ⟨b, found, .refl b⟩

theorem attach (found : L.at? o = some b) (ends : b.header.next = none) (added : Block) :
    L.GrowsTo (L.attach o added) := by
  intro p x there
  by_cases here : p = o
  · subst here
    rw [found] at there
    cases there
    exact ⟨_, at?_attach_tail found added, .setNext ends _⟩
  · exact ⟨x, at?_attach_apart found added there here, .refl x⟩

/-- A chain only gets longer at its end, and what is to be seen of its blocks stays if it stays of each. -/
theorem chain_prefix_of {γ : Type} {view : Nat × Header → γ} (same : ∀ o b b', L.at? o = some b →
      M.at? o = some b' → view (o, b'.header) = view (o, b.header)) (grows : L.GrowsTo M)
    (chain : L.Chain o blocks) (chain' : M.Chain o blocks') : blocks.map view <+: blocks'.map view := by
  induction chain generalizing blocks' with
  | tail found next =>
    obtain ⟨b', rest, found', rfl⟩ := chain'.head_eq
    rw [List.map_cons, List.map_nil, List.map_cons, same _ _ _ found found']
    exact ⟨rest.map view, rfl⟩
  | link found next chain ih =>
    obtain ⟨b', found', becomes⟩ := grows _ _ found
    cases chain' with
    | tail found'' ends =>
      rw [found'] at found''
      cases found''
      rw [becomes.link _ next] at ends
      cases ends
    | link found'' next' chain' =>
      rw [found'] at found''
      cases found''
      rw [becomes.link _ next] at next'
      cases next'
      rw [List.map_cons, List.map_cons, same _ _ _ found found', List.prefix_cons_inj]
      exact ih chain'

theorem chain_prefix (grows : L.GrowsTo M) (chain : L.Chain o blocks) (chain' : M.Chain o blocks') :
    blocks.map Prod.fst <+: blocks'.map Prod.fst :=
  chain_prefix_of (fun _ _ _ _ _ => rfl) grows chain chain'

end GrowsTo

theorem Extends.changed {counts : Prop} (extended : L.Extends M) (found : L.at? o = some b) :
    ∃ b', M.at? o = some b' ∧ b.Changed counts b' := by
  obtain ⟨b', found', rfl | ⟨ends, e, rfl⟩⟩ := extended o b found
  · exact ⟨b', found', .same⟩
  · exact ⟨_, found', .linked e .same ends⟩

/-- Every block of the one is in the other, or what requests made of it, with the tables that may have counted
on at some offsets only. -/
def Changes (counts : Nat → Prop) (L M : Layout) : Prop :=
  ∀ o b, L.at? o = some b → ∃ b', M.at? o = some b' ∧ b.Changed (counts o) b'

namespace Changes

variable {counts : Nat → Prop}

theorem growsTo (changes : L.Changes counts M) : L.GrowsTo M := by
  intro o b found
  obtain ⟨b', found', changed⟩ := changes o b found
  exact ⟨b', found', changed.becomes⟩

theorem of_extends (extended : L.Extends M) : L.Changes counts M := fun _ _ => extended.changed

theorem chain_prefix (changes : L.Changes counts M) (chain : L.Chain o blocks) (chain' : M.Chain o blocks') :
    blocks.map Room.ofBlock <+: blocks'.map Room.ofBlock := by
  refine changes.growsTo.chain_prefix_of (fun o b b' found found' => ?_) chain chain'
  obtain ⟨b'', found'', changed⟩ := changes o b found
  rw [found'] at found''
  cases found''
  exact changed.room o

theorem table? (changes : L.Changes counts M) (still : ¬ counts head) {table : TableHeader}
    (part : L.table? head = some table) : ∃ table', M.table? head = some table' ∧
      table'.recordSize = table.recordSize ∧ table'.lastRecord = table.lastRecord := by
  obtain ⟨b, found, part⟩ := Option.bind_eq_some_iff.mp part
  obtain ⟨b', found', changed⟩ := changes head b found
  obtain ⟨table', part', same⟩ := changed.count still part
  exact ⟨table', Option.bind_eq_some_iff.mpr ⟨b', found', part'⟩, same⟩

end Changes

/-- A table's first block, to which no other is linked. -/
structure IsHead (L : Layout) (head : Nat) : Prop where
  part : ∃ b, L.at? head = some b ∧ b.header.tablePart?.isSome
  unlinked : L.Unlinked head

theorem IsHead.grow (is : L.IsHead head) (grows : L.GrowsTo M) (unlinked : M.Unlinked head) :
    M.IsHead head := by
  obtain ⟨b, found, part⟩ := is.part
  obtain ⟨b', found', becomes⟩ := grows head b found
  exact ⟨⟨b', found', becomes.part.trans part⟩, unlinked⟩

end Layout

namespace History

variable {t t' : History} {L M : Layout} {h : Handle} {request : Request} {head : Nat}

/-- No request counts on in a table but a reservation of it. -/
theorem Answer.changes (answer : Answer t L request t' M) : L.Changes (fun o => request = .reserve o) M := by
  intro o b found
  cases answer with
  | refused => exact ⟨b, found, .same⟩
  | tableAdded => exact ⟨b, Layout.at?_append_old _ found, .same⟩
  | appended => exact ⟨b, Layout.at?_append_old _ found, .same⟩
  | @attached tail last _ _ there ends =>
    by_cases here : o = tail
    · subst here
      rw [there] at found
      cases found
      exact ⟨_, Layout.at?_attach_tail there _, .linked _ .same ends⟩
    · exact ⟨b, Layout.at?_attach_apart there _ found here, .same⟩
  | read => exact ⟨b, found, .same⟩
  | located chain slots positive serves => exact (serves.extends chain (one_le_record positive)).changed found
  | @reserved head _ _ _ record _ _ _ _ _ _ chain next _ serves =>
    have extended := serves.extends chain (Handle.one_le_next next)
    rw [Layout.at?_edit fun b _ => Block.size_setLast record b]
    by_cases here : o = head
    · subst here
      obtain ⟨b', found', changed⟩ := extended.changed found
      exact ⟨_, by rw [if_pos rfl, found']; rfl, .counted record changed rfl⟩
    · obtain ⟨b', found', changed⟩ := extended.changed found
      exact ⟨b', by rw [if_neg here, found'], changed⟩
  | @written start skip _ bytes _ there inside =>
    have size : ∀ x, L.at? start = some x → (x.fill skip bytes).size = x.size := by
      intro x found'
      rw [there] at found'
      cases found'
      exact Block.size_fill inside
    rw [Layout.at?_edit size]
    by_cases here : o = start
    · subst here
      exact ⟨_, by rw [if_pos rfl, found]; rfl, .filled skip bytes .same⟩
    · exact ⟨b, by rw [if_neg here, found], .same⟩

theorem Answer.growsTo (answer : Answer t L request t' M) : L.GrowsTo M := answer.changes.growsTo

theorem Answer.unlinked (answer : Answer t L request t' M) (proper : L.Proper t.settings)
    (unlinked : L.Unlinked head) (inside : head < L.size) : M.Unlinked head := by
  have served {chain slotSize record offset : Nat} {blocks : List (Nat × Header)} {N : Layout}
      (starts : L.Chain chain blocks) (positive : 1 ≤ record)
      (serves : L.Serves t.settings chain blocks slotSize record offset N) : N.Unlinked head := by
    cases serves with
    | found => exact unlinked
    | grown place _ _ =>
      obtain ⟨⟨front, b, -, found, -⟩, -⟩ := starts.beyond positive place
      exact unlinked.attach found inside proper.small (Layout.next_fresh _ _)
  cases answer with
  | refused => exact unlinked
  | tableAdded => exact unlinked.append (Layout.next_fresh _ _)
  | appended => exact unlinked.append (Layout.next_fresh _ _)
  | attached found => exact unlinked.attach found inside proper.small (Layout.next_fresh _ _)
  | read => exact unlinked
  | located chain slots positive serves => exact served chain (one_le_record positive) serves
  | reserved found part chain next slots serves =>
    apply (served chain (Handle.one_le_next next) serves).edit
    · intro b _
      exact Block.size_setLast _ b
    · intro b
      exact Block.next_setLast _ b
  | @written o skip b bytes store found size =>
    apply unlinked.edit
    · intro b' found'
      rw [found] at found'
      cases found'
      exact Block.size_fill size
    · intro b'
      rfl

theorem Answer.isHead (answer : Answer t L request t' M) (proper : L.Proper t.settings)
    (is : L.IsHead head) : M.IsHead head := by
  obtain ⟨b, found, -⟩ := is.part
  exact is.grow answer.growsTo (answer.unlinked proper is.unlinked (Layout.at?_lt found))

/-- The layout is proper, and tables start where they are said to. -/
structure Headed (t : History) (L : Layout) : Prop where
  sound : t.Sound L
  heads : ∀ head ∈ t.heads, L.IsHead head

theorem Headed.ask (headed : t.Headed L) (mem : h ∈ t.handles) (permitted : Loose t request) :
    ∃ M, (t.ask h request).Headed M := by
  obtain ⟨M, answer, sound⟩ := headed.sound.ask mem permitted
  have proper := headed.sound.proper
  have still {head : Nat} (mem : head ∈ t.heads) : M.IsHead head :=
    answer.isHead proper (headed.heads head mem)
  refine ⟨M, sound, ?_⟩
  generalize t.ask h request = t' at answer
  cases answer with
  | @tableAdded recordSize size =>
    intro head mem
    rcases List.mem_cons.mp mem with rfl | mem
    · refine ⟨⟨_, by rw [Layout.at?_append, if_pos rfl], rfl⟩, ?_⟩
      exact proper.unlinked_end.append (Layout.next_fresh _ _)
    · exact still mem
  | refused => exact fun head mem => still mem
  | appended => exact fun head mem => still mem
  | attached => exact fun head mem => still mem
  | read => exact fun head mem => still mem
  | located => exact fun head mem => still mem
  | reserved => exact fun head mem => still mem
  | written => exact fun head mem => still mem

theorem Run.headed (run : Run Loose t) : ∃ L, t.Headed L := by
  apply run.invariant Headed.sound ?_ Headed.ask fun headed sound => { headed with sound }
  intro location settings store h sound
  refine ⟨sound, ?_⟩
  intro head mem
  obtain rfl := List.mem_singleton.mp mem
  refine ⟨⟨_, rfl, rfl⟩, ?_⟩
  intro o b e found next
  rw [(Layout.at?_first found).2] at next
  cases next

end History
end RecordFile
