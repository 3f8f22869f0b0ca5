import Mathlib
import RecordFile.Proofs.Adding
import RecordFile.Proofs.Bytewise

/-! Links that were attached. Linking a block reads its first 32 bytes and writes them again, so it goes by
these bytes alone, whatever else the block may be. A link that can be stored is there from then on, and
stands against every other one for as long as the bytes are let alone. One to the start of the file is written
too, and is no link; one of larger words than signed ones is written, and the block cannot be read any more. -/
namespace RecordFile

namespace BlockHeader

/-- A link is read as it was written just if it can be stored. -/
theorem rereadLink_some_iff {e : Extent} : rereadLink (some e) = .ok (some e) ↔ e.Storable := by
  refine ⟨fun kept => ?_, fun storable => rereadLink_storable fun _ same => Option.some.inj same ▸ storable⟩
  by_cases large : 2 ^ 63 ≤ e.offset.toNat ∨ 2 ^ 63 ≤ e.size.toNat
  · rw [rereadLink_large large] at kept
    cases kept
  · rw [not_or, Nat.not_le, Nat.not_le] at large
    refine ⟨fun zero => ?_, large.1, large.2⟩
    rw [rereadLink_zero zero large.2] at kept
    cases kept

/-- Other bytes for the link are read as the other link, and as nothing else. -/
theorem decode_relinked {bytes : List UInt8} {b : BlockHeader} (read : decode bytes = .ok b) (e : Extent)
    (rest : List UInt8) : decode (bytes.take 16 ++ encodeLink (some e) ++ rest) =
      (rereadLink (some e)).map fun next => { b with next } := by
  rw [← take_encode_of_decode read, ← encode_next, decode_encode_reread]

end BlockHeader

namespace Content

variable {c c' : Content} {o : Nat} {b : BlockHeader} {e : Extent}

/-- What a read of just so many bytes gives. -/
def fetchExactly (c : Content) (offset count : Nat) : Except Fault (List UInt8) := do
  let bytes ← c.fetch offset count
  if bytes.length < count then throw (.system .shortRead) else return bytes

/-- What reading the part of a header gives that all blocks share. -/
def blockAt (c : Content) (offset : Nat) : Except Fault BlockHeader := do
  let bytes ← c.fetchExactly offset blockHeaderSize.toNat
  (BlockHeader.decode bytes).mapError .corruptHeader

theorem blockAt_eq_ok :
    c.blockAt o = .ok b ↔ BlockHeader.decode (c.read o 32) = .ok b ∧ o + 32 ≤ maxOffset := by
  have size : blockHeaderSize.toNat = 32 := rfl
  rw [blockAt, fetchExactly, fetch, size]
  by_cases far : maxOffset < o + 32
  · rw [if_pos far]
    refine iff_of_false (fun failed => ?_) fun found => absurd found.2 (Nat.not_le.mpr far)
    cases failed
  rw [if_neg far]
  by_cases short : (c.read o 32).length < 32
  · refine iff_of_false ?_ fun found => absurd (BlockHeader.exists_decode.mp ⟨b, found.1⟩).1 (by omega)
    simp only [bind, Except.bind, if_pos short]
    intro failed
    cases failed
  · simp only [bind, Except.bind, if_neg short, pure, Except.pure, mapError_eq_ok]
    exact (and_iff_left (Nat.le_of_not_lt far)).symm

/-- No more than 32 bytes count. -/
theorem blockAt_congr (same : c'.read o 32 = c.read o 32) : c'.blockAt o = c.blockAt o := by
  have size : blockHeaderSize.toNat = 32 := rfl
  simp only [blockAt, fetchExactly, fetch, size, same]

theorem spelled_of_blockAt (read : c.blockAt o = .ok b) : BlockHeader.decode (c.toList.drop o) = .ok b := by
  have spelled := (blockAt_eq_ok.mp read).1
  rwa [toList_read, BlockHeader.decode_take (Nat.le_refl 32)] at spelled

theorem inside_of_blockAt (read : c.blockAt o = .ok b) : o + 32 ≤ c.size := by
  have long := (BlockHeader.exists_decode.mp ⟨b, spelled_of_blockAt read⟩).1
  rw [List.length_drop, length_toList] at long
  omega

/-- Where a whole header is read, it is read of the same block. -/
theorem blockAt_of_headerAt {header : Header} (read : c.headerAt o = .ok header) :
    c.blockAt o = .ok header.blockPart := by
  have shows := headerAt_eq_ok.mp read
  obtain ⟨least, -, -⟩ := shows.inside
  have reached := shows.reached
  refine blockAt_eq_ok.mpr ⟨?_, by omega⟩
  rw [toList_read, BlockHeader.decode_take (Nat.le_refl 32)]
  exact Header.blockPart_of_decode shows.spelled

theorem changed_relinked (inside : o + 32 ≤ c.size)
    (bytes : c'.toList = c.toList.take (o + 16) ++ BlockHeader.encodeLink (some e) ++ c.toList.drop (o + 32)) :
    ChangedIn [⟨o + 16, 16⟩] c.toList c'.toList := by
  have front : (c.toList.take (o + 16)).length = o + 16 := by
    rw [List.length_take, length_toList]
    omega
  have part : ((c.toList.drop (o + 16)).take 16).length = 16 := by
    rw [List.length_take, List.length_drop, length_toList]
    omega
  have whole : c.toList = c.toList.take (o + 16) ++ (c.toList.drop (o + 16)).take 16 ++ c.toList.drop (o + 32) := by
    rw [List.append_assoc, ← List.drop_drop (i := 16) (j := o + 16), List.take_append_drop, List.take_append_drop]
  have same : (BlockHeader.encodeLink (some e)).length = ((c.toList.drop (o + 16)).take 16).length := by
    rw [part, BlockHeader.length_encodeLink]
  have splice := ChangedIn.splice (c.toList.take (o + 16)) (c.toList.drop (o + 32)) same
  rwa [← whole, ← bytes, front, part] at splice

theorem blockAt_eq (inside : o + 32 ≤ c.size) (reached : o + 32 ≤ maxOffset) :
    c.blockAt o = (BlockHeader.decode (c.read o 32)).mapError .corruptHeader := by
  have size : blockHeaderSize.toNat = 32 := rfl
  have enough : ¬ (c.read o 32).length < 32 := by
    rw [toList_read, List.length_take, List.length_drop, length_toList]
    omega
  rw [blockAt, fetchExactly, fetch, size, if_neg (Nat.not_lt_of_le reached)]
  simp only [bind, Except.bind, if_neg enough, pure, Except.pure]

/-- What was written for a link is read where it was written. -/
theorem decode_relinked (read : c.blockAt o = .ok b)
    (bytes : c'.toList = c.toList.take (o + 16) ++ BlockHeader.encodeLink (some e) ++ c.toList.drop (o + 32)) :
    BlockHeader.decode (c'.read o 32) = (BlockHeader.rereadLink (some e)).map fun next => { b with next } := by
  have inside := inside_of_blockAt read
  have before : (c.toList.take o).length = o := by
    rw [List.length_take, length_toList]
    omega
  rw [toList_read, BlockHeader.decode_take (Nat.le_refl 32), bytes, List.take_add, List.append_assoc,
    List.append_assoc, List.drop_left' before, ← List.append_assoc]
  exact BlockHeader.decode_relinked (spelled_of_blockAt read) e _

/-- Nothing can be linked to the block at an offset, for this reason. -/
def Bars (c : Content) (o : Nat) (fault : Fault) : Prop :=
  c.blockAt o = .error fault ∨
    ∃ b existing, c.blockAt o = .ok b ∧ b.next = some existing ∧ fault = .alreadyLinked o existing.start

theorem Bars.congr {fault : Fault} (bars : c.Bars o fault) (same : c'.read o 32 = c.read o 32) :
    c'.Bars o fault := by
  rwa [Bars, blockAt_congr same]

end Content

namespace Handle

variable {h : Handle} {s s' : Store} {f : OpenFile} {c c' : Content} {parent : Nat} {b : BlockHeader}
  {e : Extent} {chunkSize : UInt32}

theorem scans_readExactly (offset count : Nat) :
    h.Scans c chunkSize (h.readExactly offset count) (c.fetchExactly offset count) := by
  refine .bind (scans_readAt _ _) fun bytes => .ite ?_ (.pure _)
  intro s f sees _
  obtain ⟨s', ran, left⟩ := exec_fail (α := List UInt8) sees .shortRead
  exact ⟨s', ran, f.position, _, left⟩

/-- Linking a block is a look at what all headers share, and a write if there is no link in it. -/
theorem exec_link_blockAt (sees : h.Sees s f c) (parent : Nat) :
    ∃ s₁, h.Scanned s f c s₁ ∧ ∀ e, (h.link parent e).exec s = match c.blockAt parent with
      | .error fault => (.error fault, s₁)
      | .ok b => match b.next with
        | some existing => (.error (.alreadyLinked parent existing.start), s₁)
        | none => (h.writeAt parent ({ b with next := some e } : BlockHeader).encode).exec s₁ := by
  obtain ⟨s₁, ran, scanned⟩ := scans_readExactly (c := c) parent blockHeaderSize.toNat sees rfl
  refine ⟨s₁, scanned, fun e => ?_⟩
  cases fetched : c.fetchExactly parent blockHeaderSize.toNat with
  | error fault =>
    rw [fetched] at ran
    rw [Content.blockAt, fetched]
    exact Action.exec_bind_error ran _
  | ok bytes =>
    rw [fetched] at ran
    have read : c.blockAt parent = (BlockHeader.decode bytes).mapError .corruptHeader := by
      rw [Content.blockAt, fetched]
      rfl
    rw [link, Action.exec_bind_ok ran, read]
    cases BlockHeader.decode bytes with
    | error defect => rfl
    | ok b =>
      rw [Action.exec_bind_ok (Action.exec_orFault_ok ..)]
      dsimp only [Except.mapError]
      cases b.next <;> rfl

theorem exec_link_barred {fault : Fault} (sees : h.Sees s f c) (bars : c.Bars parent fault) (e : Extent) :
    ∃ s₁, (h.link parent e).exec s = (.error fault, s₁) ∧ h.Scanned s f c s₁ := by
  obtain ⟨s₁, scanned, ran⟩ := exec_link_blockAt sees parent
  refine ⟨s₁, ?_, scanned⟩
  rw [ran]
  rcases bars with failed | ⟨b, existing, read, linked, rfl⟩
  · rw [failed]
  · rw [read]
    simp only [linked]

/-- A link is set where there is none. -/
theorem exec_link_open (sees : h.Sees s f c) (read : c.blockAt parent = .ok b) (free : b.next = none)
    (e : Extent) : ∃ s₁, (h.link parent e).exec s = (.ok (), s₁) := by
  obtain ⟨s₁, -, -, ran, -⟩ := exec_link_spelled sees (Content.spelled_of_blockAt read)
    (Content.blockAt_eq_ok.mp read).2 free e
  exact ⟨s₁, ran⟩

/-- A link is set only where there was none, and changes no other byte. -/
theorem exec_link_ok (sees : h.Sees s f c) (ran : (h.link parent e).exec s = (.ok (), s')) :
    ∃ b c' p, c.blockAt parent = .ok b ∧ b.next = none ∧ h.Leaves s { f with position := p } c' s.locks s' ∧
      c'.toList = c.toList.take (parent + 16) ++ BlockHeader.encodeLink (some e) ++ c.toList.drop (parent + 32) := by
  obtain ⟨s₁, -, ran₁⟩ := exec_link_blockAt sees parent
  rw [ran₁] at ran
  cases read : c.blockAt parent with
  | error fault =>
    rw [read] at ran
    cases ran
  | ok b =>
    cases free : b.next with
    | some existing =>
      simp only [read, free] at ran
      cases ran
    | none =>
      obtain ⟨s₂, p, c', ran₂, left, bytes⟩ := exec_link_spelled sees (Content.spelled_of_blockAt read)
        (Content.blockAt_eq_ok.mp read).2 free e
      rw [← ran₁ e, ran₂] at ran
      cases ran
      exact ⟨b, c', p, rfl, free, left, bytes⟩

/-- A block is added only after one whose whole header can be read. -/
theorem exec_appendAfter_blockBarred {fault : Fault} (sees : h.Sees s f c) (bars : c.Bars parent fault)
    (spec : BlockSpec) : ∃ s₁, (h.appendAfter parent spec).exec s =
        (.error (match ((h.readHeader parent).exec s).1 with
          | .ok _ => fault
          | .error unread => unread), s₁) ∧ h.Scanned s f c s₁ := by
  obtain ⟨s₁, ran, scanned⟩ := scans_readHeader (c := c) parent sees rfl
  refine ⟨s₁, ?_, scanned⟩
  rw [ran]
  cases whole : c.headerAt parent with
  | error unread =>
    rw [whole] at ran
    exact Action.exec_bind_error ran _
  | ok header =>
    have part := Content.blockAt_of_headerAt whole
    rw [whole] at ran
    rcases bars with failed | ⟨b, existing, read, linked, rfl⟩
    · rw [failed] at part
      cases part
    · obtain rfl : header.blockPart = b := Except.ok.inj (part.symm.trans read)
      rw [appendAfter, Action.exec_bind_ok ran]
      simp only [Header.next, linked]
      rfl

end Handle

/-- What may have become of a store in which the block at `parent` of a file was linked. Handles have tried to
link it again, or to add a block after it. Whatever else was done left the first 32 bytes of the block alone. -/
inductive Since (place : Location) (parent : Nat) (s : Store) : Store → Prop
  | now : Since place parent s s
  | link {s' : Store} {h : Handle} {f : OpenFile} {c : Content} (before : Since place parent s s')
      (sees : h.Sees s' f c) (there : f.location = place) (e : Extent) :
      Since place parent s ((h.link parent e).exec s').2
  | addition {s' : Store} {h : Handle} {f : OpenFile} {c : Content} (before : Since place parent s s')
      (sees : h.Sees s' f c) (there : f.location = place) (spec : BlockSpec) :
      Since place parent s ((h.appendAfter parent spec).exec s').2
  | otherwise {s' s'' : Store} {c c' : Content} (before : Since place parent s s')
      (was : s'.content? place = some c) (is : s''.content? place = some c')
      (kept : c'.read parent 32 = c.read parent 32) : Since place parent s s''

/-- What stands against a link goes on standing. -/
theorem Since.bars {place : Location} {parent : Nat} {s s' : Store} {c : Content} {fault : Fault}
    (since : Since place parent s s') (content : s.content? place = some c) (bars : c.Bars parent fault) :
    ∃ c', s'.content? place = some c' ∧ c'.Bars parent fault := by
  induction since with
  | now => exact ⟨c, content, bars⟩
  | link before sees there e ih =>
    obtain ⟨c', content', bars'⟩ := ih
    subst there
    obtain rfl := Option.some.inj (sees.content.symm.trans content')
    obtain ⟨s₁, ran, p, errno, left⟩ := Handle.exec_link_barred sees bars' e
    rw [ran]
    exact ⟨_, left.sees.content, bars'⟩
  | addition before sees there spec ih =>
    obtain ⟨c', content', bars'⟩ := ih
    subst there
    obtain rfl := Option.some.inj (sees.content.symm.trans content')
    obtain ⟨s₁, ran, p, errno, left⟩ := Handle.exec_appendAfter_blockBarred sees bars' spec
    rw [ran]
    exact ⟨_, left.sees.content, bars'⟩
  | otherwise before was is kept ih =>
    obtain ⟨c', content', bars'⟩ := ih
    obtain rfl := Option.some.inj (was.symm.trans content')
    exact ⟨_, is, bars'.congr kept⟩

namespace Handle

variable {h : Handle} {s s' : Store} {f : OpenFile} {c c' : Content} {parent : Nat} {e : Extent}

/-- No handle on the file links the block at `parent` to another one, for this reason, nor writes anything in
trying to. Adding a block after it needs the whole header, and gives what stands against reading it if anything
does. -/
structure Barred (place : Location) (parent : Nat) (fault : Fault) (s : Store) : Prop where
  link : ∀ ⦃h : Handle⦄ ⦃f c⦄, h.Sees s f c → f.location = place → ∀ e, ∃ s',
    (h.link parent e).exec s = (.error fault, s') ∧ h.Scanned s f c s'
  addition : ∀ ⦃h : Handle⦄ ⦃f c⦄, h.Sees s f c → f.location = place → ∀ spec, ∃ s',
    (h.appendAfter parent spec).exec s = (.error (match ((h.readHeader parent).exec s).1 with
      | .ok _ => fault
      | .error unread => unread), s') ∧ h.Scanned s f c s'

theorem barred_since {place : Location} {fault : Fault} (content : s.content? place = some c)
    (bars : c.Bars parent fault) (since : Since place parent s s') : Barred place parent fault s' := by
  obtain ⟨c', content', bars'⟩ := since.bars content bars
  constructor
  · intro h f c₂ sees there e
    obtain rfl := Option.some.inj (sees.content.symm.trans (there ▸ content'))
    exact exec_link_barred sees bars' e
  · intro h f c₂ sees there spec
    obtain rfl := Option.some.inj (sees.content.symm.trans (there ▸ content'))
    exact exec_appendAfter_blockBarred sees bars' spec

/-- A link that was set changed the 16 bytes that it takes. It is read there just if it can be stored, and bars
every other one from then on. One to the start of the file is read as none, and the next one takes its place. One
with a word that is read as a negative one bars every other one too, for the block cannot be read. -/
theorem link_lasts (sees : h.Sees s f c) (ran : (h.link parent e).exec s = (.ok (), s')) :
    ∃ b c' p, BlockHeader.decode (c.read parent 32) = .ok b ∧ b.next = none ∧
      h.Leaves s { f with position := p } c' s.locks s' ∧ c'.size = c.size ∧
      ChangedIn [⟨parent + 16, 16⟩] c.toList c'.toList ∧
      (BlockHeader.decode (c'.read parent 32) = .ok { b with next := some e } ↔ e.Storable) ∧
      (e.Storable →
        ∀ s₁, Since f.location parent s' s₁ → Barred f.location parent (.alreadyLinked parent e.start) s₁) ∧
      (e.offset = 0 → e.size.toNat < 2 ^ 63 → BlockHeader.decode (c'.read parent 32) = .ok b ∧
        ∀ ⦃h₁ : Handle⦄ ⦃s₁ f₁ c₁⦄, h₁.Sees s₁ f₁ c₁ → c₁.read parent 32 = c'.read parent 32 →
          ∀ e₁, ((h₁.link parent e₁).exec s₁).1 = .ok ()) ∧
      (2 ^ 63 ≤ e.offset.toNat ∨ 2 ^ 63 ≤ e.size.toNat → ∃ defect,
        defect = .negativeLink (LittleEndian.signed (2 ^ 63) e.offset.toNat)
          (LittleEndian.signed (2 ^ 63) e.size.toNat) ∧
        BlockHeader.decode (c'.read parent 32) = .error defect ∧
        ∀ s₁, Since f.location parent s' s₁ → Barred f.location parent (.corruptHeader defect) s₁) := by
  obtain ⟨b, c', p, read, free, left, bytes⟩ := exec_link_ok sees ran
  have inside := Content.inside_of_blockAt read
  obtain ⟨spelled, reached⟩ := Content.blockAt_eq_ok.mp read
  have size : c'.size = c.size := by
    have total := congrArg List.length bytes
    simp only [List.length_append, List.length_take, List.length_drop, BlockHeader.length_encodeLink,
      Content.length_toList] at total
    omega
  have reread := Content.decode_relinked read bytes
  have block := Content.blockAt_eq (size ▸ inside) reached
  refine ⟨b, c', p, spelled, free, left, size, Content.changed_relinked inside bytes, ?_, ?_, ?_, ?_⟩
  · rw [reread, ← BlockHeader.rereadLink_some_iff]
    constructor
    · intro kept
      cases back : BlockHeader.rereadLink (some e) with
      | error defect =>
        rw [back] at kept
        cases kept
      | ok next =>
        rw [back] at kept
        exact congrArg Except.ok (congrArg BlockHeader.next (Except.ok.inj kept))
    · intro kept
      rw [kept]
      rfl
  · intro storable s₁
    rw [BlockHeader.rereadLink_some_iff.mpr storable] at reread
    rw [reread] at block
    exact barred_since left.sees.content (.inr ⟨_, e, block, rfl, rfl⟩)
  · intro zero small
    rw [BlockHeader.rereadLink_zero zero small] at reread
    have same : BlockHeader.decode (c'.read parent 32) = .ok b := by
      rw [reread, ← free]
      rfl
    refine ⟨same, fun h₁ s₁ f₁ c₁ sees₁ kept e₁ => ?_⟩
    obtain ⟨s₂, ran₂⟩ := exec_link_open sees₁ (Content.blockAt_eq_ok.mpr ⟨kept ▸ same, reached⟩) free e₁
    rw [ran₂]
  · intro large
    rw [BlockHeader.rereadLink_large large] at reread
    rw [reread] at block
    exact ⟨_, rfl, reread, fun s₁ => barred_since left.sees.content (.inl block)⟩

/-- The lone table is linked to a block after it. A second link is refused, and a third one would be. -/
theorem link_lasts_lone : ∃ s f s', (⟨0⟩ : Handle).Sees s f lone ∧
    ((⟨0⟩ : Handle).link 0 ⟨64, 64⟩).exec s = (.ok (), s') ∧
    Barred f.location 0 (.alreadyLinked 0 64) (((⟨0⟩ : Handle).link 0 ⟨128, 64⟩).exec s').2 := by
  have read : FileHeader.ofContent lone = .ok (FileHeader.fresh 64 5) := by decide +kernel
  obtain ⟨f, opened, -, -⟩ := opened_alone read
  have told : (((⟨0⟩ : Handle).link 0 ⟨64, 64⟩).exec (alone lone (FileHeader.fresh 64 5))).1 = .ok () := by
    decide +kernel
  rcases ran : ((⟨0⟩ : Handle).link 0 ⟨64, 64⟩).exec (alone lone (FileHeader.fresh 64 5)) with ⟨result, s'⟩
  rw [ran] at told
  obtain rfl : result = .ok () := told
  obtain ⟨b, c', p, -, -, left, -, -, -, lasts, -⟩ := link_lasts opened.toSees ran
  have barred := lasts ⟨by decide, by decide, by decide⟩
  exact ⟨_, f, s', opened.toSees, ran, barred _ (.link .now left.sees rfl _)⟩

/-- A block at the start of the file can be linked, and is lost: nothing is read back, and the next link takes its
place. -/
theorem link_lost : let s := alone lone (FileHeader.fresh 64 5)
    let first := ((⟨0⟩ : Handle).link 0 ⟨0, 64⟩).exec s
    let second := ((⟨0⟩ : Handle).link 0 ⟨64, 64⟩).exec first.2
    Extent.checked 0 64 64 = .ok ⟨0, 64⟩ ∧ first.1 = .ok () ∧
      (((⟨0⟩ : Handle).readHeader 0).exec first.2).1.map Header.next = .ok none ∧ second.1 = .ok () ∧
      (((⟨0⟩ : Handle).readHeader 0).exec second.2).1.map Header.next = .ok (some ⟨64, 64⟩) := by
  decide +kernel

/-- A block past what a signed word can say can be linked, and the block that it was linked to cannot be read any
more. -/
theorem link_spoils : let s := alone lone (FileHeader.fresh 64 5)
    let ran := ((⟨0⟩ : Handle).link 0 ⟨2 ^ 63, 64⟩).exec s
    let fault := Fault.corruptHeader (.negativeLink (-2 ^ 63) 64)
    Extent.checked (2 ^ 63) 64 64 = .ok ⟨2 ^ 63, 64⟩ ∧ ran.1 = .ok () ∧
      (((⟨0⟩ : Handle).readHeader 0).exec ran.2).1 = .error fault ∧
      (((⟨0⟩ : Handle).link 0 ⟨64, 64⟩).exec ran.2).1 = .error fault := by
  decide +kernel

/-- A table after the first block, with records of a size that is read as a negative one. -/
def spoilt : Content := .ofList <| lone.toList ++ (TableHeader.mk
  { kind := .table, headerSize := 40, blockSize := 64, firstRecord := 1 } 0x80000005 0).encode ++
  List.replicate 24 0

/-- The table is linked all the same, but what is told who adds a block after it is not that. -/
theorem linked_unreadable : let s := alone spoilt (FileHeader.fresh 64 5)
    let ran := ((⟨0⟩ : Handle).link 64 ⟨128, 64⟩).exec s
    FileHeader.ofContent spoilt = .ok (FileHeader.fresh 64 5) ∧ Extent.checked 128 64 64 = .ok ⟨128, 64⟩ ∧
      ran.1 = .ok () ∧ (((⟨0⟩ : Handle).appendAfter 64 (.data 64 3)).exec ran.2).1 =
        .error (.corruptHeader (.negativeRecordSize (-0x7ffffffb))) := by
  decide +kernel

end Handle
end RecordFile
