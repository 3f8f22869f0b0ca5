import Mathlib
import RecordFile.Proofs.Layers
import RecordFile.Proofs.Locating

/-! Growing files that may hold anything. What can stand against a new block is where the file ends; where
nothing does, all other bytes stay as they are but for the link that leads to it. -/
namespace RecordFile

namespace Content

variable {c c' : Content} {o : Nat} {header : Header} {spec : BlockSpec} {chunkSize : UInt32}

theorem Shows.append (shows : c.Shows o header) {more : List UInt8} (longer : c'.toList = c.toList ++ more) :
    c'.Shows o header := by
  obtain ⟨least, -, inside⟩ := shows.inside
  refine ⟨?_, shows.reached⟩
  rw [longer, List.drop_append_of_le_length (by rw [length_toList]; omega)]
  exact Header.decode_append shows.spelled more

theorem toList_linked {b : BlockHeader} (spelled : BlockHeader.decode (c.toList.drop o) = .ok b)
    (next : Option Extent) :
    (c.write o ({ b with next } : BlockHeader).encode).toList =
      c.toList.take (o + 16) ++ BlockHeader.encodeLink next ++ c.toList.drop (o + 32) := by
  have whole := (BlockHeader.exists_decode.mp ⟨b, spelled⟩).1
  rw [List.length_drop, length_toList] at whole
  rw [toList_overwrite (by rw [BlockHeader.length_encode]; omega), BlockHeader.length_encode,
    BlockHeader.encode_next, BlockHeader.take_encode_of_decode spelled, List.take_add, ← List.append_assoc]

/-- A block that came to the end of the file shows itself there. -/
theorem Shows.added {front : List UInt8} (checked : spec.check chunkSize = .ok ())
    (reached : front.length + spec.size.toNat ≤ maxOffset)
    (bytes : c'.toList = front ++ (Layout.fresh spec chunkSize).bytes) :
    c'.Shows front.length (spec.header chunkSize) := by
  refine ⟨?_, ?_⟩
  · rw [bytes, List.drop_left]
    exact Header.decode_encode (BlockSpec.header_wellFormed checked) _
  · have room := (BlockSpec.check_ok checked).2.2.1
    rw [BlockSpec.header_size]
    omega

theorem Shows.grafted (shows : c.Shows o header) {next : Option Extent} (checked : spec.check chunkSize = .ok ())
    (reached : c.size + spec.size.toNat ≤ maxOffset)
    (grown : c'.toList = c.toList.take (o + 16) ++ BlockHeader.encodeLink next ++ c.toList.drop (o + 32) ++
      (Layout.fresh spec chunkSize).bytes) : c'.Shows c.size (spec.header chunkSize) := by
  obtain ⟨least, -, inside⟩ := shows.inside
  have front : (c.toList.take (o + 16) ++ BlockHeader.encodeLink next ++ c.toList.drop (o + 32)).length = c.size := by
    simp only [List.length_append, List.length_take, List.length_drop, BlockHeader.length_encodeLink,
      length_toList]
    omega
  have shown := Shows.added checked (front ▸ reached) grown
  rwa [front] at shown

/-- What stands against a block of this many bytes at the end of the file. -/
def bars (c : Content) (chunkSize : UInt32) (size : Nat) : Option Fault :=
  if maxOffset < c.size then some (.system .invalidArgument)
  else if ¬ chunkSize.toNat ∣ c.size then some (.misplacedBlock c.size chunkSize)
  else if maxOffset < c.size + size then some (.system .invalidArgument)
  else none

theorem bars_eq_none {chunkSize : UInt32} {size : Nat} (free : c.bars chunkSize size = none) :
    chunkSize.toNat ∣ c.size ∧ c.size + size ≤ maxOffset := by
  rw [bars] at free
  split at free
  · cases free
  · split at free
    · cases free
    case isFalse even =>
      split at free
      · cases free
      case isFalse near => exact ⟨not_not.mp even, Nat.le_of_not_lt near⟩

theorem bars_final {chunkSize : UInt32} {size : Nat} {fault : Fault}
    (barred : c.bars chunkSize size = some fault) : fault.isRetryable = false := by
  rw [bars] at barred
  split at barred
  · cases barred
    rfl
  · split at barred
    · cases barred
      rfl
    · split at barred
      · cases barred
        rfl
      · cases barred

end Content

namespace Handle

variable {h : Handle} {s : Store} {f : OpenFile} {c : Content} {chunkSize : UInt32} {spec : BlockSpec}

theorem exec_seekEnd_far (sees : h.Sees s f c) (far : maxOffset < c.size) :
    ∃ s', h.seekEnd.exec s = (.error (.system .invalidArgument), s') ∧ h.Scanned s f c s' := by
  obtain ⟨s', ran, left⟩ := exec_fail (α := Unit) sees .invalidArgument
  refine ⟨s', ?_, f.position, _, left⟩
  rw [seekEnd, Action.exec_bind_ok (exec_length sees), seek, if_pos far, Action.exec_bind_error ran]

theorem exec_requireAligned_not (sees : h.Sees s f c) {offset : Nat}
    (uneven : ¬ f.header.chunkSize.toNat ∣ offset) :
    (h.requireAligned offset).exec s = (.error (.misplacedBlock offset f.header.chunkSize), s) := by
  have odd : (offset % f.header.chunkSize.toNat == 0) = false := by
    rw [beq_eq_false_iff_ne]
    exact fun even => uneven (Nat.dvd_of_mod_eq_zero even)
  rw [requireAligned, Action.exec_bind_ok (exec_isAligned sees offset), odd]
  exact Action.exec_bind_ok (exec_chunkSize sees) _

theorem exec_extend_barred (sees : h.Sees s f c) (chunk : f.header.chunkSize = chunkSize) {bytes : Nat}
    (positive : bytes ≠ 0) (count : bytes < 2 ^ 32) {fault : Fault} (barred : c.bars chunkSize bytes = some fault) :
    ∃ s', (h.extend bytes).exec s = (.error fault, s') ∧ h.Scanned s f c s' := by
  subst chunk
  rw [Content.bars] at barred
  by_cases far : maxOffset < c.size
  · rw [if_pos far] at barred
    cases barred
    obtain ⟨s', ran, scanned⟩ := exec_seekEnd_far sees far
    refine ⟨s', ?_, scanned⟩
    simp only [extend, if_neg positive]
    exact Action.exec_bind_error ran _
  · rw [if_neg far] at barred
    have small := Nat.le_of_not_lt far
    by_cases aligned : f.header.chunkSize.toNat ∣ c.size
    · rw [if_neg (not_not_intro aligned)] at barred
      by_cases long : maxOffset < c.size + bytes
      · rw [if_pos long] at barred
        cases barred
        obtain ⟨s', p, ran, left⟩ := exec_extend_far sees aligned small positive count long
        exact ⟨s', ran, p, _, left⟩
      · rw [if_neg long] at barred
        cases barred
    · rw [if_pos aligned] at barred
      cases barred
      obtain ⟨s', ran, left⟩ := exec_seekEnd sees small
      refine ⟨s', ?_, c.size, f.lastErrno, left⟩
      simp only [extend, if_neg positive]
      rw [Action.exec_bind_ok ran, Action.exec_bind_error (exec_requireAligned_not left.sees aligned)]

/-- Where something stands against the block, no byte changes. -/
theorem exec_append_barred (sees : h.Sees s f c) (chunk : f.header.chunkSize = chunkSize)
    (checked : spec.check chunkSize = .ok ()) {fault : Fault}
    (barred : c.bars chunkSize spec.size.toNat = some fault) :
    ∃ s', (h.append spec).exec s = (.error fault, s') ∧ h.Scanned s f c s' := by
  obtain ⟨positive, -, -, -⟩ := BlockSpec.check_ok checked
  obtain ⟨s₁, ran₁, p, e, left₁⟩ := exec_extend_barred sees chunk positive spec.size.toNat_lt barred
  have ran : Action.exec (do
      let offset ← h.extend spec.size.toNat
      h.writeAt offset (spec.header chunkSize).encode
      return ({ offset := UInt64.ofNat offset, size := spec.size.toUInt64 } : Extent)) s =
        (.error fault, s₁) := Action.exec_bind_error ran₁ _
  obtain ⟨s₂, ran₂, left₂⟩ := exec_keepingPosition sees ran left₁
  refine ⟨s₂, ?_, f.position, e, left₂⟩
  rw [append, Action.exec_bind_ok (exec_chunkSize sees), chunk, checked]
  exact ran₂

theorem exec_append_free (sees : h.Sees s f c) (chunk : f.header.chunkSize = chunkSize)
    (checked : spec.check chunkSize = .ok ()) (free : c.bars chunkSize spec.size.toNat = none) :
    ∃ s' c', (h.append spec).exec s =
        (.ok { offset := UInt64.ofNat c.size, size := UInt64.ofNat spec.size.toNat }, s') ∧
      h.Leaves s f c' s.locks s' ∧ c'.toList = c.toList ++ (Layout.fresh spec chunkSize).bytes := by
  subst chunk
  obtain ⟨-, -, room, -⟩ := BlockSpec.check_ok checked
  obtain ⟨aligned, fits⟩ := Content.bars_eq_none free
  have added := c.toList_blank (BlockSpec.header_wellFormed checked)
    (by rw [BlockSpec.header_size, BlockSpec.header_blockSize]; exact room)
  rw [BlockSpec.header_blockSize] at added
  obtain ⟨s', ran, left⟩ := exec_append_room sees checked aligned fits
  exact ⟨s', _, ran, left, added⟩

/-- The link is all that changes. -/
theorem exec_link_spelled (sees : h.Sees s f c) {o : Nat} {b : BlockHeader}
    (spelled : BlockHeader.decode (c.toList.drop o) = .ok b) (reached : o + 32 ≤ maxOffset)
    (last : b.next = none) (e : Extent) :
    ∃ s' p c', (h.link o e).exec s = (.ok (), s') ∧ h.Leaves s { f with position := p } c' s.locks s' ∧
      c'.toList = c.toList.take (o + 16) ++ BlockHeader.encodeLink (some e) ++ c.toList.drop (o + 32) := by
  have decoded : BlockHeader.decode (c.read o 32) = .ok b := by
    rwa [Content.toList_read, BlockHeader.decode_take (Nat.le_refl 32)]
  have enough : 32 ≤ (c.read o 32).length := (BlockHeader.exists_decode.mp ⟨b, decoded⟩).1
  obtain ⟨s', p, ran, left⟩ := exec_link_free sees reached enough decoded last e
  exact ⟨s', p, _, ran, left, Content.toList_linked spelled (some e)⟩

theorem exec_link_shown (sees : h.Sees s f c) {o : Nat} {header : Header} (shows : c.Shows o header)
    (last : header.next = none) (e : Extent) :
    ∃ s' p c', (h.link o e).exec s = (.ok (), s') ∧ h.Leaves s { f with position := p } c' s.locks s' ∧
      c'.toList = c.toList.take (o + 16) ++ BlockHeader.encodeLink (some e) ++ c.toList.drop (o + 32) := by
  obtain ⟨least, -, -⟩ := shows.inside
  have reached := shows.reached
  exact exec_link_spelled sees (Header.blockPart_of_decode shows.spelled) (by omega) last e

theorem exec_appendAfter_barred (sees : h.Sees s f c) (chunk : f.header.chunkSize = chunkSize)
    (checked : spec.check chunkSize = .ok ()) {tail : Nat} {header : Header} (shows : c.Shows tail header)
    (last : header.next = none) {fault : Fault} (barred : c.bars chunkSize spec.size.toNat = some fault) :
    ∃ s', (h.appendAfter tail spec).exec s = (.error fault, s') ∧ h.Scanned s f c s' := by
  obtain ⟨s₁, ran₁, p, e, left₁⟩ := scans_readHeader (c := c) tail sees chunk
  rw [Content.headerAt_eq_ok.mpr shows] at ran₁
  obtain ⟨s₂, ran₂, scanned⟩ := exec_append_barred left₁.sees chunk checked barred
  refine ⟨s₂, ?_, Scanned.trans left₁ scanned⟩
  rw [appendAfter, Action.exec_bind_ok ran₁]
  simp only [last]
  exact Action.exec_bind_error ran₂ _

/-- The block comes to the old end of the file, and the link to where the tail had none. -/
theorem exec_appendAfter_free (sees : h.Sees s f c) (chunk : f.header.chunkSize = chunkSize)
    (checked : spec.check chunkSize = .ok ()) {tail : Nat} {header : Header} (shows : c.Shows tail header)
    (last : header.next = none) (free : c.bars chunkSize spec.size.toNat = none) :
    ∃ s' c' p e, (h.appendAfter tail spec).exec s =
        (.ok { offset := UInt64.ofNat c.size, size := UInt64.ofNat spec.size.toNat }, s') ∧
      h.Leaves s { f with position := p, lastErrno := e } c' s.locks s' ∧
      c'.toList = c.toList.take (tail + 16) ++
        BlockHeader.encodeLink (some { offset := UInt64.ofNat c.size, size := UInt64.ofNat spec.size.toNat }) ++
        c.toList.drop (tail + 32) ++ (Layout.fresh spec chunkSize).bytes := by
  obtain ⟨least, -, inside⟩ := shows.inside
  obtain ⟨s₁, ran₁, p₁, e₁, left₁⟩ := scans_readHeader (c := c) tail sees chunk
  rw [Content.headerAt_eq_ok.mpr shows] at ran₁
  obtain ⟨s₂, c₂, ran₂, left₂, added⟩ := exec_append_free left₁.sees chunk checked free
  obtain ⟨s₃, p₃, c₃, ran₃, left₃, linked⟩ := exec_link_shown left₂.sees (shows.append added) last
    { offset := UInt64.ofNat c.size, size := UInt64.ofNat spec.size.toNat }
  have both := left₁.trans_quiet left₂ rfl
  refine ⟨s₃, c₃, p₃, e₁, ?_, both.trans_quiet left₃ rfl, ?_⟩
  · rw [appendAfter, Action.exec_bind_ok ran₁]
    simp only [last]
    exact (Action.exec_bind_ok ran₂ _).trans ((Action.exec_bind_ok ran₃ _).trans (Action.exec_pure ..))
  · have length : c.toList.length = c.size := Content.length_toList c
    rw [linked, added, List.take_append_of_le_length (by omega), List.drop_append_of_le_length (by omega)]
    simp only [List.append_assoc]

section Growing

variable {tail : Nat} {header : Header}

theorem exec_growing_barred (sees : h.Sees s f c) (chunk : f.header.chunkSize = chunkSize)
    (checked : spec.check chunkSize = .ok ()) (shows : c.Shows tail header) (last : header.next = none)
    {fault : Fault} (barred : c.bars chunkSize spec.size.toNat = some fault) (free : h.Free s f .growth) :
    ∃ s' p e t, Action.exec (h.growing (m := StateM Store) (h.appendAfter tail spec)) s = (.error fault, s') ∧
      h.Leaves s { f with position := p, lastErrno := e } c t s' := by
  obtain ⟨s₁, holds, left₁⟩ := exec_hold sees Region.growth_fits.1 Region.growth_fits.2 free
  obtain ⟨s₂, ran₂, p, e, left₂⟩ := exec_appendAfter_barred left₁.sees chunk checked shows last barred
  obtain ⟨s₃, ran₃, left₃⟩ := exec_growing sees holds left₁ ran₂ left₂ rfl rfl
    fun _ failed => Except.error.inj failed ▸ Content.bars_final barred
  exact ⟨s₃, p, e, _, ran₃, left₃⟩

theorem exec_growing_free (sees : h.Sees s f c) (chunk : f.header.chunkSize = chunkSize)
    (checked : spec.check chunkSize = .ok ()) (shows : c.Shows tail header) (last : header.next = none)
    (room : c.bars chunkSize spec.size.toNat = none) (free : h.Free s f .growth) :
    ∃ s' c' p e t, Action.exec (h.growing (m := StateM Store) (h.appendAfter tail spec)) s =
        (.ok { offset := UInt64.ofNat c.size, size := UInt64.ofNat spec.size.toNat }, s') ∧
      h.Leaves s { f with position := p, lastErrno := e } c' t s' ∧
      c'.toList = c.toList.take (tail + 16) ++
        BlockHeader.encodeLink (some { offset := UInt64.ofNat c.size, size := UInt64.ofNat spec.size.toNat }) ++
        c.toList.drop (tail + 32) ++ (Layout.fresh spec chunkSize).bytes := by
  obtain ⟨s₁, holds, left₁⟩ := exec_hold sees Region.growth_fits.1 Region.growth_fits.2 free
  obtain ⟨s₂, c₂, p, e, ran₂, left₂, bytes⟩ :=
    exec_appendAfter_free left₁.sees chunk checked shows last room
  obtain ⟨s₃, ran₃, left₃⟩ := exec_growing sees holds left₁ ran₂ left₂ rfl rfl fun _ failed => by cases failed
  exact ⟨s₃, c₂, p, e, _, ran₃, left₃, bytes⟩

end Growing

end Handle
end RecordFile
