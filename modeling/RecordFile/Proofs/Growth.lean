import Mathlib
import RecordFile.Proofs.Edits
import RecordFile.Proofs.Streaming

/-! Growing a file by a block. Adding a block either does all of its writes or none, so it leaves the
layout as it was, or with one more block. -/
namespace RecordFile

/-- Whether a fault says that the blocks of a file are not as they should be. -/
def Fault.isStructural : Fault → Bool
  | .corruptHeader _ | .corruptChain _ | .alreadyLinked .. => true
  | _ => false

namespace BlockSpec

variable {spec : BlockSpec} {chunkSize : UInt32}

theorem check_ok (checked : spec.check chunkSize = .ok ()) :
    spec.size.toNat ≠ 0 ∧ chunkSize.toNat ∣ spec.size.toNat ∧
      spec.kind.headerSize.toNat ≤ spec.size.toNat ∧ spec.recordSize.toNat < 2 ^ 31 := by
  rw [check] at checked
  split at checked
  · cases checked
  · split at checked
    · cases checked
    · split at checked
      · cases checked
      case isFalse uneven small large =>
        refine ⟨?_, ?_, by omega, by omega⟩
        · intro zero
          exact uneven (.inl (UInt32.toNat_inj.mp zero))
        · apply Nat.dvd_of_mod_eq_zero
          rw [← UInt32.toNat_mod]
          exact congrArg UInt32.toNat (Classical.not_not.mp fun h => uneven (.inr h))

theorem check_of (even : chunkSize.toNat ∣ spec.size.toNat)
    (room : spec.kind.headerSize.toNat ≤ spec.size.toNat) (signed : spec.recordSize.toNat < 2 ^ 31) :
    spec.check chunkSize = .ok () := by
  have least : 32 ≤ spec.kind.headerSize.toNat := by cases spec.kind <;> decide
  have some : spec.size ≠ 0 := by
    intro zero
    rw [zero] at room
    exact absurd (least.trans room) (by decide)
  have whole : spec.size % chunkSize = 0 := by
    apply UInt32.toNat_inj.mp
    rw [UInt32.toNat_mod]
    exact Nat.mod_eq_zero_of_dvd even
  rw [check, if_neg (by simp [some, whole]), if_neg (by omega), if_neg (by omega)]

theorem check_error {fault : Fault} (refused : spec.check chunkSize = .error fault) :
    ∃ defect, fault = .parameter defect := by
  rw [check] at refused
  split at refused
  · exact ⟨_, (Except.error.inj refused).symm⟩
  · split at refused
    · exact ⟨_, (Except.error.inj refused).symm⟩
    · split at refused
      · exact ⟨_, (Except.error.inj refused).symm⟩
      · cases refused

/-- What is wrong with a block is not made good by trying again. -/
theorem check_final {fault : Fault} (refused : spec.check chunkSize = .error fault) : fault.isRetryable = false := by
  obtain ⟨defect, rfl⟩ := check_error refused
  rfl

@[simp] theorem header_blockSize (spec : BlockSpec) (chunkSize : UInt32) :
    (spec.header chunkSize).blockPart.blockSize = spec.size := by
  rw [header]
  split <;> cases h : spec.kind <;> rfl

@[simp] theorem header_size (spec : BlockSpec) (chunkSize : UInt32) :
    (spec.header chunkSize).size = spec.kind.headerSize := by
  rw [header]
  split <;> cases h : spec.kind <;> rfl

@[simp] theorem header_next (spec : BlockSpec) (chunkSize : UInt32) :
    (spec.header chunkSize).next = none := by
  rw [header]
  split <;> cases h : spec.kind <;> rfl

theorem header_wellFormed (checked : spec.check chunkSize = .ok ()) :
    (spec.header chunkSize).WellFormed := by
  obtain ⟨-, -, -, record⟩ := check_ok checked
  have fresh := Header.fresh_wellFormed spec.kind spec.size chunkSize record
  rw [header]
  split
  case isTrue unnumbered => exact fresh
  case isFalse numbered => exact fresh.mapBlock (fun _ => rfl) (fun _ => rfl) fun b storable => storable

end BlockSpec

namespace Layout

/-- The block that is added as a spec says. -/
def fresh (spec : BlockSpec) (chunkSize : UInt32) : Block := .blank (spec.header chunkSize)

variable {settings : Settings} {L : Layout} {spec : BlockSpec} {chunkSize : UInt32}

theorem sound_fresh (checked : spec.check chunkSize = .ok ()) : (fresh spec chunkSize).Sound := by
  refine Block.sound_blank (BlockSpec.header_wellFormed checked) ?_
  rw [BlockSpec.header_size, BlockSpec.header_blockSize]
  exact (BlockSpec.check_ok checked).2.2.1

theorem size_fresh (checked : spec.check chunkSize = .ok ()) :
    (fresh spec chunkSize).size = spec.size.toNat := by
  rw [← (sound_fresh checked).announced, fresh, Block.blank, BlockSpec.header_blockSize]

@[simp] theorem next_fresh (spec : BlockSpec) (chunkSize : UInt32) :
    (fresh spec chunkSize).header.next = none := BlockSpec.header_next spec chunkSize

theorem Proper.storable_end (proper : L.Proper settings) (size : UInt32) :
    ({ offset := UInt64.ofNat L.size, size := UInt64.ofNat size.toNat } : Extent).Storable := by
  have positive := proper.size_pos
  have small := proper.small
  have fits := size.toNat_lt
  simp only [maxOffset] at small
  have start : (UInt64.ofNat L.size).toNat = L.size := toNat_offset proper.small
  have count : (UInt64.ofNat size.toNat).toNat = size.toNat :=
    UInt64.toNat_ofNat_of_lt' (by show _ < 2 ^ 64; omega)
  refine ⟨fun zero => ?_, ?_, ?_⟩
  · have := congrArg UInt64.toNat zero
    rw [start] at this
    have none : (0 : UInt64).toNat = 0 := rfl
    omega
  · rw [start]
    omega
  · rw [count]
    omega

theorem Proper.start_end (proper : L.Proper settings) (size : UInt64) :
    ({ offset := UInt64.ofNat L.size, size } : Extent).start = L.size :=
  toNat_offset proper.small

theorem Proper.append_fresh (proper : L.Proper settings) (checked : spec.check settings.chunkSize = .ok ())
    (fits : L.size + spec.size.toNat ≤ maxOffset) :
    Proper settings (L ++ [fresh spec settings.chunkSize]) := by
  have size := size_fresh checked
  refine proper.append ?_ ?_ (next_fresh _ _)
  · rw [size]
    exact (BlockSpec.check_ok checked).2.1
  · rw [size]
    exact fits

theorem Proper.attach_fresh (proper : L.Proper settings) (checked : spec.check settings.chunkSize = .ok ())
    (fits : L.size + spec.size.toNat ≤ maxOffset) {tail : Nat} {b : Block} (found : L.at? tail = some b) :
    Proper settings (L.attach tail (fresh spec settings.chunkSize)) := by
  have size := size_fresh checked
  refine proper.attach found ?_ ?_ (next_fresh _ _)
  · rw [size]
    exact (BlockSpec.check_ok checked).2.1
  · rw [size]
    exact fits

theorem Chain.of_attach {tail : Nat} {b : Block} (found : L.at? tail = some b) :
    Chain (L.attach tail (fresh spec chunkSize)) L.size [(L.size, spec.header chunkSize)] :=
  .tail (at?_attach_end found _) (next_fresh spec chunkSize)

end Layout

namespace Handle

variable {h : Handle} {s : Store} {f : OpenFile} {c : Content} {L : Layout} {settings : Settings}

theorem exec_seekEnd (sees : h.Sees s f c) (small : c.size ≤ maxOffset) :
    ∃ s', h.seekEnd.exec s = (.ok c.size, s') ∧
      h.Leaves s { f with position := c.size } c s.locks s' := by
  obtain ⟨s', ran, left⟩ := exec_seek sees _ small
  refine ⟨s', ?_, left⟩
  rw [seekEnd, Action.exec_bind_ok (exec_length sees), Action.exec_bind_ok ran, Action.exec_pure]

theorem exec_requireAligned (sees : h.Sees s f c) {offset : Nat}
    (aligned : f.header.chunkSize.toNat ∣ offset) :
    (h.requireAligned offset).exec s = (.ok (), s) := by
  have even : (offset % f.header.chunkSize.toNat == 0) = true := by
    rw [beq_iff_eq]
    exact Nat.mod_eq_zero_of_dvd aligned
  rw [requireAligned, Action.exec_bind_ok (exec_isAligned sees offset), even]
  rfl

/-- Room at the end of the file is made by writing its last byte. -/
theorem exec_extend (sees : h.Sees s f c) (aligned : f.header.chunkSize.toNat ∣ c.size) {bytes : Nat}
    (positive : bytes ≠ 0) (fits : c.size + bytes ≤ maxOffset) :
    ∃ s', (h.extend bytes).exec s = (.ok c.size, s') ∧
      h.Leaves s { f with position := c.size } (c.write (c.size + (bytes - 1)) [0]) s.locks s' := by
  have limit : maxOffset < 2 ^ 64 := by decide
  obtain ⟨s₁, ran₁, left₁⟩ := exec_seekEnd sees (by omega)
  obtain ⟨s₂, p₂, ran₂, left₂⟩ := exec_writeAt left₁.sees (c.size + (bytes - 1)) [0]
    (by rw [List.length_singleton]; omega)
  obtain ⟨s₃, ran₃, left₃⟩ := exec_seek left₂.sees c.size (by omega)
  have both := left₁.trans_quiet left₂ rfl
  refine ⟨s₃, ?_, both.trans_quiet left₃ rfl⟩
  simp only [extend, if_neg positive]
  rw [Action.exec_bind_ok ran₁, Action.exec_bind_ok (exec_requireAligned left₁.sees aligned),
    if_neg (by omega), Action.exec_bind_ok ran₂, Action.exec_bind_ok ran₃, Action.exec_pure]

theorem exec_extend_far (sees : h.Sees s f c) (aligned : f.header.chunkSize.toNat ∣ c.size)
    (small : c.size ≤ maxOffset) {bytes : Nat} (positive : bytes ≠ 0) (count : bytes < 2 ^ 32)
    (far : maxOffset < c.size + bytes) :
    ∃ s' p, (h.extend bytes).exec s = (.error (.system .invalidArgument), s') ∧
      h.Leaves s { f with position := p, lastErrno := SystemError.invalidArgument.number? } c s.locks s' := by
  obtain ⟨s₁, ran₁, left₁⟩ := exec_seekEnd sees small
  have last : maxOffset < c.size + (bytes - 1) + [(0 : UInt8)].length := by
    rw [List.length_singleton]
    omega
  obtain ⟨s₂, p, ran₂, left₂⟩ := exec_seekFor_far left₁.sees last
  have write : (h.writeAt (c.size + (bytes - 1)) [0]).exec s₁ = (.error (.system .invalidArgument), s₂) := by
    rw [writeAt, Action.exec_bind_error ran₂]
  have short : ¬ 0x10000000000000000 ≤ c.size + (bytes - 1) := by
    simp only [maxOffset] at small
    omega
  refine ⟨s₂, p, ?_, left₁.trans_quiet left₂ rfl⟩
  simp only [extend, if_neg positive]
  rw [Action.exec_bind_ok ran₁, Action.exec_bind_ok (exec_requireAligned left₁.sees aligned),
    if_neg short, Action.exec_bind_error write]

theorem exec_append_room (sees : h.Sees s f c) {spec : BlockSpec}
    (checked : spec.check f.header.chunkSize = .ok ()) (aligned : f.header.chunkSize.toNat ∣ c.size)
    (fits : c.size + spec.size.toNat ≤ maxOffset) :
    ∃ s', (h.append spec).exec s =
        (.ok { offset := UInt64.ofNat c.size, size := UInt64.ofNat spec.size.toNat }, s') ∧
      h.Leaves s f ((c.write (c.size + (spec.size.toNat - 1)) [0]).write c.size
        (spec.header f.header.chunkSize).encode) s.locks s' := by
  obtain ⟨positive, -, room, -⟩ := BlockSpec.check_ok checked
  have wf := BlockSpec.header_wellFormed checked
  have length : (spec.header f.header.chunkSize).encode.length ≤ spec.size.toNat := by
    rw [Header.length_encode wf, BlockSpec.header_size]
    exact room
  obtain ⟨s₁, ran₁, left₁⟩ := exec_extend sees aligned positive fits
  obtain ⟨s₂, p, ran₂, left₂⟩ := exec_writeAt left₁.sees c.size
    (spec.header f.header.chunkSize).encode (by omega)
  have ran : Action.exec (do
      let offset ← h.extend spec.size.toNat
      h.writeAt offset (spec.header f.header.chunkSize).encode
      return ({ offset := UInt64.ofNat offset, size := spec.size.toUInt64 } : Extent)) s =
        (.ok { offset := UInt64.ofNat c.size, size := UInt64.ofNat spec.size.toNat }, s₂) := by
    rw [Action.exec_bind_ok ran₁, Action.exec_bind_ok ran₂, Action.exec_pure, UInt64.ofNat_uInt32ToNat]
  obtain ⟨s₃, ran₃, left₃⟩ := exec_keepingPosition sees ran (left₁.trans_quiet left₂ rfl)
  refine ⟨s₃, ?_, left₃⟩
  rw [append, Action.exec_bind_ok (exec_chunkSize sees), checked]
  exact ran₃

theorem exec_append (sees : h.Sees s f c) (laid : c.LaidOut L) (proper : L.Proper settings)
    (chunk : f.header.chunkSize = settings.chunkSize) {spec : BlockSpec}
    (checked : spec.check settings.chunkSize = .ok ()) (fits : L.size + spec.size.toNat ≤ maxOffset) :
    ∃ s' c', (h.append spec).exec s =
        (.ok { offset := UInt64.ofNat L.size, size := UInt64.ofNat spec.size.toNat }, s') ∧
      h.Leaves s f c' s.locks s' ∧ c'.LaidOut (L ++ [Layout.fresh spec settings.chunkSize]) := by
  obtain ⟨-, -, room, -⟩ := BlockSpec.check_ok checked
  have aligned : f.header.chunkSize.toNat ∣ c.size := by
    rw [chunk, laid.size]
    exact Layout.Proper.dvd_size proper.chunked
  have added := laid.append (BlockSpec.header_wellFormed checked)
    (by rw [BlockSpec.header_size, BlockSpec.header_blockSize]; exact room)
  rw [BlockSpec.header_blockSize] at added
  rw [← chunk] at checked added ⊢
  rw [← laid.size] at fits ⊢
  obtain ⟨s', ran, left⟩ := exec_append_room sees checked aligned fits
  exact ⟨s', _, ran, left, added⟩

/-- Where a spec is refused, or the file would become too long, nothing is written. -/
theorem exec_append_refused (sees : h.Sees s f c) (laid : c.LaidOut L) (proper : L.Proper settings)
    (chunk : f.header.chunkSize = settings.chunkSize) {spec : BlockSpec}
    (refused : spec.check settings.chunkSize = .ok () → maxOffset < L.size + spec.size.toNat) :
    ∃ fault s' e, (h.append spec).exec s = (.error fault, s') ∧
      h.Leaves s { f with lastErrno := e } c s.locks s' ∧
      fault.isStructural = false ∧ fault.isRetryable = false := by
  cases checked : spec.check settings.chunkSize with
  | error fault =>
    obtain ⟨defect, rfl⟩ := BlockSpec.check_error checked
    refine ⟨.parameter defect, s, f.lastErrno, ?_, sees.leaves, rfl, rfl⟩
    rw [append, Action.exec_bind_ok (exec_chunkSize sees), chunk, checked]
    rfl
  | ok =>
    have far := refused checked
    obtain ⟨positive, -, -, -⟩ := BlockSpec.check_ok checked
    have aligned : f.header.chunkSize.toNat ∣ c.size := by
      rw [chunk, laid.size]
      exact Layout.Proper.dvd_size proper.chunked
    have small := proper.small
    rw [← laid.size] at far small
    obtain ⟨s₁, p, ran₁, left₁⟩ := exec_extend_far sees aligned small positive spec.size.toNat_lt far
    have ran : Action.exec (do
        let offset ← h.extend spec.size.toNat
        h.writeAt offset (spec.header settings.chunkSize).encode
        return ({ offset := UInt64.ofNat offset, size := spec.size.toUInt64 } : Extent)) s =
          (.error (.system .invalidArgument), s₁) := by
      rw [Action.exec_bind_error ran₁]
    obtain ⟨s₂, ran₂, left₂⟩ := exec_keepingPosition sees ran left₁
    refine ⟨.system .invalidArgument, s₂, _, ?_, left₂, rfl, rfl⟩
    rw [append, Action.exec_bind_ok (exec_chunkSize sees), chunk, checked]
    exact ran₂

/-- A block is linked by writing its first 32 bytes again, if these are read as a header without a link. -/
theorem exec_link_free (sees : h.Sees s f c) {o : Nat} {b : BlockHeader} (near : o + 32 ≤ maxOffset)
    (enough : 32 ≤ (c.read o 32).length) (decoded : BlockHeader.decode (c.read o 32) = .ok b)
    (free : b.next = none) (e : Extent) :
    ∃ s' p, (h.link o e).exec s = (.ok (), s') ∧
      h.Leaves s { f with position := p } (c.write o ({ b with next := some e } : BlockHeader).encode) s.locks s' := by
  obtain ⟨s₁, p₁, ran₁, left₁⟩ := exec_readAt sees o 32 near
  have read : (h.readExactly o blockHeaderSize.toNat).exec s = (.ok (c.read o 32), s₁) := by
    have prefixSize : blockHeaderSize.toNat = 32 := rfl
    rw [readExactly, prefixSize, Action.exec_bind_ok ran₁, if_neg (Nat.not_lt.mpr enough), Action.exec_pure]
  obtain ⟨s₂, p₂, ran₂, left₂⟩ := exec_writeAt left₁.sees o ({ b with next := some e } : BlockHeader).encode
    (by rw [BlockHeader.length_encode]; exact near)
  refine ⟨s₂, p₂, ?_, left₁.trans_quiet left₂ rfl⟩
  rw [link, Action.exec_bind_ok read, decoded, Action.exec_bind_ok (Action.exec_orFault_ok ..)]
  simp only [free]
  exact ran₂

theorem exec_link (sees : h.Sees s f c) (laid : c.LaidOut L) (small : L.size ≤ maxOffset) {o : Nat}
    {b : Block} (found : L.at? o = some b) (free : b.header.next = none) {e : Extent} (fits : e.Storable) :
    ∃ s' p c', (h.link o e).exec s = (.ok (), s') ∧ h.Leaves s { f with position := p } c' s.locks s' ∧
      c'.LaidOut (L.edit (Block.setNext e) o) := by
  have sound := laid.sound.at? found
  have inside := Layout.at?_le found
  have least := b.size_ge
  obtain ⟨rest, bytes⟩ := laid.read found
  have whole : b.bytes ++ rest = b.header.encode ++ (b.payload ++ rest) := List.append_assoc ..
  have enough : 32 ≤ (c.read o 32).length := by
    rw [bytes, List.length_take, List.length_append, ← Block.size]
    omega
  have decoded : BlockHeader.decode (c.read o 32) = .ok b.header.blockPart := by
    rw [bytes, whole]
    exact Header.decode_take_block sound.wellFormed _
  obtain ⟨s', p, ran, left⟩ := exec_link_free sees (by omega) enough decoded free e
  refine ⟨s', p, _, ran, left, ?_⟩
  show Content.LaidOut (c.write (o + 0) _) _
  refine laid.write found ?_ (sound.setNext fits) ?_
  · rw [BlockHeader.length_encode]
    omega
  · rw [BlockHeader.length_encode]
    exact Block.bytes_setNext e b

theorem exec_appendAfter_linked (sees : h.Sees s f c) (laid : c.LaidOut L) (small : L.size ≤ maxOffset)
    {tail : Nat} {b : Block} (found : L.at? tail = some b) {e : Extent} (linked : b.header.next = some e)
    (spec : BlockSpec) :
    ∃ s' p, (h.appendAfter tail spec).exec s = (.error (.alreadyLinked tail e.start), s') ∧
      h.Leaves s { f with position := p } c s.locks s' := by
  obtain ⟨s₁, p, ran₁, left₁⟩ := exec_readHeader sees laid small found
  refine ⟨s₁, p, ?_, left₁⟩
  rw [appendAfter, Action.exec_bind_ok ran₁]
  simp only [linked]
  rfl

theorem exec_appendAfter_refused (sees : h.Sees s f c) (laid : c.LaidOut L) (proper : L.Proper settings)
    (chunk : f.header.chunkSize = settings.chunkSize) {tail : Nat} {b : Block}
    (found : L.at? tail = some b) (free : b.header.next = none) {spec : BlockSpec}
    (refused : spec.check settings.chunkSize = .ok () → maxOffset < L.size + spec.size.toNat) :
    ∃ fault s' p e, (h.appendAfter tail spec).exec s = (.error fault, s') ∧
      h.Leaves s { f with position := p, lastErrno := e } c s.locks s' ∧
      fault.isStructural = false ∧ fault.isRetryable = false := by
  obtain ⟨s₁, p, ran₁, left₁⟩ := exec_readHeader sees laid proper.small found
  obtain ⟨fault, s₂, e, ran₂, left₂, kind⟩ := exec_append_refused left₁.sees laid proper chunk refused
  refine ⟨fault, s₂, p, e, ?_, left₁.trans_quiet left₂ rfl, kind⟩
  rw [appendAfter, Action.exec_bind_ok ran₁]
  simp only [free]
  exact Action.exec_bind_error ran₂ _

theorem exec_appendAfter (sees : h.Sees s f c) (laid : c.LaidOut L) (proper : L.Proper settings)
    (chunk : f.header.chunkSize = settings.chunkSize) {tail : Nat} {b : Block}
    (found : L.at? tail = some b) (free : b.header.next = none) {spec : BlockSpec}
    (checked : spec.check settings.chunkSize = .ok ()) (fits : L.size + spec.size.toNat ≤ maxOffset) :
    ∃ s' p c', (h.appendAfter tail spec).exec s =
        (.ok { offset := UInt64.ofNat L.size, size := UInt64.ofNat spec.size.toNat }, s') ∧
      h.Leaves s { f with position := p } c' s.locks s' ∧
      c'.LaidOut (L.attach tail (Layout.fresh spec settings.chunkSize)) := by
  obtain ⟨s₁, p₁, ran₁, left₁⟩ := exec_readHeader sees laid proper.small found
  obtain ⟨s₂, c₂, ran₂, left₂, laid₂⟩ := exec_append left₁.sees laid proper chunk checked fits
  have size := Layout.size_fresh checked
  have small : Layout.size (L ++ [Layout.fresh spec settings.chunkSize]) ≤ maxOffset := by
    rw [Layout.size_append, Layout.size_cons, Layout.size_nil, size]
    exact fits
  obtain ⟨s₃, p₃, c₃, ran₃, left₃, laid₃⟩ := exec_link left₂.sees laid₂ small
    (Layout.at?_append_old _ found) free (proper.storable_end spec.size)
  have both := left₁.trans_quiet left₂ rfl
  refine ⟨s₃, p₃, c₃, ?_, both.trans_quiet left₃ rfl, ?_⟩
  · rw [appendAfter, Action.exec_bind_ok ran₁]
    simp only [free]
    exact (Action.exec_bind_ok ran₂ _).trans ((Action.exec_bind_ok ran₃ _).trans (Action.exec_pure ..))
  · rw [Layout.attach, size]
    exact laid₃

end Handle
end RecordFile
