import Mathlib
import RecordFile.Allocation
import RecordFile.Proofs.Execution
import RecordFile.Proofs.Layout

/-! What the stream actions of a handle give and leave, and reading a header where a block starts. Where the handle
is open the store that is left is given outright. Where it sees its file, what is left of it is told. -/
namespace RecordFile

namespace Store

variable {s : Store} {d : Nat} {f : OpenFile}

/-- The file that is open under a descriptor. -/
def place (d : Nat) (s : Store) : Option Location := (s.openFile? d).map OpenFile.location

/-- Its bytes. -/
def bytesOf (d : Nat) (s : Store) : Content := ((s.place d).bind s.content?).getD .empty

def sought (d position : Nat) (s : Store) : Store := s.mapOpen d fun file => { file with position }

def overwritten (d : Nat) (place : Location) (offset : Nat) (bytes : List UInt8) (s : Store) : Store :=
  ((s.sought d offset).put place ((s.bytesOf d).write offset bytes)).sought d (offset + bytes.length)

theorem place_eq_some {place : Location} (opened : s.place d = some place) :
    ∃ f, s.openFile? d = some f ∧ f.location = place := Option.map_eq_some_iff.mp opened

theorem bytesOf_opened (opened : s.openFile? d = some f) :
    s.bytesOf d = (s.content? f.location).getD .empty := by
  rw [bytesOf, place, opened, Option.map_some, Option.bind_some]

theorem openFile?_sought (opened : s.openFile? d = some f) (position : Nat) :
    (s.sought d position).openFile? d = some { f with position } := openFile?_mapOpen_opened opened _

@[simp] theorem place_sought (position : Nat) : (s.sought d position).place d = s.place d := by
  refine map_openFile?_mapOpen ?_ s d d
  exact fun _ => rfl

theorem bytesOf_sought (position : Nat) : (s.sought d position).bytesOf d = s.bytesOf d := by
  rw [bytesOf, place_sought]
  rfl

theorem openFile?_overwritten (opened : s.openFile? d = some f) (place : Location) (offset : Nat)
    (bytes : List UInt8) : (s.overwritten d place offset bytes).openFile? d =
      some { f with position := offset + bytes.length } := by
  refine openFile?_sought (s := (s.sought d offset).put place _) (f := { f with position := offset }) ?_ _
  exact openFile?_sought opened offset

theorem content?_overwritten (place l : Location) (offset : Nat) (bytes : List UInt8) :
    (s.overwritten d place offset bytes).content? l =
      if l = place then some ((s.bytesOf d).write offset bytes) else s.content? l := by
  show ((s.sought d offset).put place _).content? l = _
  rw [content?_put]
  rfl

end Store

namespace Handle

variable {h : Handle} {s : Store} {f : OpenFile} {c : Content}

theorem exec_file_eq : h.file.exec s =
    ((s.openFile? h.descriptor).elim (.error (.system .badDescriptor)) .ok, s) := by
  rw [file, Action.exec_bind_ok (Action.exec_get s)]
  cases s.openFile? h.descriptor <;> rfl

theorem exec_update_eq (change : OpenFile → OpenFile) : (h.update change).exec s =
    (s.openFile? h.descriptor).elim (.error (.system .badDescriptor), s) fun _ =>
      (.ok (), s.mapOpen h.descriptor change) := by
  unfold update
  rw [Action.exec_bind, exec_file_eq]
  cases s.openFile? h.descriptor <;> rfl

theorem exec_file_opened (opened : s.openFile? h.descriptor = some f) : h.file.exec s = (.ok f, s) := by
  rw [exec_file_eq, opened, Option.elim_some]

theorem exec_update_opened (opened : s.openFile? h.descriptor = some f) (change : OpenFile → OpenFile) :
    (h.update change).exec s = (.ok (), s.mapOpen h.descriptor change) := by
  rw [exec_update_eq, opened, Option.elim_some]

theorem exec_position_opened (opened : s.openFile? h.descriptor = some f) :
    h.position.exec s = (.ok f.position, s) := by
  rw [position, Action.exec_bind_ok (exec_file_opened opened), Action.exec_pure]

theorem exec_content_opened (opened : s.openFile? h.descriptor = some f) :
    h.content.exec s = (.ok (s.bytesOf h.descriptor), s) := by
  rw [content, Action.exec_bind_ok (exec_file_opened opened), Action.exec_bind_ok (Action.exec_get s),
    Action.exec_pure, Store.bytesOf_opened opened]

theorem exec_setContent_opened (opened : s.openFile? h.descriptor = some f) (c : Content) :
    (h.setContent c).exec s = (.ok (), s.put f.location c) := by
  rw [setContent, Action.exec_bind_ok (exec_file_opened opened), Action.exec_modify]

theorem exec_seek_opened (opened : s.openFile? h.descriptor = some f) {offset : Nat} (fits : offset ≤ maxOffset) :
    (h.seek offset).exec s = (.ok (), s.sought h.descriptor offset) := by
  rw [seek, if_neg (Nat.not_lt.mpr fits), exec_update_opened opened, Store.sought]

theorem exec_seekFor_opened (opened : s.openFile? h.descriptor = some f) {offset count : Nat}
    (fits : offset + count ≤ maxOffset) : (h.seekFor offset count).exec s = (.ok (), s.sought h.descriptor offset) := by
  rw [seekFor, Action.exec_bind_ok (exec_seek_opened opened (by omega)), if_neg (Nat.not_lt.mpr fits),
    Action.exec_pure]

theorem exec_readAt_opened (opened : s.openFile? h.descriptor = some f) {offset count : Nat}
    (fits : offset + count ≤ maxOffset) : (h.readAt offset count).exec s =
      (.ok ((s.bytesOf h.descriptor).read offset count), (s.sought h.descriptor offset).sought h.descriptor
        (offset + ((s.bytesOf h.descriptor).read offset count).length)) := by
  have opened₁ := Store.openFile?_sought opened offset
  rw [readAt, Action.exec_bind_ok (exec_seekFor_opened opened fits), Action.exec_bind_ok (exec_content_opened opened₁),
    Store.bytesOf_sought, Action.exec_bind_ok (exec_update_opened opened₁ _), Action.exec_pure]
  rfl

theorem exec_writeAt_opened (opened : s.openFile? h.descriptor = some f) {offset : Nat} {bytes : List UInt8}
    (fits : offset + bytes.length ≤ maxOffset) : (h.writeAt offset bytes).exec s =
      (.ok (), s.overwritten h.descriptor f.location offset bytes) := by
  have opened₁ := Store.openFile?_sought opened offset
  rw [writeAt, Action.exec_bind_ok (exec_seekFor_opened opened fits), Action.exec_bind_ok (exec_content_opened opened₁),
    Store.bytesOf_sought, Action.exec_bind_ok (exec_setContent_opened opened₁ _)]
  exact exec_update_opened ((Store.openFile?_put ..).trans opened₁) _

theorem Sees.bytesOf (sees : h.Sees s f c) : s.bytesOf h.descriptor = c := by
  rw [Store.bytesOf_opened sees.opened, sees.content]
  rfl

theorem exec_file (sees : h.Sees s f c) : h.file.exec s = (.ok f, s) := exec_file_opened sees.opened

theorem exec_update (sees : h.Sees s f c) (change : OpenFile → OpenFile) :
    (h.update change).exec s = (.ok (), s.mapOpen h.descriptor change) := exec_update_opened sees.opened change

theorem exec_content (sees : h.Sees s f c) : h.content.exec s = (.ok c, s) := by
  rw [exec_content_opened sees.opened, sees.bytesOf]

theorem exec_length (sees : h.Sees s f c) : h.length.exec s = (.ok c.size, s) := by
  rw [length, Action.exec_bind_ok (exec_content sees), Action.exec_pure]

theorem exec_position (sees : h.Sees s f c) : h.position.exec s = (.ok f.position, s) :=
  exec_position_opened sees.opened

theorem exec_chunkSize (sees : h.Sees s f c) : h.chunkSize.exec s = (.ok f.header.chunkSize, s) := by
  rw [chunkSize, Action.exec_bind_ok (exec_file sees), Action.exec_pure]

theorem exec_isAligned (sees : h.Sees s f c) (offset : Nat) :
    (h.isAligned offset).exec s = (.ok (offset % f.header.chunkSize.toNat == 0), s) := by
  rw [isAligned, Action.exec_bind_ok (exec_chunkSize sees), Action.exec_pure]

theorem exec_fail {α : Type} (sees : h.Sees s f c) (error : SystemError) :
    ∃ s', (h.fail error : Action α).exec s = (.error (.system error), s') ∧
      h.Leaves s { f with lastErrno := error.number? } c s.locks s' := by
  refine ⟨_, ?_, sees.mapOpen (fun f => { f with lastErrno := error.number? }) rfl sees.position⟩
  rw [fail, Action.exec_bind_ok (exec_update sees _), Action.exec_throw]

theorem exec_seek (sees : h.Sees s f c) (offset : Nat) (fits : offset ≤ maxOffset) :
    ∃ s', (h.seek offset).exec s = (.ok (), s') ∧
      h.Leaves s { f with position := offset } c s.locks s' :=
  ⟨_, exec_seek_opened sees.opened fits, sees.mapOpen (fun f => { f with position := offset }) rfl fits⟩

/-- Where an offset is too large, nothing but the stream and the last error change. -/
theorem exec_seekFor_far (sees : h.Sees s f c) {offset count : Nat} (far : maxOffset < offset + count) :
    ∃ s' p, (h.seekFor offset count).exec s = (.error (.system .invalidArgument), s') ∧
      h.Leaves s { f with position := p, lastErrno := SystemError.invalidArgument.number? } c s.locks s' := by
  by_cases near : offset ≤ maxOffset
  · obtain ⟨s₁, ran₁, left₁⟩ := exec_seek sees _ near
    obtain ⟨s₂, ran₂, left₂⟩ := exec_fail (α := Unit) left₁.sees .invalidArgument
    refine ⟨s₂, offset, ?_, left₁.trans_quiet left₂ rfl⟩
    rw [seekFor, Action.exec_bind_ok ran₁, if_pos far, ran₂]
  · obtain ⟨s₁, ran₁, left₁⟩ := exec_fail (α := Unit) sees .invalidArgument
    refine ⟨s₁, f.position, ?_, left₁⟩
    rw [seekFor, seek, if_pos (by omega), Action.exec_bind_error ran₁]

theorem exec_readAt (sees : h.Sees s f c) (offset count : Nat) (fits : offset + count ≤ maxOffset) :
    ∃ s' p, (h.readAt offset count).exec s = (.ok (c.read offset count), s') ∧
      h.Leaves s { f with position := p } c s.locks s' := by
  have short : (c.read offset count).length ≤ count := by
    rw [Content.toList_read, List.length_take]
    omega
  have left₁ := sees.mapOpen (fun f => { f with position := offset }) rfl (by show offset ≤ _; omega)
  have left₂ := left₁.sees.mapOpen (fun f => { f with position := offset + (c.read offset count).length })
    rfl (by show offset + _ ≤ _; omega)
  have ran := exec_readAt_opened sees.opened fits
  rw [sees.bytesOf] at ran
  exact ⟨_, _, ran, left₁.trans_quiet left₂ rfl⟩

theorem exec_writeAt (sees : h.Sees s f c) (offset : Nat) (bytes : List UInt8)
    (fits : offset + bytes.length ≤ maxOffset) :
    ∃ s' p, (h.writeAt offset bytes).exec s = (.ok (), s') ∧
      h.Leaves s { f with position := p } (c.write offset bytes) s.locks s' := by
  have left₁ := sees.mapOpen (fun f => { f with position := offset }) rfl (by show offset ≤ _; omega)
  have left₂ := left₁.sees.put (c.write offset bytes)
  have left₃ := left₂.sees.mapOpen (fun f => { f with position := offset + bytes.length }) rfl fits
  have ran := exec_writeAt_opened sees.opened fits
  rw [Store.overwritten, sees.bytesOf] at ran
  exact ⟨_, _, ran, left₁.trans_quiet (left₂.trans left₃ rfl) rfl⟩

/-- The stream is put back whether or not the action succeeds. -/
theorem exec_keepingPosition {α : Type} {op : Action α} {s₁ : Store} {result : Except Fault α}
    {f₁ : OpenFile} {c₁ : Content} {t : LockTable} (sees : h.Sees s f c) (ran : op.exec s = (result, s₁))
    (left : h.Leaves s f₁ c₁ t s₁) :
    ∃ s₂, Action.exec (h.keepingPosition op) s = (result, s₂) ∧
      h.Leaves s { f₁ with position := f.position } c₁ t s₂ := by
  obtain ⟨s₂, back, left₂⟩ := exec_seek left.sees _ sees.position
  have both := left.trans_quiet left₂ rfl
  refine ⟨s₂, ?_, both⟩
  have kept := Action.exec_ensuring ran back
  rw [keepingPosition]
  refine (Action.exec_bind_ok (exec_position sees) _).trans (kept.trans ?_)
  cases result <;> rfl

theorem exec_readHeader {L : Layout} (sees : h.Sees s f c) (laid : c.LaidOut L)
    (small : L.size ≤ maxOffset) {o : Nat} {b : Block} (found : L.at? o = some b) :
    ∃ s' p, (h.readHeader o).exec s = (.ok b.header, s') ∧
      h.Leaves s { f with position := p } c s.locks s' := by
  have sound := laid.sound.at? found
  have inside := Layout.at?_le found
  have header := sound.headerSize_le
  have least := b.size_ge
  obtain ⟨rest, bytes⟩ := laid.read found
  have whole : b.bytes ++ rest = b.header.encode ++ (b.payload ++ rest) := List.append_assoc ..
  obtain ⟨s₁, p₁, ran₁, left₁⟩ :=
    exec_readAt sees o announcementSize (by simp only [announcementSize]; omega)
  obtain ⟨s₂, p₂, ran₂, left₂⟩ :=
    exec_readAt left₁.sees o b.header.size.toNat (by omega)
  have enough : ¬ (c.read o announcementSize).length < announcementSize := by
    rw [bytes, List.length_take, List.length_append, ← Block.size]
    simp only [announcementSize]
    omega
  have announced : Header.announcedSize (c.read o announcementSize) = .ok b.header.size := by
    rw [bytes, Header.announcedSize_take, whole, Header.announcedSize_encode sound.wellFormed]
  have read : c.read o b.header.size.toNat = b.header.encode := by
    rw [bytes, whole, List.take_left' (Header.length_encode sound.wellFormed)]
  have decoded : Header.decode b.header.encode = .ok b.header := by
    simpa using Header.decode_encode sound.wellFormed []
  refine ⟨s₂, p₂, ?_, left₁.trans_quiet left₂ rfl⟩
  rw [readHeader, Action.exec_bind_ok ran₁, if_neg enough, announced,
    Action.exec_bind_ok (Action.exec_orFault_ok ..), Action.exec_bind_ok ran₂, read,
    Header.length_encode sound.wellFormed, if_neg (by omega), decoded, Action.exec_orFault_ok]

theorem exec_readTable {L : Layout} (sees : h.Sees s f c) (laid : c.LaidOut L)
    (small : L.size ≤ maxOffset) {o : Nat} {b : Block} (found : L.at? o = some b) {t : TableHeader}
    (part : b.header.tablePart? = some t) :
    ∃ s' p, (h.readTable o).exec s = (.ok t, s') ∧
      h.Leaves s { f with position := p } c s.locks s' := by
  obtain ⟨s₁, p₁, ran₁, left₁⟩ := exec_readHeader sees laid small found
  refine ⟨s₁, p₁, ?_, left₁⟩
  rw [readTable, Action.exec_bind_ok ran₁]
  simp only [part, Action.exec_pure]

end Handle
end RecordFile
