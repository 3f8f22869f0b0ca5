import Mathlib
import RecordFile.Proofs.Opened

/-! The first block of a file, as opening reads it and as it is read ever after. Opening takes the longest
layout for granted; whoever reads a block goes by the size that its header announces. The two agree on the
headers of one size, and on no others. -/
namespace RecordFile

namespace FileHeader

variable {header : FileHeader} {c : Content}

/-- The header as it is read by the size that it announces. -/
def announced (header : FileHeader) : Except HeaderDefect Header :=
  if header.table.block.headerSize = fileHeaderSize then .ok (.file header)
  else if header.table.block.headerSize ∈ header.table.block.kind.storedSizes then .ok (.table header.table)
  else .error (.impossibleSize header.table.block.kind header.table.block.headerSize)

theorem announced_eq_ok_file :
    header.announced = .ok (.file header) ↔ header.table.block.headerSize = fileHeaderSize := by
  unfold announced
  split
  case isTrue same => simp [same]
  case isFalse differ =>
    split
    · simp [differ]
    · simp [differ]

/-- A header that passed the checks of opening was read from the first bytes of the file. -/
theorem decode_of_ofContent (accepted : ofContent c = .ok header) : decode c.toList = .ok header := by
  have size : fileHeaderSize.toNat = 48 := rfl
  rw [ofContent, mapError_eq_ok, size, Content.toList_read, List.drop_zero] at accepted
  simp only [verify, ite_throw_eq_ok, unless_throw_eq_ok, bind_eq_ok, mapError_eq_ok] at accepted
  obtain ⟨-, -, _, read, -, -, -, same⟩ := accepted
  cases same
  rwa [decode_take (Nat.le_refl 48)] at read

end FileHeader

namespace Header

variable {bytes : List UInt8}

/-- The size in a block header is what its bytes announce, if a block of its kind can have it. -/
theorem announcedSize_of_block {b : BlockHeader} (read : BlockHeader.decode bytes = .ok b) :
    announcedSize bytes =
      if b.headerSize ∈ b.kind.storedSizes then .ok b.headerSize else .error (.impossibleSize b.kind b.headerSize) := by
  obtain ⟨-, known, sized⟩ := BlockHeader.of_decode read
  have enough : ¬ bytes.length < announcementSize := by
    have long := (BlockHeader.exists_decode.mp ⟨b, read⟩).1
    show ¬ bytes.length < 4
    omega
  rw [announcedSize, if_neg enough, known, ← sized]
  by_cases possible : b.headerSize ∈ b.kind.storedSizes
  · simp [possible, bind, Except.bind, pure, Except.pure]
  · simp [possible, bind, Except.bind, throw, throwThe, MonadExceptOf.throw]

/-- Where a file header can be read, the size in it tells how the block is read. -/
theorem decode_of_file {header : FileHeader} (read : FileHeader.decode bytes = .ok header) :
    decode bytes = header.announced := by
  have table := FileHeader.of_decode read
  obtain ⟨-, head, block⟩ := TableHeader.of_decode table
  rw [decode, announcedSize_of_block block, FileHeader.announced]
  by_cases possible : header.table.block.headerSize ∈ header.table.block.kind.storedSizes
  · rw [if_pos possible, if_pos possible]
    rcases layout_of_storedSizes possible with ⟨-, plain⟩ | ⟨short, -⟩ | long
    · rw [head] at plain
      cases plain
    · rw [short]
      exact congrArg (· >>= fun t => pure (Header.table t)) table
    · rw [long]
      exact congrArg (· >>= fun f => pure (Header.file f)) read
  · have differ : header.table.block.headerSize ≠ fileHeaderSize := by
      intro same
      rw [same] at possible
      cases kind : header.table.block.kind <;> rw [kind] at head possible
      · cases head
      · cases head
      · exact possible (by decide)
      · exact possible (by decide)
    rw [if_neg possible, if_neg possible, if_neg differ]
    rfl

end Header

namespace Content

variable {c : Content}

/-- Where bytes announce no header, what they announce instead is all that reading gives. -/
theorem headerAt_of_unannounced {offset : Nat} {defect : HeaderDefect}
    (refused : Header.announcedSize (c.toList.drop offset) = .error defect) (inside : offset + 4 ≤ c.size)
    (reached : offset + 4 ≤ maxOffset) : c.headerAt offset = .error (.corruptHeader defect) := by
  have announcement : announcementSize = 4 := rfl
  have long : ¬ ((c.toList.drop offset).take 4).length < 4 := by
    rw [List.length_take, List.length_drop, length_toList]
    omega
  rw [headerAt, announcement, fetch_eq reached]
  simp only [Except.bind, bind, if_neg long, Header.announcedSize_take_of (Nat.le_refl 4), refused, Except.mapError]

/-- The first block of a file whose header passed the checks is read as its size announces. -/
theorem headerAt_head {header : FileHeader} (accepted : FileHeader.ofContent c = .ok header) :
    c.headerAt 0 = header.announced.mapError .corruptHeader := by
  have read := FileHeader.decode_of_ofContent accepted
  have whole := Header.decode_of_file read
  obtain ⟨-, -, block⟩ := TableHeader.of_decode (FileHeader.of_decode read)
  have long := (FileHeader.exists_decode.mp ⟨header, read⟩).1
  rw [length_toList] at long
  have limit : 48 ≤ maxOffset := by decide
  cases announced : Header.announcedSize c.toList with
  | error defect =>
    rw [headerAt_of_unannounced (by rwa [List.drop_zero]) (by omega) (by omega), ← whole, Header.decode, announced]
    rfl
  | ok size =>
    have most : size.toNat ≤ 48 := by
      rcases Header.sizes_of_announced announced with rfl | rfl | rfl <;> decide
    rw [headerAt_of_announced (by rwa [List.drop_zero]) (by omega) (by omega), List.drop_zero, whole]

end Content

/-- A path leads to a file only where there is one. -/
theorem Store.content_of_find {s : Store} {path : String} {location : Location}
    (found : s.find path = .ok location) : ∃ c, s.content? location = some c := by
  simp only [find, bind_eq_ok, ite_throw_eq_ok] at found
  obtain ⟨⟨directory, name⟩, -, -, -, there, -, same⟩ := found
  cases same
  rwa [Bool.not_eq_true, Option.isNone_eq_false_iff, Option.isSome_iff_exists] at there

namespace Handle

variable {h : Handle} {s s' : Store}

/-- A file that could be opened has a first block whose header is read as the one that the handle keeps if it
announces the size of a file's header, and not otherwise. -/
theorem openExisting_head {path : String} {settings : Settings}
    (ran : (openExisting path settings).exec s = (.ok h, s')) :
    ∃ f c, h.Opened s' f c ∧ FileHeader.ofContent c = .ok f.header ∧
      ((h.readHeader 0).exec s').1 = f.header.announced.mapError .corruptHeader ∧
      (((h.readHeader 0).exec s').1 = .ok (.file f.header) ↔
        f.header.table.block.headerSize = fileHeaderSize) := by
  obtain ⟨location, found⟩ : ∃ location, s.find path = .ok location := by
    cases found : s.find path with
    | ok location => exact ⟨location, rfl⟩
    | error e =>
      rw [openExisting, Action.exec_bind_ok (Action.exec_get s), found] at ran
      cases ran
  obtain ⟨c, content⟩ := Store.content_of_find found
  obtain ⟨f, opened, -, accepted⟩ := Opened.of_openExisting ran found content
  have read : ((h.readHeader 0).exec s').1 = f.header.announced.mapError .corruptHeader := by
    rw [result_readHeader opened.toSees, Content.headerAt_head accepted]
  refine ⟨f, c, opened, accepted, read, ?_⟩
  rw [read, mapError_eq_ok, FileHeader.announced_eq_ok_file]

/-- The header of a file of one chunk, in which a size of the header is stored. -/
def headed (size : UInt16) : FileHeader where
  table := { block := { kind := .table, headerSize := size, blockSize := 64, firstRecord := 1 }, recordSize := 5 }
  chunkSize := 64

/-- A file with that header, which nobody has opened. -/
def shelved (size : UInt16) : Store where
  files := [({ names := ["a"] }, .ofList ((headed size).encode ++ List.replicate 16 0))]

/-- Two files that can be opened: the one is read as a plain table from then on, the other not at all. -/
theorem openExisting_other_head :
    let table := (openExisting "a" {}).exec (shelved 40)
    let nothing := (openExisting "a" {}).exec (shelved 56)
    (table.1 = .ok ⟨0⟩ ∧ (table.2.openFile? 0).map OpenFile.header = some (headed 40) ∧
      (((⟨0⟩ : Handle).readHeader 0).exec table.2).1 = .ok (.table (headed 40).table)) ∧
    (nothing.1 = .ok ⟨0⟩ ∧ (nothing.2.openFile? 0).map OpenFile.header = some (headed 56) ∧
      (((⟨0⟩ : Handle).readHeader 0).exec nothing.2).1 = .error (.corruptHeader (.impossibleSize .table 56))) := by
  decide +kernel

/-- A file made with a header of its proper size is read as the handle knows it. -/
theorem openExisting_head_shelved : ∃ h s' f, (openExisting "a" {}).exec (shelved 48) = (.ok h, s') ∧
    s'.openFile? h.descriptor = some f ∧ ((h.readHeader 0).exec s').1 = .ok (.file f.header) := by
  have seen : ((openExisting "a" {}).exec (shelved 48)).1 = .ok ⟨0⟩ ∧
      (((openExisting "a" {}).exec (shelved 48)).2.openFile? 0).map OpenFile.header = some (headed 48) := by
    decide +kernel
  rcases ran : (openExisting "a" {}).exec (shelved 48) with ⟨result, s'⟩
  rw [ran] at seen
  obtain ⟨rfl, header⟩ := seen
  obtain ⟨f, c, opened, -, -, agrees⟩ := openExisting_head ran
  have same : f.header = headed 48 := by
    rw [opened.opened] at header
    exact Option.some.inj header
  exact ⟨⟨0⟩, s', f, rfl, opened.opened, agrees.mpr (by rw [same]; rfl)⟩

end Handle
end RecordFile
