import Mathlib
import RecordFile.Proofs.Reserving

/-! Runs on one file. A history is a store with the handles open on the file and what they were told;
a run starts where the file is created, and asks of any of its handles whatever is permitted. -/
namespace RecordFile

/-- A file, the handles open on it, and what was done with it since it was created. -/
structure History where
  location : Location
  settings : Settings
  store : Store
  handles : List Handle
  /-- Where the tables start. -/
  heads : List Nat := [0]
  /-- The table headers read so far, each with the table's head. -/
  headers : List (Nat × TableHeader) := []
  /-- The slots given out so far, the latest first, each with its table's head. -/
  given : List (Nat × Slot) := []

/-- What can be asked of a handle. -/
inductive Request
  | addTable (recordSize : UInt32)
  | append (spec : BlockSpec)
  | appendAfter (tail : Nat) (spec : BlockSpec)
  | readTable (head : Nat)
  | locate (chain : Nat) (table : TableHeader) (record : UInt32)
  | reserve (head : Nat)
  | write (offset : Nat) (bytes : List UInt8)

namespace History

/-- Asks a handle, which may do what it is asked or fail. -/
def ask (t : History) (h : Handle) : Request → History
  | .addTable recordSize =>
    match (h.addTable recordSize).exec t.store with
    | (.ok block, store) => { t with store, heads := block.start :: t.heads }
    | (.error _, store) => { t with store }
  | .append spec => { t with store := ((h.append spec).exec t.store).2 }
  | .appendAfter tail spec => { t with store := ((h.appendAfter tail spec).exec t.store).2 }
  | .readTable head =>
    match (h.readTable head).exec t.store with
    | (.ok table, store) => { t with store, headers := (head, table) :: t.headers }
    | (.error _, store) => { t with store }
  | .locate chain table record => { t with store := ((h.locate chain table record).exec t.store).2 }
  | .reserve head =>
    match (h.reserve head).exec t.store with
    | (.ok slot, store) => { t with store, given := (head, slot) :: t.given }
    | (.error _, store) => { t with store }
  | .write offset bytes => { t with store := ((h.writeAt offset bytes).exec t.store).2 }

@[simp] theorem location_ask (t : History) (h : Handle) (request : Request) :
    (t.ask h request).location = t.location := by
  cases request <;> simp only [ask] <;> split <;> rfl

@[simp] theorem settings_ask (t : History) (h : Handle) (request : Request) :
    (t.ask h request).settings = t.settings := by
  cases request <;> simp only [ask] <;> split <;> rfl

@[simp] theorem handles_ask (t : History) (h : Handle) (request : Request) :
    (t.ask h request).handles = t.handles := by
  cases request <;> simp only [ask] <;> split <;> rfl

@[simp] theorem heads_ask_reserve (t : History) (h : Handle) (head : Nat) :
    (t.ask h (.reserve head)).heads = t.heads := by
  simp only [ask]
  split <;> rfl

/-- What may go on beside the requests: anything that leaves the bytes of the file alone, as well as
which file a handle is open on, and the chunk size that it knows. -/
structure Undisturbed (t : History) (store : Store) : Prop where
  content : store.content? t.location = t.store.content? t.location
  handles : ∀ h ∈ t.handles, ∃ f f', t.store.openFile? h.descriptor = some f ∧
    store.openFile? h.descriptor = some f' ∧ f'.location = f.location ∧
    f'.header.chunkSize = f.header.chunkSize ∧ f'.position ≤ maxOffset

/-- Runs on a file from its creation on. -/
inductive Run (permits : History → Request → Prop) : History → Prop
  | created {path : String} {settings : Settings} {before store : Store} {h : Handle} {location : Location} :
      before.locationFor path = .ok location →
      (Handle.create path settings).exec before = (.ok h, store) →
      Run permits { location, settings, store, handles := [h] }
  | asked {t : History} {h : Handle} {request : Request} : Run permits t → h ∈ t.handles →
      permits t request → Run permits (t.ask h request)
  | opened {t : History} {path : String} {settings : Settings} {h : Handle} {store : Store} :
      Run permits t → t.store.find path = .ok t.location →
      (Handle.openExisting path settings).exec t.store = (.ok h, store) →
      Run permits { t with store, handles := h :: t.handles }
  | closed {t : History} {h : Handle} : Run permits t → h ∈ t.handles →
      Run permits { t with store := (h.close.exec t.store).2, handles := t.handles.filter (· ≠ h) }
  | meanwhile {t : History} {store : Store} : Run permits t → t.Undisturbed store →
      Run permits { t with store }

/-- A file just created, with chunks of 64 bytes and records of 5. -/
def sample : History where
  location := { names := ["a"] }
  settings := { chunkSize := 64, recordSize := 5 }
  store := ((Handle.create "a" { chunkSize := 64, recordSize := 5 }).exec default).2
  handles := [⟨0⟩]

@[simp] theorem handles_sample : sample.handles = [⟨0⟩] := rfl

@[simp] theorem heads_sample : sample.heads = [0] := rfl

theorem run_sample (permits : History → Request → Prop) : Run permits sample := by
  have leads : (default : Store).locationFor "a" = .ok sample.location := rfl
  have ran : (Handle.create "a" sample.settings).exec default = (.ok ⟨0⟩, sample.store) := rfl
  exact .created leads ran

/-- The same file with a second handle. -/
def paired : History where
  location := sample.location
  settings := sample.settings
  store := ((Handle.openExisting "a" {}).exec sample.store).2
  handles := [⟨1⟩, ⟨0⟩]

theorem opened_paired : sample.store.find "a" = .ok sample.location ∧
    (Handle.openExisting "a" {}).exec sample.store = (.ok ⟨1⟩, paired.store) := by
  have leads : sample.store.find "a" = .ok sample.location := by decide +kernel
  have ran : ((Handle.openExisting "a" {}).exec sample.store).1 = .ok ⟨1⟩ := by decide +kernel
  refine ⟨leads, ?_⟩
  dsimp only [paired]
  rw [← ran]

theorem run_paired (permits : History → Request → Prop) : Run permits paired :=
  .opened (run_sample permits) opened_paired.1 opened_paired.2

end History

namespace Store

theorem openFile?_freeDescriptor (s : Store) : s.openFile? s.freeDescriptor = none := by
  rw [openFile?, freeDescriptor]
  cases entry : s.opened[s.opened.findIdx Option.isNone]? with
  | none => rfl
  | some file =>
    obtain ⟨inside, rfl⟩ := List.getElem?_eq_some_iff.mp entry
    have free := List.findIdx_getElem (w := inside)
    rw [Option.isNone_iff_eq_none] at free
    rw [free]
    rfl

theorem openFile?_attach (s : Store) (file : OpenFile) (d : Nat) :
    (s.attach file).openFile? d = if d = s.freeDescriptor then some file else s.openFile? d := by
  rw [attach]
  by_cases gap : s.freeDescriptor < s.opened.length
  · rw [if_pos gap]
    by_cases here : d = s.freeDescriptor
    · subst here
      simp [openFile?, gap]
    · have other : ¬ s.freeDescriptor = d := fun eq => here eq.symm
      simp [openFile?, here, other]
  · have last : s.freeDescriptor = s.opened.length :=
      Nat.le_antisymm List.findIdx_le_length (Nat.le_of_not_lt gap)
    rw [if_neg gap, last]
    by_cases here : d = s.opened.length
    · subst here
      simp [openFile?]
    · rw [if_neg here]
      simp only [openFile?, List.getElem?_append]
      by_cases inside : d < s.opened.length
      · rw [if_pos inside]
      · have past : s.opened[d]? = none := List.getElem?_eq_none (by omega)
        have past' : [some file][d - s.opened.length]? = none := List.getElem?_eq_none (by simp; omega)
        rw [if_neg inside, past, past']

@[simp] theorem content?_attach (s : Store) (file : OpenFile) (l : Location) :
    (s.attach file).content? l = s.content? l := by
  rw [attach]
  split <;> rfl

@[simp] theorem locks_attach (s : Store) (file : OpenFile) : (s.attach file).locks = s.locks := by
  rw [attach]
  split <;> rfl

@[simp] theorem directories_attach (s : Store) (file : OpenFile) : (s.attach file).directories = s.directories := by
  rw [attach]
  split <;> rfl

theorem openFile?_detach (s : Store) (d d' : Nat) :
    (s.detach d).openFile? d' = if d' = d then none else s.openFile? d' := by
  simp only [detach, openFile?, List.getElem?_set]
  by_cases here : d' = d
  · subst here
    rw [if_pos rfl, if_pos rfl]
    split <;> rfl
  · have other : ¬ d = d' := fun eq => here eq.symm
    rw [if_neg other, if_neg here]

@[simp] theorem content?_detach (s : Store) (d : Nat) (l : Location) :
    (s.detach d).content? l = s.content? l := rfl

end Store

namespace Layout

/-- The block that a file is created with. -/
def first (settings : Settings) : Block :=
  .blank (.file (FileHeader.fresh settings.chunkSize settings.recordSize))

variable {settings : Settings}

theorem sound_first (accepted : settings.check = .ok ()) : (first settings).Sound := by
  obtain ⟨-, record, room⟩ := Settings.check_ok accepted
  refine Block.sound_blank (Header.file_fresh_wellFormed _ record) ?_
  show 48 ≤ settings.chunkSize.toNat
  omega

theorem size_first (accepted : settings.check = .ok ()) :
    size [first settings] = settings.chunkSize.toNat := by
  rw [size_cons, size_nil, Nat.add_zero, ← (sound_first accepted).announced]
  rfl

theorem laidOut_first (accepted : settings.check = .ok ()) :
    ((Content.empty.resize settings.chunkSize.toNat).write 0
      (FileHeader.fresh settings.chunkSize settings.recordSize).encode).LaidOut [first settings] := by
  obtain ⟨-, -, room⟩ := Settings.check_ok accepted
  have length := FileHeader.length_encode (FileHeader.fresh settings.chunkSize settings.recordSize)
  refine ⟨?_, fun b mem => List.mem_singleton.mp mem ▸ sound_first accepted⟩
  have inside : 0 + (FileHeader.fresh settings.chunkSize settings.recordSize).encode.length ≤
      (Content.empty.resize settings.chunkSize.toNat).size := by
    rw [Content.size_resize, length]
    omega
  have empty : Content.empty.toList = [] := rfl
  have nothing : Content.empty.size = 0 := rfl
  rw [Content.toList_overwrite inside, Content.toList_resize, length, empty, nothing, List.take_nil,
    List.nil_append, List.take_zero, List.nil_append, List.drop_replicate]
  simp only [Layout.bytes, List.flatMap_cons, List.flatMap_nil, List.append_nil, first, Block.bytes,
    Block.blank, Header.encode]
  rfl

theorem at?_first {o : Nat} {b : Block} (found : at? [first settings] o = some b) :
    o = 0 ∧ b = first settings := by
  rw [at?] at found
  split at found
  case isTrue zero => exact ⟨zero, (Option.some.inj found).symm⟩
  case isFalse =>
    split at found
    · cases found
    · cases found

theorem proper_first (accepted : settings.check = .ok ()) : Proper settings [first settings] := by
  have size := size_first accepted
  have unlinked : (first settings).header.next = none := rfl
  refine ⟨accepted, ?_, ?_, ?_, ?_, ?_⟩
  · rw [size]
    have := settings.chunkSize.toNat_lt
    simp only [maxOffset]
    omega
  · intro b mem
    rw [List.mem_singleton.mp mem]
    rw [size_cons, size_nil, Nat.add_zero] at size
    rw [size]
  · intro o b e found next
    rw [(at?_first found).2, unlinked] at next
    cases next
  · intro o o' b b' e e' found found' next
    rw [(at?_first found).2, unlinked] at next
    cases next
  · exact ⟨_, _, rfl, rfl, rfl, rfl⟩

end Layout

theorem Handle.exec_close {h : Handle} {s : Store} {f : OpenFile} (opened : s.openFile? h.descriptor = some f) :
    h.close.exec s = (.ok (), s.detach h.descriptor) := by
  rw [close, Action.exec_bind_ok (exec_file_opened opened), Action.exec_modify]

/-- `L` is the layout of the file, which is proper, and the handles are open on the file. -/
structure Tracked (location : Location) (settings : Settings) (handles : List Handle) (s : Store)
    (L : Layout) : Prop where
  content : ∃ c, s.content? location = some c ∧ c.LaidOut L
  proper : L.Proper settings
  handles : ∀ h ∈ handles, ∃ f, s.openFile? h.descriptor = some f ∧ f.location = location ∧
    f.header.chunkSize = settings.chunkSize ∧ f.position ≤ maxOffset

namespace Tracked

variable {location : Location} {settings : Settings} {handles : List Handle} {s s' : Store} {L M : Layout}
  {h : Handle} {f : OpenFile} {c : Content} {t : LockTable}

theorem sees (tracked : Tracked location settings handles s L) (mem : h ∈ handles) :
    ∃ f c, h.Sees s f c ∧ c.LaidOut L ∧ f.location = location ∧ f.header.chunkSize = settings.chunkSize := by
  obtain ⟨c, there, laid⟩ := tracked.content
  obtain ⟨f, opened, place, chunk, position⟩ := tracked.handles h mem
  exact ⟨f, c, ⟨opened, place ▸ there, position⟩, laid, place, chunk⟩

theorem step (tracked : Tracked location settings handles s L) (left : h.Leaves s f c t s')
    (place : f.location = location) (chunk : f.header.chunkSize = settings.chunkSize) (laid : c.LaidOut M)
    (proper : M.Proper settings) : Tracked location settings handles s' M where
  content := ⟨c, place ▸ left.sees.content, laid⟩
  proper := proper
  handles other mem := by
    by_cases same : other.descriptor = h.descriptor
    · exact ⟨f, same ▸ left.sees.opened, place, chunk, left.sees.position⟩
    · obtain ⟨f', opened, rest⟩ := tracked.handles other mem
      exact ⟨f', (left.others _ same).trans opened, rest⟩

theorem meanwhile {history : History} (tracked : Tracked history.location settings history.handles
      history.store L) (undisturbed : history.Undisturbed s') :
    Tracked history.location settings history.handles s' L where
  content := by
    obtain ⟨c, there, laid⟩ := tracked.content
    exact ⟨c, undisturbed.content.trans there, laid⟩
  proper := tracked.proper
  handles h mem := by
    obtain ⟨f, opened, place, chunk, -⟩ := tracked.handles h mem
    obtain ⟨f', f'', opened', opened'', place', chunk', position⟩ := undisturbed.handles h mem
    rw [opened] at opened'
    cases opened'
    exact ⟨f'', opened'', place'.trans place, chunk'.trans chunk, position⟩

/-- A proper file passes the checks of opening, with the settings it was created with. -/
theorem ofContent (laid : c.LaidOut L) (proper : L.Proper settings) :
    ∃ header, FileHeader.ofContent c = .ok header ∧ header.chunkSize = settings.chunkSize ∧
      header.table.recordSize = settings.recordSize ∧
      FileHeader.markOf (c.read 0 fileHeaderSize.toNat) = magic := by
  obtain ⟨b, header, found, file, chunk, record⟩ := proper.head
  have sound := laid.sound.at? found
  have wf : (Header.file header).WellFormed := file ▸ sound.wellFormed
  have announced := sound.announced
  rw [file] at announced
  obtain ⟨rest, bytes⟩ := laid.read found
  have read : c.read 0 fileHeaderSize.toNat = header.encode := by
    rw [bytes, Block.bytes, file, List.append_assoc]
    exact List.take_left' header.length_encode
  have mark : FileHeader.markOf header.encode = magic := by simpa using FileHeader.mark_encode header []
  have decoded : FileHeader.decode header.encode = .ok header := by
    simpa using FileHeader.decode_encode wf.2.2 wf.1 []
  have long : ¬ 48 < fileHeaderSize.toNat := by decide
  have chunk_pos := proper.chunk_pos
  have chunked : header.chunkSize ≠ 0 := by
    rw [chunk]
    intro zero
    rw [zero] at chunk_pos
    exact absurd chunk_pos (by decide)
  have sized : ¬ (header.table.block.headerSize = 0 ∨ header.table.block.blockSize = 0) := by
    rintro (zero | zero)
    · rw [wf.2.1] at zero
      exact absurd zero (by decide)
    · have least := b.size_ge
      rw [← announced] at least
      have none : (Header.file header).blockPart.blockSize.toNat = 0 := congrArg UInt32.toNat zero
      omega
  have even : header.table.block.blockSize % header.chunkSize = 0 := by
    have divides := proper.chunked b (Layout.mem_of_at? found)
    rw [← announced, ← chunk] at divides
    apply UInt32.toNat_inj.mp
    rw [UInt32.toNat_mod]
    exact Nat.mod_eq_zero_of_dvd divides
  refine ⟨header, ?_, chunk, record, read ▸ mark⟩
  rw [FileHeader.ofContent, read, FileHeader.verify]
  simp [long, mark, decoded, chunked, sized, even, Except.mapError, bind, Except.bind, pure, Except.pure]

theorem openExisting (tracked : Tracked location settings handles s L) {path : String}
    (found : s.find path = .ok location) (settings' : Settings) :
    ∃ h s', (Handle.openExisting path settings').exec s = (.ok h, s') ∧
      Tracked location settings (h :: handles) s' L := by
  obtain ⟨c, there, laid⟩ := tracked.content
  obtain ⟨header, accepted, chunk, -⟩ := ofContent laid tracked.proper
  let file : OpenFile := { path, location, header, settings := settings' }
  refine ⟨⟨s.freeDescriptor⟩, s.attach file, ?_, ?_⟩
  · rw [Handle.openExisting, Action.exec_bind_ok (Action.exec_get s), found,
      Action.exec_bind_ok (Action.exec_orFault_ok ..), there]
    simp only [Option.getD_some, accepted]
    rfl
  · refine ⟨⟨c, by rw [Store.content?_attach, there], laid⟩, tracked.proper, ?_⟩
    intro other mem
    rcases List.mem_cons.mp mem with rfl | mem
    · exact ⟨file, by rw [Store.openFile?_attach, if_pos rfl], rfl, chunk, Nat.zero_le _⟩
    · obtain ⟨f, opened, rest⟩ := tracked.handles other mem
      have taken : other.descriptor ≠ s.freeDescriptor := by
        intro free
        rw [free, Store.openFile?_freeDescriptor] at opened
        cases opened
      exact ⟨f, by rw [Store.openFile?_attach, if_neg taken, opened], rest⟩

theorem close (tracked : Tracked location settings handles s L) (mem : h ∈ handles) :
    Tracked location settings (handles.filter (· ≠ h)) (h.close.exec s).2 L := by
  obtain ⟨f, c, sees, -⟩ := tracked.sees mem
  rw [Handle.exec_close sees.opened]
  refine ⟨tracked.content, tracked.proper, fun other mem => ?_⟩
  obtain ⟨mem, differ⟩ := List.mem_filter.mp mem
  obtain ⟨f', opened, rest⟩ := tracked.handles other mem
  refine ⟨f', ?_, rest⟩
  have apart : other.descriptor ≠ h.descriptor := by
    intro same
    have : other = h := by
      cases other
      cases h
      simp_all
    simp [this] at differ
  rw [Store.openFile?_detach, if_neg apart, opened]

/-- A file just created is one block, which holds the file header. -/
theorem create {path : String} {before : Store} (leads : before.locationFor path = .ok location)
    (ran : (Handle.create path settings).exec before = (.ok h, s)) :
    Tracked location settings [h] s [Layout.first settings] := by
  cases accepted : settings.check with
  | error fault =>
    rw [Handle.create, accepted] at ran
    cases ran
  | ok =>
    let header := FileHeader.fresh settings.chunkSize settings.recordSize
    let made := before.put location ((Content.empty.resize settings.chunkSize.toNat).write 0 header.encode)
    have created : (Handle.create path settings).exec before =
        (.ok ⟨made.freeDescriptor⟩, made.attach { path, location, header, settings }) := by
      rw [Handle.create, accepted]
      refine (Action.exec_bind_ok (Action.exec_liftExcept (.ok ()) before) _).trans ?_
      rw [Action.exec_bind_ok (Action.exec_get before), leads, Action.exec_bind_ok (Action.exec_orFault_ok ..)]
      rfl
    rw [created] at ran
    cases ran
    refine ⟨⟨_, ?_, Layout.laidOut_first accepted⟩, Layout.proper_first accepted, ?_⟩
    · rw [Store.content?_attach, Store.content?_put, if_pos rfl]
    · intro other mem
      rw [List.mem_singleton.mp mem]
      exact ⟨_, by rw [Store.openFile?_attach, if_pos rfl], rfl, rfl, Nat.zero_le _⟩

end Tracked
end RecordFile
