import Mathlib
import RecordFile.Proofs.Grammar
import RecordFile.Proofs.History

/-! Handles on files that may hold anything. All that opening a file makes sure of is its header; a block
is where bytes are read as one, and reading it gives what these bytes alone say. -/
namespace RecordFile

theorem mapError_eq_ok {ε ε' α : Type} {result : Except ε α} {fault : ε → ε'} {value : α} :
    result.mapError fault = .ok value ↔ result = .ok value := by
  cases result <;> simp [Except.mapError]

theorem ite_throw_eq_ok {ε α : Type} {fails : Prop} [Decidable fails] {defect : ε}
    {rest : Except ε α} {result : α} :
    (do if fails then throw defect
        rest) = .ok result ↔ ¬ fails ∧ rest = .ok result := by
  by_cases h : fails
  · simp [h, throw, throwThe, MonadExceptOf.throw, bind, Except.bind]
  · simp [h]

theorem bind_eq_error {ε α β : Type} {first : Except ε α} {rest : α → Except ε β} {e : ε} :
    (first >>= rest) = .error e ↔ first = .error e ∨ ∃ value, first = .ok value ∧ rest value = .error e := by
  cases first <;> simp [bind, Except.bind]

theorem ite_throw_eq_error {ε α : Type} {fails : Prop} [Decidable fails] {defect e : ε} {rest : Except ε α} :
    (do if fails then throw defect
        rest) = .error e ↔ (fails ∧ defect = e) ∨ (¬ fails ∧ rest = .error e) := by
  by_cases h : fails
  · simp [h, throw, throwThe, MonadExceptOf.throw, bind, Except.bind]
  · simp [h]

theorem mapError_eq_error {ε ε' α : Type} {result : Except ε α} {fault : ε → ε'} {e : ε'} :
    result.mapError fault = .error e ↔ ∃ defect, result = .error defect ∧ fault defect = e := by
  cases result <;> simp [Except.mapError]

theorem needBytes_take {needed : UInt16} {bytes : List UInt8} {count : Nat} (reach : needed.toNat ≤ count) :
    needBytes needed (bytes.take count) = needBytes needed bytes := by
  by_cases short : bytes.length ≤ count
  · rw [List.take_of_length_le short]
  · have long : needed.toNat ≤ bytes.length := by omega
    have long' : needed.toNat ≤ (bytes.take count).length := by
      rw [List.length_take, Nat.min_eq_left (by omega)]
      exact reach
    rw [needBytes, needBytes, if_neg (Nat.not_lt.mpr long), if_neg (Nat.not_lt.mpr long')]

theorem BlockHeader.decode_take {bytes : List UInt8} {count : Nat} (reach : 32 ≤ count) :
    decode (bytes.take count) = decode bytes := by
  have linkReach : linkOffset + 8 + 8 ≤ count := reach
  rw [decode, decode, needBytes_take reach]
  simp (disch := omega) only [LittleEndian.field_take]

theorem TableHeader.decode_take {bytes : List UInt8} {count : Nat} (reach : 40 ≤ count) :
    decode (bytes.take count) = decode bytes := by
  rw [decode, decode, needBytes_take reach, BlockHeader.decode_take (by omega)]
  simp (disch := omega) only [LittleEndian.field_take]

theorem FileHeader.decode_take {bytes : List UInt8} {count : Nat} (reach : 48 ≤ count) :
    decode (bytes.take count) = decode bytes := by
  have mark : markOf (bytes.take count) = markOf bytes := by
    rw [markOf, markOf, List.drop_take, List.take_take, Nat.min_eq_left (by omega)]
  rw [decode, decode, needBytes_take reach, TableHeader.decode_take (by omega), mark,
    LittleEndian.field_take (by omega)]

namespace Header

theorem announcedSize_take_of {bytes : List UInt8} {count : Nat} (reach : 4 ≤ count) :
    announcedSize (bytes.take count) = announcedSize bytes := by
  have start : min announcementSize count = announcementSize := Nat.min_eq_left reach
  rw [← announcedSize_take, ← announcedSize_take bytes, List.take_take, start]

theorem sizes_of_announced {bytes : List UInt8} {size : UInt16} (announced : announcedSize bytes = .ok size) :
    size = blockHeaderSize ∨ size = tableHeaderSize ∨ size = fileHeaderSize := by
  obtain ⟨-, _, -, possible⟩ := of_announcedSize announced
  rcases layout_of_storedSizes possible with ⟨same, -⟩ | ⟨same, -⟩ | same
  · exact .inl same
  · exact .inr (.inl same)
  · exact .inr (.inr same)

/-- A header is read from as many bytes as it announces. -/
theorem decode_take {bytes : List UInt8} {size : UInt16} (announced : announcedSize bytes = .ok size) :
    decode (bytes.take size.toNat) = decode bytes := by
  have least : 4 ≤ size.toNat := by
    rcases sizes_of_announced announced with rfl | rfl | rfl <;> decide
  rw [decode, decode, announcedSize_take_of least, announced]
  rcases sizes_of_announced announced with rfl | rfl | rfl
  · exact congrArg (· >>= fun b => pure (block b)) (BlockHeader.decode_take (Nat.le_refl 32))
  · exact congrArg (· >>= fun t => pure (table t)) (TableHeader.decode_take (Nat.le_refl 40))
  · exact congrArg (· >>= fun f => pure (file f)) (FileHeader.decode_take (Nat.le_refl 48))

theorem announcedSize_of_decode {bytes : List UInt8} {h : Header} (read : decode bytes = .ok h) :
    announcedSize bytes = .ok h.size := by
  obtain ⟨size, announced, -⟩ := bind_eq_ok.mp read
  have sized := size_of_decode read
  obtain ⟨-, same, -⟩ := announcedSize_eq_ok.mp announced
  obtain rfl : size = h.size := UInt16.toNat_inj.mp (same.trans sized.symm)
  exact announced

theorem size_le_of_decode {bytes : List UInt8} {h : Header} (read : decode bytes = .ok h) :
    32 ≤ h.size.toNat ∧ h.size.toNat ≤ 48 ∧ h.size.toNat ≤ bytes.length := by
  have spelled := exists_decode.mp ⟨h, read⟩
  have sized := size_of_decode read
  have whole := spelled.whole
  have bounds : 32 ≤ h.size.toNat ∧ h.size.toNat ≤ 48 := by
    rcases sizes_of_announced (announcedSize_of_decode read) with same | same | same <;> rw [same] <;> decide
  exact ⟨bounds.1, bounds.2, by omega⟩

end Header

namespace Content

/-- What a read gives, wherever it is. -/
def fetch (c : Content) (offset count : Nat) : Except Fault (List UInt8) :=
  if maxOffset < offset + count then .error (.system .invalidArgument) else .ok (c.read offset count)

/-- What reading the header at an offset gives, whatever bytes there are. -/
def headerAt (c : Content) (offset : Nat) : Except Fault Header := do
  let announcement ← c.fetch offset announcementSize
  if announcement.length < announcementSize then
    throw (.incompleteRead offset announcementSize announcement.length)
  let size ← (Header.announcedSize announcement).mapError .corruptHeader
  let bytes ← c.fetch offset size.toNat
  if bytes.length < size.toNat then
    throw (.incompleteRead offset size.toNat bytes.length)
  (Header.decode bytes).mapError .corruptHeader

/-- The bytes at the offset spell this header, which ends where offsets still reach. -/
structure Shows (c : Content) (offset : Nat) (header : Header) : Prop where
  spelled : Header.decode (c.toList.drop offset) = .ok header
  reached : offset + header.size.toNat ≤ maxOffset

variable {c : Content} {offset : Nat} {header header' : Header}

theorem Shows.unique (shows : c.Shows offset header) (shows' : c.Shows offset header') : header = header' :=
  Except.ok.inj (shows.spelled.symm.trans shows'.spelled)

theorem Shows.inside (shows : c.Shows offset header) :
    32 ≤ header.size.toNat ∧ header.size.toNat ≤ 48 ∧ offset + header.size.toNat ≤ c.size := by
  obtain ⟨least, most, whole⟩ := Header.size_le_of_decode shows.spelled
  rw [List.length_drop, length_toList] at whole
  exact ⟨least, most, by omega⟩

theorem fetch_eq_ok {count : Nat} {bytes : List UInt8} :
    c.fetch offset count = .ok bytes ↔ offset + count ≤ maxOffset ∧ bytes = (c.toList.drop offset).take count := by
  rw [fetch, toList_read]
  split
  · simp
    omega
  · simp [eq_comm]
    omega

theorem headerAt_eq_ok : c.headerAt offset = .ok header ↔ c.Shows offset header := by
  have announcement : announcementSize = 4 := rfl
  simp only [headerAt, bind_eq_ok, ite_throw_eq_ok, fetch_eq_ok, mapError_eq_ok, announcement]
  constructor
  · rintro ⟨_, ⟨-, rfl⟩, -, size, announced, _, ⟨reached, rfl⟩, -, read⟩
    rw [Header.announcedSize_take_of (Nat.le_refl 4)] at announced
    rw [Header.decode_take announced] at read
    obtain rfl : size = header.size := Except.ok.inj (announced.symm.trans (Header.announcedSize_of_decode read))
    exact ⟨read, reached⟩
  · intro shows
    obtain ⟨least, -, -⟩ := shows.inside
    obtain ⟨-, -, whole⟩ := Header.size_le_of_decode shows.spelled
    have announced := Header.announcedSize_of_decode shows.spelled
    have reached := shows.reached
    refine ⟨_, ⟨by omega, rfl⟩, ?_, header.size, ?_, _, ⟨reached, rfl⟩, ?_, ?_⟩
    · rw [List.length_take]
      omega
    · rw [Header.announcedSize_take_of (Nat.le_refl 4), announced]
    · rw [List.length_take]
      omega
    · rw [Header.decode_take announced, shows.spelled]

theorem fetch_eq {count : Nat} (reached : offset + count ≤ maxOffset) :
    c.fetch offset count = .ok ((c.toList.drop offset).take count) := fetch_eq_ok.mpr ⟨reached, rfl⟩

/-- Where a header is announced that the file has room for, its fields decide what reading it gives. -/
theorem headerAt_of_announced {size : UInt16} (announced : Header.announcedSize (c.toList.drop offset) = .ok size)
    (inside : offset + size.toNat ≤ c.size) (reached : offset + size.toNat ≤ maxOffset) :
    c.headerAt offset = (Header.decode (c.toList.drop offset)).mapError .corruptHeader := by
  have least : 32 ≤ size.toNat := by
    rcases Header.sizes_of_announced announced with rfl | rfl | rfl <;> decide
  have announcement : announcementSize = 4 := rfl
  have long {count : Nat} (few : count ≤ size.toNat) : ¬ ((c.toList.drop offset).take count).length < count := by
    rw [List.length_take, List.length_drop, length_toList]
    omega
  rw [headerAt, announcement, fetch_eq (by omega)]
  simp only [Except.bind, bind, if_neg (long (show 4 ≤ size.toNat by omega)),
    Header.announcedSize_take_of (Nat.le_refl 4), announced, Except.mapError, fetch_eq reached,
    if_neg (long (Nat.le_refl _)), Header.decode_take announced]

theorem fetch_eq_error {count : Nat} {fault : Fault} :
    c.fetch offset count = .error fault ↔ maxOffset < offset + count ∧ .system .invalidArgument = fault := by
  rw [fetch]
  split <;> simp [*]

/-- Nothing is said of a chain where a header cannot be read. -/
theorem headerAt_ne_corruptChain (defect : ChainDefect) : c.headerAt offset ≠ .error (.corruptChain defect) := by
  simp [headerAt, bind_eq_error, ite_throw_eq_error, mapError_eq_error, fetch_eq_error]

end Content

namespace Handle

/-- The handle was opened on its file, whose header passed the checks then. By now the file may hold
anything. -/
structure Opened (h : Handle) (s : Store) (f : OpenFile) (c : Content) : Prop extends h.Sees s f c where
  accepted : ∃ c, FileHeader.ofContent c = .ok f.header

variable {h : Handle} {s s' s'' : Store} {f : OpenFile} {c : Content}

theorem Opened.chunk_pos (opened : h.Opened s f c) : 0 < f.header.chunkSize.toNat := by
  obtain ⟨c₀, accepted⟩ := opened.accepted
  refine Nat.pos_of_ne_zero fun zero => ?_
  have none : f.header.chunkSize = 0 := UInt32.toNat_inj.mp zero
  rw [FileHeader.ofContent, mapError_eq_ok] at accepted
  simp only [FileHeader.verify, ite_throw_eq_ok, unless_throw_eq_ok, bind_eq_ok] at accepted
  obtain ⟨-, -, header, -, positive, -, -, same⟩ := accepted
  cases same
  exact positive none

/-- Opening a file that exists either fails or gives such a handle. -/
theorem Opened.of_openExisting {path : String} {settings : Settings}
    (ran : (openExisting path settings).exec s = (.ok h, s')) {location : Location}
    (found : s.find path = .ok location) (content : s.content? location = some c) :
    ∃ f, h.Opened s' f c ∧ f.location = location ∧ FileHeader.ofContent c = .ok f.header := by
  rw [openExisting, Action.exec_bind_ok (Action.exec_get s), found,
    Action.exec_bind_ok (Action.exec_orFault_ok ..), content, Option.getD_some] at ran
  cases read : FileHeader.ofContent c with
  | error fault =>
    rw [read] at ran
    cases ran
  | ok header =>
    rw [read] at ran
    cases ran
    refine ⟨{ path, location, header, settings }, ⟨⟨?_, ?_, Nat.zero_le _⟩, c, read⟩, rfl, rfl⟩
    · rw [Store.openFile?_attach, if_pos rfl]
    · rw [Store.content?_attach, content]

/-- A store with one file, which is open. -/
def alone (c : Content) (header : FileHeader) : Store where
  files := [({ names := ["a"] }, c)]
  opened := [some { path := "a", location := { names := ["a"] }, header, settings := {} }]

theorem opened_alone {header : FileHeader} (read : FileHeader.ofContent c = .ok header) :
    ∃ f, (⟨0⟩ : Handle).Opened (alone c header) f c ∧ f.header = header ∧
      ∀ r, (⟨0⟩ : Handle).Free (alone c header) f r :=
  ⟨_, ⟨⟨rfl, rfl, Nat.zero_le _⟩, c, read⟩, rfl, fun _ => ⟨nofun, rfl⟩⟩

/-- At most the handle's stream has moved, and the last error that it remembers is another. -/
def Scanned (h : Handle) (s : Store) (f : OpenFile) (c : Content) (s' : Store) : Prop :=
  ∃ p e, h.Leaves s { f with position := p, lastErrno := e } c s.locks s'

theorem Sees.scanned (sees : h.Sees s f c) : h.Scanned s f c s := ⟨f.position, f.lastErrno, sees.leaves⟩

theorem Scanned.trans {p : Nat} {e : Option Int}
    (first : h.Leaves s { f with position := p, lastErrno := e } c s.locks s')
    (second : h.Scanned s' { f with position := p, lastErrno := e } c s'') : h.Scanned s f c s'' := by
  obtain ⟨p', e', left⟩ := second
  exact ⟨p', e', first.trans_quiet left rfl⟩

/-- On a file of these bytes and this chunk size the action gives the result, and changes nothing there. -/
def Scans {α : Type} (h : Handle) (c : Content) (chunkSize : UInt32) (act : Action α)
    (result : Except Fault α) : Prop :=
  ∀ ⦃s f⦄, h.Sees s f c → f.header.chunkSize = chunkSize →
    ∃ s', act.exec s = (result, s') ∧ h.Scanned s f c s'

namespace Scans

variable {chunkSize : UInt32} {α β : Type} {act act' : Action α} {result result' : Except Fault α}

theorem pure (value : α) : h.Scans c chunkSize (Pure.pure value) (.ok value) :=
  fun s _ sees _ => ⟨s, rfl, sees.scanned⟩

theorem throw (fault : Fault) : h.Scans c chunkSize (MonadExcept.throw fault : Action α) (.error fault) :=
  fun s _ sees _ => ⟨s, rfl, sees.scanned⟩

theorem orFault {ε : Type} (result : Except ε α) (fault : ε → Fault) :
    h.Scans c chunkSize (RecordFile.orFault result fault) (result.mapError fault) :=
  fun s _ sees _ => ⟨s, rfl, sees.scanned⟩

theorem bind {next : α → Action β} {next' : α → Except Fault β} (first : h.Scans c chunkSize act result)
    (rest : ∀ value, h.Scans c chunkSize (next value) (next' value)) :
    h.Scans c chunkSize (act >>= next) (result >>= next') := by
  intro s f sees chunk
  obtain ⟨s₁, ran₁, p, e, left⟩ := first sees chunk
  cases result with
  | error fault => exact ⟨s₁, Action.exec_bind_error ran₁ _, p, e, left⟩
  | ok value =>
    obtain ⟨s₂, ran₂, scanned⟩ := rest value left.sees chunk
    exact ⟨s₂, (Action.exec_bind_ok ran₁ _).trans ran₂, Scanned.trans left scanned⟩

theorem ite {holds : Prop} [Decidable holds] (yes : h.Scans c chunkSize act result)
    (no : h.Scans c chunkSize act' result') :
    h.Scans c chunkSize (if holds then act else act') (if holds then result else result') := by
  by_cases holds
  · simpa only [if_pos ‹holds›] using yes
  · simpa only [if_neg ‹¬ holds›] using no

/-- A check that may fail before the rest. -/
theorem checked {fails : Prop} [Decidable fails] {fault : Fault} (rest : h.Scans c chunkSize act result) :
    h.Scans c chunkSize (if fails then (MonadExcept.throw fault : Action Unit) >>= fun _ => act else act)
      (if fails then (.error fault : Except Fault Unit) >>= fun _ => result else result) :=
  .ite (.bind (.throw fault) fun _ => rest) rest

end Scans

variable {chunkSize : UInt32}

theorem scans_readAt (offset count : Nat) :
    h.Scans c chunkSize (h.readAt offset count) (c.fetch offset count) := by
  intro s f sees _
  by_cases far : maxOffset < offset + count
  · obtain ⟨s', p, ran, left⟩ := exec_seekFor_far sees far
    refine ⟨s', ?_, p, _, left⟩
    rw [readAt, Action.exec_bind_error ran, Content.fetch, if_pos far]
  · obtain ⟨s', p, ran, left⟩ := exec_readAt sees offset count (Nat.le_of_not_lt far)
    refine ⟨s', ?_, p, f.lastErrno, left⟩
    rw [ran, Content.fetch, if_neg far]

theorem scans_readHeader (offset : Nat) : h.Scans c chunkSize (h.readHeader offset) (c.headerAt offset) := by
  refine .bind (scans_readAt _ _) fun announcement => .checked (.bind (.orFault _ _) fun size => ?_)
  exact .bind (scans_readAt _ _) fun bytes => .checked (.orFault _ _)

theorem result_readHeader (sees : h.Sees s f c) (o : Nat) : ((h.readHeader o).exec s).1 = c.headerAt o := by
  obtain ⟨s', ran, -⟩ := scans_readHeader o sees rfl
  rw [ran]

theorem result_readTable (sees : h.Sees s f c) (o : Nat) : ((h.readTable o).exec s).1 =
    c.headerAt o >>= fun header => match header.tablePart? with
      | some table => .ok table
      | none => .error (.corruptHeader (.notTableHead o)) := by
  obtain ⟨s', ran, -⟩ := scans_readHeader o sees rfl
  rw [readTable, Action.exec_bind, ran]
  rcases c.headerAt o with fault | header
  · rfl
  · show (Action.exec (match header.tablePart? with | some table => _ | none => _) s').1 = _
    cases part : header.tablePart? <;> simp only [bind, Except.bind, part] <;> rfl

end Handle
end RecordFile
