import Mathlib
import RecordFile.CommandLine.Run
import RecordFile.Proofs.Distributing
import RecordFile.Proofs.Restoring

/-! Reservations on the command line, one process after another. What a batch comes to is settled by what its
handle has before it. A process leaves nothing but bytes, so that the handle of the next one has before it what the
handle of the last one had; and where a reservation failed the next one fails too, for nothing has changed. -/
namespace RecordFile

namespace LockTable

/-- All that is locked of a file. -/
def regions (t : LockTable) (file : Location) : List Region :=
  (t.entries.filter fun l => l.file = file).map Lock.region

variable {t : LockTable} {owner : Nat}

theorem elsewhere_of_absent (absent : ∀ l ∈ t.entries, l.owner ≠ owner) (file : Location) :
    t.elsewhere owner file = t.regions file := by
  rw [elsewhere, regions]
  refine congrArg (List.map Lock.region) (List.filter_congr fun l mem => ?_)
  simp [absent l mem]

theorem forget_of_absent (absent : ∀ l ∈ t.entries, l.owner ≠ owner) : t.forget owner = t := by
  have all : t.entries.filter (fun l => l.owner ≠ owner) = t.entries :=
    List.filter_eq_self.mpr fun l mem => by simpa using absent l mem
  rw [forget, all]

end LockTable

/-- Where a path leads does not depend on what the files hold. -/
theorem Store.find_congr {s s' : Store} (directories : s'.directories = s.directories)
    (files : ∀ l, (s'.content? l).isSome = (s.content? l).isSome) (path : String) : s'.find path = s.find path := by
  have directory : s'.isDirectory = s.isDirectory := by
    funext l
    rw [isDirectory, isDirectory, directories]
  have enters : s'.enter = s.enter := by
    funext directory' component
    rw [enter, enter, directory]
    simp only [files]
  have none (l : Location) : (s'.content? l).isNone = (s.content? l).isNone := by
    rw [← Option.not_isSome, ← Option.not_isSome, files]
  rw [find, find, approach, approach, enters, directory]
  simp only [none]

/-- After a reservation the file is proper again, and the block is there that it was for. -/
theorem Tracked.reserve {place : Location} {settings : Settings} {handles : List Handle} {s s' : Store} {L : Layout}
    {h : Handle} {head : Nat} {b : Block} {result : Except Fault Slot} (tracked : Tracked place settings handles s L)
    (mem : h ∈ handles) (found : L.at? head = some b) (ran : (h.reserve head).exec s = (result, s')) :
    ∃ M b', Tracked place settings handles s' M ∧ M.at? head = some b' := by
  let t : History := { location := place, settings, store := s, handles }
  have sound : t.Sound L := tracked
  obtain ⟨M, answer, sound'⟩ := sound.ask mem (.reserve sound.content found)
  obtain ⟨b', found', -⟩ := answer.growsTo head b found
  rw [History.Sound, History.location_ask, History.settings_ask, History.handles_ask, ← Request.store_serve,
    Request.serve, Action.store_return, ran] at sound'
  exact ⟨M, b', sound', found'⟩

namespace CommandLine

variable {h : Handle} {s : Store} {head : Nat}

/-- The line printed for a slot. -/
def slotLine (slot : Slot) : String := toString slot.record.toNat ++ "\t" ++ toString slot.offset ++ "\n"

theorem exec_reserveMany_succ (h : Handle) (head count : Nat) (x : String) (s : Store) :
    Work.exec (reserveMany h head (count + 1)) x s = match (h.reserve head).exec s with
      | (.ok slot, s') => Work.exec (reserveMany h head count) (x ++ slotLine slot) s'
      | (.error fault, s') => ((.error fault, x), s') := by
  rw [reserveMany, Work.exec_bind, Work.exec_perform]
  rcases (h.reserve head).exec s with ⟨fault | slot, s'⟩
  · rfl
  · have printed : Work.exec (print (toString slot.record.toNat ++ "\t" ++ toString slot.offset)) x s' =
        ((.ok (), x ++ slotLine slot), s') := by
      rw [slotLine, ← String.append_assoc]
      rfl
    exact Work.exec_bind_ok printed _

theorem reserveMany_add (h : Handle) (head n m : Nat) :
    reserveMany h head (n + m) = reserveMany h head n >>= fun _ => reserveMany h head m := by
  induction n with
  | zero => rw [Nat.zero_add, reserveMany, pure_bind]
  | succ n ih => simp only [Nat.succ_add, reserveMany, ih, bind_assoc]

/-- For whoever has `o` before it, a reservation comes to this result and leaves `o'`. -/
def Reserves (head : Nat) (o : Outlook) (result : Except Fault Slot) (o' : Outlook) : Prop :=
  ∀ (h : Handle) (s : Store), h.Faces s o → ∃ s', (h.reserve head).exec s = (result, s') ∧ h.Faces s' o'

/-- For whoever has `o` before it, so many reservations come to this result, print this and leave `o'`. -/
def Foretold (head : Nat) (o : Outlook) (count : Nat) (result : Except Fault Unit) (text : String) (o' : Outlook) :
    Prop :=
  ∀ (h : Handle) (s : Store) (x : String), h.Faces s o →
    ∃ s', Work.exec (reserveMany h head count) x s = ((result, x ++ text), s') ∧ h.Faces s' o'

/-- No number is given out, and trying again changes nothing. -/
def Stuck (head : Nat) (o : Outlook) : Prop :=
  ∃ fault, Reserves head o (.error fault) o

namespace Foretold

variable {o o₁ o₂ : Outlook} {n m : Nat} {result : Except Fault Unit} {fault : Fault} {text text' : String}

theorem zero (head : Nat) (o : Outlook) : Foretold head o 0 (.ok ()) "" o :=
  fun _ s x faces => ⟨s, by rw [String.append_empty]; rfl, faces⟩

theorem refused (refuses : Reserves head o (.error fault) o₁) :
    Foretold head o (n + 1) (.error fault) "" o₁ := by
  intro h s x faces
  obtain ⟨s', ran, faces'⟩ := refuses h s faces
  refine ⟨s', ?_, faces'⟩
  rw [exec_reserveMany_succ, ran, String.append_empty]

theorem given {slot : Slot} (gives : Reserves head o (.ok slot) o₁) (rest : Foretold head o₁ n result text o₂) :
    Foretold head o (n + 1) result (slotLine slot ++ text) o₂ := by
  intro h s x faces
  obtain ⟨s₁, ran, faces₁⟩ := gives h s faces
  obtain ⟨s₂, ran₂, faces₂⟩ := rest h s₁ (x ++ slotLine slot) faces₁
  refine ⟨s₂, ?_, faces₂⟩
  rw [exec_reserveMany_succ, ran, ← String.append_assoc]
  exact ran₂

/-- What a handle has before it settles a batch, as it settles each reservation in it. -/
theorem settles (head n : Nat) (o : Outlook) : ∃ result text o', Foretold head o n result text o' := by
  induction n generalizing o with
  | zero => exact ⟨_, _, _, zero head o⟩
  | succ n ih =>
    obtain ⟨result, o₁, -, ran⟩ := Handle.decided.reserve head o
    cases result with
    | error fault => exact ⟨_, _, _, refused ran⟩
    | ok slot =>
      obtain ⟨result, text, o₂, rest⟩ := ih o₁
      exact ⟨_, _, _, given ran rest⟩

theorem andThen (first : Foretold head o n (.ok ()) text o₁) (second : Foretold head o₁ m result text' o₂) :
    Foretold head o (n + m) result (text ++ text') o₂ := by
  intro h s x faces
  obtain ⟨s₁, ran₁, faces₁⟩ := first h s x faces
  obtain ⟨s₂, ran₂, faces₂⟩ := second h s₁ (x ++ text) faces₁
  refine ⟨s₂, ?_, faces₂⟩
  rw [reserveMany_add, Work.exec_bind_ok ran₁, ran₂, String.append_assoc]

/-- The first failure ends a batch. -/
theorem fails (first : Foretold head o n (.error fault) text o₁) (m : Nat) :
    Foretold head o (n + m) (.error fault) text o₁ := by
  intro h s x faces
  obtain ⟨s₁, ran₁, faces₁⟩ := first h s x faces
  refine ⟨s₁, ?_, faces₁⟩
  rw [reserveMany_add, Work.exec_bind_error ran₁]

end Foretold

theorem Stuck.foretold {o : Outlook} (stuck : Stuck head o) (count : Nat) :
    ∃ result, Foretold head o count result "" o := by
  obtain ⟨fault, refuses⟩ := stuck
  cases count with
  | zero => exact ⟨_, .zero head o⟩
  | succ count => exact ⟨_, .refused refuses⟩

/-- A batch comes to what its two parts come to, one after the other. If the first one fails the other gives and
prints nothing. -/
theorem Foretold.joined {o o₁ : Outlook} {n : Nat} {result : Except Fault Unit} {text : String}
    (first : Foretold head o n result text o₁) (stuck : ∀ fault, result = .error fault → Stuck head o₁) (m : Nat) :
    ∃ result' text' o₂ joint, Foretold head o₁ m result' text' o₂ ∧
      Foretold head o (n + m) joint (text ++ text') o₂ ∧ (joint.isOk ↔ result.isOk ∧ result'.isOk) := by
  cases result with
  | ok =>
    obtain ⟨result', text', o₂, second⟩ := settles head m o₁
    exact ⟨result', text', o₂, result', second, first.andThen second, fun ok => ⟨rfl, ok⟩, And.right⟩
  | error fault =>
    obtain ⟨result', second⟩ := (stuck fault rfl).foretold m
    refine ⟨result', "", o₁, .error fault, second, ?_, ?_⟩
    · rw [String.append_empty]
      exact first.fails m
    · exact iff_of_false Bool.false_ne_true fun both => Bool.false_ne_true both.1

/-- What a handle just opened on the file has before it. -/
def outlook (settings : Settings) (place : Location) (s : Store) (c : Content) : Outlook where
  content := c
  chunkSize := settings.chunkSize
  held := []
  others := s.locks.regions place

/-- The handle works on a proper file, one of whose blocks starts at `head`. It has locked nothing. -/
structure Tends (h : Handle) (place : Location) (settings : Settings) (head : Nat) (s : Store) (o : Outlook) :
    Prop where
  tracked : ∃ L b, Tracked place settings [h] s L ∧ L.at? head = some b
  absent : ∀ l ∈ s.locks.entries, l.owner ≠ h.descriptor
  faces : h.Faces s o
  idle : o.held = []
  chunk : o.chunkSize = settings.chunkSize

section Tending

variable {place : Location} {settings : Settings} {o : Outlook}

theorem Tends.others (tends : Tends h place settings head s o) : o.others = s.locks.regions place := by
  obtain ⟨L, b, tracked, -⟩ := tends.tracked
  obtain ⟨f, sees, -, -, others⟩ := tends.faces
  obtain ⟨f', c, sees', -, location, -⟩ := tracked.sees (List.mem_singleton_self h)
  obtain ⟨rfl, -⟩ := sees.unique sees'
  rw [← others, location, LockTable.elsewhere_of_absent tends.absent]

/-- What the handle has before it, it would have before it if it had just been opened. -/
theorem Tends.outlook_eq (tends : Tends h place settings head s o) : o = outlook settings place s o.content := by
  rw [outlook, ← tends.others, ← tends.chunk, ← tends.idle]

/-- One reservation leaves the handle as it was, but for the bytes of the file. Where it fails so will the next. -/
theorem Tends.reserve (tends : Tends h place settings head s o) :
    ∃ result s' o' f c, (h.reserve head).exec s = (result, s') ∧ Tends h place settings head s' o' ∧
      h.Leaves s f c s.locks s' ∧ f.location = place ∧ (∀ fault, result = .error fault → Stuck head o') := by
  obtain ⟨L, b, tracked, found⟩ := tends.tracked
  obtain ⟨f, sees, chunk, held, others⟩ := tends.faces
  obtain ⟨f', c, sees', laid, location, chunk'⟩ := tracked.sees (List.mem_singleton_self h)
  obtain ⟨rfl, rfl⟩ := sees.unique sees'
  have own : s.standing.Unguarded h.descriptor := fun _ _ _ l mem owner => absurd owner (tends.absent l mem)
  obtain ⟨result, s', c', e, ran, left, kept⟩ :=
    Handle.exec_reserve_unguarded sees' laid tracked.proper chunk' found own
  obtain ⟨result', o', -, settles⟩ := Handle.decided.reserve head o
  obtain ⟨s'', ran', faces⟩ := settles h s tends.faces
  cases ran.symm.trans ran'
  obtain rfl : o' = { o with content := c' } := faces.unique (left.faces ⟨rfl, rfl, rfl⟩ chunk held others)
  refine ⟨result, s', { o with content := c' }, _, c', ran, ?_, left, location, ?_⟩
  · have absent : ∀ l ∈ s'.locks.entries, l.owner ≠ h.descriptor := left.locks ▸ tends.absent
    exact ⟨tracked.reserve (List.mem_singleton_self h) found ran, absent, faces, tends.idle, tends.chunk⟩
  · rintro fault rfl
    rw [kept fault rfl] at settles ⊢
    exact ⟨fault, settles⟩

/-- So does a batch of them. -/
theorem Tends.reserveMany (tends : Tends h place settings head s o) (count : Nat) (x : String) :
    ∃ result text s' o' f c, Work.exec (reserveMany h head count) x s = ((result, text), s') ∧
      Tends h place settings head s' o' ∧ h.Leaves s f c s.locks s' ∧ f.location = place ∧
      (∀ fault, result = .error fault → Stuck head o') := by
  induction count generalizing s o x with
  | zero =>
    obtain ⟨L, b, tracked, -⟩ := tends.tracked
    obtain ⟨f, c, sees, -, location, -⟩ := tracked.sees (List.mem_singleton_self h)
    exact ⟨.ok (), x, s, o, f, c, rfl, tends, sees.leaves, location, nofun⟩
  | succ count ih =>
    rw [exec_reserveMany_succ]
    obtain ⟨result, s₁, o₁, f₁, c₁, ran, tends₁, left₁, place₁, stuck⟩ := tends.reserve
    rw [ran]
    cases result with
    | error fault =>
      refine ⟨.error fault, x, s₁, o₁, f₁, c₁, rfl, tends₁, left₁, place₁, fun _ _ => stuck fault rfl⟩
    | ok slot =>
      obtain ⟨result, text, s₂, o₂, f₂, c₂, ran₂, tends₂, left₂, place₂, stuck₂⟩ := ih tends₁ (x ++ slotLine slot)
      exact ⟨result, text, s₂, o₂, f₂, c₂, ran₂, tends₂, left₁.trans_quiet left₂ (place₂.trans place₁.symm), place₂,
        stuck₂⟩

/-- A proper file that a path leads to, one of whose blocks starts at `head`. Whatever is locked is locked for a file
that is open. -/
structure Shelved (path : String) (place : Location) (settings : Settings) (head : Nat) (s : Store) (c : Content) :
    Prop where
  leads : s.find path = .ok place
  tracked : ∃ L b, Tracked place settings [] s L ∧ L.at? head = some b
  content : s.content? place = some c
  owned : ∀ l ∈ s.locks.entries, (s.openFile? l.owner).isSome

variable {path : String} {c : Content}

theorem Shelved.opens (shelved : Shelved path place settings head s c) : ∃ file,
    (Handle.openExisting path {}).exec s = (.ok ⟨s.freeDescriptor⟩, s.attach file) ∧
      Tends ⟨s.freeDescriptor⟩ place settings head (s.attach file) (outlook settings place s c) := by
  obtain ⟨L, b, tracked, found⟩ := shelved.tracked
  obtain ⟨h, s₁, ran, tracked₁⟩ := tracked.openExisting shelved.leads {}
  obtain ⟨file, rfl, rfl, held⟩ := Handle.openExisting_ok ran
  have locks := s.locks_attach file
  have absent : ∀ l ∈ (s.attach file).locks.entries, l.owner ≠ s.freeDescriptor := by
    intro l mem own
    have some := shelved.owned l (locks ▸ mem)
    rw [own, s.openFile?_freeDescriptor] at some
    cases some
  obtain ⟨f, opened, place', chunk, position⟩ := tracked₁.handles _ (List.mem_singleton_self _)
  obtain rfl : file = f := by
    rw [Store.openFile?_attach, if_pos rfl] at opened
    exact Option.some.inj opened
  have sees : (⟨s.freeDescriptor⟩ : Handle).Sees (s.attach file) file c :=
    ⟨opened, by rw [Store.content?_attach, place', shelved.content], position⟩
  refine ⟨file, ran, ⟨L, b, tracked₁, found⟩, absent, ⟨file, sees, chunk, held, ?_⟩, rfl, rfl⟩
  rw [LockTable.elsewhere_of_absent absent, locks, place']
  rfl

/-- The file is closed again. All that is another than before are its bytes. -/
theorem Shelved.closes (shelved : Shelved path place settings head s c) {file f : OpenFile} {c' : Content}
    {s' : Store} {o : Outlook} (tends : Tends ⟨s.freeDescriptor⟩ place settings head s' o)
    (left : (⟨s.freeDescriptor⟩ : Handle).Leaves (s.attach file) f c' (s.attach file).locks s')
    (location : f.location = place) :
    Shelved path place settings head (s'.detach s.freeDescriptor) o.content ∧
      o = outlook settings place (s'.detach s.freeDescriptor) o.content := by
  obtain ⟨L, b, tracked, found⟩ := tends.tracked
  obtain ⟨f₁, sees, -⟩ := tends.faces
  obtain ⟨rfl, -⟩ := sees.unique left.sees
  have same : s'.locks = s.locks := left.locks.trans (s.locks_attach file)
  have locks : (s'.detach s.freeDescriptor).locks = s'.locks := LockTable.forget_of_absent tends.absent
  have content : s'.content? place = some o.content := location ▸ sees.content
  have directories : (s'.detach s.freeDescriptor).directories = s.directories :=
    left.directories.trans (s.directories_attach file)
  have closed := tracked.close (List.mem_singleton_self _)
  rw [Handle.exec_close sees.opened] at closed
  constructor
  · refine ⟨?_, ⟨L, b, by simpa using closed, found⟩, content, ?_⟩
    · rw [← shelved.leads]
      refine Store.find_congr directories (fun l => ?_) path
      by_cases here : l = place
      · rw [here, Store.content?_detach, content, shelved.content]
        rfl
      · rw [Store.content?_detach, left.files l (location ▸ here), Store.content?_attach]
    · intro l mem
      rw [locks, same] at mem
      have other : l.owner ≠ s.freeDescriptor := tends.absent l (same ▸ mem)
      rw [Store.openFile?_detach, if_neg other, left.others _ other, Store.openFile?_attach, if_neg other]
      exact shelved.owned l mem
  · rw [outlook, locks]
    exact tends.outlook_eq

/-- A process that reserves so many numbers gives and prints what is foretold of the file. It leaves nothing else than
the bytes that are foretold. -/
theorem Shelved.serves (shelved : Shelved path place settings head s c) {count : Nat} {result : Except Fault Unit}
    {text : String} {o' : Outlook} (foretold : Foretold head (outlook settings place s c) count result text o') :
    ∃ s', Work.exec (Handle.within .existing path {} fun h => reserveMany h head count) "" s = ((result, text), s') ∧
      Shelved path place settings head s' o'.content ∧ o' = outlook settings place s' o'.content ∧
      (∀ fault, result = .error fault → Stuck head o') := by
  obtain ⟨file, ran₁, tends⟩ := shelved.opens
  obtain ⟨result', text', s₂, o₂, f, c₂, ran₂, tends₂, left, location, stuck⟩ := tends.reserveMany count ""
  obtain ⟨s₂', ran₂', faces⟩ := foretold _ _ "" tends.faces
  rw [String.empty_append] at ran₂'
  cases ran₂.symm.trans ran₂'
  obtain rfl : o₂ = o' := tends₂.faces.unique faces
  obtain ⟨shelved', same⟩ := shelved.closes tends₂ left location
  refine ⟨_, ?_, shelved', same, stuck⟩
  obtain ⟨f₂, sees, -⟩ := faces
  have opens : (Handle.openIn .existing path {}).exec s = (.ok ⟨s.freeDescriptor⟩, s.attach file) := ran₁
  have closes : Work.exec (perform (Handle.close ⟨s.freeDescriptor⟩)) text s₂ =
      ((.ok (), text), s₂.detach s.freeDescriptor) := Work.exec_perform_of (Handle.exec_close sees.opened) text
  rw [Handle.within, Work.exec_bind_ok (Work.exec_perform_of opens "")]
  simp only [Work.exec_ensuring, ran₂, closes]
  cases result <;> rfl

end Tending

/-- What a process reports that was asked for so many numbers. -/
theorem run_reserve {arguments : List String} {file : String} {table : UInt64} {count : UInt32}
    (asks : parse arguments = .ok (.run file (.reserve table count))) {s s' : Store} {result : Except Fault Unit}
    {text : String} (ran : Work.exec (Handle.within .existing file {} fun h =>
      reserveMany h table.toNat count.toNat) "" s = ((result, text), s')) :
    ∃ report, (run arguments).run s = (report, s') ∧ report.output = text ∧ (report.code = 0 ↔ result.isOk) := by
  have ran' : StateT.run ((((Command.reserve table count).run file).run).run "") s = ((result, text), s') := ran
  rw [run, asks]
  simp only [StateT.run_bind, ran']
  cases result with
  | ok => exact ⟨_, rfl, rfl, iff_of_true rfl rfl⟩
  | error fault => exact ⟨_, rfl, rfl, iff_of_false (by simp) Bool.false_ne_true⟩

end CommandLine

namespace History

open CommandLine

variable {t : History} {L : Layout} {b : Block} {table : UInt64} {file : String} {n m total : UInt32}
  {once first second : List String}

theorem Sound.shelved {head : Nat} (sound : t.Sound L) (found : L.at? head = some b)
    (leads : t.store.find file = .ok t.location)
    (owned : ∀ l ∈ t.store.locks.entries, (t.store.openFile? l.owner).isSome) :
    ∃ c, Shelved file t.location t.settings head t.store c := by
  obtain ⟨c, content, laid⟩ := sound.content
  exact ⟨c, leads, ⟨L, b, ⟨⟨c, content, laid⟩, sound.proper, nofun⟩, found⟩, content, owned⟩

/-- Two processes that reserve numbers one after another leave the bytes, and print the lines, that one process does
which reserves as many, and that one succeeds just if both do. Others may hold whatever locks they like meanwhile, as
long as they have open what they hold them through. -/
theorem run_batched (run : Run Loose t) (laid : t.LaidOut L) (found : L.at? table.toNat = some b)
    (leads : t.store.find file = .ok t.location)
    (owned : ∀ l ∈ t.store.locks.entries, (t.store.openFile? l.owner).isSome)
    (sum : total.toNat = n.toNat + m.toNat) (asks : parse once = .ok (.run file (.reserve table total)))
    (asksFirst : parse first = .ok (.run file (.reserve table n)))
    (asksSecond : parse second = .ok (.run file (.reserve table m))) :
    let whole := (CommandLine.run once).run t.store
    let front := (CommandLine.run first).run t.store
    let back := (CommandLine.run second).run front.2
    (∃ c, back.2.content? t.location = some c ∧ whole.2.content? t.location = some c) ∧
      whole.1.output = front.1.output ++ back.1.output ∧
      (whole.1.code = 0 ↔ front.1.code = 0 ∧ back.1.code = 0) := by
  obtain ⟨M, sound⟩ := run.sound
  rw [sound.unique laid] at found
  obtain ⟨c, shelved⟩ := sound.shelved found leads owned
  obtain ⟨result, text, o₁, foretold⟩ := Foretold.settles table.toNat n.toNat (outlook t.settings t.location t.store c)
  obtain ⟨s₁, ran₁, shelved₁, same₁, stuck⟩ := shelved.serves foretold
  obtain ⟨report₁, reports₁, output₁, code₁⟩ := run_reserve asksFirst ran₁
  obtain ⟨result', text', o₂, joint, second, both, codes⟩ := foretold.joined stuck m.toNat
  rw [same₁] at second
  obtain ⟨s₂, ran₂, shelved₂, -, -⟩ := shelved₁.serves second
  obtain ⟨report₂, reports₂, output₂, code₂⟩ := run_reserve asksSecond ran₂
  rw [← sum] at both
  obtain ⟨s₃, ran₃, shelved₃, -, -⟩ := shelved.serves both
  obtain ⟨report₃, reports₃, output₃, code₃⟩ := run_reserve asks ran₃
  simp only [reports₁, reports₂, reports₃]
  refine ⟨⟨_, shelved₂.content, shelved₃.content⟩, ?_, ?_⟩
  · rw [output₁, output₂, output₃]
  · rw [code₁, code₂, code₃, codes]

theorem run_batched_contested : ∃ store L b,
    let t := { paired with store }
    let whole := (CommandLine.run ["-f", "a", "reserve", "0", "--count", "3"]).run store
    let front := (CommandLine.run ["-f", "a", "reserve", "0"]).run store
    let back := (CommandLine.run ["-f", "a", "reserve", "0", "--count", "2"]).run front.2
    Run Loose t ∧ t.LaidOut L ∧ L.at? 0 = some b ∧ store.find "a" = .ok t.location ∧
      (∀ l ∈ store.locks.entries, (store.openFile? l.owner).isSome) ∧
      front.1.output = "1\t48\n" ∧ front.1.code = 0 ∧ back.1.output = "2\t54\n" ∧ back.1.code = 1 ∧
      (∃ c, back.2.content? t.location = some c ∧ whole.2.content? t.location = some c) ∧
      whole.1.output = front.1.output ++ back.1.output ∧
      (whole.1.code = 0 ↔ front.1.code = 0 ∧ back.1.code = 0) := by
  -- The other handle locks growth, so there is nowhere to put the third slot.
  have idle : paired.store.locks.entries = [] ∧ (paired.store.openFile? 1).map OpenFile.held = some [] := by
    decide +kernel
  have seen : let store := (((⟨1⟩ : Handle).hold .growth).exec paired.store).2
      let front := (CommandLine.run ["-f", "a", "reserve", "0"]).run store
      let back := (CommandLine.run ["-f", "a", "reserve", "0", "--count", "2"]).run front.2
      store.find "a" = .ok paired.location ∧ (∀ l ∈ store.locks.entries, (store.openFile? l.owner).isSome) ∧
        front.1.output = "1\t48\n" ∧ front.1.code = 0 ∧ back.1.output = "2\t54\n" ∧ back.1.code = 1 := by
    decide +kernel
  obtain ⟨store, holds, run, -⟩ := (run_paired Loose).barred (h := ⟨1⟩) (by simp [paired]) idle.1 idle.2
  rw [holds] at seen
  obtain ⟨leads, owned, output, code, output', code'⟩ := seen
  obtain ⟨L, b, laid, found⟩ := run.first
  have once : parse ["-f", "a", "reserve", "0", "--count", "3"] = .ok (.run "a" (.reserve 0 3)) := rfl
  have first : parse ["-f", "a", "reserve", "0"] = .ok (.run "a" (.reserve 0 1)) := rfl
  have second : parse ["-f", "a", "reserve", "0", "--count", "2"] = .ok (.run "a" (.reserve 0 2)) := rfl
  have found : L.at? (0 : UInt64).toNat = some b := found
  exact ⟨store, L, b, run, laid, found, leads, owned, output, code, output', code',
    run_batched run laid found leads owned (by decide) once first second⟩

end History
end RecordFile
