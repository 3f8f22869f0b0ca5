import Mathlib
import RecordFile.Proofs.Rewinding

/-! Calls that run a body under a lock: which bytes the body is lent, and what is done after it. Nothing is assumed
of the body but that its handle stays open, so all is told by the store that it leaves. -/
namespace RecordFile

namespace Store

variable {s : Store} {d : Nat}

/-- The region is locked for `d`, and no other handle has a lock on a byte of it. -/
def Locked (d : Nat) (r : Region) (s : Store) : Prop :=
  ∃ place, s.place d = some place ∧ ⟨d, place, r⟩ ∈ s.locks.entries ∧ s.locks.contended d place r = false

def released (d : Nat) (r : Region) (s : Store) : Store :=
  { s.mapOpen d fun file => { file with held := file.held.erase r } with locks := s.locks.remove d r }

theorem openFile?_released (r : Region) : (s.released d r).openFile? d =
    (s.openFile? d).map fun file => { file with held := file.held.erase r } := by
  show (s.mapOpen d _).openFile? d = _
  rw [openFile?_mapOpen, if_pos rfl]

end Store

namespace Handle

variable {ρ α : Type} {h : Handle} {r : Region} {s s₁ s₂ taken : Store} {f f' f₂ : OpenFile} {x y : ρ}

/-- A region is locked if it could be, and then all of it is. -/
theorem hold_ok (opened : s.openFile? h.descriptor = some f) (held : (h.hold r).exec s = (.ok (), taken)) :
    r.len ≠ 0 ∧ r.lockSpan = .ok r ∧ taken.Locked h.descriptor r ∧ (∀ l, taken.content? l = s.content? l) ∧
      taken.bytesOf h.descriptor = s.bytesOf h.descriptor ∧
      ∃ f', taken.openFile? h.descriptor = some f' ∧ f'.location = f.location ∧ f'.position = f.position := by
  have look : Store.Heedless fun s => (s.openFile? h.descriptor).map fun file => (file.location, file.position) :=
    Store.heedless_openFile h.descriptor fun _ _ _ => rfl
  have same (l : Location) := (h.keeps_hold (Store.heedless_content l) r).after held
  have kept := (h.keeps_hold look r).after held
  rw [opened] at kept
  obtain ⟨f', opened', there⟩ := Option.map_eq_some_iff.mp kept
  obtain ⟨place, position⟩ := Prod.mk.inj there
  rcases h.exec_hold_cases r s with ⟨fault, s', ran, -⟩ | ⟨file, held', s', ran, granted, took⟩
  · rw [held] at ran
    cases ran
  · rw [held] at ran
    cases ran
    have here := (Store.files_standing opened).symm.trans granted.opened
    obtain ⟨rfl, rfl⟩ := Prod.mk.inj (Option.some.inj here)
    have locks : taken.locks = s.locks.add h.descriptor f.location r := congrArg Standing.locks took
    refine ⟨granted.some, granted.span, ⟨f.location, ?_, ?_, ?_⟩, same, ?_, f', opened', place, position⟩
    · rw [Store.place, opened', Option.map_some, place]
    · rw [locks]
      exact LockTable.mem_add.mpr (.inl rfl)
    · rw [locks, LockTable.contended_add]
      exact granted.uncontended
    · rw [Store.bytesOf_opened opened', Store.bytesOf_opened opened, place, same]

theorem exec_letGo_opened (opened : s.openFile? h.descriptor = some f) (span : r.lockSpan = .ok r) :
    (h.letGo r).exec s = (.ok (), s.released h.descriptor r) := by
  have opened₁ : (s.mapOpen h.descriptor fun file => { file with held := file.held.erase r }).openFile?
      h.descriptor = some { f with held := f.held.erase r } := Store.openFile?_mapOpen_opened opened _
  have unlocked : (h.unlockBytes r).exec (s.mapOpen h.descriptor fun file => { file with held := file.held.erase r }) =
      (.ok (), s.released h.descriptor r) := by
    rw [unlockBytes, span, Action.exec_bind_ok (Action.exec_orFault_ok ..),
      Action.exec_bind_ok (exec_file_opened opened₁), Action.exec_modify]
    rfl
  rw [letGo, Action.exec_bind_ok (exec_update_opened opened _), exec_recording_ok unlocked]

/-- Work under a lock comes to what it comes to without, and then the region is let go. -/
theorem exec_locked_opened {work : Work ρ α} {result : Except Fault α} (held : (h.hold r).exec s = (.ok (), taken))
    (span : r.lockSpan = .ok r) (ran : Work.exec work x taken = ((result, y), s₂))
    (opened : s₂.openFile? h.descriptor = some f₂) :
    Work.exec (h.locked r work) x s = ((result, y), s₂.released h.descriptor r) := by
  rw [locked, Work.exec_bind_ok (Work.exec_perform_of held x)]
  simp only [Work.exec_ensuring, ran, Work.exec_perform, exec_letGo_opened opened span]
  cases result <;> rfl

theorem exec_keepingPosition_opened {op : Work ρ α} {result : Except Fault α}
    (opened : s.openFile? h.descriptor = some f) (fits : f.position ≤ maxOffset)
    (ran : Work.exec op x s = ((result, y), s₂)) (opened₂ : s₂.openFile? h.descriptor = some f₂) :
    Work.exec (h.keepingPosition op) x s = ((result, y), s₂.sought h.descriptor f.position) := by
  rw [keepingPosition, Work.exec_bind_ok (Work.exec_perform_of (exec_position_opened opened) x)]
  simp only [Work.exec_ensuring, ran, Work.exec_perform, exec_seek_opened opened₂ fits]
  cases result <;> rfl

/-- What is written after a body that commits: the bytes that it returns, if it was lent those of the region. -/
def written (lent : Option (Vector UInt8 r.len)) :
    Except Fault (Outcome α × Option (Vector UInt8 r.len)) → Option (Vector UInt8 r.len)
  | .ok (.commit _, edited) => lent.map edited.getD
  | _ => none

/-- What is left of the store `s` in which a body was over: bytes may have been written to the region, the stream
may have been put back, and the region was let go. Nothing else has changed. -/
structure Closes (h : Handle) (r : Region) (place : Location) (stream : Option Nat)
    (written : Option (Vector UInt8 r.len)) (s s' : Store) : Prop where
  bytes : s'.content? place = match written with
    | some bytes => some ((s.bytesOf h.descriptor).write r.offset bytes.toList)
    | none => s.content? place
  files : ∀ l, l ≠ place → s'.content? l = s.content? l
  directories : s'.directories = s.directories
  opened : s'.openFile? h.descriptor = (s.openFile? h.descriptor).map fun file =>
    { file with position := stream.getD file.position, held := file.held.erase r }
  others : ∀ d, d ≠ h.descriptor → s'.openFile? d = s.openFile? d
  locks : s'.locks = s.locks.remove h.descriptor r

theorem closes_released (h : Handle) (r : Region) (place : Location) (s : Store) :
    h.Closes r place none none s (s.released h.descriptor r) where
  bytes := rfl
  files _ _ := rfl
  directories := rfl
  opened := Store.openFile?_released r
  others d ne := by
    show (s.mapOpen h.descriptor _).openFile? d = _
    rw [Store.openFile?_mapOpen, if_neg ne]
  locks := rfl

theorem closes_rewound (opened : s.openFile? h.descriptor = some f) (r : Region) (place : Location) (position : Nat) :
    h.Closes r place (some position) none s ((s.sought h.descriptor position).released h.descriptor r) where
  bytes := rfl
  files _ _ := rfl
  directories := rfl
  opened := by
    rw [Store.openFile?_released, Store.openFile?_sought opened, opened]
    rfl
  others d ne := by
    show ((s.sought h.descriptor position).mapOpen h.descriptor _).openFile? d = _
    rw [Store.openFile?_mapOpen, if_neg ne, Store.sought, Store.openFile?_mapOpen, if_neg ne]
  locks := rfl

theorem closes_overwritten (opened : s.openFile? h.descriptor = some f) (r : Region) (place : Location)
    (position : Nat) (bytes : Vector UInt8 r.len) : h.Closes r place (some position) (some bytes) s
      (((s.overwritten h.descriptor place r.offset bytes.toList).sought h.descriptor position).released
        h.descriptor r) where
  bytes := (Store.content?_overwritten ..).trans (if_pos rfl)
  files l ne := (Store.content?_overwritten ..).trans (if_neg ne)
  directories := rfl
  opened := by
    rw [Store.openFile?_released, Store.openFile?_sought (Store.openFile?_overwritten opened ..), opened]
    rfl
  others d ne := by
    show ((((((s.mapOpen _ _).put _ _).mapOpen _ _).mapOpen _ _).mapOpen _ _).openFile? d) = _
    simp only [Store.openFile?_mapOpen, if_neg ne, Store.openFile?_put]
  locks := rfl

/-- The stream is put back and the region let go, once bytes were written if any are to be. -/
def closed (h : Handle) (r : Region) (place : Location) (position : Nat) (written : Option (Vector UInt8 r.len))
    (s : Store) : Store :=
  let s := match written with
    | some bytes => s.overwritten h.descriptor place r.offset bytes.toList
    | none => s
  (s.sought h.descriptor position).released h.descriptor r

theorem closes_closed (opened : s.openFile? h.descriptor = some f) (r : Region) (place : Location) (position : Nat)
    (written : Option (Vector UInt8 r.len)) :
    h.Closes r place (some position) written s (h.closed r place position written s) := by
  cases written with
  | none => exact closes_rewound opened r place position
  | some bytes => exact closes_overwritten opened r place position bytes

/-- How a call went. -/
inductive Turn
  /-- The body was not run. -/
  | idle
  /-- The body was run. Bytes may have been written after it. -/
  | ran (wrote : Bool)
  deriving DecidableEq

/-- What a call may come to, from `x` and `s` on. The body is run on the bytes that the region has before the
call, if on any, in a store in which the region is locked; and what is left is what the body leaves, closed up. -/
inductive Called (h : Handle) (r : Region) (retrieve : Bool) (body : Body (StateT ρ (StateM Store)) α r)
    (place : Location) (x : ρ) (s : Store) : Turn → (Except Fault α × ρ) × Store → Prop
  | idle {fault : Fault} {s' : Store} (same : ∀ l, s'.content? l = s.content? l) :
      Called h r retrieve body place x s .idle ((.error fault, x), s')
  | ran {s₁ s₂ s' : Store} {lent : Option (Vector UInt8 r.len)} {y : ρ}
      {result : Except Fault (Outcome α × Option (Vector UInt8 r.len))}
      (locked : s₁.Locked h.descriptor r) (same : ∀ l, s₁.content? l = s.content? l)
      (bytes : lent.map Vector.toList =
        if retrieve then some ((s.bytesOf h.descriptor).read r.offset r.len) else none)
      (ran : Work.exec (body lent) x s₁ = ((result, y), s₂))
      (closes : h.Closes r place (if retrieve then s.stream h.descriptor else none) (written lent result) s₂ s') :
      Called h r retrieve body place x s (.ran (written lent result).isSome)
        ((result.map fun ended => ended.1.value, y), s')

/-- A call that wrote something succeeded. -/
theorem Called.ok {retrieve : Bool} {body : Body (StateT ρ (StateM Store)) α r} {place : Location}
    {ended : (Except Fault α × ρ) × Store} (called : h.Called r retrieve body place x s (.ran true) ended) :
    ∃ value, ended.1.1 = .ok value := by
  generalize turn : Turn.ran true = t at called
  cases called with
  | idle => cases turn
  | @ran s₁ s₂ s' lent y result =>
    rcases result with fault | ⟨value | value, edited⟩
    · cases turn
    · cases turn
    · exact ⟨value, rfl⟩

variable {retrieve : Bool} {body : Body (StateT ρ (StateM Store)) α r}

/-- Without bytes to be lent the body is run once the region is locked. -/
theorem called_plain (opened : s.openFile? h.descriptor = some f) (held : (h.hold r).exec s = (.ok (), taken))
    (stays : ∀ lent, h.StaysOpen (body lent)) (x : ρ) :
    h.Called r false body f.location x s (.ran false) (Work.exec (h.underLock r false body) x s) := by
  obtain ⟨-, span, locked, same, -, f', opened', place, -⟩ := hold_ok opened held
  rcases ran : Work.exec (body none) x taken with ⟨⟨result, y⟩, s₂⟩
  have still := stays none f'.location x taken (congrArg (Option.map OpenFile.location) opened')
  rw [ran] at still
  obtain ⟨f₂, opened₂, -⟩ := Store.place_eq_some still
  have work : Work.exec (body none >>= fun ended => pure ended.1.value) x taken =
      ((result.map fun ended => ended.1.value, y), s₂) := by
    cases result with
    | error fault => exact Work.exec_bind_error ran _
    | ok ended => exact Work.exec_bind_ok ran _
  have nothing : written (none : Option (Vector UInt8 r.len)) result = none := by
    rcases result with fault | ⟨value | value, edited⟩ <;> rfl
  have whole : Work.exec (h.underLock r false body) x s =
      ((result.map fun ended => ended.1.value, y), s₂.released h.descriptor r) :=
    exec_locked_opened held span work opened₂
  rw [whole]
  have called : h.Called r false body f.location x s (.ran (written none result).isSome)
      ((result.map fun ended => ended.1.value, y), s₂.released h.descriptor r) :=
    .ran locked same rfl ran (by rw [nothing]; exact h.closes_released r f.location s₂)
  rwa [nothing] at called

theorem exec_modifying_opened (opened : s.openFile? h.descriptor = some f) (fits : r.stop ≤ maxOffset)
    {bytes : Vector UInt8 r.len} (read : (s.bytesOf h.descriptor).read r.offset r.len = bytes.toList)
    (body : Vector UInt8 r.len → Work ρ (Outcome α × Vector UInt8 r.len)) (x : ρ) :
    Work.exec (h.modifying r body) x s = Work.exec (h.lend r (body bytes)) x
      ((s.sought h.descriptor r.offset).sought h.descriptor r.stop) := by
  have whole : ((s.bytesOf h.descriptor).read r.offset r.len).length = r.len := by rw [read, Vector.length_toList]
  have same : (⟨((s.bytesOf h.descriptor).read r.offset r.len).toArray, whole⟩ : Vector UInt8 r.len) = bytes :=
    Vector.toList_inj.mp read
  have got := exec_readAt_opened opened fits
  rw [whole] at got
  rw [modifying, Work.exec_bind_ok (Work.exec_perform_of got x), dif_pos whole, same, Region.stop]

/-- After a body that commits its bytes are written, unless they cannot be. -/
theorem exec_lend_opened {body : Work ρ (Outcome α × Vector UInt8 r.len)}
    {result : Except Fault (Outcome α × Vector UInt8 r.len)} (fits : r.stop ≤ maxOffset)
    (ran : Work.exec body x s = ((result, y), s₂)) (opened : s₂.openFile? h.descriptor = some f₂) :
    Work.exec (h.lend r body) x s = ((result.map fun ended => ended.1.value, y), match result with
      | .ok (.commit _, bytes) => s₂.overwritten h.descriptor f₂.location r.offset bytes.toList
      | _ => s₂) := by
  rw [lend]
  rcases result with fault | ⟨value | value, bytes⟩
  · exact Work.exec_bind_error ran _
  · exact Work.exec_bind_ok ran _
  · have long : r.offset + bytes.toList.length ≤ maxOffset := by
      rw [Vector.length_toList]
      exact fits
    have wrote : (h.writeBack r bytes.toList).exec s₂ =
        (.ok (), s₂.overwritten h.descriptor f₂.location r.offset bytes.toList) := by
      rw [writeBack, Action.exec_tryCatch, exec_writeAt_opened opened long]
    exact (Work.exec_bind_ok ran _).trans (Work.exec_bind_ok (Work.exec_perform_of wrote y) _)

/-- Where the bytes of a region can be read they are lent to the body. -/
theorem exec_underLock_lent {result : Except Fault (Outcome α × Option (Vector UInt8 r.len))}
    (position : f.position ≤ maxOffset) (held : (h.hold r).exec s = (.ok (), taken))
    (opened : taken.openFile? h.descriptor = some f) (span : r.lockSpan = .ok r) (fits : r.stop ≤ maxOffset)
    {bytes : Vector UInt8 r.len} (read : (taken.bytesOf h.descriptor).read r.offset r.len = bytes.toList)
    (ran : Work.exec (body (some bytes)) x ((taken.sought h.descriptor r.offset).sought h.descriptor r.stop) =
      ((result, y), s₂)) (opened₂ : s₂.openFile? h.descriptor = some f₂) :
    Work.exec (h.underLock r true body) x s = ((result.map fun ended => ended.1.value, y),
      h.closed r f₂.location f.position (written (some bytes) result) s₂) := by
  have gave : Work.exec (body.on bytes) x ((taken.sought h.descriptor r.offset).sought h.descriptor r.stop) =
      ((result.map fun ended => (ended.1, ended.2.getD bytes), y), s₂) := by
    cases result with
    | error fault => exact Work.exec_bind_error ran _
    | ok ended => exact Work.exec_bind_ok ran _
  have modified := (exec_modifying_opened opened fits read body.on x).trans (exec_lend_opened fits gave opened₂)
  have ends {result : Except Fault α} {s₃ : Store} {f₃ : OpenFile} (opened₃ : s₃.openFile? h.descriptor = some f₃)
      (ran : Work.exec (h.modifying r body.on) x taken = ((result, y), s₃)) :
      Work.exec (h.underLock r true body) x s =
        ((result, y), (s₃.sought h.descriptor f.position).released h.descriptor r) := by
    rw [underLock, if_pos rfl, editing_eq]
    exact exec_locked_opened held span (exec_keepingPosition_opened opened position ran opened₃)
      (Store.openFile?_sought opened₃ _)
  rcases result with fault | ⟨value | value, edited⟩
  · exact ends opened₂ modified
  · exact ends opened₂ modified
  · exact ends (Store.openFile?_overwritten opened₂ ..) modified

theorem called_lent (opened : s.openFile? h.descriptor = some f) (position : f.position ≤ maxOffset)
    (held : (h.hold r).exec s = (.ok (), taken)) (fits : r.stop ≤ maxOffset)
    (whole : ((s.bytesOf h.descriptor).read r.offset r.len).length = r.len)
    (stays : ∀ lent, h.StaysOpen (body lent)) (x : ρ) :
    ∃ wrote, h.Called r true body f.location x s (.ran wrote) (Work.exec (h.underLock r true body) x s) := by
  obtain ⟨-, span, locked, same, before, f', opened', place, there⟩ := hold_ok opened held
  let bytes : Vector UInt8 r.len := ⟨((s.bytesOf h.descriptor).read r.offset r.len).toArray, whole⟩
  let s₁ := (taken.sought h.descriptor r.offset).sought h.descriptor r.stop
  have opened₁ : s₁.openFile? h.descriptor = some { f' with position := r.stop } :=
    Store.openFile?_sought (Store.openFile?_sought opened' _) _
  have locked₁ : s₁.Locked h.descriptor r := by
    obtain ⟨place, there, rest⟩ := locked
    exact ⟨place, by rw [Store.place_sought, Store.place_sought, there], rest⟩
  rcases ran : Work.exec (body (some bytes)) x s₁ with ⟨⟨result, y⟩, s₂⟩
  have still := stays (some bytes) f'.location x s₁ (congrArg (Option.map OpenFile.location) opened₁)
  rw [ran] at still
  obtain ⟨f₂, opened₂, place₂⟩ := Store.place_eq_some still
  have read : (taken.bytesOf h.descriptor).read r.offset r.len = bytes.toList := by
    rw [before]
    rfl
  have closes := closes_closed opened₂ r f.location f.position (written (some bytes) result)
  rw [exec_underLock_lent (there ▸ position) held opened' span fits read ran opened₂, place₂, place, there]
  have stream : s.stream h.descriptor = some f.position := congrArg (Option.map OpenFile.position) opened
  exact ⟨_, .ran locked₁ same rfl ran (by rw [if_pos rfl, stream]; exact closes)⟩

/-- What is given where the bytes of a region that was locked cannot be read. -/
def unreadable (r : Region) : Fault :=
  if r.stop ≤ maxOffset then .lockReadFailed r else .system .invalidArgument

theorem exec_readAt_far (opened : s.openFile? h.descriptor = some f) {offset count : Nat} (near : offset ≤ maxOffset)
    (far : maxOffset < offset + count) : ∃ s' f', (h.readAt offset count).exec s =
      (.error (.system .invalidArgument), s') ∧ s'.openFile? h.descriptor = some f' ∧
        ∀ l, s'.content? l = s.content? l := by
  have opened₁ := Store.openFile?_sought opened offset
  refine ⟨(s.sought h.descriptor offset).mapOpen h.descriptor fun file =>
    { file with lastErrno := SystemError.invalidArgument.number? }, _, ?_,
    Store.openFile?_mapOpen_opened opened₁ _, fun _ => rfl⟩
  refine Action.exec_bind_error ?_ _
  rw [seekFor, Action.exec_bind_ok (exec_seek_opened opened near), if_pos far, fail]
  exact Action.exec_bind_ok (exec_update_opened opened₁ _) _

/-- Bytes that are not there, or that end where no offset reaches, cannot be read. -/
theorem exec_modifying_unread (opened : s.openFile? h.descriptor = some f) (span : r.lockSpan = .ok r)
    (short : r.stop ≤ maxOffset → ((s.bytesOf h.descriptor).read r.offset r.len).length ≠ r.len)
    (body : Vector UInt8 r.len → Work ρ (Outcome α × Vector UInt8 r.len)) (x : ρ) :
    ∃ s' f', Work.exec (h.modifying r body) x s = ((.error (unreadable r), x), s') ∧
      s'.openFile? h.descriptor = some f' ∧ ∀ l, s'.content? l = s.content? l := by
  by_cases fits : r.stop ≤ maxOffset
  · have got := Work.exec_perform_of (exec_readAt_opened opened fits) x
    refine ⟨(s.sought h.descriptor r.offset).sought h.descriptor
      (r.offset + ((s.bytesOf h.descriptor).read r.offset r.len).length), _, ?_,
      Store.openFile?_sought (Store.openFile?_sought opened _) _, fun _ => rfl⟩
    rw [modifying, Work.exec_bind_ok got, dif_neg (short fits), Work.exec_throw, unreadable, if_pos fits]
  · have near : r.offset ≤ maxOffset := by
      by_contra far
      rw [Region.lockSpan, if_pos (Nat.lt_of_not_le far)] at span
      cases span
    obtain ⟨s', f', failed, opened', same⟩ := exec_readAt_far opened near (Nat.lt_of_not_le fits)
    refine ⟨s', f', ?_, opened', same⟩
    rw [unreadable, if_neg fits]
    exact Work.exec_bind_error (Work.exec_perform_of failed x) _

theorem exec_underLock_unread (position : f.position ≤ maxOffset) (held : (h.hold r).exec s = (.ok (), taken))
    (opened : taken.openFile? h.descriptor = some f) (span : r.lockSpan = .ok r)
    (short : r.stop ≤ maxOffset → ((taken.bytesOf h.descriptor).read r.offset r.len).length ≠ r.len)
    (body : Body (StateT ρ (StateM Store)) α r) (x : ρ) :
    ∃ s', Work.exec (h.underLock r true body) x s = ((.error (unreadable r), x), s') ∧
      ∀ l, s'.content? l = taken.content? l := by
  obtain ⟨s₂, f₂, ran, opened₂, same⟩ := exec_modifying_unread opened span short body.on x
  refine ⟨(s₂.sought h.descriptor f.position).released h.descriptor r, ?_, same⟩
  rw [underLock, if_pos rfl, editing_eq]
  exact exec_locked_opened held span (exec_keepingPosition_opened opened position ran opened₂)
    (Store.openFile?_sought opened₂ _)

theorem exec_underLock_refused {fault : Fault} {s' : Store} (refused : (h.hold r).exec s = (.error fault, s'))
    (retrieve : Bool) (body : Body (StateT ρ (StateM Store)) α r) (x : ρ) :
    Work.exec (h.underLock r retrieve body) x s = ((.error fault, x), s') ∧ ∀ l, s'.content? l = s.content? l := by
  refine ⟨?_, fun l => (h.keeps_hold (Store.heedless_content l) r).after refused⟩
  cases retrieve <;> exact Work.exec_bind_error (Work.exec_perform_of refused x) _

/-- The bytes of a region that was locked can be read if the file holds them all. -/
theorem length_read_iff (some : r.len ≠ 0) (c : Content) : (c.read r.offset r.len).length = r.len ↔ r.stop ≤ c.size := by
  rw [Content.toList_read, List.length_take, List.length_drop, Content.length_toList, Region.stop]
  omega

/-- What is known of one call. Once the region is locked, the body is run unless it is to be lent bytes that
cannot be read. -/
theorem called_underLock (opened : s.openFile? h.descriptor = some f)
    (position : retrieve = true → f.position ≤ maxOffset) (stays : ∀ lent, h.StaysOpen (body lent)) (x : ρ) :
    ∃ turn, h.Called r retrieve body f.location x s turn (Work.exec (h.underLock r retrieve body) x s) ∧
      ∀ taken, (h.hold r).exec s = (.ok (), taken) →
        (turn = .idle ↔ retrieve = true ∧ ¬ (r.stop ≤ maxOffset ∧ r.stop ≤ (s.bytesOf h.descriptor).size)) ∧
        (turn = .idle → (Work.exec (h.underLock r retrieve body) x s).1.1 = .error (unreadable r)) := by
  rcases held : (h.hold r).exec s with ⟨fault | ⟨⟩, taken'⟩
  · obtain ⟨ran, same⟩ := exec_underLock_refused held retrieve body x
    rw [ran]
    exact ⟨.idle, .idle same, fun _ => nofun⟩
  · cases retrieve with
    | false =>
      refine ⟨.ran false, called_plain opened held stays x, fun _ _ => ⟨iff_of_false nofun ?_, nofun⟩⟩
      exact fun asked => Bool.false_ne_true asked.1
    | true =>
      obtain ⟨some, span, -, same, before, f', opened', -, there⟩ := hold_ok opened held
      by_cases readable : r.stop ≤ maxOffset ∧ r.stop ≤ (s.bytesOf h.descriptor).size
      · have whole := (length_read_iff some (s.bytesOf h.descriptor)).mpr readable.2
        obtain ⟨wrote, called⟩ := called_lent opened (position rfl) held readable.1 whole stays x
        exact ⟨.ran wrote, called, fun _ _ => ⟨iff_of_false nofun fun unread => unread.2 readable, nofun⟩⟩
      · have short (fits : r.stop ≤ maxOffset) :
            ((taken'.bytesOf h.descriptor).read r.offset r.len).length ≠ r.len := by
          rw [before, ne_eq, length_read_iff some]
          exact fun inside => readable ⟨fits, inside⟩
        obtain ⟨s', ran, unchanged⟩ := exec_underLock_unread (there ▸ position rfl) held opened' span short body x
        rw [ran]
        refine ⟨.idle, .idle fun l => (unchanged l).trans (same l), fun _ _ => ?_⟩
        exact ⟨iff_of_true rfl ⟨rfl, readable⟩, fun _ => rfl⟩

end Handle
end RecordFile
