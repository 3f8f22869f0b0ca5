import Mathlib
import RecordFile.Guard
import RecordFile.Handle
import RecordFile.Proofs.History

/-! Guards that outlive their handles. A guard goes by a descriptor, and a handle that is closed gives its descriptor
back for the next one to be opened. As long as its own handle is open, a guard unlocks nothing of any other handle's.
After that it unlocks for whichever handle has the descriptor now. -/
namespace RecordFile

instance (t : LockTable) (owner byte : Nat) : Decidable (t.Owns owner byte) :=
  inferInstanceAs (Decidable (∃ l ∈ t.entries, l.owner = owner ∧ byte ∈ l.region))

namespace Store

/-- Whether the descriptor is that of an open file. -/
def inUse (s : Store) (d : Nat) : Bool := (s.openFile? d).isSome

variable {s : Store} {d : Nat}

theorem inUse_freeDescriptor (s : Store) : s.inUse s.freeDescriptor = false := by
  rw [inUse, openFile?_freeDescriptor]
  rfl

theorem inUse_attach (s : Store) (file : OpenFile) (d : Nat) :
    (s.attach file).inUse d = true ↔ d = s.freeDescriptor ∨ s.inUse d = true := by
  simp only [inUse, openFile?_attach]
  split
  case isTrue here => simp [here]
  case isFalse other => simp [other]

theorem inUse_detach (s : Store) (d d' : Nat) :
    (s.detach d).inUse d' = true ↔ d' ≠ d ∧ s.inUse d' = true := by
  simp only [inUse, openFile?_detach]
  split
  case isTrue here => simp [here]
  case isFalse other => simp [other]

end Store

namespace Handle

/-- What the action does, if it succeeds, is to open a file under the lowest free descriptor. -/
def Attaches (act : Action Handle) : Prop :=
  ∀ s, (∃ fault s₁, act.exec s = (.error fault, s₁) ∧ s₁.inUse = s.inUse) ∨
    ∃ (s₁ : Store) (file : OpenFile), act.exec s = (.ok ⟨s₁.freeDescriptor⟩, s₁.attach file) ∧ s₁.inUse = s.inUse

theorem Attaches.bind {α : Type} {act : Action α} {next : α → Action Handle} (first : act.Keeps Store.inUse)
    (rest : ∀ value, Attaches (next value)) : Attaches (act >>= next) := by
  intro s
  have before := first s
  rcases ran : act.exec s with ⟨fault | value, s'⟩ <;> rw [ran] at before
  · exact .inl ⟨fault, s', Action.exec_bind_error ran _, before⟩
  · rw [Action.exec_bind_ok ran]
    rw [← before]
    exact rest value s'

theorem attaches_attach (file : OpenFile) : Attaches (attach file) := fun s => .inr ⟨s, file, rfl, rfl⟩

theorem attaches_openIn (mode : Mode) (path : String) (settings : Settings) :
    Attaches (openIn mode path settings) := by
  cases mode with
  | create =>
    exact .bind (.liftExcept _) fun _ => .bind (fun _ => rfl) fun _ => .bind (.orFault _ _) fun location =>
      .bind (fun _ => rfl) fun _ => attaches_attach _
  | existing =>
    exact .bind (fun _ => rfl) fun _ => .bind (.orFault _ _) fun _ => .bind (.liftExcept _) fun _ =>
      attaches_attach _

end Handle

namespace Guard

variable {g : Guard} {s : Store} {span : Region}

theorem acquire_cases (h : Handle) (r : Region) (s : Store) :
    (∃ fault, (acquire h r).exec s = (.error fault, s)) ∨
    ∃ s' span, (acquire h r).exec s = (.ok ⟨h, r⟩, s') ∧ s'.inUse = s.inUse ∧ r.lockSpan = .ok span := by
  rw [acquire]
  rcases h.exec_lockBytes_cases r s with ⟨fault, ran⟩ | ⟨span, f, spanned, -, -, ran⟩
  · exact .inl ⟨fault, Action.exec_bind_error ran _⟩
  · exact .inr ⟨_, span, Action.exec_bind_ok ran _, rfl, spanned⟩

theorem inUse_release (g : Guard) (s : Store) : (g.release.exec s).2.inUse = s.inUse := by
  rw [release]
  rcases g.handle.exec_unlockBytes_cases g.region s with ⟨fault, ran⟩ | ⟨span, -, ran⟩
  · rw [ran]
  · rw [ran]
    rfl

/-- Dropping a guard is releasing it, but for what is said of it. -/
theorem run_drop (g : Guard) (s : Store) : (g.drop.run s).2 = (g.release.exec s).2 := rfl

/-- Releasing takes the bytes from whatever is open under the descriptor, and from nothing else. -/
theorem owns_release (spanned : g.region.lockSpan = .ok span) {d byte : Nat} (used : s.inUse d = true) :
    (g.release.exec s).2.locks.Owns d byte ↔ s.locks.Owns d byte ∧ (d = g.handle.descriptor → byte ∉ span) := by
  have unlocks : (g.release.exec s).2 =
      if s.inUse g.handle.descriptor then { s with locks := s.locks.remove g.handle.descriptor span } else s := by
    rw [release, Handle.unlockBytes, spanned, Action.exec_bind_ok (Action.exec_orFault_ok ..), Action.exec_bind,
      Handle.exec_file_eq, Store.inUse]
    cases s.openFile? g.handle.descriptor <;> rfl
  rw [unlocks]
  split
  case isTrue => exact LockTable.owns_remove
  case isFalse closed =>
    have other : d ≠ g.handle.descriptor := fun same => closed (same ▸ used)
    exact (and_iff_left fun same => absurd same other).symm

end Guard

/-- A handle, and how many were opened before it. -/
structure Opening where
  number : Nat
  handle : Handle
  deriving DecidableEq

/-- A guard that lives, and the number of the opening whose handle it was acquired from. -/
structure LiveGuard where
  number : Nat
  guard : Guard
  deriving DecidableEq

/-- A program at work on files: the openings that it has not closed and the guards that it has not let go of. -/
structure Session where
  store : Store
  count : Nat := 0
  openings : List Opening := []
  guards : List LiveGuard := []

/-- What a program may do next. Besides what opens, closes, locks and unlocks, it may do anything that opens and
closes nothing. -/
inductive Deed
  | opens (mode : Mode) (path : String) (settings : Settings)
  | closes (o : Opening)
  | acquires (o : Opening) (region : Region)
  | releases (a : LiveGuard)
  | drops (a : LiveGuard)
  | other (act : Action Unit) (keeps : act.Keeps Store.inUse)

namespace Session

/-- The files are there, and none is open yet. -/
def start (files : List (Location × Content)) (directories : List Location) : Session where
  store := { files, directories }

/-- Only what is open can be closed and locked, and only guards that live can be let go of. -/
def act (p : Session) : Deed → Session
  | .opens mode path settings =>
    match (Handle.openIn mode path settings).exec p.store with
    | (.ok handle, store) =>
      { p with store, count := p.count + 1, openings := ⟨p.count, handle⟩ :: p.openings }
    | (.error _, store) => { p with store }
  | .closes o =>
    if o ∈ p.openings then
      { p with store := (o.handle.close.exec p.store).2, openings := p.openings.filter (· ≠ o) }
    else p
  | .acquires o region =>
    if o ∈ p.openings then
      match (Guard.acquire o.handle region).exec p.store with
      | (.ok guard, store) => { p with store, guards := ⟨o.number, guard⟩ :: p.guards }
      | (.error _, store) => { p with store }
    else p
  | .releases a =>
    if a ∈ p.guards then
      { p with store := (a.guard.release.exec p.store).2, guards := p.guards.erase a }
    else p
  | .drops a =>
    if a ∈ p.guards then
      { p with store := (a.guard.drop.run p.store).2, guards := p.guards.erase a }
    else p
  | .other act _ => { p with store := (act.exec p.store).2 }

def run (p : Session) (deeds : List Deed) : Session := deeds.foldl act p

/-- The byte is locked for the opening. -/
def Owns (p : Session) (o : Opening) (byte : Nat) : Prop := p.store.locks.Owns o.handle.descriptor byte

instance (p : Session) (o : Opening) (byte : Nat) : Decidable (p.Owns o byte) :=
  inferInstanceAs (Decidable (p.store.locks.Owns o.handle.descriptor byte))

/-- What is known of a guard for as long as it lives. Its descriptor is that of its own opening, or of a later one. -/
structure Minds (p : Session) (a : LiveGuard) : Prop where
  spanned : ∃ span, a.guard.region.lockSpan = .ok span
  past : a.number < p.count
  own : ∀ o ∈ p.openings, o.number = a.number → o.handle = a.guard.handle
  later : ∀ o ∈ p.openings, o.handle = a.guard.handle → a.number ≤ o.number

structure Sound (p : Session) : Prop where
  used : ∀ d, p.store.inUse d = true ↔ ∃ o ∈ p.openings, o.handle.descriptor = d
  past : ∀ o ∈ p.openings, o.number < p.count
  numbered : ∀ o ∈ p.openings, ∀ o' ∈ p.openings, o.number = o'.number → o = o'
  apart : ∀ o ∈ p.openings, ∀ o' ∈ p.openings, o.handle = o'.handle → o = o'
  minds : ∀ a ∈ p.guards, p.Minds a

theorem sound_start (files : List (Location × Content)) (directories : List Location) :
    (start files directories).Sound := by
  refine ⟨fun d => ?_, ?_, ?_, ?_, ?_⟩
  · simp [start, Store.inUse, Store.openFile?]
  all_goals
    intro x mem
    cases mem

namespace Sound

variable {p : Session} {s : Store}

theorem inUse (sound : p.Sound) {o : Opening} (mem : o ∈ p.openings) : p.store.inUse o.handle.descriptor = true :=
  (sound.used _).mpr ⟨o, mem, rfl⟩

/-- Nothing was opened or closed, and no guard is new. -/
theorem kept (sound : p.Sound) (same : s.inUse = p.store.inUse) {guards : List LiveGuard}
    (fewer : guards ⊆ p.guards) : Sound { p with store := s, guards } where
  used d := by rw [same]; exact sound.used d
  past := sound.past
  numbered := sound.numbered
  apart := sound.apart
  minds a mem :=
    have minds := sound.minds a (fewer mem)
    ⟨minds.spanned, minds.past, minds.own, minds.later⟩

/-- The descriptor of a new handle is nobody's, but a guard may go by it still. -/
theorem opened (sound : p.Sound) (same : s.inUse = p.store.inUse) (file : OpenFile) :
    Sound { p with
      store := s.attach file, count := p.count + 1, openings := ⟨p.count, ⟨s.freeDescriptor⟩⟩ :: p.openings } := by
  have free : ∀ o ∈ p.openings, o.handle ≠ ⟨s.freeDescriptor⟩ := by
    intro o mem taken
    have used := sound.inUse mem
    rw [taken, ← same, s.inUse_freeDescriptor] at used
    cases used
  refine ⟨fun d => ?_, ?_, ?_, ?_, ?_⟩
  · rw [Store.inUse_attach, same, sound.used]
    simp [eq_comm]
  · intro o mem
    rcases List.mem_cons.mp mem with rfl | mem
    · exact Nat.lt_succ_self _
    · exact Nat.lt_succ_of_lt (sound.past o mem)
  · intro o mem o' mem' equal
    rcases List.mem_cons.mp mem with rfl | mem <;> rcases List.mem_cons.mp mem' with rfl | mem'
    · rfl
    · exact absurd equal (sound.past o' mem').ne'
    · exact absurd equal (sound.past o mem).ne
    · exact sound.numbered o mem o' mem' equal
  · intro o mem o' mem' equal
    rcases List.mem_cons.mp mem with rfl | mem <;> rcases List.mem_cons.mp mem' with rfl | mem'
    · rfl
    · exact absurd equal.symm (free o' mem')
    · exact absurd equal (free o mem)
    · exact sound.apart o mem o' mem' equal
  · intro a mem
    have minds := sound.minds a mem
    refine ⟨minds.spanned, Nat.lt_succ_of_lt minds.past, ?_, ?_⟩
    · intro o mem equal
      rcases List.mem_cons.mp mem with rfl | mem
      · exact absurd equal minds.past.ne'
      · exact minds.own o mem equal
    · intro o mem equal
      rcases List.mem_cons.mp mem with rfl | mem
      · exact minds.past.le
      · exact minds.later o mem equal

theorem closed (sound : p.Sound) {o : Opening} (mem : o ∈ p.openings) :
    Sound { p with store := p.store.detach o.handle.descriptor, openings := p.openings.filter (· ≠ o) } := by
  have among : ∀ o' ∈ p.openings.filter (· ≠ o), o' ∈ p.openings := fun o' mem' => List.mem_of_mem_filter mem'
  refine ⟨fun d => ?_, fun o' mem' => sound.past o' (among o' mem'), ?_, ?_, fun a mem' => ?_⟩
  · rw [Store.inUse_detach, sound.used]
    constructor
    · rintro ⟨differ, o', mem', rfl⟩
      exact ⟨o', List.mem_filter.mpr ⟨mem', decide_eq_true fun same => differ (same ▸ rfl)⟩, rfl⟩
    · rintro ⟨o', mem', rfl⟩
      obtain ⟨mem', differ⟩ := List.mem_filter.mp mem'
      refine ⟨fun same => of_decide_eq_true differ ?_, o', mem', rfl⟩
      exact sound.apart o' mem' o mem (congrArg Handle.mk same)
  · exact fun o₁ mem₁ o₂ mem₂ => sound.numbered o₁ (among o₁ mem₁) o₂ (among o₂ mem₂)
  · exact fun o₁ mem₁ o₂ mem₂ => sound.apart o₁ (among o₁ mem₁) o₂ (among o₂ mem₂)
  · have minds := sound.minds a mem'
    exact ⟨minds.spanned, minds.past, fun o' mem₁ => minds.own o' (among o' mem₁),
      fun o' mem₁ => minds.later o' (among o' mem₁)⟩

theorem acquired (sound : p.Sound) (same : s.inUse = p.store.inUse) {o : Opening} (mem : o ∈ p.openings)
    {r span : Region} (spanned : r.lockSpan = .ok span) :
    Sound { p with store := s, guards := ⟨o.number, ⟨o.handle, r⟩⟩ :: p.guards } := by
  have still := sound.kept same (List.Subset.refl _)
  refine { still with minds := fun a mem' => ?_ }
  rcases List.mem_cons.mp mem' with rfl | mem'
  · refine ⟨⟨span, spanned⟩, sound.past o mem, fun o' mem₁ equal => ?_, fun o' mem₁ equal => ?_⟩
    · rw [sound.numbered o' mem₁ o mem equal]
    · rw [sound.apart o' mem₁ o mem equal]
  · have minds := sound.minds a mem'
    exact ⟨minds.spanned, minds.past, minds.own, minds.later⟩

theorem act (sound : p.Sound) (deed : Deed) : (p.act deed).Sound := by
  cases deed with
  | opens mode path settings =>
    rw [Session.act]
    rcases Handle.attaches_openIn mode path settings p.store with ⟨fault, s, ran, same⟩ | ⟨s, file, ran, same⟩ <;>
      rw [ran]
    · exact sound.kept same (List.Subset.refl _)
    · exact sound.opened same file
  | closes o =>
    rw [Session.act]
    split
    case isTrue mem =>
      obtain ⟨f, opened⟩ := Option.isSome_iff_exists.mp (sound.inUse mem)
      rw [Handle.exec_close opened]
      exact sound.closed mem
    case isFalse => exact sound
  | acquires o region =>
    rw [Session.act]
    split
    case isTrue mem =>
      rcases Guard.acquire_cases o.handle region p.store with ⟨fault, ran⟩ | ⟨s, span, ran, same, spanned⟩ <;> rw [ran]
      · exact sound
      · exact sound.acquired same mem spanned
    case isFalse => exact sound
  | releases a =>
    rw [Session.act]
    split
    case isTrue => exact sound.kept (a.guard.inUse_release p.store) List.erase_subset
    case isFalse => exact sound
  | drops a =>
    rw [Session.act, Guard.run_drop]
    split
    case isTrue => exact sound.kept (a.guard.inUse_release p.store) List.erase_subset
    case isFalse => exact sound
  | other act keeps => exact sound.kept (keeps p.store) (List.Subset.refl _)

theorem run (sound : p.Sound) (deeds : List Deed) : (p.run deeds).Sound := by
  induction deeds generalizing p with
  | nil => exact sound
  | cons deed deeds ih => exact ih (sound.act deed)

end Sound

/-- Letting go of a guard takes its bytes from whichever opening has its descriptor now. That is its own as long as
it is open, and can be none but a later one after that. -/
theorem run_unlocks (files : List (Location × Content)) (directories : List Location) (deeds : List Deed)
    {a : LiveGuard} (lives : a ∈ ((start files directories).run deeds).guards)
    {deed : Deed} (ends : deed = .releases a ∨ deed = .drops a) :
    let p := (start files directories).run deeds
    (∃ span, a.guard.region.lockSpan = .ok span ∧ ∀ o ∈ p.openings, ∀ byte,
      (p.act deed).Owns o byte ↔ p.Owns o byte ∧ (o.handle = a.guard.handle → byte ∉ span)) ∧
    (∀ o ∈ p.openings, o.handle = a.guard.handle →
      o.number = a.number ∨ a.number < o.number ∧ ∀ own ∈ p.openings, own.number ≠ a.number) ∧
    ((∃ own ∈ p.openings, own.number = a.number) → ∀ o ∈ p.openings, o.number ≠ a.number → ∀ byte,
      (p.act deed).Owns o byte ↔ p.Owns o byte) := by
  intro p
  have sound : p.Sound := (sound_start files directories).run deeds
  have minds := sound.minds a lives
  obtain ⟨span, spanned⟩ := minds.spanned
  have stored : (p.act deed).store = (a.guard.release.exec p.store).2 := by
    rcases ends with rfl | rfl
    · rw [Session.act, if_pos lives]
    · rw [Session.act, if_pos lives, Guard.run_drop]
  have takes : ∀ o ∈ p.openings, ∀ byte,
      (p.act deed).Owns o byte ↔ p.Owns o byte ∧ (o.handle = a.guard.handle → byte ∉ span) := by
    intro o mem byte
    rw [Owns, stored, Guard.owns_release spanned (sound.inUse mem)]
    exact and_congr_right' (imp_congr_left ⟨congrArg Handle.mk, congrArg Handle.descriptor⟩)
  refine ⟨⟨span, spanned, takes⟩, fun o mem same => ?_, ?_⟩
  · rcases (minds.later o mem same).eq_or_lt with equal | later
    · exact .inl equal.symm
    · refine .inr ⟨later, fun own mem' equal => ?_⟩
      obtain rfl := sound.apart o mem own mem' (same.trans (minds.own own mem' equal).symm)
      exact later.ne' equal
  · rintro ⟨own, mem', equal⟩ o mem differ byte
    rw [takes o mem byte]
    refine and_iff_left fun same => absurd ?_ differ
    rw [sound.apart o mem own mem' (same.trans (minds.own own mem' equal).symm), equal]

/-- Two openings of a file that is created. Each has a guard. -/
def shared : List Deed :=
  [.opens .create "a" { chunkSize := 64, recordSize := 5 }, .opens .existing "a" {},
    .acquires ⟨0, ⟨0⟩⟩ ⟨0, 8⟩, .acquires ⟨1, ⟨1⟩⟩ ⟨8, 8⟩]

/-- Each guard can be let go of without the other. -/
theorem run_unlocks_shared : let p := (start [] []).run shared
    p.Owns ⟨1, ⟨1⟩⟩ 8 ∧ (p.act (.drops ⟨0, ⟨⟨0⟩, ⟨0, 8⟩⟩⟩)).Owns ⟨1, ⟨1⟩⟩ 8 := by
  have lives : ⟨0, ⟨⟨0⟩, ⟨0, 8⟩⟩⟩ ∈ ((start [] []).run shared).guards := by decide +kernel
  have own : ⟨0, ⟨0⟩⟩ ∈ ((start [] []).run shared).openings := by decide +kernel
  have other : ⟨1, ⟨1⟩⟩ ∈ ((start [] []).run shared).openings := by decide +kernel
  have owns : ((start [] []).run shared).Owns ⟨1, ⟨1⟩⟩ 8 := by decide +kernel
  obtain ⟨-, -, spares⟩ := run_unlocks [] [] shared lives (.inr rfl)
  exact ⟨owns, (spares ⟨_, own, rfl⟩ _ other (by decide) 8).mpr owns⟩

/-- A guard that outlives its handle unlocks what another handle has locked since. -/
theorem unlocks_for_successor :
    let p := (start [] []).run [.opens .create "a" { chunkSize := 64, recordSize := 5 }, .acquires ⟨0, ⟨0⟩⟩ ⟨0, 8⟩,
      .closes ⟨0, ⟨0⟩⟩, .opens .existing "a" {}, .acquires ⟨1, ⟨0⟩⟩ ⟨0, 8⟩]
    (⟨0, ⟨⟨0⟩, ⟨0, 8⟩⟩⟩ : LiveGuard) ∈ p.guards ∧ (⟨1, ⟨0⟩⟩ : Opening) ∈ p.openings ∧ p.Owns ⟨1, ⟨0⟩⟩ 0 ∧
      ¬ (p.act (.drops ⟨0, ⟨⟨0⟩, ⟨0, 8⟩⟩⟩)).Owns ⟨1, ⟨0⟩⟩ 0 := by
  decide +kernel

end Session
end RecordFile
