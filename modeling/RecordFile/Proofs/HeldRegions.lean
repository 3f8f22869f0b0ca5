import Mathlib
import RecordFile.Proofs.Holding

/-! What is locked in a store, and for whom. Handles that lock only around bodies keep the regions they
hold apart from each other, and the system's locks are just those regions; letting go of a region then
undoes exactly what taking it did. -/
namespace RecordFile

namespace Region

theorem minus_self (r : Region) : r.minus r = [] := by
  simp [minus, stop]

theorem minus_of_apart {a b : Region} (some : a.len ≠ 0) (apart : ¬ a.Overlaps b) : a.minus b = [a] := by
  obtain ⟨offset, len⟩ := a
  simp only [Overlaps, stop, not_and_or, Nat.not_lt] at apart
  simp only [minus, stop]
  rcases apart with before | after
  · have lower : max offset (b.offset + b.len) = offset := by omega
    have upper : min (offset + len) b.offset - offset = 0 := by omega
    simp [lower, upper, some]
  · have lower : min (offset + len) b.offset - offset = len := by omega
    have upper : offset + len - max offset (b.offset + b.len) = 0 := by omega
    simp [lower, upper, some]

theorem Overlaps.symm {a b : Region} (meet : a.Overlaps b) : b.Overlaps a := ⟨meet.2, meet.1⟩

theorem Overlaps.refl {a : Region} (some : a.len ≠ 0) : a.Overlaps a := by
  constructor <;> · simp only [stop]; omega

/-- A region that is not empty is locked as it is, or not at all. -/
theorem lockSpan_of_some {r span : Region} (some : r.len ≠ 0) (locked : r.lockSpan = .ok span) :
    span = r := by
  unfold lockSpan at locked
  split_ifs at locked
  cases locked
  rfl

end Region

namespace LockTable

variable {t : LockTable} {owner : Nat} {file : Location} {r : Region}

theorem contended_iff : t.contended owner file r = true ↔
    ∃ l ∈ t.entries, l.file = file ∧ l.owner ≠ owner ∧ l.region.Overlaps r := by
  simp [contended]

theorem mem_add {l : Lock} : l ∈ (t.add owner file r).entries ↔ l = ⟨owner, file, r⟩ ∨ l ∈ t.entries :=
  List.mem_cons

theorem mem_remove {l : Lock} (mem : l ∈ t.entries)
    (apart : l.owner = owner → l.region.len ≠ 0 ∧ ¬ l.region.Overlaps r) :
    l ∈ (t.remove owner r).entries := by
  refine List.mem_flatMap.mpr ⟨l, mem, ?_⟩
  split
  case isTrue own =>
    obtain ⟨some, apart⟩ := apart own
    rw [Region.minus_of_apart some apart]
    exact List.mem_singleton_self l
  case isFalse => exact List.mem_singleton_self l

/-- Unlocking gives back what locking took, if the owner holds nothing else there. -/
theorem remove_add (apart : ∀ l ∈ t.entries, l.owner = owner → l.region.len ≠ 0 ∧ ¬ l.region.Overlaps r) :
    (t.add owner file r).remove owner r = t := by
  obtain ⟨entries⟩ := t
  have keeps : ∀ l ∈ entries, (if l.owner = owner then
      (l.region.minus r).map fun piece => { l with region := piece } else [l]) = [l] := by
    intro l mem
    split
    case isTrue own =>
      obtain ⟨some, apart⟩ := apart l mem own
      rw [Region.minus_of_apart some apart]
      rfl
    case isFalse => rfl
  simp only [add, remove, List.flatMap_cons, if_true, Region.minus_self, List.map_nil, List.nil_append,
    mk.injEq]
  rw [List.flatMap_congr keeps]
  exact List.flatMap_singleton' entries

end LockTable

/-- All locks, and of every open file where it is and which regions it holds. -/
@[ext] structure Standing where
  locks : LockTable
  files : Nat → Option (Location × List Region)

def Store.standing (s : Store) : Standing where
  locks := s.locks
  files d := (s.openFile? d).map fun file => (file.location, file.held)

namespace Standing

structure Idle (σ : Standing) : Prop where
  locks : σ.locks.entries = []
  files : ∀ d file held, σ.files d = some (file, held) → held = []

/-- Every lock is of a region that its owner holds, and no two held regions of a file share a byte. -/
structure Disciplined (σ : Standing) : Prop where
  some : ∀ l ∈ σ.locks.entries, l.region.len ≠ 0
  backed : ∀ l, l ∈ σ.locks.entries ↔ ∃ held, σ.files l.owner = Option.some (l.file, held) ∧ l.region ∈ held
  apart : ∀ d file held, σ.files d = Option.some (file, held) → held.Pairwise fun r r' => ¬ r.Overlaps r'
  exclusive : ∀ l ∈ σ.locks.entries, ∀ l' ∈ σ.locks.entries, l.file = l'.file → l.owner ≠ l'.owner →
    ¬ l.region.Overlaps l'.region

/-- All that the system has locked for `d` lies in regions that it holds. A guard of its own would be a lock
beside them. -/
def Unguarded (σ : Standing) (d : Nat) : Prop :=
  ∀ file held, σ.files d = Option.some (file, held) → ∀ l ∈ σ.locks.entries, l.owner = d →
    l.region.len ≠ 0 ∧ ∀ byte ∈ l.region, ∃ region ∈ held, byte ∈ region

/-- What is held once `d` has taken a region of `file` beside those it held. -/
def take (σ : Standing) (d : Nat) (file : Location) (held : List Region) (r : Region) : Standing where
  locks := σ.locks.add d file r
  files := Function.update σ.files d (Option.some (file, r :: held))

/-- The region can be taken for `d`. -/
structure Grants (σ : Standing) (d : Nat) (file : Location) (held : List Region) (r : Region) : Prop where
  opened : σ.files d = Option.some (file, held)
  some : r.len ≠ 0
  span : r.lockSpan = .ok r
  apart : ∀ region ∈ held, ¬ region.Overlaps r
  uncontended : σ.locks.contended d file r = false

variable {σ : Standing} {d : Nat} {file : Location} {held : List Region} {r : Region}

@[simp] theorem locks_take : (σ.take d file held r).locks = σ.locks.add d file r := rfl

@[simp] theorem files_take : (σ.take d file held r).files d = Option.some (file, r :: held) :=
  Function.update_self ..

theorem files_take_of_ne {d' : Nat} (differ : d' ≠ d) : (σ.take d file held r).files d' = σ.files d' :=
  Function.update_of_ne differ ..

theorem Idle.disciplined (idle : σ.Idle) : σ.Disciplined := by
  refine ⟨?_, ?_, ?_, ?_⟩
  · intro l mem
    rw [idle.locks] at mem
    cases mem
  · intro l
    rw [idle.locks]
    constructor
    · intro mem
      cases mem
    · rintro ⟨held, opened, mem⟩
      rw [idle.files _ _ _ opened] at mem
      cases mem
  · intro d file held opened
    rw [idle.files d file held opened]
    exact .nil
  · intro l mem
    rw [idle.locks] at mem
    cases mem

theorem Disciplined.own (ok : σ.Disciplined) (opened : σ.files d = Option.some (file, held)) {l : Lock}
    (mem : l ∈ σ.locks.entries) (own : l.owner = d) : l.file = file ∧ l.region ∈ held := by
  obtain ⟨held', opened', mem'⟩ := (ok.backed l).mp mem
  rw [own, opened] at opened'
  cases opened'
  exact ⟨rfl, mem'⟩

theorem Disciplined.unguarded (ok : σ.Disciplined) (d : Nat) : σ.Unguarded d := by
  intro file held opened l mem own
  exact ⟨ok.some l mem, fun byte inside => ⟨l.region, (ok.own opened mem own).2, inside⟩⟩

/-- What can be taken is apart from all that is locked for the taker. -/
theorem Unguarded.apart (own : σ.Unguarded d) (granted : σ.Grants d file held r) {l : Lock}
    (mem : l ∈ σ.locks.entries) (owner : l.owner = d) : l.region.len ≠ 0 ∧ ¬ l.region.Overlaps r := by
  obtain ⟨some, covered⟩ := own file held granted.opened l mem owner
  refine ⟨some, fun meet => ?_⟩
  obtain ⟨byte, inside, here⟩ := (Region.overlaps_iff some granted.some).mp meet
  obtain ⟨region, mem', there⟩ := covered byte inside
  have some' : region.len ≠ 0 := by
    obtain ⟨low, high⟩ := Region.mem_iff.mp there
    rw [Region.stop] at high
    omega
  exact granted.apart region mem' ((Region.overlaps_iff some' granted.some).mpr ⟨byte, there, here⟩)

theorem Unguarded.take {d' : Nat} (own : σ.Unguarded d') (granted : σ.Grants d file held r) :
    (σ.take d file held r).Unguarded d' := by
  intro file' held' opened l mem owner
  by_cases here : d' = d
  · subst here
    rw [files_take] at opened
    cases opened
    rcases LockTable.mem_add.mp mem with rfl | mem
    · exact ⟨granted.some, fun byte inside => ⟨r, List.mem_cons_self .., inside⟩⟩
    · obtain ⟨some, covered⟩ := own file held granted.opened l mem owner
      refine ⟨some, fun byte inside => ?_⟩
      obtain ⟨region, mem', there⟩ := covered byte inside
      exact ⟨region, List.mem_cons_of_mem _ mem', there⟩
  · rw [files_take_of_ne here] at opened
    rcases LockTable.mem_add.mp mem with rfl | mem
    · exact absurd owner.symm here
    · exact own file' held' opened l mem owner

theorem Disciplined.take (ok : σ.Disciplined) (granted : σ.Grants d file held r) :
    (σ.take d file held r).Disciplined := by
  refine ⟨?_, ?_, ?_, ?_⟩
  · intro l mem
    rcases LockTable.mem_add.mp mem with rfl | mem
    · exact granted.some
    · exact ok.some l mem
  · intro l
    show l ∈ (σ.locks.add d file r).entries ↔ _
    rw [LockTable.mem_add, ok.backed l]
    by_cases own : l.owner = d
    · simp only [own, files_take, granted.opened, Option.some.injEq, Prod.mk.injEq]
      constructor
      · rintro (rfl | ⟨_, ⟨rfl, rfl⟩, mem⟩)
        · exact ⟨_, ⟨rfl, rfl⟩, List.mem_cons_self ..⟩
        · exact ⟨_, ⟨rfl, rfl⟩, List.mem_cons_of_mem _ mem⟩
      · rintro ⟨_, ⟨rfl, rfl⟩, mem⟩
        rcases List.mem_cons.mp mem with here | mem
        · left
          cases l
          simp_all
        · exact .inr ⟨_, ⟨rfl, rfl⟩, mem⟩
    · have other : l ≠ ⟨d, file, r⟩ := fun same => own (same ▸ rfl)
      simp only [files_take_of_ne own, other, false_or]
  · intro d' file' held' opened
    by_cases same : d' = d
    · subst same
      simp only [files_take, Option.some.injEq, Prod.mk.injEq] at opened
      obtain ⟨rfl, rfl⟩ := opened
      refine List.pairwise_cons.mpr ⟨fun region mem meet => ?_, ok.apart _ _ _ granted.opened⟩
      exact granted.apart region mem meet.symm
    · rw [files_take_of_ne same] at opened
      exact ok.apart _ _ _ opened
  · have refuses : ∀ l ∈ σ.locks.entries, l.file = file → l.owner ≠ d → ¬ l.region.Overlaps r := by
      intro l mem there other meet
      have contended := LockTable.contended_iff.mpr ⟨l, mem, there, other, meet⟩
      rw [granted.uncontended] at contended
      cases contended
    intro l mem l' mem' there differ
    rcases LockTable.mem_add.mp mem with rfl | mem
    · rcases LockTable.mem_add.mp mem' with rfl | mem'
      · exact absurd rfl differ
      · exact fun meet => refuses l' mem' there.symm differ.symm meet.symm
    · rcases LockTable.mem_add.mp mem' with rfl | mem'
      · exact refuses l mem there differ
      · exact ok.exclusive l mem l' mem' there differ

/-- The bytes of the held regions are those that the system has locked for the file. -/
theorem Disciplined.owns_iff (ok : σ.Disciplined) (opened : σ.files d = Option.some (file, held))
    {byte : Nat} : σ.locks.Owns d byte ↔ ∃ region ∈ held, byte ∈ region := by
  constructor
  · rintro ⟨l, mem, own, inside⟩
    exact ⟨l.region, (ok.own opened mem own).2, inside⟩
  · rintro ⟨region, mem, inside⟩
    exact ⟨⟨d, file, region⟩, (ok.backed _).mpr ⟨held, opened, mem⟩, rfl, inside⟩

theorem Disciplined.apart_files (ok : σ.Disciplined) (opened : σ.files d = Option.some (file, held))
    {d' : Nat} {held' : List Region} (opened' : σ.files d' = Option.some (file, held')) (differ : d ≠ d')
    {region region' : Region} (mem : region ∈ held) (mem' : region' ∈ held') : ¬ region.Overlaps region' :=
  ok.exclusive ⟨d, file, region⟩ ((ok.backed _).mpr ⟨held, opened, mem⟩) ⟨d', file, region'⟩
    ((ok.backed _).mpr ⟨held', opened', mem'⟩) rfl differ

end Standing

namespace Store

variable {s : Store} {d : Nat}

theorem files_standing {file : OpenFile} (opened : s.openFile? d = some file) :
    s.standing.files d = some (file.location, file.held) := by
  simp [standing, opened]

theorem openFile?_of_files {file : Location} {held : List Region}
    (opened : s.standing.files d = some (file, held)) :
    ∃ f, s.openFile? d = some f ∧ f.location = file ∧ f.held = held := by
  obtain ⟨f, there, same⟩ := Option.map_eq_some_iff.mp opened
  cases same
  exact ⟨f, there, rfl, rfl⟩

theorem standing_mapOpen {change : OpenFile → OpenFile}
    (same : ∀ file, (change file).location = file.location ∧ (change file).held = file.held) :
    (s.mapOpen d change).standing = s.standing :=
  Standing.ext rfl (funext fun d' => map_openFile?_mapOpen
    (fun file => Prod.ext (same file).1 (same file).2) s d' d)

end Store

namespace Handle

variable (h : Handle) (r : Region) (s : Store)

theorem exec_fail_standing {α : Type} (error : SystemError) :
    ∃ fault s', (h.fail error : Action α).exec s = (.error fault, s') ∧ s'.standing = s.standing := by
  unfold fail
  rw [Action.exec_bind, exec_update_eq]
  cases s.openFile? h.descriptor with
  | none => exact ⟨_, s, rfl, rfl⟩
  | some file => exact ⟨_, _, rfl, Store.standing_mapOpen fun _ => ⟨rfl, rfl⟩⟩

theorem exec_recording_error {α : Type} {act : Action α} {fault : Fault} {s s' : Store}
    (ran : act.exec s = (.error fault, s')) :
    ∃ fault' s'', (h.recording act).exec s = (.error fault', s'') ∧ s''.standing = s'.standing := by
  unfold recording
  rw [Action.exec_tryCatch, ran]
  cases fault with
  | system error => exact exec_fail_standing h s' error
  | _ => exact ⟨_, s', rfl, rfl⟩

/-- Locking is refused without any effect, or adds one lock. -/
theorem exec_lockBytes_cases :
    (∃ fault, (h.lockBytes r).exec s = (.error fault, s)) ∨
    (∃ span f, r.lockSpan = .ok span ∧ s.openFile? h.descriptor = some f ∧
      s.locks.contended h.descriptor f.location span = false ∧
      (h.lockBytes r).exec s =
        (.ok (), { s with locks := s.locks.add h.descriptor f.location span })) := by
  unfold lockBytes
  cases spanned : r.lockSpan with
  | error e => exact .inl ⟨_, rfl⟩
  | ok span =>
    rw [Action.exec_bind_ok (Action.exec_orFault_ok ..), Action.exec_bind, exec_file_eq]
    cases opened : s.openFile? h.descriptor with
    | none => exact .inl ⟨_, rfl⟩
    | some f =>
      by_cases contended : s.locks.contended h.descriptor f.location span = true
      · refine .inl ⟨.lockFailed r, ?_⟩
        refine (Action.exec_bind_ok (Action.exec_get s) _).trans ?_
        rw [if_pos contended]
        rfl
      · refine .inr ⟨span, f, rfl, rfl, Bool.eq_false_iff.mpr contended, ?_⟩
        refine (Action.exec_bind_ok (Action.exec_get s) _).trans ?_
        rw [if_neg contended]
        rfl

/-- Unlocking takes bytes from what the handle itself holds, or does nothing. -/
theorem exec_unlockBytes_cases :
    (∃ fault, (h.unlockBytes r).exec s = (.error fault, s)) ∨
    (∃ span, r.lockSpan = .ok span ∧
      (h.unlockBytes r).exec s = (.ok (), { s with locks := s.locks.remove h.descriptor span })) := by
  unfold unlockBytes
  cases spanned : r.lockSpan with
  | error e => exact .inl ⟨_, rfl⟩
  | ok span =>
    rw [Action.exec_bind_ok (Action.exec_orFault_ok ..), Action.exec_bind, exec_file_eq]
    cases s.openFile? h.descriptor with
    | none => exact .inl ⟨_, rfl⟩
    | some f => exact .inr ⟨span, rfl, rfl⟩

theorem exec_hold_cases :
    (∃ fault s', (h.hold r).exec s = (.error fault, s') ∧ s'.standing = s.standing) ∨
    (∃ file held s', (h.hold r).exec s = (.ok (), s') ∧
      s.standing.Grants h.descriptor file held r ∧
      s'.standing = s.standing.take h.descriptor file held r) := by
  unfold hold
  by_cases empty : r.len = 0
  · exact .inl ⟨_, s, by rw [if_pos empty]; rfl, rfl⟩
  rw [if_neg empty]
  show (∃ fault s', Action.exec (h.file >>= _) s = _ ∧ _) ∨ (∃ file held s', Action.exec (h.file >>= _) s = _ ∧ _)
  rw [Action.exec_bind, exec_file_eq]
  cases opened : s.openFile? h.descriptor with
  | none => exact .inl ⟨_, s, rfl, rfl⟩
  | some f =>
    simp only [Option.elim_some]
    by_cases own : (f.held.any fun region => decide (region.Overlaps r)) = true
    · exact .inl ⟨_, s, by rw [if_pos own]; rfl, rfl⟩
    rw [if_neg own]
    show (∃ fault s', Action.exec (h.recording (h.lockBytes r) >>= _) s = _ ∧ _) ∨
      (∃ file held s', Action.exec (h.recording (h.lockBytes r) >>= _) s = _ ∧ _)
    rcases exec_lockBytes_cases h r s with ⟨fault, ran⟩ | ⟨span, f', spanned, opened', free, ran⟩
    · obtain ⟨fault', s', ran', same⟩ := exec_recording_error h ran
      exact .inl ⟨fault', s', Action.exec_bind_error ran' _, same⟩
    · rw [opened] at opened'
      cases opened'
      obtain rfl := Region.lockSpan_of_some empty spanned
      let locked : Store := { s with locks := s.locks.add h.descriptor f.location span }
      let change : OpenFile → OpenFile := fun file => { file with held := span :: file.held }
      refine .inr ⟨f.location, f.held, locked.mapOpen h.descriptor change, ?_,
        ⟨Store.files_standing opened, empty, spanned, ?_, free⟩, ?_⟩
      · rw [Action.exec_bind_ok (exec_recording_ok ran), exec_update_eq]
        show Option.elim (s.openFile? h.descriptor) _ _ = _
        rw [opened, Option.elim_some]
      · intro region mem meet
        refine own (List.any_eq_true.mpr ⟨region, mem, ?_⟩)
        exact decide_eq_true meet
      · refine Standing.ext rfl (funext fun d => ?_)
        show Option.map _ ((locked.mapOpen h.descriptor change).openFile? d) = _
        rw [Store.openFile?_mapOpen]
        by_cases here : d = h.descriptor
        · subst here
          rw [if_pos rfl, Standing.files_take]
          show Option.map _ (Option.map change (s.openFile? h.descriptor)) = _
          rw [opened]
          rfl
        · rw [if_neg here, Standing.files_take_of_ne here]
          rfl

theorem exec_letGo_taken {σ : Standing} {file : Location} {held : List Region}
    (own : σ.Unguarded h.descriptor) (granted : σ.Grants h.descriptor file held r)
    (taken : s.standing = σ.take h.descriptor file held r) :
    ∃ s', (h.letGo r).exec s = (.ok (), s') ∧ s'.standing = σ := by
  have there : s.standing.files h.descriptor = some (file, r :: held) := by
    rw [taken, Standing.files_take]
  obtain ⟨f, opened, rfl, holds⟩ := Store.openFile?_of_files there
  have locks : s.locks = σ.locks.add h.descriptor f.location r := congrArg Standing.locks taken
  let s₁ := s.mapOpen h.descriptor fun file => { file with held := file.held.erase r }
  have updated : (h.update fun file => { file with held := file.held.erase r }).exec s = (.ok (), s₁) :=
    exec_update_opened opened _
  have opened₁ : s₁.openFile? h.descriptor = some { f with held := held } := by
    rw [Store.openFile?_mapOpen_opened opened, holds, List.erase_cons_head]
  have unlocked : (h.unlockBytes r).exec s₁ =
      (.ok (), { s₁ with locks := s₁.locks.remove h.descriptor r }) := by
    rw [unlockBytes, granted.span, Action.exec_bind_ok (Action.exec_orFault_ok ..),
      Action.exec_bind_ok (exec_file_opened opened₁), Action.exec_modify]
  refine ⟨{ s₁ with locks := s₁.locks.remove h.descriptor r }, ?_, Standing.ext ?_ (funext fun d => ?_)⟩
  · rw [letGo, Action.exec_bind_ok updated, exec_recording_ok unlocked]
  · show s.locks.remove h.descriptor r = σ.locks
    rw [locks]
    exact LockTable.remove_add fun l mem owner => own.apart granted mem owner
  · show (s₁.openFile? d).map _ = _
    by_cases here : d = h.descriptor
    · subst here
      rw [opened₁, granted.opened]
      rfl
    · have others := congrFun (congrArg Standing.files taken) d
      rw [Standing.files_take_of_ne here] at others
      rw [Store.openFile?_mapOpen, if_neg here]
      exact others

section Leaves

variable {h : Handle} {s s' : Store} {f : OpenFile} {c : Content} {t : LockTable} {r : Region}

theorem Leaves.standing (left : h.Leaves s f c t s') : s'.standing =
    ⟨t, Function.update s.standing.files h.descriptor (some (f.location, f.held))⟩ := by
  refine Standing.ext left.locks (funext fun d => ?_)
  show _ = Function.update s.standing.files h.descriptor (some (f.location, f.held)) d
  by_cases here : d = h.descriptor
  · subst here
    rw [Function.update_self]
    exact Store.files_standing left.sees.opened
  · rw [Function.update_of_ne here]
    exact congrArg (Option.map _) (left.others d here)

theorem Leaves.standing_take {file : Location} {held : List Region}
    (left : h.Leaves s f c (s.locks.add h.descriptor file r) s') (place : f.location = file)
    (here : f.held = r :: held) : s'.standing = s.standing.take h.descriptor file held r := by
  rw [left.standing, place, here]
  rfl

/-- Once a region is let go again, what is held is what was held before it was taken. -/
theorem Leaves.standing_give {σ : Standing} {file : Location} {held : List Region}
    (left : h.Leaves s f c (s.locks.remove h.descriptor r) s') (own : σ.Unguarded h.descriptor)
    (granted : σ.Grants h.descriptor file held r)
    (taken : s.standing = σ.take h.descriptor file held r) (place : f.location = file)
    (here : f.held = held) : s'.standing = σ := by
  rw [left.standing, taken, place, here]
  refine Standing.ext ?_ ?_
  · show s.locks.remove h.descriptor r = σ.locks
    have locks : s.locks = σ.locks.add h.descriptor file r := congrArg Standing.locks taken
    rw [locks]
    exact LockTable.remove_add fun l mem owner => own.apart granted mem owner
  · show Function.update (Function.update _ _ _) _ _ = _
    rw [Function.update_idem, ← granted.opened, Function.update_eq_self]

theorem Free.grants (sees : h.Sees s f c) (free : h.Free s f r) (some_ : r.len ≠ 0)
    (fits : r.stop ≤ maxOffset) : s.standing.Grants h.descriptor f.location f.held r where
  opened := Store.files_standing sees.opened
  some := some_
  span := Region.lockSpan_eq some_ fits
  apart := free.held
  uncontended := free.locks

end Leaves

end Handle
end RecordFile
