import Mathlib
import RecordFile.Proofs.Discipline

/-! What a guard keeps others from. Its bytes are locked for its handle, like those of the handle's
bodies, and unlocking takes bytes whoever locked them. So a guard lasts as long as no body and no other
guard of the same handle reaches into it. -/
namespace RecordFile

theorem Region.len_lockSpan {r span : Region} (locked : r.lockSpan = .ok span) : span.len ≠ 0 := by
  unfold lockSpan at locked
  split_ifs at locked with _ _ empty
  · cases locked
    simp only
    omega
  · cases locked
    exact empty

/-- The region has no byte of a lock of the handle's own. -/
def Lock.Spared (l : Lock) (h : Handle) (r : Region) : Prop :=
  h.descriptor = l.owner → ∀ span, r.lockSpan = .ok span → ¬ l.region.Overlaps span

namespace Handle

variable {h : Handle} {r : Region} {s : Store} {l : Lock}

theorem mem_lockBytes (mem : l ∈ s.locks.entries) : l ∈ ((h.lockBytes r).exec s).2.locks.entries := by
  rcases h.exec_lockBytes_cases r s with ⟨fault, ran⟩ | ⟨span, f, -, -, -, ran⟩
  · rw [ran]
    exact mem
  · rw [ran]
    exact LockTable.mem_add.mpr (.inr mem)

theorem mem_unlockBytes (some : l.region.len ≠ 0) (spared : l.Spared h r) (mem : l ∈ s.locks.entries) :
    l ∈ ((h.unlockBytes r).exec s).2.locks.entries := by
  rcases h.exec_unlockBytes_cases r s with ⟨fault, ran⟩ | ⟨span, spanned, ran⟩
  · rw [ran]
    exact mem
  · rw [ran]
    exact LockTable.mem_remove mem fun own => ⟨some, spared own.symm span spanned⟩

theorem mem_hold (mem : l ∈ s.locks.entries) : l ∈ ((h.hold r).exec s).2.locks.entries := by
  rcases h.exec_hold_cases r s with ⟨fault, s', ran, same⟩ | ⟨file, held, s', ran, -, taken⟩
  · rw [ran]
    show l ∈ s'.standing.locks.entries
    rw [same]
    exact mem
  · rw [ran]
    show l ∈ s'.standing.locks.entries
    rw [taken]
    exact LockTable.mem_add.mpr (.inr mem)

theorem mem_letGo (some : l.region.len ≠ 0) (spared : l.Spared h r) (mem : l ∈ s.locks.entries) :
    l ∈ ((h.letGo r).exec s).2.locks.entries := by
  unfold letGo
  rw [Action.exec_bind, exec_update_eq]
  cases s.openFile? h.descriptor with
  | none => exact mem
  | some f =>
    let s₁ := s.mapOpen h.descriptor fun file => { file with held := file.held.erase r }
    have kept : l ∈ ((h.unlockBytes r).exec s₁).2.locks.entries := mem_unlockBytes some spared mem
    show l ∈ ((h.recording (h.unlockBytes r)).exec s₁).2.locks.entries
    rcases ran : (h.unlockBytes r).exec s₁ with ⟨fault | value, s₂⟩
    · rw [ran] at kept
      obtain ⟨fault', s₃, ran₃, same⟩ := h.exec_recording_error ran
      rw [ran₃]
      show l ∈ s₃.standing.locks.entries
      rw [same]
      exact kept
    · rw [ran] at kept
      rw [exec_recording_ok ran]
      exact kept

end Handle

def Scene.Shut (l : Lock) (scene : Scene) (s : Store) : Prop :=
  l ∈ s.locks.entries ∧ ∀ p ∈ scene.points, l ∈ p.store.locks.entries

namespace Program

open Work (Stays)

variable {α : Type} {l : Lock}

theorem stays_shut (some : l.region.len ≠ 0) (p : Program α) (spares : p.Keeps l.Spared l.Spared) :
    Stays (Scene.Shut l) p.watched := by
  have reads : Stays.Reads (Scene.Shut l) := by
    intro scene s s' same shut
    refine ⟨?_, shut.2⟩
    show l ∈ s'.standing.locks.entries
    rw [same]
    exact shut.1
  have point : Stays (Scene.Shut l) (unfailing Scene.watcher.point) := by
    intro scene s shut
    refine ⟨shut.1, fun p mem => ?_⟩
    rcases List.mem_cons.mp mem with rfl | mem
    · exact shut.1
    · exact shut.2 p mem
  have during : ∀ {β : Type} {work : Work Scene β} (h : Handle) (r : Region), Stays (Scene.Shut l) work →
      Stays (Scene.Shut l) (Scene.watcher.during h r work) :=
    fun h r inside scene s shut => inside { scene with running := (h, r) :: scene.running } s shut
  have refused : ∀ (h : Handle) (r : Region) x s fault s', Scene.Shut l x s →
      (h.hold r).exec s = (.error fault, s') → Scene.Shut l x s' := by
    intro h r x s fault s' shut ran
    have kept := h.mem_hold (r := r) shut.1
    rw [ran] at kept
    exact ⟨kept, shut.2⟩
  have taken : ∀ (h : Handle) (r : Region) x s s', Scene.Shut l x s →
      (h.hold r).exec s = (.ok (), s') → Scene.Shut l x s' := by
    intro h r x s s' shut ran
    have kept := h.mem_hold (r := r) shut.1
    rw [ran] at kept
    exact ⟨kept, shut.2⟩
  have given : ∀ (h : Handle) (r : Region), l.Spared h r → ∀ x s, Scene.Shut l x s →
      Scene.Shut l x ((h.letGo r).exec s).2 :=
    fun h r spared x s shut => ⟨h.mem_letGo some spared shut.1, shut.2⟩
  induction p with
  | done result => exact .bind point fun _ _ _ shut => shut
  | step act quiet next ih =>
    exact .bind point fun _ => .attempt (.quiet reads quiet) fun result => ih result (spares result)
  | locked h r body next inside ih =>
    obtain ⟨spared, kept, onward⟩ := spares
    refine .bind point fun _ => .attempt ?_ fun result => ih result (onward result)
    exact .locked (refused h r) (taken h r) (during h r (inside kept)) (given h r spared)
  | editing h r body next inside ih =>
    obtain ⟨spared, kept, onward⟩ := spares
    refine .bind point fun _ => .attempt ?_ fun result => ih result (onward result)
    exact .editing reads (refused h r) (taken h r) (fun bytes => during h r (inside bytes (kept bytes)))
      (given h r spared)
  | guard h r next ih =>
    refine .bind point fun _ => .attempt (.perform fun x s shut => ⟨?_, shut.2⟩) fun result =>
      ih result (spares.2 result)
    rw [Guard.acquire, Action.exec_bind]
    have kept := h.mem_lockBytes (r := r) shut.1
    rcases ran : (h.lockBytes r).exec s with ⟨fault | value, s'⟩ <;>
    · rw [ran] at kept
      exact kept
  | release g next ih =>
    refine .bind point fun _ => .attempt (.perform fun x s shut => ⟨?_, shut.2⟩) fun result =>
      ih result (spares.2 result)
    exact g.handle.mem_unlockBytes some spares.1 shut.1

end Program

/-- No other handle of the file can lock a byte of the span, with a guard or for a body. -/
def Store.Excludes (s : Store) (owner : Nat) (file : Location) (span : Region) : Prop :=
  ∀ (h : Handle) f r span', h.descriptor ≠ owner → s.openFile? h.descriptor = some f →
    f.location = file → r.lockSpan = .ok span' → span.Overlaps span' →
    (Guard.acquire h r).exec s = (.error (.lockFailed r), s) ∧ ∃ fault, (h.hold r).exec s = (.error fault, s)

theorem Store.excludes {s : Store} {l : Lock} (mem : l ∈ s.locks.entries) :
    s.Excludes l.owner l.file l.region := by
  intro h f r span' differ opened place spanned meet
  have contended : s.locks.contended h.descriptor f.location span' = true :=
    LockTable.contended_iff.mpr ⟨l, mem, place.symm, differ.symm, meet⟩
  refine ⟨Action.exec_bind_error (h.exec_lockBytes_contended opened spanned contended) _, ?_⟩
  by_cases empty : r.len = 0
  · refine ⟨.parameter .emptyRegion, ?_⟩
    unfold Handle.hold
    rw [if_pos empty]
    rfl
  by_cases own : ∃ region ∈ f.held, region.Overlaps r
  · exact ⟨_, h.exec_hold_own opened empty own⟩
  · obtain rfl := Region.lockSpan_of_some empty spanned
    have free : ∀ region ∈ f.held, ¬ region.Overlaps span' := fun region mem meet => own ⟨region, mem, meet⟩
    exact ⟨_, h.exec_hold_contended opened empty spanned free contended⟩

namespace Guard

/-- While a guard lives and nothing that its handle locks or unlocks reaches into it, no other handle can
lock a byte of it. -/
theorem acquire_excludes {h : Handle} {r span : Region} {s s₁ : Store} {f : OpenFile} {g : Guard} {α : Type}
    (opened : s.openFile? h.descriptor = some f) (spanned : r.lockSpan = .ok span)
    (acquired : (acquire h r).exec s = (.ok g, s₁)) (p : Program α)
    (spares : p.Keeps (Lock.Spared ⟨h.descriptor, f.location, span⟩) (Lock.Spared ⟨h.descriptor, f.location, span⟩)) :
    (∀ point ∈ (p.watch s₁).1.points, point.store.Excludes h.descriptor f.location span) ∧
      (p.watch s₁).2.Excludes h.descriptor f.location span := by
  have mem : (⟨h.descriptor, f.location, span⟩ : Lock) ∈ s₁.locks.entries := by
    rw [acquire] at acquired
    rcases h.exec_lockBytes_cases r s with ⟨fault, ran⟩ | ⟨span', f', spanned', opened', -, ran⟩
    · rw [Action.exec_bind_error ran] at acquired
      cases acquired
    · rw [Action.exec_bind_ok ran, Action.exec_pure] at acquired
      rw [opened] at opened'
      rw [spanned] at spanned'
      cases acquired
      cases opened'
      cases spanned'
      exact LockTable.mem_add.mpr (.inl rfl)
  obtain ⟨after, seen⟩ := p.stays_shut (Region.len_lockSpan spanned) spares {} s₁ ⟨mem, nofun⟩
  exact ⟨fun point mem => Store.excludes (seen point mem), Store.excludes after⟩

/-- A guard on bytes past all that the operations of the handle lock outlasts them. -/
theorem acquire_excludes_addTable :
    ∃ s₁ f, History.paired.store.openFile? 0 = some f ∧
      (acquire ⟨0⟩ ⟨100, 10⟩).exec History.paired.store = (.ok ⟨⟨0⟩, ⟨100, 10⟩⟩, s₁) ∧
      (Program.addTable ⟨0⟩ 7).Keeps (Lock.Spared ⟨0, f.location, ⟨100, 10⟩⟩)
        (Lock.Spared ⟨0, f.location, ⟨100, 10⟩⟩) ∧
      ((Program.addTable ⟨0⟩ 7).watch s₁).2.Excludes 0 f.location ⟨100, 10⟩ := by
  have ran : ((acquire ⟨0⟩ ⟨100, 10⟩).exec History.paired.store).1 = .ok ⟨⟨0⟩, ⟨100, 10⟩⟩ := by
    decide +kernel
  have acquired : (acquire ⟨0⟩ ⟨100, 10⟩).exec History.paired.store = (.ok ⟨⟨0⟩, ⟨100, 10⟩⟩,
      ((acquire ⟨0⟩ ⟨100, 10⟩).exec History.paired.store).2) := by rw [← ran]
  have open' : (History.paired.store.openFile? 0).isSome := by decide +kernel
  obtain ⟨f, opened⟩ := Option.isSome_iff_exists.mp open'
  have spares : (Program.addTable ⟨0⟩ 7).Keeps (Lock.Spared ⟨0, f.location, ⟨100, 10⟩⟩)
      (Lock.Spared ⟨0, f.location, ⟨100, 10⟩⟩) := by
    refine Program.keeps_addTable fun _ span spanned => ?_
    obtain rfl := Region.lockSpan_of_some (by decide) spanned
    show ¬ Region.Overlaps ⟨100, 10⟩ .growth
    decide
  exact ⟨_, f, opened, acquired, spares,
    (acquire_excludes (h := ⟨0⟩) opened (by decide) acquired (Program.addTable ⟨0⟩ 7) spares).2⟩

/-- Growth lets go of the bytes that a guard of the same handle is on, and another handle can lock them. -/
theorem acquire_lost_to_growth :
    let taken := (acquire ⟨0⟩ ⟨40, 8⟩).exec History.paired.store
    let grown := ((⟨0⟩ : Handle).addTable 7).exec taken.2
    taken.1 = .ok ⟨⟨0⟩, ⟨40, 8⟩⟩ ∧ grown.1 = .ok ⟨64, 64⟩ ∧
      ((acquire ⟨1⟩ ⟨44, 100⟩).exec grown.2).1 = .ok ⟨⟨1⟩, ⟨44, 100⟩⟩ ∧
      Region.Overlaps ⟨40, 8⟩ ⟨44, 100⟩ := by
  decide +kernel

end Guard
end RecordFile
