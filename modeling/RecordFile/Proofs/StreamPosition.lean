import Mathlib
import RecordFile.Proofs.Rewinding

/-! Operations that leave the stream alone. What makes a file longer, gives out numbers or rereads the file header
seeks as it goes. The stream is put back around the block that is added, around the bytes that are lent and around
the header that is read, and what is done beside that moves nothing. -/
namespace RecordFile

namespace Handle

variable {ρ α β : Type} {h : Handle} {s : Store} {f : OpenFile} {c : Content}

/-- The stream is after the action where it was before, however the action ends. -/
def Steady (h : Handle) (act : Action α) : Prop :=
  ∀ s position, position ≤ maxOffset → s.stream h.descriptor = some position →
    (act.exec s).2.stream h.descriptor = some position

namespace Steady

variable {act : Action α}

theorem of_keeps (keeps : act.Keeps (Store.stream h.descriptor)) : h.Steady act :=
  fun s _ _ there => (keeps s).trans there

theorem throw (fault : Fault) : h.Steady (MonadExcept.throw fault : Action α) := of_keeps (.throw fault)

theorem bind {next : α → Action β} (first : h.Steady act) (rest : ∀ value, h.Steady (next value)) :
    h.Steady (act >>= next) := by
  intro s position fits there
  have between := first s position fits there
  rw [Action.exec_bind]
  rcases ran : act.exec s with ⟨fault | value, s'⟩
  · rw [ran] at between
    exact between
  · rw [ran] at between
    exact rest value s' position fits between

/-- What does not close the handle may move the stream if that is put back. -/
theorem keepingPosition (keeps : act.Keeps (Store.place h.descriptor)) : h.Steady (h.keepingPosition act) := by
  intro s position fits there
  obtain ⟨f, opened, rfl⟩ := Option.map_eq_some_iff.mp there
  have mirrors : Work.Mirrors (ρ := Unit) (h.keepingPosition (perform act)) (h.keepingPosition act) :=
    .bind (.perform _) fun _ => .ensuring (.perform _) (.perform _)
  rw [← mirrors () s]
  exact stream_keepingPosition opened fits (.perform keeps) ()

theorem locked {r : Region} (inside : h.Steady act) : h.Steady (h.locked (m := StateM Store) r act) := by
  have heedless := Store.heedless_stream h.descriptor
  refine bind (of_keeps (h.keeps_hold heedless r)) fun _ s position fits there => ?_
  rw [Action.exec_ensuring (Prod.eta (act.exec s)).symm (Prod.eta _).symm]
  exact (h.keeps_letGo heedless r _).trans (inside s position fits there)

/-- However many tries there are, each one starts where the last one put the stream back. -/
theorem retryFrom (b : Backoff) (inside : h.Steady act) (left retry : Nat) :
    h.Steady (b.retryFrom (m := StateM Store) (fun _ => pure ()) act left retry) := by
  induction left generalizing retry with
  | zero => exact inside
  | succ left ih =>
    intro s position fits there
    have after := inside s position fits there
    rw [b.exec_retryFrom_succ]
    rcases ran : act.exec s with ⟨fault | value, s'⟩
    · rw [ran] at after
      simp only
      split
      · exact ih (retry + 1) s' position fits after
      · exact after
    · rw [ran] at after
      exact after

theorem growing (inside : h.Steady act) : h.Steady (h.growing (m := StateM Store) act) :=
  bind (of_keeps h.keeps_file) fun _ => retryFrom _ (locked inside) _ _

end Steady

theorem steady_append (spec : BlockSpec) : h.Steady (h.append spec) := by
  have blind := Store.blind_place h.descriptor
  refine .bind (.of_keeps h.keeps_chunkSize) fun chunkSize => .bind (.of_keeps (.liftExcept _)) fun _ => ?_
  exact .keepingPosition (.bind ((h.keeping blind).extend _) fun offset =>
    .bind (h.keeps_writeAt blind _ _) fun _ => .pure _)

theorem steady (h : Handle) : Sequenced fun _ act => h.Steady (act h) where
  pure value := .of_keeps (.pure value)
  throw {_ fault} _ := .throw fault
  bind first rest := .bind first rest

theorem steady_addTable (recordSize : UInt32) : h.Steady (h.addTable recordSize) :=
  h.steady.addTable recordSize (.of_keeps h.keeps_chunkSize) fun spec => .growing (steady_append spec)

/-- A reservation puts the stream back after its body, wherever that has left it. -/
theorem stream_reserveWith (opened : s.openFile? h.descriptor = some f) (fits : f.position ≤ maxOffset) (head : Nat)
    {body : TableHeader → Slot → Work ρ (Outcome α × TableHeader)}
    (stays : ∀ table slot, h.StaysOpen (body table slot)) (x : ρ) :
    (Work.exec (h.reserveWith head body) x s).2.stream h.descriptor = some f.position := by
  refine stream_editing opened fits (fun bytes => ?_) x
  have blind := Store.blind_place h.descriptor
  have located (table : TableHeader) (record : UInt32) :
      h.StaysOpen (perform (h.locate head table record) : Work ρ Nat) := by
    rw [← Program.action_locate]
    exact .program _
  refine .bind (.perform (.orFault _ _)) fun table => .bind ?_ fun record => .bind (located table record) fun offset =>
    .bind (.perform ((h.keeping blind).readTable head)) fun fresh => .bind (stays _ _) fun ended => .pure _
  cases table.nextRecord with
  | ok record => exact .pure record
  | error fault => exact .throw fault

theorem stream_reserve (opened : s.openFile? h.descriptor = some f) (fits : f.position ≤ maxOffset) (head : Nat) :
    ((h.reserve head).exec s).2.stream h.descriptor = some f.position := by
  rw [← mirrors_reserve () s]
  exact stream_reserveWith opened fits head (fun _ _ => .pure _) ()

theorem scans_seek {chunkSize : UInt32} {offset : Nat} (fits : offset ≤ maxOffset) :
    h.Scans c chunkSize (h.seek offset) (.ok ()) := by
  intro s f sees _
  obtain ⟨s', ran, left⟩ := exec_seek sees offset fits
  exact ⟨s', ran, offset, f.lastErrno, left⟩

/-- The header is read and checked as opening reads and checks it. -/
theorem scans_readFileHeader (chunkSize : UInt32) :
    h.Scans c chunkSize h.readFileHeader (FileHeader.ofContent c) := by
  have scans : h.Scans c chunkSize h.readFileHeader (c.fetch 0 fileHeaderSize.toNat >>= fun bytes =>
      if bytes.length = fileHeaderSize.toNat then
        .ok () >>= fun _ => (FileHeader.verify bytes).mapError .invalidFile
      else (FileHeader.verify bytes).mapError .invalidFile) :=
    .bind (scans_readAt _ _) fun bytes =>
      .ite (.bind (scans_seek (Nat.zero_le _)) fun _ => .orFault _ _) (.orFault _ _)
  have near : ¬ maxOffset < 0 + fileHeaderSize.toNat := by decide
  rw [Content.fetch, if_neg near] at scans
  simp only [bind, Except.bind, ite_self] at scans
  exact scans

/-- The handle knows the header that it has just read, or the one that it knew before if that was refused. -/
theorem exec_refresh (sees : h.Sees s f c) : ∃ s' e, h.refresh.exec s = (FileHeader.ofContent c, s') ∧
    h.Leaves s { f with lastErrno := e, header := (FileHeader.ofContent c).toOption.getD f.header } c s.locks s' := by
  obtain ⟨s₁, ran₁, p, e, left₁⟩ := scans_readFileHeader f.header.chunkSize sees rfl
  obtain ⟨s₂, ran₂, left₂⟩ := exec_keepingPosition sees ran₁ left₁
  cases read : FileHeader.ofContent c with
  | error fault =>
    rw [read] at ran₂
    exact ⟨s₂, e, Action.exec_bind_error ran₂ _, left₂⟩
  | ok header =>
    rw [read] at ran₂
    have left₃ := left₂.sees.mapOpen (fun file => { file with header }) rfl sees.position
    refine ⟨_, e, ?_, left₂.trans_quiet left₃ rfl⟩
    rw [refresh, Action.exec_bind_ok ran₂, Action.exec_bind_ok (exec_update left₂.sees _), Action.exec_pure]

/-- Adding blocks and tables, giving out numbers and rereading the file header leave the stream where it was, whether
or not they fail, and a header that is refused is not the one that the handle knows from then on. -/
theorem allocates_in_place (sees : h.Sees s f c) :
    (∀ spec, ((h.append spec).exec s).2.stream h.descriptor = some f.position) ∧
    (∀ recordSize, ((h.addTable recordSize).exec s).2.stream h.descriptor = some f.position) ∧
    (∀ head, ((h.reserve head).exec s).2.stream h.descriptor = some f.position) ∧
    (∀ (ρ α : Type) (head : Nat) (body : TableHeader → Slot → Work ρ (Outcome α × TableHeader)),
      (∀ table slot, h.StaysOpen (body table slot)) → ∀ x,
        (Work.exec (h.reserveWith head body) x s).2.stream h.descriptor = some f.position) ∧
    (h.refresh.exec s).2.stream h.descriptor = some f.position ∧
    ∀ fault s', h.refresh.exec s = (.error fault, s') →
      ∃ f', s'.openFile? h.descriptor = some f' ∧ f'.header = f.header := by
  have there : s.stream h.descriptor = some f.position := congrArg (Option.map OpenFile.position) sees.opened
  obtain ⟨s₁, e, ran, left⟩ := exec_refresh sees
  refine ⟨fun spec => steady_append spec s _ sees.position there,
    fun recordSize => steady_addTable recordSize s _ sees.position there,
    fun head => stream_reserve sees.opened sees.position head, ?_, ?_, ?_⟩
  · intro ρ α head body stays x
    exact stream_reserveWith sees.opened sees.position head stays x
  · rw [ran]
    exact congrArg (Option.map OpenFile.position) left.sees.opened
  · intro fault s' failed
    rw [ran] at failed
    obtain ⟨refused, rfl⟩ := Prod.mk.inj failed
    rw [refused] at left
    exact ⟨_, left.sees.opened, rfl⟩

/-- A reservation whose body seeks, and a refusal of a file that has become too short. -/
theorem allocates_in_place_adrift :
    (∃ s f, (⟨0⟩ : Handle).Sees s f lone ∧ ∀ head,
      (Work.exec ((⟨0⟩ : Handle).reserveWith head fun table slot => do
        perform ((⟨0⟩ : Handle).seek 5)
        return (Outcome.commit slot, table)) () s).2.stream 0 = some f.position) ∧
    ∃ s', (⟨0⟩ : Handle).refresh.exec (alone .empty (FileHeader.fresh 64 5)) =
        (.error (.invalidFile .tooShort), s') ∧
      ∃ f, s'.openFile? 0 = some f ∧ f.header = FileHeader.fresh 64 5 := by
  have read : FileHeader.ofContent lone = .ok (FileHeader.fresh 64 5) := by decide +kernel
  obtain ⟨f, opened, -, -⟩ := opened_alone read
  obtain ⟨-, -, -, reserves, -⟩ := allocates_in_place opened.toSees
  refine ⟨⟨_, f, opened.toSees, fun head => reserves _ _ head _ (fun table slot => ?_) ()⟩, ?_⟩
  · exact .bind (.perform (keeps_seek _ (Store.blind_place _) 5)) fun _ => .pure _
  · have sees : (⟨0⟩ : Handle).Sees (alone .empty (FileHeader.fresh 64 5)) _ .empty := ⟨rfl, rfl, Nat.zero_le _⟩
    have short : FileHeader.ofContent .empty = .error (.invalidFile .tooShort) := by decide +kernel
    obtain ⟨s', e, ran, -⟩ := exec_refresh sees
    rw [short] at ran
    obtain ⟨-, -, -, -, -, refuses⟩ := allocates_in_place sees
    exact ⟨s', ran, refuses _ _ ran⟩

end Handle
end RecordFile
