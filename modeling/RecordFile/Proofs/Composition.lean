import Mathlib
import RecordFile.Records.Reserve
import RecordFile.Proofs.Growth
import RecordFile.Proofs.Placement

/-! How the operations of a handle are put together. All of them are sequences of a few steps, with checks that may
fail between them. What holds of the steps, and of a sequence if it holds of its parts, holds of every operation; so
a property of all operations is proved of the steps alone. -/
namespace RecordFile

/-- What is wrong is neither a failure of the system nor contention. -/
def Fault.isPlain : Fault → Bool
  | system _ | lockFailed _ => false
  | _ => true

theorem Fault.isRetryable_of_isPlain {fault : Fault} (plain : fault.isPlain) : fault.isRetryable = false := by
  cases fault with
  | lockFailed region => cases plain
  | _ => rfl

theorem BlockSpec.check_plain {spec : BlockSpec} {chunkSize : UInt32} {fault : Fault}
    (refused : spec.check chunkSize = .error fault) : fault.isPlain := by
  obtain ⟨defect, rfl⟩ := check_error refused
  rfl

theorem TableHeader.slotSize_plain {table : TableHeader} {fault : Fault}
    (refused : table.slotSize = .error fault) : fault.isPlain := by
  unfold slotSize at refused
  split_ifs at refused
  cases refused
  rfl

theorem TableHeader.nextRecord_plain {table : TableHeader} {fault : Fault}
    (refused : table.nextRecord = .error fault) : fault.isPlain := by
  unfold nextRecord at refused
  split_ifs at refused
  cases refused
  rfl

theorem growthSize_plain {records slotSize : Nat} {chunkSize : UInt32} {fault : Fault}
    (refused : growthSize records slotSize chunkSize = .error fault) : fault.isPlain := by
  rw [growthSize_error refused]
  rfl

namespace Handle

/-- What holds of one action after another if it holds of each, and of an action that fails for a plain reason. -/
structure Sequenced (P : (α : Type) → (Handle → Action α) → Prop) : Prop where
  pure {α : Type} (value : α) : P α fun _ => Pure.pure value
  throw {α : Type} {fault : Fault} (plain : fault.isPlain) : P α fun _ => MonadExcept.throw fault
  bind {α β : Type} {act : Handle → Action α} {next : Handle → α → Action β} (first : P α act)
    (rest : ∀ value, P β fun h => next h value) : P β fun h => act h >>= next h

/-- What holds besides of every step that is taken without a lock. -/
structure Composed (P : (α : Type) → (Handle → Action α) → Prop) : Prop extends Sequenced P where
  chunkSize : P UInt32 fun h => h.chunkSize
  length : P Nat fun h => h.length
  fail {α : Type} (error : SystemError) : P α fun h => h.fail error
  seek (offset : Nat) : P Unit fun h => h.seek offset
  readAt (offset count : Nat) : P (List UInt8) fun h => h.readAt offset count
  writeAt (offset : Nat) (bytes : List UInt8) : P Unit fun h => h.writeAt offset bytes
  keepingPosition {α : Type} {act : Handle → Action α} (inside : P α act) :
    P α fun h => h.keepingPosition (m := StateM Store) (act h)

/-- `P` holds of what is done on the bytes of a locked region if it holds of the body. Of what is done under the lock
for growth it holds if `Q` holds of that, for there contention is tried again. -/
structure Locking (Q P : (α : Type) → (Handle → Action α) → Prop) : Prop where
  inside : Composed Q
  around : Composed P
  growing {α : Type} {act : Handle → Action α} (inside : Q α act) :
    P α fun h => h.growing (m := StateM Store) (act h)
  editing {α : Type} (r : Region) {body : Handle → Vector UInt8 r.len → Action (Outcome α × Vector UInt8 r.len)}
    (inside : ∀ bytes, P _ fun h => body h bytes) : P α fun h => h.editing (m := StateM Store) r (body h)

variable {Q P : (α : Type) → (Handle → Action α) → Prop} {α : Type}

theorem either {c : Prop} [Decidable c] {act act' : Handle → Action α} (yes : P α act) (no : P α act') :
    P α fun h => if c then act h else act' h := by
  by_cases holds : c
  · simpa only [if_pos holds] using yes
  · simpa only [if_neg holds] using no

namespace Sequenced

variable (rules : Sequenced P) {act : Handle → Action α}
include rules

/-- A check that may fail before the rest. -/
theorem checked {c : Prop} [Decidable c] {fault : Fault} (plain : fault.isPlain) (rest : P α act) :
    P α fun h => if c then (MonadExcept.throw fault : Action Unit) >>= fun _ => act h else act h :=
  either (rules.bind (rules.throw plain) fun _ => rest) rest

theorem liftExcept {result : Except Fault α} (plain : ∀ fault, result = .error fault → fault.isPlain) :
    P α fun _ => liftM result := by
  cases result with
  | ok value => exact rules.pure value
  | error fault => exact rules.throw (plain fault rfl)

theorem orFault {ε : Type} (result : Except ε α) {fault : ε → Fault} (plain : ∀ e, (fault e).isPlain) :
    P α fun _ => RecordFile.orFault result fault := by
  cases result with
  | ok value => exact rules.pure value
  | error e => exact rules.throw (plain e)

theorem addTable (recordSize : UInt32) (chunkSize : P UInt32 fun h => h.chunkSize)
    (grown : ∀ spec, P Extent fun h => h.growing (m := StateM Store) (h.append spec)) :
    P Extent fun h => h.addTable recordSize :=
  rules.checked rfl (rules.bind chunkSize fun _ => rules.checked rfl (grown _))

end Sequenced

namespace Composed

variable (rules : Composed P)
include rules

/-! ### Blocks -/

theorem seekEnd : P Nat fun h => h.seekEnd :=
  rules.bind rules.length fun _ => rules.bind (rules.seek _) fun _ => rules.pure _

theorem readExactly (offset count : Nat) : P (List UInt8) fun h => h.readExactly offset count :=
  rules.bind (rules.readAt offset count) fun _ => either (rules.fail _) (rules.pure _)

theorem isAligned (offset : Nat) : P Bool fun h => h.isAligned offset :=
  rules.bind rules.chunkSize fun _ => rules.pure _

theorem requireAligned (offset : Nat) : P Unit fun h => h.requireAligned offset :=
  rules.bind (rules.isAligned offset) fun _ =>
    either (rules.pure _) (rules.bind rules.chunkSize fun _ => rules.throw rfl)

theorem extend (bytes : Nat) : P Nat fun h => h.extend bytes := by
  refine rules.checked rfl (rules.bind rules.seekEnd fun stop => rules.bind (rules.requireAligned stop) fun _ => ?_)
  exact rules.checked rfl (rules.bind (rules.writeAt _ _) fun _ => rules.bind (rules.seek _) fun _ => rules.pure _)

theorem append (spec : BlockSpec) : P Extent fun h => h.append spec := by
  refine rules.bind rules.chunkSize fun _ => rules.bind (rules.liftExcept fun _ => BlockSpec.check_plain) fun _ => ?_
  exact rules.keepingPosition (rules.bind (rules.extend _) fun offset =>
    rules.bind (rules.writeAt _ _) fun _ => rules.pure _)

theorem readHeader (offset : Nat) : P Header fun h => h.readHeader offset := by
  refine rules.bind (rules.readAt _ _) fun announcement => rules.checked rfl ?_
  refine rules.bind (rules.orFault _ fun _ => rfl) fun size => rules.bind (rules.readAt _ _) fun bytes => ?_
  exact rules.checked rfl (rules.orFault _ fun _ => rfl)

theorem readTable (offset : Nat) : P TableHeader fun h => h.readTable offset := by
  refine rules.bind (rules.readHeader offset) fun header => ?_
  cases header.tablePart? with
  | none => exact rules.throw rfl
  | some table => exact rules.pure _

theorem link (parent : Nat) (next : Extent) : P Unit fun h => h.link parent next := by
  refine rules.bind (rules.readExactly _ _) fun bytes => rules.bind (rules.orFault _ fun _ => rfl) fun header => ?_
  cases header.next with
  | none => exact rules.writeAt _ _
  | some existing => exact rules.bind (rules.throw rfl) fun _ => rules.writeAt _ _

theorem appendAfter (tail : Nat) (spec : BlockSpec) : P Extent fun h => h.appendAfter tail spec := by
  have added := rules.bind (rules.append spec) fun block => rules.bind (rules.link tail block) fun _ => rules.pure block
  refine rules.bind (rules.readHeader tail) fun header => ?_
  cases header.next with
  | none => exact added
  | some existing => exact rules.bind (rules.throw rfl) fun _ => added

/-! ### Chains -/

theorem checkLink (parent : Nat) (next : Extent) (length : Nat) :
    P Unit fun h => h.checkLink parent next length := by
  have inside : P Unit fun _ => if length < next.stop then
      (MonadExcept.throw (.corruptChain (.linkPastEnd parent next length)) : Action Unit) else Pure.pure () :=
    either (rules.throw rfl) (rules.pure _)
  exact rules.bind (rules.isAligned _) fun _ => either inside (rules.bind (rules.throw rfl) fun _ => inside)

section

variable {visit : Header → Nat → α → StateM Store (ForInStep α)}
  (visits : ∀ header offset seen, P _ fun _ => unfailing (visit header offset seen))
include visits

/-- On a walk the visitor has its turn between one header and the next. -/
theorem walkFrom (start fuel steps length offset : Nat) (seen : α) :
    P (Ending × α) fun h => h.walkFrom start visit fuel steps length offset seen := by
  induction fuel generalizing steps length offset seen with
  | zero => exact rules.throw rfl
  | succ fuel ih =>
    refine rules.bind (rules.readHeader offset) fun header =>
      rules.bind (visits header offset seen) fun step => ?_
    cases step with
    | done seen => exact rules.pure _
    | yield seen =>
      cases header.next with
      | none => exact rules.pure _
      | some next =>
        -- The link is checked against the length that is known, or against the one looked up again.
        refine either (rules.bind rules.length fun _ => ?_) (rules.bind (rules.pure length) fun _ => ?_)
        all_goals exact rules.bind (rules.checkLink _ _ _) fun _ => rules.bind rules.chunkSize fun _ =>
          rules.checked rfl (ih _ _ _ _)

theorem walk (start : Nat) (seen : α) : P (Ending × α) fun h => h.walk start seen visit :=
  rules.bind rules.length fun length => rules.walkFrom visits start (maxOffset + 1) 0 length start seen

end

theorem lastBlock (start : Nat) : P (Header × Nat) fun h => h.lastBlock start := by
  refine rules.bind (rules.walk (fun _ _ _ => rules.pure _) start none) fun found => ?_
  obtain ⟨ending, last⟩ := found
  cases last with
  | none => exact rules.throw rfl
  | some found => exact rules.pure _

theorem search (cursor slotSize target start : Nat) :
    P Place fun h => h.search cursor slotSize target start := by
  refine rules.bind (rules.walk (fun _ _ _ => rules.pure _) cursor _) fun found => ?_
  obtain ⟨ending, result⟩ := found
  cases result with
  | searching => exact rules.pure _
  | found => exact rules.pure _
  | misnumbered => exact rules.throw rfl

/-! ### Locks -/

/-- The bytes of a region are read under its lock, and written back if the body says so. -/
theorem editing (r : Region)
    (locked : ∀ {act : Handle → Action α}, P α act → P α fun h => h.locked (m := StateM Store) r (act h))
    (writeBack : ∀ bytes, P Unit fun h => h.writeBack r bytes)
    {body : Handle → Vector UInt8 r.len → Action (Outcome α × Vector UInt8 r.len)}
    (inside : ∀ bytes, P _ fun h => body h bytes) : P α fun h => h.editing (m := StateM Store) r (body h) := by
  refine locked (rules.keepingPosition (rules.bind (rules.readAt _ _) fun bytes => ?_))
  by_cases enough : bytes.length = r.len
  · simp only [dif_pos enough]
    refine rules.bind (inside _) fun ended => ?_
    obtain ⟨outcome, edited⟩ := ended
    cases outcome with
    | keep value => exact rules.pure value
    | commit value => exact rules.bind (writeBack _) fun _ => rules.pure value
  · simp only [dif_neg enough]
    exact rules.throw rfl

end Composed

namespace Locking

variable (rules : Locking Q P)
include rules

/-! ### Records -/

theorem locate (chain : Nat) (table : TableHeader) (record : UInt32) :
    P Nat fun h => h.locate chain table record := by
  obtain ⟨inside, around, growing, -⟩ := rules
  refine around.bind (around.liftExcept fun _ => TableHeader.slotSize_plain) fun slotSize =>
    around.checked rfl (around.bind (around.search _ _ _ _) fun place => ?_)
  cases place with
  | slot offset => exact around.pure _
  | beyond tail start =>
    refine around.bind around.chunkSize fun chunkSize =>
      around.bind (around.liftExcept fun _ => growthSize_plain) fun size =>
        around.bind (growing (inside.appendAfter _ _)) fun block => around.bind (around.search _ _ _ _) fun place => ?_
    cases place with
    | slot offset => exact around.pure _
    | beyond tail start => exact around.throw rfl

theorem reserveWith (head : Nat) {body : Handle → TableHeader → Slot → Action (Outcome α × TableHeader)}
    (inside : ∀ table slot, P _ fun h => body h table slot) :
    P α fun h => h.reserveWith (m := StateM Store) head (body h) := by
  have around := rules.around
  refine rules.editing _ fun bytes => around.bind (around.orFault _ fun _ => rfl) fun table => ?_
  refine around.bind (around.liftExcept fun _ => TableHeader.nextRecord_plain) fun record => ?_
  refine around.bind (rules.locate head table record) fun offset => around.bind (around.readTable head) fun fresh => ?_
  exact around.bind (inside fresh _) fun ended => around.pure _

theorem reserve (head : Nat) : P Slot fun h => h.reserve head :=
  rules.reserveWith head fun _ _ => rules.around.pure _

theorem addTable (recordSize : UInt32) : P Extent fun h => h.addTable recordSize :=
  rules.around.toSequenced.addTable recordSize rules.around.chunkSize fun spec =>
    rules.growing (rules.inside.append spec)

end Locking

end Handle
end RecordFile
