import Mathlib
import RecordFile.Records.Reserve
import RecordFile.Proofs.Preservation

/-! Actions that keep something in mind beside the store. They run the same code under locks that plain
actions run; what they keep in mind is seen by bodies only, so it changes nothing else. -/
namespace RecordFile

/-- Does `op`, and what is to be done after it, whether or not it fails. -/
def attempt {m : Type → Type} [Monad m] {α β : Type} (op : ExceptT Fault m β)
    (next : Except Fault β → ExceptT Fault m α) : ExceptT Fault m α :=
  ExceptT.mk (op.run >>= fun result => (next result).run)

theorem Action.exec_attempt {α β : Type} (act : Action β) (next : Except Fault β → Action α) (s : Store) :
    Action.exec (attempt act next) s = (next (act.exec s).1).exec (act.exec s).2 := rfl

abbrev Work (ρ α : Type) := ExceptT Fault (StateT ρ (StateM Store)) α

namespace Work

variable {ρ α β : Type}

/-- What is given, what is in mind after it, and the store after it. -/
def exec (work : Work ρ α) (x : ρ) (s : Store) : (Except Fault α × ρ) × Store := (work.run.run x).run s

@[simp] theorem exec_pure (value : α) (x : ρ) (s : Store) :
    exec (pure value : Work ρ α) x s = ((.ok value, x), s) := rfl

@[simp] theorem exec_throw (fault : Fault) (x : ρ) (s : Store) :
    exec (throw fault : Work ρ α) x s = ((.error fault, x), s) := rfl

theorem exec_bind (work : Work ρ α) (next : α → Work ρ β) (x : ρ) (s : Store) :
    exec (work >>= next) x s = match exec work x s with
      | ((.ok value, x'), s') => exec (next value) x' s'
      | ((.error fault, x'), s') => ((.error fault, x'), s') := by
  have unfolded : exec (work >>= next) x s =
      ((ExceptT.bindCont next (exec work x s).1.1).run (exec work x s).1.2).run (exec work x s).2 := rfl
  rw [unfolded]
  rcases exec work x s with ⟨⟨_ | _, x'⟩, s'⟩ <;> rfl

theorem exec_bind_ok {work : Work ρ α} {x x' : ρ} {s s' : Store} {value : α}
    (ran : exec work x s = ((.ok value, x'), s')) (next : α → Work ρ β) :
    exec (work >>= next) x s = exec (next value) x' s' := by
  rw [exec_bind, ran]

theorem exec_bind_error {work : Work ρ α} {x x' : ρ} {s s' : Store} {fault : Fault}
    (ran : exec work x s = ((.error fault, x'), s')) (next : α → Work ρ β) :
    exec (work >>= next) x s = ((.error fault, x'), s') := by
  rw [exec_bind, ran]

theorem exec_perform (act : Action α) (x : ρ) (s : Store) :
    exec (perform act) x s = (((act.exec s).1, x), (act.exec s).2) := rfl

theorem exec_perform_of {act : Action α} {s s' : Store} {result : Except Fault α}
    (ran : act.exec s = (result, s')) (x : ρ) : exec (perform act) x s = ((result, x), s') := by
  rw [exec_perform, ran]

theorem exec_unfailing {effect : StateT ρ (StateM Store) α} {x x' : ρ} {s s' : Store} {value : α}
    (ran : (effect.run x).run s = ((value, x'), s')) :
    exec (unfailing effect) x s = ((.ok value, x'), s') := by
  have unfolded : exec (unfailing effect) x s =
      let after := (effect.run x).run s
      ((.ok after.1.1, after.1.2), after.2) := rfl
  rw [unfolded, ran]

theorem exec_ensuring (work : Work ρ α) (after : Work ρ Unit) (x : ρ) (s : Store) :
    exec (ensuring work after) x s =
      let (result, x', s') := ((exec work x s).1.1, (exec work x s).1.2, (exec work x s).2)
      let (ended, x'', s'') := ((exec after x' s').1.1, (exec after x' s').1.2, (exec after x' s').2)
      ((result >>= fun value => ended.map fun _ => value, x''), s'') := rfl

/-- Does nothing but come to a result, and maybe to another mind. -/
def saying (say : ρ → Except Fault α × ρ) : Work ρ α := ExceptT.mk (StateT.mk fun x => pure (say x))

@[simp] theorem exec_saying (say : ρ → Except Fault α × ρ) (x : ρ) (s : Store) :
    exec (saying say) x s = (say x, s) := rfl

/-! ### What work keeps -/

def Stays (I : ρ → Store → Prop) (work : Work ρ α) : Prop :=
  ∀ x s, I x s → I (exec work x s).1.2 (exec work x s).2

namespace Stays

variable {I J : ρ → Store → Prop} {work : Work ρ α}

theorem pure (value : α) : Stays I (Pure.pure value : Work ρ α) := fun _ _ holds => holds

theorem throw (fault : Fault) : Stays I (MonadExcept.throw fault : Work ρ α) := fun _ _ holds => holds

theorem bind {next : α → Work ρ β} (first : Stays I work) (rest : ∀ value, Stays I (next value)) :
    Stays I (work >>= next) := by
  intro x s holds
  rw [exec_bind]
  have between := first x s holds
  rcases ran : exec work x s with ⟨⟨fault | value, x'⟩, s'⟩
  · rw [ran] at between
    exact between
  · rw [ran] at between
    exact rest value x' s' between

theorem perform {act : Action α} (keeps : ∀ x s, I x s → I x (act.exec s).2) :
    Stays I (RecordFile.perform act : Work ρ α) := keeps

theorem attempt {next : Except Fault α → Work ρ β} (first : Stays I work)
    (rest : ∀ result, Stays I (next result)) : Stays I (RecordFile.attempt work next) :=
  fun x s holds => rest _ _ _ (first x s holds)

theorem ensuring {after : Work ρ Unit} (first : Stays I work) (last : Stays I after) :
    Stays I (RecordFile.ensuring work after) :=
  fun x s holds => last _ _ (first x s holds)

/-- What holds while the region is held may be another thing than what holds before and after. -/
theorem locked {h : Handle} {r : Region} {body : Work ρ α}
    (refused : ∀ x s fault s', I x s → (h.hold r).exec s = (.error fault, s') → I x s')
    (taken : ∀ x s s', I x s → (h.hold r).exec s = (.ok (), s') → J x s')
    (inside : Stays J body) (given : ∀ x s, J x s → I x ((h.letGo r).exec s).2) :
    Stays I (h.locked r body) := by
  intro x s holds
  rw [Handle.locked, exec_bind, exec_perform]
  rcases ran : (h.hold r).exec s with ⟨fault | ⟨⟩, s'⟩
  · exact refused x s fault s' holds ran
  · exact given _ _ (inside x s' (taken x s s' holds ran))

/-- Only what is held matters for `I`. -/
def Reads (I : ρ → Store → Prop) : Prop :=
  ∀ (x : ρ) (s s' : Store), s'.standing = s.standing → I x s → I x s'

theorem quiet (reads : Reads I) {act : Action α} (quiet : act.Quiet) :
    Stays I (RecordFile.perform act : Work ρ α) :=
  perform fun x s holds => reads x s _ (quiet s) holds

theorem editing {h : Handle} {r : Region}
    {body : Vector UInt8 r.len → Work ρ (Outcome α × Vector UInt8 r.len)} (reads : Reads J)
    (refused : ∀ x s fault s', I x s → (h.hold r).exec s = (.error fault, s') → I x s')
    (taken : ∀ x s s', I x s → (h.hold r).exec s = (.ok (), s') → J x s')
    (inside : ∀ bytes, Stays J (body bytes)) (given : ∀ x s, J x s → I x ((h.letGo r).exec s).2) :
    Stays I (h.editing r body) := by
  refine locked refused taken (bind (quiet reads h.keeps_position) fun saved =>
    ensuring (bind (quiet reads (h.quiet.readAt _ _)) fun bytes => ?_) (quiet reads (h.quiet.seek saved))) given
  split
  · refine bind (inside _) fun ended => ?_
    obtain ⟨outcome, edited⟩ := ended
    cases outcome with
    | keep value => exact pure value
    | commit value => exact bind (quiet reads (h.keeps_writeBack Store.blind_standing _ _)) fun _ => pure value
  · exact throw _

end Stays

/-! ### Work and plain actions -/

/-- The work does to the store what the action does, and gives what it gives. -/
def Mirrors (work : Work ρ α) (act : Action α) : Prop :=
  ∀ x s, ((exec work x s).1.1, (exec work x s).2) = act.exec s

namespace Mirrors

variable {work : Work ρ α} {act : Action α}

theorem pure (value : α) : Mirrors (Pure.pure value : Work ρ α) (Pure.pure value) := fun _ _ => rfl

theorem throw (fault : Fault) : Mirrors (MonadExcept.throw fault : Work ρ α) (MonadExcept.throw fault) :=
  fun _ _ => rfl

theorem perform (act : Action α) : Mirrors (RecordFile.perform act : Work ρ α) act := fun _ _ => rfl

theorem bind {next : α → Work ρ β} {next' : α → Action β} (first : Mirrors work act)
    (rest : ∀ value, Mirrors (next value) (next' value)) : Mirrors (work >>= next) (act >>= next') := by
  intro x s
  rw [exec_bind, Action.exec_bind, ← first x s]
  rcases exec work x s with ⟨⟨fault | value, x'⟩, s'⟩
  · rfl
  · exact rest value x' s'

/-- A check that may fail before the rest. -/
theorem checked {c : Prop} [Decidable c] {fault : Fault} (rest : Mirrors work act) :
    Mirrors (if c then (MonadExcept.throw fault : Work ρ Unit) >>= fun _ => work else work)
      (if c then (MonadExcept.throw fault : Action Unit) >>= fun _ => act else act) := by
  split
  · exact .bind (.throw fault) fun _ => rest
  · exact rest

theorem attempt {next : Except Fault α → Work ρ β} {next' : Except Fault α → Action β}
    (first : Mirrors work act) (rest : ∀ result, Mirrors (next result) (next' result)) :
    Mirrors (RecordFile.attempt work next) (RecordFile.attempt act next') := by
  intro x s
  rw [Action.exec_attempt, ← first x s]
  exact rest _ _ _

theorem ensuring {after : Work ρ Unit} {after' : Action Unit} (first : Mirrors work act)
    (last : Mirrors after after') :
    Mirrors (RecordFile.ensuring work after) (RecordFile.ensuring act after') := by
  intro x s
  have ended := last (exec work x s).1.2 (exec work x s).2
  have begun := first x s
  rw [Action.exec_ensuring begun.symm ended.symm]
  rfl

theorem locked {h : Handle} {r : Region} (inside : Mirrors work act) :
    Mirrors (h.locked r work) (h.locked r act) :=
  bind (perform _) fun _ => ensuring inside (perform _)

theorem editing {h : Handle} {r : Region}
    {body : Vector UInt8 r.len → Work ρ (Outcome α × Vector UInt8 r.len)}
    {body' : Vector UInt8 r.len → Action (Outcome α × Vector UInt8 r.len)}
    (inside : ∀ bytes, Mirrors (body bytes) (body' bytes)) :
    Mirrors (h.editing r body) (h.editing (m := StateM Store) r body') := by
  refine locked (bind (perform _) fun saved => ensuring (bind (perform _) fun bytes => ?_) (perform _))
  split
  · refine bind (inside _) fun ended => ?_
    obtain ⟨outcome, edited⟩ := ended
    cases outcome with
    | keep value => exact pure value
    | commit value => exact bind (perform _) fun _ => pure value
  · exact throw _

theorem reserveWith {h : Handle} {head : Nat} {body : TableHeader → Slot → Work ρ (Outcome α × TableHeader)}
    {body' : TableHeader → Slot → Action (Outcome α × TableHeader)}
    (inside : ∀ table slot, Mirrors (body table slot) (body' table slot)) :
    Mirrors (h.reserveWith head body) (h.reserveWith (m := StateM Store) head body') := by
  refine editing fun bytes => bind (perform _) fun table => bind ?_ fun record =>
    bind (perform _) fun offset => bind (perform _) fun fresh => bind (inside _ _) fun ended => pure _
  cases table.nextRecord with
  | ok record => exact pure record
  | error fault => exact throw fault

end Mirrors

end Work
end RecordFile
