import RecordFile.Store

/-!
Actions on a store. An action that fails keeps what it did to the store before it failed.
-/

namespace RecordFile

abbrev Action := ExceptT Fault (StateM Store)

/-- The value computed, or the fault that stands for the reason why there is none. -/
def orFault {ε α : Type} (result : Except ε α) (fault : ε → Fault) : Action α :=
  ExceptT.mk (pure (result.mapError fault))

variable {m : Type → Type} [Monad m] {α : Type}

/-- An action on the store, in a monad that may do more than that. -/
def perform [MonadLiftT (StateM Store) m] (act : Action α) : ExceptT Fault m α :=
  ExceptT.mk (monadLift act.run)

/-- An effect that cannot fail. -/
def unfailing (effect : m α) : ExceptT Fault m α :=
  ExceptT.mk (Except.ok <$> effect)

/-- Does `after` whether or not `op` fails. If both fail, the fault is that of `op`. -/
def ensuring (op : ExceptT Fault m α) (after : ExceptT Fault m Unit) : ExceptT Fault m α :=
  ExceptT.mk do
    let result ← op.run
    let ended ← after.run
    return result >>= fun value => ended.map fun _ => value

@[simp] theorem perform_eq (act : Action α) : (perform act : Action α) = act := rfl

end RecordFile
