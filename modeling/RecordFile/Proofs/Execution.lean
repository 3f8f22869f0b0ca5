import Mathlib
import RecordFile.Stream

/-! Running actions on a store. What an action of one handle leaves is told by the handle's own open
file, the bytes of its file and the locks; all else in the store is untouched. -/
namespace RecordFile

namespace Action

variable {α β : Type}

/-- What an action gives on a store, and the store after it. -/
def exec (act : Action α) (s : Store) : Except Fault α × Store := act.run.run s

@[simp] theorem exec_pure (value : α) (s : Store) : (pure value : Action α).exec s = (.ok value, s) :=
  rfl

@[simp] theorem exec_throw (fault : Fault) (s : Store) :
    (throw fault : Action α).exec s = (.error fault, s) := rfl

@[simp] theorem exec_get (s : Store) : (get : Action Store).exec s = (.ok s, s) := rfl

@[simp] theorem exec_set (s s' : Store) : (set s' : Action PUnit).exec s = (.ok ⟨⟩, s') := rfl

@[simp] theorem exec_modify (change : Store → Store) (s : Store) :
    (modify change : Action PUnit).exec s = (.ok ⟨⟩, change s) := rfl

theorem exec_bind (act : Action α) (next : α → Action β) (s : Store) :
    (act >>= next).exec s = match act.exec s with
      | (.ok value, s') => (next value).exec s'
      | (.error fault, s') => (.error fault, s') := by
  have unfolded : (act >>= next).exec s = ExceptT.bindCont next (act.exec s).1 (act.exec s).2 := rfl
  rw [unfolded]
  rcases act.exec s with ⟨_ | _, s'⟩ <;> rfl

theorem exec_bind_ok {act : Action α} {s s' : Store} {value : α} (ran : act.exec s = (.ok value, s'))
    (next : α → Action β) : (act >>= next).exec s = (next value).exec s' := by
  rw [exec_bind, ran]

theorem exec_bind_error {act : Action α} {s s' : Store} {fault : Fault}
    (ran : act.exec s = (.error fault, s')) (next : α → Action β) :
    (act >>= next).exec s = (.error fault, s') := by
  rw [exec_bind, ran]

theorem exec_tryCatch (act : Action α) (handler : Fault → Action α) (s : Store) :
    (tryCatch act handler).exec s = match act.exec s with
      | (.ok value, s') => (.ok value, s')
      | (.error fault, s') => (handler fault).exec s' := by
  unfold exec
  rw [ExceptT.run_tryCatch, StateT.run_bind]
  cases act.run.run s with
  | mk result s' => cases result <;> rfl

theorem exec_ensuring {act : Action α} {after : Action Unit} {s s' s'' : Store}
    {result : Except Fault α} {ended : Except Fault Unit} (ran : act.exec s = (result, s'))
    (ranAfter : after.exec s' = (ended, s'')) :
    Action.exec (ensuring act after) s = (result >>= fun value => ended.map fun _ => value, s'') := by
  have unfolded : Action.exec (ensuring act after) s =
      ((act.exec s).1 >>= fun value => (after.exec (act.exec s).2).1.map fun _ => value,
        (after.exec (act.exec s).2).2) := rfl
  rw [unfolded, ran, ranAfter]

@[simp] theorem exec_orFault_ok {ε : Type} (value : α) (fault : ε → Fault) (s : Store) :
    (orFault (.ok value) fault).exec s = (.ok value, s) := rfl

@[simp] theorem exec_orFault_error {ε : Type} (e : ε) (fault : ε → Fault) (s : Store) :
    (orFault (.error e) fault : Action α).exec s = (.error (fault e), s) := rfl

@[simp] theorem exec_liftExcept (result : Except Fault α) (s : Store) :
    (liftM result : Action α).exec s = (result, s) := by
  cases result <;> rfl

end Action

namespace Store

theorem openFile?_mapOpen (s : Store) (d d' : Nat) (change : OpenFile → OpenFile) :
    (s.mapOpen d change).openFile? d' =
      if d' = d then (s.openFile? d).map change else s.openFile? d' := by
  simp only [openFile?, mapOpen, List.getElem?_modify]
  by_cases same : d = d'
  · subst same
    simp only [if_true]
    cases s.opened[d]? with
    | none => rfl
    | some entry => cases entry <;> rfl
  · have other : ¬ d' = d := fun eq => same eq.symm
    simp [same, other]

/-- What is seen of an open file is changed by a change of it only that can be seen. -/
theorem map_openFile?_mapOpen {γ : Type} {look : OpenFile → γ} {change : OpenFile → OpenFile}
    (same : ∀ file, look (change file) = look file) (s : Store) (d d' : Nat) :
    ((s.mapOpen d' change).openFile? d).map look = (s.openFile? d).map look := by
  rw [openFile?_mapOpen]
  split
  case isTrue here =>
    subst here
    rw [Option.map_map]
    exact congrFun (congrArg Option.map (funext same)) _
  case isFalse => rfl

theorem openFile?_mapOpen_opened {s : Store} {d : Nat} {f : OpenFile} (opened : s.openFile? d = some f)
    (change : OpenFile → OpenFile) : (s.mapOpen d change).openFile? d = some (change f) := by
  rw [openFile?_mapOpen, if_pos rfl, opened, Option.map_some]

@[simp] theorem content?_mapOpen (s : Store) (d : Nat) (change : OpenFile → OpenFile) (l : Location) :
    (s.mapOpen d change).content? l = s.content? l := rfl

@[simp] theorem openFile?_put (s : Store) (l : Location) (c : Content) (d : Nat) :
    (s.put l c).openFile? d = s.openFile? d := rfl

theorem content?_put (s : Store) (l l' : Location) (c : Content) :
    (s.put l c).content? l' = if l' = l then some c else s.content? l' := by
  simp only [content?, put, List.lookup_cons]
  by_cases same : l' = l
  · simp [same]
  · have differ : (l' == l) = false := by simpa using same
    rw [differ, if_neg same]
    simp only
    induction s.files with
    | nil => rfl
    | cons entry rest ih =>
      by_cases hit : entry.1 = l
      · have keep : ¬ (entry.1 != l) = true := by simp [hit]
        have miss : (l' == entry.1) = false := by simpa [hit] using same
        rw [List.filter_cons, if_neg keep, ih, List.lookup_cons, miss]
      · have keep : (entry.1 != l) = true := by simpa using hit
        rw [List.filter_cons, if_pos keep, List.lookup_cons, List.lookup_cons, ih]

end Store

namespace Handle

/-- The handle's open file is `f`, and its bytes are `c`. -/
structure Sees (h : Handle) (s : Store) (f : OpenFile) (c : Content) : Prop where
  opened : s.openFile? h.descriptor = some f
  content : s.content? f.location = some c
  position : f.position ≤ maxOffset

/-- What an action of the handle leaves of `s`: its open file is now `f`, the bytes of that file are
`c` and the locks are `t`. Nothing else has changed. -/
structure Leaves (h : Handle) (s : Store) (f : OpenFile) (c : Content) (t : LockTable) (s' : Store) :
    Prop where
  sees : h.Sees s' f c
  locks : s'.locks = t
  others : ∀ d, d ≠ h.descriptor → s'.openFile? d = s.openFile? d
  files : ∀ l, l ≠ f.location → s'.content? l = s.content? l
  directories : s'.directories = s.directories

variable {h : Handle} {s s' s'' : Store} {f f' : OpenFile} {c c' : Content} {t t' : LockTable}

theorem Sees.unique (sees : h.Sees s f c) (sees' : h.Sees s f' c') : f = f' ∧ c = c' := by
  obtain rfl : f = f' := Option.some.inj (sees.opened.symm.trans sees'.opened)
  exact ⟨rfl, Option.some.inj (sees.content.symm.trans sees'.content)⟩

theorem Sees.leaves (sees : h.Sees s f c) : h.Leaves s f c s.locks s :=
  ⟨sees, rfl, fun _ _ => rfl, fun _ _ => rfl, rfl⟩

theorem Leaves.trans (first : h.Leaves s f c t s') (second : h.Leaves s' f' c' t' s'')
    (place : f'.location = f.location) : h.Leaves s f' c' t' s'' where
  sees := second.sees
  locks := second.locks
  others d ne := (second.others d ne).trans (first.others d ne)
  files l ne := (second.files l ne).trans (first.files l (place ▸ ne))
  directories := second.directories.trans first.directories

theorem Leaves.trans_quiet (first : h.Leaves s f c t s') (second : h.Leaves s' f' c' s'.locks s'')
    (place : f'.location = f.location) : h.Leaves s f' c' t s'' :=
  first.trans (first.locks ▸ second) place

theorem Sees.mapOpen (sees : h.Sees s f c) (change : OpenFile → OpenFile)
    (place : (change f).location = f.location) (position : (change f).position ≤ maxOffset) :
    h.Leaves s (change f) c s.locks (s.mapOpen h.descriptor change) where
  sees := by
    refine ⟨Store.openFile?_mapOpen_opened sees.opened change, ?_, position⟩
    rw [Store.content?_mapOpen, place]
    exact sees.content
  locks := rfl
  others d ne := by rw [Store.openFile?_mapOpen, if_neg ne]
  files _ _ := rfl
  directories := rfl

theorem Sees.put (sees : h.Sees s f c) (c' : Content) :
    h.Leaves s f c' s.locks (s.put f.location c') where
  sees := by
    refine ⟨sees.opened, ?_, sees.position⟩
    rw [Store.content?_put, if_pos rfl]
  locks := rfl
  others _ _ := rfl
  files l ne := by rw [Store.content?_put, if_neg ne]
  directories := rfl

end Handle
end RecordFile
