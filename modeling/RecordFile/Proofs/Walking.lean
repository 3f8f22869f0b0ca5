import Mathlib
import RecordFile.Chain
import RecordFile.Proofs.Chains
import RecordFile.Proofs.Streaming

/-! Walks in a proper layout. A walk visits exactly the blocks of the chain it starts in, and none of
its checks of a link can fail. -/
namespace RecordFile

/-- Visits blocks one after another until the visitor stops; `last` is the block before them. -/
def visitAll {α : Type} (visit : Header → Nat → α → ForInStep α) :
    Nat → List (Nat × Header) → α → Ending × α
  | last, [], seen => (.tail last, seen)
  | _, (offset, header) :: rest, seen =>
    match visit header offset seen with
    | .done seen => (.stopped offset, seen)
    | .yield seen => visitAll visit offset rest seen

namespace Layout.Proper

variable {settings : Settings} {L : Layout} {o : Nat} {b : Block} {e : Extent}

theorem next_fits (proper : L.Proper settings) (found : L.at? o = some b) (next : b.header.next = some e) :
    e.stop ≤ L.size := by
  obtain ⟨-, target, there, size⟩ := proper.forward found next
  have inside := at?_le there
  rw [Extent.stop, ← size]
  exact inside

/-- A link leads at least one chunk on. -/
theorem next_onward (proper : L.Proper settings) (found : L.at? o = some b) (next : b.header.next = some e)
    {steps : Nat} (progress : steps * settings.chunkSize.toNat ≤ o) :
    (steps + 1) * settings.chunkSize.toNat ≤ e.start := by
  obtain ⟨later, target, there, -⟩ := proper.forward found next
  obtain ⟨k, hk⟩ := proper.dvd_at? there
  have : steps * settings.chunkSize.toNat < k * settings.chunkSize.toNat := by
    rw [Nat.mul_comm k, ← hk]
    omega
  have := Nat.lt_of_mul_lt_mul_right this
  rw [hk, Nat.mul_comm _ k]
  exact Nat.mul_le_mul_right _ this

end Layout.Proper

namespace Handle

variable {h : Handle} {s : Store} {f : OpenFile} {c : Content} {L : Layout} {settings : Settings}

theorem exec_checkLink (sees : h.Sees s f c) (proper : L.Proper settings)
    (chunk : f.header.chunkSize = settings.chunkSize) {o : Nat} {b : Block} {e : Extent}
    (found : L.at? o = some b) (next : b.header.next = some e) {length : Nat} (fits : e.stop ≤ length) :
    (h.checkLink o e length).exec s = (.ok (), s) := by
  obtain ⟨-, target, there, -⟩ := proper.forward found next
  have aligned : (e.start % f.header.chunkSize.toNat == 0) = true := by
    rw [chunk, beq_iff_eq]
    exact Nat.mod_eq_zero_of_dvd (proper.dvd_at? there)
  rw [checkLink, Action.exec_bind_ok (exec_isAligned sees e.start), aligned]
  exact congrArg (Action.exec · s) (if_neg (Nat.not_lt.mpr fits))

theorem exec_unfailing_pure {α : Type} (value : α) (s : Store) :
    Action.exec (unfailing (m := StateM Store) (pure value)) s = (.ok value, s) := rfl

/-- No file has as many chunks as a walk has fuel. -/
theorem fuel_ne (proper : L.Proper settings) {o fuel steps : Nat} {b : Block}
    (found : L.at? o = some b) (progress : steps * settings.chunkSize.toNat ≤ o)
    (fuelled : maxOffset < fuel + steps) : fuel ≠ 0 := by
  have := Layout.at?_lt found
  have := proper.small
  have := proper.chunk_pos
  have : steps * 1 ≤ steps * settings.chunkSize.toNat := Nat.mul_le_mul_left _ (by omega)
  omega

/-- After `steps` links a walk is that many chunks into the file, so it may go on. -/
theorem exec_walkFrom {α : Type} (visit : Header → Nat → α → ForInStep α) (proper : L.Proper settings)
    (laid : c.LaidOut L) {o : Nat} {blocks : List (Nat × Header)} (chain : L.Chain o blocks)
    {s : Store} {f : OpenFile} (sees : h.Sees s f c) (chunk : f.header.chunkSize = settings.chunkSize)
    (start fuel steps last : Nat) (seen : α) (progress : steps * settings.chunkSize.toNat ≤ o)
    (fuelled : maxOffset < fuel + steps) :
    ∃ s' p, Action.exec (h.walkFrom (m := StateM Store) start
        (fun header offset seen => pure (visit header offset seen)) fuel steps c.size o seen) s =
          (.ok (visitAll visit last blocks seen), s') ∧
      h.Leaves s { f with position := p } c s.locks s' := by
  induction chain generalizing s f fuel steps last seen with
  | @tail o b found next =>
    obtain ⟨fuel, rfl⟩ := Nat.exists_eq_add_one_of_ne_zero (fuel_ne proper found progress fuelled)
    obtain ⟨s₁, p₁, ran₁, left₁⟩ := exec_readHeader sees laid proper.small found
    refine ⟨s₁, p₁, ?_, left₁⟩
    rw [walkFrom, perform_eq, Action.exec_bind_ok ran₁,
      Action.exec_bind_ok (exec_unfailing_pure (visit b.header o seen) s₁), visitAll]
    cases visit b.header o seen with
    | done seen => rfl
    | yield seen =>
      simp only [next]
      rfl
  | @link o b e rest found next chain ih =>
    obtain ⟨fuel, rfl⟩ := Nat.exists_eq_add_one_of_ne_zero (fuel_ne proper found progress fuelled)
    obtain ⟨s₁, p₁, ran₁, left₁⟩ := exec_readHeader sees laid proper.small found
    have further := proper.next_onward found next progress
    have fits : e.stop ≤ c.size := laid.size ▸ proper.next_fits found next
    have room : steps + 1 ≤ c.size / settings.chunkSize.toNat := by
      rw [Nat.le_div_iff_mul_le proper.chunk_some]
      exact further.trans ((Nat.le_add_right _ _).trans fits)
    rw [walkFrom, perform_eq, Action.exec_bind_ok ran₁,
      Action.exec_bind_ok (exec_unfailing_pure (visit b.header o seen) s₁), visitAll]
    cases visit b.header o seen with
    | done seen => exact ⟨s₁, p₁, rfl, left₁⟩
    | yield seen =>
      obtain ⟨s₂, p₂, ran₂, left₂⟩ :=
        ih left₁.sees chunk fuel (steps + 1) o seen further (by omega)
      refine ⟨s₂, p₂, ?_, left₁.trans_quiet left₂ rfl⟩
      simp only [next]
      rw [if_neg (Nat.not_lt.mpr fits)]
      refine (Action.exec_bind_ok (Action.exec_pure c.size s₁) _).trans ?_
      refine (Action.exec_bind_ok (exec_checkLink left₁.sees proper chunk found next fits) _).trans ?_
      refine (Action.exec_bind_ok (exec_chunkSize left₁.sees) _).trans ?_
      rw [chunk, if_neg (by omega)]
      exact ran₂

theorem exec_walk {α : Type} (visit : Header → Nat → α → ForInStep α) (sees : h.Sees s f c)
    (laid : c.LaidOut L) (proper : L.Proper settings) (chunk : f.header.chunkSize = settings.chunkSize)
    {o : Nat} {blocks : List (Nat × Header)} (chain : L.Chain o blocks) (seen : α) :
    ∃ s' p, Action.exec (h.walk (m := StateM Store) o seen
        fun header offset seen => pure (visit header offset seen)) s =
          (.ok (visitAll visit o blocks seen), s') ∧
      h.Leaves s { f with position := p } c s.locks s' := by
  obtain ⟨s', p, ran, left⟩ := exec_walkFrom visit proper laid chain sees chunk o (maxOffset + 1) 0 o seen
    (by omega) (by omega)
  refine ⟨s', p, ?_, left⟩
  rw [walk, perform_eq]
  exact (Action.exec_bind_ok (exec_length sees) _).trans ran

end Handle
end RecordFile
