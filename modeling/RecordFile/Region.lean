/-!
Ranges of bytes in a file, as locks see them. Main statements: two regions overlap exactly when they
share a byte, and taking one region from another leaves exactly the bytes outside it.
-/

namespace RecordFile

/-- The bytes `[offset, offset + len)`. -/
structure Region where
  offset : Nat
  len : Nat
  deriving DecidableEq, Inhabited

namespace Region

/-- The first byte past the region. -/
def stop (r : Region) : Nat := r.offset + r.len

instance : Membership Nat Region := ⟨fun r byte => r.offset ≤ byte ∧ byte < r.stop⟩

theorem mem_iff {byte : Nat} {r : Region} : byte ∈ r ↔ r.offset ≤ byte ∧ byte < r.stop := Iff.rfl

instance (byte : Nat) (r : Region) : Decidable (byte ∈ r) :=
  inferInstanceAs (Decidable (r.offset ≤ byte ∧ byte < r.stop))

/-- Whether the two regions reach into each other. -/
def Overlaps (a b : Region) : Prop := a.offset < b.stop ∧ b.offset < a.stop

instance (a b : Region) : Decidable (a.Overlaps b) :=
  inferInstanceAs (Decidable (a.offset < b.stop ∧ b.offset < a.stop))

/-- What is left of `a` outside `b`: at most a piece before it and a piece after it. -/
def minus (a b : Region) : List Region :=
  let before : Region := ⟨a.offset, min a.stop b.offset - a.offset⟩
  let after : Region := ⟨max a.offset b.stop, a.stop - max a.offset b.stop⟩
  [before, after].filter fun piece => piece.len ≠ 0

theorem overlaps_iff {a b : Region} (ha : a.len ≠ 0) (hb : b.len ≠ 0) :
    a.Overlaps b ↔ ∃ byte, byte ∈ a ∧ byte ∈ b := by
  simp only [Overlaps, mem_iff, stop]
  constructor
  · intro h
    exact ⟨max a.offset b.offset, by omega, by omega⟩
  · rintro ⟨byte, h, h'⟩
    omega

theorem mem_minus {a b : Region} {byte : Nat} :
    (∃ piece ∈ a.minus b, byte ∈ piece) ↔ byte ∈ a ∧ byte ∉ b := by
  simp only [minus, List.mem_filter, List.mem_cons, List.not_mem_nil, or_false,
    decide_eq_true_eq, mem_iff]
  constructor
  · rintro ⟨piece, ⟨rfl | rfl, _⟩, h⟩ <;> simp only [stop] at h ⊢ <;> omega
  · intro h
    by_cases before : byte < b.offset
    · refine ⟨_, ⟨.inl rfl, ?_⟩, ?_⟩ <;> simp only [stop] at h ⊢ <;> omega
    · refine ⟨_, ⟨.inr rfl, ?_⟩, ?_⟩ <;> simp only [stop] at h ⊢ <;> omega

end Region
end RecordFile
