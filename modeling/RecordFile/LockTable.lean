import RecordFile.Location
import RecordFile.Region

/-!
The system's record of who holds which bytes of which file. Locks belong to the handle that took
them: regions of one owner merge, and unlocking takes exactly the given bytes from all that the owner
holds. Main statements: the bytes owned after each change.
-/

namespace RecordFile

/-- Bytes of a file locked for the handle with descriptor `owner`. -/
structure Lock where
  owner : Nat
  file : Location
  region : Region
  deriving DecidableEq

structure LockTable where
  entries : List Lock := []
  deriving DecidableEq, Inhabited

namespace LockTable

/-- Whether `owner` holds the byte. -/
def Owns (t : LockTable) (owner byte : Nat) : Prop :=
  ∃ l ∈ t.entries, l.owner = owner ∧ byte ∈ l.region

/-- Whether another owner holds a byte of the region. -/
def contended (t : LockTable) (owner : Nat) (file : Location) (region : Region) : Bool :=
  t.entries.any fun l => decide (l.file = file ∧ l.owner ≠ owner ∧ l.region.Overlaps region)

def add (t : LockTable) (owner : Nat) (file : Location) (region : Region) : LockTable :=
  ⟨{ owner, file, region } :: t.entries⟩

/-- Takes the region's bytes from everything the owner holds. -/
def remove (t : LockTable) (owner : Nat) (region : Region) : LockTable :=
  ⟨t.entries.flatMap fun l =>
    if l.owner = owner then (l.region.minus region).map fun piece => { l with region := piece }
    else [l]⟩

/-- Drops everything the owner holds. -/
def forget (t : LockTable) (owner : Nat) : LockTable :=
  ⟨t.entries.filter fun l => l.owner ≠ owner⟩

theorem owns_add {t : LockTable} {owner other byte : Nat} {file : Location} {region : Region} :
    (t.add owner file region).Owns other byte ↔
      (other = owner ∧ byte ∈ region) ∨ t.Owns other byte := by
  simp [Owns, add, eq_comm]

theorem owns_remove {t : LockTable} {owner other byte : Nat} {region : Region} :
    (t.remove owner region).Owns other byte ↔
      t.Owns other byte ∧ (other = owner → byte ∉ region) := by
  simp only [Owns, remove, List.mem_flatMap]
  constructor
  · rintro ⟨l, ⟨source, hs, hl⟩, rfl, hb⟩
    split at hl
    case isTrue same =>
      obtain ⟨piece, hp, rfl⟩ := List.mem_map.mp hl
      have ⟨inside, outside⟩ := Region.mem_minus.mp ⟨piece, hp, hb⟩
      exact ⟨⟨source, hs, rfl, inside⟩, fun _ => outside⟩
    case isFalse differ =>
      obtain rfl := List.mem_singleton.mp hl
      exact ⟨⟨l, hs, rfl, hb⟩, fun same => absurd same differ⟩
  · rintro ⟨⟨source, hs, rfl, hb⟩, outside⟩
    by_cases same : source.owner = owner
    · obtain ⟨piece, hp, hb⟩ := Region.mem_minus.mpr ⟨hb, outside same⟩
      refine ⟨{ source with region := piece }, ⟨source, hs, ?_⟩, rfl, hb⟩
      rw [if_pos same]
      exact List.mem_map.mpr ⟨piece, hp, rfl⟩
    · exact ⟨source, ⟨source, hs, by simp [same]⟩, rfl, hb⟩

end LockTable
end RecordFile
