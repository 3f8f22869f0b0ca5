/-!
The bytes of a file. Main statements: what reading, writing and resizing do to the list of bytes.
-/

namespace RecordFile

structure Content where
  bytes : ByteArray

namespace Content

def toList (c : Content) : List UInt8 := c.bytes.data.toList

def size (c : Content) : Nat := c.bytes.size

def empty : Content := ⟨ByteArray.empty⟩

instance : Inhabited Content := ⟨empty⟩

def ofList (bytes : List UInt8) : Content := ⟨bytes.toByteArray⟩

/-- The bytes from `offset` on, at most `count` of them, as far as the file reaches. -/
def read (c : Content) (offset count : Nat) : List UInt8 :=
  if offset < c.size then
    (c.bytes.extract offset (min (offset + count) c.size)).data.toList
  else
    []

/-- Cuts the file off, or fills it up with zeros. -/
def resize (c : Content) (size : Nat) : Content :=
  if size ≤ c.size then
    ⟨c.bytes.extract 0 size⟩
  else
    ⟨c.bytes ++ ⟨Array.replicate (size - c.size) 0⟩⟩

/-- Overwrites the bytes from `offset` on. A gap past the end is filled with zeros; no bytes leave
the file alone. -/
def write (c : Content) (offset : Nat) (bytes : List UInt8) : Content :=
  if bytes = [] then
    c
  else
    let c := if c.size < offset then c.resize offset else c
    ⟨c.bytes.extract 0 offset ++ bytes.toByteArray ++ c.bytes.extract (offset + bytes.length) c.size⟩

@[simp] theorem length_toList (c : Content) : c.toList.length = c.size := rfl

@[simp] theorem toList_ofList (bytes : List UInt8) : (ofList bytes).toList = bytes := by
  simp [ofList, toList]

theorem ext_toList {a b : Content} (h : a.toList = b.toList) : a = b := by
  cases a
  cases b
  exact congrArg mk (ByteArray.ext (Array.toList_inj.mp h))

private theorem toList_extract (b : ByteArray) (start stop : Nat) :
    (b.extract start stop).data.toList = (b.data.toList.drop start).take (stop - start) := by
  simp [ByteArray.data_extract, List.extract_eq_take_drop]

theorem toList_read (c : Content) (offset count : Nat) :
    c.read offset count = (c.toList.drop offset).take count := by
  unfold read
  split
  case isTrue h =>
    rw [toList_extract, ← toList]
    rcases Nat.le_total (offset + count) c.size with le | le
    · rw [Nat.min_eq_left le, Nat.add_sub_cancel_left]
    · rw [Nat.min_eq_right le, List.take_of_length_le (by simp), List.take_of_length_le (by simp; omega)]
  case isFalse h =>
    rw [List.drop_of_length_le (by simp; omega), List.take_nil]

theorem toList_resize (c : Content) (size : Nat) :
    (c.resize size).toList = c.toList.take size ++ List.replicate (size - c.size) 0 := by
  unfold resize
  split
  case isTrue h =>
    simp [toList, Nat.sub_eq_zero_of_le h]
  case isFalse h =>
    simp only [toList, ByteArray.data_append, Array.toList_append, Array.toList_replicate]
    rw [List.take_of_length_le]
    show c.size ≤ size
    omega

@[simp] theorem size_resize (c : Content) (size : Nat) : (c.resize size).size = size := by
  rw [← length_toList, toList_resize]
  simp only [List.length_append, List.length_take, List.length_replicate, length_toList]
  omega

theorem toList_write (c : Content) (offset : Nat) {bytes : List UInt8} (h : bytes ≠ []) :
    (c.write offset bytes).toList =
      c.toList.take offset ++ List.replicate (offset - c.size) 0 ++ bytes
        ++ c.toList.drop (offset + bytes.length) := by
  have splice (d : Content) :
      (⟨d.bytes.extract 0 offset ++ bytes.toByteArray
        ++ d.bytes.extract (offset + bytes.length) d.size⟩ : Content).toList
      = d.toList.take offset ++ bytes ++ d.toList.drop (offset + bytes.length) := by
    simp only [toList, ByteArray.data_append, Array.toList_append, toList_extract,
      List.toList_data_toByteArray, List.drop_zero, Nat.sub_zero]
    congr 1
    exact List.take_of_length_le (by simp [size, ← ByteArray.size_data])
  rw [write, if_neg h, splice]
  split
  case isTrue gap =>
    have short : c.toList.length ≤ offset := by simp; omega
    have past : (c.resize offset).toList.length = offset := by simp
    rw [List.take_of_length_le (Nat.le_of_eq past), toList_resize, List.take_of_length_le short]
    rw [List.drop_of_length_le (by simp; omega), List.drop_of_length_le (by simp; omega)]
  case isFalse near =>
    have noGap : offset - c.size = 0 := by omega
    simp [noGap]

@[simp] theorem write_nil (c : Content) (offset : Nat) : c.write offset [] = c := rfl

end Content
end RecordFile
