import EventScript.Rom.Record

/-! # Reading records one behind the other

Records of one size are read in a loop that goes on as long as there is room for another one. A record is then
never too short, so that the loop gives all of them: as many as fit into the bytes, each from its place.
-/

namespace EventScript

theorem firstBytes?_eq_some_iff {n : Nat} {data : Bytes} {d : Vector UInt8 n} :
    firstBytes? n data = some d ↔ n ≤ data.size ∧ d.toArray = data.extract 0 n := by
  unfold firstBytes?
  split
  · rename_i long
    simp only [Option.some.injEq, ← Vector.toArray_inj, eq_comm, long, true_and]
  · rename_i short
    simp [short]

theorem exists_firstBytes? {n : Nat} {data : Bytes} (long : n ≤ data.size) :
    ∃ d, firstBytes? n data = some d :=
  ⟨_, dif_pos long⟩

theorem firstBytes?_of_size {n : Nat} {data : Bytes} (size : data.size = n) :
    firstBytes? n data = some ⟨data, size⟩ := by
  subst size
  simp [firstBytes?]

/-! ## All records at once -/

/-- The records of `n` bytes that stand one behind the other. Bytes that do not fill a record are
    left over. -/
def fixedRecords {α : Type} (n : Nat) (read : Vector UInt8 n → α) (data : Bytes) : List α :=
  List.ofFn fun i : Fin (data.size / n) =>
    read ⟨data.extract (i * n) (i * n + n), by
      have h : (i + 1) * n ≤ data.size :=
        Nat.le_trans (Nat.mul_le_mul_right n i.isLt) (Nat.div_mul_le_self ..)
      have e : (i + 1) * n = i * n + n := Nat.succ_mul ..
      simp
      omega⟩

section Records

variable {α : Type} {n : Nat} {read : Vector UInt8 n → α} {data : Bytes}

@[simp] theorem length_fixedRecords (data : Bytes) : (fixedRecords n read data).length = data.size / n :=
  List.length_ofFn

theorem fixedRecords_of_short (short : data.size < n) : fixedRecords n read data = [] := by
  apply List.eq_nil_of_length_eq_zero
  rw [length_fixedRecords, Nat.div_eq_of_lt short]

/-- The record at an index is the first one of the bytes from its place on. -/
theorem getElem?_fixedRecords {i : Nat} (inside : i < data.size / n) :
    ∃ d, firstBytes? n (data.extract (n * i) data.size) = some d ∧
      (fixedRecords n read data)[i]? = some (read d) := by
  have fits : n * i + n ≤ data.size := by
    have := Nat.mul_le_of_le_div n (i + 1) data.size inside
    rwa [Nat.add_one_mul, Nat.mul_comm] at this
  have listed : i < (fixedRecords n read data).length := by rwa [length_fixedRecords]
  rw [List.getElem?_eq_getElem listed]
  simp only [fixedRecords, List.getElem_ofFn]
  refine ⟨_, firstBytes?_eq_some_iff.mpr ⟨?_, ?_⟩, rfl⟩
  · rw [Array.size_extract]
    omega
  · rw [Array.extract_extract, Nat.add_zero, Nat.min_eq_left fits, Nat.mul_comm n i]

/-- A record of a part of the stream is read from the bytes at its place in the stream. -/
theorem fixedRecords_extract {start len i : Nat} {a : α} (inside : start + len ≤ data.size)
    (h : (fixedRecords n read (data.extract start (start + len)))[i]? = some a) :
    (firstBytes? n (data.extract (start + n * i) (start + n * i + n))).map read = some a := by
  obtain ⟨bound, rfl⟩ := List.getElem?_eq_some_iff.mp h
  have size : (data.extract start (start + len)).size = len := by
    rw [Array.size_extract]
    omega
  rw [length_fixedRecords, size] at bound
  have fits : n * i + n ≤ len := by
    have := Nat.mul_le_of_le_div n (i + 1) len bound
    rwa [Nat.add_one_mul, Nat.mul_comm] at this
  have piece : (data.extract (start + n * i) (start + n * i + n)).size = n := by
    rw [Array.size_extract]
    omega
  rw [firstBytes?_of_size piece]
  simp only [fixedRecords, List.getElem_ofFn, Option.map_some, Option.some.injEq]
  congr 2
  rw [Array.extract_extract, Nat.mul_comm i n]
  congr 1
  omega

/-- The first record and those behind it. -/
theorem fixedRecords_append (positive : 0 < n) (d : Vector UInt8 n) (rest : Bytes) :
    fixedRecords n read (d.toArray ++ rest) = read d :: fixedRecords n read rest := by
  apply List.ext_getElem
  · rw [List.length_cons, length_fixedRecords, length_fixedRecords, Array.size_append, d.size_toArray,
      Nat.add_div_left _ positive]
  · intro i _ _
    cases i with
    | zero =>
        simp only [fixedRecords, List.getElem_ofFn, List.getElem_cons_zero]
        congr 1
        apply Vector.toArray_inj.mp
        simp [Array.extract_append]
    | succ i =>
        simp only [fixedRecords, List.getElem_ofFn, List.getElem_cons_succ]
        congr 2
        have before : n ≤ (i + 1) * n := Nat.le_mul_of_pos_left n (Nat.zero_lt_succ i)
        have start : (i + 1) * n - n = i * n := by rw [Nat.add_one_mul, Nat.add_sub_cancel]
        have stop : (i + 1) * n + n - n = i * n + n := by rw [Nat.add_one_mul, Nat.add_sub_cancel]
        rw [Array.extract_append, d.size_toArray, start, stop,
          Array.extract_empty_of_size_le_start (by rwa [d.size_toArray]), Array.empty_append]

/-- Bytes that start with a record are the record and what is behind it. -/
theorem eq_append_of_firstBytes? {d : Vector UInt8 n} (first : firstBytes? n data = some d) :
    data = d.toArray ++ data.extract n data.size := by
  obtain ⟨long, same⟩ := firstBytes?_eq_some_iff.mp first
  rw [same, Array.extract_append_extract, Nat.min_eq_left (Nat.zero_le n), Nat.max_eq_right long,
    Array.extract_size]

end Records

/-! ## The loop -/

namespace RecordKind

variable {α : Type} (kind : RecordKind α)

/-- From any offset on, the loop gives the records of the bytes behind it. -/
theorem listFrom_eq (data : Bytes) (start : Nat) :
    kind.listFrom data start = .ok (fixedRecords kind.size kind.read (data.extract start data.size)) := by
  have size (start : Nat) : (data.extract start data.size).size = data.size - start := by
    rw [Array.size_extract, Nat.min_self]
  fun_induction kind.listFrom data start with
  -- There is room for a record, so that it can be read.
  | case1 start room unread =>
      obtain ⟨d, first⟩ := @exists_firstBytes? kind.size (data.extract start data.size) (by rw [size]; omega)
      rw [ofBytes?, first] at unread
      cases unread
  | case2 start room a read rest listed ih =>
      obtain ⟨d, first, rfl⟩ := Option.map_eq_some_iff.mp read
      have behind : (data.extract start data.size).extract kind.size (data.extract start data.size).size =
          data.extract (start + kind.size) data.size := by
        rw [Array.extract_extract, size]
        congr 1
        omega
      rw [eq_append_of_firstBytes? first, fixedRecords_append kind.size_pos, behind]
      cases ih.symm.trans listed
      rfl
  | case3 start room a read e failed ih => cases ih.symm.trans failed
  | case4 start room =>
      have := kind.size_pos
      rw [fixedRecords_of_short (by rw [size]; omega)]

/-- Reading all records never fails. -/
theorem listOfBytes_eq (data : Bytes) :
    kind.listOfBytes data = .ok (fixedRecords kind.size kind.read data) := by
  rw [listOfBytes, listFrom_eq, Array.extract_size]

end RecordKind

end EventScript
