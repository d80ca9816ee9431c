import EventScript.Proofs.LocationTables

/-! # Ranges that pointer tables delimit

A table is read exactly if it is there and its pointers do not fall. Each range then ends where the next one
starts, so that the ranges cut the bytes between the first and the last pointer into pieces. Since no range
ends before it starts, its bytes can be had from any byte string that is long enough. All of this is so as long as
the last pointer leads to a place that 64 bits can hold; a range that ends behind it is taken for one that
ends before it starts.
-/

namespace EventScript.PointerTable

/-! ## Pointers that do not fall -/

/-- The pointer at an index. -/
def pointerOf (data : Bytes) (i : Nat) : Nat :=
  pair (data.getD (2 * i) 0) (data.getD (2 * i + 1) 0)

/-- None of the first `k` pointers is below the one before it. -/
def IsRising (data : Bytes) (k : Nat) : Prop :=
  ∀ i, i + 1 < k → pointerOf data i ≤ pointerOf data (i + 1)

instance (data : Bytes) (k : Nat) : Decidable (IsRising data k) :=
  decidable_of_iff (∀ i, i < k - 1 → pointerOf data i ≤ pointerOf data (i + 1))
    ⟨fun h i inside => h i (by omega), fun h i inside => h i (by omega)⟩

/-- The pointer behind index `i` is the first of `k` pointers that is below the one before it. -/
structure FallsFirst (data : Bytes) (k i : Nat) : Prop where
  inside : i + 1 < k
  falls : pointerOf data (i + 1) < pointerOf data i
  before : ∀ j, j < i → pointerOf data j ≤ pointerOf data (j + 1)

/-- The ranges between `m + 1` pointers that do not fall. -/
def rangesOf (data : Bytes) (m : Nat) (offset : Int) : List Span :=
  (List.range' 0 m).map (spanAt offset (pointerOf data))

theorem pointerOf_lt (data : Bytes) (i : Nat) : pointerOf data i < 0x10000 := by
  have low := (data.getD (2 * i) 0).toNat_lt
  have high := (data.getD (2 * i + 1) 0).toNat_lt
  simp only [pointerOf, pair]
  omega

section Read

variable {data : Bytes} {m : Nat}

theorem read_of_long (offset : Int) (counted : m + 1 < 0x4000000000000000) (long : 2 * (m + 1) ≤ data.size) :
    read data (m + 1 : Nat) offset = spans data offset 0 m := by
  have needed : wrap64 ((m + 1 : Nat) * 2) = (m + 1 : Nat) * 2 := wrap64_of_fits (by omega) (by omega)
  rw [read, needed, if_neg (by omega), if_neg (by omega), if_neg (by unfold maxPointers; omega)]
  congr 1

theorem pointerAt?_of_long (long : 2 * (m + 1) ≤ data.size) (i : Nat) (_ : 0 ≤ i) (high : i ≤ 0 + m) :
    pointerAt? data i = some (pointerOf data i) :=
  pointerAt?_eq_some (by omega)

theorem read_of_rising (offset : Int) (counted : m + 1 < 0x4000000000000000) (long : 2 * (m + 1) ≤ data.size)
    (rising : IsRising data (m + 1)) : read data (m + 1 : Nat) offset = .ok (rangesOf data m offset) := by
  rw [read_of_long offset counted long]
  exact spans_of_rising (pointerAt?_of_long long) fun i _ high => rising i (by omega)

theorem read_of_not_rising (offset : Int) (counted : m + 1 < 0x4000000000000000)
    (long : 2 * (m + 1) ≤ data.size) (falling : ¬ IsRising data (m + 1)) :
    ∃ i, FallsFirst data (m + 1) i ∧
      read data (m + 1 : Nat) offset =
        .error (.decreasing (i + 1) (pointerOf data (i + 1)) (pointerOf data i)) := by
  have somewhere : ∃ i, 0 ≤ i ∧ i < 0 + m ∧ pointerOf data (i + 1) < pointerOf data i := by
    simp only [IsRising, Classical.not_forall, Nat.not_le] at falling
    obtain ⟨i, high, falls⟩ := falling
    exact ⟨i, by omega, by omega, falls⟩
  obtain ⟨i, _, high, falls, before, failed⟩ :=
    @spans_of_falling data offset _ 0 m (pointerAt?_of_long long) somewhere
  exact ⟨i, ⟨by omega, falls, fun j low => before j (Nat.zero_le j) low⟩,
    (read_of_long offset counted long).trans failed⟩

theorem read_of_short (offset : Int) (counted : m + 1 < 0x4000000000000000)
    (short : ¬ 2 * (m + 1) ≤ data.size) :
    read data (m + 1 : Nat) offset = .error (.short ((m + 1 : Nat) * 2) data.size) := by
  have needed : wrap64 ((m + 1 : Nat) * 2) = (m + 1 : Nat) * 2 := wrap64_of_fits (by omega) (by omega)
  rw [read, needed, if_neg (by omega), if_pos (by omega)]

/-- So many pointers take more bytes than can be counted, which looks like no bytes at all. -/
theorem read_of_many (offset : Int) (many : 0x4000000000000000 ≤ m + 1) (counted : m + 1 < 0x8000000000000000) :
    read data (m + 1 : Nat) offset = .error .outOfBounds := by
  have needed : wrap64 ((m + 1 : Nat) * 2) = (m + 1 : Nat) * 2 - 0x10000000000000000 :=
    wrap64_of_ge (by omega) (by omega)
  rw [read, needed, if_neg (by omega), if_neg (by omega), if_pos (by unfold maxPointers; omega)]

theorem read_eq_ok_iff {offset : Int} (counted : m + 1 < 0x4000000000000000) {ranges : List Span} :
    read data (m + 1 : Nat) offset = .ok ranges ↔
      (2 * (m + 1) ≤ data.size ∧ IsRising data (m + 1)) ∧ ranges = rangesOf data m offset := by
  by_cases long : 2 * (m + 1) ≤ data.size
  · by_cases rising : IsRising data (m + 1)
    · rw [read_of_rising offset counted long rising]
      simp only [Except.ok.injEq, long, rising, true_and, eq_comm]
    · obtain ⟨_, _, failed⟩ := read_of_not_rising offset counted long rising
      rw [failed]
      simp only [reduceCtorEq, rising, and_false, false_and]
  · rw [read_of_short offset counted long]
    simp only [reduceCtorEq, long, false_and]

theorem read_eq_outOfBounds_iff (offset : Int) (counted : m + 1 < 0x8000000000000000) :
    read data (m + 1 : Nat) offset = .error .outOfBounds ↔ 0x4000000000000000 ≤ m + 1 := by
  by_cases many : 0x4000000000000000 ≤ m + 1
  · simp only [read_of_many offset many counted, many]
  · have few : m + 1 < 0x4000000000000000 := Nat.not_le.mp many
    by_cases long : 2 * (m + 1) ≤ data.size
    · by_cases rising : IsRising data (m + 1)
      · rw [read_of_rising offset few long rising]
        simp only [reduceCtorEq, many]
      · obtain ⟨_, _, failed⟩ := read_of_not_rising offset few long rising
        rw [failed]
        simp only [Except.error.injEq, reduceCtorEq, many]
    · rw [read_of_short offset few long]
      simp only [Except.error.injEq, reduceCtorEq, many]

end Read

/-! ## Ranges one behind the other -/

/-- The sum of the lengths. -/
def totalLen : List Span → Int
  | [] => 0
  | s :: rest => s.len + totalLen rest

section Ranges

variable {p : Nat → Nat} {offset i : Nat}

theorem totalLen_spanAt (offset : Int) (start m : Nat) :
    totalLen ((List.range' start m).map (spanAt offset p)) = p (start + m) - p start := by
  induction m generalizing start with
  | zero => simp [totalLen]
  | succ m ih =>
      rw [List.range'_succ, List.map_cons, totalLen, ih, Nat.add_right_comm, spanAt]
      simp only [Nat.add_assoc]
      omega

theorem spanAt_natCast (rises : p i ≤ p (i + 1)) (fits : offset + p i < 0x8000000000000000) :
    spanAt offset p i = ⟨(offset + p i : Nat), (p (i + 1) - p i : Nat)⟩ := by
  have placed : wrap64 (offset + p i) = (offset + p i : Nat) := wrap64_of_fits (by omega) (by omega)
  simp only [spanAt, placed, Int.ofNat_sub rises]

theorem slice_spanAt (rises : p i ≤ p (i + 1)) (fits : offset + p (i + 1) < 0x8000000000000000) (d : Bytes) :
    (spanAt offset p i).slice d =
      if offset + p (i + 1) ≤ d.size then .ok (d.extract (offset + p i) (offset + p (i + 1)))
      else .error (.outside (spanAt offset p i) d.size) := by
  have stop : offset + p i + (p (i + 1) - p i) = offset + p (i + 1) := by omega
  rw [spanAt_natCast rises (by omega), Span.slice_natCast (by omega), stop]

/-- A range that ends behind what 64 bits can hold is taken for one that ends before it starts. -/
theorem slice_spanAt_of_large (rises : p i ≤ p (i + 1)) (fits : offset + p i < 0x8000000000000000)
    (large : 0x8000000000000000 ≤ offset + p (i + 1)) (small : p (i + 1) < 0x10000) (d : Bytes) :
    (spanAt offset p i).slice d = .error .outOfBounds := by
  have stop : (spanAt offset p i).stop = (offset + p (i + 1) : Nat) - 0x10000000000000000 := by
    have whole : ((offset + p i : Nat) : Int) + (p (i + 1) - p i : Nat) = (offset + p (i + 1) : Nat) := by omega
    rw [spanAt_natCast rises fits, Span.stop, whole]
    exact wrap64_of_ge (by omega) (by omega)
  have addr : (spanAt offset p i).addr = (offset + p i : Nat) := by rw [spanAt_natCast rises fits]
  have none : d.slice? (spanAt offset p i).addr ((offset + p (i + 1) : Nat) - 0x10000000000000000) = none :=
    if_neg (by omega)
  rw [Span.slice_of_stop stop, if_neg (by omega), none]

theorem le_of_rising {start m : Nat} (rising : ∀ i, start ≤ i → i < start + m → p i ≤ p (i + 1)) :
    p start ≤ p (start + m) := by
  induction m with
  | zero => exact Nat.le_refl _
  | succ m ih =>
      have front := ih fun i low high => rising i low (by omega)
      exact Nat.le_trans front (rising (start + m) (by omega) (by omega))

/-- The bytes of the ranges are the bytes from the first pointer up to the last. -/
theorem flatMap_slices {d : Bytes} {start m : Nat} {slices : List Bytes}
    (rising : ∀ i, start ≤ i → i < start + m → p i ≤ p (i + 1))
    (fits : offset + p (start + m) < 0x8000000000000000)
    (sliced : ((List.range' start m).map (spanAt offset p)).map (·.slice d) = slices.map .ok) :
    slices.flatMap Array.toList = (d.extract (offset + p start) (offset + p (start + m))).toList := by
  induction m generalizing start slices with
  | zero =>
      have none : slices = [] := by simpa using sliced.symm
      rw [none]
      simp
  | succ m ih =>
      cases slices with
      | nil => simp [List.range'_succ] at sliced
      | cons first rest =>
          rw [List.range'_succ, List.map_cons, List.map_cons, List.map_cons, List.cons.injEq] at sliced
          obtain ⟨here, behind⟩ := sliced
          have rises := rising start (by omega) (by omega)
          have later : ∀ i, start + 1 ≤ i → i < start + 1 + m → p i ≤ p (i + 1) :=
            fun i low high => rising i (by omega) (by omega)
          have last := le_of_rising later
          have step : start + (m + 1) = start + 1 + m := by omega
          rw [step] at fits ⊢
          rw [slice_spanAt rises (by omega)] at here
          split at here
          · cases here
            rw [List.flatMap_cons, ih later fits behind, ← Array.toList_append, Array.extract_append_extract,
              Nat.min_eq_left (by omega), Nat.max_eq_right (by omega)]
          · cases here

end Ranges

/-- The ranges cut the bytes between the first and the last of `k` pointers into pieces. -/
structure Partitions (data : Bytes) (k offset : Nat) (ranges : List Span) : Prop where
  length_eq : ranges.length = k - 1
  placed : ∀ (i : Nat) s, ranges[i]? = some s → s.addr = offset + pointerOf data i ∧ 0 ≤ s.len ∧
    s.addr + s.len = offset + pointerOf data (i + 1)
  joined : ∀ (i : Nat) s t, ranges[i]? = some s → ranges[i + 1]? = some t → s.addr + s.len = t.addr
  total : totalLen ranges = pointerOf data (k - 1) - pointerOf data 0
  slice_inside : ∀ s ∈ ranges, ∀ d : Bytes, s.slice d ≠ .error .outOfBounds
  slice_fails_iff : ∀ s ∈ ranges, ∀ d : Bytes, (∃ e, s.slice d = .error e) ↔ d.size < s.addr + s.len
  /-- Where the bytes of all ranges can be had, they are those between the two pointers. -/
  slices_join : ∀ (d : Bytes) (slices : List Bytes), ranges.map (·.slice d) = slices.map .ok →
    slices.flatMap Array.toList =
      (d.extract (offset + pointerOf data 0) (offset + pointerOf data (k - 1))).toList

section Partition

variable {data : Bytes} {m offset i : Nat}

theorem eq_of_getElem?_rangesOf {s : Span} (found : (rangesOf data m offset)[i]? = some s) :
    i < m ∧ s = spanAt offset (pointerOf data) i := by
  rw [rangesOf, List.getElem?_map, Option.map_eq_some_iff] at found
  obtain ⟨j, listed, rfl⟩ := found
  simp only [List.getElem?_eq_some_iff, List.length_range', List.getElem_range', Nat.zero_add,
    Nat.one_mul] at listed
  obtain ⟨inside, rfl⟩ := listed
  exact ⟨inside, rfl⟩

theorem exists_of_mem_rangesOf {s : Span} (listed : s ∈ rangesOf data m offset) :
    ∃ i, i < m ∧ s = spanAt offset (pointerOf data) i := by
  obtain ⟨i, found⟩ := List.mem_iff_getElem?.mp listed
  exact ⟨i, eq_of_getElem?_rangesOf found⟩

theorem getElem?_rangesOf (inside : i < m) :
    (rangesOf data m offset)[i]? = some (spanAt offset (pointerOf data) i) := by
  rw [rangesOf, List.getElem?_map, List.getElem?_range' inside, Option.map_some, Nat.zero_add, Nat.one_mul]

theorem IsRising.le_last (rising : IsRising data (m + 1)) (inside : i ≤ m) :
    pointerOf data i ≤ pointerOf data m := by
  have last := @le_of_rising (pointerOf data) i (m - i) fun j low high => rising j (by omega)
  rwa [Nat.add_sub_cancel' inside] at last

section Fits

variable (rising : IsRising data (m + 1)) (fits : offset + pointerOf data m < 0x8000000000000000)

include rising fits

theorem spanAt_of_lt (inside : i < m) :
    spanAt offset (pointerOf data) i =
      ⟨(offset + pointerOf data i : Nat), (pointerOf data (i + 1) - pointerOf data i : Nat)⟩ := by
  have last := rising.le_last (Nat.le_of_lt inside)
  exact spanAt_natCast (rising i (by omega)) (by omega)

theorem stop_spanAt (inside : i < m) :
    (spanAt offset (pointerOf data) i).addr + (spanAt offset (pointerOf data) i).len =
      offset + pointerOf data (i + 1) := by
  have rises := rising i (by omega)
  rw [spanAt_of_lt rising fits inside]
  dsimp only
  omega

theorem slice_of_lt (inside : i < m) (d : Bytes) :
    (spanAt offset (pointerOf data) i).slice d =
      if offset + pointerOf data (i + 1) ≤ d.size then
        .ok (d.extract (offset + pointerOf data i) (offset + pointerOf data (i + 1)))
      else .error (.outside (spanAt offset (pointerOf data) i) d.size) := by
  have last := @IsRising.le_last data m (i + 1) rising (by omega)
  exact slice_spanAt (rising i (by omega)) (by omega) d

theorem partitions_of_fits : Partitions data (m + 1) offset (rangesOf data m offset) where
  length_eq := by rw [rangesOf, List.length_map, List.length_range', Nat.add_sub_cancel]
  placed i s found := by
    obtain ⟨inside, rfl⟩ := eq_of_getElem?_rangesOf found
    have stop := stop_spanAt rising fits inside
    rw [spanAt_of_lt rising fits inside] at stop ⊢
    exact ⟨Int.natCast_add .., Int.natCast_nonneg _, stop⟩
  joined i s t found next := by
    obtain ⟨inside, rfl⟩ := eq_of_getElem?_rangesOf found
    obtain ⟨inside', rfl⟩ := eq_of_getElem?_rangesOf next
    rw [stop_spanAt rising fits inside, spanAt_of_lt rising fits inside', Int.natCast_add]
  total := by
    rw [rangesOf, totalLen_spanAt, Nat.zero_add, Nat.add_sub_cancel]
  slice_inside s listed d := by
    obtain ⟨i, inside, rfl⟩ := exists_of_mem_rangesOf listed
    rw [slice_of_lt rising fits inside]
    split <;> simp
  slice_fails_iff s listed d := by
    obtain ⟨i, inside, rfl⟩ := exists_of_mem_rangesOf listed
    rw [slice_of_lt rising fits inside, stop_spanAt rising fits inside]
    split
    · simp only [reduceCtorEq, exists_false, false_iff]
      omega
    · simp only [Except.error.injEq, exists_eq', true_iff]
      omega
  slices_join d slices sliced := by
    have joined := flatMap_slices (fun i _ high => rising i (by omega)) (by rwa [Nat.zero_add]) sliced
    rwa [Nat.zero_add] at joined

end Fits

/-- Without ranges there is nothing to be said of them. -/
theorem partitions_of_one : Partitions data 1 offset (rangesOf data 0 offset) where
  length_eq := rfl
  placed _ _ found := nomatch found
  joined _ _ _ found := nomatch found
  total := by rw [rangesOf, totalLen_spanAt]
  slice_inside _ listed := nomatch listed
  slice_fails_iff _ listed := nomatch listed
  slices_join d slices sliced := by
    have none : slices = [] := by simpa [rangesOf] using sliced.symm
    rw [none]
    simp

/-- The last range tells whether the table leads to places that 64 bits can hold. -/
theorem fits_of_partitions (rising : IsRising data (m + 2)) (counted : offset < 0x8000000000000000)
    (h : Partitions data (m + 2) offset (rangesOf data (m + 1) offset)) :
    offset + pointerOf data (m + 1) < 0x8000000000000000 := by
  have found := @getElem?_rangesOf data (m + 1) offset m (by omega)
  have small := pointerOf_lt data m
  have small' := pointerOf_lt data (m + 1)
  have rises := rising m (by omega)
  have starts : offset + pointerOf data m < 0x8000000000000000 := by
    by_cases large : 0x8000000000000000 ≤ offset + pointerOf data m
    · have addr := (h.placed m _ found).1
      have wrapped : wrap64 (offset + pointerOf data m) = offset + pointerOf data m - 0x10000000000000000 :=
        wrap64_of_ge (by omega) (by omega)
      simp only [spanAt, wrapped] at addr
      omega
    · omega
  by_cases large : 0x8000000000000000 ≤ offset + pointerOf data (m + 1)
  · exact absurd (slice_spanAt_of_large rises starts large small' #[])
      (h.slice_inside _ (List.mem_of_getElem? found) #[])
  · omega

theorem partitions_iff_fits (rising : IsRising data (m + 1)) (counted : offset < 0x8000000000000000) :
    Partitions data (m + 1) offset (rangesOf data m offset) ↔
      m + 1 = 1 ∨ offset + pointerOf data m < 0x8000000000000000 := by
  cases m with
  | zero => exact ⟨fun _ => .inl rfl, fun _ => partitions_of_one⟩
  | succ m =>
      constructor
      · intro h
        exact .inr (fits_of_partitions rising counted h)
      · rintro (one | fits)
        · omega
        · exact partitions_of_fits rising fits

end Partition

/-- A table of `k` pointers is read exactly if its bytes are there and no pointer falls. If a pointer falls,
    the first one that does is named. The ranges of a table that is read cut the bytes between the first and the
    last pointer into pieces, exactly if there are none or the last pointer leads to a place that 64 bits can
    hold. Reading breaks off only where the size of the table cannot be told in 64 bits. -/
theorem read_partitions (data : Bytes) (k offset : Nat) (positive : 1 ≤ k) (counted : k < 0x8000000000000000)
    (placed : offset < 0x8000000000000000) (size : data.size < 0x8000000000000000) :
    let p := pointerOf data
    ((∃ ranges, read data k offset = .ok ranges) ↔ 2 * k ≤ data.size ∧ IsRising data k) ∧
    (∀ ranges, read data k offset = .ok ranges →
      (Partitions data k offset ranges ↔ k = 1 ∨ offset + p (k - 1) < 0x8000000000000000)) ∧
    (2 * k ≤ data.size → ¬ IsRising data k → ∃ i e, FallsFirst data k i ∧ read data k offset = .error e ∧
      e = .decreasing (i + 1) (p (i + 1)) (p i) ∧
      e.message = s!"pointer {i + 1} 0x{hex 4 (p (i + 1))} is below previous pointer 0x{hex 4 (p i)}") ∧
    (read data k offset = .error .outOfBounds ↔ 0x4000000000000000 ≤ k) := by
  intro p
  obtain ⟨m, rfl⟩ := Nat.exists_eq_add_of_le' positive
  refine ⟨?_, ?_, ?_, read_eq_outOfBounds_iff offset counted⟩
  · by_cases many : 0x4000000000000000 ≤ m + 1
    · rw [read_of_many offset many counted]
      simp only [reduceCtorEq, exists_false, false_iff]
      omega
    · constructor
      · rintro ⟨ranges, done⟩
        exact ((read_eq_ok_iff (Nat.not_le.mp many)).mp done).1
      · intro accepted
        exact ⟨_, (read_eq_ok_iff (Nat.not_le.mp many)).mpr ⟨accepted, rfl⟩⟩
  · intro ranges done
    have few : m + 1 < 0x4000000000000000 := by
      apply Nat.not_le.mp
      intro many
      cases (read_of_many offset many counted).symm.trans done
    obtain ⟨⟨_, rising⟩, rfl⟩ := (read_eq_ok_iff few).mp done
    exact partitions_iff_fits rising placed
  · intro long falling
    obtain ⟨i, first, failed⟩ := read_of_not_rising offset (by omega) long falling
    exact ⟨i, _, first, failed, rfl, rfl⟩

/-- Four pointers delimit three ranges, one of them empty. -/
theorem read_partitions_four :
    let data : Bytes := #[0x02, 0x00, 0x04, 0x00, 0x04, 0x00, 0x09, 0x00]
    let ranges : List Span := [⟨5, 2⟩, ⟨7, 0⟩, ⟨7, 5⟩]
    1 ≤ 4 ∧ read data (4 : Nat) (3 : Nat) = .ok ranges ∧ Partitions data 4 3 ranges := by
  intro data ranges
  have listed : rangesOf data 3 3 = ranges := by decide +kernel
  have done : read data (4 : Nat) (3 : Nat) = .ok ranges :=
    listed ▸ read_of_rising 3 (by decide) (by decide) (by decide)
  have table := read_partitions data 4 3 (by decide) (by decide) (by decide) (by decide)
  exact ⟨by decide, done, (table.2.1 ranges done).mpr (.inr (by decide))⟩

/-- The one range between two pointers that count from a place close to the end of what 64 bits can hold. No byte
    string is long enough for it, and asking for its bytes breaks off all the same. -/
theorem read_range_past_end :
    let range : Span := ⟨0x7ffffffffffffc00, 0x400⟩
    read #[0x00, 0x00, 0x00, 0x04] (2 : Nat) (0x7ffffffffffffc00 : Nat) = .ok [range] ∧
      0 ≤ range.addr ∧ 0 ≤ range.len ∧ ∀ d : Bytes, range.slice d = .error .outOfBounds := by
  intro range
  have listed : rangesOf #[0x00, 0x00, 0x00, 0x04] 1 (0x7ffffffffffffc00 : Nat) = [range] := by decide +kernel
  have span : spanAt (0x7ffffffffffffc00 : Nat) (fun i => 0x400 * i) 0 = range := by decide +kernel
  refine ⟨?_, by decide, by decide, fun d => ?_⟩
  · rw [← listed]
    exact read_of_rising _ (by decide) (by decide) (by decide)
  · rw [← span]
    exact slice_spanAt_of_large (by decide) (by decide) (by decide) (by decide) d

end EventScript.PointerTable
