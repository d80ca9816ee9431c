import EventScript.Proofs.ExactReading
import EventScript.Proofs.RecordLoops

/-! # Records that pack their fields as ranges of bits

A record packs each of its fields into a range of bits, counted from the lowest bit of its first byte. What
the ranges are decides all that can be said about the record: a flipped bit changes the fields whose ranges
hold it, the fields give the record back if each bit is held by one of them, and every choice of fields that fit
into their ranges can be written if no bit is held by two.
-/

namespace EventScript

/-! ## Bits of byte strings -/

/-- Bit `i` of a byte string, counted from the lowest bit of the first byte. -/
def bitAt (data : Bytes) (i : Nat) : Bool :=
  (data.getD (i / 8) 0).toNat.testBit (i % 8)

/-- The byte string with bit `i` turned over. -/
def Bytes.flip (data : Bytes) (i : Nat) : Bytes :=
  data.modify (i / 8) fun b => b ^^^ .ofNat (1 <<< (i % 8))

theorem testBit_byte_of_le (b : UInt8) {j : Nat} (high : 8 ≤ j) : b.toNat.testBit j = false :=
  Nat.testBit_lt_two_pow (Nat.lt_of_lt_of_le b.toNat_lt (Nat.pow_le_pow_right Nat.zero_lt_two high))

theorem testBit_bits (n low width j : Nat) :
    (bits n low width).testBit j = (decide (j < width) && n.testBit (low + j)) := by
  rw [bits, Nat.one_shiftLeft, Nat.testBit_mod_two_pow, Nat.testBit_shiftRight]

theorem testBit_pair (low high : UInt8) (j : Nat) :
    (pair low high).testBit j = if j < 8 then low.toNat.testBit j else high.toNat.testBit (j - 8) := by
  have h := Nat.testBit_two_pow_mul_add high.toNat low.toNat_lt j
  rwa [Nat.add_comm] at h

theorem triple_eq (low middle high : UInt8) :
    triple low middle high = low.toNat + 256 * pair middle high := by
  simp only [triple, pair]
  omega

theorem triple_lt (low middle high : UInt8) : triple low middle high < 0x1000000 := by
  have := low.toNat_lt
  have := middle.toNat_lt
  have := high.toNat_lt
  simp only [triple]
  omega

theorem testBit_triple (low middle high : UInt8) (j : Nat) :
    (triple low middle high).testBit j =
      if j < 8 then low.toNat.testBit j else (pair middle high).testBit (j - 8) := by
  have h := Nat.testBit_two_pow_mul_add (pair middle high) low.toNat_lt j
  rw [triple_eq]
  rwa [Nat.add_comm] at h

theorem bitAt_byte {data : Bytes} {k j : Nat} {b : UInt8} (byte : data[k]? = some b) (low : j < 8) :
    bitAt data (8 * k + j) = b.toNat.testBit j := by
  have place : (8 * k + j) / 8 = k := by omega
  have bit : (8 * k + j) % 8 = j := by omega
  rw [bitAt, place, bit, Array.getD_eq_getD_getElem?, byte, Option.getD_some]

theorem bitAt_extract {data : Bytes} {n i : Nat} (inside : i < 8 * n) :
    bitAt (data.extract 0 n) i = bitAt data i := by
  simp only [bitAt, Array.getD_eq_getD_getElem?, Array.getElem?_extract, Nat.zero_add, Nat.sub_zero]
  split
  · rfl
  · rw [Array.getElem?_eq_none (by omega)]

theorem bitAt_of_firstBytes? {n : Nat} {data : Bytes} {d : Vector UInt8 n} (h : firstBytes? n data = some d)
    {i : Nat} (inside : i < 8 * n) : bitAt d.toArray i = bitAt data i := by
  rw [(firstBytes?_eq_some_iff.mp h).2, bitAt_extract inside]

theorem testBit_flip (b : UInt8) {k j : Nat} (low : j < 8) :
    (b ^^^ .ofNat (1 <<< k)).toNat.testBit j = (b.toNat.testBit j ^^ decide (k = j)) := by
  rw [UInt8.toNat_xor, Nat.testBit_xor, UInt8.toNat_ofNat', Nat.testBit_mod_two_pow, Nat.one_shiftLeft,
    Nat.testBit_two_pow, decide_eq_true low, Bool.true_and]

theorem bitAt_flip {data : Bytes} {i : Nat} (inside : i < 8 * data.size) (j : Nat) :
    bitAt (data.flip i) j = (bitAt data j ^^ decide (i = j)) := by
  have low : j % 8 < 8 := Nat.mod_lt _ (by omega)
  simp only [bitAt, Bytes.flip, Array.getD_eq_getD_getElem?, Array.getElem?_modify]
  by_cases byte : i / 8 = j / 8
  · have found : data[j / 8]? = some (data.getD (j / 8) 0) := by
      rw [Array.getD_eq_getD_getElem?, Array.getElem?_eq_getElem (by omega), Option.getD_some]
    have bit : decide (i % 8 = j % 8) = decide (i = j) := decide_eq_decide.mpr (by omega)
    rw [if_pos byte, found, Option.map_some, Option.getD_some, Option.getD_some, testBit_flip _ low, bit]
  · have other : decide (i = j) = false := decide_eq_false fun same => byte (congrArg (· / 8) same)
    rw [if_neg byte, other, Bool.xor_false]

/-- Records are equal if their bits are. -/
theorem eq_of_bitAt {n : Nat} {d e : Vector UInt8 n}
    (same : ∀ i, i < 8 * n → bitAt d.toArray i = bitAt e.toArray i) : d = e := by
  apply Vector.ext
  intro k inside
  have left : d.toArray[k]? = some d[k] := by rw [Vector.getElem?_toArray, Vector.getElem?_eq_getElem]
  have right : e.toArray[k]? = some e[k] := by rw [Vector.getElem?_toArray, Vector.getElem?_eq_getElem]
  apply UInt8.toNat_inj.mp
  apply Nat.eq_of_testBit_eq
  intro j
  by_cases low : j < 8
  · rw [← bitAt_byte left low, ← bitAt_byte right low]
    exact same _ (by omega)
  · rw [testBit_byte_of_le _ (by omega), testBit_byte_of_le _ (by omega)]

/-! ## Ranges of bits -/

/-- The `width` bits of a record that start at bit `low` of a byte. They may run on into the next bytes. -/
structure BitRange where
  byte : Nat
  low : Nat
  width : Nat
  deriving Repr, DecidableEq

namespace BitRange

def start (r : BitRange) : Nat :=
  8 * r.byte + r.low

def stop (r : BitRange) : Nat :=
  r.start + r.width

/-- The bit lies in the range. -/
def Holds (r : BitRange) (i : Nat) : Prop :=
  r.start ≤ i ∧ i < r.stop

instance (r : BitRange) (i : Nat) : Decidable (r.Holds i) :=
  inferInstanceAs (Decidable (_ ∧ _))

theorem holds_add {r : BitRange} {j : Nat} (low : j < r.width) : r.Holds (r.start + j) :=
  ⟨Nat.le_add_right .., Nat.add_lt_add_left low _⟩

/-- A range behind another one holds none of its bits. -/
theorem Holds.not_holds {r s : BitRange} {i : Nat} (h : r.Holds i) (behind : r.stop ≤ s.start) : ¬ s.Holds i :=
  fun also => Nat.not_le.mpr (Nat.lt_of_lt_of_le h.2 behind) also.1

/-- The bits of the range are the bits of the number. -/
def Shows (r : BitRange) (data : Bytes) (n : Nat) : Prop :=
  ∀ j, n.testBit j = (decide (j < r.width) && bitAt data (r.start + j))

namespace Shows

variable {r : BitRange} {data : Bytes} {n m : Nat}

theorem unique (h : r.Shows data n) (h' : r.Shows data m) : n = m :=
  Nat.eq_of_testBit_eq fun j => (h j).trans (h' j).symm

theorem lt (h : r.Shows data n) : n < 1 <<< r.width := by
  rw [Nat.one_shiftLeft]
  apply Nat.lt_pow_two_of_testBit
  intro j high
  rw [h j, decide_eq_false (Nat.not_lt.mpr high), Bool.false_and]

/-- The number at a bit of the record. -/
theorem testBit_of_holds (h : r.Shows data n) {i : Nat} (holds : r.Holds i) :
    n.testBit (i - r.start) = bitAt data i := by
  have inside : i - r.start < r.width := by
    have := holds.2
    have := holds.1
    simp only [stop] at *
    omega
  rw [h, decide_eq_true inside, Bool.true_and, Nat.add_sub_cancel' holds.1]

theorem holds_of_testBit (h : r.Shows data n) {i : Nat} (low : r.start ≤ i)
    (set : n.testBit (i - r.start) = true) : r.Holds i := by
  rw [h, Bool.and_eq_true, decide_eq_true_eq] at set
  refine ⟨low, ?_⟩
  simp only [stop]
  omega

/-- Where one bit is turned over, the number changes exactly if the bit lies in the range. -/
theorem ne_iff_of_turned {data' : Bytes} {i : Nat} (h : r.Shows data n) (h' : r.Shows data' m)
    (turned : ∀ j, r.Holds j → bitAt data' j = (bitAt data j ^^ decide (i = j))) : n ≠ m ↔ r.Holds i := by
  constructor
  · intro differ
    apply Classical.byContradiction
    intro outside
    refine differ (h.unique fun j => ?_)
    by_cases low : j < r.width
    · have holds := holds_add low
      have other : i ≠ r.start + j := fun same => outside (same ▸ holds)
      rw [h' j, turned _ holds, decide_eq_false other, Bool.xor_false]
    · rw [h' j, decide_eq_false low, Bool.false_and, Bool.false_and]
  · rintro holds rfl
    have same := h'.testBit_of_holds holds
    rw [h.testBit_of_holds holds, turned i holds, decide_eq_true rfl, Bool.xor_true] at same
    exact (Bool.eq_not_self _).mp same

theorem lt_of_narrow (h : r.Shows data n) {width : Nat} (narrow : r.width ≤ width) : n < 1 <<< width := by
  refine Nat.lt_of_lt_of_le h.lt ?_
  rw [Nat.one_shiftLeft, Nat.one_shiftLeft]
  exact Nat.pow_le_pow_right Nat.zero_lt_two narrow

theorem toUInt8 (h : r.Shows data n) (narrow : r.width ≤ 8) : r.Shows data (UInt8.ofNat n).toNat := by
  rwa [UInt8.toNat_ofNat_of_lt' (h.lt_of_narrow narrow)]

theorem toUInt16 (h : r.Shows data n) (narrow : r.width ≤ 16) : r.Shows data (UInt16.ofNat n).toNat := by
  rwa [UInt16.toNat_ofNat_of_lt' (h.lt_of_narrow narrow)]

theorem toUInt32 (h : r.Shows data n) (narrow : r.width ≤ 32) : r.Shows data (UInt32.ofNat n).toNat := by
  rwa [UInt32.toNat_ofNat_of_lt' (h.lt_of_narrow narrow)]

end Shows

end BitRange

/-! ## Numbers in records -/

/-- From a byte on the bits of a number stand in the data, so many of them. -/
def StandsFrom (data : Bytes) (byte count n : Nat) : Prop :=
  ∀ j, j < count → n.testBit j = bitAt data (8 * byte + j)

namespace StandsFrom

variable {data : Bytes} {k count n : Nat}

theorem shows_bits (h : StandsFrom data k count n) {low width : Nat} (fits : low + width ≤ count) :
    BitRange.Shows ⟨k, low, width⟩ data (bits n low width) := by
  intro j
  rw [testBit_bits]
  by_cases inside : j < width
  · rw [h (low + j) (by omega), BitRange.start, Nat.add_assoc]
  · rw [decide_eq_false inside, Bool.false_and, Bool.false_and]

theorem shows_flag (h : StandsFrom data k count n) {i : Nat} (fits : i < count) :
    BitRange.Shows ⟨k, i, 1⟩ data (flag n i).toNat := by
  rw [toNat_flag]
  exact h.shows_bits fits

/-- A number with no bits beyond. -/
theorem shows (h : StandsFrom data k count n) (small : n < 1 <<< count) :
    BitRange.Shows ⟨k, 0, count⟩ data n := by
  have whole : bits n 0 count = n := Nat.mod_eq_of_lt small
  have shown := h.shows_bits (Nat.le_of_eq (Nat.zero_add count))
  rwa [whole] at shown

variable {size : Nat} (d : Vector UInt8 size)

theorem byte (inside : k < size) : StandsFrom d.toArray k 8 (d.get ⟨k, inside⟩).toNat := by
  intro j low
  have found : d.toArray[k]? = some (d.get ⟨k, inside⟩) := by
    rw [Vector.getElem?_toArray, Vector.getElem?_eq_getElem inside]
    rfl
  exact (bitAt_byte found low).symm

theorem pair (inside : k + 1 < size) :
    StandsFrom d.toArray k 16
      (pair (d.get ⟨k, Nat.lt_of_succ_lt inside⟩) (d.get ⟨k + 1, inside⟩)) := by
  intro j bound
  rw [testBit_pair]
  split
  · rename_i low
    exact byte d (Nat.lt_of_succ_lt inside) j low
  · rw [byte d inside (j - 8) (by omega)]
    congr 1
    omega

theorem triple (inside : k + 2 < size) :
    StandsFrom d.toArray k 24
      (triple (d.get ⟨k, Nat.lt_of_succ_lt (Nat.lt_of_succ_lt inside)⟩)
        (d.get ⟨k + 1, Nat.lt_of_succ_lt inside⟩) (d.get ⟨k + 2, inside⟩)) := by
  intro j bound
  rw [testBit_triple]
  split
  · rename_i low
    exact byte d (Nat.lt_of_succ_lt (Nat.lt_of_succ_lt inside)) j low
  · rw [pair d inside (j - 8) (by omega)]
    congr 1
    omega

end StandsFrom

theorem eq_of_toNat_bool {a b : Bool} (same : a.toNat = b.toNat) : a = b := by
  cases a <;> cases b <;> simp_all

/-! ## Packings -/

theorem eq_or_rel_of_pairwise {α : Type} {R : α → α → Prop} {items : List α} (ordered : items.Pairwise R)
    {a b : α} (left : a ∈ items) (right : b ∈ items) : a = b ∨ R a b ∨ R b a := by
  induction ordered with
  | nil => cases left
  | cons first _ ih =>
      rcases List.mem_cons.mp left with rfl | later
      · rcases List.mem_cons.mp right with rfl | behind
        · exact .inl rfl
        · exact .inr (.inl (first b behind))
      · rcases List.mem_cons.mp right with rfl | behind
        · exact .inr (.inr (first a later))
        · exact ih later behind

/-- From one bit up to another the ranges, one after the other, leave no bit out. -/
def LeavesNone {F : Type} (range : F → BitRange) (start : Nat) : List F → Nat → Prop
  | [], stop => stop ≤ start
  | f :: rest, stop => (range f).start ≤ start ∧ LeavesNone range (range f).stop rest stop

instance LeavesNone.instDecidable {F : Type} (range : F → BitRange) (start : Nat) (fields : List F) (stop : Nat) :
    Decidable (LeavesNone range start fields stop) :=
  match fields with
  | [] => inferInstanceAs (Decidable (_ ≤ _))
  | f :: rest =>
      have := instDecidable range (range f).stop rest stop
      inferInstanceAs (Decidable (_ ∧ _))

theorem LeavesNone.exists_holds {F : Type} {range : F → BitRange} {start stop i : Nat} {fields : List F}
    (h : LeavesNone range start fields stop) (low : start ≤ i) (high : i < stop) :
    ∃ f ∈ fields, (range f).Holds i := by
  induction fields generalizing start with
  | nil => exact absurd (Nat.lt_of_lt_of_le high h) (Nat.not_lt.mpr low)
  | cons f rest ih =>
      by_cases here : i < (range f).stop
      · exact ⟨f, List.mem_cons_self, Nat.le_trans h.1 low, here⟩
      · obtain ⟨g, listed, holds⟩ := ih h.2 (Nat.le_of_not_lt here)
        exact ⟨g, List.mem_cons_of_mem f listed, holds⟩

/-- How values are packed into records of `size` bytes. A field of a value is a number. The record keeps it in
    a range of bits, and it may keep it in another form. -/
structure Packing (α F : Type) (size : Nat) where
  read : Vector UInt8 size → α
  value : α → F → Nat
  fields : List F
  range : F → BitRange
  /-- The number in the record for a field of a value. -/
  stored : F → Nat → Nat
  /-- The field of a value for a number in the record. -/
  shown : F → Nat → Nat
  eq_of_value : ∀ {a b}, (∀ f, value a f = value b f) → a = b
  mem_fields : ∀ f, f ∈ fields
  stored_shown : ∀ f n, stored f (shown f n) = n
  shows_read : ∀ d f, ∃ n, (range f).Shows d.toArray n ∧ value (read d) f = shown f n
  range_inside : ∀ f ∈ fields, (range f).stop ≤ 8 * size
  leaves_none : LeavesNone range 0 fields (8 * size)

namespace Packing

variable {α F : Type} {size : Nat} (p : Packing α F size)

/-- The number in the record for a field. -/
def number (a : α) (f : F) : Nat :=
  p.stored f (p.value a f)

/-- The record as one number: that of each field put at its place. -/
def join (a : α) : Nat :=
  p.fields.foldr (fun f rest => p.number a f <<< (p.range f).start ||| rest) 0

/-- Pack a value. -/
def write (a : α) : Vector UInt8 size :=
  .ofFn fun k => .ofNat (p.join a >>> (8 * k.val))

theorem testBit_join {a : α} {i : Nat} :
    (p.join a).testBit i = true ↔
      ∃ f, (p.range f).start ≤ i ∧ (p.number a f).testBit (i - (p.range f).start) = true := by
  have listed (fields : List F) :
      (fields.foldr (fun f rest => p.number a f <<< (p.range f).start ||| rest) 0).testBit i = true ↔
        ∃ f ∈ fields, (p.range f).start ≤ i ∧ (p.number a f).testBit (i - (p.range f).start) = true := by
    induction fields with
    | nil => simp
    | cons f rest ih => simp [Nat.testBit_shiftLeft, ih]
  rw [join, listed]
  simp only [p.mem_fields, true_and]

theorem bitAt_write {a : α} {i : Nat} (inside : i < 8 * size) :
    bitAt (p.write a).toArray i = (p.join a).testBit i := by
  have byte : (p.write a).toArray[i / 8]? = some (.ofNat (p.join a >>> (8 * (i / 8)))) := by
    rw [write, Vector.toArray_ofFn, Array.getElem?_ofFn, dif_pos (by omega)]
  have low : i % 8 < 8 := Nat.mod_lt _ (by omega)
  have whole : 8 * (i / 8) + i % 8 = i := Nat.div_add_mod i 8
  have bit := bitAt_byte byte low
  rwa [whole, UInt8.toNat_ofNat', Nat.testBit_mod_two_pow, decide_eq_true low, Bool.true_and,
    Nat.testBit_shiftRight, whole] at bit

theorem shows_number (d : Vector UInt8 size) (f : F) :
    (p.range f).Shows d.toArray (p.number (p.read d) f) := by
  obtain ⟨n, shows, same⟩ := p.shows_read d f
  rwa [number, same, p.stored_shown]

/-- Each bit is held by a field, so that the fields give the record back. -/
theorem write_read (d : Vector UInt8 size) : p.write (p.read d) = d := by
  apply eq_of_bitAt
  intro i inside
  rw [p.bitAt_write inside, Bool.eq_iff_iff, p.testBit_join]
  constructor
  · intro h
    obtain ⟨f, low, set⟩ := h
    have holds := (p.shows_number d f).holds_of_testBit low set
    rwa [← (p.shows_number d f).testBit_of_holds holds]
  · intro set
    obtain ⟨f, _, holds⟩ := p.leaves_none.exists_holds (Nat.zero_le i) inside
    refine ⟨f, holds.1, ?_⟩
    rwa [(p.shows_number d f).testBit_of_holds holds]

/-- A flipped bit changes exactly the fields that hold it. -/
theorem value_ne_iff {data : Bytes} {d e : Vector UInt8 size} {i : Nat} (first : firstBytes? size data = some d)
    (flipped : firstBytes? size (data.flip i) = some e) (inside : i < 8 * size) (f : F) :
    p.value (p.read d) f ≠ p.value (p.read e) f ↔ (p.range f).Holds i := by
  have turned : ∀ j, (p.range f).Holds j → bitAt e.toArray j = (bitAt d.toArray j ^^ decide (i = j)) := by
    intro j holds
    have low : j < 8 * size := Nat.lt_of_lt_of_le holds.2 (p.range_inside f (p.mem_fields f))
    have long := (firstBytes?_eq_some_iff.mp first).1
    rw [bitAt_of_firstBytes? flipped low, bitAt_of_firstBytes? first low, bitAt_flip (by omega)]
  obtain ⟨n, shows, same⟩ := p.shows_read d f
  obtain ⟨m, shows', same'⟩ := p.shows_read e f
  rw [← shows.ne_iff_of_turned shows' turned, same, same']
  constructor
  · rintro differ rfl
    exact differ rfl
  · intro differ equal
    have stored := congrArg (p.stored f) equal
    rw [p.stored_shown, p.stored_shown] at stored
    exact differ stored

/-- No bit is held by two fields. -/
def IsSeparate : Prop :=
  ∀ f g i, (p.range f).Holds i → (p.range g).Holds i → f = g

theorem isSeparate_of_pairwise (ordered : p.fields.Pairwise fun f g => (p.range f).stop ≤ (p.range g).start) :
    p.IsSeparate := by
  intro f g i holds holds'
  rcases eq_or_rel_of_pairwise ordered (p.mem_fields f) (p.mem_fields g) with same | before | before
  · exact same
  · exact absurd holds' (holds.not_holds before)
  · exact absurd holds (holds'.not_holds before)

/-- The fields of a value have room in their ranges. -/
def Fits (a : α) : Prop :=
  ∀ f, p.number a f < 1 <<< (p.range f).width ∧ p.shown f (p.number a f) = p.value a f

variable {p}

/-- A number with room for its bits has none beyond. -/
theorem Fits.lt_width {a : α} (fits : p.Fits a) {f : F} {j : Nat} (set : (p.number a f).testBit j = true) :
    j < (p.range f).width := by
  apply Nat.lt_of_not_le
  intro high
  have small := (fits f).1
  rw [Nat.one_shiftLeft] at small
  rw [Nat.testBit_lt_two_pow (Nat.lt_of_lt_of_le small (Nat.pow_le_pow_right Nat.zero_lt_two high))] at set
  cases set

theorem IsSeparate.shows_write (separate : p.IsSeparate) {a : α} (fits : p.Fits a) (f : F) :
    (p.range f).Shows (p.write a).toArray (p.number a f) := by
  have written {j : Nat} (low : j < (p.range f).width) :
      bitAt (p.write a).toArray ((p.range f).start + j) = (p.join a).testBit ((p.range f).start + j) :=
    p.bitAt_write (Nat.lt_of_lt_of_le (BitRange.holds_add low).2 (p.range_inside f (p.mem_fields f)))
  intro j
  rw [Bool.eq_iff_iff, Bool.and_eq_true, decide_eq_true_eq]
  constructor
  · intro set
    have low := fits.lt_width set
    rw [written low, p.testBit_join]
    exact ⟨low, f, Nat.le_add_right .., by rwa [Nat.add_sub_cancel_left]⟩
  · rintro ⟨low, set⟩
    rw [written low, p.testBit_join] at set
    -- The bit comes from a field that holds it, and this can only be the one whose range it is.
    obtain ⟨g, start, set⟩ := set
    have holds : (p.range g).Holds ((p.range f).start + j) := by
      have also := BitRange.holds_add (fits.lt_width set)
      rwa [Nat.add_sub_cancel' start] at also
    cases separate f g _ (BitRange.holds_add low) holds
    rwa [Nat.add_sub_cancel_left] at set

theorem IsSeparate.read_write (separate : p.IsSeparate) {a : α} (fits : p.Fits a) :
    p.read (p.write a) = a := by
  apply p.eq_of_value
  intro f
  obtain ⟨n, shows, same⟩ := p.shows_read (p.write a) f
  rw [same, shows.unique (separate.shows_write fits f), (fits f).2]

end Packing

end EventScript
