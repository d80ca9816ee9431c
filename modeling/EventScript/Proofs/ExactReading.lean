import EventScript.Decoder

/-! # Steps that read exactly what is written

A spelling says which bytes stand for which values. A step reads a spelling exactly if it succeeds
wherever such bytes stand, and nowhere else. Exact reading passes from single operands to sequences of
steps, to tagged events and to chains of events, without a look into the steps again.
-/

namespace EventScript

/-! ## Bytes between two offsets -/

theorem Bytes.at?_natCast (data : Bytes) (i : Nat) : data.at? i = data[i]? := by
  simp only [Bytes.at?, Int.toNat_natCast]
  split
  · omega
  · rfl

theorem Bytes.bounds_of_at? {data : Bytes} {offset : Int} {b : UInt8}
    (h : data.at? offset = some b) : 0 ≤ offset ∧ offset < data.size := by
  simp only [Bytes.at?] at h
  split at h
  · simp at h
  · have := (Array.getElem?_eq_some_iff.mp h).1
    omega

/-- From one offset up to another the stream holds these bytes. No byte at all may be anywhere. -/
def Spans (data : Bytes) (start : Int) : List UInt8 → Int → Prop
  | [], stop => stop = start
  | b :: bytes, stop => data.at? start = some b ∧ Spans data (start + 1) bytes stop

theorem Spans.stop_eq {data : Bytes} {start stop : Int} {bytes : List UInt8}
    (h : Spans data start bytes stop) : stop = start + bytes.length := by
  induction bytes generalizing start with
  | nil => simpa [Spans] using h
  | cons b bytes ih =>
      have := ih h.2
      simp only [List.length_cons]
      omega

theorem spans_append {data : Bytes} {start stop : Int} {front back : List UInt8} :
    Spans data start (front ++ back) stop ↔
      ∃ middle, Spans data start front middle ∧ Spans data middle back stop := by
  induction front generalizing start with
  | nil => simp [Spans]
  | cons b front ih => simp [Spans, ih, and_assoc]

theorem spans_iff_prefix {data : Bytes} {start : Nat} {bytes : List UInt8} {stop : Int} :
    Spans data start bytes stop ↔
      stop = start + bytes.length ∧ bytes <+: data.toList.drop start := by
  induction bytes generalizing start with
  | nil => simp [Spans]
  | cons b bytes ih =>
      have rest := @ih (start + 1)
      rw [Int.natCast_add, Int.natCast_one] at rest
      simp only [Spans, rest, Bytes.at?_natCast, List.length_cons]
      cases unread : data.toList.drop start with
      | nil =>
          have absent : data[start]? = none := by simpa using unread
          simp [absent]
      | cons c more =>
          have here : data[start]? = some c := by simpa using congrArg List.head? unread
          have behind : data.toList.drop (start + 1) = more := by
            rw [← List.tail_drop, unread, List.tail_cons]
          rw [here, behind, List.cons_prefix_cons]
          constructor
          · intro h
            obtain ⟨⟨rfl⟩, rfl, found⟩ := h
            exact ⟨by omega, rfl, found⟩
          · intro h
            obtain ⟨rfl, rfl, found⟩ := h
            exact ⟨rfl, by omega, found⟩

theorem slice?_eq_some_iff {data bytes : Bytes} {start stop : Int} :
    data.slice? start stop = some bytes ↔
      0 ≤ start ∧ start ≤ data.size ∧ Spans data start bytes.toList stop := by
  constructor
  · intro h
    simp only [Bytes.slice?] at h
    split at h
    · rename_i inside
      obtain ⟨i, rfl⟩ := Int.eq_ofNat_of_zero_le inside.1
      obtain ⟨j, rfl⟩ := Int.eq_ofNat_of_zero_le (show 0 ≤ stop by omega)
      simp only [Option.some.injEq] at h
      subst h
      refine ⟨inside.1, by omega, spans_iff_prefix.mpr ⟨?_, ?_⟩⟩
      · simp
        omega
      · simp [List.take_prefix]
    · simp at h
  · intro h
    obtain ⟨low, high, spans⟩ := h
    obtain ⟨i, rfl⟩ := Int.eq_ofNat_of_zero_le low
    obtain ⟨rfl, found⟩ := spans_iff_prefix.mp spans
    have room := found.length_le
    simp only [Array.length_toList, List.length_drop] at room
    have ends : (i + bytes.toList.length : Int).toNat = i + bytes.toList.length := by omega
    rw [Bytes.slice?, if_pos ⟨low, by omega, by simp only [Array.length_toList]; omega⟩]
    congr 1
    apply Array.toList_inj.mp
    rw [Array.toList_extract, ends, Int.toNat_natCast, List.extract_eq_take_drop,
      Nat.add_sub_cancel_left]
    exact (List.prefix_iff_eq_take.mp found).symm

theorem slice?_le {data bytes : Bytes} {start stop : Int}
    (h : data.slice? start stop = some bytes) : stop ≤ data.size := by
  simp only [Bytes.slice?, Option.ite_none_right_eq_some] at h
  exact h.1.2.2

/-- Where there are bytes, spanning and slicing agree. -/
theorem spans_iff_slice? {data : Bytes} {start stop : Int} {bytes : List UInt8}
    (nonempty : bytes ≠ []) :
    Spans data start bytes stop ↔ data.slice? start stop = some bytes.toArray := by
  rw [slice?_eq_some_iff]
  constructor
  · intro h
    cases bytes with
    | nil => contradiction
    | cons b bytes =>
        have inside := Bytes.bounds_of_at? h.1
        exact ⟨inside.1, by omega, h⟩
  · exact fun h => h.2.2

/-! ## Exact reading of single operands -/

/-- The step succeeds exactly where bytes stand that spell a value. It gives this value and moves
    behind the bytes. -/
def Reads {α : Type} (data : Bytes) (step : Decode α) (spells : α → List UInt8 → Prop) : Prop :=
  ∀ offset a next, step offset = .ok a next ↔
    ∃ bytes, spells a bytes ∧ Spans data offset bytes next

theorem byteThen_eq_ok_iff {data : Bytes} {step offset next : Int} {b : UInt8} :
    byteThen data step offset = .ok b next ↔ data.at? offset = some b ∧ next = offset + step := by
  unfold byteThen
  cases found : data.at? offset with
  | none =>
      simp only [reduceCtorEq, false_and, iff_false]
      split <;> simp
  | some c =>
      have inside := Bytes.bounds_of_at? found
      have room : ¬ left data offset < 1 := by
        simp only [left]
        omega
      simp [room, eq_comm]

theorem peek_eq_ok_iff {data : Bytes} {offset next : Int} {b : UInt8} :
    peek data offset = .ok b next ↔ data.at? offset = some b ∧ next = offset := by
  rw [peek, byteThen_eq_ok_iff, Int.add_zero]

theorem take_eq_ok_iff {data : Bytes} {n : Nat} {offset next : Int} {v : Vector UInt8 n} :
    take data n offset = .ok v next ↔ data.slice? offset next = some v.toArray := by
  constructor
  · intro h
    simp only [take] at h
    split at h
    · simp at h
    · split at h
      · rename_i inside
        simp only [EStateM.Result.ok.injEq] at h
        obtain ⟨rfl, rfl⟩ := h
        rw [Bytes.slice?, if_pos ⟨inside.1, by omega, inside.2⟩]
        congr 2
        omega
      · simp at h
  · intro h
    have moved := (slice?_eq_some_iff.mp h).2.2.stop_eq
    simp only [Array.length_toList, Vector.size_toArray] at moved
    subst moved
    simp only [Bytes.slice?, Option.ite_none_right_eq_some, Option.some.injEq] at h
    obtain ⟨inside, bytes⟩ := h
    have room : ¬ left data offset < n := by
      simp only [left]
      omega
    have same : data.extract offset.toNat (offset.toNat + n) = v.toArray := by
      rw [← bytes]
      congr 1
      omega
    unfold take
    rw [if_neg room, dif_pos ⟨inside.1, by omega⟩]
    simp only [same]

/-- A 16 bit number, low byte first. -/
def wordBytes (w : UInt16) : List UInt8 :=
  [.ofNat w.toNat, .ofNat (w.toNat / 256)]

/-- The low 24 bits of a number, low byte first. -/
def longBytes (l : UInt32) : List UInt8 :=
  [.ofNat l.toNat, .ofNat (l.toNat / 256), .ofNat (l.toNat / 65536)]

theorem eq_wordBytes_iff {w : UInt16} {low high : UInt8} :
    [low, high] = wordBytes w ↔ w = .ofNat (pair low high) := by
  have := low.toNat_lt
  have := high.toNat_lt
  have := w.toNat_lt
  simp only [wordBytes, List.cons.injEq, and_true, ← UInt8.toNat_inj, ← UInt16.toNat_inj, pair,
    UInt8.toNat_ofNat', UInt16.toNat_ofNat']
  omega

theorem eq_longBytes_iff {l : UInt32} {low middle high : UInt8} :
    l.toNat < 0x1000000 ∧ [low, middle, high] = longBytes l ↔ l = .ofNat (triple low middle high) := by
  have := low.toNat_lt
  have := middle.toNat_lt
  have := high.toNat_lt
  simp only [longBytes, List.cons.injEq, and_true, ← UInt8.toNat_inj, ← UInt32.toNat_inj, triple,
    UInt8.toNat_ofNat', UInt32.toNat_ofNat']
  omega

theorem toNat_flag (n i : Nat) : (flag n i).toNat = n >>> i % 2 := by
  have : n >>> i % 2 = 0 ∨ n >>> i % 2 = 1 := by omega
  rcases this with h | h <;> simp [flag, bits, h]

theorem eq_flag_iff {n i : Nat} {b : Bool} : b = flag n i ↔ b.toNat = n >>> i % 2 := by
  rw [← toNat_flag]
  cases b <;> cases flag n i <;> simp

namespace Reads

variable {α β : Type} {data : Bytes}

theorem of_iff {step : Decode α} {f g : α → List UInt8 → Prop} (h : Reads data step f)
    (same : ∀ a bytes, f a bytes ↔ g a bytes) : Reads data step g := by
  intro offset a next
  simp only [h offset a next, same]

theorem pure (a : α) : Reads data (Pure.pure a) fun b bytes => b = a ∧ bytes = [] := by
  intro offset b next
  simp only [Pure.pure, EStateM.pure, EStateM.Result.ok.injEq]
  constructor
  · intro h
    obtain ⟨rfl, rfl⟩ := h
    exact ⟨[], ⟨rfl, rfl⟩, rfl⟩
  · intro h
    obtain ⟨_, ⟨rfl, rfl⟩, rfl⟩ := h
    exact ⟨rfl, rfl⟩

theorem bind {step : Decode α} {rest : α → Decode β} {f : α → List UInt8 → Prop}
    {g : α → β → List UInt8 → Prop} (hs : Reads data step f) (hr : ∀ a, Reads data (rest a) (g a)) :
    Reads data (step >>= rest) fun b bytes =>
      ∃ a front back, f a front ∧ g a b back ∧ bytes = front ++ back := by
  intro offset b next
  rw [bind_eq_ok_iff]
  constructor
  · intro read
    obtain ⟨a, middle, first, second⟩ := read
    obtain ⟨front, hf, before⟩ := (hs _ _ _).mp first
    obtain ⟨back, hg, behind⟩ := (hr a _ _ _).mp second
    exact ⟨front ++ back, ⟨a, front, back, hf, hg, rfl⟩, spans_append.mpr ⟨middle, before, behind⟩⟩
  · intro written
    obtain ⟨_, ⟨a, front, back, hf, hg, rfl⟩, spans⟩ := written
    obtain ⟨middle, before, behind⟩ := spans_append.mp spans
    exact ⟨a, middle, (hs _ _ _).mpr ⟨front, hf, before⟩, (hr a _ _ _).mpr ⟨back, hg, behind⟩⟩

/-- What is made of a value is spelled as the value. -/
theorem map {step : Decode α} {f : α → List UInt8 → Prop} (g : α → β) (h : Reads data step f) :
    Reads data (step >>= fun a => Pure.pure (g a)) fun b bytes => ∃ a, f a bytes ∧ b = g a := by
  apply (bind h fun a => pure (g a)).of_iff
  intro b bytes
  constructor
  · intro written
    obtain ⟨a, front, _, hf, ⟨rfl, rfl⟩, rfl⟩ := written
    exact ⟨a, by simpa using hf, rfl⟩
  · intro written
    obtain ⟨a, hf, rfl⟩ := written
    exact ⟨a, bytes, [], hf, ⟨rfl, rfl⟩, by simp⟩

theorem byte : Reads data (EventScript.byte data) fun b bytes => bytes = [b] := by
  intro offset b next
  rw [exists_eq_left, EventScript.byte, byteThen_eq_ok_iff]
  rfl

theorem take (n : Nat) :
    Reads data (EventScript.take data (n + 1)) fun v bytes => bytes = v.toList := by
  intro offset v next
  have nonempty : v.toList ≠ [] := by
    intro h
    simpa using congrArg List.length h
  rw [exists_eq_left, take_eq_ok_iff, spans_iff_slice? nonempty, Vector.toArray_toList]

theorem takeTwo : Reads data (EventScript.takeTwo data) fun v bytes => bytes = [v.1, v.2] := by
  apply (map _ (take 1)).of_iff
  intro v bytes
  constructor
  · intro h
    obtain ⟨w, rfl, rfl⟩ := h
    obtain ⟨⟨list⟩, size⟩ := w
    match list, size with
    | [x, y], _ => rfl
  · intro h
    exact ⟨#v[v.1, v.2], h, rfl⟩

theorem takeThree :
    Reads data (EventScript.takeThree data) fun v bytes => bytes = [v.1, v.2.1, v.2.2] := by
  apply (map _ (take 2)).of_iff
  intro v bytes
  constructor
  · intro h
    obtain ⟨w, rfl, rfl⟩ := h
    obtain ⟨⟨list⟩, size⟩ := w
    match list, size with
    | [x, y, z], _ => rfl
  · intro h
    exact ⟨#v[v.1, v.2.1, v.2.2], h, rfl⟩

theorem word : Reads data (EventScript.word data) fun w bytes => bytes = wordBytes w := by
  apply (map _ takeTwo).of_iff
  intro w bytes
  constructor
  · intro h
    obtain ⟨v, rfl, hw⟩ := h
    exact eq_wordBytes_iff.mpr hw
  · intro h
    subst h
    exact ⟨(_, _), rfl, eq_wordBytes_iff.mp rfl⟩

theorem long :
    Reads data (EventScript.long data) fun l bytes => l.toNat < 0x1000000 ∧ bytes = longBytes l := by
  apply (map _ takeThree).of_iff
  intro l bytes
  constructor
  · intro h
    obtain ⟨v, rfl, hl⟩ := h
    exact eq_longBytes_iff.mpr hl
  · intro h
    obtain ⟨small, rfl⟩ := h
    exact ⟨(_, _, _), rfl, eq_longBytes_iff.mp ⟨small, rfl⟩⟩

/-- Values that are read one behind the other are written one behind the other. -/
theorem readMany {read : Decode α} {valid : α → Prop} {encode : α → List UInt8}
    (h : Reads data read fun a bytes => valid a ∧ bytes = encode a) (n : Nat) :
    Reads data (EventScript.readMany n read) fun items bytes =>
      items.length = n ∧ (∀ a ∈ items, valid a) ∧ bytes = items.flatMap encode := by
  induction n with
  | zero =>
      apply (pure []).of_iff
      intro items bytes
      simp +contextual [List.length_eq_zero_iff]
  | succ n ih =>
      apply (bind h fun _ => map _ ih).of_iff
      intro items bytes
      constructor
      · intro written
        obtain ⟨a, _, _, ⟨ha, rfl⟩, ⟨rest, ⟨rfl, hrest, rfl⟩, rfl⟩, rfl⟩ := written
        exact ⟨rfl, List.forall_mem_cons.mpr ⟨ha, hrest⟩, rfl⟩
      · intro written
        obtain ⟨count, hall, rfl⟩ := written
        match items, count with
        | a :: rest, count =>
            obtain ⟨ha, hrest⟩ := List.forall_mem_cons.mp hall
            exact ⟨a, _, _, ⟨ha, rfl⟩, ⟨rest, ⟨by simpa using count, hrest, rfl⟩, rfl⟩, rfl⟩

end Reads

end EventScript
