import EventScript.Proofs.EventChains

/-! # Steps on parts of a stream

A step looks at nothing but the bytes from its offset on, and only at those that it reads. So it does the
same in a longer stream that holds these bytes, unless it gave up because the stream ended. In that case
more bytes can always be put behind the stream with which the step succeeds. Both pass from single
operands to sequences of steps, to tagged events and to chains of events.
-/

namespace EventScript

/-! ## Streams that hold a stream -/

/-- All of `data` stands in `whole`, `distance` bytes further on. -/
structure StandsIn (data whole : Bytes) (distance : Nat) : Prop where
  room : data.size + distance ≤ whole.size
  same : ∀ offset b, data.at? offset = some b → whole.at? (offset + distance) = some b

theorem Bytes.at?_eq_none_iff {data : Bytes} {offset : Int} (low : 0 ≤ offset) :
    data.at? offset = none ↔ data.size ≤ offset := by
  rw [Bytes.at?, if_neg (by omega), Array.getElem?_eq_none_iff]
  omega

theorem Bytes.at?_append {data : Bytes} {offset : Int} {b : UInt8} (ext : Bytes)
    (found : data.at? offset = some b) : (data ++ ext).at? offset = some b := by
  have inside := Bytes.bounds_of_at? found
  obtain ⟨i, rfl⟩ := Int.eq_ofNat_of_zero_le inside.1
  rw [Bytes.at?_natCast] at found ⊢
  rwa [Array.getElem?_append_left (by omega)]

theorem Bytes.at?_push (data : Bytes) (b : UInt8) : (data ++ #[b]).at? data.size = some b := by
  simp [Bytes.at?_natCast]

theorem StandsIn.front (data ext : Bytes) : StandsIn data (data ++ ext) 0 := by
  refine ⟨by simp, fun offset b found => ?_⟩
  rw [Int.natCast_zero, Int.add_zero]
  exact Bytes.at?_append ext found

theorem StandsIn.back (before data : Bytes) : StandsIn data (before ++ data) before.size := by
  refine ⟨by simp [Nat.add_comm], fun offset b found => ?_⟩
  have inside := Bytes.bounds_of_at? found
  obtain ⟨i, rfl⟩ := Int.eq_ofNat_of_zero_le inside.1
  rw [← Int.natCast_add, Bytes.at?_natCast, Array.getElem?_append_right (by omega),
    Nat.add_sub_cancel]
  rwa [Bytes.at?_natCast] at found

theorem Spans.transfer {data whole : Bytes} {distance : Nat} {start stop : Int} {bytes : List UInt8}
    (spans : Spans data start bytes stop) (held : StandsIn data whole distance) :
    Spans whole (start + distance) bytes (stop + distance) := by
  induction bytes generalizing start with
  | nil =>
      cases spans
      rfl
  | cons b bytes ih =>
      have rest := ih spans.2
      rw [show start + 1 + (distance : Int) = start + distance + 1 by omega] at rest
      exact ⟨held.same _ _ spans.1, rest⟩

theorem Bytes.at?_cut {n : Nat} {offset : Int} (data : Bytes) (before : offset < n) :
    Bytes.at? (data.extract 0 n) offset = data.at? offset := by
  unfold Bytes.at?
  split
  · rfl
  · rw [Array.getElem?_extract, Nat.zero_add]
    split
    · rfl
    · exact (Array.getElem?_eq_none (by omega)).symm

theorem Spans.cut {data : Bytes} {start stop : Int} {bytes : List UInt8} {n : Nat}
    (spans : Spans data start bytes stop) (before : stop ≤ n) :
    Spans (data.extract 0 n) start bytes stop := by
  induction bytes generalizing start with
  | nil => exact spans
  | cons b bytes ih =>
      have moved := spans.2.stop_eq
      exact ⟨by rw [Bytes.at?_cut data (by omega)]; exact spans.1, ih spans.2⟩

theorem StandsIn.cut (data : Bytes) (n : Nat) : StandsIn (data.extract 0 n) data 0 := by
  refine ⟨by rw [Array.size_extract]; omega, fun offset b found => ?_⟩
  have inside := Bytes.bounds_of_at? found
  rw [Bytes.at?_cut data (by simp at inside; omega)] at found
  rwa [Int.natCast_zero, Int.add_zero]

/-! ## Outcomes -/

namespace DecodeError

/-- The stream ended too early. -/
def IsTruncated : DecodeError → Prop
  | .truncated .. | .outside .. => True
  | .unrecognized .. | .outOfBounds => False

instance (e : DecodeError) : Decidable e.IsTruncated :=
  match e with
  | .truncated .. | .outside .. => inferInstanceAs (Decidable True)
  | .unrecognized .. | .outOfBounds => inferInstanceAs (Decidable False)

/-- The error in a stream that has `distance` more bytes in front. -/
def moved (distance : Nat) : DecodeError → DecodeError
  | .truncated needed offset left => .truncated needed (offset + distance) left
  | .outside offset size => .outside (offset + distance) (size + distance)
  | .unrecognized tag offset => .unrecognized tag (offset + distance)
  | .outOfBounds => .outOfBounds

@[simp] theorem moved_zero (e : DecodeError) : e.moved 0 = e := by
  cases e <;> simp [moved]

end DecodeError

/-- What comes of a step. -/
abbrev Outcome (α : Type) := EStateM.Result DecodeError Int α

namespace Outcome

variable {α : Type}

/-- The step ran out of bytes. -/
def IsTruncated : Outcome α → Prop
  | .ok _ _ => False
  | .error e _ => e.IsTruncated

/-- The outcome in a stream that has `distance` more bytes in front. -/
def moved (distance : Nat) : Outcome α → Outcome α
  | .ok a next => .ok a (next + distance)
  | .error e stop => .error (e.moved distance) (stop + distance)

@[simp] theorem moved_zero (r : Outcome α) : moved 0 r = r := by
  cases r <;> simp [moved]

end Outcome

/-- Where a step that fails stands, and what it says about it: too few bytes are left there, or a tag
    stands there that is not known. -/
inductive GivesUp (data : Bytes) (offset : Int) : DecodeError → Int → Prop where
  | truncated {needed : Nat} {stop : Int} (onward : offset ≤ stop) (inside : stop ≤ data.size)
      (short : left data stop < needed) :
      GivesUp data offset (.truncated needed stop (left data stop)) stop
  | unrecognized {tag : UInt8} {stop : Int} (onward : offset ≤ stop)
      (found : data.at? stop = some tag) : GivesUp data offset (.unrecognized tag stop) stop

namespace GivesUp

variable {data : Bytes} {offset stop : Int} {e : DecodeError}

theorem from_earlier {earlier : Int} (h : GivesUp data offset e stop) (le : earlier ≤ offset) :
    GivesUp data earlier e stop := by
  cases h with
  | truncated onward inside short => exact .truncated (by omega) inside short
  | unrecognized onward found => exact .unrecognized (by omega) found

/-- At the end of a stream there is no tag that could be unknown. -/
theorem isTruncated_of_end (h : GivesUp data data.size e stop) : e.IsTruncated := by
  cases h with
  | truncated => trivial
  | unrecognized onward found =>
      have := Bytes.bounds_of_at? found
      omega

end GivesUp

/-! ## Steps that fail -/

/-- The step fails exactly where fewer bytes are left than it needs, and stays there. -/
def Needs {α : Type} (step : Bytes → Decode α) (needed : Nat) : Prop :=
  ∀ ⦃data offset e stop⦄, 0 ≤ offset → (step data offset = .error e stop ↔
    left data offset < needed ∧ e = .truncated needed offset (left data offset) ∧ stop = offset)

namespace Needs

theorem byteThen (onward : Int) : Needs (EventScript.byteThen · onward) 1 := by
  intro data offset e stop low
  simp only [EventScript.byteThen]
  split
  · rename_i short
    simp [short, eq_comm]
  · rename_i room
    simp only [left] at room
    cases found : data.at? offset with
    | none =>
        have ended := (Bytes.at?_eq_none_iff low).mp found
        omega
    | some b => simp [left, room]

theorem take (n : Nat) : Needs (EventScript.take · (n + 1)) (n + 1) := by
  intro data offset e stop low
  simp only [EventScript.take]
  split
  · rename_i short
    simp [short, eq_comm]
  · rename_i room
    have inside : 0 ≤ offset ∧ offset + (n + 1 : Nat) ≤ data.size := by
      simp only [left] at room
      omega
    rw [dif_pos inside]
    simp [room]

variable {α : Type} {step : Bytes → Decode α} {needed : Nat} {data : Bytes} {offset stop : Int}
  {e : DecodeError}

theorem givesUp (h : Needs step needed) (low : 0 ≤ offset) (high : offset ≤ data.size)
    (failed : step data offset = .error e stop) : GivesUp data offset e stop := by
  obtain ⟨short, rfl, rfl⟩ := (h low).mp failed
  exact .truncated (Int.le_refl _) high short

/-- What lacks bytes also lacks them in a longer stream that has no more behind them. -/
theorem transfer_of_error {whole : Bytes} {distance : Nat} (h : Needs step needed) (low : 0 ≤ offset)
    (enough : whole.size = data.size + distance ∨ ¬ Outcome.IsTruncated (step data offset))
    (failed : step data offset = .error e stop) :
    step whole (offset + distance) = .error (e.moved distance) (stop + distance) := by
  obtain ⟨short, rfl, rfl⟩ := (h low).mp failed
  have sameEnd : whole.size = data.size + distance := by
    simpa [failed, Outcome.IsTruncated, DecodeError.IsTruncated] using enough
  have sameLeft : left whole (stop + distance) = left data stop := by
    simp only [left]
    omega
  exact (h (by omega)).mpr ⟨by omega, by rw [sameLeft]; rfl, rfl⟩

end Needs

/-! ## Steady steps -/

/-- What all steps have in common, whatever they read. -/
structure Steady {α : Type} (step : Bytes → Decode α) : Prop where
  forward : ∀ data, Forward data (step data)
  givesUp : ∀ {data offset e stop}, 0 ≤ offset → offset ≤ data.size →
    step data offset = .error e stop → GivesUp data offset e stop
  /-- In a longer stream the step does the same, unless it wants the bytes that are new there. -/
  transfer : ∀ {data whole distance offset}, StandsIn data whole distance → 0 ≤ offset →
    (whole.size = data.size + distance ∨ ¬ Outcome.IsTruncated (step data offset)) →
    step whole (offset + distance) = Outcome.moved distance (step data offset)
  /-- A step that ran out of bytes is completed by some bytes and takes all of them. -/
  complete : ∀ {data offset e stop}, 0 ≤ offset → offset ≤ data.size →
    step data offset = .error e stop → e.IsTruncated →
    ∃ ext a, step (data ++ ext) offset = .ok a (data ++ ext).size

namespace Steady

variable {α β : Type}

section Consequences

variable {step : Bytes → Decode α} {data ext : Bytes} {offset next stop : Int} {a : α}
  {e : DecodeError}

theorem transfer_of_ok {whole : Bytes} {distance : Nat} (h : Steady step)
    (held : StandsIn data whole distance) (low : 0 ≤ offset) (read : step data offset = .ok a next) :
    step whole (offset + distance) = .ok a (next + distance) := by
  have same := h.transfer held low (.inr (by simp [read, Outcome.IsTruncated]))
  rwa [read] at same

theorem append_of_ok (h : Steady step) (low : 0 ≤ offset) (read : step data offset = .ok a next) :
    step (data ++ ext) offset = .ok a next := by
  simpa using h.transfer_of_ok (.front data ext) low read

theorem append_of_error (h : Steady step) (low : 0 ≤ offset)
    (failed : step data offset = .error e stop) (whole : ¬ e.IsTruncated) :
    step (data ++ ext) offset = .error e stop := by
  have same := h.transfer (.front data ext) low (.inr (by simpa [failed, Outcome.IsTruncated] using whole))
  simpa [failed] using same

/-- A step at the end of a stream can be given the bytes that it reads. -/
theorem complete_at_end (h : Steady step) (data : Bytes) :
    ∃ ext a, step (data ++ ext) data.size = .ok a (data ++ ext).size := by
  cases outcome : step data data.size with
  | ok a next =>
      have moved := h.forward data _ _ _ outcome
      obtain rfl : next = data.size := by omega
      exact ⟨#[], a, by simpa using outcome⟩
  | error e stop =>
      have ended := (h.givesUp (by omega) (Int.le_refl _) outcome).isTruncated_of_end
      exact h.complete (by omega) (Int.le_refl _) outcome ended

/-- If bytes can be put behind the stream with which a failed step succeeds, it ran out of bytes. -/
theorem isTruncated_iff (h : Steady step) (low : 0 ≤ offset) (high : offset ≤ data.size)
    (failed : step data offset = .error e stop) :
    e.IsTruncated ↔ ∃ ext a next, step (data ++ ext) offset = .ok a next := by
  constructor
  · intro short
    obtain ⟨ext, a, read⟩ := h.complete low high failed short
    exact ⟨ext, a, _, read⟩
  · intro completed
    obtain ⟨ext, a, next, read⟩ := completed
    refine Decidable.byContradiction fun whole => ?_
    cases (h.append_of_error low failed whole).symm.trans read

end Consequences

theorem pure (a : α) : Steady fun _ => (Pure.pure a : Decode α) where
  forward _ := .pure a
  givesUp _ _ failed := nomatch failed
  transfer _ _ _ := rfl
  complete _ _ failed := nomatch failed

section Bind

variable {step : Bytes → Decode α} {rest : Bytes → α → Decode β}

theorem givesUp_bind (hs : Steady step) (hr : ∀ a, Steady (rest · a)) {data : Bytes} {offset : Int}
    {e : DecodeError} {stop : Int} (low : 0 ≤ offset) (high : offset ≤ data.size)
    (failed : (step data >>= rest data) offset = .error e stop) : GivesUp data offset e stop := by
  rcases bind_eq_error_iff.mp failed with first | ⟨a, middle, read, second⟩
  · exact hs.givesUp low high first
  · have moved := hs.forward data _ _ _ read
    exact ((hr a).givesUp (by omega) (moved.2 high) second).from_earlier moved.1

theorem transfer_bind (hs : Steady step) (hr : ∀ a, Steady (rest · a)) {data whole : Bytes}
    {distance : Nat} {offset : Int} (held : StandsIn data whole distance) (low : 0 ≤ offset)
    (enough : whole.size = data.size + distance ∨
      ¬ Outcome.IsTruncated ((step data >>= rest data) offset)) :
    (step whole >>= rest whole) (offset + distance) =
      Outcome.moved distance ((step data >>= rest data) offset) := by
  cases outcome : step data offset with
  | ok a middle =>
      have moved := hs.forward data _ _ _ outcome
      rw [bind_of_ok outcome] at enough ⊢
      rw [bind_of_ok (hs.transfer_of_ok held low outcome)]
      exact (hr a).transfer held (by omega) enough
  | error e stop =>
      rw [bind_of_error outcome] at enough ⊢
      have first := hs.transfer held low (by rwa [outcome])
      rw [outcome] at first
      exact bind_of_error first

/-- The first step is completed first, and what comes behind it is then completed at the end. -/
theorem complete_bind (hs : Steady step) (hr : ∀ a, Steady (rest · a)) {data : Bytes} {offset : Int}
    {e : DecodeError} {stop : Int} (low : 0 ≤ offset) (high : offset ≤ data.size)
    (failed : (step data >>= rest data) offset = .error e stop) (short : e.IsTruncated) :
    ∃ ext b, (step (data ++ ext) >>= rest (data ++ ext)) offset = .ok b (data ++ ext).size := by
  rcases bind_eq_error_iff.mp failed with first | ⟨a, middle, read, second⟩
  · obtain ⟨front, a, read⟩ := hs.complete low high first short
    obtain ⟨back, b, read'⟩ := (hr a).complete_at_end (data ++ front)
    refine ⟨front ++ back, b, ?_⟩
    rw [← Array.append_assoc, bind_of_ok (hs.append_of_ok low read)]
    exact read'
  · have moved := hs.forward data _ _ _ read
    obtain ⟨ext, b, read'⟩ := (hr a).complete (by omega) (moved.2 high) second short
    exact ⟨ext, b, by rwa [bind_of_ok (hs.append_of_ok low read)]⟩

theorem bind (hs : Steady step) (hr : ∀ a, Steady (rest · a)) :
    Steady fun data => step data >>= rest data where
  forward data := .bind (hs.forward data) fun a => (hr a).forward data
  givesUp := givesUp_bind hs hr
  transfer := transfer_bind hs hr
  complete := complete_bind hs hr

end Bind

theorem map {step : Bytes → Decode α} (f : α → β) (h : Steady step) :
    Steady fun data => step data >>= fun a => Pure.pure (f a) :=
  bind h fun a => pure (f a)

/-- A step that needs a number of bytes at once is steady if any bytes will do. -/
theorem of_needs {step : Bytes → Decode α} {spells : α → List UInt8 → Prop} {needed : Nat}
    (forward : ∀ data, Forward data (step data)) (reads : ∀ data, Reads data (step data) spells)
    (needs : Needs step needed)
    (filled : ∀ front : List UInt8, front.length < needed → ∃ back a, spells a (front ++ back)) :
    Steady step where
  forward := forward
  givesUp := needs.givesUp
  transfer := by
    intro data whole distance offset held low enough
    cases outcome : step data offset with
    | ok a next =>
        obtain ⟨bytes, spelled, spans⟩ := (reads data _ _ _).mp outcome
        exact (reads whole _ _ _).mpr ⟨bytes, spelled, spans.transfer held⟩
    | error e stop => exact needs.transfer_of_error low enough outcome
  complete := by
    intro data offset e stop low high failed _
    obtain ⟨short, rfl, rfl⟩ := (needs low).mp failed
    obtain ⟨i, rfl⟩ := Int.eq_ofNat_of_zero_le low
    have count : (data.toList.drop i).length = left data i := by
      simp only [List.length_drop, Array.length_toList, left]
      omega
    obtain ⟨back, a, spelled⟩ := filled (data.toList.drop i) (by omega)
    refine ⟨back.toArray, a, (reads _ _ _ _).mpr ⟨_, spelled, spans_iff_prefix.mpr ⟨?_, ?_⟩⟩⟩
    · simp
      omega
    · have behind : (data ++ back.toArray).toList.drop i = data.toList.drop i ++ back := by
        rw [Array.toList_append, List.drop_append_of_le_length (by simp; omega)]
      simp only [behind, List.prefix_rfl]

theorem byte : Steady EventScript.byte := by
  apply of_needs (fun _ => .byte) (fun _ => .byte) (.byteThen 1)
  intro front short
  exact ⟨[0], 0, by simp [List.eq_nil_of_length_eq_zero (Nat.lt_one_iff.mp short)]⟩

theorem take (n : Nat) : Steady fun data => EventScript.take data (n + 1) := by
  apply of_needs (fun _ => .take _) (fun _ => .take n) (.take n)
  intro front short
  have full : (front ++ List.replicate (n + 1 - front.length) (0 : UInt8)).length = n + 1 := by
    simp
    omega
  exact ⟨_, ⟨_, full⟩, rfl⟩

theorem takeTwo : Steady EventScript.takeTwo :=
  map _ (take 1)

theorem takeThree : Steady EventScript.takeThree :=
  map _ (take 2)

theorem word : Steady EventScript.word :=
  map _ takeTwo

theorem long : Steady EventScript.long :=
  map _ takeThree

theorem readMany {read : Bytes → Decode α} (h : Steady read) (n : Nat) :
    Steady fun data => EventScript.readMany n (read data) := by
  induction n with
  | zero => exact pure []
  | succ n ih => exact bind h fun a => map (a :: ·) ih

end Steady

/-! ## Tagged events -/

theorem givesUp_peek {data : Bytes} {offset stop : Int} {e : DecodeError} (low : 0 ≤ offset)
    (high : offset ≤ data.size) (failed : peek data offset = .error e stop) :
    offset = data.size ∧ GivesUp data offset e stop := by
  have needs : Needs peek 1 := .byteThen 0
  obtain ⟨short, _⟩ := (needs low).mp failed
  refine ⟨?_, needs.givesUp low high failed⟩
  simp only [left] at short
  omega

theorem transfer_peek {data whole : Bytes} {distance : Nat} {offset : Int}
    (held : StandsIn data whole distance) (low : 0 ≤ offset)
    (enough : whole.size = data.size + distance ∨ ¬ Outcome.IsTruncated (peek data offset)) :
    peek whole (offset + distance) = Outcome.moved distance (peek data offset) := by
  have needs : Needs peek 1 := .byteThen 0
  cases outcome : peek data offset with
  | ok tag next =>
      obtain ⟨found, rfl⟩ := peek_eq_ok_iff.mp outcome
      exact peek_eq_ok_iff.mpr ⟨held.same _ _ found, rfl⟩
  | error e stop => exact needs.transfer_of_error low enough outcome

section Forms

variable {α φ : Type} {form? : UInt8 → Option φ} {read : Bytes → φ → Decode α}
  {forward : ∀ data form, Forward data (read data form)} {data : Bytes} {offset : Int} {tag : UInt8}

theorem ofForms_decode_of_unknown (found : data.at? offset = some tag) (unknown : form? tag = none) :
    (Decoder.ofForms form? read forward).decode data offset = .error (.unrecognized tag offset) offset := by
  have seen : peek data offset = .ok tag offset := peek_eq_ok_iff.mpr ⟨found, rfl⟩
  simp only [Decoder.ofForms, decodeForm, bind_of_ok seen, unknown, unrecognized]
  rfl

theorem ofForms_decode_of_form {form : φ} (found : data.at? offset = some tag)
    (known : form? tag = some form) :
    (Decoder.ofForms form? read forward).decode data offset = read data form (offset + 1) := by
  have seen : peek data offset = .ok tag offset := peek_eq_ok_iff.mpr ⟨found, rfl⟩
  have taken : byte data offset = .ok tag (offset + 1) := byteThen_eq_ok_iff.mpr ⟨found, rfl⟩
  simp only [Decoder.ofForms, decodeForm, bind_of_ok seen, known, bind_of_ok taken]

theorem ofForms_decode_of_end {e : DecodeError} {stop : Int} (ended : peek data offset = .error e stop) :
    (Decoder.ofForms form? read forward).decode data offset = .error e stop :=
  bind_of_error ended

end Forms

theorem Steady.ofForms {α φ : Type} {form? : UInt8 → Option φ} {read : Bytes → φ → Decode α}
    {forward : ∀ data form, Forward data (read data form)} (h : ∀ form, Steady (read · form))
    (inhabited : ∃ tag form, form? tag = some form) :
    Steady (Decoder.ofForms form? read forward).decode where
  forward data offset a next read := by
    have := (Decoder.ofForms form? _ forward).advances data offset a next read
    omega
  givesUp := by
    intro data offset e stop low high failed
    cases seen : peek data offset with
    | error e' stop' =>
        cases (ofForms_decode_of_end seen).symm.trans failed
        exact (givesUp_peek low high seen).2
    | ok tag _ =>
        have found := (peek_eq_ok_iff.mp seen).1
        have inside := Bytes.bounds_of_at? found
        cases known : form? tag with
        | none =>
            cases (ofForms_decode_of_unknown found known).symm.trans failed
            exact .unrecognized (Int.le_refl _) found
        | some form =>
            rw [ofForms_decode_of_form found known] at failed
            exact ((h form).givesUp (by omega) (by omega) failed).from_earlier (by omega)
  transfer := by
    intro data whole distance offset held low enough
    cases seen : peek data offset with
    | error e stop =>
        rw [ofForms_decode_of_end seen] at enough ⊢
        have same := transfer_peek held low (by rwa [seen])
        rw [seen] at same
        exact ofForms_decode_of_end same
    | ok tag _ =>
        have found := (peek_eq_ok_iff.mp seen).1
        have found' := held.same _ _ found
        cases known : form? tag with
        | none => rw [ofForms_decode_of_unknown found known, ofForms_decode_of_unknown found' known]; rfl
        | some form =>
            rw [ofForms_decode_of_form found known] at enough ⊢
            have same := (h form).transfer held (by omega) enough
            rw [ofForms_decode_of_form found' known, ← same]
            congr 1
            omega
  complete := by
    intro data offset e stop low high failed short
    cases seen : peek data offset with
    | error e' stop' =>
        -- There is no tag yet, so we take one that is known.
        obtain ⟨rfl, _⟩ := givesUp_peek low high seen
        obtain ⟨tag, form, known⟩ := inhabited
        obtain ⟨ext, a, read⟩ := (h form).complete_at_end (data ++ #[tag])
        have found := Bytes.at?_append ext (Bytes.at?_push data tag)
        refine ⟨#[tag] ++ ext, a, ?_⟩
        rw [← Array.append_assoc, ofForms_decode_of_form found known]
        simpa using read
    | ok tag _ =>
        have found := (peek_eq_ok_iff.mp seen).1
        have inside := Bytes.bounds_of_at? found
        cases known : form? tag with
        | none =>
            cases (ofForms_decode_of_unknown found known).symm.trans failed
            contradiction
        | some form =>
            rw [ofForms_decode_of_form found known] at failed
            obtain ⟨ext, a, read⟩ := (h form).complete (by omega) (by omega) failed short
            have found' := Bytes.at?_append ext found
            exact ⟨ext, a, by rwa [ofForms_decode_of_form found' known]⟩

/-! ## Chains -/

section Chains

variable {α : Type} {d : Decoder α} {stops : List UInt8} {data : Bytes} {done : List α} {offset : Int}

theorem assembleFrom_of_end {e : DecodeError} {stop : Int} (ended : peek data offset = .error e stop) :
    assembleFrom d stops data done offset = .error e stop := by
  rw [assembleFrom, ended]

theorem assembleFrom_of_stop {tag : UInt8} (found : data.at? offset = some tag) (isStop : tag ∈ stops) :
    assembleFrom d stops data done offset = .ok done.reverse (offset + 1) := by
  rw [assembleFrom, peek_eq_ok_iff.mpr ⟨found, rfl⟩]
  simp only [if_pos isStop]

theorem assembleFrom_of_error {tag : UInt8} {e : DecodeError} {stop : Int}
    (found : data.at? offset = some tag) (noStop : tag ∉ stops)
    (failed : d.decode data offset = .error e stop) :
    assembleFrom d stops data done offset = .error e stop := by
  rw [assembleFrom, peek_eq_ok_iff.mpr ⟨found, rfl⟩]
  simp only [if_neg noStop]
  split
  · rename_i failed'
    cases failed.symm.trans failed'
    rfl
  · rename_i read
    cases failed.symm.trans read

theorem assembleFrom_of_event {tag : UInt8} {a : α} {next : Int} (found : data.at? offset = some tag)
    (noStop : tag ∉ stops) (read : d.decode data offset = .ok a next) :
    assembleFrom d stops data done offset = assembleFrom d stops data (a :: done) next := by
  rw [assembleFrom, peek_eq_ok_iff.mpr ⟨found, rfl⟩]
  simp only [if_neg noStop]
  split
  · rename_i failed
    cases failed.symm.trans read
  · rename_i read'
    cases read.symm.trans read'
    rfl

end Chains

namespace Steady

variable {α : Type} {d : Decoder α} {stops : List UInt8}

theorem givesUp_assembleFrom (h : Steady d.decode) {data : Bytes} {done : List α} {offset stop : Int}
    {e : DecodeError} (low : 0 ≤ offset) (high : offset ≤ data.size)
    (failed : assembleFrom d stops data done offset = .error e stop) : GivesUp data offset e stop := by
  fun_induction assembleFrom d stops data done offset with
  | case1 done offset e' stop' ended =>
      cases failed
      exact (givesUp_peek low high ended).2
  | case2 => cases failed
  | case3 done offset tag _ seen noStop e' stop' failed' =>
      cases failed
      exact h.givesUp low high failed'
  | case4 done offset tag _ seen noStop a next read moved ih =>
      exact (ih (by omega) moved.2 failed).from_earlier (by omega)

theorem transfer_assembleFrom (h : Steady d.decode) {data whole : Bytes} {distance : Nat}
    {done : List α} {offset : Int} (held : StandsIn data whole distance) (low : 0 ≤ offset)
    (enough : whole.size = data.size + distance ∨
      ¬ Outcome.IsTruncated (assembleFrom d stops data done offset)) :
    assembleFrom d stops whole done (offset + distance) =
      Outcome.moved distance (assembleFrom d stops data done offset) := by
  fun_induction assembleFrom d stops data done offset with
  | case1 done offset e stop ended =>
      have same := transfer_peek held low (by rwa [ended])
      rw [ended] at same
      exact assembleFrom_of_end same
  | case2 done offset tag _ seen isStop =>
      have found := held.same _ _ (peek_eq_ok_iff.mp seen).1
      rw [assembleFrom_of_stop found isStop]
      simp only [Outcome.moved, EStateM.Result.ok.injEq, true_and]
      omega
  | case3 done offset tag _ seen noStop e stop failed =>
      have found := held.same _ _ (peek_eq_ok_iff.mp seen).1
      have same := h.transfer held low (by rwa [failed])
      rw [failed] at same
      exact assembleFrom_of_error found noStop same
  | case4 done offset tag _ seen noStop a next read moved ih =>
      have found := held.same _ _ (peek_eq_ok_iff.mp seen).1
      rw [assembleFrom_of_event found noStop (h.transfer_of_ok held low read)]
      exact ih (by omega) enough

/-- A chain that ran out of bytes is completed by what its last event lacks and a stop byte. -/
theorem complete_assembleFrom (h : Steady d.decode) {b : UInt8} (isStop : b ∈ stops) {data : Bytes}
    {done : List α} {offset stop : Int} {e : DecodeError} (low : 0 ≤ offset) (high : offset ≤ data.size)
    (failed : assembleFrom d stops data done offset = .error e stop) (short : e.IsTruncated) :
    ∃ ext events, assembleFrom d stops (data ++ ext) done offset = .ok events (data ++ ext).size := by
  fun_induction assembleFrom d stops data done offset with
  | case1 done offset e' stop' ended =>
      obtain ⟨rfl, _⟩ := givesUp_peek low high ended
      exact ⟨#[b], done.reverse, by rw [assembleFrom_of_stop (Bytes.at?_push data b) isStop]; simp⟩
  | case2 => cases failed
  | case3 done offset tag _ seen noStop e' stop' failed' =>
      cases failed
      obtain ⟨ext, a, read⟩ := h.complete low high failed' short
      have found := (peek_eq_ok_iff.mp seen).1
      refine ⟨ext ++ #[b], (a :: done).reverse, ?_⟩
      rw [← Array.append_assoc, assembleFrom_of_event (Bytes.at?_append _ (Bytes.at?_append _ found)) noStop
        (h.append_of_ok low read), assembleFrom_of_stop (Bytes.at?_push _ b) isStop]
      simp
      omega
  | case4 done offset tag _ seen noStop a next read moved ih =>
      obtain ⟨ext, events, completed⟩ := ih (by omega) moved.2 failed
      have found := Bytes.at?_append ext (peek_eq_ok_iff.mp seen).1
      exact ⟨ext, events, by rwa [assembleFrom_of_event found noStop (h.append_of_ok low read)]⟩

theorem assemble (h : Steady d.decode) {b : UInt8} (isStop : b ∈ stops) :
    Steady fun data => EventScript.assemble d stops data where
  forward _ := .assemble d stops
  givesUp := givesUp_assembleFrom h
  transfer := transfer_assembleFrom h
  complete := complete_assembleFrom h isStop

end Steady

end EventScript
