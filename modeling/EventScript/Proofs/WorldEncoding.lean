import EventScript.Proofs.EventChains
import EventScript.Script

/-! # Encoding of the world-map dialect

Every well-formed event has one encoding: a tag, which may hold small operands, and the operands behind
it. Decoding accepts these encodings and nothing else, so a script is read exactly where the encodings of
its events stand one behind the other, with a stop byte behind the last.
-/

namespace EventScript

namespace Condition

/-- Byte and bit fit into a packed condition. -/
def WellFormed (c : Condition) : Prop :=
  c.index.toNat < 0x1000 ∧ c.bit.toNat < 8

instance (c : Condition) : Decidable c.WellFormed :=
  inferInstanceAs (Decidable (_ ∧ _))

/-- The bit in the three lowest bits, the byte above it, and the state on top. -/
def pack (c : Condition) : UInt16 :=
  .ofNat (c.bit.toNat + 8 * c.index.toNat + 0x8000 * c.isSet.toNat)

def encode (c : Condition) : List UInt8 :=
  wordBytes c.pack

theorem eq_ofWord_iff {c : Condition} {w : UInt16} :
    c = ofWord w ↔ c.WellFormed ∧ w = c.pack := by
  obtain ⟨isSet, index, bit⟩ := c
  have := w.toNat_lt
  have := index.toNat_lt
  have := bit.toNat_lt
  have := isSet.toNat_le
  simp only [ofWord, pack, WellFormed, mk.injEq, eq_flag_iff, bits, Nat.reduceShiftLeft,
    ← UInt16.toNat_inj, ← UInt8.toNat_inj, UInt16.toNat_ofNat', UInt8.toNat_ofNat']
  omega

theorem reads_read {data : Bytes} :
    Reads data (read data) fun c bytes => c.WellFormed ∧ bytes = c.encode := by
  apply (Reads.map _ .word).of_iff
  intro c bytes
  constructor
  · intro h
    obtain ⟨w, rfl, hc⟩ := h
    obtain ⟨valid, rfl⟩ := eq_ofWord_iff.mp hc
    exact ⟨valid, rfl⟩
  · intro h
    obtain ⟨valid, rfl⟩ := h
    exact ⟨c.pack, rfl, eq_ofWord_iff.mpr ⟨valid, rfl⟩⟩

end Condition

namespace WorldEvent

/-- The speeds in the order of their tags. -/
def speeds : List Speed := [.slowest, .slow, .normal, .fast, .fastest]

/-- The directions to turn to in the order of their tags. -/
def turns : List Direction := [.up, .right, .down, .left]

/-- The diagonal moves in the order of their tags. -/
def diagonals : List (Diagonal × UInt8 × UInt8) :=
  [(.rightUp, 1, 1), (.rightDown, 1, 1), (.leftDown, 1, 1), (.leftUp, 1, 1), (.rightUp, 1, 2),
    (.rightUp, 2, 1), (.rightDown, 2, 1), (.rightDown, 1, 2), (.leftDown, 1, 2), (.leftDown, 2, 1),
    (.leftUp, 2, 1), (.leftUp, 1, 2)]

/-- The operands are in the range that an encoding can hold. -/
def WellFormed : WorldEvent → Prop
  | .clrSetEventBit _ index bit => index.toNat < 0x2000 ∧ bit.toNat < 8
  | .conditionalJump op (some conditions) addr =>
      (op = .all ∨ op = .any) ∧ 1 ≤ conditions.length ∧ conditions.length ≤ 8 ∧
        (∀ c ∈ conditions, c.WellFormed) ∧ addr.toNat < 0x1000000
  | .conditionalJump _ none _ => False
  | .entitySpeed speed => speed ∈ speeds
  | .graphicalAction action _ => action.toNat < 64
  | .loadMap _ _ _ _ variant => variant = 0xd2 ∨ variant = 0xd3
  | .move dir steps => dir.toNat < 4 ∧ steps.toNat < 8
  | .moveDiag dir across along => (dir, across, along) ∈ diagonals
  | .turnCharacter dir => dir ∈ turns
  | .fadeScreen | .hideCharacter | .hideMiniMap | .pause _ | .showCharacter | .showMiniMap
  | .unfadeScreen | .unknownCmdC7 .. => True

instance (e : WorldEvent) : Decidable e.WellFormed :=
  match e with
  | .clrSetEventBit .. | .move .. | .conditionalJump _ (some _) _ =>
      inferInstanceAs (Decidable (_ ∧ _))
  | .conditionalJump _ none _ => inferInstanceAs (Decidable False)
  | .entitySpeed _ | .moveDiag .. | .turnCharacter _ => inferInstanceAs (Decidable (_ ∈ _))
  | .graphicalAction .. => inferInstanceAs (Decidable (_ < _))
  | .loadMap .. => inferInstanceAs (Decidable (_ ∨ _))
  | .fadeScreen | .hideCharacter | .hideMiniMap | .pause _ | .showCharacter | .showMiniMap
  | .unfadeScreen | .unknownCmdC7 .. => inferInstanceAs (Decidable True)

/-- The tag of an event and the operands behind it. -/
def encode : WorldEvent → List UInt8
  | .clrSetEventBit set index bit =>
      (if set then 0xc8 else 0xc9) :: wordBytes (.ofNat (bit.toNat + 8 * index.toNat))
  | .conditionalJump op conditions addr =>
      let conditions := conditions.getD []
      .ofNat (0xb0 + 8 * (decide (op = .any)).toNat + (conditions.length - 1)) ::
        (conditions.flatMap Condition.encode ++ longBytes addr)
  | .entitySpeed speed => [.ofNat (0xc0 + speeds.idxOf speed)]
  | .fadeScreen => [0xd9]
  | .graphicalAction action flipped => [.ofNat (action.toNat + 64 * flipped.toNat)]
  | .hideCharacter => [0xd1]
  | .hideMiniMap => [0xdd]
  | .loadMap map x y mode variant => variant :: (wordBytes map ++ [x, y, mode])
  | .move dir steps => [.ofNat (0x80 + 4 * steps.toNat + dir.toNat)]
  | .moveDiag dir across along => [.ofNat (0xa0 + diagonals.idxOf (dir, across, along))]
  | .pause frames => [0xe0, frames]
  | .showCharacter => [0xd0]
  | .showMiniMap => [0xdf]
  | .turnCharacter dir => [.ofNat (0xcc + turns.idxOf dir)]
  | .unfadeScreen => [0xd8]
  | .unknownCmdC7 first second => [0xc7, first, second]

namespace Form

/-- How a form spells the operands of its events. -/
inductive Spells : Form → WorldEvent → List UInt8 → Prop where
  | whole (event : WorldEvent) : Spells (.whole event) event []
  | conditionalJump {op : CondOp} {conditions : List Condition} {addr : UInt32}
      (valid : ∀ c ∈ conditions, c.WellFormed) (small : addr.toNat < 0x1000000) :
      Spells (.conditionalJump op conditions.length) (.conditionalJump op (some conditions) addr)
        (conditions.flatMap Condition.encode ++ longBytes addr)
  | clrSetEventBit {set : Bool} {index : UInt16} {bit : UInt8} (index_lt : index.toNat < 0x2000)
      (bit_lt : bit.toNat < 8) :
      Spells (.clrSetEventBit set) (.clrSetEventBit set index bit)
        (wordBytes (.ofNat (bit.toNat + 8 * index.toNat)))
  | loadMap {map : UInt16} {x y mode variant : UInt8} :
      Spells (.loadMap variant) (.loadMap map x y mode variant) (wordBytes map ++ [x, y, mode])
  | pause {frames : UInt8} : Spells .pause (.pause frames) [frames]
  | unknownCmdC7 {first second : UInt8} :
      Spells .unknownCmdC7 (.unknownCmdC7 first second) [first, second]

theorem eventBit_iff {value index : UInt16} {bit : UInt8} :
    index = .ofNat (bits value.toNat 3 13) ∧ bit = .ofNat (bits value.toNat 0 3) ↔
      (index.toNat < 0x2000 ∧ bit.toNat < 8) ∧ value = .ofNat (bit.toNat + 8 * index.toNat) := by
  have := value.toNat_lt
  have := index.toNat_lt
  have := bit.toNat_lt
  simp only [bits, Nat.reduceShiftLeft, ← UInt16.toNat_inj, ← UInt8.toNat_inj, UInt16.toNat_ofNat',
    UInt8.toNat_ofNat']
  omega

theorem reads_read {data : Bytes} (form : Form) : Reads data (form.read data) form.Spells := by
  cases form with
  | whole event =>
      apply (Reads.pure event).of_iff
      intro e bytes
      constructor
      · intro h
        obtain ⟨rfl, rfl⟩ := h
        exact .whole _
      · intro spelled
        cases spelled with
        | whole => exact ⟨rfl, rfl⟩
  | conditionalJump op count =>
      apply (Reads.bind (.readMany Condition.reads_read count) fun _ => .map _ .long).of_iff
      intro e bytes
      constructor
      · intro h
        obtain ⟨conditions, _, _, ⟨rfl, valid, rfl⟩, ⟨addr, ⟨small, rfl⟩, rfl⟩, rfl⟩ := h
        exact .conditionalJump valid small
      · intro spelled
        cases spelled with
        | conditionalJump valid small => exact ⟨_, _, _, ⟨rfl, valid, rfl⟩, ⟨_, ⟨small, rfl⟩, rfl⟩, rfl⟩
  | clrSetEventBit set =>
      apply (Reads.map _ .word).of_iff
      intro e bytes
      constructor
      · intro h
        obtain ⟨value, rfl, rfl⟩ := h
        obtain ⟨⟨index_lt, bit_lt⟩, same⟩ := eventBit_iff.mp (And.intro (Eq.refl _) (Eq.refl _))
        have spelled := @Spells.clrSetEventBit set _ _ index_lt bit_lt
        rwa [← same] at spelled
      · intro spelled
        cases spelled with
        | clrSetEventBit index_lt bit_lt =>
            obtain ⟨index_eq, bit_eq⟩ := eventBit_iff.mpr ⟨⟨index_lt, bit_lt⟩, rfl⟩
            exact ⟨_, rfl, by rw [← index_eq, ← bit_eq]⟩
  | loadMap variant =>
      apply (Reads.bind .word fun _ => .map _ .takeThree).of_iff
      intro e bytes
      constructor
      · intro h
        obtain ⟨map, _, _, rfl, ⟨v, rfl, rfl⟩, rfl⟩ := h
        exact .loadMap
      · intro spelled
        cases spelled with
        | loadMap => exact ⟨_, _, _, rfl, ⟨(_, _, _), rfl, rfl⟩, rfl⟩
  | pause =>
      apply (Reads.map _ .byte).of_iff
      intro e bytes
      constructor
      · intro h
        obtain ⟨frames, rfl, rfl⟩ := h
        exact .pause
      · intro spelled
        cases spelled with
        | pause => exact ⟨_, rfl, rfl⟩
  | unknownCmdC7 =>
      apply (Reads.map _ .takeTwo).of_iff
      intro e bytes
      constructor
      · intro h
        obtain ⟨v, rfl, rfl⟩ := h
        exact .unknownCmdC7
      · intro spelled
        cases spelled with
        | unknownCmdC7 => exact ⟨(_, _), rfl, rfl⟩

/-- The tags of a form: the events of each form are encoded with them. -/
def HasTag (tag : UInt8) : Form → Prop
  | .whole event => event.WellFormed ∧ event.encode = [tag]
  | .conditionalJump op count =>
      (op = .all ∨ op = .any) ∧ 1 ≤ count ∧ count ≤ 8 ∧
        tag = .ofNat (0xb0 + 8 * (decide (op = .any)).toNat + (count - 1))
  | .clrSetEventBit set => tag = if set then 0xc8 else 0xc9
  | .loadMap variant => tag = variant ∧ (variant = 0xd2 ∨ variant = 0xd3)
  | .pause => tag = 0xe0
  | .unknownCmdC7 => tag = 0xc7

instance (tag : UInt8) (form : Form) : Decidable (form.HasTag tag) :=
  match form with
  | .whole _ | .conditionalJump .. | .loadMap _ => inferInstanceAs (Decidable (_ ∧ _))
  | .clrSetEventBit _ | .pause | .unknownCmdC7 => inferInstanceAs (Decidable (_ = _))

theorem hasTag_of_mem : ∀ row ∈ forms, row.2.HasTag row.1 := by decide

theorem hasTag_of_ofTag? {tag : UInt8} {form : Form} (h : ofTag? tag = some form) :
    form.HasTag tag := by
  have := tag.toNat_lt
  -- Three ranges of tags, in which operands are kept in the tag, and then the table.
  simp only [ofTag?, inRange_iff, UInt8.reduceToNat] at h
  split at h
  · cases h
    refine ⟨?_, ?_⟩
    · simp only [WellFormed, bits, Nat.reduceShiftLeft, UInt8.toNat_ofNat']
      omega
    · simp only [encode, bits, Nat.reduceShiftLeft, toNat_flag, UInt8.toNat_ofNat', List.cons.injEq,
        and_true, ← UInt8.toNat_inj]
      omega
  · split at h
    · cases h
      refine ⟨?_, ?_⟩
      · simp only [WellFormed, bits, Nat.reduceShiftLeft, UInt8.toNat_ofNat']
        omega
      · simp only [encode, bits, Nat.reduceShiftLeft, UInt8.toNat_ofNat', List.cons.injEq, and_true,
          ← UInt8.toNat_inj]
        omega
    · split at h
      · cases h
        have state := toNat_flag tag.toNat 3
        cases high : flag tag.toNat 3 with
        | false | true =>
            simp [HasTag, bits, high, CondOp.all, CondOp.any, ← UInt8.toNat_inj] at state ⊢
            omega
      · obtain ⟨before, behind, row, _⟩ := List.lookup_eq_some_iff.mp h
        exact hasTag_of_mem (tag, form) (row ▸ by simp)

theorem ofTag?_of_mem_stops : ∀ b ∈ stops, ofTag? b = none :=
  List.forall_mem_cons.mpr ⟨rfl, List.forall_mem_singleton.mpr rfl⟩

theorem ofTag?_graphicalAction {action : UInt8} {flipped : Bool} (h : action.toNat < 64) :
    ofTag? (.ofNat (action.toNat + 64 * flipped.toNat)) =
      some (.whole (.graphicalAction action flipped)) := by
  have small := flipped.toNat_le
  have tag : (UInt8.ofNat (action.toNat + 64 * flipped.toNat)).toNat =
      action.toNat + 64 * flipped.toNat := by
    simp only [UInt8.toNat_ofNat']
    omega
  have low : bits (action.toNat + 64 * flipped.toNat) 0 6 = action.toNat := by
    simp only [bits, Nat.reduceShiftLeft]
    omega
  have high : flag (action.toNat + 64 * flipped.toNat) 6 = flipped :=
    (eq_flag_iff.mpr (by omega)).symm
  simp only [ofTag?, inRange_iff, UInt8.reduceToNat, tag, low, high, UInt8.ofNat_toNat]
  rw [if_pos (by omega)]

theorem ofTag?_move {dir steps : UInt8} (hd : dir.toNat < 4) (hs : steps.toNat < 8) :
    ofTag? (.ofNat (0x80 + 4 * steps.toNat + dir.toNat)) = some (.whole (.move dir steps)) := by
  have tag : (UInt8.ofNat (0x80 + 4 * steps.toNat + dir.toNat)).toNat =
      0x80 + 4 * steps.toNat + dir.toNat := by
    simp only [UInt8.toNat_ofNat']
    omega
  have low : bits (0x80 + 4 * steps.toNat + dir.toNat) 0 2 = dir.toNat := by
    simp only [bits, Nat.reduceShiftLeft]
    omega
  have high : bits (0x80 + 4 * steps.toNat + dir.toNat) 2 3 = steps.toNat := by
    simp only [bits, Nat.reduceShiftLeft]
    omega
  simp only [ofTag?, inRange_iff, UInt8.reduceToNat, tag, low, high, UInt8.ofNat_toNat]
  rw [if_neg (by omega), if_pos (by omega)]

theorem ofTag?_conditionalJump {any : Bool} {count : Nat} (least : 1 ≤ count) (most : count ≤ 8) :
    ofTag? (.ofNat (0xb0 + 8 * any.toNat + (count - 1))) =
      some (.conditionalJump (if any then .any else .all) count) := by
  have small := any.toNat_le
  have tag : (UInt8.ofNat (0xb0 + 8 * any.toNat + (count - 1))).toNat =
      0xb0 + 8 * any.toNat + (count - 1) := by
    simp only [UInt8.toNat_ofNat']
    omega
  have low : bits (0xb0 + 8 * any.toNat + (count - 1)) 0 3 + 1 = count := by
    simp only [bits, Nat.reduceShiftLeft]
    omega
  have high : flag (0xb0 + 8 * any.toNat + (count - 1)) 3 = any :=
    (eq_flag_iff.mpr (by omega)).symm
  simp only [ofTag?, inRange_iff, UInt8.reduceToNat, tag, low, high]
  rw [if_neg (by omega), if_neg (by omega), if_pos (by omega)]

end Form

theorem tagged_iff {e : WorldEvent} {bytes : List UInt8} :
    Tagged Form.ofTag? Form.Spells e bytes ↔ e.WellFormed ∧ bytes = e.encode := by
  constructor
  · intro h
    obtain ⟨tag, form, operands, known, spelled, rfl⟩ := h
    have hasTag := Form.hasTag_of_ofTag? known
    cases spelled with
    | whole => exact ⟨hasTag.1, hasTag.2.symm⟩
    | conditionalJump valid small =>
        obtain ⟨hop, least, most, rfl⟩ := hasTag
        exact ⟨⟨hop, least, most, valid, small⟩, rfl⟩
    | clrSetEventBit index_lt bit_lt =>
        cases hasTag
        exact ⟨⟨index_lt, bit_lt⟩, rfl⟩
    | loadMap =>
        obtain ⟨rfl, variant⟩ := hasTag
        exact ⟨variant, rfl⟩
    | pause =>
        cases hasTag
        exact ⟨trivial, rfl⟩
    | unknownCmdC7 =>
        cases hasTag
        exact ⟨trivial, rfl⟩
  · intro h
    obtain ⟨valid, rfl⟩ := h
    cases e with
    | clrSetEventBit set index bit =>
        cases set with
        | false => exact ⟨_, .clrSetEventBit false, _, rfl, .clrSetEventBit valid.1 valid.2, rfl⟩
        | true => exact ⟨_, .clrSetEventBit true, _, rfl, .clrSetEventBit valid.1 valid.2, rfl⟩
    | conditionalJump op conditions addr =>
        cases conditions with
        | none => exact valid.elim
        | some conditions =>
            obtain ⟨hop, least, most, all, small⟩ := valid
            rcases hop with rfl | rfl
            · exact ⟨_, _, _, Form.ofTag?_conditionalJump least most, .conditionalJump all small, rfl⟩
            · exact ⟨_, _, _, Form.ofTag?_conditionalJump least most, .conditionalJump all small, rfl⟩
    | entitySpeed speed =>
        simp only [WellFormed, speeds, List.mem_cons, List.not_mem_nil, or_false] at valid
        rcases valid with rfl | rfl | rfl | rfl | rfl <;> exact ⟨_, _, _, rfl, .whole _, rfl⟩
    | graphicalAction action flipped =>
        exact ⟨_, _, _, Form.ofTag?_graphicalAction valid, .whole _, rfl⟩
    | move dir steps => exact ⟨_, _, _, Form.ofTag?_move valid.1 valid.2, .whole _, rfl⟩
    | moveDiag dir across along =>
        simp only [WellFormed, diagonals, List.mem_cons, List.not_mem_nil, or_false,
          Prod.mk.injEq] at valid
        rcases valid with h | h | h | h | h | h | h | h | h | h | h | h <;>
          obtain ⟨rfl, rfl, rfl⟩ := h <;> exact ⟨_, _, _, rfl, .whole _, rfl⟩
    | turnCharacter dir =>
        simp only [WellFormed, turns, List.mem_cons, List.not_mem_nil, or_false] at valid
        rcases valid with rfl | rfl | rfl | rfl <;> exact ⟨_, _, _, rfl, .whole _, rfl⟩
    | loadMap map x y mode variant =>
        rcases valid with rfl | rfl <;> exact ⟨_, _, _, rfl, .loadMap, rfl⟩
    | pause frames => exact ⟨_, _, _, rfl, .pause, rfl⟩
    | unknownCmdC7 first second => exact ⟨_, _, _, rfl, .unknownCmdC7, rfl⟩
    | fadeScreen | hideCharacter | hideMiniMap | showCharacter | showMiniMap | unfadeScreen =>
        exact ⟨_, _, _, rfl, .whole _, rfl⟩

theorem reads_decoder {data : Bytes} :
    Reads data (decoder.decode data) fun e bytes => e.WellFormed ∧ bytes = e.encode :=
  (Reads.ofForms Form.reads_read).of_iff fun _ _ => tagged_iff

theorem encode_starts (e : WorldEvent) (h : e.WellFormed) :
    ∃ tag operands, e.encode = tag :: operands ∧ tag ∉ stops :=
  (tagged_iff.mpr ⟨h, rfl⟩).starts Form.ofTag?_of_mem_stops

theorem reads_script {data : Bytes} :
    Reads data (Dialect.worldChar.script data) fun script bytes =>
      ∃ events, ((∀ e ∈ events, e.WellFormed) ∧
        ∃ stop ∈ stops, bytes = events.flatMap encode ++ [stop]) ∧ script = .worldChar events :=
  .map _ ((Reads.assemble reads_decoder).of_iff fun _ _ => Chain.iff_flatMap encode_starts)

/-- A script is read from one offset up to another exactly where the encodings of its well-formed events
    stand one behind the other, and a stop byte behind them. -/
theorem worldScript_eq_ok_iff (data : Bytes) (start next : Int) (events : List WorldEvent) :
    Dialect.worldChar.script data start = .ok (.worldChar events) next ↔
      next ≤ data.size ∧ (∀ e ∈ events, e.WellFormed) ∧
        ∃ stop : UInt8, (stop = 0xff ∨ stop = 0xfd) ∧
          data.slice? start next = some (events.flatMap encode ++ [stop]).toArray := by
  rw [reads_script start _ next]
  constructor
  · intro h
    obtain ⟨_, ⟨_, ⟨valid, stop, isStop, rfl⟩, ⟨⟩⟩, spans⟩ := h
    have sliced := (spans_iff_slice? (by simp)).mp spans
    exact ⟨slice?_le sliced, valid, stop, by simpa [stops] using isStop, sliced⟩
  · intro h
    obtain ⟨_, valid, stop, isStop, sliced⟩ := h
    exact ⟨_, ⟨events, ⟨valid, stop, by simpa [stops] using isStop, rfl⟩, rfl⟩,
      (spans_iff_slice? (by simp)).mpr sliced⟩

end WorldEvent

end EventScript
