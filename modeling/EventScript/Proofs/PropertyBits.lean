import EventScript.Proofs.PackedRecords
import EventScript.Rom.Location.Properties

/-! # The bits of the properties of a location

Each field of the properties is a range of bits of the record. All bits are in a range, so nothing of a record
is lost. The ranges follow each other, but for those of the tilemaps: their indexes start ten bits apart and have
twelve bits, so that two bits are read twice between one index and the next.
-/

namespace EventScript.Properties

/-! ## Fields -/

/-- The fields of the properties, in the order in which the record has them. -/
inductive Field where
  | nameIndex | enableXZone | enableWarp | wavyBg3 | wavyBg2 | wavyBg1 | enableSpotlights | unknownFlag16
  | loadTimerGraphics | battleBackground | bg3InForeground | unknown3 | tilePropertiesIndex
  | battleProperties | enableRandomBattles | windowMaskSettings | unknown6Bits | colosseumHouse
  | bg1Bg2Graphics (i : Fin 4) | bg3GraphicsIndex | bg1TilesetIndex | bg2TilesetIndex
  | bgTilemapIndex (i : Fin 3) | spriteOverlayIndex | bg2ShiftLeft | bg2ShiftUp | bg3ShiftLeft | bg3ShiftUp
  | bg2Bg3ScrollMode | bg1Height | bg1Width | bg2Height | bg2Width | unused18Bits | bg3Height | bg3Width
  | paletteIndex | paletteAnimationIndex | bg1Bg2AnimationIndex | bg3AnimationIndex | musicTrack | unknown1d
  | mapWidth | mapHeight | bg2Bg3ColorMathMode
  deriving Repr, DecidableEq

/-- A field as a number. -/
def value (p : Properties) : Field → Nat
  | .nameIndex => p.nameIndex.toNat
  | .enableXZone => p.enableXZone.toNat
  | .enableWarp => p.enableWarp.toNat
  | .wavyBg3 => p.wavyBg3.toNat
  | .wavyBg2 => p.wavyBg2.toNat
  | .wavyBg1 => p.wavyBg1.toNat
  | .enableSpotlights => p.enableSpotlights.toNat
  | .unknownFlag16 => p.unknownFlag16.toNat
  | .loadTimerGraphics => p.loadTimerGraphics.toNat
  | .battleBackground => p.battleBackground.toNat
  | .bg3InForeground => p.bg3InForeground.toNat
  | .unknown3 => p.unknown3.toNat
  | .tilePropertiesIndex => p.tilePropertiesIndex.toNat
  | .battleProperties => p.battleProperties.toNat
  | .enableRandomBattles => p.enableRandomBattles.toNat
  | .windowMaskSettings => p.windowMaskSettings.toNat
  | .unknown6Bits => p.unknown6Bits.toNat
  | .colosseumHouse => p.colosseumHouse.toNat
  | .bg1Bg2Graphics i => (p.bg1Bg2Graphics.get i).toNat
  | .bg3GraphicsIndex => p.bg3GraphicsIndex.toNat
  | .bg1TilesetIndex => p.bg1TilesetIndex.toNat
  | .bg2TilesetIndex => p.bg2TilesetIndex.toNat
  | .bgTilemapIndex i => (p.bgTilemapIndex.get i).toNat
  | .spriteOverlayIndex => p.spriteOverlayIndex.toNat
  | .bg2ShiftLeft => p.bg2ShiftLeft.toNat
  | .bg2ShiftUp => p.bg2ShiftUp.toNat
  | .bg3ShiftLeft => p.bg3ShiftLeft.toNat
  | .bg3ShiftUp => p.bg3ShiftUp.toNat
  | .bg2Bg3ScrollMode => p.bg2Bg3ScrollMode.toNat
  | .bg1Height => p.bg1Height.toNat
  | .bg1Width => p.bg1Width.toNat
  | .bg2Height => p.bg2Height.toNat
  | .bg2Width => p.bg2Width.toNat
  | .unused18Bits => p.unused18Bits.toNat
  | .bg3Height => p.bg3Height.toNat
  | .bg3Width => p.bg3Width.toNat
  | .paletteIndex => p.paletteIndex.toNat
  | .paletteAnimationIndex => p.paletteAnimationIndex.toNat
  | .bg1Bg2AnimationIndex => p.bg1Bg2AnimationIndex.toNat
  | .bg3AnimationIndex => p.bg3AnimationIndex.toNat
  | .musicTrack => p.musicTrack.toNat
  | .unknown1d => p.unknown1d.toNat
  | .mapWidth => p.mapWidth.toNat
  | .mapHeight => p.mapHeight.toNat
  | .bg2Bg3ColorMathMode => p.bg2Bg3ColorMathMode.toNat

/-- There is nothing to properties beside their fields. -/
theorem eq_of_value {p q : Properties} (same : ∀ f, p.value f = q.value f) : p = q := by
  have byte {a b : UInt8} (h : a.toNat = b.toNat) : a = b := UInt8.toNat_inj.mp h
  have word {a b : UInt16} (h : a.toNat = b.toNat) : a = b := UInt16.toNat_inj.mp h
  have flag {a b : Bool} (h : a.toNat = b.toNat) : a = b := eq_of_toNat_bool h
  have graphics : p.bg1Bg2Graphics = q.bg1Bg2Graphics :=
    Vector.ext fun i inside => byte (same (.bg1Bg2Graphics ⟨i, inside⟩))
  have tilemaps : p.bgTilemapIndex = q.bgTilemapIndex :=
    Vector.ext fun i inside => word (same (.bgTilemapIndex ⟨i, inside⟩))
  cases p
  cases q
  exact (mk.injEq ..).mpr
    ⟨byte (same .nameIndex), flag (same .enableXZone), flag (same .enableWarp), flag (same .wavyBg3),
    flag (same .wavyBg2), flag (same .wavyBg1), flag (same .enableSpotlights), flag (same .unknownFlag16),
    flag (same .loadTimerGraphics), byte (same .battleBackground), flag (same .bg3InForeground),
    byte (same .unknown3), byte (same .tilePropertiesIndex), byte (same .battleProperties),
    flag (same .enableRandomBattles), byte (same .windowMaskSettings), byte (same .unknown6Bits),
    flag (same .colosseumHouse), graphics, byte (same .bg3GraphicsIndex), byte (same .bg1TilesetIndex),
    byte (same .bg2TilesetIndex), tilemaps, byte (same .spriteOverlayIndex), byte (same .bg2ShiftLeft),
    byte (same .bg2ShiftUp), byte (same .bg3ShiftLeft), byte (same .bg3ShiftUp),
    byte (same .bg2Bg3ScrollMode), word (same .bg1Height), word (same .bg1Width), word (same .bg2Height),
    word (same .bg2Width), word (same .bg3Height), word (same .bg3Width), byte (same .unused18Bits),
    byte (same .paletteIndex), byte (same .paletteAnimationIndex), byte (same .bg1Bg2AnimationIndex),
    byte (same .bg3AnimationIndex), byte (same .musicTrack), byte (same .unknown1d), byte (same .mapWidth),
    byte (same .mapHeight), byte (same .bg2Bg3ColorMathMode)⟩

namespace Field

/-- The fields in a list, in the same order. -/
def all : List Field :=
  [.nameIndex, .enableXZone, .enableWarp, .wavyBg3, .wavyBg2, .wavyBg1, .enableSpotlights, .unknownFlag16,
    .loadTimerGraphics, .battleBackground, .bg3InForeground, .unknown3, .tilePropertiesIndex,
    .battleProperties, .enableRandomBattles, .windowMaskSettings, .unknown6Bits, .colosseumHouse,
    .bg1Bg2Graphics 0, .bg1Bg2Graphics 1, .bg1Bg2Graphics 2, .bg1Bg2Graphics 3, .bg3GraphicsIndex,
    .bg1TilesetIndex, .bg2TilesetIndex, .bgTilemapIndex 0, .bgTilemapIndex 1, .bgTilemapIndex 2,
    .spriteOverlayIndex, .bg2ShiftLeft, .bg2ShiftUp, .bg3ShiftLeft, .bg3ShiftUp, .bg2Bg3ScrollMode,
    .bg1Height, .bg1Width, .bg2Height, .bg2Width, .unused18Bits, .bg3Height, .bg3Width, .paletteIndex,
    .paletteAnimationIndex, .bg1Bg2AnimationIndex, .bg3AnimationIndex, .musicTrack, .unknown1d, .mapWidth,
    .mapHeight, .bg2Bg3ColorMathMode]

theorem mem_all (f : Field) : f ∈ all := by
  cases f with
  | bg1Bg2Graphics i => revert i; decide
  | bgTilemapIndex i => revert i; decide
  | _ => decide

/-- The bits that a field is read from. -/
def range : Field → BitRange
  | .nameIndex => ⟨0x00, 0, 8⟩
  | .enableXZone => ⟨0x01, 0, 1⟩
  | .enableWarp => ⟨0x01, 1, 1⟩
  | .wavyBg3 => ⟨0x01, 2, 1⟩
  | .wavyBg2 => ⟨0x01, 3, 1⟩
  | .wavyBg1 => ⟨0x01, 4, 1⟩
  | .enableSpotlights => ⟨0x01, 5, 1⟩
  | .unknownFlag16 => ⟨0x01, 6, 1⟩
  | .loadTimerGraphics => ⟨0x01, 7, 1⟩
  | .battleBackground => ⟨0x02, 0, 7⟩
  | .bg3InForeground => ⟨0x02, 7, 1⟩
  | .unknown3 => ⟨0x03, 0, 8⟩
  | .tilePropertiesIndex => ⟨0x04, 0, 8⟩
  | .battleProperties => ⟨0x05, 0, 7⟩
  | .enableRandomBattles => ⟨0x05, 7, 1⟩
  | .windowMaskSettings => ⟨0x06, 0, 2⟩
  | .unknown6Bits => ⟨0x06, 2, 5⟩
  | .colosseumHouse => ⟨0x06, 7, 1⟩
  | .bg1Bg2Graphics 0 => ⟨0x07, 0, 7⟩
  | .bg1Bg2Graphics 1 => ⟨0x07, 7, 7⟩
  | .bg1Bg2Graphics 2 => ⟨0x08, 6, 7⟩
  | .bg1Bg2Graphics 3 => ⟨0x09, 5, 7⟩
  | .bg3GraphicsIndex => ⟨0x0a, 4, 6⟩
  | .bg1TilesetIndex => ⟨0x0b, 2, 7⟩
  | .bg2TilesetIndex => ⟨0x0c, 1, 7⟩
  | .bgTilemapIndex 0 => ⟨0x0d, 0, 12⟩
  | .bgTilemapIndex 1 => ⟨0x0e, 2, 12⟩
  | .bgTilemapIndex 2 => ⟨0x0f, 4, 12⟩
  | .spriteOverlayIndex => ⟨0x11, 0, 8⟩
  | .bg2ShiftLeft => ⟨0x12, 0, 8⟩
  | .bg2ShiftUp => ⟨0x13, 0, 8⟩
  | .bg3ShiftLeft => ⟨0x14, 0, 8⟩
  | .bg3ShiftUp => ⟨0x15, 0, 8⟩
  | .bg2Bg3ScrollMode => ⟨0x16, 0, 8⟩
  | .bg1Height => ⟨0x17, 0, 2⟩
  | .bg1Width => ⟨0x17, 2, 2⟩
  | .bg2Height => ⟨0x17, 4, 2⟩
  | .bg2Width => ⟨0x17, 6, 2⟩
  | .unused18Bits => ⟨0x18, 0, 4⟩
  | .bg3Height => ⟨0x18, 4, 2⟩
  | .bg3Width => ⟨0x18, 6, 2⟩
  | .paletteIndex => ⟨0x19, 0, 8⟩
  | .paletteAnimationIndex => ⟨0x1a, 0, 8⟩
  | .bg1Bg2AnimationIndex => ⟨0x1b, 0, 5⟩
  | .bg3AnimationIndex => ⟨0x1b, 5, 3⟩
  | .musicTrack => ⟨0x1c, 0, 8⟩
  | .unknown1d => ⟨0x1d, 0, 8⟩
  | .mapWidth => ⟨0x1e, 0, 8⟩
  | .mapHeight => ⟨0x1f, 0, 8⟩
  | .bg2Bg3ColorMathMode => ⟨0x20, 0, 8⟩

/-- The field is the size of a background layer. -/
def isSize : Field → Bool
  | .bg1Height | .bg1Width | .bg2Height | .bg2Width | .bg3Height | .bg3Width => true
  | _ => false

/-- The field for a number in the record. A size is stored as the number of times that 256 is doubled. -/
def shown (f : Field) (n : Nat) : Nat :=
  bif f.isSize then 256 <<< n else n

/-- The number in the record for a field. -/
def stored (f : Field) (n : Nat) : Nat :=
  bif f.isSize then n.log2 - 8 else n

theorem stored_shown (f : Field) (n : Nat) : f.stored (f.shown n) = n := by
  unfold stored shown
  cases f.isSize with
  | false => rfl
  | true =>
      have size : 256 <<< n = 1 <<< (8 + n) := (Nat.shiftLeft_add 1 8 n).symm
      rw [cond_true, cond_true, size, Nat.one_shiftLeft, Nat.log2_two_pow, Nat.add_sub_cancel_left]

/-- The first field ends before the second one starts, or they are the indexes of tilemaps of one layer and the
    next. -/
def Before (f g : Field) : Prop :=
  f.range.stop ≤ g.range.start ∨ ∃ k : Fin 2, f = .bgTilemapIndex k.castSucc ∧ g = .bgTilemapIndex k.succ

instance (f g : Field) : Decidable (f.Before g) :=
  inferInstanceAs (Decidable (_ ∨ _))

theorem pairwise_before : all.Pairwise Before := by
  decide +kernel

theorem leaves_none : LeavesNone range 0 all (8 * recordSize) := by
  decide

theorem range_inside : ∀ f ∈ all, f.range.stop ≤ 8 * recordSize := by
  decide

/-- The bits that two indexes of tilemaps are read from. -/
def sharedBits : List Nat :=
  [8 * 0x0e + 2, 8 * 0x0e + 3, 8 * 0x0f + 4, 8 * 0x0f + 5]

theorem mem_sharedBits {i : Nat} (k : Fin 2) (low : (bgTilemapIndex k.castSucc).range.Holds i)
    (high : (bgTilemapIndex k.succ).range.Holds i) : i ∈ sharedBits := by
  obtain ⟨_, below⟩ := low
  obtain ⟨above, _⟩ := high
  simp only [sharedBits, List.mem_cons, List.not_mem_nil, or_false]
  match k with
  | 0 =>
      have below : i < 8 * 0x0e + 4 := below
      have above : 8 * 0x0e + 2 ≤ i := above
      omega
  | 1 =>
      have below : i < 8 * 0x0f + 6 := below
      have above : 8 * 0x0f + 4 ≤ i := above
      omega

/-- Any other bit is in one range only. -/
theorem eq_of_holds {f g : Field} {i : Nat} (alone : i ∉ sharedBits) (left : f.range.Holds i)
    (right : g.range.Holds i) : f = g := by
  rcases eq_or_rel_of_pairwise pairwise_before (mem_all f) (mem_all g) with
    same | (apart | ⟨k, rfl, rfl⟩) | (apart | ⟨k, rfl, rfl⟩)
  · exact same
  · exact absurd right (left.not_holds apart)
  · exact absurd (mem_sharedBits k left right) alone
  · exact absurd left (right.not_holds apart)
  · exact absurd (mem_sharedBits k right left) alone

theorem holds_iff_of_shared {i : Nat} (shared : i ∈ sharedBits) :
    ∃ k : Fin 2, ∀ f : Field,
      f.range.Holds i ↔ f = .bgTilemapIndex k.castSucc ∨ f = .bgTilemapIndex k.succ := by
  have listed : ∀ i ∈ sharedBits, ∃ k : Fin 2, ∀ f ∈ all,
      f.range.Holds i ↔ f = .bgTilemapIndex k.castSucc ∨ f = .bgTilemapIndex k.succ := by decide +kernel
  obtain ⟨k, holders⟩ := listed i shared
  exact ⟨k, fun f => holders f (mem_all f)⟩

end Field

/-! ## The record -/

section Record

variable (d : Vector UInt8 recordSize)

theorem toNat_dimension (b : UInt8) (low : Nat) :
    (dimension b low).toNat = 256 <<< bits b.toNat low 2 := by
  apply UInt16.toNat_ofNat_of_lt'
  have small : bits b.toNat low 2 < 4 := Nat.mod_lt _ (by decide)
  have cases : bits b.toNat low 2 = 0 ∨ bits b.toNat low 2 = 1 ∨ bits b.toNat low 2 = 2 ∨
      bits b.toNat low 2 = 3 := by omega
  rcases cases with h | h | h | h <;> rw [h] <;> decide

/-- Each field is read from its range. -/
theorem shows_ofRecord (f : Field) :
    ∃ n, f.range.Shows d.toArray n ∧ (ofRecord d).value f = f.shown n := by
  cases f with
  | nameIndex | unknown3 | tilePropertiesIndex | spriteOverlayIndex | bg2ShiftLeft | bg2ShiftUp
  | bg3ShiftLeft | bg3ShiftUp | bg2Bg3ScrollMode | paletteIndex | paletteAnimationIndex | musicTrack
  | unknown1d | mapWidth | mapHeight | bg2Bg3ColorMathMode =>
      exact ⟨_, (StandsFrom.byte d (by decide)).shows (UInt8.toNat_lt _), rfl⟩
  | enableXZone | enableWarp | wavyBg3 | wavyBg2 | wavyBg1 | enableSpotlights | unknownFlag16
  | loadTimerGraphics | bg3InForeground | enableRandomBattles | colosseumHouse =>
      exact ⟨_, (StandsFrom.byte d (by decide)).shows_flag (by decide), rfl⟩
  | battleBackground | battleProperties | windowMaskSettings | unknown6Bits | bg2TilesetIndex | unused18Bits
  | bg1Bg2AnimationIndex | bg3AnimationIndex =>
      exact ⟨_, ((StandsFrom.byte d (by decide)).shows_bits (by decide)).toUInt8 (by decide), rfl⟩
  | bg3GraphicsIndex | bg1TilesetIndex =>
      exact ⟨_, ((StandsFrom.pair d (by decide)).shows_bits (by decide)).toUInt8 (by decide), rfl⟩
  | bg1Height | bg1Width | bg2Height | bg2Width | bg3Height | bg3Width =>
      exact ⟨_, (StandsFrom.byte d (by decide)).shows_bits (by decide), toNat_dimension ..⟩
  | bg1Bg2Graphics i =>
      match i with
      | 0 => exact ⟨_, ((StandsFrom.byte d (by decide)).shows_bits (by decide)).toUInt8 (by decide), rfl⟩
      | 1 | 2 | 3 =>
          exact ⟨_, ((StandsFrom.pair d (by decide)).shows_bits (by decide)).toUInt8 (by decide), rfl⟩
  | bgTilemapIndex i =>
      match i with
      | 0 | 1 | 2 =>
          exact ⟨_, ((StandsFrom.pair d (by decide)).shows_bits (by decide)).toUInt16 (by decide), rfl⟩

end Record

def packing : Packing Properties Field recordSize where
  read := ofRecord
  value := value
  fields := Field.all
  range := Field.range
  stored := Field.stored
  shown := Field.shown
  eq_of_value := eq_of_value
  mem_fields := Field.mem_all
  stored_shown := Field.stored_shown
  shows_read := shows_ofRecord
  range_inside := Field.range_inside
  leaves_none := Field.leaves_none

/-! ## Bytes -/

theorem ofBytes?_of_long {data : Bytes} (long : recordSize ≤ data.size) :
    ∃ d, firstBytes? recordSize data = some d ∧ ofBytes? data = some (ofRecord d) := by
  obtain ⟨d, first⟩ := exists_firstBytes? long
  exact ⟨d, first, by rw [ofBytes?, first, Option.map_some]⟩

/-- A flipped bit changes one field, unless it is a bit that two indexes of tilemaps share. Then it changes
    these two. -/
theorem ofBytes?_flip (data : Bytes) (i : Nat) (long : 0x21 ≤ data.size) (inside : i < 8 * 0x21) :
    ∃ p q, ofBytes? data = some p ∧ ofBytes? (data.flip i) = some q ∧
      ((∃ f, ∀ g, p.value g ≠ q.value g ↔ g = f) ↔ i ∉ Field.sharedBits) ∧
      (i ∈ Field.sharedBits → ∃ k : Fin 2, ∀ g, p.value g ≠ q.value g ↔
        g = .bgTilemapIndex k.castSucc ∨ g = .bgTilemapIndex k.succ) := by
  have long' : recordSize ≤ (data.flip i).size := by rwa [Bytes.flip, Array.size_modify]
  obtain ⟨d, first, read⟩ := ofBytes?_of_long long
  obtain ⟨e, flipped, read'⟩ := ofBytes?_of_long long'
  refine ⟨_, _, read, read', ?_⟩
  have changed : ∀ g, (ofRecord d).value g ≠ (ofRecord e).value g ↔ g.range.Holds i :=
    packing.value_ne_iff first flipped inside
  simp only [changed]
  refine ⟨⟨?_, ?_⟩, Field.holds_iff_of_shared⟩
  · -- The two indexes would both be the one field that has changed.
    rintro ⟨f, only⟩ shared
    obtain ⟨k, both⟩ := Field.holds_iff_of_shared shared
    have low := (only _).mp ((both _).mpr (.inl rfl))
    have high := (only _).mp ((both _).mpr (.inr rfl))
    have same := Field.bgTilemapIndex.inj (low.trans high.symm)
    exact absurd same (Fin.ne_of_lt k.castSucc_lt_succ)
  · intro alone
    obtain ⟨f, _, holds⟩ := Field.leaves_none.exists_holds (Nat.zero_le i) inside
    refine ⟨f, fun g => ⟨fun also => Field.eq_of_holds alone also holds, ?_⟩⟩
    rintro rfl
    exact holds

/-- The record of a location with a tilemap for its first layer. -/
def sample : Bytes :=
  #[0x00, 0x00, 0x30, 0x00, 0x13, 0x80, 0x00, 0xaa, 0xc8, 0x06, 0x00, 0x64, 0x34, 0x03, 0x01, 0x00, 0x00, 0x09,
    0x00, 0x00, 0x00, 0x00, 0x00, 0x00, 0x0f, 0x0f, 0x00, 0x00, 0x00, 0x00, 0x1f, 0x0e, 0x00]

/-- The highest bit of the first byte of graphics belongs to the second index alone. -/
theorem ofBytes?_flip_graphics :
    0x21 ≤ sample.size ∧ 8 * 0x07 + 7 < 8 * 0x21 ∧ ∃ p q, ofBytes? sample = some p ∧
      ofBytes? (sample.flip (8 * 0x07 + 7)) = some q ∧
      ∀ g, p.value g ≠ q.value g ↔ g = .bg1Bg2Graphics 1 := by
  obtain ⟨p, q, before, after, single, _⟩ := ofBytes?_flip sample (8 * 0x07 + 7) (by decide) (by decide)
  obtain ⟨f, only⟩ := single.mpr (by decide)
  have changed : p.value (.bg1Bg2Graphics 1) ≠ q.value (.bg1Bg2Graphics 1) := by
    cases before
    cases after
    decide
  cases (only _).mp changed
  exact ⟨by decide, by decide, p, q, before, after, only⟩

/-- A map for the second layer changes the index of the first layer too. -/
theorem ofBytes?_flip_tilemap :
    ∃ p q, ofBytes? sample = some p ∧ ofBytes? (sample.flip (8 * 0x0e + 2)) = some q ∧
      p.bgTilemapIndex = #v[0x103, 0, 0] ∧ q.bgTilemapIndex = #v[0x503, 1, 0] ∧
      ¬ ∃ f, ∀ g, p.value g ≠ q.value g ↔ g = f := by
  refine ⟨_, _, rfl, rfl, rfl, rfl, ?_⟩
  rintro ⟨f, only⟩
  have first := (only (.bgTilemapIndex 0)).mp (by decide)
  have second := (only (.bgTilemapIndex 1)).mp (by decide)
  exact absurd (first.trans second.symm) (by decide)

/-- Properties tell exactly the bytes of their record, which can be written again. -/
theorem ofBytes?_lossless (a b : Bytes) (longA : 0x21 ≤ a.size) (longB : 0x21 ≤ b.size) :
    (ofBytes? a = ofBytes? b ↔ a.extract 0 0x21 = b.extract 0 0x21) ∧
      ∃ p, ofBytes? a = some p ∧ (packing.write p).toArray = a.extract 0 0x21 := by
  obtain ⟨d, firstA, readA⟩ := ofBytes?_of_long longA
  obtain ⟨e, firstB, readB⟩ := ofBytes?_of_long longB
  have bytesA : d.toArray = a.extract 0 0x21 := (firstBytes?_eq_some_iff.mp firstA).2
  have bytesB : e.toArray = b.extract 0 0x21 := (firstBytes?_eq_some_iff.mp firstB).2
  rw [readA, readB, ← bytesA, ← bytesB, Option.some.injEq, Vector.toArray_inj]
  refine ⟨⟨fun same => ?_, congrArg ofRecord⟩, _, rfl, congrArg Vector.toArray (packing.write_read d)⟩
  rw [← packing.write_read d, ← packing.write_read e]
  exact congrArg packing.write same

/-- Bytes behind the record do not matter, and the record is written again without them. -/
theorem ofBytes?_lossless_behind :
    let longer : Bytes := sample ++ #[0x01, 0x02]
    0x21 ≤ sample.size ∧ 0x21 ≤ longer.size ∧ ofBytes? sample = ofBytes? longer ∧
      ∃ p, ofBytes? sample = some p ∧ (packing.write p).toArray = sample := by
  intro longer
  obtain ⟨same, p, read, written⟩ := ofBytes?_lossless sample longer (by decide) (by decide)
  exact ⟨by decide, by decide, same.mpr (by decide), p, read, written⟩

end EventScript.Properties
