import EventScript.Document
import EventScript.Rom.Record
import EventScript.Text.Numeral

/-! # Properties of a location -/

namespace EventScript

/-- Graphics, battle and music settings of a location. -/
structure Properties where
  nameIndex : UInt8
  enableXZone : Bool
  enableWarp : Bool
  wavyBg3 : Bool
  wavyBg2 : Bool
  wavyBg1 : Bool
  enableSpotlights : Bool
  unknownFlag16 : Bool
  loadTimerGraphics : Bool
  battleBackground : UInt8
  bg3InForeground : Bool
  unknown3 : UInt8
  tilePropertiesIndex : UInt8
  battleProperties : UInt8
  enableRandomBattles : Bool
  windowMaskSettings : UInt8
  unknown6Bits : UInt8
  colosseumHouse : Bool
  bg1Bg2Graphics : Vector UInt8 4
  bg3GraphicsIndex : UInt8
  bg1TilesetIndex : UInt8
  bg2TilesetIndex : UInt8
  bgTilemapIndex : Vector UInt16 3
  spriteOverlayIndex : UInt8
  bg2ShiftLeft : UInt8
  bg2ShiftUp : UInt8
  bg3ShiftLeft : UInt8
  bg3ShiftUp : UInt8
  bg2Bg3ScrollMode : UInt8
  /-- The sizes of the background layers in pixels. -/
  bg1Height : UInt16
  bg1Width : UInt16
  bg2Height : UInt16
  bg2Width : UInt16
  bg3Height : UInt16
  bg3Width : UInt16
  unused18Bits : UInt8
  paletteIndex : UInt8
  paletteAnimationIndex : UInt8
  bg1Bg2AnimationIndex : UInt8
  bg3AnimationIndex : UInt8
  musicTrack : UInt8
  unknown1d : UInt8
  mapWidth : UInt8
  mapHeight : UInt8
  bg2Bg3ColorMathMode : UInt8
  deriving Repr, DecidableEq, Inhabited

namespace Properties

/-- The size of a record. -/
def recordSize : Nat := 0x21

/-- A size in pixels: 256, doubled as often as the two bits at `low` say. -/
def dimension (b : UInt8) (low : Nat) : UInt16 :=
  .ofNat (256 <<< bits b.toNat low 2)

/-- Unpack a record. Indexes of graphics and maps run across the borders of bytes. -/
def ofRecord (d : Vector UInt8 recordSize) : Properties where
  nameIndex := d[0x00]
  enableXZone := flag d[0x01].toNat 0
  enableWarp := flag d[0x01].toNat 1
  wavyBg3 := flag d[0x01].toNat 2
  wavyBg2 := flag d[0x01].toNat 3
  wavyBg1 := flag d[0x01].toNat 4
  enableSpotlights := flag d[0x01].toNat 5
  unknownFlag16 := flag d[0x01].toNat 6
  loadTimerGraphics := flag d[0x01].toNat 7
  battleBackground := .ofNat (bits d[0x02].toNat 0 7)
  bg3InForeground := flag d[0x02].toNat 7
  unknown3 := d[0x03]
  tilePropertiesIndex := d[0x04]
  battleProperties := .ofNat (bits d[0x05].toNat 0 7)
  enableRandomBattles := flag d[0x05].toNat 7
  windowMaskSettings := .ofNat (bits d[0x06].toNat 0 2)
  unknown6Bits := .ofNat (bits d[0x06].toNat 2 5)
  colosseumHouse := flag d[0x06].toNat 7
  bg1Bg2Graphics := #v[
    .ofNat (bits d[0x07].toNat 0 7),
    .ofNat (bits (pair d[0x07] d[0x08]) 7 7),
    .ofNat (bits (pair d[0x08] d[0x09]) 6 7),
    .ofNat (bits (pair d[0x09] d[0x0a]) 5 7)]
  bg3GraphicsIndex := .ofNat (bits (pair d[0x0a] d[0x0b]) 4 6)
  bg1TilesetIndex := .ofNat (bits (pair d[0x0b] d[0x0c]) 2 7)
  bg2TilesetIndex := .ofNat (bits d[0x0c].toNat 1 7)
  bgTilemapIndex := #v[
    .ofNat (bits (pair d[0x0d] d[0x0e]) 0 12),
    .ofNat (bits (pair d[0x0e] d[0x0f]) 2 12),
    .ofNat (bits (pair d[0x0f] d[0x10]) 4 12)]
  spriteOverlayIndex := d[0x11]
  bg2ShiftLeft := d[0x12]
  bg2ShiftUp := d[0x13]
  bg3ShiftLeft := d[0x14]
  bg3ShiftUp := d[0x15]
  bg2Bg3ScrollMode := d[0x16]
  bg1Height := dimension d[0x17] 0
  bg1Width := dimension d[0x17] 2
  bg2Height := dimension d[0x17] 4
  bg2Width := dimension d[0x17] 6
  bg3Height := dimension d[0x18] 4
  bg3Width := dimension d[0x18] 6
  unused18Bits := .ofNat (bits d[0x18].toNat 0 4)
  paletteIndex := d[0x19]
  paletteAnimationIndex := d[0x1a]
  bg1Bg2AnimationIndex := .ofNat (bits d[0x1b].toNat 0 5)
  bg3AnimationIndex := .ofNat (bits d[0x1b].toNat 5 3)
  musicTrack := d[0x1c]
  unknown1d := d[0x1d]
  mapWidth := d[0x1e]
  mapHeight := d[0x1f]
  bg2Bg3ColorMathMode := d[0x20]

/-- The record at the start of the bytes. -/
def ofBytes? (data : Bytes) : Option Properties :=
  (firstBytes? recordSize data).map ofRecord

/-- What is said about too few bytes. -/
def shortMessage (size : Nat) : String :=
  s!"properties need 0x{hex 2 recordSize} bytes, have 0x{hex 2 size}"

def record (p : Properties) : Record :=
  [("name_index", .ofByte p.nameIndex), ("enable_x_zone", .flag p.enableXZone),
    ("enable_warp", .flag p.enableWarp), ("wavy_bg3", .flag p.wavyBg3),
    ("wavy_bg2", .flag p.wavyBg2), ("wavy_bg1", .flag p.wavyBg1),
    ("enable_spotlights", .flag p.enableSpotlights), ("unknown_flag_1_6", .flag p.unknownFlag16),
    ("load_timer_graphics", .flag p.loadTimerGraphics),
    ("battle_background", .ofByte p.battleBackground),
    ("bg3_in_foreground", .flag p.bg3InForeground), ("unknown3", .ofByte p.unknown3),
    ("tile_properties_index", .ofByte p.tilePropertiesIndex),
    ("battle_properties", .ofByte p.battleProperties),
    ("enable_random_battles", .flag p.enableRandomBattles),
    ("window_mask_settings", .ofByte p.windowMaskSettings),
    ("unknown_6_bits", .ofByte p.unknown6Bits), ("colosseum_house", .flag p.colosseumHouse),
    ("bg1_bg2_graphics", .ofBytes p.bg1Bg2Graphics.toList),
    ("bg3_graphics_index", .ofByte p.bg3GraphicsIndex),
    ("bg1_tileset_index", .ofByte p.bg1TilesetIndex),
    ("bg2_tileset_index", .ofByte p.bg2TilesetIndex),
    ("bg_tilemap_index", .numbers (p.bgTilemapIndex.toList.map fun n => (n.toNat : Int))),
    ("sprite_overlay_index", .ofByte p.spriteOverlayIndex),
    ("bg2_shift_left", .ofByte p.bg2ShiftLeft), ("bg2_shift_up", .ofByte p.bg2ShiftUp),
    ("bg3_shift_left", .ofByte p.bg3ShiftLeft), ("bg3_shift_up", .ofByte p.bg3ShiftUp),
    ("bg2_bg3_scroll_mode", .ofByte p.bg2Bg3ScrollMode),
    ("bg1_h", .ofWord p.bg1Height), ("bg1_w", .ofWord p.bg1Width),
    ("bg2_h", .ofWord p.bg2Height), ("bg2_w", .ofWord p.bg2Width),
    ("bg3_h", .ofWord p.bg3Height), ("bg3_w", .ofWord p.bg3Width),
    ("unused_18_bits", .ofByte p.unused18Bits), ("palette_index", .ofByte p.paletteIndex),
    ("palette_animation_index", .ofByte p.paletteAnimationIndex),
    ("bg1_bg2_animation_index", .ofByte p.bg1Bg2AnimationIndex),
    ("bg3_animation_index", .ofByte p.bg3AnimationIndex), ("music_track", .ofByte p.musicTrack),
    ("unknown_1d", .ofByte p.unknown1d), ("map_width", .ofByte p.mapWidth),
    ("map_height", .ofByte p.mapHeight),
    ("bg2_bg3_color_math_mode", .ofByte p.bg2Bg3ColorMathMode)]

end Properties

end EventScript
