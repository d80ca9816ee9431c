import EventScript.Proofs.RunOutcomes
import Mathlib.Data.List.Sort

/-! # Entry points as a set

The entry points of locations are the offsets that a character or a trigger refers to, in rising order. They do
not depend on how the locations and their records are listed, nor on the bits of an address that do not count.
All of them are inside an image from which locations can be read.
-/

namespace EventScript

namespace Address

/-- Only the low 18 bits of an address count. -/
theorem eventToFile_congr {addr addr' : UInt32} (apart : (0x40000 : Int) ∣ addr'.toNat - addr.toNat) :
    eventToFile addr' = eventToFile addr := by
  unfold eventToFile
  omega

/-- Scripts have 256 KiB of the image. -/
theorem eventToFile_bounds (addr : UInt32) : 0xa0000 ≤ eventToFile addr ∧ eventToFile addr < 0xe0000 := by
  unfold eventToFile eventBase
  omega

end Address

namespace Location

theorem refersTo_iff {l : Location} {offset : Int} :
    l.RefersTo offset ↔
      (∃ n ∈ l.npcs.getD [], Address.eventToFile n.eventAddr = offset) ∨
        ∃ t ∈ l.triggers.getD [], Address.eventToFile t.eventAddr = offset := by
  simp [RefersTo, eventAddrs, or_and_right, exists_or]

/-! ## Other listings of the same scripts -/

/-- One list of a location is listed in another way, or one address moves by a multiple of `2 ^ 18`. -/
inductive Relisted : Location → Location → Prop where
  /-- The characters are reordered or repeated. -/
  | npcs {l : Location} {npcs : Option (List Npc)} (same : ∀ n, n ∈ npcs.getD [] ↔ n ∈ l.npcs.getD []) :
      Relisted l { l with npcs }
  /-- The triggers are reordered or repeated. -/
  | triggers {l : Location} {triggers : Option (List Trigger)}
      (same : ∀ t, t ∈ triggers.getD [] ↔ t ∈ l.triggers.getD []) : Relisted l { l with triggers }
  | npcAddr {l : Location} {before after : List Npc} {n : Npc} {addr : UInt32}
      (listed : l.npcs = some (before ++ n :: after)) (apart : (0x40000 : Int) ∣ addr.toNat - n.eventAddr.toNat) :
      Relisted l { l with npcs := some (before ++ { n with eventAddr := addr } :: after) }
  | triggerAddr {l : Location} {before after : List Trigger} {t : Trigger} {addr : UInt32}
      (listed : l.triggers = some (before ++ t :: after))
      (apart : (0x40000 : Int) ∣ addr.toNat - t.eventAddr.toNat) :
      Relisted l { l with triggers := some (before ++ { t with eventAddr := addr } :: after) }

theorem Relisted.refersTo_iff {l l' : Location} (h : Relisted l l') (offset : Int) :
    l'.RefersTo offset ↔ l.RefersTo offset := by
  rw [Location.refersTo_iff, Location.refersTo_iff]
  cases h with
  | npcs same => simp only [same]
  | triggers same => simp only [same]
  | npcAddr listed apart => simp [listed, or_and_right, exists_or, Address.eventToFile_congr apart]
  | triggerAddr listed apart => simp [listed, or_and_right, exists_or, Address.eventToFile_congr apart]

/-- The locations are reordered or repeated, or one of them is listed in another way. -/
inductive Rearranged : List Location → List Location → Prop where
  | members {locations others : List Location} (same : ∀ l, l ∈ others ↔ l ∈ locations) :
      Rearranged locations others
  | location {before after : List Location} {l l' : Location} (relisted : Relisted l l') :
      Rearranged (before ++ l :: after) (before ++ l' :: after)

theorem entryPoints_eq_of_refersTo {locations others : List Location}
    (same : ∀ offset, (∃ l ∈ others, l.RefersTo offset) ↔ ∃ l ∈ locations, l.RefersTo offset) :
    entryPoints others = entryPoints locations := by
  obtain ⟨rising, members⟩ := entryPoints_unique locations
  obtain ⟨rising', members'⟩ := entryPoints_unique others
  refine rising'.eq_of_mem_iff rising fun offset => ?_
  rw [members', members, same]

theorem Rearranged.entryPoints_eq {locations others : List Location} (h : Rearranged locations others) :
    entryPoints others = entryPoints locations := by
  apply entryPoints_eq_of_refersTo
  intro offset
  cases h with
  | members same => simp only [same]
  | location relisted => simp [or_and_right, exists_or, relisted.refersTo_iff]

theorem entryPoints_eq_of_rearranged {locations others : List Location}
    (h : Relation.ReflTransGen Rearranged locations others) : entryPoints others = entryPoints locations := by
  induction h with
  | refl => rfl
  | tail _ step ih => rw [step.entryPoints_eq, ih]

/-! ## Offsets inside the image -/

theorem hasAll_of_readAll {rom : Bytes} {locations : List Location} (read : readAll rom = .ok locations) :
    HasAll rom := by
  by_contra missing
  obtain ⟨e, failed, _⟩ := readAll_of_not_hasAll missing
  cases failed.symm.trans read

theorem RefersTo.bounds {l : Location} {offset : Int} (h : l.RefersTo offset) :
    0xa0000 ≤ offset ∧ offset < 0xe0000 := by
  obtain ⟨addr, _, rfl⟩ := h
  exact Address.eventToFile_bounds addr

/-- The properties of locations stand behind all scripts. -/
theorem entryPoints_inside {rom : Bytes} {locations : List Location} (read : readAll rom = .ok locations)
    {offset : Int} (member : offset ∈ entryPoints locations) : 0xa0000 ≤ offset ∧ offset < rom.size := by
  obtain ⟨l, _, refers⟩ := ((entryPoints_unique locations).2 offset).mp member
  have size := (hasAll_of_readAll read).size
  simp only [propertiesTable] at size
  have := refers.bounds
  omega

/-- Entry points are a set in rising order: they tell what the locations refer to and nothing else about them. -/
theorem entryPoints_canonical (locations : List Location) :
    (entryPoints locations).Pairwise (· < ·) ∧
      (∀ offset, offset ∈ entryPoints locations ↔ ∃ l ∈ locations,
        (∃ n ∈ l.npcs.getD [], Address.eventToFile n.eventAddr = offset) ∨
          ∃ t ∈ l.triggers.getD [], Address.eventToFile t.eventAddr = offset) ∧
      (∀ others, Relation.ReflTransGen Rearranged locations others → entryPoints others = entryPoints locations) ∧
      ∀ rom, readAll rom = .ok locations →
        ∀ offset ∈ entryPoints locations, 0xa0000 ≤ offset ∧ offset < rom.size := by
  obtain ⟨rising, members⟩ := entryPoints_unique locations
  refine ⟨rising, fun offset => ?_, fun others => entryPoints_eq_of_rearranged, fun rom read offset => ?_⟩
  · simp only [members, refersTo_iff]
  · exact entryPoints_inside read

/-- A trigger moves by `2 ^ 18`, then it is listed on both sides of the other one, then the location is repeated. -/
theorem entryPoints_canonical_triggers :
    entryPoints [⟨0, default, none, some [⟨9, 2, 0x45eb4⟩, ⟨3, 7, 0xc75f⟩, ⟨9, 2, 0x45eb4⟩]⟩,
        ⟨0, default, none, some [⟨9, 2, 0x45eb4⟩, ⟨3, 7, 0xc75f⟩, ⟨9, 2, 0x45eb4⟩]⟩] =
      entryPoints [⟨0, default, none, some [⟨3, 7, 0xc75f⟩, ⟨9, 2, 0x5eb4⟩]⟩] ∧
      ∃ locations, readAll (undecodable 0x2dc47f) = .ok locations ∧ 0xaacac ∈ entryPoints locations ∧
        (0xaacac : Int) < (undecodable 0x2dc47f).size := by
  constructor
  · have moved : Relisted ⟨0, default, none, some [⟨3, 7, 0xc75f⟩, ⟨9, 2, 0x5eb4⟩]⟩
        ⟨0, default, none, some [⟨3, 7, 0xc75f⟩, ⟨9, 2, 0x45eb4⟩]⟩ :=
      @Relisted.triggerAddr _ [⟨3, 7, 0xc75f⟩] [] ⟨9, 2, 0x5eb4⟩ 0x45eb4 rfl (by decide)
    have listed : Relisted ⟨0, default, none, some [⟨3, 7, 0xc75f⟩, ⟨9, 2, 0x45eb4⟩]⟩
        ⟨0, default, none, some [⟨9, 2, 0x45eb4⟩, ⟨3, 7, 0xc75f⟩, ⟨9, 2, 0x45eb4⟩]⟩ :=
      .triggers fun t => by simp only [Option.getD_some, List.mem_cons]; grind
    apply (entryPoints_canonical _).2.2.1
    apply Relation.ReflTransGen.head (@Rearranged.location [] [] _ _ moved)
    apply Relation.ReflTransGen.head (@Rearranged.location [] [] _ _ listed)
    exact .single (.members fun l => by simp)
  · have large := Nat.le_refl 0x2dc47f
    have read := readAll_of_hasAll (Undecodable.hasAll large)
    obtain ⟨_, members, _, inside⟩ :=
      entryPoints_canonical ((List.range' 0 count).map (placed (undecodable 0x2dc47f)))
    have first : placed (undecodable 0x2dc47f) 0 ∈ (List.range' 0 count).map (placed (undecodable 0x2dc47f)) :=
      List.mem_map_of_mem (List.mem_range'_1.mpr ⟨Nat.le_refl 0, by decide⟩)
    have member := (members 0xaacac).mpr ⟨_, first, refersTo_iff.mp (Undecodable.refersTo large)⟩
    exact ⟨_, read, member, (inside _ read _ member).2⟩

end Location

end EventScript
