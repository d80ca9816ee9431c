import EventScript.Proofs.ListingReader
import Std.Data.String.ToNat

/-! # Names that tell codes and events apart

A code has a name of its own, and so has each kind of event within its dialect. Two events of one dialect that
share a name differ in their operands only.
-/

namespace EventScript

theorem hexByte_inj {a b : UInt8} (same : hexByte a = hexByte b) : a = b := by
  have read := hexByte?_hexByte a
  rw [same, hexByte?_hexByte b] at read
  exact (Option.some.inj read).symm

/-- A code without a name in the list shows its number in parentheses, which no name in the list has. -/
theorem nameOf_inj {names : List String} (distinct : names.Nodup) (bare : ∀ name ∈ names, '(' ∉ name.toList)
    {a b : UInt8} (same : nameOf names a = nameOf names b) : a = b := by
  have unlisted (name : String) (n : Nat) (member : name ∈ names) : name ≠ s!"unknown({n})" := by
    rintro rfl
    exact bare _ member (by simp [toString])
  unfold nameOf at same
  cases listed : names[a.toNat]? with
  | some name =>
      have member := List.mem_of_getElem? listed
      cases listed' : names[b.toNat]? with
      | some other =>
          rw [listed, listed', Option.getD_some, Option.getD_some] at same
          have inside := (List.getElem?_eq_some_iff.mp listed).1
          exact UInt8.toNat_inj.mp ((List.getElem?_inj inside distinct).mp (by rw [listed, listed', same]))
      | none =>
          rw [listed, listed'] at same
          exact absurd same (unlisted name _ member)
  | none =>
      cases listed' : names[b.toNat]? with
      | some other =>
          rw [listed, listed'] at same
          exact absurd same.symm (unlisted other _ (List.mem_of_getElem? listed'))
      | none =>
          simp only [listed, listed', Option.getD_none, toString, String.append_left_inj,
            String.append_right_inj, Nat.repr_inj] at same
          exact UInt8.toNat_inj.mp same

theorem CondOp.name_inj {a b : CondOp} (same : a.name = b.name) : a = b :=
  congrArg mk (nameOf_inj (by decide) (by decide) same)

theorem Direction.name_inj {a b : Direction} (same : a.name = b.name) : a = b :=
  congrArg mk (nameOf_inj (by decide) (by decide) same)

theorem Diagonal.name_inj {a b : Diagonal} (same : a.name = b.name) : a = b :=
  congrArg mk (nameOf_inj (by decide) (by decide) same)

theorem Speed.name_inj {a b : Speed} (same : a.name = b.name) : a = b :=
  congrArg mk (nameOf_inj (by decide) (by decide) same)

theorem QueueAction.name_inj {a b : QueueAction} (same : a.name = b.name) : a = b := by
  have numbered (c : UInt8) : "center_on_screen" ≠ s!"action_{hexByte c}" := by
    intro equal
    have first := congrArg (·.toList.head?) equal
    simp [toString] at first
  unfold name at same
  split at same <;> split at same
  · simp_all
  · exact absurd same (numbered _)
  · exact absurd same.symm (numbered _)
  · simp only [toString, String.append_right_inj] at same
    cases a
    exact congrArg mk (hexByte_inj same)

namespace WorldEvent

/-- The events differ in their operands only. -/
inductive SameKind : WorldEvent → WorldEvent → Prop where
  | clrSetEventBit {set set' index index' bit bit'} :
      SameKind (.clrSetEventBit set index bit) (.clrSetEventBit set' index' bit')
  | conditionalJump {op op' conditions conditions' addr addr'} :
      SameKind (.conditionalJump op conditions addr) (.conditionalJump op' conditions' addr')
  | entitySpeed {speed speed'} : SameKind (.entitySpeed speed) (.entitySpeed speed')
  | fadeScreen : SameKind .fadeScreen .fadeScreen
  | graphicalAction {action action' flipped flipped'} :
      SameKind (.graphicalAction action flipped) (.graphicalAction action' flipped')
  | hideCharacter : SameKind .hideCharacter .hideCharacter
  | hideMiniMap : SameKind .hideMiniMap .hideMiniMap
  | loadMap {map map' x x' y y' mode mode' variant variant'} :
      SameKind (.loadMap map x y mode variant) (.loadMap map' x' y' mode' variant')
  | move {dir dir' steps steps'} : SameKind (.move dir steps) (.move dir' steps')
  | moveDiag {dir dir' across across' along along'} :
      SameKind (.moveDiag dir across along) (.moveDiag dir' across' along')
  | pause {frames frames'} : SameKind (.pause frames) (.pause frames')
  | showCharacter : SameKind .showCharacter .showCharacter
  | showMiniMap : SameKind .showMiniMap .showMiniMap
  | turnCharacter {dir dir'} : SameKind (.turnCharacter dir) (.turnCharacter dir')
  | unfadeScreen : SameKind .unfadeScreen .unfadeScreen
  | unknownCmdC7 {first first' second second'} :
      SameKind (.unknownCmdC7 first second) (.unknownCmdC7 first' second')

theorem sameKind_of_name {e e' : WorldEvent} (same : e.name = e'.name) : e.SameKind e' := by
  cases e <;> cases e' <;> first | constructor | simp [name] at same

end WorldEvent

namespace FieldEvent

/-- The events differ in their operands only. -/
inductive SameKind : FieldEvent → FieldEvent → Prop where
  | actionQueue {queue queue' wait wait' length length' actions actions'} :
      SameKind (.actionQueue queue wait length actions) (.actionQueue queue' wait' length' actions')
  | branchIfEventBit {bit bit' addr addr'} :
      SameKind (.branchIfEventBit bit addr) (.branchIfEventBit bit' addr')
  | call {addr addr'} : SameKind (.call addr) (.call addr')
  | dialog {msg msg' wait wait'} : SameKind (.dialog msg wait) (.dialog msg' wait')
  | jumpIfBattleSwitch {switch switch' addr addr'} :
      SameKind (.jumpIfBattleSwitch switch addr) (.jumpIfBattleSwitch switch' addr')
  | dialogWait : SameKind .dialogWait .dialogWait
  | invokeBattle : SameKind .invokeBattle .invokeBattle
  | invokeBattleOnChestOpen : SameKind .invokeBattleOnChestOpen .invokeBattleOnChestOpen
  | makeChar0Lead : SameKind .makeChar0Lead .makeChar0Lead
  | nop : SameKind .nop .nop
  | unfadeScreen : SameKind .unfadeScreen .unfadeScreen

theorem sameKind_of_name {e e' : FieldEvent} (same : e.name = e'.name) : e.SameKind e' := by
  cases e <;> cases e' <;> first | constructor | simp [name] at same

end FieldEvent

end EventScript
