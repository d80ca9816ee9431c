import EventScript.Proofs.DistinctNames
import EventScript.Proofs.PlainDocuments
import EventScript.Proofs.ScriptEncoding
import EventScript.Script.Document

/-! # Events as documents

The record of an event is plain, and a faithful format tells events of one dialect apart by their records: the
name gives the kind of the event, and the kind gives what each operand is.
-/

namespace EventScript

/-! ## Names are words -/

theorem isWord_nameOf {names : List String} (all : ∀ name ∈ names, IsWord name) (code : UInt8) :
    IsWord (nameOf names code) := by
  have unlisted : IsWord s!"unknown({code.toNat})" := by
    have digits : (Nat.toDigits 10 code.toNat).all isWordChar :=
      List.all_eq_true.mpr fun _ => isWordChar_of_mem_toDigits
    have short : (Nat.toDigits 10 code.toNat).length ≤ 3 :=
      (Nat.length_toDigits_le_iff (by omega) (by omega)).mpr (Nat.lt_trans code.toNat_lt (by decide))
    refine ⟨by simp [toString], by simp [toString]; omega, ?_⟩
    simp only [toString, String.toList_append, Nat.toList_repr, List.all_append, digits]
    decide
  unfold nameOf
  cases listed : names[code.toNat]? with
  | some name => exact all name (List.mem_of_getElem? listed)
  | none => exact unlisted

theorem CondOp.isWord_name (op : CondOp) : IsWord op.name :=
  isWord_nameOf (by decide) op.code

theorem Direction.isWord_name (d : Direction) : IsWord d.name :=
  isWord_nameOf (by decide) d.code

theorem Diagonal.isWord_name (d : Diagonal) : IsWord d.name :=
  isWord_nameOf (by decide) d.code

theorem Speed.isWord_name (s : Speed) : IsWord s.name :=
  isWord_nameOf (by decide) s.code

theorem QueueAction.isWord_name (a : QueueAction) : IsWord a.name := by
  unfold name
  split
  · decide
  · have digits : (hexDigits 2 a.code.toNat).all isWordChar :=
      List.all_eq_true.mpr fun c member => by
        obtain ⟨d, small, rfl⟩ := mem_hexDigits member
        have all : ∀ d < 16, isWordChar (Nat.digitChar d) := by decide
        exact all d small
    have short : (Nat.toDigits 16 a.code.toNat).length ≤ 2 :=
      (Nat.length_toDigits_le_iff (by omega) (by omega)).mpr a.code.toNat_lt
    refine ⟨by simp [toString], by simp [toString, hexByte, toList_hex, hexDigits]; omega, ?_⟩
    simp only [toString, hexByte, String.toList_append, toList_hex, List.all_append, digits]
    decide

theorem WorldEvent.isWord_name (e : WorldEvent) : IsWord e.name := by
  cases e <;>
    · simp only [name]
      decide

theorem FieldEvent.isWord_name (e : FieldEvent) : IsWord e.name := by
  cases e <;>
    · simp only [name]
      decide

theorem Event.isWord_name (e : Event) : IsWord e.name := by
  cases e with
  | worldChar event => exact event.isWord_name
  | field event => exact event.isWord_name

/-! ## Records are plain -/

section Plain

variable {format : Format}

theorem Node.isPlain_named {name : String} (code : UInt8) (word : IsWord name) :
    (Node.named code name).IsPlain format :=
  .octet (Octet.isPlain_named code word)

theorem Node.isPlain_ofByte (code : UInt8) : (Node.ofByte code).IsPlain format :=
  .octet (Octet.isPlain_bare code)

theorem Node.isPlain_ofBytes {codes : List UInt8} (counted : format.Holds codes.length) :
    (Node.ofBytes codes).IsPlain format :=
  .octets (by rwa [List.length_map]) (List.forall_mem_map.mpr fun code _ => Octet.isPlain_bare code)

theorem Condition.isPlain_record (c : Condition) : Record.IsPlain format c.record := by
  refine ⟨⟨by simp [record], ?_, by simp [record], by simp [record]⟩, ?_⟩
  · simp only [record, List.forall_mem_cons]
    decide
  · simp only [record, List.forall_mem_cons]
    exact ⟨.flag _, .number _, Node.isPlain_ofByte _, by simp⟩

theorem WorldEvent.hasPlainKeys (e : WorldEvent) (operands : e.record ≠ []) : Record.HasPlainKeys e.record := by
  cases e <;> first
    | contradiction
    | refine ⟨operands, ?_, by simp [record], by simp [record]⟩
      simp only [record, List.forall_mem_cons]
      decide

theorem FieldEvent.hasPlainKeys (e : FieldEvent) (operands : e.record ≠ []) : Record.HasPlainKeys e.record := by
  cases e <;> first
    | contradiction
    | refine ⟨operands, ?_, by simp [record], by simp [record]⟩
      simp only [record, List.forall_mem_cons]
      decide

theorem holds_two : format.Holds 2 :=
  Format.holds_of_lt (by decide)

theorem length_le_length_flatMap {α : Type} {write : α → List UInt8} {items : List α}
    (some : ∀ a ∈ items, write a ≠ []) : items.length ≤ (items.flatMap write).length := by
  induction items with
  | nil => exact Nat.le_refl 0
  | cons a items ih =>
      obtain ⟨first, further⟩ := List.forall_mem_cons.mp some
      have least := List.length_pos_iff.mpr first
      have rest := ih further
      rw [List.flatMap_cons, List.length_append, List.length_cons]
      omega

theorem Condition.isPlain_rows {conditions : List Condition} (counted : format.Holds conditions.length) :
    (Node.tables (conditions.map record)).IsPlain format :=
  .tables (by rwa [List.length_map]) (List.forall_mem_map.mpr fun c _ => (@c.isPlain_record format).keys)
    (List.forall_mem_map.mpr fun c _ => c.isPlain_record.values)

theorem WorldEvent.isPlain_values (e : WorldEvent) (fits : format.Holds e.encode.length) :
    ∀ f ∈ e.record, f.2.IsPlain format := by
  cases e with
  | clrSetEventBit | graphicalAction | loadMap | move | pause =>
      simp [record, Node.isPlain_ofByte, Node.IsPlain.flag, Node.ofWord, Node.IsPlain.number]
  | fadeScreen | hideCharacter | hideMiniMap | showCharacter | showMiniMap | unfadeScreen => simp [record]
  | entitySpeed speed => simpa [record] using Node.isPlain_named _ speed.isWord_name
  | turnCharacter dir => simpa [record] using Node.isPlain_named _ dir.isWord_name
  | moveDiag dir across along =>
      simp only [record, List.forall_mem_cons]
      exact ⟨Node.isPlain_named _ dir.isWord_name, Node.isPlain_ofBytes holds_two, by simp⟩
  | unknownCmdC7 first second =>
      simpa [record] using Node.isPlain_ofBytes holds_two
  | conditionalJump op conditions addr =>
      simp only [record, List.forall_mem_cons]
      refine ⟨Node.isPlain_named _ op.isWord_name, ?_, .number _, by simp⟩
      cases conditions with
      | none => exact .absent
      | some conditions =>
          refine Condition.isPlain_rows (fits.mono ?_)
          have count : conditions.length ≤ (conditions.flatMap Condition.encode).length :=
            length_le_length_flatMap fun _ _ => List.cons_ne_nil _ _
          simp only [encode, Option.getD_some, List.length_cons, List.length_append]
          omega

theorem FieldEvent.isPlain_values (e : FieldEvent) (fits : format.Holds e.encode.length) :
    ∀ f ∈ e.record, f.2.IsPlain format := by
  cases e with
  | branchIfEventBit | call | dialog | jumpIfBattleSwitch =>
      simp [record, Node.isPlain_ofByte, Node.IsPlain.flag, Node.ofWord, Node.ofLong, Node.IsPlain.number]
  | dialogWait | invokeBattle | invokeBattleOnChestOpen | makeChar0Lead | nop | unfadeScreen => simp [record]
  | actionQueue queue wait length actions =>
      simp only [record, List.forall_mem_cons]
      refine ⟨Node.isPlain_ofByte _, .flag _, Node.isPlain_ofByte _, ?_, by simp⟩
      cases actions with
      | none => exact .absent
      | some actions =>
          refine .octets (fits.mono ?_) (List.forall_mem_map.mpr fun a _ => Octet.isPlain_named _ a.isWord_name)
          simp only [encode, Option.getD_some, List.length_cons, List.length_append, List.length_map]
          omega

end Plain

/-! ## Operands -/

namespace Format.Faithful

variable {format : Format} {same : Node → Node → Prop} {sameRecord : Record → Record → Prop}
  (t : format.Faithful same sameRecord)

include t

theorem word {n n' : UInt16} (equal : same (.ofWord n) (.ofWord n')) : n = n' := by
  have fits (n : UInt16) : format.Holds n.toNat := Format.holds_of_lt (Nat.lt_trans n.toNat_lt (by decide))
  exact UInt16.toNat_inj.mp (t.number (fits n) (fits n') equal)

theorem long {n n' : UInt32} (equal : same (.ofLong n) (.ofLong n')) : n = n' := by
  have fits (n : UInt32) : format.Holds n.toNat := Format.holds_of_lt (Nat.lt_trans n.toNat_lt (by decide))
  exact UInt32.toNat_inj.mp (t.number (fits n) (fits n') equal)

theorem byte {code code' : UInt8} (equal : same (.ofByte code) (.ofByte code')) : code = code' :=
  t.octet (Octet.isPlain_bare code) (Octet.isPlain_bare code') (.bare code code') equal

theorem bytes {codes codes' : List UInt8} (counted : format.Holds codes.length)
    (counted' : format.Holds codes'.length) (equal : same (.ofBytes codes) (.ofBytes codes')) : codes = codes' := by
  have comparable : ∀ o ∈ codes.map (Octet.mk · none), ∀ o' ∈ codes'.map (Octet.mk · none), o.Comparable o' :=
    List.forall_mem_map.mpr fun code _ => List.forall_mem_map.mpr fun code' _ => .bare code code'
  simpa [Function.comp_def] using
    t.octets (Node.isPlain_ofBytes counted) (Node.isPlain_ofBytes counted') comparable equal

theorem named {code code' : UInt8} {name name' : String} (word : IsWord name) (word' : IsWord name')
    (own : name = name' → code = code') (equal : same (.named code name) (.named code' name')) : code = code' :=
  t.octet (Octet.isPlain_named code word) (Octet.isPlain_named code' word') (.named own) equal

theorem condOp {a b : CondOp} (equal : same (.named a.code a.name) (.named b.code b.name)) : a = b :=
  congrArg CondOp.mk <|
    t.named a.isWord_name b.isWord_name (fun named => congrArg CondOp.code (CondOp.name_inj named)) equal

theorem direction {a b : Direction} (equal : same (.named a.code a.name) (.named b.code b.name)) : a = b :=
  congrArg Direction.mk <|
    t.named a.isWord_name b.isWord_name (fun named => congrArg Direction.code (Direction.name_inj named)) equal

theorem diagonal {a b : Diagonal} (equal : same (.named a.code a.name) (.named b.code b.name)) : a = b :=
  congrArg Diagonal.mk <|
    t.named a.isWord_name b.isWord_name (fun named => congrArg Diagonal.code (Diagonal.name_inj named)) equal

theorem speed {a b : Speed} (equal : same (.named a.code a.name) (.named b.code b.name)) : a = b :=
  congrArg Speed.mk <|
    t.named a.isWord_name b.isWord_name (fun named => congrArg Speed.code (Speed.name_inj named)) equal

/-- A list of records is kept if its records are. -/
theorem rows {α : Type} {document : α → Record} {items items' : List α} (some : items ≠ []) (some' : items' ≠ [])
    (plain : (Node.tables (items.map document)).IsPlain format)
    (plain' : (Node.tables (items'.map document)).IsPlain format)
    (inj : ∀ a ∈ items, ∀ a' ∈ items', sameRecord (document a) (document a') → a = a')
    (equal : same (.tables (items.map document)) (.tables (items'.map document))) : items = items' := by
  obtain ⟨a, items, rfl⟩ := List.exists_cons_of_ne_nil some
  obtain ⟨a', items', rfl⟩ := List.exists_cons_of_ne_nil some'
  have pairs := t.tables plain plain' equal
  rw [← List.map_cons, ← List.map_cons, List.forall₂_map_left_iff, List.forall₂_map_right_iff] at pairs
  exact eq_of_forall₂ pairs inj

/-- An event without operands has no record in its document, so nothing is known about an empty one. -/
theorem operands {r r' : Record} (plain : r ≠ [] → Record.IsPlain format r)
    (plain' : r' ≠ [] → Record.IsPlain format r') (equal : r ≠ [] → r' ≠ [] → sameRecord r r')
    (keys : r.map Prod.fst = r'.map Prod.fst) : List.Forall₂ (fun f f' => same f.2 f'.2) r r' := by
  match r, r' with
  | [], [] => exact .nil
  | [], _ :: _ | _ :: _, [] => simp at keys
  | f :: r, f' :: r' =>
      have some := List.cons_ne_nil f r
      have some' := List.cons_ne_nil f' r'
      exact t.fields (plain some) (plain' some') (equal some some') keys

end Format.Faithful

/-! ## Events -/

section Events

variable {format : Format} {same : Node → Node → Prop} {sameRecord : Record → Record → Prop}

theorem Condition.eq_of_record (t : format.Faithful same sameRecord) {c c' : Condition}
    (equal : sameRecord c.record c'.record) : c = c' := by
  obtain ⟨isSet, index, bit⟩ := c
  obtain ⟨isSet', index', bit'⟩ := c'
  match t.fields (isPlain_record _) (isPlain_record _) equal rfl with
  | .cons isSets (.cons indices (.cons bits .nil)) =>
      exact Condition.mk.injEq .. ▸ ⟨t.flag isSets, t.word indices, t.byte bits⟩

theorem WorldEvent.conditions_of_wellFormed {op : CondOp} {conditions : Option (List Condition)} {addr : UInt32}
    (valid : (conditionalJump op conditions addr).WellFormed) :
    ∃ tests, conditions = some tests ∧ tests ≠ [] ∧ format.Holds tests.length := by
  cases conditions with
  | none => exact valid.elim
  | some tests =>
      obtain ⟨_, least, most, _⟩ := valid
      exact ⟨tests, rfl, List.length_pos_iff.mp least, Format.holds_of_lt (Nat.lt_of_le_of_lt most (by decide))⟩

theorem WorldEvent.eq_of_record (t : format.Faithful same sameRecord) {e e' : WorldEvent} (kind : e.SameKind e')
    (valid : e.WellFormed) (valid' : e'.WellFormed) (fits : format.Holds e.encode.length)
    (fits' : format.Holds e'.encode.length)
    (equal : e.record ≠ [] → e'.record ≠ [] → sameRecord e.record e'.record) : e = e' := by
  have values := t.operands (fun some => ⟨e.hasPlainKeys some, e.isPlain_values fits⟩)
    (fun some => ⟨e'.hasPlainKeys some, e'.isPlain_values fits'⟩) equal
  cases kind with
  | fadeScreen | hideCharacter | hideMiniMap | showCharacter | showMiniMap | unfadeScreen => rfl
  | clrSetEventBit =>
      match values rfl with
      | .cons set (.cons index (.cons bit .nil)) => rw [t.flag set, t.word index, t.byte bit]
  | conditionalJump =>
      obtain ⟨tests, rfl, nonempty, count⟩ := conditions_of_wellFormed valid
      obtain ⟨tests', rfl, nonempty', count'⟩ := conditions_of_wellFormed valid'
      match values rfl with
      | .cons op (.cons conditions (.cons addr .nil)) =>
          have tests := t.rows nonempty nonempty' (Condition.isPlain_rows count) (Condition.isPlain_rows count')
            (fun _ _ _ _ => Condition.eq_of_record t) conditions
          rw [t.condOp op, tests, t.long addr]
  | entitySpeed =>
      match values rfl with
      | .cons speed .nil => rw [t.speed speed]
  | graphicalAction =>
      match values rfl with
      | .cons action (.cons flipped .nil) => rw [t.byte action, t.flag flipped]
  | loadMap =>
      match values rfl with
      | .cons map (.cons x (.cons y (.cons mode (.cons variant .nil)))) =>
          rw [t.word map, t.byte x, t.byte y, t.byte mode, t.byte variant]
  | move =>
      match values rfl with
      | .cons dir (.cons steps .nil) => rw [t.byte dir, t.byte steps]
  | moveDiag =>
      match values rfl with
      | .cons dir (.cons steps .nil) =>
          obtain ⟨⟩ := t.bytes holds_two holds_two steps
          rw [t.diagonal dir]
  | pause =>
      match values rfl with
      | .cons frames .nil => rw [t.byte frames]
  | turnCharacter =>
      match values rfl with
      | .cons dir .nil => rw [t.direction dir]
  | unknownCmdC7 =>
      match values rfl with
      | .cons args .nil =>
          obtain ⟨⟩ := t.bytes holds_two holds_two args
          rfl

/-- A queue without actions has no list of them. -/
theorem QueueAction.eq_of_node (t : format.Faithful same sameRecord) {actions actions' : Option (List QueueAction)}
    (filled : actions ≠ some []) (filled' : actions' ≠ some [])
    (plain : (FieldEvent.actionsNode actions).IsPlain format)
    (plain' : (FieldEvent.actionsNode actions').IsPlain format)
    (equal : same (FieldEvent.actionsNode actions) (FieldEvent.actionsNode actions')) : actions = actions' := by
  match actions, actions' with
  | none, none => rfl
  | none, some [] => contradiction
  | some [], none => contradiction
  | none, some (_ :: _) => exact absurd equal t.absent_octets
  | some (_ :: _), none => exact absurd (t.symm equal) t.absent_octets
  | some actions, some actions' =>
      have codes := t.octets plain plain' (List.forall_mem_map.mpr fun a _ => List.forall_mem_map.mpr fun b _ =>
        .named fun named => congrArg code (name_inj named)) equal
      have inj (a b : QueueAction) (same : a.code = b.code) : a = b := congrArg mk same
      rw [List.map_map, List.map_map] at codes
      rw [(List.map_inj_right inj).mp codes]

theorem FieldEvent.eq_of_record (t : format.Faithful same sameRecord) {e e' : FieldEvent} (kind : e.SameKind e')
    (valid : e.WellFormed) (valid' : e'.WellFormed) (fits : format.Holds e.encode.length)
    (fits' : format.Holds e'.encode.length)
    (equal : e.record ≠ [] → e'.record ≠ [] → sameRecord e.record e'.record) : e = e' := by
  have values := t.operands (fun some => ⟨e.hasPlainKeys some, e.isPlain_values fits⟩)
    (fun some => ⟨e'.hasPlainKeys some, e'.isPlain_values fits'⟩) equal
  cases kind with
  | dialogWait | invokeBattle | invokeBattleOnChestOpen | makeChar0Lead | nop | unfadeScreen => rfl
  | @actionQueue _ _ _ _ _ _ actions actions' =>
      match values rfl with
      | .cons queue (.cons wait (.cons length (.cons nodes .nil))) =>
          have plain := isPlain_values _ fits ("actions", actionsNode actions) (by simp [record])
          have plain' := isPlain_values _ fits' ("actions", actionsNode actions') (by simp [record])
          have actions := QueueAction.eq_of_node t valid.2.2.2 valid'.2.2.2 plain plain' nodes
          rw [t.byte queue, t.flag wait, t.byte length, actions]
  | branchIfEventBit =>
      match values rfl with
      | .cons bit (.cons addr .nil) => rw [t.word bit, t.long addr]
  | call =>
      match values rfl with
      | .cons addr .nil => rw [t.long addr]
  | dialog =>
      match values rfl with
      | .cons msg (.cons wait .nil) => rw [t.word msg, t.flag wait]
  | jumpIfBattleSwitch =>
      match values rfl with
      | .cons switch (.cons addr .nil) => rw [t.byte switch, t.long addr]

end Events

namespace Event

/-- The operands are in the range that an encoding can hold. -/
def WellFormed : Event → Prop
  | .worldChar e => e.WellFormed
  | .field e => e.WellFormed

def encode : Event → List UInt8
  | .worldChar e => e.encode
  | .field e => e.encode

def dialect : Event → Dialect
  | .worldChar _ => .worldChar
  | .field _ => .field

variable {format : Format} {same : Node → Node → Prop} {sameRecord : Record → Record → Prop}

theorem isPlain_record (e : Event) (fits : format.Holds e.encode.length) (operands : e.record ≠ []) :
    Record.IsPlain format e.record := by
  cases e with
  | worldChar e => exact ⟨e.hasPlainKeys operands, e.isPlain_values fits⟩
  | field e => exact ⟨e.hasPlainKeys operands, e.isPlain_values fits⟩

theorem isPlain_document (e : Event) (fits : format.Holds e.encode.length) : Record.IsPlain format e.document := by
  have op : (Node.text e.name).IsPlain format := .text e.isWord_name
  unfold document
  split
  · refine ⟨⟨by simp, ?_, by simp, by simp⟩, by simpa using op⟩
    simp only [List.forall_mem_cons]
    decide
  · rename_i args operands
    have args := e.isPlain_record fits operands
    refine ⟨⟨by simp, ?_, by simp, by simp⟩, by simpa using ⟨op, .table args.keys args.values⟩⟩
    simp only [List.forall_mem_cons]
    decide

theorem op_mem_document (e : Event) : ("op", .text e.name) ∈ e.document := by
  unfold document
  split <;> simp

theorem args_mem_document {e : Event} (operands : e.record ≠ []) : ("args", .table e.record) ∈ e.document := by
  unfold document
  split
  · contradiction
  · simp

/-- Events of one dialect are told apart by their documents. -/
theorem eq_of_document (t : format.Faithful same sameRecord) {e e' : Event} (dialects : e.dialect = e'.dialect)
    (valid : e.WellFormed) (valid' : e'.WellFormed) (fits : format.Holds e.encode.length)
    (fits' : format.Holds e'.encode.length) (equal : sameRecord e.document e'.document) : e = e' := by
  have plain := e.isPlain_document fits
  have plain' := e'.isPlain_document fits'
  have names : e.name = e'.name :=
    t.text e.isWord_name e'.isWord_name (t.field plain plain' equal e.op_mem_document e'.op_mem_document)
  have records (operands : e.record ≠ []) (operands' : e'.record ≠ []) : sameRecord e.record e'.record :=
    t.table operands operands'
      (t.field plain plain' equal (args_mem_document operands) (args_mem_document operands'))
  match e, e' with
  | .worldChar e, .worldChar e' =>
      rw [WorldEvent.eq_of_record t (WorldEvent.sameKind_of_name names) valid valid' fits fits' records]
  | .field e, .field e' =>
      rw [FieldEvent.eq_of_record t (FieldEvent.sameKind_of_name names) valid valid' fits fits' records]
  | .worldChar _, .field _ | .field _, .worldChar _ => contradiction

end Event

end EventScript
