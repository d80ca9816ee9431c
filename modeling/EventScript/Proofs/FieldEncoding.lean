import EventScript.Proofs.EventChains
import EventScript.Script

/-! # Encoding of the field dialect

An action queue is a chain inside an event. Its stop byte is the tag of another event outside of a queue,
and the stop byte of a script is no tag at all. Since each chain is read up to its own stop byte, a
script is still read exactly where the encodings of its well-formed events stand, with a stop byte behind
them.
-/

namespace EventScript

namespace QueueAction

def encode (a : QueueAction) : List UInt8 :=
  [a.code]

theorem tagged_iff {a : QueueAction} {bytes : List UInt8} :
    Tagged (fun tag => if mk tag = centerOnScreen then some (mk tag) else none)
      (fun form a bytes => a = form ∧ bytes = []) a bytes ↔
      a = centerOnScreen ∧ bytes = a.encode := by
  constructor
  · intro h
    obtain ⟨tag, form, _, known, ⟨rfl, rfl⟩, rfl⟩ := h
    simp only [Option.ite_none_right_eq_some, Option.some.injEq] at known
    obtain ⟨same, rfl⟩ := known
    exact ⟨same, rfl⟩
  · intro h
    obtain ⟨rfl, rfl⟩ := h
    exact ⟨_, centerOnScreen, [], rfl, ⟨rfl, rfl⟩, rfl⟩

theorem reads_decoder {data : Bytes} :
    Reads data (decoder.decode data) fun a bytes => a = centerOnScreen ∧ bytes = a.encode :=
  (Reads.ofForms fun form => .pure form).of_iff fun _ _ => tagged_iff

theorem reads_queue {data : Bytes} :
    Reads data (assemble decoder [stop] data) fun actions bytes =>
      (∀ a ∈ actions, a = centerOnScreen) ∧ bytes = actions.map code ++ [0xff] := by
  have starts : ∀ a : QueueAction, a = centerOnScreen →
      ∃ tag operands, a.encode = tag :: operands ∧ tag ∉ [stop] := by
    intro a same
    subst same
    exact ⟨_, [], rfl, by decide⟩
  apply (Reads.assemble reads_decoder).of_iff
  intro actions bytes
  rw [Chain.iff_flatMap starts, List.map_eq_flatMap]
  simp only [List.mem_singleton, exists_eq_left]
  rfl

end QueueAction

namespace FieldEvent

/-- The tags of the action queues. -/
def queues : List UInt8 := [0x31, 0x32, 0x33, 0x34]

/-- The operands are in the range that an encoding can hold. An empty queue has no list of actions. -/
def WellFormed : FieldEvent → Prop
  | .actionQueue queue _ length actions =>
      queue ∈ queues ∧ length.toNat < 128 ∧ (∀ a ∈ actions.getD [], a = .centerOnScreen) ∧
        actions ≠ some []
  | .branchIfEventBit _ addr | .call addr | .jumpIfBattleSwitch _ addr => addr.toNat < 0x1000000
  | .dialog _ wait => wait = true
  | .dialogWait | .invokeBattle | .invokeBattleOnChestOpen | .makeChar0Lead | .nop
  | .unfadeScreen => True

instance (e : FieldEvent) : Decidable e.WellFormed :=
  match e with
  | .actionQueue .. => inferInstanceAs (Decidable (_ ∧ _))
  | .branchIfEventBit .. | .call _ | .jumpIfBattleSwitch .. => inferInstanceAs (Decidable (_ < _))
  | .dialog .. => inferInstanceAs (Decidable (_ = _))
  | .dialogWait | .invokeBattle | .invokeBattleOnChestOpen | .makeChar0Lead | .nop
  | .unfadeScreen => inferInstanceAs (Decidable True)

/-- The tag of an event and the operands behind it. -/
def encode : FieldEvent → List UInt8
  | .actionQueue queue wait length actions =>
      queue :: .ofNat (length.toNat + 128 * wait.toNat) ::
        ((actions.getD []).map QueueAction.code ++ [0xff])
  | .branchIfEventBit bit addr => 0xc0 :: (wordBytes bit ++ longBytes addr)
  | .call addr => 0xb2 :: longBytes addr
  | .dialog msg _ => 0x4b :: wordBytes msg
  | .jumpIfBattleSwitch switch addr => 0xb7 :: switch :: longBytes addr
  | .dialogWait => [0x49]
  | .invokeBattle => [0x4e]
  | .invokeBattleOnChestOpen => [0x8e]
  | .makeChar0Lead => [0x47]
  | .nop => [0xff]
  | .unfadeScreen => [0x96]

namespace Form

/-- How a form spells the operands of its events. -/
inductive Spells : Form → FieldEvent → List UInt8 → Prop where
  | whole (event : FieldEvent) : Spells (.whole event) event []
  | actionQueue {queue length : UInt8} {wait : Bool} {actions : List QueueAction}
      (short : length.toNat < 128) (known : ∀ a ∈ actions, a = .centerOnScreen) :
      Spells (.actionQueue queue) (.actionQueue queue wait length (absentIfEmpty actions))
        (.ofNat (length.toNat + 128 * wait.toNat) :: (actions.map QueueAction.code ++ [0xff]))
  | branchIfEventBit {bit : UInt16} {addr : UInt32} (small : addr.toNat < 0x1000000) :
      Spells .branchIfEventBit (.branchIfEventBit bit addr) (wordBytes bit ++ longBytes addr)
  | call {addr : UInt32} (small : addr.toNat < 0x1000000) : Spells .call (.call addr) (longBytes addr)
  | dialog {msg : UInt16} : Spells .dialog (.dialog msg true) (wordBytes msg)
  | jumpIfBattleSwitch {switch : UInt8} {addr : UInt32} (small : addr.toNat < 0x1000000) :
      Spells .jumpIfBattleSwitch (.jumpIfBattleSwitch switch addr) (switch :: longBytes addr)

theorem queueInfo_iff {info length : UInt8} {wait : Bool} :
    wait = flag info.toNat 7 ∧ length = .ofNat (bits info.toNat 0 7) ↔
      length.toNat < 128 ∧ info = .ofNat (length.toNat + 128 * wait.toNat) := by
  have := info.toNat_lt
  have := length.toNat_lt
  have := wait.toNat_le
  simp only [eq_flag_iff, bits, Nat.reduceShiftLeft, ← UInt8.toNat_inj, UInt8.toNat_ofNat']
  omega

theorem reads_read {data : Bytes} (form : Form) : Reads data (form.read data) form.Spells := by
  cases form with
  | whole event =>
      apply (Reads.pure event).of_iff
      intro e bytes
      constructor
      · intro h
        obtain ⟨rfl, rfl⟩ := h
        exact .whole _
      · intro spelled
        cases spelled with
        | whole => exact ⟨rfl, rfl⟩
  | actionQueue queue =>
      apply (Reads.bind .byte fun _ => .map _ QueueAction.reads_queue).of_iff
      intro e bytes
      constructor
      · intro h
        obtain ⟨info, _, _, rfl, ⟨actions, ⟨known, rfl⟩, rfl⟩, rfl⟩ := h
        obtain ⟨short, same⟩ := queueInfo_iff.mp (And.intro (Eq.refl _) (Eq.refl _))
        have spelled := @Spells.actionQueue queue _ (flag info.toNat 7) _ short known
        rwa [← same] at spelled
      · intro spelled
        cases spelled with
        | actionQueue short known =>
            obtain ⟨wait_eq, length_eq⟩ := queueInfo_iff.mpr ⟨short, rfl⟩
            exact ⟨_, _, _, rfl, ⟨_, ⟨known, rfl⟩, by rw [← wait_eq, ← length_eq]⟩, rfl⟩
  | branchIfEventBit =>
      apply (Reads.bind .word fun _ => .map _ .long).of_iff
      intro e bytes
      constructor
      · intro h
        obtain ⟨bit, _, _, rfl, ⟨addr, ⟨small, rfl⟩, rfl⟩, rfl⟩ := h
        exact .branchIfEventBit small
      · intro spelled
        cases spelled with
        | branchIfEventBit small => exact ⟨_, _, _, rfl, ⟨_, ⟨small, rfl⟩, rfl⟩, rfl⟩
  | call =>
      apply (Reads.map _ .long).of_iff
      intro e bytes
      constructor
      · intro h
        obtain ⟨addr, ⟨small, rfl⟩, rfl⟩ := h
        exact .call small
      · intro spelled
        cases spelled with
        | call small => exact ⟨_, ⟨small, rfl⟩, rfl⟩
  | dialog =>
      apply (Reads.map _ .word).of_iff
      intro e bytes
      constructor
      · intro h
        obtain ⟨msg, rfl, rfl⟩ := h
        exact .dialog
      · intro spelled
        cases spelled with
        | dialog => exact ⟨_, rfl, rfl⟩
  | jumpIfBattleSwitch =>
      apply (Reads.bind .byte fun _ => .map _ .long).of_iff
      intro e bytes
      constructor
      · intro h
        obtain ⟨switch, _, _, rfl, ⟨addr, ⟨small, rfl⟩, rfl⟩, rfl⟩ := h
        exact .jumpIfBattleSwitch small
      · intro spelled
        cases spelled with
        | jumpIfBattleSwitch small => exact ⟨_, _, _, rfl, ⟨_, ⟨small, rfl⟩, rfl⟩, rfl⟩

/-- The tags of a form: the events of each form are encoded with them. -/
def HasTag (tag : UInt8) : Form → Prop
  | .whole event => event.WellFormed ∧ event.encode = [tag]
  | .actionQueue queue => queue ∈ queues ∧ queue = tag
  | .branchIfEventBit => tag = 0xc0
  | .call => tag = 0xb2
  | .dialog => tag = 0x4b
  | .jumpIfBattleSwitch => tag = 0xb7

instance (tag : UInt8) (form : Form) : Decidable (form.HasTag tag) :=
  match form with
  | .whole _ | .actionQueue _ => inferInstanceAs (Decidable (_ ∧ _))
  | .branchIfEventBit | .call | .dialog | .jumpIfBattleSwitch => inferInstanceAs (Decidable (_ = _))

theorem hasTag_of_mem : ∀ row ∈ forms, row.2.HasTag row.1 := by decide

theorem lookup_of_mem_stops : ∀ b ∈ stops, forms.lookup b = none :=
  List.forall_mem_singleton.mpr rfl

end Form

theorem absentIfEmpty_ne_some_nil {α : Type} (items : List α) : absentIfEmpty items ≠ some [] := by
  cases items <;> simp [absentIfEmpty]

theorem getD_absentIfEmpty {α : Type} (items : List α) : (absentIfEmpty items).getD [] = items := by
  cases items <;> rfl

theorem absentIfEmpty_getD {α : Type} {items : Option (List α)} (h : items ≠ some []) :
    absentIfEmpty (items.getD []) = items := by
  match items, h with
  | none, _ => rfl
  | some (_ :: _), _ => rfl

theorem tagged_iff {e : FieldEvent} {bytes : List UInt8} :
    Tagged (fun tag => forms.lookup tag) Form.Spells e bytes ↔ e.WellFormed ∧ bytes = e.encode := by
  constructor
  · intro h
    obtain ⟨tag, form, operands, known, spelled, rfl⟩ := h
    obtain ⟨before, behind, row, _⟩ := List.lookup_eq_some_iff.mp known
    have hasTag := Form.hasTag_of_mem (tag, form) (row ▸ by simp)
    cases spelled with
    | whole => exact ⟨hasTag.1, hasTag.2.symm⟩
    | actionQueue short known =>
        obtain ⟨isQueue, rfl⟩ := hasTag
        refine ⟨⟨isQueue, short, ?_, absentIfEmpty_ne_some_nil _⟩, ?_⟩
        · rwa [getD_absentIfEmpty]
        · rw [encode, getD_absentIfEmpty]
    | branchIfEventBit small | call small | jumpIfBattleSwitch small =>
        cases hasTag
        exact ⟨small, rfl⟩
    | dialog =>
        cases hasTag
        exact ⟨rfl, rfl⟩
  · intro h
    obtain ⟨valid, rfl⟩ := h
    cases e with
    | actionQueue queue wait length actions =>
        obtain ⟨isQueue, short, known, kept⟩ := valid
        have spelled := @Form.Spells.actionQueue queue _ wait _ short known
        rw [absentIfEmpty_getD kept] at spelled
        simp only [queues, List.mem_cons, List.not_mem_nil, or_false] at isQueue
        rcases isQueue with rfl | rfl | rfl | rfl <;> exact ⟨_, _, _, rfl, spelled, rfl⟩
    | branchIfEventBit bit addr => exact ⟨_, _, _, rfl, .branchIfEventBit valid, rfl⟩
    | call addr => exact ⟨_, _, _, rfl, .call valid, rfl⟩
    | dialog msg wait =>
        cases valid
        exact ⟨_, _, _, rfl, .dialog, rfl⟩
    | jumpIfBattleSwitch switch addr => exact ⟨_, _, _, rfl, .jumpIfBattleSwitch valid, rfl⟩
    | dialogWait | invokeBattle | invokeBattleOnChestOpen | makeChar0Lead | nop | unfadeScreen =>
        exact ⟨_, _, _, rfl, .whole _, rfl⟩

theorem reads_decoder {data : Bytes} :
    Reads data (decoder.decode data) fun e bytes => e.WellFormed ∧ bytes = e.encode :=
  (Reads.ofForms Form.reads_read).of_iff fun _ _ => tagged_iff

theorem encode_starts (e : FieldEvent) (h : e.WellFormed) :
    ∃ tag operands, e.encode = tag :: operands ∧ tag ∉ stops :=
  (tagged_iff.mpr ⟨h, rfl⟩).starts Form.lookup_of_mem_stops

theorem reads_script {data : Bytes} :
    Reads data (Dialect.field.script data) fun script bytes =>
      ∃ events, ((∀ e ∈ events, e.WellFormed) ∧
        ∃ stop ∈ stops, bytes = events.flatMap encode ++ [stop]) ∧ script = .field events :=
  .map _ ((Reads.assemble reads_decoder).of_iff fun _ _ => Chain.iff_flatMap encode_starts)

/-- A script is read from one offset up to another exactly where the encodings of its well-formed events
    stand one behind the other, and the stop byte behind them. -/
theorem fieldScript_eq_ok_iff (data : Bytes) (start next : Int) (events : List FieldEvent) :
    Dialect.field.script data start = .ok (.field events) next ↔
      next ≤ data.size ∧ (∀ e ∈ events, e.WellFormed) ∧
        data.slice? start next = some (events.flatMap encode ++ [0xfe]).toArray := by
  rw [reads_script start _ next]
  constructor
  · intro h
    obtain ⟨_, ⟨_, ⟨valid, stop, isStop, rfl⟩, ⟨⟩⟩, spans⟩ := h
    have sliced := (spans_iff_slice? (by simp)).mp spans
    cases List.mem_singleton.mp isStop
    exact ⟨slice?_le sliced, valid, sliced⟩
  · intro h
    obtain ⟨_, valid, sliced⟩ := h
    exact ⟨_, ⟨events, ⟨valid, 0xfe, List.mem_singleton_self _, rfl⟩, rfl⟩,
      (spans_iff_slice? (by simp)).mpr sliced⟩

end FieldEvent

end EventScript
