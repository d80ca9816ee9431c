import EventScript.Proofs.EventDocuments

/-! # Texts that tell events apart

The text of an event is made of words with marks between them. The first word is the name of the event, and the
others are its operands, in an order and number that the name gives. So two events of a dialect with the same
text are the same, up to lists that are absent in one and empty in the other.
-/

namespace EventScript

/-! ## Words of a text -/

/-- The names and numerals of a text. -/
def tokens (text : String) : List String :=
  (stretches (!isWordChar ·) text.toList).map String.ofList

/-- The text starts and ends apart from the words beside it. -/
def isMark (text : String) : Bool :=
  text.toList.head?.any (!isWordChar ·) && text.toList.getLast?.any (!isWordChar ·)

theorem tokens_append_of_head {a b : String} (apart : b.toList.head?.any (!isWordChar ·)) :
    tokens (a ++ b) = tokens a ++ tokens b := by
  cases shown : b.toList with
  | nil => simp [shown] at apart
  | cons c rest =>
      have apart : !isWordChar c := by simpa [shown] using apart
      rw [tokens, String.toList_append, shown, stretches_append_cons apart, tokens, tokens, shown,
        stretches_cons apart, List.map_append]

theorem tokens_append_of_last {a b : String} (apart : a.toList.getLast?.any (!isWordChar ·)) :
    tokens (a ++ b) = tokens a ++ tokens b := by
  cases last : a.toList.getLast? with
  | none => simp [last] at apart
  | some c =>
      have apart : !isWordChar c := by simpa [last] using apart
      obtain ⟨front, shown⟩ := List.getLast?_eq_some_iff.mp last
      have alone : stretches (!isWordChar ·) (front ++ [c]) = stretches (!isWordChar ·) front :=
        (stretches_append_cons apart front []).trans (List.append_nil _)
      rw [tokens, String.toList_append, shown, List.append_assoc, List.singleton_append,
        stretches_append_cons apart, tokens, tokens, shown, alone, List.map_append]

theorem tokens_mark {a mark b : String} (apart : isMark mark) :
    tokens (a ++ mark ++ b) = tokens a ++ tokens mark ++ tokens b := by
  obtain ⟨head, last⟩ := Bool.and_eq_true_iff.mp apart
  have ends : (a ++ mark).toList.getLast?.any (!isWordChar ·) := by
    cases shown : mark.toList.getLast? with
    | none => simp [shown] at last
    | some c => simpa [shown] using last
  rw [tokens_append_of_last ends, tokens_append_of_head head]

theorem tokens_word {text : String} (nonempty : text ≠ "") (word : text.toList.all isWordChar) :
    tokens text = [text] := by
  have filled : text.toList ≠ [] := fun none => nonempty (String.toList_eq_nil_iff.mp none)
  rw [tokens, stretches_of_none filled fun c member => by simpa using List.all_eq_true.mp word c member]
  exact congrArg ([·]) String.ofList_toList

theorem tokens_gap {text : String} (apart : text.toList.all (!isWordChar ·)) : tokens text = [] := by
  have none := stretches_append_gap (List.all_eq_true.mp apart) []
  rw [List.append_nil] at none
  rw [tokens, none]
  rfl

theorem IsWord.tokens {text : String} (h : IsWord text) : tokens text = [text] :=
  tokens_word h.nonempty h.plain

theorem tokens_joinWith {mark : String} (apart : isMark mark) (parts : List String) (none : tokens mark = []) :
    tokens (joinWith mark parts) = parts.flatMap tokens := by
  induction parts with
  | nil => rfl
  | cons part parts ih =>
      cases parts with
      | nil => simp [joinWith]
      | cons next parts =>
          have split : joinWith mark (part :: next :: parts) = part ++ mark ++ joinWith mark (next :: parts) :=
            String.intercalate_cons_cons
          rw [split, tokens_mark apart, ih, none, List.append_nil]
          rfl

/-! ## Operands as words -/

theorem hex_inj {width m n : Nat} : hex width m = hex width n ↔ m = n := by
  constructor
  · intro same
    have read := hexNumber?_hexDigits digitStyle_id width m
    rw [← toList_hex, same, toList_hex, hexNumber?_hexDigits digitStyle_id] at read
    exact (Option.some.inj read).symm
  · rintro rfl
    rfl

theorem tokens_hex (width n : Nat) : tokens (hex width n) = [hex width n] := by
  have all : ∀ d < 16, isWordChar (Nat.digitChar d) := by decide
  have nonempty : hex width n ≠ "" := fun none =>
    hexDigits_ne_nil width n (by rw [← toList_hex, none]; rfl)
  refine tokens_word nonempty (List.all_eq_true.mpr fun c member => ?_)
  rw [toList_hex] at member
  obtain ⟨d, small, rfl⟩ := mem_hexDigits member
  exact all d small

theorem tokens_repr (n : Nat) : tokens n.repr = [n.repr] := by
  refine tokens_word (by simp) (List.all_eq_true.mpr fun c member => ?_)
  rw [Nat.toList_repr] at member
  exact isWordChar_of_mem_toDigits member

/-- The word that stands for a flag, which is left out if the flag is not set. -/
def flagWord (word : String) (flag : Bool) : List String :=
  if flag then [word] else []

theorem flagWord_inj {word : String} {b b' : Bool} : flagWord word b = flagWord word b' ↔ b = b' := by
  cases b <;> cases b' <;> simp [flagWord]

theorem tokens_append_flag {text mark word : String} (apart : mark.toList.head?.any (!isWordChar ·))
    (one : tokens mark = [word]) (flag : Bool) :
    tokens (text ++ if flag then mark else "") = tokens text ++ flagWord word flag := by
  cases flag with
  | true => rw [if_pos rfl, tokens_append_of_head apart, one]; rfl
  | false => simp [flagWord]

/-- Two counts as one word. -/
def stepsWord (across along : Nat) : String :=
  across.repr ++ "x" ++ along.repr

theorem tokens_stepsWord (across along : Nat) : tokens (stepsWord across along) = [stepsWord across along] := by
  refine tokens_word (by simp [stepsWord]) (List.all_eq_true.mpr fun c member => ?_)
  simp only [stepsWord, String.toList_append, List.mem_append, Nat.toList_repr] at member
  rcases member with (digit | cross) | digit
  · exact isWordChar_of_mem_toDigits digit
  · obtain rfl : c = 'x' := by simpa using cross
    decide
  · exact isWordChar_of_mem_toDigits digit

theorem stepsWord_inj {a b a' b' : Nat} : stepsWord a b = stepsWord a' b' ↔ a = a' ∧ b = b' := by
  have digits (n : Nat) : 'x' ∉ n.repr.toList := by
    intro member
    rw [Nat.toList_repr] at member
    exact absurd (Nat.isDigit_of_mem_toDigits (by omega) (Nat.le_refl 10) member) (by decide)
  rw [← String.toList_inj]
  simp only [stepsWord, String.toList_append, List.append_assoc]
  rw [show "x".toList = ['x'] from rfl, List.singleton_append, List.singleton_append,
    List.append_cons_inj_of_notMem (digits a) (digits b)]
  simp only [String.toList_inj, Nat.repr_inj, true_and]

theorem Condition.state_inj {b b' : Bool} : state b = state b' ↔ b = b' := by
  cases b <;> cases b' <;> decide

theorem Condition.tokens_state (isSet : Bool) : tokens (state isSet) = [state isSet] := by
  cases isSet <;> decide

theorem Condition.tokens_place (index : UInt16) (bit : UInt8) :
    tokens (place index bit) = [hex 3 index.toNat, bit.toNat.repr] := by
  simp (disch := decide) only [place, toString_text, Nat.toString_eq_repr, tokens_mark, tokens_append_of_last,
    tokens_gap, tokens_hex, tokens_repr, List.nil_append, List.append_nil, List.singleton_append]

/-- The words of a condition. -/
def Condition.operands (c : Condition) : List String :=
  [hex 3 c.index.toNat, c.bit.toNat.repr, state c.isSet]

theorem Condition.tokens_text (c : Condition) : tokens c.text = c.operands := by
  simp (disch := decide) only [text, toString_text, tokens_mark, tokens_gap, tokens_place, tokens_state,
    List.append_nil, List.cons_append, List.nil_append, operands]

theorem Condition.operands_inj {c c' : Condition} (same : c.operands = c'.operands) : c = c' := by
  simp only [operands, List.cons.injEq, hex_inj, UInt16.toNat_inj, Nat.repr_inj, UInt8.toNat_inj, state_inj] at same
  obtain ⟨index, bit, isSet, _⟩ := same
  cases c
  simp_all

/-- A condition takes three words, so the words of a list fall into conditions in one way. -/
theorem Condition.flatMap_operands_inj {cs cs' : List Condition} (same : cs.flatMap operands = cs'.flatMap operands) :
    cs = cs' := by
  induction cs generalizing cs' with
  | nil =>
      cases cs' with
      | nil => rfl
      | cons => simp [operands] at same
  | cons c cs ih =>
      cases cs' with
      | nil => simp [operands] at same
      | cons c' cs' =>
          rw [List.flatMap_cons, List.flatMap_cons] at same
          obtain ⟨first, rest⟩ := List.append_inj same rfl
          rw [operands_inj first, ih rest]

theorem QueueAction.name_ne_wait (a : QueueAction) : a.name ≠ "wait" := by
  unfold name
  split
  · decide
  · intro same
    have first := congrArg (·.toList.head?) same
    simp [toString] at first

/-- No action is called like the mark behind a list of actions. -/
theorem QueueAction.names_inj {actions actions' : List QueueAction} {wait wait' : Bool}
    (same : actions.map name ++ flagWord "wait" wait = actions'.map name ++ flagWord "wait" wait') :
    actions = actions' ∧ wait = wait' := by
  induction actions generalizing actions' with
  | nil =>
      cases actions' with
      | nil => exact ⟨rfl, flagWord_inj.mp same⟩
      | cons a => cases wait <;> simp [flagWord, a.name_ne_wait.symm] at same
  | cons a actions ih =>
      cases actions' with
      | nil => cases wait' <;> simp [flagWord, a.name_ne_wait] at same
      | cons a' actions' =>
          obtain ⟨first, rest⟩ := List.cons.inj same
          obtain ⟨rfl, flags⟩ := ih rest
          exact ⟨by rw [name_inj first], flags⟩

namespace WorldEvent

/-- The words behind the name of an event. -/
def operands : WorldEvent → List String
  | .clrSetEventBit set index bit => [Condition.state set, hex 3 index.toNat, bit.toNat.repr]
  | .conditionalJump op conditions addr =>
      op.name :: ((conditions.getD []).flatMap Condition.operands ++ [hex 6 addr.toNat])
  | .entitySpeed speed => [speed.name]
  | .graphicalAction action flipped => hexByte action :: flagWord "flipped" flipped
  | .loadMap map x y mode variant =>
      [hex 4 map.toNat, x.toNat.repr, y.toNat.repr, "mode", hexByte mode, "variant", hexByte variant]
  | .move dir steps => ["dir", dir.toNat.repr, "steps", steps.toNat.repr]
  | .moveDiag dir across along => [dir.name, stepsWord across.toNat along.toNat]
  | .pause frames => [frames.toNat.repr]
  | .turnCharacter dir => [dir.name]
  | .unknownCmdC7 first second => [hexByte first, hexByte second]
  | _ => []

theorem tokens_text (e : WorldEvent) : tokens e.text = e.name :: e.operands := by
  have name := e.isWord_name.tokens
  cases e with
  | fadeScreen | hideCharacter | hideMiniMap | showCharacter | showMiniMap | unfadeScreen => exact name
  | conditionalJump op conditions addr =>
      have tests : tokens (joinWith ", " ((conditions.getD []).map Condition.text)) =
          (conditions.getD []).flatMap Condition.operands := by
        rw [tokens_joinWith (by decide) _ (by decide), List.flatMap_map]
        exact List.flatMap_congr fun c _ => c.tokens_text
      simp (disch := decide) only [text, operands, toString_text, tokens_mark, tokens_gap, name, tests, tokens_hex,
        op.isWord_name.tokens, List.append_nil, List.cons_append, List.nil_append]
  | moveDiag dir across along =>
      have grouped : (moveDiag dir across along).text =
          (moveDiag dir across along).name ++ " " ++ dir.name ++ " " ++ stepsWord across.toNat along.toNat := by
        simp only [text, toString_text, Nat.toString_eq_repr, stepsWord, String.append_assoc]
      rw [grouped]
      simp (disch := decide) only [operands, tokens_mark, tokens_gap, name, dir.isWord_name.tokens, tokens_stepsWord,
        List.append_nil, List.cons_append, List.nil_append]
  | clrSetEventBit | entitySpeed | graphicalAction | loadMap | move | pause | turnCharacter | unknownCmdC7 =>
      have flipped : tokens " flipped" = ["flipped"] := by decide
      have mode : tokens ", mode=$" = ["mode"] := by decide
      have variant : tokens ", variant=$" = ["variant"] := by decide
      have dir : tokens " dir=" = ["dir"] := by decide
      have count : tokens ", steps=" = ["steps"] := by decide
      simp (disch := decide) only [text, operands, toString_text, Nat.toString_eq_repr, hexByte, tokens_mark,
        tokens_gap, tokens_append_flag _ flipped, mode, variant, dir, count, name, tokens_hex, tokens_repr,
        Condition.tokens_place, Condition.tokens_state, (Speed.isWord_name _).tokens,
        (Direction.isWord_name _).tokens, List.append_nil, List.cons_append, List.nil_append]

/-- The event with a list of conditions, even if there is nothing in it. -/
def filled : WorldEvent → WorldEvent
  | .conditionalJump op conditions addr => .conditionalJump op (some (conditions.getD [])) addr
  | e => e

theorem text_filled (e : WorldEvent) : e.filled.text = e.text := by
  cases e <;> rfl

theorem filled_eq_of_operands {e e' : WorldEvent} (kind : e.SameKind e') (same : e.operands = e'.operands) :
    e.filled = e'.filled := by
  cases kind with
  | fadeScreen | hideCharacter | hideMiniMap | showCharacter | showMiniMap | unfadeScreen => rfl
  | conditionalJump =>
      obtain ⟨op, rest⟩ := List.cons.inj same
      obtain ⟨tests, addr⟩ := List.append_inj' rest rfl
      rw [List.singleton_inj, hex_inj, UInt32.toNat_inj] at addr
      rw [filled, filled, CondOp.name_inj op, Condition.flatMap_operands_inj tests, addr]
  | entitySpeed => rw [Speed.name_inj (List.singleton_inj.mp same)]
  | turnCharacter => rw [Direction.name_inj (List.singleton_inj.mp same)]
  | moveDiag =>
      obtain ⟨dir, counts⟩ := List.cons.inj same
      obtain ⟨across, along⟩ := stepsWord_inj.mp (List.singleton_inj.mp counts)
      rw [Diagonal.name_inj dir, UInt8.toNat_inj.mp across, UInt8.toNat_inj.mp along]
  | clrSetEventBit | graphicalAction | loadMap | move | pause | unknownCmdC7 =>
      simpa [operands, filled, hexByte, hex_inj, Nat.repr_inj, flagWord_inj, Condition.state_inj, UInt8.toNat_inj,
        UInt16.toNat_inj] using same

theorem filled_eq_of_text {e e' : WorldEvent} (same : e.text = e'.text) : e.filled = e'.filled := by
  have words := congrArg tokens same
  rw [tokens_text, tokens_text] at words
  obtain ⟨name, operands⟩ := List.cons.inj words
  exact filled_eq_of_operands (sameKind_of_name name) operands

end WorldEvent

namespace FieldEvent

/-- The words behind the name of an event. -/
def operands : FieldEvent → List String
  | .actionQueue queue wait length actions =>
      hexByte queue :: "len" :: length.toNat.repr :: ((actions.getD []).map QueueAction.name ++ flagWord "wait" wait)
  | .branchIfEventBit bit addr => [hex 4 bit.toNat, hex 6 addr.toNat]
  | .call addr => [hex 6 addr.toNat]
  | .dialog msg wait => hex 4 msg.toNat :: flagWord "wait" wait
  | .jumpIfBattleSwitch switch addr => [hexByte switch, hex 6 addr.toNat]
  | _ => []

theorem tokens_text (e : FieldEvent) : tokens e.text = e.name :: e.operands := by
  have name := e.isWord_name.tokens
  have wait : tokens " wait" = ["wait"] := by decide
  cases e with
  | dialogWait | invokeBattle | invokeBattleOnChestOpen | makeChar0Lead | nop | unfadeScreen => exact name
  | actionQueue queue wait' length actions =>
      have queued : tokens (joinWith ", " ((actions.getD []).map QueueAction.name)) =
          (actions.getD []).map QueueAction.name := by
        rw [tokens_joinWith (by decide) _ (by decide), List.flatMap_map, List.map_eq_flatMap]
        exact List.flatMap_congr fun a _ => a.isWord_name.tokens
      have len : tokens " len=" = ["len"] := by decide
      simp (disch := decide) only [text, operands, waiting, toString_text, Nat.toString_eq_repr, hexByte,
        tokens_append_flag _ wait, tokens_append_of_head, tokens_mark, tokens_gap, name, tokens_hex, tokens_repr,
        queued, len, List.append_nil, List.cons_append, List.nil_append]
  | branchIfEventBit | call | dialog | jumpIfBattleSwitch =>
      simp (disch := decide) only [text, operands, waiting, toString_text, hexByte, tokens_append_flag _ wait,
        tokens_mark, tokens_gap, name, tokens_hex, List.append_nil, List.cons_append, List.nil_append]

/-- The event with a list of actions, even if there is nothing in it. -/
def filled : FieldEvent → FieldEvent
  | .actionQueue queue wait length actions => .actionQueue queue wait length (some (actions.getD []))
  | e => e

theorem text_filled (e : FieldEvent) : e.filled.text = e.text := by
  cases e <;> rfl

theorem filled_eq_of_operands {e e' : FieldEvent} (kind : e.SameKind e') (same : e.operands = e'.operands) :
    e.filled = e'.filled := by
  cases kind with
  | dialogWait | invokeBattle | invokeBattleOnChestOpen | makeChar0Lead | nop | unfadeScreen => rfl
  | actionQueue =>
      simp only [operands, List.cons.injEq, hexByte, hex_inj, UInt8.toNat_inj, Nat.repr_inj, true_and] at same
      obtain ⟨queue, length, words⟩ := same
      obtain ⟨actions, wait⟩ := QueueAction.names_inj words
      rw [filled, filled, queue, length, actions, wait]
  | branchIfEventBit | call | dialog | jumpIfBattleSwitch =>
      simpa [operands, filled, hexByte, hex_inj, flagWord_inj, UInt8.toNat_inj, UInt16.toNat_inj,
        UInt32.toNat_inj] using same

theorem filled_eq_of_text {e e' : FieldEvent} (same : e.text = e'.text) : e.filled = e'.filled := by
  have words := congrArg tokens same
  rw [tokens_text, tokens_text] at words
  obtain ⟨name, operands⟩ := List.cons.inj words
  exact filled_eq_of_operands (sameKind_of_name name) operands

end FieldEvent

/-- Within a dialect, the text of an event gives the event back, up to lists that are absent or empty. -/
theorem text_eq_iff_filled_eq :
    (∀ e e' : WorldEvent, e.text = e'.text ↔ e.filled = e'.filled) ∧
      ∀ e e' : FieldEvent, e.text = e'.text ↔ e.filled = e'.filled := by
  constructor
  · intro e e'
    refine ⟨WorldEvent.filled_eq_of_text, fun same => ?_⟩
    rw [← e.text_filled, same, e'.text_filled]
  · intro e e'
    refine ⟨FieldEvent.filled_eq_of_text, fun same => ?_⟩
    rw [← e.text_filled, same, e'.text_filled]

-- Events of two dialects may share a text.
example : WorldEvent.unfadeScreen.text = FieldEvent.unfadeScreen.text := rfl

end EventScript
