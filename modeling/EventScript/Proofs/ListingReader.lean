import EventScript.Script.Listing
import EventScript.Text.Integer

/-! # Reading listings

A listing with comments can be read again without the stream that it was made from. Each line that stands
for bytes names its offset and its bytes, and no text of an event can be mistaken for a comment or for a
line of its own.
-/

namespace EventScript

/-! ## Hexadecimal numbers -/

/-- The number that digits stand for, behind the digits of `n`. -/
def hexFrom? (n : Nat) : List Char → Option Nat
  | [] => some n
  | c :: digits =>
      match Integer.digit? c with
      | some d => if d < 16 then hexFrom? (16 * n + d) digits else none
      | none => none

/-- The number of a word of digits. -/
def hexNumber? (word : List Char) : Option Nat :=
  hexFrom? 0 word

/-- The byte of a word of digits. -/
def hexByte? (word : List Char) : Option UInt8 :=
  match hexNumber? word with
  | some n => if n < 256 then some (.ofNat n) else none
  | none => none

theorem hexFrom?_append (n : Nat) (front back : List Char) :
    hexFrom? n (front ++ back) = (hexFrom? n front).bind (hexFrom? · back) := by
  induction front generalizing n with
  | nil => rfl
  | cons c front ih =>
      simp only [List.cons_append, hexFrom?]
      cases Integer.digit? c with
      | none => rfl
      | some d =>
          simp only
          split
          · exact ih _
          · rfl

/-- A way to write digits from which the digits can be told. -/
def DigitStyle (style : Char → Char) : Prop :=
  ∀ d < 16, Integer.digit? (style (Nat.digitChar d)) = some d

theorem digitStyle_id : DigitStyle id := by
  unfold DigitStyle
  decide

theorem digitStyle_toUpper : DigitStyle Char.toUpper := by
  unfold DigitStyle
  decide

section Style

variable {style : Char → Char} (told : DigitStyle style)
include told

theorem hexFrom?_digitChar (n : Nat) {d : Nat} (small : d < 16) :
    hexFrom? n [style (Nat.digitChar d)] = some (16 * n + d) := by
  simp [hexFrom?, told d small, small]

theorem hexNumber?_toDigits (n : Nat) : hexNumber? ((Nat.toDigits 16 n).map style) = some n := by
  induction n using Nat.strongRecOn with
  | _ n ih =>
      rw [Nat.toDigits_eq_if (by omega)]
      split
      · rename_i small
        simpa [hexNumber?] using hexFrom?_digitChar told 0 small
      · rename_i large
        have front := ih (n / 16) (by omega)
        rw [hexNumber?] at front
        rw [List.map_append, hexNumber?, hexFrom?_append, front]
        simpa [Nat.div_add_mod] using hexFrom?_digitChar told (n / 16) (Nat.mod_lt n (by omega))

theorem hexFrom?_zeros (width : Nat) :
    hexFrom? 0 (List.replicate width (style '0')) = some 0 := by
  induction width with
  | zero => rfl
  | succ width ih =>
      have zero := hexFrom?_digitChar told 0 (show 0 < 16 by omega)
      rw [List.replicate_succ, ← List.singleton_append, hexFrom?_append]
      rw [show Nat.digitChar 0 = '0' from rfl] at zero
      simpa [zero] using ih

theorem hexNumber?_hexDigits (width n : Nat) :
    hexNumber? ((hexDigits width n).map style) = some n := by
  rw [hexDigits, List.map_append, List.map_replicate, hexNumber?, hexFrom?_append,
    hexFrom?_zeros told]
  exact hexNumber?_toDigits told n

end Style

theorem mem_toDigits {n : Nat} {c : Char} (h : c ∈ Nat.toDigits 16 n) :
    ∃ d < 16, c = Nat.digitChar d := by
  induction n using Nat.strongRecOn with
  | _ n ih =>
      rw [Nat.toDigits_eq_if (by omega)] at h
      split at h
      · rename_i small
        exact ⟨n, small, by simpa using h⟩
      · rename_i large
        rcases List.mem_append.mp h with front | last
        · exact ih (n / 16) (by omega) front
        · exact ⟨n % 16, by omega, by simpa using last⟩

theorem mem_hexDigits {width n : Nat} {c : Char} (h : c ∈ hexDigits width n) :
    ∃ d < 16, c = Nat.digitChar d := by
  rcases List.mem_append.mp h with zeros | digits
  · exact ⟨0, by omega, List.eq_of_mem_replicate zeros⟩
  · exact mem_toDigits digits

theorem hexDigits_ne_nil (width n : Nat) : hexDigits width n ≠ [] := by
  simp [hexDigits]

theorem toList_hex (width n : Nat) : (hex width n).toList = hexDigits width n :=
  String.toList_ofList

theorem toList_hexUpper (width n : Nat) :
    (hexUpper width n).toList = (hexDigits width n).map Char.toUpper := by
  rw [hexUpper, String.toList_map, toList_hex]

theorem hexByte?_hexByte (b : UInt8) : hexByte? (hexByte b).toList = some b := by
  have digits := hexNumber?_hexDigits digitStyle_id 2 b.toNat
  rw [List.map_id] at digits
  have small := b.toNat_lt
  rw [hexByte, toList_hex, hexByte?, digits]
  simp [small]

/-! ## Words -/

/-- The stretches of a text between characters that set apart, without the empty ones. -/
def stretches (apart : Char → Bool) (text : List Char) : List (List Char) :=
  (text.splitOnP apart).filter (!·.isEmpty)

section Stretches

variable {apart : Char → Bool} {c : Char}

theorem stretches_append_cons (h : apart c) (front back : List Char) :
    stretches apart (front ++ c :: back) = stretches apart front ++ stretches apart back := by
  rw [stretches, List.splitOnP_append_cons front back h, List.filter_append]
  rfl

theorem stretches_cons (h : apart c) (text : List Char) : stretches apart (c :: text) = stretches apart text :=
  stretches_append_cons h [] text

theorem stretches_append_gap {gap : List Char} (h : ∀ c ∈ gap, apart c) (text : List Char) :
    stretches apart (gap ++ text) = stretches apart text := by
  induction gap with
  | nil => rfl
  | cons c gap ih =>
      obtain ⟨here, rest⟩ := List.forall_mem_cons.mp h
      rw [List.cons_append, stretches_cons here, ih rest]

theorem stretches_of_none {word : List Char} (nonempty : word ≠ []) (h : ∀ c ∈ word, apart c = false) :
    stretches apart word = [word] := by
  rw [stretches, List.splitOnP_eq_singleton h]
  cases word with
  | nil => contradiction
  | cons c word => rfl

theorem stretches_append_end {gap : List Char} (h : ∀ c ∈ gap, apart c) (text : List Char) :
    stretches apart (text ++ gap) = stretches apart text := by
  cases gap with
  | nil => rw [List.append_nil]
  | cons c gap =>
      obtain ⟨here, rest⟩ := List.forall_mem_cons.mp h
      have behind := stretches_append_gap rest []
      rw [List.append_nil] at behind
      rw [stretches_append_cons here, behind]
      exact List.append_nil _

theorem stretches_intercalate {gap : List Char} (nonempty : gap ≠ []) (h : ∀ c ∈ gap, apart c)
    (parts : List (List Char)) : stretches apart (gap.intercalate parts) = parts.flatMap (stretches apart) := by
  obtain ⟨c, rest, rfl⟩ := List.exists_cons_of_ne_nil nonempty
  obtain ⟨here, behind⟩ := List.forall_mem_cons.mp h
  induction parts with
  | nil => rfl
  | cons part parts ih =>
      cases parts with
      | nil => simp
      | cons next parts =>
          rw [List.intercalate_cons_cons, List.append_assoc, List.cons_append, stretches_append_cons here,
            stretches_append_gap behind, ih]
          rfl

theorem stretches_joinWith {separator : String} (nonempty : separator.toList ≠ [])
    (h : separator.toList.all apart) (parts : List String) :
    stretches apart (joinWith separator parts).toList = parts.flatMap fun part => stretches apart part.toList := by
  rw [joinWith, String.toList_intercalate, stretches_intercalate nonempty (List.all_eq_true.mp h),
    List.flatMap_map]

theorem stretches_hexDigits {style : Char → Char} (plain : ∀ d < 16, apart (style (Nat.digitChar d)) = false)
    (width n : Nat) : stretches apart ((hexDigits width n).map style) = [(hexDigits width n).map style] := by
  refine stretches_of_none (by simp [hexDigits_ne_nil]) fun c member => ?_
  obtain ⟨digit, listed, rfl⟩ := List.mem_map.mp member
  obtain ⟨d, small, rfl⟩ := mem_hexDigits listed
  exact plain d small

end Stretches

/-- What stands between the words of a line. -/
def isSeparator (c : Char) : Bool :=
  c == ' ' || c == ',' || c == '$'

/-- The words of a text. -/
abbrev words : List Char → List (List Char) :=
  stretches isSeparator

theorem words_hexByte (b : UInt8) : words (hexByte b).toList = [(hexByte b).toList] := by
  simpa [hexByte, toList_hex] using @stretches_hexDigits isSeparator id (by decide) 2 b.toNat

theorem words_dollar (text : String) : words (s!"${text}").toList = words text.toList := by
  rw [String.toList_append]
  exact stretches_cons (by decide) text.toList

theorem mapM_hexByte? (codes : List UInt8) :
    (codes.map fun b => (hexByte b).toList).mapM hexByte? = some codes := by
  induction codes with
  | nil => rfl
  | cons b codes ih => simp [hexByte?_hexByte, ih]

theorem hexNumber?_hexUpper (width n : Nat) : hexNumber? (hexUpper width n).toList = some n := by
  rw [toList_hexUpper]
  exact hexNumber?_hexDigits digitStyle_toUpper width n

theorem words_hexUpper (width n : Nat) :
    words (hexUpper width n).toList = [(hexUpper width n).toList] := by
  rw [toList_hexUpper]
  exact stretches_hexDigits (by decide) width n

/-! ## Lines -/

/-- A line of a listing that stands for bytes. -/
structure ListedLine where
  /-- What stands before the comment. -/
  column : String
  /-- The line is one of raw data. -/
  isData : Bool
  offset : Nat
  bytes : List UInt8
  deriving Repr, DecidableEq

namespace ListedLine

/-- Read a line from what stands before and in its comment. The comment starts with the offset. Raw data
    is named before the comment, and the bytes of an event or of a stop byte in it. -/
def ofParts? (column comment : List Char) : Option ListedLine := do
  let isData := column.head? == some '.'
  let place ← (words comment).head?
  let offset ← hexNumber? place
  let bytes ← ((if isData then words column else words comment).drop 1).mapM hexByte?
  return ⟨.ofList column.dropLast, isData, offset, bytes⟩

theorem toList_padRight (width : Nat) (text : String) :
    ∃ blanks : List Char, (padRight width text).toList = text.toList ++ blanks ∧
      ∀ c ∈ blanks, c = ' ' :=
  ⟨_, by rw [padRight, String.toList_append, String.toList_ofList], fun _ => List.eq_of_mem_replicate⟩

theorem ofParts?_eq_some {column comment place : List Char} {codes : List (List Char)} {isData : Bool}
    {offset : Nat} {bytes : List UInt8} (start : (column.head? == some '.') = isData)
    (comments : (words comment).head? = some place) (placed : hexNumber? place = some offset)
    (named : (if isData then words column else words comment).drop 1 = codes)
    (read : codes.mapM hexByte? = some bytes) :
    ofParts? column comment = some ⟨.ofList column.dropLast, isData, offset, bytes⟩ := by
  subst start named
  simp only [ofParts?, comments, placed, read, Option.bind_eq_bind, Option.bind_some, Option.pure_def]

theorem ofParts?_code {code : String} (noData : code.toList.head? ≠ some '.') (offset : Nat)
    (codes : List UInt8) :
    ofParts? ((padRight 40 code).toList ++ [' '])
      (' ' :: (joinWith "  " [s!"${hexUpper 6 offset}", joinWith " " (codes.map hexByte)]).toList) =
      some ⟨padRight 40 code, false, offset, codes⟩ := by
  obtain ⟨blanks, padded, blank⟩ := toList_padRight 40 code
  have start : (((padRight 40 code).toList ++ [' ']).head? == some '.') = false := by
    rw [padded]
    cases text : code.toList with
    | nil =>
        cases blanks with
        | nil => rfl
        | cons c blanks =>
            cases blank c List.mem_cons_self
            rfl
    | cons c rest => simpa [text] using noData
  have comments : words (' ' :: (joinWith "  " [s!"${hexUpper 6 offset}",
      joinWith " " (codes.map hexByte)]).toList) =
      (hexUpper 6 offset).toList :: codes.map fun b => (hexByte b).toList := by
    rw [words, stretches_cons (by decide), stretches_joinWith (by decide) (by decide), List.flatMap_cons,
      List.flatMap_singleton, stretches_joinWith (by decide) (by decide), List.flatMap_map,
      List.map_eq_flatMap]
    simp only [words_hexByte, words_dollar, words_hexUpper]
    rfl
  rw [ofParts?_eq_some start (by rw [comments]; rfl) (hexNumber?_hexUpper 6 offset)
    (by rw [comments]; rfl) (mapM_hexByte? codes), List.dropLast_concat, String.ofList_toList]

theorem ofParts?_data (offset : Nat) (codes : List UInt8) :
    let values := joinWith ", " (codes.map fun b => s!"${hexByte b}")
    let code := s!".byte {values}"
    ofParts? ((padRight 64 code).toList ++ [' ']) (' ' :: '$' :: (hexUpper 6 offset).toList) =
      some ⟨padRight 64 code, true, offset, codes⟩ := by
  intro values code
  obtain ⟨blanks, padded, blank⟩ := toList_padRight 64 code
  have text : code.toList = ".byte".toList ++ ' ' :: values.toList := by
    simp [code, toString]
  have start : (((padRight 64 code).toList ++ [' ']).head? == some '.') = true := by
    rw [padded, text]
    rfl
  have comments : words (' ' :: '$' :: (hexUpper 6 offset).toList) = [(hexUpper 6 offset).toList] := by
    rw [words, stretches_cons (by decide), stretches_cons (by decide)]
    exact words_hexUpper 6 offset
  have named : words ((padRight 64 code).toList ++ [' ']) =
      ".byte".toList :: codes.map fun b => (hexByte b).toList := by
    have gap : ∀ c ∈ blanks ++ [' '], isSeparator c := by
      intro c member
      rcases List.mem_append.mp member with inside | last
      · rw [blank c inside]
        rfl
      · rw [List.mem_singleton.mp last]
        rfl
    rw [words, padded, List.append_assoc, stretches_append_end gap, text, stretches_append_cons (by decide),
      stretches_joinWith (by decide) (by decide), List.flatMap_map, List.map_eq_flatMap]
    simp only [words_dollar, words_hexByte]
    rfl
  rw [ofParts?_eq_some start (by rw [comments]; rfl) (hexNumber?_hexUpper 6 offset)
    (by rw [named]; rfl) (mapM_hexByte? codes), List.dropLast_concat, String.ofList_toList]

/-- Read a line. Lines that stand for bytes are indented. -/
def read? (line : List Char) : Option ListedLine :=
  match line with
  | ' ' :: ' ' :: rest =>
      match rest.splitOn ';' with
      | [column, comment] => ofParts? column comment
      | _ => none
  | _ => none

theorem read?_parts {column comment : List Char} (h : ';' ∉ column) (h' : ';' ∉ comment) :
    read? (' ' :: ' ' :: (column ++ ';' :: comment)) = ofParts? column comment := by
  rw [read?, List.splitOn_append_cons_self_of_not_mem h, List.splitOn_eq_singleton h']

theorem read?_of_not_indented {line : List Char} (h : line.head? ≠ some ' ') : read? line = none := by
  unfold read?
  split
  · contradiction
  · rfl

end ListedLine

/-- The lines of a listing that stand for bytes. -/
def readListing (text : List Char) : List ListedLine :=
  (text.splitOn '\n').filterMap ListedLine.read?

theorem readListing_line {line : List Char} (h : '\n' ∉ line) (rest : List Char) :
    readListing (line ++ '\n' :: rest) = (ListedLine.read? line).toList ++ readListing rest := by
  rw [readListing, List.splitOn_append_cons_self_of_not_mem h, List.filterMap_cons]
  cases ListedLine.read? line <;> rfl

theorem readListing_of_not_indented {line : List Char} (h : '\n' ∉ line) (h' : line.head? ≠ some ' ')
    (rest : List Char) : readListing (line ++ '\n' :: rest) = readListing rest := by
  rw [readListing_line h, ListedLine.read?_of_not_indented h']
  rfl

/-! ## Texts that stay in their column -/

/-- No line ends and no comment starts in the text. -/
def Inline (text : String) : Prop :=
  ∀ c ∈ text.toList, c ≠ '\n' ∧ c ≠ ';'

instance (text : String) : Decidable (Inline text) :=
  List.decidableBAll (fun c => c ≠ '\n' ∧ c ≠ ';') text.toList

namespace Inline

theorem oneLine {text : String} (h : Inline text) : '\n' ∉ text.toList :=
  fun member => (h _ member).1 rfl

theorem noComment {text : String} (h : Inline text) : ';' ∉ text.toList :=
  fun member => (h _ member).2 rfl

theorem append_iff {front back : String} : Inline (front ++ back) ↔ Inline front ∧ Inline back := by
  simp only [Inline, String.toList_append, List.forall_mem_append]

theorem dollar {text : String} (h : Inline text) : Inline s!"${text}" :=
  append_iff.mpr ⟨by decide, h⟩

theorem hex (width n : Nat) : Inline (EventScript.hex width n) := by
  intro c member
  rw [toList_hex] at member
  obtain ⟨d, small, rfl⟩ := mem_hexDigits member
  have all : ∀ d < 16, Nat.digitChar d ≠ '\n' ∧ Nat.digitChar d ≠ ';' := by decide
  exact all d small

theorem hexUpper (width n : Nat) : Inline (EventScript.hexUpper width n) := by
  intro c member
  rw [toList_hexUpper] at member
  obtain ⟨digit, listed, rfl⟩ := List.mem_map.mp member
  obtain ⟨d, small, rfl⟩ := mem_hexDigits listed
  have all : ∀ d < 16, (Nat.digitChar d).toUpper ≠ '\n' ∧ (Nat.digitChar d).toUpper ≠ ';' := by decide
  exact all d small

theorem padRight {text : String} (width : Nat) (h : Inline text) :
    Inline (EventScript.padRight width text) := by
  refine append_iff.mpr ⟨h, fun c member => ?_⟩
  rw [String.toList_ofList] at member
  rw [List.eq_of_mem_replicate member]
  decide

theorem repr (n : Nat) : Inline n.repr := by
  intro c member
  rw [Nat.toList_repr] at member
  have digit := Nat.isDigit_of_mem_toDigits (by omega) (Nat.le_refl 10) member
  constructor <;>
    · rintro rfl
      contradiction

theorem joinWith {separator : String} {parts : List String} (h : Inline separator)
    (all : ∀ part ∈ parts, Inline part) : Inline (EventScript.joinWith separator parts) := by
  intro c member
  rcases mem_joinWith member with between | ⟨part, listed, inside⟩
  · exact h c between
  · exact all part listed c inside

theorem nameOf {names : List String} (all : ∀ name ∈ names, Inline name) (code : UInt8) :
    Inline (EventScript.nameOf names code) := by
  rw [EventScript.nameOf]
  cases found : names[code.toNat]? with
  | some name => exact all name (List.mem_of_getElem? found)
  | none => exact append_iff.mpr ⟨append_iff.mpr ⟨by decide, repr _⟩, by decide⟩

end Inline

theorem toString_text (text : String) : toString text = text := rfl

theorem Condition.inline_state (isSet : Bool) : Inline (state isSet) := by
  cases isSet <;> decide

theorem Condition.inline_place (index : UInt16) (bit : UInt8) : Inline (place index bit) := by
  simp only [place, toString_text, Nat.toString_eq_repr, Inline.append_iff, Inline.hex, Inline.repr,
    and_true]
  decide

theorem Condition.inline_text (c : Condition) : Inline c.text := by
  simp only [text, toString_text, Inline.append_iff, inline_place, inline_state, true_and, and_true]
  decide

theorem WorldEvent.inline_text (e : WorldEvent) : Inline e.text := by
  cases e with
  | conditionalJump op conditions addr =>
      have tests := Inline.joinWith (show Inline ", " by decide)
        (List.forall_mem_map.mpr fun c (_ : c ∈ conditions.getD []) => c.inline_text)
      have joined : Inline op.name := .nameOf (by decide) op.code
      simp only [text, name, toString_text, Inline.append_iff, Inline.hex, tests, joined, and_true]
      decide
  | entitySpeed speed =>
      have named : Inline speed.name := .nameOf (by decide) speed.code
      simp only [text, name, toString_text, Inline.append_iff, named, and_true]
      decide
  | moveDiag dir across along =>
      have named : Inline dir.name := .nameOf (by decide) dir.code
      simp only [text, name, toString_text, Nat.toString_eq_repr, Inline.append_iff, Inline.repr, named,
        and_true]
      decide
  | turnCharacter dir =>
      have named : Inline dir.name := .nameOf (by decide) dir.code
      simp only [text, name, toString_text, Inline.append_iff, named, and_true]
      decide
  | graphicalAction action flipped =>
      simp only [text, name, hexByte, toString_text, Inline.append_iff, Inline.hex, and_true]
      cases flipped <;> decide
  | _ =>
      simp only [text, name, hexByte, toString_text, Nat.toString_eq_repr, Inline.append_iff, Inline.hex,
        Inline.repr, Condition.inline_state, Condition.inline_place, and_true]
      decide

theorem QueueAction.inline_name (a : QueueAction) : Inline a.name := by
  rw [name]
  split
  · decide
  · simp only [hexByte, toString_text, Inline.append_iff, Inline.hex, and_true]
    decide

theorem FieldEvent.inline_waiting (wait : Bool) : Inline (waiting wait) := by
  cases wait <;> decide

theorem FieldEvent.inline_text (e : FieldEvent) : Inline e.text := by
  cases e with
  | actionQueue queue wait length actions =>
      have names := Inline.joinWith (show Inline ", " by decide)
        (List.forall_mem_map.mpr fun a (_ : a ∈ actions.getD []) => a.inline_name)
      simp only [text, name, hexByte, toString_text, Nat.toString_eq_repr, Inline.append_iff, Inline.hex,
        Inline.repr, inline_waiting, names, and_true]
      decide
  | _ =>
      simp only [text, name, hexByte, toString_text, Inline.append_iff, Inline.hex, inline_waiting, and_true]
      decide

theorem Event.inline_text (e : Event) : Inline e.text := by
  cases e with
  | worldChar event => exact event.inline_text
  | field event => exact event.inline_text

/-- The text of an event does not look like raw data. -/
theorem Event.head_text (e : Event) : e.text.toList.head? ≠ some '.' := by
  cases e with
  | worldChar event => cases event <;> simp [text, WorldEvent.text, WorldEvent.name, toString]
  | field event => cases event <;> simp [text, FieldEvent.text, FieldEvent.name, toString]

end EventScript
