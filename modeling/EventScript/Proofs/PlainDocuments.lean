import EventScript.Document.Format
import EventScript.Proofs.ListingReader
import Mathlib.Data.List.Forall2
import Std.Data.String.ToNat

/-! # Documents that can be read back

What the output formats keep of a document is said once for all of them: a format is faithful if values
that it writes alike agree as far as their kind is known. This holds of plain documents, in which all texts are
words and no list is longer than the format can count.
-/

namespace EventScript

/-! ## Plain documents -/

/-- The characters of names and numerals. -/
def isWordChar (c : Char) : Bool :=
  c.isAlphanum || c == '_' || c == '(' || c == ')'

theorem isWordChar_of_mem_toDigits {n : Nat} {c : Char} (member : c ∈ Nat.toDigits 10 n) : isWordChar c := by
  have digit := Nat.isDigit_of_mem_toDigits (by omega) (Nat.le_refl 10) member
  simp [isWordChar, Char.isAlphanum, digit]

/-- A short text that needs no quotes. -/
structure IsWord (text : String) : Prop where
  nonempty : text ≠ ""
  short : text.toList.length < 256
  plain : text.toList.all isWordChar

instance (text : String) : Decidable (IsWord text) :=
  decidable_of_iff (text ≠ "" ∧ text.toList.length < 256 ∧ text.toList.all isWordChar)
    ⟨fun ⟨nonempty, short, plain⟩ => ⟨nonempty, short, plain⟩, fun h => ⟨h.nonempty, h.short, h.plain⟩⟩

theorem IsWord.not_mem {text : String} (h : IsWord text) {c : Char} (other : isWordChar c = false) :
    c ∉ text.toList := by
  intro member
  have inside := List.all_eq_true.mp h.plain c member
  rw [other] at inside
  contradiction

theorem IsWord.exists_cons {text : String} (h : IsWord text) :
    ∃ c rest, text.toList = c :: rest ∧ isWordChar c := by
  cases shown : text.toList with
  | nil => exact absurd (String.toList_eq_nil_iff.mp shown) h.nonempty
  | cons c rest => exact ⟨c, rest, rfl, List.all_eq_true.mp h.plain c (by simp [shown])⟩

/-- The number can be a length in the format. In texts it can always be. -/
def Format.Holds : Format → Nat → Prop
  | .yaml, _ | .toml, _ => True
  | .cbor, n => n < 1 <<< 64

theorem Format.Holds.mono {format : Format} {m n : Nat} (h : format.Holds n) (le : m ≤ n) :
    format.Holds m := by
  cases format with
  | yaml | toml => trivial
  | cbor => exact Nat.lt_of_le_of_lt le h

theorem Format.holds_of_lt {format : Format} {n : Nat} (small : n < 1 <<< 64) : format.Holds n := by
  cases format with
  | yaml | toml => trivial
  | cbor => exact small

def Octet.IsPlain (o : Octet) : Prop :=
  ∀ name ∈ o.name, IsWord name

theorem Octet.isPlain_bare (code : UInt8) : Octet.IsPlain ⟨code, none⟩ := by
  intro _ named
  cases named

theorem Octet.isPlain_named (code : UInt8) {name : String} (word : IsWord name) : Octet.IsPlain ⟨code, some name⟩ := by
  intro _ named
  cases named
  exact word

/-- What is written for the numbers tells them apart: both have no name, or each has its own. -/
inductive Octet.Comparable : Octet → Octet → Prop where
  | bare (code code' : UInt8) : Comparable ⟨code, none⟩ ⟨code', none⟩
  | named {code code' : UInt8} {name name' : String} (own : name = name' → code = code') :
      Comparable ⟨code, some name⟩ ⟨code', some name'⟩

/-- The keys of a record are a few words, none of them twice. -/
structure Record.HasPlainKeys (r : Record) : Prop where
  nonempty : r ≠ []
  words : ∀ f ∈ r, IsWord f.1
  distinct : (r.map Prod.fst).Nodup
  few : r.length < 256

/-- All texts in the value are words, and all lists have a length that the format can hold. -/
inductive Node.IsPlain (format : Format) : Node → Prop where
  | flag (value : Bool) : IsPlain format (.flag value)
  | number (value : Int) : IsPlain format (.number value)
  | text {value : String} (word : IsWord value) : IsPlain format (.text value)
  | octet {value : Octet} (plain : value.IsPlain) : IsPlain format (.octet value)
  | absent : IsPlain format .absent
  | octets {items : List Octet} (counted : format.Holds items.length) (plain : ∀ o ∈ items, o.IsPlain) :
      IsPlain format (.octets items)
  | numbers {items : List Int} (counted : format.Holds items.length) : IsPlain format (.numbers items)
  | table {fields : Record} (keys : Record.HasPlainKeys fields) (values : ∀ f ∈ fields, f.2.IsPlain format) :
      IsPlain format (.table fields)
  | tables {rows : List Record} (counted : format.Holds rows.length)
      (keys : ∀ r ∈ rows, Record.HasPlainKeys r) (values : ∀ r ∈ rows, ∀ f ∈ r, f.2.IsPlain format) :
      IsPlain format (.tables rows)

structure Record.IsPlain (format : Format) (r : Record) : Prop where
  keys : Record.HasPlainKeys r
  values : ∀ f ∈ r, f.2.IsPlain format

theorem Node.IsPlain.fields {format : Format} {r : Record} (h : (Node.table r).IsPlain format) :
    Record.IsPlain format r := by
  cases h with
  | table keys values => exact ⟨keys, values⟩

theorem Node.IsPlain.row {format : Format} {rows : List Record} (h : (Node.tables rows).IsPlain format)
    {r : Record} (member : r ∈ rows) : Record.IsPlain format r := by
  cases h with
  | tables _ keys values => exact ⟨keys r member, values r member⟩

theorem Node.IsPlain.counted {format : Format} {rows : List Record} (h : (Node.tables rows).IsPlain format) :
    format.Holds rows.length := by
  cases h with
  | tables counted _ _ => exact counted

/-! ## Faithful formats -/

/-- What a format keeps of plain documents. `same` relates values and `sameRecord` records that are written alike
    wherever they stand. -/
structure Format.Faithful (format : Format) (same : Node → Node → Prop)
    (sameRecord : Record → Record → Prop) : Prop where
  encoded {r r' : Record} : Record.IsPlain format r → Record.IsPlain format r' →
    format.encode r = format.encode r' → sameRecord r r'
  symm {v v' : Node} : same v v' → same v' v
  field {r r' : Record} {key : String} {v v' : Node} : Record.IsPlain format r → Record.IsPlain format r' →
    sameRecord r r' → (key, v) ∈ r → (key, v') ∈ r' → same v v'
  table {r r' : Record} : r ≠ [] → r' ≠ [] → same (.table r) (.table r') → sameRecord r r'
  tables {r r' : Record} {rs rs' : List Record} : (Node.tables (r :: rs)).IsPlain format →
    (Node.tables (r' :: rs')).IsPlain format → same (.tables (r :: rs)) (.tables (r' :: rs')) →
    List.Forall₂ sameRecord (r :: rs) (r' :: rs')
  flag {b b' : Bool} : same (.flag b) (.flag b') → b = b'
  number {n n' : Nat} : format.Holds n → format.Holds n' → same (.number n) (.number n') → n = n'
  text {t t' : String} : IsWord t → IsWord t' → same (.text t) (.text t') → t = t'
  octet {o o' : Octet} : o.IsPlain → o'.IsPlain → o.Comparable o' → same (.octet o) (.octet o') →
    o.code = o'.code
  octets {os os' : List Octet} : (Node.octets os).IsPlain format → (Node.octets os').IsPlain format →
    (∀ o ∈ os, ∀ o' ∈ os', o.Comparable o') → same (.octets os) (.octets os') →
    os.map Octet.code = os'.map Octet.code
  absent_octets {o : Octet} {os : List Octet} : ¬ same .absent (.octets (o :: os))
  absent_tables {r : Record} {rs : List Record} : ¬ same .absent (.tables (r :: rs))

namespace Format.Faithful

variable {format : Format} {same : Node → Node → Prop} {sameRecord : Record → Record → Prop}

/-- Records with the same keys in the same order agree value by value. -/
theorem fields (t : format.Faithful same sameRecord) {r r' : Record} (plain : Record.IsPlain format r)
    (plain' : Record.IsPlain format r') (equal : sameRecord r r') (keys : r.map Prod.fst = r'.map Prod.fst) :
    List.Forall₂ (fun f f' => same f.2 f'.2) r r' := by
  rw [List.forall₂_iff_get]
  have count : r.length = r'.length := by simpa using congrArg List.length keys
  refine ⟨count, fun i inside inside' => ?_⟩
  have key : (r.get ⟨i, inside⟩).1 = (r'.get ⟨i, inside'⟩).1 := by
    have equal := congrArg (·[i]?) keys
    simpa [inside, inside'] using equal
  refine t.field plain plain' equal (List.get_mem r ⟨i, inside⟩) ?_
  rw [key]
  exact List.get_mem r' ⟨i, inside'⟩

end Format.Faithful

/-! ## Lists that are cut at some of their items -/

section Groups

variable {α : Type}

/-- A list of which only the first item is a head. -/
def IsGroup (isHead : α → Bool) : List α → Prop
  | [] => False
  | a :: rest => isHead a = true ∧ ∀ b ∈ rest, isHead b = false

theorem takeWhile_group {isHead : α → Bool} {rest : List α} (inside : ∀ b ∈ rest, isHead b = false)
    {groups : List (List α)} (cut : ∀ g ∈ groups, IsGroup isHead g) :
    (rest ++ groups.flatten).takeWhile (!isHead ·) = rest := by
  rw [List.takeWhile_append_of_pos (by simpa using inside)]
  cases groups with
  | nil => exact List.append_nil rest
  | cons g groups =>
      cases g with
      | nil => exact absurd (cut [] (by simp)) (by simp [IsGroup])
      | cons a g =>
          have head : isHead a = true := (cut (a :: g) (by simp)).1
          simp [head]

/-- The heads tell where a list is to be cut. -/
theorem eq_of_flatten_eq (isHead : α → Bool) {groups groups' : List (List α)}
    (cut : ∀ g ∈ groups, IsGroup isHead g) (cut' : ∀ g ∈ groups', IsGroup isHead g)
    (joined : groups.flatten = groups'.flatten) : groups = groups' := by
  induction groups generalizing groups' with
  | nil =>
      cases groups' with
      | nil => rfl
      | cons g' groups' =>
          cases g' with
          | nil => exact absurd (cut' [] (by simp)) (by simp [IsGroup])
          | cons => simp at joined
  | cons g groups ih =>
      obtain ⟨first, further⟩ := List.forall_mem_cons.mp cut
      cases g with
      | nil => exact absurd first (by simp [IsGroup])
      | cons a rest =>
      cases groups' with
      | nil => simp at joined
      | cons g' groups' =>
      obtain ⟨first', further'⟩ := List.forall_mem_cons.mp cut'
      cases g' with
      | nil => exact absurd first' (by simp [IsGroup])
      | cons a' rest' =>
      simp only [List.flatten_cons, List.cons_append, List.cons.injEq] at joined
      obtain ⟨rfl, behind⟩ := joined
      have equal : rest = rest' := by
        rw [← takeWhile_group first.2 further, behind, takeWhile_group first'.2 further']
      subst equal
      rw [ih further further' (List.append_cancel_left behind)]

/-- What belongs to a key can be picked out of what belongs to all keys. -/
theorem filter_flatMap_of_mem {β γ : Type} (items : α × β → List γ) (isOwn : γ → Bool) {r : List (α × β)}
    (distinct : (r.map Prod.fst).Nodup) {key : α} {value : β} (member : (key, value) ∈ r)
    (own : ∀ x ∈ items (key, value), isOwn x = true)
    (others : ∀ f ∈ r, f.1 ≠ key → ∀ x ∈ items f, isOwn x = false) :
    (r.flatMap items).filter isOwn = items (key, value) := by
  induction r with
  | nil => cases member
  | cons f r ih =>
      obtain ⟨fresh, rest⟩ := List.nodup_cons.mp distinct
      obtain ⟨first, further⟩ := List.forall_mem_cons.mp others
      rw [List.flatMap_cons, List.filter_append]
      rcases List.mem_cons.mp member with rfl | later
      · have none : (r.flatMap items).filter isOwn = [] := by
          refine List.filter_eq_nil_iff.mpr fun x listed => ?_
          obtain ⟨f, inside, listed⟩ := List.mem_flatMap.mp listed
          have differs : f.1 ≠ key := fun equal => fresh (List.mem_map.mpr ⟨f, inside, equal⟩)
          simp [further f inside differs x listed]
        rw [none, List.filter_eq_self.mpr own, List.append_nil]
      · have differs : f.1 ≠ key := fun equal => fresh (List.mem_map.mpr ⟨(key, value), later, equal.symm⟩)
        have none : (items f).filter isOwn = [] :=
          List.filter_eq_nil_iff.mpr fun x listed => by simp [first differs x listed]
        rw [none, List.nil_append, ih rest later further]

theorem forall₂_of_map_eq {β : Type} {write : α → β} {related : α → α → Prop} {items items' : List α}
    (inj : ∀ a ∈ items, ∀ a' ∈ items', write a = write a' → related a a')
    (same : items.map write = items'.map write) : List.Forall₂ related items items' := by
  induction items generalizing items' with
  | nil =>
      cases items' with
      | nil => exact .nil
      | cons => contradiction
  | cons a items ih =>
      cases items' with
      | nil => contradiction
      | cons a' items' =>
          obtain ⟨first, rest⟩ := List.cons.inj same
          refine .cons (inj a (.head items) a' (.head items') first) (ih (fun b listed b' listed' => ?_) rest)
          exact inj b (.tail a listed) b' (.tail a' listed')

theorem eq_of_forall₂ {related : α → α → Prop} {items items' : List α} (pairs : List.Forall₂ related items items')
    (inj : ∀ a ∈ items, ∀ a' ∈ items', related a a' → a = a') : items = items' := by
  induction pairs with
  | nil => rfl
  | cons first _ ih =>
      rw [inj _ (.head _) _ (.head _) first, ih fun b listed b' listed' => inj b (.tail _ listed) b' (.tail _ listed')]

end Groups

/-! ## Texts that are written line by line -/

theorem IsWord.inline {text : String} (h : IsWord text) : Inline text := by
  refine fun c member => ⟨?_, ?_⟩
  · rintro rfl
    exact h.not_mem (by decide) member
  · rintro rfl
    exact h.not_mem (by decide) member

theorem Inline.int (n : Int) : Inline (toString n) := by
  cases n with
  | ofNat n => exact Inline.repr n
  | negSucc n => exact append_iff.mpr ⟨by decide, Inline.repr (n + 1)⟩

theorem Inline.blanks (n : Nat) : Inline (String.ofList (List.replicate n ' ')) := by
  intro c member
  rw [String.toList_ofList] at member
  rw [List.eq_of_mem_replicate member]
  decide

theorem toUTF8_inj {s s' : String} (same : s.toUTF8.data = s'.toUTF8.data) : s = s' :=
  String.toByteArray_inj.mp (ByteArray.ext same)

theorem splitOn_lines {lines : List String} (inline : ∀ line ∈ lines, Inline line) :
    (String.join (lines.map (· ++ "\n"))).toList.splitOn '\n' = lines.map String.toList ++ [[]] := by
  induction lines with
  | nil => rfl
  | cons line lines ih =>
      obtain ⟨first, further⟩ := List.forall_mem_cons.mp inline
      have shown : (String.join ((line :: lines).map (· ++ "\n"))).toList =
          line.toList ++ '\n' :: (String.join (lines.map (· ++ "\n"))).toList := by
        simp [String.toList_append]
      rw [shown, List.splitOn_append_cons_self_of_not_mem first.oneLine, ih further]
      rfl

/-- The lines of a text can be read back. -/
theorem lines_inj {lines lines' : List String} (inline : ∀ line ∈ lines, Inline line)
    (inline' : ∀ line ∈ lines', Inline line)
    (same : String.join (lines.map (· ++ "\n")) = String.join (lines'.map (· ++ "\n"))) :
    lines = lines' := by
  have read := splitOn_lines inline
  rw [same, splitOn_lines inline'] at read
  exact (List.map_inj_right fun _ _ => String.toList_inj.mp).mp (List.append_cancel_right read.symm)

/-- Numbers that are written alike are equal, if each pair of them can be told apart. -/
theorem map_code_eq {write : Octet → String} {os os' : List Octet}
    (inj : ∀ o ∈ os, ∀ o' ∈ os', write o = write o' → o.code = o'.code)
    (same : os.map write = os'.map write) : os.map Octet.code = os'.map Octet.code := by
  rw [← List.forall₂_eq_eq_eq, List.forall₂_map_left_iff, List.forall₂_map_right_iff]
  exact forall₂_of_map_eq inj same

end EventScript
