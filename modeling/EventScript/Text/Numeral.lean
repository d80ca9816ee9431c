/-! # Numerals

Hexadecimal numerals of a least width. The sign of a negative number counts to the width, so `-1` at
width six is `-00001`.
-/

namespace EventScript

/-- The digits of `n` in base 16, filled up with zeros on the left. -/
def hexDigits (width n : Nat) : List Char :=
  let digits := Nat.toDigits 16 n
  List.replicate (width - digits.length) '0' ++ digits

/-- A hexadecimal numeral of at least `width` characters, in small letters. -/
def hex (width : Nat) (n : Int) : String :=
  match n with
  | .ofNat k => String.ofList (hexDigits width k)
  | .negSucc k => String.ofList ('-' :: hexDigits (width - 1) (k + 1))

/-- A hexadecimal numeral of at least `width` characters, in capitals. -/
def hexUpper (width : Nat) (n : Int) : String :=
  (hex width n).map Char.toUpper

/-- Two digits for a byte. -/
def hexByte (b : UInt8) : String :=
  hex 2 b.toNat

/-- Fill a text up with blanks on the right to at least `width` characters. -/
def padRight (width : Nat) (text : String) : String :=
  text ++ String.ofList (List.replicate (width - text.length) ' ')

/-- Texts with a separator between them. -/
def joinWith (separator : String) (parts : List String) : String :=
  separator.intercalate parts

theorem mem_joinWith {c : Char} {separator : String} {parts : List String}
    (h : c ∈ (joinWith separator parts).toList) : c ∈ separator.toList ∨ ∃ part ∈ parts, c ∈ part.toList := by
  induction parts with
  | nil => simp [joinWith] at h
  | cons first rest ih =>
      cases rest with
      | nil => exact .inr ⟨first, by simp, by simpa [joinWith] using h⟩
      | cons next rest =>
          simp only [joinWith, String.intercalate_cons_cons, String.toList_append, List.mem_append] at h
          rcases h with (here | between) | later
          · exact .inr ⟨first, by simp, here⟩
          · exact .inl between
          · rcases ih later with between | ⟨part, member, inside⟩
            · exact .inl between
            · exact .inr ⟨part, List.mem_cons_of_mem _ member, inside⟩

end EventScript
