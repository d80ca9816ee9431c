import EventScript.Proofs.PlainDocuments

/-! # What TOML keeps of a document

A plain value is a line of its own, and a table is a header with lines below it that are further in. So the lines of
a record can be cut into groups, and the first line of a group names the field to which it belongs. Empty lines do
not count.
-/

namespace EventScript.Document.Toml

/-! ## Texts of values -/

theorem quoted_inj {t t' : String} (same : quoted t = quoted t') : t = t' := by
  simpa [quoted, toString] using same

theorem octet_inj {o o' : Octet} (comparable : o.Comparable o') (same : octet o = octet o') :
    o.code = o'.code := by
  cases comparable with
  | bare code code' => exact UInt8.toNat_inj.mp (Nat.repr_inj.mp same)
  | named own => exact own (quoted_inj same)

theorem isSeparator_eq_false {c : Char} (h : isWordChar c) : isSeparator c = false := by
  rw [← Bool.not_eq_true]
  intro separator
  simp only [isSeparator, Bool.or_eq_true, beq_iff_eq] at separator
  rcases separator with (rfl | rfl) | rfl <;> contradiction

/-- The text of a number is one word of the line. -/
theorem words_octet {o : Octet} (plain : o.IsPlain) : words (octet o).toList = [(octet o).toList] := by
  unfold octet
  split
  · rename_i name named
    refine stretches_of_none (by simp [quoted, toString]) fun c member => ?_
    simp only [quoted, toString, String.toList_append, List.mem_append] at member
    rcases member with (quote | inside) | quote
    · rw [show c = '"' by simpa using quote]
      decide
    · exact isSeparator_eq_false (List.all_eq_true.mp (plain name named).plain c inside)
    · rw [show c = '"' by simpa using quote]
      decide
  · refine stretches_of_none (by simp) fun c member => isSeparator_eq_false ?_
    rw [Nat.toString_eq_repr, Nat.toList_repr] at member
    exact isWordChar_of_mem_toDigits member

theorem inlineList_inj {texts texts' : List String} (one : ∀ t ∈ texts, words t.toList = [t.toList])
    (one' : ∀ t ∈ texts', words t.toList = [t.toList]) (same : inlineList texts = inlineList texts') :
    texts = texts' := by
  have read {texts : List String} (one : ∀ t ∈ texts, words t.toList = [t.toList]) :
      words (joinWith ", " texts).toList = texts.map String.toList := by
    rw [words, stretches_joinWith (by decide) (by decide), List.map_eq_flatMap]
    exact List.flatMap_congr one
  have inner : joinWith ", " texts = joinWith ", " texts' := by simpa [inlineList, toString] using same
  have listed := read one
  rw [inner, read one'] at listed
  exact (List.map_inj_right fun _ _ => String.toList_inj.mp).mp listed.symm

theorem inline_quoted {t : String} (h : Inline t) : Inline (quoted t) :=
  Inline.append_iff.mpr ⟨Inline.append_iff.mpr ⟨by decide, h⟩, by decide⟩

theorem inline_octet {o : Octet} (plain : o.IsPlain) : Inline (octet o) := by
  unfold octet
  split
  · rename_i name named
    exact inline_quoted (plain name named).inline
  · exact Inline.repr _

theorem inline_inlineList {texts : List String} (all : ∀ t ∈ texts, Inline t) : Inline (inlineList texts) :=
  Inline.append_iff.mpr ⟨Inline.append_iff.mpr ⟨by decide, Inline.joinWith (by decide) all⟩, by decide⟩

theorem inline_plain {format : Format} {v : Node} (h : v.IsPlain format) {text : String}
    (written : plain? v = some text) : Inline text := by
  cases h with
  | flag b =>
      cases written
      cases b <;> decide
  | number n =>
      cases written
      exact Inline.int n
  | text word =>
      cases written
      exact inline_quoted word.inline
  | octet plain =>
      cases written
      exact inline_octet plain
  | absent | table => contradiction
  | octets _ plain =>
      cases written
      exact inline_inlineList (List.forall_mem_map.mpr fun o member => inline_octet (plain o member))
  | numbers =>
      cases written
      exact inline_inlineList (List.forall_mem_map.mpr fun n _ => Inline.int n)
  | @tables rows =>
      cases rows with
      | nil =>
          cases written
          decide
      | cons => contradiction

/-! ## Lines -/

/-- The line is empty, or it stands at the level or further in. -/
def IsLine (level : Nat) (l : String) : Prop :=
  l = "" ∨ ∃ text, l = line level text ∧ Inline text

theorem toList_line (level : Nat) (text : String) :
    (line level text).toList = List.replicate (2 * level) ' ' ++ text.toList := by
  rw [line, String.toList_append, String.toList_ofList]

theorem line_add (level more : Nat) (text : String) : line (level + more) text = line level (line more text) := by
  rw [← String.toList_inj]
  simp only [toList_line, Nat.mul_add, List.replicate_add, List.append_assoc]

theorem IsLine.outward {outer : List String} {key l : String} (h : IsLine (outer ++ [key]).length l) :
    IsLine outer.length l := by
  obtain rfl | ⟨text, rfl, inline⟩ := h
  · exact .inl rfl
  · rw [List.length_append, line_add]
    exact .inr ⟨_, rfl, Inline.append_iff.mpr ⟨Inline.blanks _, inline⟩⟩

theorem IsLine.inline {level : Nat} {l : String} (h : IsLine level l) : Inline l := by
  obtain rfl | ⟨text, rfl, inline⟩ := h
  · decide
  · exact Inline.append_iff.mpr ⟨Inline.blanks _, inline⟩

theorem tableFields_eq (outer : List String) (r : Record) :
    tableFields outer r = r.flatMap fun f => field outer f.1 f.2 := by
  induction r with
  | nil => rfl
  | cons f r ih => rw [tableFields, ih, List.flatMap_cons]

/-- The lines of a table below its header. -/
def below (outer : List String) (r : Record) : List String :=
  plainFields outer.length r ++ tableFields outer r

theorem field_table (outer : List String) (key : String) (r : Record) :
    field outer key (.table r) =
      gap outer ++ line outer.length s!"[{path outer key}]" :: below (outer ++ [key]) r := by
  rw [field, below, List.length_append]
  rfl

theorem rows_eq (outer : List String) (key : String) (rs : List Record) :
    rows outer key rs =
      rs.flatMap fun r => "" :: line outer.length s!"[[{path outer key}]]" :: below (outer ++ [key]) r := by
  induction rs with
  | nil => rfl
  | cons r rs ih =>
      rw [rows, ih, List.flatMap_cons, below, List.length_append]
      rfl

theorem isLine_plainFields {format : Format} (level : Nat) {r : Record} (keys : Record.HasPlainKeys r)
    (values : ∀ f ∈ r, f.2.IsPlain format) : ∀ l ∈ plainFields level r, IsLine level l := by
  intro l member
  obtain ⟨f, listed, written⟩ := List.mem_filterMap.mp member
  obtain ⟨text, plain, rfl⟩ := Option.map_eq_some_iff.mp written
  have key := (keys.words f listed).inline
  have value := inline_plain (values f listed) plain
  exact .inr ⟨_, rfl, Inline.append_iff.mpr ⟨Inline.append_iff.mpr ⟨key, by decide⟩, value⟩⟩

theorem inline_path {outer : List String} {key : String} (words : ∀ o ∈ outer, IsWord o) (word : IsWord key) :
    Inline (path outer key) :=
  Inline.joinWith (by decide) fun part member => by
    rcases List.mem_append.mp member with before | last
    · exact (words part before).inline
    · exact (List.mem_singleton.mp last) ▸ word.inline

theorem words_concat {outer : List String} {key : String} (words : ∀ o ∈ outer, IsWord o) (word : IsWord key) :
    ∀ o ∈ outer ++ [key], IsWord o :=
  List.forall_mem_append.mpr ⟨words, List.forall_mem_singleton.mpr word⟩

theorem isLine_below {format : Format} {outer : List String} {r : Record} (keys : Record.HasPlainKeys r)
    (values : ∀ f ∈ r, f.2.IsPlain format) (tables : ∀ f ∈ r, ∀ l ∈ field outer f.1 f.2, IsLine outer.length l) :
    ∀ l ∈ below outer r, IsLine outer.length l := by
  refine List.forall_mem_append.mpr ⟨isLine_plainFields _ keys values, fun l member => ?_⟩
  rw [tableFields_eq] at member
  obtain ⟨f, listed, inside⟩ := List.mem_flatMap.mp member
  exact tables f listed l inside

theorem isLine_field {format : Format} {v : Node} (h : v.IsPlain format) {outer : List String} {key : String}
    (words : ∀ o ∈ outer, IsWord o) (word : IsWord key) : ∀ l ∈ field outer key v, IsLine outer.length l := by
  induction h generalizing outer key with
  | flag | number | text | octet | absent | octets | numbers => exact fun _ => nofun
  | table keys values ih =>
      rw [field_table]
      refine List.forall_mem_append.mpr ⟨?_, List.forall_mem_cons.mpr ⟨?_, fun l member => ?_⟩⟩
      · cases outer <;> simp [gap, IsLine]
      · exact .inr ⟨_, rfl, Inline.append_iff.mpr
          ⟨Inline.append_iff.mpr ⟨by decide, inline_path words word⟩, by decide⟩⟩
      · have tables := fun f listed => ih f listed (words_concat words word) (keys.words f listed)
        exact (isLine_below keys values tables l member).outward
  | @tables rs _ keys values ih =>
      intro l member
      have member : l ∈ rows outer key rs := member
      rw [rows_eq] at member
      obtain ⟨r, listed, inside⟩ := List.mem_flatMap.mp member
      rcases List.mem_cons.mp inside with rfl | inside
      · exact .inl rfl
      rcases List.mem_cons.mp inside with rfl | inside
      · exact .inr ⟨_, rfl, Inline.append_iff.mpr
          ⟨Inline.append_iff.mpr ⟨by decide, inline_path words word⟩, by decide⟩⟩
      · have keys := keys r listed
        have tables := fun f within => ih r listed f within (words_concat words word) (keys.words f within)
        exact (isLine_below keys (values r listed) tables l inside).outward

theorem isLine_record {format : Format} {r : Record} (plain : Record.IsPlain format r) {outer : List String}
    (words : ∀ o ∈ outer, IsWord o) : ∀ l ∈ below outer r, IsLine outer.length l :=
  isLine_below plain.keys plain.values fun f listed =>
    isLine_field (plain.values f listed) words (plain.keys.words f listed)

/-! ## Groups of lines -/

/-- The lines that are not empty. -/
def shown (lines : List String) : List String :=
  lines.filter (· ≠ "")

theorem shown_append (lines lines' : List String) : shown (lines ++ lines') = shown lines ++ shown lines' :=
  List.filter_append ..

theorem shown_line (level : Nat) {text : String} (some : text ≠ "") (lines : List String) :
    shown (line level text :: lines) = line level text :: shown lines := by
  have written : line level text ≠ "" := fun empty => some (String.append_eq_empty_iff.mp empty).2
  simp [shown, written]

/-- The group of a plain value. -/
def plainGroups (outer : List String) (f : String × Node) : List (List String) :=
  ((plain? f.2).map fun text => [line outer.length s!"{f.1} = {text}"]).toList

/-- The groups of a table or of a list of tables: a header and the lines below it. -/
def tableGroups (outer : List String) : String × Node → List (List String)
  | (key, .table r) => [line outer.length s!"[{path outer key}]" :: shown (below (outer ++ [key]) r)]
  | (key, .tables rs) =>
      rs.map fun r => line outer.length s!"[[{path outer key}]]" :: shown (below (outer ++ [key]) r)
  | _ => []

theorem shown_plainFields (outer : List String) (r : Record) :
    shown (plainFields outer.length r) = (r.flatMap (plainGroups outer)).flatten := by
  induction r with
  | nil => rfl
  | cons f r ih =>
      rw [List.flatMap_cons, List.flatten_append, ← ih, plainFields, plainFields, List.filterMap_cons]
      cases written : plain? f.2 with
      | none => simp [plainGroups, written]
      | some text =>
          have some : s!"{f.1} = {text}" ≠ "" := by simp [toString]
          simp [plainGroups, written, shown_line _ some]

theorem shown_field (outer : List String) (f : String × Node) :
    shown (field outer f.1 f.2) = (tableGroups outer f).flatten := by
  obtain ⟨key, v⟩ := f
  cases v with
  | flag | number | text | octet | absent | octets | numbers => rfl
  | table r =>
      have gaps : shown (gap outer) = [] := by cases outer <;> rfl
      have some : s!"[{path outer key}]" ≠ "" := by simp [toString]
      rw [field_table, shown_append, gaps, shown_line _ some]
      simp [tableGroups]
  | tables rs =>
      have some : s!"[[{path outer key}]]" ≠ "" := by simp [toString]
      rw [field, rows_eq]
      induction rs with
      | nil => rfl
      | cons r rs ih =>
          have empty (lines : List String) : shown ("" :: lines) = shown lines := rfl
          rw [List.flatMap_cons, shown_append, ih, empty, shown_line _ some]
          rfl

theorem shown_below (outer : List String) (r : Record) :
    shown (below outer r) = (r.flatMap (plainGroups outer) ++ r.flatMap (tableGroups outer)).flatten := by
  have tables : shown (r.flatMap fun f => field outer f.1 f.2) = (r.flatMap (tableGroups outer)).flatten := by
    induction r with
    | nil => rfl
    | cons f r ih =>
        rw [List.flatMap_cons, shown_append, ih, shown_field, List.flatMap_cons, List.flatten_append]
  rw [below, shown_append, shown_plainFields, tableFields_eq, tables, List.flatten_append]

/-! ## Keys of groups -/

/-- The characters of a key and of the full name of a table. -/
def isNameChar (c : Char) : Bool :=
  isWordChar c || c == '.'

/-- The name at the start of a line, behind the brackets of a header. -/
def label (text : List Char) : List Char :=
  (text.dropWhile (· == '[')).takeWhile isNameChar

/-- The key to which a line belongs: the last part of its name. -/
def keyOf (text : List Char) : List Char :=
  ((label text).splitOn '.').getLastD []

theorem label_append {front name more : List Char} {stop : Char} (brackets : ∀ c ∈ front, c = '[')
    (chars : ∀ c ∈ name, isNameChar c) (ends : isNameChar stop = false) (closed : stop ≠ '[') :
    label (front ++ (name ++ stop :: more)) = name := by
  have behind : (name ++ stop :: more).dropWhile (· == '[') = name ++ stop :: more := by
    cases name with
    | nil => exact List.dropWhile_cons_of_neg (by simpa using closed)
    | cons c name =>
        refine List.dropWhile_cons_of_neg ?_
        rw [beq_iff_eq]
        rintro rfl
        exact absurd (chars '[' (by simp)) (by decide)
  rw [label, List.dropWhile_append_of_pos (by simpa using brackets), behind, List.takeWhile_append_of_pos chars,
    List.takeWhile_cons_of_neg (by simp [ends]), List.append_nil]

theorem isNameChar_path {outer : List String} {key : String} (words : ∀ o ∈ outer, IsWord o) (word : IsWord key) :
    ∀ c ∈ (path outer key).toList, isNameChar c := by
  intro c member
  rcases mem_joinWith member with dot | ⟨part, listed, inside⟩
  · rw [show c = '.' by simpa using dot]
    decide
  · have plain := List.all_eq_true.mp (words_concat words word part listed).plain c inside
    simp [isNameChar, plain]

theorem keyOf_append {front more : List Char} {stop : Char} {outer : List String} {key : String}
    (brackets : ∀ c ∈ front, c = '[') (words : ∀ o ∈ outer, IsWord o) (word : IsWord key)
    (ends : isNameChar stop = false) (closed : stop ≠ '[') :
    keyOf (front ++ ((path outer key).toList ++ stop :: more)) = key.toList := by
  have split : (path outer key).toList.splitOn '.' = (outer ++ [key]).map String.toList := by
    rw [path, joinWith, String.toList_intercalate]
    refine List.splitOn_intercalate '.' (List.forall_mem_map.mpr fun part listed => ?_) (by simp)
    exact (words_concat words word part listed).not_mem (by decide)
  rw [keyOf, label_append brackets (isNameChar_path words word) ends closed, split]
  simp

/-- The first line names the field, and all others are further in. -/
inductive IsGroupOf (level : Nat) (key : String) : List String → Prop where
  | mk {text : String} {lines : List String} (flush : text.toList.head? ≠ some ' ')
      (named : keyOf text.toList = key.toList) (inside : ∀ l ∈ lines, ∃ text, l = line (level + 1) text) :
      IsGroupOf level key (line level text :: lines)

theorem isGroupOf_plain {outer : List String} {f : String × Node} (word : IsWord f.1) :
    ∀ group ∈ plainGroups outer f, IsGroupOf outer.length f.1 group := by
  intro group member
  obtain ⟨text, _, rfl⟩ := Option.map_eq_some_iff.mp (Option.mem_toList.mp member)
  obtain ⟨c, rest, shown, first⟩ := word.exists_cons
  refine .mk ?_ ?_ (by simp)
  · have other : c ≠ ' ' := by
      rintro rfl
      contradiction
    simp [toString, shown, other]
  · have named := @keyOf_append [] ('=' :: ' ' :: text.toList) ' ' [] f.1 (by simp) (by simp) word (by decide)
      (by decide)
    have whole : path [] f.1 = f.1 := by simp [path, joinWith]
    rw [whole] at named
    simpa [toString] using named

theorem further_of_mem_shown {format : Format} {outer : List String} {key : String} {r : Record}
    (words : ∀ o ∈ outer, IsWord o) (word : IsWord key) (plain : Record.IsPlain format r) :
    ∀ l ∈ shown (below (outer ++ [key]) r), ∃ text, l = line (outer.length + 1) text := by
  intro l member
  obtain ⟨listed, some⟩ := List.mem_filter.mp member
  rcases isLine_record plain (words_concat words word) l listed with rfl | ⟨text, rfl, _⟩
  · contradiction
  · exact ⟨text, by rw [List.length_append, List.length_singleton]⟩

theorem isGroupOf_table {format : Format} {outer : List String} {f : String × Node}
    (words : ∀ o ∈ outer, IsWord o) (word : IsWord f.1) (plain : f.2.IsPlain format) :
    ∀ group ∈ tableGroups outer f, IsGroupOf outer.length f.1 group := by
  obtain ⟨key, v⟩ := f
  intro group member
  cases v with
  | flag | number | text | octet | absent | octets | numbers => cases member
  | table r =>
      have named := @keyOf_append ['['] [] ']' outer key (by simp) words word (by decide) (by decide)
      rw [List.mem_singleton.mp member]
      exact .mk (by simp [toString]) (by simpa [toString] using named)
        (further_of_mem_shown words word plain.fields)
  | tables rs =>
      have named := @keyOf_append ['[', '['] [']'] ']' outer key (by simp) words word (by decide) (by decide)
      obtain ⟨r, listed, rfl⟩ := List.mem_map.mp member
      exact .mk (by simp [toString]) (by simpa [toString] using named)
        (further_of_mem_shown words word (plain.row listed))

/-- All groups of a field: one of the two lists is empty. -/
def groups (outer : List String) (f : String × Node) : List (List String) :=
  plainGroups outer f ++ tableGroups outer f

/-- The line is not further in than the level. -/
def isFlush (level : Nat) (l : String) : Bool :=
  l.toList[2 * level]? != some ' '

/-- The key to which a group at a level belongs. -/
def keyOfGroup (level : Nat) (group : List String) : Option (List Char) :=
  group.head?.map fun l => keyOf (l.toList.drop (2 * level))

theorem IsGroupOf.isGroup {level : Nat} {key : String} {group : List String} (h : IsGroupOf level key group) :
    IsGroup (isFlush level) group := by
  cases h with
  | @mk text lines flush _ inside =>
      refine ⟨?_, fun l member => ?_⟩
      · have first : (line level text).toList[2 * level]? = text.toList.head? := by
          rw [toList_line, List.getElem?_append_right (by simp), List.head?_eq_getElem?]
          simp
        rw [isFlush, first]
        simpa using flush
      · obtain ⟨text, rfl⟩ := inside l member
        rw [line_add]
        simp [isFlush, toList_line]

theorem IsGroupOf.keyOfGroup {level : Nat} {key : String} {group : List String} (h : IsGroupOf level key group) :
    keyOfGroup level group = some key.toList := by
  cases h with
  | mk _ named _ => simp [Toml.keyOfGroup, toList_line, named]

theorem isGroupOf_record {format : Format} {outer : List String} {r : Record} (words : ∀ o ∈ outer, IsWord o)
    (plain : Record.IsPlain format r) {f : String × Node} (listed : f ∈ r) :
    (∀ group ∈ plainGroups outer f, IsGroupOf outer.length f.1 group) ∧
      ∀ group ∈ tableGroups outer f, IsGroupOf outer.length f.1 group :=
  ⟨isGroupOf_plain (plain.keys.words f listed),
    isGroupOf_table words (plain.keys.words f listed) (plain.values f listed)⟩

/-- The lines of a table can be cut into the groups of its fields. -/
theorem groups_inj {format : Format} {outer : List String} {r r' : Record} (words : ∀ o ∈ outer, IsWord o)
    (plain : Record.IsPlain format r) (plain' : Record.IsPlain format r')
    (same : shown (below outer r) = shown (below outer r')) :
    r.flatMap (plainGroups outer) ++ r.flatMap (tableGroups outer) =
      r'.flatMap (plainGroups outer) ++ r'.flatMap (tableGroups outer) := by
  have cut {r : Record} (plain : Record.IsPlain format r) :
      ∀ group ∈ r.flatMap (plainGroups outer) ++ r.flatMap (tableGroups outer),
        IsGroup (isFlush outer.length) group := by
    intro group member
    rcases List.mem_append.mp member with inside | inside <;> obtain ⟨f, listed, own⟩ := List.mem_flatMap.mp inside
    · exact ((isGroupOf_record words plain listed).1 group own).isGroup
    · exact ((isGroupOf_record words plain listed).2 group own).isGroup
  rw [shown_below, shown_below] at same
  exact eq_of_flatten_eq (isFlush outer.length) (cut plain) (cut plain') same

theorem filter_groups {format : Format} {outer : List String} {r : Record} (words : ∀ o ∈ outer, IsWord o)
    (plain : Record.IsPlain format r) {key : String} {v : Node} (member : (key, v) ∈ r) :
    (r.flatMap (plainGroups outer) ++ r.flatMap (tableGroups outer)).filter
      (keyOfGroup outer.length · == some key.toList) = groups outer (key, v) := by
  have other {f : String × Node} {group : List String} (h : IsGroupOf outer.length f.1 group)
      (differs : f.1 ≠ key) : (keyOfGroup outer.length group == some key.toList) = false := by
    rw [h.keyOfGroup]
    simpa [String.toList_inj] using differs
  have isGroupOf := fun f listed => @isGroupOf_record format outer r words plain f listed
  rw [List.filter_append, groups]
  congr 1
  · refine filter_flatMap_of_mem _ _ plain.keys.distinct member (fun group own => ?_)
      fun f listed differs group own => other ((isGroupOf f listed).1 group own) differs
    simpa using ((isGroupOf _ member).1 group own).keyOfGroup
  · refine filter_flatMap_of_mem _ _ plain.keys.distinct member (fun group own => ?_)
      fun f listed differs group own => other ((isGroupOf f listed).2 group own) differs
    simpa using ((isGroupOf _ member).2 group own).keyOfGroup

theorem groups_eq_of_below_eq {format : Format} {outer : List String} {r r' : Record}
    (words : ∀ o ∈ outer, IsWord o) (plain : Record.IsPlain format r) (plain' : Record.IsPlain format r')
    (same : shown (below outer r) = shown (below outer r')) {key : String} {v v' : Node} (member : (key, v) ∈ r)
    (member' : (key, v') ∈ r') : groups outer (key, v) = groups outer (key, v') := by
  rw [← filter_groups words plain member, groups_inj words plain plain' same, filter_groups words plain' member']

/-! ## What is kept -/

theorem below_eq_of_render_eq {format : Format} {r r' : Record} (plain : Record.IsPlain format r)
    (plain' : Record.IsPlain format r') (same : render r = render r') : below [] r = below [] r' := by
  have inline {r : Record} (plain : Record.IsPlain format r) : ∀ l ∈ below [] r, Inline l :=
    fun l member => (isLine_record plain (by simp) l member).inline
  exact lines_inj (inline plain) (inline plain') same

theorem plain_eq_of_groups_eq {outer : List String} {key : String} {v v' : Node} {text text' : String}
    (written : plain? v = some text) (written' : plain? v' = some text')
    (same : groups outer (key, v) = groups outer (key, v')) : text = text' := by
  simp only [groups, plainGroups, written, written', Option.map_some, Option.toList_some, List.singleton_append,
    List.cons.injEq, and_true] at same
  have lines : s!"{key} = {text}" = key ++ " = " ++ text' := (String.append_right_inj _).mp same.1
  exact (String.append_right_inj _).mp lines

theorem faithful :
    Format.toml.Faithful
      (fun v v' => ∃ outer key, (∀ o ∈ outer, IsWord o) ∧ IsWord key ∧ groups outer (key, v) = groups outer (key, v'))
      (fun r r' => ∃ outer, (∀ o ∈ outer, IsWord o) ∧ shown (below outer r) = shown (below outer r')) where
  encoded plain plain' same :=
    ⟨[], by simp, congrArg shown (below_eq_of_render_eq plain plain' (toUTF8_inj same))⟩
  symm := fun ⟨outer, key, words, word, same⟩ => ⟨outer, key, words, word, same.symm⟩
  field := fun plain plain' ⟨outer, words, same⟩ member member' =>
    ⟨outer, _, words, plain.keys.words _ member, groups_eq_of_below_eq words plain plain' same member member'⟩
  table := fun _ _ ⟨outer, key, words, word, same⟩ =>
    ⟨outer ++ [key], words_concat words word, (List.cons.inj (List.cons.inj same).1).2⟩
  tables := fun {r r' rs rs'} plain plain' ⟨outer, key, words, word, same⟩ => by
    have same : tableGroups outer (key, .tables (r :: rs)) = tableGroups outer (key, .tables (r' :: rs')) := same
    rw [tableGroups, tableGroups] at same
    refine forall₂_of_map_eq (fun r _ r' _ equal => ?_) same
    exact ⟨outer ++ [key], words_concat words word, (List.cons.inj equal).2⟩
  flag := fun {b b'} ⟨_, _, _, _, same⟩ => by
    have texts : toString b = toString b' := plain_eq_of_groups_eq rfl rfl same
    revert texts
    cases b <;> cases b' <;> decide
  number := fun _ _ ⟨_, _, _, _, same⟩ => Nat.repr_inj.mp (plain_eq_of_groups_eq rfl rfl same)
  text := fun _ _ ⟨_, _, _, _, same⟩ => quoted_inj (plain_eq_of_groups_eq rfl rfl same)
  octet := fun _ _ comparable ⟨_, _, _, _, same⟩ => octet_inj comparable (plain_eq_of_groups_eq rfl rfl same)
  octets := fun plain plain' comparable ⟨_, _, _, _, same⟩ => by
    cases plain with
    | octets _ plain =>
    cases plain' with
    | octets _ plain' =>
    have texts := inlineList_inj (List.forall_mem_map.mpr fun o member => words_octet (plain o member))
      (List.forall_mem_map.mpr fun o member => words_octet (plain' o member)) (plain_eq_of_groups_eq rfl rfl same)
    exact map_code_eq (fun o member o' member' => octet_inj (comparable o member o' member')) texts
  absent_octets := fun ⟨_, _, _, _, same⟩ => by simp [groups, plainGroups, tableGroups, plain?] at same
  absent_tables := fun ⟨_, _, _, _, same⟩ => by simp [groups, plainGroups, tableGroups, plain?] at same

end EventScript.Document.Toml
