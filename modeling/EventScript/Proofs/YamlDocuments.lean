import EventScript.Proofs.PlainDocuments

/-! # What YAML keeps of a document

Only the first line of a field starts with a key, and only the first line of an item has a dash at its column, so
the lines of a record can be cut into those of its fields and the lines of a list into those of its items.
-/

namespace EventScript.Document.Yaml

/-! ## Texts of values -/

theorem not_mem_scalar {t : String} (h : IsWord t) {c : Char} (other : isWordChar c = false)
    (noQuote : c ≠ '"') : c ∉ (scalar t).toList := by
  unfold scalar
  split
  · simp [toString, h.not_mem other, noQuote]
  · exact h.not_mem other

theorem inline_scalar {t : String} (h : IsWord t) : Inline (scalar t) := by
  refine fun c member => ⟨?_, ?_⟩
  · rintro rfl
    exact not_mem_scalar h (by decide) (by decide) member
  · rintro rfl
    exact not_mem_scalar h (by decide) (by decide) member

theorem scalar_inj {t t' : String} (h : IsWord t) (h' : IsWord t') (same : scalar t = scalar t') : t = t' := by
  have quoted {t t' : String} (h' : IsWord t') : s!"\"{t}\"" ≠ t' := by
    rintro rfl
    exact h'.not_mem (c := '"') (by decide) (by simp [toString])
  unfold scalar at same
  split at same <;> split at same
  · simpa [toString] using same
  · exact absurd same (quoted h')
  · exact absurd same.symm (quoted h)
  · exact same

theorem octet_inj {o o' : Octet} (plain : o.IsPlain) (plain' : o'.IsPlain) (comparable : o.Comparable o')
    (same : octet o = octet o') : o.code = o'.code := by
  cases comparable with
  | bare code code' => exact UInt8.toNat_inj.mp (Nat.repr_inj.mp same)
  | named own => exact own (scalar_inj (plain _ rfl) (plain' _ rfl) same)

theorem inline_octet {o : Octet} (plain : o.IsPlain) : Inline (octet o) := by
  unfold octet
  split
  · rename_i name named
    exact inline_scalar (plain name named)
  · exact Inline.repr _

/-! ## Lines of fields and items -/

theorem indented_inj {columns : Nat} {t t' : String} (same : indented columns t = indented columns t') : t = t' :=
  (String.append_right_inj _).mp same

theorem toList_indented (columns : Nat) (t : String) :
    (indented columns t).toList = List.replicate columns ' ' ++ t.toList := by
  rw [indented, String.toList_append, String.toList_ofList]

theorem fields_eq (step : Nat) (r : Record) :
    fields step r = (r.map fun f => field step (scalar f.1) f.2).flatten := by
  induction r with
  | nil => rfl
  | cons f r ih => rw [fields, ih, List.map_cons, List.flatten_cons]

theorem rows_eq (step : Nat) (rs : List Record) :
    rows step rs = (rs.map fun r => dashed step (fields 2 r)).flatten := by
  induction rs with
  | nil => rfl
  | cons r rs ih => rw [rows, ih, List.map_cons, List.flatten_cons]

theorem indented_add (step columns : Nat) (t : String) :
    indented (step + columns) t = indented step (indented columns t) := by
  rw [← String.toList_inj]
  simp only [toList_indented, List.replicate_add, List.append_assoc]

theorem mem_dashed {step : Nat} {lines : List String} {line : String} (member : line ∈ dashed step lines) :
    ∃ text, line = indented step text := by
  cases lines with
  | nil => exact ⟨_, List.mem_singleton.mp member⟩
  | cons first rest =>
      rcases List.mem_cons.mp member with rfl | later
      · exact ⟨_, rfl⟩
      · obtain ⟨text, _, rfl⟩ := List.mem_map.mp later
        exact ⟨_, indented_add step 2 text⟩

/-- The first line starts with the key, and all others are further in. -/
inductive IsField (step : Nat) (key : String) : List String → Prop where
  | mk {first : String} {lines : List String} (starts : key.toList ++ [':'] <+: first.toList)
      (inside : ∀ line ∈ lines, ∃ text, line = indented step text) : IsField step key (first :: lines)

theorem IsField.ne_nil {step : Nat} {key : String} {lines : List String} (h : IsField step key lines) :
    lines ≠ [] := by
  cases h with
  | mk => exact List.cons_ne_nil _ _

theorem isField_items (step : Nat) (key : String) (texts : List String) :
    IsField step key (items step key texts) := by
  cases texts with
  | nil => exact .mk (by simp [toString]) (by simp)
  | cons text texts => exact .mk (by simp [toString]) (List.forall_mem_map.mpr fun _ _ => ⟨_, rfl⟩)

theorem isField_field (step : Nat) (key : String) (v : Node) : IsField step key (field step key v) := by
  cases v with
  | flag | number | text | octet | absent => exact .mk (by simp [toString]) (by simp)
  | octets os => exact isField_items step key _
  | numbers ns => exact isField_items step key _
  | table fs =>
      cases fs with
      | nil => exact .mk (by simp [toString]) (by simp)
      | cons f fs => exact .mk (by simp [toString]) (List.forall_mem_map.mpr fun _ _ => ⟨_, rfl⟩)
  | tables rs =>
      cases rs with
      | nil => exact .mk (by simp [toString]) (by simp)
      | cons r rs =>
          refine .mk (by simp [toString]) fun line member => ?_
          rw [rows_eq] at member
          obtain ⟨_, group, inside⟩ := List.mem_flatten.mp member
          obtain ⟨_, _, rfl⟩ := List.mem_map.mp group
          exact mem_dashed inside

/-- The line is not further in than the keys. -/
def isFlush (line : String) : Bool :=
  line.toList.head? != some ' '

/-- The key at the start of a line. -/
def keyOf (line : String) : List Char :=
  line.toList.takeWhile (· != ':')

theorem IsField.isGroup {step : Nat} {key : String} {lines : List String}
    (h : IsField (step + 1) (scalar key) lines) (word : IsWord key) : IsGroup isFlush lines := by
  cases h with
  | @mk first lines starts inside =>
      refine ⟨?_, fun line member => ?_⟩
      · obtain ⟨rest, shown⟩ := starts
        have blank : ' ' ∉ (scalar key).toList := not_mem_scalar word (by decide) (by decide)
        cases front : (scalar key).toList with
        | nil => simp [isFlush, ← shown, front]
        | cons c chars =>
            rw [front] at blank
            have other : c ≠ ' ' := fun same => blank (by simp [same])
            simp [isFlush, ← shown, front, other]
      · obtain ⟨text, rfl⟩ := inside line member
        simp [isFlush, toList_indented, List.replicate_succ]

theorem IsField.keyOf_head {step : Nat} {key : String} {lines : List String} (h : IsField step (scalar key) lines)
    (word : IsWord key) : lines.head?.map keyOf = some (scalar key).toList := by
  cases h with
  | mk starts inside =>
      obtain ⟨rest, shown⟩ := starts
      have before : ∀ c ∈ (scalar key).toList, (c != ':') = true := by
        intro c member
        simp only [bne_iff_ne, ne_eq]
        rintro rfl
        exact not_mem_scalar word (by decide) (by decide) member
      rw [List.head?_cons, Option.map_some, keyOf, ← shown, List.append_assoc,
        List.takeWhile_append_of_pos before]
      simp

/-- The lines of a record can be cut into those of its fields. -/
theorem fields_inj {step : Nat} {r r' : Record} (words : ∀ f ∈ r, IsWord f.1) (words' : ∀ f ∈ r', IsWord f.1)
    (same : fields (step + 1) r = fields (step + 1) r') :
    (r.map fun f => field (step + 1) (scalar f.1) f.2) = r'.map fun f => field (step + 1) (scalar f.1) f.2 := by
  rw [fields_eq, fields_eq] at same
  refine eq_of_flatten_eq isFlush (List.forall_mem_map.mpr fun f member => ?_)
    (List.forall_mem_map.mpr fun f member => ?_) same
  · exact (isField_field _ _ f.2).isGroup (words f member)
  · exact (isField_field _ _ f.2).isGroup (words' f member)

theorem filter_fields (step : Nat) {r : Record} (keys : Record.HasPlainKeys r) {key : String} {v : Node}
    (member : (key, v) ∈ r) :
    (r.map fun f => field step (scalar f.1) f.2).filter (·.head?.map keyOf == some (scalar key).toList) =
      [field step (scalar key) v] := by
  rw [← List.flatMap_pure_eq_map]
  have headKey {f : String × Node} (member : f ∈ r) :
      (field step (scalar f.1) f.2).head?.map keyOf = some (scalar f.1).toList :=
    (isField_field step _ f.2).keyOf_head (keys.words f member)
  refine filter_flatMap_of_mem _ _ keys.distinct member ?_ fun f listed differs group own => ?_
  · simpa using headKey member
  · have other : scalar f.1 ≠ scalar key :=
      fun same => differs (scalar_inj (keys.words f listed) (keys.words _ member) same)
    rw [List.mem_singleton.mp own, headKey listed]
    simpa [String.toList_inj] using other

theorem field_eq_of_fields_eq {step : Nat} {r r' : Record} {key : String} {v v' : Node}
    (keys : Record.HasPlainKeys r) (keys' : Record.HasPlainKeys r')
    (same : fields (step + 1) r = fields (step + 1) r') (member : (key, v) ∈ r) (member' : (key, v') ∈ r') :
    field (step + 1) (scalar key) v = field (step + 1) (scalar key) v' := by
  have groups := fields_inj keys.words keys'.words same
  have picked := filter_fields (step + 1) keys member
  rw [groups, filter_fields (step + 1) keys' member'] at picked
  exact (List.cons.inj picked.symm).1

/-! ## Lists -/

theorem items_inj {step : Nat} {key : String} {texts texts' : List String}
    (same : items step key texts = items step key texts') : texts = texts' := by
  cases texts with
  | nil =>
      cases texts' with
      | nil => rfl
      | cons => simp [items] at same
  | cons text texts =>
      cases texts' with
      | nil => simp [items] at same
      | cons text' texts' =>
          have lines := (List.cons.inj same).2
          refine (List.map_inj_right fun t t' equal => ?_).mp lines
          simpa [toString] using indented_inj equal

/-- The line starts an item of a list. -/
def isDashed (step : Nat) (line : String) : Bool :=
  line.toList[step]? == some '-'

theorem isGroup_dashed (step : Nat) (lines : List String) : IsGroup (isDashed step) (dashed step lines) := by
  cases lines with
  | nil => exact ⟨by simp [isDashed, toList_indented], by simp⟩
  | cons first rest =>
      refine ⟨by simp [isDashed, toList_indented, toString], List.forall_mem_map.mpr fun line _ => ?_⟩
      rw [indented_add]
      simp [isDashed, toList_indented]

theorem dashed_inj {step : Nat} {lines lines' : List String} (some : lines ≠ []) (some' : lines' ≠ [])
    (same : dashed step lines = dashed step lines') : lines = lines' := by
  obtain ⟨first, rest, rfl⟩ := List.exists_cons_of_ne_nil some
  obtain ⟨first', rest', rfl⟩ := List.exists_cons_of_ne_nil some'
  obtain ⟨firsts, rests⟩ := List.cons.inj same
  have equal : first = first' := by simpa [toString] using indented_inj firsts
  rw [equal, (List.map_inj_right fun _ _ => indented_inj).mp rests]

theorem fields_ne_nil (step : Nat) {r : Record} (some : r ≠ []) : fields step r ≠ [] := by
  obtain ⟨f, r, rfl⟩ := List.exists_cons_of_ne_nil some
  rw [fields]
  exact List.append_ne_nil_of_left_ne_nil (isField_field ..).ne_nil _

/-- The lines of a list can be cut into those of its items. -/
theorem rows_forall₂ {step : Nat} {rs rs' : List Record} (some : ∀ r ∈ rs, r ≠ []) (some' : ∀ r ∈ rs', r ≠ [])
    (same : rows step rs = rows step rs') : List.Forall₂ (fun r r' => fields 2 r = fields 2 r') rs rs' := by
  rw [rows_eq, rows_eq] at same
  have groups := eq_of_flatten_eq (isDashed step) (List.forall_mem_map.mpr fun _ _ => isGroup_dashed ..)
    (List.forall_mem_map.mpr fun _ _ => isGroup_dashed ..) same
  refine forall₂_of_map_eq (fun r member r' member' equal => ?_) groups
  exact dashed_inj (fields_ne_nil 2 (some r member)) (fields_ne_nil 2 (some' r' member')) equal

/-! ## Texts of documents -/

theorem inline_indented {text : String} (columns : Nat) (h : Inline text) : Inline (indented columns text) :=
  Inline.append_iff.mpr ⟨Inline.blanks columns, h⟩

theorem inline_behind {key text : String} (h : Inline key) (h' : Inline text) : Inline s!"{key}: {text}" :=
  Inline.append_iff.mpr ⟨Inline.append_iff.mpr ⟨h, by decide⟩, h'⟩

theorem inline_above {key : String} (h : Inline key) : Inline s!"{key}:" :=
  Inline.append_iff.mpr ⟨h, by decide⟩

theorem inline_empty {key : String} (h : Inline key) : Inline s!"{key}: []" :=
  Inline.append_iff.mpr ⟨h, by decide⟩

theorem inline_dash {text : String} (h : Inline text) : Inline s!"- {text}" :=
  Inline.append_iff.mpr ⟨by decide, h⟩

theorem inline_items {key : String} {texts : List String} (step : Nat) (inline : Inline key)
    (all : ∀ text ∈ texts, Inline text) : ∀ line ∈ items step key texts, Inline line := by
  cases texts with
  | nil => exact List.forall_mem_singleton.mpr (inline_empty inline)
  | cons text texts =>
      refine List.forall_mem_cons.mpr ⟨inline_above inline, List.forall_mem_map.mpr fun text member => ?_⟩
      exact inline_indented step (inline_dash (all text member))

theorem inline_dashed {lines : List String} (step : Nat) (all : ∀ line ∈ lines, Inline line) :
    ∀ line ∈ dashed step lines, Inline line := by
  cases lines with
  | nil => exact List.forall_mem_singleton.mpr <| inline_indented step (show Inline "- \x7b\x7d" by decide)
  | cons first rest =>
      obtain ⟨here, further⟩ := List.forall_mem_cons.mp all
      refine List.forall_mem_cons.mpr ⟨inline_indented step (inline_dash here), ?_⟩
      exact List.forall_mem_map.mpr fun line member => inline_indented _ (further line member)

theorem inline_fields {r : Record} (step : Nat) (keys : Record.HasPlainKeys r)
    (values : ∀ f ∈ r, ∀ step key, Inline key → ∀ line ∈ field step key f.2, Inline line) :
    ∀ line ∈ fields step r, Inline line := by
  intro line member
  rw [fields_eq] at member
  obtain ⟨_, group, inside⟩ := List.mem_flatten.mp member
  obtain ⟨f, listed, rfl⟩ := List.mem_map.mp group
  exact values f listed step _ (inline_scalar (keys.words f listed)) line inside

theorem inline_field {format : Format} {v : Node} (h : v.IsPlain format) (step : Nat) {key : String}
    (inline : Inline key) : ∀ line ∈ field step key v, Inline line := by
  induction h generalizing step key with
  | flag b => exact List.forall_mem_singleton.mpr <| inline_behind inline (show Inline (toString b) by cases b <;> decide)
  | number n => exact List.forall_mem_singleton.mpr <| inline_behind inline (Inline.int n)
  | text word => exact List.forall_mem_singleton.mpr <| inline_behind inline (inline_scalar word)
  | octet plain => exact List.forall_mem_singleton.mpr <| inline_behind inline (inline_octet plain)
  | absent => exact List.forall_mem_singleton.mpr <| inline_empty inline
  | octets _ plain =>
      exact inline_items step inline (List.forall_mem_map.mpr fun o member => inline_octet (plain o member))
  | numbers _ => exact inline_items step inline (List.forall_mem_map.mpr fun n _ => Inline.int n)
  | @table fs keys _ ih =>
      obtain ⟨f, r, rfl⟩ := List.exists_cons_of_ne_nil keys.nonempty
      have inside := inline_fields 4 keys fun f member step key => @ih f member step key
      refine List.forall_mem_cons.mpr ⟨inline_above inline, List.forall_mem_map.mpr fun line member => ?_⟩
      exact inline_indented step (inside line member)
  | @tables rs _ keys _ ih =>
      cases rs with
      | nil => exact List.forall_mem_singleton.mpr <| inline_empty inline
      | cons r rs =>
          refine List.forall_mem_cons.mpr ⟨inline_above inline, fun line member => ?_⟩
          rw [rows_eq] at member
          obtain ⟨_, group, inside⟩ := List.mem_flatten.mp member
          obtain ⟨r, listed, rfl⟩ := List.mem_map.mp group
          have all := inline_fields 2 (keys r listed) fun f member step key => @ih r listed f member step key
          exact inline_dashed step all line inside

theorem fields_eq_of_render_eq {format : Format} {r r' : Record} (plain : Record.IsPlain format r)
    (plain' : Record.IsPlain format r') (same : render r = render r') : fields 4 r = fields 4 r' := by
  have inline {r : Record} (plain : Record.IsPlain format r) : ∀ line ∈ fields 4 r, Inline line :=
    inline_fields 4 plain.keys fun f member step _ => inline_field (plain.values f member) step
  exact lines_inj (inline plain) (inline plain') same

/-! ## What is kept -/

theorem behind_inj {key t u : String} (same : [s!"{key}: {t}"] = [s!"{key}: {u}"]) : t = u :=
  (String.append_right_inj _).mp (List.cons.inj same).1

theorem faithful :
    Format.yaml.Faithful (fun v v' => ∃ step key, field (step + 1) key v = field (step + 1) key v')
      (fun r r' => ∃ step, fields (step + 1) r = fields (step + 1) r') where
  encoded plain plain' same := ⟨3, fields_eq_of_render_eq plain plain' (toUTF8_inj same)⟩
  symm := fun ⟨step, key, same⟩ => ⟨step, key, same.symm⟩
  field := fun plain plain' ⟨step, same⟩ member member' =>
    ⟨step, _, field_eq_of_fields_eq plain.keys plain'.keys same member member'⟩
  table := fun some some' ⟨_, _, same⟩ => by
    obtain ⟨_, _, rfl⟩ := List.exists_cons_of_ne_nil some
    obtain ⟨_, _, rfl⟩ := List.exists_cons_of_ne_nil some'
    exact ⟨3, (List.map_inj_right fun _ _ => indented_inj).mp (List.cons.inj same).2⟩
  tables := fun plain plain' ⟨_, _, same⟩ => by
    have some {rs : List Record} (plain : (Node.tables rs).IsPlain .yaml) : ∀ r ∈ rs, r ≠ [] :=
      fun _ member => (plain.row member).keys.nonempty
    exact (rows_forall₂ (some plain) (some plain') (List.cons.inj same).2).imp fun _ _ equal => ⟨1, equal⟩
  flag := fun {b b'} ⟨_, _, same⟩ => by
    have texts : toString b = toString b' := behind_inj same
    revert texts
    cases b <;> cases b' <;> decide
  number := fun _ _ ⟨_, _, same⟩ => Nat.repr_inj.mp (behind_inj same)
  text := fun word word' ⟨_, _, same⟩ => scalar_inj word word' (behind_inj same)
  octet := fun plain plain' comparable ⟨_, _, same⟩ => octet_inj plain plain' comparable (behind_inj same)
  octets := fun plain plain' comparable ⟨_, _, same⟩ => by
    cases plain with
    | octets _ plain =>
    cases plain' with
    | octets _ plain' =>
    refine map_code_eq (fun o member o' member' => ?_) (items_inj same)
    exact octet_inj (plain o member) (plain' o' member') (comparable o member o' member')
  absent_octets := fun ⟨_, _, same⟩ => by simp [field, items] at same
  absent_tables := fun {r rs} ⟨step, _, same⟩ => by
    have below : dashed _ (fields 2 r) ++ rows _ rs = [] := (List.cons.inj same).2.symm
    have first := isGroup_dashed (step + 1) (fields 2 r)
    rw [(List.append_eq_nil_iff.mp below).1] at first
    exact first

end EventScript.Document.Yaml
