import EventScript.Proofs.PlainDocuments

/-! # What CBOR keeps of a document

The head of an item tells where the item ends, so no item is the beginning of another one and a list of items
can be cut in one way only. Maps are sorted, but the value of each key is found again.
-/

namespace EventScript.Document.Cbor

/-! ## Heads -/

/-- The low bits of the first byte of a head. -/
def lead (v : Nat) : Nat :=
  if v < 24 then v
  else if v < 1 <<< 8 then 24
  else if v < 1 <<< 16 then 25
  else if v < 1 <<< 32 then 26
  else 27

/-- The number of bytes that follow the first one. -/
def width (lead : Nat) : Nat :=
  if lead < 24 then 0 else 1 <<< (lead - 24)

theorem lead_lt (v : Nat) : lead v < 32 := by
  unfold lead
  repeat' split
  all_goals omega

theorem head_eq (kind v : Nat) : head kind v = .ofNat (32 * kind + lead v) :: bigEndian (width (lead v)) v := by
  unfold head lead
  repeat' split
  all_goals simp_all [width, bigEndian]

theorem length_bigEndian (n v : Nat) : (bigEndian n v).length = n := by
  induction n with
  | zero => rfl
  | succ n ih => simp [bigEndian, ih]

theorem bigEndian_inj {n v v' : Nat} (same : bigEndian n v = bigEndian n v') :
    v % (1 <<< (8 * n)) = v' % (1 <<< (8 * n)) := by
  induction n with
  | zero => simp [Nat.mod_one]
  | succ n ih =>
      simp only [bigEndian, List.cons.injEq] at same
      have first := congrArg UInt8.toNat same.1
      simp only [UInt8.toNat_ofNat', Nat.shiftRight_eq_div_pow] at first
      have rest := ih same.2
      rw [Nat.one_shiftLeft] at rest ⊢
      rw [show 8 * (n + 1) = 8 * n + 8 by omega, Nat.pow_add, Nat.mod_mul, Nat.mod_mul, rest, first]

/-- The first byte of a head tells its kind and its length. -/
theorem head_append {kind kind' v v' : Nat} {rest rest' : List UInt8} (small : kind < 8) (small' : kind' < 8)
    (same : head kind v ++ rest = head kind' v' ++ rest') :
    kind = kind' ∧ lead v = lead v' ∧ head kind v = head kind' v' ∧ rest = rest' := by
  have low := lead_lt v
  have low' := lead_lt v'
  simp only [head_eq, List.cons_append, List.cons.injEq] at same
  have first := congrArg UInt8.toNat same.1
  simp only [UInt8.toNat_ofNat'] at first
  have kinds : kind = kind' := by omega
  have leads : lead v = lead v' := by omega
  obtain ⟨bytes, behind⟩ := List.append_inj same.2 (by simp only [length_bigEndian, leads])
  exact ⟨kinds, leads, by rw [head_eq, head_eq, same.1, bytes], behind⟩

theorem lead_cases {v : Nat} (fits : v < 1 <<< 64) :
    lead v < 24 ∧ lead v = v ∨ 24 ≤ lead v ∧ v < 1 <<< (8 * width (lead v)) := by
  unfold lead
  repeat' split
  all_goals simp_all [width]

/-- A head holds every number of 64 bits. -/
theorem head_inj {kind v v' : Nat} (small : kind < 8) (fits : v < 1 <<< 64) (fits' : v' < 1 <<< 64)
    (same : head kind v = head kind v') : v = v' := by
  have appended : head kind v ++ [] = head kind v' ++ [] := by rw [same]
  obtain ⟨-, leads, -, -⟩ := head_append small small appended
  rw [head_eq, head_eq, leads] at same
  have bytes := bigEndian_inj (List.cons.inj same).2
  rcases lead_cases fits with ⟨short, own⟩ | ⟨long, bound⟩ <;>
    rcases lead_cases fits' with ⟨short', own'⟩ | ⟨long', bound'⟩
  · omega
  · omega
  · omega
  · rw [leads] at bound
    rwa [Nat.mod_eq_of_lt bound, Nat.mod_eq_of_lt bound'] at bytes

/-! ## Items -/

/-- The items of a document. A group is a list, or a map of keys and values. -/
inductive IsItem : List UInt8 → Prop where
  | atom {kind v : Nat} (kinds : kind = 0 ∨ kind = 1 ∨ kind = 7) : IsItem (head kind v)
  | string {kind : Nat} {content : List UInt8} (kinds : kind = 2 ∨ kind = 3)
      (fits : content.length < 1 <<< 64) : IsItem (head kind content.length ++ content)
  | group {kind n : Nat} {items : List (List UInt8)}
      (kinds : kind = 4 ∧ items.length = n ∨ kind = 5 ∧ items.length = 2 * n) (fits : n < 1 <<< 64)
      (all : ∀ item ∈ items, IsItem item) : IsItem (head kind n ++ items.flatten)

/-- No item goes on where this one ends. -/
def IsWhole (item : List UInt8) : Prop :=
  ∀ other rest rest', IsItem other → item ++ rest = other ++ rest' → item = other ∧ rest = rest'

theorem flatten_append_inj {items items' : List (List UInt8)} {rest rest' : List UInt8}
    (whole : ∀ item ∈ items, IsWhole item) (all : ∀ item ∈ items', IsItem item)
    (count : items.length = items'.length) (same : items.flatten ++ rest = items'.flatten ++ rest') :
    items = items' ∧ rest = rest' := by
  induction items generalizing items' with
  | nil =>
      obtain rfl := List.eq_nil_of_length_eq_zero count.symm
      exact ⟨rfl, same⟩
  | cons item items ih =>
      cases items' with
      | nil => contradiction
      | cons item' items' =>
          simp only [List.flatten_cons, List.append_assoc] at same
          obtain ⟨rfl, behind⟩ := whole item (by simp) item' _ _ (all item' (by simp)) same
          obtain ⟨rfl, rests⟩ := ih (fun a member => whole a (by simp [member]))
            (fun a member => all a (by simp [member])) (by simpa using count) behind
          exact ⟨rfl, rests⟩

theorem IsItem.isWhole {item : List UInt8} (h : IsItem item) : IsWhole item := by
  intro other rest rest' isItem same
  induction h generalizing other rest rest' with
  | @atom kind v kinds =>
      cases isItem with
      | atom kinds' =>
          obtain ⟨-, -, heads, behind⟩ := head_append (by omega) (by omega) same
          exact ⟨heads, behind⟩
      | string kinds' | group kinds' =>
          rw [List.append_assoc] at same
          obtain ⟨equal, -⟩ := head_append (by omega) (by omega) same
          omega
  | @string kind content kinds fits =>
      rw [List.append_assoc] at same
      cases isItem with
      | string kinds' fits' =>
          rw [List.append_assoc] at same
          obtain ⟨rfl, -, heads, behind⟩ := head_append (by omega) (by omega) same
          have count := head_inj (by omega) fits fits' heads
          obtain ⟨rfl, rests⟩ := List.append_inj behind count
          exact ⟨rfl, rests⟩
      | atom kinds' =>
          obtain ⟨equal, -⟩ := head_append (by omega) (by omega) same
          omega
      | group kinds' =>
          rw [List.append_assoc] at same
          obtain ⟨equal, -⟩ := head_append (by omega) (by omega) same
          omega
  | @group kind n items kinds fits _ ih =>
      rw [List.append_assoc] at same
      cases isItem with
      | group kinds' fits' all' =>
          rw [List.append_assoc] at same
          obtain ⟨rfl, -, heads, behind⟩ := head_append (by omega) (by omega) same
          obtain rfl := head_inj (by omega) fits fits' heads
          obtain ⟨rfl, rests⟩ := flatten_append_inj ih all' (by omega) behind
          exact ⟨rfl, rests⟩
      | atom kinds' =>
          obtain ⟨equal, -⟩ := head_append (by omega) (by omega) same
          omega
      | string kinds' =>
          rw [List.append_assoc] at same
          obtain ⟨equal, -⟩ := head_append (by omega) (by omega) same
          omega

/-- A list of items can be cut in one way only. -/
theorem flatten_inj {items items' : List (List UInt8)} (all : ∀ item ∈ items, IsItem item)
    (all' : ∀ item ∈ items', IsItem item) (count : items.length = items'.length)
    (same : items.flatten = items'.flatten) : items = items' := by
  have appended : items.flatten ++ [] = items'.flatten ++ [] := by rw [same]
  exact (flatten_append_inj (fun item member => (all item member).isWhole) all' count appended).1

/-! ## Values -/

theorem toList_loop (bytes : ByteArray) (i : Nat) (front : List UInt8) :
    ByteArray.toList.loop bytes i front = front.reverse ++ bytes.data.toList.drop i := by
  fun_induction ByteArray.toList.loop bytes i front with
  | case1 i front inside ih =>
      have inside : i < bytes.data.toList.length := inside
      have item : bytes.get! i = bytes.data.toList[i] := getElem!_pos bytes.data i inside
      rw [ih, List.drop_eq_getElem_cons inside, item, List.reverse_cons, List.append_assoc]
      rfl
  | case2 i front outside =>
      have outside : bytes.data.toList.length ≤ i := Nat.le_of_not_lt outside
      rw [List.drop_eq_nil_of_le outside, List.append_nil]

theorem toList_toUTF8 (s : String) : s.toUTF8.toList = s.toUTF8.data.toList :=
  toList_loop s.toUTF8 0 []

theorem length_toUTF8 (s : String) : s.toUTF8.toList.length = s.utf8ByteSize := by
  rw [toList_toUTF8]
  rfl

theorem length_toUTF8_le (s : String) : s.toUTF8.toList.length ≤ 4 * s.toList.length := by
  have encoded (chars : List Char) : (chars.flatMap String.utf8EncodeChar).length ≤ 4 * chars.length := by
    induction chars with
    | nil => simp
    | cons c chars ih =>
        have size := c.utf8Size_le_four
        rw [List.flatMap_cons, List.length_append, String.length_utf8EncodeChar, List.length_cons]
        omega
  have shown : s.toUTF8 = s.toList.utf8Encode := String.utf8Encode_toList.symm
  rw [toList_toUTF8, shown, List.utf8Encode, List.data_toByteArray]
  exact encoded s.toList

theorem text_inj {s s' : String} (same : text s = text s') : s = s' := by
  obtain ⟨-, -, -, bytes⟩ := head_append (by omega) (by omega) same
  rw [toList_toUTF8, toList_toUTF8] at bytes
  exact toUTF8_inj (Array.toList_inj.mp bytes)

theorem isItem_number (n : Int) : IsItem (number n) := by
  cases n with
  | ofNat n => exact .atom (.inl rfl)
  | negSucc n => exact .atom (.inr (.inl rfl))

theorem isItem_text {s : String} (h : IsWord s) : IsItem (text s) := by
  have fits : s.toUTF8.toList.length < 1 <<< 64 := by
    have size := length_toUTF8_le s
    have short := h.short
    omega
  have item := IsItem.string (.inr rfl) fits
  rwa [length_toUTF8] at item

theorem fields_eq (r : Record) : fields r = r.map fun f => (text f.1, value f.2) := by
  induction r with
  | nil => rfl
  | cons f r ih => rw [fields, ih, List.map_cons]

theorem rows_eq (rs : List Record) : rows rs = (rs.map fun r => map (fields r)).flatten := by
  induction rs with
  | nil => rfl
  | cons r rs ih => rw [rows, ih, List.map_cons, List.flatten_cons]

/-- The keys and values of a map as one list of items. -/
def pairs (items : List (List UInt8 × List UInt8)) : List (List UInt8) :=
  items.flatMap fun f => [f.1, f.2]

theorem length_pairs (items : List (List UInt8 × List UInt8)) : (pairs items).length = 2 * items.length := by
  induction items with
  | nil => rfl
  | cons f items ih =>
      have length : (pairs (f :: items)).length = (pairs items).length + 2 := rfl
      rw [length, ih, List.length_cons, Nat.mul_add]

theorem pairs_inj {items items' : List (List UInt8 × List UInt8)} (same : pairs items = pairs items') :
    items = items' := by
  induction items generalizing items' with
  | nil =>
      cases items' with
      | nil => rfl
      | cons => contradiction
  | cons f items ih =>
      cases items' with
      | nil => contradiction
      | cons f' items' =>
          simp only [pairs, List.flatMap_cons, List.cons_append, List.nil_append, List.cons.injEq] at same
          rw [Prod.ext same.1 same.2.1, ih same.2.2]

/-- The items of a map in the order of their keys. -/
def sorted (items : List (List UInt8 × List UInt8)) : List (List UInt8 × List UInt8) :=
  items.mergeSort fun a b => keyLe a.1 b.1

theorem sorted_perm (items : List (List UInt8 × List UInt8)) : (sorted items).Perm items :=
  List.mergeSort_perm _ _

theorem flatten_pairs (items : List (List UInt8 × List UInt8)) :
    (pairs items).flatten = items.flatMap fun f => f.1 ++ f.2 := by
  induction items with
  | nil => rfl
  | cons f items ih =>
      rw [List.flatMap_cons, ← ih]
      simp [pairs]

theorem map_eq (items : List (List UInt8 × List UInt8)) :
    map items = head 5 items.length ++ (pairs (sorted items)).flatten := by
  rw [flatten_pairs]
  rfl

theorem isItem_pairs {items : List (List UInt8 × List UInt8)} (all : ∀ f ∈ items, IsItem f.1 ∧ IsItem f.2) :
    ∀ item ∈ pairs (sorted items), IsItem item := by
  intro item member
  obtain ⟨f, listed, inside⟩ := List.mem_flatMap.mp member
  obtain ⟨key, value⟩ := all f ((sorted_perm items).mem_iff.mp listed)
  simp only [List.mem_cons, List.not_mem_nil, or_false] at inside
  rcases inside with rfl | rfl
  · exact key
  · exact value

theorem isItem_map {items : List (List UInt8 × List UInt8)} (few : items.length < 256)
    (all : ∀ f ∈ items, IsItem f.1 ∧ IsItem f.2) : IsItem (map items) := by
  have count : (pairs (sorted items)).length = 2 * items.length := by
    rw [length_pairs, (sorted_perm items).length_eq]
  rw [map_eq]
  exact .group (.inr ⟨rfl, count⟩) (by omega) (isItem_pairs all)

/-- A map keeps its items, if not their order. -/
theorem map_inj {items items' : List (List UInt8 × List UInt8)} (few : items.length < 256)
    (few' : items'.length < 256) (all : ∀ f ∈ items, IsItem f.1 ∧ IsItem f.2)
    (all' : ∀ f ∈ items', IsItem f.1 ∧ IsItem f.2) (same : map items = map items') :
    items.Perm items' := by
  rw [map_eq, map_eq] at same
  obtain ⟨-, -, heads, joined⟩ := head_append (by omega) (by omega) same
  have count := head_inj (by omega) (by omega) (by omega) heads
  have equal : sorted items = sorted items' := by
    refine pairs_inj (flatten_inj (isItem_pairs all) (isItem_pairs all') ?_ joined)
    rw [length_pairs, length_pairs, (sorted_perm items).length_eq, (sorted_perm items').length_eq, count]
  calc
    items.Perm (sorted items) := (sorted_perm items).symm
    _ = sorted items' := equal
    List.Perm _ items' := sorted_perm items'

theorem isItem_fields {r : Record} (keys : Record.HasPlainKeys r) (values : ∀ f ∈ r, IsItem (value f.2)) :
    (fields r).length < 256 ∧ ∀ f ∈ fields r, IsItem f.1 ∧ IsItem f.2 := by
  rw [fields_eq]
  refine ⟨by simpa using keys.few, List.forall_mem_map.mpr fun f member => ?_⟩
  exact ⟨isItem_text (keys.words f member), values f member⟩

theorem isItem_value {v : Node} (h : v.IsPlain .cbor) : IsItem (value v) := by
  induction h with
  | flag value =>
      cases value with
      | true => exact .atom (v := 21) (.inr (.inr rfl))
      | false => exact .atom (v := 20) (.inr (.inr rfl))
  | number n => exact isItem_number n
  | text word => exact isItem_text word
  | @octet value => exact isItem_number value.code.toNat
  | absent => exact .atom (v := 22) (.inr (.inr rfl))
  | octets counted =>
      rw [value, byteString]
      exact .string (.inl rfl) (by rw [List.length_map]; exact counted)
  | numbers counted =>
      rw [value, List.flatMap_def]
      exact .group (.inl ⟨rfl, by simp⟩) counted (List.forall_mem_map.mpr fun n _ => isItem_number n)
  | table keys _ ih =>
      obtain ⟨few, all⟩ := isItem_fields keys ih
      exact isItem_map few all
  | tables counted keys _ ih =>
      rw [value, rows_eq]
      refine .group (.inl ⟨rfl, by simp⟩) counted (List.forall_mem_map.mpr fun r member => ?_)
      obtain ⟨few, all⟩ := isItem_fields (keys r member) (ih r member)
      exact isItem_map few all

/-! ## What is kept -/

theorem isItem_record {r : Record} (h : Record.IsPlain .cbor r) :
    (fields r).length < 256 ∧ ∀ f ∈ fields r, IsItem f.1 ∧ IsItem f.2 :=
  isItem_fields h.keys fun f member => isItem_value (h.values f member)

/-- The item of a key is the only one with this key. -/
theorem filter_fields {r : Record} (plain : Record.IsPlain .cbor r) {key : String} {v : Node}
    (member : (key, v) ∈ r) : (fields r).filter (·.1 == text key) = [(text key, value v)] := by
  rw [fields_eq, ← List.flatMap_pure_eq_map]
  refine filter_flatMap_of_mem _ _ plain.keys.distinct member (by simp) fun f _ differs => ?_
  have other : text f.1 ≠ text key := fun same => differs (text_inj same)
  simpa using other

theorem value_eq_of_map_eq {r r' : Record} {key : String} {v v' : Node} (plain : Record.IsPlain .cbor r)
    (plain' : Record.IsPlain .cbor r') (same : map (fields r) = map (fields r')) (member : (key, v) ∈ r)
    (member' : (key, v') ∈ r') : value v = value v' := by
  obtain ⟨few, all⟩ := isItem_record plain
  obtain ⟨few', all'⟩ := isItem_record plain'
  have perm := (map_inj few few' all all' same).filter (·.1 == text key)
  rw [filter_fields plain member, filter_fields plain' member', List.singleton_perm_singleton] at perm
  exact congrArg Prod.snd perm

theorem rows_forall₂ {rs rs' : List Record} (plain : (Node.tables rs).IsPlain .cbor)
    (plain' : (Node.tables rs').IsPlain .cbor) (same : value (.tables rs) = value (.tables rs')) :
    List.Forall₂ (fun r r' => map (fields r) = map (fields r')) rs rs' := by
  have isItem {rs : List Record} (plain : (Node.tables rs).IsPlain .cbor) :
      ∀ item ∈ rs.map fun r => map (fields r), IsItem item := by
    refine List.forall_mem_map.mpr fun r member => ?_
    obtain ⟨few, all⟩ := isItem_record (plain.row member)
    exact isItem_map few all
  rw [value, value, rows_eq, rows_eq] at same
  obtain ⟨-, -, heads, joined⟩ := head_append (by omega) (by omega) same
  have count := head_inj (by omega) plain.counted plain'.counted heads
  have equal := flatten_inj (isItem plain) (isItem plain') (by simpa using count) joined
  exact forall₂_of_map_eq (fun _ _ _ _ same => same) equal

theorem faithful :
    Format.cbor.Faithful (fun v v' => value v = value v') (fun r r' => map (fields r) = map (fields r')) where
  encoded _ _ same := by simpa [Format.encode, encode] using same
  symm := Eq.symm
  field plain plain' same member member' := value_eq_of_map_eq plain plain' same member member'
  table _ _ same := same
  tables plain plain' same := rows_forall₂ plain plain' same
  flag {b b'} same := by cases b <;> cases b' <;> first | rfl | cases same
  number fits fits' same := head_inj (by omega) fits fits' same
  text _ _ same := text_inj same
  octet {o o'} _ _ _ same := by
    have fits (code : UInt8) : code.toNat < 1 <<< 64 := Nat.lt_trans code.toNat_lt (by decide)
    exact UInt8.toNat_inj.mp (head_inj (by omega) (fits o.code) (fits o'.code) same)
  octets _ _ _ same := (head_append (by omega) (by omega) same).2.2.2
  absent_octets {o os} same := by
    have heads : head 7 22 ++ [] = head 2 _ ++ (o :: os).map (·.code) := same
    obtain ⟨equal, -⟩ := head_append (by omega) (by omega) heads
    contradiction
  absent_tables {r rs} same := by
    have heads : head 7 22 ++ [] = head 4 _ ++ rows (r :: rs) := same
    obtain ⟨equal, -⟩ := head_append (by omega) (by omega) heads
    contradiction

end EventScript.Document.Cbor
