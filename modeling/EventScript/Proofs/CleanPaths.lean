import EventScript.Files.Path

/-! # Clean paths

A clean path is the same as its list of names. Joining a name to a path adds it to the end of that list,
whatever the path looked like before.
-/

namespace EventScript.Path

/-- A name that leads one directory down. -/
structure Plain (name : String) : Prop where
  nonempty : name ≠ ""
  here : name ≠ "."
  up : name ≠ ".."
  whole : '/' ∉ name.toList

instance (name : String) : Decidable (Plain name) :=
  decidable_of_iff (name ≠ "" ∧ name ≠ "." ∧ name ≠ ".." ∧ '/' ∉ name.toList)
    ⟨fun ⟨nonempty, here, up, whole⟩ => ⟨nonempty, here, up, whole⟩,
      fun h => ⟨h.nonempty, h.here, h.up, h.whole⟩⟩

theorem Plain.ne_root {name : String} (h : Plain name) : name ≠ "/" := by
  rintro rfl
  exact absurd h.whole (by decide)

/-- The names of a clean path: first those that lead up, which a path from the root does not have. -/
def IsClean (rooted : Bool) (names : List String) : Prop :=
  ∃ ups downs, names = List.replicate ups ".." ++ downs ∧ (rooted = true → ups = 0) ∧
    ∀ name ∈ downs, Plain name

section Clean

variable {rooted : Bool} {names : List String} {name : String}

theorem isClean_nil : IsClean rooted [] :=
  ⟨0, [], rfl, fun _ => rfl, nofun⟩

theorem IsClean.append {more : List String} (h : IsClean rooted names) (plain : ∀ n ∈ more, Plain n) :
    IsClean rooted (names ++ more) := by
  obtain ⟨ups, downs, rfl, only, downs_plain⟩ := h
  refine ⟨ups, downs ++ more, by rw [List.append_assoc], only, fun n member => ?_⟩
  exact (List.mem_append.mp member).elim (downs_plain n) (plain n)

theorem IsClean.front {more : List String} (h : IsClean rooted (names ++ more)) : IsClean rooted names := by
  obtain ⟨ups, downs, same, only, plain⟩ := h
  refine ⟨min names.length ups, downs.take (names.length - ups), ?_, fun root => by simp [only root],
    fun n member => plain n (List.mem_of_mem_take member)⟩
  calc names = (names ++ more).take names.length := by simp
    _ = (List.replicate ups ".." ++ downs).take names.length := by rw [same]
    _ = _ := by simp [List.take_append]

/-- Nothing but ways up stands before a way up. -/
theorem IsClean.before_up (h : IsClean rooted (names ++ [".."])) :
    rooted = false ∧ ∀ n ∈ names, n = ".." := by
  obtain ⟨ups, downs, same, only, plain⟩ := h
  rcases List.eq_nil_or_concat downs with rfl | ⟨downs, last, rfl⟩
  · rw [List.append_nil] at same
    have all : ∀ n ∈ names ++ [".."], n = ".." := same ▸ fun n => List.eq_of_mem_replicate
    refine ⟨?_, fun n member => all n (by simp [member])⟩
    cases rooted with
    | true => simp [only rfl] at same
    | false => rfl
  · have : ".." = last := by simpa using congrArg List.getLast? same
    exact absurd this.symm (plain last (by simp)).up

theorem IsClean.mem (h : IsClean rooted names) (member : name ∈ names) : name = ".." ∨ Plain name := by
  obtain ⟨ups, downs, rfl, _, plain⟩ := h
  rcases List.mem_append.mp member with up | down
  · exact .inl (List.eq_of_mem_replicate up)
  · exact .inr (plain name down)

theorem IsClean.whole (h : IsClean rooted names) (member : name ∈ names) : '/' ∉ name.toList := by
  rcases h.mem member with rfl | plain
  · decide
  · exact plain.whole

theorem IsClean.nonempty (h : IsClean rooted names) (member : name ∈ names) : name ≠ "" := by
  rcases h.mem member with rfl | plain
  · decide
  · exact plain.nonempty

end Clean

/-! ## Taking paths apart -/

section Parts

variable {rooted : Bool} {names : List String}

/-- A path starts at the root if nothing stands before its first slash. -/
theorem isRooted_iff {path : String} : isRooted path ↔ ∃ rest, rest ≠ [] ∧ parts path = "" :: rest := by
  rw [isRooted, String.startsWith_string_iff, parts, show "/".toList = ['/'] from rfl]
  cases path.toList with
  | nil => simp
  | cons c text =>
      rw [List.splitOn_cons_eq_if_modifyHead]
      have more := List.splitOn_ne_nil '/' text
      by_cases slash : c = '/'
      · subst slash
        simp
      · obtain ⟨first, others, split⟩ := List.exists_cons_of_ne_nil more
        simpa [slash, split] using Ne.symm slash

theorem isRooted_append {front : String} (nonempty : front ≠ "") (back : String) :
    isRooted (front ++ back) = isRooted front := by
  rw [Bool.eq_iff_iff, isRooted, isRooted, String.startsWith_string_iff, String.startsWith_string_iff,
    String.toList_append, show "/".toList = ['/'] from rfl]
  cases shown : front.toList with
  | nil => exact absurd (String.toList_eq_nil_iff.mp shown) nonempty
  | cons c rest => simp

theorem parts_joinWith (nonempty : names ≠ []) (whole : ∀ n ∈ names, '/' ∉ n.toList) :
    parts (joinWith "/" names) = names := by
  have split : (['/'].intercalate (names.map String.toList)).splitOn '/' = names.map String.toList :=
    List.splitOn_intercalate '/' (by simpa using whole) (by simpa using nonempty)
  rw [parts, joinWith, String.toList_intercalate, show "/".toList = ['/'] from rfl, split, List.map_map]
  simp

theorem parts_append (front back : String) : parts (front ++ "/" ++ back) = parts front ++ parts back := by
  simp [parts, List.splitOn_append_cons_self]

theorem whole_of_mem_parts {path name : String} (h : name ∈ parts path) : '/' ∉ name.toList := by
  have whole (text : List Char) : ∀ part ∈ text.splitOn '/', '/' ∉ part := by
    induction text with
    | nil => simp
    | cons c text ih =>
        rw [List.splitOn_cons_eq_if_modifyHead]
        split <;> rename_i slash
        · simpa using ih
        · cases rest : text.splitOn '/' with
          | nil => exact absurd rest (List.splitOn_ne_nil _ _)
          | cons first others =>
              rw [rest] at ih
              obtain ⟨here, others⟩ := List.forall_mem_cons.mp ih
              have new : '/' ≠ c := fun same => slash (beq_iff_eq.mpr same.symm)
              exact List.forall_mem_cons.mpr ⟨by simp [new, here], others⟩
  obtain ⟨text, member, rfl⟩ := List.mem_map.mp h
  simpa using whole _ text member

end Parts

/-! ## Cleaning -/

section Cleaning

variable {rooted : Bool} {names : List String}

theorem foldl_push_plain (plain : ∀ n ∈ names, Plain n) (done : List String) :
    names.foldl (push rooted) done = names.reverse ++ done := by
  induction names generalizing done with
  | nil => rfl
  | cons name names ih =>
      obtain ⟨here, plain⟩ := List.forall_mem_cons.mp plain
      have added : push rooted done name = name :: done := by
        simp [push, here.nonempty, here.here, here.up]
      rw [List.foldl_cons, added, ih plain]
      simp

theorem foldl_push_ups (ups before : Nat) :
    (List.replicate ups "..").foldl (push false) (List.replicate before "..") =
      List.replicate (before + ups) ".." := by
  induction ups generalizing before with
  | zero => rfl
  | succ ups ih =>
      have up : push false (List.replicate before "..") ".." = List.replicate (before + 1) ".." := by
        cases before <;> simp [push, List.replicate_succ]
      rw [List.replicate_succ, List.foldl_cons, up, ih, Nat.add_right_comm]
      rfl

/-- Cleaning leaves clean names alone. -/
theorem IsClean.foldl_push (h : IsClean rooted names) : names.foldl (push rooted) [] = names.reverse := by
  obtain ⟨ups, downs, rfl, only, plain⟩ := h
  have up : (List.replicate ups "..").foldl (push rooted) [] = List.replicate ups ".." := by
    cases rooted with
    | true => rw [only rfl]; rfl
    | false => simpa using foldl_push_ups ups 0
  rw [List.foldl_append, up, foldl_push_plain plain, List.reverse_append, List.reverse_replicate]

/-- A step of cleaning keeps what was done clean. -/
theorem IsClean.push {done : List String} {part : String} (h : IsClean rooted done.reverse)
    (whole : '/' ∉ part.toList) : IsClean rooted (push rooted done part).reverse := by
  unfold Path.push
  split <;> rename_i skipped
  · exact h
  split <;> rename_i up
  · obtain ⟨ups, downs, same, only, plain⟩ := h
    obtain rfl : done = downs.reverse ++ List.replicate ups ".." := by
      rw [← List.reverse_reverse done, same, List.reverse_append, List.reverse_replicate]
    rcases List.eq_nil_or_concat downs with rfl | ⟨downs, last, rfl⟩
    · cases ups with
      | zero =>
          cases rooted with
          | true => exact isClean_nil
          | false => exact ⟨1, [], rfl, nofun, nofun⟩
      | succ ups =>
          refine ⟨ups + 2, [], ?_, fun root => absurd (only root) (by simp), nofun⟩
          rw [up, List.reverse_nil, List.nil_append, List.replicate_succ]
          dsimp only
          rw [if_pos rfl, ← List.replicate_succ, ← List.replicate_succ, List.reverse_replicate,
            List.append_nil]
    · have down := (plain last (by simp)).up
      refine ⟨ups, downs, by simp [down], only, fun n member => plain n (by simp [member])⟩
  · rw [not_or] at skipped
    rw [List.reverse_cons]
    exact h.append (by simpa using ⟨skipped.1, skipped.2, up, whole⟩)

theorem isClean_cleanParts (path : String) : IsClean (isRooted path) (cleanParts path) := by
  have kept (names : List String) (whole : ∀ n ∈ names, '/' ∉ n.toList) (done : List String)
      (h : IsClean (isRooted path) done.reverse) :
      IsClean (isRooted path) (names.foldl (Path.push (isRooted path)) done).reverse := by
    induction names generalizing done with
    | nil => exact h
    | cons name names ih =>
        obtain ⟨here, whole⟩ := List.forall_mem_cons.mp whole
        exact ih whole _ (h.push here)
  exact kept _ (fun _ => whole_of_mem_parts) [] isClean_nil

end Cleaning

/-! ## Putting paths together -/

section Joining

variable {rooted : Bool} {names : List String}

theorem ofParts_rooted (names : List String) : ofParts true names = "/" ++ joinWith "/" names := rfl

theorem ofParts_relative (nonempty : names ≠ []) : ofParts false names = joinWith "/" names := by
  simp [ofParts, nonempty]

theorem ofParts_append {more : List String} (nonempty : names ≠ []) (nonempty' : more ≠ []) :
    ofParts rooted (names ++ more) = ofParts rooted names ++ "/" ++ joinWith "/" more := by
  have inner : joinWith "/" (names ++ more) = joinWith "/" names ++ "/" ++ joinWith "/" more :=
    String.intercalate_append_of_ne_nil nonempty nonempty'
  cases rooted with
  | true => simp only [ofParts_rooted, inner, String.append_assoc]
  | false => rw [ofParts_relative (by simp [nonempty]), ofParts_relative nonempty, inner]

theorem joinWith_ne_empty (nonempty : names ≠ []) (h : IsClean rooted names) : joinWith "/" names ≠ "" := by
  intro empty
  have shown := parts_joinWith nonempty fun n => h.whole
  rw [empty] at shown
  have member : "" ∈ names := by simp [← shown, parts]
  exact h.nonempty member rfl

theorem ofParts_ne_empty (h : IsClean rooted names) : ofParts rooted names ≠ "" := by
  cases rooted with
  | true =>
      rw [ofParts_rooted]
      simp
  | false =>
      by_cases nonempty : names = []
      · rw [nonempty]
        decide
      · rw [ofParts_relative nonempty]
        exact joinWith_ne_empty nonempty h

theorem mem_ofParts {c : Char} (nonempty : names ≠ []) (h : c ∈ (ofParts rooted names).toList) :
    c = '/' ∨ ∃ n ∈ names, c ∈ n.toList := by
  cases rooted with
  | true =>
      rw [ofParts_rooted, String.toList_append, List.mem_append] at h
      rcases h with slash | inside
      · exact .inl (by simpa using slash)
      · exact (mem_joinWith inside).imp_left (by simp)
  | false =>
      rw [ofParts_relative nonempty] at h
      exact (mem_joinWith h).imp_left (by simp)

/-- The parts of a path from clean names, up to some that cleaning skips. -/
theorem parts_ofParts (h : IsClean rooted names) : parts (ofParts rooted names) =
    if rooted then "" :: (if names = [] then [""] else names) else if names = [] then ["."] else names := by
  have inner (nonempty : names ≠ []) := parts_joinWith nonempty fun n => h.whole
  cases rooted with
  | true =>
      have rooted : ofParts true names = "" ++ "/" ++ joinWith "/" names := rfl
      rw [rooted, parts_append, if_pos rfl]
      split <;> rename_i empty
      · rw [empty]
        rfl
      · rw [inner empty]
        rfl
  | false =>
      split <;> rename_i empty
      · contradiction
      · split <;> rename_i empty
        · rw [empty]
          rfl
        · rw [ofParts_relative empty, inner empty]

theorem isRooted_ofParts (h : IsClean rooted names) : isRooted (ofParts rooted names) = rooted := by
  rw [Bool.eq_iff_iff, isRooted_iff, parts_ofParts h]
  cases rooted with
  | true => cases names <;> simp
  | false =>
      cases names with
      | nil => simp
      | cons first rest =>
          have := h.nonempty List.mem_cons_self
          simp [this]

theorem cleanParts_ofParts (h : IsClean rooted names) : cleanParts (ofParts rooted names) = names := by
  have skipped : (parts (ofParts rooted names)).foldl (push rooted) [] = names.foldl (push rooted) [] := by
    rw [parts_ofParts h]
    cases rooted <;> cases names <;> simp [push]
  rw [cleanParts, isRooted_ofParts h, skipped, h.foldl_push, List.reverse_reverse]

theorem ofParts_singleton (name : String) : ofParts false [name] = name := by
  rw [ofParts_relative (by simp), joinWith, String.intercalate_singleton]

theorem Plain.isClean {name : String} (h : Plain name) : IsClean rooted [name] :=
  isClean_nil.append (by simpa using h)

theorem Plain.isRooted {name : String} (h : Plain name) : isRooted name = false := by
  have shown := isRooted_ofParts (h.isClean : IsClean false [name])
  rwa [ofParts_singleton] at shown

theorem Plain.cleanParts {name : String} (h : Plain name) : cleanParts name = [name] := by
  have shown := cleanParts_ofParts (h.isClean : IsClean false [name])
  rwa [ofParts_singleton] at shown

/-- Joining adds names to those of a path. -/
theorem join_ofParts (dir : String) (nonempty : names ≠ []) (plain : ∀ n ∈ names, Plain n) :
    join [dir, ofParts false names] = ofParts (isRooted dir) (cleanParts dir ++ names) := by
  have isClean : IsClean false names := isClean_nil.append plain
  have given := ofParts_ne_empty isClean
  by_cases empty : dir = ""
  · have joined : join [dir, ofParts false names] = clean (ofParts false names) := by
      simp [join, empty, given, joinWith]
    rw [joined, clean, isRooted_ofParts isClean, cleanParts_ofParts isClean, empty]
    rfl
  · have joined : join [dir, ofParts false names] = clean (dir ++ "/" ++ ofParts false names) := by
      simp [join, empty, given, joinWith]
    have rooted : isRooted (dir ++ "/" ++ ofParts false names) = isRooted dir := by
      rw [String.append_assoc, isRooted_append empty]
    have names : cleanParts (dir ++ "/" ++ ofParts false names) = cleanParts dir ++ names := by
      rw [cleanParts, rooted, parts_append, parts_ofParts isClean, List.foldl_append]
      simp only [Bool.false_eq_true, if_false, if_neg nonempty]
      rw [foldl_push_plain plain, List.reverse_append, List.reverse_reverse, cleanParts]
    rw [joined, clean, rooted, names]

theorem join_pair (dir : String) {name : String} (plain : Plain name) :
    join [dir, name] = ofParts (isRooted dir) (cleanParts dir ++ [name]) := by
  have joined := @join_ofParts [name] dir (by simp) (by simpa using plain)
  rwa [ofParts_singleton] at joined

theorem join_ofParts_pair {name : String} (h : IsClean rooted names) (plain : Plain name) :
    join [ofParts rooted names, name] = ofParts rooted (names ++ [name]) := by
  rw [join_pair _ plain, isRooted_ofParts h, cleanParts_ofParts h]

theorem join_cons (dir : String) (nonempty : names ≠ []) (plain : ∀ n ∈ names, Plain n) :
    join (dir :: names) = ofParts (isRooted dir) (cleanParts dir ++ names) := by
  have isClean : IsClean false names := isClean_nil.append plain
  have inner := joinWith_ne_empty nonempty isClean
  have given : ∀ n ∈ names, ¬ n = "" := fun n member => (plain n member).nonempty
  rw [← join_ofParts dir nonempty plain, ofParts_relative nonempty, join, join]
  by_cases empty : dir = ""
  · have all : (dir :: names).filter (· ≠ "") = names := by simpa [empty] using given
    have pair : [dir, joinWith "/" names].filter (· ≠ "") = [joinWith "/" names] := by simp [empty, inner]
    obtain ⟨first, rest, rfl⟩ := List.exists_cons_of_ne_nil nonempty
    rw [all, pair]
    simp [joinWith]
  · have all : (dir :: names).filter (· ≠ "") = dir :: names := by simpa [empty] using given
    have pair : [dir, joinWith "/" names].filter (· ≠ "") = [dir, joinWith "/" names] := by simp [empty, inner]
    obtain ⟨first, rest, rfl⟩ := List.exists_cons_of_ne_nil nonempty
    rw [all, pair]
    simp [joinWith, String.intercalate_cons_cons]

theorem clean_ofParts (h : IsClean rooted names) : clean (ofParts rooted names) = ofParts rooted names := by
  rw [clean, isRooted_ofParts h, cleanParts_ofParts h]

theorem ofParts_inj {others : List String} (h : IsClean rooted names) (h' : IsClean rooted others)
    (same : ofParts rooted names = ofParts rooted others) : names = others := by
  rw [← cleanParts_ofParts h, same, cleanParts_ofParts h']

end Joining

end EventScript.Path
