import EventScript.Proofs.ScanComposition
import EventScript.Script.EntryPoints

/-! # What is found at entry points

Entry points are read by several workers at a time, and outcomes are added as they come. A scan is a pool
of tasks that takes steps until nothing is left to do. Whatever the order of the steps, the same outcomes
are added. Since an offset decides what is found there, sorting them leaves one result, as long as offsets can
be compared: two that are further apart than 64 bits can tell come out in the wrong order.
-/

namespace EventScript

/-! ## Sorted records -/

section Sorting

variable {α : Type} {compare : α → α → Int} {records result : List α}

/-- The comparison is a strict weak order of the records. -/
structure Orders (compare : α → α → Int) (records : List α) : Prop where
  asymm : ∀ a ∈ records, ∀ b ∈ records, compare a b < 0 → ¬ compare b a < 0
  split : ∀ a ∈ records, ∀ b ∈ records, ∀ c ∈ records, compare a c < 0 → compare a b < 0 ∨ compare b c < 0

/-- What sorting may give: the same records, and none in front of one that comes before it if the comparison
    orders them. -/
structure SortsBy (compare : α → α → Int) (records result : List α) : Prop where
  perm : result.Perm records
  sorted : Orders compare records → result.Pairwise fun a b => ¬ compare b a < 0

theorem perm_insertBack (compare : α → α → Int) (a : α) (before : List α) :
    (insertBack compare a before).Perm (a :: before) := by
  induction before with
  | nil => exact .refl _
  | cons b before ih =>
      unfold insertBack
      split
      · exact (ih.cons b).trans (.swap a b before)
      · exact .refl _

theorem sorted_insertBack {a : α} {before : List α} (orders : Orders compare records) (listed : a ∈ records)
    (inside : ∀ b ∈ before, b ∈ records) (sorted : before.Pairwise fun b a => ¬ compare b a < 0) :
    (insertBack compare a before).Pairwise fun b a => ¬ compare b a < 0 := by
  induction before with
  | nil => exact List.pairwise_singleton _ a
  | cons b before ih =>
      obtain ⟨last, sorted⟩ := List.pairwise_cons.mp sorted
      obtain ⟨here, inside⟩ := List.forall_mem_cons.mp inside
      unfold insertBack
      split <;> rename_i comes
      · refine List.pairwise_cons.mpr ⟨fun c member => ?_, ih inside sorted⟩
        rcases List.mem_cons.mp ((perm_insertBack compare a before).mem_iff.mp member) with rfl | member
        · exact orders.asymm c listed b here comes
        · exact last c member
      -- What does not come before the last one does not come before any.
      · refine List.pairwise_cons.mpr ⟨List.forall_mem_cons.mpr ⟨comes, fun c member first => ?_⟩, ?_⟩
        · rcases orders.split a listed b here c (inside c member) first with before | before
          · exact comes before
          · exact last c member before
        · exact List.pairwise_cons.mpr ⟨last, sorted⟩

theorem perm_foldr_insertBack (compare : α → α → Int) (records : List α) :
    (records.foldr (insertBack compare) []).Perm records := by
  induction records with
  | nil => exact .refl _
  | cons a records ih => exact (perm_insertBack compare a _).trans (ih.cons a)

theorem sorted_foldr_insertBack {front : List α} (orders : Orders compare records)
    (inside : ∀ a ∈ front, a ∈ records) :
    (front.foldr (insertBack compare) []).Pairwise fun b a => ¬ compare b a < 0 := by
  induction front with
  | nil => exact .nil
  | cons a front ih =>
      obtain ⟨here, inside⟩ := List.forall_mem_cons.mp inside
      refine sorted_insertBack orders here (fun b member => inside b ?_) (ih inside)
      exact (perm_foldr_insertBack compare front).mem_iff.mp member

theorem sortsBy_sortBy (compare : α → α → Int) (records : List α) :
    SortsBy compare records (sortBy compare records) where
  perm := (List.reverse_perm _).trans (perm_foldr_insertBack compare records)
  sorted orders := List.pairwise_reverse.mpr (sorted_foldr_insertBack orders fun _ => id)

/-- No two keys are so far apart that their difference takes more than 64 bits. -/
def AreNear (keys : List Int) : Prop :=
  ∀ a ∈ keys, ∀ b ∈ keys, a - b < 0x8000000000000000

variable {key : α → Int}

theorem AreNear.compareBy_neg_iff (near : AreNear (records.map key)) {a b : α} (left : a ∈ records)
    (right : b ∈ records) : compareBy key a b < 0 ↔ key a < key b := by
  have above := near _ (List.mem_map_of_mem left) _ (List.mem_map_of_mem right)
  have below := near _ (List.mem_map_of_mem right) _ (List.mem_map_of_mem left)
  rw [compareBy, wrap64_of_fits (by omega) (by omega)]
  omega

theorem AreNear.orders (near : AreNear (records.map key)) : Orders (compareBy key) records where
  asymm a left b right := by
    rw [near.compareBy_neg_iff left right, near.compareBy_neg_iff right left]
    omega
  split a left b middle c right := by
    rw [near.compareBy_neg_iff left right, near.compareBy_neg_iff left middle,
      near.compareBy_neg_iff middle right]
    omega

theorem SortsBy.sorted_of_near (h : SortsBy (compareBy key) records result) (near : AreNear (records.map key)) :
    result.Pairwise (key · ≤ key ·) := by
  refine (h.sorted near.orders).imp_of_mem fun left right comes => ?_
  rw [near.compareBy_neg_iff (h.perm.mem_iff.mp right) (h.perm.mem_iff.mp left)] at comes
  omega

/-- Where the key tells records apart, there is one way to sort them. -/
theorem eq_of_sorted {others : List α} (apart : ∀ a ∈ records, ∀ b ∈ records, key a = key b → a = b)
    (same : records.Perm others) (sorted : records.Pairwise (key · ≤ key ·))
    (sorted' : others.Pairwise (key · ≤ key ·)) : records = others := by
  refine same.eq_of_pairwise (fun a b left right le ge => ?_) sorted sorted'
  exact apart a left b (same.mem_iff.mpr right) (Int.le_antisymm le ge)

/-- Two records that are too far apart come out in the wrong order. -/
theorem sortBy_of_far {a b : α} (far : 0x8000000000000000 ≤ key b - key a)
    (close : key b - key a < 0x10000000000000000) : sortBy (compareBy key) [b, a] = [b, a] := by
  have wrapped : compareBy key b a = key b - key a - 0x10000000000000000 := wrap64_of_ge far (by omega)
  have swapped : insertBack (compareBy key) b [a] = [a, b] := if_pos (by omega)
  exact congrArg List.reverse swapped

end Sorting

namespace EntryPointScan

/-! ## What belongs to offsets -/

/-- The entry at an offset, if there is one. -/
def entryAt? (data : Bytes) (offset : Int) : Option Entry :=
  (scriptAt data offset).toOption

/-- The failure at an offset, if there is no entry. -/
def failureAt? (data : Bytes) (offset : Int) : Option ScanFailure :=
  match scriptAt data offset with
  | .ok _ => none
  | .error m => some ⟨offset, m⟩

theorem entryAt?_eq_some_iff {data : Bytes} {offset : Int} {entry : Entry} :
    entryAt? data offset = some entry ↔ scriptAt data offset = .ok entry := by
  unfold entryAt?
  cases scriptAt data offset <;> simp [Except.toOption]

theorem failureAt?_eq_some_iff {data : Bytes} {offset : Int} {failure : ScanFailure} :
    failureAt? data offset = some failure ↔
      failure.offset = offset ∧ scriptAt data offset = .error failure.mismatch := by
  unfold failureAt?
  cases scriptAt data offset with
  | ok entry => simp
  | error m =>
      cases failure
      simp [eq_comm]

/-- The records are what is found at the offsets, in any order. -/
structure Holds (data : Bytes) (offsets : List Int) (scan : EntryPointScan) : Prop where
  entries : scan.entries.Perm (offsets.filterMap (entryAt? data))
  failures : scan.failures.Perm (offsets.filterMap (failureAt? data))

namespace Holds

variable {data : Bytes} {offsets others : List Int} {scan : EntryPointScan}

theorem nil : Holds data [] ⟨[], []⟩ :=
  ⟨.refl _, .refl _⟩

theorem add (h : Holds data offsets scan) (offset : Int) :
    Holds data (offset :: offsets) (scan.add offset (scriptAt data offset)) := by
  constructor
  · have := h.entries
    cases outcome : scriptAt data offset <;> simp [EntryPointScan.add, entryAt?, outcome, Except.toOption, this]
  · have := h.failures
    cases outcome : scriptAt data offset <;> simp [EntryPointScan.add, failureAt?, outcome, this]

theorem of_perm (h : Holds data offsets scan) (same : offsets.Perm others) :
    Holds data others scan :=
  ⟨h.entries.trans (same.filterMap _), h.failures.trans (same.filterMap _)⟩

theorem entry (h : Holds data offsets scan) {e : Entry} (member : e ∈ scan.entries) :
    e.start ∈ offsets ∧ scriptAt data e.start = .ok e := by
  obtain ⟨offset, listed, found⟩ := List.mem_filterMap.mp (h.entries.mem_iff.mp member)
  have read := entryAt?_eq_some_iff.mp found
  obtain rfl := (scriptAt_eq_ok read).1
  exact ⟨listed, read⟩

theorem failure (h : Holds data offsets scan) {f : ScanFailure} (member : f ∈ scan.failures) :
    f.offset ∈ offsets ∧ scriptAt data f.offset = .error f.mismatch := by
  obtain ⟨offset, listed, found⟩ := List.mem_filterMap.mp (h.failures.mem_iff.mp member)
  obtain ⟨rfl, failed⟩ := failureAt?_eq_some_iff.mp found
  exact ⟨listed, failed⟩

theorem mem_entries (h : Holds data offsets scan) {offset : Int} (listed : offset ∈ offsets) {e : Entry}
    (read : scriptAt data offset = .ok e) : e ∈ scan.entries :=
  h.entries.mem_iff.mpr (List.mem_filterMap.mpr ⟨offset, listed, entryAt?_eq_some_iff.mpr read⟩)

theorem mem_failures (h : Holds data offsets scan) {offset : Int} (listed : offset ∈ offsets)
    {m : Mismatch} (failed : scriptAt data offset = .error m) : ⟨offset, m⟩ ∈ scan.failures :=
  h.failures.mem_iff.mpr
    (List.mem_filterMap.mpr ⟨offset, listed, failureAt?_eq_some_iff.mpr ⟨rfl, failed⟩⟩)

end Holds

/-- What sorting may give for entries and for failures. -/
structure SortsTo (scan result : EntryPointScan) : Prop where
  entries : SortsBy (compareBy Entry.start) scan.entries result.entries
  failures : SortsBy (compareBy ScanFailure.offset) scan.failures result.failures

/-- Entries and failures are in the order of their offsets. -/
structure IsSorted (scan : EntryPointScan) : Prop where
  entries : scan.entries.Pairwise (·.start ≤ ·.start)
  failures : scan.failures.Pairwise (·.offset ≤ ·.offset)

theorem sortsTo_sorted (scan : EntryPointScan) : SortsTo scan scan.sorted :=
  ⟨sortsBy_sortBy .., sortsBy_sortBy ..⟩

theorem Holds.sorted {data : Bytes} {offsets : List Int} {scan result : EntryPointScan}
    (h : Holds data offsets scan) (sorts : SortsTo scan result) : Holds data offsets result :=
  ⟨sorts.entries.perm.trans h.entries, sorts.failures.perm.trans h.failures⟩

theorem holds_foldl_add {data : Bytes} {before : List Int} {scan : EntryPointScan}
    (h : Holds data before scan) (offsets : List Int) :
    Holds data (offsets ++ before)
      (offsets.foldl (fun scan offset => scan.add offset (scriptAt data offset)) scan) := by
  induction offsets generalizing before scan with
  | nil => exact h
  | cons offset offsets ih => exact (ih (h.add offset)).of_perm List.perm_middle

theorem holds_collect (data : Bytes) (offsets : List Int) : Holds data offsets (collect data offsets) := by
  simpa [collect] using holds_foldl_add .nil offsets

theorem holds_ofOffsets (data : Bytes) (offsets : List Int) :
    Holds data offsets (ofOffsets data offsets) :=
  (holds_collect data offsets).sorted (sortsTo_sorted _)

/-! ## What a result says -/

/-- A script of some dialect starts at the offset. -/
def Readable (data : Bytes) (offset : Int) : Prop :=
  0 ≤ offset ∧ offset ≤ data.size ∧ ∃ dialect, Dialect.Fits data dialect offset

theorem readable_iff {data : Bytes} {offset : Int} :
    Readable data offset ↔ ∃ e, scriptAt data offset = .ok e := by
  constructor
  · intro h
    obtain ⟨_, _, dialect, fits⟩ := h
    by_cases worldChar : Dialect.worldChar.Fits data offset
    · obtain ⟨events, next, read⟩ := worldChar
      have same := (Dialect.script_spans read).2.1
      exact ⟨_, scriptAt_eq_ok_iff.mpr ⟨events, next, by rwa [same], by simp [same], rfl⟩⟩
    · obtain ⟨events, next, read⟩ := fits
      have same := (Dialect.script_spans read).2.1
      exact ⟨_, scriptAt_eq_ok_iff.mpr ⟨events, next, by rwa [same], fun _ => worldChar, rfl⟩⟩
  · intro h
    obtain ⟨e, read⟩ := h
    obtain ⟨events, next, read, _⟩ := scriptAt_eq_ok_iff.mp read
    have low := (Dialect.script_spans read).1
    have high := Dialect.script_eq_ok read
    exact ⟨low, by omega, events.dialect, events, next, read⟩

theorem not_readable_iff {data : Bytes} {offset : Int} :
    ¬ Readable data offset ↔ ∃ m, scriptAt data offset = .error m := by
  rw [readable_iff]
  cases scriptAt data offset <;> simp

/-- What is known of the result for offsets. -/
structure Describes (data : Bytes) (offsets : List Int) (result : EntryPointScan) : Prop where
  /-- Each offset has a record, as often as it is given. -/
  covers : (result.entries.map (·.start) ++ result.failures.map (·.offset)).Perm offsets
  entry_iff : ∀ offset ∈ offsets, (∃ e ∈ result.entries, e.start = offset) ↔ Readable data offset
  failure_iff : ∀ offset ∈ offsets,
    (∃ f ∈ result.failures, f.offset = offset) ↔ ¬ Readable data offset
  entry : ∀ e ∈ result.entries, e.offset = e.start ∧
    e.dialect.script data e.start = .ok e.events e.stop ∧
    (e.dialect = .worldChar ↔ Dialect.worldChar.Fits data e.start)
  failure : ∀ f ∈ result.failures, scriptAt data f.offset = .error f.mismatch

theorem covers_filterMap (data : Bytes) (offsets : List Int) :
    ((offsets.filterMap (entryAt? data)).map (·.start) ++
      (offsets.filterMap (failureAt? data)).map (·.offset)).Perm offsets := by
  induction offsets with
  | nil => exact .refl _
  | cons offset offsets ih =>
      cases outcome : scriptAt data offset with
      | ok e =>
          obtain rfl := (scriptAt_eq_ok outcome).1
          simpa [entryAt?, failureAt?, outcome, Except.toOption] using ih
      | error m =>
          simpa [entryAt?, failureAt?, outcome, Except.toOption] using List.perm_middle.trans (ih.cons _)

namespace Holds

variable {data : Bytes} {offsets : List Int} {scan : EntryPointScan}

theorem covers (h : Holds data offsets scan) :
    (scan.entries.map (·.start) ++ scan.failures.map (·.offset)).Perm offsets :=
  ((h.entries.map _).append (h.failures.map _)).trans (covers_filterMap data offsets)

theorem describes (h : Holds data offsets scan) : Describes data offsets scan where
  covers := h.covers
  entry_iff offset listed := by
    rw [readable_iff]
    constructor
    · rintro ⟨e, member, rfl⟩
      exact ⟨e, (h.entry member).2⟩
    · rintro ⟨e, read⟩
      exact ⟨e, h.mem_entries listed read, (scriptAt_eq_ok read).1⟩
  failure_iff offset listed := by
    rw [not_readable_iff]
    constructor
    · rintro ⟨f, member, rfl⟩
      exact ⟨_, (h.failure member).2⟩
    · rintro ⟨m, failed⟩
      exact ⟨_, h.mem_failures listed failed, rfl⟩
  entry e member := by
    have read := (h.entry member).2
    have found := Entry.foundIn_of_scriptAt read
    obtain ⟨_, _, _, _, same⟩ := scriptAt_eq_ok_iff.mp read
    exact ⟨by rw [same], found.read, found.worldChar_iff⟩
  failure f member := (h.failure member).2

end Holds

/-! ## One result -/

/-- Offsets without a script are not so far apart that they cannot be compared. -/
def AreComparable (data : Bytes) (offsets : List Int) : Prop :=
  ∀ a ∈ offsets, ∀ b ∈ offsets, ¬ Readable data a → ¬ Readable data b → a - b < 0x8000000000000000

section Unique

variable {data : Bytes} {offsets : List Int} {scan result : EntryPointScan}

theorem Holds.near_entries (h : Holds data offsets scan) (size : data.size < 0x8000000000000000) :
    AreNear (scan.entries.map Entry.start) := by
  have inside : ∀ offset ∈ scan.entries.map Entry.start, 0 ≤ offset ∧ offset ≤ data.size := by
    intro offset listed
    obtain ⟨e, member, rfl⟩ := List.mem_map.mp listed
    have readable := readable_iff.mpr ⟨e, (h.entry member).2⟩
    exact ⟨readable.1, readable.2.1⟩
  intro a left b right
  have := inside a left
  have := inside b right
  omega

theorem Holds.near_failures (h : Holds data offsets scan) (comparable : AreComparable data offsets) :
    AreNear (scan.failures.map ScanFailure.offset) := by
  have failed : ∀ offset ∈ scan.failures.map ScanFailure.offset, offset ∈ offsets ∧ ¬ Readable data offset := by
    intro offset listed
    obtain ⟨f, member, rfl⟩ := List.mem_map.mp listed
    exact ⟨(h.failure member).1, not_readable_iff.mpr ⟨_, (h.failure member).2⟩⟩
  intro a left b right
  exact comparable a (failed a left).1 b (failed b right).1 (failed a left).2 (failed b right).2

variable (size : data.size < 0x8000000000000000) (comparable : AreComparable data offsets)

include size comparable

theorem SortsTo.isSorted (sorts : SortsTo scan result) (h : Holds data offsets scan) : result.IsSorted :=
  ⟨sorts.entries.sorted_of_near (h.near_entries size),
    sorts.failures.sorted_of_near (h.near_failures comparable)⟩

/-- Two scans that hold what belongs to the same offsets are sorted to the same result. -/
theorem SortsTo.unique {scan' result' : EntryPointScan} (sorts : SortsTo scan result)
    (sorts' : SortsTo scan' result') (h : Holds data offsets scan) (h' : Holds data offsets scan') :
    result = result' := by
  have holds := h.sorted sorts
  have holds' := h'.sorted sorts'
  have sorted := sorts.isSorted size comparable h
  have sorted' := sorts'.isSorted size comparable h'
  have entries : result.entries = result'.entries := by
    refine eq_of_sorted (fun e left e' right same => ?_) (holds.entries.trans holds'.entries.symm)
      sorted.entries sorted'.entries
    have read := (holds.entry left).2
    rw [same, (holds.entry right).2] at read
    exact (Except.ok.inj read).symm
  have failures : result.failures = result'.failures := by
    refine eq_of_sorted (fun f left f' right same => ?_) (holds.failures.trans holds'.failures.symm)
      sorted.failures sorted'.failures
    have failed := (holds.failure left).2
    rw [same, (holds.failure right).2] at failed
    cases f
    cases f'
    simp_all
  cases result
  cases result'
  simp_all

end Unique

/-! ## Workers -/

/-- An offset in flight: it is still being read, or its outcome waits to be added. -/
inductive Task where
  | reading (offset : Int)
  | read (offset : Int) (outcome : Except Mismatch Entry)

namespace Task

def offset : Task → Int
  | .reading offset | .read offset _ => offset

def isReading : Task → Bool
  | .reading _ => true
  | .read _ _ => false

end Task

/-- A scan under way. -/
structure Pool where
  /-- The offsets that no worker has taken, in order. -/
  waiting : List Int
  /-- What the workers are at. -/
  tasks : List Task
  /-- What was added, in the order in which it was. -/
  found : EntryPointScan

namespace Pool

/-- No worker has started. -/
def start (offsets : List Int) : Pool :=
  ⟨offsets, [], ⟨[], []⟩⟩

/-- Nothing is left to do. -/
def IsFinished (pool : Pool) : Prop :=
  pool.waiting = [] ∧ pool.tasks = []

end Pool

/-- A step of some worker. At most `workers` offsets are in flight, but there is always one worker. -/
inductive Step (data : Bytes) (workers : Int) : Pool → Pool → Prop where
  | take {offset : Int} {waiting : List Int} {tasks : List Task} {found : EntryPointScan}
      (free : tasks.length < max workers 1) :
      Step data workers ⟨offset :: waiting, tasks, found⟩ ⟨waiting, tasks ++ [.reading offset], found⟩
  | read {offset : Int} {waiting : List Int} {front back : List Task} {found : EntryPointScan} :
      Step data workers ⟨waiting, front ++ .reading offset :: back, found⟩
        ⟨waiting, front ++ .read offset (scriptAt data offset) :: back, found⟩
  | add {offset : Int} {outcome : Except Mismatch Entry} {waiting : List Int} {front back : List Task}
      {found : EntryPointScan} :
      Step data workers ⟨waiting, front ++ .read offset outcome :: back, found⟩
        ⟨waiting, front ++ back, found.add offset outcome⟩

/-- Steps one after the other. -/
inductive Runs (data : Bytes) (workers : Int) : Pool → Pool → Prop where
  | done (pool : Pool) : Runs data workers pool pool
  | step {before middle after : Pool} (first : Step data workers before middle)
      (rest : Runs data workers middle after) : Runs data workers before after

/-- A scan of the offsets may return the result: some run adds everything, and the result is sorted
    from that. -/
def Returns (data : Bytes) (workers : Int) (offsets : List Int) (result : EntryPointScan) : Prop :=
  ∃ pool, Runs data workers (.start offsets) pool ∧ pool.IsFinished ∧ SortsTo pool.found result

/-- What holds of a scan under way: each offset waits, is in flight or has its outcome added, no more are
    in flight than may be, and outcomes are those of their offsets. -/
structure Keeps (data : Bytes) (workers : Int) (offsets : List Int) (pool : Pool) : Prop where
  covers : ∃ added, Holds data added pool.found ∧
    (pool.waiting ++ pool.tasks.map Task.offset ++ added).Perm offsets
  bounded : pool.tasks.length ≤ max workers 1
  true_outcomes : ∀ offset outcome, .read offset outcome ∈ pool.tasks → outcome = scriptAt data offset

section Run

variable {data : Bytes} {workers : Int} {offsets : List Int}

theorem keeps_start : Keeps data workers offsets (.start offsets) where
  covers := ⟨[], .nil, by simp [Pool.start]⟩
  bounded := by simp only [Pool.start, List.length_nil]; omega
  true_outcomes := nofun

theorem Step.keeps {before after : Pool} (step : Step data workers before after)
    (h : Keeps data workers offsets before) : Keeps data workers offsets after := by
  obtain ⟨⟨added, held, same⟩, bounded, outcomes⟩ := h
  cases step with
  | @take offset waiting tasks found free =>
      refine ⟨⟨added, held, .trans ?_ same⟩, ?_, fun o outcome member => ?_⟩
      · simp only [List.map_append, List.map_cons, List.map_nil, Task.offset]
        grind
      · simp only [List.length_append, List.length_singleton]
        omega
      · exact outcomes o outcome (by simpa using member)
  | @read offset waiting front back found =>
      refine ⟨⟨added, held, by simpa [Task.offset] using same⟩, by simpa using bounded, ?_⟩
      intro o outcome member
      simp only [List.mem_append, List.mem_cons, Task.read.injEq] at member
      rcases member with inFront | ⟨rfl, rfl⟩ | inBack
      · exact outcomes o outcome (by simp [inFront])
      · rfl
      · exact outcomes o outcome (by simp [inBack])
  | @add offset outcome waiting front back found =>
      obtain rfl := outcomes offset outcome (by simp)
      refine ⟨⟨offset :: added, held.add offset, .trans ?_ same⟩, ?_, fun o outcome member => ?_⟩
      · simp only [List.map_append, List.map_cons, Task.offset]
        grind
      · simp only [List.length_append, List.length_cons] at bounded ⊢
        omega
      · refine outcomes o outcome ?_
        rw [List.mem_append] at member ⊢
        exact member.imp_right (List.mem_cons_of_mem _)

theorem Runs.keeps {before after : Pool} (run : Runs data workers before after)
    (h : Keeps data workers offsets before) : Keeps data workers offsets after := by
  induction run with
  | done => exact h
  | step first _ ih => exact ih (first.keeps h)

/-- The steps that are left at the most: three for each offset that waits. -/
def Pool.work (pool : Pool) : Nat :=
  3 * pool.waiting.length + pool.tasks.length + pool.tasks.countP Task.isReading

theorem Step.work_lt {before after : Pool} (step : Step data workers before after) :
    after.work < before.work := by
  cases step with
  | take =>
      simp only [Pool.work, List.length_append, List.length_cons, List.length_nil, List.countP_append,
        List.countP_cons, List.countP_nil, Task.isReading, if_true]
      omega
  | read =>
      simp only [Pool.work, List.length_append, List.length_cons, List.countP_append, List.countP_cons,
        Task.isReading, if_true, Bool.false_eq_true, if_false]
      omega
  | add =>
      simp only [Pool.work, List.length_append, List.length_cons, List.countP_append, List.countP_cons]
      omega

/-- A scan that is not finished has a step to take: some task goes on, or a worker is free. -/
theorem Pool.exists_step {pool : Pool} (more : ¬ pool.IsFinished) :
    ∃ after, Step data workers pool after := by
  obtain ⟨waiting, tasks, found⟩ := pool
  cases tasks with
  | cons task tasks =>
      cases task with
      | reading offset => exact ⟨_, @Step.read _ _ offset waiting [] tasks found⟩
      | read offset outcome => exact ⟨_, @Step.add _ _ offset outcome waiting [] tasks found⟩
  | nil =>
      cases waiting with
      | nil => exact absurd ⟨rfl, rfl⟩ more
      | cons offset waiting =>
          exact ⟨_, .take (by simp only [List.length_nil]; omega)⟩

/-- Every scan under way can be finished. -/
theorem Pool.exists_finished (pool : Pool) :
    ∃ after, Runs data workers pool after ∧ after.IsFinished := by
  induction left : pool.work using Nat.strongRecOn generalizing pool with
  | _ n ih =>
      by_cases finished : pool.IsFinished
      · exact ⟨pool, .done pool, finished⟩
      · obtain ⟨next, step⟩ := @exists_step data workers pool finished
        obtain ⟨after, run, finished⟩ := ih _ (left ▸ step.work_lt) next rfl
        exact ⟨after, .step step run, finished⟩

theorem Runs.holds {pool : Pool} (run : Runs data workers (.start offsets) pool)
    (finished : pool.IsFinished) : Holds data offsets pool.found := by
  obtain ⟨added, held, same⟩ := (run.keeps keeps_start).covers
  rw [finished.1, finished.2] at same
  exact held.of_perm (by simpa using same)

theorem Returns.holds {result : EntryPointScan} (returned : Returns data workers offsets result) :
    Holds data offsets result := by
  obtain ⟨pool, run, finished, sorts⟩ := returned
  exact (run.holds finished).sorted sorts

theorem returns_iff (size : data.size < 0x8000000000000000) (comparable : AreComparable data offsets)
    {result : EntryPointScan} :
    Returns data workers offsets result ↔ result = ofOffsets data offsets := by
  have expected := holds_collect data offsets
  constructor
  · intro returned
    obtain ⟨pool, run, finished, sorts⟩ := returned
    exact sorts.unique size comparable (sortsTo_sorted _) (run.holds finished) expected
  · rintro rfl
    obtain ⟨pool, run, finished⟩ := @Pool.exists_finished data workers (.start offsets)
    refine ⟨pool, run, finished, ?_⟩
    have sorts := sortsTo_sorted pool.found
    rwa [sorts.unique size comparable (sortsTo_sorted _) (run.holds finished) expected] at sorts

end Run

/-- Two offsets without a script come out in the wrong order if they cannot be compared. -/
theorem not_isSorted_of_far {data : Bytes} {a b : Int} (failed : ¬ Readable data a) (failed' : ¬ Readable data b)
    (far : 0x8000000000000000 ≤ b - a) (close : b - a < 0x10000000000000000) :
    ¬ (ofOffsets data [a, b]).IsSorted := by
  obtain ⟨m, failed⟩ := not_readable_iff.mp failed
  obtain ⟨m', failed'⟩ := not_readable_iff.mp failed'
  have collected : collect data [a, b] = ⟨[], [⟨b, m'⟩, ⟨a, m⟩]⟩ := by
    simp only [collect, List.foldl_cons, List.foldl_nil, failed, failed', add]
  intro sorted
  have rising := sorted.failures
  rw [ofOffsets, collected, EntryPointScan.sorted, sortBy_of_far far close] at rising
  have ordered := List.rel_of_pairwise_cons rising List.mem_cons_self
  dsimp only at ordered
  omega

/-- Every order in which workers take, read and add offsets comes to an end, and has then added what belongs to
    the offsets. If those without a script can be compared, then all orders lead to one sorted result, which
    depends neither on the number of workers nor on the order of the offsets. Two that cannot be compared come out
    in the wrong order. -/
theorem schedule_independent (data : Bytes) (offsets : List Int) (size : data.size < 0x8000000000000000) :
    (∀ workers, (WellFounded fun after before => Step data workers before after) ∧
      ∀ pool, Runs data workers (.start offsets) pool →
        pool.tasks.length ≤ max workers 1 ∧
        (pool.IsFinished ∨ ∃ after, Step data workers pool after)) ∧
    (∀ workers r, Returns data workers offsets r → Describes data offsets r) ∧
    (AreComparable data offsets →
      ∃ result, ofOffsets? false data offsets = some result ∧ result.IsSorted ∧ Describes data offsets result ∧
        ∀ workers others, others.Perm offsets → ∀ r, Returns data workers others r ↔ r = result) ∧
    ∀ a b, ¬ Readable data a → ¬ Readable data b → 0x8000000000000000 ≤ b - a → b - a < 0x10000000000000000 →
      ¬ (ofOffsets data [a, b]).IsSorted := by
  refine ⟨fun workers => ⟨?_, fun pool run => ⟨(run.keeps keeps_start).bounded, ?_⟩⟩,
    fun workers r returned => returned.holds.describes, fun comparable => ?_, fun a b => not_isSorted_of_far⟩
  · exact Subrelation.wf Step.work_lt (measure Pool.work).wf
  · by_cases finished : pool.IsFinished
    · exact .inl finished
    · exact .inr (Pool.exists_step finished)
  · refine ⟨ofOffsets data offsets, rfl, (sortsTo_sorted _).isSorted size comparable (holds_collect data offsets),
      (holds_ofOffsets data offsets).describes, fun workers others same r => ?_⟩
    have comparable' : AreComparable data others := fun a left b right =>
      comparable a (same.mem_iff.mp left) b (same.mem_iff.mp right)
    have reordered : ofOffsets data others = ofOffsets data offsets :=
      (sortsTo_sorted _).unique size comparable (sortsTo_sorted _) ((holds_collect data others).of_perm same)
        (holds_collect data offsets)
    rw [returns_iff size comparable', reordered]

/-- Two workers on five offsets: a field script, a world-map script that is asked for twice, and offsets in
    front of the stream and behind it. -/
theorem schedule_independent_two_workers :
    let data : Bytes := #[0x49, 0xfe, 0xd0, 0xff]
    let result : EntryPointScan :=
      ⟨[⟨0, 0, 2, .field [.dialogWait]⟩, ⟨2, 2, 4, .worldChar [.showCharacter]⟩,
          ⟨2, 2, 4, .worldChar [.showCharacter]⟩],
        [⟨-1, -1, .outside (-1) 4, .outside (-1) 4⟩, ⟨4, 4, .truncated 1 4 0, .truncated 1 4 0⟩]⟩
    [2, -1, 0, 4, 2].Perm [-1, 0, 2, 2, 4] ∧ Describes data [-1, 0, 2, 2, 4] result ∧
      ∀ r, Returns data 2 [2, -1, 0, 4, 2] r ↔ r = result := by
  intro data result
  have reordered : List.Perm [2, -1, 0, 4, 2] [-1, 0, 2, 2, 4] := by decide
  have comparable : AreComparable data [-1, 0, 2, 2, 4] := by
    have near : ∀ a ∈ [-1, 0, 2, 2, 4], ∀ b ∈ [-1, 0, 2, 2, 4], a - b < (0x8000000000000000 : Int) := by decide
    exact fun a left b right _ _ => near a left b right
  obtain ⟨r, same, _, described, returned⟩ :=
    (schedule_independent data [-1, 0, 2, 2, 4] (by decide)).2.2.1 comparable
  obtain rfl : result = r := by
    have sorted : ofOffsets data [-1, 0, 2, 2, 4] = result := by decide +kernel
    exact sorted.symm.trans (Option.some.inj same)
  exact ⟨reordered, described, returned 2 _ reordered⟩

/-- Two offsets that lie as far apart as 64 bits allow, on an empty stream: in whichever order they are given,
    they come out in the other one. -/
theorem ofOffsets_of_far :
    (ofOffsets #[] [-0x8000000000000000, 0]).failures.map (·.offset) = [0, -0x8000000000000000] ∧
      (ofOffsets #[] [0, -0x8000000000000000]).failures.map (·.offset) = [-0x8000000000000000, 0] := by
  decide +kernel

end EntryPointScan

/-! ## Regions and entry points -/

theorem Scans.foundIn {data : Bytes} {offset : Int} {r : ScanResult} (run : Scans data offset r) :
    ∀ e ∈ r.entries, e.FoundIn data := by
  induction run with
  | finished | stuck => exact nofun
  | found _ read _ ih => exact List.forall_mem_cons.mpr ⟨Entry.foundIn_of_scriptAt read, ih⟩

/-- An entry of a scan is what is found at its start. -/
theorem Entry.FoundIn.scriptAt_start {data : Bytes} {e : Entry} (h : e.FoundIn data) :
    scriptAt data e.start = .ok { e with offset := e.start } := by
  refine scriptAt_eq_ok_iff.mpr ⟨e.events, e.stop, h.read, fun isField fits => ?_, rfl⟩
  have isWorldChar : e.events.dialect = .worldChar := h.worldChar_iff.mpr fits
  cases isField.symm.trans isWorldChar

/-- A script in a region is the one that is found in the whole image at its start, unless that one goes on
    behind the region; it is only kept under another offset. Where nothing is found in the whole image, no
    region has a script. -/
theorem regionEntry_eq_entryPoint (rom : Bytes) (offsets : List Int) (result : EntryPointScan)
    (scanned : EntryPointScan.ofOffsets? false rom offsets = some result) (start stop : Int) (e : Entry)
    (listed : e ∈ (scanFrom (rom.extract 0 stop.toNat) start).entries) :
    (∀ f ∈ result.entries, f.start = e.start → f.stop ≤ stop →
      f.stop = e.stop ∧ f.dialect = e.dialect ∧ f.events = e.events ∧
        e.offset = e.stop ∧ f.offset = e.start) ∧
    ∀ failure ∈ result.failures, failure.offset ≠ e.start := by
  have found := (scans_scanFrom (rom.extract 0 stop.toNat) start).foundIn e listed
  have holds := EntryPointScan.holds_ofOffsets rom offsets
  obtain rfl : EntryPointScan.ofOffsets rom offsets = result := Option.some.inj scanned
  constructor
  · intro f member same before
    have whole := (holds.entry member).2
    have inRegion := scriptAt_cut whole (show f.stop ≤ stop.toNat by omega)
    rw [same, found.scriptAt_start] at inRegion
    cases inRegion
    exact ⟨rfl, rfl, rfl, found.kept, rfl⟩
  · intro failure member same
    have failed := (holds.failure member).2
    have fits : e.dialect.Fits rom e.start := ⟨e.events, e.stop, found.read_whole⟩
    have inside := Dialect.script_eq_ok found.read_whole
    obtain ⟨f, read⟩ := EntryPointScan.readable_iff.mp ⟨found.nonneg, by omega, e.dialect, fits⟩
    rw [same, read] at failed
    cases failed

/-- A field script at the start of a region, read from the region and as an entry point. At the byte in front
    of the region there is no script in the whole image. -/
theorem regionEntry_eq_entryPoint_dialog :
    let rom : Bytes := #[0x00, 0x49, 0xfe, 0xd0, 0xff, 0xb2, 0x10, 0x20, 0x30, 0xfe]
    let e : Entry := ⟨3, 1, 3, .field [.dialogWait]⟩
    let f : Entry := ⟨1, 1, 3, .field [.dialogWait]⟩
    let failure : ScanFailure := ⟨0, 0, .unrecognized 0xfe 2, .unrecognized 0x00 0⟩
    let result := EntryPointScan.ofOffsets rom [5, 0, 1]
    e ∈ (scanFrom (rom.extract 0 6) 1).entries ∧ f ∈ result.entries ∧ failure ∈ result.failures ∧
      (f.stop = e.stop ∧ f.dialect = e.dialect ∧ f.events = e.events ∧
        e.offset = e.stop ∧ f.offset = e.start) ∧ failure.offset ≠ e.start := by
  intro rom e f failure result
  have holds := EntryPointScan.holds_ofOffsets rom [5, 0, 1]
  have inRegion : e ∈ (scanFrom (rom.extract 0 6) 1).entries := by decide +kernel
  have read : scriptAt rom 1 = .ok f := by with_unfolding_all rfl
  have failed : scriptAt rom 0 = .error failure.mismatch := by with_unfolding_all rfl
  have atEntryPoint := holds.mem_entries (by decide) read
  have noEntry := holds.mem_failures (by decide) failed
  have agree := regionEntry_eq_entryPoint rom [5, 0, 1] result rfl 1 6 e inRegion
  exact ⟨inRegion, atEntryPoint, noEntry, agree.1 f atEntryPoint rfl (by decide), agree.2 _ noEntry⟩

end EventScript
