import EventScript.Proofs.ScanTiling

/-! # Entries by their offsets

A scan keeps its entries in a list, and notes under the offset of each one its position in the list. A later
entry with the same offset would hide an earlier one. That never happens: a scan moves on with every entry, and
the offset of an entry is the one where it ends.
-/

namespace EventScript

/-! ## Noted positions -/

/-- Under each offset the position of the entry with this offset is noted, and nothing else. -/
def Locates (noted : List (Int × Nat)) (entries : List Entry) : Prop :=
  ∀ k i, noted.lookup k = some i ↔ ∃ e, entries[i]? = some e ∧ e.offset = k

/-- The entries have different offsets. -/
def AreDistinct (entries : List Entry) : Prop :=
  entries.Pairwise fun a b => a.offset ≠ b.offset

namespace Locates

variable {noted : List (Int × Nat)} {entries : List Entry}

theorem nil : Locates [] [] := by
  simp [Locates]

/-- Noting one more entry hides none, if no entry before has its offset. -/
theorem add {e : Entry} (h : Locates noted entries) (fresh : ∀ a ∈ entries, a.offset ≠ e.offset) :
    Locates ((e.offset, entries.length) :: noted) (entries ++ [e]) := by
  intro k i
  rw [List.lookup_cons, List.getElem?_append]
  by_cases here : k = e.offset
  · subst here
    simp only [BEq.rfl, Option.some.injEq]
    constructor
    · rintro rfl
      exact ⟨e, by simp, rfl⟩
    · rintro ⟨a, listed, same⟩
      split at listed
      · exact absurd same (fresh a (List.mem_of_getElem? listed))
      · have := (List.getElem?_eq_some_iff.mp listed).1
        simp only [List.length_singleton] at this
        omega
  · rw [beq_false_of_ne here]
    simp only [h k i]
    constructor
    · rintro ⟨a, listed, same⟩
      have inside := (List.getElem?_eq_some_iff.mp listed).1
      exact ⟨a, by rwa [if_pos inside], same⟩
    · rintro ⟨a, listed, same⟩
      split at listed
      · exact ⟨a, listed, same⟩
      · obtain rfl := List.mem_singleton.mp (List.mem_of_getElem? listed)
        exact absurd same.symm here

/-- The entries that come later are noted one by one, each with the position that it gets in the list. -/
theorem indexFrom {more : List Entry} (h : Locates noted entries) (distinct : AreDistinct (entries ++ more)) :
    Locates (ScanResult.indexFrom entries.length noted more) (entries ++ more) := by
  induction more generalizing noted entries with
  | nil => rwa [List.append_nil]
  | cons e more ih =>
      have fresh : ∀ a ∈ entries, a.offset ≠ e.offset := fun a listed =>
        (List.pairwise_append.mp distinct).2.2 a listed e List.mem_cons_self
      rw [List.append_cons] at distinct ⊢
      have located := ih (h.add fresh) distinct
      rwa [List.length_append] at located

/-- No two positions are noted under one offset. -/
theorem eq_of_offset_eq {i j : Nat} {a b : Entry} (h : Locates noted entries) (here : entries[i]? = some a)
    (there : entries[j]? = some b) (same : a.offset = b.offset) : i = j := by
  have first := (h b.offset i).mpr ⟨a, here, same⟩
  have second := (h b.offset j).mpr ⟨b, there, rfl⟩
  exact Option.some.inj (first.symm.trans second)

end Locates

theorem ScanResult.locates_index {r : ScanResult} (distinct : AreDistinct r.entries) :
    Locates r.index r.entries :=
  Locates.nil.indexFrom distinct

theorem ScanResult.get?_eq_some_iff {r : ScanResult} (distinct : AreDistinct r.entries) {k : Int} {e : Entry} :
    r.get? k = some e ↔ e ∈ r.entries ∧ e.offset = k := by
  have located := locates_index distinct
  simp only [get?, Option.bind_eq_bind, Option.bind_eq_some_iff]
  constructor
  · rintro ⟨i, noted, listed⟩
    obtain ⟨a, listed', same⟩ := (located k i).mp noted
    cases listed.symm.trans listed'
    exact ⟨List.mem_of_getElem? listed, same⟩
  · rintro ⟨member, same⟩
    obtain ⟨i, listed⟩ := List.mem_iff_getElem?.mp member
    exact ⟨i, (located k i).mpr ⟨e, listed, same⟩, listed⟩

/-! ## Offsets along a scan -/

/-- A scan keeps each entry under the offset behind it, and these offsets rise from the start on. -/
theorem Scans.rising {data : Bytes} {offset : Int} {r : ScanResult} (run : Scans data offset r) :
    (∀ e ∈ r.entries, e.offset = e.stop ∧ offset < e.stop) ∧
      r.entries.Pairwise fun a b => a.offset < b.offset := by
  induction run with
  | finished | stuck => exact ⟨by simp, .nil⟩
  | @found offset entry r inside read rest ih =>
      have moved := scriptAt_eq_ok read
      obtain ⟨behind, rising⟩ := ih
      refine ⟨List.forall_mem_cons.mpr ⟨⟨rfl, moved.2.1⟩, fun e listed => ?_⟩, .cons (fun e listed => ?_) rising⟩
      · have further := behind e listed
        exact ⟨further.1, Int.lt_trans moved.2.1 further.2⟩
      · have further := behind e listed
        rw [further.1]
        exact further.2

/-- What a look-up by offset finds. -/
structure ScanResult.FindsByStop (r : ScanResult) : Prop where
  found_iff : ∀ k e, r.get? k = some e ↔ e ∈ r.entries ∧ e.stop = k
  /-- No two entries of the list end at the same offset. -/
  unique : ∀ (i j : Nat) (a b : Entry), r.entries[i]? = some a → r.entries[j]? = some b →
    a.stop = b.stop → i = j
  absent : ∀ k, (∀ e ∈ r.entries, e.stop ≠ k) → r.get? k = none

theorem Scans.findsByStop {data : Bytes} {offset : Int} {r : ScanResult} (run : Scans data offset r) :
    r.FindsByStop := by
  obtain ⟨kept, rising⟩ := run.rising
  have distinct : AreDistinct r.entries := rising.imp Int.ne_of_lt
  have found_iff : ∀ k e, r.get? k = some e ↔ e ∈ r.entries ∧ e.stop = k := by
    intro k e
    rw [ScanResult.get?_eq_some_iff distinct]
    exact and_congr_right fun member => by rw [(kept e member).1]
  refine ⟨found_iff, fun i j a b here there same => ?_, fun k other => ?_⟩
  · rw [← (kept a (List.mem_of_getElem? here)).1, ← (kept b (List.mem_of_getElem? there)).1] at same
    exact (ScanResult.locates_index distinct).eq_of_offset_eq here there same
  · refine Option.eq_none_iff_forall_ne_some.mpr fun e found => ?_
    obtain ⟨member, same⟩ := (found_iff k e).mp found
    exact other e member same

/-- A look-up in the result of a scan finds the one entry that ends at the offset, and nothing where no entry
    ends, such as at the start of the scan or before it. -/
theorem scanFrom_finds_by_stop (data : Bytes) (start : Int) :
    (scanFrom data start).FindsByStop ∧ ∀ k ≤ max start 0, (scanFrom data start).get? k = none := by
  have run := scans_scanFrom data start
  refine ⟨run.findsByStop, fun k early => run.findsByStop.absent k fun e listed same => ?_⟩
  have behind := (run.rising.1 e listed).2
  omega

/-- A field script and a world-map script behind a byte that belongs to neither, each found where it ends. -/
theorem scanFrom_finds_by_stop_two :
    let data : Bytes := #[0xfc, 0x4b, 0x85, 0x0b, 0xfe, 0xd0, 0xff]
    let r := scanFrom data 1
    let dialog : Entry := ⟨5, 1, 5, .field [.dialog 0x0b85 true]⟩
    let shown : Entry := ⟨7, 5, 7, .worldChar [.showCharacter]⟩
    r.get? 5 = some dialog ∧ r.get? 7 = some shown ∧ r.get? 6 = none ∧ r.get? 1 = none := by
  intro data r dialog shown
  obtain ⟨finds, early⟩ := scanFrom_finds_by_stop data 1
  have entries : r.entries = [dialog, shown] := by decide +kernel
  have others : ∀ e ∈ r.entries, e.stop ≠ 6 := by
    rw [entries]
    exact List.forall_mem_cons.mpr ⟨by decide, List.forall_mem_singleton.mpr (by decide)⟩
  refine ⟨(finds.found_iff 5 dialog).mpr ⟨?_, rfl⟩, (finds.found_iff 7 shown).mpr ⟨?_, rfl⟩,
    finds.absent 6 others, early 1 (by decide)⟩
  · exact entries ▸ List.mem_cons_self
  · exact entries ▸ List.mem_cons_of_mem _ List.mem_cons_self

end EventScript
