import EventScript.Proofs.FailureKinds
import EventScript.Proofs.ScanTiling

/-! # Scans of parts of a stream

A script that is found in a stream is found in every part of the stream that reaches up to its end. The
other way round, bytes behind a stream can turn a field script into a longer script of the world-map
dialect, but only where the world-map dialect had run out of bytes. Where it had not, scans of two streams
make up the scan of one stream behind the other. Bytes in front of a stream never matter.
-/

namespace EventScript

/-! ## Results further on in a stream -/

/-- The entry with `distance` more bytes in front of the stream. -/
def Entry.moved (distance : Nat) (e : Entry) : Entry :=
  ⟨e.offset + distance, e.start + distance, e.stop + distance, e.events⟩

@[simp] theorem Entry.moved_zero (e : Entry) : e.moved 0 = e := by
  simp [moved]

/-- The mismatch with `distance` more bytes in front of the stream. -/
def Mismatch.moved (distance : Nat) (m : Mismatch) : Mismatch :=
  ⟨m.offset + distance, m.worldChar.moved distance, m.field.moved distance⟩

/-- The result with `distance` more bytes in front of the stream. -/
def ScanResult.moved (distance : Nat) (r : ScanResult) : ScanResult :=
  ⟨r.entries.map (·.moved distance), r.remaining, r.mismatch.map (·.moved distance)⟩

/-! ## One step -/

section Step

variable {data whole : Bytes} {distance : Nat} {offset : Int}

theorem Dialect.error_of_not_fits {dialect : Dialect} (h : ¬ dialect.Fits data offset) :
    ∃ e stop, dialect.script data offset = .error e stop := by
  cases outcome : dialect.script data offset with
  | ok events next => exact absurd ⟨events, next, outcome⟩ h
  | error e stop => exact ⟨e, stop, rfl⟩

/-- What a step finds it also finds in a longer stream, if it tried no other dialect before that lacked
    bytes. -/
theorem scriptAt_transfer {entry : Entry} (held : StandsIn data whole distance) (low : 0 ≤ offset)
    (found : scriptAt data offset = .ok entry)
    (enough : whole.size = data.size + distance ∨ (entry.dialect = .field →
      ¬ Outcome.IsTruncated (Dialect.worldChar.script data offset))) :
    scriptAt whole (offset + distance) = .ok (entry.moved distance) := by
  obtain ⟨events, next, read, unlike, rfl⟩ := scriptAt_eq_ok_iff.mp found
  have same := events.dialect.steady_script.transfer_of_ok held low read
  refine scriptAt_eq_ok_iff.mpr ⟨events, next + distance, same, fun isField fits => ?_, rfl⟩
  obtain ⟨e, stop, failed⟩ := Dialect.error_of_not_fits (unlike isField)
  obtain ⟨events', next', read'⟩ := fits
  have failed' := Dialect.worldChar.steady_script.transfer held low (enough.imp_right (· isField))
  rw [failed] at failed'
  cases failed'.symm.trans read'

theorem scriptAt_transfer_error {m : Mismatch} (held : StandsIn data whole distance)
    (sameEnd : whole.size = data.size + distance) (low : 0 ≤ offset) (high : offset ≤ data.size)
    (failed : scriptAt data offset = .error m) :
    scriptAt whole (offset + distance) = .error (m.moved distance) := by
  obtain ⟨rfl, ⟨stop, worldChar⟩, stop', field⟩ := scriptAt_eq_error low high failed
  have worldChar' := Dialect.worldChar.steady_script.transfer held low (.inl sameEnd)
  have field' := Dialect.field.steady_script.transfer held low (.inl sameEnd)
  rw [worldChar] at worldChar'
  rw [field] at field'
  rw [scriptAt, if_neg (by omega), worldChar', field']
  rfl

/-- A script that ends before a cut is found in what is left of the stream. -/
theorem scriptAt_cut {entry : Entry} {n : Nat} (found : scriptAt data offset = .ok entry)
    (before : entry.stop ≤ n) : scriptAt (data.extract 0 n) offset = .ok entry := by
  obtain ⟨events, next, read, unlike, rfl⟩ := scriptAt_eq_ok_iff.mp found
  obtain ⟨bytes, spelled, spans⟩ := (Dialect.reads_script _ _ _ _).mp read
  have low := (Dialect.script_spans read).1
  have read' := (Dialect.reads_script _ _ _ _).mpr ⟨bytes, spelled, spans.cut before⟩
  refine scriptAt_eq_ok_iff.mpr ⟨events, next, read', fun isField fits => unlike isField ?_, rfl⟩
  -- A world-map script in what is left would be one in the whole stream.
  obtain ⟨events', next', other⟩ := fits
  have read'' := Dialect.worldChar.steady_script.transfer_of_ok (.cut data n) low other
  exact ⟨events', next', by simpa using read''⟩

/-- A script that was found in the stream up to a cut stands in the whole stream. -/
theorem Entry.FoundIn.read_whole {e : Entry} {n : Nat} (h : e.FoundIn (data.extract 0 n)) :
    e.dialect.script data e.start = .ok e.events e.stop := by
  simpa using e.dialect.steady_script.transfer_of_ok (.cut data n) h.nonneg h.read

end Step

/-! ## Runs -/

theorem Scans.moved {data whole : Bytes} {distance : Nat} {offset : Int} {r : ScanResult}
    (run : Scans data offset r) (held : StandsIn data whole distance)
    (sameEnd : whole.size = data.size + distance) (low : 0 ≤ offset) :
    Scans whole (offset + distance) (r.moved distance) := by
  induction run with
  | finished atEnd => exact .finished (by omega)
  | @stuck offset m inside failed =>
      have failed' := scriptAt_transfer_error held sameEnd low (by omega) failed
      have run := Scans.stuck (by omega) failed'
      rw [show (whole.size : Int) - (offset + distance) = data.size - offset by omega] at run
      exact run
  | found inside read _ ih =>
      have moved := scriptAt_eq_ok read
      have read' := scriptAt_transfer held low read (.inl sameEnd)
      exact .found (by omega) read' (ih (by omega))

/-- The run on one stream behind another goes on where the run on the first stream is finished. -/
theorem Scans.append {a b : Bytes} {offset : Int} {r rest : ScanResult} (run : Scans a offset r)
    (low : 0 ≤ offset) (high : offset ≤ a.size) (complete : r.remaining = 0)
    (decided : ∀ e ∈ r.entries, e.dialect = .field →
      ¬ Outcome.IsTruncated (Dialect.worldChar.script a e.start))
    (run' : Scans (a ++ b) a.size rest) :
    Scans (a ++ b) offset ⟨r.entries ++ rest.entries, rest.remaining, rest.mismatch⟩ := by
  induction run with
  | @finished offset atEnd =>
      obtain rfl : offset = a.size := by omega
      exact run'
  | stuck inside _ =>
      simp only at complete
      omega
  | @found offset entry r inside read _ ih =>
      have moved := scriptAt_eq_ok read
      obtain ⟨decidedHere, decided⟩ := List.forall_mem_cons.mp decided
      have more := ih (by omega) moved.2.2 complete decided
      have read' := scriptAt_transfer (.front a b) low read (.inr fun isField => by
        simpa only [moved.1] using decidedHere isField)
      rw [Int.natCast_zero, Int.add_zero, Entry.moved_zero] at read'
      exact .found (by simp; omega) read' more

theorem Scans.cut {data : Bytes} {n : Nat} {offset : Int} {r r' : ScanResult}
    (run : Scans data offset r) (run' : Scans (data.extract 0 n) offset r') :
    r.entries.takeWhile (fun e => e.stop ≤ (n : Int)) <+: r'.entries := by
  induction run generalizing r' with
  | finished | stuck => exact List.nil_prefix
  | @found offset entry r inside read _ ih =>
      by_cases before : entry.stop ≤ n
      · have read' := scriptAt_cut read before
        have moved := scriptAt_eq_ok read'
        rw [List.takeWhile_cons_of_pos (by simpa using before)]
        cases run' with
        | finished atEnd => omega
        | stuck _ failed => cases failed.symm.trans read'
        | found _ again rest =>
            cases again.symm.trans read'
            exact List.cons_prefix_cons.mpr ⟨rfl, ih rest⟩
      · rw [List.takeWhile_cons_of_neg (by simpa using before)]
        exact List.nil_prefix

/-- The entries that end before a cut, up to the first that does not, are those with which the scan of
    what is left starts. -/
theorem takeWhile_scanFrom_prefix_cut (data : Bytes) (n : Nat) (start : Int) :
    (scanFrom data start).entries.takeWhile (fun e => e.stop ≤ (n : Int)) <+:
      (scanFrom (data.extract 0 n) start).entries :=
  (scans_scanFrom data start).cut (scans_scanFrom _ start)

/-- If the first stream is read to its end, and none of its field scripts was found because the world-map
    dialect had run out of bytes, the scan of both streams finds the scripts of the first and then what
    the scan of the second finds, further on by the size of the first. -/
theorem scanFrom_append (a b : Bytes) (complete : (scanFrom a 0).isComplete)
    (decided : ∀ e ∈ (scanFrom a 0).entries, e.dialect = .field →
      ∃ tag place stop, Dialect.worldChar.script a e.start = .error (.unrecognized tag place) stop) :
    scanFrom (a ++ b) 0 =
      ⟨(scanFrom a 0).entries ++ (scanFrom b 0).entries.map (·.moved a.size), (scanFrom b 0).remaining,
        (scanFrom b 0).mismatch.map (·.moved a.size)⟩ := by
  have first := scans_scanFrom a 0
  have second := (scans_scanFrom b 0).moved (.back a b) (by simp [Nat.add_comm]) (by simp)
  have whole : ∀ e ∈ (scanFrom a 0).entries, e.dialect = .field →
      ¬ Outcome.IsTruncated (Dialect.worldChar.script a e.start) := by
    intro e member isField
    obtain ⟨tag, place, stop, failed⟩ := decided e member isField
    rw [failed]
    exact id
  rw [show max (0 : Int) 0 + a.size = a.size by omega] at second
  have both := first.append (by simp) (by simp) (by simpa [ScanResult.isComplete] using complete) whole second
  exact (scans_scanFrom (a ++ b) 0).unique both

/-- A field script, and behind it a world-map script and a tag that both dialects know but cannot read. -/
theorem scanFrom_append_cut_call :
    let a : Bytes := #[0x49, 0xfe]
    let b : Bytes := #[0xd0, 0xff, 0xb2]
    (scanFrom a 0).isComplete ∧
      Dialect.worldChar.script a 0 = .error (.unrecognized 0xfe 1) 1 ∧
      scanFrom (a ++ b) 0 =
        ⟨[⟨2, 0, 2, .field [.dialogWait]⟩, ⟨4, 2, 4, .worldChar [.showCharacter]⟩], 1,
          some ⟨4, .truncated 2 5 0, .truncated 3 5 0⟩⟩ := by
  intro a b
  have first : scanFrom a 0 = ⟨[⟨2, 0, 2, .field [.dialogWait]⟩], 0, none⟩ := by decide +kernel
  have second : scanFrom b 0 = ⟨[⟨2, 0, 2, .worldChar [.showCharacter]⟩], 1,
      some ⟨2, .truncated 2 3 0, .truncated 3 3 0⟩⟩ := by decide +kernel
  have unknown : Dialect.worldChar.script a 0 = .error (.unrecognized 0xfe 1) 1 := by
    with_unfolding_all rfl
  have complete : (scanFrom a 0).isComplete := by rw [first]; rfl
  refine ⟨complete, unknown, ?_⟩
  rw [scanFrom_append a b complete (by
    rw [first]
    exact List.forall_mem_singleton.mpr fun _ => ⟨_, _, _, unknown⟩), first, second]
  rfl

/-- A scan that starts behind other bytes finds what it finds without them. Entries, the mismatch and both its
    causes are further on by the number of these bytes, and all else is the same. -/
theorem scanFrom_behind (front data : Bytes) (start : Nat) :
    scanFrom (front ++ data) (front.size + start) =
      ⟨(scanFrom data start).entries.map (·.moved front.size), (scanFrom data start).remaining,
        (scanFrom data start).mismatch.map (·.moved front.size)⟩ := by
  have sameEnd : (front ++ data).size = data.size + front.size := by
    rw [Array.size_append, Nat.add_comm]
  have run := (scans_scanFrom data start).moved (.back front data) sameEnd (by omega)
  rw [show max (start : Int) 0 + front.size = max (front.size + start : Int) 0 by omega] at run
  exact (scans_scanFrom (front ++ data) (front.size + start)).unique run

end EventScript
