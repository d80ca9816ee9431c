import EventScript.Proofs.ListingLines

/-! # Listings of regions

The listing of a region shows every byte of the region once. Scripts are read a second time for it, in the
whole stream and not in the part that was scanned, so it rests on scripts being the same in both. What the
scan left over follows line by line.
-/

namespace EventScript

theorem Tiling.lists_region {rom : Bytes} {start stop : Nat} {r : ScanResult}
    (h : Tiling (rom.extract 0 stop) start r) (inside : stop ≤ rom.size) :
    Lists allComments True (do
        Listing.scripts allComments rom r.entries
        Listing.remaining allComments (rom.extract 0 stop) (stop - r.remaining)) fun lines =>
      ∃ code data, lines = code ++ data ∧
        ShowsCode rom (r.entries.flatMap Entry.codes) start code (stop - r.remaining) ∧
        Shows rom (stop - r.remaining) data stop ∧ ∀ line ∈ data, line.isData = true := by
  have size : (rom.extract 0 stop).size = stop := by
    rw [Array.size_extract]
    omega
  have tiles := h.tiles
  have left := h.nonneg
  have reached := tiles.le
  rw [size] at tiles reached
  -- The scripts were found up to `stop` but are listed from the whole stream.
  refine (lists_scripts fun _ e member => ⟨(h.found e member).nonneg, (h.found e member).read_whole⟩).bind
    (lists_remaining fun _ => by omega) fun _ code data shown shown' => ?_
  obtain ⟨rest, isData⟩ := shown' (by omega)
  rw [size] at rest
  exact ⟨code, data, rfl, shown _ _ tiles, rest.transfer (.cut rom stop), isData⟩

/-- The listing of a region has a line for each event and each stop byte of the scripts that were found,
    and then lines of raw data. Together they show the bytes of the region in order, and each line names
    the offset of its first byte. -/
theorem regionListing_shows_region (rom : Bytes) (start stop : Nat) (ordered : start ≤ stop)
    (inside : stop ≤ rom.size) :
    let region : Bytes := rom.extract 0 stop
    let r := scanFrom region start
    let listing : Listing Unit := do
      Listing.scripts allComments rom r.entries
      Listing.remaining allComments region (stop - r.remaining)
    ∃ sink code data, listing .unlimited = .ok () sink ∧
      readListing sink.text.toList = code ++ data ∧
      code.map (·.column) = (r.entries.flatMap Entry.codes).map (padRight 40) ∧
      (∀ line ∈ code, line.isData = false) ∧ (∀ line ∈ data, line.isData = true) ∧
      (code ++ data).flatMap (·.bytes) = (rom.extract start stop).toList ∧
      ∀ front line back, code ++ data = front ++ line :: back →
        line.bytes ≠ [] ∧ line.offset = start + (front.flatMap (·.bytes)).length := by
  intro region r listing
  have run : Scans region start r := by
    simpa [Int.max_eq_left] using scans_scanFrom region start
  have tiling := run.tiling (Int.natCast_nonneg start) (by simp [region]; omega)
  obtain ⟨sink, _, done, read, code, data, rfl, shown, shown', isData⟩ := (tiling.lists_region inside).read_back trivial
  have whole := shown.shows.append shown'
  refine ⟨sink, code, data, done, read, shown.columns, shown.noData, isData,
    whole.bytes_eq_extract (by omega), fun front line back split => ?_⟩
  rw [split] at whole
  obtain ⟨nonempty, placed⟩ := whole.placed
  exact ⟨nonempty, by omega⟩

/-- A region behind a byte that is not its own, with a script of either dialect. The call at its end could
    be read with the bytes behind the region, but is listed as raw data. -/
theorem regionListing_shows_cut_call :
    let rom : Bytes := #[0x00, 0x49, 0xfe, 0xd0, 0xff, 0xb2, 0x10, 0x20, 0x30, 0xfe]
    let entries : List Entry :=
      [⟨3, 1, 3, .field [.dialogWait]⟩, ⟨5, 3, 5, .worldChar [.showCharacter]⟩]
    let listing : Listing Unit := do
      Listing.scripts allComments rom entries
      Listing.remaining allComments (rom.extract 0 6) 5
    (1 ≤ 6 ∧ 6 ≤ rom.size) ∧
      scanFrom (rom.extract 0 6) 1 = ⟨entries, 1, some ⟨5, .truncated 2 6 0, .truncated 3 6 0⟩⟩ ∧
      ∃ sink code data, listing .unlimited = .ok () sink ∧
        readListing sink.text.toList = code ++ data ∧
        code.map (·.column) = ["dialog_wait", "end", "show_character", "end"].map (padRight 40) ∧
        (∀ line ∈ data, line.isData = true) ∧
        (code ++ data).flatMap (·.bytes) = [0x49, 0xfe, 0xd0, 0xff, 0xb2] := by
  intro rom entries listing
  have found : scanFrom (rom.extract 0 6) (1 : Nat) =
      ⟨entries, 1, some ⟨5, .truncated 2 6 0, .truncated 3 6 0⟩⟩ := by
    decide +kernel
  obtain ⟨sink, code, data, done, read, columns, _, isData, bytes, _⟩ :=
    regionListing_shows_region rom 1 6 (by decide) (by decide)
  rw [found] at done columns
  exact ⟨⟨by decide, by decide⟩, found, sink, code, data, done, read, columns, isData, bytes⟩

end EventScript
