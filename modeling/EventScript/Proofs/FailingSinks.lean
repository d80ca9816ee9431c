import EventScript.Proofs.ListingLines

/-! # Listings on sinks that run out of room

A sink that runs out of room gets the first pieces of a listing and nothing behind them, and the listing then ends
with the reason that the sink gave.
-/

namespace EventScript

namespace Listing

/-- List scripts under a title, if there is one, and then the bytes from an offset on, if there is one. -/
def group (shown : Comments) (data : Bytes) (heading : Option String) (entries : List Entry)
    (rest : Option Int) : Listing Unit := do
  heading.forM title
  scripts shown data entries
  rest.forM (remaining shown data)

theorem exists_emits_group (shown : Comments) (data : Bytes) (heading : Option String) (entries : List Entry)
    (rest : Option Int) : ∃ pieces outcome, Emits (group shown data heading entries rest) pieces outcome := by
  have titled : Lists shown False (heading.forM title) fun _ => True := by
    cases heading with
    | none => exact .pure nofun
    | some text => exact .write .title _ nofun
  have listed : Lists shown False (scripts shown data entries) _ := lists_scripts nofun
  have left : Lists shown False (rest.forM (remaining shown data)) fun _ => True := by
    cases rest with
    | none => exact .pure nofun
    | some offset => exact (lists_remaining nofun).imp fun _ _ => trivial
  have whole : Lists shown False (group shown data heading entries rest) fun _ => True :=
    titled.bind (listed.bind left fun _ _ _ _ => id) fun _ _ _ _ => id
  exact whole.exists_emits

/-- A sink that takes `k` pieces gets the same text as one that takes all, and the listing ends in the same
    way, if there are no more than `k` pieces. Else it gets the first `k` of them, and the listing ends with
    the reason that the sink gives. -/
theorem group_stops_at_failed_write (shown : Comments) (data : Bytes) (heading : Option String)
    (entries : List Entry) (rest : Option Int) (k : Nat) (reason : String) :
    let free := group shown data heading entries rest .unlimited
    let limited := group shown data heading entries rest (.limited k reason)
    ((Ending.pieces free).length ≤ k →
      Ending.text limited = Ending.text free ∧ Ending.outcome limited = Ending.outcome free) ∧
    (k < (Ending.pieces free).length →
      Ending.text limited = String.join ((Ending.pieces free).take k) ∧
        ∃ e, Ending.outcome limited = .error e ∧ e.Wraps reason ∧
          ∃ context, e.message = context ++ reason) := by
  intro free limited
  obtain ⟨pieces, outcome, emits⟩ := exists_emits_group shown data heading entries rest
  have whole : free = Ending.of outcome (Sink.unlimited.put pieces) := emits.whole .unlimited nofun
  have all : Ending.pieces free = pieces := by
    simp [whole, Ending.pieces, Sink.put, Sink.unlimited]
  rw [all]
  refine ⟨fun room => ?_, fun short => ?_⟩
  · have done : limited = Ending.of outcome ((Sink.limited k reason).put pieces) :=
      emits.whole (.limited k reason) (Sink.hasRoom_of_le rfl room)
    simp [done, whole, Ending.text, Sink.text_put]
  · obtain ⟨e, failed, wraps⟩ := emits.cut (.limited k reason) k rfl short
    have failed : limited = .error e ((Sink.limited k reason).put (pieces.take k)) := failed
    have text : Ending.text limited = String.join (pieces.take k) := by
      simp [failed, Ending.text, Ending.sink, Sink.text_put]
    exact ⟨text, e, by rw [failed]; rfl, wraps, wraps.message⟩

/-- Two scripts and a byte behind them are ten pieces. A sink that takes five of them has the whole first
    script and the empty line behind it. -/
theorem group_stops_at_second_label :
    let data : Bytes := #[0x49, 0xfe, 0xd0, 0xff, 0x31]
    let entries : List Entry := [⟨2, 0, 2, .field [.dialogWait]⟩, ⟨4, 2, 4, .worldChar [.showCharacter]⟩]
    let listing := group ⟨true, true⟩ data (some "entry points") entries (some 4)
    (Ending.pieces (listing .unlimited)).length = 10 ∧
      Ending.text (listing (.limited 5 "disk full")) =
        String.join ["; entry points\n\n", "script_000000: ; field, 1 events\n",
          "  dialog_wait                              ; $000000  49\n",
          "  end                                      ; $000001  fe\n", "\n"] ∧
      ∃ e, Ending.outcome (listing (.limited 5 "disk full")) = .error e ∧ e.Wraps "disk full" := by
  intro data entries listing
  have pieces : Ending.pieces (listing .unlimited) =
      ["; entry points\n\n", "script_000000: ; field, 1 events\n",
        "  dialog_wait                              ; $000000  49\n",
        "  end                                      ; $000001  fe\n", "\n",
        "script_000002: ; world_char, 1 events\n",
        "  show_character                           ; $000002  d0\n",
        "  end                                      ; $000003  ff\n", "\n; 1 bytes not decoded\n",
        "  .byte $31                                                        ; $000004\n"] := by
    decide +kernel
  obtain ⟨_, stops⟩ := group_stops_at_failed_write ⟨true, true⟩ data (some "entry points") entries (some 4) 5
    "disk full"
  rw [pieces] at stops
  obtain ⟨text, e, failed, wraps, _⟩ := stops (by decide)
  exact ⟨by rw [pieces]; rfl, text, e, failed, wraps⟩

end Listing

end EventScript
