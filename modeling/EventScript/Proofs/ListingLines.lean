import EventScript.Proofs.EventOffsets
import EventScript.Proofs.ListingPieces
import EventScript.Proofs.ListingReader
import EventScript.Proofs.ScanComposition

/-! # The lines of a listing

A listing reads scripts again, and could fail to. Each of its loops is gone through once, for any input. It
writes the same pieces on every sink. If the scripts stand in the stream then it also ends well, and if comments are
shown then its text is read as lines that show the bytes of the stream.
-/

namespace EventScript

/-! ## What lines show -/

/-- The lines show the bytes from one offset up to another without a gap, each at its place, and each of
    them shows some. -/
def Shows (data : Bytes) : Int → List ListedLine → Int → Prop
  | start, [], stop => stop = start
  | start, line :: lines, stop =>
      line.offset = start ∧ line.bytes ≠ [] ∧
        ∃ next, Spans data start line.bytes next ∧ Shows data next lines stop

namespace Shows

variable {data : Bytes} {start middle stop : Int} {front back : List ListedLine}

theorem append (first : Shows data start front middle) (second : Shows data middle back stop) :
    Shows data start (front ++ back) stop := by
  induction front generalizing start with
  | nil =>
      cases first
      exact second
  | cons line front ih =>
      obtain ⟨placed, nonempty, next, spans, rest⟩ := first
      exact ⟨placed, nonempty, next, spans, ih rest⟩

theorem spans {lines : List ListedLine} (h : Shows data start lines stop) :
    Spans data start (lines.flatMap (·.bytes)) stop := by
  induction lines generalizing start with
  | nil => exact h
  | cons line lines ih =>
      obtain ⟨_, _, next, here, rest⟩ := h
      exact spans_append.mpr ⟨next, here, ih rest⟩

theorem bytes_eq_extract {start stop : Nat} {lines : List ListedLine} (h : Shows data start lines stop)
    (inside : start ≤ data.size) : lines.flatMap (·.bytes) = (data.extract start stop).toList := by
  have sliced : data.slice? start stop = some (lines.flatMap (·.bytes)).toArray :=
    slice?_eq_some_iff.mpr ⟨by omega, by omega, h.spans⟩
  simp only [Bytes.slice?, Int.toNat_natCast, Option.ite_none_right_eq_some, Option.some.injEq] at sliced
  rw [sliced.2]

theorem placed {line : ListedLine} (h : Shows data start (front ++ line :: back) stop) :
    line.bytes ≠ [] ∧ line.offset = start + (front.flatMap (·.bytes)).length := by
  induction front generalizing start with
  | nil =>
      obtain ⟨placed, nonempty, _⟩ := h
      exact ⟨nonempty, by simpa using placed⟩
  | cons before front ih =>
      obtain ⟨_, _, next, here, rest⟩ := h
      obtain ⟨nonempty, placed⟩ := ih rest
      have moved := here.stop_eq
      refine ⟨nonempty, ?_⟩
      rw [List.flatMap_cons, List.length_append]
      omega

theorem transfer {whole : Bytes} {lines : List ListedLine} (h : Shows data start lines stop)
    (held : StandsIn data whole 0) : Shows whole start lines stop := by
  induction lines generalizing start with
  | nil => exact h
  | cons line lines ih =>
      obtain ⟨placed, nonempty, next, here, rest⟩ := h
      exact ⟨placed, nonempty, next, by simpa using here.transfer held, ih rest⟩

end Shows

/-- The lines show bytes as listings show events and stop bytes: one line for each of the codes. -/
structure ShowsCode (data : Bytes) (codes : List String) (start : Int) (lines : List ListedLine)
    (stop : Int) : Prop where
  shows : Shows data start lines stop
  columns : lines.map (·.column) = codes.map (padRight 40)
  noData : ∀ line ∈ lines, line.isData = false

theorem ShowsCode.append {data : Bytes} {codes codes' : List String} {start middle stop : Int}
    {lines lines' : List ListedLine} (first : ShowsCode data codes start lines middle)
    (second : ShowsCode data codes' middle lines' stop) :
    ShowsCode data (codes ++ codes') start (lines ++ lines') stop where
  shows := first.shows.append second.shows
  columns := by rw [List.map_append, List.map_append, first.columns, second.columns]
  noData := List.forall_mem_append.mpr ⟨first.noData, second.noData⟩

/-! ## The bytes behind a line -/

/-- Both kinds of comments. -/
def allComments : Listing.Comments :=
  ⟨true, true⟩

theorem Spans.ne_nil {data : Bytes} {start stop : Int} {bytes : List UInt8}
    (h : Spans data start bytes stop) (before : start < stop) : bytes ≠ [] := by
  rintro rfl
  cases h
  omega

theorem exists_slice? {data : Bytes} {start stop : Int} (low : 0 ≤ start) (before : start < stop)
    (inside : stop ≤ data.size) :
    ∃ codes, data.slice? start stop = some codes ∧ codes.toList ≠ [] ∧
      Spans data start codes.toList stop := by
  have sliced : data.slice? start stop = some (data.extract start.toNat stop.toNat) :=
    if_pos ⟨low, by omega, inside⟩
  have spans := (slice?_eq_some_iff.mp sliced).2.2
  exact ⟨_, sliced, spans.ne_nil before, spans⟩

/-! ## What is written -/

/-- With all comments the pieces are read as these lines, whatever stands behind them. -/
def ReadAs (shown : Listing.Comments) (pieces : List String) (lines : List ListedLine) : Prop :=
  shown = allComments → ∀ rest, readListing ((String.join pieces).toList ++ rest) = lines ++ readListing rest

theorem readAs_nil {shown : Listing.Comments} : ReadAs shown [] [] :=
  fun _ _ => rfl

theorem readAs_singleton {shown : Listing.Comments} {piece : String} {lines : List ListedLine}
    (read : shown = allComments → ∀ rest, readListing (piece.toList ++ rest) = lines ++ readListing rest) :
    ReadAs shown [piece] lines := by
  simpa [ReadAs] using read

theorem ReadAs.append {shown : Listing.Comments} {pieces more : List String} {lines lines' : List ListedLine}
    (first : ReadAs shown pieces lines) (second : ReadAs shown more lines') :
    ReadAs shown (pieces ++ more) (lines ++ lines') := by
  intro all rest
  rw [String.join_append, String.toList_append, List.append_assoc, first all, second all, List.append_assoc]

/-- The writing hands the same pieces to every sink and ends the same way. Under the assumption it ends well, and
    its pieces are read as lines of this kind. -/
def Lists (shown : Listing.Comments) (sound : Prop) (writing : Listing Unit) (kind : List ListedLine → Prop) : Prop :=
  ∃ pieces outcome, Listing.Emits writing pieces outcome ∧
    (sound → outcome = .ok () ∧ ∃ lines, kind lines ∧ ReadAs shown pieces lines)

namespace Lists

variable {shown : Listing.Comments} {sound : Prop} {writing next : Listing Unit}
  {kind kind' kind'' : List ListedLine → Prop}

theorem pure (none : sound → kind []) : Lists shown sound (Pure.pure ()) kind :=
  ⟨_, _, .pure, fun assumed => ⟨rfl, [], none assumed, readAs_nil⟩⟩

theorem throw (unsound : ¬ sound) (e : ListingError) : Lists shown sound (MonadExcept.throw e) kind :=
  ⟨_, _, .throw e, fun assumed => absurd assumed unsound⟩

theorem write (part : ListingPart) (piece : String)
    (read : sound → ∃ lines, kind lines ∧ ReadAs shown [piece] lines) :
    Lists shown sound (Listing.write part piece) kind :=
  ⟨_, _, .write part piece, fun assumed => ⟨rfl, read assumed⟩⟩

theorem bind (first : Lists shown sound writing kind) (second : Lists shown sound next kind')
    (both : sound → ∀ lines lines', kind lines → kind' lines' → kind'' (lines ++ lines')) :
    Lists shown sound (writing >>= fun _ => next) kind'' := by
  obtain ⟨pieces, outcome, emits, known⟩ := first
  obtain ⟨more, outcome', emits', known'⟩ := second
  cases outcome with
  | ok =>
      refine ⟨_, _, emits.bind emits', fun assumed => ?_⟩
      obtain ⟨_, lines, here, read⟩ := known assumed
      obtain ⟨done, lines', there, read'⟩ := known' assumed
      exact ⟨done, _, both assumed _ _ here there, read.append read'⟩
  | error e =>
      refine ⟨_, _, emits.stop, fun assumed => ?_⟩
      cases (known assumed).1

theorem imp (h : Lists shown sound writing kind) (weaker : ∀ lines, kind lines → kind' lines) :
    Lists shown sound writing kind' := by
  obtain ⟨pieces, outcome, emits, known⟩ := h
  refine ⟨pieces, outcome, emits, fun assumed => ?_⟩
  obtain ⟨done, lines, here, read⟩ := known assumed
  exact ⟨done, lines, weaker lines here, read⟩

theorem inScript {start : Int} (h : Lists shown sound writing kind) :
    Lists shown sound (Listing.inScript start writing) kind := by
  obtain ⟨pieces, outcome, emits, known⟩ := h
  refine ⟨_, _, emits.inScript, fun assumed => ?_⟩
  obtain ⟨rfl, read⟩ := known assumed
  exact ⟨rfl, read⟩

/-- A piece without lines that stand for bytes. -/
theorem skip {piece : String} (part : ListingPart)
    (read : sound → ∀ rest, readListing (piece.toList ++ rest) = readListing rest) :
    Lists shown sound (Listing.write part piece) (· = []) := by
  exact write part piece fun assumed => ⟨[], rfl, readAs_singleton fun _ => read assumed⟩

/-- What comes behind a piece without lines. -/
theorem behind (first : Lists shown sound writing (· = [])) (second : Lists shown sound next kind) :
    Lists shown sound (writing >>= fun _ => next) kind :=
  first.bind second fun _ lines lines' none here => by
    rw [none]
    exact here

/-- Whatever is assumed, the listing goes the same way on every sink. -/
theorem exists_emits (h : Lists shown sound writing kind) : ∃ pieces outcome, Listing.Emits writing pieces outcome := by
  obtain ⟨pieces, outcome, emits, _⟩ := h
  exact ⟨pieces, outcome, emits⟩

theorem completes (h : Lists shown sound writing kind) (assumed : sound) : Listing.Completes writing := by
  obtain ⟨pieces, outcome, emits, known⟩ := h
  obtain ⟨rfl, _⟩ := known assumed
  exact ⟨pieces, emits⟩

/-- The text of a listing with all comments is read back from a sink that takes everything. -/
theorem read_back (h : Lists allComments sound writing kind) (assumed : sound) :
    ∃ sink lines, writing .unlimited = .ok () sink ∧ readListing sink.text.toList = lines ∧ kind lines := by
  obtain ⟨pieces, outcome, emits, known⟩ := h
  obtain ⟨rfl, lines, here, read⟩ := known assumed
  refine ⟨_, lines, emits.whole .unlimited nofun, ?_, here⟩
  have empty : readListing [] = [] := rfl
  rw [Sink.text_put, Sink.text_unlimited, String.empty_append]
  simpa [empty] using read rfl []

end Lists

/-! ## Lines of code -/

section Loops

variable {shown : Listing.Comments} {sound : Prop} {data : Bytes}

/-- A line whose column and comment are texts without a line break is read from these two. -/
theorem readAs_columns {piece column comment : String} {line : ListedLine}
    (same : piece = s!"  {column} ; {comment}\n") (inColumn : Inline column) (inComment : Inline comment)
    (read : ListedLine.ofParts? (column.toList ++ [' ']) (' ' :: comment.toList) = some line) :
    ReadAs shown [piece] [line] := by
  have text : piece.toList =
      (' ' :: ' ' :: ((column.toList ++ [' ']) ++ ';' :: ' ' :: comment.toList)) ++ ['\n'] := by
    simp [same, toString]
  refine readAs_singleton fun _ rest => ?_
  rw [text, List.append_assoc, List.singleton_append,
    readListing_line (by simp [inColumn.oneLine, inComment.oneLine]),
    ListedLine.read?_parts (by simp [inColumn.noComment]) (by simp [inComment.noComment]), read]
  rfl

theorem ShowsCode.line {data : Bytes} {code : String} {start : Nat} {stop : Int} {bytes : List UInt8}
    (nonempty : bytes ≠ []) (spans : Spans data start bytes stop) :
    ShowsCode data [code] start [⟨padRight 40 code, false, start, bytes⟩] stop where
  shows := ⟨rfl, nonempty, stop, spans, rfl⟩
  columns := rfl
  noData := List.forall_mem_singleton.mpr rfl

theorem readAs_line {codes : Bytes} {code : String} {start : Nat} {stop : Int} {parts : List String}
    (inline : Inline code) (noData : code.toList.head? ≠ some '.') (sliced : data.slice? start stop = some codes)
    (commented : Listing.comments shown data start stop = .ok parts) :
    ReadAs shown [Listing.lineText code parts] [⟨padRight 40 code, false, start, codes.toList⟩] := by
  intro all
  subst all
  obtain rfl : [s!"${hexUpper 6 start}", joinWith " " (codes.toList.map hexByte)] = parts := by
    simpa [Listing.comments, allComments, sliced] using commented
  have place := Inline.dollar (.hexUpper 6 start)
  have named : Inline (joinWith " " (codes.toList.map hexByte)) :=
    .joinWith (by decide) (List.forall_mem_map.mpr fun b _ => .hex 2 b.toNat)
  refine readAs_columns rfl (inline.padRight 40) (.joinWith (by decide) ?_)
    (ListedLine.ofParts?_code noData start codes.toList) rfl
  exact List.forall_mem_cons.mpr ⟨place, List.forall_mem_singleton.mpr named⟩

theorem exists_comments {codes : Bytes} {start stop : Int} (sliced : data.slice? start stop = some codes) :
    ∃ parts, Listing.comments shown data start stop = .ok parts := by
  cases hex : shown.hex <;> exact ⟨_, by simp only [Listing.comments, hex, sliced]; rfl⟩

theorem lists_line {code : String} {start stop : Int} (inline : Inline code)
    (noData : code.toList.head? ≠ some '.') (inside : sound → 0 ≤ start ∧ start < stop ∧ stop ≤ data.size) :
    Lists shown sound (Listing.line shown data code start stop) (ShowsCode data [code] start · stop) := by
  have taken (assumed : sound) := exists_slice? (inside assumed).1 (inside assumed).2.1 (inside assumed).2.2
  unfold Listing.line
  cases commented : Listing.comments shown data start stop with
  | error e =>
      refine .throw (fun assumed => ?_) e
      obtain ⟨codes, sliced, _⟩ := taken assumed
      obtain ⟨parts, found⟩ := @exists_comments shown data codes start stop sliced
      cases found.symm.trans commented
  | ok parts =>
      refine .write .line _ fun assumed => ?_
      obtain ⟨codes, sliced, nonempty, spans⟩ := taken assumed
      obtain ⟨i, rfl⟩ := Int.eq_ofNat_of_zero_le (inside assumed).1
      exact ⟨_, .line nonempty spans, readAs_line inline noData sliced commented⟩

/-! ## Scripts -/

theorem lists_eventLines {dialect : Dialect} {events : List Event} {offsets : List Int}
    (read : sound → ReadAt (dialect.decode data) events offsets ∧ 0 ≤ offsets.headD 0) :
    Lists shown sound (Listing.eventLines shown data events offsets)
      (ShowsCode data (events.map Event.text) (offsets.headD 0) · (offsets.getLastD 0)) := by
  fun_induction Listing.eventLines shown data events offsets with
  | case1 offsets =>
      refine .pure fun assumed => ?_
      cases (read assumed).1
      exact ⟨rfl, rfl, nofun⟩
  | case2 event events start stop offsets ih =>
      have step (assumed : sound) : (0 ≤ start ∧ start < stop ∧ stop ≤ data.size) ∧
          ReadAt (dialect.decode data) events (stop :: offsets) := by
        obtain ⟨stands, low⟩ := read assumed
        cases stands with
        | event found more => exact ⟨⟨low, Dialect.decode_eq_ok found⟩, more⟩
      refine (lists_line event.inline_text event.head_text fun assumed => (step assumed).1).bind
        (ih fun assumed => ⟨(step assumed).2, ?_⟩) fun _ line lines shown shown' => shown.append shown'
      have moved := (step assumed).1
      simp only [List.headD_cons]
      omega
  | case3 events offsets ended short =>
      refine .throw (fun assumed => ?_) _
      cases (read assumed).1 with
      | done => exact ended rfl
      | event => exact short _ _ _ _ _ rfl rfl

/-- What the lines of an entry say: its events, and that it ends. -/
def Entry.codes (e : Entry) : List String :=
  e.events.toList.map Event.text ++ ["end"]

theorem lists_label {e : Entry} (low : sound → 0 ≤ e.start) :
    Lists shown sound (Listing.write .label
      s!"script_{hex 6 e.start}: ; {e.dialect.name}, {e.size} events\n") (· = []) := by
  refine .skip .label fun assumed rest => ?_
  obtain ⟨i, place⟩ := Int.eq_ofNat_of_zero_le (low assumed)
  have name : Inline e.dialect.name := by
    cases e.dialect <;> decide
  rw [place]
  have skipped := @readListing_of_not_indented
    (s!"script_{hex 6 i}: ; {e.dialect.name}, {e.size} events").toList
    (by simp [toString, (Inline.hex 6 i).oneLine, name.oneLine, (Inline.repr _).oneLine, -Nat.toList_repr])
    (by simp [toString]) rest
  simpa [toString] using skipped

/-- The script of an entry is found in the stream. -/
def Entry.ReadIn (data : Bytes) (e : Entry) : Prop :=
  0 ≤ e.start ∧ e.dialect.script data e.start = .ok e.events e.stop

theorem lists_script {e : Entry} (read : sound → e.ReadIn data) :
    Lists shown sound (Listing.script shown data e) (ShowsCode data e.codes e.start · e.stop) := by
  refine (lists_label fun assumed => (read assumed).1).behind ?_
  cases found : Listing.eventOffsets data e with
  | error cause =>
      refine .throw (fun assumed => ?_) cause
      obtain ⟨offsets, found', _⟩ := Listing.eventOffsets_of_script (read assumed).2
      cases found'.symm.trans found
  | ok offsets =>
      -- The line of the stop byte is placed by the end of the entry, and the offsets of the events lead there.
      have led (assumed : sound) : ReadAt (e.dialect.decode data) e.events.toList offsets ∧
          offsets.headD 0 = e.start ∧ offsets.getLastD 0 = e.stop - 1 := by
        obtain ⟨offsets', found', events, last⟩ := Listing.eventOffsets_of_script (read assumed).2
        cases found'.symm.trans found
        exact ⟨events, rfl, by rw [List.getLastD_eq_getLast?, last]; rfl⟩
      have moved (assumed : sound) := Dialect.script_eq_ok (read assumed).2
      refine (lists_eventLines fun assumed => ⟨(led assumed).1, ?_⟩).bind
        (lists_line (show Inline "end" by decide) (by decide) fun assumed => ?_) fun assumed lines last shown shown' => ?_
      · rw [(led assumed).2.1]
        exact (read assumed).1
      · have := (read assumed).1
        have := moved assumed
        omega
      · rw [(led assumed).2.1, (led assumed).2.2] at shown
        exact shown.append shown'

theorem lists_scripts {entries : List Entry} (read : sound → ∀ e ∈ entries, e.ReadIn data) :
    Lists shown sound (Listing.scripts shown data entries) fun lines =>
      ∀ start stop, Tiles start entries stop → ShowsCode data (entries.flatMap Entry.codes) start lines stop := by
  fun_induction Listing.scripts shown data entries with
  | case1 =>
      refine .pure fun _ start stop tiles => ?_
      exact ⟨tiles, rfl, nofun⟩
  | case2 e =>
      have here : Lists shown sound (Listing.script shown data e) _ :=
        lists_script fun assumed => read assumed e List.mem_cons_self
      refine here.inScript.imp fun lines shown start stop tiles => ?_
      obtain ⟨rfl, _, rfl⟩ := tiles
      simpa using shown
  | case3 e entries _ ih =>
      have here : Lists shown sound (Listing.script shown data e) _ :=
        lists_script fun assumed => read assumed e List.mem_cons_self
      have gap : Lists shown sound Listing.emptyLine (· = []) := .skip .line fun _ _ => rfl
      refine here.inScript.bind (gap.behind (ih fun assumed e' later => read assumed e' (List.mem_cons_of_mem _ later)))
        fun _ lines lines' shown shown' start stop tiles => ?_
      obtain ⟨rfl, _, more⟩ := tiles
      exact shown.append (shown' _ _ more)

/-! ## Raw data -/

theorem lists_dataText (codes : Bytes) (offset : Nat) :
    Lists shown sound (Listing.write .data (Listing.dataText shown codes offset)) fun lines =>
      ∃ column, lines = [⟨column, true, offset, codes.toList⟩] := by
  have listed : Inline (joinWith ", " (codes.toList.map fun b => s!"${hexByte b}")) :=
    .joinWith (by decide) (List.forall_mem_map.mpr fun b _ => .dollar (.hex 2 b.toNat))
  have code := Inline.append_iff.mpr ⟨show Inline ".byte " by decide, listed⟩
  have place := Inline.dollar (.hexUpper 6 offset)
  have read := ListedLine.ofParts?_data offset codes.toList
  let values := joinWith ", " (codes.toList.map fun b => s!"${hexByte b}")
  let column := padRight 64 s!".byte {values}"
  refine .write .data _ fun _ => ⟨[⟨column, true, offset, codes.toList⟩], ⟨column, rfl⟩, fun all => ?_⟩
  subst all
  refine readAs_columns ?_ (code.padRight 64) place (Eq.trans ?_ read) rfl
  · apply String.toList_inj.mp
    simp [Listing.dataText, allComments, toString]
  · simp [toString]

/-- Up to `n` bytes from an offset on. -/
theorem spans_extract {data : Bytes} {offset n : Nat} (inside : offset ≤ data.size) :
    Spans data offset (data.extract offset (offset + n)).toList (min (offset + n) data.size : Nat) := by
  refine spans_iff_prefix.mpr ⟨?_, ?_⟩
  · simp only [Array.length_toList, Array.size_extract]
    omega
  · rw [Array.toList_extract, List.extract_eq_take_drop]
    exact List.take_prefix _ _

/-- The lines are of raw data and show the rest of the stream. -/
def ShowsData (data : Bytes) (start : Int) (lines : List ListedLine) : Prop :=
  Shows data start lines data.size ∧ ∀ line ∈ lines, line.isData = true

theorem lists_dataLines (offset : Nat) :
    Lists shown sound (Listing.dataLines shown data offset) (ShowsData data (min offset data.size : Nat)) := by
  have width : Listing.bytesPerLine = 16 := rfl
  fun_induction Listing.dataLines shown data offset with
  | case1 offset inside codes ih =>
      refine (lists_dataText codes offset).bind ih fun _ lines lines' line shown => ?_
      obtain ⟨column, rfl⟩ := line
      have spans := @spans_extract data offset Listing.bytesPerLine (by omega)
      rw [Nat.min_eq_left (by omega)]
      refine ⟨⟨rfl, spans.ne_nil (by omega), _, spans, shown.1⟩, ?_⟩
      exact List.forall_mem_cons.mpr ⟨rfl, shown.2⟩
  | case2 offset ended =>
      refine .pure fun _ => ⟨?_, nofun⟩
      simp only [Shows]
      omega

theorem lists_header (n : Nat) :
    Lists shown sound (Listing.write .line s!"\n; {n} bytes not decoded\n") (· = []) := by
  refine .skip .line fun _ rest => ?_
  have skipped := @readListing_of_not_indented (s!"; {n} bytes not decoded").toList
    (by simp [toString, (Inline.repr _).oneLine, -Nat.toList_repr]) (by simp [toString]) rest
  have first := @readListing_of_not_indented [] (by simp) (by simp)
    ((s!"; {n} bytes not decoded").toList ++ '\n' :: rest)
  simpa [toString] using first.trans skipped

theorem lists_remaining {offset : Int} (low : sound → 0 ≤ offset) :
    Lists shown sound (Listing.remaining shown data offset) fun lines =>
      offset ≤ data.size → ShowsData data offset lines := by
  unfold Listing.remaining
  split
  · rename_i inside
    obtain ⟨n, left⟩ := Int.eq_ofNat_of_zero_le (show 0 ≤ data.size - offset by omega)
    rw [left]
    apply (lists_header n).behind
    split
    · rename_i negative
      exact .throw (fun assumed => absurd (low assumed) (Int.not_le.mpr negative)) _
    · obtain ⟨i, rfl⟩ := Int.eq_ofNat_of_zero_le (show 0 ≤ offset by omega)
      refine (lists_dataLines i).imp fun lines shown high => ?_
      rwa [Nat.min_eq_left (by omega)] at shown
  · rename_i ended
    refine .pure fun _ high => ⟨?_, nofun⟩
    simp only [Shows]
    omega

end Loops

end EventScript
