import EventScript.Proofs.ExportedFiles
import EventScript.Proofs.UnreadFiles

/-! # Copier headers

An image is what is left of the bytes of a file without the header, if there is one. A run with it ends as
does one on the same image without a header.
-/

namespace EventScript

/-! ## Images -/

namespace Image

variable {data : Bytes} {image : Image}

/-- Bytes are taken exactly if they are an image of whole banks, or one behind a header. -/
theorem ofBytes_eq_ok_iff : ofBytes data = .ok image ↔
    data ≠ #[] ∧ image.data.size % 0x8000 = 0 ∧ ∃ header : Bytes,
      header.size = (if image.hasCopierHeader then 512 else 0) ∧ data = header ++ image.data := by
  unfold ofBytes bankSize copierHeaderSize
  constructor
  · intro taken
    by_cases empty : data = #[]
    · rw [if_pos (Array.isEmpty_iff.mpr empty)] at taken
      cases taken
    rw [if_neg (mt Array.isEmpty_iff.mp empty)] at taken
    split at taken <;> rename_i whole
    · obtain rfl := Except.ok.inj taken
      exact ⟨empty, whole, #[], rfl, Array.empty_append.symm⟩
    split at taken <;> rename_i excess
    · obtain rfl := Except.ok.inj taken
      refine ⟨empty, ?_, data.extract 0 512, ?_, ?_⟩
      · rw [Array.size_extract]
        omega
      · rw [if_pos rfl, Array.size_extract]
        omega
      · rw [Array.extract_append_extract, Nat.zero_min, Nat.max_eq_right (by omega), Array.extract_size]
    · cases taken
  · rintro ⟨nonempty, whole, header, size, rfl⟩
    obtain ⟨rom, removed⟩ := image
    rw [if_neg (mt Array.isEmpty_iff.mp nonempty)]
    cases removed with
    | false =>
        obtain rfl := Array.eq_empty_of_size_eq_zero size
        rw [Array.empty_append, if_pos whole]
    | true =>
        have size : header.size = 512 := size
        have whole : rom.size % 0x8000 = 0 := whole
        rw [Array.size_append, size, if_neg (by omega), if_pos (by omega), Array.extract_append, size]
        simp [size]

/-- The image has no bytes exactly if there was a header only. -/
theorem data_eq_empty_iff (taken : ofBytes data = .ok image) : image.data = #[] ↔ data.size = 512 := by
  obtain ⟨nonempty, whole, header, size, rfl⟩ := ofBytes_eq_ok_iff.mp taken
  have filled : (header ++ image.data).size ≠ 0 := mt Array.size_eq_zero_iff.mp nonempty
  rw [← Array.size_eq_zero_iff]
  rw [Array.size_append] at filled ⊢
  split at size <;> omega

end Image

/-! ## Runs -/

namespace Run

/-- What a run says about its image before it works on it. -/
def started (o : Options) (c : Config) (rom : Bytes) : Array Output :=
  if o.quiet then #[] else
    #[.log { level := .info
             message := "Processing ROM"
             fields := [("file", .text o.input), ("size", .number rom.size), ("format", .text c.format)] }]

def headerRemoved : Output :=
  .log { level := .debug, message := "Copier header removed", fields := [] }

variable {cancelled : Bool} {o : Options} {c : Config} {files : FileTree} {out : Array Output}

theorem loadImage_eq {path : String} {content : Bytes} {image : Image} (read : files.read path = .ok content)
    (taken : Image.ofBytes content = .ok image) : loadImage path ⟨files, out⟩ = .ok image ⟨files, out⟩ := by
  refine (bind_of_ok rfl).trans ?_
  simp only [read, taken]
  rfl

theorem onFile_eq {content : Bytes} {image : Image} (read : files.read o.input = .ok content)
    (taken : Image.ofBytes content = .ok image) :
    onFile cancelled o c ⟨files, out⟩ = onImage cancelled image.data o c
      ⟨files, out ++ started o c image.data ++ if image.hasCopierHeader then #[headerRemoved] else #[]⟩ := by
  refine (bind_of_ok (loadImage_eq read taken)).trans ?_
  obtain ⟨rom, removed⟩ := image
  unfold started
  cases o.quiet <;> cases removed <;> rfl

/-- Loading removes a header and nothing else, and what is left is empty only if there was nothing behind the
    header. Bytes that are an image of whole banks are taken behind a header as they are without it. If a file has
    the one here and the other there, and all else is the same, then a run on that file ends the same way. It says
    that it removed the header, and puts out the same besides that and leaves the same files besides that one. -/
theorem onFile_removes_header (data : Bytes) :
    (∀ image : Image,
      (Image.ofBytes data = .ok image ↔ data ≠ #[] ∧ image.data.size % 0x8000 = 0 ∧ ∃ header : Bytes,
        header.size = (if image.hasCopierHeader then 512 else 0) ∧ data = header ++ image.data) ∧
      (Image.ofBytes data = .ok image → (image.data = #[] ↔ data.size = 512))) ∧
    (data ≠ #[] → data.size % 0x8000 = 0 → ∀ header : Bytes, header.size = 512 →
      Image.ofBytes (header ++ data) = .ok ⟨data, true⟩ ∧ Image.ofBytes data = .ok ⟨data, false⟩ ∧
      ∀ (cancelled : Bool) (o : Options) (c : Config) (place : Place) (a b : FileTree) (out : Array Output),
        a.DifferAt place (header ++ data) data b → a.read o.input = .ok (header ++ data) →
        b.read o.input = .ok data →
        EndAlike (World.Beside place (header ++ data) data (out ++ started o c data ++ #[headerRemoved])
            (out ++ started o c data))
          (onFile cancelled o c ⟨a, out⟩) (onFile cancelled o c ⟨b, out⟩)) := by
  refine ⟨fun image => ⟨Image.ofBytes_eq_ok_iff, Image.data_eq_empty_iff⟩, ?_⟩
  intro nonempty whole header size
  have copied : Image.ofBytes (header ++ data) = .ok ⟨data, true⟩ :=
    Image.ofBytes_eq_ok_iff.mpr ⟨by simp [nonempty], whole, header, size, rfl⟩
  have bare : Image.ofBytes data = .ok ⟨data, false⟩ :=
    Image.ofBytes_eq_ok_iff.mpr ⟨nonempty, whole, #[], rfl, Array.empty_append.symm⟩
  refine ⟨copied, bare, ?_⟩
  intro cancelled o c place a b out differ read read'
  rw [onFile_eq read copied, onFile_eq read' bare]
  apply preserves_onImageIn
  exact ⟨differ, #[], Array.append_empty.symm, by simp⟩

/-- The file of a blank image of whole banks, with a header and without it. Both runs succeed. -/
theorem onFile_removes_header_blank :
    let header : Bytes := Array.replicate 512 0
    let rom := blank 0x2e0000
    let o : Options := { input := "rom" }
    let out := started o .standard rom
    ∃ s w w', onFile false o .standard ⟨FileTree.empty.put ["rom"] (.file (header ++ rom)), #[]⟩ = .ok s w ∧
      onFile false o .standard ⟨FileTree.empty.put ["rom"] (.file rom), #[]⟩ = .ok s w' ∧
      World.Beside ["rom"] (header ++ rom) rom (out ++ #[headerRemoved]) out w w' ∧
      s.locations.length = 0x19f ∧
      ∃ content, w'.files.get? ["out", "field", "000.yaml"] = some (.file content) := by
  intro header rom o out
  have named : Path.Plain "rom" := by decide
  have read (content : Bytes) : (FileTree.empty.put ["rom"] (.file content)).read "rom" = .ok content :=
    FileTree.read_put named ⟨named.isClean, by simp, by decide, by decide⟩ content
  have whole : rom.size % 0x8000 = 0 := by
    rw [Blank.size_eq]
  have nonempty : rom ≠ #[] := by
    simp [rom, blank]
  obtain ⟨_, bare, runs⟩ := (onFile_removes_header rom).2 nonempty whole header Array.size_replicate
  have alike := runs false o .standard ["rom"] _ _ #[] (FileTree.empty.differAt_put rfl) (read _) (read _)
  rw [Array.empty_append] at alike
  have tidy : (FileTree.empty.put ["rom"] (.file rom)).IsTidy (.new "out" .yaml) (exportDirs []) := by
    have plain : Path.Plain "out" := by decide
    refine FileTree.isTidy_of_new plain (fun _ => rfl) (FileTree.isSoundAt_empty plain) fun names => ?_
    have other : "out" :: names ≠ ["rom"] := by simp
    rw [FileTree.get?_put _ _ rfl]
    exact (if_neg other).trans (FileTree.get?_empty plain)
  have run := @onFile_eq false o .standard _ #[] _ _ (read rom) bare
  obtain ⟨s, w', done⟩ : ∃ s w', onFile false o .standard ⟨FileTree.empty.put ["rom"] (.file rom), #[]⟩ = .ok s w' := by
    rw [run]
    exact exists_onImage_blank (by decide) (by decide) rfl (List.forall_mem_nil _) (hasRoom_exportDirs (by decide))
      tidy rfl
  have finishes := (ends_onImageIn (.always false) rom o .standard _).of_eq_ok (run.symm.trans done)
  rw [done] at alike ⊢
  generalize onFile false o .standard ⟨FileTree.empty.put ["rom"] (.file (header ++ rom)), #[]⟩ = copied at alike ⊢
  cases alike with
  | ok _ beside => exact ⟨s, _, w', rfl, rfl, beside, finishes.stores_first (.inl rfl) (by decide) rfl⟩

end Run

/-- A header with nothing behind it is taken for an image without bytes. -/
theorem Image.ofBytes_only_header : Image.ofBytes (Array.replicate 512 0) = .ok ⟨#[], true⟩ := by
  rw [ofBytes_eq_ok_iff]
  exact ⟨by simp, rfl, Array.replicate 512 0, Array.size_replicate, Array.append_empty.symm⟩

end EventScript
