import ResearchPlatform.Library.Utf8
import ResearchPlatform.ChunkProvenance
import ResearchPlatform.ChunkSlices
import ResearchPlatform.StringMethods
import Mathlib.Data.List.Flatten

/-!
# Text extraction

`extract_text` of `ingestion/pipeline.py`, and the pipeline of a worker that runs it
before the recursive chunker. The bytes of a text file are read as UTF-8, whatever
charset its media type names, and what is no UTF-8 is replaced.
-/

namespace TextExtraction

open Schema DocumentService JobService TextChunker CaseMappings Machines ExactlyOnce WorkerMachine
  ChunkProvenance

/-- `pypdf`, which gives the text of each page, if it is installed. -/
abbrev PdfReader := Bytes → Except String (List String)

/-- `_SUPPORTED_TEXT_TYPES`. -/
def supportedTextTypes : List String := ["text/plain", "text/markdown", "text/csv", "application/json"]

section Extraction
variable (m : CaseMapping) (pypdf : Option PdfReader)

/-- The media type in lower case without its parameters. -/
def mediaType (mimeType : Option String) : String :=
  String.ofList (strip ((m.lower (mimeType.getD "")).toList.takeWhile (· ≠ ';')))

/-- `_extract_pdf_text`. -/
def extractPdfText (content : Bytes) : Except String String :=
  match pypdf with
  | none => .error "PDF support requires pypdf. Install with: pip install pypdf"
  | some pagesOf => do
    let pages ← pagesOf content
    let pages := pages.filter (· ≠ "")
    if pages = [] then .error "PDF contains no extractable text."
    else .ok ("\n\n".intercalate pages)

def extractText (content : Bytes) (mimeType : Option String) : Except String String :=
  let mime := mediaType m mimeType
  if mime ∈ supportedTextTypes ∨ mime = "" then .ok (String.ofList (Utf8.decode content))
  else if mime = "application/pdf" then extractPdfText pypdf content
  else .error ("Unsupported file type: '" ++ mime ++ "'. Supported: text/plain, text/markdown, application/pdf.")

/-- `IngestionPipeline` with the recursive chunker; the embedder is a parameter. -/
def textPipeline (chunker : RecursiveTextChunker) (encode : List String → Except String (List Embedding)) :
    IngestionPipeline where
  extractText := extractText m pypdf
  chunk text := .ok ((chunker.chunk text.toList).map String.ofList)
  encode := encode

end Extraction

/-! ## Media types -/

section Types
variable {m : CaseMapping} {left spelling right parameters word : Text}

/-- White space of ASCII. -/
def Blank (text : Text) : Prop := (text.all fun ch => decide (ch.toNat < 128) && isSpace ch) = true

/-- Nothing, or what starts with a semicolon. -/
def Parameters (text : Text) : Prop := text.head?.all (fun ch => decide (ch = ';')) = true

theorem toLower_semicolon : ∀ n < 128, (Char.ofNat n).toLower = ';' → Char.ofNat n = ';' := by decide

theorem toLower_space : ∀ n < 128, isSpace (Char.ofNat n) = true → (Char.ofNat n).toLower = Char.ofNat n := by decide

theorem lower_semicolon {ch : Char} (ascii : ch.toNat < 128) (h : ch.toLower = ';') : ch = ';' := by
  have same := Char.ofNat_toNat ch
  rw [← same] at h ⊢
  exact toLower_semicolon ch.toNat ascii h

theorem Blank.space (h : Blank left) : ∀ ch ∈ left, ch.toNat < 128 ∧ isSpace ch = true := by
  intro ch mem
  simpa using List.all_eq_true.mp h ch mem

theorem Blank.lower (h : Blank left) : ∀ ch ∈ left.map Char.toLower, isSpace ch = true := by
  intro ch mem
  obtain ⟨c, hc, rfl⟩ := List.mem_map.mp mem
  obtain ⟨ascii, space⟩ := h.space c hc
  have same := Char.ofNat_toNat c
  rw [← same] at space ⊢
  rw [toLower_space c.toNat ascii space]
  exact space

theorem not_mem_lower {text : Text} (ascii : ∀ ch ∈ text, ch.toNat < 128) (free : ';' ∉ text) :
    ';' ∉ text.map Char.toLower := by
  intro mem
  obtain ⟨c, hc, low⟩ := List.mem_map.mp mem
  exact free (lower_semicolon (ascii c hc) low ▸ hc)

theorem Blank.free (h : Blank left) : ';' ∉ left := fun mem => absurd (h.space _ mem).2 (by decide)

/-- Behind the parameters' semicolon nothing is read. -/
theorem parameters_cut (h : Parameters parameters) (before : Text) :
    (m.lowerFrom before parameters).takeWhile (· ≠ ';') = [] := by
  cases parameters with
  | nil => rfl
  | cons ch rest =>
    obtain rfl : ch = ';' := by simpa [Parameters] using h
    rw [CaseMapping.lowerFrom, m.lower_ascii before ';' rest (by decide)]
    rfl

/-- A media type is known in any spelling, with any parameters and white space around it. -/
theorem mediaType_spelled (outer : Blank left) (inner : Blank right) (spelled : CaseMapping.Spells word spelling)
    (ascii : ∀ ch ∈ word, ch.toNat < 128) (trimmed : Trimmed word) (free : ';' ∉ word)
    (behind : Parameters parameters) :
    mediaType m (some (String.ofList (left ++ spelling ++ right ++ parameters))) = String.ofList word := by
  have asciiSpelling : ∀ ch ∈ spelling, ch.toNat < 128 := fun ch mem =>
    ascii_of_toLower (ascii _ (spelled ▸ List.mem_map_of_mem mem))
  have asciiAll : ∀ ch ∈ left ++ spelling ++ right, ch.toNat < 128 := by
    intro ch mem
    rcases List.mem_append.mp mem with mem | mem
    · rcases List.mem_append.mp mem with mem | mem
      · exact (outer.space ch mem).1
      · exact asciiSpelling ch mem
    · exact (inner.space ch mem).1
  have freeSpelling : ';' ∉ spelling := by
    intro mem
    have low : (';').toLower ∈ word := spelled ▸ List.mem_map_of_mem mem
    exact free low
  have freeAll : ';' ∉ (left ++ spelling ++ right).map Char.toLower := by
    refine not_mem_lower asciiAll fun mem => ?_
    rcases List.mem_append.mp mem with mem | mem
    · rcases List.mem_append.mp mem with mem | mem
      · exact outer.free mem
      · exact freeSpelling mem
    · exact inner.free mem
  have spelled' : spelling.map Char.toLower = word := spelled
  rw [mediaType, Option.getD_some, CaseMapping.lower, String.toList_ofList, String.toList_ofList,
    CaseMapping.lowerFrom_ascii asciiAll, List.takeWhile_append_of_pos fun ch mem => by
      simpa using fun same : ch = ';' => freeAll (same ▸ mem), parameters_cut behind, List.append_nil]
  rw [List.map_append, List.map_append, spelled', StringMethods.strip_append_blank inner.lower,
    StringMethods.strip_blank_append outer.lower, trimmed.strip]

end Types

/-! ## Texts -/

/-- What a reader of UTF-8 may rely on. -/
structure Faithful (content : Bytes) (text : Text) : Prop where
  written : ∀ start rest, content = Utf8.encode start ++ rest → text = start ++ Utf8.decode rest
  ascii : text.filter (fun ch => decide (ch.toNat < 0x80)) =
    (content.filter fun b => decide (b.toNat < 0x80)).map fun b => Char.ofNat b.toNat
  clean : Utf8.replacement ∉ text → Utf8.encode text = content

theorem faithful_decode (content : Bytes) : Faithful content (Utf8.decode content) where
  written := by
    rintro start rest rfl
    exact Utf8.decode_encode_append start rest
  ascii := Utf8.decode_filter_ascii content
  clean := Utf8.encode_decode

theorem supported_plain : ∀ word ∈ supportedTextTypes, (word.toList.all fun ch => ch.toNat < 128) = true ∧
    strip word.toList = word.toList ∧ ';' ∉ word.toList := by decide

/-- A text file is read as it was written, in whatever charset its type says, as far as it is UTF-8; every byte
of ASCII is kept, in order, even between bytes that are not. -/
theorem extract_text_faithful (m : CaseMapping) (pypdf : Option PdfReader) (content : Bytes) {word : String}
    (supported : word ∈ supportedTextTypes) {left spelling right parameters : Text} (outer : Blank left)
    (inner : Blank right) (spelled : CaseMapping.Spells word.toList spelling) (behind : Parameters parameters) :
    ∃ text, extractText m pypdf content (some (String.ofList (left ++ spelling ++ right ++ parameters))) = .ok text ∧
      Faithful content text.toList := by
  obtain ⟨ascii, stripped, free⟩ := supported_plain word supported
  have trimmed : Trimmed word.toList := stripped ▸ trimmed_strip word.toList
  have mime : mediaType m (some (String.ofList (left ++ spelling ++ right ++ parameters))) = word := by
    rw [mediaType_spelled outer inner spelled (fun ch mem => by simpa using List.all_eq_true.mp ascii ch mem) trimmed
      free behind, String.ofList_toList]
  refine ⟨String.ofList (Utf8.decode content), ?_, ?_⟩
  · rw [extractText, mime, if_pos (Or.inl supported)]
  · rw [String.toList_ofList]
    exact faithful_decode content

/-- A spelling with a charset that is not asked, and bytes that are no UTF-8. -/
theorem extract_text_faithful_latin :
    ∃ text, extractText asciiMapping none [0x68, 0xC3, 0xA9, 0xFF, 0x21]
        (some (String.ofList ([' '] ++ "Text/Plain".toList ++ [' '] ++ ";charset=latin-1".toList))) = .ok text ∧
      Faithful [0x68, 0xC3, 0xA9, 0xFF, 0x21] text.toList :=
  extract_text_faithful asciiMapping none [0x68, 0xC3, 0xA9, 0xFF, 0x21]
    (show "text/plain" ∈ supportedTextTypes by decide) (show Blank [' '] from rfl) (show Blank [' '] from rfl)
    (show CaseMapping.Spells "text/plain".toList "Text/Plain".toList by decide +kernel)
    (show Parameters ";charset=latin-1".toList from rfl)

example : Utf8.decode [0x68, 0xC3, 0xA9, 0xFF, 0x21] = ['h', 'é', Utf8.replacement, '!'] := by decide

/-! ## From the file to the rows -/

section Rows
variable {m : CaseMapping} {pypdf : Option PdfReader} {chunker : RecursiveTextChunker}
  {encode : List String → Except String (List Embedding)}

/-- The texts of the chunks of a file. -/
def chunksOfFile (chunker : RecursiveTextChunker) (content : Bytes) : List String :=
  (chunker.chunk (Utf8.decode content)).map String.ofList

/-- The embedder gives a vector for each text. -/
def OnePerText (encode : List String → Except String (List Embedding)) : Prop :=
  ∀ texts vectors, encode texts = .ok vectors → vectors.length = texts.length

theorem chunkData_contents {rawChunks : List String} {embeddings : List Embedding}
    (same : embeddings.length = rawChunks.length) :
    (chunkData rawChunks embeddings).map ChunkData.content = rawChunks := by
  refine List.ext_getElem (by simp [chunkData, same]) fun i _ _ => ?_
  simp [chunkData]

theorem process_contents (perText : OnePerText encode) {content : Bytes} {mimeType : Option String}
    (plain : mediaType m mimeType ∈ supportedTextTypes ∨ mediaType m mimeType = "") {chunks : List ChunkData}
    (h : (textPipeline m pypdf chunker encode).process content mimeType = .ok chunks) :
    chunks.map ChunkData.content = chunksOfFile chunker content := by
  have extracted : (textPipeline m pypdf chunker encode).extractText content mimeType =
      .ok (String.ofList (Utf8.decode content)) := by
    simp only [textPipeline, extractText]
    rw [if_pos plain]
  have chunked : (textPipeline m pypdf chunker encode).chunk (String.ofList (Utf8.decode content)) =
      .ok (chunksOfFile chunker content) := by
    simp only [textPipeline, String.toList_ofList, chunksOfFile]
  simp only [IngestionPipeline.process, extracted, chunked, bind, Except.bind] at h
  split at h
  · rename_i none_
    cases h
    rw [none_]
    rfl
  · cases encoded : encode (chunksOfFile chunker content) with
    | error e =>
      have raised : (textPipeline m pypdf chunker encode).encode (chunksOfFile chunker content) = .error e := encoded
      simp [raised] at h
    | ok embeddings =>
      have given : (textPipeline m pypdf chunker encode).encode (chunksOfFile chunker content) = .ok embeddings := encoded
      simp only [given, Except.ok.injEq] at h
      rw [← h, chunkData_contents (perText _ embeddings encoded)]

/-- The letters of a file's ASCII bytes are all in its chunks, in order. -/
theorem letters_chunksOfFile (chunker : RecursiveTextChunker) (content : Bytes) :
    (((content.filter fun b => decide (b.toNat < 0x80)).map fun b => Char.ofNat b.toNat).filter letter).Sublist
      ((chunksOfFile chunker content).flatMap String.toList) := by
  have kept : (letters (Utf8.decode content)).Sublist (letters (chunker.chunk (Utf8.decode content)).flatten) := by
    rw [← letters_strip, RecursiveTextChunker.chunk]
    by_cases blank : strip (Utf8.decode content) = []
    · simp [blank]
    · rw [if_neg blank, letters_filter_blank]
      exact RecursiveTextChunker.letters_split (fun sep => letters_sep) _
  have whole : (chunksOfFile chunker content).flatMap String.toList = (chunker.chunk (Utf8.decode content)).flatten := by
    rw [chunksOfFile, List.flatMap_map, List.flatMap_def]
    simp
  rw [whole, ← (faithful_decode content).ascii]
  exact ((List.filter_sublist).filter letter).trans (kept.trans List.filter_sublist)

/-- Whatever uploads, deletions and workers do meanwhile, the chunk texts of a text document are those of files
with its digest, one file after the other, and no letter of ASCII in such a file is lost on the way. -/
theorem stored_text (m : CaseMapping) (pypdf : Option PdfReader) (chunker : RecursiveTextChunker)
    (encode : List String → Except String (List Embedding)) (perText : OnePerText encode) (cfg : Settings)
    (pipeline_ : cfg.pipeline = textPipeline m pypdf chunker encode) (n : Nat) (es : List (Event n)) (s : World n)
    (run : (machine cfg n).run (World.start n) es = some s)
    (fresh : (machine cfg n).EveryStep (fun s e _ => freshUpload s e = true) (World.start n) es)
    (d : Document) (hd : d ∈ s.db.documents)
    (plain : mediaType m d.mimeType ∈ supportedTextTypes ∨ mediaType m d.mimeType = "") :
    ∃ files : List Bytes, (∀ f ∈ files, contentHash cfg.sha256 f = d.contentHash) ∧
      (chunksOf s.db d.id).map Chunk.content = files.flatMap (chunksOfFile chunker) ∧
      ∀ f ∈ files, (((f.filter fun b => decide (b.toNat < 0x80)).map fun b => Char.ofNat b.toNat).filter letter).Sublist
        ((chunksOf s.db d.id).flatMap fun x => x.content.toList) := by
  obtain ⟨batches, rows, made⟩ := (provenance_run run fresh).2.whole d hd
  have files : ∃ files : List Bytes, (∀ f ∈ files, contentHash cfg.sha256 f = d.contentHash) ∧
      batches.flatten.map Chunk.content = files.flatMap (chunksOfFile chunker) := by
    clear rows
    induction batches with
    | nil => exact ⟨[], by simp, rfl⟩
    | cons batch batches ih =>
      obtain ⟨files, digests, contents⟩ := ih fun b hb => made b (List.mem_cons_of_mem batch hb)
      obtain ⟨content, digest, processed⟩ := made batch List.mem_cons_self
      rw [pipeline_] at processed
      refine ⟨content :: files, List.forall_mem_cons.mpr ⟨digest, digests⟩, ?_⟩
      have texts := process_contents perText plain processed
      rw [List.map_map] at texts
      rw [List.flatten_cons, List.map_append, contents, List.flatMap_cons, ← texts]
      rfl
  obtain ⟨files, digests, contents⟩ := files
  rw [← rows] at contents
  refine ⟨files, digests, contents, fun f hf => (letters_chunksOfFile chunker f).trans ?_⟩
  have inside : (chunksOfFile chunker f).Sublist ((chunksOf s.db d.id).map Chunk.content) := by
    rw [contents, List.flatMap_def]
    exact List.sublist_flatten_of_mem (List.mem_map_of_mem hf)
  have texts := inside.flatMap String.toList
  rwa [List.flatMap_map] at texts

end Rows

namespace Demo

def chunker : RecursiveTextChunker := ⟨2048, 256, by decide⟩

def encode (texts : List String) : Except String (List Embedding) := .ok (texts.map fun _ => [1])

/-- The chunker of a worker that is not set to the semantic one. -/
def settings : Settings := { WorkerMachine.Demo.settings with pipeline := textPipeline asciiMapping none chunker encode }

def endState (w : Fin 1) : World 1 := ((machine settings 1).run (World.start 1) (demoRun w)).getD (World.start 1)

end Demo

theorem stored_text_demo : (Demo.endState 0).db.documents.map Document.chunkCount = [1] ∧
    ∀ d ∈ (Demo.endState 0).db.documents, ∃ files : List Bytes,
      (∀ f ∈ files, contentHash Demo.settings.sha256 f = d.contentHash) ∧
        (chunksOf (Demo.endState 0).db d.id).map Chunk.content = files.flatMap (chunksOfFile Demo.chunker) ∧
        ∀ f ∈ files,
          (((f.filter fun b => decide (b.toNat < 0x80)).map fun b => Char.ofNat b.toNat).filter letter).Sublist
            ((chunksOf (Demo.endState 0).db d.id).flatMap fun x => x.content.toList) := by
  obtain ⟨enabled, fresh, ready, plain⟩ : ((machine Demo.settings 1).run (World.start 1) (demoRun 0)).isSome = true ∧
      (machine Demo.settings 1).EveryStep (fun s e _ => freshUpload s e = true) (World.start 1) (demoRun 0) ∧
      (Demo.endState 0).db.documents.map Document.chunkCount = [1] ∧
      ((Demo.endState 0).db.documents.all fun d => mediaType asciiMapping d.mimeType ∈ supportedTextTypes) = true := by
    decide +kernel
  refine ⟨ready, fun d hd => ?_⟩
  exact stored_text asciiMapping none Demo.chunker Demo.encode
    (fun texts vectors encoded => by cases encoded; exact List.length_map _) Demo.settings rfl 1 (demoRun 0)
    (Demo.endState 0) (Machine.run_getD (World.start 1) enabled) fresh d hd
    (Or.inl (by simpa using List.all_eq_true.mp plain d hd))

end TextExtraction
