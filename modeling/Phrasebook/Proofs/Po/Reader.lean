-- SUMMARY: A reader of PO text, and that it reads what was written.
import Phrasebook.Proofs.Po.Layout

/-!
# Reading PO text

The reader goes through the lines of a text and gathers an entry at a time (`Reading.step`):
comments and references stand in front of the values, and a string without a keyword goes on with
the value above it. A message with several translations repeats its id and numbers them. The first entry has
the empty id and is the header, with one field in each string.

`File.read?_toPo` says that the text of a document is read as the document, provided that no
reference has a line feed in its file.
-/
namespace Phrasebook.Po

/-! ## Entries -/

/-- An entry as it stands in the text. -/
structure Block where
  comments   : List String := []
  references : List String := []
  /-- The keywords with the strings of their values, the last one first. -/
  values     : List (Keyword × List String) := []
deriving DecidableEq, Repr

/-- A message as it is read. -/
structure Message where
  id           : String
  /-- The id in the plural, if the translations are numbered. -/
  pluralId     : Option String
  translations : List String
  references   : List String
  comments     : List String
deriving DecidableEq, Repr

namespace Block

/-- The values in the order of the text, each in one piece. -/
def texts (block : Block) : List (Keyword × String) :=
  block.values.reverse.map fun (keyword, strings) => (keyword, String.join strings)

/-- The message of an entry: an id with one translation, or with a plural and numbered ones. -/
def message? (block : Block) : Option Message :=
  match block.texts with
  | [(.id, id), (.text, text)] =>
    some { id, pluralId := none, translations := [text], references := block.references
           comments := block.comments }
  | (.id, id) :: (.pluralId, pluralId) :: numbered =>
    if numbered.map Prod.fst = (List.range numbered.length).map .numbered then
      some { id, pluralId, translations := numbered.map Prod.snd, references := block.references
             comments := block.comments }
    else none
  | _ => none

end Block

/-! ## Reading line by line -/

/-- How far the lines have been read. -/
structure Reading where
  /-- The entries that are complete. -/
  done  : List Block := []
  /-- The entry under way. -/
  block : Block := {}
deriving DecidableEq, Repr

namespace Reading

/-- Start an entry, unless the one under way has no value yet. -/
def start (reading : Reading) : Reading :=
  if reading.block.values.isEmpty then reading else { done := reading.done ++ [reading.block] }

/-- Read a line. -/
def step (reading : Reading) : Line → Option Reading
  | .blank => some reading.start
  | .comment text =>
    let ⟨done, block⟩ := reading.start
    some { done, block := { block with comments := block.comments ++ [text] } }
  | .reference text =>
    let ⟨done, block⟩ := reading.start
    some { done, block := { block with references := block.references ++ [text] } }
  | .value .id text =>
    let ⟨done, block⟩ := reading.start
    some { done, block := { block with values := [(.id, [text])] } }
  | .value keyword text =>
    if reading.block.values.isEmpty then none
    else
      let values := (keyword, [text]) :: reading.block.values
      some { reading with block := { reading.block with values } }
  | .string text =>
    match reading.block.values with
    | [] => none
    | (keyword, strings) :: above =>
      let values := (keyword, strings ++ [text]) :: above
      some { reading with block := { reading.block with values } }

/-- Read some lines. -/
def run (reading : Reading) (lines : List Line) : Option Reading := lines.foldlM step reading

end Reading

/-! ## Files -/

/-- The field that a string of the header holds. -/
def readField? (text : String) : Option (String × String) :=
  match text.toList.dropWhile (· != ':') with
  | ':' :: ' ' :: cs =>
    if cs.getLast? = some '\n' then
      some (String.ofList (text.toList.takeWhile (· != ':')), String.ofList cs.dropLast)
    else none
  | _ => none

/-- The fields of the header: its translation starts with an empty string, and each further one
holds a field. -/
def Block.fields? (block : Block) : Option (List (String × String)) :=
  match block.values.reverse with
  | [(.id, [""]), (.text, "" :: strings)] => strings.mapM readField?
  | _ => none

/-- A PO file as it is read. -/
structure File where
  header   : Message
  fields   : List (String × String)
  messages : List Message
deriving DecidableEq, Repr

namespace File

def ofBlocks? : List Block → Option File
  | [] => none
  | first :: blocks => do
    let header ← first.message?
    let fields ← first.fields?
    let messages ← blocks.mapM Block.message?
    return { header, fields, messages }

def read? (text : String) : Option File := do
  let lines ← (text.toList.splitOn '\n').mapM Line.read?
  let reading ← Reading.run {} lines
  ofBlocks? reading.start.done

end File

/-! ## What a document is read as -/

/-- A value as the reader gathers it. -/
def gathered : Keyword × String → Keyword × List String
  | (keyword, value) => (keyword, (strings value).1 :: (strings value).2)

namespace Block

def ofEntry (entry : Entry) : Block where
  comments   := commentLines entry.comment
  references := entry.references.map Location.display
  values     :=
    (((.id, entry.id) :: translationValues entry.id entry.translations).map gathered).reverse

/-- The strings of the fields of a header. -/
def fieldStrings (header : Header) : List String :=
  header.fields.map fun (name, value) => name ++ ": " ++ value ++ "\n"

def ofHeader (header : Header) : Block where
  values := [(.text, "" :: fieldStrings header), (.id, [""])]

end Block

namespace Message

/-- An entry, of which only the lines of its comment and the texts of its references are read. No
translation is read as an empty one, and several translations repeat the id. -/
def ofEntry (entry : Entry) : Message where
  id           := entry.id
  pluralId     := if 2 ≤ entry.translations.length then some entry.id else none
  translations := if entry.translations = [] then [""] else entry.translations
  references   := entry.references.map Location.display
  comments     := commentLines entry.comment

/-- A header, with its fields one below the other. -/
def ofHeader (header : Header) : Message where
  id           := ""
  pluralId     := none
  translations := [String.join (Block.fieldStrings header)]
  references   := []
  comments     := []

end Message

def File.ofDocument (document : CatalogDocument) : File where
  header   := Message.ofHeader document.header
  fields   := document.header.fields
  messages := document.records.map Message.ofEntry

/-! ## Runs of the reader -/

namespace Reading

theorem run_append (reading : Reading) (lines lines' : List Line) :
    run reading (lines ++ lines') = (run reading lines).bind (run · lines') :=
  List.foldlM_append

theorem run_cons (reading : Reading) (line : Line) (lines : List Line) :
    run reading (line :: lines) = (step reading line).bind (run · lines) :=
  List.foldlM_cons

/-- Lines that each add a text to what has been read add all of them. -/
theorem run_map (state : List String → Reading) {line : String → Line}
    (hstep : ∀ texts text, step (state texts) (line text) = some (state (texts ++ [text])))
    (texts more : List String) :
    run (state texts) (more.map line) = some (state (texts ++ more)) := by
  induction more generalizing texts with
  | nil =>
    rw [List.append_nil]
    rfl
  | cons text more ih =>
    rw [List.map_cons, run_cons, hstep, Option.bind_some, ih, List.append_assoc,
      List.singleton_append]

variable {done : List Block} {comments references : List String}
  {above : List (Keyword × List String)}

theorem run_comments (texts : List String) :
    run ⟨done, {}⟩ (texts.map .comment) = some ⟨done, { comments := texts }⟩ :=
  run_map (fun texts => ⟨done, { comments := texts }⟩) (fun _ _ => rfl) [] texts

theorem run_references (texts : List String) :
    run ⟨done, { comments }⟩ (texts.map .reference) =
      some ⟨done, { comments, references := texts }⟩ :=
  run_map (fun texts => ⟨done, { comments, references := texts }⟩) (fun _ _ => rfl) []
    texts

theorem run_strings (keyword : Keyword) (first : String) (texts : List String) :
    run ⟨done, comments, references, (keyword, [first]) :: above⟩ (texts.map .string) =
      some ⟨done, comments, references, (keyword, first :: texts) :: above⟩ :=
  run_map (fun texts => ⟨done, comments, references, (keyword, texts) :: above⟩)
    (fun _ _ => rfl) [first] texts

/-- An id is the first value of an entry. -/
theorem run_id (id : String) :
    run ⟨done, comments, references, []⟩ (Line.ofValue .id id) =
      some ⟨done, comments, references, [gathered (.id, id)]⟩ := by
  rw [Line.ofValue, run_cons]
  exact run_strings .id (strings id).1 (strings id).2

/-- Any other value goes below the values above it. -/
theorem run_ofValue {keyword : Keyword} (hkeyword : keyword ≠ .id) (habove : above ≠ [])
    (value : String) :
    run ⟨done, comments, references, above⟩ (Line.ofValue keyword value) =
      some ⟨done, comments, references, gathered (keyword, value) :: above⟩ := by
  have hstep : step ⟨done, comments, references, above⟩ (.value keyword (strings value).1) =
      some ⟨done, comments, references, (keyword, [(strings value).1]) :: above⟩ := by
    obtain ⟨last, above, rfl⟩ := List.exists_cons_of_ne_nil habove
    cases keyword with
    | id => exact absurd rfl hkeyword
    | pluralId => rfl
    | text => rfl
    | numbered n => rfl
  rw [Line.ofValue, run_cons, hstep]
  exact run_strings keyword (strings value).1 (strings value).2

theorem run_ofValues {values : List (Keyword × String)} (hvalues : ∀ value ∈ values, value.1 ≠ .id)
    (habove : above ≠ []) :
    run ⟨done, comments, references, above⟩ (Line.ofValues values) =
      some ⟨done, comments, references, (values.map gathered).reverse ++ above⟩ := by
  -- A value goes on top of those above it, which stay non-empty for the next one.
  induction values generalizing above with
  | nil => rfl
  | cons value values ih =>
    obtain ⟨hvalue, hvalues⟩ := List.forall_mem_cons.1 hvalues
    have hcons : Line.ofValues (value :: values) =
        Line.ofValue value.1 value.2 ++ Line.ofValues values := List.flatMap_cons
    rw [hcons, run_append, run_ofValue hvalue habove, Option.bind_some,
      ih hvalues (List.cons_ne_nil _ _), List.map_cons, List.reverse_cons, List.append_assoc]
    rfl

/-- The lines of a record are gathered as its entry. -/
theorem run_ofEntry (entry : Entry) :
    run ⟨done, {}⟩ (Line.ofEntry entry) = some ⟨done, Block.ofEntry entry⟩ := by
  have hvalues : ∀ value ∈ translationValues entry.id entry.translations, value.1 ≠ .id :=
    fun _ => ne_id_of_mem_translationValues
  rw [Line.ofEntry, run_append, run_comments, Option.bind_some, run_append, run_references,
    Option.bind_some, run_append, run_id, Option.bind_some,
    run_ofValues hvalues (List.cons_ne_nil _ _), Block.ofEntry, List.map_cons, List.reverse_cons]

theorem run_ofHeader (header : Header) :
    run {} (Line.ofHeader header) = some ⟨[], Block.ofHeader header⟩ := rfl

/-- The records behind a complete entry are gathered in their order. -/
theorem run_records {reading : Reading} (hstart : reading.start = ⟨done, {}⟩)
    (records : List Entry) :
    (run reading (records.flatMap fun entry => .blank :: Line.ofEntry entry)).map start =
      some ⟨done ++ records.map Block.ofEntry, {}⟩ := by
  induction records generalizing reading done with
  | nil =>
    rw [List.map_nil, List.append_nil, ← hstart]
    rfl
  | cons entry records ih =>
    -- The empty line completes the entry above it, so that the record starts from nothing.
    have hblank : step reading .blank = some ⟨done, {}⟩ := congrArg some hstart
    have hcomplete : start ⟨done, Block.ofEntry entry⟩ = ⟨done ++ [Block.ofEntry entry], {}⟩ := by
      simp [start, Block.ofEntry]
    rw [List.flatMap_cons, List.cons_append, run_cons, hblank, Option.bind_some, run_append,
      run_ofEntry, Option.bind_some, ih hcomplete, List.map_cons, List.append_assoc,
      List.singleton_append]

/-- The lines of a document are gathered as the header and its records. -/
theorem run_lines (document : CatalogDocument) :
    run {} (document.lines ++ [.blank]) =
      some ⟨Block.ofHeader document.header :: document.records.map Block.ofEntry, {}⟩ := by
  have hheader : start ⟨[], Block.ofHeader document.header⟩ =
      ⟨[Block.ofHeader document.header], {}⟩ := rfl
  have hrecords := run_records hheader document.records
  rw [Option.map_eq_bind] at hrecords
  rw [run_append, CatalogDocument.lines, run_append, run_ofHeader, Option.bind_some]
  exact hrecords

end Reading

/-! ## Messages of gathered entries -/

namespace Block

theorem texts_ofEntry (entry : Entry) :
    (ofEntry entry).texts =
      (.id, entry.id) :: translationValues entry.id entry.translations := by
  have hjoin : (fun (keyword, strings) => (keyword, String.join strings)) ∘ gathered = id := by
    funext value
    exact congrArg (value.1, ·) (String.join_cons.trans (join_strings value.2))
  rw [texts, ofEntry, List.reverse_reverse, List.map_map, hjoin, List.map_id]

/-- The numbers of the translations are those from zero on. -/
theorem map_fst_numbered (texts : List String) :
    (texts.zipIdx.map fun (text, i) => (Keyword.numbered i, text)).map Prod.fst =
      (List.range (texts.zipIdx.map fun (text, i) => (Keyword.numbered i, text)).length).map
        .numbered := by
  rw [List.length_map, List.length_zipIdx, List.range_eq_range', ← List.zipIdx_map_snd,
    List.map_map, List.map_map]
  rfl

theorem map_snd_numbered (texts : List String) :
    (texts.zipIdx.map fun (text, i) => (Keyword.numbered i, text)).map Prod.snd = texts := by
  rw [List.map_map]
  exact List.zipIdx_map_fst 0 texts

/-- The message of a gathered record. -/
theorem message?_ofEntry (entry : Entry) :
    (ofEntry entry).message? = some (Message.ofEntry entry) := by
  rw [message?, texts_ofEntry, Message.ofEntry]
  rcases entry.translations with - | ⟨first, - | ⟨second, rest⟩⟩
  · rfl
  · rfl
  · simp only [translationValues, map_fst_numbered, map_snd_numbered]
    rfl

end Block

/-! ## Fields of the header -/

theorem readField?_append {name value : String} (hname : ':' ∉ name.toList) :
    readField? (name ++ ": " ++ value ++ "\n") = some (name, value) := by
  have hkeep : ∀ c ∈ name.toList, (c != ':') = true := fun c hc =>
    bne_iff_ne.2 fun heq => hname (heq ▸ hc)
  have htext : (name ++ ": " ++ value ++ "\n").toList =
      name.toList ++ ':' :: ' ' :: (value.toList ++ ['\n']) := by simp
  rw [readField?, htext, List.dropWhile_append_of_pos hkeep, List.takeWhile_append_of_pos hkeep]
  simp

/-- What is read piece by piece is read as a whole. -/
theorem mapM_eq_some {α β : Type} {f : α → Option β} {xs : List α} {ys : List β}
    (h : xs.map f = ys.map some) : xs.mapM f = some ys := by
  induction xs generalizing ys with
  | nil =>
    rw [List.map_eq_nil_iff.1 h.symm]
    rfl
  | cons x xs ih =>
    cases ys with
    | nil => cases h
    | cons y ys =>
      obtain ⟨hx, hxs⟩ := List.cons.inj h
      rw [List.mapM_cons, hx, ih hxs]
      rfl

namespace Block

theorem message?_ofHeader (header : Header) :
    (ofHeader header).message? = some (Message.ofHeader header) := by
  have hjoin (texts : List String) : String.join ("" :: texts) = String.join texts := by
    rw [String.join_cons, String.empty_append]
  rw [Message.ofHeader, ← hjoin]
  rfl

theorem fields?_ofHeader (header : Header) : (ofHeader header).fields? = some header.fields := by
  have hnames : ∀ field ∈ header.fields, ':' ∉ field.1.toList := by
    simp [Header.fields]
  have hstrings : (fieldStrings header).map readField? = header.fields.map some := by
    rw [fieldStrings, List.map_map]
    exact List.map_congr_left fun field hfield => readField?_append (hnames field hfield)
  exact mapM_eq_some hstrings

end Block

/-! ## Reading what was written -/

theorem File.ofBlocks?_ofDocument (document : CatalogDocument) :
    ofBlocks? (Block.ofHeader document.header :: document.records.map Block.ofEntry) =
      some (ofDocument document) := by
  have hmessages : (document.records.map Block.ofEntry).map Block.message? =
      (document.records.map Message.ofEntry).map some := by
    rw [List.map_map, List.map_map]
    exact List.map_congr_left fun entry _ => Block.message?_ofEntry entry
  rw [ofBlocks?, Block.message?_ofHeader, Block.fields?_ofHeader, mapM_eq_some hmessages]
  rfl

/-- The text of a document is read as the document: the fields of the header and the records, all
in their order. -/
theorem File.read?_toPo {document : CatalogDocument}
    (h : ∀ entry ∈ document.records, ∀ location ∈ entry.references,
      '\n' ∉ location.file.toList) : read? document.toPo = some (ofDocument document) := by
  have hwritten := CatalogDocument.reads_written h
  have hlines : (document.toPo.toList.splitOn '\n').mapM Line.read? =
      some (document.lines ++ [.blank]) := by
    apply mapM_eq_some
    rw [CatalogDocument.splitOn_toPo, hwritten.cut_eq, List.map_append, List.map_map,
      List.map_append]
    exact congrArg (· ++ [some Line.blank]) hwritten.read
  rw [read?, hlines]
  have hrun := Reading.run_lines document
  calc ((Reading.run {} (document.lines ++ [.blank])).bind fun reading =>
        ofBlocks? reading.start.done)
      = ofBlocks? (Block.ofHeader document.header :: document.records.map Block.ofEntry) := by
        rw [hrun]
        rfl
    _ = some (ofDocument document) := ofBlocks?_ofDocument document

/-- A document with line feeds, quotes and backslashes in every text but those of its files. -/
def tangled : CatalogDocument where
  header  := { Header.stamped "2024-03-01\nMIME-Version: 2" with contentType := "\"text\" \\" }
  records :=
    [{ id           := "Say \"hi\"\n\nto {name}\n"
       translations := ["C:\\temp\tuno\r\n", "", "\n\n"]
       references   := [{ file := "a b.jsx", line := some 3 }, { file := "" }]
       comment      := some "first\r\n\nmsgid \"x\"\r" },
     { id := "", comment := some "" }]

/-- Every text is read as it was. -/
theorem read?_toPo_tangled :
    (∀ entry ∈ tangled.records, ∀ location ∈ entry.references, '\n' ∉ location.file.toList) ∧
    (File.read? tangled.toPo).map File.fields =
      some [("POT-Creation-Date", "2024-03-01\nMIME-Version: 2"), ("MIME-Version", "1.0"),
        ("Content-Type", "\"text\" \\"), ("Content-Transfer-Encoding", "8bit")] ∧
    (File.read? tangled.toPo).map File.messages =
      some [{ id           := "Say \"hi\"\n\nto {name}\n"
              pluralId     := some "Say \"hi\"\n\nto {name}\n"
              translations := ["C:\\temp\tuno\r\n", "", "\n\n"]
              references   := ["a b.jsx:3", ""]
              comments     := ["first", "", "msgid \"x\"\r"] },
            { id           := ""
              pluralId     := none
              translations := [""]
              references   := []
              comments     := [] }] := by
  have hfiles : ∀ entry ∈ tangled.records, ∀ location ∈ entry.references,
      '\n' ∉ location.file.toList := by decide
  have hread := File.read?_toPo hfiles
  refine ⟨hfiles, ?_, ?_⟩
  · rw [hread]
    rfl
  · rw [hread]
    decide

end Phrasebook.Po
