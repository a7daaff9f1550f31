-- SUMMARY: The lines a document is written in, and the stray lines its references can add.
import Phrasebook.Proofs.Po.Line
import Phrasebook.Proofs.Text.Lines

/-!
# Lines of a document

Each part of a document is written in lines that are meant as the lines of `Line.ofHeader` and
`Line.ofEntry`. Escaping keeps the line feeds of a value inside its quotes, and a comment is cut at
its line feeds. Only the text of a location is written as it is: what stands behind a line feed of
its file is a line of its own, without a marker (`Location.strayLines`).

So every line of the text is a line of PO text exactly if the stray lines are, and the entries are
the header, the records, and what the stray lines open (`CatalogDocument.isLine_toPo_iff`).
-/
namespace Phrasebook

/-! ## Stray lines -/

/-- The lines that stand behind a line feed in the text of a location. -/
def Location.strayLines (location : Location) : List (List Char) :=
  (location.display.toList.splitOn '\n').tail

def Entry.strayLines (entry : Entry) : List (List Char) :=
  entry.references.flatMap Location.strayLines

def CatalogDocument.strayLines (document : CatalogDocument) : List (List Char) :=
  document.records.flatMap Entry.strayLines

/-- A line number holds no line feed. -/
theorem Location.mem_display_iff {location : Location} :
    '\n' ∈ location.display.toList ↔ '\n' ∈ location.file.toList := by
  unfold Location.display
  split
  · rename_i line _
    have hdigits : '\n' ∉ Nat.toDigits 10 line.toNat := fun h =>
      absurd (Nat.isDigit_of_mem_toDigits (by decide) (by decide) h) (by decide)
    simp [hdigits]
  · rfl

theorem Location.strayLines_eq_nil_iff {location : Location} :
    location.strayLines = [] ↔ '\n' ∉ location.file.toList := by
  rw [strayLines, Text.tail_splitOn_eq_nil_iff, mem_display_iff]

/-- Only a line feed in the file of a reference leaves a stray line. -/
theorem CatalogDocument.strayLines_eq_nil_iff {document : CatalogDocument} :
    document.strayLines = [] ↔
      ∀ entry ∈ document.records, ∀ location ∈ entry.references, '\n' ∉ location.file.toList := by
  simp only [strayLines, Entry.strayLines, List.flatMap_eq_nil_iff, Location.strayLines_eq_nil_iff]

namespace Po

/-! ## Lines and what they are read as -/

/-- The lines that some texts are cut into. -/
def cut (written : List String) : List (List Char) := written.flatMap (·.toList.splitOn '\n')

/-- Texts that each are one line and are read as the lines that stand beside them. -/
structure Reads (written : List String) (lines : List Line) : Prop where
  single : ∀ text ∈ written, '\n' ∉ text.toList
  read   : written.map (Line.read? ·.toList) = lines.map some

namespace Reads

variable {α : Type} {written written' : List String} {lines lines' : List Line}

theorem nil : Reads [] [] := ⟨fun _ h => absurd h List.not_mem_nil, rfl⟩

theorem singleton {text : String} {line : Line} (hsingle : '\n' ∉ text.toList)
    (hread : Line.read? text.toList = some line) : Reads [text] [line] := by
  refine ⟨?_, congrArg ([·]) hread⟩
  intro other hother
  rwa [List.mem_singleton.1 hother]

theorem append (h : Reads written lines) (h' : Reads written' lines') :
    Reads (written ++ written') (lines ++ lines') := by
  refine ⟨?_, ?_⟩
  · intro text htext
    rcases List.mem_append.1 htext with htext | htext
    · exact h.single text htext
    · exact h'.single text htext
  · rw [List.map_append, List.map_append, h.read, h'.read]

theorem flatMap {xs : List α} {f : α → List String} {g : α → List Line}
    (h : ∀ x ∈ xs, Reads (f x) (g x)) : Reads (xs.flatMap f) (xs.flatMap g) := by
  induction xs with
  | nil => exact nil
  | cons x xs ih =>
    obtain ⟨hx, hxs⟩ := List.forall_mem_cons.1 h
    exact hx.append (ih hxs)

theorem map {xs : List α} {f : α → String} {g : α → Line}
    (h : ∀ x ∈ xs, '\n' ∉ (f x).toList ∧ Line.read? (f x).toList = some (g x)) :
    Reads (xs.map f) (xs.map g) := by
  rw [List.map_eq_flatMap, List.map_eq_flatMap]
  exact flatMap fun x hx => singleton (h x hx).1 (h x hx).2

theorem cut_eq (h : Reads written lines) : cut written = written.map String.toList := by
  rw [cut, List.map_eq_flatMap, List.flatMap_def, List.flatMap_def]
  refine congrArg List.flatten (List.map_congr_left fun text htext => ?_)
  exact List.splitOn_eq_singleton (h.single text htext)

end Reads

/-! ## What each part is written in -/

theorem not_mem_escape (cs : List Char) : '\n' ∉ escape cs := by
  intro h
  obtain ⟨c, -, hc⟩ := List.mem_flatMap.1 h
  unfold escapeChar at hc
  split at hc
  case h_6 =>
    rename_i hfeed _ _
    exact hfeed (List.mem_singleton.1 hc).symm
  all_goals exact absurd hc (by decide)

theorem not_mem_quoted (cs : List Char) : '\n' ∉ (quoted cs).toList := by
  rw [toList_quoted]
  simp [not_mem_escape]

theorem not_mem_comment {marker text : String} (hmarker : '\n' ∉ marker.toList)
    (htext : '\n' ∉ text.toList) : '\n' ∉ (comment marker text).toList := by
  rw [Line.toList_comment]
  split <;> simp [hmarker, htext]

/-- The strings that a value is written in: one beside the keyword and the others below. -/
def strings (value : String) : String × List String :=
  if isMultiline value.toList then ("", (Text.segments value.toList).map String.ofList)
  else (value, [])

/-- A value is what its strings are together. -/
theorem join_strings (value : String) :
    (strings value).1 ++ String.join (strings value).2 = value := by
  apply String.toList_injective
  unfold strings
  split
  · simp [String.toList_join, List.flatMap_map, Text.segments_flatten]
  · simp

/-- The lines of a comment for translators. -/
def commentLines (comment : Option String) : List String :=
  match comment with
  | some text => (Text.lines text.toList).map String.ofList
  | none => []

/-- The values of the translations of a message, each with its keyword. -/
def translationValues (id : String) : List String → List (Keyword × String)
  | [] => [(.text, "")]
  | [text] => [(.text, text)]
  | texts => (.pluralId, id) :: texts.zipIdx.map fun (text, i) => (.numbered i, text)

theorem ne_id_of_mem_translationValues {id : String} {texts : List String}
    {value : Keyword × String} (h : value ∈ translationValues id texts) : value.1 ≠ .id := by
  match texts with
  | [] =>
    rw [List.mem_singleton.1 h]
    exact Keyword.noConfusion
  | [text] =>
    rw [List.mem_singleton.1 h]
    exact Keyword.noConfusion
  | first :: second :: rest =>
    rcases List.mem_cons.1 h with rfl | h
    · exact Keyword.noConfusion
    · obtain ⟨numbered, -, rfl⟩ := List.mem_map.1 h
      exact Keyword.noConfusion

namespace Line

def ofValue (keyword : Keyword) (value : String) : List Line :=
  Line.value keyword (strings value).1 :: (strings value).2.map Line.string

def ofValues (values : List (Keyword × String)) : List Line :=
  values.flatMap fun (keyword, text) => ofValue keyword text

/-- The lines that a record is meant as. -/
def ofEntry (entry : Entry) : List Line :=
  (commentLines entry.comment).map .comment ++
    ((entry.references.map Location.display).map .reference ++
      (ofValue .id entry.id ++ ofValues (translationValues entry.id entry.translations)))

/-- The lines that the header is meant as. -/
def ofHeader (header : Header) : List Line :=
  Line.value .id "" :: Line.value .text "" ::
    header.fields.map fun (name, text) => Line.string (name ++ ": " ++ text ++ "\n")

end Line

theorem reads_keyword (kw : Keyword) (value : String) :
    Reads (keyword kw.name value) (Line.ofValue kw value) := by
  have hfirst (cs : List Char) :
      Reads [kw.name ++ " " ++ quoted cs] [.value kw (String.ofList cs)] := by
    have hname : '\n' ∉ kw.name.toList := fun h => (Keyword.ne_of_mem_name h).2 rfl
    refine Reads.singleton ?_ (Line.read?_value kw cs)
    simp [hname, not_mem_quoted]
  have hothers : Reads ((Text.segments value.toList).map quoted)
      ((Text.segments value.toList).map fun cs => .string (String.ofList cs)) :=
    Reads.map fun cs _ => ⟨not_mem_quoted cs, Line.read?_quoted cs⟩
  unfold keyword Line.ofValue strings
  dsimp only
  split
  · have hempty : kw.name ++ " \"\"" = kw.name ++ " " ++ quoted [] := by
      rw [String.append_assoc]
      rfl
    rw [hempty, List.map_map]
    exact (hfirst []).append hothers
  · have hvalue := hfirst value.toList
    rwa [String.ofList_toList] at hvalue

theorem reads_comment (entry : Entry) :
    Reads (match entry.comment with
      | some text => (Text.lines text.toList).map fun line => comment "#." (String.ofList line)
      | none => []) ((commentLines entry.comment).map .comment) := by
  cases entry.comment with
  | none => exact Reads.nil
  | some text =>
    rw [commentLines, List.map_map]
    refine Reads.map fun line hline => ⟨?_, Line.read?_comment _⟩
    apply not_mem_comment (by decide)
    rw [String.toList_ofList]
    exact Text.not_mem_of_mem_lines hline

theorem plurals_eq (texts : List String) :
    plurals texts = (texts.zipIdx.map fun (text, i) => (Keyword.numbered i, text)).flatMap
      fun (kw, value) => keyword kw.name value := by
  rw [plurals, List.flatMap_map, ← List.flatMap_def]
  rfl

theorem reads_translations (id : String) (texts : List String) :
    Reads (translations id texts) (Line.ofValues (translationValues id texts)) := by
  have hvalues : translations id texts =
      (translationValues id texts).flatMap fun (kw, value) => keyword kw.name value := by
    match texts with
    | [] => exact (List.append_nil _).symm
    | [text] => exact (List.append_nil _).symm
    | first :: second :: rest => exact congrArg (keyword "msgid_plural" id ++ ·) (plurals_eq _)
  rw [hvalues]
  exact Reads.flatMap fun (kw, value) _ => reads_keyword kw value

theorem reads_reference {location : Location} (h : '\n' ∉ location.file.toList) :
    Reads [comment "#:" location.display] [.reference location.display] := by
  refine Reads.singleton ?_ (Line.read?_reference location.display)
  exact not_mem_comment (by decide) (mt Location.mem_display_iff.1 h)

/-- A record is read as it is meant if no reference has a line feed in its file. -/
theorem reads_record {entry : Entry}
    (h : ∀ location ∈ entry.references, '\n' ∉ location.file.toList) :
    Reads (record entry) (Line.ofEntry entry) := by
  have hreferences : Reads (entry.references.map fun location => comment "#:" location.display)
      ((entry.references.map Location.display).map .reference) := by
    rw [List.map_map, List.map_eq_flatMap, List.map_eq_flatMap]
    exact Reads.flatMap fun location hlocation => reads_reference (h location hlocation)
  have hid := reads_keyword .id entry.id
  have htranslations := reads_translations entry.id entry.translations
  unfold record
  rw [List.append_assoc, List.append_assoc]
  exact (reads_comment entry).append (hreferences.append (hid.append htranslations))

theorem reads_header (header : Header) : Reads (Po.header header) (Line.ofHeader header) := by
  have hid : Reads ["msgid \"\""] [.value .id ""] := reads_keyword .id ""
  have htext : Reads ["msgstr \"\""] [.value .text ""] := reads_keyword .text ""
  have hfields : Reads
      (header.fields.map fun (name, text) => quoted (name ++ ": " ++ text ++ "\n").toList)
      (header.fields.map fun (name, text) => .string (name ++ ": " ++ text ++ "\n")) := by
    refine Reads.map fun field _ => ⟨not_mem_quoted _, ?_⟩
    rw [Line.read?_quoted, String.ofList_toList]
  exact hid.append (htext.append hfields)

/-! ## Entries that are meant -/

namespace Line

theorem opens_of_mem_ofValue {keyword : Keyword} {value : String} {line : Line}
    (h : line ∈ ofValue keyword value) (hopens : line.opens = true) : keyword = .id := by
  obtain ⟨text, rfl⟩ := opens_iff.1 hopens
  rcases List.mem_cons.1 h with heq | h
  · exact (Line.value.inj heq).1.symm
  · obtain ⟨piece, -, hpiece⟩ := List.mem_map.1 h
    cases hpiece

theorem countP_map {line : String → Line} (h : ∀ text, (line text).opens = false)
    (texts : List String) : (texts.map line).countP opens = 0 := by
  rw [List.countP_map, List.countP_eq_zero]
  intro text _ hopens
  exact Bool.noConfusion ((h text).symm.trans hopens)

/-- The value of an id opens one entry, however many strings it has. -/
theorem countP_ofValue_id (value : String) : (ofValue .id value).countP opens = 1 := by
  rw [ofValue, List.countP_cons_of_pos rfl, countP_map fun _ => rfl]

theorem countP_ofTranslations (id : String) (texts : List String) :
    (ofValues (translationValues id texts)).countP opens = 0 := by
  rw [List.countP_eq_zero]
  intro line hline hopens
  obtain ⟨value, hvalue, hline⟩ := List.mem_flatMap.1 hline
  exact ne_id_of_mem_translationValues hvalue (opens_of_mem_ofValue hline hopens)

theorem countP_ofHeader (header : Header) : (ofHeader header).countP opens = 1 := rfl

end Line

/-! ## Lines that are accounted for -/

/-- The texts are cut into lines of PO text exactly if the stray lines are such, and the lines that
do not stray open the given number of entries. -/
structure Accounted (written : List String) (strays : List (List Char)) (entries : Nat) : Prop where
  lines : (∀ line ∈ cut written, IsLine line) ↔ ∀ line ∈ strays, IsLine line
  opens : (cut written).countP opensEntry = entries + strays.countP opensEntry

namespace Accounted

variable {α : Type} {written written' : List String} {strays strays' : List (List Char)}
  {entries entries' : Nat}

theorem nil : Accounted [] [] 0 := ⟨Iff.rfl, rfl⟩

theorem append (h : Accounted written strays entries) (h' : Accounted written' strays' entries') :
    Accounted (written ++ written') (strays ++ strays') (entries + entries') := by
  have hcut : cut (written ++ written') = cut written ++ cut written' := List.flatMap_append
  refine ⟨?_, ?_⟩
  · rw [hcut, List.forall_mem_append, List.forall_mem_append, h.lines, h'.lines]
  · rw [hcut, List.countP_append, List.countP_append, h.opens, h'.opens]
    omega

theorem flatMap {xs : List α} {f : α → List String} {g : α → List (List Char)}
    (h : ∀ x ∈ xs, Accounted (f x) (g x) entries) :
    Accounted (xs.flatMap f) (xs.flatMap g) (xs.length * entries) := by
  induction xs with
  | nil =>
    rw [List.length_nil, Nat.zero_mul]
    exact nil
  | cons x xs ih =>
    obtain ⟨hx, hxs⟩ := List.forall_mem_cons.1 h
    rw [List.length_cons, Nat.succ_mul, Nat.add_comm]
    exact hx.append (ih hxs)

end Accounted

namespace Reads

variable {written : List String} {lines : List Line}

theorem exists_line (h : Reads written lines) {text : String} (htext : text ∈ written) :
    ∃ line, Line.read? text.toList = some line := by
  have hmem : Line.read? text.toList ∈ lines.map some :=
    h.read ▸ List.mem_map_of_mem (f := (Line.read? ·.toList)) htext
  obtain ⟨line, -, hline⟩ := List.mem_map.1 hmem
  exact ⟨line, hline.symm⟩

theorem countP_cut (h : Reads written lines) :
    (cut written).countP opensEntry = lines.countP Line.opens := by
  calc (cut written).countP opensEntry
      = written.countP (opensEntry ·.toList) := by
        rw [h.cut_eq, List.countP_map]
        rfl
    _ = written.countP fun text => (Line.read? text.toList).any Line.opens := by
        refine List.countP_congr fun text htext => ?_
        obtain ⟨line, hline⟩ := h.exists_line htext
        rw [hline, opensEntry_eq hline, Option.any_some]
    _ = (lines.map some).countP (·.any Line.opens) := by
        rw [← h.read, List.countP_map]
        rfl
    _ = lines.countP Line.opens := by
        rw [List.countP_map]
        rfl

/-- Lines that are read as they are meant leave no stray lines. -/
theorem accounted (h : Reads written lines) : Accounted written [] (lines.countP Line.opens) := by
  have hlines : ∀ line ∈ cut written, IsLine line := by
    rw [h.cut_eq, List.forall_mem_map]
    exact fun text htext => isLine_iff.2 (Option.isSome_iff_exists.2 (h.exists_line htext))
  refine ⟨?_, h.countP_cut⟩
  exact ⟨fun _ _ hline => absurd hline List.not_mem_nil, fun _ => hlines⟩

end Reads

/-- The first line of a reference has the marker, and the others stray. -/
theorem cut_reference (location : Location) :
    ∃ rest, cut [comment "#:" location.display] =
      ('#' :: ':' :: rest) :: location.strayLines := by
  rw [cut, List.flatMap_singleton, Line.toList_comment, Location.strayLines]
  split
  · rename_i hempty
    rw [String.isEmpty_iff.1 hempty]
    exact ⟨[], rfl⟩
  · obtain ⟨first, others, hsplit⟩ :=
      List.exists_cons_of_ne_nil (List.splitOn_ne_nil '\n' location.display.toList)
    have hmarker : '\n' ∉ "#: ".toList := by decide
    have happend := Text.splitOn_append_of_not_mem hmarker location.display.toList
    rw [hsplit] at happend ⊢
    exact ⟨' ' :: first, happend⟩

theorem accounted_reference (location : Location) :
    Accounted [comment "#:" location.display] location.strayLines 0 := by
  obtain ⟨rest, hcut⟩ := cut_reference location
  have hmarked : IsLine ('#' :: ':' :: rest) := Or.inr (Or.inr (Or.inl ⟨rest, rfl⟩))
  have hcloses : opensEntry ('#' :: ':' :: rest) = false := rfl
  refine ⟨?_, ?_⟩
  · rw [hcut, List.forall_mem_cons]
    exact and_iff_right hmarked
  · rw [hcut, List.countP_cons_of_neg (by simp [hcloses]), Nat.zero_add]

theorem accounted_record (entry : Entry) : Accounted (record entry) entry.strayLines 1 := by
  have hcomment := (reads_comment entry).accounted
  have hreferences : Accounted (entry.references.map fun location => comment "#:" location.display)
      entry.strayLines (entry.references.length * 0) := by
    rw [List.map_eq_flatMap]
    exact Accounted.flatMap fun location _ => accounted_reference location
  have hid := (reads_keyword .id entry.id).accounted
  have htranslations := (reads_translations entry.id entry.translations).accounted
  rw [Line.countP_map fun _ => rfl] at hcomment
  rw [Line.countP_ofValue_id] at hid
  rw [Line.countP_ofTranslations] at htranslations
  have hrecord := ((hcomment.append hreferences).append hid).append htranslations
  rwa [List.nil_append, List.append_nil, List.append_nil] at hrecord

end Po

/-! ## A whole document -/

namespace CatalogDocument

/-- The lines that a document is written in, perhaps with line feeds inside. -/
def written (document : CatalogDocument) : List String :=
  Po.header document.header ++ document.records.flatMap fun entry => "" :: Po.record entry

/-- The lines that a document is meant as. -/
def lines (document : CatalogDocument) : List Po.Line :=
  Po.Line.ofHeader document.header ++ document.records.flatMap fun entry =>
    .blank :: Po.Line.ofEntry entry

theorem reads_written {document : CatalogDocument}
    (h : ∀ entry ∈ document.records, ∀ location ∈ entry.references,
      '\n' ∉ location.file.toList) : Po.Reads document.written document.lines := by
  refine (Po.reads_header document.header).append (Po.Reads.flatMap fun entry hentry => ?_)
  have hblank : Po.Reads [""] [.blank] := Po.Reads.singleton (by decide) rfl
  exact hblank.append (Po.reads_record (h entry hentry))

/-- The text is cut into the lines that were written and an empty one behind the last feed. -/
theorem splitOn_toPo (document : CatalogDocument) :
    document.toPo.toList.splitOn '\n' = Po.cut document.written ++ [[]] := by
  have htext : document.toPo.toList =
      (document.written.map String.toList).flatMap (· ++ ['\n']) := by
    rw [toPo, Po.unlines, String.toList_join, List.flatMap_map, List.flatMap_map]
    simp only [String.toList_append]
    rfl
  rw [htext, Text.splitOn_flatMap_append_singleton, List.flatMap_map, Po.cut]

theorem accounted (document : CatalogDocument) :
    Po.Accounted document.written document.strayLines (document.records.length + 1) := by
  have hheader := (Po.reads_header document.header).accounted
  rw [Po.Line.countP_ofHeader] at hheader
  have hrecords : Po.Accounted (document.records.flatMap fun entry => "" :: Po.record entry)
      document.strayLines (document.records.length * 1) := by
    refine Po.Accounted.flatMap fun entry _ => ?_
    have hblank : Po.Reads [""] [.blank] := Po.Reads.singleton (by decide) rfl
    exact hblank.accounted.append (Po.accounted_record entry)
  have hdocument := hheader.append hrecords
  rwa [List.nil_append, Nat.mul_one, Nat.add_comm] at hdocument

/-- Every line of the text of a document is a line of PO text exactly if the stray lines of its
references are. One line opens the header, one each record, and the stray lines open the rest.
There are no stray lines exactly if no reference is to a file with a line feed in its name. -/
theorem isLine_toPo_iff (document : CatalogDocument) :
    ((∀ line ∈ document.toPo.toList.splitOn '\n', Po.IsLine line) ↔
      ∀ line ∈ document.strayLines, Po.IsLine line) ∧
    (document.toPo.toList.splitOn '\n').countP Po.opensEntry =
      document.records.length + 1 + document.strayLines.countP Po.opensEntry ∧
    (document.strayLines = [] ↔
      ∀ entry ∈ document.records, ∀ location ∈ entry.references,
        '\n' ∉ location.file.toList) := by
  have haccounted := document.accounted
  refine ⟨?_, ?_, strayLines_eq_nil_iff⟩
  · have hlast : Po.IsLine [] := Or.inl rfl
    rw [splitOn_toPo, List.forall_mem_append, haccounted.lines, List.forall_mem_singleton]
    exact and_iff_left hlast
  · rw [splitOn_toPo, List.countP_append, haccounted.opens]
    rfl

/-- A record with references to files that have line feeds in their names. -/
def forged : CatalogDocument where
  header  := Header.stamped "2024-03-01 12:30+0000"
  records :=
    [{ id         := "Save"
       references := [{ file := "a.jsx\nmsgid \"Open\"" }, { file := "b.jsx\nc.jsx" }] }]

/-- One stray line opens a third entry, and the other is no line of PO text. -/
theorem toPo_forged :
    (forged.toPo.toList.splitOn '\n').countP Po.opensEntry ≠ forged.records.length + 1 ∧
      ¬ ∀ line ∈ forged.toPo.toList.splitOn '\n', Po.IsLine line := by
  have hstrays : forged.strayLines = ["msgid \"Open\"".toList, "c.jsx".toList] := by decide
  have haccounted := forged.accounted
  rw [hstrays] at haccounted
  rw [splitOn_toPo, List.countP_append, haccounted.opens, List.forall_mem_append, haccounted.lines]
  decide

end CatalogDocument
end Phrasebook
