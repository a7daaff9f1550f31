-- SUMMARY: Message ids are canonical: how a text splits, and what is left of it when it is normalized.
import Phrasebook.Message.Identity
import Phrasebook.Proofs.Text.Words

/-!
# Canonical ids

There is one way to cut a text into blanks, an id without blanks at its ends, and blanks again
(`Splits.eq`). Normalizing what was split off gives the same as splitting the text with its blanks
collapsed (`ofText_eq_split`), and the id is then the words of the text with single spaces between
them (`id_ofText_true`), which has the same words (`wordsOf_id`). `ofText_canonical` puts this
together.
-/
namespace Phrasebook.MessageId

open Text (isBlank StartsTight EndsTight)

variable {text : String} {message : MessageId}

/-! ## Splitting -/

/-- A text is split where trimming cuts it. -/
theorem split_eq {front core back : List Char} (htext : text.toList = front ++ (core ++ back))
    (hstart : Text.trimStart text.toList = core ++ back) (hend : Text.trimEnd (core ++ back) = core) :
    split text = ⟨String.ofList front, String.ofList core, String.ofList back⟩ := by
  have hfront : text.toList.takeWhile isBlank = front := by
    have h := Text.takeWhile_append_trimStart text.toList
    rw [hstart] at h
    exact List.append_cancel_right (h.trans htext)
  have hback : ((core ++ back).reverse.takeWhile isBlank).reverse = back := by
    have h := Text.trimEnd_append_takeWhile (core ++ back)
    rw [hend] at h
    exact List.append_cancel_left h
  simp only [split, hstart, hend, hfront, hback]

/-- The message is the text, cut where its blanks at the front end and those at the back begin. -/
structure Splits (message : MessageId) (text : String) : Prop where
  /-- Nothing is lost. -/
  wrap_eq        : message.wrap message.id = text
  leading_blank  : ∀ c ∈ message.leading.toList, isBlank c = true
  trailing_blank : ∀ c ∈ message.trailing.toList, isBlank c = true
  startsTight    : StartsTight message.id.toList
  endsTight      : EndsTight message.id.toList
  /-- Blanks with nothing between them are all in front. -/
  trailing_eq    : message.id = "" → message.trailing = ""

theorem Splits.toList_eq (h : message.Splits text) :
    text.toList = message.leading.toList ++ (message.id.toList ++ message.trailing.toList) := by
  rw [← h.wrap_eq]
  simp [wrap]

theorem Splits.startsTight_append (h : message.Splits text) :
    StartsTight (message.id.toList ++ message.trailing.toList) := by
  cases hid : message.id.toList with
  | nil => simp [h.trailing_eq (String.toList_eq_nil_iff.1 hid)]
  | cons c cs => simpa [hid] using h.startsTight

/-- A text splits in one way only. -/
theorem Splits.eq (h : message.Splits text) : split text = message := by
  have hstart : Text.trimStart text.toList = message.id.toList ++ message.trailing.toList := by
    rw [h.toList_eq, Text.trimStart_blanks_append h.leading_blank]
    exact Text.trimStart_eq_self h.startsTight_append
  have hend : Text.trimEnd (message.id.toList ++ message.trailing.toList) = message.id.toList := by
    rw [Text.trimEnd_append_blanks h.trailing_blank]
    exact Text.trimEnd_eq_self h.endsTight
  simpa using split_eq h.toList_eq hstart hend

theorem toList_id_split (text : String) : (split text).id.toList = Text.trim text.toList := by
  simp [split, Text.trim]

theorem splits_split (text : String) : (split text).Splits text where
  wrap_eq        := wrap_split text
  leading_blank  := by
    intro c hc
    rw [split, String.toList_ofList] at hc
    exact Text.isBlank_of_mem_takeWhile hc
  trailing_blank := by
    intro c hc
    rw [split, String.toList_ofList, List.mem_reverse] at hc
    exact Text.isBlank_of_mem_takeWhile hc
  startsTight    := by
    rw [toList_id_split]
    exact Text.startsTight_trim text.toList
  endsTight      := by
    rw [toList_id_split]
    exact Text.endsTight_trimEnd _
  trailing_eq    := by
    intro hid
    have htrim : Text.trim text.toList = [] := by rw [← toList_id_split, hid]; rfl
    have hcore : Text.trimStart text.toList = [] :=
      Text.eq_nil_of_trimEnd (Text.startsTight_trimStart _) htrim
    rw [split, hcore]
    rfl

/-- An id is all id. -/
theorem Splits.split_id (h : message.Splits text) : split message.id = ⟨"", message.id, ""⟩ := by
  have hid : (⟨"", message.id, ""⟩ : MessageId).Splits message.id := {
    wrap_eq        := by simp [wrap]
    leading_blank  := by simp
    trailing_blank := by simp
    startsTight    := h.startsTight
    endsTight      := h.endsTight
    trailing_eq    := fun _ => rfl }
  exact hid.eq

/-- A trimmed text is all id. -/
theorem split_trim {cs : List Char} (h : text.toList = Text.trim cs) :
    split text = ⟨"", text, ""⟩ := by
  have htext : (split (String.ofList cs)).id = text := by
    apply String.toList_inj.1
    rw [toList_id_split, String.toList_ofList, h]
  have hid := (splits_split (String.ofList cs)).split_id
  rwa [htext] at hid

/-- Blanks with nothing between them are all in front. -/
theorem split_blank (h : ∀ c ∈ text.toList, isBlank c = true) : split text = ⟨text, "", ""⟩ := by
  have htext : (⟨text, "", ""⟩ : MessageId).Splits text := {
    wrap_eq        := by simp [wrap]
    leading_blank  := h
    trailing_blank := by simp
    startsTight    := by simp
    endsTight      := by simp
    trailing_eq    := fun _ => rfl }
  exact htext.eq

/-! ## Normalizing -/

/-- An edge shrinks to what its blanks collapse to. -/
theorem toList_shrinkEdge {edge : String} (h : ∀ c ∈ edge.toList, isBlank c = true) :
    (shrinkEdge edge).toList = Text.collapse edge.toList := by
  cases hedge : edge.toList with
  | nil =>
    obtain rfl : edge = "" := String.toList_eq_nil_iff.1 hedge
    rfl
  | cons c cs =>
    have hne : edge.isEmpty = false := by
      rw [String.isEmpty_eq_false_iff]
      rintro rfl
      cases hedge
    have hspace : ∀ b ∈ [' '], isBlank b = true := by simp [Text.isBlank_space]
    rw [shrinkEdge, hne]
    exact Text.collapse_blanks [] (by simp) hspace (by simp) (hedge ▸ h)

theorem isBlank_of_mem_shrinkEdge {edge : String} {c : Char} (h : c ∈ (shrinkEdge edge).toList) :
    isBlank c = true := by
  rw [shrinkEdge] at h
  split at h
  · cases h
  · obtain rfl : c = ' ' := by simpa using h
    exact Text.isBlank_space

/-- What is normalized is cut where the collapsed text is. -/
theorem Splits.normalized (h : message.Splits text) :
    message.normalized.Splits (Text.collapsed text) where
  wrap_eq        := by
    have hcollapse : Text.collapse text.toList =
        Text.collapse message.leading.toList ++
          (Text.collapse message.id.toList ++ Text.collapse message.trailing.toList) := by
      rw [h.toList_eq]
      exact Text.collapse_append_append h.startsTight_append h.endsTight
    apply String.toList_inj.1
    simp [wrap, MessageId.normalized, shrinkEdges, Text.collapsed, hcollapse,
      toList_shrinkEdge h.leading_blank, toList_shrinkEdge h.trailing_blank]
  leading_blank  := fun _ => isBlank_of_mem_shrinkEdge
  trailing_blank := fun _ => isBlank_of_mem_shrinkEdge
  startsTight    := by
    simpa [MessageId.normalized, shrinkEdges, Text.collapsed] using
      Text.startsTight_collapse h.startsTight
  endsTight      := by
    simpa [MessageId.normalized, shrinkEdges, Text.collapsed] using
      Text.endsTight_collapse h.endsTight
  trailing_eq    := by
    intro hid
    have hempty : message.id = "" := by
      simpa [MessageId.normalized, shrinkEdges, Text.collapsed, Text.collapse_eq_nil_iff] using hid
    simp [MessageId.normalized, shrinkEdges, h.trailing_eq hempty, shrinkEdge]

/-- Normalizing what was split off is splitting the text with its blanks collapsed. -/
theorem ofText_eq_split (text : String) (normalize : Bool) :
    ofText text normalize = split (if normalize then Text.collapsed text else text) := by
  cases normalize with
  | false => rfl
  | true => exact (splits_split text).normalized.eq.symm

/-! ## Words -/

/-- The words of a text: the pieces between its blanks, without the empty pieces. -/
def wordsOf (text : String) : List String :=
  ((text.toList.splitOnP isBlank).filter (!·.isEmpty)).map String.ofList

theorem wordsOf_eq (text : String) : wordsOf text = (Text.words text.toList).map String.ofList := by
  rw [wordsOf, Text.words_eq_filter_splitOnP]

theorem toList_id_ofText_true (text : String) :
    (ofText text true).id.toList = Text.collapse (Text.trim text.toList) := by
  simp [ofText, normalized, shrinkEdges, Text.collapsed, toList_id_split]

theorem id_ofText_true (text : String) :
    (ofText text true).id = " ".intercalate (wordsOf text) := by
  have hpieces (pieces : List (List Char)) :
      (pieces.map String.ofList).map String.toList = pieces := by
    simp [Function.comp_def]
  apply String.toList_inj.1
  rw [toList_id_ofText_true, Text.collapse_trim, String.toList_intercalate, wordsOf_eq, hpieces]
  rfl

/-- A text and its id have the same words. -/
theorem wordsOf_id (text : String) : wordsOf (ofText text true).id = wordsOf text := by
  rw [wordsOf_eq, wordsOf_eq, toList_id_ofText_true, Text.words_collapse, Text.words_trim]

/-- An id is its own id. -/
theorem ofText_id (text : String) (normalize : Bool) :
    ofText (ofText text normalize).id normalize = ⟨"", (ofText text normalize).id, ""⟩ := by
  have hcollapsed : normalize = true →
      Text.collapsed (ofText text normalize).id = (ofText text normalize).id := by
    rintro rfl
    apply String.toList_inj.1
    simp [Text.collapsed, toList_id_ofText_true, Text.collapse_collapse]
  have hid := (splits_split (if normalize then Text.collapsed text else text)).split_id
  rw [← ofText_eq_split] at hid
  rw [ofText_eq_split]
  split
  · rename_i hnormalize
    rw [hcollapsed hnormalize, hid]
  · exact hid

/-! ## Edges -/

theorem shrinkEdge_ofList (cs : List Char) :
    shrinkEdge (String.ofList cs) = if cs.isEmpty then "" else " " := by
  cases cs with
  | nil => rfl
  | cons c cs => simp [shrinkEdge]

/-- The message of a text with its blanks normalized: its words with single spaces between them, and
a space at either end for blanks there. Blanks with nothing between them are all in front. -/
structure Normalizes (message : MessageId) (text : String) : Prop where
  id_eq       : message.id = " ".intercalate (wordsOf text)
  leading_eq  : message.leading = if text.toList.head?.any isBlank then " " else ""
  trailing_eq : message.trailing =
    if text.toList.getLast?.any isBlank && !Text.isBlankText text.toList then " " else ""
  wrap_eq     : message.wrap message.id = Text.collapsed text

theorem isEmpty_takeWhile (cs : List Char) :
    (cs.takeWhile isBlank).isEmpty = !cs.head?.any isBlank := by
  cases cs with
  | nil => rfl
  | cons c cs => cases hc : isBlank c <;> simp [hc]

/-- Behind the blanks in front, a text ends in a blank as before, unless nothing is left. -/
theorem any_getLast?_trimStart (cs : List Char) :
    (Text.trimStart cs).getLast?.any isBlank =
      (cs.getLast?.any isBlank && !Text.isBlankText cs) := by
  cases hcore : Text.trimStart cs with
  | nil =>
    have hblank : Text.isBlankText cs = true :=
      List.all_eq_true.2 (Text.trimStart_eq_nil_iff.1 hcore)
    simp [hblank]
  | cons c core =>
    have hcs : cs.takeWhile isBlank ++ c :: core = cs := by
      rw [← hcore]
      exact Text.takeWhile_append_trimStart cs
    have htext : Text.isBlankText cs = false := by
      have hc : isBlank c = false := by simpa [hcore] using Text.startsTight_trimStart cs
      rw [Text.isBlankText, List.all_eq_false]
      exact ⟨c, by rw [← hcs]; simp, by simp [hc]⟩
    have hlast : cs.getLast? = (c :: core).getLast? := by
      rw [← hcs]
      simp [List.getLast?_append, List.getLast?_cons]
    simp [htext, hlast]

theorem normalizes_ofText (text : String) : (ofText text true).Normalizes text where
  id_eq       := id_ofText_true text
  leading_eq  := by
    simp only [ofText, normalized, shrinkEdges, split, shrinkEdge_ofList, isEmpty_takeWhile]
    cases text.toList.head?.any isBlank <;> rfl
  trailing_eq := by
    rw [← any_getLast?_trimStart]
    simp only [ofText, normalized, shrinkEdges, split, shrinkEdge_ofList, List.isEmpty_reverse,
      isEmpty_takeWhile, List.head?_reverse]
    cases (Text.trimStart text.toList).getLast?.any isBlank <;> rfl
  wrap_eq     := by
    rw [ofText_eq_split]
    exact wrap_split (Text.collapsed text)

/-- Message ids are canonical. As it stands, a text is cut around its id in the one way there is,
with all of a blank text in front. Normalized, its id is its words with single spaces between them,
so texts share an id exactly if they have the same words, and the id with its edges is the text with
its blanks collapsed. Either way an id is its own id. -/
theorem ofText_canonical (text : String) :
    (ofText text false).Splits text ∧ (∀ message : MessageId, message.Splits text →
      message = ofText text false) ∧
    ((∀ c ∈ text.toList, isBlank c = true) → ofText text false = ⟨text, "", ""⟩) ∧
    (ofText text true).Normalizes text ∧
    (∀ other, (ofText text true).id = (ofText other true).id ↔ wordsOf text = wordsOf other) ∧
    ∀ normalize, ofText (ofText text normalize).id normalize =
      ⟨"", (ofText text normalize).id, ""⟩ := by
  refine ⟨splits_split text, fun message h => h.eq.symm, split_blank, normalizes_ofText text, ?_,
    ofText_id text⟩
  intro other
  constructor
  · intro h
    rw [← wordsOf_id text, h, wordsOf_id]
  · intro h
    rw [id_ofText_true, id_ofText_true, h]

end Phrasebook.MessageId
