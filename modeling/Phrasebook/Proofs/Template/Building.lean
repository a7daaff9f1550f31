-- SUMMARY: What the tree builder makes of a sequence of tokens, and which sequences it accepts.
import Phrasebook.Template.Parse

/-!
# Building

The tokens of a piece are the piece written out again. What a builder has read is written down in
its frames: `step_read` says that a step adds the token it read and nothing else, so an accepted
sequence is the token list of its tree (`run_finish`). In the other direction a builder takes the
tokens of pieces as these pieces, as long as there is room for their depth (`run_tokensAll`).

A sequence that is not accepted is read up to a step that fails (`run_error`), or leaves a slot open
whose opening is the last without a closing (`run_leftOpen`).
-/
namespace Phrasebook.Template

/-! ## Induction -/

/-- What holds of no pieces, of a text in front of pieces, and of a slot in front of pieces holds of
all pieces. -/
@[elab_as_elim]
theorem Piece.inductionAll {motive : List Piece → Prop} (nil : motive [])
    (text : ∀ run ps, motive ps → motive (.text run :: ps))
    (slot : ∀ index inner ps, motive inner → motive ps → motive (.slot index inner :: ps)) :
    ∀ ps, motive ps
  | [] => nil
  | .text run :: ps => text run ps (inductionAll nil text slot ps)
  | .slot index inner :: ps =>
    slot index inner ps (inductionAll nil text slot inner) (inductionAll nil text slot ps)

/-! ## The tokens of a tree -/

mutual
/-- The tokens that a piece is written with. -/
def Piece.tokens : Piece → List Token
  | .text run => [.text run]
  | .slot index inner => .opening index :: Piece.tokensAll inner ++ [.closing]
def Piece.tokensAll : List Piece → List Token
  | [] => []
  | piece :: pieces => piece.tokens ++ Piece.tokensAll pieces
end

theorem Piece.tokensAll_append (ps qs : List Piece) :
    Piece.tokensAll (ps ++ qs) = Piece.tokensAll ps ++ Piece.tokensAll qs := by
  induction ps with
  | nil => rfl
  | cons p ps ih => simp [Piece.tokensAll, ih]

/-- The token opens or closes a slot. -/
def Token.isBracket : Token → Bool
  | .text _ => false
  | .opening _ => true
  | .closing => true

/-- The slots open behind tokens, where `depth` slots are open before them. There is no answer if
one is closed that is not open. -/
def Token.nesting (depth : Nat) : List Token → Option Nat
  | [] => some depth
  | .text _ :: ts => nesting depth ts
  | .opening _ :: ts => nesting (depth + 1) ts
  | .closing :: ts =>
    match depth with
    | 0 => none
    | depth + 1 => nesting depth ts

/-- The brackets of pieces balance. -/
theorem Token.nesting_tokensAll (ps : List Piece) (depth : Nat) (ts : List Token) :
    nesting depth (Piece.tokensAll ps ++ ts) = nesting depth ts := by
  induction ps using Piece.inductionAll generalizing depth ts with
  | nil => rfl
  | text run ps ih => exact ih depth ts
  | slot index inner ps ihInner ih =>
    simp [Piece.tokensAll, Piece.tokens, nesting, ihInner, ih]

theorem Piece.indicesAll_append (ps qs : List Piece) :
    Piece.indicesAll (ps ++ qs) = Piece.indicesAll ps ++ Piece.indicesAll qs := by
  induction ps with
  | nil => rfl
  | cons p ps ih => simp [Piece.indicesAll, ih]

/-- The slots that a token opens. -/
def Token.opened : Token → List Nat
  | .text _ => []
  | .opening index => [index]
  | .closing => []

/-- Slots are opened in document order. -/
theorem Token.opened_tokensAll (ps : List Piece) :
    (Piece.tokensAll ps).flatMap opened = Piece.indicesAll ps := by
  induction ps using Piece.inductionAll with
  | nil => rfl
  | text run ps ih =>
    simp [Piece.tokensAll, Piece.tokens, Piece.indicesAll, Piece.indices, opened, ih]
  | slot index inner ps ihInner ih =>
    simp [Piece.tokensAll, Piece.tokens, Piece.indicesAll, Piece.indices, opened, ihInner, ih]

/-- The greatest index is found by going through all of them. -/
theorem Piece.maxIndexAll_eq_foldl (ps : List Piece) (least : Nat) :
    Piece.maxIndexAll least ps = (Piece.indicesAll ps).foldl max least := by
  induction ps using Piece.inductionAll generalizing least with
  | nil => rfl
  | text run ps ih => simp [maxIndexAll, maxIndex, indicesAll, indices, ih]
  | slot index inner ps ihInner ih => simp [maxIndexAll, maxIndex, indicesAll, indices, ihInner, ih]

theorem Piece.depthAll_append (ps qs : List Piece) :
    Piece.depthAll (ps ++ qs) = max (Piece.depthAll ps) (Piece.depthAll qs) := by
  induction ps with
  | nil => simp [Piece.depthAll]
  | cons p ps ih => simp [Piece.depthAll, ih, Nat.max_assoc]

theorem Piece.depthAll_le_iff {ps : List Piece} {n : Nat} :
    Piece.depthAll ps ≤ n ↔ ∀ p ∈ ps, p.depth ≤ n := by
  induction ps with
  | nil => simp [Piece.depthAll]
  | cons p ps ih => rw [Piece.depthAll, Nat.max_le, ih, List.forall_mem_cons]

theorem Piece.mem_indicesAll {ps : List Piece} {i : Nat} :
    i ∈ Piece.indicesAll ps ↔ ∃ p ∈ ps, i ∈ p.indices := by
  induction ps with
  | nil => simp [Piece.indicesAll]
  | cons p ps ih => simp [Piece.indicesAll, ih]

/-- Nothing of the pieces before goes on in `ts`: it is empty or starts with a closing. -/
private def Ends (ts : List Token) : Prop := ∀ t ∈ ts.head?, t = .closing

/-- Pieces are told by their tokens, whatever follows a closing behind them. -/
private theorem Piece.tokensAll_append_inj {ps qs : List Piece} {ts us : List Token}
    (hts : Ends ts) (hus : Ends us) (h : Piece.tokensAll ps ++ ts = Piece.tokensAll qs ++ us) :
    ps = qs ∧ ts = us := by
  induction ps using Piece.inductionAll generalizing qs ts us with
  | nil =>
    obtain _ | ⟨run | ⟨index, inner⟩, qs⟩ := qs
    · exact ⟨rfl, h⟩
    all_goals
      obtain rfl : ts = _ := h
      simp [Ends, Piece.tokensAll, Piece.tokens] at hts
  | text run ps ih =>
    obtain _ | ⟨run' | ⟨index, inner⟩, qs⟩ := qs
    · obtain rfl : _ = us := h
      simp [Ends, Piece.tokensAll, Piece.tokens] at hus
    · simp only [Piece.tokensAll, Piece.tokens, List.cons_append, List.nil_append, List.cons.injEq,
        Token.text.injEq] at h
      obtain ⟨rfl, hrest⟩ := h
      obtain ⟨rfl, rfl⟩ := ih hts hus hrest
      exact ⟨rfl, rfl⟩
    · simp [Piece.tokensAll, Piece.tokens] at h
  | slot index inner ps ihInner ih =>
    obtain _ | ⟨run | ⟨index', inner'⟩, qs⟩ := qs
    · obtain rfl : _ = us := h
      simp [Ends, Piece.tokensAll, Piece.tokens] at hus
    · simp [Piece.tokensAll, Piece.tokens] at h
    · simp only [Piece.tokensAll, Piece.tokens, List.cons_append, List.nil_append,
        List.append_assoc, List.cons.injEq, Token.opening.injEq] at h
      obtain ⟨rfl, hinside⟩ := h
      obtain ⟨rfl, hclose⟩ := ihInner (by simp [Ends]) (by simp [Ends]) hinside
      obtain ⟨rfl, rfl⟩ := ih hts hus (List.cons.inj hclose).2
      exact ⟨rfl, rfl⟩

/-- Different pieces have different tokens. -/
theorem Piece.tokensAll_inj {ps qs : List Piece} (h : Piece.tokensAll ps = Piece.tokensAll qs) :
    ps = qs := by
  have hends : Ends [] := by simp [Ends]
  exact (Piece.tokensAll_append_inj hends hends (by simpa using h)).1

/-- A piece that may stand below `depth` slots: no slot in it has the root's index or is nested
too deep. -/
structure Piece.Fits (depth : Nat) (piece : Piece) : Prop where
  index_ne : ∀ i ∈ piece.indices, i ≠ rootIndex
  depth_le : depth + piece.depth ≤ maxDepth

/-! ## What a builder has read -/

namespace Builder

/-- The tokens read into the slot under way and the slots around it. -/
def readInto (current : Frame) : List Frame → List Token
  | [] => Piece.tokensAll current.pieces.reverse
  | parent :: outer =>
    readInto parent outer ++ .opening current.index :: Piece.tokensAll current.pieces.reverse

/-- The tokens that a builder has read. -/
def read (builder : Builder) : List Token := readInto builder.current builder.outer

/-- The frames are as a builder leaves them: the outermost is the root, the others are slots that
fit, and so do all pieces. -/
def Sound (current : Frame) : List Frame → Prop
  | [] => current.index = rootIndex ∧ ∀ p ∈ current.pieces, p.Fits 0
  | parent :: outer =>
    current.index ≠ rootIndex ∧ outer.length < maxDepth ∧
      (∀ p ∈ current.pieces, p.Fits (outer.length + 1)) ∧ Sound parent outer

theorem read_add (builder : Builder) (piece : Piece) :
    (builder.add piece).read = builder.read ++ piece.tokens := by
  obtain ⟨current, _ | ⟨parent, outer⟩⟩ := builder <;>
    simp [read, readInto, add, Piece.tokensAll_append, Piece.tokensAll]

theorem Sound.add (builder : Builder) {piece : Piece} (h : Sound builder.current builder.outer)
    (hpiece : piece.Fits builder.depth) :
    Sound (builder.add piece).current (builder.add piece).outer := by
  obtain ⟨current, _ | ⟨parent, outer⟩⟩ := builder
  · exact ⟨h.1, List.forall_mem_cons.2 ⟨hpiece, h.2⟩⟩
  · exact ⟨h.1, h.2.1, List.forall_mem_cons.2 ⟨hpiece, h.2.2.1⟩, h.2.2.2⟩

/-- A closed slot fits where it is put, since its pieces fit inside it. -/
theorem Sound.fits_slot {current : Frame} {parent : Frame} {outer : List Frame}
    (h : Sound current (parent :: outer)) :
    (Piece.slot current.index current.pieces.reverse).Fits outer.length := by
  obtain ⟨hindex, hdepth, hpieces, -⟩ := h
  constructor
  · intro i hi
    obtain rfl | hi : i = current.index ∨ i ∈ Piece.indicesAll current.pieces.reverse := by
      simpa [Piece.indices] using hi
    · exact hindex
    · obtain ⟨p, hp, hi⟩ := Piece.mem_indicesAll.1 hi
      exact (hpieces p (by simpa using hp)).index_ne i hi
  · have hinner : Piece.depthAll current.pieces.reverse ≤ maxDepth - (outer.length + 1) :=
      Piece.depthAll_le_iff.2 fun p hp => by
        have := (hpieces p (by simpa using hp)).depth_le
        omega
    simp only [Piece.depth]
    omega

/-- What a step does when it succeeds. -/
theorem step_cases {builder next : Builder} {placed : PlacedToken}
    (h : builder.step placed = .ok next) :
    (∃ run, placed.token = .text run ∧ next = builder.add (.text run)) ∨
    (∃ index, placed.token = .opening index ∧ index ≠ rootIndex ∧ builder.depth < maxDepth ∧
      next = ⟨{ index, position := placed.position }, builder.current :: builder.outer⟩) ∨
    (∃ parent outer, placed.token = .closing ∧ builder.outer = parent :: outer ∧
      next = add ⟨parent, outer⟩
        (.slot builder.current.index builder.current.pieces.reverse)) := by
  obtain ⟨token, position⟩ := placed
  cases token with
  | text run => exact .inl ⟨run, rfl, (Except.ok.inj h).symm⟩
  | opening index =>
    simp only [step, opening] at h
    split at h
    · cases h
    split at h
    · cases h
    rename_i hindex hdepth
    exact .inr (.inl ⟨index, rfl, hindex, Nat.not_le.1 hdepth, (Except.ok.inj h).symm⟩)
  | closing =>
    obtain ⟨current, _ | ⟨parent, outer⟩⟩ := builder
    · simp [step, closing] at h
    · exact .inr (.inr ⟨parent, outer, rfl, rfl, (Except.ok.inj h).symm⟩)

/-- A step reads one token and leaves the frames sound. -/
theorem step_read {builder next : Builder} {placed : PlacedToken}
    (h : Sound builder.current builder.outer) (hstep : builder.step placed = .ok next) :
    next.read = builder.read ++ [placed.token] ∧ Sound next.current next.outer := by
  obtain ⟨run, htoken, rfl⟩ | ⟨index, htoken, hindex, hdepth, rfl⟩ |
    ⟨parent, outer, htoken, houter, rfl⟩ := step_cases hstep <;> rw [htoken]
  · have hfits : (Piece.text run).Fits builder.depth := by
      refine ⟨by simp [Piece.indices], ?_⟩
      obtain ⟨current, _ | ⟨parent, outer⟩⟩ := builder
      · simp [Piece.depth, depth]
      · exact h.2.1
    exact ⟨read_add builder (.text run), h.add builder hfits⟩
  · exact ⟨by simp [read, readInto, Piece.tokensAll], hindex, hdepth, by simp, h⟩
  · rw [houter] at h
    refine ⟨?_, h.2.2.2.add ⟨parent, outer⟩ h.fits_slot⟩
    rw [read_add]
    simp [read, readInto, Piece.tokens, houter]

/-- A run reads its tokens in order and leaves the frames sound. -/
theorem run_read (builder : Builder) {last : Builder} {ts : List PlacedToken}
    (h : Sound builder.current builder.outer) (hrun : builder.run ts = .ok last) :
    last.read = builder.read ++ ts.map (·.token) ∧ Sound last.current last.outer := by
  induction ts generalizing builder with
  | nil =>
    obtain rfl := Except.ok.inj hrun
    exact ⟨by simp, h⟩
  | cons placed ts ih =>
    simp only [run] at hrun
    split at hrun
    · rename_i next hstep
      obtain ⟨hread, hsound⟩ := step_read h hstep
      obtain ⟨hlast, hsound⟩ := ih next hsound hrun
      exact ⟨by simp [hlast, hread], hsound⟩
    · cases hrun

/-- An accepted sequence of tokens is that of a tree that fits below the root. -/
theorem run_finish {ts : List PlacedToken} {last : Builder} {tree : Tree}
    (hrun : ({} : Builder).run ts = .ok last) (hfinish : last.finish = .ok tree) :
    tree.index = rootIndex ∧ ts.map (·.token) = Piece.tokensAll tree.pieces ∧
      (∀ i ∈ Piece.indicesAll tree.pieces, i ≠ rootIndex) ∧
      Piece.depthAll tree.pieces ≤ maxDepth := by
  obtain ⟨hread, hsound⟩ := run_read {} ⟨rfl, by simp⟩ hrun
  obtain ⟨current, _ | ⟨parent, outer⟩⟩ := last
  · obtain rfl := Except.ok.inj hfinish
    refine ⟨hsound.1, by simpa [read, readInto, Piece.tokensAll] using hread.symm, ?_, ?_⟩
    · intro i hi
      obtain ⟨p, hp, hi⟩ := Piece.mem_indicesAll.1 hi
      exact (hsound.2 p (by simpa using hp)).index_ne i hi
    · refine Piece.depthAll_le_iff.2 fun p hp => ?_
      simpa using (hsound.2 p (by simpa using hp)).depth_le
  · simp [finish] at hfinish

/-! ## Reading the tokens of a piece -/

theorem run_append (builder : Builder) (ts us : List PlacedToken) :
    builder.run (ts ++ us) =
      match builder.run ts with
      | .ok next => next.run us
      | .error failure => .error failure := by
  induction ts generalizing builder with
  | nil => rfl
  | cons placed ts ih =>
    simp only [List.cons_append, run]
    cases builder.step placed with
    | ok next => exact ih next
    | error failure => rfl

@[simp] theorem depth_add (builder : Builder) (piece : Piece) :
    (builder.add piece).depth = builder.depth := rfl

/-- Put pieces into the slot under way, the first one first. -/
def addAll (builder : Builder) : List Piece → Builder
  | [] => builder
  | piece :: pieces => (builder.add piece).addAll pieces

@[simp] theorem outer_addAll (builder : Builder) (ps : List Piece) :
    (builder.addAll ps).outer = builder.outer := by
  induction ps generalizing builder with
  | nil => rfl
  | cons p ps ih => simpa [addAll, add] using ih (builder.add p)

@[simp] theorem current_addAll (builder : Builder) (ps : List Piece) :
    (builder.addAll ps).current =
      { builder.current with pieces := ps.reverse ++ builder.current.pieces } := by
  induction ps generalizing builder with
  | nil => rfl
  | cons p ps ih => simp [addAll, ih, add]

/-- The tokens of pieces that find room are read as these pieces. -/
theorem run_tokensAll {ps : List Piece} (builder : Builder) {ts : List PlacedToken}
    (hts : ts.map (·.token) = Piece.tokensAll ps)
    (hindices : ∀ i ∈ Piece.indicesAll ps, i ≠ rootIndex)
    (hdepth : builder.depth + Piece.depthAll ps ≤ maxDepth) :
    builder.run ts = .ok (builder.addAll ps) := by
  induction ps using Piece.inductionAll generalizing builder ts with
  | nil =>
    obtain rfl : ts = [] := by simpa [Piece.tokensAll] using hts
    rfl
  | text run ps ih =>
    simp only [Piece.tokensAll, Piece.tokens, List.cons_append, List.nil_append] at hts
    obtain ⟨placed, ts, rfl, htoken, hts⟩ := List.map_eq_cons_iff.1 hts
    have hrest := ih (builder.add (.text run)) hts
      (by simpa [Piece.indicesAll, Piece.indices] using hindices)
      (by simpa [Piece.depthAll, Piece.depth] using hdepth)
    simpa [Builder.run, step, htoken, addAll] using hrest
  | slot index inner ps ihInner ih =>
    simp only [Piece.tokensAll, Piece.tokens, List.cons_append, List.append_assoc] at hts
    obtain ⟨first, ts, rfl, hopen, hts⟩ := List.map_eq_cons_iff.1 hts
    obtain ⟨us, ts, rfl, hus, hts⟩ := List.map_eq_append_iff.1 hts
    obtain ⟨last, ts, rfl, hclose, hts⟩ := List.map_eq_cons_iff.1 hts
    simp only [Piece.indicesAll, Piece.indices, List.cons_append, List.forall_mem_cons,
      List.forall_mem_append] at hindices
    obtain ⟨hindex, hinner, hafter⟩ := hindices
    simp only [Piece.depthAll, Piece.depth] at hdepth
    have hroom : ¬ builder.depth ≥ maxDepth := by omega
    have hrun := ihInner ⟨{ index, position := first.position }, builder.current :: builder.outer⟩
      hus hinner (by simp [depth] at hdepth ⊢; omega)
    have hrest := ih (builder.add (.slot index inner)) hts hafter (by simp; omega)
    simp [Builder.run, run_append, step, hopen, opening, hindex, hroom, hrun, hclose, closing]
    simpa [add, addAll] using hrest

/-! ## What a run counts, where it fails, and what it leaves open -/

/-- Why a step fails. -/
theorem step_error {builder : Builder} {placed : PlacedToken} {failure : TemplateError}
    (h : builder.step placed = .error failure) :
    (placed.token = .opening rootIndex ∧
      failure = .malformed .reservedElementIndex placed.position) ∨
    (∃ index, placed.token = .opening index ∧ maxDepth ≤ builder.depth ∧
      failure = .tooDeep maxDepth (builder.depth + 1) placed.position) ∨
    (placed.token = .closing ∧ builder.depth = 0 ∧
      failure = .malformed .unmatchedElements placed.position) := by
  obtain ⟨token, position⟩ := placed
  cases token with
  | text run => cases h
  | opening index =>
    simp only [step, opening] at h
    split at h
    · rename_i hindex
      exact .inl ⟨by rw [hindex], (Except.error.inj h).symm⟩
    split at h
    · rename_i hdepth
      exact .inr (.inl ⟨index, rfl, hdepth, (Except.error.inj h).symm⟩)
    · cases h
  | closing =>
    obtain ⟨current, _ | ⟨parent, outer⟩⟩ := builder
    · exact .inr (.inr ⟨rfl, rfl, (Except.error.inj h).symm⟩)
    · cases h

/-- A step opens no root, keeps to the depth allowed, and counts the slots that are open. -/
theorem step_nesting {builder next : Builder} {placed : PlacedToken}
    (h : builder.step placed = .ok next) (hdepth : builder.depth ≤ maxDepth) :
    (∀ i ∈ placed.token.opened, i ≠ rootIndex) ∧ next.depth ≤ maxDepth ∧
      ∀ ts, Token.nesting builder.depth (placed.token :: ts) = Token.nesting next.depth ts := by
  obtain ⟨run, htoken, rfl⟩ | ⟨index, htoken, hindex, hroom, rfl⟩ |
    ⟨parent, outer, htoken, houter, rfl⟩ := step_cases h <;> rw [htoken]
  · exact ⟨by simp [Token.opened], hdepth, fun ts => rfl⟩
  · exact ⟨by simpa [Token.opened] using hindex, hroom, fun ts => rfl⟩
  · have hcount : builder.depth = outer.length + 1 := by simp [depth, houter]
    refine ⟨by simp [Token.opened], ?_, fun ts => by rw [hcount]; rfl⟩
    change outer.length ≤ maxDepth
    omega

/-- So does a run. -/
theorem run_nesting {builder last : Builder} {ts : List PlacedToken}
    (h : builder.run ts = .ok last) (hdepth : builder.depth ≤ maxDepth) :
    (∀ i ∈ (ts.map (·.token)).flatMap Token.opened, i ≠ rootIndex) ∧ last.depth ≤ maxDepth ∧
      Token.nesting builder.depth (ts.map (·.token)) = some last.depth := by
  induction ts generalizing builder with
  | nil =>
    obtain rfl := Except.ok.inj h
    exact ⟨by simp, hdepth, rfl⟩
  | cons placed ts ih =>
    simp only [run] at h
    split at h
    · rename_i next hstep
      obtain ⟨hopened, hroom, hnesting⟩ := step_nesting hstep hdepth
      obtain ⟨hopenedAll, hlast, hnestingAll⟩ := ih h hroom
      refine ⟨?_, hlast, (hnesting _).trans hnestingAll⟩
      intro i hi
      exact (List.mem_append.1 (by simpa using hi)).elim (hopened i) (hopenedAll i)
    · cases h

/-- The beginning of a sequence that is read is read. -/
theorem run_front {builder last : Builder} {ts us : List PlacedToken}
    (h : builder.run (ts ++ us) = .ok last) : ∃ middle, builder.run ts = .ok middle ∧
      middle.run us = .ok last := by
  rw [run_append] at h
  split at h
  · rename_i middle hts
    exact ⟨middle, hts, h⟩
  · cases h

theorem run_singleton (builder : Builder) (placed : PlacedToken) :
    builder.run [placed] = builder.step placed := by
  rw [run]
  split <;> simp_all [run]

/-- A run that fails reads what stands before the token at fault. -/
theorem run_error {builder : Builder} {ts : List PlacedToken} {failure : TemplateError}
    (h : builder.run ts = .error failure) :
    ∃ us placed vs middle, ts = us ++ placed :: vs ∧ builder.run us = .ok middle ∧
      middle.step placed = .error failure := by
  induction ts generalizing builder with
  | nil => cases h
  | cons placed ts ih =>
    simp only [run] at h
    split at h
    · rename_i next hstep
      obtain ⟨us, fault, vs, middle, rfl, hus, hfault⟩ := ih h
      exact ⟨placed :: us, fault, vs, middle, rfl, by simpa [run, hstep] using hus, hfault⟩
    · rename_i found hstep
      obtain rfl := Except.error.inj h
      exact ⟨[], placed, ts, builder, rfl, rfl, hstep⟩

/-- As many closings as slots are open close them all. -/
theorem run_closings {builder : Builder} {ts : List PlacedToken}
    (hts : ts.map (·.token) = List.replicate builder.depth Token.closing) :
    ∃ last, builder.run ts = .ok last ∧ last.outer = [] := by
  obtain ⟨current, outer⟩ := builder
  induction outer generalizing current ts with
  | nil =>
    obtain rfl : ts = [] := by simpa [depth] using hts
    exact ⟨_, rfl, rfl⟩
  | cons parent outer ih =>
    obtain ⟨placed, ts, rfl, htoken, hrest⟩ := List.map_eq_cons_iff.1 hts
    obtain ⟨last, hrun, hlast⟩ := ih (add ⟨parent, outer⟩
      (.slot current.index current.pieces.reverse)).current hrest
    refine ⟨last, ?_, hlast⟩
    simp only [run, step, closing, htoken]
    exact hrun

/-- A slot under way was opened where its frame says, inside the slots around it, and what was read
since are its pieces. -/
theorem run_leftOpen {ts : List PlacedToken} {current parent : Frame} {outer : List Frame}
    (h : ({} : Builder).run ts = .ok ⟨current, parent :: outer⟩) :
    ∃ us vs, ts = us ++ ⟨.opening current.index, current.position⟩ :: vs ∧
      ({} : Builder).run us = .ok ⟨parent, outer⟩ ∧
      vs.map (·.token) = Piece.tokensAll current.pieces.reverse := by
  induction hn : ts.length using Nat.strongRecOn generalizing ts current parent outer with
  | ind n ih =>
    subst hn
    obtain rfl | ⟨ts, placed, hconcat⟩ := List.eq_nil_or_concat ts
    · cases h
    obtain rfl : _ = ts ++ [placed] := hconcat.trans (List.concat_eq_append ..)
    obtain ⟨⟨current', around⟩, hts, hplaced⟩ := run_front h
    rw [run_singleton] at hplaced
    obtain ⟨token, position⟩ := placed
    obtain ⟨run, htoken, hnext⟩ | ⟨index, htoken, -, -, hnext⟩ |
      ⟨parent', outer', htoken, houter, hnext⟩ := step_cases hplaced
    · obtain rfl : token = .text run := htoken
      obtain ⟨rfl, rfl⟩ := mk.inj hnext
      obtain ⟨us, vs, rfl, hus, hvs⟩ := ih _ (by simp) hts rfl
      refine ⟨us, vs ++ [⟨.text run, position⟩], by simp, hus, ?_⟩
      simp [hvs, Piece.tokensAll_append, Piece.tokensAll, Piece.tokens]
    · obtain ⟨rfl, houter⟩ := mk.inj hnext
      obtain ⟨rfl, rfl⟩ := List.cons.inj houter
      exact ⟨ts, [], by rw [← htoken], hts, rfl⟩
    · obtain rfl : token = .closing := htoken
      obtain rfl : _ = parent' :: outer' := houter
      obtain ⟨rfl, rfl⟩ := mk.inj hnext
      -- the slot that ends here stands inside the one under way, whose opening is further in front
      obtain ⟨us, vs, rfl, hus, hvs⟩ := ih _ (by simp) hts rfl
      obtain ⟨us, ws, rfl, hfront, hws⟩ := ih _ (by simp) hus rfl
      refine ⟨us, ws ++ ⟨.opening current'.index, current'.position⟩ :: vs ++ [⟨.closing, position⟩],
        by simp, hfront, ?_⟩
      simp [hvs, hws, Piece.tokensAll_append, Piece.tokensAll, Piece.tokens]

end Builder

end Phrasebook.Template
