-- SUMMARY: The builder takes the tokens of a JSON value as that value, so printed values are read back.
import Phrasebook.Json.Reader
import Phrasebook.Proofs.Json.Printing

/-!
# Building

The tokens of a value, wherever it is due, deliver the value to the array or object around it
(`Builder.run_tokens`). With what the printed texts spell it follows that reading undoes printing:
a plain value that does not nest too deep is read back from its text on one line and from its
indented text (`ofText?_compact`, `ofText?_pretty`).
-/
namespace Phrasebook.Json

namespace Builder

open Value (tokens memberToken tokens_array tokens_object)

variable {builder next : Builder} {t : Token} {ts us : List Token} {stack : List Frame}

theorem run_cons (h : builder.step t = some next) : builder.run (t :: ts) = next.run ts := by
  simp only [run, h]

theorem run_append (h : builder.run ts = some next) : builder.run (ts ++ us) = next.run us := by
  induction ts generalizing builder with
  | nil =>
    cases h
    rfl
  | cons t ts ih =>
    cases hstep : builder.step t with
    | none => simp [run, hstep] at h
    | some between =>
      rw [run_cons hstep] at h
      rw [List.cons_append, run_cons hstep, ih h]

theorem run_singleton : builder.run [t] = builder.step t := by
  cases h : builder.step t <;> simp [run, h]

/-! ## Elements with commas between them -/

/-- Elements are read one after the other. Of the elements read so far, the last one first, `before`
and `after` make the builder behind a comma and the one in front of it. -/
theorem run_separated {α : Type} {tokens : α → List Token} (before after : List α → Builder)
    {x : α} {xs done : List α} (hx : builder.run (tokens x) = some (after (x :: done)))
    (hxs : ∀ y ∈ xs, ∀ done, (before done).run (tokens y) = some (after (y :: done)))
    (hcomma : ∀ done, (after done).step .comma = some (before done)) :
    builder.run ([.comma].intercalate ((x :: xs).map tokens)) =
      some (after (xs.reverse ++ x :: done)) := by
  induction xs generalizing builder x done with
  | nil => simpa using hx
  | cons y ys ih =>
    obtain ⟨hy, hys⟩ := List.forall_mem_cons.1 hxs
    have hrest := ih (hy (x :: done)) hys
    have hsplit : [.comma].intercalate ((x :: y :: ys).map tokens) =
        tokens x ++ (.comma :: [.comma].intercalate ((y :: ys).map tokens)) := by
      simp
    rw [hsplit, run_append hx, run_cons (hcomma _), hrest, List.reverse_cons, List.append_assoc]
    rfl

/-- At the first item of an array, a value is read as everywhere else. -/
theorem run_item (value : Value) :
    run ⟨.item, stack⟩ value.tokens = run ⟨.value, stack⟩ value.tokens := by
  obtain ⟨t, ts, htokens, ht⟩ : ∃ t ts, value.tokens = t :: ts ∧ t ≠ .arrayClose := by
    cases value <;> (rw [tokens]; exact ⟨_, _, rfl, fun h => by cases h⟩)
  have hstep : step ⟨.item, stack⟩ t = step ⟨.value, stack⟩ t := by
    cases t with
    | arrayClose => exact absurd rfl ht
    | _ => rfl
  simp only [htokens, run, hstep]

/-- A member is read where a name is due. -/
theorem run_member {focus : Focus} (hfocus : focus = .member ∨ focus = .name)
    {member : String × Value} {done : List (String × Value)}
    (h : ∀ stack, run ⟨.value, stack⟩ member.2.tokens = deliver member.2 stack) :
    run ⟨focus, .object done false :: stack⟩ (memberToken member) =
      some ⟨.rest, .object (member :: done) false :: stack⟩ := by
  have hname : step ⟨focus, .object done false :: stack⟩ (.string (some member.1)) =
      some ⟨.colon, .member done false (some member.1) :: stack⟩ := by
    obtain rfl | rfl := hfocus <;> rfl
  have hcolon : step ⟨.colon, .member done false (some member.1) :: stack⟩ .colon =
      some ⟨.value, .member done false (some member.1) :: stack⟩ := rfl
  rw [memberToken, run_cons hname, run_cons hcolon, h]
  rfl

/-! ## Values -/

/-- Where a value is due, the tokens of a value deliver it. -/
theorem run_tokens (value : Value) (stack : List Frame) :
    run ⟨.value, stack⟩ value.tokens = deliver value stack := by
  -- for any stack, because items and members are read with their array or object on top
  induction value using Value.induction generalizing stack with
  | null | bool | number | string | garbled =>
    rw [tokens, run_singleton]
    rfl
  | array items ih =>
    have hopen : step ⟨.value, stack⟩ .arrayOpen = some ⟨.item, .array [] :: stack⟩ := rfl
    rw [tokens_array, run_cons hopen]
    cases items with
    | nil => exact run_singleton
    | cons item items =>
      obtain ⟨hitem, hitems⟩ := List.forall_mem_cons.1 ih
      have hfirst : run ⟨.item, .array [] :: stack⟩ item.tokens =
          some ⟨.rest, .array [item] :: stack⟩ := (run_item item).trans (hitem _)
      have hall := run_separated (fun done => ⟨.value, .array done :: stack⟩)
        (fun done => ⟨.rest, .array done :: stack⟩) hfirst
        (fun other hother done => hitems other hother _) (fun _ => rfl)
      rw [run_append hall, run_singleton]
      change deliver (.array (items.reverse ++ [item]).reverse) stack = _
      rw [List.reverse_append, List.reverse_reverse]
      rfl
  | object members ih =>
    have hopen : step ⟨.value, stack⟩ .objectOpen = some ⟨.member, .object [] false :: stack⟩ := rfl
    rw [tokens_object, run_cons hopen]
    cases members with
    | nil => exact run_singleton
    | cons member members =>
      obtain ⟨hmember, hmembers⟩ := List.forall_mem_cons.1 ih
      have hfirst : run ⟨.member, .object [] false :: stack⟩ (memberToken member) =
          some ⟨.rest, .object [member] false :: stack⟩ := run_member (.inl rfl) hmember
      have hall := run_separated (fun done => ⟨.name, .object done false :: stack⟩)
        (fun done => ⟨.rest, .object done false :: stack⟩) hfirst
        (fun other hother done => run_member (.inr rfl) (hmembers other hother)) (fun _ => rfl)
      rw [run_append hall, run_singleton]
      change deliver (.object (members.reverse ++ [member]).reverse) stack = _
      rw [List.reverse_append, List.reverse_reverse]
      rfl

end Builder

/-! ## Whole texts -/

namespace Value

variable {value : Value} {text : String}

theorem ofTokens?_tokens (value : Value) : ofTokens? value.tokens = some value := by
  unfold ofTokens?
  rw [Builder.run_tokens]
  rfl

/-- A text that spells the tokens of a value is read as the value, if it does not nest too deep. -/
theorem ofText?_of_spells (h : Spells text.toList value.tokens) (hdepth : value.depth ≤ maxNesting) :
    ofText? text = some value := by
  unfold ofText? read?
  rw [h.tokenize?_eq, Option.bind_some, ofTokens?_tokens, Option.map_some,
    limit_of_depth_le hdepth]

theorem ofText?_compact (h : value.Plain) (hdepth : value.depth ≤ maxNesting) :
    ofText? value.compact = some value :=
  ofText?_of_spells (spells_compact h) hdepth

theorem ofText?_pretty (h : value.Plain) (hdepth : value.depth ≤ maxNesting) :
    ofText? value.pretty = some value :=
  ofText?_of_spells (spells_indented h 0) hdepth

end Value

end Phrasebook.Json
