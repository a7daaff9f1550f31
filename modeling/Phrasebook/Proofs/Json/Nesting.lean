-- SUMMARY: JSON values by induction on their nesting: depths and limits, and the values without loss.
import Phrasebook.Json.Number

/-!
# Nesting

The functions on values go through arrays and objects in companions of their own. Here is what they
say of all items and members at once. A limit that is not exceeded changes nothing
(`limit_of_depth_le`). A plain value is one that a text can hold without loss: its numbers are
integers of 64 bits, and no part of it is garbled.
-/
namespace Phrasebook.Json

namespace Value

/-- What holds of the scalars, of an array if it holds of its items, and of an object if it holds of
the values of its members, holds of all values. -/
@[elab_as_elim]
theorem induction {motive : Value → Prop} (null : motive .null)
    (bool : ∀ value, motive (.bool value)) (number : ∀ n, motive (.number n))
    (string : ∀ text, motive (.string text))
    (array : ∀ items, (∀ item ∈ items, motive item) → motive (.array items))
    (object : ∀ members, (∀ member ∈ members, motive member.2) → motive (.object members))
    (garbled : motive .garbled) : ∀ value, motive value
  | .null => null
  | .bool value => bool value
  | .number n => number n
  | .string text => string text
  | .array items =>
    array items fun item _ => induction null bool number string array object garbled item
  | .object members =>
    object members fun member _ =>
      induction null bool number string array object garbled member.2
  | .garbled => garbled
termination_by value => sizeOf value
decreasing_by
  · have := List.sizeOf_lt_of_mem ‹item ∈ items›
    simp only [Value.array.sizeOf_spec]
    omega
  · have := List.sizeOf_lt_of_mem ‹member ∈ members›
    cases member
    simp only [Value.object.sizeOf_spec, Prod.mk.sizeOf_spec] at *
    omega

variable {items : List Value} {members : List (String × Value)} {value : Value} {n : Nat}

/-! ## Depth -/

theorem depthAll_le_iff : depthAll items ≤ n ↔ ∀ item ∈ items, item.depth ≤ n := by
  induction items with
  | nil => simp [depthAll]
  | cons item items ih => rw [depthAll, Nat.max_le, ih, List.forall_mem_cons]

theorem depthMembers_le_iff : depthMembers members ≤ n ↔ ∀ member ∈ members, member.2.depth ≤ n := by
  induction members with
  | nil => simp [depthMembers]
  | cons member members ih => rw [depthMembers, Nat.max_le, ih, List.forall_mem_cons]

/-- An item nests less deep than its array. -/
theorem depth_lt_array (h : value ∈ items) : value.depth < (array items).depth :=
  Nat.lt_succ_of_le (depthAll_le_iff.1 (Nat.le_refl _) value h)

/-- A member nests less deep than its object. -/
theorem depth_lt_object {name : String} (h : (name, value) ∈ members) :
    value.depth < (object members).depth :=
  Nat.lt_succ_of_le (depthMembers_le_iff.1 (Nat.le_refl _) (name, value) h)

theorem limitAll_eq_map : limitAll n items = items.map (limit n) := by
  induction items with
  | nil => rfl
  | cons item items ih => rw [limitAll, ih, List.map_cons]

theorem limitMembers_eq_map :
    limitMembers n members = members.map fun member => (member.1, member.2.limit n) := by
  induction members with
  | nil => rfl
  | cons member members ih => rw [limitMembers, ih, List.map_cons]

/-- A limit that is not exceeded garbles nothing. -/
theorem limit_of_depth_le (h : value.depth ≤ n) : value.limit n = value := by
  induction value using Value.induction generalizing n with
  | null | bool | number | string | garbled => simp only [limit]
  | array items ih =>
    cases n with
    | zero => simp [depth] at h
    | succ n =>
      have hitems : ∀ item ∈ items, item.depth ≤ n :=
        depthAll_le_iff.1 (Nat.le_of_succ_le_succ h)
      have hmap : items.map (limit n) = items.map id :=
        List.map_congr_left fun item hitem => ih item hitem (hitems item hitem)
      simp only [limit, limitAll_eq_map, hmap, List.map_id]
  | object members ih =>
    cases n with
    | zero => simp [depth] at h
    | succ n =>
      have hmembers : ∀ member ∈ members, member.2.depth ≤ n :=
        depthMembers_le_iff.1 (Nat.le_of_succ_le_succ h)
      have hmap : members.map (fun member => (member.1, member.2.limit n)) = members.map id :=
        List.map_congr_left fun member hmember =>
          Prod.ext rfl (ih member hmember (hmembers member hmember))
      simp only [limit, limitMembers_eq_map, hmap, List.map_id]

end Value

/-! ## Plain values -/

/-- An integer that fits into 64 bits, with or without a sign. -/
def Number.Fits : Number → Prop
  | .int n => Text.Numeral.int64Min ≤ n ∧ n ≤ Text.Numeral.nat64Max
  | .real .. => False

namespace Value

variable {items : List Value} {members : List (String × Value)}

mutual
/-- A value that a text holds without loss. -/
def Plain : Value → Prop
  | .null | .bool _ | .string _ => True
  | .number n => n.Fits
  | .array items => PlainAll items
  | .object members => PlainMembers members
  | .garbled => False
def PlainAll : List Value → Prop
  | [] => True
  | item :: items => item.Plain ∧ PlainAll items
def PlainMembers : List (String × Value) → Prop
  | [] => True
  | (_, value) :: members => value.Plain ∧ PlainMembers members
end

@[simp] theorem plain_bool (value : Bool) : (bool value).Plain := trivial
@[simp] theorem plain_string (text : String) : (string text).Plain := trivial

theorem plain_ofNat {n : Nat} (h : n ≤ Text.Numeral.nat64Max) : (ofNat n).Plain :=
  ⟨Int.le_trans (by decide) (Int.natCast_nonneg n), Int.ofNat_le.2 h⟩

@[simp] theorem plain_ofNat_toNat (n : UInt32) : (ofNat n.toNat).Plain :=
  plain_ofNat (Nat.le_trans (Nat.le_of_lt n.toNat_lt) (by decide))

@[simp] theorem plain_array : (array items).Plain ↔ ∀ item ∈ items, item.Plain := by
  change PlainAll items ↔ _
  induction items with
  | nil => simp [PlainAll]
  | cons item items ih => simp [PlainAll, ih]

theorem plain_object : (object members).Plain ↔ ∀ member ∈ members, member.2.Plain := by
  change PlainMembers members ↔ _
  induction members with
  | nil => simp [PlainMembers]
  | cons member members ih => simp [PlainMembers, ih]

theorem allIntact_iff : allIntact items = true ↔ ∀ item ∈ items, item.isIntact = true := by
  induction items with
  | nil => simp [allIntact]
  | cons item items ih => simp [allIntact, ih]

theorem membersIntact_iff :
    membersIntact members = true ↔ ∀ member ∈ members, member.2.isIntact = true := by
  induction members with
  | nil => simp [membersIntact]
  | cons member members ih => simp [membersIntact, ih]

theorem isIntact_of_plain {value : Value} (h : value.Plain) : value.isIntact = true := by
  induction value using Value.induction with
  | null | bool | number | string => rfl
  | garbled => exact absurd h id
  | array items ih =>
    exact allIntact_iff.2 fun item hitem => ih item hitem (plain_array.1 h item hitem)
  | object members ih =>
    exact membersIntact_iff.2 fun member hmember =>
      ih member hmember (plain_object.1 h member hmember)

end Value

end Phrasebook.Json
