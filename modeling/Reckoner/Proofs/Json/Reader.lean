import Reckoner.Json.Reader
import Reckoner.Proofs.Json.Scaling

/-!
# What the reader holds

Whatever a text says, the reader holds whole numbers that fit 64 bits, with or without a sign, and
finite numbers of double precision, at any depth.
-/
namespace Reckoner.Json

open Binary64

/-- The numbers in a value are whole and fit 64 bits, or are finite. -/
inductive Held : Json → Prop where
  | null : Held null
  | bool (value : Bool) : Held (bool value)
  | integer {n : Int} (hle : -2 ^ 63 ≤ n) (hlt : n < 2 ^ 64) : Held (integer n)
  | real {x : Float} (h : x.isFinite = true) : Held (real x)
  | string (text : String) : Held (string text)
  | array {items : List Json} (h : ∀ item ∈ items, Held item) : Held (array items)
  | object {fields : List (String × Json)} (h : ∀ field ∈ fields, Held field.2) :
      Held (object fields)

theorem accumulate_lt {significand : Nat} (h : significand < UInt64.size) (cs : List Char) :
    (accumulate significand cs).value < UInt64.size := by
  induction cs generalizing significand with
  | nil => exact h
  | cons c cs ih =>
    rw [accumulate]
    dsimp only
    split
    · next hnext => exact ih hnext.2
    · exact h

theorem unsigned_toFloat {n : Nat} (h : n < UInt64.size) : Unsigned n.toUInt64.toFloat :=
  toFloat_toUInt64 h ▸ unsigned_nearest (nearestOrdinal_natCast_lt h)

theorem held_ofWhole (negative : Bool) {significand : Nat} (h : significand < UInt64.size) :
    (ofWhole negative significand).Held := by
  have hfinite := (unsigned_toFloat h).finite
  simp only [UInt64.size] at h
  rw [ofWhole]
  split
  · exact .integer (by omega) (by omega)
  split
  · next hfits =>
    simp only [UInt64.size] at hfits
    exact .integer (by omega) (by omega)
  · exact .real (isFinite_neg hfinite)

theorem held_of_ofParts {negative : Bool} {significand : Nat} {exponent : Int} {value : Json}
    (hlt : significand < UInt64.size) (h : ofParts negative significand exponent = some value) :
    value.Held := by
  obtain ⟨x, hscaled, rfl⟩ := Option.map_eq_some_iff.mp h
  have hfinite := (unsigned_of_scaleBy (unsigned_toFloat hlt) hscaled).finite
  cases negative with
  | false => exact .real hfinite
  | true => exact .real (isFinite_neg hfinite)

theorem held_of_unsigned? {negative : Bool} {cs rest : List Char} {value : Json}
    (h : unsigned? negative cs = some (value, rest)) : value.Held := by
  have hlt : (accumulate 0 cs).value < UInt64.size := accumulate_lt (by decide) cs
  simp only [unsigned?, bind, pure] at h
  split at h
  · cases h
  split at h
  · split at h
    · cases h
    · simp only [Option.bind_eq_some_iff, Option.some.injEq, Prod.mk.injEq] at h
      obtain ⟨_, -, _, hparts, rfl, -⟩ := h
      exact held_of_ofParts (accumulate_lt hlt _) hparts
  split at h
  · simp only [Option.bind_eq_some_iff, Option.some.injEq, Prod.mk.injEq] at h
    obtain ⟨_, -, _, hparts, rfl, -⟩ := h
    exact held_of_ofParts hlt hparts
  split at h
  · cases h
    exact held_ofWhole negative hlt
  · simp only [Option.bind_eq_some_iff, Option.some.injEq, Prod.mk.injEq] at h
    obtain ⟨_, hparts, rfl, -⟩ := h
    exact held_of_ofParts hlt hparts

theorem held_of_number? {cs rest : List Char} {value : Json}
    (h : number? cs = some (value, rest)) : value.Held := by
  unfold number? at h
  split at h
  · exact held_of_unsigned? h
  · exact held_of_unsigned? h

theorem value_of_word? {word : List Char} {value : Json} {cs : List Char} {read : Read Json cs}
    (h : word? word value cs = some read) : read.value = value := by
  rw [word?] at h
  split at h
  · cases h
    rfl
  · cases h

/-- Every value that a reader gives is held. -/
def Holds (value? : ValueReader) : Prop := ∀ cs read, value? cs = some read → read.value.Held

theorem holds_scalar? : Holds scalar? := by
  intro cs read h
  unfold scalar? at h
  split at h
  · exact value_of_word? h ▸ .null
  · exact value_of_word? h ▸ .bool true
  · exact value_of_word? h ▸ .bool false
  · obtain ⟨read, -, rfl⟩ := Option.map_eq_some_iff.mp h
    exact .string _
  · split at h
    · cases h
    · next hnumber =>
      cases h
      exact held_of_number? hnumber

section Parts

variable {value? : ValueReader} (hvalue : Holds value?)
include hvalue

theorem held_of_itemsFrom {cs : List Char} {read read' : Read (List Json) cs}
    (hread : ∀ item ∈ read.value, item.Held) (h : itemsFrom value? read = some read') :
    ∀ item ∈ read'.value, item.Held := by
  fun_induction itemsFrom value? read with
  | case1 =>
    cases h
    exact fun item hitem => hread item (List.mem_reverse.mp hitem)
  | case2 read following hcomma ih =>
    obtain ⟨next, hnext, h⟩ := Option.bind_eq_some_iff.mp h
    exact ih next (List.forall_mem_cons.mpr ⟨hvalue _ _ hnext, hread⟩) h
  | case3 => cases h

theorem held_of_items? {cs : List Char} {read : Read (List Json) cs}
    (h : items? value? cs = some read) : ∀ item ∈ read.value, item.Held := by
  rw [items?] at h
  split at h
  · cases h
    exact List.forall_mem_nil _
  · obtain ⟨first, hfirst, h⟩ := Option.bind_eq_some_iff.mp h
    exact held_of_itemsFrom hvalue (List.forall_mem_singleton.mpr (hvalue _ _ hfirst)) h

theorem held_of_field? {cs : List Char} {read : Read (String × Json) cs}
    (h : field? value? cs = some read) : read.value.2.Held := by
  simp only [field?, bind, pure, Option.bind_eq_some_iff] at h
  obtain ⟨key, -, h⟩ := h
  split at h
  · obtain ⟨read, hread, h⟩ := Option.bind_eq_some_iff.mp h
    cases h
    exact hvalue _ _ hread
  · cases h

theorem held_of_fieldsFrom {cs : List Char} {read read' : Read (List (String × Json)) cs}
    (hread : ∀ field ∈ read.value, field.2.Held) (h : fieldsFrom value? read = some read') :
    ∀ field ∈ read'.value, field.2.Held := by
  fun_induction fieldsFrom value? read with
  | case1 =>
    cases h
    exact fun field hfield => hread field (List.mem_reverse.mp hfield)
  | case2 read following hcomma ih =>
    obtain ⟨next, hnext, h⟩ := Option.bind_eq_some_iff.mp h
    exact ih next (List.forall_mem_cons.mpr ⟨held_of_field? hvalue hnext, hread⟩) h
  | case3 => cases h

theorem held_of_fields? {cs : List Char} {read : Read (List (String × Json)) cs}
    (h : fields? value? cs = some read) : ∀ field ∈ read.value, field.2.Held := by
  rw [fields?] at h
  split at h
  · cases h
    exact List.forall_mem_nil _
  · obtain ⟨first, hfirst, h⟩ := Option.bind_eq_some_iff.mp h
    have hheld : ∀ field ∈ [first.value], field.2.Held :=
      List.forall_mem_singleton.mpr (held_of_field? hvalue hfirst)
    exact held_of_fieldsFrom hvalue hheld h

end Parts

theorem mem_insertField {key : String} {value : Json} {fields : List (String × Json)}
    {field : String × Json} (h : field ∈ insertField key value fields) :
    field = (key, value) ∨ field ∈ fields := by
  fun_induction insertField key value fields with
  | case1 => exact .inl (List.mem_singleton.mp h)
  | case2 => exact List.mem_cons.mp h
  | case3 => exact (List.mem_cons.mp h).imp_right (List.mem_cons_of_mem _)
  | case4 first fields _ _ ih =>
    rcases List.mem_cons.mp h with rfl | h
    · exact .inr List.mem_cons_self
    · exact (ih h).imp_right (List.mem_cons_of_mem _)

/-- The fields of an object are those that were read. -/
theorem held_ofFields {fields : List (String × Json)} (h : ∀ field ∈ fields, field.2.Held) :
    (ofFields fields).Held := by
  let AllHeld (sorted : List (String × Json)) : Prop := ∀ field ∈ sorted, field.2.Held
  have hnil : AllHeld [] := List.forall_mem_nil _
  refine .object (List.foldlRecOn (motive := AllHeld) fields _ hnil ?_)
  intro sorted hsorted field hfield field' hfield'
  rcases mem_insertField hfield' with rfl | hmem
  · exact h field hfield
  · exact hsorted field' hmem

/-- Whatever a text says, what is read of it is held. -/
theorem holds_value? (depth : Nat) : Holds (value? depth) := by
  induction depth using Nat.strong_induction_on with
  | h depth ih =>
    intro cs read h
    unfold value? at h
    split at h
    · cases h
    · cases h
    · obtain ⟨read, hitems, rfl⟩ := Option.map_eq_some_iff.mp h
      exact .array (held_of_items? (ih _ (Nat.lt_succ_self _)) hitems)
    · obtain ⟨read, hfields, rfl⟩ := Option.map_eq_some_iff.mp h
      exact held_ofFields (held_of_fields? (ih _ (Nat.lt_succ_self _)) hfields)
    · exact holds_scalar? _ _ h

theorem held_of_parse? {cs : List Char} {value : Json} (h : parse? cs = some value) :
    value.Held := by
  obtain ⟨read, hread, h⟩ := Option.bind_eq_some_iff.mp h
  split at h
  · cases h
    exact holds_value? _ _ _ hread
  · cases h

end Reckoner.Json
