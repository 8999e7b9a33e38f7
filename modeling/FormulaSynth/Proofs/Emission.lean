import FormulaSynth.Formula.Compile
import Mathlib

set_option autoImplicit false
namespace FormulaSynth.Formula.Draft

/-- `d'` is `d` with `code` behind its own, and perhaps with more constants. -/
structure Grows (d : Draft) (code : List Op) (d' : Draft) : Prop where
  code : d'.code.toList = d.code.toList ++ code
  pool : d.constants.toList <+: d'.constants.toList

theorem Grows.trans {d₁ d₂ d₃ : Draft} {a b : List Op} (h : d₁.Grows a d₂) (h' : d₂.Grows b d₃) :
    d₁.Grows (a ++ b) d₃ := by
  refine ⟨?_, h.pool.trans h'.pool⟩
  rw [h'.code, h.code, List.append_assoc]

theorem Grows.nil (d : Draft) : d.Grows [] d := ⟨(List.append_nil _).symm, List.prefix_refl _⟩

theorem Grows.push (d : Draft) (op : Op) : d.Grows [op] (d.push op) :=
  ⟨Array.toList_push, List.prefix_refl _⟩

theorem Grows.of_functions {d d' : Draft} {code : List Op} {names : List String}
    (h : Grows { d with functions := names } code d') : d.Grows code d' := ⟨h.code, h.pool⟩

def Bounded (d : Draft) : Prop := d.constants.size ≤ maxConstants

theorem bounded_empty : empty.Bounded := Nat.zero_le _

theorem toNat_slot {n : ℕ} (h : n < maxConstants) : n.toUInt8.toNat = n :=
  Nat.mod_eq_of_lt h

theorem idxOf?_get {a : Array Binary64} {value : Binary64} {slot : ℕ} (h : a.idxOf? value = some slot) :
    a.toList[slot]? = some value := by
  rw [← Array.idxOf?_toList, List.idxOf?, List.findIdx?_eq_some_iff_getElem] at h
  obtain ⟨hlt, heq, -⟩ := h
  rw [List.getElem?_eq_getElem hlt]
  exact congrArg some (beq_iff_eq.mp heq)

theorem constant_grows {d d' : Draft} {value : Binary64} {position : Position}
    (h : d.constant value position = .ok d') (hd : d.Bounded) :
    ∃ slot : UInt8, d.Grows [.const slot] d' ∧ d'.Bounded ∧
      d'.constants.toList[slot.toNat]? = some value := by
  unfold constant at h
  split at h
  · rename_i slot hslot
    have hget := idxOf?_get hslot
    have hlt : slot < maxConstants := by
      have hsize := (List.getElem?_eq_some_iff.mp hget).choose
      rw [Array.length_toList] at hsize
      exact hsize.trans_le hd
    cases h
    refine ⟨slot.toUInt8, .push d _, hd, ?_⟩
    rw [toNat_slot hlt]
    exact hget
  · split at h
    · rename_i hlt
      cases h
      refine ⟨d.constants.size.toUInt8, ⟨?_, ?_⟩, ?_, ?_⟩
      · exact Array.toList_push
      · change d.constants.toList <+: (d.constants.push value).toList
        rw [Array.toList_push]
        exact List.prefix_append _ _
      · change (d.constants.push value).size ≤ maxConstants
        rw [Array.size_push]
        exact hlt
      · rw [toNat_slot hlt]
        change (d.constants.push value).toList[d.constants.size]? = some value
        rw [Array.toList_push, ← Array.length_toList]
        exact List.getElem?_concat_length
    · cases h

end FormulaSynth.Formula.Draft
