import Mathlib.Data.Bool.Basic
import NocSwap.Ruby.CacheMemory

/-!
# Selection and removal of the bits of an address
-/

namespace NocSwap.Ruby

open BitVec

variable {a b : Addr} {small big i : Nat}

/-- Bit `i` of an address from which the bits from `small` to `big` are deleted. -/
def removedBit (a : Addr) (small big i : Nat) : Bool :=
  if i < small then a.getLsbD i else a.getLsbD (i + (big - small + 1))

theorem getLsbD_bitSelect (hle : small ≤ big) (hbig : big ≤ 63) :
    (bitSelect a small big).getLsbD i = (decide (i ≤ big - small) && a.getLsbD (small + i)) := by
  have hlt : a.getLsbD (small + i) = true → small + i < 64 := lt_of_getLsbD
  rw [bitSelect, apply_ite (getLsbD · i)]
  simp only [getLsbD_ushiftRight, getLsbD_and, getLsbD_not, getLsbD_shiftLeft, getLsbD_allOnes]
  grind

theorem getLsbD_bitRemove (hle : small ≤ big) (hbig : big ≤ 63) :
    (bitRemove a small big).getLsbD i =
      if small = 63 then a.getLsbD i
      else if big = 63 then a.getLsbD i && decide (small + i < 64)
      else if small = 0 then decide (big ≤ i) && a.getLsbD i
      else removedBit a small big i := by
  have hlt : ∀ j, a.getLsbD j = true → j < 64 := fun j => lt_of_getLsbD
  rw [bitRemove, apply_ite (getLsbD · i), apply_ite (getLsbD · i), apply_ite (getLsbD · i)]
  simp only [getLsbD_ushiftRight, getLsbD_and, getLsbD_or, getLsbD_not, getLsbD_shiftLeft,
    getLsbD_allOnes, removedBit]
  split_ifs <;> grind

/-- Bits are removed as they should be where neither end of the address is among them, or where they
are the upper half; addresses can be told apart unless less than half of the bits are selected at the
upper end. -/
theorem bitSelect_bitRemove_iff (hle : small ≤ big) (hbig : big ≤ 63) :
    (∀ a i, (bitSelect a small big).getLsbD i =
      (decide (i ≤ big - small) && a.getLsbD (small + i))) ∧
    ((∀ a i, (bitRemove a small big).getLsbD i = removedBit a small big i) ↔
      0 < small ∧ big < 63 ∨ small = 32 ∧ big = 63) ∧
    ((∀ a b, bitSelect a small big = bitSelect b small big →
      bitRemove a small big = bitRemove b small big → a = b) ↔
      big < 63 ∨ small ≤ 32 ∨ small = 63) := by
  refine ⟨fun a i => getLsbD_bitSelect hle hbig, ⟨fun h => ?_, fun h a i => ?_⟩,
    ⟨fun h => ?_, fun h a b hselect hremove => ?_⟩⟩
  · have hones : ∀ i < 64, (bitRemove (allOnes 64) small big).getLsbD i =
        decide (i < small ∨ i + (big - small + 1) < 64) := by
      intro i hi
      rw [h, removedBit, getLsbD_allOnes, getLsbD_allOnes]
      grind
    have hlast := hones 63 (by decide)
    have hsmall := hones small
    have hother := hones (64 - small)
    simp only [getLsbD_bitRemove hle hbig, getLsbD_allOnes] at hlast hsmall hother
    grind
  · rw [getLsbD_bitRemove hle hbig]
    rcases h with ⟨hsmall, hbig⟩ | ⟨rfl, rfl⟩
    · rw [if_neg (by omega), if_neg (by omega), if_neg (by omega)]
    · rw [if_neg (by decide), if_pos rfl, removedBit]
      by_cases hi : i < 32
      · rw [if_pos hi, decide_eq_true (by omega), Bool.and_true]
      · rw [if_neg hi, decide_eq_false (by omega), Bool.and_false, getLsbD_of_ge _ _ (by omega)]
  · have hbad := h 0 (twoPow 64 (64 - small))
    by_contra hpos
    have hne : (0 : Addr) ≠ twoPow 64 (64 - small) := fun heq => by
      have hbit := congrArg (getLsbD · (64 - small)) heq
      simp only [getLsbD_twoPow] at hbit
      grind
    refine hne (hbad ?_ ?_)
    · apply eq_of_getLsbD_eq
      intro i hi
      rw [getLsbD_bitSelect hle hbig, getLsbD_bitSelect hle hbig, getLsbD_twoPow]
      grind
    · apply eq_of_getLsbD_eq
      intro i hi
      rw [getLsbD_bitRemove hle hbig, getLsbD_bitRemove hle hbig, getLsbD_twoPow]
      grind
  · apply eq_of_getLsbD_eq
    intro i hi
    have hr (j : Nat) : (bitRemove a small big).getLsbD j = (bitRemove b small big).getLsbD j := by
      rw [hremove]
    simp only [getLsbD_bitRemove hle hbig, removedBit] at hr
    by_cases hin : small ≤ i ∧ i ≤ big
    · have hs := congrArg (getLsbD · (i - small)) hselect
      simp only [getLsbD_bitSelect hle hbig, Nat.add_sub_cancel' hin.1] at hs
      grind
    · rcases Nat.lt_or_ge i small with hlow | hlow
      · have hsum : big = 63 → small ≠ 63 → decide (small + i < 64) = true := by
          intro _ _
          exact decide_eq_true (by omega)
        grind [hr i]
      · have hhigh : small ≠ 63 ∧ big ≠ 63 := by omega
        simp only [hhigh.1, hhigh.2, if_false] at hr
        by_cases hzero : small = 0
        · have hr := hr i
          rwa [if_pos hzero, if_pos hzero, decide_eq_true (by omega), Bool.true_and,
            Bool.true_and] at hr
        · have hr := hr (i - (big - small + 1))
          have hpos : ¬ i - (big - small + 1) < small := by omega
          rwa [if_neg hzero, if_neg hzero, if_neg hpos, if_neg hpos,
            Nat.sub_add_cancel (by omega)] at hr

theorem bitSelect_bitRemove_nibble : bitRemove 0x123 4 7 = 0x13 ∧
    ∀ i, (bitRemove 0x123 4 7).getLsbD i = removedBit 0x123 4 7 i :=
  ⟨by decide, (bitSelect_bitRemove_iff (by decide) (by decide)).2.1.mpr (.inl (by decide)) _⟩

/-- With the lowest position selected, the selected bits stay. -/
theorem bitRemove_lowest : bitRemove 3 0 0 = 3 ∧ removedBit 3 0 0 1 = false := by decide

end NocSwap.Ruby
