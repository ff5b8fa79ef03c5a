import Mathlib.Data.Nat.Bitwise
import Mathlib.Data.Set.Function
import Mathlib.Order.Interval.Set.Basic

/-!
# Bit fields

The `n` low bits of a word are its remainder by `2 ^ n`, and what is above them its quotient.
-/

namespace NocSwap.BitField

open BitVec Nat Set

/-! ### Masks -/

section Words

variable {w : Nat}

theorem toNat_and_not_shiftLeft (x : BitVec w) (n : Nat) :
    (x &&& ~~~ (BitVec.allOnes w <<< n)).toNat = x.toNat % 2 ^ n := by
  apply eq_of_testBit_eq
  intro i
  rw [testBit_mod_two_pow, testBit_toNat, testBit_toNat]
  by_cases hi : i < w
  · by_cases h : i < n <;> simp [hi, h]
  · rw [getLsbD_of_ge _ _ (by omega), getLsbD_of_ge _ _ (by omega)]
    simp

theorem toNat_ones {n : Nat} (hn : n < w) : ((1#w <<< n) - 1#w).toNat = 2 ^ n - 1 := by
  have hlt : 2 ^ n < 2 ^ w := Nat.pow_lt_pow_right (by decide) hn
  have hone : (1#w).toNat = 1 := by
    rw [toNat_ofNat]
    exact mod_eq_of_lt (Nat.one_lt_two_pow (by omega))
  have hshift : (1#w <<< n).toNat = 2 ^ n := by
    rw [toNat_shiftLeft, hone, one_shiftLeft, mod_eq_of_lt hlt]
  rw [toNat_sub_of_le, hshift, hone]
  rw [le_def, hshift, hone]
  exact Nat.one_le_two_pow

theorem toNat_replaceLow {ones x y : BitVec w} {n : Nat} (hones : ones.toNat = 2 ^ n - 1) :
    ((x &&& ones) ||| (y &&& ~~~ ones)).toNat = y.toNat / 2 ^ n * 2 ^ n + x.toNat % 2 ^ n := by
  have hbit : ∀ i, ones.getLsbD i = decide (i < n) := by
    intro i
    rw [← testBit_toNat, hones, testBit_two_pow_sub_one]
  apply eq_of_testBit_eq
  intro i
  rw [Nat.mul_comm, testBit_two_pow_mul_add _ (mod_lt _ (Nat.two_pow_pos n)),
    testBit_mod_two_pow, testBit_toNat, testBit_div_two_pow]
  by_cases h : i < n
  · simp [h, hbit, testBit_toNat]
  · have hi : i - n + n = i := by omega
    simp [h, hbit, testBit_toNat, hi]
    intro hy
    exact lt_of_getLsbD hy

end Words

/-! ### Slices -/

section Slices

variable (low k : Nat)

def slice (x : Nat) : Nat := x / 2 ^ low % 2 ^ k

def squeeze (x : Nat) : Nat := x / 2 ^ (low + k) * 2 ^ low + x % 2 ^ low

def join (hi sl lo : Nat) : Nat := (hi * 2 ^ k + sl) * 2 ^ low + lo

variable {low k} {hi sl lo x : Nat}

theorem slice_lt (x : Nat) : slice low k x < 2 ^ k := mod_lt _ (Nat.two_pow_pos k)

theorem join_mod (hlo : lo < 2 ^ low) : join low k hi sl lo % 2 ^ low = lo := by
  rw [join, Nat.mul_comm, mul_add_mod, mod_eq_of_lt hlo]

theorem join_div_low (hlo : lo < 2 ^ low) : join low k hi sl lo / 2 ^ low = hi * 2 ^ k + sl := by
  rw [join, Nat.mul_comm, mul_add_div (Nat.two_pow_pos low), div_eq_of_lt hlo, Nat.add_zero]

theorem slice_join (hsl : sl < 2 ^ k) (hlo : lo < 2 ^ low) : slice low k (join low k hi sl lo) = sl := by
  rw [slice, join_div_low hlo, Nat.mul_comm, mul_add_mod, mod_eq_of_lt hsl]

theorem join_div (hsl : sl < 2 ^ k) (hlo : lo < 2 ^ low) :
    join low k hi sl lo / 2 ^ (low + k) = hi := by
  rw [Nat.pow_add, ← Nat.div_div_eq_div_mul, join_div_low hlo, Nat.mul_comm,
    mul_add_div (Nat.two_pow_pos k), div_eq_of_lt hsl, Nat.add_zero]

theorem join_slice (low k x : Nat) :
    join low k (x / 2 ^ (low + k)) (slice low k x) (x % 2 ^ low) = x := by
  rw [join, slice, Nat.pow_add, ← Nat.div_div_eq_div_mul, div_add_mod', div_add_mod']

theorem squeeze_join (hsl : sl < 2 ^ k) (hlo : lo < 2 ^ low) :
    squeeze low k (join low k hi sl lo) = hi * 2 ^ low + lo := by
  rw [squeeze, join_div hsl hlo, join_mod hlo]

theorem squeeze_mod (low k x : Nat) : squeeze low k x % 2 ^ low = x % 2 ^ low := by
  rw [squeeze, Nat.mul_comm, mul_add_mod, mod_mod]

theorem squeeze_div (low k x : Nat) : squeeze low k x / 2 ^ low = x / 2 ^ (low + k) := by
  rw [squeeze, Nat.mul_comm, mul_add_div (Nat.two_pow_pos low),
    div_eq_of_lt (mod_lt _ (Nat.two_pow_pos low)), Nat.add_zero]

theorem squeeze_mul (low k b : Nat) : squeeze low k (b * 2 ^ (low + k)) = b * 2 ^ low := by
  rw [squeeze, Nat.mul_div_cancel _ (Nat.two_pow_pos _), Nat.pow_add, Nat.mul_left_comm,
    mul_mod_right, Nat.add_zero]

theorem slice_eq_of_le {low' : Nat} (h : low + k ≤ low') (x : Nat) :
    slice low' k x = slice (low' - (low + k)) k (x / 2 ^ (low + k)) := by
  rw [slice, slice, Nat.div_div_eq_div_mul, ← Nat.pow_add, Nat.add_sub_cancel' h]

theorem slice_eq_of_add_le {low' : Nat} (h : low' + k ≤ low) (x : Nat) :
    slice low' k x = slice low' k (x % 2 ^ low) := by
  apply eq_of_testBit_eq
  intro i
  simp only [slice, testBit_mod_two_pow, testBit_div_two_pow]
  by_cases hi : i < k
  · simp [hi, show i + low' < low by omega]
  · simp [hi]

theorem squeeze_bijOn (low : Nat) {f : Nat → Nat → Nat} (hf : ∀ hi lo, f hi lo < 2 ^ k) :
    Set.BijOn (squeeze low k) {x | slice low k x = f (x / 2 ^ (low + k)) (x % 2 ^ low)} Set.univ := by
  refine ⟨fun _ _ => mem_univ _, ?_, ?_⟩
  · intro x hx y hy hxy
    have hdiv : x / 2 ^ (low + k) = y / 2 ^ (low + k) := by
      rw [← squeeze_div low k x, ← squeeze_div low k y, hxy]
    have hmod : x % 2 ^ low = y % 2 ^ low := by
      rw [← squeeze_mod low k x, ← squeeze_mod low k y, hxy]
    have hslice : slice low k x = slice low k y := by
      rw [mem_ofPred_eq] at hx hy
      rw [hx, hy, hdiv, hmod]
    rw [← join_slice low k x, ← join_slice low k y, hdiv, hmod, hslice]
  · intro y _
    have hlo : y % 2 ^ low < 2 ^ low := mod_lt _ (Nat.two_pow_pos low)
    have hsl := hf (y / 2 ^ low) (y % 2 ^ low)
    refine ⟨join low k (y / 2 ^ low) (f (y / 2 ^ low) (y % 2 ^ low)) (y % 2 ^ low), ?_, ?_⟩
    · rw [mem_ofPred_eq, slice_join hsl hlo, join_div hsl hlo, join_mod hlo]
    · rw [squeeze_join hsl hlo, div_add_mod']

theorem squeeze_mem_Ico (b n x : Nat) :
    squeeze low k x ∈ Set.Ico (b * 2 ^ low) ((b + n) * 2 ^ low) ↔
      x ∈ Set.Ico (b * 2 ^ (low + k)) ((b + n) * 2 ^ (low + k)) := by
  rw [mem_Ico, mem_Ico, ← Nat.le_div_iff_mul_le (Nat.two_pow_pos _),
    ← Nat.div_lt_iff_lt_mul (Nat.two_pow_pos _), squeeze_div,
    ← Nat.le_div_iff_mul_le (Nat.two_pow_pos _), ← Nat.div_lt_iff_lt_mul (Nat.two_pow_pos _)]

theorem squeeze_bijOn_Ico (low : Nat) {f : Nat → Nat → Nat} (hf : ∀ hi lo, f hi lo < 2 ^ k) (b n : Nat) :
    Set.BijOn (squeeze low k)
      {x | x ∈ Set.Ico (b * 2 ^ (low + k)) ((b + n) * 2 ^ (low + k)) ∧
        slice low k x = f (x / 2 ^ (low + k)) (x % 2 ^ low)}
      (Set.Ico (b * 2 ^ low) ((b + n) * 2 ^ low)) := by
  obtain ⟨-, hinj, hsurj⟩ := squeeze_bijOn low hf
  refine ⟨?_, ?_, ?_⟩
  · intro x hx
    exact (squeeze_mem_Ico b n x).mpr hx.1
  · intro x hx y hy hxy
    exact hinj hx.2 hy.2 hxy
  · intro y hy
    obtain ⟨x, hx, rfl⟩ := hsurj (mem_univ y)
    exact ⟨x, ⟨(squeeze_mem_Ico b n x).mp hy, hx⟩, rfl⟩

end Slices

end NocSwap.BitField
