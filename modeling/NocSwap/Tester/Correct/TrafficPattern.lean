import Mathlib.Algebra.Order.Floor.Semiring
import Mathlib.Data.Rat.Floor
import Mathlib.Data.Set.Function
import Mathlib.Tactic.Linarith
import Mathlib.Tactic.Ring
import NocSwap.Tester.TrafficPattern

/-!
# The traffic patterns
-/

namespace NocSwap.Tester

open TrafficType Nat List

variable {k m n s c : Nat}

/-! ### Coordinates -/

def shiftRow (k c s : Nat) : Nat := s / k * k + (s % k + c) % k

theorem coords_lt {x y : Nat} (hx : x < k) (hy : y < k) : y * k + x < k * k := by
  have hrow : (y + 1) * k ≤ k * k := Nat.mul_le_mul_right k hy
  rw [succ_mul] at hrow
  omega

theorem coords_div {x : Nat} (y : Nat) (hx : x < k) : (y * k + x) / k = y := by
  rw [Nat.mul_comm, mul_add_div (zero_lt_of_lt hx), div_eq_of_lt hx, Nat.add_zero]

theorem coords_mod {x : Nat} (y : Nat) (hx : x < k) : (y * k + x) % k = x := by
  rw [Nat.mul_comm, mul_add_mod, mod_eq_of_lt hx]

theorem shiftRow_lt (hk : 0 < k) (hs : s < k * k) : shiftRow k c s < k * k :=
  coords_lt (mod_lt _ hk) (Nat.div_lt_of_lt_mul hs)

theorem shiftRow_shiftRow (hk : 0 < k) (hc : c ≤ k) (s : Nat) :
    shiftRow k (k - c) (shiftRow k c s) = s := by
  have hlt := mod_lt (s % k + c) hk
  unfold shiftRow
  rw [coords_div _ hlt, coords_mod _ hlt, mod_add_mod,
    show s % k + c + (k - c) = s % k + k by omega, add_mod_right, mod_mod, Nat.mul_comm]
  exact div_add_mod s k

theorem bijOn_of_inverse {f g : Nat → Nat} (hf : ∀ s < n, f s < n) (hg : ∀ s < n, g s < n)
    (hgf : ∀ s < n, g (f s) = s) (hfg : ∀ s < n, f (g s) = s) :
    Set.BijOn f (Set.Iio n) (Set.Iio n) :=
  Set.InvOn.bijOn ⟨hgf, hfg⟩ hf hg

theorem bijOn_shiftRow (hk : 0 < k) (hc : c ≤ k) :
    Set.BijOn (shiftRow k c) (Set.Iio (k * k)) (Set.Iio (k * k)) := by
  refine bijOn_of_inverse (fun _ => shiftRow_lt hk) (fun _ => shiftRow_lt hk)
    (fun s _ => shiftRow_shiftRow hk hc s) fun s _ => ?_
  have hback := shiftRow_shiftRow hk (sub_le k c) s
  rwa [Nat.sub_sub_self hc] at hback

theorem complement_coords (hk : 0 < k) (hs : s < k * k) :
    (k - s / k - 1) * k + (k - s % k - 1) = k * k - (s + 1) := by
  have hx := mod_lt s hk
  have hy : s / k < k := Nat.div_lt_of_lt_mul hs
  obtain ⟨a, ha⟩ : ∃ a, k = s / k + 1 + a := ⟨k - (s / k + 1), by omega⟩
  have hrow : k * k = (s / k) * k + k + a * k := by
    calc k * k = (s / k + 1 + a) * k := by rw [← ha]
      _ = (s / k) * k + k + a * k := by ring
  have hsum : s = s / k * k + s % k := by
    rw [Nat.mul_comm]
    exact (div_add_mod s k).symm
  rw [show k - s / k - 1 = a by omega]
  omega

theorem testBit_reverseLoop (straight reverse j : Nat) :
    (reverseLoop n straight reverse).testBit j =
      if j < n then straight.testBit (n - j) else reverse.testBit (j - n) := by
  induction n generalizing straight reverse with
  | zero => simp [reverseLoop]
  | succ n ih =>
    rw [reverseLoop, ih]
    rcases Nat.lt_trichotomy j n with hj | rfl | hj
    · rw [if_pos hj, if_pos (lt_succ_of_lt hj), testBit_shiftRight,
        show 1 + (n - j) = n + 1 - j by omega]
    · simp
    · -- the bit just entered is bit 0
      obtain ⟨d, rfl⟩ : ∃ d, j = n + d + 1 := ⟨j - n - 1, by omega⟩
      rw [if_neg (by omega), if_neg (by omega), show n + d + 1 - n = d + 1 by omega,
        show n + d + 1 - (n + 1) = d by omega, testBit_or, testBit_shiftLeft]
      simp [and_one_is_mod, testBit_succ]

theorem testBit_reverse (hn : 0 < n) (s j : Nat) :
    (reverseLoop (n - 1) s (s &&& 1)).testBit j = (decide (j < n) && s.testBit (n - 1 - j)) := by
  rw [testBit_reverseLoop]
  rcases Nat.lt_trichotomy j (n - 1) with hj | rfl | hj
  · simp [hj, show j < n by omega]
  · simp [show n - 1 < n by omega]
  · obtain ⟨d, hd⟩ : ∃ d, j - (n - 1) = d + 1 := ⟨j - (n - 1) - 1, by omega⟩
    rw [if_neg (by omega), hd]
    simp [show ¬ j < n by omega, and_one_is_mod, testBit_succ]

theorem reverse_lt (hn : 0 < n) (s : Nat) : reverseLoop (n - 1) s (s &&& 1) < 2 ^ n := by
  apply lt_pow_two_of_testBit
  intro j hj
  rw [testBit_reverse hn]
  simp [Nat.not_lt.mpr hj]

theorem reverse_reverse (hn : 0 < n) (hs : s < 2 ^ n) :
    reverseLoop (n - 1) (reverseLoop (n - 1) s (s &&& 1))
      (reverseLoop (n - 1) s (s &&& 1) &&& 1) = s := by
  apply eq_of_testBit_eq
  intro j
  rw [testBit_reverse hn, testBit_reverse hn]
  by_cases hj : j < n
  · simp [hj, show n - 1 - j < n by omega, show n - 1 - (n - 1 - j) = j by omega]
  · have hzero : s.testBit j = false :=
      testBit_lt_two_pow (hs.trans_le (Nat.pow_le_pow_right Nat.two_pos (Nat.not_lt.mp hj)))
    simp [hj, hzero]

theorem four_pow (m : Nat) : 4 ^ m = 2 ^ m * 2 ^ m := by
  rw [← Nat.mul_pow]

theorem four_pow_eq (m : Nat) : 4 ^ m = 2 ^ (2 * m) := by
  rw [Nat.pow_mul]

theorem sqrt_four_pow (m : Nat) : Nat.sqrt (4 ^ m) = 2 ^ m := by
  rw [four_pow, sqrt_eq]

theorem log2_four_pow (m : Nat) : Nat.log2 (4 ^ m) = 2 * m := by
  rw [four_pow_eq, log2_two_pow]

/-- **On `4 ^ m` nodes the patterns are permutations**: three are involutions, and `SHUFFLE_` and
`BIT_ROTATION_` undo each other. -/
theorem patterns_permute (hm : 1 ≤ m) {singleDest : Int} (hsingle : singleDest < 0) (random : Nat) :
    (∀ t ∈ [BIT_COMPLEMENT_, BIT_REVERSE_, BIT_ROTATION_, NEIGHBOR_, SHUFFLE_, TRANSPOSE_, TORNADO_],
      Set.BijOn (destination (4 ^ m) singleDest t random) (Set.Iio (4 ^ m)) (Set.Iio (4 ^ m))) ∧
    (∀ s < 4 ^ m, ∀ j < 2 * m,
      (destination (4 ^ m) singleDest BIT_COMPLEMENT_ random s).testBit j = !s.testBit j) ∧
    (∀ s < 4 ^ m, ∀ j < 2 * m,
      (destination (4 ^ m) singleDest BIT_REVERSE_ random s).testBit j =
        s.testBit (2 * m - 1 - j)) ∧
    (∀ t ∈ [BIT_REVERSE_, BIT_COMPLEMENT_, TRANSPOSE_], ∀ s < 4 ^ m,
      destination (4 ^ m) singleDest t random (destination (4 ^ m) singleDest t random s) = s) ∧
    ∀ s < 4 ^ m,
      destination (4 ^ m) singleDest SHUFFLE_ random
        (destination (4 ^ m) singleDest BIT_ROTATION_ random s) = s ∧
      destination (4 ^ m) singleDest BIT_ROTATION_ random
        (destination (4 ^ m) singleDest SHUFFLE_ random s) = s := by
  have hneg : ¬ 0 ≤ singleDest := by omega
  have hk : 0 < 2 ^ m := Nat.two_pow_pos m
  have hsquare := four_pow m
  -- the nodes are two halves
  obtain ⟨h, hh⟩ : ∃ h, 4 ^ m = 2 * h := by
    obtain ⟨m', rfl⟩ : ∃ m', m = m' + 1 := ⟨m - 1, by omega⟩
    exact ⟨2 * 4 ^ m', by rw [Nat.pow_succ]; omega⟩
  have hhalf : 2 ^ m / 2 ≤ 2 ^ m ∧ 1 ≤ 2 ^ m / 2 := by
    obtain ⟨m', rfl⟩ : ∃ m', m = m' + 1 := ⟨m - 1, by omega⟩
    have hpos := Nat.two_pow_pos m'
    rw [Nat.pow_succ]
    omega
  have hcompl : ∀ s < 4 ^ m,
      destination (4 ^ m) singleDest BIT_COMPLEMENT_ random s = 4 ^ m - (s + 1) := by
    intro s hs
    rw [hsquare] at hs ⊢
    simp only [destination, sqrt_eq, if_neg hneg]
    exact complement_coords hk hs
  have hrev : ∀ s, destination (4 ^ m) singleDest BIT_REVERSE_ random s =
      reverseLoop (2 * m - 1) s (s &&& 1) := by
    intro s
    simp only [destination, log2_four_pow, if_neg hneg]
  have htrans : ∀ s, destination (4 ^ m) singleDest TRANSPOSE_ random s =
      s % 2 ^ m * 2 ^ m + s / 2 ^ m := by
    intro s
    simp only [destination, sqrt_four_pow, if_neg hneg]
  have hrot : ∀ s, destination (4 ^ m) singleDest BIT_ROTATION_ random s =
      if s % 2 = 0 then s / 2 else s / 2 + h := by
    intro s
    simp only [destination, if_neg hneg, hh, Nat.mul_div_cancel_left h Nat.two_pos]
  have hshuf : ∀ s, destination (4 ^ m) singleDest SHUFFLE_ random s =
      if s < h then s * 2 else s * 2 + 1 - 2 * h := by
    intro s
    simp only [destination, if_neg hneg, hh, Nat.mul_div_cancel_left h Nat.two_pos]
  have hshift : ∀ c, c ≤ 2 ^ m →
      Set.BijOn (shiftRow (2 ^ m) c) (Set.Iio (4 ^ m)) (Set.Iio (4 ^ m)) := by
    intro c hc
    rw [hsquare]
    exact bijOn_shiftRow hk hc
  have hinv : ∀ t ∈ [BIT_REVERSE_, BIT_COMPLEMENT_, TRANSPOSE_], ∀ s < 4 ^ m,
      destination (4 ^ m) singleDest t random s < 4 ^ m ∧
      destination (4 ^ m) singleDest t random (destination (4 ^ m) singleDest t random s) = s := by
    intro t ht s hs
    simp only [mem_cons, not_mem_nil, or_false] at ht
    rcases ht with rfl | rfl | rfl
    · rw [hrev, hrev, four_pow_eq]
      rw [four_pow_eq] at hs
      exact ⟨reverse_lt (by omega) s, reverse_reverse (by omega) hs⟩
    · rw [hcompl s hs, hcompl _ (by omega)]
      omega
    · have hx := mod_lt s hk
      have hy : s / 2 ^ m < 2 ^ m := Nat.div_lt_of_lt_mul (hsquare ▸ hs)
      rw [htrans, htrans, coords_mod _ hy, coords_div _ hy, hsquare, Nat.mul_comm (s / 2 ^ m)]
      exact ⟨coords_lt hy hx, div_add_mod s (2 ^ m)⟩
  have hpair : ∀ s < 4 ^ m,
      destination (4 ^ m) singleDest SHUFFLE_ random
        (destination (4 ^ m) singleDest BIT_ROTATION_ random s) = s ∧
      destination (4 ^ m) singleDest BIT_ROTATION_ random
        (destination (4 ^ m) singleDest SHUFFLE_ random s) = s := by
    intro s hs
    rw [hrot, hshuf, hshuf, hrot]
    constructor
    · split_ifs <;> omega
    · split_ifs <;> omega
  refine ⟨fun t ht => ?_, fun s hs j hj => ?_, fun s _ j hj => ?_, fun t ht s hs => (hinv t ht s hs).2,
    hpair⟩
  · have hself : ∀ t ∈ [BIT_REVERSE_, BIT_COMPLEMENT_, TRANSPOSE_],
        Set.BijOn (destination (4 ^ m) singleDest t random) (Set.Iio (4 ^ m)) (Set.Iio (4 ^ m)) :=
      fun t ht => bijOn_of_inverse (fun s hs => (hinv t ht s hs).1) (fun s hs => (hinv t ht s hs).1)
        (fun s hs => (hinv t ht s hs).2) fun s hs => (hinv t ht s hs).2
    have hrotLt : ∀ s < 4 ^ m, destination (4 ^ m) singleDest BIT_ROTATION_ random s < 4 ^ m := by
      intro s hs
      rw [hrot]
      split_ifs <;> omega
    have hshufLt : ∀ s < 4 ^ m, destination (4 ^ m) singleDest SHUFFLE_ random s < 4 ^ m := by
      intro s hs
      rw [hshuf]
      split_ifs <;> omega
    simp only [mem_cons, not_mem_nil, or_false] at ht
    rcases ht with rfl | rfl | rfl | rfl | rfl | rfl | rfl
    · exact hself _ (by simp)
    · exact hself _ (by simp)
    · exact bijOn_of_inverse hrotLt hshufLt (fun s hs => (hpair s hs).1) fun s hs => (hpair s hs).2
    · apply (hshift 1 hk).congr
      intro s _
      simp only [destination, sqrt_four_pow, if_neg hneg, shiftRow]
    · exact bijOn_of_inverse hshufLt hrotLt (fun s hs => (hpair s hs).2) fun s hs => (hpair s hs).1
    · exact hself _ (by simp)
    · apply (hshift (2 ^ m / 2 - 1) (by omega)).congr
      intro s _
      simp only [destination, sqrt_four_pow, if_neg hneg, shiftRow, Nat.add_sub_assoc hhalf.2]
  · rw [hcompl s hs, four_pow_eq, testBit_two_pow_sub_succ (four_pow_eq m ▸ hs)]
    simp [hj]
  · rw [hrev, testBit_reverse (by omega)]
    simp [hj]

/-- Four nodes, in a square. -/
theorem patterns_permute_square :
    Set.BijOn (destination (4 ^ 1) (-1) BIT_REVERSE_ 0) (Set.Iio (4 ^ 1)) (Set.Iio (4 ^ 1)) ∧
      destination 4 (-1) BIT_REVERSE_ 0 1 = 2 :=
  ⟨(patterns_permute (m := 1) le_rfl (by decide) 0).1 BIT_REVERSE_ (by simp), by decide⟩

theorem ceil_half (k : Nat) : ⌈(k : ℚ) / 2⌉₊ = (k + 1) / 2 := by
  obtain ⟨h, rfl | rfl⟩ := even_or_odd' k
  · rw [show ((2 * h : Nat) : ℚ) / 2 = h by push_cast; ring, ceil_natCast]
    omega
  · rw [show (2 * h + 1 + 1) / 2 = h + 1 by omega, ceil_eq_iff (succ_ne_zero h)]
    push_cast
    constructor
    · linarith
    · linarith

/-- **The offset of `TORNADO_` is rounded down**: `(x, y)` sends to column `x + k / 2 - 1`, that of
the ceiling if and only if the radix is even. -/
theorem tornado_destination {N x : Nat} (hN : N.sqrt = k) (hk : 2 ≤ k) (hx : x < k) (y random : Nat)
    {singleDest : Int} (hsingle : singleDest < 0) :
    destination N singleDest TORNADO_ random (y * k + x) = y * k + (x + k / 2 - 1) % k ∧
      (destination N singleDest TORNADO_ random (y * k + x) =
        y * k + (x + ⌈(k : ℚ) / 2⌉₊ - 1) % k ↔ Even k) := by
  have hneg : ¬ 0 ≤ singleDest := by omega
  have hdest : destination N singleDest TORNADO_ random (y * k + x) =
      y * k + (x + k / 2 - 1) % k := by
    simp only [destination, hN, if_neg hneg, coords_div y hx, coords_mod y hx]
  refine ⟨hdest, ?_⟩
  rw [hdest, ceil_half, Nat.add_left_cancel_iff]
  constructor
  · intro heq
    by_contra hodd
    obtain ⟨h, rfl⟩ := Nat.not_even_iff_odd.mp hodd
    -- for an odd radix the two columns are neighbours on a ring of at least three
    have hnext : x + (2 * h + 1 + 1) / 2 - 1 = x + (2 * h + 1) / 2 - 1 + 1 := by omega
    have hlt := mod_lt (x + (2 * h + 1) / 2 - 1) (show 0 < 2 * h + 1 by omega)
    rw [hnext, add_mod, mod_eq_of_lt (show 1 < 2 * h + 1 by omega)] at heq
    rcases Nat.lt_or_ge ((x + (2 * h + 1) / 2 - 1) % (2 * h + 1) + 1) (2 * h + 1) with hin | hout
    · rw [mod_eq_of_lt hin] at heq
      omega
    · have hlast : (x + (2 * h + 1) / 2 - 1) % (2 * h + 1) = 2 * h := by omega
      rw [hlast, mod_self] at heq
      omega
  · rintro ⟨h, rfl⟩
    rw [show (h + h + 1) / 2 = (h + h) / 2 by omega]

theorem tornado_destination_four :
    destination 16 (-1) TORNADO_ 0 (1 * 4 + 2) = 1 * 4 + (2 + 4 / 2 - 1) % 4 ∧
      destination 16 (-1) TORNADO_ 0 (1 * 4 + 2) =
        1 * 4 + (2 + ⌈((4 : Nat) : ℚ) / 2⌉₊ - 1) % 4 := by
  obtain ⟨hdest, hceil⟩ :=
    tornado_destination (N := 16) (k := 4) (x := 2) (sqrt_eq 4) (by decide) (by decide) 1 0
      (show (-1 : Int) < 0 by decide)
  exact ⟨hdest, hceil.mpr (by decide)⟩

/-- With nine nodes, node `(0, 0)` sends to itself and not to column `1`. -/
theorem tornado_odd_radix : Nat.sqrt 9 = 3 ∧ destination 9 (-1) TORNADO_ 0 (0 * 3 + 0) = 0 ∧
      destination 9 (-1) TORNADO_ 0 (0 * 3 + 0) ≠ 0 * 3 + (0 + ⌈((3 : Nat) : ℚ) / 2⌉₊ - 1) % 3 := by
  have hradix : sqrt 9 = 3 := sqrt_eq 3
  have hdest : destination 9 (-1) TORNADO_ 0 (0 * 3 + 0) = 0 := by
    simp only [destination, hradix]
    decide
  refine ⟨hradix, hdest, ?_⟩
  rw [hdest, ceil_half]
  decide

end NocSwap.Tester
