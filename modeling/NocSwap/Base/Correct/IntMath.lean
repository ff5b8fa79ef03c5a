import Mathlib.Data.Nat.Prime.Basic
import Mathlib.Order.Bounds.Basic
import Mathlib.Tactic.NormNum.Prime
import NocSwap.Base.IntMath

/-!
# The largest prime below a number
-/

namespace NocSwap.Base

open Nat

variable {m n i fuel : Nat}

/-- A number of which neither 2 nor 3 is a divisor. -/
def Coprime6 (m : Nat) : Prop := ¬ 2 ∣ m ∧ ¬ 3 ∣ m

theorem coprime6_of_prime (h : m.Prime) (hm : 5 ≤ m) : Coprime6 m := by
  constructor
  · intro hd
    have := (prime_dvd_prime_iff_eq prime_two h).mp hd
    omega
  · intro hd
    have := (prime_dvd_prime_iff_eq prime_three h).mp hd
    omega

/-- What the test of the source finds out: 46337 is the last divisor with a square that fits. -/
def tested (m : Nat) : Except IntFault Bool :=
  if m.Prime then if m < 46337 ^ 2 then .ok true else .error .overflow else .ok false

theorem isPrimeLoop_eq (hm : Coprime6 m) (hlt : m < 2 ^ 31) (hpos : 1 < m) (hi : i % 6 = 5)
    (hle : i ≤ 46337 ∨ i = 46343 ∧ 46337 ^ 2 ≤ m) (hmin : i ≤ m.minFac) (hfuel : m < i + 6 * fuel) :
    isPrimeLoop m fuel i = tested m := by
  induction fuel generalizing i with
  | zero =>
    have := minFac_le (n := m) (by omega)
    omega
  | succ fuel ih =>
    have hsq : ¬ m.Prime → i * i ≤ m := fun hp =>
      (Nat.mul_le_mul hmin hmin).trans (by rw [← Nat.pow_two]; exact minFac_sq_le_self (by omega) hp)
    rw [isPrimeLoop]
    rcases hle with hle | ⟨rfl, hle⟩
    · have hfit : i * i ≤ 46337 * 46337 := Nat.mul_le_mul hle hle
      rw [require, if_pos (by omega)]
      show (if i * i ≤ m then _ else _) = _
      by_cases hstop : i * i ≤ m
      · have h5 : 5 * i ≤ i * i := Nat.mul_le_mul_right i (by omega)
        rw [if_pos hstop]
        by_cases hd : m % i = 0 ∨ m % (i + 2) = 0
        · have hnot : ¬ m.Prime := by
            rcases hd with hd | hd <;>
              exact not_prime_of_dvd_of_lt (dvd_of_mod_eq_zero hd) (by omega) (by omega)
          rw [if_pos hd, tested, if_neg hnot]
          rfl
        · rw [if_neg hd]
          have hdvd := minFac_dvd m
          have hne : m.minFac ≠ i ∧ m.minFac ≠ i + 2 := by
            constructor
            · intro h
              exact hd (.inl (mod_eq_zero_of_dvd (h ▸ hdvd)))
            · intro h
              exact hd (.inr (mod_eq_zero_of_dvd (h ▸ hdvd)))
          have h2 : ¬ 2 ∣ m.minFac := fun h => hm.1 (h.trans hdvd)
          have h3 : ¬ 3 ∣ m.minFac := fun h => hm.2 (h.trans hdvd)
          refine ih (by omega) ?_ (by omega) (by omega)
          rcases Nat.lt_or_ge i 46337 with h | h
          · exact .inl (by omega)
          · obtain rfl : i = 46337 := by omega
            exact .inr ⟨rfl, by omega⟩
      · have hprime : m.Prime := by
          by_contra hp
          exact hstop (hsq hp)
        rw [if_neg hstop, tested, if_pos hprime, if_pos (by omega)]
        rfl
    · have hprime : m.Prime := by
        by_contra hp
        have := hsq hp
        omega
      rw [require, if_neg (by decide), tested, if_pos hprime, if_neg (Nat.not_lt.mpr hle)]
      rfl

theorem isPrime_eq (hm : Coprime6 m) (hlt : m < 2 ^ 31) (h5 : 5 ≤ m) : isPrime m = tested m := by
  have hdvd := minFac_dvd m
  have h2 : ¬ 2 ∣ m.minFac := fun h => hm.1 (h.trans hdvd)
  have h3 : ¬ 3 ∣ m.minFac := fun h => hm.2 (h.trans hdvd)
  have hmin := (minFac_prime (n := m) (by omega)).two_le
  rw [isPrime, if_neg (by omega)]
  exact isPrimeLoop_eq hm hlt (by omega) rfl (.inl (by omega)) (by omega) (by omega)

/-- The test finds a divisor of `m`: it tries `i` and `i + 2` for the numbers `i` that leave 5 when
divided by 6, as long as the square of `i` is not above `m`. -/
def Found (m : Nat) : Prop := ∃ i, i % 6 = 5 ∧ i * i ≤ m ∧ (i ∣ m ∨ i + 2 ∣ m)

/-- A divisor that can be found is found, and no square overflows before. -/
theorem isPrimeLoop_of_divisor {j : Nat} (hlt : m < 2 ^ 31) (hj : j % 6 = 5) (hsq : j * j ≤ m)
    (hdvd : j ∣ m ∨ j + 2 ∣ m) (hi : i % 6 = 5) (hij : i ≤ j) (hfuel : j < i + 6 * fuel) :
    isPrimeLoop m fuel i = .ok false := by
  induction fuel generalizing i with
  | zero => omega
  | succ fuel ih =>
    have hle : i * i ≤ m := (Nat.mul_le_mul hij hij).trans hsq
    rw [isPrimeLoop, require, if_pos (by omega)]
    show (if i * i ≤ m then _ else _) = _
    rw [if_pos hle]
    split_ifs with hd
    · rfl
    · have hne : i ≠ j := by
        rintro rfl
        exact hd (hdvd.imp mod_eq_zero_of_dvd mod_eq_zero_of_dvd)
      exact ih (by omega) (by omega) (by omega)

/-- Only a divisor makes the test fail. -/
theorem found_of_isPrimeLoop (hi : i % 6 = 5) (h : isPrimeLoop m fuel i = .ok false) : Found m := by
  induction fuel generalizing i with
  | zero => cases h
  | succ fuel ih =>
    obtain ⟨-, -, h⟩ := bind_eq_ok.mp h
    split_ifs at h with hle hd
    · exact ⟨i, hi, hle, hd.imp dvd_of_mod_eq_zero dvd_of_mod_eq_zero⟩
    · exact ih (by omega) h
    · cases h

/-- What the test says of a number greater than 3. -/
theorem isPrime_eq_false_iff (h3 : 3 < m) (hlt : m < 2 ^ 31) : isPrime m = .ok false ↔ Found m := by
  rw [isPrime, if_neg (by omega)]
  refine ⟨found_of_isPrimeLoop rfl, ?_⟩
  rintro ⟨i, hi, hsq, hdvd⟩
  have hself : i ≤ i * i := Nat.le_mul_of_pos_left i (by omega)
  exact isPrimeLoop_of_divisor hlt hi hsq hdvd rfl (by omega) (by omega)

/-! ### The descent -/

/-- What the descent returns where it meets the largest prime: the prime, if the test can tell. -/
def returned (p : Nat) : Except IntFault Nat :=
  if p < 46337 ^ 2 then .ok p else .error .overflow

theorem returned_eq_ok_iff {p : Nat} : returned p = .ok p ↔ p < 46337 ^ 2 := by
  unfold returned
  split_ifs with h
  · exact iff_of_true rfl h
  · exact iff_of_false nofun h

theorem prevPrimeLoop_prime {decr : Nat} (hp : m.Prime) (h5 : 5 ≤ m) (hlt : m < 2 ^ 31) :
    prevPrimeLoop (fuel + 1) m decr = returned m := by
  rw [prevPrimeLoop, isPrime_eq (coprime6_of_prime hp h5) hlt h5, tested, if_pos hp, returned]
  split_ifs <;> rfl

theorem prevPrimeLoop_composite {decr : Nat} (hm : Coprime6 m) (hp : ¬ m.Prime) (h5 : 5 ≤ m)
    (hlt : m < 2 ^ 31) :
    prevPrimeLoop (fuel + 1) m decr = prevPrimeLoop fuel (m - decr) (6 - decr) := by
  rw [prevPrimeLoop, isPrime_eq hm hlt h5, tested, if_neg hp]
  rfl

/-- The descent does not climb. -/
theorem le_of_prevPrimeLoop {decr p : Nat} (h : prevPrimeLoop fuel m decr = .ok p) : p ≤ m := by
  induction fuel generalizing m decr with
  | zero => cases h
  | succ fuel ih =>
    rw [prevPrimeLoop] at h
    obtain ⟨b, -, h⟩ := bind_eq_ok.mp h
    cases b with
    | true => exact (Except.ok.inj h).ge
    | false => exact (ih h).trans (Nat.sub_le ..)

/-- Numbers that are skipped are no primes. -/
theorem isGreatest_of_skip {n' p : Nat} (hle : n' ≤ n)
    (hskip : ∀ q, n' < q → q ≤ n → ¬ q.Prime) (h : IsGreatest {q | q.Prime ∧ q ≤ n} p) :
    IsGreatest {q | q.Prime ∧ q ≤ n'} p := by
  refine ⟨⟨h.1.1, ?_⟩, fun q hq => h.2 ⟨hq.1, hq.2.trans hle⟩⟩
  by_contra hlt
  exact hskip p (by omega) h.1.2 h.1.1

theorem eq_of_isGreatest {p : Nat} (hm : m.Prime) (h : IsGreatest {q | q.Prime ∧ q ≤ m} p) :
    p = m :=
  le_antisymm h.1.2 (h.2 ⟨hm, Nat.le_refl m⟩)

variable {p decr : Nat}

/-- **In step.** Where the descent visits all numbers that 2 and 3 do not divide, it returns the
largest prime. -/
theorem prevPrimeLoop_eq (h5 : 5 ≤ m) (hlt : m < 2 ^ 31)
    (hdecr : m % 6 = 1 ∧ decr = 2 ∨ m % 6 = 5 ∧ decr = 4) (hfuel : m < fuel)
    (hp : IsGreatest {q | q.Prime ∧ q ≤ m} p) : prevPrimeLoop fuel m decr = returned p := by
  induction fuel generalizing m decr with
  | zero => omega
  | succ fuel ih =>
    by_cases hm : m.Prime
    · rw [eq_of_isGreatest hm hp]
      exact prevPrimeLoop_prime hm h5 hlt
    · have hne : m ≠ 5 ∧ m ≠ 7 := by
        constructor <;> rintro rfl <;> exact hm (by decide)
      have h6 : Coprime6 m := by
        unfold Coprime6
        omega
      rw [prevPrimeLoop_composite h6 hm h5 hlt]
      refine ih (by omega) (by omega) (by omega) (by omega) (isGreatest_of_skip (Nat.sub_le ..) ?_ hp)
      intro q hlo hhi hq
      obtain ⟨h2, h3⟩ := coprime6_of_prime hq (by omega)
      obtain rfl : q = m := by omega
      exact hm hq

/-- **Out of step.** Where the descent visits every other number that 2 and 3 do not divide and the
odd multiples of 3 between them, it returns the largest prime if and only if that one is visited, the
test can tell, and a divisor is found for each multiple of 3 on the way. -/
theorem prevPrimeLoop_eq_ok_iff (h5 : 5 ≤ m) (hlt : m < 2 ^ 31)
    (hdecr : m % 6 = 1 ∧ decr = 4 ∨ m % 6 = 5 ∧ decr = 2) (hfuel : m < fuel)
    (hp : IsGreatest {q | q.Prime ∧ q ≤ m} p) :
    prevPrimeLoop fuel m decr = .ok p ↔
      p < 46337 ^ 2 ∧ p % 6 = m % 6 ∧ ∀ k, p < k → k < m → k % 6 = 3 → Found k := by
  -- two passes at a time: from `m` over a multiple of 3 to `m - 6`
  induction m using Nat.strong_induction_on generalizing fuel with
  | _ m ih =>
    obtain ⟨fuel, rfl⟩ : ∃ f, fuel = f + 2 := ⟨fuel - 2, by omega⟩
    by_cases hm : m.Prime
    · obtain rfl := eq_of_isGreatest hm hp
      rw [prevPrimeLoop_prime hm h5 hlt, returned_eq_ok_iff]
      exact ⟨fun h => ⟨h, rfl, fun k h1 h2 => by omega⟩, And.left⟩
    · have hne : m ≠ 5 ∧ m ≠ 7 ∧ m ≠ 11 ∧ m ≠ 13 := by
        refine ⟨?_, ?_, ?_, ?_⟩ <;> rintro rfl <;> exact hm (by decide)
      have h6 : Coprime6 m := by
        unfold Coprime6
        omega
      have hpm : p ≠ m := fun h => hm (h ▸ hp.1.1)
      have hple : p ≤ m := hp.1.2
      rw [prevPrimeLoop_composite h6 hm h5 hlt, prevPrimeLoop]
      by_cases hfound : Found (m - decr)
      · rw [(isPrime_eq_false_iff (by omega) (by omega)).mpr hfound]
        change prevPrimeLoop fuel (m - decr - (6 - decr)) (6 - (6 - decr)) = _ ↔ _
        rw [show m - decr - (6 - decr) = m - 6 by omega, show 6 - (6 - decr) = decr by omega]
        by_cases hle : p ≤ m - 6
        · rw [ih (m - 6) (by omega) (by omega) (by omega) (by omega) (by omega)
            ⟨⟨hp.1.1, hle⟩, fun q hq => hp.2 ⟨hq.1, hq.2.trans (Nat.sub_le ..)⟩⟩,
            show (m - 6) % 6 = m % 6 by omega]
          refine and_congr_right fun _ => and_congr_right fun _ =>
            ⟨fun h k h1 h2 h3 => ?_, fun h k h1 h2 h3 => h k h1 (by omega) h3⟩
          rcases Nat.lt_or_ge k (m - 6) with hk | hk
          · exact h k h1 hk h3
          · obtain rfl : k = m - decr := by omega
            exact hfound
        · constructor
          · intro h
            exact absurd (le_of_prevPrimeLoop h) hle
          · rintro ⟨-, hmod, -⟩
            omega
      · -- a multiple of 3 for which no divisor is found ends the descent
        constructor
        · intro h
          obtain ⟨b, hb, h⟩ := bind_eq_ok.mp h
          cases b with
          | true =>
            have heq : m - decr = p := Except.ok.inj h
            have h3 := (coprime6_of_prime hp.1.1 (by omega)).2
            omega
          | false => exact absurd ((isPrime_eq_false_iff (by omega) (by omega)).mp hb) hfound
        · rintro ⟨-, hmod, h⟩
          exact absurd (h (m - decr) (by omega) (by omega) (by omega)) hfound

/-- **When `prevPrime` returns the largest prime `p` up to `n`**: if 3 divides the odd number at which
the descent starts, or `p` leaves the same remainder as that number when divided by 6 and a divisor is
found for each odd multiple of 3 in between. -/
theorem prevPrime_eq_ok_iff (h2 : 2 ≤ n) (hlt : n < 2 ^ 31) (hp : IsGreatest {q | q.Prime ∧ q ≤ n} p) :
    prevPrime n = .ok p ↔ 5 ≤ n ∧ p < 46337 ^ 2 ∧ (oddStart n % 3 = 0 ∨
      p % 6 = oddStart n % 6 ∧ ∀ k, p < k → k < oddStart n → k % 6 = 3 → Found k) := by
  by_cases h5 : 5 ≤ n
  · have hodd : oddStart n = n ∧ n % 2 = 1 ∨ oddStart n + 1 = n ∧ n % 2 = 0 := by
      unfold oddStart
      split <;> omega
    rw [and_iff_right h5]
    unfold prevPrime
    generalize oddStart n = s at hodd
    have hs : IsGreatest {q | q.Prime ∧ q ≤ s} p := by
      refine isGreatest_of_skip (by omega) (fun q hlo hhi hq => ?_) hp
      have := (coprime6_of_prime hq (by omega)).1
      omega
    by_cases hthree : s % 3 = 0
    · have hs' : IsGreatest {q | q.Prime ∧ q ≤ s - 2} p := by
        refine isGreatest_of_skip (by omega) (fun q hlo hhi hq => ?_) hs
        obtain ⟨h2, h3⟩ := coprime6_of_prime hq (by omega)
        omega
      simp only [hthree, if_true, true_or, and_true]
      rw [prevPrimeLoop_eq (by omega) (by omega) (by omega) (by omega) hs', returned_eq_ok_iff]
    · simp only [hthree, if_false, false_or]
      split_ifs with hone
      · exact prevPrimeLoop_eq_ok_iff (by omega) (by omega) (by omega) (by omega) hs
      · exact prevPrimeLoop_eq_ok_iff (by omega) (by omega) (by omega) (by omega) hs
  · -- the numbers below 5 give 1
    have hone : prevPrime n = .ok 1 := by
      obtain rfl | rfl | rfl : n = 2 ∨ n = 3 ∨ n = 4 := by omega
      all_goals decide
    refine iff_of_false (fun h => ?_) fun h => h5 h.1
    rw [hone] at h
    exact hp.1.1.ne_one (Except.ok.inj h).symm

/-- From 299 the descent rejects 297, since it finds the divisor 11, and comes to 293. -/
theorem prevPrime_eq_ok_iff_299 :
    IsGreatest {q | q.Prime ∧ q ≤ 299} 293 ∧ prevPrime 299 = .ok 293 := by
  have hp : IsGreatest {q | q.Prime ∧ q ≤ 299} 293 := by
    refine ⟨⟨by norm_num, by decide⟩, fun q hq => ?_⟩
    by_contra hlt
    obtain ⟨hq, hle⟩ := hq
    have hcases : q = 295 ∨ q = 297 ∨ q = 299 ∨ q % 2 = 0 := by omega
    rcases hcases with rfl | rfl | rfl | heven
    · norm_num at hq
    · norm_num at hq
    · norm_num at hq
    · exact (coprime6_of_prime hq (by omega)).1 (dvd_of_mod_eq_zero heven)
  refine ⟨hp, (prevPrime_eq_ok_iff (by decide) (by decide) hp).mpr
    ⟨by decide, by decide, .inr ⟨by decide, fun k h1 h2 h3 => ?_⟩⟩⟩
  have hlt : k < 299 := h2
  obtain rfl : k = 297 := by omega
  exact ⟨11, by decide, by decide, .inl (by decide)⟩

/-- Below a number that is one above a multiple of 6, the descent steps to a multiple of 3, which the
test does not look for. -/
theorem prevPrime_multiple : prevPrime 25 = .ok 21 ∧ ¬ Nat.Prime 21 := by
  decide

end NocSwap.Base
