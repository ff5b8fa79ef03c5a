import NocSwap.Base.ChunkGenerator
import NocSwap.Lib.BitField

/-!
# The chunks cover the region
-/

namespace NocSwap.Base

open BitField Nat List

theorem div_mul_eq {c s : Nat} (hc : 0 < c) :
    (s + (c - 1)) / c * c = if s % c = 0 then s else s + (c - s % c) := by
  have hlt := mod_lt s hc
  have hdiv := div_add_mod s c
  have hsum : s + (c - 1) = s % c + (c - 1) + c * (s / c) := by omega
  rw [hsum, add_mul_div_left _ _ hc, Nat.add_mul, Nat.mul_comm (s / c)]
  split
  · rename_i h
    rw [h, Nat.zero_add, div_eq_of_lt (by omega)]
    omega
  · rename_i h
    rw [show s % c + (c - 1) = (s % c - 1) + c by omega, add_div_right _ hc,
      div_eq_of_lt (by omega)]
    omega

theorem toNat_roundUp {k : Nat} (hk : k < 64) (s : Addr) :
    (roundUp s (BitVec.ofNat 64 (2 ^ k))).toNat =
      (s.toNat + (2 ^ k - 1)) / 2 ^ k * 2 ^ k % 2 ^ 64 := by
  have hmask : (BitVec.ofNat 64 (2 ^ k) - 1).toNat = 2 ^ k - 1 := by
    have hone : BitVec.ofNat 64 (2 ^ k) = 1#64 <<< k := by
      apply BitVec.eq_of_toNat_eq
      rw [BitVec.toNat_ofNat, BitVec.toNat_shiftLeft, BitVec.toNat_one (by decide), one_shiftLeft]
    rw [hone]
    exact toNat_ones hk
  have h := toNat_replaceLow (x := 0#64) (y := s + (BitVec.ofNat 64 (2 ^ k) - 1)) hmask
  rw [BitVec.zero_and, BitVec.zero_or] at h
  obtain ⟨d, hd⟩ : ∃ d, 2 ^ 64 = 2 ^ k * d := Nat.pow_dvd_pow 2 hk.le
  unfold roundUp
  rw [h, BitVec.toNat_add, hmask, hd, mod_mul_right_div_self, Nat.mul_comm (2 ^ k) d,
    mul_mod_mul_right]
  rfl

namespace ChunkGenerator

theorem firstNext_eq {k : Nat} (hk : k < 64) (s : Addr) (T : Nat) :
    firstNext s T (2 ^ k) = s + BitVec.ofNat 64 (2 ^ k - s.toNat % 2 ^ k) := by
  have hpos := Nat.two_pow_pos k
  have hround := toNat_roundUp hk s
  rw [div_mul_eq hpos] at hround
  have hs := s.isLt
  unfold firstNext
  rw [if_neg hpos.ne']
  by_cases h : s.toNat % 2 ^ k = 0
  · rw [if_pos h, mod_eq_of_lt hs] at hround
    rw [← BitVec.eq_of_toNat_eq hround.symm, if_pos rfl, h]
    rfl
  · rw [if_neg h] at hround
    have heq : roundUp s (BitVec.ofNat 64 (2 ^ k)) = s + BitVec.ofNat 64 (2 ^ k - s.toNat % 2 ^ k) := by
      apply BitVec.eq_of_toNat_eq
      rw [hround, BitVec.toNat_add, BitVec.toNat_ofNat, add_mod_mod]
    have hlt := mod_lt s.toNat hpos
    have hle : 2 ^ k < 2 ^ 64 := Nat.pow_lt_pow_right (by decide) hk
    refine (if_neg ?_).trans heq
    intro hs'
    rw [← hs'] at hround
    omega

/-- What holds at a pass, with `p` the bytes of the chunks before it. -/
structure At (s : Addr) (T c p : Nat) (g : ChunkGenerator) : Prop where
  start : g.startAddr = s
  chunk : g.chunkSize = c
  addr : g.curAddr = s + BitVec.ofNat 64 p
  total : p + g.curSize + g.sizeLeft = T
  inside : c ≠ 0 → g.curAddr.toNat % c + g.curSize ≤ c
  more : g.sizeLeft ≠ 0 → c ≠ 0 ∧ g.curSize ≠ 0 ∧
    g.nextAddr = g.curAddr + BitVec.ofNat 64 g.curSize ∧ g.nextAddr.toNat % c = 0

variable {s : Addr} {T c p k : Nat} {g : ChunkGenerator}

theorem At.next (hc : c ≠ 0 → c ∣ 2 ^ 64) (h : At s T c p g) (hleft : g.sizeLeft ≠ 0) :
    At s T c (p + g.curSize) g.next := by
  obtain ⟨hne, hcur, hnext, halign⟩ := h.more hleft
  have hpos : 0 < c := Nat.pos_of_ne_zero hne
  unfold ChunkGenerator.next
  rw [if_neg hleft, h.chunk]
  refine ⟨h.start, rfl, ?_, ?_, fun _ => ?_, fun hmore => ⟨hne, ?_, rfl, ?_⟩⟩
  · show g.nextAddr = _
    rw [hnext, h.addr, BitVec.add_assoc, BitVec.ofNat_add]
  · have := h.total
    show p + g.curSize + min g.sizeLeft c + (g.sizeLeft - min g.sizeLeft c) = T
    omega
  · show g.nextAddr.toNat % c + min g.sizeLeft c ≤ c
    omega
  · show min g.sizeLeft c ≠ 0
    omega
  · -- bytes are left only behind a whole chunk
    change g.sizeLeft - min g.sizeLeft c ≠ 0 at hmore
    show (g.nextAddr + BitVec.ofNat 64 (min g.sizeLeft c)).toNat % c = 0
    rw [show min g.sizeLeft c = c by omega, BitVec.toNat_add, BitVec.toNat_ofNat, add_mod_mod,
      mod_mod_of_dvd _ (hc hne), add_mod_right, halign]

theorem toNat_add_sub (s : Addr) (n : Nat) : (s + BitVec.ofNat 64 n - s).toNat = n % 2 ^ 64 := by
  rw [BitVec.add_comm, BitVec.add_sub_cancel, BitVec.toNat_ofNat]

theorem new_at (hT : T < 2 ^ 32) (hc : c = 0 ∨ ∃ k < 32, c = 2 ^ k) (s : Addr) :
    At s T c 0 (new s T c) := by
  have hstart : s = s + BitVec.ofNat 64 0 := (BitVec.add_zero s).symm
  rcases hc with rfl | ⟨k, hk, rfl⟩
  · have hcur : (new s T 0).curSize = T := by
      show min T ((s + BitVec.ofNat 64 T - s).toNat % 2 ^ 32) = T
      rw [toNat_add_sub]
      omega
    have hleft : (new s T 0).sizeLeft = 0 := by
      show T - (new s T 0).curSize = 0
      omega
    exact ⟨rfl, rfl, hstart, by omega, fun h => absurd rfl h, fun h => absurd hleft h⟩
  · have hpos := Nat.two_pow_pos k
    have hle : 2 ^ k ≤ 2 ^ 31 := Nat.pow_le_pow_right (by decide) (by omega)
    have hlt := mod_lt s.toNat hpos
    have hnext := firstNext_eq (k := k) (by omega) s T
    have hcur : (new s T (2 ^ k)).curSize = min T (2 ^ k - s.toNat % 2 ^ k) := by
      show min T ((firstNext s T (2 ^ k) - s).toNat % 2 ^ 32) = _
      rw [hnext, toNat_add_sub]
      omega
    have hleft : (new s T (2 ^ k)).sizeLeft = T - (new s T (2 ^ k)).curSize := rfl
    refine ⟨rfl, rfl, hstart, by omega, fun _ => ?_, fun hmore => ⟨hpos.ne', by omega, ?_, ?_⟩⟩
    · show s.toNat % 2 ^ k + _ ≤ _
      omega
    · show firstNext s T (2 ^ k) = s + _
      rw [hnext, show (new s T (2 ^ k)).curSize = 2 ^ k - s.toNat % 2 ^ k by omega]
    · show (firstNext s T (2 ^ k)).toNat % 2 ^ k = 0
      have hsum : s.toNat + (2 ^ k - s.toNat % 2 ^ k) = 2 ^ k * (s.toNat / 2 ^ k + 1) := by
        rw [mul_succ]
        have := div_add_mod s.toNat (2 ^ k)
        omega
      rw [hnext, BitVec.toNat_add, BitVec.toNat_ofNat, add_mod_mod,
        mod_mod_of_dvd _ (Nat.pow_dvd_pow 2 (by omega)), hsum, mul_mod_right]

theorem run_done (h : g.curSize = 0) (n : Nat) : run n g = some [] := by
  rw [run.eq_def, done, decide_eq_true h]
  rfl

theorem run_at (hc : c ≠ 0 → c ∣ 2 ^ 64) : ∀ (n p : Nat) (g : ChunkGenerator), At s T c p g →
    g.curSize + g.sizeLeft ≤ n → ∃ gs, run n g = some gs ∧
      (gs.map curSize).sum = g.curSize + g.sizeLeft ∧ ∀ pre h post, gs = pre ++ h :: post →
        At s T c (p + (pre.map curSize).sum) h ∧ h.curSize ≠ 0 ∧ (h.sizeLeft = 0 ↔ post = []) := by
  intro n
  induction n with
  | zero =>
    intro p g _ hn
    exact ⟨[], run_done (by omega) 0, by simp; omega, by simp⟩
  | succ n ih =>
    intro p g hg hn
    by_cases hdone : g.curSize = 0
    · have hleft : g.sizeLeft = 0 := by
        by_contra h
        exact (hg.more h).2.1 hdone
      exact ⟨[], run_done hdone _, by simp [hdone, hleft], by simp⟩
    have hrun : run (n + 1) g = (run n g.next).map (g :: ·) := by
      rw [run, done, decide_eq_false hdone]
      rfl
    by_cases hleft : g.sizeLeft = 0
    · have hnext : g.next.curSize = 0 := by
        rw [next, if_pos hleft]
      refine ⟨[g], by rw [hrun, run_done hnext]; rfl, by simp [hleft], fun pre h post hsplit => ?_⟩
      cases pre with
      | nil =>
        obtain ⟨rfl, rfl⟩ := List.cons.inj hsplit
        exact ⟨hg, hdone, iff_of_true hleft rfl⟩
      | cons g' pre => simp at hsplit
    · have htotal := (hg.next hc hleft).total
      have := hg.total
      obtain ⟨gs, hgs, hsum, hall⟩ := ih _ _ (hg.next hc hleft) (by omega)
      refine ⟨g :: gs, by rw [hrun, hgs]; rfl, ?_, fun pre h post hsplit => ?_⟩
      · rw [map_cons, sum_cons, hsum]
        omega
      · cases pre with
        | nil =>
          obtain ⟨rfl, rfl⟩ := List.cons.inj hsplit
          refine ⟨hg, hdone, iff_of_false hleft ?_⟩
          rintro rfl
          simp at hsum
          omega
        | cons g' pre =>
          obtain ⟨rfl, hrest⟩ := List.cons.inj hsplit
          rw [map_cons, sum_cons, ← Nat.add_assoc]
          exact hall pre h post hrest

/-- **A region is cut into its chunks**: they follow each other, cover the region and cross no
multiple of the chunk size. -/
theorem chunks_cover (hT : T < 2 ^ 32) (hc : c = 0 ∨ ∃ k < 32, c = 2 ^ k) (s : Addr) :
    ∃ gs, run T (new s T c) = some gs ∧ (gs.map curSize).sum = T ∧
      ∀ pre g post, gs = pre ++ g :: post → g.curSize ≠ 0 ∧
        g.curAddr = s + BitVec.ofNat 64 (pre.map curSize).sum ∧
        g.complete = (pre.map curSize).sum ∧ (c ≠ 0 → g.curAddr.toNat % c + g.curSize ≤ c) ∧
        (g.last = true ↔ post = []) := by
  have hnew := new_at hT hc s
  have htotal := hnew.total
  have hdvd : c ≠ 0 → c ∣ 2 ^ 64 := by
    rcases hc with rfl | ⟨k, hk, rfl⟩
    · exact fun h => absurd rfl h
    · exact fun _ => Nat.pow_dvd_pow 2 (by omega)
  obtain ⟨gs, hgs, hsum, hall⟩ := run_at hdvd T 0 _ hnew (by omega)
  refine ⟨gs, hgs, by omega, fun pre g post hsplit => ?_⟩
  obtain ⟨hat, hne, hlast⟩ := hall pre g post hsplit
  rw [Nat.zero_add] at hat
  refine ⟨hne, hat.addr, ?_, hat.inside, decide_eq_true_iff.trans hlast⟩
  have := hat.total
  rw [complete, hat.start, hat.addr, toNat_add_sub]
  omega

theorem chunks_cover_top :
    (run 9 (new 0xfffffffffffffffd 9 4)).map (List.map curSize) = some [3, 4, 2] ∧
      ∃ gs, run 9 (new 0xfffffffffffffffd 9 4) = some gs ∧ (gs.map curSize).sum = 9 := by
  obtain ⟨gs, hgs, hsum, -⟩ := chunks_cover (T := 9) (c := 4) (by decide) (.inr ⟨2, by decide, rfl⟩)
    0xfffffffffffffffd
  exact ⟨by decide +kernel, gs, hgs, hsum⟩

end ChunkGenerator

end NocSwap.Base
