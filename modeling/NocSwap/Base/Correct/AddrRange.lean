import NocSwap.Base.AddrRange
import NocSwap.Lib.BitField

/-!
# Families of interleaved ranges and the tests on ranges

Membership in an interleaved range is a condition on the bounds and on a field of the address, to
which the tests are compared: `intersects` errs for ranges of size `1` and for ranges without
addresses, and `isSubset` for hashed ranges.
-/

namespace NocSwap.Base

open BitField List Nat

theorem toNat_mask {n : Nat} (hn : n ≤ 64) : (mask n).toNat = 2 ^ n - 1 := by
  unfold mask
  split
  · rename_i h
    rw [BitVec.toNat_allOnes, show n = 64 by omega]
  · rw [Int.toNat_natCast]
    exact toNat_ones (by omega)

theorem toNat_bits (a : Addr) {high k : Nat} (hk : k ≤ high + 1) (hh : high < 64) :
    (bits a high (high - k + 1)).toNat = slice (high + 1 - k) k a.toNat := by
  unfold bits
  have hlast : ((high : Int) - k + 1).toNat = high + 1 - k := by omega
  have hn : (high : Int) - (high - k + 1) + 1 = (k : Nat) := by omega
  rw [hlast, hn, BitVec.toNat_and, BitVec.toNat_ushiftRight, toNat_mask (by omega),
    and_two_pow_sub_one_eq_mod, shiftRight_eq_div_pow]
  rfl

theorem toNat_insertBits_zero (val bitVal : Addr) {n : Nat} (hn : n ≤ 64) :
    (insertBits val ((n : Int) - 1) 0 bitVal).toNat =
      val.toNat / 2 ^ n * 2 ^ n + bitVal.toNat % 2 ^ n := by
  unfold insertBits
  have hwidth : (n : Int) - 1 - 0 + 1 = (n : Nat) := by omega
  simp only [hwidth, Int.toNat_zero, BitVec.shiftLeft_zero]
  exact toNat_replaceLow (toNat_mask hn)

namespace AddrRange

variable {r : AddrRange} {a : Addr}

def FieldInside (high k : UInt8) : Prop := k.toNat ≤ high.toNat + 1 ∧ high.toNat < 64

structure Inside (r : AddrRange) : Prop where
  intlv : r.interleaved = true → FieldInside r.intlvHighBit r.intlvBits
  xor : r.hashed = true → FieldInside r.xorHighBit r.intlvBits
  apart : r.hashed = true →
    r.intlvHighBit.toNat + r.intlvBits.toNat ≤ r.xorHighBit.toNat ∨
      r.xorHighBit.toNat + r.intlvBits.toNat ≤ r.intlvHighBit.toNat

def width (r : AddrRange) : Nat := r.intlvBits.toNat

def low (r : AddrRange) : Nat := r.intlvHighBit.toNat + 1 - r.width

def xorLow (r : AddrRange) : Nat := r.xorHighBit.toNat + 1 - r.width

def key (r : AddrRange) (x : Nat) : Nat :=
  slice r.low r.width x ^^^ if r.hashed then slice r.xorLow r.width x else 0

theorem key_lt (r : AddrRange) (x : Nat) : r.key x < 2 ^ r.width := by
  apply xor_lt_two_pow (slice_lt x)
  split
  · exact slice_lt x
  · exact Nat.two_pow_pos _

theorem interleaved_iff : r.interleaved = true ↔ r.width ≠ 0 := by
  unfold interleaved width
  rw [bne_iff_ne, ne_eq, ne_eq, ← UInt8.toNat_inj]
  rfl

theorem width_eq_zero (hr : r.interleaved = false) : r.width = 0 := by
  by_contra hne
  rw [interleaved_iff.mpr hne] at hr
  cases hr

theorem interleaved_of_hashed (h : r.hashed = true) : r.interleaved = true :=
  (Bool.and_eq_true_iff.mp h).1

theorem inRange_iff : r.inRange a = true ↔ r._start ≤ a ∧ a ≤ r._end := decide_eq_true_iff

theorem contains_iff (hin : r.Inside) : r.contains a = true ↔ r._start ≤ a ∧ a ≤ r._end ∧
      (r.interleaved = true → r.key a.toNat = r.intlvMatch.toNat) := by
  unfold contains
  rw [← and_assoc, ← inRange_iff]
  cases hint : r.interleaved with
  | false => simp
  | true =>
    obtain ⟨hk, hh⟩ := hin.intlv hint
    have hbits := toNat_bits a hk hh
    cases hr : r.inRange a with
    | false => simp
    | true =>
      cases hhash : r.hashed with
      | false =>
        simp only [key, hhash, low, width, intlvLowBit, hbits]
        simp
      | true =>
        obtain ⟨hk', hh'⟩ := hin.xor hhash
        have hbits' := toNat_bits a hk' hh'
        simp only [key, hhash, low, xorLow, width, intlvLowBit, xorLowBit, BitVec.toNat_xor, hbits,
          hbits']
        simp

def hash (r : AddrRange) (hi lo : Nat) : Nat :=
  if r.hashed then
    if r.low + r.width ≤ r.xorLow then slice (r.xorLow - (r.low + r.width)) r.width hi
    else slice r.xorLow r.width lo
  else 0

theorem hash_lt (r : AddrRange) (hi lo : Nat) : r.hash hi lo < 2 ^ r.width := by
  unfold hash
  split
  · split
    · exact slice_lt _
    · exact slice_lt _
  · exact Nat.two_pow_pos _

theorem key_eq (hin : r.Inside) (x : Nat) :
    r.key x = slice r.low r.width x ^^^ r.hash (x / 2 ^ (r.low + r.width)) (x % 2 ^ r.low) := by
  unfold key hash
  congr 1
  split
  · rename_i hhash
    obtain ⟨hk, hh⟩ := hin.intlv (interleaved_of_hashed hhash)
    obtain ⟨hk', hh'⟩ := hin.xor hhash
    split
    · rename_i hle
      exact slice_eq_of_le hle x
    · rename_i hle
      apply slice_eq_of_add_le
      have := hin.apart hhash
      unfold low xorLow width at *
      omega
  · rfl

theorem key_eq_iff (hin : r.Inside) (x m : Nat) : r.key x = m ↔ slice r.low r.width x =
      m ^^^ r.hash (x / 2 ^ (r.low + r.width)) (x % 2 ^ r.low) := by
  rw [key_eq hin]
  constructor
  · rintro rfl
    rw [Nat.xor_assoc, Nat.xor_self, xor_zero]
  · intro h
    rw [h, Nat.xor_assoc, Nat.xor_self, xor_zero]

theorem toNat_removeIntlvBits (hin : r.Inside) (hint : r.interleaved = true) (a : Addr) :
    (r.removeIntlvBits a).toNat = squeeze r.low r.width a.toNat := by
  obtain ⟨hk, hh⟩ := hin.intlv hint
  unfold removeIntlvBits
  have hlow : r.intlvLowBit = (r.low : Nat) := by
    unfold intlvLowBit low width
    omega
  rw [hlow, toNat_insertBits_zero _ _ (by unfold low width; omega), BitVec.toNat_ushiftRight,
    shiftRight_eq_div_pow, Nat.div_div_eq_div_mul, ← Nat.pow_add, squeeze, Nat.add_comm r.low]
  rfl

theorem squeeze_zero (n x : Nat) : squeeze n 0 x = x := by
  rw [squeeze, Nat.add_zero, div_add_mod']

theorem toNat_getOffset (hin : r.Inside) (ha : r._start ≤ a ∧ a ≤ r._end)
    (hle : squeeze r.low r.width r._start.toNat ≤ squeeze r.low r.width a.toNat) :
    (r.getOffset a).toNat =
      squeeze r.low r.width a.toNat - squeeze r.low r.width r._start.toNat := by
  unfold getOffset
  rw [inRange_iff.mpr ha]
  cases hint : r.interleaved with
  | true =>
    show (r.removeIntlvBits a - r.removeIntlvBits r._start).toNat = _
    rw [BitVec.toNat_sub_of_le, toNat_removeIntlvBits hin hint, toNat_removeIntlvBits hin hint]
    rw [BitVec.le_def, toNat_removeIntlvBits hin hint, toNat_removeIntlvBits hin hint]
    exact hle
  | false =>
    show (a - r._start).toNat = _
    rw [BitVec.toNat_sub_of_le ha.1, width_eq_zero hint, squeeze_zero, squeeze_zero]

def Fits (r : AddrRange) : Prop := r.intlvMatch.toNat < 2 ^ r.width

theorem contains_iff_key (hin : r.Inside) (hfit : r.Fits) :
    r.contains a = true ↔ (r._start ≤ a ∧ a ≤ r._end) ∧ r.key a.toNat = r.intlvMatch.toNat := by
  rw [contains_iff hin, ← and_assoc]
  apply and_congr_right
  intro _
  rw [interleaved_iff]
  constructor
  · intro h
    by_cases hw : r.width = 0
    · have hlt := r.key_lt a.toNat
      unfold Fits at hfit
      rw [hw] at hlt hfit
      omega
    · exact h hw
  · intro h _
    exact h

theorem toNat_size {b n : Nat} (hs : r._start.toNat = b * 2 ^ (r.low + r.width))
    (he : r._end.toNat + 1 = (b + n) * 2 ^ (r.low + r.width))
    (hlen : n * 2 ^ (r.low + r.width) < 2 ^ 64) (hse : r._start ≤ r._end) :
    r.size.toNat = n * 2 ^ r.low := by
  have hsum : r._end.toNat - r._start.toNat + 1 = n * 2 ^ (r.low + r.width) := by
    rw [BitVec.le_def] at hse
    rw [Nat.add_mul, ← hs] at he
    omega
  have hone : (1 : Addr).toNat = 1 := rfl
  unfold size
  rw [BitVec.toNat_ushiftRight, BitVec.toNat_add, BitVec.toNat_sub_of_le hse, hone, hsum,
    mod_eq_of_lt hlen, shiftRight_eq_div_pow, Nat.pow_add, ← Nat.mul_assoc]
  exact Nat.mul_div_cancel _ (Nat.two_pow_pos _)

/-- **Offsets.** With aligned bounds that leave some address out, `getOffset` numbers the addresses.
-/
theorem getOffset_bijOn (hin : r.Inside) (hfit : r.Fits) {b n : Nat}
    (hs : r._start.toNat = b * 2 ^ (r.low + r.width))
    (he : r._end.toNat + 1 = (b + n) * 2 ^ (r.low + r.width))
    (hlen : n * 2 ^ (r.low + r.width) < 2 ^ 64) (hse : r._start ≤ r._end) :
    Set.BijOn r.getOffset {a | r.contains a = true} {o | o < r.size} := by
  have hsize := toNat_size hs he hlen hse
  -- the numbers of the addresses, on which the slice is a function of the other bits
  obtain ⟨hmaps, hinj, hsurj⟩ := squeeze_bijOn_Ico r.low
    (f := fun hi lo => r.intlvMatch.toNat ^^^ r.hash hi lo)
    (fun hi lo => xor_lt_two_pow hfit (r.hash_lt hi lo)) b n
  have hmem : ∀ a : Addr, r.contains a = true ↔
      a.toNat ∈ Set.Ico (b * 2 ^ (r.low + r.width)) ((b + n) * 2 ^ (r.low + r.width)) ∧
        slice r.low r.width a.toNat =
          r.intlvMatch.toNat ^^^ r.hash (a.toNat / 2 ^ (r.low + r.width)) (a.toNat % 2 ^ r.low) := by
    intro a
    rw [contains_iff_key hin hfit, key_eq_iff hin, BitVec.le_def, BitVec.le_def, Set.mem_Ico, ← hs,
      ← he, Nat.lt_succ_iff]
  have hstart : squeeze r.low r.width r._start.toNat = b * 2 ^ r.low := by
    rw [hs, squeeze_mul]
  have hoff : ∀ a : Addr, r.contains a = true →
      (r.getOffset a).toNat + b * 2 ^ r.low = squeeze r.low r.width a.toNat := by
    intro a ha
    have hbound := (Set.mem_Ico.mp (hmaps ((hmem a).mp ha))).1
    have hr := ((contains_iff hin).mp ha)
    rw [toNat_getOffset hin ⟨hr.1, hr.2.1⟩ (by rw [hstart]; exact hbound), hstart,
      Nat.sub_add_cancel hbound]
  refine ⟨?_, ?_, ?_⟩
  · intro a ha
    have hbound := (Set.mem_Ico.mp (hmaps ((hmem a).mp ha))).2
    rw [← hoff a ha, Nat.add_mul] at hbound
    show r.getOffset a < r.size
    rw [BitVec.lt_def, hsize]
    omega
  · intro a ha a' ha' heq
    apply BitVec.eq_of_toNat_eq
    apply hinj ((hmem a).mp ha) ((hmem a').mp ha')
    rw [← hoff a ha, ← hoff a' ha', heq]
  · intro o ho
    have ho' : o.toNat < n * 2 ^ r.low := by
      rw [← hsize]
      exact ho
    obtain ⟨x, hx, hsq⟩ := hsurj (show b * 2 ^ r.low + o.toNat ∈
      Set.Ico (b * 2 ^ r.low) ((b + n) * 2 ^ r.low) by
        rw [Set.mem_Ico, Nat.add_mul]
        omega)
    have hlt : x < 2 ^ 64 := by
      have h1 := (Set.mem_Ico.mp hx.1).2
      have h2 := r._end.isLt
      omega
    have hxa : (BitVec.ofNat 64 x).toNat = x := BitVec.toNat_ofNat .. ▸ mod_eq_of_lt hlt
    have ha : r.contains (BitVec.ofNat 64 x) = true := by
      rw [hmem, hxa]
      exact hx
    refine ⟨BitVec.ofNat 64 x, ha, ?_⟩
    apply BitVec.eq_of_toNat_eq
    have := hoff _ ha
    rw [hxa, hsq] at this
    omega

section Family

variable {s e : Addr} {hb xb k m : UInt8}

theorem toNat_stripes {n : Nat} (hn : n < 64) : (1#64 <<< n).toNat = 2 ^ n := by
  rw [BitVec.toNat_shiftLeft, BitVec.toNat_one (by decide), one_shiftLeft]
  exact mod_eq_of_lt (Nat.pow_lt_pow_right (by decide) hn)

theorem new_outcome (s e : Addr) (hb xb k m : UInt8) :
    Outcome (new s e hb xb k m) (fun r => r = ⟨s, e, hb, xb, k, m⟩ ∧
      (k ≠ 0 → m.toNat < (1#64 <<< k.toNat).toNat) ∧
      (k ≠ 0 → xb ≠ 0 → hb.toNat + k.toNat ≤ xb.toNat ∨ xb.toNat + k.toNat ≤ hb.toNat))
      (fun _ => True) := by
  unfold new
  simp only [outcome_do, outcome_ite, outcome_error, not_and, not_le]
  intro hm
  refine ⟨fun _ _ => ⟨fun _ hfar => ⟨hm, fun _ _ => ?_⟩, fun _ hfar => ⟨hm, fun _ _ => ?_⟩⟩,
    fun hno => ⟨hm, fun hk hx => ?_⟩⟩
  · omega
  · omega
  · exact absurd hx (hno hk)

theorem wellFormed_of_new (h : new s e hb xb k m = .ok r) (hk : k.toNat < 64)
    (hin : k ≠ 0 → FieldInside hb k ∧ (xb ≠ 0 → FieldInside xb k)) (hzero : k = 0 → m = 0) :
    r = ⟨s, e, hb, xb, k, m⟩ ∧ r.Inside ∧ r.Fits := by
  obtain ⟨rfl, hm, hfar⟩ := (new_outcome s e hb xb k m).of_ok h
  have hint : AddrRange.interleaved ⟨s, e, hb, xb, k, m⟩ = true → k ≠ 0 := bne_iff_ne.mp
  have hhash : AddrRange.hashed ⟨s, e, hb, xb, k, m⟩ = true → k ≠ 0 ∧ xb ≠ 0 := by
    intro h
    obtain ⟨h1, h2⟩ := Bool.and_eq_true_iff.mp h
    exact ⟨hint h1, bne_iff_ne.mp h2⟩
  refine ⟨rfl, ⟨?_, ?_, ?_⟩, ?_⟩
  · intro h
    exact (hin (hint h)).1
  · intro h
    exact (hin (hhash h).1).2 (hhash h).2
  · intro h
    exact hfar (hhash h).1 (hhash h).2
  · show m.toNat < 2 ^ k.toNat
    by_cases h0 : k = 0
    · rw [hzero h0]
      exact Nat.two_pow_pos _
    · rw [← toNat_stripes hk]
      exact hm h0

theorem mergeLoop_family (s e : Addr) (hb xb k m : UInt8) (n i : Nat) :
    mergeLoop ⟨s, e, hb, xb, k, m⟩
      ((List.range' i n).map fun m => ⟨s, e, hb, xb, k, UInt8.ofNat m⟩) (UInt8.ofNat i) = .ok () := by
  induction n generalizing i with
  | zero => rfl
  | succ n ih =>
    rw [range'_succ, map_cons, mergeLoop]
    have hmerge : AddrRange.mergesWith ⟨s, e, hb, xb, k, m⟩ ⟨s, e, hb, xb, k, UInt8.ofNat i⟩ = true := by
      simp [mergesWith]
    rw [hmerge, require, if_pos rfl, require, if_pos rfl]
    have hnext : UInt8.ofNat i + 1 = UInt8.ofNat (i + 1) := by
      rw [UInt8.ofNat_add]
      rfl
    rw [hnext]
    exact ih (i + 1)

theorem merge_family (hk : k.toNat < 64) :
    merge ((List.range (2 ^ k.toNat)).map fun m => ⟨s, e, hb, xb, k, UInt8.ofNat m⟩) =
      .ok (plain s e) := by
  obtain ⟨n, hn⟩ : ∃ n, 2 ^ k.toNat = n + 1 := exists_eq_succ_of_ne_zero (Nat.two_pow_pos _).ne'
  have hloop := mergeLoop_family s e hb xb k 0 (n + 1) 0
  have hlen : ((range (2 ^ k.toNat)).map
      fun m => (⟨s, e, hb, xb, k, UInt8.ofNat m⟩ : AddrRange)).length = (1#64 <<< k.toNat).toNat := by
    rw [length_map, length_range, toNat_stripes hk]
  rw [hn] at hlen ⊢
  rw [range_eq_range'] at hlen ⊢
  rw [range'_succ, map_cons] at hlen hloop ⊢
  rw [merge]
  simp only [hlen, require]
  exact congrArg (fun x => x >>= fun _ => pure (plain s e)) hloop

/-! ### The division of the memory -/

variable {rs : Nat → AddrRange}

theorem width_lt (hin : k ≠ 0 → FieldInside hb k) (h : new s e hb xb k 0 = .ok r) :
    k.toNat < 64 := by
  by_contra hk
  have h0 : k ≠ 0 := by
    rintro rfl
    exact hk (by decide)
  obtain ⟨hle, hlt⟩ := hin h0
  -- with 64 bits the number of ranges overflows to 0 and no matching value fits
  have hm := ((new_outcome s e hb xb k 0).of_ok h).2.1 h0
  rw [show k.toNat = 64 by omega] at hm
  exact absurd hm (by decide)

/-- The ranges that the constructor makes for the matching values below `2 ^ k`. -/
theorem family_wellFormed (hin : k ≠ 0 → FieldInside hb k ∧ (xb ≠ 0 → FieldInside xb k))
    (hrs : ∀ m < 2 ^ k.toNat, new s e hb xb k (UInt8.ofNat m) = .ok (rs m)) {m : Nat}
    (hm : m < 2 ^ k.toNat) :
    rs m = ⟨s, e, hb, xb, k, UInt8.ofNat m⟩ ∧ (rs m).Inside ∧ (rs m).Fits := by
  have hk : k.toNat < 64 := width_lt (fun h => (hin h).1) (hrs 0 (Nat.two_pow_pos _))
  apply wellFormed_of_new (hrs m hm) hk hin
  intro h0
  rw [h0] at hm
  rw [show m = 0 by simpa using hm]
  rfl

/-- An address is in the range of its key, taken modulo `256`. -/
theorem contains_family_iff (hin : k ≠ 0 → FieldInside hb k ∧ (xb ≠ 0 → FieldInside xb k))
    (hrs : ∀ m < 2 ^ k.toNat, new s e hb xb k (UInt8.ofNat m) = .ok (rs m)) {m : Nat}
    (hm : m < 2 ^ k.toNat) (hsa : s ≤ a) (hae : a ≤ e) :
    (rs m).contains a = true ↔ (rs 0).key a.toNat = m % 256 := by
  have hkey : (rs m).key a.toNat = (rs 0).key a.toNat := by
    rw [(family_wellFormed hin hrs hm).1, (family_wellFormed hin hrs (Nat.two_pow_pos _)).1]
    rfl
  obtain ⟨heq, hins, hfit⟩ := family_wellFormed hin hrs hm
  rw [contains_iff_key hins hfit, hkey, heq, and_iff_right ⟨hsa, hae⟩, UInt8.toNat_ofNat']

/-- Each address is in one range only if and only if the matching values fit into a byte. -/
theorem existsUnique_contains_iff (hse : s ≤ e)
    (hin : k ≠ 0 → FieldInside hb k ∧ (xb ≠ 0 → FieldInside xb k))
    (hrs : ∀ m < 2 ^ k.toNat, new s e hb xb k (UInt8.ofNat m) = .ok (rs m)) :
    (∀ a, s ≤ a → a ≤ e → ∃! m, m < 2 ^ k.toNat ∧ (rs m).contains a = true) ↔ k.toNat ≤ 8 := by
  constructor
  · intro h
    by_contra hk
    have h512 : 2 ^ 9 ≤ 2 ^ k.toNat := Nat.pow_le_pow_right (by decide) (by omega)
    obtain ⟨m, ⟨hm, hc⟩, huniq⟩ := h s (BitVec.le_refl s) hse
    have hkey := (contains_family_iff hin hrs hm (BitVec.le_refl s) hse).mp hc
    -- the matching values `m` and `m ± 256` are one and the same byte
    obtain ⟨m', hm', hne, hmod⟩ : ∃ m' < 2 ^ k.toNat, m' ≠ m ∧ m' % 256 = m % 256 := by
      rcases Nat.lt_or_ge m 256 with hlt | hge
      · exact ⟨m + 256, by omega, by omega, by omega⟩
      · exact ⟨m - 256, by omega, by omega, by omega⟩
    refine hne (huniq m' ⟨hm', ?_⟩)
    rw [contains_family_iff hin hrs hm' (BitVec.le_refl s) hse, hmod, hkey]
  · intro hk a hsa hae
    have hle : 2 ^ k.toNat ≤ 2 ^ 8 := Nat.pow_le_pow_right (by decide) hk
    have hlt : (rs 0).key a.toNat < 2 ^ k.toNat := by
      have hwidth : (rs 0).width = k.toNat := by
        rw [(family_wellFormed hin hrs (Nat.two_pow_pos _)).1]
        rfl
      rw [← hwidth]
      exact (rs 0).key_lt a.toNat
    refine ⟨(rs 0).key a.toNat, ⟨hlt, ?_⟩, ?_⟩
    · rw [contains_family_iff hin hrs hlt hsa hae, mod_eq_of_lt (by omega)]
    · rintro m ⟨hm, hc⟩
      rw [(contains_family_iff hin hrs hm hsa hae).mp hc, mod_eq_of_lt (by omega)]

/-- With aligned bounds `getOffset` numbers the addresses of each range if and only if the bounds
leave some address out: for the whole address space `size` overflows to 0. -/
theorem getOffset_bijOn_iff (hse : s ≤ e)
    (hin : k ≠ 0 → FieldInside hb k ∧ (xb ≠ 0 → FieldInside xb k))
    (hrs : ∀ m < 2 ^ k.toNat, new s e hb xb k (UInt8.ofNat m) = .ok (rs m))
    (hs : 2 ^ (hb.toNat + 1) ∣ s.toNat) (hlen : 2 ^ (hb.toNat + 1) ∣ e.toNat + 1 - s.toNat) :
    (∀ m < 2 ^ k.toNat,
      Set.BijOn (rs m).getOffset {a | (rs m).contains a = true} {o | o < (rs m).size}) ↔
      e.toNat + 1 - s.toNat < 2 ^ 64 := by
  constructor
  · intro h
    by_contra hfull
    have he := e.isLt
    have hzero : s = 0 := by bv_omega
    have hmax : e = 0xFFFFFFFFFFFFFFFF := by bv_omega
    obtain ⟨heq, -⟩ := family_wellFormed hin hrs (Nat.two_pow_pos _)
    have hc : (rs 0).contains 0 = true := by
      rw [contains_family_iff hin hrs (Nat.two_pow_pos _) (by rw [hzero]; decide)
        (by rw [hmax]; decide)]
      simp [key, slice]
    have hsize : (rs 0).size = 0 := by
      have hlen : e - s + 1 = 0 := by
        rw [hzero, hmax]
        decide
      rw [size, heq, hlen]
      exact BitVec.zero_ushiftRight
    have hlt : (rs 0).getOffset 0 < (rs 0).size := (h 0 (Nat.two_pow_pos _)).mapsTo hc
    rw [hsize] at hlt
    exact absurd hlt (BitVec.not_lt_zero)
  · obtain ⟨b, hs⟩ := hs
    obtain ⟨n, hlen⟩ := hlen
    intro hsmall m hm
    obtain ⟨heq, hins, hfit⟩ := family_wellFormed hin hrs hm
    have hunit : (rs m).low + (rs m).width = hb.toNat + 1 := by
      unfold low width
      rw [heq]
      show hb.toNat + 1 - k.toNat + k.toNat = _
      by_cases h0 : k = 0
      · rw [h0]
        rfl
      · exact Nat.sub_add_cancel (hin h0).1.1
    have hs' : (rs m)._start = s := by rw [heq]
    have he' : (rs m)._end = e := by rw [heq]
    rw [BitVec.le_def] at hse
    rw [Nat.mul_comm] at hs hlen
    apply getOffset_bijOn hins hfit (b := b) (n := n)
    · rw [hs', hunit, hs]
    · rw [he', hunit, Nat.add_mul]
      omega
    · rw [hunit]
      omega
    · rw [hs', he', BitVec.le_def]
      exact hse

end Family

/-- **Interleaving divides the memory** if and only if the matching values fit into a byte: each
address between the bounds is then in one of the ranges. The ranges merge into one in any case, and
with aligned bounds `getOffset` numbers the addresses of each if and only if the length fits into 64
bits. -/
theorem interleave_divides (s e : Addr) (hb xb k : UInt8) (rs : Nat → AddrRange) (hse : s ≤ e)
    (hin : k ≠ 0 → FieldInside hb k ∧ (xb ≠ 0 → FieldInside xb k))
    (hrs : ∀ m < 2 ^ k.toNat, new s e hb xb k (UInt8.ofNat m) = .ok (rs m)) :
    ((∀ a, s ≤ a → a ≤ e → ∃! m, m < 2 ^ k.toNat ∧ (rs m).contains a = true) ↔ k.toNat ≤ 8) ∧
    (∃ r, merge ((List.range (2 ^ k.toNat)).map rs) = .ok r ∧
      ∀ a, r.contains a = true ↔ s ≤ a ∧ a ≤ e) ∧
    (2 ^ (hb.toNat + 1) ∣ s.toNat → 2 ^ (hb.toNat + 1) ∣ e.toNat + 1 - s.toNat →
      ((∀ m < 2 ^ k.toNat,
        Set.BijOn (rs m).getOffset {a | (rs m).contains a = true} {o | o < (rs m).size}) ↔
        e.toNat + 1 - s.toNat < 2 ^ 64)) := by
  refine ⟨existsUnique_contains_iff hse hin hrs, ⟨plain s e, ?_, fun a => ?_⟩,
    getOffset_bijOn_iff hse hin hrs⟩
  · have hmap : (range (2 ^ k.toNat)).map rs =
        (range (2 ^ k.toNat)).map fun m => ⟨s, e, hb, xb, k, UInt8.ofNat m⟩ := by
      apply map_congr_left
      intro m hm
      exact (family_wellFormed hin hrs (mem_range.mp hm)).1
    rw [hmap]
    exact merge_family (width_lt (fun h => (hin h).1) (hrs 0 (Nat.two_pow_pos _)))
  · show (plain s e).inRange a = true ↔ _
    exact inRange_iff

/-- Four hashed ranges of 8 bytes, the bits 1 and 2 being combined with the bits 3 and 4. -/
theorem interleave_divides_hashed :
    ∃ rs : Nat → AddrRange, (∀ m < 4, new 0 31 2 4 2 (UInt8.ofNat m) = .ok (rs m)) ∧
      (rs 3).contains 19 = true ∧ (rs 3).getOffset 19 = 5 ∧ (rs 3).size = 8 ∧
      Set.BijOn (rs 3).getOffset {a | (rs 3).contains a = true} {o | o < (rs 3).size} := by
  refine ⟨fun m => ⟨0, 31, 2, 4, 2, UInt8.ofNat m⟩, ?_, by decide +kernel, by decide +kernel,
    by decide +kernel, ?_⟩
  · decide +kernel
  · refine ((interleave_divides 0 31 2 4 2 (fun m => ⟨0, 31, 2, 4, 2, UInt8.ofNat m⟩) (by decide)
      ?_ (by decide +kernel)).2.2 (by decide) (by decide)).mpr (by decide) 3 (by decide)
    intro _
    exact ⟨⟨by decide, by decide⟩, fun _ => ⟨by decide, by decide⟩⟩

/-- **Where the widths of the fields end**: a range of bit `0` over the whole address space has size
`0`, and with nine bits address `256` is in no range and `0` in two. -/
theorem interleave_width_exceeded :
    (∃ r, new 0 maxAddr 0 0 1 0 = .ok r ∧ r.contains 4 = true ∧ r.getOffset 4 = 2 ∧ r.size = 0 ∧
      ¬ Set.BijOn r.getOffset {a | r.contains a = true} {o | o < r.size}) ∧
    ∃ rs : Nat → AddrRange, (∀ m < 512, new 0 511 8 0 9 (UInt8.ofNat m) = .ok (rs m)) ∧
      (∀ m < 512, (rs m).contains 256 = false) ∧
      (rs 0).contains 0 = true ∧ (rs 256).contains 0 = true := by
  constructor
  · refine ⟨⟨0, maxAddr, 0, 0, 1, 0⟩, by decide +kernel, by decide +kernel, by decide +kernel,
      by decide +kernel, ?_⟩
    intro h
    have hlt : AddrRange.getOffset ⟨0, maxAddr, 0, 0, 1, 0⟩ 4 <
        AddrRange.size ⟨0, maxAddr, 0, 0, 1, 0⟩ := h.mapsTo (show _ = true by decide +kernel)
    revert hlt
    decide +kernel
  · refine ⟨fun m => ⟨0, 511, 8, 0, 9, UInt8.ofNat m⟩, by decide +kernel, by decide +kernel,
      by decide +kernel, by decide +kernel⟩

/-! ### Tests on ranges -/

section Tests

variable {q : AddrRange} {x : Addr}

theorem lt_iff : r.lt q = true ↔ r._start.toNat < q._start.toNat ∨
    (r._start.toNat = q._start.toNat ∧ r.intlvMatch.toNat < q.intlvMatch.toNat) := by
  unfold lt
  rw [BitVec.toNat_inj]
  by_cases h : r._start = q._start
  · simp [h, UInt8.lt_iff_toNat_lt]
  · simp [h, BitVec.lt_def]

theorem mergesWith_iff : r.mergesWith q = true ↔ q._start = r._start ∧ q._end = r._end ∧
    q.intlvHighBit = r.intlvHighBit ∧ q.xorHighBit = r.xorHighBit ∧ q.intlvBits = r.intlvBits :=
  decide_eq_true_iff

def select (r : AddrRange) (a : Addr) : Nat :=
  if r.hashed then
    (bits a r.intlvHighBit.toNat r.intlvLowBit ^^^ bits a r.xorHighBit.toNat r.xorLowBit).toNat
  else (bits a r.intlvHighBit.toNat r.intlvLowBit).toNat

theorem contains_iff_select : r.contains a = true ↔
    r.inRange a = true ∧ (r.interleaved = true → r.select a = r.intlvMatch.toNat) := by
  unfold contains select
  cases r.interleaved with
  | false => simp
  | true =>
    cases r.inRange a with
    | false => simp
    | true => cases r.hashed <;> simp

theorem eq_of_mergesWith (h : r.mergesWith q = true) : r =
    { q with intlvMatch := r.intlvMatch } := by
  obtain ⟨h1, h2, h3, h4, h5⟩ := mergesWith_iff.mp h
  cases r
  cases q
  simp_all

theorem mergesWith_symm (h : r.mergesWith q = true) : q.mergesWith r = true := by
  obtain ⟨h1, h2, h3, h4, h5⟩ := mergesWith_iff.mp h
  exact mergesWith_iff.mpr ⟨h1.symm, h2.symm, h3.symm, h4.symm, h5.symm⟩

theorem mergesWith_trans {t : AddrRange} (h : r.mergesWith q = true) (h' : q.mergesWith t = true) :
    r.mergesWith t = true := by
  obtain ⟨h1, h2, h3, h4, h5⟩ := mergesWith_iff.mp h
  obtain ⟨h1', h2', h3', h4', h5'⟩ := mergesWith_iff.mp h'
  exact mergesWith_iff.mpr ⟨h1'.trans h1, h2'.trans h2, h3'.trans h3, h4'.trans h4, h5'.trans h5⟩

def Overlap (r q : AddrRange) : Prop :=
  r._start.toNat ≤ q._end.toNat ∧ q._start.toNat ≤ r._end.toNat

theorem Overlap.symm (h : r.Overlap q) : q.Overlap r := ⟨h.2, h.1⟩

theorem not_bounds_lt_iff : ¬ (q._end < r._start ∨ r._end < q._start) ↔ r.Overlap q := by
  rw [BitVec.lt_def, BitVec.lt_def]
  unfold Overlap
  omega

theorem inRange_iff_toNat : r.inRange a = true ↔
    r._start.toNat ≤ a.toNat ∧ a.toNat ≤ r._end.toNat := by
  rw [inRange_iff, BitVec.le_def, BitVec.le_def]

theorem overlap_of_contains (hr : r.contains a = true) (hq : q.contains a = true) :
    r.Overlap q := by
  have h1 := inRange_iff_toNat.mp (contains_iff_select.mp hr).1
  have h2 := inRange_iff_toNat.mp (contains_iff_select.mp hq).1
  exact ⟨h1.1.trans h2.2, h2.1.trans h1.2⟩

theorem intlvMatch_eq_of_contains (hm : r.mergesWith q = true) (hint : r.interleaved = true)
    (hr : r.contains a = true) (hq : q.contains a = true) : r.intlvMatch = q.intlvMatch := by
  have hr' := (contains_iff_select.mp hr).2 hint
  rw [eq_of_mergesWith hm] at hr' hint
  have hq' := (contains_iff_select.mp hq).2 hint
  rw [← UInt8.toNat_inj]
  exact hr'.symm.trans hq'

theorem toNat_granularity (hin : r.Inside) (hr : r.interleaved = true) :
    r.granularity.toNat = 2 ^ if r.hashed then min r.low r.xorLow else r.low := by
  obtain ⟨hk, hh⟩ := hin.intlv hr
  have hlow : r.intlvLowBit.toNat = r.low := by
    unfold intlvLowBit low width
    omega
  have hpos : r.width ≠ 0 := interleaved_iff.mp hr
  have hlt : r.low < 64 := by
    unfold low width at *
    omega
  rw [granularity, if_pos hr]
  split
  · rename_i hash
    have hx := (hin.xor hash).1
    have hmin : (min r.intlvLowBit r.xorLowBit).toNat = min r.low r.xorLow := by
      unfold intlvLowBit xorLowBit low xorLow width
      omega
    rw [hmin, toNat_stripes (by omega)]
  · rw [hlow, toNat_stripes hlt]

theorem one_le_granularity (hin : q.Inside) (hint : q.interleaved = true) : 1 ≤ q.granularity := by
  rw [BitVec.le_def, toNat_granularity hin hint]
  exact Nat.one_le_two_pow

theorem isSubset_rangeSize (hin : q.Inside) (a : Addr) :
    (rangeSize a 1).isSubset q = .ok (q.contains a) := by
  have hrange : rangeSize a 1 = plain a a := by
    unfold rangeSize
    rw [BitVec.add_sub_cancel]
  have hsize : (plain a a).size = 1 := by
    show (a - a + 1) >>> 0 = 1
    rw [BitVec.sub_self]
    rfl
  rw [hrange]
  unfold isSubset
  rw [if_neg (show ¬ (plain a a).interleaved = true from Bool.false_ne_true)]
  cases hint : q.interleaved with
  | false =>
    unfold contains
    rw [hint]
    rfl
  | true =>
    rw [if_pos rfl, hsize, decide_eq_true (one_le_granularity hin hint)]
    show Except.ok (q.contains a && q.contains a && true) = _
    rw [Bool.and_true, Bool.and_self]

def Tests (r q : AddrRange) : Prop :=
  r.Overlap q → r.interleaved = true ∨ q.interleaved = true → q.size ≠ 1

/-- The bounds overlap, and the two are not of one family with different matching values. -/
def Conflict (r q : AddrRange) : Prop :=
  r.Overlap q ∧ ¬ (r.mergesWith q = true ∧ r.interleaved = true ∧ r.intlvMatch ≠ q.intlvMatch)

theorem intersects_outcome (ht : r.Tests q) : Outcome (r.intersects q)
      (fun b => (b = true ↔ r.Conflict q) ∧
        (b = true → (r.interleaved = false ∧ q.interleaved = false) ∨ r = q))
      (fun _ => r.Conflict q) := by
  unfold intersects
  have hover := not_bounds_lt_iff (r := r) (q := q)
  simp only [outcome_ite, outcome_pure, outcome_error]
  refine ⟨fun hno => ?_, fun hov => ⟨fun hplain => ?_, fun hint => ⟨fun hone => ?_, fun _ =>
    ⟨fun hmerge => ?_, fun hmerge => ?_⟩⟩⟩⟩
  · have : ¬ r.Overlap q := fun h => hover.mpr h hno
    simp [Conflict, this]
  · have hr : r.interleaved = false ∧ q.interleaved = false := by
      simpa using hplain
    simp [Conflict, hover.mp hov, hr]
  · apply absurd hone
    apply ht (hover.mp hov)
    cases hr : r.interleaved with
    | true => exact .inl rfl
    | false =>
      right
      simpa [hr] using hint
  · have hr : r.interleaved = true := by
      cases hr : r.interleaved with
      | true => rfl
      | false =>
        rw [eq_of_mergesWith hmerge] at hr
        have hq : q.interleaved = false := hr
        rw [eq_of_mergesWith hmerge] at hint
        simp [hr, hq] at hint
    refine ⟨by simp [Conflict, hover.mp hov, hmerge, hr], fun heq => .inr ?_⟩
    rw [eq_of_mergesWith hmerge, of_decide_eq_true heq]
  · simp [Conflict, hover.mp hov, hmerge]

def Meets (r q : AddrRange) : Prop := ∃ a, r.contains a = true ∧ q.contains a = true

theorem Meets.conflict (h : r.Meets q) : r.Conflict q := by
  obtain ⟨a, hr, hq⟩ := h
  refine ⟨overlap_of_contains hr hq, ?_⟩
  rintro ⟨hmerge, hint, hne⟩
  exact hne (intlvMatch_eq_of_contains hmerge hint hr hq)

theorem bounds_of_contains (h : r.contains x = true) : r._start ≤ x ∧ x ≤ r._end :=
  inRange_iff.mp (contains_iff_select.mp h).1

theorem contains_plain (hr : r.interleaved = false) :
    r.contains x = true ↔ r._start ≤ x ∧ x ≤ r._end := by
  rw [contains, hr]
  exact inRange_iff

theorem Overlap.meets (h : r.Overlap q) (hr : r.interleaved = false) (hq : q.interleaved = false)
    (hvr : r._start.toNat ≤ r._end.toNat) (hvq : q._start.toNat ≤ q._end.toNat) : r.Meets q := by
  obtain ⟨h1, h2⟩ := h
  -- the greater of the two starts is in both
  by_cases hle : r._start.toNat ≤ q._start.toNat
  · exact ⟨q._start, (contains_plain hr).mpr ⟨hle, h2⟩, (contains_plain hq).mpr ⟨Nat.le_refl _, hvq⟩⟩
  · exact ⟨r._start, (contains_plain hr).mpr ⟨Nat.le_refl _, hvr⟩,
      (contains_plain hq).mpr ⟨Nat.le_of_not_le hle, h1⟩⟩

theorem toNat_plainSize (hr : r.interleaved = false) (hse : r._start ≤ r._end) (h : r.size ≠ 0) :
    r.size.toNat = r._end.toNat - r._start.toNat + 1 := by
  rw [size, show r.intlvBits.toNat = 0 from width_eq_zero hr, BitVec.ushiftRight_zero] at h ⊢
  bv_omega

/-- The branch for a second range of size `1`: only its start is tested. -/
theorem intersects_of_size_one (hover : r.Overlap q)
    (hint : r.interleaved = true ∨ q.interleaved = true) (hone : q.size = 1) :
    r.intersects q = .ok (r.contains q._start) := by
  have hplain : ¬ (!r.interleaved && !q.interleaved) = true := by
    rcases hint with h | h <;> simp [h]
  rw [intersects, if_neg (not_bounds_lt_iff.mpr hover), if_neg hplain, if_pos hone]
  rfl

/-- Against a second range that is plain or not of size `1`, `intersects` is right, unless both are
one range without addresses. -/
theorem intersects_right_iff {v : Bool} (hr : r._start ≤ r._end) (hq : q._start ≤ q._end)
    (hsize : q.interleaved = true → q.size ≠ 1) (h : r.intersects q = .ok v) :
    (v = true ↔ r.Meets q) ↔ (r = q → ∃ x, r.contains x = true) := by
  by_cases ht : r.Tests q
  · obtain ⟨hiff, hkind⟩ := (intersects_outcome ht).of_ok h
    constructor
    · rintro hv rfl
      have hself : r.Conflict r := ⟨⟨hr, hr⟩, fun hne => hne.2.2 rfl⟩
      obtain ⟨x, hx, -⟩ := hv.mp (hiff.mpr hself)
      exact ⟨x, hx⟩
    · intro hne
      refine ⟨fun hv => ?_, fun hm => hiff.mpr hm.conflict⟩
      obtain ⟨hrp, hqp⟩ | rfl := hkind hv
      · exact (hiff.mp hv).1.meets hrp hqp hr hq
      · obtain ⟨x, hx⟩ := hne rfl
        exact ⟨x, hx, hx⟩
  · -- an interleaved range is tested against a plain one of one address
    unfold Tests at ht
    simp only [Classical.not_imp, not_not] at ht
    obtain ⟨hover, hint, hone⟩ := ht
    have hqp : q.interleaved = false := Bool.eq_false_iff.mpr fun hi => hsize hi hone
    have heq : q._end = q._start := by
      have hlen := toNat_plainSize hqp hq (by rw [hone]; decide)
      rw [hone] at hlen
      bv_omega
    have hself : q.contains q._start = true := (contains_plain hqp).mpr ⟨BitVec.le_refl _, hq⟩
    obtain rfl := Except.ok.inj ((intersects_of_size_one hover hint hone).symm.trans h)
    refine iff_of_true ⟨fun hx => ⟨_, hx, hself⟩, ?_⟩ (by rintro rfl; exact ⟨_, hself⟩)
    rintro ⟨x, hx, hx'⟩
    have hb := (contains_plain hqp).mp hx'
    rw [heq] at hb
    rwa [← BitVec.le_antisymm hb.2 hb.1]

/-- **When `intersects` is right.** Against an interleaved range of size `1` whose bounds overlap: if
the start of that range tells; otherwise: unless both are one range without addresses. -/
theorem intersects_exact_iff {v : Bool} (hr : r._start ≤ r._end) (hq : q._start ≤ q._end)
    (h : r.intersects q = .ok v) : (v = true ↔ r.Meets q) ↔
      if q.interleaved = true ∧ q.size = 1 then
        r.Overlap q → (r.contains q._start = true ↔ r.Meets q)
      else r = q → ∃ x, r.contains x = true := by
  split_ifs with hone
  · by_cases hover : r.Overlap q
    · obtain rfl := Except.ok.inj ((intersects_of_size_one hover (.inr hone.1) hone.2).symm.trans h)
      exact ⟨fun hv _ => hv, fun hv => hv hover⟩
    · -- disjoint bounds are answered by the first test
      rw [intersects, if_pos (not_not.mp (mt not_bounds_lt_iff.mp hover))] at h
      obtain rfl := Except.ok.inj h
      refine iff_of_true (iff_of_false Bool.false_ne_true ?_) fun ho => absurd ho hover
      rintro ⟨x, hx, hx'⟩
      exact hover (overlap_of_contains hx hx')
  · exact intersects_right_iff hr hq (fun hi hs => hone ⟨hi, hs⟩) h

/-- Against an interleaved range of size `1` whose bounds are disjoint, and against a plain one. -/
theorem intersects_exact_iff_hashed :
    ((plain 0 3).intersects ⟨8, 9, 0, 0, 1, 1⟩ = .ok false ∧
      ¬ (plain 0 3).Meets ⟨8, 9, 0, 0, 1, 1⟩) ∧
    AddrRange.intersects ⟨0, 31, 2, 4, 2, 3⟩ (plain 19 19) = .ok true ∧
      AddrRange.Meets ⟨0, 31, 2, 4, 2, 3⟩ (plain 19 19) := by
  refine ⟨⟨by decide +kernel, fun hm => ?_⟩, by decide +kernel,
    ((intersects_exact_iff (v := true) (by decide) (by decide) (by decide +kernel)).mpr ?_).mp rfl⟩
  · refine absurd (((intersects_exact_iff (v := false) (by decide) (by decide)
      (by decide +kernel)).mpr ?_).mpr hm) Bool.false_ne_true
    rw [if_pos (by decide +kernel)]
    exact fun h => absurd h.2 (by decide)
  · rw [if_neg (by decide +kernel)]
    exact fun h => absurd h (by decide)

/-- A range of size `1` without its start does not intersect itself, and a range without addresses
does. -/
theorem intersects_self :
    (∃ r, new 0 1 0 0 1 1 = .ok r ∧ r.contains 1 = true ∧ r.intersects r = .ok false) ∧
    ∃ r, new 0 3 3 0 1 1 = .ok r ∧ (∀ x, r.contains x = false) ∧ r.intersects r = .ok true := by
  refine ⟨⟨⟨0, 1, 0, 0, 1, 1⟩, by decide +kernel, by decide +kernel, by decide +kernel⟩,
    ⟨0, 3, 3, 0, 1, 1⟩, by decide +kernel, fun x => ?_, by decide +kernel⟩
  by_contra hx
  rw [Bool.not_eq_false] at hx
  have hle : x ≤ 3 := (bounds_of_contains hx).2
  have hcases : x = 0 ∨ x = 1 ∨ x = 2 ∨ x = 3 := by bv_omega
  rcases hcases with rfl | rfl | rfl | rfl <;> revert hx <;> decide +kernel

theorem key_congr {g y z : Nat} (hg : g ≤ r.low) (hg' : r.hashed = true → g ≤ r.xorLow)
    (h : y / 2 ^ g = z / 2 ^ g) : r.key y = r.key z := by
  have hslice : ∀ {n}, g ≤ n → slice n r.width y = slice n r.width z := by
    intro n hn
    obtain ⟨d, rfl⟩ := Nat.exists_eq_add_of_le hn
    rw [slice, slice, Nat.pow_add, ← Nat.div_div_eq_div_mul, h, Nat.div_div_eq_div_mul]
  unfold key
  rw [hslice hg]
  split
  · rename_i hh
    rw [hslice (hg' hh)]
  · rfl

theorem div_eq_or {d s e y : Nat} (hd : 0 < d) (hs : s ≤ y) (he : y ≤ e) (hlen : e < s + d) :
    y / d = s / d ∨ y / d = e / d := by
  have h1 : s / d ≤ y / d := Nat.div_le_div_right hs
  have h2 : y / d ≤ e / d := Nat.div_le_div_right he
  have h3 : e / d ≤ (s + d) / d := Nat.div_le_div_right hlen.le
  rw [add_div_right _ hd] at h3
  omega

theorem slice_add_ne {n k : Nat} (hk : k ≠ 0) (y : Nat) : slice n k (y + 2 ^ n) ≠ slice n k y := by
  rw [slice, slice, add_div_right _ (Nat.two_pow_pos n)]
  intro h
  have htwo : 2 ^ k = 2 * 2 ^ (k - 1) := by
    rw [← Nat.pow_succ']
    congr 1
    omega
  have hmod : (y / 2 ^ n + 1) % 2 = y / 2 ^ n % 2 := by
    rw [← mod_mod_of_dvd _ (Dvd.intro _ htwo.symm), h, mod_mod_of_dvd _ (Dvd.intro _ htwo.symm)]
  omega

/-- What `isSubset` answers: all addresses are in the second range and, if that one is hashed, there
are no more of them than its granularity. -/
theorem isSubset_spec (hr : r.interleaved = false) (hse : r._start ≤ r._end) (hfit : r.size ≠ 0)
    (hin : q.Inside) : ∃ v, r.isSubset q = .ok v ∧
      (v = true ↔ (∀ x, r._start ≤ x → x ≤ r._end → q.contains x = true) ∧
        (q.hashed = true → r.size ≤ q.granularity)) := by
  have hsize := toNat_plainSize hr hse hfit
  unfold isSubset
  rw [hr]
  cases hq : q.interleaved with
  | false =>
    refine ⟨_, rfl, ?_⟩
    have hh : q.hashed = false := by
      rw [hashed, hq]
      rfl
    rw [decide_eq_true_iff, hh]
    constructor
    · intro h
      refine ⟨fun x hx hx' => (contains_plain hq).mpr ⟨?_, ?_⟩, fun h => nomatch h⟩
      · exact BitVec.le_trans h.1 hx
      · exact BitVec.le_trans hx' h.2
    · rintro ⟨h, -⟩
      exact ⟨(bounds_of_contains (h _ (BitVec.le_refl _) hse)).1,
        (bounds_of_contains (h _ hse (BitVec.le_refl _))).2⟩
  | true =>
    refine ⟨_, rfl, ?_⟩
    have hgran := toNat_granularity hin hq
    generalize hg : (if q.hashed then min q.low q.xorLow else q.low) = g at hgran
    rw [Bool.and_eq_true, Bool.and_eq_true, decide_eq_true_iff]
    rw [BitVec.le_def, hsize, hgran]
    constructor
    · rintro ⟨⟨hs, he⟩, hle⟩
      refine ⟨fun x hx hx' => ?_, fun _ => hle⟩
      rw [contains_iff hin] at hs he ⊢
      refine ⟨BitVec.le_trans hs.1 hx, BitVec.le_trans hx' he.2.1, fun _ => ?_⟩
      have hcongr : ∀ {y z : Nat}, y / 2 ^ g = z / 2 ^ g → q.key y = q.key z := by
        intro y z
        apply key_congr
        · split at hg <;> omega
        · intro hh
          rw [if_pos hh] at hg
          omega
      -- the address is in the unit of the first one or in that of the last one
      rw [BitVec.le_def] at hse hx hx'
      rcases div_eq_or (Nat.two_pow_pos _) hx hx' (show _ < _ + 2 ^ g by omega) with h | h
      · rw [hcongr h, hs.2.2 hq]
      · rw [hcongr h, he.2.2 hq]
    · rintro ⟨h, hle⟩
      refine ⟨⟨h _ (BitVec.le_refl _) hse, h _ hse (BitVec.le_refl _)⟩, ?_⟩
      cases hh : q.hashed with
      | true =>
        rw [hh] at hle
        exact hle rfl
      | false =>
        -- the slice of the address one unit above the first one is another
        by_contra hlong
        rw [← hg, hh, if_neg Bool.false_ne_true] at hlong
        rw [BitVec.le_def] at hse
        have hlt := r._end.isLt
        have hx : (BitVec.ofNat 64 (r._start.toNat + 2 ^ q.low)).toNat = r._start.toNat + 2 ^ q.low :=
          BitVec.toNat_ofNat .. ▸ mod_eq_of_lt (by omega)
        have hs := ((contains_iff hin).mp (h _ (BitVec.le_refl _) hse)).2.2 hq
        have hu := ((contains_iff hin).mp (h (BitVec.ofNat 64 (r._start.toNat + 2 ^ q.low))
          (by rw [BitVec.le_def, hx]; exact Nat.le_add_right ..)
          (by rw [BitVec.le_def, hx]; omega))).2.2 hq
        rw [hx, ← hs] at hu
        simp only [key, hh, Bool.false_eq_true, if_false, xor_zero] at hu
        exact slice_add_ne (interleaved_iff.mp hq) _ hu

/-- **When `isSubset` is right**: unless a hashed range contains one longer than its granularity. -/
theorem isSubset_exact_iff (hr : r.interleaved = false) (hse : r._start ≤ r._end) (hfit : r.size ≠ 0)
    (hin : q.Inside) : ∃ v, r.isSubset q = .ok v ∧
      ((v = true ↔ ∀ x, r._start ≤ x → x ≤ r._end → q.contains x = true) ↔
        ((∀ x, r._start ≤ x → x ≤ r._end → q.contains x = true) → q.hashed = true →
          r.size ≤ q.granularity)) := by
  obtain ⟨v, hv, hiff⟩ := isSubset_spec hr hse hfit hin
  exact ⟨v, hv, by rw [hiff, and_iff_left_iff_imp]⟩

/-- A part of an interleaved range, and a range longer than the granularity of a hashed one, in which
its first address is not. -/
theorem isSubset_exact_iff_interleaved : ((plain 2 3).isSubset ⟨0, 7, 1, 0, 1, 1⟩ = .ok true ∧
      ∀ x, 2 ≤ x → x ≤ 3 → AddrRange.contains ⟨0, 7, 1, 0, 1, 1⟩ x = true) ∧
    (plain 0 1).isSubset ⟨0, 7, 0, 2, 1, 1⟩ = .ok false ∧
      ¬ ∀ x, 0 ≤ x → x ≤ 1 → AddrRange.contains ⟨0, 7, 0, 2, 1, 1⟩ x = true := by
  refine ⟨?_, ?_⟩
  · obtain ⟨v, hv, hiff⟩ := isSubset_exact_iff (r := plain 2 3) (q := ⟨0, 7, 1, 0, 1, 1⟩) (by decide)
      (by decide) (by decide) ⟨fun _ => ⟨by decide, by decide⟩, fun h => absurd h (by decide),
        fun h => absurd h (by decide)⟩
    have hval : (plain 2 3).isSubset ⟨0, 7, 1, 0, 1, 1⟩ = .ok true := by decide +kernel
    obtain rfl := Except.ok.inj (hval.symm.trans hv)
    exact ⟨hval, (hiff.mpr fun _ h => absurd h (by decide)).mp rfl⟩
  · obtain ⟨v, hv, hiff⟩ := isSubset_exact_iff (r := plain 0 1) (q := ⟨0, 7, 0, 2, 1, 1⟩) (by decide)
      (by decide) (by decide) ⟨fun _ => ⟨by decide, by decide⟩, fun _ => ⟨by decide, by decide⟩,
        fun _ => .inl (by decide)⟩
    have hval : (plain 0 1).isSubset ⟨0, 7, 0, 2, 1, 1⟩ = .ok false := by decide +kernel
    obtain rfl := Except.ok.inj (hval.symm.trans hv)
    refine ⟨hval, fun hall => Bool.false_ne_true ((hiff.mpr fun hall => ?_).mpr hall)⟩
    exact absurd (hall 0 (by decide) (by decide)) (by decide +kernel)

/-- Bit `0` combined with bit `2` is the same at `3` and `4`, but the granularity is `1`. -/
theorem isSubset_carry : ∃ q, new 0 7 0 2 1 1 = .ok q ∧ (∀ x, 3 ≤ x → x ≤ 4 → q.contains x = true) ∧
      q.granularity = 1 ∧ (plain 3 4).isSubset q = .ok false := by
  refine ⟨⟨0, 7, 0, 2, 1, 1⟩, by decide +kernel, fun x hx hx' => ?_, by decide +kernel,
    by decide +kernel⟩
  have hcases : x = 3 ∨ x = 4 := by bv_omega
  rcases hcases with rfl | rfl <;> decide +kernel

end Tests

end AddrRange

end NocSwap.Base
