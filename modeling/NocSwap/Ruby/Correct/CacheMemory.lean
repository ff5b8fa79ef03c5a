import NocSwap.Lib.BitField
import NocSwap.Ruby.CacheMemory

/-!
# The tag index of a cache memory
-/

namespace NocSwap.Ruby

open Function Nat

namespace CacheGeometry

variable {G : CacheGeometry}

theorem numSetBits_pos : 0 < G.numSetBits := by
  have hle : 1 ≤ log2 G.numSets := (le_log2 (by have := G.numSets_gt; unfold numSets; omega)).mpr
    G.numSets_gt
  exact hle

theorem toNat_bitSelect_lt (a : Addr) (small : Nat) {n : Nat} (hn : 0 < n) :
    (bitSelect a small (small + n - 1)).toNat < 2 ^ n := by
  unfold bitSelect
  split
  · rename_i hbig
    rw [BitVec.toNat_ushiftRight, shiftRight_eq_div_pow]
    apply Nat.div_lt_of_lt_mul
    calc a.toNat < 2 ^ 64 := a.isLt
      _ ≤ 2 ^ (small + n) := Nat.pow_le_pow_right (by decide) (by omega)
      _ = 2 ^ small * 2 ^ n := Nat.pow_add ..
  · rw [BitVec.toNat_ushiftRight, shiftRight_eq_div_pow, BitField.toNat_and_not_shiftLeft]
    apply Nat.div_lt_of_lt_mul
    rw [← Nat.pow_add, show small + n - 1 + 1 = small + n by omega]
    exact mod_lt _ (Nat.two_pow_pos _)

theorem setOf_lt (a : Addr) : G.setOf a < G.numSets := by
  have hne : G.numSets ≠ 0 := by
    have := G.numSets_gt
    unfold numSets
    omega
  exact (toNat_bitSelect_lt a _ numSetBits_pos).trans_le (log2_self_le hne)

end CacheGeometry

namespace CacheMemory

variable {G : CacheGeometry} {m : CacheMemory}

structure Exact (G : CacheGeometry) (m : CacheMemory) : Prop where
  index : ∀ a way, m.tagIndex a = some way →
    way < G.cacheAssoc ∧ ∃ e, m.cache (G.setOf a) way = some e ∧ e.address = a
  entry : ∀ set way e, m.cache set way = some e →
    e.setIndex = set ∧ e.wayIndex = way ∧ G.setOf e.address = set ∧
      m.tagIndex e.address = some way

def AllPresent (G : CacheGeometry) (a : Addr) (m : CacheMemory) : Prop :=
  ∀ way e, m.cache (G.setOf a) way = some e → e.permission ≠ .NotPresent

def CacheFault.IsAssertion (f : CacheFault) : Prop :=
  f = .lineAddress ∨ f = .tagPresent ∨ f = .tagNotPresent ∨ f = .notAvail

variable {a : Addr}

theorem findTagInSet_of_none (ha : G.IsLine a) (hidx : m.tagIndex a = none) :
    m.findTagInSet G (G.setOf a) a = .ok none := by
  simp [findTagInSet, ha, hidx, require, bind, Except.bind, pure, Except.pure]

variable {way : Nat} {e : AbstractCacheEntry}

theorem findTagInSet_of_some (ha : G.IsLine a) (hidx : m.tagIndex a = some way)
    (hway : way < G.cacheAssoc) (he : m.cache (G.setOf a) way = some e) :
    m.findTagInSet G (G.setOf a) a =
      .ok (if e.permission ≠ .NotPresent then some way else none) := by
  simp [findTagInSet, ways, ha, hidx, hway, he, CacheGeometry.setOf_lt, require, orFail, bind,
    Except.bind, pure, Except.pure]

/-- `findTagInSet` finds a way with the entry of the address, or that entry is `NotPresent`. -/
theorem Exact.findTagInSet (h : Exact G m) (ha : G.IsLine a) :
    ∃ loc, m.findTagInSet G (G.setOf a) a = .ok loc ∧
      (∀ way, loc = some way → m.tagIndex a = some way) ∧
      (loc = none → m.tagIndex a = none ∨
        ∃ way e, m.cache (G.setOf a) way = some e ∧ e.permission = .NotPresent) := by
  cases hidx : m.tagIndex a with
  | none =>
    refine ⟨none, findTagInSet_of_none ha hidx, ?_, ?_⟩
    · intro way hw
      cases hw
    · intro _
      exact .inl rfl
  | some way =>
    obtain ⟨hway, e, he, -⟩ := h.index a way hidx
    refine ⟨_, findTagInSet_of_some ha hidx hway he, ?_, ?_⟩
    · intro way' hw
      split at hw
      · exact hw
      · cases hw
    · intro hw
      split at hw
      · cases hw
      · rename_i hperm
        exact .inr ⟨way, e, he, not_not.mp hperm⟩

theorem addressToCacheSet_outcome :
    Outcome (addressToCacheSet G a) (fun set => G.IsLine a ∧ set = G.setOf a)
      CacheFault.IsAssertion := by
  unfold addressToCacheSet
  rw [outcome_bind, outcome_require]
  exact ⟨fun ha => ⟨ha, rfl⟩, fun _ => .inl rfl⟩

theorem Exact.isTagPresent (h : Exact G m) (a : Addr) :
    Outcome (m.isTagPresent G a) (fun b => G.IsLine a ∧
        (b = true → ∃ way, m.tagIndex a = some way) ∧
        (b = false → m.tagIndex a = none ∨
          ∃ way e, m.cache (G.setOf a) way = some e ∧ e.permission = .NotPresent))
      CacheFault.IsAssertion := by
  unfold CacheMemory.isTagPresent
  rw [outcome_bind]
  refine addressToCacheSet_outcome.imp ?_
  rintro set ⟨ha, rfl⟩
  obtain ⟨loc, hloc, hsome, hnone⟩ := h.findTagInSet ha
  rw [hloc]
  refine ⟨ha, ?_, ?_⟩
  · intro hb
    obtain ⟨way, rfl⟩ := Option.isSome_iff_exists.mp hb
    exact ⟨way, hsome way rfl⟩
  · intro hb
    exact hnone (Option.not_isSome_iff_eq_none.mp (by simp [hb]))

theorem addressToCacheSet_of_isLine (ha : G.IsLine a) :
    addressToCacheSet G a = .ok (G.setOf a) := by
  simp [addressToCacheSet, ha, require, bind, Except.bind, pure, Except.pure]

theorem ways_setOf (a : Addr) : m.ways G (G.setOf a) = .ok (m.cache (G.setOf a)) := by
  simp [ways, CacheGeometry.setOf_lt, require, bind, Except.bind, pure, Except.pure]

theorem Exact.new : Exact G new where
  index := by
    intro a way h
    cases h
  entry := by
    intro set way e h
    cases h

variable {i : Nat}

section

variable (h : Exact G m)
include h

theorem Exact.insert (hi : i < G.cacheAssoc)
    (hempty : m.cache (G.setOf a) i = none) (hidx : m.tagIndex a = none) :
    Exact G (m.setEntry (G.setOf a) i (some ⟨a, .Invalid, -1, G.setOf a, i⟩) a (some i)) where
  index := by
    intro b way hb
    rw [setEntry_tagIndex] at hb
    rw [setEntry_cache]
    by_cases hba : b = a
    · subst hba
      rw [update_self] at hb
      cases hb
      exact ⟨hi, _, set2_same .., rfl⟩
    · rw [update_of_ne hba] at hb
      obtain ⟨hway, e, he, hea⟩ := h.index b way hb
      refine ⟨hway, e, ?_, hea⟩
      -- the way of `b` is not the one that was empty
      rw [set2_of_ne, he]
      rintro ⟨hset, rfl⟩
      rw [hset, hempty] at he
      cases he
  entry := by
    intro set way e he
    rw [setEntry_cache, set2_apply] at he
    rw [setEntry_tagIndex]
    split at he
    · rename_i hplace
      cases he
      exact ⟨hplace.1.symm, hplace.2.symm, hplace.1.symm, by rw [hplace.2]; exact update_self ..⟩
    · obtain ⟨hs, hw, hset, hidx'⟩ := h.entry set way e he
      refine ⟨hs, hw, hset, ?_⟩
      rw [update_of_ne, hidx']
      intro hea
      rw [hea, hidx] at hidx'
      cases hidx'

theorem Exact.erase (hidx : m.tagIndex a = some i) :
    Exact G (m.setEntry (G.setOf a) i none a none) where
  index := by
    intro b way hb
    rw [setEntry_tagIndex] at hb
    rw [setEntry_cache]
    by_cases hba : b = a
    · subst hba
      rw [update_self] at hb
      cases hb
    · rw [update_of_ne hba] at hb
      obtain ⟨hway, e, he, hea⟩ := h.index b way hb
      refine ⟨hway, e, ?_, hea⟩
      rw [set2_of_ne, he]
      -- the entry at the way of `a` is that of `a`
      rintro ⟨hset, rfl⟩
      obtain ⟨-, e', he', hea'⟩ := h.index a way hidx
      rw [hset, he'] at he
      cases he
      exact hba (hea.symm.trans hea')
  entry := by
    intro set way e he
    rw [setEntry_cache, set2_apply] at he
    rw [setEntry_tagIndex]
    split at he
    · cases he
    · rename_i hplace
      obtain ⟨hs, hw, hset, hidx'⟩ := h.entry set way e he
      refine ⟨hs, hw, hset, ?_⟩
      rw [update_of_ne, hidx']
      intro hea
      rw [hea] at hset hidx'
      rw [hidx] at hidx'
      cases hidx'
      exact hplace ⟨hset.symm, rfl⟩

theorem Exact.changePermission (set way : Nat) (perm : AccessPermission) :
    Exact G (m.changePermission set way perm) where
  index := by
    intro b i hb
    obtain ⟨hi, e, he, hea⟩ := h.index b i hb
    refine ⟨hi, ?_⟩
    rw [changePermission_cache, set2_apply]
    split
    · rename_i hplace
      rw [← hplace.1, ← hplace.2, he]
      exact ⟨_, rfl, hea⟩
    · exact ⟨e, he, hea⟩
  entry := by
    intro set' way' e he
    rw [changePermission_cache, set2_apply] at he
    split at he
    · rename_i hplace
      obtain ⟨rfl, rfl⟩ := hplace
      obtain ⟨e', he', rfl⟩ := Option.map_eq_some_iff.mp he
      exact h.entry _ _ e' he'
    · exact h.entry _ _ e he

/-- `allocate` keeps the index exact if no entry of the set is `NotPresent`. -/
theorem Exact.allocate (hp : AllPresent G a m) :
    Outcome (m.allocate G a) (Exact G) CacheFault.IsAssertion := by
  unfold CacheMemory.allocate
  rw [outcome_bind]
  refine (h.isTagPresent a).imp ?_
  rintro present ⟨ha, -, hnone⟩
  simp only [cacheAvail, addressToCacheSet_of_isLine ha, ways_setOf, outcome_do, outcome_ok]
  have hidx : present = false → m.tagIndex a = none := by
    intro hpres
    apply (hnone hpres).resolve_right
    rintro ⟨way, e, he, hperm⟩
    exact hp way e he hperm
  refine ⟨fun hpres => ⟨fun havail => ⟨fun i hi => ?_, fun hno => ?_⟩, fun _ => ?_⟩, fun _ => ?_⟩
  · apply h.insert (List.mem_range.mp (List.mem_of_find?_eq_some hi)) _ (hidx hpres)
    have hopen := List.find?_some hi
    cases he : m.cache (G.setOf a) i with
    | none => rfl
    | some e =>
      rw [he] at hopen
      exact absurd (of_decide_eq_true hopen) (hp i e he)
  · -- a way that `cacheAvail` has found is open, or has the entry of `a`, which there is not
    exfalso
    obtain ⟨i, hi, hav⟩ := List.any_eq_true.mp havail
    have hclosed := List.find?_eq_none.mp hno i hi
    cases he : m.cache (G.setOf a) i with
    | none =>
      rw [he] at hclosed
      exact hclosed rfl
    | some e =>
      rw [he] at hav
      obtain hea | hperm := of_decide_eq_true hav
      · have hway := (h.entry _ _ e he).2.2.2
        rw [hea, hidx hpres] at hway
        cases hway
      · exact hp i e he hperm
  · exact .inr (.inr (.inr rfl))
  · exact .inr (.inl rfl)

theorem Exact.deallocate (a : Addr) :
    Outcome (m.deallocate G a) (Exact G) CacheFault.IsAssertion := by
  unfold CacheMemory.deallocate
  rw [outcome_bind]
  refine (h.isTagPresent a).imp ?_
  rintro present ⟨ha, -, -⟩
  rw [outcome_bind, outcome_require]
  refine ⟨fun _ => ?_, fun _ => .inr (.inr (.inl rfl))⟩
  obtain ⟨loc, hloc, hsome, -⟩ := h.findTagInSet ha
  rw [addressToCacheSet_of_isLine ha, outcome_bind, outcome_ok, hloc, outcome_bind, outcome_ok]
  cases loc with
  | none => exact h
  | some way => exact h.erase (hsome way rfl)

end

def Op.Clean (G : CacheGeometry) (m : CacheMemory) : Op → Prop
  | .allocate a => AllPresent G a m
  | _ => True

theorem Exact.exec (h : Exact G m) (op : Op) (hc : op.Clean G m) :
    Outcome (m.exec G op) (Exact G) CacheFault.IsAssertion := by
  cases op with
  | allocate a => exact h.allocate hc
  | deallocate a => exact h.deallocate a
  | changePermission set way perm => exact h.changePermission set way perm

def CleanRun (G : CacheGeometry) : List Op → CacheMemory → Prop
  | [], _ => True
  | op :: ops, m => op.Clean G m ∧ ∀ m', m.exec G op = .ok m' → CleanRun G ops m'

theorem Exact.run (ops : List Op) (h : Exact G m) (hc : CleanRun G ops m) :
    Outcome (run G ops m) (Exact G) CacheFault.IsAssertion := by
  induction ops generalizing m with
  | nil => exact h
  | cons op ops ih =>
    show Outcome (m.exec G op >>= run G ops) _ _
    rw [outcome_bind]
    apply Outcome.intro
    · intro m' hm'
      exact ih ((h.exec op hc.1).of_ok hm') (hc.2 m' hm')
    · intro f hf
      exact (h.exec op hc.1).of_error hf

theorem Exact.lookup (h : Exact G m) (ha : G.IsLine a) :
    ∃ r, m.lookup G a = .ok r ∧ ∀ e, r = some e →
      e.address = a ∧ e.setIndex = G.setOf a ∧ m.cache (G.setOf a) e.wayIndex = some e := by
  obtain ⟨loc, hloc, hsome, -⟩ := h.findTagInSet ha
  unfold CacheMemory.lookup
  simp only [addressToCacheSet_of_isLine ha, hloc, bind, Except.bind]
  cases loc with
  | none => exact ⟨none, rfl, fun e he => by cases he⟩
  | some way =>
    obtain ⟨-, e, he, hea⟩ := h.index a way (hsome way rfl)
    simp only [ways_setOf]
    refine ⟨_, rfl, fun e' he' => ?_⟩
    rw [he] at he'
    cases he'
    obtain ⟨hs, hw, -, -⟩ := h.entry _ _ e he
    exact ⟨hea, hs, by rw [hw, he]⟩

theorem Exact.unique (h : Exact G m) {set set' way' : Nat} {e' : AbstractCacheEntry}
    (he : m.cache set way = some e) (he' : m.cache set' way' = some e')
    (heq : e.address = e'.address) : set = set' ∧ way = way' := by
  obtain ⟨-, -, hset, hidx⟩ := h.entry set way e he
  obtain ⟨-, -, hset', hidx'⟩ := h.entry set' way' e' he'
  rw [heq] at hset hidx
  exact ⟨hset.symm.trans hset', Option.some.inj (hidx.symm.trans hidx')⟩

/-- **The tag index is exact** if `allocate` is never called on a set with a `NotPresent` entry:
`lookup` returns the entry of the address, and addresses of entries differ. -/
theorem lookup_exact (G : CacheGeometry) (ops : List Op) (m : CacheMemory)
    (hrun : run G ops new = .ok m) (hc : CleanRun G ops new) :
    (∀ a, G.IsLine a → ∃ r, m.lookup G a = .ok r ∧ ∀ e, r = some e →
      e.address = a ∧ e.setIndex = G.setOf a ∧ m.cache (G.setOf a) e.wayIndex = some e) ∧
    (∀ set way set' way' e e', m.cache set way = some e → m.cache set' way' = some e' →
      e.permission ≠ .NotPresent → e'.permission ≠ .NotPresent → e.address = e'.address →
      set = set' ∧ way = way') ∧
    ∀ op, op.Clean G m → ∀ f, m.exec G op = .error f → CacheFault.IsAssertion f := by
  have h : Exact G m := (Exact.new.run ops hc).of_ok hrun
  refine ⟨fun a ha => h.lookup ha, ?_, ?_⟩
  · intro set way set' way' e e' he he' _ _ heq
    exact h.unique he he' heq
  · intro op hop f hf
    exact (h.exec op hop).of_error hf

def small : CacheGeometry where
  cacheSize := 256
  cacheAssoc := 2
  blockSize := 64
  startIndexBit := 6
  blockSizeBits := 6
  numSets_gt := Nat.one_lt_two

/-- An entry becomes `NotPresent` and present again before the next `allocate`. -/
theorem lookup_exact_changed : ∃ m, run small [.allocate 0, .changePermission 0 0 .NotPresent,
        .changePermission 0 0 .Read_Only, .allocate 128] new = .ok m ∧
      m.lookup small 0 = .ok (some ⟨0, .Read_Only, -1, 0, 0⟩) ∧
      ∀ a, small.IsLine a → ∃ r, m.lookup small a = .ok r ∧ ∀ e, r = some e → e.address = a := by
  refine ⟨_, rfl, rfl, fun a ha => ?_⟩
  have hclean : CleanRun small [.allocate 0, .changePermission 0 0 .NotPresent,
      .changePermission 0 0 .Read_Only, .allocate 128] new := by
    refine ⟨?_, fun m₁ h₁ => ⟨trivial, fun m₂ h₂ => ⟨trivial, fun m₃ h₃ => ⟨?_, ?_⟩⟩⟩⟩
    · intro way e he
      cases he
    · cases h₁
      cases h₂
      cases h₃
      intro way e he
      cases way with
      | zero =>
        cases he
        decide
      | succ way => cases he
    · intro _ _
      trivial
  obtain ⟨r, hr, hentry⟩ := (lookup_exact small _ _ rfl hclean).1 a ha
  exact ⟨r, hr, fun e he => (hentry e he).1⟩

/-- **Stale entries of the index.** `lookup` of line `0` returns the entry of line `128`, or meets
an empty way; and two entries can have address `0`. -/
theorem lookup_stale :
    (∃ m, run small [.allocate 0, .changePermission 0 0 .NotPresent, .allocate 128] new = .ok m ∧
      m.lookup small 0 = .ok (some ⟨128, .Invalid, -1, 0, 0⟩)) ∧
    (∃ m, run small [.allocate 0, .changePermission 0 0 .NotPresent, .allocate 128,
        .deallocate 128] new = .ok m ∧
      m.lookup small 0 = .error .nullPointer) ∧
    ∃ m, run small [.allocate 128, .allocate 0, .changePermission 0 1 .NotPresent, .deallocate 128,
        .allocate 0, .changePermission 0 1 .Read_Only] new = .ok m ∧
      m.cache 0 0 = some ⟨0, .Invalid, -1, 0, 0⟩ ∧ m.cache 0 1 = some ⟨0, .Read_Only, -1, 0, 1⟩ := by
  refine ⟨⟨_, rfl, rfl⟩, ⟨_, rfl, rfl⟩, ⟨_, rfl, rfl, rfl⟩⟩

end CacheMemory

end NocSwap.Ruby
