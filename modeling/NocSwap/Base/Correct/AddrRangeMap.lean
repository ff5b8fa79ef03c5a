import Mathlib.Data.List.Pairwise
import Mathlib.Data.List.TakeWhile
import NocSwap.Base.AddrRangeMap
import NocSwap.Base.Correct.AddrRange
import NocSwap.Lib.SortedSearch

/-!
# Lookups in a map of address ranges
-/

namespace NocSwap.Base

namespace AddrRangeMap

open AddrRange List

variable {V : Type} {maxCacheSize : Nat} {m : AddrRangeMap V} {r : AddrRange}
  {cond : AddrRange → Except AddrRangeFault Bool}

structure TreeOk (t : List (RangeEntry V)) : Prop where
  sorted : t.Pairwise fun x y => x.1.lt y.1 = true
  valid : ∀ x ∈ t, x.1._start.toNat ≤ x.1._end.toNat
  inside : ∀ x ∈ t, x.1.Inside
  apart : ∀ x ∈ t, ∀ y ∈ t, x.1.Overlap y.1 →
    x.1.mergesWith y.1 = true ∧ (x.1.interleaved = false → x = y)

structure Ok (m : AddrRangeMap V) : Prop where
  tree : TreeOk m.tree
  cache : m.cache ⊆ m.tree

variable {x y : RangeEntry V}

theorem TreeOk.lt_or_lt {t : List (RangeEntry V)} (h : TreeOk t) (hx : x ∈ t)
    (hy : y ∈ t) (hne : x ≠ y) : x.1.lt y.1 = true ∨ y.1.lt x.1 = true := by
  have hsymm : Std.Symm fun x y : RangeEntry V => x.1.lt y.1 = true ∨ y.1.lt x.1 = true :=
    ⟨fun _ _ h => h.symm⟩
  have hpair : t.Pairwise fun x y => x.1.lt y.1 = true ∨ y.1.lt x.1 = true := h.sorted.imp Or.inl
  exact hpair.forall hx hy hne

theorem TreeOk.unique {t : List (RangeEntry V)} (h : TreeOk t) (hx : x ∈ t)
    (hy : y ∈ t) {a : Addr} (hxa : x.1.contains a = true) (hya : y.1.contains a = true) : x = y := by
  obtain ⟨hmerge, hplain⟩ := h.apart x hx y hy (overlap_of_contains hxa hya)
  cases hint : x.1.interleaved with
  | false => exact hplain hint
  | true =>
    have hmatch := intlvMatch_eq_of_contains hmerge hint hxa hya
    have hstart := (mergesWith_iff.mp hmerge).1
    -- with the same start and the same matching value the two are not ordered
    by_contra hne
    obtain hlt | hlt := h.lt_or_lt hx hy hne
    · rw [lt_iff, hstart, hmatch] at hlt
      omega
    · rw [lt_iff, hstart, hmatch] at hlt
      omega

theorem mem_before (hx : x ∈ m.before r) : x ∈ m.tree ∧ ¬ r.lt x.1 = true := by
  refine ⟨(takeWhile_sublist _).mem hx, ?_⟩
  have := mem_takeWhile_imp hx
  simpa using this

theorem start_le_of_not_lt {r q : AddrRange} (h : ¬ r.lt q = true) :
    q._start.toNat ≤ r._start.toNat := by
  rw [lt_iff] at h
  omega

theorem mem_upperBound (h : TreeOk m.tree) (hx : x ∈ m.upperBound r) :
    x ∈ m.tree ∧ r.lt x.1 = true := by
  refine ⟨(dropWhile_sublist _).mem hx, ?_⟩
  have hfalse := eq_false_of_mem_dropWhile (R := fun x y : RangeEntry V => x.1.lt y.1 = true)
    (p := fun x => !r.lt x.1) ?_ h.sorted hx
  · simpa using hfalse
  · intro a b hab hb
    rw [Bool.not_eq_true', ← Bool.not_eq_true] at hb ⊢
    intro ha
    apply hb
    rw [lt_iff] at hab ha ⊢
    grind

theorem before_append_upperBound (m : AddrRangeMap V) (r : AddrRange) :
    m.before r ++ m.upperBound r = m.tree := takeWhile_append_dropWhile

theorem findInCache_outcome (done l : List (RangeEntry V)) : Outcome (findInCache cond done l)
      (fun res => ∀ x c, res = some (x, c) → x ∈ l ∧ cond x.1 = .ok true ∧ c.Perm (done ++ l))
      (fun f => ∃ x ∈ l, cond x.1 = .error f) := by
  induction l generalizing done with
  | nil =>
    intro x c hx
    cases hx
  | cons x l ih =>
    unfold findInCache
    cases hc : cond x.1 with
    | error f => exact ⟨x, mem_cons_self .., hc⟩
    | ok b =>
      cases b with
      | true =>
        intro y c hy
        cases hy
        refine ⟨mem_cons_self .., hc, ?_⟩
        exact (((reverse_perm done).append_right l).cons x).trans perm_middle.symm
      | false =>
        refine (ih (x :: done)).mono ?_ ?_
        · intro res hres y c hy
          obtain ⟨hmem, hcond, hperm⟩ := hres y c hy
          exact ⟨mem_cons_of_mem _ hmem, hcond, hperm.trans perm_middle.symm⟩
        · rintro f ⟨y, hy, hf⟩
          exact ⟨y, mem_cons_of_mem _ hy, hf⟩

/-- The walk backwards returns an entry that passes the test, or all entries of the family have
failed it. -/
theorem walkBack_outcome (l : List (RangeEntry V)) : Outcome (walkBack cond l)
      (fun res => (∀ x, res = some x → x ∈ l ∧ cond x.1 = .ok true) ∧
        (res = none → ∀ pre x post, l = pre ++ x :: post →
          (∀ y ∈ pre, x.1.mergesWith y.1 = true) → cond x.1 = .ok false))
      (fun f => ∃ x ∈ l, cond x.1 = .error f) := by
  induction l with
  | nil =>
    constructor
    · intro x hx
      cases hx
    · intro _ pre x post heq
      cases pre <;> cases heq
  | cons z l ih =>
    unfold walkBack
    cases hc : cond z.1 with
    | error f => exact ⟨z, mem_cons_self .., hc⟩
    | ok b =>
      cases b with
      | true =>
        constructor
        · intro x hx
          cases hx
          exact ⟨mem_cons_self .., hc⟩
        · intro hx
          cases hx
      | false =>
        cases l with
        | nil =>
          constructor
          · intro x hx
            cases hx
          · intro _ pre x post heq _
            cases pre with
            | nil =>
              cases heq
              exact hc
            | cons y pre => cases pre <;> cases heq
        | cons y l =>
          show Outcome (if y.1.mergesWith z.1 = true then walkBack cond (y :: l) else pure none) _ _
          rw [outcome_ite]
          constructor
          · intro _
            refine ih.mono ?_ ?_
            · rintro res ⟨hsome, hnone⟩
              refine ⟨fun x hx => ⟨mem_cons_of_mem _ (hsome x hx).1, (hsome x hx).2⟩, ?_⟩
              intro hres pre x post heq hpre
              cases pre with
              | nil =>
                cases heq
                exact hc
              | cons z' pre =>
                rw [cons_append, List.cons.injEq] at heq
                exact hnone hres pre x post heq.2 fun y' hy' => hpre y' (mem_cons_of_mem _ hy')
            · rintro f ⟨x, hx, hf⟩
              exact ⟨x, mem_cons_of_mem _ hx, hf⟩
          · intro hmerge
            constructor
            · intro x hx
              cases hx
            · intro _ pre x post heq hpre
              cases pre with
              | nil =>
                cases heq
                exact hc
              | cons z' pre =>
                -- the next entry is of the family too, so the walk would have gone on
                rw [cons_append, List.cons.injEq] at heq
                obtain ⟨rfl, heq⟩ := heq
                have hxz := hpre z (mem_cons_self ..)
                exfalso
                apply hmerge
                cases pre with
                | nil =>
                  cases heq
                  exact hxz
                | cons y' pre =>
                  cases heq
                  exact mergesWith_trans
                    (mergesWith_symm (hpre y (mem_cons_of_mem _ (mem_cons_self ..)))) hxz

theorem mergesWith_of_before (h : TreeOk m.tree) {pre post : List (RangeEntry V)}
    (hsplit : m.before r = pre ++ x :: post) (hx : r._start.toNat ≤ x.1._end.toNat) (hy : y ∈ post) :
    x.1.mergesWith y.1 = true := by
  have hmem : ∀ z ∈ x :: post, z ∈ m.before r := by
    intro z hz
    rw [hsplit]
    exact mem_append_right _ hz
  have hxt := mem_before (hmem x (mem_cons_self ..))
  have hyt := mem_before (hmem y (mem_cons_of_mem _ hy))
  have hsorted : (m.before r).Pairwise fun x y => x.1.lt y.1 = true :=
    h.sorted.sublist (takeWhile_sublist _)
  rw [hsplit] at hsorted
  have hlt := (pairwise_cons.mp (pairwise_append.mp hsorted).2.1).1 y hy
  apply (h.apart x hxt.1 y hyt.1 _).1
  have hle := start_le_of_not_lt hyt.2
  have hv := h.valid y hyt.1
  rw [lt_iff] at hlt
  constructor
  · obtain hlt | ⟨heq, -⟩ := hlt
    · omega
    · rw [heq]
      exact hv
  · omega

theorem findInTree_outcome (h : TreeOk m.tree) : Outcome (m.findInTree r cond)
      (fun res => (∀ x, res = some x → x ∈ m.tree ∧ cond x.1 = .ok true) ∧
        (res = none →
          (∀ x ∈ m.before r, r._start.toNat ≤ x.1._end.toNat → cond x.1 = .ok false) ∧
          ∀ x, (m.upperBound r).head? = some x → cond x.1 = .ok false))
      (fun f => ∃ x ∈ m.tree, cond x.1 = .error f) := by
  have hmem : ∀ x ∈ (m.before r).reverse, x ∈ m.tree := fun x hx =>
    (mem_before (mem_reverse.mp hx)).1
  have hwalk : Outcome (walkBack cond (m.before r).reverse)
      (fun res => (∀ x, res = some x → x ∈ m.tree ∧ cond x.1 = .ok true) ∧
        (res = none → ∀ x ∈ m.before r, r._start.toNat ≤ x.1._end.toNat → cond x.1 = .ok false))
      (fun f => ∃ x ∈ m.tree, cond x.1 = .error f) := by
    refine (walkBack_outcome _).mono ?_ ?_
    · rintro res ⟨hsome, hnone⟩
      refine ⟨fun x hx => ⟨hmem x (hsome x hx).1, (hsome x hx).2⟩, ?_⟩
      intro hres x hx hle
      obtain ⟨pre, post, hsplit⟩ := append_of_mem hx
      apply hnone hres post.reverse x pre.reverse
      · rw [hsplit]
        simp
      · intro y hy
        exact mergesWith_of_before h hsplit hle (mem_reverse.mp hy)
    · rintro f ⟨x, hx, hf⟩
      exact ⟨x, hmem x hx, hf⟩
  unfold findInTree
  cases hub : m.upperBound r with
  | nil =>
    refine hwalk.imp ?_
    rintro res ⟨hsome, hnone⟩
    refine ⟨hsome, fun hres => ⟨hnone hres, fun x hx => ?_⟩⟩
    cases hx
  | cons next rest =>
    have hnext : next ∈ m.tree := (mem_upperBound h (hub ▸ mem_cons_self ..)).1
    cases hc : cond next.1 with
    | error f =>
      show Outcome (cond next.1 >>= _) _ _
      rw [hc]
      exact ⟨next, hnext, hc⟩
    | ok b =>
      show Outcome (cond next.1 >>= _) _ _
      rw [hc]
      cases b with
      | true =>
        constructor
        · intro x hx
          cases hx
          exact ⟨hnext, hc⟩
        · intro hx
          cases hx
      | false =>
        refine hwalk.imp ?_
        rintro res ⟨hsome, hnone⟩
        refine ⟨hsome, fun hres => ⟨hnone hres, fun x hx => ?_⟩⟩
        cases hx
        exact hc

theorem addNewEntryToCache_ok (h : m.Ok) (hx : x ∈ m.tree) :
    (m.addNewEntryToCache maxCacheSize x).tree = m.tree ∧
      (m.addNewEntryToCache maxCacheSize x).cache ⊆ m.tree ∧
      (m.cache.length ≤ maxCacheSize →
        (m.addNewEntryToCache maxCacheSize x).cache.length ≤ maxCacheSize) := by
  have hlast : m.cache.dropLast ⊆ m.tree := fun y hy => h.cache (dropLast_subset _ hy)
  have hlen : m.cache.dropLast.length = _ := length_dropLast
  unfold addNewEntryToCache
  split
  · split
    · refine ⟨rfl, ?_⟩
      split
      · refine ⟨cons_subset.mpr ⟨hx, hlast⟩, fun _ => ?_⟩
        rw [length_cons]
        omega
      · refine ⟨append_subset.mpr ⟨hlast, cons_subset.mpr ⟨hx, nil_subset _⟩⟩, fun _ => ?_⟩
        rw [length_append, length_singleton]
        omega
    · refine ⟨rfl, cons_subset.mpr ⟨hx, h.cache⟩, fun _ => ?_⟩
      rw [length_cons]
      omega
  · exact ⟨rfl, h.cache, fun hle => hle⟩

/-- What `find` returns passes the test; if it returns nothing, the entries that could pass have
failed. -/
theorem find_outcome (h : m.Ok) : Outcome (m.find maxCacheSize r cond)
      (fun p => (p.2.tree = m.tree ∧ p.2.cache ⊆ m.tree ∧
          (m.cache.length ≤ maxCacheSize → p.2.cache.length ≤ maxCacheSize)) ∧
        (∀ x, p.1 = some x → x ∈ m.tree ∧ cond x.1 = .ok true) ∧
        (p.1 = none →
          (∀ x ∈ m.before r, r._start.toNat ≤ x.1._end.toNat → cond x.1 = .ok false) ∧
          ∀ x, (m.upperBound r).head? = some x → cond x.1 = .ok false))
      (fun f => ∃ x ∈ m.tree, cond x.1 = .error f) := by
  unfold find
  rw [outcome_bind]
  refine (findInCache_outcome [] m.cache).mono ?_ ?_
  · intro res hres
    cases res with
    | some p =>
      obtain ⟨x, c⟩ := p
      obtain ⟨hx, hcond, hperm⟩ := hres x c rfl
      refine ⟨⟨rfl, List.Subset.trans hperm.subset h.cache, hperm.length_eq.trans_le⟩, ?_, ?_⟩
      · intro y hy
        cases hy
        exact ⟨h.cache hx, hcond⟩
      · intro hy
        cases hy
    | none =>
      show Outcome (m.findInTree r cond >>= _) _ _
      rw [outcome_bind]
      refine (findInTree_outcome h.tree).imp ?_
      rintro res ⟨hsome, hnone⟩
      cases res with
      | some x =>
        refine ⟨addNewEntryToCache_ok h (hsome x rfl).1, ?_, ?_⟩
        · intro y hy
          cases hy
          exact hsome x rfl
        · intro hy
          cases hy
      | none =>
        refine ⟨⟨rfl, h.cache, fun hle => hle⟩, ?_, ?_⟩
        · intro y hy
          cases hy
        · intro _
          exact hnone rfl
  · rintro f ⟨x, hx, hf⟩
    exact ⟨x, h.cache hx, hf⟩

theorem Ok.of_tree {m' : AddrRangeMap V} (h : m.Ok) (ht : m'.tree = m.tree)
    (hc : m'.cache ⊆ m.tree) : m'.Ok := ⟨ht ▸ h.tree, ht ▸ hc⟩

def StartsFirst (t : List (RangeEntry V)) : Prop :=
  ∀ x ∈ t, x.1.interleaved = true → x.1.contains x.1._start = true → x.1.intlvMatch.toNat ≤ 1

theorem contains_outcome (h : m.Ok) (hfirst : StartsFirst m.tree) (a : Addr) :
    Outcome (m.contains maxCacheSize a)
      (fun p => p.1 = m.tree.find? (fun x => x.1.contains a) ∧ p.2.tree = m.tree ∧ p.2.Ok ∧
        (m.cache.length ≤ maxCacheSize → p.2.cache.length ≤ maxCacheSize))
      (fun _ => False) := by
  unfold contains
  have hcond : ∀ x ∈ m.tree, (rangeSize a 1).isSubset x.1 = .ok (x.1.contains a) := fun x hx =>
    isSubset_rangeSize (h.tree.inside x hx) a
  have hstart : (rangeSize a 1)._start = a := rfl
  refine (find_outcome h).mono ?_ ?_
  · rintro ⟨res, m'⟩ ⟨⟨htree, hcache, hlen⟩, hsome, hnone⟩
    refine ⟨?_, htree, h.of_tree htree hcache, hlen⟩
    cases res with
    | some x =>
      obtain ⟨hx, hc⟩ := hsome x rfl
      rw [hcond x hx, Except.ok.injEq] at hc
      cases hfind : m.tree.find? fun x => x.1.contains a with
      | none => exact absurd hc (List.find?_eq_none.mp hfind x hx)
      | some y =>
        have hya : y.1.contains a = true := (List.find?_eq_some_iff_append.mp hfind).1
        rw [h.tree.unique hx (mem_of_find?_eq_some hfind) hc hya]
    | none =>
      obtain ⟨hbefore, hnext⟩ := hnone rfl
      symm
      rw [List.find?_eq_none]
      intro x hx hxa
      have hrange := inRange_iff_toNat.mp (contains_iff_select.mp hxa).1
      rw [← before_append_upperBound m (rangeSize a 1)] at hx
      obtain hx | hx := mem_append.mp hx
      · have hfalse := hbefore x hx hrange.2
        rw [hcond x (mem_before hx).1, hxa] at hfalse
        cases hfalse
      · obtain ⟨hxt, hlt⟩ := mem_upperBound h.tree hx
        rw [lt_iff, hstart] at hlt
        -- the family of `x` starts at `a`, and another of its ranges is at the upper bound
        cases hub : m.upperBound (rangeSize a 1) with
        | nil =>
          rw [hub] at hx
          cases hx
        | cons next rest =>
          have hmem : next ∈ m.upperBound (rangeSize a 1) := by
            rw [hub]
            exact mem_cons_self ..
          obtain ⟨hnt, hnlt⟩ := mem_upperBound h.tree hmem
          have hfalse := hnext next (by rw [hub]; rfl)
          rw [hcond next hnt, Except.ok.injEq] at hfalse
          obtain rfl | hrel := eq_or_rel_of_dropWhile h.tree.sorted hub hx
          · rw [hxa] at hfalse
            cases hfalse
          · rw [lt_iff] at hrel hnlt
            rw [hstart] at hnlt
            have hvalid := h.tree.valid next hnt
            cases hint : x.1.interleaved with
            | true =>
              have hxs : x.1._start = a := by
                apply BitVec.eq_of_toNat_eq
                omega
              have hle := hfirst x hxt hint (by rw [hxs]; exact hxa)
              omega
            | false =>
              have heq := (h.tree.apart x hxt next hnt ⟨by omega, by omega⟩).2 hint
              rw [heq] at hxa
              rw [hxa] at hfalse
              cases hfalse
  · rintro f ⟨x, hx, hf⟩
    rw [hcond x hx] at hf
    cases hf

/-- The bounds of the range are in order, its fields in the address, and it has an address. -/
structure Insertable (r : AddrRange) : Prop where
  valid : r._start.toNat ≤ r._end.toNat
  inside : r.Inside
  nonempty : ∃ a, r.contains a = true

theorem no_conflict (h : TreeOk m.tree) (hr : Insertable r) (ht : ∀ x ∈ m.tree, r.Tests x.1)
    (hbefore : ∀ x ∈ m.before r, r._start.toNat ≤ x.1._end.toNat → r.intersects x.1 = .ok false)
    (hnext : ∀ x, (m.upperBound r).head? = some x → r.intersects x.1 = .ok false) :
    ∀ x ∈ m.tree, ¬ r.Conflict x.1 := by
  have hfree : ∀ x ∈ m.tree, r.intersects x.1 = .ok false → ¬ r.Conflict x.1 := by
    intro x hx hok hc
    have := ((intersects_outcome (ht x hx)).of_ok hok).1.mpr hc
    cases this
  intro x hx hc
  rw [← before_append_upperBound m r] at hx
  obtain hx | hx := mem_append.mp hx
  · exact hfree x (mem_before hx).1 (hbefore x hx hc.1.1) hc
  · obtain ⟨hxt, hlt⟩ := mem_upperBound h hx
    cases hub : m.upperBound r with
    | nil =>
      rw [hub] at hx
      cases hx
    | cons next rest =>
      have hmem : next ∈ m.upperBound r := by
        rw [hub]
        exact mem_cons_self ..
      obtain ⟨hnt, hnlt⟩ := mem_upperBound h hmem
      have hnc := hfree next hnt (hnext next (by rw [hub]; rfl))
      obtain rfl | hrel := eq_or_rel_of_dropWhile h.sorted hub hx
      · exact hnc hc
      · -- the entry at the upper bound starts within the bounds of `r`, so it is of the family of `r`
        rw [lt_iff] at hrel hnlt hlt
        have hov := hc.1
        have hvalid := h.valid next hnt
        have hvalid' := hr.valid
        have hnov : r.Overlap next.1 := ⟨by omega, by have := hov.2; omega⟩
        obtain ⟨hmerge, hint, hne⟩ := not_not.mp fun hno => hnc ⟨hnov, hno⟩
        obtain ⟨hs, he, -⟩ := mergesWith_iff.mp hmerge
        -- then so is `x`, which has a greater matching value than `r`
        have hxov : next.1.Overlap x.1 := by
          unfold Overlap
          rw [hs, he]
          exact hov
        have hmerge' := mergesWith_trans hmerge (h.apart next hnt x hxt hxov).1
        refine hc.2 ⟨hmerge', hint, fun heq => ?_⟩
        rw [heq, (mergesWith_iff.mp hmerge').1] at hlt
        omega

theorem lt_of_mem_before (h : TreeOk m.tree) (hr : Insertable r)
    (hfree : ∀ x ∈ m.tree, ¬ r.Conflict x.1) (hx : x ∈ m.before r) : x.1.lt r = true := by
  obtain ⟨hxt, hlt⟩ := mem_before hx
  by_contra hno
  rw [lt_iff] at hlt hno
  have hvalid := h.valid x hxt
  have hvalid' := hr.valid
  apply hfree x hxt
  refine ⟨⟨by omega, by omega⟩, ?_⟩
  rintro ⟨-, -, hne⟩
  apply hne
  rw [← UInt8.toNat_inj]
  omega

theorem mergesWith_self (r : AddrRange) : r.mergesWith r = true :=
  mergesWith_iff.mpr ⟨rfl, rfl, rfl, rfl, rfl⟩

theorem family_of_overlap {q : AddrRange} (hc : ¬ r.Conflict q) (hov : r.Overlap q) :
    r.mergesWith q = true ∧ r.interleaved = true := by
  obtain ⟨hmerge, hint, -⟩ := not_not.mp fun hno => hc ⟨hov, hno⟩
  exact ⟨hmerge, hint⟩

theorem mem_insert_iff : y ∈ m.before r ++ x :: m.upperBound r ↔ y = x ∨ y ∈ m.tree := by
  rw [← before_append_upperBound m r]
  simp only [mem_append, mem_cons]
  tauto

section

variable (h : TreeOk m.tree) (hr : Insertable r) (hfree : ∀ x ∈ m.tree, ¬ r.Conflict x.1) (d : V)
include h hr hfree

theorem TreeOk.insert : TreeOk (m.before r ++ (r, d) :: m.upperBound r) := by
  refine ⟨?_, ?_, ?_, ?_⟩
  · have hsorted := h.sorted
    rw [← before_append_upperBound m r, pairwise_append] at hsorted
    obtain ⟨hb, hu, hbu⟩ := hsorted
    rw [pairwise_append, pairwise_cons]
    refine ⟨hb, ⟨fun y hy => (mem_upperBound h hy).2, hu⟩, ?_⟩
    intro x hx y hy
    obtain rfl | hy := mem_cons.mp hy
    · exact lt_of_mem_before h hr hfree hx
    · exact hbu x hx y hy
  · intro x hx
    obtain rfl | hx := mem_insert_iff.mp hx
    · exact hr.valid
    · exact h.valid x hx
  · intro x hx
    obtain rfl | hx := mem_insert_iff.mp hx
    · exact hr.inside
    · exact h.inside x hx
  · intro x hx y hy hov
    obtain rfl | hx := mem_insert_iff.mp hx
    · obtain rfl | hy := mem_insert_iff.mp hy
      · exact ⟨mergesWith_self r, fun _ => rfl⟩
      · obtain ⟨hmerge, hint⟩ := family_of_overlap (hfree y hy) hov
        exact ⟨hmerge, fun hno => by rw [hint] at hno; cases hno⟩
    · obtain rfl | hy := mem_insert_iff.mp hy
      · obtain ⟨hmerge, hint⟩ := family_of_overlap (hfree x hx) hov.symm
        refine ⟨mergesWith_symm hmerge, fun hno => ?_⟩
        rw [eq_of_mergesWith hmerge] at hint
        have hint' : x.1.interleaved = true := hint
        rw [hint'] at hno
        cases hno
      · exact h.apart x hx y hy hov

theorem treeInsert_eq :
    m.treeInsert (r, d) = ((r, d), { m with tree := m.before r ++ (r, d) :: m.upperBound r }) := by
  unfold treeInsert
  cases hlast : (m.before r).getLast? with
  | none =>
    rw [getLast?_eq_none_iff] at hlast
    show _ = ((r, d), { m with tree := m.before r ++ _ })
    rw [hlast]
    rfl
  | some y =>
    have hy : y ∈ m.before r := mem_of_getLast? hlast
    show (if y.1.lt r = true then _ else _) = _
    rw [if_pos (lt_of_mem_before h hr hfree hy)]

end

/-- **`insert`** fails, if it does not give up, exactly when the range meets one of the map. -/
theorem insert_outcome (h : m.Ok) (hr : Insertable r) (ht : ∀ x ∈ m.tree, r.Tests x.1) (d : V) :
    Outcome (m.insert maxCacheSize r d)
      (fun p => p.2.Ok ∧ (m.cache.length ≤ maxCacheSize → p.2.cache.length ≤ maxCacheSize) ∧
        (p.1 = none ↔ ∃ x ∈ m.tree, r.Meets x.1) ∧ (p.1 = none → p.2.tree = m.tree) ∧
        ∀ x, p.1 = some x → x = (r, d) ∧ p.2.tree = m.before r ++ (r, d) :: m.upperBound r)
      (fun f => ∃ x ∈ m.tree, r.intersects x.1 = .error f) := by
  unfold AddrRangeMap.insert intersects
  rw [outcome_bind]
  refine (find_outcome h).imp ?_
  rintro ⟨res, m'⟩ ⟨⟨htree, hcache, hlen⟩, hsome, hnone⟩
  have hm' := h.of_tree htree hcache
  cases res with
  | some x =>
    obtain ⟨hx, hok⟩ := hsome x rfl
    obtain ⟨hiff, hkind⟩ := (intersects_outcome (ht x hx)).of_ok hok
    have hmeets : r.Meets x.1 := by
      obtain ⟨hrp, hxp⟩ | heq := hkind rfl
      · exact (hiff.mp rfl).1.meets hrp hxp hr.valid (h.tree.valid x hx)
      · obtain ⟨a, ha⟩ := hr.nonempty
        exact ⟨a, ha, heq ▸ ha⟩
    refine ⟨hm', hlen, ⟨fun _ => ⟨x, hx, hmeets⟩, fun _ => rfl⟩, fun _ => htree, ?_⟩
    intro y hy
    cases hy
  | none =>
    obtain ⟨hbefore, hnext⟩ := hnone rfl
    have hfree := no_conflict h.tree hr ht hbefore hnext
    have hfree' : ∀ x ∈ m'.tree, ¬ r.Conflict x.1 := htree ▸ hfree
    dsimp only
    rw [treeInsert_eq hm'.tree hr hfree' d]
    refine ⟨⟨hm'.tree.insert hr hfree' d, ?_⟩, hlen, ⟨?_, ?_⟩, ?_, ?_⟩
    · intro x hx
      exact mem_insert_iff.mpr (.inr (hm'.cache hx))
    · intro hno
      cases hno
    · rintro ⟨x, hx, hmeets⟩
      exact absurd hmeets.conflict (hfree x hx)
    · intro hno
      cases hno
    · intro x hx
      cases hx
      refine ⟨rfl, ?_⟩
      unfold before upperBound
      rw [← htree]

/-- An inserted range may be, and is not tested against one of size `1`, unless both are plain. -/
def Op.Admissible (m : AddrRangeMap V) : Op V → Prop
  | .contains _ => True
  | .insert r _ => Insertable r ∧ ∀ x ∈ m.tree, r.Tests x.1

def AdmissibleRun (maxCacheSize : Nat) : List (Op V) → AddrRangeMap V → Prop
  | [], _ => True
  | op :: ops, m => op.Admissible m ∧
      ∀ m', m.exec maxCacheSize op = .ok m' → AdmissibleRun maxCacheSize ops m'

theorem Ok.exec (h : m.Ok) (op : Op V) (hop : op.Admissible m) :
    Outcome (m.exec maxCacheSize op) Ok (fun _ => True) := by
  cases op with
  | contains a =>
    show Outcome (m.contains maxCacheSize a >>= _) _ _
    rw [outcome_bind]
    refine (find_outcome h).onOk ?_
    rintro ⟨res, m'⟩ ⟨⟨htree, hcache, -⟩, -⟩
    exact h.of_tree htree hcache
  | insert r d =>
    show Outcome (m.insert maxCacheSize r d >>= _) _ _
    rw [outcome_bind]
    refine (insert_outcome h hop.1 hop.2 d).onOk ?_
    rintro ⟨res, m'⟩ ⟨hm', -⟩
    exact hm'

theorem Ok.run (ops : List (Op V)) (h : m.Ok) (hops : AdmissibleRun maxCacheSize ops m) :
    Outcome (run maxCacheSize ops m) Ok (fun _ => True) := by
  induction ops generalizing m with
  | nil => exact h
  | cons op ops ih =>
    show Outcome (m.exec maxCacheSize op >>= AddrRangeMap.run maxCacheSize ops) _ _
    rw [outcome_bind]
    apply Outcome.intro
    · intro m' hm'
      exact ih ((h.exec op hops.1).of_ok hm') (hops.2 m' hm')
    · intro _ _
      trivial

theorem Ok.empty : ({} : AddrRangeMap V).Ok := by
  refine ⟨⟨.nil, ?_, ?_, ?_⟩, nil_subset _⟩
  · intro x hx
    cases hx
  · intro x hx
    cases hx
  · intro x hx
    cases hx

/-- **Lookups agree with a search through all entries**, if interleaved families start in ranges of
matching value `0` or `1`; and `insert` fails exactly when its range meets the map. -/
theorem contains_agrees (maxCacheSize : Nat) (ops : List (Op V)) (m : AddrRangeMap V)
    (hrun : run maxCacheSize ops {} = .ok m) (hops : AdmissibleRun maxCacheSize ops {}) :
    (StartsFirst m.tree → ∀ a, ∃ m', m.contains maxCacheSize a =
      .ok (m.tree.find? (fun x => x.1.contains a), m')) ∧
    (∀ a x y, x ∈ m.tree → y ∈ m.tree → x.1.contains a = true → y.1.contains a = true → x = y) ∧
    ∀ r d, (Op.insert r d).Admissible m → ∀ res m', m.insert maxCacheSize r d = .ok (res, m') →
      ((res = none ↔ ∃ x ∈ m.tree, r.Meets x.1) ∧
        (res = none ∨ res = some (r, d) ∧ ∀ y, y ∈ m'.tree ↔ y = (r, d) ∨ y ∈ m.tree)) := by
  have h : m.Ok := (Ok.empty.run ops hops).of_ok hrun
  refine ⟨?_, ?_, ?_⟩
  · intro hfirst a
    have hout : Outcome (m.contains maxCacheSize a) _ _ := contains_outcome h hfirst a
    cases hres : m.contains maxCacheSize a with
    | error f => exact (hout.of_error hres).elim
    | ok p =>
      refine ⟨p.2, ?_⟩
      rw [← (hout.of_ok hres).1]
  · intro a x y hx hy hxa hya
    exact h.tree.unique hx hy hxa hya
  · intro r d hop res m' hres
    obtain ⟨-, -, hiff, -, hnew⟩ := (insert_outcome h hop.1 hop.2 d).of_ok hres
    refine ⟨hiff, ?_⟩
    cases res with
    | none => exact .inl rfl
    | some x =>
      obtain ⟨rfl, htree⟩ := hnew x rfl
      exact .inr ⟨rfl, fun y => by rw [htree]; exact mem_insert_iff⟩

def halves (intlvMatch : UInt8) : AddrRange := ⟨0, 15, 2, 0, 1, intlvMatch⟩

theorem insertable_halves {b : UInt8} {a : Addr} (h : (halves b).contains a = true) :
    Insertable (halves b) where
  valid := show (0 : Addr).toNat ≤ (15 : Addr).toNat by decide
  inside := by
    refine ⟨fun _ => ?_, fun hno => ?_, fun hno => ?_⟩
    · show (1 : UInt8).toNat ≤ (2 : UInt8).toNat + 1 ∧ (2 : UInt8).toNat < 64
      decide
    · cases hno
    · cases hno
  nonempty := ⟨a, h⟩

/-- The two ranges, the map having a cache of one entry. -/
theorem contains_agrees_halves :
    ∃ m, run 1 [.insert (halves 0) 0, .insert (halves 1) 1] ({} : AddrRangeMap Nat) = .ok m ∧
      ∃ m', m.contains 1 5 = .ok (some (halves 1, 1), m') := by
  have hops : AdmissibleRun 1 [.insert (halves 0) 0, .insert (halves 1) 1]
      ({} : AddrRangeMap Nat) := by
    refine ⟨⟨insertable_halves (show (halves 0).contains 0 = true by decide), ?_⟩, ?_⟩
    · intro x hx
      cases hx
    · intro m hm
      cases hm
      refine ⟨⟨insertable_halves (show (halves 1).contains 5 = true by decide), ?_⟩, ?_⟩
      · intro x hx _ _
        cases mem_singleton.mp hx
        decide
      · intro _ _
        trivial
  refine ⟨_, rfl, ?_⟩
  refine (contains_agrees 1 _ _ rfl hops).1 ?_ 5
  intro x hx _ _
  change x ∈ [(halves 0, 0), (halves 1, 1)] at hx
  obtain rfl | rfl := mem_pair.mp hx
  · decide
  · decide

def quarters (intlvMatch : UInt8) : AddrRange := ⟨8, 39, 3, 0, 2, intlvMatch⟩

/-- **What the search misses**: address `8`, in the range of matching value `2` of a family that
starts there; and a range of one address when another that has it is inserted. -/
theorem contains_misses_start :
    (∃ m, run 0 [.insert (quarters 0) 0, .insert (quarters 1) 1, .insert (quarters 2) 2,
        .insert (quarters 3) 3] ({} : AddrRangeMap Nat) = .ok m ∧
      m.tree = [(quarters 0, 0), (quarters 1, 1), (quarters 2, 2), (quarters 3, 3)] ∧
      (quarters 2).contains 8 = true ∧ m.contains 0 8 = .ok (none, m)) ∧
    ∃ m, run 0 [.insert (plain 2 2) 7, .insert (halves 1) 1] ({} : AddrRangeMap Nat) = .ok m ∧
      (plain 2 2, 7) ∈ m.tree ∧ (halves 0).Meets (plain 2 2) ∧
      ∃ m', m.insert 0 (halves 0) 0 = .ok (some (halves 0, 0), m') := by
  refine ⟨⟨_, rfl, rfl, by decide, rfl⟩, ⟨_, rfl, ?_, ⟨2, by decide, by decide⟩, ⟨_, rfl⟩⟩⟩
  show (plain 2 2, 7) ∈ [(halves 1, 1), (plain 2 2, 7)]
  exact mem_cons_of_mem _ (mem_cons_self ..)

end AddrRangeMap

end NocSwap.Base
