import Mathlib.Data.List.Induction
import NocSwap.Base.Correct.AddrRangeMap

/-!
# The cache of a map of address ranges
-/

namespace NocSwap.Base.AddrRangeMap

open AddrRange List

variable {V : Type} {maxCacheSize : Nat} {m : AddrRangeMap V} {p q : Nat}

structure Sound (maxCacheSize : Nat) (m : AddrRangeMap V) : Prop where
  ok : m.Ok
  plain : ∀ x ∈ m.tree, x.1.interleaved = false
  bounded : m.cache.length ≤ maxCacheSize

/-- The condition on a call; of the entries that `erase(p, q)` takes out only the first is in the
cache. -/
def PlainOp.Admissible (m : AddrRangeMap V) : PlainOp V → Prop
  | .insert s e _ => s ≤ e
  | .erase p => p < m.tree.length
  | .eraseRange p q => p ≤ q ∧ q ≤ m.tree.length ∧ ∀ x ∈ (m.tree.take q).drop (p + 1), x ∉ m.cache
  | _ => True

theorem TreeOk.sublist {t t' : List (RangeEntry V)} (h : TreeOk t) (hs : t'.Sublist t) :
    TreeOk t' where
  sorted := h.sorted.sublist hs
  valid x hx := h.valid x (hs.mem hx)
  inside x hx := h.inside x (hs.mem hx)
  apart x hx y hy := h.apart x (hs.mem hx) y (hs.mem hy)

theorem foldl_removeFromCache (x : RangeEntry V) (l c : List (RangeEntry V)) :
    (l.foldl (fun c _ => removeFromCache x c) c).Sublist c := by
  induction l generalizing c with
  | nil => exact .refl _
  | cons y l ih => exact (ih _).trans filter_sublist

/-- The tree and the cache after entries have been taken out. -/
theorem Sound.sublist {m' : AddrRangeMap V} (h : m.Sound maxCacheSize)
    (ht : m'.tree.Sublist m.tree) (hc : m'.cache.Sublist m.cache)
    (hmem : ∀ x ∈ m'.cache, x ∈ m.tree → x ∈ m'.tree) : m'.Sound maxCacheSize where
  ok := ⟨h.ok.tree.sublist ht, fun x hx => hmem x hx (h.ok.cache (hc.mem hx))⟩
  plain x hx := h.plain x (ht.mem hx)
  bounded := hc.length_le.trans h.bounded

theorem Sound.eraseRange (h : m.Sound maxCacheSize)
    (hop : (PlainOp.eraseRange p q).Admissible m) : (m.eraseRange p q).Sound maxCacheSize := by
  obtain ⟨hpq, hq, hclean⟩ := hop
  have hsplit : m.tree = m.tree.take p ++ (m.tree.take q).drop p ++ m.tree.drop q := by
    have htake := take_append_drop p (m.tree.take q)
    rw [take_take, Nat.min_eq_left hpq] at htake
    rw [htake, take_append_drop]
  have hsub : (m.tree.take p ++ m.tree.drop q).Sublist m.tree := by
    conv_rhs => rw [hsplit]
    exact (sublist_append_left ..).append (.refl _)
  rw [← tail_drop] at hclean
  unfold AddrRangeMap.eraseRange
  cases hr : (m.tree.take q).drop p with
  | nil =>
    refine h.sublist hsub (.refl _) fun x _ hx => ?_
    rw [hsplit, hr, append_nil] at hx
    exact hx
  | cons y rest =>
    have hcache : (rest.foldl (fun c _ => removeFromCache y c) (removeFromCache y m.cache)).Sublist
      (removeFromCache y m.cache) := foldl_removeFromCache ..
    refine h.sublist hsub (hcache.trans filter_sublist) fun x hx hxt => ?_
    obtain ⟨hxc, hne⟩ := mem_filter.mp (hcache.mem hx)
    rw [hsplit, hr, append_assoc, mem_append, mem_append, mem_cons] at hxt
    rw [hr] at hclean
    rcases hxt with hx | (rfl | hx) | hx
    · exact mem_append_left _ hx
    · exact absurd rfl (of_decide_eq_true hne)
    · exact absurd hxc (hclean x hx)
    · exact mem_append_right _ hx

theorem erase_eq (hp : p < m.tree.length) : m.erase p = m.eraseRange p (p + 1) := by
  have hrange : (m.tree.take (p + 1)).drop p = [m.tree[p]] := by
    rw [take_add_one, List.getElem?_eq_getElem hp, drop_append_of_le_length (by simp; omega)]
    simp
  rw [erase, List.getElem?_eq_getElem hp, AddrRangeMap.eraseRange, hrange,
    eraseIdx_eq_take_drop_succ]
  rfl

theorem startsFirst (h : m.Sound maxCacheSize) : StartsFirst m.tree := by
  intro x hx hint
  rw [h.plain x hx] at hint
  cases hint

theorem inside_plain {r : AddrRange} (hr : r.interleaved = false) : r.Inside := by
  have hh : ¬ r.hashed = true := fun h => by
    rw [interleaved_of_hashed h] at hr
    cases hr
  exact ⟨fun h => absurd h (Bool.eq_false_iff.mp hr), fun h => absurd h hh, fun h => absurd h hh⟩

theorem insertable_plain {s e : Addr} (hse : s ≤ e) : Insertable (AddrRange.plain s e) :=
  ⟨hse, inside_plain rfl, s, (contains_plain rfl).mpr ⟨BitVec.le_refl _, hse⟩⟩

theorem intersects_ok (r : AddrRange) {q : AddrRange} (hr : r.interleaved = false)
    (hq : q.interleaved = false) (f : AddrRangeFault) : r.intersects q ≠ .error f := by
  rw [AddrRange.intersects, hr, hq]
  split <;> intro h <;> cases h

/-- What a call does to the tree does not depend on the cache. -/
theorem call_outcome (op : PlainOp V) (t : List (RangeEntry V)) :
    ∃ t', ∀ (n : Nat) (m : AddrRangeMap V), m.tree = t → m.Sound n → op.Admissible m →
      Outcome (m.call n op) (fun m' => m'.Sound n ∧ m'.tree = t') (fun _ => False) := by
  cases op with
  | insert s e d =>
    classical
    let m₁ : AddrRangeMap V := ⟨t, []⟩
    let r := AddrRange.plain s e
    refine ⟨if ∃ x ∈ t, r.Meets x.1 then t else m₁.before r ++ (r, d) :: m₁.upperBound r, ?_⟩
    rintro n m rfl h hse
    have htests : ∀ x ∈ m.tree, r.Tests x.1 := by
      intro x hx _ hint
      rw [h.plain x hx] at hint
      rcases hint with hint | hint <;> cases hint
    show Outcome (m.insert n r d >>= _) _ _
    rw [outcome_bind]
    refine (insert_outcome h.ok (insertable_plain hse) htests d).mono ?_ ?_
    · rintro ⟨res, m'⟩ ⟨hok, hlen, hiff, hnone, hsome⟩
      cases res with
      | none =>
        rw [if_pos (hiff.mp rfl)]
        have htree : m'.tree = m.tree := hnone rfl
        exact ⟨⟨hok, by rw [htree]; exact h.plain, hlen h.bounded⟩, htree⟩
      | some x =>
        rw [if_neg fun hm => nomatch hiff.mpr hm]
        have htree : m'.tree = m.before r ++ (r, d) :: m.upperBound r := (hsome x rfl).2
        refine ⟨⟨hok, fun y hy => ?_, hlen h.bounded⟩, htree⟩
        change y ∈ m'.tree at hy
        rw [htree, mem_insert_iff] at hy
        rcases hy with rfl | hy
        · rfl
        · exact h.plain y hy
    · rintro f ⟨x, hx, hf⟩
      exact intersects_ok r rfl (h.plain x hx) f hf
  | erase p =>
    refine ⟨t.take p ++ t.drop (p + 1), ?_⟩
    rintro n m rfl h hp
    show (m.erase p).Sound n ∧ (m.erase p).tree = _
    rw [erase_eq hp]
    refine ⟨h.eraseRange ⟨Nat.le_succ p, hp, fun x hx => ?_⟩, rfl⟩
    rw [drop_eq_nil_of_le (length_take_le ..)] at hx
    cases hx
  | eraseRange p q =>
    refine ⟨t.take p ++ t.drop q, ?_⟩
    rintro n m rfl h hop
    exact ⟨h.eraseRange hop, rfl⟩
  | clear =>
    refine ⟨[], fun n m _ h _ => ⟨?_, rfl⟩⟩
    exact h.sublist (nil_sublist _) (nil_sublist _) fun _ hx => nomatch hx
  | contains a =>
    refine ⟨t, ?_⟩
    rintro n m rfl h -
    show Outcome (m.contains n a >>= _) _ _
    rw [outcome_bind]
    refine (contains_outcome h.ok (startsFirst h) a).imp ?_
    rintro ⟨res, m'⟩ ⟨-, htree, hok, hlen⟩
    exact ⟨⟨hok, by rw [htree]; exact h.plain, hlen h.bounded⟩, htree⟩
  | intersects s e =>
    refine ⟨t, ?_⟩
    rintro n m rfl h -
    show Outcome (m.find n _ _ >>= _) _ _
    rw [outcome_bind]
    refine (find_outcome h.ok).mono ?_ ?_
    · rintro ⟨res, m'⟩ ⟨⟨htree, hcache, hlen⟩, -⟩
      exact ⟨⟨h.ok.of_tree htree hcache, by rw [htree]; exact h.plain, hlen h.bounded⟩, htree⟩
    · rintro f ⟨x, hx, hf⟩
      exact intersects_ok _ rfl (h.plain x hx) f hf

theorem PlainOp.Admissible.uncached {m₀ : AddrRangeMap V} {op : PlainOp V} (h : op.Admissible m)
    (ht : m₀.tree = m.tree) (hc : m₀.cache = []) : op.Admissible m₀ := by
  cases op with
  | erase p =>
    show p < m₀.tree.length
    rw [ht]
    exact h
  | eraseRange p q =>
    refine ⟨h.1, ht ▸ h.2.1, fun x _ hx => ?_⟩
    rw [hc] at hx
    cases hx
  | _ => exact h

theorem calls_append (ops : List (PlainOp V)) (op : PlainOp V) :
    calls maxCacheSize (ops ++ [op]) = (calls maxCacheSize ops >>= fun m => m.call maxCacheSize op) := by
  rw [calls, foldlM_append]
  exact congrArg (_ >>= ·) (funext fun m => bind_pure _)

/-- **The cache is transparent** if no `erase(p, q)` takes a cached entry after `p` out. -/
theorem cache_transparent (n : Nat) (ops : List (PlainOp V))
    (hops : ∀ pre op, pre ++ [op] <+: ops → ∀ m, calls n pre = .ok m → op.Admissible m) :
    ∃ m m₀, calls n ops = .ok m ∧ calls 0 ops = .ok m₀ ∧ m.cache ⊆ m.tree ∧ m.cache.length ≤ n ∧
      ∀ a, ∃ x m' m₀', m.contains n a = .ok (x, m') ∧ m₀.contains 0 a = .ok (x, m₀') := by
  have hrun : ∃ m m₀, calls n ops = .ok m ∧ calls 0 ops = .ok m₀ ∧ m.Sound n ∧ m₀.Sound 0 ∧
      m₀.tree = m.tree := by
    induction ops using reverseRecOn with
    | nil =>
      have h : ∀ k, ({} : AddrRangeMap V).Sound k :=
        fun k => ⟨.empty, (fun _ hx => nomatch hx), k.zero_le⟩
      exact ⟨{}, {}, rfl, rfl, h n, h 0, rfl⟩
    | append_singleton ops op ih =>
      obtain ⟨m, m₀, hm, hm₀, h, h₀, ht⟩ :=
        ih fun pre op' hpre => hops pre op' (hpre.trans (prefix_append ..))
      have hop := hops ops op (prefix_refl _) m hm
      have hnil : m₀.cache = [] := eq_nil_of_length_eq_zero (Nat.le_zero.mp h₀.bounded)
      obtain ⟨t', hcall⟩ := call_outcome op m.tree
      obtain ⟨m', hm', h', rfl⟩ := (hcall n m rfl h hop).exists_ok
      obtain ⟨m₀', hm₀', h₀', ht'⟩ := (hcall 0 m₀ ht h₀ (hop.uncached ht hnil)).exists_ok
      refine ⟨m', m₀', ?_, ?_, h', h₀', ht'⟩
      · rw [calls_append, hm]
        exact hm'
      · rw [calls_append, hm₀]
        exact hm₀'
  obtain ⟨m, m₀, hm, hm₀, h, h₀, ht⟩ := hrun
  refine ⟨m, m₀, hm, hm₀, h.ok.cache, h.bounded, fun a => ?_⟩
  obtain ⟨⟨x, m'⟩, hx, hx', -⟩ := (contains_outcome h.ok (startsFirst h) a).exists_ok
  obtain ⟨⟨y, m₀'⟩, hy, hy', -⟩ := (contains_outcome h₀.ok (startsFirst h₀) a).exists_ok
  have hxy : y = x := by
    rw [show y = _ from hy', ht]
    exact hx'.symm
  exact ⟨x, m', m₀', hx, hxy ▸ hy⟩

theorem admissible_of_getElem? {n : Nat} {ops : List (PlainOp V)}
    (h : ∀ i op m, ops[i]? = some op → calls n (ops.take i) = .ok m → op.Admissible m)
    (pre : List (PlainOp V)) (op : PlainOp V) (hpre : pre ++ [op] <+: ops) (m : AddrRangeMap V)
    (hm : calls n pre = .ok m) : op.Admissible m := by
  obtain ⟨suf, rfl⟩ := hpre
  exact h pre.length op m (by simp) (by simpa using hm)

/-- Three ranges, of which the second is looked up and erased. -/
theorem cache_transparent_hit :
    let ops : List (PlainOp Nat) := [.insert 0 1 0, .insert 4 5 1, .insert 8 9 2, .contains 4,
      .contains 0, .erase 1, .contains 8]
    ∃ m m₀ m' m₀', calls 2 ops = .ok m ∧ calls 0 ops = .ok m₀ ∧
      m.tree = [(plain 0 1, 0), (plain 8 9, 2)] ∧ m.cache = [(plain 8 9, 2), (plain 0 1, 0)] ∧
      m.contains 2 4 = .ok (none, m') ∧ m₀.contains 0 4 = .ok (none, m₀') := by
  intro ops
  obtain ⟨m, m₀, hm, hm₀, -, -, hsame⟩ := cache_transparent (V := Nat) 2 ops
    (admissible_of_getElem? fun i op m hop hm => by
      match i with
      | 0 | 1 | 2 =>
        cases hop
        show (_ : Addr) ≤ _
        decide
      | 3 | 4 | 6 =>
        cases hop
        trivial
      | 5 =>
        cases hop
        obtain rfl := Except.ok.inj hm
        show 1 < 3
        decide
      | n + 7 => cases hop)
  obtain ⟨x, m', m₀', hx, hx₀⟩ := hsame 4
  have hval : m = ⟨[(plain 0 1, 0), (plain 8 9, 2)], [(plain 8 9, 2), (plain 0 1, 0)]⟩ :=
    (Except.ok.inj hm).symm
  subst hval
  obtain ⟨rfl, rfl⟩ := Prod.mk.inj (Except.ok.inj hx)
  exact ⟨_, m₀, _, m₀', hm, hm₀, rfl, rfl, rfl, hx₀⟩

/-- The entry that was looked up is erased after another one, and stays in the cache. -/
theorem eraseRange_dangling : ∃ m m' : AddrRangeMap Nat,
      calls 1 [.insert 0 1 0, .insert 2 3 1, .contains 2, .eraseRange 0 2] = .ok m ∧
      m.tree = [] ∧ m.cache = [(plain 2 3, 1)] ∧ m.contains 1 2 = .ok (some (plain 2 3, 1), m') ∧
      calls 0 [.insert 0 1 0, .insert 2 3 1, .contains 2, .eraseRange 0 2] = .ok ({} : AddrRangeMap Nat) ∧
      ({} : AddrRangeMap Nat).contains 0 2 = .ok (none, {}) :=
  ⟨_, _, rfl, rfl, rfl, rfl, rfl, rfl⟩

end NocSwap.Base.AddrRangeMap
