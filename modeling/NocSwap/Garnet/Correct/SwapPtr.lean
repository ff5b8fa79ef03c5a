import Mathlib.Data.Nat.ModEq
import NocSwap.Garnet.SwapPtr

/-!
# Where the swap pointer goes
-/

namespace NocSwap.SwapPtr

open Nat List

variable {w : View}

def Scanned (w : View) (p : Nat) : Prop :=
  ¬ (w.whichToSwap = .disableLocalSwap ∧ w.dirns[p]? = some .Local)

def Ok (w : View) (sp : SwapPtr) : Prop :=
  if sp.valid = true then
    ∃ p v : Nat, sp.inport = p ∧ sp.vcid = v ∧ v < w.numVcs ∧ w.isEmpty p v = false ∧
      w.dirns[p]? = some sp.inportDirn ∧ Scanned w p
  else sp.inport = -1 ∧ sp.vcid = -1

theorem next_inport {i m : Nat} (hi : i < m) :
    (if (i : Int) + 1 = (m : Int) then 0 else (i : Int) + 1) = ((i + 1) % m : Nat) := by
  by_cases h : i + 1 = m
  · rw [if_pos (by exact_mod_cast h), h, mod_self]
    rfl
  · rw [if_neg (by exact_mod_cast h), mod_eq_of_lt (by omega)]
    push_cast
    rfl

instance (p : Nat) : Decidable (Scanned w p) := inferInstanceAs (Decidable (¬ _))

def channel (w : View) (c : Nat) : Nat := if w.numVcs ≤ c then 0 else c

/-- What the loops look at until they find something, with `itr` ports to go after `i` and counter
`c`. -/
def looked (w : View) : Nat → Nat → Nat → List (Nat × Nat)
  | 0, _, _ => []
  | itr + 1, i, c =>
    let p := (i + 1) % w.dirns.length
    if Scanned w p then
      (List.range' c w.numVcs).map (fun k => (p, channel w k)) ++ looked w itr p (c + w.numVcs)
    else looked w itr p c

theorem channel_lt (hn : 0 < w.numVcs) (c : Nat) : channel w c < w.numVcs := by
  unfold channel
  split_ifs <;> omega

theorem mem_channels (hn : 0 < w.numVcs) {c v : Nat} :
    (∃ k ∈ List.range' c w.numVcs, channel w k = v) ↔ v < w.numVcs ∧ (v = 0 ∨ c ≤ v) := by
  simp only [mem_range'_1]
  constructor
  · rintro ⟨k, ⟨hk, hlt⟩, rfl⟩
    refine ⟨channel_lt hn k, ?_⟩
    unfold channel
    split_ifs with h
    · exact .inl rfl
    · exact .inr hk
  · rintro ⟨hv, rfl | hcv⟩
    · -- the counter passes the last channel, unless it starts at `0`
      by_cases hc : c = 0
      · exact ⟨0, by omega, by simp [channel]⟩
      · exact ⟨max c w.numVcs, by omega, if_pos (by omega)⟩
    · exact ⟨v, by omega, if_neg (by omega)⟩

theorem mem_looked (hn : 0 < w.numVcs) {p v : Nat} : ∀ (itr i c : Nat),
    (p, v) ∈ looked w itr i c ↔ v < w.numVcs ∧ Scanned w p ∧
      ∃ k < itr, p = (i + 1 + k) % w.dirns.length ∧
        (v = 0 ∨ c ≤ v ∧ ∀ k' < k, ¬ Scanned w ((i + 1 + k') % w.dirns.length)) := by
  intro itr
  induction itr with
  | zero => simp [looked]
  | succ itr ih =>
    intro i c
    have hshift (k : Nat) : ((i + 1) % w.dirns.length + 1 + k) % w.dirns.length =
        (i + 1 + (k + 1)) % w.dirns.length := by
      rw [Nat.add_assoc, mod_add_mod, Nat.add_comm 1 k]
    -- the ports after the next one are those of the remaining passes
    have hsplit (Q : Nat → Prop) : (∃ k < itr + 1, Q k) ↔ Q 0 ∨ ∃ k < itr, Q (k + 1) := by
      constructor
      · rintro ⟨k, hk, hQ⟩
        cases k with
        | zero => exact .inl hQ
        | succ k => exact .inr ⟨k, by omega, hQ⟩
      · rintro (hQ | ⟨k, hk, hQ⟩)
        · exact ⟨0, by omega, hQ⟩
        · exact ⟨k + 1, by omega, hQ⟩
    have hbefore (k : Nat) : (∀ k' < k + 1, ¬ Scanned w ((i + 1 + k') % w.dirns.length)) ↔
        ¬ Scanned w ((i + 1) % w.dirns.length) ∧
          ∀ k' < k, ¬ Scanned w ((i + 1 + (k' + 1)) % w.dirns.length) := by
      rw [forall_lt_succ_left]
    rw [hsplit]
    simp only [hbefore]
    by_cases hsc : Scanned w ((i + 1) % w.dirns.length)
    · -- the counter runs through its channels here, and is past the last one from here on
      have hchan : (p, v) ∈ (range' c w.numVcs).map
          (fun k => ((i + 1) % w.dirns.length, channel w k)) ↔
          p = (i + 1) % w.dirns.length ∧ v < w.numVcs ∧ (v = 0 ∨ c ≤ v) := by
        rw [mem_map, ← mem_channels hn]
        constructor
        · rintro ⟨k, hk, he⟩
          obtain ⟨rfl, rfl⟩ := Prod.mk.inj he
          exact ⟨rfl, k, hk, rfl⟩
        · rintro ⟨rfl, k, hk, rfl⟩
          exact ⟨k, hk, rfl⟩
      simp only [looked, if_pos hsc, mem_append, hchan, ih, hshift]
      constructor
      · rintro (⟨rfl, hv, hcase⟩ | ⟨hv, hp, k, hk, hpk, h0 | ⟨hcv, -⟩⟩)
        · exact ⟨hv, hsc, .inl ⟨rfl, hcase.imp_right fun hcv => ⟨hcv, by omega⟩⟩⟩
        · exact ⟨hv, hp, .inr ⟨k, hk, hpk, .inl h0⟩⟩
        · omega
      · rintro ⟨hv, hp, ⟨hpk, hcase⟩ | ⟨k, hk, hpk, h0 | ⟨-, hfirst, -⟩⟩⟩
        · exact .inl ⟨hpk, hv, hcase.imp_right And.left⟩
        · exact .inr ⟨hv, hp, k, hk, hpk, .inl h0⟩
        · exact absurd hsc hfirst
    · simp only [looked, if_neg hsc, ih, hshift]
      simp only [hsc, not_false_eq_true, true_and]
      refine and_congr_right fun _ => and_congr_right fun hp => (or_iff_right ?_).symm
      rintro ⟨rfl, -⟩
      exact hsc hp

theorem scanVcs_looked (p : Nat) : ∀ (itr c : Nat) (invc : Int), Outcome (scanVcs w p itr c invc)
      (fun r =>
        (r.2.2 = true ∧ ∃ k ∈ List.range' c itr, r.2.1 = channel w k ∧
          w.isEmpty p (channel w k) = false) ∨
        (r.2.2 = false ∧ r.1 = (c + itr : Nat) ∧
          (∀ k ∈ List.range' c itr, w.isEmpty p (channel w k) = true) ∧
          r.2.1 = (List.range' c itr).getLast?.elim invc fun k => (channel w k : Int)))
      (fun _ => False) := by
  intro itr
  induction itr with
  | zero => intro c invc; exact .inr ⟨rfl, rfl, by simp, rfl⟩
  | succ itr ih =>
    intro c invc
    have hchan : (if (w.numVcs : Int) ≤ c then 0 else (c : Int)) = channel w c := by
      unfold channel
      split_ifs <;> omega
    simp only [scanVcs, hchan, Int.toNat_natCast, outcome_do, outcome_ite]
    refine ⟨fun _ => ⟨fun he => .inl ⟨c, ?_, rfl, he⟩, fun he => ?_⟩,
      fun hneg => absurd (by omega) hneg⟩
    · rw [mem_range'_1]
      omega
    · rw [Bool.not_eq_false] at he
      have hrest := ih (c + 1) (channel w c)
      rw [Int.natCast_add, Int.natCast_one] at hrest
      refine hrest.imp ?_
      rw [range'_succ]
      rintro r (⟨hf, k, hk, hr⟩ | ⟨hf, hc, hall, hlast⟩)
      · exact .inl ⟨hf, k, mem_cons_of_mem _ hk, hr⟩
      · refine .inr ⟨hf, hc.trans (by omega), ?_, hlast.trans ?_⟩
        · intro k hk
          rcases mem_cons.mp hk with rfl | hk
          · exact he
          · exact hall k hk
        · cases hl : (range' (c + 1) itr).getLast? <;> simp [getLast?_cons, hl]

theorem scanInports_looked (hn : 0 < w.numVcs) : ∀ (itr i c : Nat) (sp : SwapPtr) (invc : Int),
    sp.inport = i → i < w.dirns.length → sp.vcid = c →
    (itr = 0 → Scanned w i → ∃ v : Nat, invc = v ∧ w.isEmpty i v = true) →
    Outcome (scanInports w itr sp invc)
      (fun r =>
        (∃ q ∈ looked w itr i c, r.1.inport = q.1 ∧ r.2 = q.2 ∧ w.isEmpty q.1 q.2 = false) ∨
        (∃ j : Nat, j = (i + itr) % w.dirns.length ∧ r.1.inport = j ∧
          (∀ q ∈ looked w itr i c, w.isEmpty q.1 q.2 = true) ∧
          r.2 = ((looked w itr i c).getLast?.elim invc fun q => (q.2 : Int)) ∧
          (Scanned w j → ∃ v : Nat, r.2 = v ∧ w.isEmpty j v = true)))
      (fun _ => False) := by
  intro itr
  induction itr with
  | zero =>
    intro i c sp invc hi hlt _ h0
    exact .inr ⟨i, (mod_eq_of_lt hlt).symm, hi, by simp [looked], rfl, h0 rfl⟩
  | succ itr ih =>
    intro i c sp invc hi hlt hc _
    have hj : (i + 1) % w.dirns.length < w.dirns.length := mod_lt _ (by omega)
    have hround : ((i + 1) % w.dirns.length + itr) % w.dirns.length =
        (i + (itr + 1)) % w.dirns.length := by
      rw [mod_add_mod, Nat.add_assoc, Nat.add_comm 1 itr]
    rw [← hround]
    simp only [scanInports, hi, next_inport hlt, Int.toNat_natCast, outcome_do, outcome_ite,
      getElem?_eq_getElem hj, Option.some.injEq, forall_eq', reduceCtorEq, false_implies]
    have hscan : Scanned w ((i + 1) % w.dirns.length) ↔ ¬ (w.whichToSwap = .disableLocalSwap ∧
        w.dirns[(i + 1) % w.dirns.length] = .Local) := by
      rw [Scanned, getElem?_eq_getElem hj, Option.some.injEq]
    refine ⟨fun _ => ⟨fun hskip => ?_, fun hsc => ?_⟩, fun hneg => absurd (by omega) hneg⟩
    · rw [looked, if_neg fun h => hscan.mp h hskip]
      exact ih _ c { sp with inport := ((i + 1) % w.dirns.length : Nat) } invc rfl hj hc
        fun _ h => absurd hskip (hscan.mp h)
    · rw [looked, if_pos (hscan.mpr hsc), hc]
      refine (scanVcs_looked _ w.numVcs c invc).imp ?_
      rintro ⟨vcid, invc', found⟩ (⟨hf, k, hk, hr, he⟩ | ⟨hf, hvcid, hall, hlast⟩)
      · dsimp only at hf hr ⊢
        subst hf
        exact ⟨fun _ => .inl ⟨_, mem_append_left _ (mem_map_of_mem hk), rfl, hr, he⟩,
          fun h => absurd rfl h⟩
      · dsimp only at hf hvcid hlast ⊢
        subst hf
        -- the port has been left with its last channel looked at
        have hend : ∃ v : Nat, invc' = v ∧ w.isEmpty ((i + 1) % w.dirns.length) v = true := by
          have hne : range' c w.numVcs ≠ [] := by
            rw [ne_eq, range'_eq_nil_iff]
            omega
          rw [getLast?_eq_some_getLast hne] at hlast
          exact ⟨_, hlast, hall _ (getLast_mem hne)⟩
        refine ⟨fun h => by simp at h, fun _ => ?_⟩
        refine (ih _ (c + w.numVcs) ⟨sp.valid, ((i + 1) % w.dirns.length : Nat), vcid,
          sp.inportDirn⟩ invc' rfl hj hvcid fun _ _ => hend).imp ?_
        rintro r (⟨q, hq, hr⟩ | ⟨j, hj, hin, hempty, hlast', hscanned⟩)
        · exact .inl ⟨q, mem_append_right _ hq, hr⟩
        · refine .inr ⟨j, hj, hin, ?_, hlast'.trans ?_, hscanned⟩
          · intro q hq
            rcases mem_append.mp hq with hq | hq
            · obtain ⟨k, hk, rfl⟩ := mem_map.mp hq
              exact hall k hk
            · exact hempty q hq
          · rw [hlast, getLast?_append, getLast?_map]
            cases (looked w itr ((i + 1) % w.dirns.length) (c + w.numVcs)).getLast? <;>
              cases (range' c w.numVcs).getLast? <;> rfl

/-- On a pointer in range `movSwapPtr` meets no assertion and leaves one that satisfies `Ok`. -/
theorem movSwapPtr_outcome (hn : 0 < w.numVcs) (hd : .Empty ∉ w.dirns) {sp : SwapPtr} {i : Nat}
    (hi : sp.inport = i) (hlt : i < w.dirns.length) (hsc : Scanned w i) (hv : 0 ≤ sp.vcid) :
    Outcome (movSwapPtr w sp) (Ok w) (fun _ => False) := by
  obtain ⟨u, hu⟩ := Int.eq_ofNat_of_zero_le hv
  have hloop := scanInports_looked hn w.dirns.length i u sp (-1) hi hlt hu (fun h => by omega)
  rw [movSwapPtr, outcome_bind]
  refine hloop.imp ?_
  rintro ⟨sp', invc⟩ hend
  -- wherever the loops stop, the port is scanned and the channel looked at is one of its channels
  obtain ⟨j, hj, hjlt, hsc', v, hinvc, hvlt⟩ : ∃ j : Nat, sp'.inport = j ∧ j < w.dirns.length ∧
      Scanned w j ∧ ∃ v : Nat, invc = v ∧ (w.isEmpty j v = false → v < w.numVcs) := by
    rcases hend with ⟨⟨p, v⟩, hq, hin, hr, -⟩ | ⟨j, hjeq, hin, -, -, hlast⟩
    · obtain ⟨hv, hsc', k, -, hp, -⟩ := (mem_looked hn ..).mp hq
      exact ⟨p, hin, hp ▸ mod_lt _ (by omega), hsc', v, hr, fun _ => hv⟩
    · rw [add_mod_right, mod_eq_of_lt hlt] at hjeq
      subst hjeq
      obtain ⟨v, hr, he⟩ := hlast hsc
      exact ⟨_, hin, hlt, hsc, v, hr, fun hf => by rw [he] at hf; cases hf⟩
  dsimp only at hj hinvc ⊢
  subst hinvc
  have hne : w.dirns[j] ≠ .Empty := fun h => hd (h ▸ getElem_mem hjlt)
  have hloc : ¬ (w.whichToSwap = .disableLocalSwap ∧ w.dirns[j] = .Local) := by
    rintro ⟨hw, hl⟩
    exact hsc' ⟨hw, by rw [getElem?_eq_getElem hjlt, hl]⟩
  simp only [hj, Int.toNat_natCast, outcome_do, outcome_ite, getElem?_eq_getElem hjlt,
    Option.some.injEq, forall_eq', reduceCtorEq, false_implies, Int.natCast_nonneg, forall_const,
    not_true_eq_false, ne_eq, hne, not_false_eq_true, hloc]
  refine ⟨fun he => ⟨fun _ => ?_, fun h => h he⟩, fun he => ?_⟩
  · exact ⟨j, v, rfl, rfl, hvlt he, he, getElem?_eq_getElem hjlt, hsc'⟩
  · exact ⟨rfl, rfl⟩

def iterMovSwapPtr (w : View) : Nat → SwapPtr → Except Fault SwapPtr
  | 0, sp => .ok sp
  | k + 1, sp => movSwapPtr w sp >>= iterMovSwapPtr w k

def Occupied (w : View) (p v : Nat) : Prop :=
  p < w.dirns.length ∧ w.dirns[p]? ≠ some .Local ∧ v < w.numVcs ∧ w.isEmpty p v = false

def Covers (w : View) (sp : SwapPtr) : Prop :=
  ∀ p v : Nat, Occupied w p v →
    ∃ k sp', iterMovSwapPtr w k sp = .ok sp' ∧ sp'.valid = true ∧ sp'.inport = p ∧ sp'.vcid = v

theorem scanVcs_one (h1 : w.numVcs = 1) (p : Nat) {vcid : Int} (hv : 0 ≤ vcid) (invc : Int) :
    scanVcs w p 1 vcid invc = .ok (vcid + 1, 0, !w.isEmpty p 0) := by
  have h0 : (if (w.numVcs : Int) ≤ vcid then 0 else vcid) = 0 := by
    by_cases hc : (w.numVcs : Int) ≤ vcid
    · rw [if_pos hc]
    · rw [if_neg hc]; omega
  cases he : w.isEmpty p 0 <;> simp [scanVcs, h0, he, require, pure, bind, Except.pure, Except.bind]

theorem scanInports_one (h1 : w.numVcs = 1) (hw : w.whichToSwap = .disableLocalSwap) :
    ∀ (itr i t : Nat) (sp : SwapPtr) (invc : Int),
      sp.inport = i → i < w.dirns.length → 0 ≤ sp.vcid → t < itr →
      Occupied w ((i + 1 + t) % w.dirns.length) 0 →
      (∀ s < t, ¬ Occupied w ((i + 1 + s) % w.dirns.length) 0) →
      ∃ sp', scanInports w itr sp invc = .ok (sp', 0) ∧
        sp'.inport = ((i + 1 + t) % w.dirns.length : Nat) := by
  intro itr
  induction itr with
  | zero => intro i t sp invc _ _ _ ht; omega
  | succ itr ih =>
    intro i t sp invc hi hlt hv ht hocc hfirst
    have hj : (i + 1) % w.dirns.length < w.dirns.length := mod_lt _ (by omega)
    have hshift : ∀ s, ((i + 1) % w.dirns.length + 1 + s) % w.dirns.length =
        (i + 1 + (s + 1)) % w.dirns.length := fun s => by
      rw [Nat.add_assoc, mod_add_mod, Nat.add_comm 1 s]
    simp only [scanInports, hi, next_inport hlt, Int.toNat_natCast, require, Int.natCast_nonneg,
      if_true, getElem?_eq_getElem hj, orFail, bind, Except.bind, hw, true_and, h1,
      scanVcs_one h1 _ hv]
    cases t with
    | zero =>
      obtain ⟨-, hloc, -, hfull⟩ := hocc
      rw [Nat.add_zero] at hloc hfull
      rw [getElem?_eq_getElem hj, ne_eq, Option.some.injEq] at hloc
      rw [if_neg hloc, hfull]
      exact ⟨_, rfl, rfl⟩
    | succ t =>
      have hnot := hfirst 0 (by omega)
      rw [← hshift] at hocc
      have hfirst' : ∀ s < t, ¬ Occupied w (((i + 1) % w.dirns.length + 1 + s) %
          w.dirns.length) 0 := fun s hs => by rw [hshift]; exact hfirst (s + 1) (by omega)
      rw [← hshift]
      by_cases hloc : w.dirns[(i + 1) % w.dirns.length] = .Local
      · rw [if_pos hloc]
        exact ih _ t _ invc rfl hj hv (by omega) hocc hfirst'
      · have hempty : w.isEmpty ((i + 1) % w.dirns.length) 0 = true := by
          by_contra hne
          rw [Bool.not_eq_true] at hne
          refine hnot ⟨hj, ?_, by omega, hne⟩
          rw [Nat.add_zero, getElem?_eq_getElem hj, ne_eq, Option.some.injEq]
          exact hloc
        rw [if_neg hloc, hempty]
        exact ih _ t ⟨sp.valid, ((i + 1) % w.dirns.length : Nat), sp.vcid + 1, sp.inportDirn⟩ 0 rfl
          hj (by dsimp only; omega) (by omega) hocc hfirst'

theorem movSwapPtr_one (h1 : w.numVcs = 1) (hw : w.whichToSwap = .disableLocalSwap)
    (hd : .Empty ∉ w.dirns) {sp : SwapPtr} {i t : Nat} (hi : sp.inport = i)
    (hlt : i < w.dirns.length) (hv : 0 ≤ sp.vcid) (ht : t < w.dirns.length)
    (hocc : Occupied w ((i + 1 + t) % w.dirns.length) 0)
    (hfirst : ∀ s < t, ¬ Occupied w ((i + 1 + s) % w.dirns.length) 0) :
    ∃ d, movSwapPtr w sp = .ok ⟨true, ((i + 1 + t) % w.dirns.length : Nat), 0, d⟩ := by
  obtain ⟨sp', hscan, hin⟩ :=
    scanInports_one h1 hw w.dirns.length i t sp (-1) hi hlt hv ht hocc hfirst
  generalize (i + 1 + t) % w.dirns.length = j at hocc hin
  obtain ⟨hj, hloc, -, hfull⟩ := hocc
  have hne : w.dirns[j] ≠ .Empty := fun h => hd (h ▸ getElem_mem hj)
  rw [getElem?_eq_getElem hj, ne_eq, Option.some.injEq] at hloc
  refine ⟨w.dirns[j], ?_⟩
  simp [movSwapPtr, hscan, hin, bind, Except.bind, require, orFail, getElem?_eq_getElem hj,
    hfull, hne, hloc, pure, Except.pure]

def ahead (m i p : Nat) : Nat := (p + m - i) % m

theorem ahead_spec {m i p : Nat} (hi : i < m) (hp : p < m) : (i + ahead m i p) % m = p := by
  rw [ahead, add_mod_mod, show i + (p + m - i) = p + m by omega, add_mod_right,
    mod_eq_of_lt hp]

theorem ahead_lt {m i p : Nat} (hi : i < m) : ahead m i p < m := mod_lt _ (by omega)

theorem ahead_add {m i p t : Nat} (hi : i < m) (hp : p < m) (ht : t ≤ ahead m i p) :
    ahead m ((i + t) % m) p = ahead m i p - t := by
  have hlt : ahead m i p < m := ahead_lt hi
  have hspec := ahead_spec hi hp
  have hj : (i + t) % m < m := mod_lt _ (by omega)
  have hspec' := ahead_spec hj hp
  rw [mod_add_mod] at hspec'
  have hlt' : ahead m ((i + t) % m) p < m := ahead_lt hj
  -- both sides lead from `(i + t) % m` to `p` in less than `m` steps
  have hcong : Nat.ModEq m (i + t + ahead m ((i + t) % m) p) (i + t + (ahead m i p - t)) := by
    rw [Nat.ModEq, hspec', show i + t + (ahead m i p - t) = i + ahead m i p by omega, hspec]
  exact (Nat.ModEq.add_left_cancel' (i + t) hcong).eq_of_lt_of_lt hlt' (by omega)

/-- **Coverage with a single channel**: the cyclic distance to an occupied port shrinks with every
move. -/
theorem reaches_one (h1 : w.numVcs = 1) (hw : w.whichToSwap = .disableLocalSwap)
    (hd : .Empty ∉ w.dirns) {p : Nat} (hocc : Occupied w p 0) :
    ∀ (n i : Nat) (sp : SwapPtr), ahead w.dirns.length i p = n → sp.valid = true → sp.inport = i →
      i < w.dirns.length → sp.vcid = 0 →
      ∃ k sp', iterMovSwapPtr w k sp = .ok sp' ∧ sp'.valid = true ∧ sp'.inport = p ∧
        sp'.vcid = (0 : Nat) := by
  intro n
  induction n using Nat.strong_induction_on with
  | _ n ih =>
    intro i sp hn hval hi hlt hv
    have hspec := ahead_spec hlt hocc.1
    cases n with
    | zero =>
      rw [hn, Nat.add_zero, mod_eq_of_lt hlt] at hspec
      exact ⟨0, sp, rfl, hval, hspec ▸ hi, hv⟩
    | succ n =>
      classical
      have hex : ∃ t, Occupied w ((i + 1 + t) % w.dirns.length) 0 :=
        ⟨n, by rw [Nat.add_assoc, Nat.add_comm 1 n, ← hn, hspec]; exact hocc⟩
      have htn : Nat.find hex ≤ n :=
        Nat.find_min' hex (by rw [Nat.add_assoc, Nat.add_comm 1 n, ← hn, hspec]; exact hocc)
      have hnm : ahead w.dirns.length i p < w.dirns.length := ahead_lt hlt
      obtain ⟨d, hmov⟩ := movSwapPtr_one h1 hw hd hi hlt (by omega) (by omega) (Nat.find_spec hex)
        (fun s hs => Nat.find_min hex hs)
      have hnear := ahead_add (t := 1 + Nat.find hex) hlt hocc.1 (by omega)
      rw [← Nat.add_assoc] at hnear
      obtain ⟨k, sp', hk, hres⟩ := ih (n - Nat.find hex) (by omega)
        ((i + 1 + Nat.find hex) % w.dirns.length) ⟨true, _, 0, d⟩ (by omega) rfl rfl
        (mod_lt _ (by omega)) rfl
      refine ⟨k + 1, sp', ?_, hres⟩
      rw [iterMovSwapPtr, hmov]
      exact hk

theorem movSwapPtr_all_occupied (hn : 0 < w.numVcs) (hfull : ∀ p v, w.isEmpty p v = false) :
    ∀ (k : Nat) (sp : SwapPtr), sp.vcid = 0 →
      Outcome (iterMovSwapPtr w k sp) (fun sp' => sp'.vcid = 0) (fun _ => True) := by
  have hscan : ∀ (itr : Nat) (sp : SwapPtr), sp.vcid = 0 →
      Outcome (scanInports w itr sp (-1)) (fun r => r.2 = 0 ∨ r.2 = -1) (fun _ => True) := by
    intro itr
    induction itr with
    | zero => intro sp _; exact Or.inr rfl
    | succ itr ih =>
      intro sp hv
      obtain ⟨n, hn'⟩ : ∃ n, w.numVcs = n + 1 := ⟨w.numVcs - 1, by omega⟩
      have hvc : ∀ p : Nat, scanVcs w p w.numVcs sp.vcid (-1) = .ok (1, 0, true) := by
        intro p
        have hneg : ¬ ((n : Int) + 1 ≤ 0) := by omega
        simp [hn', scanVcs, hv, hfull, require, bind, Except.bind, pure, Except.pure, hneg]
      simp only [scanInports, hvc, outcome_do, outcome_ite, outcome_ok]
      intro _ dirn _
      exact ⟨fun _ => ih _ hv, fun _ => ⟨fun _ => Or.inl trivial, fun h => absurd trivial h⟩⟩
  intro k
  induction k with
  | zero => intro sp hv; exact hv
  | succ k ih =>
    intro sp hv
    rw [iterMovSwapPtr, outcome_bind, movSwapPtr, outcome_bind]
    refine (hscan _ sp hv).imp ?_
    rintro ⟨sp', invc⟩ hinvc
    dsimp only at hinvc ⊢
    simp only [outcome_do, outcome_ite, hfull, forall_const, not_true_eq_false, false_implies]
    intro _ dirn _ hnn _ _ _
    exact ih _ (by dsimp only; omega)

/-- **Coverage holds for a single channel only**: valid pointers reach all occupied channels of the
mesh if and only if there is one channel or no port of the mesh. -/
theorem movSwapPtr_covers_iff (dirns : List PortDirection) (numVcs : Nat) (hn : 0 < numVcs)
    (hd : .Empty ∉ dirns) :
    (∀ (isEmpty : Nat → Nat → Bool) (sp : SwapPtr),
      Ok ⟨dirns, numVcs, .disableLocalSwap, isEmpty⟩ sp → sp.valid = true →
      Covers ⟨dirns, numVcs, .disableLocalSwap, isEmpty⟩ sp) ↔
    numVcs = 1 ∨ ∀ d ∈ dirns, d = .Local := by
  constructor
  · intro h
    by_contra hne
    rw [not_or] at hne
    obtain ⟨h1, hloc⟩ := hne
    obtain ⟨d, hmem, hd'⟩ : ∃ d ∈ dirns, d ≠ .Local := by
      by_contra hno
      exact hloc fun d hm => by_contra fun hx => hno ⟨d, hm, hx⟩
    obtain ⟨p, hp, rfl⟩ := getElem_of_mem hmem
    -- a full router with the pointer at channel `0`: channel `1` is never reached
    let w : View := ⟨dirns, numVcs, .disableLocalSwap, fun _ _ => false⟩
    have hget : w.dirns[p]? = some dirns[p] := getElem?_eq_getElem hp
    have hget' : w.dirns[p]? ≠ some .Local := by
      rw [hget, ne_eq, Option.some.injEq]
      exact hd'
    have hok : Ok w ⟨true, p, 0, dirns[p]⟩ :=
      ⟨p, 0, rfl, rfl, hn, rfl, hget, fun hs => hget' hs.2⟩
    obtain ⟨k, sp', hk, -, -, hvc⟩ := h (fun _ _ => false) ⟨true, p, 0, dirns[p]⟩ hok rfl p 1
      ⟨hp, hget', by dsimp only; omega, rfl⟩
    have hzero := (movSwapPtr_all_occupied (w := w) hn (fun _ _ => rfl) k
      ⟨true, p, 0, dirns[p]⟩ rfl).of_ok hk
    rw [hvc] at hzero
    exact absurd hzero (by decide)
  · rintro hcase isEmpty sp hok hval p v hocc
    rw [Ok, if_pos hval] at hok
    obtain ⟨i, u, hi, hu, hult, -, hdi, -⟩ := hok
    have hilt : i < dirns.length := (List.getElem?_eq_some_iff.mp hdi).1
    rcases hcase with rfl | hloc
    · obtain rfl : u = 0 := by dsimp only at hult; omega
      have hv0 : v = 0 := by have := hocc.2.2.1; dsimp only at this; omega
      subst hv0
      exact reaches_one rfl rfl hd hocc _ i sp rfl hval hi hilt hu
    · obtain ⟨hp, hpl, -⟩ := hocc
      rw [getElem?_eq_getElem hp, ne_eq, Option.some.injEq] at hpl
      exact absurd (hloc _ (getElem_mem hp)) hpl

/-- In the middle of a row of three, a pointer reaches every channel if a port has one, and with two
channels some pointer does not. -/
theorem movSwapPtr_covers_iff_row :
    (Ok ⟨[.Local, .West, .East], 1, .disableLocalSwap, fun _ _ => false⟩ ⟨true, 1, 0, .West⟩ ∧
      Covers ⟨[.Local, .West, .East], 1, .disableLocalSwap, fun _ _ => false⟩
        ⟨true, 1, 0, .West⟩) ∧
    ∃ isEmpty sp, Ok ⟨[.Local, .West, .East], 2, .disableLocalSwap, isEmpty⟩ sp ∧
      ¬ Covers ⟨[.Local, .West, .East], 2, .disableLocalSwap, isEmpty⟩ sp := by
  have hok : Ok ⟨[.Local, .West, .East], 1, .disableLocalSwap, fun _ _ => false⟩
      ⟨true, 1, 0, .West⟩ := ⟨1, 0, rfl, rfl, by decide, rfl, rfl, by simp [Scanned]⟩
  refine ⟨⟨hok, (movSwapPtr_covers_iff _ 1 (by decide) (by decide)).mpr (.inl rfl) _ _ hok rfl⟩, ?_⟩
  by_contra hnone
  push Not at hnone
  have hcase := (movSwapPtr_covers_iff [.Local, .West, .East] 2 (by decide) (by decide)).mp
    fun isEmpty sp h _ => hnone isEmpty sp h
  revert hcase
  decide

/-- With two channels the pointer never comes from channel `0` to channel `1` of the `West` port. -/
theorem movSwapPtr_two_vcs_not_covers :
    Ok ⟨[.Local, .West, .East], 2, .disableLocalSwap, fun _ _ => false⟩ ⟨true, 1, 0, .West⟩ ∧
    ¬ Covers ⟨[.Local, .West, .East], 2, .disableLocalSwap, fun _ _ => false⟩
      ⟨true, 1, 0, .West⟩ := by
  refine ⟨⟨1, 0, rfl, rfl, by decide, rfl, rfl, by simp [Scanned]⟩, fun h => ?_⟩
  obtain ⟨k, sp', hk, -, -, hvc⟩ := h 1 1 ⟨by decide, by simp, by decide, rfl⟩
  have hzero := (movSwapPtr_all_occupied (by decide) (fun _ _ => rfl) k ⟨true, 1, 0, .West⟩
    rfl).of_ok hk
  rw [hvc] at hzero
  exact absurd hzero (by decide)

end NocSwap.SwapPtr
