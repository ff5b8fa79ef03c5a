import Mathlib.Algebra.Order.BigOperators.Group.List
import Mathlib.Algebra.Order.Group.Nat
import NocSwap.Ruby.Topology

/-!
# The distances of `extend_shortest_path`
-/

namespace NocSwap.Topology

open List

def Lowered (d d' : Nat → Nat → Nat) : Prop := ∀ i j, d' i j ≤ d i j

structure Separated (d : Nat → Nat → Nat) : Prop where
  self : ∀ i, d i i = 0
  pos : ∀ i j, i ≠ j → 1 ≤ d i j

/-! ### One entry -/

theorem relaxStep_minimum (d : Nat → Nat → Nat) (i j : Nat) (s : RelaxState) (k : Nat) :
    (relaxStep d i j s k).minimum = min s.minimum (d i k + d k j) := by
  dsimp only [relaxStep]
  split_ifs with h
  · rfl
  · exact not_not.mp h

theorem relax_minimum_le (d : Nat → Nat → Nat) (i j : Nat) (l : List Nat) :
    ∀ s : RelaxState, (l.foldl (relaxStep d i j) s).minimum ≤ s.minimum := by
  induction l with
  | nil => exact fun s => le_refl _
  | cons k l ih =>
    intro s
    rw [foldl_cons]
    refine (ih _).trans ?_
    rw [relaxStep_minimum]
    exact min_le_left _ _

variable {d : Nat → Nat → Nat}

theorem relax_minimum_pos (hd : Separated d) {i j : Nat} (hij : i ≠ j)
    (l : List Nat) : ∀ s : RelaxState, 1 ≤ s.minimum →
      1 ≤ (l.foldl (relaxStep d i j) s).minimum := by
  induction l with
  | nil => exact fun s hs => hs
  | cons k l ih =>
    intro s hs
    rw [foldl_cons]
    apply ih
    rw [relaxStep_minimum, le_min_iff]
    refine ⟨hs, ?_⟩
    -- a detour leaves `i` or arrives at `j`
    rcases eq_or_ne i k with rfl | hik
    · exact (hd.pos i j hij).trans (Nat.le_add_left _ _)
    · exact (hd.pos i k hik).trans (Nat.le_add_right _ _)

theorem relax_minimum_le_detour (d : Nat → Nat → Nat) (i j : Nat) {k : Nat} (l : List Nat)
    (hk : k ∈ l) : ∀ s : RelaxState, (l.foldl (relaxStep d i j) s).minimum ≤ d i k + d k j := by
  induction l with
  | nil => cases hk
  | cons k' l ih =>
    intro s
    rw [foldl_cons]
    rcases mem_cons.mp hk with rfl | hk
    · refine (relax_minimum_le d i j l _).trans ?_
      rw [relaxStep_minimum]
      exact min_le_right _ _
    · exact ih hk _

theorem relax_minimum_cases (d : Nat → Nat → Nat) (i j : Nat) (l : List Nat) :
    ∀ s : RelaxState, (l.foldl (relaxStep d i j) s).minimum = s.minimum ∨
      ∃ k ∈ l, (l.foldl (relaxStep d i j) s).minimum = d i k + d k j := by
  induction l with
  | nil => exact fun s => .inl rfl
  | cons k l ih =>
    intro s
    rw [foldl_cons]
    rcases ih (relaxStep d i j s k) with h | ⟨k', hk', h⟩
    · rw [h, relaxStep_minimum]
      rcases min_choice s.minimum (d i k + d k j) with hmin | hmin
      · exact .inl hmin
      · exact .inr ⟨k, mem_cons_self .., hmin⟩
    · exact .inr ⟨k', mem_cons_of_mem _ hk', h⟩

section Entry

variable {nodes : Nat} {m : PathMatrices} {b : Bool} {ij : Nat × Nat}

theorem relaxEntry_cases (nodes : Nat) (m : PathMatrices) (b : Bool) (ij : Nat × Nat) :
    ((relaxEntry nodes (m, b) ij).2 = true ∧
      ∃ x < m.dist ij.1 ij.2, (ij.1 ≠ ij.2 → Separated m.dist → 1 ≤ x) ∧
        (relaxEntry nodes (m, b) ij).1.dist = set2 m.dist ij.1 ij.2 x) ∨
    ((relaxEntry nodes (m, b) ij).2 = b ∧ (relaxEntry nodes (m, b) ij).1.dist = m.dist) := by
  obtain ⟨i, j⟩ := ij
  have hle := relax_minimum_le m.dist i j (range nodes) ⟨m.dist i j, none, m.interSwitches⟩
  dsimp only [relaxEntry]
  split_ifs with h
  · refine .inl ⟨rfl, _, lt_of_le_of_ne hle (Ne.symm h), fun hij hd => ?_, rfl⟩
    exact relax_minimum_pos hd hij _ _ (hd.pos i j hij)
  · exact .inr ⟨rfl, rfl⟩

theorem relaxEntry_lowered : Lowered m.dist (relaxEntry nodes (m, b) ij).1.dist := by
  intro i j
  rcases relaxEntry_cases nodes m b ij with
    ⟨-, x, hx, -, hd⟩ | ⟨-, hd⟩
  · rw [hd, set2_apply]
    split_ifs with h
    · rw [h.1, h.2]
      exact hx.le
    · exact le_refl _
  · rw [hd]

theorem relaxEntry_separated (hm : Separated m.dist) :
    Separated (relaxEntry nodes (m, b) ij).1.dist := by
  refine ⟨fun i => Nat.eq_zero_of_le_zero ((relaxEntry_lowered i i).trans_eq (hm.self i)), ?_⟩
  intro i j hne
  rcases relaxEntry_cases nodes m b ij with
    ⟨-, x, -, hpos, hd⟩ | ⟨-, hd⟩
  · rw [hd, set2_apply]
    split_ifs with h
    · exact hpos (h.1 ▸ h.2 ▸ hne) hm
    · exact hm.pos i j hne
  · rw [hd]
    exact hm.pos i j hne

end Entry

variable {nodes : Nat} {ij : Nat × Nat}

theorem mem_entries : ij ∈ entries nodes ↔ ij.1 < nodes ∧ ij.2 < nodes := by
  simp only [entries, mem_flatMap, mem_range, mem_map]
  constructor
  · rintro ⟨i, hi, j, hj, rfl⟩
    exact ⟨hi, hj⟩
  · rintro ⟨hi, hj⟩
    exact ⟨ij.1, hi, ij.2, hj, rfl⟩

theorem total_le {d' : Nat → Nat → Nat} (h : Lowered d d') : total nodes d' ≤ total nodes d :=
  sum_le_sum fun ij _ => h ij.1 ij.2

theorem total_lt {d' : Nat → Nat → Nat} (h : Lowered d d') (hij : ij ∈ entries nodes)
    (hlt : d' ij.1 ij.2 < d ij.1 ij.2) : total nodes d' < total nodes d :=
  sum_lt_sum _ _ (fun ij _ => h ij.1 ij.2) ⟨ij, hij, hlt⟩

/-- What a part of a turn has done to the distances: nothing, or, with a change, lowered their sum.
-/
structure Relaxed (nodes : Nat) (d : Nat → Nat → Nat) (s : PathMatrices × Bool) : Prop where
  lowered : Lowered d s.1.dist
  separated : Separated d → Separated s.1.dist
  same : s.2 = false → s.1.dist = d
  less : s.2 = true → total nodes s.1.dist < total nodes d

theorem Relaxed.entry {s : PathMatrices × Bool}
    (h : Relaxed nodes d s) (hij : ij ∈ entries nodes) : Relaxed nodes d (relaxEntry nodes s ij) := by
  obtain ⟨m, b⟩ := s
  have hle : Lowered m.dist (relaxEntry nodes (m, b) ij).1.dist := relaxEntry_lowered
  refine ⟨fun i j => (hle i j).trans (h.lowered i j), fun hd => relaxEntry_separated (h.separated hd),
    ?_, ?_⟩
  all_goals
    rcases relaxEntry_cases nodes m b ij with
      ⟨hflag, x, hx, -, hd⟩ | ⟨hflag, hd⟩
    all_goals intro hb
  · rw [hflag] at hb
    cases hb
  · rw [hd]
    exact h.same (hflag ▸ hb)
  · refine (total_lt hle hij ?_).trans_le (total_le h.lowered)
    rw [hd, set2_same]
    exact hx
  · rw [hd]
    exact h.less (hflag ▸ hb)

theorem pass_relaxed (nodes : Nat) (m : PathMatrices) : Relaxed nodes m.dist (pass nodes m) := by
  have hloop : ∀ l ⊆ entries nodes, ∀ s, Relaxed nodes m.dist s →
      Relaxed nodes m.dist (l.foldl (relaxEntry nodes) s) := by
    intro l
    induction l with
    | nil => exact fun _ s hs => hs
    | cons ij l ih =>
      intro hl s hs
      rw [foldl_cons]
      exact ih (fun _ h => hl (mem_cons_of_mem _ h)) _ (hs.entry (hl (mem_cons_self ..)))
  exact hloop _ (List.Subset.refl _) _
    ⟨fun _ _ => le_refl _, fun h => h, fun _ => rfl, fun h => nomatch h⟩

theorem extendShortestPath_lowered (nodes fuel : Nat) :
    ∀ m : PathMatrices, Lowered m.dist (extendShortestPath nodes fuel m).dist := by
  induction fuel with
  | zero => exact fun m i j => le_refl _
  | succ fuel ih =>
    intro m i j
    have hpass := (pass_relaxed nodes m).lowered i j
    unfold extendShortestPath
    split
    · rename_i m' hm'
      rw [hm'] at hpass
      exact (ih m' i j).trans hpass
    · rename_i m' hm'
      rw [hm'] at hpass
      exact hpass

theorem extendShortestPath_separated (nodes fuel : Nat) :
    ∀ m : PathMatrices, Separated m.dist → Separated (extendShortestPath nodes fuel m).dist := by
  induction fuel with
  | zero => exact fun m h => h
  | succ fuel ih =>
    intro m h
    have hpass := (pass_relaxed nodes m).separated h
    unfold extendShortestPath
    split
    · rename_i m' hm'
      rw [hm'] at hpass
      exact ih m' hpass
    · rename_i m' hm'
      rw [hm'] at hpass
      exact hpass

theorem extendShortestPath_stable (nodes fuel : Nat) :
    ∀ m : PathMatrices, total nodes m.dist < fuel →
      ∃ m', m'.dist = (extendShortestPath nodes fuel m).dist ∧
        pass nodes m' = (extendShortestPath nodes fuel m, false) := by
  induction fuel with
  | zero => exact fun m h => absurd h (Nat.not_lt_zero _)
  | succ fuel ih =>
    intro m hfuel
    have hpass := pass_relaxed nodes m
    unfold extendShortestPath
    split
    · rename_i m' hm'
      have hless := hpass.less (by rw [hm'])
      rw [hm'] at hless
      exact ih m' (hless.trans_le (Nat.le_of_lt_succ hfuel))
    · rename_i m' hm'
      have hsame := hpass.same (by rw [hm'])
      rw [hm'] at hsame
      exact ⟨m, hsame.symm, hm'⟩

theorem shortestPath_stable (nodes : Nat) (weights : Nat → Nat → Nat)
    (latencies : Nat → Nat → Int) :
    ∃ m, m.dist = (shortestPath nodes weights latencies).dist ∧
      pass nodes m = (shortestPath nodes weights latencies, false) :=
  extendShortestPath_stable nodes _ _ (Nat.lt_succ_self _)

theorem relaxEntry_dist (nodes : Nat) (m : PathMatrices) (b : Bool) (i j : Nat) :
    (relaxEntry nodes (m, b) (i, j)).1.dist = set2 m.dist i j
      ((List.range nodes).foldl (relaxStep m.dist i j)
        ⟨m.dist i j, none, m.interSwitches⟩).minimum := by
  dsimp only [relaxEntry]
  split_ifs with h
  · rfl
  · -- the old value is written back
    rw [← not_not.mp h]
    funext a c
    rw [set2_apply]
    split_ifs with hac
    · rw [hac.1, hac.2]
    · rfl

section Pointwise

variable {nodes : Nat} {Φ : Nat → Nat → Nat → Prop}
  (hΦ : ∀ i k j x y, Φ i k x → Φ k j y → Φ i j (x + y))
include hΦ

theorem relaxEntry_pointwise {s : PathMatrices × Bool} (ij : Nat × Nat)
    (hs : ∀ i j, Φ i j (s.1.dist i j)) : ∀ i j, Φ i j ((relaxEntry nodes s ij).1.dist i j) := by
  intro a c
  obtain ⟨m, b⟩ := s
  rw [relaxEntry_dist, set2_apply]
  split_ifs with hac
  · obtain ⟨rfl, rfl⟩ := hac
    rcases relax_minimum_cases m.dist ij.1 ij.2 (range nodes)
      ⟨m.dist ij.1 ij.2, none, m.interSwitches⟩ with h | ⟨k, -, h⟩
    · rw [h]
      exact hs _ _
    · rw [h]
      exact hΦ _ k _ _ _ (hs _ _) (hs _ _)
  · exact hs a c

theorem extendShortestPath_pointwise (fuel : Nat) : ∀ m : PathMatrices,
    (∀ i j, Φ i j (m.dist i j)) → ∀ i j, Φ i j ((extendShortestPath nodes fuel m).dist i j) := by
  have hpass : ∀ (l : List (Nat × Nat)) (s : PathMatrices × Bool), (∀ i j, Φ i j (s.1.dist i j)) →
      ∀ i j, Φ i j ((l.foldl (relaxEntry nodes) s).1.dist i j) := by
    intro l
    induction l with
    | nil => exact fun s hs => hs
    | cons ij l ih => exact fun s hs => ih _ (relaxEntry_pointwise hΦ ij hs)
  induction fuel with
  | zero => exact fun m hm => hm
  | succ fuel ih =>
    intro m hm
    have hturn := hpass (entries nodes) (m, false) hm
    unfold extendShortestPath
    split
    · rename_i m' hm'
      rw [pass] at hm'
      rw [hm'] at hturn
      exact ih m' hturn
    · rename_i m' hm'
      rw [pass] at hm'
      rw [hm'] at hturn
      exact hturn

theorem shortestPath_pointwise {weights : Nat → Nat → Nat} (latencies : Nat → Nat → Int)
    (hweights : ∀ i j, Φ i j (weights i j)) :
    ∀ i j, Φ i j ((shortestPath nodes weights latencies).dist i j) :=
  extendShortestPath_pointwise hΦ _ _ hweights

end Pointwise

theorem relaxEntry_flag {s : PathMatrices × Bool}
    (h : (relaxEntry nodes s ij).2 = false) : s.2 = false := by
  rcases relaxEntry_cases nodes s.1 s.2 ij with ⟨hflag, -⟩ | ⟨hflag, -⟩
  · exact absurd (hflag.symm.trans h) Bool.noConfusion
  · exact hflag.symm.trans h

theorem triangle_of_unchanged (l : List (Nat × Nat)) :
    ∀ s : PathMatrices × Bool, s.1.dist = d → (l.foldl (relaxEntry nodes) s).2 = false →
      ∀ ij ∈ l, ∀ k < nodes, d ij.1 ij.2 ≤ d ij.1 k + d k ij.2 := by
  have hflag : ∀ (l : List (Nat × Nat)) (s : PathMatrices × Bool),
      (l.foldl (relaxEntry nodes) s).2 = false → s.2 = false := by
    intro l
    induction l with
    | nil => exact fun s h => h
    | cons ij l ih => exact fun s h => relaxEntry_flag (ih _ h)
  induction l with
  | nil => exact fun _ _ _ _ h => nomatch h
  | cons ij l ih =>
    intro s hs hend
    have hunchanged := hflag l _ hend
    have hdist : (relaxEntry nodes s ij).1.dist = d := by
      rcases relaxEntry_cases nodes s.1 s.2 ij with ⟨hset, -⟩ | ⟨-, hd⟩
      · exact absurd (hset.symm.trans hunchanged) Bool.noConfusion
      · exact hd.trans hs
    intro ab hab k hk
    rcases mem_cons.mp hab with rfl | hab
    · -- the minimum over all detours is the old distance
      have hmin := relax_minimum_le_detour s.1.dist ab.1 ab.2 (range nodes)
        (mem_range.mpr hk) ⟨s.1.dist ab.1 ab.2, none, s.1.interSwitches⟩
      have heq := relaxEntry_dist nodes s.1 s.2 ab.1 ab.2
      rw [show relaxEntry nodes (s.1, s.2) (ab.1, ab.2) = relaxEntry nodes s ab from rfl, hdist]
        at heq
      have hval := congrFun (congrFun heq ab.1) ab.2
      rw [set2_same] at hval
      rw [hval, ← hs]
      exact hmin
    · exact ih _ hdist hend ab hab k hk

section

variable (nodes : Nat) (weights : Nat → Nat → Nat) (latencies : Nat → Nat → Int)
include latencies

theorem shortestPath_triangle {i j k : Nat} (hi : i < nodes) (hj : j < nodes) (hk : k < nodes) :
    (shortestPath nodes weights latencies).dist i j ≤
      (shortestPath nodes weights latencies).dist i k +
        (shortestPath nodes weights latencies).dist k j := by
  obtain ⟨m, hm, hpass⟩ := shortestPath_stable nodes weights latencies
  rw [← hm]
  exact triangle_of_unchanged (entries nodes) (m, false) rfl (congrArg Prod.snd hpass) (i, j)
    (mem_entries.mpr ⟨hi, hj⟩) k hk

theorem shortestPath_le : Lowered weights (shortestPath nodes weights latencies).dist :=
  extendShortestPath_lowered nodes _ _

end

end NocSwap.Topology
