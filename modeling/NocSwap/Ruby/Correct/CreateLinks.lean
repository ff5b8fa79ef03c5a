import NocSwap.Lib.Walk
import NocSwap.Ruby.CreateLinks
import NocSwap.Ruby.Correct.Topology

/-!
# The distances of a topology
-/

namespace NocSwap.Topology

open List

variable (T : Topology)

/-! ### The link map -/

def additions : LinkMap :=
  (T.extLinks.flatMap fun l =>
    [((entry l.extNode, T.router l.intNode), ⟨l.weight, l.latency, .Empty, .Empty⟩),
      ((T.router l.intNode, T.exit l.extNode), ⟨l.weight, l.latency, .Empty, .Empty⟩)]) ++
  T.intLinks.map fun l => ((T.router l.srcNode, T.router l.dstNode),
    ⟨l.weight, l.latency, l.srcOutport, l.dstInport⟩)

theorem linkMap_eq : T.linkMap = T.additions.foldl (fun m x => addLink m x.1.1 x.1.2 x.2) [] := by
  unfold linkMap additions
  rw [foldl_append, foldl_flatMap, foldl_map]
  rfl

theorem lookup_addLink (map : LinkMap) (src dest : Nat) (e : LinkEntry) (k : Nat × Nat) :
    (addLink map src dest e).lookup k = if k = (src, dest) then some e else map.lookup k := by
  unfold addLink
  rw [lookup_append]
  split_ifs with hk
  · -- the old entry is gone
    subst hk
    have hnone : (map.filter fun x => x.1 ≠ (src, dest)).lookup (src, dest) = none := by
      rw [lookup_eq_none_iff]
      intro x hx
      have := of_decide_eq_true (mem_filter.mp hx).2
      simpa using Ne.symm this
    rw [hnone]
    simp
  · have hsingle : List.lookup k [((src, dest), e)] = none := by
      rw [lookup_eq_none_iff]
      simpa using hk
    rw [hsingle, Option.or_none]
    induction map with
    | nil => rfl
    | cons x map ih =>
      by_cases hx : x.1 = (src, dest)
      · have hne : (k == x.1) = false := by simpa [hx] using hk
        rw [filter_cons_of_neg (by simpa using hx), ih, lookup_cons, hne]
      · rw [filter_cons_of_pos (by simpa using hx), lookup_cons, lookup_cons, ih]

theorem lookup_linkMap (k : Nat × Nat) : T.linkMap.lookup k = T.additions.reverse.lookup k := by
  have h : ∀ l m : LinkMap,
      (l.foldl (fun m x => addLink m x.1.1 x.1.2 x.2) m).lookup k =
        (l.reverse.lookup k).or (m.lookup k) := by
    intro l
    induction l with
    | nil => exact fun m => rfl
    | cons x l ih =>
      intro m
      rw [foldl_cons, ih, lookup_addLink, reverse_cons, lookup_append, Option.or_assoc]
      congr 1
      by_cases hk : k = (x.1.1, x.1.2)
      · obtain ⟨k', e⟩ := x
        subst hk
        rw [if_pos rfl, lookup_cons_self, Option.some_or]
      · have hne : (k == x.1) = false := by simpa using hk
        rw [if_neg hk, lookup_cons, hne, lookup_nil, Option.none_or]
  rw [linkMap_eq, h, lookup_nil, Option.or_none]

def Linked (i j : Nat) : Prop := ∃ e, T.linkMap.lookup (i, j) = some e

variable {T}

variable {e : LinkEntry}

theorem mem_of_lookup {map : LinkMap} {k : Nat × Nat}
    (h : map.lookup k = some e) : (k, e) ∈ map := by
  obtain ⟨l₁, l₂, rfl, -⟩ := lookup_eq_some_iff.mp h
  exact mem_append_right _ (mem_cons_self ..)

variable {i j : Nat}

theorem mem_additions_of_lookup
    (h : T.linkMap.lookup (i, j) = some e) : ((i, j), e) ∈ T.additions := by
  rw [lookup_linkMap] at h
  exact mem_reverse.mp (mem_of_lookup h)

theorem linked_of_mem (h : ((i, j), e) ∈ T.additions) : T.Linked i j := by
  unfold Linked
  rw [lookup_linkMap]
  cases hlook : T.additions.reverse.lookup (i, j) with
  | some e => exact ⟨e, rfl⟩
  | none =>
    rw [lookup_eq_none_iff] at hlook
    have := hlook _ (mem_reverse.mpr h)
    simp at this

theorem mem_additions {x : (Nat × Nat) × LinkEntry} : x ∈ T.additions ↔
    (∃ l ∈ T.extLinks, x = ((l.extNode, T.router l.intNode), ⟨l.weight, l.latency, .Empty, .Empty⟩) ∨
      x = ((T.router l.intNode, T.exit l.extNode), ⟨l.weight, l.latency, .Empty, .Empty⟩)) ∨
    ∃ l ∈ T.intLinks, x = ((T.router l.srcNode, T.router l.dstNode),
      ⟨l.weight, l.latency, l.srcOutport, l.dstInport⟩) := by
  simp [additions, entry, eq_comm (b := x)]

theorem linked_lt (h : T.Linked i j) : i < T.numSwitches ∧ j < T.numSwitches := by
  obtain ⟨e, he⟩ := h
  have hmax : ∀ (l : LinkMap) (m : Nat), m ≤ l.foldl (fun m x => max (max m x.1.1) x.1.2) m ∧
      ∀ x ∈ l, x.1.1 ≤ l.foldl (fun m x => max (max m x.1.1) x.1.2) m ∧
        x.1.2 ≤ l.foldl (fun m x => max (max m x.1.1) x.1.2) m := by
    intro l
    induction l with
    | nil => exact fun m => ⟨le_refl m, fun _ h => nomatch h⟩
    | cons y l ih =>
      intro m
      obtain ⟨hle, hmem⟩ := ih (max (max m y.1.1) y.1.2)
      rw [foldl_cons]
      refine ⟨(le_max_of_le_left (le_max_left _ _)).trans hle, fun x hx => ?_⟩
      rcases mem_cons.mp hx with rfl | hx
      · exact ⟨(le_max_of_le_left (le_max_right _ _)).trans hle, (le_max_right _ _).trans hle⟩
      · exact hmem x hx
  obtain ⟨hi, hj⟩ := (hmax T.linkMap 0).2 _ (mem_of_lookup he)
  exact ⟨Nat.lt_succ_of_le hi, Nat.lt_succ_of_le hj⟩

variable {d : Nat}

theorem not_linked_exit (hd : d < T.nodes) : ¬ T.Linked (T.exit d) j := by
  rintro ⟨e, he⟩
  rcases mem_additions.mp (mem_additions_of_lookup he) with ⟨l, hl, h | h⟩ | ⟨l, hl, h⟩
  · have := (T.extLinks_lt l hl).1
    simp only [Prod.mk.injEq, exit] at h
    omega
  · simp only [Prod.mk.injEq, exit, router] at h
    omega
  · simp only [Prod.mk.injEq, exit, router] at h
    omega

variable {r : Nat}

theorem linked_router (h : T.Linked (T.router r) j) :
    (∃ d < T.nodes, j = T.exit d ∧ ∃ l ∈ T.extLinks, l.extNode = d ∧ l.intNode = r) ∨
      ∃ r', j = T.router r' := by
  obtain ⟨e, he⟩ := h
  rcases mem_additions.mp (mem_additions_of_lookup he) with ⟨l, hl, h | h⟩ | ⟨l, hl, h⟩
  · have := (T.extLinks_lt l hl).1
    simp only [Prod.mk.injEq, router] at h
    omega
  · simp only [Prod.mk.injEq, router, Nat.add_right_cancel_iff] at h
    exact .inl ⟨l.extNode, (T.extLinks_lt l hl).1, h.1.2, l, hl, rfl, h.1.1.symm⟩
  · simp only [Prod.mk.injEq] at h
    exact .inr ⟨l.dstNode, h.1.2⟩

variable (T) in
structure WeightsOk : Prop where
  ext : ∀ l ∈ T.extLinks, 1 ≤ l.weight ∧ l.weight < infiniteLatency
  int : ∀ l ∈ T.intLinks, 1 ≤ l.weight ∧ l.weight < infiniteLatency

variable (T) in
def Path (i j n : Nat) : Prop := Walk T.Linked T.weights i j n

theorem weights_not_linked (h : ¬ T.Linked i j) :
    T.weights i j = if i = j then 0 else infiniteLatency := by
  unfold weights
  cases hlook : T.linkMap.lookup (i, j) with
  | some e => exact absurd ⟨e, hlook⟩ h
  | none => rfl

theorem weights_linked (hw : T.WeightsOk) (h : T.Linked i j) :
    1 ≤ T.weights i j ∧ T.weights i j < infiniteLatency := by
  obtain ⟨e, he⟩ := h
  have hweight : T.weights i j = e.weight := by simp only [weights, he]
  rw [hweight]
  rcases mem_additions.mp (mem_additions_of_lookup he) with ⟨l, hl, h | h⟩ | ⟨l, hl, h⟩
  · rw [(Prod.mk.inj h).2]
    exact hw.ext l hl
  · rw [(Prod.mk.inj h).2]
    exact hw.ext l hl
  · rw [(Prod.mk.inj h).2]
    exact hw.int l hl

theorem weights_le (hw : T.WeightsOk) (i j : Nat) : T.weights i j ≤ infiniteLatency := by
  by_cases h : T.Linked i j
  · exact (weights_linked hw h).2.le
  · rw [weights_not_linked h]
    split_ifs
    · exact Nat.zero_le _
    · exact le_refl _

theorem dist_le_infinite (hw : T.WeightsOk) (i j : Nat) : T.dist i j ≤ infiniteLatency :=
  (shortestPath_le _ _ _ i j).trans (weights_le hw i j)

theorem walk_of_dist (h : T.dist i j < infiniteLatency) : T.Path i j (T.dist i j) := by
  revert h
  refine shortestPath_pointwise (Φ := fun i j x => x < infiniteLatency → T.Path i j x)
    (fun i k j x y hx hy hlt => ?_) T.latencies (fun i j hlt => ?_) i j
  · exact (hx (by omega)).append (hy (by omega))
  · by_cases hlinked : T.Linked i j
    · exact Walk.single hlinked
    · rw [weights_not_linked hlinked] at hlt ⊢
      split_ifs at hlt ⊢ with hij
      · subst hij
        exact .nil i
      · exact absurd hlt (lt_irrefl _)

theorem dist_exit_self (hd : d < T.nodes) : T.dist (T.exit d) (T.exit d) = 0 := by
  have hle : T.dist (T.exit d) (T.exit d) ≤ T.weights (T.exit d) (T.exit d) :=
    shortestPath_le _ _ _ _ _
  rw [weights_not_linked (not_linked_exit hd), if_pos rfl] at hle
  exact Nat.eq_zero_of_le_zero hle

theorem dist_le_link {k : Nat} (hlink : T.Linked i k) (hj : j < T.numSwitches) :
    T.dist i j ≤ T.weights i k + T.dist k j := by
  obtain ⟨hi, hk⟩ := linked_lt hlink
  calc T.dist i j ≤ T.dist i k + T.dist k j := shortestPath_triangle _ _ _ hi hj hk
    _ ≤ T.weights i k + T.dist k j := Nat.add_le_add_right (shortestPath_le _ _ _ i k) _

theorem dist_le_walk {n : Nat} (hd : d < T.nodes) (hlt : T.exit d < T.numSwitches)
    (h : T.Path i (T.exit d) n) : T.dist i (T.exit d) ≤ n := by
  have hle := h.potential_le (φ := fun i => T.dist i (T.exit d))
    fun i k hlink => dist_le_link hlink hlt
  rwa [dist_exit_self hd, Nat.add_zero] at hle

theorem exit_lt_of_linked (hd : d < T.nodes) (h : T.Linked (T.router r) j) :
    T.exit d < T.numSwitches := by
  have := (linked_lt h).1
  unfold exit
  unfold router at this
  omega

theorem exit_ne_router (d r : Nat) (hd : d < T.nodes) : T.router r ≠ T.exit d := by
  unfold exit router
  omega

theorem exists_link (hd : d < T.nodes) (h : T.dist (T.router r) (T.exit d) < infiniteLatency) :
    ∃ k, T.Linked (T.router r) k ∧
      T.weights (T.router r) k + T.dist k (T.exit d) = T.dist (T.router r) (T.exit d) := by
  obtain ⟨k, m, hlink, hrest, heq⟩ := (walk_of_dist h).exists_first (exit_ne_router d r hd)
  have hlt := exit_lt_of_linked hd hlink
  have hle := dist_le_walk hd hlt hrest
  have htri := dist_le_link hlink hlt
  exact ⟨k, hlink, by omega⟩

end NocSwap.Topology
