import NocSwap.Garnet.RoutingUnit

/-!
# Lookups in a routing table
-/

namespace NocSwap

open List

variable (table : List (List Nat × Nat)) (dest : NetDest)

def Reaches (e : List Nat × Nat) : Prop := ∃ d ∈ dest.nodes, d ∈ e.1

def minWeight : Nat :=
  table.foldl (fun w e => if (dest.nodes.any fun d => d ∈ e.1) && decide (e.2 ≤ w) then e.2 else w)
    infinite

def candidates : List Nat :=
  (table.zipIdx.filter fun e => (dest.nodes.any fun d => d ∈ e.1.1) &&
    decide (e.1.2 = minWeight table dest)).map fun e => e.2

theorem lookupRoutingTable_eq (ordered : Bool) (rnd : Nat) :
    lookupRoutingTable table ordered dest rnd = orFail .noRoute
      (candidates table dest)[if ordered then 0 else rnd % (candidates table dest).length]? :=
  rfl

variable {table dest}

theorem reaches_iff {e : List Nat × Nat} :
    (dest.nodes.any fun d => d ∈ e.1) = true ↔ Reaches dest e := by
  simp [Reaches]

theorem minWeight_spec : minWeight table dest ≤ infinite ∧
    (∀ e ∈ table, Reaches dest e → minWeight table dest ≤ e.2) ∧
    (minWeight table dest = infinite ∨
      ∃ e ∈ table, Reaches dest e ∧ e.2 = minWeight table dest) := by
  have hloop : ∀ (l : List (List Nat × Nat)) (w : Nat),
      let m := l.foldl (fun w e =>
        if (dest.nodes.any fun d => d ∈ e.1) && decide (e.2 ≤ w) then e.2 else w) w
      m ≤ w ∧ (∀ e ∈ l, Reaches dest e → m ≤ e.2) ∧
        (m = w ∨ ∃ e ∈ l, Reaches dest e ∧ e.2 = m) := by
    intro l
    induction l with
    | nil => exact fun w => ⟨le_refl w, (fun _ h => nomatch h), .inl rfl⟩
    | cons e l ih =>
      intro w
      rw [foldl_cons]
      by_cases he : Reaches dest e ∧ e.2 ≤ w
      · rw [if_pos (by rw [Bool.and_eq_true, reaches_iff, decide_eq_true_eq]; exact he)]
        obtain ⟨hle, hmem, hcase⟩ := ih e.2
        refine ⟨hle.trans he.2, fun e' he' hreach => ?_, .inr ?_⟩
        · rcases mem_cons.mp he' with rfl | he'
          · exact hle
          · exact hmem e' he' hreach
        · rcases hcase with hcase | ⟨e', he', hreach, heq⟩
          · exact ⟨e, mem_cons_self .., he.1, hcase.symm⟩
          · exact ⟨e', mem_cons_of_mem _ he', hreach, heq⟩
      · rw [if_neg (by rw [Bool.and_eq_true, reaches_iff, decide_eq_true_eq]; exact he)]
        obtain ⟨hle, hmem, hcase⟩ := ih w
        refine ⟨hle, fun e' he' hreach => ?_, hcase.imp id fun ⟨e', he', h⟩ =>
          ⟨e', mem_cons_of_mem _ he', h⟩⟩
        rcases mem_cons.mp he' with rfl | he'
        · exact hle.trans (not_le.mp fun h => he ⟨hreach, h⟩).le
        · exact hmem e' he' hreach
  exact hloop table infinite

theorem mem_candidates {i : Nat} : i ∈ candidates table dest ↔
    ∃ e, table[i]? = some e ∧ Reaches dest e ∧ e.2 ≤ infinite ∧
      ∀ e' ∈ table, Reaches dest e' → e.2 ≤ e'.2 := by
  obtain ⟨hinf, hmin, hcase⟩ := @minWeight_spec table dest
  simp only [candidates, mem_map, mem_filter, Bool.and_eq_true, decide_eq_true_eq]
  constructor
  · rintro ⟨⟨e, j⟩, ⟨hmem, hreach, heq⟩, rfl⟩
    rw [← heq] at hinf hmin
    exact ⟨e, mem_zipIdx_iff_getElem?.mp hmem, reaches_iff.mp hreach, hinf, hmin⟩
  · rintro ⟨e, hi, hreach, hle, hleast⟩
    refine ⟨(e, i), ⟨mem_zipIdx_iff_getElem?.mpr hi, reaches_iff.mpr hreach, ?_⟩, rfl⟩
    apply le_antisymm
    · rcases hcase with hcase | ⟨e', he', hreach', heq⟩
      · exact hle.trans_eq hcase.symm
      · exact (hleast e' he' hreach').trans_eq heq
    · exact hmin _ (mem_of_getElem? hi) hreach

theorem candidates_sorted : (candidates table dest).Pairwise (· < ·) := by
  have hidx : (table.zipIdx.map fun e => e.2).Pairwise (· < ·) := by
    rw [zipIdx_map_snd]
    exact pairwise_lt_range'
  exact hidx.sublist (filter_sublist.map _)

theorem eq_singleton_of_forall_eq {l : List Nat} {i : Nat} (hl : l.Pairwise (· < ·)) (hi : i ∈ l)
    (h : ∀ j ∈ l, j = i) : l = [i] := by
  cases l with
  | nil => cases hi
  | cons a l =>
    obtain rfl := h a (mem_cons_self ..)
    cases l with
    | nil => rfl
    | cons b l =>
      have hb := h b (mem_cons_of_mem _ (mem_cons_self ..))
      exact absurd (rel_of_pairwise_cons hl (mem_cons_self ..)) (by omega)

theorem mem_candidates_of_lookup {ordered : Bool} {rnd i : Nat}
    (h : lookupRoutingTable table ordered dest rnd = .ok i) : i ∈ candidates table dest := by
  rw [lookupRoutingTable_eq] at h
  generalize (if ordered then 0 else rnd % (candidates table dest).length) = k at h
  cases hk : (candidates table dest)[k]? with
  | none => rw [hk] at h; cases h
  | some j =>
    rw [hk] at h
    obtain rfl : j = i := Except.ok.inj h
    exact mem_of_getElem? hk

theorem exists_lookup {j : Nat} (hj : j ∈ candidates table dest) (ordered : Bool) (rnd : Nat) :
    ∃ i, lookupRoutingTable table ordered dest rnd = .ok i := by
  have hpos := length_pos_of_mem hj
  have hlt : (if ordered then 0 else rnd % (candidates table dest).length) <
      (candidates table dest).length := by
    split_ifs
    · exact hpos
    · exact Nat.mod_lt _ hpos
  rw [lookupRoutingTable_eq, getElem?_eq_getElem hlt]
  exact ⟨_, rfl⟩

theorem exists_lookup_eq {i : Nat} (hi : i ∈ candidates table dest) :
    ∃ rnd, lookupRoutingTable table false dest rnd = .ok i := by
  obtain ⟨k, hk, rfl⟩ := mem_iff_getElem.mp hi
  refine ⟨k, ?_⟩
  rw [lookupRoutingTable_eq, if_neg (by decide), Nat.mod_eq_of_lt hk, getElem?_eq_getElem hk]
  rfl

theorem lookup_ordered_le {rnd i j : Nat} (h : lookupRoutingTable table true dest rnd = .ok i)
    (hj : j ∈ candidates table dest) : i ≤ j := by
  rw [lookupRoutingTable_eq, if_pos rfl] at h
  have hsorted := @candidates_sorted table dest
  cases hc : candidates table dest with
  | nil => rw [hc] at hj; cases hj
  | cons a l =>
    rw [hc] at h hj hsorted
    obtain rfl : a = i := Except.ok.inj h
    rcases mem_cons.mp hj with rfl | hj
    · exact le_refl _
    · exact (rel_of_pairwise_cons hsorted hj).le

end NocSwap
