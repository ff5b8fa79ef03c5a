import NocSwap.Ruby.NetDest

/-!
# Sets of machines and sets of nodes
-/

namespace NocSwap.Ruby

open List

variable {M : Machines}

/-! ### Node ids -/

namespace Machines

theorem baseNumber_mono (M : Machines) {t u : Nat} (h : t ≤ u) :
    M.baseNumber t ≤ M.baseNumber u := by
  induction h with
  | refl => exact le_rfl
  | step _ ih => exact ih.trans (Nat.le_add_right _ _)

theorem baseNumber_le_nodeId (id : M.MachineID) : M.baseNumber id.1 ≤ M.nodeId id :=
  Nat.le_add_right _ _

theorem nodeId_lt (id : M.MachineID) : M.nodeId id < M.baseNumber (id.1 + 1) :=
  Nat.add_lt_add_left id.2.isLt _

theorem nodeId_lt_nodeId {a b : M.MachineID} (h : a.1 < b.1) : M.nodeId a < M.nodeId b :=
  (nodeId_lt a).trans_le ((M.baseNumber_mono (Nat.succ_le_of_lt h)).trans (baseNumber_le_nodeId b))

theorem nodeId_injective (M : Machines) : Function.Injective M.nodeId := by
  rintro ⟨t, i⟩ ⟨u, j⟩ h
  rcases lt_trichotomy t u with hlt | rfl | hlt
  · exact absurd h (nodeId_lt_nodeId (a := ⟨t, i⟩) (b := ⟨u, j⟩) hlt).ne
  · have hij : i = j := by
      apply Fin.ext
      have : M.baseNumber t + i = M.baseNumber t + j := h
      omega
    rw [hij]
  · exact absurd h (nodeId_lt_nodeId (a := ⟨u, j⟩) (b := ⟨t, i⟩) hlt).ne'

theorem nodeId_of_findMachine {n : Nat} {id : M.MachineID} (h : M.findMachine n = some id) :
    M.nodeId id = n := by
  obtain ⟨m, -, hm⟩ := exists_of_findSome?_eq_some h
  split_ifs at hm with hin
  obtain rfl := Option.some.inj hm
  show M.baseNumber m + (n - M.baseNumber m) = n
  omega

theorem findMachine_nodeId (id : M.MachineID) : M.findMachine (M.nodeId id) = some id := by
  cases hf : M.findMachine (M.nodeId id) with
  | some id' => rw [M.nodeId_injective (nodeId_of_findMachine hf)]
  | none =>
    have hnone := findSome?_eq_none_iff.mp hf id.1 (mem_finRange _)
    rw [dif_pos ⟨baseNumber_le_nodeId id, nodeId_lt id⟩] at hnone
    cases hnone

end Machines

namespace NetDest

variable {d e : NetDest M} {id id' : M.MachineID}

theorem ext_isElement (h : ∀ id, d.isElement id = e.isElement id) : d = e := by
  ext t j
  exact h ⟨t, j⟩

@[simp] theorem isElement_clear : (clear M).isElement id = false := rfl

@[simp] theorem isElement_add : (d.add id).isElement id' = (decide (id' = id) || d.isElement id') := by
  show (if id' = id then true else d.isElement id') = _
  by_cases h : id' = id <;> simp [h]

@[simp] theorem isElement_removeNetDest :
    (d.removeNetDest e).isElement id = (d.isElement id && !e.isElement id) := rfl

@[simp] theorem isElement_AND : (d.AND e).isElement id = (d.isElement id && e.isElement id) := rfl

theorem mem_getAllDest {n : Nat} :
    n ∈ d.getAllDest ↔ ∃ id, d.isElement id = true ∧ M.nodeId id = n := by
  simp only [getAllDest, mem_flatMap, mem_finRange, true_and, mem_map, mem_filter]
  constructor
  · rintro ⟨t, j, hj, rfl⟩
    exact ⟨⟨t, j⟩, hj, rfl⟩
  · rintro ⟨⟨t, j⟩, hj, rfl⟩
    exact ⟨t, j, hj, rfl⟩

theorem nodeId_mem_getAllDest : M.nodeId id ∈ d.getAllDest ↔ d.isElement id = true := by
  rw [mem_getAllDest]
  constructor
  · rintro ⟨id', hid', heq⟩
    rwa [← M.nodeId_injective heq]
  · exact fun h => ⟨id, h, rfl⟩

theorem getAllDest_sorted (d : NetDest M) : d.getAllDest.Pairwise (· < ·) := by
  rw [getAllDest, pairwise_flatMap]
  constructor
  · intro t _
    rw [pairwise_map]
    exact ((pairwise_lt_finRange _).filter _).imp fun h => Nat.add_lt_add_left h _
  · refine (pairwise_lt_finRange _).imp fun {t u} htu a ha b hb => ?_
    obtain ⟨i, -, rfl⟩ := mem_map.mp ha
    obtain ⟨j, -, rfl⟩ := mem_map.mp hb
    exact Machines.nodeId_lt_nodeId (a := ⟨t, i⟩) (b := ⟨u, j⟩) htu

def toNodes (d : NetDest M) : NocSwap.NetDest := ⟨d.getAllDest, d.getAllDest_sorted⟩

theorem toNodes_eq {a : NocSwap.NetDest} (hsub : ∀ n ∈ a.nodes, ∃ id, M.nodeId id = n)
    (h : ∀ id, M.nodeId id ∈ a.nodes ↔ d.isElement id = true) : d.toNodes = a := by
  have hnodes : d.getAllDest = a.nodes := d.getAllDest_sorted.eq_of_mem_iff a.sorted fun n => by
    rw [mem_getAllDest]
    constructor
    · rintro ⟨id, hid, rfl⟩
      exact (h id).mpr hid
    · intro hn
      obtain ⟨id, rfl⟩ := hsub n hn
      exact ⟨id, (h id).mp hn, rfl⟩
  cases a
  cases hnodes
  rfl

theorem exists_of_mem_filter {p : Nat → Bool} {n : Nat} (h : n ∈ d.getAllDest.filter p) :
    ∃ id, M.nodeId id = n :=
  (mem_getAllDest.mp (mem_filter.mp h).1).imp fun _ h => h.2

theorem toNodes_removeNetDest (d e : NetDest M) :
    (d.removeNetDest e).toNodes = d.toNodes.removeNetDest e.toNodes :=
  toNodes_eq (fun _ => exists_of_mem_filter) fun id => by
    simp [NocSwap.NetDest.removeNetDest, toNodes, nodeId_mem_getAllDest]

theorem toNodes_add_clear (id : M.MachineID) :
    ((clear M).add id).toNodes = NocSwap.NetDest.singleton (M.nodeId id) :=
  toNodes_eq (fun _ h => ⟨id, (mem_singleton.mp h).symm⟩) fun id' => by
    simp [NocSwap.NetDest.singleton, M.nodeId_injective.eq_iff]

/-- **The bit sets stand for sets of nodes**: what the functions of `NetDest` compute from the bits
is what they compute from the sorted lists of node ids. -/
theorem toNodes_operations (d e : NetDest M) :
    (d.removeNetDest e).toNodes = d.toNodes.removeNetDest e.toNodes ∧
    (d.AND e).toNodes = d.toNodes.AND e.toNodes ∧
    d.intersectionIsNotEmpty e = d.toNodes.intersectionIsNotEmpty e.toNodes ∧
    d.count = d.toNodes.count := by
  refine ⟨toNodes_removeNetDest d e, toNodes_eq (fun _ => exists_of_mem_filter) fun id => ?_, ?_, ?_⟩
  · simp [NocSwap.NetDest.AND, toNodes, nodeId_mem_getAllDest]
  · rw [Bool.eq_iff_iff]
    simp only [intersectionIsNotEmpty, NocSwap.NetDest.intersectionIsNotEmpty, toNodes, any_eq_true,
      decide_eq_true_eq, mem_getAllDest (d := d), exists_exists_and_eq_and, nodeId_mem_getAllDest]
    simp [isElement]
  · simp [NocSwap.NetDest.count, toNodes, getAllDest, count]

theorem eq_add_clear_of_getAllDest {n : Nat} (h : d.getAllDest = [n]) :
    ∃ id, M.nodeId id = n ∧ d = (clear M).add id := by
  have hmem : n ∈ d.getAllDest := by
    rw [h]
    exact mem_singleton_self n
  obtain ⟨id, hid, rfl⟩ := mem_getAllDest.mp hmem
  refine ⟨id, rfl, ext_isElement fun id' => ?_⟩
  simp only [isElement_add, isElement_clear, Bool.or_false]
  rw [Bool.eq_iff_iff, decide_eq_true_eq, ← nodeId_mem_getAllDest, h, mem_singleton]
  exact ⟨fun heq => M.nodeId_injective heq, fun heq => heq ▸ rfl⟩

end NetDest

end NocSwap.Ruby
