import Mathlib.Data.Finset.Card
import NocSwap.Garnet.Correct.Ports
import NocSwap.Garnet.Correct.Tables
import NocSwap.Garnet.MeshTopology

/-!
# The links and distances of a mesh
-/

namespace NocSwap

open List Nat

namespace MeshScript

variable (M : MeshScript)

/-! ### Links -/

def Hop (cols a b : Nat) : PortDirection → Prop
  | .East => b % cols = a % cols + 1 ∧ b / cols = a / cols
  | .West => b % cols + 1 = a % cols ∧ b / cols = a / cols
  | .North => b % cols = a % cols ∧ b / cols = a / cols + 1
  | .South => b % cols = a % cols ∧ b / cols + 1 = a / cols
  | _ => False

def weight : PortDirection → Nat
  | .East => M.eastWeight
  | .West => M.westWeight
  | .North => M.northWeight
  | .South => M.southWeight
  | _ => 0

variable {cols : Nat}

theorem mod_coords {row col : Nat} (h : col < cols) : (col + row * cols) % cols = col := by
  rw [add_mul_mod_self_right, mod_eq_of_lt h]

theorem div_coords {row col : Nat} (h : col < cols) : (col + row * cols) / cols = row := by
  rw [add_mul_div_right _ _ (zero_lt_of_lt h), div_eq_of_lt h, Nat.zero_add]

theorem eq_coords (cols a : Nat) : a % cols + a / cols * cols = a := by
  rw [Nat.mul_comm]
  exact mod_add_div a cols

variable {a b : Nat}

theorem eq_of_coords (hc : a % cols = b % cols) (hr : a / cols = b / cols) : a = b := by
  rw [← eq_coords cols a, ← eq_coords cols b, hc, hr]

variable {d : PortDirection}

theorem Hop.unique {d' : PortDirection} (h : Hop cols a b d) (h' : Hop cols a b d') : d = d' := by
  cases d <;> cases d' <;> simp only [Hop] at h h' <;> first | rfl | omega

variable {rows : Nat}

theorem hop_of_mem_intLinks {latency : Nat} {l : IntLink} (hl : l ∈ M.intLinks rows cols latency) :
    ∃ d, Hop cols l.srcNode l.dstNode d ∧ l.srcNode < rows * cols ∧ l.dstNode < rows * cols ∧
      l = ⟨l.srcNode, l.dstNode, M.portName d, M.portName (getDownstreamDirn d), M.weight d,
        latency⟩ := by
  obtain ⟨hsrc, hdst⟩ := M.intLinks_lt _ _ _ l hl
  simp only [intLinks, eastLinks, westLinks, northLinks, southLinks, mem_append, mem_flatMap,
    mem_filterMap, mem_range, Option.ite_none_right_eq_some, Option.some.injEq] at hl
  rcases hl with ((⟨row, hr, col, hc, hlt, rfl⟩ | ⟨row, hr, col, hc, hlt, rfl⟩) |
    ⟨col, hc, row, hr, hlt, rfl⟩) | ⟨col, hc, row, hr, hlt, rfl⟩
  · refine ⟨.East, ?_, hsrc, hdst, rfl⟩
    simp [Hop, mod_coords hc, mod_coords hlt, div_coords hc, div_coords hlt]
  · refine ⟨.West, ?_, hsrc, hdst, rfl⟩
    simp [Hop, mod_coords hc, mod_coords hlt, div_coords hc, div_coords hlt]
  · refine ⟨.North, ?_, hsrc, hdst, rfl⟩
    simp [Hop, mod_coords hc, div_coords hc]
  · refine ⟨.South, ?_, hsrc, hdst, rfl⟩
    simp [Hop, mod_coords hc, div_coords hc]

theorem mem_intLinks_of_hop (latency : Nat)
    (hhop : Hop cols a b d) (hsrc : a < rows * cols) (hdst : b < rows * cols) :
    ⟨a, b, M.portName d, M.portName (getDownstreamDirn d), M.weight d, latency⟩ ∈
      M.intLinks rows cols latency := by
  have hcols : 0 < cols := Nat.pos_of_ne_zero fun h => by
    rw [h, Nat.mul_zero] at hsrc
    exact Nat.not_lt_zero _ hsrc
  have hrow : ∀ {a : Nat}, a < rows * cols → a / cols < rows := fun ha =>
    (Nat.div_lt_iff_lt_mul hcols).mpr ha
  have hcol : ∀ a : Nat, a % cols < cols := fun a => mod_lt a hcols
  simp only [intLinks, eastLinks, westLinks, northLinks, southLinks, mem_append,
    mem_flatMap, mem_filterMap, mem_range, Option.ite_none_right_eq_some,
    Option.some.injEq, IntLink.mk.injEq, and_true]
  -- the loop variables are the coordinates of one of the ends
  cases d with
  | East =>
    have := hcol b
    refine .inl (.inl (.inl ⟨a / cols, hrow hsrc, a % cols, hcol _, ?_, ?_, ?_, rfl, rfl, rfl⟩))
    · have := hhop.1; omega
    · exact eq_coords cols _
    · rw [← hhop.1, ← hhop.2]
      exact eq_coords cols _
  | West =>
    have := hcol a
    refine .inl (.inl (.inr ⟨b / cols, hrow hdst, b % cols, hcol _, ?_, ?_, ?_, rfl, rfl, rfl⟩))
    · have := hhop.1; omega
    · rw [hhop.1, hhop.2]
      exact eq_coords cols _
    · exact eq_coords cols _
  | North =>
    have := hrow hdst
    refine .inl (.inr ⟨a % cols, hcol _, a / cols, hrow hsrc, ?_, ?_, ?_, rfl, rfl, rfl⟩)
    · have := hhop.2; omega
    · exact eq_coords cols _
    · rw [← hhop.1, ← hhop.2]
      exact eq_coords cols _
  | South =>
    have := hrow hsrc
    refine .inr ⟨b % cols, hcol _, b / cols, hrow hdst, ?_, ?_, ?_, rfl, rfl, rfl⟩
    · have := hhop.2; omega
    · rw [hhop.1, hhop.2]
      exact eq_coords cols _
    · exact eq_coords cols _
  | Local | Unknown | Empty => exact hhop.elim

theorem mem_intLinks {latency : Nat} {l : IntLink} : l ∈ M.intLinks rows cols latency ↔
      ∃ d, Hop cols l.srcNode l.dstNode d ∧ l.srcNode < rows * cols ∧ l.dstNode < rows * cols ∧
        l = ⟨l.srcNode, l.dstNode, M.portName d, M.portName (getDownstreamDirn d), M.weight d,
          latency⟩ := by
  refine ⟨M.hop_of_mem_intLinks, fun ⟨d, hhop, hsrc, hdst, heq⟩ => ?_⟩
  rw [heq]
  exact M.mem_intLinks_of_hop latency hhop hsrc hdst

/-- The weight of the steps from `y` to `x` on a line, `up` or `down` for each. -/
def lineDist (up down y x : Nat) : Nat := up * (x - y) + down * (y - x)

theorem lineDist_below {y x : Nat} (up down : Nat) (h : y < x) :
    lineDist up down y x = up + lineDist up down (y + 1) x := by
  obtain ⟨k, rfl⟩ := Nat.exists_eq_add_of_lt h
  unfold lineDist
  rw [show y + k + 1 - y = k + 1 by omega, show y + k + 1 - (y + 1) = k by omega,
    show y - (y + k + 1) = 0 by omega, show y + 1 - (y + k + 1) = 0 by omega, mul_succ]
  omega

theorem lineDist_above {y x : Nat} (up down : Nat) (h : x ≤ y) :
    lineDist up down (y + 1) x = down + lineDist up down y x := by
  obtain ⟨k, rfl⟩ := Nat.exists_eq_add_of_le h
  unfold lineDist
  rw [show x - (x + k) = 0 by omega, show x - (x + k + 1) = 0 by omega,
    show x + k - x = k by omega, show x + k + 1 - x = k + 1 by omega, mul_succ]
  omega

theorem lineDist_up {up : Nat} (hpos : 0 < up) (down y x : Nat) :
    lineDist up down y x ≤ up + lineDist up down (y + 1) x ∧
      (lineDist up down y x = up + lineDist up down (y + 1) x ↔ y < x) := by
  rcases Nat.lt_or_ge y x with h | h
  · have hstep := lineDist_below up down h
    omega
  · have hstep := lineDist_above up down h
    omega

theorem lineDist_down {down : Nat} (hpos : 0 < down) (up y x : Nat) :
    lineDist up down (y + 1) x ≤ down + lineDist up down y x ∧
      (lineDist up down (y + 1) x = down + lineDist up down y x ↔ x < y + 1) := by
  rcases Nat.lt_or_ge y x with h | h
  · have hstep := lineDist_below up down h
    omega
  · have hstep := lineDist_above up down h
    omega

def meshDist (cols a t : Nat) : Nat :=
  lineDist M.eastWeight M.westWeight (a % cols) (t % cols) +
    lineDist M.northWeight M.southWeight (a / cols) (t / cols)

def Nearer (cols a t : Nat) : PortDirection → Prop
  | .East => a % cols < t % cols
  | .West => t % cols < a % cols
  | .North => a / cols < t / cols
  | .South => t / cols < a / cols
  | _ => False

structure Weighted : Prop where
  east : 1 ≤ M.eastWeight ∧ M.eastWeight < Topology.infiniteLatency
  west : 1 ≤ M.westWeight ∧ M.westWeight < Topology.infiniteLatency
  north : 1 ≤ M.northWeight ∧ M.northWeight < Topology.infiniteLatency
  south : 1 ≤ M.southWeight ∧ M.southWeight < Topology.infiniteLatency

theorem weighted_meshXY : meshXY.Weighted := by
  constructor <;> decide

theorem weighted_meshWestfirst : meshWestfirst.Weighted := by
  constructor <;> decide

variable {M}

variable {t : Nat}

theorem meshDist_hop (hM : M.Weighted) (h : Hop cols a b d) :
    M.meshDist cols a t ≤ M.weight d + M.meshDist cols b t ∧
      (M.meshDist cols a t = M.weight d + M.meshDist cols b t ↔ Nearer cols a t d) := by
  unfold meshDist
  cases d with
  | East =>
    obtain ⟨hle, hiff⟩ := lineDist_up hM.east.1 M.westWeight (a % cols) (t % cols)
    simp only [Hop] at h
    rw [h.1, h.2, weight, Nearer, ← hiff]
    omega
  | West =>
    obtain ⟨hle, hiff⟩ := lineDist_down hM.west.1 M.eastWeight (b % cols) (t % cols)
    simp only [Hop] at h
    rw [Nearer, ← h.1, h.2, weight, ← hiff]
    omega
  | North =>
    obtain ⟨hle, hiff⟩ := lineDist_up hM.north.1 M.southWeight (a / cols) (t / cols)
    simp only [Hop] at h
    rw [h.1, h.2, weight, Nearer, ← hiff]
    omega
  | South =>
    obtain ⟨hle, hiff⟩ := lineDist_down hM.south.1 M.northWeight (b / cols) (t / cols)
    simp only [Hop] at h
    rw [Nearer, h.1, ← h.2, weight, ← hiff]
    omega
  | Local | Unknown | Empty => exact h.elim

theorem meshDist_self (M : MeshScript) (cols t : Nat) : M.meshDist cols t t = 0 := by
  simp [meshDist, lineDist]

theorem exists_nearer (cols : Nat) (hne : a ≠ t) : ∃ d, Nearer cols a t d := by
  rcases Nat.lt_trichotomy (a % cols) (t % cols) with hc | hc | hc
  · exact ⟨.East, hc⟩
  · rcases Nat.lt_trichotomy (a / cols) (t / cols) with hr | hr | hr
    · exact ⟨.North, hr⟩
    · exact absurd (eq_of_coords hc hr) hne
    · exact ⟨.South, hr⟩
  · exact ⟨.West, hc⟩

theorem exists_hop (ha : a < rows * cols)
    (ht : t < rows * cols) (h : Nearer cols a t d) : ∃ b < rows * cols, Hop cols a b d := by
  have hcols : 0 < cols := Nat.pos_of_ne_zero fun h => by
    rw [h, Nat.mul_zero] at ha
    exact Nat.not_lt_zero _ ha
  have hrow : ∀ {a : Nat}, a < rows * cols → a / cols < rows := fun ha =>
    (Nat.div_lt_iff_lt_mul hcols).mpr ha
  have hcol : ∀ a : Nat, a % cols < cols := fun a => mod_lt a hcols
  -- a router of the mesh by its coordinates
  have hmk : ∀ {row col : Nat}, row < rows → col < cols →
      ∃ b < rows * cols, b % cols = col ∧ b / cols = row := fun hr hc =>
    ⟨_, coords_lt hr hc, mod_coords hc, div_coords hc⟩
  have hat := hcol t
  have hrt := hrow ht
  cases d with
  | East =>
    obtain ⟨b, hb, hbc, hbr⟩ := hmk (hrow ha) (show a % cols + 1 < cols by
      simp only [Nearer] at h; omega)
    exact ⟨b, hb, hbc, hbr⟩
  | West =>
    obtain ⟨b, hb, hbc, hbr⟩ := hmk (hrow ha) ((sub_le _ 1).trans_lt (hcol a))
    refine ⟨b, hb, ?_, hbr⟩
    rw [hbc, Nat.sub_add_cancel (zero_lt_of_lt h)]
  | North =>
    obtain ⟨b, hb, hbc, hbr⟩ := hmk (show a / cols + 1 < rows by
      simp only [Nearer] at h; omega) (hcol a)
    exact ⟨b, hb, hbc, hbr⟩
  | South =>
    obtain ⟨b, hb, hbc, hbr⟩ := hmk ((sub_le _ 1).trans_lt (hrow ha)) (hcol a)
    refine ⟨b, hb, hbc, ?_⟩
    rw [hbr, Nat.sub_add_cancel (zero_lt_of_lt h)]
  | Local | Unknown | Empty => exact h.elim

end MeshScript

namespace Topology

open MeshScript

variable {M : MeshScript} {rows cols : Nat} {T : Topology}

def Attached (T : Topology) (d t : Nat) : Prop := ∃ l ∈ T.extLinks, l.extNode = d ∧ l.intNode = t

structure IsMesh (M : MeshScript) (rows cols : Nat) (T : Topology) : Prop where
  numRouters : T.numRouters = rows * cols
  int : ∃ latency, T.intLinks = M.intLinks rows cols latency
  ext_weight : ∀ l ∈ T.extLinks, l.weight = 1
  attached : ∀ d < T.nodes, ∃ t, T.Attached d t
  attached_unique : ∀ d t t', T.Attached d t → T.Attached d t' → t = t'

variable {d : Nat}

theorem mem_of_nodup_lt {l : List Nat} (hl : l.Nodup) (hlt : ∀ x ∈ l, x < l.length)
    (hd : d < l.length) : d ∈ l := by
  have hsub : l.toFinset ⊆ Finset.range l.length := fun x hx =>
    Finset.mem_range.mpr (hlt x (mem_toFinset.mp hx))
  have heq : l.toFinset = Finset.range l.length := Finset.eq_of_subset_of_card_le hsub
    (by rw [Finset.card_range, toFinset_card_of_nodup hl])
  rw [← mem_toFinset, heq]
  exact Finset.mem_range.mpr hd

variable {t : Nat}

theorem exists_extLink {latency numRouters : Nat} {controllers : List Controller} :
    (∃ l ∈ MeshScript.extLinks latency controllers numRouters, l.extNode = d ∧ l.intNode = t) ↔
      ∃ c i, controllers[i]? = some c ∧ c.index = d ∧
        attachedTo controllers.length numRouters i = t := by
  simp only [MeshScript.extLinks, mem_map]
  constructor
  · rintro ⟨_, ⟨⟨c, i⟩, hc, rfl⟩, hd, ht⟩
    exact ⟨c, i, mem_zipIdx_iff_getElem?.mp hc, hd, ht⟩
  · rintro ⟨c, i, hc, hd, ht⟩
    exact ⟨_, ⟨(c, i), mem_zipIdx_iff_getElem?.mpr hc, rfl⟩, hd, ht⟩

theorem isMesh_of_makeTopology {numRows latency numRouters : Nat} {controllers : Controllers}
    (h : M.makeTopology numRows latency controllers numRouters = some T) :
    IsMesh M numRows (numRouters / numRows) T := by
  simp only [makeTopology] at h
  split_ifs at h with hasserts
  rw [← Option.some.inj h]
  constructor
  · rw [Nat.mul_comm]
    exact hasserts.2.2.symm
  · exact ⟨latency, rfl⟩
  · intro l hl
    obtain ⟨c, -, rfl⟩ := mem_map.mp hl
    rfl
  · intro d hd
    have hmem : d ∈ controllers.toList.map Controller.index := by
      apply mem_of_nodup_lt controllers.nodup
      · intro x hx
        obtain ⟨c, hc, rfl⟩ := mem_map.mp hx
        rw [length_map]
        exact controllers.index_lt c hc
      · rw [length_map]
        exact hd
    obtain ⟨c, hc, rfl⟩ := mem_map.mp hmem
    obtain ⟨i, hi⟩ := mem_iff_getElem?.mp hc
    exact ⟨_, exists_extLink.mpr ⟨c, i, hi, rfl, rfl⟩⟩
  · intro d t t' ht ht'
    obtain ⟨c, i, hi, hc, rfl⟩ := exists_extLink.mp ht
    obtain ⟨c', j, hj, hc', rfl⟩ := exists_extLink.mp ht'
    -- the indices differ, so the two controllers are the same
    have hidx : ∀ {k : Nat} {c : Controller}, controllers.toList[k]? = some c → c.index = d →
        (controllers.toList.map Controller.index)[k]? = some d := fun hk hd => by
      rw [List.getElem?_map, hk, Option.map_some, hd]
    obtain ⟨hi', heq⟩ := List.getElem?_eq_some_iff.mp (hidx hi hc)
    obtain ⟨hj', heq'⟩ := List.getElem?_eq_some_iff.mp (hidx hj hc')
    obtain rfl := controllers.nodup.getElem_inj_iff.mp (heq.trans heq'.symm)
    rfl

variable (hT : IsMesh M rows cols T) (hM : M.Weighted)

include hT

theorem IsMesh.attached_lt (h : T.Attached d t) : d < T.nodes ∧ t < rows * cols := by
  obtain ⟨l, hl, rfl, rfl⟩ := h
  rw [← hT.numRouters]
  exact T.extLinks_lt l hl

variable {a : Nat}

/-- **The links of a router**: to the exits of its nodes, with weight `1`, and to its neighbours. -/
theorem IsMesh.link_cases {j : Nat} {e : LinkEntry}
    (h : T.linkMap.lookup (T.router a, j) = some e) :
    (∃ d, T.Attached d a ∧ j = T.exit d ∧ e.weight = 1) ∨
      ∃ b d, Hop cols a b d ∧ a < rows * cols ∧ b < rows * cols ∧ j = T.router b ∧
        e.weight = M.weight d ∧ e.srcOutportDirn = M.portName d := by
  rcases mem_additions.mp (mem_additions_of_lookup h) with ⟨l, hl, h | h⟩ | ⟨l, hl, h⟩
  · have := (T.extLinks_lt l hl).1
    simp only [Prod.mk.injEq, router] at h
    omega
  · simp only [Prod.mk.injEq, router, Nat.add_right_cancel_iff] at h
    refine .inl ⟨l.extNode, ⟨l, hl, rfl, h.1.1.symm⟩, h.1.2, ?_⟩
    rw [h.2]
    exact hT.ext_weight l hl
  · obtain ⟨latency, hint⟩ := hT.int
    rw [hint] at hl
    obtain ⟨d, hhop, hsrc, hdst, heq⟩ := (M.mem_intLinks).mp hl
    simp only [Prod.mk.injEq, router, Nat.add_right_cancel_iff] at h
    refine .inr ⟨l.dstNode, d, ?_, ?_, hdst, h.1.2, ?_, ?_⟩
    · rwa [h.1.1]
    · rwa [h.1.1]
    · rw [h.2, heq]
    · rw [h.2, heq]

theorem IsMesh.linked_hop {b : Nat} {d : PortDirection} (ha : a < rows * cols)
    (hb : b < rows * cols) (h : Hop cols a b d) : T.Linked (T.router a) (T.router b) := by
  obtain ⟨latency, hint⟩ := hT.int
  apply linked_of_mem
  exact mem_additions.mpr (.inr ⟨⟨a, b, _, _, _, latency⟩,
    hint ▸ (M.mem_intLinks).mpr ⟨d, h, ha, hb, rfl⟩, rfl⟩)

omit hT in
theorem linked_attached (h : T.Attached d t) : T.Linked (T.router t) (T.exit d) := by
  obtain ⟨l, hl, rfl, rfl⟩ := h
  exact linked_of_mem (mem_additions.mpr (.inl ⟨l, hl, .inr rfl⟩))

theorem IsMesh.weights_hop {b : Nat} {d : PortDirection} (ha : a < rows * cols)
    (hb : b < rows * cols) (h : Hop cols a b d) :
    T.weights (T.router a) (T.router b) = M.weight d ∧
      T.outportDirn (T.router a) (T.router b) = M.portName d := by
  obtain ⟨e, he⟩ := hT.linked_hop ha hb h
  rcases hT.link_cases he with ⟨d', hd', heq, -⟩ | ⟨b', d', hhop, -, -, heq, hweight, hname⟩
  · exact absurd heq (exit_ne_router d' b (hT.attached_lt hd').1)
  · obtain rfl : b = b' := Nat.add_right_cancel heq
    obtain rfl := h.unique hhop
    refine ⟨by simp only [weights, he, hweight], ?_⟩
    rw [outportDirn, if_neg (by unfold router; omega), he]
    exact hname

theorem IsMesh.weights_attached (h : T.Attached d t) : T.weights (T.router t) (T.exit d) = 1 := by
  obtain ⟨e, he⟩ := linked_attached h
  rcases hT.link_cases he with ⟨d', -, -, hweight⟩ | ⟨b, d', -, -, -, heq, -⟩
  · simp only [weights, he, hweight]
  · exact absurd heq.symm (exit_ne_router d b (hT.attached_lt h).1)

include hM in
theorem IsMesh.weightsOk : T.WeightsOk := by
  constructor
  · intro l hl
    rw [hT.ext_weight l hl]
    decide
  · intro l hl
    obtain ⟨latency, hint⟩ := hT.int
    rw [hint] at hl
    obtain ⟨d, hhop, -, -, heq⟩ := (M.mem_intLinks).mp hl
    rw [heq]
    cases d with
    | East => exact hM.east
    | West => exact hM.west
    | North => exact hM.north
    | South => exact hM.south
    | Local | Unknown | Empty => exact hhop.elim

/-- **No walk to an exit is lighter than the hops it needs.** -/
theorem IsMesh.meshDist_le_walk {N : MeshScript} (hN : N.Weighted) {w : Nat → Nat → Nat}
    (hhop : ∀ a b d, Hop cols a b d → a < rows * cols → b < rows * cols →
      N.weight d ≤ w (T.router a) (T.router b))
    (ht : T.Attached d t) (hexit : 1 ≤ w (T.router t) (T.exit d)) {s n : Nat}
    (h : Walk T.Linked w s (T.exit d) n) : ∀ a, s = T.router a → 1 + N.meshDist cols a t ≤ n := by
  have hd := (hT.attached_lt ht).1
  generalize hj : T.exit d = j at h
  induction h with
  | nil =>
    intro a ha
    rw [← hj] at ha
    exact absurd ha.symm (exit_ne_router d a hd)
  | @cons s k j n hlink hrest ih =>
    subst hj
    rintro a rfl
    obtain ⟨e, he⟩ := hlink
    rcases hT.link_cases he with ⟨d', hd', rfl, -⟩ | ⟨b, dirn, hab, ha, hb, rfl, -, -⟩
    · -- an exit has no links, so the walk ends here
      rcases eq_or_ne d' d with rfl | hne
      · obtain rfl := hT.attached_unique _ _ _ ht hd'
        rw [meshDist_self]
        omega
      · have hne' : T.exit d' ≠ T.exit d := fun h => hne (Nat.add_right_cancel h)
        obtain ⟨k, m, hlink, -⟩ := hrest.exists_first hne'
        exact absurd hlink (not_linked_exit (hT.attached_lt hd').1)
    · have := ih rfl b rfl
      have := hhop a b dirn hab ha hb
      have := (meshDist_hop hN (t := t) hab).1
      omega

include hM

section

variable (ht : T.Attached d t)
include ht

theorem IsMesh.dist_le : ∀ n a, M.meshDist cols a t = n → a < rows * cols →
      T.dist (T.router a) (T.exit d) ≤ 1 + M.meshDist cols a t := by
  obtain ⟨hd, hlt⟩ := hT.attached_lt ht
  intro n
  -- on the weight of the hops that are left: some link lowers it by its own weight
  induction n using Nat.strong_induction_on with
  | _ n ih =>
    intro a hn ha
    have hswitch : T.exit d < T.numSwitches := exit_lt_of_linked hd (linked_attached ht)
    rcases eq_or_ne a t with rfl | hne
    · have hle := dist_le_link (linked_attached ht) hswitch
      rw [hT.weights_attached ht, dist_exit_self hd] at hle
      exact hle.trans (Nat.add_le_add_left (Nat.zero_le _) 1)
    · obtain ⟨dirn, hnear⟩ := exists_nearer cols hne
      obtain ⟨b, hb, hhop⟩ := exists_hop ha hlt hnear
      have hstep := (meshDist_hop hM hhop).2.mpr hnear
      have hlink := hT.linked_hop ha hb hhop
      have hle := dist_le_link hlink hswitch
      have hpos := (weights_linked (hT.weightsOk hM) hlink).1
      rw [(hT.weights_hop ha hb hhop).1] at hle hpos
      have := ih _ (by omega) b rfl hb
      omega

/-- The weight of the hops and of the link to the exit, cut off at `INFINITE_LATENCY`. -/
theorem IsMesh.dist_router (ha : a < rows * cols) :
    T.dist (T.router a) (T.exit d) = min infiniteLatency (1 + M.meshDist cols a t) := by
  have hup := hT.dist_le hM ht _ a rfl ha
  have hinf := dist_le_infinite (hT.weightsOk hM) (T.router a) (T.exit d)
  rcases hinf.lt_or_eq with hlt | heq
  · have hlow := hT.meshDist_le_walk hM (fun a b d h ha hb => (hT.weights_hop ha hb h).1.ge) ht
      (hT.weights_attached ht).ge (walk_of_dist hlt) a rfl
    omega
  · omega

theorem IsMesh.shortest_iff (ha : a < rows * cols) (hne : a ≠ t) {q : OutPort} : (q ∈ T.outports a ∧
      q.weight + T.dist q.next (T.exit d) = T.dist (T.router a) (T.exit d)) ↔
    1 + M.meshDist cols a t ≤ infiniteLatency ∧
      ∃ b dirn, Hop cols a b dirn ∧ b < rows * cols ∧ Nearer cols a t dirn ∧
        q = ⟨T.router b, M.portName dirn, T.shortestPathToNode (T.router a) (T.router b),
          M.weight dirn⟩ := by
  have hw := hT.weightsOk hM
  constructor
  · rintro ⟨hq, heq⟩
    obtain ⟨hlink, hqeq⟩ := (mem_outports hw).mp hq
    obtain ⟨e, he⟩ := hlink
    rcases hT.link_cases he with ⟨d', hd', hnext, -⟩ | ⟨b, dirn, hhop, -, hb, hnext, -, -⟩
    · -- the exit of a node of this router is another one, from which `d` is not reached
      have hdd : d' ≠ d := by
        rintro rfl
        exact hne (hT.attached_unique _ _ _ hd' ht)
      have hfar := dist_exit_ne (hT.attached_lt hd').1 hdd
      have hpos : 1 ≤ q.weight := by
        rw [hqeq]
        exact (weights_linked hw ⟨e, he⟩).1
      have := dist_le_infinite hw (T.router a) (T.exit d)
      rw [hnext] at heq
      omega
    · obtain ⟨hweight, hname⟩ := hT.weights_hop ha hb hhop
      rw [hnext, hweight, hname] at hqeq
      subst hqeq
      have hpos : 1 ≤ M.weight dirn := by
        rw [← hweight]
        exact (weights_linked hw ⟨e, hnext ▸ he⟩).1
      dsimp only at heq
      rw [hT.dist_router hM ht ha, hT.dist_router hM ht hb] at heq
      have hdrop := meshDist_hop hM (t := t) hhop
      exact ⟨by omega, b, dirn, hhop, hb, hdrop.2.mp (by omega), rfl⟩
  · rintro ⟨hfin, b, dirn, hhop, hb, hnear, rfl⟩
    obtain ⟨hweight, hname⟩ := hT.weights_hop ha hb hhop
    constructor
    · rw [mem_outports hw, hweight, hname]
      exact ⟨hT.linked_hop ha hb hhop, rfl⟩
    · show M.weight dirn + T.dist (T.router b) (T.exit d) = _
      have hdrop := (meshDist_hop hM hhop).2.mpr hnear
      rw [hT.dist_router hM ht ha, hT.dist_router hM ht hb]
      omega

/-- The ports of least weight among those that lead nearer, if the node is not too far. -/
theorem IsMesh.candidate_iff (ha : a < rows * cols) (hne : a ≠ t) {p : OutPort} :
    T.Candidate a d p ↔ 1 + M.meshDist cols a t ≤ infiniteLatency ∧
      ∃ b dirn, Hop cols a b dirn ∧ b < rows * cols ∧ Nearer cols a t dirn ∧
        (∀ dirn', Nearer cols a t dirn' → M.weight dirn ≤ M.weight dirn') ∧
        p = ⟨T.router b, M.portName dirn, T.shortestPathToNode (T.router a) (T.router b),
          M.weight dirn⟩ := by
  obtain ⟨hd, hlt⟩ := hT.attached_lt ht
  rw [Topology.candidate_iff (hT.weightsOk hM) hd, ← and_assoc, hT.shortest_iff hM ht ha hne]
  constructor
  · rintro ⟨⟨hfin, b, dirn, hhop, hb, hnear, rfl⟩, hleast⟩
    refine ⟨hfin, b, dirn, hhop, hb, hnear, fun dirn' hnear' => ?_, rfl⟩
    obtain ⟨b', hb', hhop'⟩ := exists_hop ha hlt hnear'
    obtain ⟨hq, hqd⟩ := (hT.shortest_iff hM ht ha hne).mpr
      ⟨hfin, b', dirn', hhop', hb', hnear', rfl⟩
    exact hleast _ hq hqd
  · rintro ⟨hfin, b, dirn, hhop, hb, hnear, hleast, rfl⟩
    refine ⟨⟨hfin, b, dirn, hhop, hb, hnear, rfl⟩, fun q hq hqd => ?_⟩
    obtain ⟨-, b', dirn', -, -, hnear', rfl⟩ := (hT.shortest_iff hM ht ha hne).mp ⟨hq, hqd⟩
    exact hleast dirn' hnear'

end

end Topology

end NocSwap
