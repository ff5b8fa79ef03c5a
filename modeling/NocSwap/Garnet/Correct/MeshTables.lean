import NocSwap.Garnet.Correct.MeshTopology

/-!
# Table routing on the meshes of the scripts
-/

namespace NocSwap

namespace Topology

open MeshScript List Nat

variable {numRows latency numRouters : Nat} {controllers : Controllers} {T : Topology}

/-! ### The mesh with equal weights -/

def columnDirn (cols r t : Nat) : PortDirection := if r % cols < t % cols then .East else .West

variable {cols r t : Nat} {dirn : PortDirection}

theorem nearer_cases (h : Nearer cols r t dirn) :
    dirn = columnDirn cols r t ∨ (dirn = .North ∧ r / cols < t / cols) ∨
      (dirn = .South ∧ t / cols < r / cols) := by
  unfold columnDirn
  cases dirn with
  | East => exact .inl (if_pos h).symm
  | West => exact .inl (if_neg (not_lt.mpr (le_of_lt h))).symm
  | North => exact .inr (.inl ⟨rfl, h⟩)
  | South => exact .inr (.inr ⟨rfl, h⟩)
  | Local | Unknown | Empty => exact h.elim

theorem nearer_columnDirn (h : r % cols ≠ t % cols) : Nearer cols r t (columnDirn cols r t) := by
  unfold columnDirn
  split_ifs with hlt
  · exact hlt
  · exact lt_of_le_of_ne (not_lt.mp hlt) h.symm

variable {b : Nat}

theorem row_columnDirn (h : Hop cols r b (columnDirn cols r t)) : b / cols = r / cols := by
  unfold columnDirn at h
  split_ifs at h
  · exact h.2
  · exact h.2

theorem candidate_meshXY_iff {rows : Nat} (hT : IsMesh meshXY rows cols T) {d : Nat}
    (ht : T.Attached d t) (hr : r < rows * cols) (hne : r ≠ t) {p : OutPort} :
    T.Candidate r d p ↔ 1 + meshXY.meshDist cols r t ≤ infiniteLatency ∧
      ∃ b dirn, Hop cols r b dirn ∧ b < rows * cols ∧ Nearer cols r t dirn ∧
        p = ⟨T.router b, dirn, T.shortestPathToNode (T.router r) (T.router b), 1⟩ := by
  have hweight : ∀ dirn, Nearer cols r t dirn → meshXY.weight dirn = 1 := by
    intro dirn h
    cases dirn <;> first | rfl | exact h.elim
  rw [hT.candidate_iff weighted_meshXY ht hr hne]
  constructor
  · rintro ⟨hfin, b, dirn, hhop, hb, hnear, -, rfl⟩
    refine ⟨hfin, b, dirn, hhop, hb, hnear, ?_⟩
    rw [hweight dirn hnear]
    rfl
  · rintro ⟨hfin, b, dirn, hhop, hb, hnear, rfl⟩
    refine ⟨hfin, b, dirn, hhop, hb, hnear, fun dirn' h => ?_, ?_⟩
    · rw [hweight dirn hnear, hweight dirn' h]
    · rw [hweight dirn hnear]
      rfl

section XY

variable {rows cols : Nat} (hT : IsMesh meshXY rows cols T) {d t r : Nat} (ht : T.Attached d t)
  (hr : r < rows * cols) (hcol : r % cols ≠ t % cols) {ordered : Bool}

include hT ht hr hcol

theorem exists_candidate_meshXY (hfin : 1 + meshXY.meshDist cols r t ≤ infiniteLatency)
    {dirn : PortDirection} (hnear : Nearer cols r t dirn) :
    ∃ i ∈ candidates (T.routingTable r) (.singleton d), ∃ b p, (T.outports r)[i]? = some p ∧
      p.next = T.router b ∧ p.dirn = dirn ∧ Hop cols r b dirn := by
  have hne : r ≠ t := fun h => hcol (by rw [h])
  obtain ⟨b, hb, hhop⟩ := exists_hop hr (hT.attached_lt ht).2 hnear
  obtain ⟨i, hi, hp⟩ := (candidate_meshXY_iff hT ht hr hne).mpr ⟨hfin, b, dirn, hhop, hb, hnear, rfl⟩
  exact ⟨i, hi, b, _, hp, rfl, rfl, hhop⟩

theorem xy_of_condition (h : r / cols = t / cols ∨ (ordered = true ∧ r / cols < t / cols) ∨
      infiniteLatency < 1 + meshXY.meshDist cols r t) {rnd i : Nat}
    (hi : lookupRoutingTable (T.routingTable r) ordered (.singleton d) rnd = .ok i) :
    ∃ p, (T.outports r)[i]? = some p ∧ p.dirn = columnDirn cols r t := by
  have hne : r ≠ t := fun h => hcol (by rw [h])
  obtain ⟨p, hp, hcand⟩ := candidate_of_lookup hi
  obtain ⟨hfin, b, dirn, hhop, hb, hnear, rfl⟩ := (candidate_meshXY_iff hT ht hr hne).mp hcand
  refine ⟨_, hp, ?_⟩
  show dirn = columnDirn cols r t
  rcases nearer_cases hnear with heq | ⟨rfl, hrow⟩ | ⟨rfl, hrow⟩
  · exact heq
  · rcases h with h | ⟨rfl, -⟩ | h
    · exact absurd h hrow.ne
    · -- the port towards the column comes first
      obtain ⟨j, hj, bx, q, hq, hnext, -, hhop'⟩ :=
        exists_candidate_meshXY hT ht hr hcol hfin (nearer_columnDirn hcol)
      have hlt : bx < b := by
        apply lt_of_div_lt_div (c := cols)
        rw [row_columnDirn hhop', hhop.2]
        exact lt_succ_self _
      have hji := outport_idx_lt hq hp (hnext ▸ Nat.add_lt_add_right hlt _)
      exact absurd (lookup_ordered_le hi hj) (not_le.mpr hji)
    · omega
  · rcases h with h | ⟨-, h⟩ | h
    · exact absurd h hrow.ne'
    · exact absurd h hrow.not_gt
    · omega

theorem condition_of_xy
    (h : ∀ rnd i, lookupRoutingTable (T.routingTable r) ordered (.singleton d) rnd = .ok i →
      ∃ p, (T.outports r)[i]? = some p ∧ p.dirn = columnDirn cols r t) :
    r / cols = t / cols ∨ (ordered = true ∧ r / cols < t / cols) ∨
      infiniteLatency < 1 + meshXY.meshDist cols r t := by
  have hne : r ≠ t := fun h => hcol (by rw [h])
  have hvert : ∀ dirn, dirn = .North ∨ dirn = .South → dirn ≠ columnDirn cols r t := by
    rintro _ (rfl | rfl) h <;> unfold columnDirn at h <;> split_ifs at h
  by_contra hnot
  rw [not_or, not_or, not_lt] at hnot
  obtain ⟨hrow, hord, hfin⟩ := hnot
  cases ordered with
  | false =>
    -- a port to another row may be drawn
    obtain ⟨dirn, hnear, hdirn⟩ : ∃ dirn, Nearer cols r t dirn ∧ (dirn = .North ∨ dirn = .South) := by
      rcases Nat.lt_or_gt_of_ne hrow with hlt | hlt
      · exact ⟨.North, hlt, .inl rfl⟩
      · exact ⟨.South, hlt, .inr rfl⟩
    obtain ⟨i, hi, b, p, hp, -, hpd, -⟩ := exists_candidate_meshXY hT ht hr hcol hfin hnear
    obtain ⟨rnd, hrnd⟩ := exists_lookup_eq hi
    obtain ⟨p', hp', hp'd⟩ := h rnd i hrnd
    obtain rfl := Option.some.inj (hp.symm.trans hp')
    exact hvert dirn hdirn (hpd.symm.trans hp'd)
  | true =>
    -- the port to the south comes first
    have hsouth : Nearer cols r t .South := by
      rcases Nat.lt_or_gt_of_ne hrow with hlt | hlt
      · exact absurd ⟨rfl, hlt⟩ hord
      · exact hlt
    obtain ⟨j, hj, b, q, hq, hnext, -, hhop⟩ := exists_candidate_meshXY hT ht hr hcol hfin hsouth
    obtain ⟨i, hi⟩ := exists_lookup hj true 0
    obtain ⟨p, hp, hpd⟩ := h 0 i hi
    obtain ⟨p', hp', hcand⟩ := candidate_of_lookup hi
    obtain rfl := Option.some.inj (hp.symm.trans hp')
    obtain ⟨-, b', dirn, hhop', -, -, rfl⟩ := (candidate_meshXY_iff hT ht hr hne).mp hcand
    obtain rfl : dirn = columnDirn cols r t := hpd
    have hlt : b < b' := by
      apply lt_of_div_lt_div (c := cols)
      rw [row_columnDirn hhop', ← hhop.2]
      exact lt_succ_self _
    have hji := outport_idx_lt hq hp (hnext ▸ Nat.add_lt_add_right hlt _)
    exact absurd (lookup_ordered_le hi hj) (not_le.mpr hji)

end XY

/-- **When the tables of `Mesh_XY` route XY**: exactly if a node in another column lies in the same
row, or to the north with the virtual network ordered, or is too far. -/
theorem tables_xy_iff (hT : meshXY.makeTopology numRows latency controllers numRouters = some T)
    {r d t : Nat} (hr : r < T.numRouters) (ht : T.Attached d t)
    (hcol : r % (numRouters / numRows) ≠ t % (numRouters / numRows)) (ordered : Bool) :
    (∀ rnd i, lookupRoutingTable (T.routingTable r) ordered (.singleton d) rnd = .ok i →
      ∃ p, (T.outports r)[i]? = some p ∧ p.dirn = columnDirn (numRouters / numRows) r t) ↔
    r / (numRouters / numRows) = t / (numRouters / numRows) ∨
      (ordered = true ∧ r / (numRouters / numRows) < t / (numRouters / numRows)) ∨
      infiniteLatency < 1 + meshXY.meshDist (numRouters / numRows) r t := by
  have hmesh := isMesh_of_makeTopology hT
  rw [hmesh.numRouters] at hr
  constructor
  · exact condition_of_xy hmesh ht hr hcol
  · exact fun h rnd i => xy_of_condition hmesh ht hr hcol h

def fourControllers : Controllers where
  toList := [⟨0, false⟩, ⟨1, false⟩, ⟨2, false⟩, ⟨3, false⟩]
  length_gt := by decide
  nodup := by decide
  index_lt := by decide

/-- In an ordered virtual network router `0` of a two-by-two mesh sends East to node `3`. -/
theorem tables_xy_iff_square : ∃ T, meshXY.makeTopology 2 1 fourControllers 4 = some T ∧
    ∀ rnd i, lookupRoutingTable (T.routingTable 0) true (.singleton 3) rnd = .ok i →
      ∃ p, (T.outports 0)[i]? = some p ∧ p.dirn = .East := by
  obtain ⟨T, hT⟩ : ∃ T, meshXY.makeTopology 2 1 fourControllers 4 = some T := ⟨_, rfl⟩
  have heq := Option.some.inj hT
  refine ⟨T, hT, ?_⟩
  refine (tables_xy_iff hT (r := 0) (d := 3) (t := 3) ?_ ?_ ?_ true).mpr ?_
  · rw [← heq]
    decide
  · rw [← heq]
    exact ⟨⟨3, 3, 1, 1⟩, by decide, rfl, rfl⟩
  · decide
  · decide

/-- **The tables of `Mesh_XY` do not route XY**: in an unordered virtual network router `0` may send
North. -/
theorem tables_not_xy : ∃ T, meshXY.makeTopology 2 1 fourControllers 4 = some T ∧
    ∃ rnd i p, lookupRoutingTable (T.routingTable 0) false (.singleton 3) rnd = .ok i ∧
      (T.outports 0)[i]? = some p ∧ p.dirn = .North := by
  refine ⟨_, rfl, 1, 2, ⟨10, .North, [2, 3], 1⟩, ?_⟩
  decide +kernel

section Routes

variable {M : MeshScript} {rows cols : Nat} (hT : IsMesh M rows cols T) (hM : M.Weighted)

variable {d a : Nat} {ordered : Bool} {rnd : Nat → Nat}

theorem follow_router {fuel : Nat} {l : List Nat}
    (hd : d < T.nodes) (h : T.follow d ordered rnd (fuel + 1) (T.router a) = .ok l) :
    ∃ p l', T.Candidate a d p ∧ T.follow d ordered rnd fuel p.next = .ok l' ∧
      l = T.router a :: l' := by
  have ha : T.router a - 2 * T.nodes = a := Nat.add_sub_cancel a _
  rw [follow, if_neg (exit_ne_router d a hd), ha] at h
  obtain ⟨i, hi, h⟩ := bind_eq_ok.mp h
  obtain ⟨p, hp, hcand⟩ := candidate_of_lookup hi
  obtain ⟨p', hp', h⟩ := bind_eq_ok.mp h
  rw [hp] at hp'
  obtain rfl : p = p' := Except.ok.inj hp'
  obtain ⟨l', hl', h⟩ := bind_eq_ok.mp h
  exact ⟨p, l', hcand, hl', (Except.ok.inj h).symm⟩

include hT hM

variable {t : Nat}

/-- **Induction along a route**, from where the hops run out or the exit, back over hops of least
weight. -/
theorem follow_induction (ht : T.Attached d t) {Q : Nat → List Nat → Prop}
    (stop : ∀ a, Q a [T.router a]) (done : Q t [T.router t, T.exit d])
    (hop : ∀ a b dirn l, Hop cols a b dirn → Nearer cols a t dirn →
      (∀ dirn', Nearer cols a t dirn' → M.weight dirn ≤ M.weight dirn') →
      Q b (T.router b :: l) → Q a (T.router a :: T.router b :: l))
    (fuel : Nat) : ∀ a l, a < rows * cols →
      T.follow d ordered rnd fuel (T.router a) = .ok l → (∃ l', l = T.router a :: l') ∧ Q a l := by
  obtain ⟨hd, -⟩ := hT.attached_lt ht
  induction fuel with
  | zero =>
    intro a l _ h
    obtain rfl : [T.router a] = l := Except.ok.inj h
    exact ⟨⟨[], rfl⟩, stop a⟩
  | succ fuel ih =>
    intro a l ha h
    obtain ⟨p, l', hcand, hl', rfl⟩ := follow_router hd h
    refine ⟨⟨l', rfl⟩, ?_⟩
    rcases eq_or_ne a t with rfl | hne
    · -- at the router of the node the only port is that of its interface
      have honly : ∀ l ∈ T.extLinks, l.extNode = d → l.intNode = a := fun l hl hld =>
        hT.attached_unique d _ _ ⟨l, hl, hld, rfl⟩ ht
      rw [(hcand.isExit (hT.weightsOk hM) hd honly).1, follow_exit] at hl'
      rw [← Except.ok.inj hl']
      exact done
    · obtain ⟨-, b, dirn, hhop, hb, hnear, hleast, rfl⟩ := (hT.candidate_iff hM ht ha hne).mp hcand
      obtain ⟨⟨l'', rfl⟩, hQ⟩ := ih b l' hb hl'
      exact hop a b dirn l'' hhop hnear hleast hQ

theorem follow_length {fuel : Nat} (ht : T.Attached d t) (ha : a < rows * cols) {l : List Nat}
    (h : T.follow d ordered rnd fuel (T.router a) = .ok l) (hlast : l.getLast? = some (T.exit d)) :
    l.length = meshXY.meshDist cols a t + 2 := by
  have hd := (hT.attached_lt ht).1
  refine (follow_induction hT hM (Q := fun a l => l.getLast? = some (T.exit d) →
    l.length = meshXY.meshDist cols a t + 2) ht (fun a hlast => ?_) (fun _ => ?_)
    (fun a b dirn l hhop hnear _ ih hlast => ?_) fuel a l ha h).2 hlast
  · exact absurd (Option.some.inj hlast) (exit_ne_router d a hd)
  · rw [meshDist_self]
    rfl
  · have hdrop := (meshDist_hop weighted_meshXY hhop).2.mpr hnear
    have hone : meshXY.weight dirn = 1 := by
      cases dirn <;> first | rfl | exact hnear.elim
    rw [getLast?_cons_cons] at hlast
    rw [length_cons, ih hlast]
    omega

omit hM in
theorem hops_le_walk {n : Nat} (ht : T.Attached d t)
    (h : Walk T.Linked (fun _ _ => 1) (T.router a) (T.exit d) n) :
    1 + meshXY.meshDist cols a t ≤ n := by
  refine hT.meshDist_le_walk weighted_meshXY (fun a b dirn hhop _ _ => ?_) ht le_rfl h a rfl
  cases dirn <;> first | exact le_rfl | exact hhop.elim

end Routes

def WestHop (T : Topology) (cols : Nat) (h : Nat × Nat) : Prop :=
  ∃ a b, h = (T.router a, T.router b) ∧ Hop cols a b .West

variable {a : Nat}

theorem westHop_iff (h : Hop cols a b dirn) :
    T.WestHop cols (T.router a, T.router b) ↔ dirn = .West := by
  constructor
  · rintro ⟨a', b', heq, hhop⟩
    obtain ⟨ha, hb⟩ := Prod.mk.inj heq
    obtain rfl := Nat.add_right_cancel ha
    obtain rfl := Nat.add_right_cancel hb
    exact h.unique hhop
  · rintro rfl
    exact ⟨a, b, rfl, h⟩

theorem eq_west_of_least (hnear : Nearer cols a t dirn) (hleast : ∀ dirn', Nearer cols a t dirn' →
      meshWestfirst.weight dirn ≤ meshWestfirst.weight dirn')
    (hwest : Nearer cols a t .West) : dirn = .West := by
  have hle := hleast .West hwest
  cases dirn with
  | West => rfl
  | East | North | South => exact absurd hle (by decide)
  | Local | Unknown | Empty => exact hnear.elim

theorem not_nearer_west (hhop : Hop cols a b dirn) (hnear : Nearer cols a t dirn)
    (hne : dirn ≠ .West) (ha : ¬ Nearer cols a t .West) : ¬ Nearer cols b t .West := by
  unfold Nearer at ha ⊢
  cases dirn with
  | West => exact absurd rfl hne
  | East => simp only [Hop, Nearer] at hhop hnear; omega
  | North | South => rwa [hhop.1]
  | Local | Unknown | Empty => exact hnear.elim

/-- The hops of a route to the west come before the others. -/
theorem follow_west {rows d fuel : Nat} (hT : IsMesh meshWestfirst rows cols T)
    (ht : T.Attached d t) {ordered : Bool} {rnd : Nat → Nat} {l : List Nat}
    (ha : a < rows * cols) (h : T.follow d ordered rnd fuel (T.router a) = .ok l) :
    (¬ Nearer cols a t .West → ∀ h ∈ l.zip l.tail, ¬ T.WestHop cols h) ∧
      (l.zip l.tail).Pairwise fun h h' => T.WestHop cols h' → T.WestHop cols h := by
  refine (follow_induction hT weighted_meshWestfirst (Q := fun a l =>
    (¬ Nearer cols a t .West → ∀ h ∈ l.zip l.tail, ¬ T.WestHop cols h) ∧
      (l.zip l.tail).Pairwise fun h h' => T.WestHop cols h' → T.WestHop cols h) ht
    (fun a => ?_) ?_ (fun a b dirn l hhop hnear hleast ih => ?_) fuel a l ha h).2
  · exact ⟨fun _ h hmem => (nomatch hmem), .nil⟩
  · refine ⟨fun _ h hmem => ?_, pairwise_singleton _ _⟩
    obtain rfl := mem_singleton.mp hmem
    rintro ⟨a', b', heq, -⟩
    exact exit_ne_router d b' (hT.attached_lt ht).1 (Prod.mk.inj heq).2.symm
  · obtain ⟨hnone, hpair⟩ := ih
    rw [tail_cons, zip_cons_cons]
    rw [tail_cons] at hnone hpair
    by_cases hdirn : dirn = .West
    · subst hdirn
      refine ⟨fun hnot => absurd hnear hnot, pairwise_cons.mpr ⟨fun _ _ _ => ?_, hpair⟩⟩
      exact (westHop_iff hhop).mpr rfl
    · -- another hop is taken only when the destination does not lie to the west
      have hnot : ¬ Nearer cols a t .West := fun hwest => hdirn (eq_west_of_least hnear hleast hwest)
      have hrest := hnone (not_nearer_west hhop hnear hdirn hnot)
      refine ⟨fun _ h hmem => ?_, pairwise_cons.mpr ⟨fun h hmem hwest => ?_, hpair⟩⟩
      · rcases mem_cons.mp hmem with rfl | hmem
        · exact fun hwest => hdirn ((westHop_iff hhop).mp hwest)
        · exact hrest h hmem
      · exact absurd hwest (hrest h hmem)

/-- **Table routing on `Mesh_westfirst` is west-first and minimal**: lookups lead to the node, west
first, on a walk of least length. -/
theorem tables_west_first
    (hT : meshWestfirst.makeTopology numRows latency controllers numRouters = some T) {r d t : Nat}
    (hr : r < T.numRouters) (ht : T.Attached d t) (ordered : Bool) (rnd : Nat → Nat) (fuel : Nat) :
    (1 + meshWestfirst.meshDist (numRouters / numRows) r t < infiniteLatency →
      1 + meshWestfirst.meshDist (numRouters / numRows) r t ≤ fuel →
      ∃ l, T.follow d ordered rnd fuel (T.router r) = .ok l ∧ l.getLast? = some (T.exit d)) ∧
    ∀ l, T.follow d ordered rnd fuel (T.router r) = .ok l →
      (l.zip l.tail).Pairwise (fun h h' => T.WestHop (numRouters / numRows) h' →
        T.WestHop (numRouters / numRows) h) ∧
      (l.getLast? = some (T.exit d) → ∀ n,
        Walk T.Linked (fun _ _ => 1) (T.router r) (T.exit d) n → l.length ≤ n + 1) := by
  have hmesh := isMesh_of_makeTopology hT
  rw [hmesh.numRouters] at hr
  have hd := (hmesh.attached_lt ht).1
  constructor
  · intro hfin hfuel
    have hdist := hmesh.dist_router weighted_meshWestfirst ht hr
    obtain ⟨l, hl, hlast, -⟩ := follow_delivers (hmesh.weightsOk weighted_meshWestfirst) hd ordered
      rnd fuel (T.router r) (.inr ⟨r, rfl⟩) (by omega) (by omega)
    exact ⟨_, hl, hlast⟩
  · intro l hl
    refine ⟨(follow_west hmesh ht hr hl).2, fun hlast n hwalk => ?_⟩
    have hlen := follow_length hmesh weighted_meshWestfirst ht hr hl hlast
    have hle := hops_le_walk hmesh ht hwalk
    omega

/-- From router `3` of a two-by-two mesh to node `0`: three links, the first to the west. -/
theorem tables_west_first_square : ∃ T, meshWestfirst.makeTopology 2 1 fourControllers 4 = some T ∧
    ∃ l, T.follow 0 false (fun _ => 0) 4 (T.router 3) = .ok l ∧ l.getLast? = some (T.exit 0) ∧
      (l.zip l.tail).Pairwise fun h h' => T.WestHop 2 h' → T.WestHop 2 h := by
  obtain ⟨T, hT⟩ : ∃ T, meshWestfirst.makeTopology 2 1 fourControllers 4 = some T := ⟨_, rfl⟩
  have heq := Option.some.inj hT
  have hr : 3 < T.numRouters := by
    rw [← heq]
    decide
  have ht : T.Attached 0 0 := by
    rw [← heq]
    exact ⟨⟨0, 0, 1, 1⟩, by decide, rfl, rfl⟩
  obtain ⟨hleads, hpath⟩ := tables_west_first hT hr ht false (fun _ => 0) 4
  obtain ⟨l, hl, hlast⟩ := hleads (by decide) (by decide)
  exact ⟨T, hT, l, hl, hlast, (hpath l hl).1⟩

end Topology

end NocSwap
