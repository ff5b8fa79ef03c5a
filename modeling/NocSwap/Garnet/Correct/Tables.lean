import NocSwap.Garnet.Correct.Lookup
import NocSwap.Ruby.Correct.CreateLinks

/-!
# Table routing over an arbitrary topology
-/

namespace NocSwap

open List Option

/-! ### The tables of a topology -/

namespace Topology

variable {T : Topology} (hw : T.WeightsOk)

theorem reaches_singleton {d : Nat} {e : List Nat × Nat} : Reaches (.singleton d) e ↔ d ∈ e.1 := by
  simp [Reaches, NetDest.singleton]

theorem mem_destinations {src next d : Nat} : d ∈ T.shortestPathToNode src next ↔
    d < T.nodes ∧ T.weights src next + T.dist next (T.exit d) = T.dist src (T.exit d) := by
  simp [shortestPathToNode, linkIsShortestPathToNode]

include hw in
theorem mem_outports {r : Nat} {p : OutPort} : p ∈ T.outports r ↔ T.Linked (T.router r) p.next ∧
    p = ⟨p.next, T.outportDirn (T.router r) p.next, T.shortestPathToNode (T.router r) p.next,
      T.weights (T.router r) p.next⟩ := by
  simp only [outports, mem_filterMap, mem_range, ite_none_right_eq_some, some.injEq]
  constructor
  · rintro ⟨j, -, ⟨hpos, hfin⟩, rfl⟩
    refine ⟨?_, rfl⟩
    -- a pair without a link has weight `0` or `INFINITE_LATENCY`, which `createLinks` skips
    by_contra hnot
    rw [weights_not_linked hnot] at hpos hfin
    split_ifs at hpos hfin with hij
    · exact absurd hpos (lt_irrefl 0)
    · exact hfin rfl
  · rintro ⟨hlink, hp⟩
    obtain ⟨hpos, hlt⟩ := weights_linked hw hlink
    exact ⟨p.next, (linked_lt hlink).2, ⟨hpos, hlt.ne⟩, hp.symm⟩

def Candidate (T : Topology) (r d : Nat) (p : OutPort) : Prop :=
  ∃ i ∈ candidates (T.routingTable r) (.singleton d), (T.outports r)[i]? = some p

include hw in
/-- **A candidate** is a link on a shortest path to the exit, of least weight among these. -/
theorem candidate_iff {r d : Nat} (hd : d < T.nodes) {p : OutPort} : T.Candidate r d p ↔
    p ∈ T.outports r ∧ p.weight + T.dist p.next (T.exit d) = T.dist (T.router r) (T.exit d) ∧
      ∀ q ∈ T.outports r, q.weight + T.dist q.next (T.exit d) = T.dist (T.router r) (T.exit d) →
        p.weight ≤ q.weight := by
  have hreach : ∀ q ∈ T.outports r, (d ∈ q.destinations ↔
      q.weight + T.dist q.next (T.exit d) = T.dist (T.router r) (T.exit d)) := by
    intro q hq
    obtain ⟨-, heq⟩ := (mem_outports hw).mp hq
    have hdest := congrArg OutPort.destinations heq
    have hweight := congrArg OutPort.weight heq
    dsimp only at hdest hweight
    rw [hdest, hweight, mem_destinations, and_iff_right hd]
  have hinf : ∀ q ∈ T.outports r, q.weight ≤ infinite := by
    intro q hq
    obtain ⟨hlink, heq⟩ := (mem_outports hw).mp hq
    rw [heq]
    exact (weights_linked hw hlink).2.le
  constructor
  · rintro ⟨i, hi, hp⟩
    have hmem := mem_of_getElem? hp
    obtain ⟨e, he, hr, -, hleast⟩ := mem_candidates.mp hi
    rw [routingTable, getElem?_map, hp, map_some, some.injEq] at he
    subst he
    refine ⟨hmem, (hreach p hmem).mp (reaches_singleton.mp hr), fun q hq hqd => ?_⟩
    exact hleast (q.destinations, q.weight) (mem_map_of_mem hq)
      (reaches_singleton.mpr ((hreach q hq).mpr hqd))
  · rintro ⟨hmem, heq, hleast⟩
    obtain ⟨i, hi⟩ := mem_iff_getElem?.mp hmem
    refine ⟨i, mem_candidates.mpr ⟨(p.destinations, p.weight), ?_, ?_, hinf p hmem, ?_⟩, hi⟩
    · rw [routingTable, getElem?_map, hi, map_some]
    · exact reaches_singleton.mpr ((hreach p hmem).mpr heq)
    · intro e he hr
      obtain ⟨q, hq, rfl⟩ := mem_map.mp he
      exact hleast q hq ((hreach q hq).mp (reaches_singleton.mp hr))

theorem candidate_of_lookup {r d rnd i : Nat} {ordered : Bool}
    (h : lookupRoutingTable (T.routingTable r) ordered (.singleton d) rnd = .ok i) :
    ∃ p, (T.outports r)[i]? = some p ∧ T.Candidate r d p := by
  have hi := mem_candidates_of_lookup h
  obtain ⟨e, he, -⟩ := mem_candidates.mp hi
  rw [routingTable, getElem?_map] at he
  obtain ⟨p, hp, -⟩ := map_eq_some_iff.mp he
  exact ⟨p, hp, i, hi, hp⟩

include hw in
theorem exists_candidate {r d : Nat} (hd : d < T.nodes)
    (h : T.dist (T.router r) (T.exit d) < infiniteLatency) : ∃ p, T.Candidate r d p := by
  obtain ⟨k, hlink, heq⟩ := exists_link hd h
  -- of the ports on a shortest path, one has the least weight
  let P : Nat → Prop := fun w => ∃ q ∈ T.outports r,
    q.weight + T.dist q.next (T.exit d) = T.dist (T.router r) (T.exit d) ∧ q.weight = w
  have hex : ∃ w, P w := ⟨_, ⟨k, T.outportDirn (T.router r) k, T.shortestPathToNode (T.router r) k,
    T.weights (T.router r) k⟩, (mem_outports hw).mpr ⟨hlink, rfl⟩, heq, rfl⟩
  classical
  obtain ⟨p, hp, hpd, hweight⟩ := Nat.find_spec hex
  refine ⟨p, (candidate_iff hw hd).mpr ⟨hp, hpd, fun q hq hqd => ?_⟩⟩
  rw [hweight]
  exact Nat.find_min' hex ⟨q, hq, hqd, rfl⟩

/-- The switches that a message to node `d` visits from `s` on, each with its own draw. -/
def follow (T : Topology) (d : Nat) (ordered : Bool) (rnd : Nat → Nat) :
    Nat → Nat → Except Fault (List Nat)
  | 0, s => return [s]
  | fuel + 1, s =>
    if s = T.exit d then return [s]
    else do
      let i ← lookupRoutingTable (T.routingTable (s - 2 * T.nodes)) ordered (.singleton d) (rnd fuel)
      let p ← orFail .portOutOfRange (T.outports (s - 2 * T.nodes))[i]?
      return s :: (← T.follow d ordered rnd fuel p.next)

theorem follow_exit (T : Topology) (d : Nat) (ordered : Bool) (rnd : Nat → Nat) (fuel : Nat) :
    T.follow d ordered rnd fuel (T.exit d) = .ok [T.exit d] := by
  cases fuel with
  | zero => rfl
  | succ fuel =>
    rw [follow, if_pos rfl]
    rfl

theorem dist_exit_ne {d d' : Nat} (hd' : d' < T.nodes) (hne : d' ≠ d) :
    infiniteLatency ≤ T.dist (T.exit d') (T.exit d) := by
  by_contra hlt
  have hexit : T.exit d' ≠ T.exit d := by
    unfold exit
    omega
  obtain ⟨k, m, hlink, -⟩ := (walk_of_dist (not_le.mp hlt)).exists_first hexit
  exact not_linked_exit hd' hlink

include hw

theorem Candidate.nearer {r d : Nat} (hd : d < T.nodes) {p : OutPort} (h : T.Candidate r d p) :
    1 ≤ p.weight ∧ p.weight + T.dist p.next (T.exit d) = T.dist (T.router r) (T.exit d) ∧
      T.dist p.next (T.exit d) < infiniteLatency ∧
      (p.next = T.exit d ∨ ∃ r', p.next = T.router r') := by
  obtain ⟨hmem, heq, -⟩ := (candidate_iff hw hd).mp h
  obtain ⟨hlink, hp⟩ := (mem_outports hw).mp hmem
  have hpos : 1 ≤ p.weight := by
    rw [hp]
    exact (weights_linked hw hlink).1
  have hle := dist_le_infinite hw (T.router r) (T.exit d)
  have hlt : T.dist p.next (T.exit d) < infiniteLatency := by omega
  refine ⟨hpos, heq, hlt, ?_⟩
  rcases linked_router hlink with ⟨d', hd', hnext, -⟩ | hrouter
  · rcases eq_or_ne d' d with rfl | hne
    · exact .inl hnext
    · rw [hnext] at hlt
      exact absurd (dist_exit_ne hd' hne) (not_le.mpr hlt)
  · exact .inr hrouter

theorem dist_router_pos {r d : Nat} (hd : d < T.nodes)
    (h : T.dist (T.router r) (T.exit d) < infiniteLatency) :
    1 ≤ T.dist (T.router r) (T.exit d) := by
  obtain ⟨p, hp⟩ := exists_candidate hw hd h
  have hnear := hp.nearer hw hd
  omega

theorem exists_lookup_candidate {r d : Nat} (hd : d < T.nodes)
    (h : T.dist (T.router r) (T.exit d) < infiniteLatency) (ordered : Bool) (rnd : Nat) :
    ∃ i p, lookupRoutingTable (T.routingTable r) ordered (.singleton d) rnd = .ok i ∧
      (T.outports r)[i]? = some p ∧ T.Candidate r d p := by
  obtain ⟨-, j, hj, -⟩ := exists_candidate hw hd h
  obtain ⟨i, hi⟩ := exists_lookup hj ordered rnd
  obtain ⟨p, hp, hcand⟩ := candidate_of_lookup hi
  exact ⟨i, p, hi, hp, hcand⟩

/-- **The tables lead to the exit**, over switches that come nearer one after the other. -/
theorem follow_delivers {d : Nat} (hd : d < T.nodes) (ordered : Bool) (rnd : Nat → Nat)
    (fuel : Nat) : ∀ s, (s = T.exit d ∨ ∃ r, s = T.router r) →
      T.dist s (T.exit d) < infiniteLatency → T.dist s (T.exit d) ≤ fuel →
      ∃ l, T.follow d ordered rnd fuel s = .ok (s :: l) ∧
        (s :: l).getLast? = some (T.exit d) ∧
        (s :: l).Pairwise fun a b => T.dist b (T.exit d) < T.dist a (T.exit d) := by
  induction fuel with
  | zero =>
    rintro s (rfl | ⟨r, rfl⟩) hfin hfuel
    · exact ⟨[], rfl, rfl, pairwise_singleton _ _⟩
    · exact absurd (dist_router_pos hw hd hfin) (by omega)
  | succ fuel ih =>
    rintro s (rfl | ⟨r, rfl⟩) hfin hfuel
    · exact ⟨[], T.follow_exit d ordered rnd _, rfl, pairwise_singleton _ _⟩
    · -- the next switch is nearer by at least `1`, so one hop less is enough from there
      obtain ⟨i, p, hi, hp, hcand⟩ := exists_lookup_candidate hw hd hfin ordered (rnd fuel)
      obtain ⟨hpos, heq, hfin', hnext⟩ := hcand.nearer hw hd
      obtain ⟨l, hl, hlast, hpair⟩ := ih p.next hnext hfin' (by omega)
      refine ⟨p.next :: l, ?_, ?_, ?_⟩
      · have hr : T.router r - 2 * T.nodes = r := Nat.add_sub_cancel r _
        rw [follow, if_neg (exit_ne_router d r hd), hr, hi]
        simp only [bind, Except.bind, hp, orFail, hl]
        rfl
      · rw [getLast?_cons_cons]
        exact hlast
      · rw [pairwise_cons]
        refine ⟨fun x hx => ?_, hpair⟩
        rcases mem_cons.mp hx with rfl | hx
        · omega
        · have := rel_of_pairwise_cons hpair hx
          omega

omit hw in
theorem dist_le_walk_of_attached {r d : Nat} (hd : d < T.nodes)
    (honly : ∀ l ∈ T.extLinks, l.extNode = d → l.intNode = r) {s n : Nat}
    (h : T.Path s (T.exit d) n) (hne : s ≠ T.exit d) : T.dist (T.router r) (T.exit d) ≤ n := by
  generalize hj : T.exit d = j at h hne
  induction h with
  | nil => exact absurd rfl hne
  | @cons s k j n hlink hrest ih =>
    subst hj
    rcases eq_or_ne k (T.exit d) with rfl | hk
    · -- the last link leaves the router of the node
      obtain ⟨e, he⟩ := hlink
      have hs : s = T.router r := by
        rcases mem_additions.mp (mem_additions_of_lookup he) with ⟨l, hl, h | h⟩ | ⟨l, hl, h⟩
        · have := (T.extLinks_lt l hl).1
          simp only [Prod.mk.injEq, exit, router] at h
          omega
        · simp only [Prod.mk.injEq, exit, Nat.add_right_cancel_iff] at h
          rw [h.1.1, honly l hl h.1.2.symm]
        · simp only [Prod.mk.injEq, exit, router] at h
          omega
      subst hs
      exact (shortestPath_le _ _ _ _ _).trans (Nat.le_add_right _ _)
    · exact (ih rfl hk).trans (Nat.le_add_left _ _)

theorem Candidate.isExit {r d : Nat} (hd : d < T.nodes)
    (honly : ∀ l ∈ T.extLinks, l.extNode = d → l.intNode = r) {p : OutPort}
    (h : T.Candidate r d p) : p.next = T.exit d ∧ p.dirn = .Local := by
  obtain ⟨hpos, heq, hfin, hnext⟩ := h.nearer hw hd
  obtain ⟨hmem, -, -⟩ := (candidate_iff hw hd).mp h
  obtain ⟨-, hp⟩ := (mem_outports hw).mp hmem
  rcases hnext with hexit | ⟨r', hr'⟩
  · refine ⟨hexit, ?_⟩
    rw [hp]
    show T.outportDirn (T.router r) p.next = .Local
    rw [hexit, outportDirn, if_pos (by unfold exit; omega)]
  · -- from another router the way leads back
    have hwalk := walk_of_dist hfin
    have hne : p.next ≠ T.exit d := by
      rw [hr']
      exact exit_ne_router d r' hd
    have := dist_le_walk_of_attached hd honly hwalk hne
    omega

omit hw in
theorem outports_sorted (T : Topology) (r : Nat) :
    (T.outports r).Pairwise fun p q => p.next < q.next := by
  rw [outports, pairwise_filterMap]
  refine pairwise_lt_range.imp fun {i j} hij p hp q hq => ?_
  obtain ⟨-, hp⟩ := ite_none_right_eq_some.mp hp
  obtain ⟨-, hq⟩ := ite_none_right_eq_some.mp hq
  rw [← some.inj hp, ← some.inj hq]
  exact hij

omit hw in
theorem outport_idx_lt {r i j : Nat} {p q : OutPort} (hi : (T.outports r)[i]? = some p)
    (hj : (T.outports r)[j]? = some q) (h : p.next < q.next) : i < j := by
  obtain ⟨hi', rfl⟩ := List.getElem?_eq_some_iff.mp hi
  obtain ⟨hj', rfl⟩ := List.getElem?_eq_some_iff.mp hj
  have hsorted := pairwise_iff_getElem.mp (T.outports_sorted r)
  rcases Nat.lt_trichotomy i j with hlt | rfl | hlt
  · exact hlt
  · exact absurd h (lt_irrefl _)
  · exact absurd h (hsorted j i hj' hi' hlt).not_gt

omit hw in
theorem outport_idx_unique {r i j : Nat} {p q : OutPort} (hi : (T.outports r)[i]? = some p)
    (hj : (T.outports r)[j]? = some q) (h : p.next = q.next) : i = j := by
  obtain ⟨hi', rfl⟩ := List.getElem?_eq_some_iff.mp hi
  obtain ⟨hj', rfl⟩ := List.getElem?_eq_some_iff.mp hj
  have hsorted := pairwise_iff_getElem.mp (T.outports_sorted r)
  rcases Nat.lt_trichotomy i j with hlt | heq | hlt
  · exact absurd h (hsorted i j hi' hj' hlt).ne
  · exact heq
  · exact absurd h (hsorted j i hj' hi' hlt).ne'

/-- **Table routing delivers.** Where the exit is reached with a weight below `INFINITE_LATENCY`,
lookups lead nearer by the weight of the link, over different switches, to the exit. -/
theorem tables_deliver {d r n : Nat} (hd : d < T.nodes)
    (hpath : T.Path (T.router r) (T.exit d) n) (hn : n < infiniteLatency) :
    (∀ ordered rnd, ∃ i p,
      lookupRoutingTable (T.routingTable r) ordered (.singleton d) rnd = .ok i ∧
        (T.outports r)[i]? = some p ∧
        T.dist p.next (T.exit d) + p.weight = T.dist (T.router r) (T.exit d)) ∧
    (∀ ordered rnd, ∃ l,
      T.follow d ordered rnd (T.dist (T.router r) (T.exit d)) (T.router r) = .ok l ∧
        l.head? = some (T.router r) ∧ l.getLast? = some (T.exit d) ∧ l.Nodup) ∧
    ((∀ l ∈ T.extLinks, l.extNode = d → l.intNode = r) → ∃ i p,
      candidates (T.routingTable r) (.singleton d) = [i] ∧ (T.outports r)[i]? = some p ∧
        p.next = T.exit d ∧ p.dirn = .Local) := by
  obtain ⟨k, m, hlink, -⟩ := hpath.exists_first (exit_ne_router d r hd)
  have hfin : T.dist (T.router r) (T.exit d) < infiniteLatency :=
    (dist_le_walk hd (exit_lt_of_linked hd hlink) hpath).trans_lt hn
  refine ⟨fun ordered rnd => ?_, fun ordered rnd => ?_, fun honly => ?_⟩
  · obtain ⟨i, p, hi, hp, hcand⟩ := exists_lookup_candidate hw hd hfin ordered rnd
    refine ⟨i, p, hi, hp, ?_⟩
    rw [Nat.add_comm]
    exact (hcand.nearer hw hd).2.1
  · obtain ⟨l, hl, hlast, hpair⟩ := follow_delivers hw hd ordered rnd _ _ (.inr ⟨r, rfl⟩) hfin
      (le_refl _)
    refine ⟨_, hl, rfl, hlast, hpair.imp fun {a b} hlt heq => ?_⟩
    rw [heq] at hlt
    exact lt_irrefl _ hlt
  · obtain ⟨p, i, hi, hp⟩ := exists_candidate hw hd hfin
    have hexit := Candidate.isExit hw hd honly ⟨i, hi, hp⟩
    refine ⟨i, p, ?_, hp, hexit⟩
    -- any other candidate would be a second port to the exit
    have hall : ∀ j ∈ candidates (T.routingTable r) (.singleton d), j = i := by
      intro j hj
      obtain ⟨e, he, -⟩ := mem_candidates.mp hj
      rw [routingTable, getElem?_map] at he
      obtain ⟨q, hq, -⟩ := map_eq_some_iff.mp he
      have hexit' := Candidate.isExit hw hd honly ⟨j, hj, hq⟩
      exact outport_idx_unique hq hp (hexit'.1.trans hexit.1.symm)
    exact eq_singleton_of_forall_eq candidates_sorted hi hall

def twoRouters : Topology where
  nodes := 2
  nodes_gt := by decide
  numRouters := 2
  extLinks := [⟨0, 0, 1, 1⟩, ⟨1, 1, 1, 1⟩]
  intLinks := [⟨0, 1, .East, .West, 1, 1⟩, ⟨1, 0, .West, .East, 1, 1⟩]
  extLinks_lt := by decide
  intLinks_lt := by decide

omit hw in
theorem tables_deliver_twoRouters :
    (∃ l, twoRouters.follow 1 false (fun _ => 0) (twoRouters.dist (twoRouters.router 0)
      (twoRouters.exit 1)) (twoRouters.router 0) = .ok l ∧ l.getLast? = some (twoRouters.exit 1)) ∧
    ∃ i p, candidates (twoRouters.routingTable 1) (.singleton 1) = [i] ∧
      (twoRouters.outports 1)[i]? = some p ∧ p.next = twoRouters.exit 1 := by
  have hw : twoRouters.WeightsOk := ⟨by decide, by decide⟩
  have hlast : twoRouters.Path (twoRouters.router 1) (twoRouters.exit 1) _ :=
    .cons ⟨_, rfl⟩ (.nil _)
  have hfirst : twoRouters.Path (twoRouters.router 0) (twoRouters.exit 1) _ :=
    .cons ⟨_, rfl⟩ hlast
  obtain ⟨l, hl, -, hend, -⟩ :=
    (tables_deliver hw (by decide) hfirst (by decide)).2.1 false fun _ => 0
  obtain ⟨i, p, hi, hp, hnext, -⟩ :=
    (tables_deliver hw (by decide) hlast (by decide)).2.2 (by decide)
  exact ⟨⟨l, hl, hend⟩, i, p, hi, hp, hnext⟩

end Topology

end NocSwap
