import NocSwap.Garnet.Correct.Pointer

/-!
# Making the swap pointer valid again
-/

namespace NocSwap

open Option

variable {P : Params} {s : Net} {r : Nat}

structure BaseFlit (P : Params) (r : Nat) (s : Net) (p : Port) (vnet : Nat) (f : Flit) : Prop where
  port : p ∈ P.inports r
  mesh : p.dirn.isMesh = true
  vnet_lt : vnet < P.virtualNetworks
  head : (s.buf (.inputVc p.link (vnet * P.vcsPerVnet))).head? = some f

/-- The first flit in a base channel of a port of the mesh, with the direction of its port. -/
def firstBase (P : Params) (r : Nat) (s : Net) : Option (PortDirection × Flit) :=
  (P.inports r).findSome? fun p =>
    if p.dirn = .Local then none else (firstBaseVc P s p.link).map fun f => (p.dirn, f)

def HasCandidate (P : Params) (r : Nat) (s : Net) (p : Port) : Prop :=
  ∃ vnet f, BaseFlit P r s p vnet f ∧ f.outportDir ≠ .Local

/-- The pointer becomes valid if there is a candidate, and then names an occupied channel. -/
def Revalidates (P : Params) (r : Nat) (s : Net) : Prop :=
  ∃ s', validateSwapPtr P r s = .ok s' ∧ ((∃ p, HasCandidate P r s p) →
    (s'.router r).swapPtr.valid = true ∧ ∃ p v, PtrAt P r (s'.router r).swapPtr p v ∧
      s'.buf (.inputVc p.link v) ≠ [] ∧ HasCandidate P r s p)

theorem firstBase_eq_some {d : PortDirection} {f : Flit} (h : firstBase P r s = some (d, f)) :
    ∃ p vnet, BaseFlit P r s p vnet f ∧ p.dirn = d := by
  obtain ⟨p, hp, hsome⟩ := List.exists_of_findSome?_eq_some h
  split_ifs at hsome with hloc
  obtain ⟨g, hg, heq⟩ := map_eq_some_iff.mp hsome
  obtain ⟨rfl, rfl⟩ := Prod.mk.inj heq
  obtain ⟨vnet, hlt, fs, hbuf⟩ := exists_of_firstBaseVc hg
  exact ⟨p, vnet, ⟨hp, (inport_dirn hp).resolve_left hloc, hlt, hbuf ▸ rfl⟩, rfl⟩

theorem firstBase_ne_none {p : Port} {vnet : Nat} {f : Flit} (h : BaseFlit P r s p vnet f) :
    firstBase P r s ≠ none := by
  intro hnone
  have hp := List.findSome?_eq_none_iff.mp hnone p h.port
  rw [if_neg (mesh_ne_local h.mesh), map_eq_none_iff] at hp
  have hvnet := List.findSome?_eq_none_iff.mp hp vnet (List.mem_range.mpr h.vnet_lt)
  rw [h.head] at hvnet
  cases hvnet

theorem validateSwapPtr_eq (hv : (s.router r).swapPtr.valid = false)
    (hid : (s.router r).swapPtr.vcid = -1) :
    validateSwapPtr P r s = .ok (match firstBase P r s with
      | some (d, f) =>
        if f.outportDir.isMesh then
          s.setSwapPtr r ⟨true, Params.dirn2idx (P.inports r) d, f.vc, d⟩
        else s
      | none => s) := by
  unfold validateSwapPtr
  rw [hv]
  show (match firstBase P r s with
    | some (dirn, f) => makeSwapPtrValid P r dirn f s
    | none => Except.ok s) = _
  cases hfirst : firstBase P r s with
  | none => rfl
  | some q =>
    obtain ⟨d, f⟩ := q
    obtain ⟨p, vnet, hbase, rfl⟩ := firstBase_eq_some hfirst
    have hloc := mesh_ne_local hbase.mesh
    show makeSwapPtrValid P r p.dirn f s = _
    rw [makeSwapPtrValid, hv, if_neg Bool.false_ne_true, hbase.mesh, Bool.true_and]
    by_cases hmesh : f.outportDir.isMesh = true
    · simp [hmesh, SwapPtr.makeSwapPtrValid, hv, hid, hloc, require, bind, Except.bind, pure,
        Except.pure]
    · simp [hmesh, pure, Except.pure]

/-- **When the validation succeeds.** The pointer names a candidate whenever there is one, if and
only if the first flit in a base channel is bound for a neighbour whenever one is. -/
theorem revalidates_iff (hv : (s.router r).swapPtr.valid = false)
    (hid : (s.router r).swapPtr.vcid = -1) (hvc : ∀ b, ∀ f ∈ s.buf b, NamesVc b f) :
    Revalidates P r s ↔ ((∃ p, HasCandidate P r s p) →
      ∀ d f, firstBase P r s = some (d, f) → f.outportDir.isMesh = true) := by
  constructor
  · rintro ⟨s', hs', hcand⟩ hex d f hfirst
    by_contra hmesh
    rw [validateSwapPtr_eq hv hid, hfirst] at hs'
    obtain rfl := Except.ok.inj hs'
    have hvalid := (hcand hex).1
    dsimp only at hvalid
    rw [if_neg hmesh, hv] at hvalid
    cases hvalid
  · intro h
    refine ⟨_, validateSwapPtr_eq hv hid, fun hex => ?_⟩
    cases hfirst : firstBase P r s with
    | none =>
      obtain ⟨p, vnet, f, hbase, -⟩ := hex
      exact absurd hfirst (firstBase_ne_none hbase)
    | some q =>
      obtain ⟨d, f⟩ := q
      have hmesh := h hex d f hfirst
      obtain ⟨p, vnet, hbase, rfl⟩ := firstBase_eq_some hfirst
      obtain ⟨fs, hbuf⟩ := List.head?_eq_some_iff.mp hbase.head
      have hname : f.vc = vnet * P.vcsPerVnet :=
        hvc (.inputVc p.link (vnet * P.vcsPerVnet)) f (hbuf ▸ List.mem_cons_self)
      have hlt : f.vc < P.numVcs := by
        rw [hname]
        exact Nat.mul_lt_mul_of_pos_right hbase.vnet_lt P.vcs_pos
      obtain ⟨i, hi⟩ := List.mem_iff_getElem?.mp hbase.port
      have hidx := dirn2idx_eq (inports_pairwise P r) hi hbase.mesh
      dsimp only
      rw [if_pos hmesh, Net.setSwapPtr, Net.setRouter_router, Function.update_self]
      refine ⟨rfl, p, f.vc, ⟨Int.natCast_nonneg _, ?_, rfl, hlt⟩, ?_, vnet, f, hbase,
        mesh_ne_local hmesh⟩
      · show (P.inports r)[(Params.dirn2idx (P.inports r) p.dirn : Int).toNat]? = some p
        rw [Int.toNat_natCast, hidx, hi]
      · rw [hname]
        show s.buf _ ≠ []
        rw [hbuf]
        exact List.cons_ne_nil f fs

def Params.triple : Params :=
  { Params.mesh 1 3 Params.one_lt_row_three with
    virtualNetworks := 3
    vcsPerVnet := 1
    vcs_pos := Nat.one_pos
    routerLatency := fun _ => 3
    routingAlgorithm := .xy
    interswap := true
    whenToSwap := 100
    when_pos := fun _ => Nat.succ_pos 99
    injSingleVnet := 0 }

/-- The row after `n` steps with three messages, two from node `0` and one from node `2`. -/
def tripleRun (dest n : Nat) : Option Net :=
  (run .triple [.protocol 0 (.send 2 ⟨0, 0, 0, 0, .singleton 2⟩ 1 0),
      .protocol 0 (.send 1 ⟨0, 0, 0, 0, .singleton dest⟩ 2 0),
      .protocol 2 (.send 1 ⟨0, 0, 0, 0, .singleton 0⟩ 2 0)] (.init .triple)).bind
    (simulate .triple n)

theorem tripleRun_reachable {dest n : Nat} {s : Net} (h : tripleRun dest n = some s) :
    Reachable .triple s :=
  reachable_of_run_simulate _ .init h

/-- What the validation of the middle router sees after `34` steps. -/
def tripleView (s : Net) : Bool × Int × Option PortDirection × Option PortDirection :=
  ((s.router 1).swapPtr.valid, (s.router 1).swapPtr.vcid,
    (firstBase .triple 1 s).map fun q => q.2.outportDir,
    (s.buf (.inputVc (.int 2 .West) 1)).head?.map fun f => f.outportDir)

/-- With both messages of node `0` for node `2`, the pointer becomes valid. -/
theorem revalidates_iff_triple : ∃ s, tripleRun 2 34 = some s ∧
    (s.router 1).swapPtr.valid = false ∧ Revalidates .triple 1 s := by
  have hrun : (tripleRun 2 34).map tripleView = some (false, -1, some .East, some .West) := by
    decide +kernel
  obtain ⟨s, hs, hview⟩ := map_eq_some_iff.mp hrun
  simp only [tripleView, Prod.mk.injEq] at hview
  obtain ⟨hv, hid, hfirst, -⟩ := hview
  refine ⟨s, hs, hv, (revalidates_iff hv hid
    ((namesVc .triple).reachable (tripleRun_reachable hs))).mpr fun _ d f hf => ?_⟩
  rw [hf, map_some, some.injEq] at hfirst
  rw [hfirst]
  rfl

/-- The flit bound for the `Local` port is met first, and the pointer stays invalid although there
is a candidate. -/
theorem validate_stops_at_local : ∃ s, Reachable .triple s ∧ s.now ∈ s.events (.router 1) ∧
    (s.router 1).swapPtr.valid = false ∧
    HasCandidate .triple 1 s ⟨.East, .int 2 .West⟩ ∧
    validateSwapPtr .triple 1 s = .ok s ∧ ¬ Revalidates .triple 1 s := by
  have hrun : (tripleRun 1 34).map (fun s => (tripleView s, decide (s.now ∈ s.events (.router 1)))) =
      some ((false, -1, some .Local, some .West), true) := by
    decide +kernel
  obtain ⟨s, hs, hview⟩ := map_eq_some_iff.mp hrun
  simp only [tripleView, Prod.mk.injEq, decide_eq_true_eq] at hview
  obtain ⟨⟨hv, hid, hfirst, heast⟩, hev⟩ := hview
  obtain ⟨f, hf, hdir⟩ := map_eq_some_iff.mp heast
  have hcand : HasCandidate .triple 1 s ⟨.East, .int 2 .West⟩ := by
    refine ⟨1, f, ⟨by decide, rfl, by decide, hf⟩, ?_⟩
    rw [hdir]
    decide
  obtain ⟨⟨d, g⟩, hg, hgdir⟩ := map_eq_some_iff.mp hfirst
  have hkeep : validateSwapPtr .triple 1 s = .ok s := by
    rw [validateSwapPtr_eq hv hid, hg]
    show Except.ok (if g.outportDir.isMesh then _ else s) = _
    rw [hgdir]
    rfl
  refine ⟨s, tripleRun_reachable hs, hev, hv, hcand, hkeep, ?_⟩
  rintro ⟨s', hs', hvalid⟩
  rw [hkeep] at hs'
  obtain rfl := Except.ok.inj hs'
  have htrue := (hvalid ⟨_, hcand⟩).1
  rw [hv] at htrue
  cases htrue

end NocSwap
