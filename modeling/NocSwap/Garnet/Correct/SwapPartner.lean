import NocSwap.Garnet.Correct.MeshTopology
import NocSwap.Garnet.Correct.Refine.Swap

/-!
# The partner of a swap
-/

namespace NocSwap

open MeshScript

theorem nbr_of_meshHop {P : Params} {a b : Nat} {d : PortDirection} (hb : b < P.numRouters)
    (h : Hop P.numCols a b d) : P.nbr a d = some b := by
  apply nbr_of_hop hb
  cases d with
  | East | North | Local | Unknown | Empty => exact h
  | West => exact ⟨h.1.symm, h.2⟩
  | South => exact ⟨h.1, h.2.symm⟩

theorem getUpstreamId_eq {P : Params} {d : PortDirection} (h : d.isMesh = true) (r : Nat) :
    getUpstreamId P d r = getDownstreamId P d r := by
  cases d <;> first | rfl | cases h

/-- **The partner of a swap is the far end of the link**, in a topology of `Mesh_XY.makeTopology`.
-/
theorem swap_partner {numRows latency numRouters : Nat} {controllers : Controllers} {T : Topology}
    (hT : meshXY.makeTopology numRows latency controllers numRouters = some T) (P : Params)
    (hrows : P.numRows = numRows) (hrouters : P.numRouters = numRouters) {l : IntLink}
    (hl : l ∈ T.intLinks) :
    getDownstreamId P l.srcOutport l.srcNode = .ok (l.dstNode : Int) ∧
    getDownstreamDirn l.srcOutport = l.dstInport ∧
    getUpstreamId P l.dstInport l.dstNode = .ok (l.srcNode : Int) ∧
    (⟨l.srcOutport, .int l.srcNode l.srcOutport⟩ ∈ P.outports l.srcNode ∧
      P.linkConsumer (.int l.srcNode l.srcOutport) = .router l.dstNode ∧
      ⟨l.dstInport, .int l.srcNode l.srcOutport⟩ ∈ P.inports l.dstNode) ∧
    ∀ (s s' : Net) (f g : Flit) (p : Port) (v rnd : Nat),
      PtrAt P l.srcNode (s.router l.srcNode).swapPtr p v → f.outportDir = l.srcOutport →
      doSwap P f l.srcNode rnd s = .ok (some g, s') →
      ∃ gs outport, s.buf (.inputVc (.int l.srcNode l.srcOutport) v) = g :: gs ∧
        s'.buf = Function.update s.buf (.inputVc (.int l.srcNode l.srcOutport) v)
          (swappedFlit P l.dstNode { f with routedSwap := true } outport v :: gs) := by
  obtain ⟨latency', hint⟩ := (Topology.isMesh_of_makeTopology hT).int
  have hcols : numRouters / numRows = P.numCols := by
    rw [← hrouters, ← hrows]
    exact Nat.mul_div_cancel_left _ P.rows_pos
  rw [hint, hcols, ← hrows] at hl
  obtain ⟨d, hhop, hsrc, hdst, heq⟩ := (meshXY.mem_intLinks).mp hl
  have hout : l.srcOutport = d := by rw [heq]; rfl
  have hin : l.dstInport = getDownstreamDirn d := by rw [heq]; rfl
  have hnbr := nbr_of_meshHop hdst hhop
  have hmesh := nbr_isMesh hnbr
  have hback := nbr_symm hsrc hnbr
  have hfacing := facing_inport hsrc hnbr
  rw [hout, hin]
  refine ⟨getDownstreamId_of_nbr hnbr, rfl, ?_, ⟨?_, ?_, List.mem_of_getElem? hfacing⟩, ?_⟩
  · rw [getUpstreamId_eq (getDownstreamDirn_isMesh hmesh)]
    exact getDownstreamId_of_nbr hback
  · exact mem_outports.mpr (.inr ⟨d, l.dstNode, hnbr, rfl⟩)
  · simp [Params.linkConsumer, hnbr]
  · intro s s' f g p v rnd hptr hdir hswap
    rcases (doSwap_outcome hptr f rnd).of_ok hswap with ⟨x, hres⟩ | ⟨d', q, g', gs, fOut, hh, hres⟩
    · cases hres
    · obtain ⟨hg, rfl⟩ := Prod.mk.inj hres
      obtain rfl := Option.some.inj hg
      have hdown := hh.downstream_eq
      rw [hdir, downstream_of_nbr hsrc hnbr] at hdown
      obtain rfl := Except.ok.inj hdown
      have hq := hh.facing
      rw [hdir, hfacing] at hq
      obtain rfl := Option.some.inj hq
      exact ⟨gs, fOut, hh.head, rfl⟩

/-- The link from the first router of a row of two to the second. -/
theorem swap_partner_pair :
    getDownstreamId Params.pair .East 0 = .ok 1 ∧ getUpstreamId Params.pair .West 1 = .ok 0 := by
  obtain ⟨T, hT⟩ : ∃ T, meshXY.makeTopology 1 1 twoControllers 2 = some T := ⟨_, rfl⟩
  have hl : (⟨0, 1, .East, .West, 1, 1⟩ : IntLink) ∈ T.intLinks := by
    rw [← Option.some.inj hT]
    decide
  have h := swap_partner hT Params.pair rfl rfl hl
  exact ⟨h.1, h.2.2.1⟩

end NocSwap
