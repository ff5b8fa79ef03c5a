import NocSwap.Garnet.Correct.Fresh
import NocSwap.Garnet.Correct.Routed
import NocSwap.Garnet.Correct.Stalled
import NocSwap.Ruby.BufferRun

/-!
# Virtual networks and delivery
-/

namespace NocSwap

open NocSwap.Topology Function List Set

variable {P : Params} {s s' : Net} {n : Nat}

/-! ### Ports to interfaces -/

theorem dist_exit {d j : Nat} (hd : d < P.numNodes) (hne : P.numNodes + d ≠ j) :
    infiniteLatency ≤ P.dist (P.numNodes + d) j := by
  refine shortestPath_pointwise (Φ := fun i j x => P.numNodes ≤ i → i < 2 * P.numNodes → i ≠ j →
    infiniteLatency ≤ x) ?_ _ ?_ _ j (Nat.le_add_right ..) (by omega) hne
  · intro i k j x y hx hy h1 h2 hij
    rcases eq_or_ne i k with rfl | hik
    · exact (hy h1 h2 hij).trans (Nat.le_add_left ..)
    · exact (hx h1 h2 hik).trans (Nat.le_add_right ..)
  · intro i j h1 h2 hij
    unfold Params.topologyWeights
    rw [if_neg hij, if_neg (by omega), if_pos h2]

theorem eq_of_mem_routingTableEntry {r d n : Nat} (hd : d < P.numNodes) (hn : n < P.numNodes)
    (h : d ∈ P.routingTableEntry r (.extOut n)) : n = d := by
  have hlink := of_decide_eq_true (mem_filter.mp h).2
  by_contra hne
  have hfar := dist_exit (P := P) (j := P.numNodes + d) hn (by omega)
  have hweight := (topologyWeights_separated P).pos (2 * P.numNodes + r) (P.numNodes + n) (by omega)
  have hle := shortestPath_le P.numSwitches P.topologyWeights (fun _ _ => -1) (2 * P.numNodes + r)
    (P.numNodes + d)
  have hinf : P.topologyWeights (2 * P.numNodes + r) (P.numNodes + d) ≤ infiniteLatency := by
    simp only [Params.topologyWeights, infiniteLatency]
    split_ifs <;> omega
  have hdist : P.dist (2 * P.numNodes + r) (P.numNodes + d) ≤ infiniteLatency := hle.trans hinf
  rw [← hlink] at hdist
  simp only [Params.portSwitch] at hdist
  omega

/-- If the output port that a flit carries leads to an interface, it is that of the destination. -/
def ExitOk (P : Params) (r outport : Nat) (route : RouteInfo) : Prop :=
  ∀ o n, (P.outports r)[outport]? = some o → o.link = .extOut n → route.destNi = n

theorem exitOk_of_routesTo {r outport : Nat} {route : RouteInfo} (hroute : RouteOk P route)
    (h : RoutesTo P r route outport) : ExitOk P r outport route := by
  intro o n ho hexit
  rcases routesTo_cases hroute h with ⟨o', ho', hmem, -⟩ | ⟨dirn, -, -, ho'⟩
  · obtain rfl : o' = o := Option.some.inj (ho'.symm.trans ho)
    have hn : n < P.numNodes := by
      rcases mem_outports.mp (mem_of_getElem? ho) with ⟨k, hk, -, rfl⟩ | ⟨dirn, v, -, rfl⟩
      · exact Link.extOut.inj hexit ▸ hk
      · cases hexit
    rw [hexit] at hmem
    exact (eq_of_mem_routingTableEntry hroute.destNi_lt hn hmem).symm
  · -- a direction of the mesh leads to a neighbour
    rw [ho'] at ho
    rw [← Option.some.inj ho] at hexit
    cases hexit

def BoundFor (P : Params) : Buf → Flit → Prop
  | .inputVc l _, f => ∀ r < P.numRouters, ∀ p ∈ P.inports r, p.link = l →
      ExitOk P r f.outport f.route
  | .switchBuffer r _, f => ExitOk P r f.outport f.route
  | .srcQueue (.extOut n), f | .linkBuffer (.extOut n), f | .stallQueue n, f => f.route.destNi = n
  | _, _ => True

theorem boundFor_inputVc {r v : Nat} {p : Port} {f : Flit} (hr : r < P.numRouters)
    (hp : p ∈ P.inports r) (h : ExitOk P r f.outport f.route) :
    BoundFor P (.inputVc p.link v) f :=
  forall_inport hr hp h

theorem boundFor (P : Params) : InductiveUnder P (fun s => ∀ b, ∀ f ∈ s.buf b, RouteOk P f.route)
    fun s => ∀ b, ∀ f ∈ s.buf b, BoundFor P b f := by
  refine flits_inductive fun s hroute h b f haft => ?_
  have hhead : ∀ {b₀ g gs}, s.buf b₀ = g :: gs → RouteOk P g.route :=
    fun {b₀ g gs} hb => hroute b₀ g (hb ▸ mem_cons_self ..)
  cases haft with
  | kept hf => exact h b f hf
  | @cleared _ g hf =>
    have hg := h b g hf
    cases b with
    | srcQueue l | linkBuffer l => cases l <;> exact hg
    | _ => exact hg
  | @linked l g _ hf =>
    have hg := h _ g hf
    cases l <;> exact hg
  | arrived ha =>
    obtain ⟨h1, h2, h3⟩ := hhead ha.head
    exact boundFor_inputVc ha.router_lt ha.port (exitOk_of_routesTo ⟨h1, h2, h3⟩ ha.route)
  | handedBack hs =>
    exact boundFor_inputVc hs.router_lt (mem_of_getElem? hs.ptr.port)
      (exitOk_of_routesTo (hhead hs.head') hs.route' :)
  | swapped hs =>
    exact boundFor_inputVc (downstream_spec hs.downstream_eq).1 (mem_of_getElem? hs.facing)
      (exitOk_of_routesTo (hhead hs.head) hs.route :)
  | @granted r i o v w p _ g _ _ hg =>
    have hbound : BoundFor P (.inputVc p.link v) g := h _ g (hg.head ▸ mem_cons_self ..)
    have hexit := hbound r hg.router_lt p (mem_of_getElem? hg.port) rfl
    rw [hg.outport_eq] at hexit
    exact hexit
  | @crossed r i g o ho hf =>
    have hexit := h _ g hf o
    cases hl : o.link with
    | extOut n => exact hexit n ho hl
    | _ => trivial
  | @stalled n g hf => exact (h _ g hf :)
  | _ => trivial

theorem injSingleVnet_of_flit (P : Params) : Inductive P fun s =>
    ∀ b, ∀ f ∈ s.buf b, P.injSingleVnet = 0 ∨ P.injSingleVnet = 1 :=
  static_inductive (φ := fun _ => P.injSingleVnet = 0 ∨ P.injSingleVnet = 1)
    fun _ _ _ _ _ _ hc => hc.injSingleVnet

theorem consumed_destNi (P : Params) : Inductive P fun s =>
    ((∀ b, ∀ f ∈ s.buf b, RouteOk P f.route) ∧ ∀ b, ∀ f ∈ s.buf b, BoundFor P b f) ∧
      ∀ e ∈ s.consumed, e.2.route.destNi = e.1 := by
  refine InductiveUnder.and ⟨fun _ h => (nomatch h), fun _ _ h => h, fun _ h => h, ?_⟩
    ((boundFor P).and (routeOk P))
  intro s c s' _ hI h hm
  cases hm with
  | @eject n f fs _ hb =>
    refine forall_mem_cons.mpr ⟨?_, h⟩
    exact (hI.2 (.linkBuffer (.extOut n)) f (hb ▸ mem_cons_self ..) :)
  | @unstall n f fs gs _ hb =>
    refine forall_mem_cons.mpr ⟨?_, h⟩
    exact hI.2 (.stallQueue n) f (hb ▸ mem_append_right _ (mem_cons_self ..))
  | _ => exact h

/-- The message of `f` is in the output buffer of its virtual network, and a credit that frees its
channel goes back. -/
structure Delivered (P : Params) (n : Nat) (f : Flit) (s s' : Net) : Prop where
  consumed : s'.consumed = (n, f) :: s.consumed
  credit : s'.credits (.queue (.extOut n)) =
    insertCredit ⟨f.vc, true, s.now⟩ (s.credits (.queue (.extOut n)))
  enqueued : ∃ rnd b arrival,
    ((s.ni n).outNode f.vnet).enqueue P.rubyFlags f.msg s.now 1 rnd = .ok (b, arrival) ∧
      ((s'.ni n).outNode f.vnet).messages = b.messages
  others : ∀ v, v ≠ f.vnet → ((s'.ni n).outNode v).messages = ((s.ni n).outNode v).messages

structure Undelivered (n : Nat) (s s' : Net) : Prop where
  consumed : s'.consumed = s.consumed
  credit : s'.credits (.queue (.extOut n)) = s.credits (.queue (.extOut n))
  messages : ∀ v, ((s'.ni n).outNode v).messages = ((s.ni n).outNode v).messages

theorem Undelivered.rfl' : Undelivered n s s := ⟨rfl, rfl, fun _ => rfl⟩

theorem Undelivered.trans {t : Net} (h : Undelivered n s s') (h' : Undelivered n s' t) :
    Undelivered n s t :=
  ⟨h'.consumed.trans h.consumed, h'.credit.trans h.credit,
    fun v => (h'.messages v).trans (h.messages v)⟩

theorem Quiet.undelivered {B : Set Buf} {C : Set CreditBuf} (h : Quiet B C s s')
    (hc : .queue (.extOut n) ∉ C) : Undelivered n s s' :=
  ⟨h.consumed, h.credits _ hc, fun v => by rw [h.outNode]⟩

theorem Delivered.after {t : Net} {f : Flit} (hnow : t.now = s.now)
    (hout : (t.ni n).outNode = (s.ni n).outNode) (h : Undelivered n s t)
    (h' : Delivered P n f t s') : Delivered P n f s s' where
  consumed := by rw [h'.consumed, h.consumed]
  credit := by rw [h'.credit, h.credit, hnow]
  enqueued := by
    obtain ⟨rnd, b, a, henq, hmsgs⟩ := h'.enqueued
    rw [hout, hnow] at henq
    exact ⟨rnd, b, a, henq, hmsgs⟩
  others v hv := by rw [h'.others v hv, hout]

theorem Delivered.before {t : Net} {f : Flit} (h : Delivered P n f s s')
    (h' : Undelivered n s' t) : Delivered P n f s t where
  consumed := h'.consumed.trans h.consumed
  credit := h'.credit.trans h.credit
  enqueued := by
    obtain ⟨rnd, b, a, henq, hmsgs⟩ := h.enqueued
    exact ⟨rnd, b, a, henq, (h'.messages _).trans hmsgs⟩
  others v hv := (h'.messages v).trans (h.others v hv)

theorem deliver_delivered (f : Flit) (rnd : Nat) (s : Net) : Outcome (deliver P n f rnd s)
      (fun s' => Touches ∅ {.queue (.extOut n)} s s' ∧ Delivered P n f s s') fun _ => True := by
  simp only [deliver, outcome_do]
  refine Outcome.introOk fun res henq => ⟨?_, ⟨rfl, ?_, ?_, fun v hv => ?_⟩⟩
  · have hset : Quiet ∅ {.queue (.extOut n)} s
        (s.insertCredit (.queue (.extOut n)) ⟨f.vc, true, s.now⟩) :=
      .setCredits (mem_singleton _) ..
    exact ⟨rfl, hset.buf, hset.credits, hset.scheduled⟩
  · simp [Net.setOutNode, Net.insertCredit]
  · exact ⟨rnd, res.1, res.2, henq, by simp [Net.setOutNode, Net.insertCredit]⟩
  · simp [Net.setOutNode, Net.insertCredit, hv]

theorem Undelivered.of_update {vnet : Nat} {b : MessageBuffer} (hcon : s'.consumed = s.consumed)
    (hcr : s'.credits = s.credits) (hout : (s'.ni n).outNode = update (s.ni n).outNode vnet b)
    (hb : b.messages = ((s.ni n).outNode vnet).messages) : Undelivered n s s' := by
  refine ⟨hcon, by rw [hcr], fun v => ?_⟩
  rw [hout]
  rcases eq_or_ne v vnet with rfl | hne
  · rw [update_self, hb]
  · rw [update_of_ne hne]

theorem checkStallQueue_delivers (rnd : Nat) (l : List Flit) : ∀ done,
    Outcome (checkStallQueue P n rnd done l s)
      (fun res => Touches {.stallQueue n} {.queue (.extOut n)} s res.2 ∧
        (res = (false, s) ∨ (res.1 = true ∧ ∃ f, Delivered P n f s res.2))) fun _ => True := by
  induction l with
  | nil => exact fun _ => ⟨Quiet.rfl'.toTouches, .inl rfl⟩
  | cons f rest ih =>
    intro done
    simp only [checkStallQueue, outcome_do, outcome_ite]
    refine fun _ => ⟨fun _ => ?_, fun _ => ih (f :: done)⟩
    refine (deliver_delivered f rnd s).imp fun t ht => ?_
    have htouch : Touches {.stallQueue n} {.queue (.extOut n)} s
        (t.setBuf (.stallQueue n) (done.reverse ++ rest)) :=
      (ht.1.mono (empty_subset _) (subset_refl _)).trans
        (Quiet.setBuf (mem_singleton _) ..).toTouches
    -- the callback of the buffer may go with the last stalled flit
    split_ifs
    · refine ⟨⟨htouch.now, htouch.buf, htouch.credits, htouch.scheduled⟩, .inr ⟨f, ?_⟩⟩
      exact ht.2.before (.of_update (b := ((t.ni n).outNode f.vnet).unregisterDequeueCallback) rfl rfl
        (by simp [Net.setOutNode]) rfl)
    · refine ⟨⟨htouch.now, htouch.buf, htouch.credits, htouch.scheduled⟩, .inr ⟨f, ?_⟩⟩
      exact ht.2.before ⟨rfl, rfl, fun v => by simp⟩

section

variable (htail : ∀ f ∈ s.buf (.linkBuffer (.extOut n)), f.isTail = true)
include htail

theorem niArrival_delivers (rnd : Nat) (enqueued : Bool) : Outcome (niArrival P n rnd enqueued s)
      (fun s' => Touches {.stallQueue n, .linkBuffer (.extOut n)} {.queue (.extOut n)} s s' ∧
        s'.buf (.linkBuffer (.extOut n)) = dropReady s.now (s.buf (.linkBuffer (.extOut n))) ∧
        (Undelivered n s s' ∨ (enqueued = false ∧ ∃ f, Delivered P n f s s'))) fun _ => True := by
  unfold niArrival
  cases hb : s.buf (.linkBuffer (.extOut n)) with
  | nil => exact ⟨Quiet.rfl'.toTouches, hb, .inl .rfl'⟩
  | cons f fs =>
    by_cases ht : f.time ≤ s.now
    case neg =>
      rw [dropReady_of_not_le ht]
      simp only [ht, if_false]
      exact ⟨Quiet.rfl'.toTouches, hb, .inl .rfl'⟩
    rw [dropReady_of_le ht]
    simp only [ht, if_true, ejectFlit, outcome_ite, outcome_do]
    have hpop : Touches {.stallQueue n, .linkBuffer (.extOut n)} {.queue (.extOut n)} s
        (s.setBuf (.linkBuffer (.extOut n)) fs) := (Quiet.setBuf (.inr rfl) s fs).toTouches
    refine ⟨fun _ _ => ⟨fun hfree => ?_, fun _ => ?_⟩, fun hnot => ?_⟩
    · have he : enqueued = false := by simpa using (Bool.and_eq_true_iff.mp hfree).1
      refine (deliver_delivered _ rnd _).imp fun s' h => ?_
      refine ⟨hpop.trans (h.1.mono (empty_subset _) (subset_refl _)), ?_,
        .inr ⟨he, { f with dequeueTime := s.now }, ?_⟩⟩
      · rw [h.1.buf _ fun h => h]
        exact update_self ..
      · exact .after (t := s.setBuf (.linkBuffer (.extOut n)) fs) rfl rfl
          ⟨rfl, rfl, fun _ => rfl⟩ h.2
    · have hstall := hpop.trans (Quiet.setBuf (.inl rfl) (s.setBuf (.linkBuffer (.extOut n)) fs)
        ((s.setBuf (.linkBuffer (.extOut n)) fs).buf (.stallQueue n) ++
          [{ f with dequeueTime := s.now }])).toTouches
      refine ⟨⟨hstall.now, hstall.buf, hstall.credits, hstall.scheduled⟩, ?_, .inl ?_⟩
      · simp [Net.setOutNode]
      · exact .of_update (b := ((s.ni n).outNode f.vnet).registerDequeueCallback) rfl rfl
          (by simp [Net.setOutNode]) rfl
    · exact absurd (htail f (hb ▸ mem_cons_self ..)) hnot

theorem eject_delivers (rnd rnd' : Nat) (l : List Flit) :
    Outcome (checkStallQueue P n rnd [] l s) (fun res => Outcome (niArrival P n rnd' res.1 res.2)
      (fun s' => Touches {.stallQueue n, .linkBuffer (.extOut n)} {.queue (.extOut n)} s s' ∧
        s'.buf (.linkBuffer (.extOut n)) = dropReady s.now (s.buf (.linkBuffer (.extOut n))) ∧
        (Undelivered n s s' ∨ ∃ f, Delivered P n f s s')) fun _ => True) fun _ => True := by
  refine (checkStallQueue_delivers rnd l []).imp fun res ⟨htouch, hres⟩ => ?_
  obtain ⟨enqueued, t⟩ := res
  have hlink : t.buf (.linkBuffer (.extOut n)) = s.buf (.linkBuffer (.extOut n)) :=
    htouch.buf _ (by simp)
  refine (niArrival_delivers (by rwa [hlink]) rnd' enqueued).imp
    fun s' ⟨htouch', harr, hdel⟩ => ⟨?_, ?_, ?_⟩
  · exact (htouch.mono (by simp) (subset_refl _)).trans htouch'
  · rw [harr, hlink, htouch.now]
  · rcases hres with heq | ⟨he, f, hf⟩
    · obtain ⟨rfl, rfl⟩ := Prod.mk.inj heq
      exact hdel.imp_right And.right
    · -- a stalled flit has been delivered, so the arriving one is not
      have hstalled : Undelivered n t s' := hdel.resolve_right fun h => by
        rw [show enqueued = true from he] at h
        exact Bool.noConfusion h.1
      exact .inr ⟨f, hf.before hstalled⟩

end

def niPlaces (n : Nat) : Set Buf := sendPlaces n ∪ {.stallQueue n, .linkBuffer (.extOut n)}

def niCredits (n : Nat) : Set CreditBuf := {.queue (.extOut n), .link (.extIn n)}

structure Received (P : Params) (n : Nat) (s s' : Net) : Prop where
  touches : Touches (niPlaces n) (niCredits n) s s'
  sends : Sends (.extIn n) s s'
  arrives : s'.buf (.linkBuffer (.extOut n)) = dropReady s.now (s.buf (.linkBuffer (.extOut n)))
  credit : s'.credits (.link (.extIn n)) = dropReady s.now (s.credits (.link (.extIn n)))
  returns : s'.credits (.queue (.extOut n)) ≠ [] → s.now + 1 ∈ s'.scheduled (.creditLink (.extOut n))
  delivers : Undelivered n s s' ∨ ∃ f, Delivered P n f s s'

/-- The wakeup of an interface sends one flit at most, takes what is ready off its links, and
delivers one flit at most. -/
theorem niWakeup_received (htail : ∀ f ∈ s.buf (.linkBuffer (.extOut n)), f.isTail = true)
    (rnd : Nat → Nat) : Outcome (niWakeup P n rnd s) (Received P n s) fun _ => True := by
  simp only [niWakeup, outcome_do]
  refine (injectVnets_quiet s).imp fun s₁ h₁ => ?_
  refine (scheduleOutputLink_quiet s₁).imp fun s₂ h₂ => ?_
  have hq : Quiet (sendPlaces n) ∅ s (checkReschedule P n s₂) :=
    (h₁.mono subset_union_left (subset_refl _)).trans (h₂.1.trans (checkReschedule_quiet s₂))
  have hsends : Sends (.extIn n) s (checkReschedule P n s₂) :=
    h₂.2.congr h₁.toTouches (by simp [niOutVcs]) h₂.1.now
      (checkReschedule_quiet (B := ∅) (C := ∅) s₂).toTouches fun h => h
  generalize checkReschedule P n s₂ = t at hq hsends
  have hlink : t.buf (.linkBuffer (.extOut n)) = s.buf (.linkBuffer (.extOut n)) :=
    hq.buf _ (by simp [sendPlaces, niOutVcs])
  refine (eject_delivers (by rwa [hlink]) (rnd 0) (rnd 1) _).imp fun res h₃ => ?_
  refine h₃.imp ?_
  rintro t₁ ⟨htouch₁, harr, hdel⟩
  refine (creditArrival_quiet (.extIn n) t₁).imp ?_
  rintro t₂ ⟨h₄, hcr⟩
  generalize ht₃ : (if (t₂.credits (.queue (.extOut n))).isEmpty then t₂
    else t₂.schedule (.creditLink (.extOut n)) (t₂.now + 1)) = t₃
  have hlast : Quiet ∅ ∅ t₂ t₃ := by
    rw [← ht₃]
    split_ifs
    · exact .rfl'
    · exact .schedule ..
  have h₅ : Quiet ∅ {.link (.extIn n)} t₁ t₃ := h₄.trans (hlast.mono (subset_refl _) (by simp))
  have heject : Touches {.stallQueue n, .linkBuffer (.extOut n)} (niCredits n) t t₃ :=
    (htouch₁.mono (subset_refl _) (by simp [niCredits])).trans
      (h₅.toTouches.mono (empty_subset _) (by simp [niCredits]))
  have hnow : t₂.now = s.now := by rw [h₄.now, htouch₁.now, hq.now]
  refine ⟨?_, hsends.congr (.none s) (fun h => h) hq.now heject (by simp), ?_, ?_, fun hne => ?_, ?_⟩
  · exact (hq.toTouches.mono subset_union_left (empty_subset _)).trans
      (heject.mono subset_union_right (subset_refl _))
  · rw [h₅.buf _ fun h => h, harr, hlink, hq.now]
  · rw [hlast.credits _ fun h => h, hcr, htouch₁.credits _ (by simp), htouch₁.now, hq.now,
      hq.credits _ fun h => h]
  · rw [hlast.credits _ fun h => h] at hne
    rw [← ht₃, if_neg fun hempty => hne (isEmpty_iff.mp hempty), ← hnow]
    exact Net.mem_scheduled _ _ (Nat.le_succ _)
  · have hbefore : Undelivered n s t := hq.undelivered fun h => h
    have hafter : Undelivered n t₁ t₃ := h₅.undelivered (by simp)
    refine hdel.imp (fun h => (hbefore.trans h).trans hafter) ?_
    rintro ⟨f, hf⟩
    exact ⟨f, (Delivered.after hq.now (hq.outNode n) hbefore hf).before hafter⟩

theorem wake_received (hs : Reachable P s) {rnd : Nat → Nat}
    (hex : exec P (.wake (.ni n) rnd) s = .ok s') : Received P n (s.fire (.ni n)) s' := by
  have htail : ∀ f ∈ (s.fire (.ni n)).buf (.linkBuffer (.extOut n)), f.isTail = true :=
    fun f hf => Flit.isTail_of_headTail ((headTail P).reachable hs _ f hf)
  exact (niWakeup_received htail rnd).of_ok hex

theorem step_delivers (hs : Reachable P s) {l : Label} (hen : Enabled P s l)
    (hex : exec P l s = .ok s') : s'.consumed = s.consumed ∨
      ∃ n f rnd, l = .wake (.ni n) rnd ∧ Delivered P n f s s' := by
  cases l with
  | tick => exact .inl (by rw [← Except.ok.inj hex])
  | protocol n op => exact .inl ((protocolStep_touches n op s).of_ok hex).2
  | wake c rnd =>
    by_cases hc : ∀ n, c ≠ .ni n
    · exact .inl (((exec_outcome hen).of_ok hex).1.ni_eq hc).2
    obtain ⟨n, rfl⟩ := not_forall_not.mp hc
    rcases (wake_received hs hex).delivers with h | ⟨f, hf⟩
    · exact .inl h.consumed
    · exact .inr ⟨n, f, rnd, rfl, hf.consumed, hf.credit, hf.enqueued, hf.others⟩

/-- **Virtual networks are isolated.** A buffered flit carries its channel, of the virtual network
it was injected into, and is ejected into the output buffer of its own. -/
theorem vnet_isolation (hs : Reachable P s) :
    (∀ r < P.numRouters, ∀ p ∈ P.inports r, ∀ v, ∀ f ∈ s.buf (.inputVc p.link v), f.vc = v ∧
      ((P.injSingleVnet = 0 ∧ v / P.vcsPerVnet = f.vnet) ∨
        (P.injSingleVnet = 1 ∧ v / P.vcsPerVnet = 0))) ∧
    (∀ b, ∀ f ∈ s.buf b, f.vc / P.vcsPerVnet = P.injVnet f.vnet) ∧
    ∀ l s', Enabled P s l → exec P l s = .ok s' → s'.consumed = s.consumed ∨
      ∃ f rnd, l = .wake (.ni f.route.destNi) rnd ∧ Delivered P f.route.destNi f s s' := by
  obtain ⟨⟨-, hname⟩, hvnet⟩ := (vc_vnet P).reachable hs
  refine ⟨fun r _ p _ v f hf => ?_, hvnet, fun l s' hen hex => ?_⟩
  · have hvc : f.vc = v := hname _ f hf
    have hdiv := hvnet _ f hf
    rw [hvc] at hdiv
    refine ⟨hvc, (injSingleVnet_of_flit P).reachable hs _ f hf |>.imp (fun h0 => ⟨h0, ?_⟩)
      fun h1 => ⟨h1, ?_⟩⟩
    · rw [hdiv, Params.injVnet, if_pos h0]
    · rw [hdiv, Params.injVnet, if_neg (by rw [h1]; exact Nat.one_ne_zero)]
  · rcases step_delivers hs hen hex with h | ⟨n, f, rnd, rfl, hf⟩
    · exact .inl h
    -- the flit is recorded at `n`, so `n` is its destination
    have hdest := ((consumed_destNi P).reachable (hs.step _ hen hex)).2 (n, f)
      (hf.consumed ▸ mem_cons_self ..)
    obtain rfl : f.route.destNi = n := hdest
    exact .inr ⟨f, rnd, rfl, hf⟩

/-- A flit handed back by a swap is in the channel that it carries; the first one at interface `0`
of the hub is delivered. -/
theorem vnet_isolation_runs :
    (∃ s f, quadRun 28 = some s ∧ f ∈ s.buf (.inputVc (.int 3 .West) 0) ∧ s.swapLog.length = 1 ∧
      f.vc = 0) ∧
    ∃ s s' f, hubSetup.bind (simulate (.hub 0) 13) = some s ∧
      exec (.hub 0) (.wake (.ni 0) fun _ => 0) s = .ok s' ∧ f.route.destNi = 0 ∧
      Delivered (.hub 0) 0 f s s' := by
  have hquad : (quadRun 28).map (fun s =>
      ((s.buf (.inputVc (.int 3 .West) 0)).length, s.swapLog.length)) = some (1, 1) := by
    decide +kernel
  have hhub : (hubSetup.bind (simulate (.hub 0) 13)).bind (fun s =>
      (exec (.hub 0) (.wake (.ni 0) fun _ => 0) s).toOption.map fun s' =>
        (decide (Enabled (.hub 0) s (.wake (.ni 0) fun _ => 0)), s.consumed.length,
          s'.consumed.length)) = some (true, 0, 1) := by
    decide +kernel
  constructor
  · obtain ⟨s, hs, hval⟩ := Option.map_eq_some_iff.mp hquad
    obtain ⟨hlen, hswap⟩ := Prod.mk.inj hval
    obtain ⟨f, hf⟩ := length_eq_one_iff.mp hlen
    have hmem : f ∈ s.buf (.inputVc (.int 3 .West) 0) := by
      rw [hf]
      exact mem_singleton_self f
    exact ⟨s, f, hs, hmem, hswap, ((vnet_isolation (quadRun_reachable hs)).1 2 (by decide)
      ⟨.East, .int 3 .West⟩ (by decide) 0 f hmem).1⟩
  · obtain ⟨s, hs, hstep⟩ := Option.bind_eq_some_iff.mp hhub
    obtain ⟨t, ht, hsim⟩ := Option.bind_eq_some_iff.mp hs
    obtain ⟨s', hs', hval⟩ := Option.map_eq_some_iff.mp hstep
    obtain ⟨hen, hlen⟩ := Prod.mk.inj hval
    obtain ⟨hlen, hlen'⟩ := Prod.mk.inj hlen
    have hreach : Reachable (.hub 0) s := reachable_of_simulate _ (reachable_of_run .init ht) hsim
    rcases (vnet_isolation hreach).2.2 _ s' (of_decide_eq_true hen) (eq_ok_of_toOption hs') with
      h | ⟨f, rnd, hl, hf⟩
    · rw [h, hlen] at hlen'
      cases hlen'
    · have hdest : 0 = f.route.destNi := Consumer.ni.inj (Label.wake.inj hl).1
      exact ⟨s, s', f, hs, eq_ok_of_toOption hs', hdest.symm, hdest ▸ hf⟩

end NocSwap
