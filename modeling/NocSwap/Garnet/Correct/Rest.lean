import NocSwap.Garnet.Correct.Injection
import NocSwap.Garnet.Correct.LinkTiming

/-!
# The network at rest
-/

namespace NocSwap

open List Set

open Nat (le_succ le_succ_of_le lt_succ_self)

variable {P : Params} {s s' : Net} {c : Consumer} {n v : Nat}

/-! ### Wakeups of interfaces -/

def NiRechecked (P : Params) (n : Nat) (s : Net) : Prop :=
  ∀ v < P.numVcs, ∀ f fs, s.buf (.niOutVc n v) = f :: fs → f.time ≤ s.now + 1 →
    s.now + 1 ∈ s.scheduled (.ni n)

theorem checkReschedule_rechecked (s : Net) : NiRechecked P n (checkReschedule P n s) := by
  intro v hv f fs hb ht
  unfold checkReschedule at hb ht ⊢
  split_ifs at hb ht ⊢ with hcheck
  · exact Net.mem_scheduled _ _ (le_succ _)
  · refine absurd (Bool.or_eq_true_iff.mpr (.inr (any_eq_true.mpr ⟨v, mem_range.mpr hv, ?_⟩))) hcheck
    rw [hb]
    exact decide_eq_true ht

theorem NiRechecked.keep {B : Set Buf} {C : Set CreditBuf} (h : NiRechecked P n s)
    (ht : Touches B C s s') (hB : ∀ v, .niOutVc n v ∉ B) : NiRechecked P n s' := by
  intro v hv f fs hb hready
  rw [ht.buf _ (hB v)] at hb
  rw [ht.now] at hready ⊢
  exact ht.scheduled _ _ (le_succ _) (h v hv f fs hb hready)

theorem wake_rechecked (hs : Reachable P s) {rnd : Nat → Nat}
    (hex : exec P (.wake (.ni n) rnd) s = .ok s') : NiRechecked P n s' := by
  refine Outcome.of_ok (E := fun _ => True) ?_ hex
  show Outcome (niWakeup P n rnd (s.fire (.ni n))) _ _
  simp only [niWakeup, outcome_do]
  refine (injectVnets_quiet _).imp fun s₁ h₁ => ?_
  refine (scheduleOutputLink_quiet s₁).imp fun s₂ h₂ => ?_
  have hq : Quiet (sendPlaces n) ∅ (s.fire (.ni n)) (checkReschedule P n s₂) :=
    (h₁.mono subset_union_left (subset_refl _)).trans (h₂.1.trans (checkReschedule_quiet s₂))
  have htail : ∀ f ∈ (checkReschedule P n s₂).buf (.linkBuffer (.extOut n)), f.isTail = true := by
    rw [hq.buf _ (by simp [sendPlaces, niOutVcs])]
    exact fun f hf => Flit.isTail_of_headTail ((headTail P).reachable hs _ f hf)
  refine (eject_delivers htail (rnd 0) (rnd 1) _).imp fun res h₃ => ?_
  refine h₃.imp fun t₁ h₄ => ?_
  refine (creditArrival_quiet (.extIn n) t₁).imp fun t₂ h₅ => ?_
  have hcheck : NiRechecked P n t₂ :=
    ((checkReschedule_rechecked s₂).keep h₄.1 (by simp)).keep h₅.1.toTouches fun _ h => h
  split_ifs
  · exact hcheck
  · exact hcheck.keep (Quiet.schedule (B := ∅) (C := ∅) ..).toTouches fun _ h => h

theorem Moves.niOutVc_of_ne (hm : Moves P c s s') (hne : c ≠ .ni n) :
    s'.buf (.niOutVc n v) = s.buf (.niOutVc n v) := by
  induction hm with
  | refl => rfl
  | tail _ hm ih =>
    refine .trans ?_ ih
    cases hm with
    | @create n' | @send n' =>
      have hn : n ≠ n' := fun e => hne (e ▸ rfl)
      simp [hn]
    | link | arrive | swap | grant | cross | eject | stall | unstall => simp
    | _ => rfl

theorem niAwake (h : Reachable P s) (hn : n < P.numNodes) (hv : v < P.numVcs)
    (hne : s.buf (.niOutVc n v) ≠ []) :
    s.now ∈ s.events (.ni n) ∨ s.now + 1 ∈ s.events (.ni n) := by
  induction h with
  | init => exact absurd rfl hne
  | @step s s' lb hs hen hex ih =>
    cases lb with
    | tick =>
      rw [← Except.ok.inj hex] at hne ⊢
      exact .inl ((ih hne).resolve_left (hen _ (mem_consumers.mpr hn)))
    | protocol n' op =>
      have hm : Moves P (.ni n') s s' := (exec_outcome hen).of_ok hex
      rw [((protocolStep_touches n' op s).of_ok hex).1.buf _ fun h => h] at hne
      rw [hm.now_eq]
      exact (ih hne).imp hm.events_mono hm.events_mono
    | wake c rnd =>
      have hm := ((exec_outcome hen).of_ok hex).1
      by_cases hc : c = .ni n
      · subst hc
        have hreach := hs.step _ hen hex
        obtain ⟨f, fs, hb⟩ := exists_cons_of_ne_nil hne
        have hwaits := (((injectionOk P).and (injectionContext P)).reachable hreach).2.waits n v f
          (hb ▸ mem_cons_self ..)
        exact .inr ((events_of_scheduled P).reachable hreach _ _
          (wake_rechecked hs hex v hv f fs hb (le_succ_of_le hwaits.ready)) (lt_succ_self _))
      · have hw := (wake_woke hs hen hex).1
        rw [hm.niOutVc_of_ne hc] at hne
        rw [hw.now]
        exact (ih hne).imp (hw.others _ (Ne.symm hc)) (hw.later _ _ (lt_succ_self _))

/-! ### No flit is forgotten -/

theorem Reachable.reachableBy {C : Net → Label → Prop} (h : Reachable P s) (hC : ∀ s l, C s l) :
    ReachableBy P C s := by
  induction h with
  | init => exact .init
  | step l _ hen hex ih => exact .step l ih hen (hC _ l) hex

def AtPort (P : Params) : Buf → Prop
  | .inputVc l _ => ∃ r < P.numRouters, ∃ p ∈ P.inports r, p.link = l
  | _ => True

theorem atPort (P : Params) : Inductive P fun s => ∀ b, ∀ f ∈ s.buf b, AtPort P b := by
  refine (flits_inductive (I := fun _ => True) (φ := fun b _ => AtPort P b) ?_).alone
  intro s _ h b f haft
  cases haft with
  | kept hf | cleared hf => exact h b _ hf
  | arrived ha => exact ⟨_, ha.router_lt, _, ha.port, rfl⟩
  | handedBack hs => exact ⟨_, hs.router_lt, _, mem_of_getElem? hs.ptr.port, rfl⟩
  | swapped hs =>
    exact ⟨_, (downstream_spec hs.downstream_eq).1, _, mem_of_getElem? hs.facing, rfl⟩
  | _ => trivial

/-- No wakeup is pending. -/
def AtRest (P : Params) (s : Net) : Prop := ∀ c ∈ P.consumers, ∀ t ∈ s.events c, t < s.now

instance (P : Params) (s : Net) : Decidable (AtRest P s) := inferInstanceAs (Decidable (∀ _ ∈ _, _))

theorem AtRest.notMem {t : Nat} (h : AtRest P s) (hc : c ∈ P.consumers) (ht : s.now ≤ t) :
    t ∉ s.events c :=
  fun hm => not_lt.mpr ht (h c hc t hm)

theorem AtRest.not_soon (h : AtRest P s) (hc : c ∈ P.consumers) :
    ¬ (s.now ∈ s.events c ∨ s.now + 1 ∈ s.events c) :=
  not_or.mpr ⟨h.notMem hc (le_refl _), h.notMem hc (le_succ _)⟩

/-- **Nothing is left behind.** In a network at rest whose routers take two cycles at most and whose
links take one at least, each flit is stalled at its destination and no credit is under way. -/
theorem stalled_at_rest (hlat : ∀ r, P.routerLatency r ≤ 2) (hlink : ∀ l, 1 ≤ P.linkLatency l)
    (hcredit : ∀ l, 1 ≤ P.creditLatency l) (hreach : Reachable P s) (hrest : AtRest P s) :
    (∀ b, ∀ f ∈ s.buf b, b = .stallQueue f.route.destNi) ∧
      ∀ l ∈ P.links, s.credits (.queue l) = [] ∧ s.credits (.link l) = [] := by
  have hs := hreach.reachableBy (prompt_of_latency hlink hcredit)
  refine ⟨fun b f hf => ?_, fun l hl => ⟨?_, ?_⟩⟩
  · have hplace := ((conserved P).reachable hreach).mem_places hf
    have hne := ne_nil_of_mem hf
    by_contra hstall
    cases b with
    | stallQueue n =>
      have hbound := (((boundFor P).and (routeOk P)).reachable hreach).2 (.stallQueue n) f hf
      exact hstall (congrArg _ (Eq.symm hbound))
    | niOutVc n v =>
      obtain ⟨hn, hv⟩ := mem_places.mp hplace
      exact hrest.not_soon (c := .ni n) (mem_consumers.mpr hn) (niAwake hreach hn hv hne)
    | srcQueue l =>
      have hl := mem_places.mp hplace
      have hc : Consumer.link l ∈ P.consumers := mem_consumers.mpr hl
      have hnow := hrest.notMem hc (le_refl _)
      exact hrest.notMem hc (le_succ _) ((queued hreach hl).1.carrier_next hnow hne)
    | linkBuffer l =>
      have hl := mem_places.mp hplace
      have htimely := (timely hs hl).1
      exact hrest.notMem (consumer_mem_of_link hl).1 (htimely.ge f hf) (htimely.sink f hf)
    | inputVc l v =>
      obtain ⟨r, hr, p, hp, rfl⟩ := (atPort P).reachable hreach (.inputVc l v) f hf
      have hdue := (due_of_latency hlat).reachable hreach p.link v f hf
      obtain ⟨-, hsoon⟩ := awake_reachable hreach (swapsReady_of_latency hlat hreach)
      exact hrest.not_soon (c := .router r) (mem_consumers.mpr hr)
        (hsoon r hr p hp v (mem_places.mp hplace).2 f hf hdue)
    | switchBuffer r i => exact hne (switchBuffer_eq_nil hreach r i)
  · by_contra hne
    have hc : Consumer.creditLink l ∈ P.consumers := mem_consumers.mpr hl
    have hnow := hrest.notMem hc (le_refl _)
    exact hrest.notMem hc (le_succ _) ((queued hreach hl).2.carrier_next hnow hne)
  · refine eq_nil_iff_forall_not_mem.mpr fun cr hcr => ?_
    have htimely := (timely hs hl).2
    exact hrest.notMem (consumer_mem_of_link hl).2 (htimely.ge cr hcr) (htimely.sink cr hcr)

/-- The hub comes to rest with the flit of its third message stalled at node `0`. -/
theorem stalled_at_rest_hub : ∃ s f, hubSetup.bind (simulate (.hub 0) 36) = some s ∧
    AtRest (.hub 0) s ∧ f ∈ s.buf (.stallQueue 0) ∧ f.route.destNi = 0 := by
  have hrun : (hubSetup.bind (simulate (.hub 0) 36)).map (fun s =>
      (decide (AtRest (.hub 0) s), (s.buf (.stallQueue 0)).length)) = some (true, 1) := by
    decide +kernel
  obtain ⟨s, hs, hval⟩ := Option.map_eq_some_iff.mp hrun
  obtain ⟨hrest, hlen⟩ := Prod.mk.inj hval
  obtain ⟨t, ht, hsim⟩ := Option.bind_eq_some_iff.mp hs
  obtain ⟨f, hf⟩ := exists_mem_of_length_pos (Nat.lt_of_lt_of_eq Nat.one_pos hlen.symm)
  have hat := (stalled_at_rest (fun _ => le_succ 1) (fun _ => le_refl 1) (fun _ => le_refl 1)
    (reachable_of_simulate _ (reachable_of_run .init ht) hsim) (of_decide_eq_true hrest)).1 _ f hf
  exact ⟨s, f, hs, of_decide_eq_true hrest, hf, (Buf.stallQueue.inj hat).symm⟩

end NocSwap
