import NocSwap.Garnet.Correct.Exchange
import NocSwap.Garnet.Correct.SwapRecord

/-!
# The statistics of swaps
-/

namespace NocSwap

open Option

variable {P : Params} {s t : Net} {r u : Nat} {f : Flit}

/-! ### Outcomes of attempts -/

inductive Refusal where
  | pointer
  | empty
  | localOutport
  deriving DecidableEq

def attempt (P : Params) (r : Nat) (s : Net) : Option Net :=
  if P.interswap then
    match validateSwapPtr P r (s.fire (.router r)) with
    | .error _ => none
    | .ok s₁ =>
      if isMyTurn P r s₁ && (s₁.router r).swapPtr.valid then
        match outportNotLocal P r s₁ with
        | .ok (true, t) => some t
        | _ => none
      else none
  else none

theorem attempt_eq_some : attempt P r s = some t ↔ Attempts P r s t := by
  constructor
  · intro h
    unfold attempt at h
    split_ifs at h with hi
    split at h
    · cases h
    rename_i s₁ hs₁
    split_ifs at h with hturn
    split at h
    · rename_i t' ht'
      obtain ⟨hmine, hv⟩ := Bool.and_eq_true_iff.mp hturn
      exact ⟨hi, s₁, hs₁, hmine, hv, some.inj h ▸ ht'⟩
    · cases h
  · rintro ⟨hi, s₁, hs₁, hturn, hv, hout⟩
    simp [attempt, hi, hs₁, hturn, hv, hout]

/-- Why the attempt of router `u` in state `s` is refused, if it is, without the bit `is_swap`. -/
def refusal (P : Params) (u : Nat) (s : Net) : Option Refusal := do
  let (p, v) ← (ptrVc P u s).toOption
  let f ← (s.buf (.inputVc p.link v)).head?
  let d ← P.nbr u f.outportDir
  if (s.router d).swapPtr.valid then
    match s.buf (facingVc u f v) with
    | [] => some .empty
    | g :: _ => if g.outportDir = .Local then some .localOutport else none
  else some .pointer

def swapAttempt (P : Params) : Net × Label → Option (Option Refusal)
  | (s, .wake (.router r) _) => (attempt P r s).map (refusal P r)
  | _ => none

def refusals (P : Params) (cause : Refusal) (past : List (Net × Label)) : Nat :=
  past.countP fun e => swapAttempt P e = some (some cause)

namespace Counters

def start (c : Counters) : Counters := { c with initiated := c.initiated + 1 }

def asked (c : Counters) : Option Refusal → Counters
  | some .empty => { c with downstreamEmpty := c.downstreamEmpty + 1 }
  | _ => c

def settle (c : Counters) : Option Refusal → Counters
  | none => { c with swaps := c.swaps + 1 }
  | some _ => { c with failed := c.failed + 1 }

end Counters

theorem finishSwap_counts (r : Nat) (p : Port) (v : Nat) (f g : Flit) (rnd : Nat) (s : Net) :
    Yields (fun x => x.stats.counters) (s.stats.counters.settle none)
      (finishSwap P r p v f g rnd s) := by
  refine Yields.bind (π := Net.record) (b := s.record) ?_ fun s₁ hs₁ => ⟨fun s₂ hs₂ => ?_⟩
  · exact (doSwapEnqueue_aside ..).record.of_eq rfl
  have hend := (endRoutedSwap_aside (P := P) r _).record.of_ok s₂ hs₂
  have hcount : s₁.stats.counters = s.stats.counters := congrArg Prod.fst hs₁
  rw [show s₂.stats.counters = s₁.stats.counters.settle none from congrArg Prod.fst hend, hcount]

theorem failSwap_counts (r : Nat) (s : Net) :
    Yields (fun x => x.stats.counters) (s.stats.counters.settle (some .pointer)) (failSwap P r s) :=
  .ite (fun _ => .of_bind fun _ => .pure rfl) fun _ => .pure rfl

variable {p : Port} {v d : Nat} {fs : List Flit}

theorem refusal_eq (h : BoundPointed P u s p v f fs d) :
    refusal P u s = if (s.router d).swapPtr.valid then
        match s.buf (facingVc u f v) with
        | [] => some .empty
        | g :: _ => if g.outportDir = .Local then some .localOutport else none
      else some .pointer := by
  have hvc : (ptrVc P u s).toOption = some (p, v) := by rw [h.ptr.ptrVc_eq]; rfl
  simp [refusal, hvc, h.head, h.nbr]

theorem doSwap_counts (f : Flit) (u rnd : Nat) (s : Net) :
    Outcome (doSwap P f u rnd s) (fun res => ∃ o : Option Refusal,
      (P.noIsSwap = 1 → ∀ p v fs d, BoundPointed P u s p v f fs d → o = refusal P u s) ∧
      res.1.isSome = o.isNone ∧ res.2.stats.counters = s.stats.counters.asked o) (fun _ => True) := by
  simp only [doSwap, outcome_do, outcome_ite]
  refine Outcome.introOk fun d hd => ?_
  -- the neighbour that the flit is bound for is the router that is asked
  have hdown : ∀ {p v fs d'}, BoundPointed P u s p v f fs d' → d' = d := fun h =>
    Except.ok.inj ((downstream_of_nbr h.router_lt h.nbr).symm.trans hd)
  refine fun _ => ⟨fun hgo _ => ?_, fun hgo => ⟨some .pointer, fun h1 p v fs d' h => ?_, rfl, rfl⟩⟩
  · simp only [routerDoSwap, outcome_do, outcome_ite]
    refine fun _ => ⟨fun hswap => ?_, fun _ => Outcome.introOk fun qw hqw => ?_⟩
    · -- the bit has been looked at already
      obtain ⟨h0, hset⟩ := Bool.and_eq_true_iff.mp hswap
      rw [hgo.1 (of_decide_eq_true h0)] at hset
      cases hset
    obtain ⟨q, w⟩ := qw
    have href : P.noIsSwap = 1 → ∀ p v fs d', BoundPointed P u s p v f fs d' →
        refusal P u s = match s.buf (.inputVc q.link w) with
          | [] => some .empty
          | g :: _ => if g.outportDir = .Local then some .localOutport else none := by
      intro _ p v fs d' h
      obtain rfl := hdown h
      have hv : 0 ≤ (v : Int) ∧ (v : Int) < P.numVcs := ⟨by omega, by exact_mod_cast h.ptr.vc_lt⟩
      rw [h.ptr.vcid, inVc, inPort_facing h.router_lt h.nbr] at hqw
      simp only [bind, Except.bind, require, if_pos hv, pure, Except.pure, Except.ok.injEq,
        Prod.mk.injEq, Int.toNat_natCast] at hqw
      obtain ⟨rfl, rfl⟩ := hqw
      rw [refusal_eq h, if_pos hgo.2]
    cases hb : s.buf (.inputVc q.link w) with
    | nil =>
      rw [hb] at href
      exact ⟨some .empty, fun h1 p v fs d' h => (href h1 p v fs d' h).symm, rfl, rfl⟩
    | cons g gs =>
      simp only [hb] at href
      by_cases hg : g.outportDir = .Local
      · simp only [hg, if_true, outcome_pure] at href ⊢
        exact ⟨some .localOutport, fun h1 p v fs d' h => (href h1 p v fs d' h).symm, rfl, rfl⟩
      · simp only [hg, if_false, outcome_do] at href ⊢
        refine Outcome.introOk fun s₁ hs₁ => ?_
        refine ⟨none, fun h1 p v fs d' h => (href h1 p v fs d' h).symm, rfl, ?_⟩
        have hrec := (doSwapEnqueue_aside ..).record.of_ok s₁ hs₁
        rw [show s₁.stats.counters = _ from congrArg Prod.fst hrec]
        split_ifs <;> rfl
  · obtain rfl := hdown h
    rw [refusal_eq h, if_neg fun hv => hgo ⟨fun h0 => absurd h0 (by omega), hv⟩]

theorem afterSwap_counts (f : Flit) (u : Nat) (p : Port) (v : Nat) (rnd : Nat → Nat) (s : Net) :
    Outcome (doSwap P f u (rnd 0) s >>= fun res =>
      match res.1 with
      | some g => finishSwap P u p v f g (rnd 1) res.2
      | none => failSwap P u res.2) (fun s' => ∃ o : Option Refusal,
        (P.noIsSwap = 1 → ∀ p v fs d, BoundPointed P u s p v f fs d → o = refusal P u s) ∧
        s'.stats.counters = (s.stats.counters.asked o).settle o) (fun _ => True) := by
  rw [outcome_bind]
  refine (doSwap_counts f u (rnd 0) s).onOk fun res hres => ?_
  obtain ⟨o, ho, hsome, hcount⟩ := hres
  refine Outcome.introOk fun s' hs' => ⟨o, ho, ?_⟩
  rw [← hcount]
  cases hg : res.1 with
  | some g =>
    rw [hg] at hs' hsome
    rw [isNone_iff_eq_none.mp hsome.symm]
    exact (finishSwap_counts ..).of_ok s' hs'
  | none =>
    rw [hg] at hs' hsome
    obtain ⟨cause, rfl⟩ := isSome_iff_exists.mp (isNone_eq_false_iff.mp hsome.symm)
    exact (failSwap_counts ..).of_ok s' hs'

theorem trySwap_counts (u : Nat) (rnd : Nat → Nat) (s : Net) :
    Outcome (trySwap P u rnd s) (fun s' => ∃ o : Option Refusal,
      s'.stats.counters = (s.stats.counters.start.asked o).settle o) (fun _ => True) := by
  simp only [trySwap, outcome_bind]
  refine Outcome.introOk fun s₁ hs₁ => ?_
  refine Outcome.introOk fun pv _ => Outcome.introOk fun f _ => ?_
  refine Outcome.introOk fun s₂ hs₂ => ?_
  have hrec :=
    ((markRouted_aside ..).record.of_ok s₂ hs₂).trans ((checkBailOut_aside ..).record.of_ok s₁ hs₁)
  rw [← outcome_bind]
  refine (afterSwap_counts f u pv.1 pv.2 rnd s₂).onOk fun s' hs' => ?_
  obtain ⟨o, -, hcount⟩ := hs'
  rw [show s₂.stats.counters = s.stats.counters.start from congrArg Prod.fst hrec] at hcount
  exact ⟨o, hcount⟩

variable {s' : Net}

theorem refusal_congr (hbuf : s'.buf = s.buf)
    (hptr : ∀ r, (s'.router r).swapPtr = (s.router r).swapPtr) : refusal P u s' = refusal P u s := by
  simp only [refusal, ptrVc, ptrPort, hbuf, hptr]

theorem trySwap_refusal (h1 : P.noIsSwap = 1)
    (h : BoundPointed P u s p v f fs d) (rnd : Nat → Nat) :
    Outcome (trySwap P u rnd s) (fun s' => s'.stats.counters =
      (s.stats.counters.start.asked (refusal P u s)).settle (refusal P u s)) (fun _ => True) := by
  obtain ⟨hsame, hptrs⟩ := swapCalled_fields u f s
  have hcalled : BoundPointed P u (swapCalled u f s) p v f fs d :=
    ⟨h.toPointed.congr (hptrs u) (by rw [hsame.buf]; exact h.head) rfl, h.nbr⟩
  have hcount : (swapCalled u f s).stats.counters = s.stats.counters.start := by
    unfold swapCalled
    split_ifs <;> rfl
  rw [trySwap_eq h1 h.toPointed]
  refine (afterSwap_counts f u p v rnd (swapCalled u f s)).onOk fun s' hs' => ?_
  obtain ⟨o, ho, hs'⟩ := hs'
  rw [hs', ho h1 p v fs d hcalled, refusal_congr hsame.buf hptrs, hcount]

theorem swapWakeup_counts (hi : P.interswap = true) (hr : r < P.numRouters)
    (rnd : Nat → Nat) (h : swapWakeup P r rnd (s.fire (.router r)) = .ok s') :
    (attempt P r s = none → s'.stats.counters = s.stats.counters) ∧
    ∀ t, attempt P r s = some t → ∃ o : Option Refusal, (P.noIsSwap = 1 → o = refusal P r t) ∧
      s'.stats.counters = (s.stats.counters.start.asked o).settle o := by
  obtain ⟨s₁, hs₁, h⟩ := bind_eq_ok.mp h
  have hrec₁ : s₁.record = s.record :=
    (validateSwapPtr_aside r (s.fire (.router r))).record.of_ok s₁ hs₁
  by_cases hturn : (isMyTurn P r s₁ && (s₁.router r).swapPtr.valid) = true
  · rw [if_pos hturn] at h
    obtain ⟨p, -, h⟩ := bind_eq_ok.mp h
    obtain ⟨-, -, h⟩ := bind_eq_ok.mp h
    obtain ⟨-, -, h⟩ := bind_eq_ok.mp h
    obtain ⟨⟨go, t⟩, hout, h⟩ := bind_eq_ok.mp h
    have hrec₂ : t.record = s.record :=
      ((outportNotLocal_aside r s₁).record.of_ok _ hout).trans hrec₁
    have hcount : t.stats.counters = s.stats.counters := congrArg Prod.fst hrec₂
    cases go with
    | true =>
      have hat : attempt P r s = some t := by
        simp [attempt, hi, hs₁, hturn, hout]
      obtain ⟨s₃, hs₃, h⟩ := bind_eq_ok.mp h
      have hrec₃ : s₃.record = s'.record := ((movSwapPtr_aside r s₃).record.of_ok s' h).symm
      have hcount₃ : s₃.stats.counters = s'.stats.counters := congrArg Prod.fst hrec₃
      refine ⟨fun hnone => absurd (hnone.symm.trans hat) nofun, fun t' ht' => ?_⟩
      obtain rfl : t = t' := some.inj (hat.symm.trans ht')
      by_cases h1 : P.noIsSwap = 1
      · obtain ⟨-, -, -, -, p, v, f, fs, d, hpt⟩ := (attempt_eq_some.mp hat).turn hr
        have hsettled := (trySwap_refusal h1 hpt rnd).of_ok hs₃
        rw [hcount₃, hcount] at hsettled
        exact ⟨_, fun _ => rfl, hsettled⟩
      · obtain ⟨o, ho⟩ := (trySwap_counts r rnd t).of_ok hs₃
        rw [hcount₃, hcount] at ho
        exact ⟨o, fun h => absurd h h1, ho⟩
    | false =>
      have hat : attempt P r s = none := by
        simp [attempt, hi, hs₁, hturn, hout]
      refine ⟨fun _ => ?_, fun t' ht' => nomatch hat.symm.trans ht'⟩
      exact (congrArg Prod.fst ((movSwapPtr_aside r t).record.of_ok s' h)).trans hcount
  · rw [if_neg hturn] at h
    have hat : attempt P r s = none := by
      simp [attempt, hi, hs₁, hturn]
    refine ⟨fun _ => ?_, fun t' ht' => nomatch hat.symm.trans ht'⟩
    rw [← Except.ok.inj h]
    exact congrArg Prod.fst hrec₁

theorem exec_counts {l : Label} (hen : Enabled P s l) (h : exec P l s = .ok s') :
    (swapAttempt P (s, l) = none → s'.stats.counters = s.stats.counters) ∧
    ∀ o', swapAttempt P (s, l) = some o' → ∃ o : Option Refusal, (P.noIsSwap = 1 → o = o') ∧
      s'.stats.counters = (s.stats.counters.start.asked o).settle o := by
  -- a step that makes no swaps
  have hkept (hrec : s'.record = s.record) (hnone : swapAttempt P (s, l) = none) :
      (swapAttempt P (s, l) = none → s'.stats.counters = s.stats.counters) ∧
      ∀ o', swapAttempt P (s, l) = some o' → ∃ o : Option Refusal, (P.noIsSwap = 1 → o = o') ∧
        s'.stats.counters = (s.stats.counters.start.asked o).settle o :=
    ⟨fun _ => congrArg Prod.fst hrec, fun o' ho' => nomatch hnone.symm.trans ho'⟩
  cases l with
  | tick =>
    obtain rfl := Except.ok.inj h
    exact hkept rfl rfl
  | protocol n op => exact hkept ((protocolStep_record n op s).of_ok s' h) rfl
  | wake c rnd =>
    cases c with
    | link l =>
      obtain rfl := Except.ok.inj h
      exact hkept (linkWakeup_record l _) rfl
    | creditLink l =>
      obtain rfl := Except.ok.inj h
      exact hkept (creditLinkWakeup_record l _) rfl
    | ni n => exact hkept ((niWakeup_record n rnd (s.fire (.ni n))).of_ok s' h) rfl
    | router r =>
      have h : routerWakeup P r rnd (s.fire (.router r)) = .ok s' := h
      unfold routerWakeup at h
      split_ifs at h with hi
      · obtain ⟨s₁, hs₁, h⟩ := bind_eq_ok.mp h
        have hpipe : s'.stats.counters = s₁.stats.counters :=
          congrArg Prod.fst ((pipelineWakeup_record r rnd s₁).of_ok s' h)
        obtain ⟨hnone, hsome⟩ := swapWakeup_counts hi (mem_consumers.mp hen.1) rnd hs₁
        rw [hpipe]
        refine ⟨fun hat => hnone (map_eq_none_iff.mp hat), fun o' ho' => ?_⟩
        obtain ⟨t, ht, rfl⟩ := map_eq_some_iff.mp ho'
        exact hsome t ht
      · refine hkept ((pipelineWakeup_record r rnd (s.fire (.router r))).of_ok s' h) ?_
        show (attempt P r s).map _ = none
        rw [attempt, if_neg hi]
        rfl

structure Balanced (P : Params) (past : List (Net × Label)) (c : Counters) : Prop where
  initiated : c.initiated = c.swaps + c.failed
  localOutport : c.downstreamLocalOutport = 0
  failed : P.noIsSwap = 1 → c.failed = refusals P .pointer past + c.downstreamEmpty +
    refusals P .localOutport past

variable {past : List (Net × Label)} {c : Counters} {e : Net × Label}

theorem Balanced.settle (h : Balanced P past c)
    {o o' : Option Refusal} (he : swapAttempt P e = some o')
    (ho : P.noIsSwap = 1 → o = o') : Balanced P (e :: past) ((c.start.asked o).settle o) := by
  have hinit := h.initiated
  refine ⟨?_, ?_, fun h1 => ?_⟩
  · rcases o with _ | _ | _ | _ <;> simp only [Counters.start, Counters.asked, Counters.settle] <;>
      omega
  · rcases o with _ | _ | _ | _ <;> exact h.localOutport
  · have hfailed := h.failed h1
    obtain rfl := ho h1
    simp only [refusals, List.countP_cons, he] at hfailed ⊢
    rcases o with _ | _ | _ | _ <;>
      simp [Counters.start, Counters.asked, Counters.settle] <;> omega

theorem Balanced.kept (h : Balanced P past c)
    (he : swapAttempt P e = none) : Balanced P (e :: past) c := by
  refine ⟨h.initiated, h.localOutport, fun h1 => ?_⟩
  simp only [refusals, List.countP_cons, he, reduceCtorEq, decide_false, Bool.false_eq_true, if_false,
    Nat.add_zero]
  exact h.failed h1

theorem trace_balanced (h : Trace P past s) : Balanced P past s.stats.counters := by
  induction h with
  | init => exact ⟨rfl, rfl, fun _ => rfl⟩
  | @step past s s' l _ hen hex ih =>
    obtain ⟨hnone, hsome⟩ := exec_counts hen hex
    cases ho : swapAttempt P (s, l) with
    | none =>
      rw [hnone ho]
      exact ih.kept ho
    | some o' =>
      obtain ⟨o, heq, hcount⟩ := hsome o' ho
      rw [hcount]
      exact ih.settle ho heq

/-- **The statistics of swaps.** Initiated swaps are the swaps and the failed ones, whose reasons
add up if and only if none was refused for a flit bound for a local port. -/
theorem swap_stats_iff {past : List (Net × Label)} (h : Trace P past s) :
    (s.stats.totalInitiatedSwaps = s.stats.totalSwaps + s.stats.totalFailedSwaps ∧
      (P.noIsSwap = 1 → s.stats.totalFailedSwaps = refusals P .pointer past +
        s.stats.totalFailedDownstreamEmpty + s.stats.totalFailedDownstreamLocalOutport)) ↔
    (P.noIsSwap = 1 → refusals P .localOutport past = 0) := by
  have hbal := trace_balanced h
  have hlocal : s.stats.totalFailedDownstreamLocalOutport = 0 := hbal.localOutport
  constructor
  · rintro ⟨-, hsum⟩ h1
    have h2 := hsum h1
    have h3 : s.stats.totalFailedSwaps = _ := hbal.failed h1
    have h4 : s.stats.counters.downstreamEmpty = s.stats.totalFailedDownstreamEmpty := rfl
    omega
  · intro hnone
    refine ⟨hbal.initiated, fun h1 => ?_⟩
    have h2 : s.stats.totalFailedSwaps = _ := hbal.failed h1
    rw [h2, hnone h1, hlocal]
    rfl

/-- In the row of four the statistics add up after an attempt to move a flit to an empty channel. -/
theorem swap_stats_quad : ∃ past s, Trace .quadPlain past s ∧ s.stats.totalInitiatedSwaps = 1 ∧
    s.stats.totalInitiatedSwaps = s.stats.totalSwaps + s.stats.totalFailedSwaps ∧
    s.stats.totalFailedSwaps = refusals .quadPlain .pointer past +
      s.stats.totalFailedDownstreamEmpty + s.stats.totalFailedDownstreamLocalOutport := by
  have hrun : (sendTrace .quadPlain [(3, 0, 1), (2, 1, 1), (0, 3, 3)] 36).map (fun x =>
      (refusals .quadPlain .localOutport x.1, x.2.stats.totalInitiatedSwaps)) = some (0, 1) := by
    decide +kernel
  obtain ⟨x, hx, hview⟩ := map_eq_some_iff.mp hrun
  obtain ⟨hlocal, hinit⟩ := Prod.mk.inj hview
  obtain ⟨htotal, hfailed⟩ := (swap_stats_iff (trace_of_send _ hx)).mpr fun _ => hlocal
  exact ⟨x.1, x.2, trace_of_send _ hx, hinit, htotal, hfailed rfl⟩

/-- If the flit of node `2` comes two cycles later, the attempt fails, and the statistics do not say
why. -/
theorem swap_stats_drift : ∃ past s, Trace .quadPlain past s ∧ Params.quadPlain.noIsSwap = 1 ∧
    s.stats.totalFailedSwaps = 1 ∧ refusals .quadPlain .pointer past = 0 ∧
    s.stats.totalFailedDownstreamEmpty = 0 ∧ s.stats.totalFailedDownstreamLocalOutport = 0 := by
  have hrun : (sendTrace .quadPlain [(3, 0, 1), (2, 1, 3), (0, 3, 3)] 34).map (fun x =>
      (x.2.stats.totalFailedSwaps, refusals .quadPlain .pointer x.1,
        x.2.stats.totalFailedDownstreamEmpty, x.2.stats.totalFailedDownstreamLocalOutport)) =
      some (1, 0, 0, 0) := by
    decide +kernel
  obtain ⟨x, hx, hview⟩ := map_eq_some_iff.mp hrun
  simp only [Prod.mk.injEq] at hview
  exact ⟨x.1, x.2, trace_of_send _ hx, rfl, hview⟩

end NocSwap
