import NocSwap.Garnet.Correct.Ejection

/-!
# Stalled flits
-/

namespace NocSwap

open List MessageBuffer Option Nat

variable {P : Params} {s s' : Net} {n : Nat}

/-! ### Flits left behind -/

/-- Where a flit has a slot, none after it has one, unless both need the same last slot. -/
structure OneEjection (s : Net) (n : Nat) : Prop where
  visible : ∀ f ∈ ejectable s n, slotsNext s n f.vnet 1 = true → slotFree s n f.vnet = true
  single : (ejectable s n).Pairwise fun f g => slotFree s n f.vnet = true →
    slotsNext s n g.vnet 1 = true → f.vnet = g.vnet ∧ slotsNext s n g.vnet 2 = false

instance (s : Net) (n : Nat) : Decidable (OneEjection s n) :=
  decidable_of_iff
    ((∀ f ∈ ejectable s n, slotsNext s n f.vnet 1 = true → slotFree s n f.vnet = true) ∧
      (ejectable s n).Pairwise fun f g => slotFree s n f.vnet = true →
        slotsNext s n g.vnet 1 = true → f.vnet = g.vnet ∧ slotsNext s n g.vnet 2 = false)
    ⟨fun h => ⟨h.1, h.2⟩, fun h => ⟨h.visible, h.single⟩⟩

def Pending (s : Net) (c : Consumer) : Prop := ∃ t ∈ s.events c, s.now ≤ t

theorem slotsNext_two {v : Nat} (h : slotsNext s n v 1 = false) : slotsNext s n v 2 = false := by
  cases h2 : slotsNext s n v 2 with
  | false => rfl
  | true =>
    have h1 : slotsNext s n v 1 = true := areNSlotsAvailable_of_succ _ h2
    exact absurd h1 (by simp [h])

theorem OneEjection.full (hone : OneEjection s n) (h : Ejects n s s') :
    ∀ f ∈ s'.buf (.stallQueue n), slotsNext s' n f.vnet 1 = false := by
  have hvis : ∀ g ∈ ejectable s n, slotFree s n g.vnet = false → slotsNext s n g.vnet 1 = false :=
    fun g hg hfull => by
      cases hnext : slotsNext s n g.vnet 1 with
      | false => rfl
      | true => exact absurd (hone.visible g hg hnext) (by simp [hfull])
  intro f hf
  have hmem : f.vnet ∈ (s'.buf (.stallQueue n)).map (·.vnet) := mem_map_of_mem hf
  cases h with
  | none hfull hleft hslots =>
    rw [hleft] at hmem
    obtain ⟨g, hg, hv⟩ := mem_map.mp hmem
    rw [hslots, ← hv]
    exact hvis g hg (hfull g hg)
  | @first pre post e heq hfull hfree hleft hslots =>
    rw [hleft] at hmem
    obtain ⟨g, hg, hv⟩ := mem_map.mp hmem
    have hafter : ∀ g ∈ post, slotsNext s n g.vnet 1 = true →
        e.vnet = g.vnet ∧ slotsNext s n g.vnet 2 = false := by
      have hpair := hone.single
      rw [heq, pairwise_append, pairwise_cons] at hpair
      exact fun g hg => hpair.2.1.1 g hg hfree
    rw [hslots, ← hv]
    cases hnext : slotsNext s n g.vnet 1 with
    | false =>
      split_ifs
      · exact slotsNext_two hnext
      · exact hnext
    | true =>
      -- a flit before the one delivered would have been delivered itself
      have hpost : g ∈ post := (mem_append.mp hg).resolve_left fun hpre => by
        have hnone := hvis g (heq ▸ mem_append_left _ hpre) (hfull g hpre)
        exact absurd hnext (by simp [hnone])
      obtain ⟨hsame, htwo⟩ := hafter g hpost hnext
      rw [if_pos hsame.symm]
      exact htwo

/-- Each stalled flit of interface `n` has no slot in the next cycle, or a wakeup is pending. -/
def Remembered (s : Net) (n : Nat) : Prop :=
  ∀ f ∈ s.buf (.stallQueue n), slotsNext s n f.vnet 1 = false ∨ Pending s (.ni n)

theorem Remembered.keep (h : Remembered s n) (hnow : s'.now = s.now)
    (hq : s'.buf (.stallQueue n) = s.buf (.stallQueue n))
    (hslots : ∀ f ∈ s.buf (.stallQueue n), slotsNext s' n f.vnet 1 = slotsNext s n f.vnet 1)
    (hev : ∀ t ∈ s.events (.ni n), t ∈ s'.events (.ni n)) : Remembered s' n := by
  intro f hf
  rw [hq] at hf
  rcases h f hf with hfull | ⟨t, ht, hle⟩
  · exact .inl ((hslots f hf).trans hfull)
  · exact .inr ⟨t, hev t ht, hnow ▸ hle⟩

theorem Move.ni_of_ne {c : Consumer} (hm : Move P s c s') (hne : c ≠ .ni n) :
    s'.ni n = s.ni n ∧ s'.buf (.stallQueue n) = s.buf (.stallQueue n) := by
  have hnode : ∀ {n'}, Consumer.ni n' ≠ .ni n → n ≠ n' := fun h e => h (e ▸ rfl)
  cases hm with
  | niRegs | create | send | stall | unstall =>
    have hn := hnode hne
    exact ⟨by simp [hn], by simp [hn]⟩
  | link | arrive | swap | grant | cross | eject => exact ⟨rfl, by simp⟩
  | _ => exact ⟨rfl, rfl⟩

section

variable (h : Remembered s n)
include h

theorem Remembered.moves {c : Consumer} (hm : Moves P c s s')
    (hne : c ≠ .ni n) : Remembered s' n := by
  induction hm with
  | refl => exact h
  | tail _ hm ih =>
    obtain ⟨hni, hq⟩ := hm.ni_of_ne hne
    refine ih.keep hm.now_eq hq (fun f _ => ?_) fun _ => hm.events_mono
    unfold slotsNext
    rw [hni, hm.now_eq]

theorem Remembered.tick (hok : StallOk s n) (hn : n < P.numNodes)
    (hdone : CycleDone P s) : Remembered { s with now := s.now + 1 } n := by
  intro f hf
  rcases h f hf with hfull | ⟨t, ht, hle⟩
  · have hpop := hok.pop f.vnet
    left
    unfold slotsNext at hfull ⊢
    rw [areNSlotsAvailable_eq _ (lt_succ_of_le hpop)] at hfull
    rw [areNSlotsAvailable_eq _ (lt_succ_of_le (le_succ_of_le hpop))]
    exact hfull
  · have hlater : t ≠ s.now := fun e => hdone (.ni n) (mem_consumers.mpr hn) (e ▸ ht)
    exact .inr ⟨t, ht, Nat.lt_of_le_of_ne hle hlater.symm⟩

theorem Remembered.receive (hok : StallOk s n) {vnet : Nat} {b : MessageBuffer}
    (hsched : ∀ t ∈ s.scheduled (.ni n), s.now < t → t ∈ s.events (.ni n))
    (hb : b.dequeueCallback = ((s.ni n).outNode vnet).dequeueCallback) :
    Remembered (dequeueCallback n b (s.setOutNode n vnet b)) n := by
  unfold dequeueCallback
  split_ifs with hcb
  · intro f _
    exact .inr ⟨s.now + 1, (s.setOutNode n vnet b).mem_events_schedule _ hsched (lt_succ_self _),
      le_succ _⟩
  · -- no callback: no flit of the virtual network is stalled
    have hzero : stalledCount s n vnet = 0 := Nat.eq_zero_of_not_pos fun hpos =>
      hcb (hb.trans ((hok.callback vnet).mpr hpos))
    refine h.keep rfl rfl (fun f hf => ?_) fun _ ht => ht
    have hne : f.vnet ≠ vnet := by
      unfold stalledCount at hzero
      rw [countP_eq_zero] at hzero
      simpa using hzero f hf
    simp [slotsNext, Net.setOutNode, hne]

theorem Remembered.rearrange (hok : StallOk s n) {vnet : Nat}
    {b : MessageBuffer} (hb : ((s.ni n).outNode vnet).Rearranges s.now b) :
    Remembered (s.setOutNode n vnet b) n :=
  h.keep rfl rfl (fun _ _ => slotsNext_setOutNode (hb.slots (hok.pop vnet)) _ _) fun _ ht => ht

theorem Remembered.protocol (hok : StallOk s n)
    (hsched : ∀ t ∈ s.scheduled (.ni n), s.now < t → t ∈ s.events (.ni n)) (op : ProtocolOp) :
    Outcome (protocolStep P n op s) (fun s' => Remembered s' n) fun _ => True := by
  cases op with
  | send vnet m delta rnd =>
    simp only [protocolStep, outcome_do]
    refine (enqueue_outcome ..).onOk fun res _ => ?_
    have hin : Remembered (s.setInNode n vnet res.1) n :=
      h.keep rfl rfl (fun _ _ => by simp [slotsNext, Net.setInNode]) fun _ ht => ht
    exact hin.keep rfl rfl (fun _ _ => rfl) fun _ => (Move.sched (P := P) (.ni n) _ _).events_mono
  | receive vnet =>
    simp only [protocolStep, outcome_do]
    exact (dequeue_outcome ..).onOk fun _ hb => h.receive hok hsched hb.1.callback
  | stall vnet addr =>
    simp only [protocolStep, outcome_do]
    exact (stallMessage_rearranges ..).onOk
      fun _ hb => h.receive hok hsched hb.callback
  | recycle vnet latency =>
    simp only [protocolStep, outcome_do]
    exact (recycle_rearranges ..).onOk fun _ hb => h.rearrange hok hb
  | delayHead vnet delta rnd =>
    simp only [protocolStep, outcome_do]
    exact (delayHead_rearranges ..).onOk fun _ hb => h.rearrange hok hb
  | reanalyze vnet addr =>
    simp only [protocolStep, outcome_do]
    exact (reanalyzeMessages_rearranges ..).onOk fun _ hb => h.rearrange hok hb
  | reanalyzeAll vnet =>
    simp only [protocolStep, outcome_do]
    exact (reanalyzeAllMessages_rearranges ..).onOk fun _ hb => h.rearrange hok hb

end

def EjectsOne (s : Net) : Label → Prop
  | .wake (.ni n) _ => Pending (s.fire (.ni n)) (.ni n) ∨ OneEjection s n
  | _ => True

instance (s : Net) (c : Consumer) : Decidable (Pending s c) :=
  inferInstanceAs (Decidable (∃ t ∈ s.events c, s.now ≤ t))

instance (s : Net) : (l : Label) → Decidable (EjectsOne s l)
  | .wake (.ni _) _ => inferInstanceAs (Decidable (_ ∨ _))
  | .wake (.router _) _ | .wake (.link _) _ | .wake (.creditLink _) _ | .protocol .. | .tick =>
    inferInstanceAs (Decidable True)

theorem remembered_of_wakeup {rnd : Nat → Nat} (hok : StallOk s n)
    (hen : Enabled P s (.wake (.ni n) rnd)) (hone : EjectsOne s (.wake (.ni n) rnd))
    (hex : exec P (.wake (.ni n) rnd) s = .ok s') : Remembered s' n := by
  rcases hone with ⟨t, ht, hle⟩ | hone
  · have hmoves : Moves P (.ni n) (s.fire (.ni n)) s' := ((exec_outcome hen).of_ok hex).1
    exact fun _ _ => .inr ⟨t, hmoves.events_mono ht, hmoves.now_eq ▸ hle⟩
  · have hejects : Ejects n (s.fire (.ni n)) s' :=
      (niWakeup_ejects (s := s.fire (.ni n)) rnd hok.pop).of_ok hex
    have hone' : OneEjection (s.fire (.ni n)) n := ⟨hone.visible, hone.single⟩
    exact fun f hf => .inl (hone'.full hejects f hf)

theorem remembered_of_reachableBy (h : ReachableBy P EjectsOne s) :
    ∀ n < P.numNodes, Remembered s n := by
  induction h with
  | init => exact fun _ _ _ h => nomatch h
  | @step s s' l hreach hen hone hex ih =>
    intro n hn
    have hok := (stallOk P).reachable hreach.reachable
    have hstep := (exec_outcome hen).of_ok hex
    cases l with
    | tick =>
      rw [hstep]
      exact (ih n hn).tick (hok n) hn hen
    | protocol n' op =>
      rcases eq_or_ne n' n with rfl | hne
      · have hsched := (events_of_scheduled P).reachable hreach.reachable (.ni n')
        exact ((ih n' hn).protocol (hok n') hsched op).of_ok hex
      · exact (ih n hn).moves hstep fun e => hne (Consumer.ni.inj e)
    | wake c rnd =>
      rcases eq_or_ne c (.ni n) with rfl | hne
      · exact remembered_of_wakeup (hok n) hen hone hex
      · have hfire : Remembered (s.fire c) n :=
          (ih n hn).keep rfl rfl (fun _ _ => rfl) fun t ht => by
            rwa [Net.fire_events, Function.update_of_ne hne.symm]
        exact hfire.moves hstep.1 hne

/-- **Stalled ejections.** Counters and callbacks match the stalled flits; and if a woken interface
has another wakeup pending or can deliver one flit only, none is forgotten. -/
theorem stalled_not_forgotten (P : Params) :
    (∀ s, Reachable P s → ∀ n v, (s.ni n).stallCount v = stalledCount s n v ∧
      (((s.ni n).outNode v).dequeueCallback = true ↔ 0 < stalledCount s n v)) ∧
    ∀ s, ReachableBy P EjectsOne s → ∀ n < P.numNodes, ∀ f ∈ s.buf (.stallQueue n),
      slotsNext s n f.vnet 1 = false ∨ Pending s (.ni n) := by
  refine ⟨fun s h n v => ?_, fun s h n hn => remembered_of_reachableBy h n hn⟩
  have hok := (stallOk P).reachable h n
  exact ⟨hok.count v, hok.callback v⟩

/-- The hub with two messages of virtual network `0` and one of virtual network `1` for node `0`. -/
def hubSetup : Option Net :=
  let m : Message := ⟨0, 0, 0, 0, .singleton 0⟩
  run (.hub 0) [.protocol 1 (.send 0 m 1 0), .protocol 1 (.send 0 m 2 0),
    .protocol 2 (.send 1 m 5 0)] (.init (.hub 0))

/-- The flit of the second message is stalled, and has no slot in the next cycle. -/
theorem stalled_not_forgotten_hub :
    ∃ s, (hubSetup.bind (simulateBy (.hub 0) EjectsOne 20)) = some s ∧
      (s.buf (.stallQueue 0)).length = 1 ∧ (s.ni 0).stallCount 0 = 1 ∧
      ∀ f ∈ s.buf (.stallQueue 0), slotsNext s 0 f.vnet 1 = false ∨ Pending s (.ni 0) := by
  have hrun : (hubSetup.bind (simulateBy (.hub 0) EjectsOne 20)).map (fun s =>
      ((s.buf (.stallQueue 0)).length, (s.ni 0).stallCount 0)) = some (1, 1) := by
    decide +kernel
  obtain ⟨s, hs, hval⟩ := map_eq_some_iff.mp hrun
  obtain ⟨hlen, hcount⟩ := Prod.mk.inj hval
  obtain ⟨t, ht, hsim⟩ := bind_eq_some_iff.mp hs
  have hreach : ReachableBy (.hub 0) EjectsOne s := by
    refine reachableBy_of_simulateBy _ (reachableBy_of_run .init (fun l hl s => ?_) ht) hsim
    simp only [mem_cons, not_mem_nil, or_false] at hl
    rcases hl with rfl | rfl | rfl <;> trivial
  exact ⟨s, hs, hlen, hcount, (stalled_not_forgotten (.hub 0)).2 s hreach 0 (by decide)⟩

/-- In cycle `9` the interface delivers the stalled flit and stalls that of virtual network `1`,
whose buffer is empty, without a wakeup. -/
theorem stalled_forgotten_hub :
    ∃ s s', Reachable (.hub 0) s ∧ Enabled (.hub 0) s (.wake (.ni 0) fun _ => 0) ∧
      exec (.hub 0) (.wake (.ni 0) fun _ => 0) s = .ok s' ∧ s.now = 9 ∧
      ∃ f ∈ s'.buf (.stallQueue 0), f.vnet = 1 ∧ slotsNext s' 0 f.vnet 1 = true ∧
        ¬ Pending s' (.ni 0) := by
  have hrun : (((hubSetup.bind (simulate (.hub 0) 28)).bind
      (run (.hub 0) [.protocol 0 (.receive 0)])).bind (simulate (.hub 0) 2)).bind (fun s =>
        (exec (.hub 0) (.wake (.ni 0) fun _ => 0) s).toOption.bind fun s' =>
          (s'.buf (.stallQueue 0)).head?.map fun f =>
            (decide (Enabled (.hub 0) s (.wake (.ni 0) fun _ => 0)), s.now, f.vnet,
              slotsNext s' 0 f.vnet 1, s'.events (.ni 0))) = some (true, 9, 1, true, []) := by
    decide +kernel
  obtain ⟨s, hs, hstep⟩ := bind_eq_some_iff.mp hrun
  obtain ⟨t, ht, hsim⟩ := bind_eq_some_iff.mp hs
  obtain ⟨t₁, ht₁, hreceive⟩ := bind_eq_some_iff.mp ht
  obtain ⟨t₀, ht₀, hsim₀⟩ := bind_eq_some_iff.mp ht₁
  have hfull : Reachable (.hub 0) t₁ := reachable_of_simulate _ (reachable_of_run .init ht₀) hsim₀
  have hreach : Reachable (.hub 0) s :=
    reachable_of_simulate _ (reachable_of_run hfull hreceive) hsim
  obtain ⟨s', hs', hhead⟩ := bind_eq_some_iff.mp hstep
  obtain ⟨f, hf, hval⟩ := map_eq_some_iff.mp hhead
  obtain ⟨hen, hval⟩ := Prod.mk.inj hval
  obtain ⟨hnow, hval⟩ := Prod.mk.inj hval
  obtain ⟨hvnet, hval⟩ := Prod.mk.inj hval
  obtain ⟨hslot, hev⟩ := Prod.mk.inj hval
  refine ⟨s, s', hreach, of_decide_eq_true hen, eq_ok_of_toOption hs', hnow, f,
    mem_of_mem_head? hf, hvnet, hslot, ?_⟩
  rintro ⟨c, hc, -⟩
  rw [hev] at hc
  cases hc

end NocSwap
