import NocSwap.Garnet.Correct.Refine
import NocSwap.Lib.DelayLine

/-!
# What programs leave alone
-/

namespace NocSwap

open Function

variable {P : Params} {s s' : Net} {B B' : Set Buf} {C C' : Set CreditBuf} {n : Nat}

/-- Only the flits in `B` and the credits in `C` have changed, and no wakeup is lost. -/
structure Touches (B : Set Buf) (C : Set CreditBuf) (s s' : Net) : Prop where
  now : s'.now = s.now
  buf : ∀ b, b ∉ B → s'.buf b = s.buf b
  credits : ∀ b, b ∉ C → s'.credits b = s.credits b
  scheduled : ∀ c t, s.now ≤ t → t ∈ s.scheduled c → t ∈ s'.scheduled c

structure Quiet (B : Set Buf) (C : Set CreditBuf) (s s' : Net) : Prop extends Touches B C s s' where
  outNode : ∀ n, (s'.ni n).outNode = (s.ni n).outNode
  consumed : s'.consumed = s.consumed

namespace Touches

theorem none (s : Net) : Touches ∅ ∅ s s :=
  ⟨rfl, fun _ _ => rfl, fun _ _ => rfl, fun _ _ _ h => h⟩

theorem trans {t : Net} (h : Touches B C s s') (h' : Touches B C s' t) : Touches B C s t where
  now := h'.now.trans h.now
  buf b hb := (h'.buf b hb).trans (h.buf b hb)
  credits b hb := (h'.credits b hb).trans (h.credits b hb)
  scheduled c t ht hm := h'.scheduled c t (h.now ▸ ht) (h.scheduled c t ht hm)

theorem mono (h : Touches B C s s') (hB : B ⊆ B') (hC : C ⊆ C') : Touches B' C' s s' :=
  ⟨h.now, fun b hb => h.buf b fun hm => hb (hB hm), fun b hb => h.credits b fun hm => hb (hC hm),
    h.scheduled⟩

end Touches

namespace Quiet

theorem rfl' : Quiet B C s s :=
  ⟨⟨rfl, fun _ _ => rfl, fun _ _ => rfl, fun _ _ _ h => h⟩, fun _ => rfl, rfl⟩

theorem trans {t : Net} (h : Quiet B C s s') (h' : Quiet B C s' t) : Quiet B C s t where
  toTouches := h.toTouches.trans h'.toTouches
  outNode n := (h'.outNode n).trans (h.outNode n)
  consumed := h'.consumed.trans h.consumed

theorem mono (h : Quiet B C s s') (hB : B ⊆ B') (hC : C ⊆ C') : Quiet B' C' s s' :=
  ⟨h.toTouches.mono hB hC, h.outNode, h.consumed⟩

theorem schedule (s : Net) (c : Consumer) (t : Nat) : Quiet B C s (s.schedule c t) where
  now := rfl
  buf _ _ := rfl
  credits _ _ := rfl
  outNode _ := rfl
  consumed := rfl
  scheduled c' t' ht' hm := by
    rcases eq_or_ne c' c with rfl | hne
    · rw [Net.schedule_scheduled, update_self, List.mem_filter]
      refine ⟨?_, by simpa using ht'⟩
      split_ifs
      · exact hm
      · exact List.mem_cons_of_mem _ hm
    · rwa [Net.schedule_scheduled, update_of_ne hne]

theorem setNi {x : NiRegs} (h : x.outNode = (s.ni n).outNode) : Quiet B C s (s.setNi n x) where
  now := rfl
  buf _ _ := rfl
  credits _ _ := rfl
  outNode k := by
    rcases eq_or_ne k n with rfl | hne
    · rw [Net.setNi_ni, update_self, h]
    · rw [Net.setNi_ni, update_of_ne hne]
  consumed := rfl
  scheduled _ _ _ h := h

theorem setBuf {b : Buf} (hb : b ∈ B) (s : Net) (l : List Flit) : Quiet B C s (s.setBuf b l) where
  now := rfl
  buf b' hb' := update_of_ne (fun (e : b' = b) => hb' (e ▸ hb)) ..
  credits _ _ := rfl
  outNode _ := rfl
  consumed := rfl
  scheduled _ _ _ h := h

theorem setCredits {b : CreditBuf} (hb : b ∈ C) (s : Net) (l : List Credit) :
    Quiet B C s (s.setCredits b l) where
  now := rfl
  buf _ _ := rfl
  credits b' hb' := update_of_ne (fun (e : b' = b) => hb' (e ▸ hb)) ..
  outNode _ := rfl
  consumed := rfl
  scheduled _ _ _ h := h

theorem regs (hnow : s'.now = s.now) (hbuf : s'.buf = s.buf) (hcr : s'.credits = s.credits)
    (hs : s'.scheduled = s.scheduled) (hni : s'.ni = s.ni) (hcon : s'.consumed = s.consumed) :
    Quiet B C s s' :=
  ⟨⟨hnow, fun _ _ => by rw [hbuf], fun _ _ => by rw [hcr], fun _ _ _ h => by rwa [hs]⟩,
    fun _ => by rw [hni], hcon⟩

end Quiet

variable {c c' : Consumer} {t : Nat}

theorem Move.scheduled_mono (hm : Move P s c s') (ht : s.now ≤ t)
    (h : t ∈ s.scheduled c') : t ∈ s'.scheduled c' := by
  cases hm with
  | sched _ c₀ t₀ => exact (Quiet.schedule (B := ∅) (C := ∅) s c₀ t₀).scheduled c' t ht h
  | _ => exact h

theorem Move.ni_eq (hm : Move P s c s') (hc : ∀ n, c ≠ .ni n) :
    s'.ni = s.ni ∧ s'.consumed = s.consumed := by
  cases hm with
  | niRegs n | @create n | @send n | @eject n | @stall n | @unstall n => exact absurd rfl (hc n)
  | _ => exact ⟨rfl, rfl⟩

theorem Moves.ni_eq (h : Moves P c s s') (hc : ∀ n, c ≠ .ni n) :
    s'.ni = s.ni ∧ s'.consumed = s.consumed := by
  induction h with
  | refl => exact ⟨rfl, rfl⟩
  | tail _ hm ih =>
    obtain ⟨hni, hcon⟩ := hm.ni_eq hc
    exact ⟨hni.trans ih.1, hcon.trans ih.2⟩

theorem Moves.scheduled_mono (h : Moves P c s s') (ht : s.now ≤ t)
    (hm : t ∈ s.scheduled c') : t ∈ s'.scheduled c' := by
  induction h with
  | refl => exact hm
  | tail hs h ih => exact h.scheduled_mono (by rwa [Moves.now_eq hs]) ih

theorem Moves.quiet (h : Moves P c s s') (hc : ∀ n, c ≠ .ni n)
    (hbuf : ∀ b, b ∉ B → s'.buf b = s.buf b) (hcr : ∀ b, b ∉ C → s'.credits b = s.credits b) :
    Quiet B C s s' where
  now := h.now_eq
  buf := hbuf
  credits := hcr
  outNode n := by rw [(h.ni_eq hc).1]
  consumed := (h.ni_eq hc).2
  scheduled _ _ := h.scheduled_mono

theorem insertFlit_last (f : Flit) (l : List Flit) (h : ∀ g ∈ l, g.time < f.time) :
    insertFlit f l = l ++ [f] := by
  induction l with
  | nil => rfl
  | cons g l ih =>
    obtain ⟨hg, hl⟩ := List.forall_mem_cons.mp h
    rw [insertFlit, if_neg (by omega), ih hl]
    rfl

theorem insertCredit_last (c : Credit) (l : List Credit) (h : ∀ g ∈ l, g.time < c.time) :
    insertCredit c l = l ++ [c] := by
  induction l with
  | nil => rfl
  | cons g l ih =>
    obtain ⟨hg, hl⟩ := List.forall_mem_cons.mp h
    rw [insertCredit, if_neg (by omega), ih hl]
    rfl

instance : Timed Flit where
  time := Flit.time
  setTime f t := { f with time := t }
  insert := insertFlit
  time_setTime _ _ := rfl
  insert_last := insertFlit_last

instance : Timed Credit where
  time := Credit.time
  setTime c t := { c with time := t }
  insert := insertCredit
  time_setTime _ _ := rfl
  insert_last := insertCredit_last

theorem creditArrival_quiet (l : Link) (s : Net) :
    Outcome (creditArrival l s) (fun s' => Quiet ∅ {.link l} s s' ∧
      s'.credits (.link l) = dropReady s.now (s.credits (.link l))) fun _ => True := by
  unfold creditArrival
  cases hb : s.credits (.link l) with
  | nil => exact ⟨.rfl', hb⟩
  | cons c cs =>
    by_cases ht : c.time ≤ s.now
    · simp only [ht, if_true, OutVcState.incrementCredit, outcome_do, dropReady_of_le (a := c) ht]
      refine fun _ => ⟨?_, update_self ..⟩
      have hset : Quiet ∅ {.link l} s (s.setCredits (.link l) cs) :=
        .setCredits (Set.mem_singleton _) s cs
      exact hset.trans (.regs rfl rfl rfl rfl rfl rfl)
    · rw [dropReady_of_not_le ht]
      simp only [ht, if_false]
      exact ⟨.rfl', hb⟩

def SendsOne (l : Link) (s s' : Net) : Prop :=
  ∃ f, f.time = s.now + 1 ∧ s'.buf (.srcQueue l) = insertFlit f (s.buf (.srcQueue l)) ∧
    s.now + 1 ∈ s'.scheduled (.link l)

def Sends (l : Link) (s s' : Net) : Prop :=
  s'.buf (.srcQueue l) = s.buf (.srcQueue l) ∨ SendsOne l s s'

/-- A credit is in the queue for link `l`, and the credit link has a wakeup in the next cycle. -/
def ReturnsOne (l : Link) (s s' : Net) : Prop :=
  ∃ c, c.time = s.now ∧ s'.credits (.queue l) = insertCredit c (s.credits (.queue l)) ∧
    s.now + 1 ∈ s'.scheduled (.creditLink l)

def Returns (l : Link) (s s' : Net) : Prop :=
  s'.credits (.queue l) = s.credits (.queue l) ∨ ReturnsOne l s s'

section Transport

variable {l : Link} {t t' : Net}

section

variable (h₀ : Touches B C s t)
include h₀

theorem SendsOne.congr (hb : .srcQueue l ∉ B) (h : SendsOne l t t')
    (hnow : t'.now = t.now) (h₁ : Touches B' C' t' s') (hb' : .srcQueue l ∉ B') :
    SendsOne l s s' := by
  obtain ⟨f, hf, hbuf, hs⟩ := h
  rw [h₀.buf _ hb, ← h₁.buf _ hb'] at hbuf
  rw [h₀.now] at hf
  have hs' := h₁.scheduled _ _ (hnow ▸ Nat.le_succ _) hs
  rw [h₀.now] at hs'
  exact ⟨f, hf, hbuf, hs'⟩

theorem Sends.congr (hb : .srcQueue l ∉ B) (h : Sends l t t')
    (hnow : t'.now = t.now) (h₁ : Touches B' C' t' s') (hb' : .srcQueue l ∉ B') : Sends l s s' := by
  rcases h with heq | hone
  · exact .inl (by rw [h₁.buf _ hb', heq, h₀.buf _ hb])
  · exact .inr (hone.congr h₀ hb hnow h₁ hb')

theorem ReturnsOne.congr (hc : .queue l ∉ C) (h : ReturnsOne l t t')
    (hnow : t'.now = t.now) (h₁ : Touches B' C' t' s') (hc' : .queue l ∉ C') :
    ReturnsOne l s s' := by
  obtain ⟨c, hct, hcr, hs⟩ := h
  rw [h₀.credits _ hc, ← h₁.credits _ hc'] at hcr
  rw [h₀.now] at hct
  have hs' := h₁.scheduled _ _ (hnow ▸ Nat.le_succ _) hs
  rw [h₀.now] at hs'
  exact ⟨c, hct, hcr, hs'⟩

theorem Returns.congr (hc : .queue l ∉ C) (h : Returns l t t')
    (hnow : t'.now = t.now) (h₁ : Touches B' C' t' s') (hc' : .queue l ∉ C') : Returns l s s' := by
  rcases h with heq | hone
  · exact .inl (by rw [h₁.credits _ hc', heq, h₀.credits _ hc])
  · exact .inr (hone.congr h₀ hc hnow h₁ hc')

end

end Transport

def niOutVcs (n : Nat) : Set Buf := {b | ∃ v, b = .niOutVc n v}

theorem setInNode_quiet (s : Net) (n vnet : Nat) (b : MessageBuffer) :
    Quiet B C s (s.setInNode n vnet b) :=
  .setNi rfl

theorem calculateVC_quiet (vnet : Nat) (s : Net) :
    Outcome (calculateVC P n vnet s) (fun res => Quiet (niOutVcs n) ∅ s res.2)
      fun _ => True := by
  simp only [calculateVC, outcome_bind]
  refine (findIdleVc_outcome vnet _ _).onOk fun res _ => ?_
  obtain ⟨vc, delta⟩ := res
  cases vc with
  | some vc => exact Quiet.setNi rfl
  | none =>
    simp only [outcome_do]
    exact fun _ => .setNi rfl

theorem createFlit_quiet (s : Net) (vnet vc dest : Nat) (m : Message) :
    Quiet (niOutVcs n) ∅ s (s.createFlit P n vnet vc dest m) := by
  have hset : Quiet (niOutVcs n) ∅ s (s.insert (.niOutVc n vc) (newFlit P s n vnet vc dest m)) :=
    Quiet.setBuf (B := niOutVcs n) ⟨vc, rfl⟩ s _
  refine ⟨⟨rfl, hset.buf, hset.credits, hset.scheduled⟩, fun k => ?_, rfl⟩
  rcases eq_or_ne k n with rfl | hne
  · simp [Net.createFlit, Net.insert]
  · simp [Net.createFlit, Net.insert, hne]

theorem flitisizeDest_quiet (vnet dest : Nat) (multi : Bool) (s : Net) :
    Outcome (flitisizeDest P n vnet multi dest s) (fun res => Quiet (niOutVcs n) ∅ s res.2)
      fun _ => True := by
  simp only [flitisizeDest, outcome_do]
  refine (calculateVC_quiet _ s).imp fun res h => fun _ => ?_
  obtain ⟨vc, t⟩ := res
  cases vc with
  | none => exact h
  | some vc =>
    simp only [outcome_do]
    refine fun m _ => fun _ => ?_
    cases multi with
    | true => exact (h.trans (setInNode_quiet ..)).trans (createFlit_quiet ..)
    | false => exact h.trans (createFlit_quiet ..)

theorem flitisizeLoop_quiet (vnet : Nat) (multi : Bool) (dests : List Nat) :
    ∀ s, Outcome (flitisizeLoop P n vnet multi dests s)
      (fun res => Quiet (niOutVcs n) ∅ s res.2) fun _ => True := by
  induction dests with
  | nil => exact fun s => Quiet.rfl'
  | cons dest rest ih =>
    intro s
    simp only [flitisizeLoop, outcome_bind]
    refine (flitisizeDest_quiet vnet dest multi s).imp fun res h => ?_
    obtain ⟨done, t⟩ := res
    cases done with
    | false => exact h
    | true => exact (ih t).imp fun _ h' => h.trans h'

theorem injectVnet_quiet (vnet : Nat) (s : Net) :
    Outcome (injectVnet P n vnet s) (Quiet (niOutVcs n) ∅ s) fun _ => True := by
  unfold injectVnet
  split_ifs
  case neg => exact Quiet.rfl'
  simp only [outcome_do, flitisizeMessage]
  refine fun m _ => ?_
  refine (flitisizeLoop_quiet vnet _ _ s).imp fun res h => ?_
  obtain ⟨done, t⟩ := res
  cases done with
  | false => exact h
  | true =>
    simp only [if_true, outcome_do]
    exact (MessageBuffer.dequeue_outcome _ _ _).onOk
      fun _ _ => h.trans (setInNode_quiet ..)

theorem injectVnets_quiet (s : Net) :
    Outcome ((List.range P.virtualNetworks).foldlM (fun s vnet => injectVnet P n vnet s) s)
      (Quiet (niOutVcs n) ∅ s) fun _ => True := by
  refine Outcome.foldlM _ (fun vnet _ t h => ?_) s .rfl'
  exact (injectVnet_quiet vnet t).imp fun _ h' => h.trans h'

def sendPlaces (n : Nat) : Set Buf := niOutVcs n ∪ {.srcQueue (.extIn n)}

theorem sendFlit_quiet (vc : Nat) (s : Net) :
    Outcome (sendFlit P n vc s) (fun s' => Quiet (sendPlaces n) ∅ s s' ∧ Sends (.extIn n) s s')
      fun _ => True := by
  simp only [sendFlit, OutVcState.decrementCredit, outcome_do]
  refine fun _ _ => ?_
  split
  · trivial
  rename_i f rest _
  have hinsert : Quiet (sendPlaces n) ∅ s
      (((s.setBuf (.niOutVc n vc) rest).insert (.srcQueue (.extIn n))
        { f with time := s.now + 1 }).schedule (.link (.extIn n)) (s.now + 1)) :=
    ((Quiet.setBuf (.inl ⟨vc, rfl⟩) s rest).trans (.setBuf (.inr rfl) ..)).trans (.schedule ..)
  constructor
  · refine ⟨⟨rfl, hinsert.buf, hinsert.credits, hinsert.scheduled⟩, fun k => ?_, rfl⟩
    rcases eq_or_ne k n with rfl | hne
    · simp [Net.insert]
    · simp [Net.insert, hne]
  · refine .inr ⟨{ f with time := s.now + 1 }, rfl, ?_, Net.mem_scheduled _ _ (Nat.le_succ _)⟩
    simp [Net.insert]

theorem scheduleOutputLink_quiet (s : Net) : Outcome (scheduleOutputLink P n s)
      (fun s' => Quiet (sendPlaces n) ∅ s s' ∧ Sends (.extIn n) s s') fun _ => True := by
  have hmove {k : Nat} : Quiet (sendPlaces n) ∅ s
      (s.setNi n { s.ni n with vcRoundRobin := k }) := .setNi rfl
  simp only [scheduleOutputLink]
  split
  · exact (sendFlit_quiet _ _).imp fun _ h => ⟨hmove.trans h.1, h.2⟩
  · exact ⟨hmove, .inl rfl⟩

theorem checkReschedule_quiet (s : Net) : Quiet B C s (checkReschedule P n s) := by
  unfold checkReschedule
  split_ifs
  · exact .schedule ..
  · exact .rfl'

theorem dequeueCallback_quiet (b : MessageBuffer) (s : Net) :
    Quiet B C s (dequeueCallback n b s) := by
  unfold dequeueCallback
  split_ifs
  · exact .schedule ..
  · exact .rfl'

theorem protocolStep_touches (n : Nat) (op : ProtocolOp) (s : Net) :
    Outcome (protocolStep P n op s) (fun s' => Touches ∅ ∅ s s' ∧ s'.consumed = s.consumed)
      fun _ => True := by
  have hset : ∀ vnet b, Touches ∅ ∅ s (s.setOutNode n vnet b) := fun vnet b =>
    ⟨rfl, fun _ _ => rfl, fun _ _ => rfl, fun _ _ _ h => h⟩
  cases op with
  | send vnet m delta rnd =>
    simp only [protocolStep, outcome_do]
    refine Outcome.introOk fun res _ => ?_
    have hq : Quiet ∅ ∅ s ((s.setInNode n vnet res.1).schedule (.ni n) res.2) :=
      (setInNode_quiet s n vnet res.1).trans (.schedule ..)
    exact ⟨hq.toTouches, hq.consumed⟩
  | receive vnet | stall vnet addr =>
    simp only [protocolStep, outcome_do]
    refine Outcome.introOk fun _ _ => ?_
    have hq := dequeueCallback_quiet (B := ∅) (C := ∅) (n := n)
    exact ⟨(hset ..).trans (hq ..).toTouches, (hq ..).consumed⟩
  | _ =>
    simp only [protocolStep, outcome_do]
    exact Outcome.introOk fun _ _ => ⟨hset .., rfl⟩

end NocSwap
