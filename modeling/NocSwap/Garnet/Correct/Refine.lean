import NocSwap.Garnet.Correct.Refine.Interface
import NocSwap.Garnet.Correct.Refine.Swap

/-!
# Steps as moves, and invariants of runs
-/

namespace NocSwap

open Function Net List

variable {P : Params} {s s' : Net} {l : Label}

variable {c : Consumer}

theorem mem_consumers : c ∈ P.consumers ↔ match c with
    | .router r => r < P.numRouters
    | .ni n => n < P.numNodes
    | .link l => l ∈ P.links
    | .creditLink l => l ∈ P.links := by
  cases c <;> simp [Params.consumers]

def Stepped (P : Params) (s s' : Net) : Label → Prop
  | .wake c _ => Moves P c (s.fire c) s' ∧ ∀ r, c = .router r → Rechecked P r s'
  | .protocol n _ => Moves P (.ni n) s s'
  | .tick => s' = { s with now := s.now + 1 }

def FailedStep (P : Params) (s : Net) (e : Fault) : Label → Prop
  | .wake c _ => Fails P c (s.fire c) e
  | .protocol n _ => Fails P (.ni n) s e
  | .tick => False

theorem exec_outcome (hen : Enabled P s l) :
    Outcome (exec P l s) (fun s' => Stepped P s s' l) (fun e => FailedStep P s e l) := by
  cases l with
  | tick => exact rfl
  | protocol n op => exact protocolStep_runs op s
  | wake c rnd =>
    have hc := mem_consumers.mp hen.1
    cases c with
    | router r =>
      exact (routerWakeup_outcome hc rnd _).imp
        fun _ h => ⟨h.1, fun r' hr' => Consumer.router.inj hr' ▸ h.2⟩
    | ni n =>
      exact (niWakeup_runs hc rnd _).imp fun _ h => ⟨h, fun _ h' => nomatch h'⟩
    | link l => exact ⟨linkWakeup_moves hc _, fun _ h' => nomatch h'⟩
    | creditLink l => exact ⟨creditLinkWakeup_moves hc _, fun _ h' => nomatch h'⟩

variable {c' : Consumer} {t : Nat}

theorem Move.events_mono (hm : Move P s c s') (h : t ∈ s.events c') : t ∈ s'.events c' := by
  cases hm with
  | sched _ c₀ t₀ =>
    rcases eq_or_ne c' c₀ with rfl | hne
    · rw [schedule_events, update_self]
      split_ifs
      · exact h
      · exact mem_cons_of_mem _ h
    · rwa [schedule_events, update_of_ne hne]
  | _ => exact h

theorem Move.now_eq (hm : Move P s c s') : s'.now = s.now := by
  cases hm <;> rfl

theorem Moves.now_eq (h : Moves P c s s') : s'.now = s.now := by
  induction h with
  | refl => rfl
  | tail _ hm ih => exact hm.now_eq.trans ih

theorem Moves.events_mono (h : Moves P c s s') (ht : t ∈ s.events c') : t ∈ s'.events c' := by
  induction h with
  | refl => exact ht
  | tail _ hm ih => exact hm.events_mono ih

/-- A property that holds at the start and that every change keeps. -/
structure Inductive (P : Params) (I : Net → Prop) : Prop where
  init : I (Net.init P)
  fire : ∀ s c, I s → I (s.fire c)
  tick : ∀ s, I s → I { s with now := s.now + 1 }
  move : ∀ s c s', c ∈ P.consumers → I s → Move P s c s' → I s'

variable {I : Net → Prop}

theorem Inductive.moves (hI : Inductive P I) (hc : c ∈ P.consumers) (hs : I s)
    (h : Moves P c s s') : I s' := by
  induction h with
  | refl => exact hs
  | tail _ hm ih => exact hI.move _ c _ hc ih hm

theorem Inductive.step (hI : Inductive P I) (hen : Enabled P s l) (hs : I s)
    (h : exec P l s = .ok s') : I s' := by
  have hstep := (exec_outcome hen).of_ok h
  cases l with
  | tick => exact hstep ▸ hI.tick s hs
  | protocol n op => exact hI.moves (mem_consumers.mpr hen.1) hs hstep
  | wake c rnd => exact hI.moves hen.1 (hI.fire s c hs) hstep.1

theorem Inductive.reachable (hI : Inductive P I) (h : Reachable P s) : I s := by
  induction h with
  | init => exact hI.init
  | step l _ hen hex ih => exact hI.step hen ih hex

theorem Inductive.fault (hI : Inductive P I) (h : Reachable P s) (hen : Enabled P s l) {e : Fault}
    (he : exec P l s = .error e) : ∃ t, I t ∧ FaultAt P t e := by
  have hs := hI.reachable h
  have hfail := (exec_outcome hen).of_error he
  cases l with
  | tick => exact hfail.elim
  | protocol n op =>
    obtain ⟨t, ht, hf⟩ := hfail
    exact ⟨t, hI.moves (mem_consumers.mpr hen.1) hs ht, hf⟩
  | wake c rnd =>
    obtain ⟨t, ht, hf⟩ := hfail
    exact ⟨t, hI.moves hen.1 (hI.fire s c hs) ht, hf⟩

variable {J : Net → Prop}

theorem Inductive.both (hI : Inductive P I) (hJ : Inductive P J) :
    Inductive P fun s => I s ∧ J s where
  init := ⟨hI.init, hJ.init⟩
  fire s c h := ⟨hI.fire s c h.1, hJ.fire s c h.2⟩
  tick s h := ⟨hI.tick s h.1, hJ.tick s h.2⟩
  move s c s' hc h hm := ⟨hI.move s c s' hc h.1 hm, hJ.move s c s' hc h.2 hm⟩

theorem Inductive.congr (hI : Inductive P I) (h : ∀ s, I s ↔ J s) : Inductive P J where
  init := (h _).mp hI.init
  fire s c hs := (h _).mp (hI.fire s c ((h s).mpr hs))
  tick s hs := (h _).mp (hI.tick s ((h s).mpr hs))
  move s c s' hc hs hm := (h s').mp (hI.move s c s' hc ((h s).mpr hs) hm)

structure InductiveUnder (P : Params) (I J : Net → Prop) : Prop where
  init : J (Net.init P)
  fire : ∀ s c, J s → J (s.fire c)
  tick : ∀ s, J s → J { s with now := s.now + 1 }
  move : ∀ s c s', c ∈ P.consumers → I s → J s → Move P s c s' → J s'

theorem InductiveUnder.alone (hJ : InductiveUnder P (fun _ => True) J) : Inductive P J :=
  ⟨hJ.init, hJ.fire, hJ.tick, fun s c s' hc => hJ.move s c s' hc trivial⟩

theorem InductiveUnder.and (hJ : InductiveUnder P I J) (hI : Inductive P I) :
    Inductive P fun s => I s ∧ J s where
  init := ⟨hI.init, hJ.init⟩
  fire s c h := ⟨hI.fire s c h.1, hJ.fire s c h.2⟩
  tick s h := ⟨hI.tick s h.1, hJ.tick s h.2⟩
  move s c s' hc h hm := ⟨hI.move s c s' hc h.1 hm, hJ.move s c s' hc h.1 h.2 hm⟩

theorem events_of_scheduled (P : Params) : Inductive P fun s =>
    ∀ c t, t ∈ s.scheduled c → s.now < t → t ∈ s.events c where
  init _ _ h := nomatch h
  fire s c h c' t ht hlt := by
    have hold := h c' t ht hlt
    rcases eq_or_ne c' c with rfl | hne
    · rw [fire_events, update_self]
      have hnow : t ≠ s.now := by
        rintro rfl
        exact lt_irrefl _ hlt
      exact (mem_erase_of_ne hnow).mpr hold
    · rwa [fire_events, update_of_ne hne]
  tick s h c t ht hlt := h c t ht (Nat.lt_of_succ_lt hlt)
  move s c s' _ h hm := by
    cases hm with
    | sched _ c₀ t₀ =>
      intro c' t ht hlt
      rcases eq_or_ne c' c₀ with rfl | hne
      · rw [schedule_scheduled, update_self, mem_filter] at ht
        rw [schedule_events, update_self]
        have hmem := ht.1
        split_ifs at hmem ⊢
        · exact h c' t hmem hlt
        · exact (List.mem_cons.mp hmem).elim (fun he => he ▸ mem_cons_self ..)
            fun hold => mem_cons_of_mem _ (h c' t hold hlt)
      · rw [schedule_scheduled, update_of_ne hne] at ht
        rw [schedule_events, update_of_ne hne]
        exact h c' t ht hlt
    | _ => exact h

theorem Net.mem_events_schedule (c : Consumer)
    (hsched : ∀ t ∈ s.scheduled c, s.now < t → t ∈ s.events c) (hlt : s.now < t) :
    t ∈ (s.schedule c t).events c := by
  rw [schedule_events, update_self]
  split_ifs with hfresh
  · exact hsched t hfresh hlt
  · exact mem_cons_self ..

end NocSwap
