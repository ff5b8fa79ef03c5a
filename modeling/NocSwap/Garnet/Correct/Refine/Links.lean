import NocSwap.Garnet.Moves
import NocSwap.Garnet.Correct.Ports

/-!
# Programs as moves, and the links
-/

namespace NocSwap

variable {P : Params} {c : Consumer} {s s' : Net}

/-! ### Programs as moves -/

def Runs (P : Params) (c : Consumer) (s : Net) (x : Act) : Prop :=
  Outcome x (Moves P c s) (Fails P c s)

theorem Moves.rfl' : Moves P c s s := Relation.ReflTransGen.refl

theorem Moves.one (h : Move P s c s') : Moves P c s s' := Relation.ReflTransGen.single h

theorem Moves.trans {t : Net} (h : Moves P c s s') (h' : Moves P c s' t) : Moves P c s t :=
  Relation.ReflTransGen.trans h h'

theorem Moves.then {t : Net} (h : Moves P c s s') (h' : Move P s' c t) : Moves P c s t :=
  Relation.ReflTransGen.tail h h'

theorem Fails.of_fault {e : Fault} (h : FaultAt P s e) : Fails P c s e := ⟨s, .refl, h⟩

theorem Fails.after {e : Fault} (h : Moves P c s s') (he : Fails P c s' e) : Fails P c s e := by
  obtain ⟨t, ht, hf⟩ := he
  exact ⟨t, h.trans ht, hf⟩

theorem Runs.after {x : Act} (h : Moves P c s s') (hx : Runs P c s' x) : Runs P c s x :=
  hx.mono (fun _ => h.trans) (fun _ => Fails.after h)

theorem Runs.bind {x : Act} {k : Net → Act} (hx : Runs P c s x)
    (hk : ∀ s', Moves P c s s' → Runs P c s' (k s')) : Runs P c s (x >>= k) := by
  rw [Runs, outcome_bind]
  exact hx.imp fun s' hs' => (hk s' hs').after hs'

theorem Runs.foldlM {α : Type} {k : Net → α → Act} (l : List α)
    (hk : ∀ a ∈ l, ∀ s, Runs P c s (k s a)) (s : Net) : Runs P c s (l.foldlM k s) :=
  Outcome.foldlM l (fun a ha s' hs' => (hk a ha s').after hs') s .rfl'

theorem Net.mem_scheduled {t : Nat} (s : Net) (c : Consumer) (h : s.now ≤ t) :
    t ∈ (s.schedule c t).scheduled c := by
  rw [Net.schedule_scheduled, Function.update_self, List.mem_filter]
  refine ⟨?_, by simpa using h⟩
  split_ifs with hm
  · exact hm
  · exact List.mem_cons_self ..

theorem Moves.sched_first (c' : Consumer) (t : Nat) (h : Move P (s.schedule c' t) c s') :
    Moves P c s s' :=
  (Moves.one (.sched c c' t)).then h

theorem Net.setBuf_insert {a b : Buf} (h : b ≠ a) (l : List Flit) (f : Flit) :
    (s.setBuf a l).insert b f = s.transfer a b l f := by
  simp only [Net.insert, Net.setBuf, Net.transfer, Function.update_of_ne h]

theorem linkWakeup_moves {l : Link} (hl : l ∈ P.links) (s : Net) :
    Moves P (.link l) s (linkWakeup P l s) := by
  unfold linkWakeup
  cases hb : s.buf (.srcQueue l) with
  | nil => exact .rfl'
  | cons f fs =>
    by_cases ht : f.time ≤ s.now
    · simp only [ht, if_true]
      rw [Net.setBuf_insert (by simp)]
      exact .sched_first _ _ (.link (s := s.schedule _ _) hl hb ht
        (s.mem_scheduled _ (Nat.le_add_right ..)))
    · simp only [ht, if_false]
      exact .rfl'

theorem creditLinkWakeup_moves {l : Link} (hl : l ∈ P.links) (s : Net) :
    Moves P (.creditLink l) s (creditLinkWakeup P l s) := by
  unfold creditLinkWakeup
  cases hb : s.credits (.queue l) with
  | nil => exact .rfl'
  | cons cr cs =>
    by_cases ht : cr.time ≤ s.now
    · simp only [ht, if_true]
      have h : Move P (s.schedule (P.creditConsumer l).consumer (s.now + P.creditLatency l))
          (.creditLink l) _ :=
        .creditLink hl hb ht (s.mem_scheduled _ (Nat.le_add_right ..))
      refine .sched_first (P.creditConsumer l).consumer (s.now + P.creditLatency l) ?_
      convert h using 1
      simp [Net.setCredits, Net.insertCredit, Net.schedule]
    · simp only [ht, if_false]
      exact .rfl'

theorem creditArrival_runs {l : Link} (hl : l ∈ P.links) (hc : c = (P.creditConsumer l).consumer)
    (s : Net) : Runs P c s (creditArrival l s) := by
  subst hc
  unfold creditArrival
  cases hb : s.credits (.link l) with
  | nil => exact Moves.rfl'
  | cons cr cs =>
    by_cases ht : cr.time ≤ s.now
    · simp only [ht, if_true, OutVcState.incrementCredit, Runs, outcome_do, Net.setCredits_outVc]
      constructor
      · intro hm
        exact .one (.credit hl hb ht hm)
      · intro hm
        exact .of_fault (.incrementCredit hl hb (by omega))
    · simp only [ht, if_false]
      exact Moves.rfl'

end NocSwap
