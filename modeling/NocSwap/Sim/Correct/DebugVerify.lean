import NocSwap.Sim.Correct.EventQueue

/-!
# The check of an event queue
-/

namespace NocSwap.Sim.EventQueue

open List

variable {q : EventQueue} {v : Verify} {l : List Nat} {bins : List (Nat × List Nat)} {fuel : Nat}

def Verify.last (v : Verify) : Event := { when := v.time, priority := v.priority }

def scan (q : EventQueue) (v : Verify) : List Nat → Option Verify
  | [] => some v
  | e :: l =>
    if v.last.le (q.events e) ∧ e ∉ v.map then
      q.scan ⟨(q.events e).when, (q.events e).priority, e :: v.map⟩ l
    else none

theorem scan_append (l₁ l₂ : List Nat) :
    q.scan v (l₁ ++ l₂) = (q.scan v l₁).bind fun v' => q.scan v' l₂ := by
  induction l₁ generalizing v with
  | nil => rfl
  | cons e l₁ ih =>
    rw [cons_append, scan, scan]
    split_ifs
    · exact ih
    · rfl

theorem isSome_scan_iff : (q.scan v l).isSome = true ↔
    (∀ e ∈ l, v.last.le (q.events e) ∧ e ∉ v.map) ∧ l.Pairwise (Before q.events) ∧ l.Nodup := by
  induction l generalizing v with
  | nil => simp [scan]
  | cons e l ih =>
    rw [scan, pairwise_cons, nodup_cons]
    split_ifs with hnext
    · rw [ih]
      constructor
      · rintro ⟨hall, hsorted, hnodup⟩
        refine ⟨?_, ⟨fun e' he' => (hall e' he').1, hsorted⟩, fun hmem => ?_, hnodup⟩
        · rintro e' (_ | ⟨_, he'⟩)
          · exact hnext
          · obtain ⟨hle, hnew⟩ := hall e' he'
            exact ⟨Event.le_trans hnext.1 hle, not_mem_of_not_mem_cons hnew⟩
        · exact (hall e hmem).2 (mem_cons_self ..)
      · rintro ⟨hall, ⟨hle, hsorted⟩, hnot, hnodup⟩
        refine ⟨fun e' he' => ⟨hle e' he', ?_⟩, hsorted, hnodup⟩
        rw [mem_cons, not_or]
        exact ⟨fun heq => hnot (heq ▸ he'), (hall e' (mem_cons_of_mem _ he')).2⟩
    · constructor
      · exact fun h => nomatch h
      · exact fun h => absurd (h.1 e (mem_cons_self ..)) hnext

theorem verifyInBin_eq {p : Option Nat} (h : Linked q.nextInBin p l) (hf : l.length < fuel) :
    q.verifyInBin fuel p v = .ok (q.scan v l) := by
  induction l generalizing fuel p v with
  | nil =>
    obtain rfl : p = none := h
    obtain ⟨fuel, rfl⟩ := Nat.exists_eq_add_of_lt hf
    rfl
  | cons e l ih =>
    obtain ⟨rfl, hrest⟩ := h
    obtain ⟨fuel, rfl⟩ : ∃ n, fuel = n + 1 := ⟨fuel - 1, by omega⟩
    have hle : v.last.le (q.events e) ↔ ¬ (q.events e).when < v.time ∧
        ¬ ((q.events e).when = v.time ∧ (q.events e).priority < v.priority) := by
      rw [Event.le_iff_not_lt, Event.lt, not_or]
      rfl
    rw [verifyInBin, scan]
    by_cases hgo : v.last.le (q.events e) ∧ e ∉ v.map
    · obtain ⟨htime, hpriority⟩ := hle.mp hgo.1
      rw [if_neg htime, if_neg hpriority, if_neg hgo.2, if_pos hgo]
      exact ih hrest (Nat.lt_of_succ_lt_succ hf)
    · rw [if_neg hgo]
      split_ifs with htime hpriority hseen
      · rfl
      · rfl
      · rfl
      · exact absurd ⟨hle.mpr ⟨htime, hpriority⟩, hseen⟩ hgo

theorem verifyBins_eq {p : Option Nat} {passes : Nat}
    (htops : Linked q.nextBin p (bins.map Prod.fst))
    (hstack : ∀ b ∈ bins, Linked q.nextInBin (q.nextInBin b.1) b.2)
    (hf : (content bins).length < passes) (hf' : bins.length < fuel) :
    q.verifyBins passes fuel p v = .ok (q.scan v (content bins)).isSome := by
  induction bins generalizing fuel p v with
  | nil =>
    obtain rfl : p = none := htops
    obtain ⟨fuel, rfl⟩ := Nat.exists_eq_add_of_lt hf'
    rfl
  | cons b bins ih =>
    obtain ⟨rfl, hrest⟩ := htops
    obtain ⟨fuel, rfl⟩ : ∃ n, fuel = n + 1 := ⟨fuel - 1, by omega⟩
    rw [content_cons, ← cons_append] at hf ⊢
    rw [length_append] at hf
    have hbin : q.verifyInBin passes (some b.1) v = .ok (q.scan v (b.1 :: b.2)) :=
      verifyInBin_eq ⟨rfl, hstack b (mem_cons_self ..)⟩ (by omega)
    rw [verifyBins, hbin, scan_append]
    cases q.scan v (b.1 :: b.2) with
    | none => rfl
    | some v' =>
      exact ih hrest (fun b' hb' => hstack b' (mem_cons_of_mem _ hb')) (by omega)
        (Nat.lt_of_succ_lt_succ hf')

theorem debugVerify_eq (htops : Linked q.nextBin q.head (bins.map Prod.fst))
    (hstack : ∀ b ∈ bins, Linked q.nextInBin (q.nextInBin b.1) b.2)
    (hf : (content bins).length < fuel) :
    ∃ b, q.debugVerify fuel = .ok b ∧ (b = true ↔
      (content bins).Pairwise (Before q.events) ∧ (content bins).Nodup ∧
        ∀ e ∈ (content bins).head?, ¬ ((q.events e).when = 0 ∧ (q.events e).priority < 0)) := by
  have hzero : ∀ e, (Verify.last {}).le (q.events e) ↔
      ¬ ((q.events e).when = 0 ∧ (q.events e).priority < 0) := by
    intro e
    unfold Event.le Verify.last
    dsimp only
    omega
  refine ⟨_, verifyBins_eq htops hstack hf ((length_le_length_content bins).trans_lt hf), ?_⟩
  rw [isSome_scan_iff]
  constructor
  · rintro ⟨hall, hsorted, hnodup⟩
    refine ⟨hsorted, hnodup, fun e he => (hzero e).mp (hall e ?_).1⟩
    exact mem_of_mem_head? he
  · rintro ⟨hsorted, hnodup, hfirst⟩
    refine ⟨fun e he => ⟨?_, not_mem_nil⟩, hsorted, hnodup⟩
    cases hl : content bins with
    | nil =>
      rw [hl] at he
      cases he
    | cons e₀ l =>
      rw [hl] at he hsorted hfirst
      have hbound := (hzero e₀).mpr (hfirst e₀ rfl)
      rcases mem_cons.mp he with rfl | he
      · exact hbound
      · exact Event.le_trans hbound (rel_of_pairwise_cons hsorted he)

/-- **What `debugVerify` accepts**: every queue of a run, unless its first event has tick `0` and
negative priority; and no finite list that is unsorted or has an event twice. -/
theorem debugVerify_spec {q₀ q : EventQueue} (hhead : q₀.head = none)
    (hs : ∀ e, (q₀.events e).scheduled = false) {ops : List Op} {fuel : Nat}
    (hfuel : calls ops ≤ fuel) (hrun : q₀.run fuel ops = .ok q) :
    (∃ b, q.debugVerify (fuel + 1) = .ok b ∧ (b = true ↔
      ∀ e ∈ q.head, ¬ ((q.events e).when = 0 ∧ (q.events e).priority < 0))) ∧
    ∀ (q : EventQueue) (bins : List (Nat × List Nat)) (fuel : Nat),
      Linked q.nextBin q.head (bins.map Prod.fst) →
      (∀ b ∈ bins, Linked q.nextInBin (q.nextInBin b.1) b.2) → (content bins).length < fuel →
      ¬ ((content bins).Pairwise (Before q.events) ∧ (content bins).Nodup) →
        q.debugVerify fuel = .ok false := by
  refine ⟨?_, fun q bins fuel htops hstack hf hbad => ?_⟩
  · obtain ⟨a, -, href, -, hlen⟩ :=
      (run_refines ops fuel (refines_empty hhead hs) (by simpa using hfuel)).of_ok hrun
    have hsorted := href.valid.sorted
    have hnodup := href.valid.nodup
    have hfirst := href.holds.head_eq
    obtain ⟨bins, hbins, hcontent⟩ := href.holds
    rw [← href.events, ← hcontent] at hsorted
    rw [← hcontent] at hnodup hfirst hlen
    have hf : (content bins).length < fuel + 1 := by
      simp at hlen
      omega
    obtain ⟨b, hb, hiff⟩ := debugVerify_eq hbins.tops hbins.stack hf
    refine ⟨b, hb, hiff.trans ?_⟩
    rw [hfirst]
    exact ⟨fun h => h.2.2, fun h => ⟨hsorted, hnodup, h⟩⟩
  · obtain ⟨b, hb, hiff⟩ := debugVerify_eq htops hstack hf
    have hfalse : b = false := by
      apply Bool.eq_false_iff.mpr
      intro htrue
      obtain ⟨hsorted, hnodup, -⟩ := hiff.mp htrue
      exact hbad ⟨hsorted, hnodup⟩
    rw [hb, hfalse]

theorem debugVerify_spec_two :
    let q₀ : EventQueue := ⟨fun _ => {}, fun _ => none, fun _ => none, none, 0⟩
    let ops : List Op := [.call (.schedule 0 5), .call (.schedule 1 5)]
    ∃ q, q₀.run 2 ops = .ok q ∧ q.head = some 1 ∧ q.debugVerify 3 = .ok true := by
  intro q₀ ops
  have hrun : (q₀.run 2 ops).toOption.map (fun q => (q.head, (q.events 1).when)) =
      some (some 1, 5) := by decide
  obtain ⟨q, hq, hval⟩ := Option.map_eq_some_iff.mp hrun
  obtain ⟨hhead, hwhen⟩ := Prod.mk.inj hval
  have hfuel : calls ops ≤ 2 := by decide
  obtain ⟨⟨b, hb, hiff⟩, -⟩ := debugVerify_spec rfl (fun _ => rfl) hfuel (eq_ok_of_toOption hq)
  have htrue : b = true := hiff.mpr fun e he hzero => by
    rw [hhead] at he
    obtain rfl := Option.some_inj.mp he
    rw [hwhen] at hzero
    exact absurd hzero.1 (by decide)
  exact ⟨q, eq_ok_of_toOption hq, hhead, htrue ▸ hb⟩

/-- One event with priority `-1`, scheduled for tick `0`. -/
theorem debugVerify_first_tick :
    let q₀ : EventQueue := ⟨fun _ => { priority := -1 }, fun _ => none, fun _ => none, none, 0⟩
    (q₀.run 1 [.call (.schedule 0 0)]).toOption.map (fun q => (q.debugVerify 2).toOption) =
      some (some false) := by
  decide

end NocSwap.Sim.EventQueue
