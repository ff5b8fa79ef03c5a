import NocSwap.Garnet.Correct.SwapPtr

/-!
# Which channels `movSwapPtr` looks at
-/

namespace NocSwap.SwapPtr

open List Nat

variable {w : View}

/-- The loops look at channel `v` of port `p`: `v` is `0`, or `p` is the first port after `i` that
is not passed over and `u ≤ v`. -/
def Seen (w : View) (i u p v : Nat) : Prop :=
  v = 0 ∨ u ≤ v ∧ ∃ k < w.dirns.length, p = (i + 1 + k) % w.dirns.length ∧
    ∀ k' < k, ¬ Scanned w ((i + 1 + k') % w.dirns.length)

theorem mem_looked_round (hn : 0 < w.numVcs) {i u p v : Nat} (hi : i < w.dirns.length) :
    (p, v) ∈ looked w w.dirns.length i u ↔
      p < w.dirns.length ∧ v < w.numVcs ∧ Scanned w p ∧ Seen w i u p v := by
  rw [mem_looked hn]
  constructor
  · rintro ⟨hv, hsc, k, hk, hp, hcase⟩
    refine ⟨hp ▸ mod_lt _ (by omega), hv, hsc, ?_⟩
    rcases hcase with h0 | ⟨hu, hfirst⟩
    · exact .inl h0
    · exact .inr ⟨hu, k, hk, hp, hfirst⟩
  · rintro ⟨hp, hv, hsc, hseen⟩
    refine ⟨hv, hsc, ?_⟩
    rcases hseen with h0 | ⟨hu, k, hk, hpk, hfirst⟩
    · -- every port is reached within a round
      have hlt : (i + 1) % w.dirns.length < w.dirns.length := mod_lt _ (by omega)
      refine ⟨ahead w.dirns.length ((i + 1) % w.dirns.length) p, ahead_lt hlt, ?_, .inl h0⟩
      rw [← mod_add_mod, ahead_spec hlt hp]
    · exact ⟨k, hk, hpk, .inr ⟨hu, hfirst⟩⟩

/-- `movSwapPtr` becomes valid exactly when there is an occupied channel, and then names one. -/
def Finds (w : View) (sp : SwapPtr) : Prop :=
  ∃ sp', movSwapPtr w sp = .ok sp' ∧ (sp'.valid = true ↔ ∃ p v, Occupied w p v) ∧
    (sp'.valid = true → ∃ p v : Nat, sp'.inport = p ∧ sp'.vcid = v ∧ Occupied w p v)

section

variable (hw : w.whichToSwap = .disableLocalSwap) (hd : .Empty ∉ w.dirns) (hn : 0 < w.numVcs)
  {sp : SwapPtr} {i u : Nat} (hi : sp.inport = i) (hlt : i < w.dirns.length) (hu : sp.vcid = u)

include hw hn hlt in
theorem occupied_and_seen_iff {p v : Nat} : (p, v) ∈ looked w w.dirns.length i u ∧
    w.isEmpty p v = false ↔ Occupied w p v ∧ Seen w i u p v := by
  rw [mem_looked_round hn hlt, Occupied, Scanned]
  tauto

include hw hd hn hi hlt hu in
theorem movSwapPtr_of_looked {q : Nat × Nat} (hq : q ∈ looked w w.dirns.length i u)
    (he : w.isEmpty q.1 q.2 = false) : Finds w sp := by
  obtain ⟨⟨sp', invc⟩, hscan, hr⟩ :=
    (scanInports_looked hn w.dirns.length i u sp (-1) hi hlt hu (fun h => by omega)).exists_ok
  rcases hr with ⟨⟨p, v⟩, hpv, hin, hvc, he'⟩ | ⟨-, -, -, hall, -⟩
  · have hocc : Occupied w p v := ((occupied_and_seen_iff hw hn hlt).mp ⟨hpv, he'⟩).1
    have hp := hocc.1
    have hloc := hocc.2.1
    rw [getElem?_eq_getElem hp, ne_eq, Option.some.injEq] at hloc
    have hne : w.dirns[p] ≠ .Empty := fun h => hd (h ▸ getElem_mem hp)
    dsimp only at hin hvc he'
    refine ⟨⟨true, p, v, w.dirns[p]⟩, ?_, ⟨fun _ => ⟨p, v, hocc⟩, fun _ => rfl⟩,
      fun _ => ⟨p, v, rfl, rfl, hocc⟩⟩
    simp [movSwapPtr, hscan, hin, hvc, bind, Except.bind, require, orFail,
      getElem?_eq_getElem hp, he', hne, hloc, pure, Except.pure]
  · rw [hall q hq] at he
    cases he

include hi hlt hu hn in
theorem movSwapPtr_of_not_looked (h : ∀ q ∈ looked w w.dirns.length i u, w.isEmpty q.1 q.2 = true) :
    Outcome (movSwapPtr w sp)
      (fun sp' => sp'.valid = false ∧ (Scanned w i ∨
        ∃ q ∈ (looked w w.dirns.length i u).getLast?, w.isEmpty i q.2 = true))
      (fun _ => ¬ Scanned w i ∧
        ∀ q ∈ (looked w w.dirns.length i u).getLast?, w.isEmpty i q.2 = false) := by
  obtain ⟨⟨sp', invc⟩, hscan, hr⟩ :=
    (scanInports_looked hn w.dirns.length i u sp (-1) hi hlt hu (fun h => by omega)).exists_ok
  rcases hr with ⟨q, hq, -, -, he⟩ | ⟨j, hj, hin, -, hlast, hempty⟩
  · rw [h q hq] at he
    cases he
  · rw [add_mod_right, mod_eq_of_lt hlt] at hj
    subst hj
    dsimp only at hin hlast hempty
    rw [movSwapPtr, hscan]
    simp only [bind, Except.bind, hin, require, orFail, Int.natCast_nonneg, if_true,
      Int.toNat_natCast, getElem?_eq_getElem hlt]
    cases hl : (looked w w.dirns.length j u).getLast? with
    | none =>
      rw [hl] at hlast
      subst hlast
      refine ⟨fun hsc => ?_, fun q hq => by cases hq⟩
      obtain ⟨v, hv, -⟩ := hempty hsc
      simp at hv
    | some q =>
      rw [hl] at hlast
      subst hlast
      cases he : w.isEmpty j q.2 with
      | true => simp [he, pure, Except.pure]
      | false =>
        have hsc : ¬ Scanned w j := by
          intro hsc
          obtain ⟨v, hv, hev⟩ := hempty hsc
          rw [← Int.natCast_inj.mp hv, he] at hev
          cases hev
        have hloc := not_not.mp hsc
        rw [getElem?_eq_getElem hlt, Option.some.injEq] at hloc
        simp [he, hloc, hsc]

include hw hd hn hi hlt hu in
/-- **When `movSwapPtr` finds a candidate.** It is valid exactly when a port of the mesh holds a
flit, if and only if one is in a channel that the loops look at or the last look at a `Local` port
finds nothing. -/
theorem movSwapPtr_finds_iff : Finds w sp ↔
    ((∃ p v, Occupied w p v) → ∃ p v, Occupied w p v ∧ Seen w i u p v) ∧
    ((∀ p v, ¬ Occupied w p v) → w.dirns[i]? = some .Local →
      ∃ q ∈ (looked w w.dirns.length i u).getLast?, w.isEmpty i q.2 = true) := by
  by_cases hlook : ∃ p v, Occupied w p v ∧ Seen w i u p v
  · obtain ⟨p, v, hocc, hseen⟩ := id hlook
    have hq := (occupied_and_seen_iff hw hn hlt).mpr ⟨hocc, hseen⟩
    exact iff_of_true (movSwapPtr_of_looked hw hd hn hi hlt hu hq.1 hq.2)
      ⟨fun _ => hlook, fun hno => absurd hocc (hno p v)⟩
  · have hall : ∀ q ∈ looked w w.dirns.length i u, w.isEmpty q.1 q.2 = true := by
      rintro ⟨p, v⟩ hq
      by_contra he
      rw [Bool.not_eq_true] at he
      exact hlook ⟨p, v, (occupied_and_seen_iff hw hn hlt).mp ⟨hq, he⟩⟩
    have hmov := movSwapPtr_of_not_looked hn hi hlt hu hall
    have hsc : Scanned w i ↔ w.dirns[i]? ≠ some .Local := by
      rw [Scanned, not_and, ne_eq]
      exact ⟨fun h => h hw, fun h _ => h⟩
    rw [hsc] at hmov
    constructor
    · rintro ⟨sp', hok, hvalid, -⟩
      obtain ⟨hinv, hlast⟩ := hmov.of_ok hok
      rw [hinv, Bool.false_eq_true, false_iff] at hvalid
      exact ⟨fun hex => absurd hex hvalid, fun _ hloc => hlast.resolve_left (absurd hloc)⟩
    · rintro ⟨hex, hlocal⟩
      have hno : ∀ p v, ¬ Occupied w p v := fun p v hocc => hlook (hex ⟨p, v, hocc⟩)
      cases hres : movSwapPtr w sp with
      | ok sp' =>
        have hinv := (hmov.of_ok hres).1
        refine ⟨sp', hres, iff_of_false (by simp [hinv]) ?_, by simp [hinv]⟩
        rintro ⟨p, v, hocc⟩
        exact hno p v hocc
      | error e =>
        obtain ⟨hloc, hlast⟩ := hmov.of_error hres
        obtain ⟨q, hq, he⟩ := hlocal hno (not_not.mp hloc)
        rw [hlast q hq] at he
        cases he

end

/-- The middle router of a row of three with two channels, a flit in channel `1` of its `East` port.
-/
def eastSecond : View :=
  ⟨[.Local, .West, .East], 2, .disableLocalSwap, fun p v => decide (¬ (p = 2 ∧ v = 1))⟩

/-- From channel `0` of the `West` port the flit is found. -/
theorem movSwapPtr_finds_iff_row : Finds eastSecond ⟨true, 1, 0, .West⟩ := by
  have hocc : Occupied eastSecond 2 1 := ⟨by decide, by decide, by decide, by decide⟩
  apply (movSwapPtr_finds_iff (i := 1) (u := 0) rfl (by decide) (by decide) rfl (by decide) rfl).mpr
  constructor
  · intro _
    exact ⟨2, 1, hocc, .inr ⟨by decide, 0, by decide, rfl, by decide⟩⟩
  · intro hno
    exact absurd hocc (hno 2 1)

/-- From channel `0` of the `East` port it is not: when the loops come back, the counter stands for
channel `0`. -/
theorem movSwapPtr_misses_second : Occupied eastSecond 2 1 ∧
    movSwapPtr eastSecond ⟨true, 2, 0, .East⟩ = .ok ⟨false, -1, -1, .East⟩ ∧
    ¬ Finds eastSecond ⟨true, 2, 0, .East⟩ := by
  have hocc : Occupied eastSecond 2 1 := ⟨by decide, by decide, by decide, by decide⟩
  have hmov : movSwapPtr eastSecond ⟨true, 2, 0, .East⟩ = .ok ⟨false, -1, -1, .East⟩ := rfl
  refine ⟨hocc, hmov, ?_⟩
  rintro ⟨sp', hok, hvalid, -⟩
  obtain rfl := Except.ok.inj (hmov.symm.trans hok)
  exact Bool.false_ne_true (hvalid.mpr ⟨2, 1, hocc⟩)

end NocSwap.SwapPtr
