import NocSwap.Protocol.MI.Line

/-!
# MI_example: the messages about one line
-/

namespace NocSwap.MIExample

open Multiset LineMsg

open LineMsg (Kind MemKind)

namespace LineState

variable {β : Type} {s s' : LineState β}

def tally (ms : Multiset (LineMsg β)) (k : Nat) (κ : Kind) : Nat :=
  (ms.map fun m => m.unit k κ).sum

@[simp] theorem tally_cons (m : LineMsg β) (ms : Multiset (LineMsg β)) (k : Nat) (κ : Kind) :
    tally (m ::ₘ ms) k κ = m.unit k κ + tally ms k κ := by
  simp [tally]

def memTally (ms : Multiset (LineMsg β)) (κ : MemKind) : Nat :=
  (ms.map fun m => m.memUnit κ).sum

@[simp] theorem memTally_cons (m : LineMsg β) (ms : Multiset (LineMsg β)) (κ : MemKind) :
    memTally (m ::ₘ ms) κ = m.memUnit κ + memTally ms κ := by
  simp [memTally]

variable {m : LineMsg β} {ms : Multiset (LineMsg β)}

theorem unit_le_tally (hm : m ∈ ms) (k : Nat) (κ : Kind) : m.unit k κ ≤ tally ms k κ := by
  obtain ⟨ms, rfl⟩ := exists_cons_of_mem hm
  rw [tally_cons]
  exact Nat.le_add_right ..

variable {k : Nat}

theorem exists_of_tally {κ : Kind} (h : tally ms k κ ≠ 0) : ∃ m ∈ ms, m.unit k κ ≠ 0 := by
  by_contra hne
  simp only [not_exists, not_and, not_not] at hne
  refine h (sum_eq_zero fun n hn => ?_)
  obtain ⟨m, hm, rfl⟩ := mem_map.mp hn
  exact hne m hm

variable {κ : MemKind}

theorem exists_of_memTally (h : memTally ms κ ≠ 0) : ∃ m ∈ ms, m.memUnit κ ≠ 0 := by
  by_contra hne
  simp only [not_exists, not_and, not_not] at hne
  refine h (sum_eq_zero fun n hn => ?_)
  obtain ⟨m, hm, rfl⟩ := mem_map.mp hn
  exact hne m hm

theorem notMem_of_tally {κ : Kind} (h : tally ms k κ = 0) (hu : m.unit k κ ≠ 0) : m ∉ ms := by
  intro hm
  have hle := unit_le_tally hm k κ
  omega

theorem notMem_of_memTally (h : memTally ms κ = 0) (hu : m.memUnit κ ≠ 0) : m ∉ ms := by
  intro hm
  obtain ⟨ms, rfl⟩ := exists_cons_of_mem hm
  rw [memTally_cons] at h
  omega

/-- What the state of a cache says about its messages `n` of each kind and its ownerships `o`. -/
def CountsOk (c : CacheState β) (n : Kind → Nat) (o : Nat) : Prop :=
  match c with
  | .I =>
    n .getx = 0 ∧ n .fwdFrom = 0 ∧ n .data = 0 ∧ n .fetch = 0 ∧ n .fwdTo = 0 ∧ n .putx = 0 ∧
      n .wbAck = 0 ∧ n .wbNack = 0 ∧ n .write = 0 ∧ o = 0
  | .IS | .IM =>
    n .getx + n .fwdFrom + n .data + n .fetch = 1 ∧ n .fwdTo + o + n .getx = 1 ∧ n .putx = 0 ∧
      n .wbAck = 0 ∧ n .wbNack = 0 ∧ n .write = 0
  | .M _ =>
    n .getx = 0 ∧ n .fwdFrom = 0 ∧ n .data = 0 ∧ n .fetch = 0 ∧ n .fwdTo + o = 1 ∧ n .putx = 0 ∧
      n .wbAck = 0 ∧ n .wbNack = 0 ∧ n .write = 0
  | .MI _ =>
    n .getx = 0 ∧ n .fwdFrom = 0 ∧ n .data = 0 ∧ n .fetch = 0 ∧
      n .putx + n .wbAck + n .wbNack + n .write = 1 ∧
      n .fwdTo + o + n .wbAck + n .write = 1 ∧ o + n .wbNack ≤ 1
  | .MII _ =>
    n .getx = 0 ∧ n .fwdFrom = 0 ∧ n .data = 0 ∧ n .fetch = 0 ∧ n .fwdTo = 1 ∧ n .putx = 0 ∧
      n .wbAck = 0 ∧ n .wbNack = 0 ∧ n .write = 0 ∧ o = 0
  | .II =>
    n .getx = 0 ∧ n .fwdFrom = 0 ∧ n .data = 0 ∧ n .fetch = 0 ∧ n .fwdTo = 0 ∧
      n .putx + n .wbNack = 1 ∧ n .wbAck = 0 ∧ n .write = 0 ∧ o = 0

def CacheOk (s : LineState β) (k : Nat) : Prop :=
  CountsOk (s.cache k) (tally s.msgs k) (s.owner.count k)

theorem CacheOk.congr (h : CacheOk s k) (hc : s'.cache k = s.cache k)
    (ht : ∀ κ, tally s'.msgs k κ = tally s.msgs k κ)
    (ho : s'.owner.count k = s.owner.count k) : CacheOk s' k := by
  unfold CacheOk at *
  rwa [hc, funext ht, ho]

variable {c : CacheState β}

theorem CacheOk.counts (h : CacheOk s k)
    (hc : s.cache k = c) (hm : s.msgs = ms) : CountsOk c (tally ms k) (s.owner.count k) := by
  subst hc hm
  exact h

variable {i : Nat}

section

variable (h : ∀ k, CacheOk s k)
include h

theorem cacheOk_local (hi : CountsOk c (tally ms i) (s.owner.count i))
    (ht : ∀ k ≠ i, ∀ κ, tally ms k κ = tally s.msgs k κ) (k : Nat) :
    CacheOk { s.setCache i c with msgs := ms } k := by
  rcases eq_or_ne k i with rfl | hki
  · simpa [CacheOk, setCache] using hi
  · exact (h k).congr (Function.update_of_ne hki ..) (ht k hki) rfl

theorem cacheOk_forward {j : Nat} {b : β} (hm : s.msgs = .fwd i j ::ₘ ms)
    (hij : i ≠ j) (hi : CountsOk c (tally ms i) (s.owner.count i)) (k : Nat) :
    CacheOk { s.setCache i c with msgs := .data j b ::ₘ ms } k := by
  have hk := h k
  unfold CacheOk at hk ⊢
  rw [hm] at hk
  rcases eq_or_ne k i with rfl | hki
  · have ht : tally (data j b ::ₘ ms) k = tally ms k := by
      funext κ
      cases κ <;> simp [unit, hij.symm]
    simpa [setCache, ht] using hi
  · rw [show (setCache s i c).cache k = s.cache k from Function.update_of_ne hki ..]
    rcases eq_or_ne k j with rfl | hkj
    · -- the requestor waits for the data in place of its forwarded request
      cases hc : s.cache k with
      | _ =>
        rw [hc] at hk
        simp [CountsOk, unit, hki.symm, setCache] at hk ⊢ <;> omega
    · have ht : tally (data j b ::ₘ ms) k = tally (.fwd i j ::ₘ ms) k := by
        funext κ
        cases κ <;> simp [unit, hki.symm, hkj.symm]
      rwa [ht]

theorem CacheMove.cacheOk (m : CacheMove s s') : ∀ k, CacheOk s' k := by
  cases m with
  | @request i c hi hc =>
    refine cacheOk_local h ?_ fun k hki κ => ?_
    · have hk := (h i).counts hi rfl
      rcases hc with rfl | rfl
      all_goals
        simp [CountsOk, unit] at hk ⊢
        omega
    · cases κ <;> simp [unit, hki.symm]
  | @hit i b b' hi =>
    refine cacheOk_local h ?_ fun _ _ _ => rfl
    have hk := (h i).counts hi rfl
    exact hk
  | @receive i b b' ms hi hm =>
    refine cacheOk_local h ?_ fun k hki κ => ?_
    · rcases hi with hi | hi
      all_goals
        have hk := (h i).counts hi hm
        simp [CountsOk, unit] at hk ⊢
        omega
    · rw [hm]
      cases κ <;> simp [unit, hki.symm]
  | @forwardM i j b ms hi hm | @forwardMI i j b ms hi hm | @forwardMII i j b ms hi hm =>
    have hk := (h i).counts hi hm
    have hij : i ≠ j := by
      rintro rfl
      simp [CountsOk, unit] at hk
    refine cacheOk_forward h hm hij ?_
    simp [CountsOk, unit, hij.symm] at hk ⊢
    omega
  | @replace i b hi =>
    refine cacheOk_local h ?_ fun k hki κ => ?_
    · have hk := (h i).counts hi rfl
      simp [CountsOk, unit] at hk ⊢
      omega
    · cases κ <;> simp [unit, hki.symm]
  | @inv i ms hm =>
    intro k
    refine (h k).congr rfl (fun κ => ?_) rfl
    rw [hm]
    cases κ <;> simp [unit]
  | @wbAck i b ms hi hm | @wbNackMI i b ms hi hm | @wbNackII i ms hi hm =>
    refine cacheOk_local h ?_ fun k hki κ => ?_
    · have hk := (h i).counts hi hm
      simp [CountsOk, unit] at hk ⊢
      omega
    · rw [hm]
      cases κ <;> simp [unit, hki.symm]

theorem cacheOk_exchange {m' : LineMsg β} {d : DirState} {o : List Nat}
    {v w : β} (hm : s.msgs = m ::ₘ ms) {p : Nat → Prop}
    (hp : ∀ k, p k → CountsOk (s.cache k) (tally (m ::ₘ ms) k) (s.owner.count k) →
      CountsOk (s.cache k) (tally (m' ::ₘ ms) k) (o.count k))
    (ht : ∀ k, ¬ p k → (∀ κ, m'.unit k κ = m.unit k κ) ∧ o.count k = s.owner.count k) (k : Nat) :
    CacheOk { s with dir := d, owner := o, memory := v, value := w, msgs := m' ::ₘ ms } k := by
  by_cases hpk : p k
  · exact hp k hpk ((h k).counts rfl hm)
  · refine (h k).congr rfl (fun κ => ?_) (ht k hpk).2
    rw [hm, tally_cons, tally_cons, (ht k hpk).1 κ]

end

def DirOk (s : LineState β) : Prop :=
  let n := memTally s.msgs
  match s.dir with
  | .I =>
    s.owner = [] ∧ n .cacheFetch = 0 ∧ n .dmaFetch = 0 ∧ n .cacheWrite = 0 ∧ n .dmaWrite = 0
  | .M | .M_DRD | .M_DWR =>
    (∃ o, s.owner = [o]) ∧ n .cacheFetch = 0 ∧ n .dmaFetch = 0 ∧ n .cacheWrite = 0 ∧
      n .dmaWrite = 0
  | .IM =>
    (∃ o, s.owner = [o]) ∧ n .cacheFetch = 1 ∧ n .dmaFetch = 0 ∧ n .cacheWrite = 0 ∧
      n .dmaWrite = 0
  | .ID =>
    s.owner = [] ∧ n .cacheFetch = 0 ∧ n .dmaFetch = 1 ∧ n .cacheWrite = 0 ∧ n .dmaWrite = 0
  | .MI | .M_DRDI | .M_DWRI =>
    s.owner = [] ∧ n .cacheFetch = 0 ∧ n .dmaFetch = 0 ∧ n .cacheWrite = 1 ∧ n .dmaWrite = 0
  | .ID_W =>
    s.owner = [] ∧ n .cacheFetch = 0 ∧ n .dmaFetch = 0 ∧ n .cacheWrite = 0 ∧ n .dmaWrite = 1

theorem DirOk.owner_eq (h : DirOk s) (ho : i ∈ s.owner) : s.owner = [i] := by
  have hex : s.owner = [] ∨ ∃ o, s.owner = [o] := by
    unfold DirOk at h
    cases hd : s.dir with
    | _ =>
      rw [hd] at h
      simp only at h
      first
        | exact .inl h.1
        | exact .inr h.1
  rcases hex with hnil | ⟨o, ho'⟩
  · rw [hnil] at ho
    exact absurd ho List.not_mem_nil
  · rw [ho'] at ho ⊢
    rw [List.mem_singleton.mp ho]

theorem DirOk.memTally_eq_zero (h : DirOk s) (hd : s.dir.atHome = false ∨ s.dir = .I)
    (κ : MemKind) : memTally s.msgs κ = 0 := by
  unfold DirOk at h
  cases hs : s.dir with
  | _ =>
    rw [hs] at h hd
    first
      | (simp only at h
         cases κ <;> omega)
      | simp [DirState.atHome] at hd

theorem DirOk.memTally_cons (h : DirOk s) (hm : s.msgs = m ::ₘ ms) (hu : m.memUnit κ = 1) :
    s.dir.atHome = true ∧ ∀ κ', memTally ms κ' = 0 := by
  have hκ := LineState.memTally_cons m ms κ
  unfold DirOk at h
  rw [hm] at h
  cases hs : s.dir with
  | _ =>
    rw [hs] at h
    simp only [LineState.memTally_cons] at h
    refine ⟨?_, fun κ' => ?_⟩
    all_goals
      cases κ <;> first
        | rfl
        | omega
        | (cases κ' <;> omega)

theorem DirOk.of_write {r : Option Nat} {f : β → β} (h : DirOk s)
    (hm : s.msgs = .write r f ::ₘ ms) : s.dir.atHome = true ∧ ∀ κ, memTally ms κ = 0 := by
  cases r with
  | none => exact h.memTally_cons (κ := .dmaWrite) hm rfl
  | some i => exact h.memTally_cons (κ := .cacheWrite) hm rfl

theorem cacheOk_writeback (h : ∀ k, CacheOk s k) {b : β} {d : DirState} {f : β → β}
    {v w : β} (hm : s.msgs = .putx i b ::ₘ ms) (ho : s.owner = [i]) :
    ∀ k, CacheOk { s with dir := d, owner := [], memory := v, value := w
                          msgs := .write (some i) f ::ₘ ms } k := by
  refine cacheOk_exchange h hm (p := (· = i)) ?_ fun k hk => ⟨fun κ => ?_, ?_⟩
  · rintro k rfl hk
    rw [ho] at hk
    cases hc : s.cache k with
    | _ =>
      rw [hc] at hk
      simp [CountsOk, unit] at hk ⊢ <;> omega
  · cases κ <;> simp [unit, Ne.symm hk]
  · simp [ho, Ne.symm hk]

theorem DirMove.cacheOk (h : ∀ k, CacheOk s k) (hdir : DirOk s) (m : DirMove s s') :
    ∀ k, CacheOk s' k := by
  cases m with
  | @fetch i ms hd hm =>
    have ho : s.owner = [] := by
      unfold DirOk at hdir
      rw [hd] at hdir
      exact hdir.1
    refine cacheOk_exchange h hm (p := (· = i)) ?_ fun k hk => ⟨fun κ => ?_, ?_⟩
    · rintro k rfl hk
      rw [ho] at hk
      cases hc : s.cache k with
      | _ =>
        rw [hc] at hk
        simp [CountsOk, unit] at hk ⊢ <;> omega
    · cases κ <;> simp [unit, Ne.symm hk]
    · simp [ho, Ne.symm hk]
  | @forward o j ms hd ho hm =>
    have hoj : o ≠ j := by
      rintro rfl
      have hk := (h o).counts rfl hm
      cases hc : s.cache o with
      | _ =>
        rw [hc, ho] at hk
        simp [CountsOk, unit] at hk <;> omega
    refine cacheOk_exchange h hm (p := fun k => k = o ∨ k = j) ?_ fun k hk => ⟨fun κ => ?_, ?_⟩
    · rintro k (rfl | rfl) hk
      all_goals
        rw [ho] at hk
        cases hc : s.cache k with
        | _ =>
          rw [hc] at hk
          simp [CountsOk, unit, hoj, hoj.symm] at hk ⊢ <;> omega
    · rw [not_or] at hk
      cases κ <;> simp [unit, Ne.symm hk.1, Ne.symm hk.2]
    · rw [not_or] at hk
      simp [ho, Ne.symm hk.1, Ne.symm hk.2]
  | @nack i b ms hd ho hm =>
    refine cacheOk_exchange h hm (p := (· = i)) ?_ fun k hk => ⟨fun κ => ?_, rfl⟩
    · rintro k rfl hk
      rw [List.count_eq_zero_of_not_mem ho] at hk ⊢
      cases hc : s.cache k with
      | _ =>
        rw [hc] at hk
        simp [CountsOk, unit] at hk ⊢ <;> omega
    · cases κ <;> simp [unit, Ne.symm hk]
  | @writeback i b d ms hd ho hm | @overwrite i b f ms hd ho hm =>
    exact cacheOk_writeback h hm (hdir.owner_eq ho)
  | @data i b ms hd hm | @ack i ms hd hm =>
    refine cacheOk_exchange h hm (p := (· = i)) ?_ fun k hk => ⟨fun κ => ?_, rfl⟩
    · rintro k rfl hk
      cases hc : s.cache k with
      | _ =>
        rw [hc] at hk
        simp [CountsOk, unit] at hk ⊢ <;> omega
    · cases κ <;> simp [unit, Ne.symm hk]
  | dmaRead hd | dmaWrite hd | dmaInv hd ho hd' =>
    intro k
    refine (h k).congr rfl (fun κ => ?_) rfl
    cases κ <;> simp [unit]
  | dmaData hd hm | dmaAck hd hm =>
    intro k
    refine (h k).congr rfl (fun κ => ?_) rfl
    rw [hm]
    cases κ <;> simp [unit]
  | @serveFetch r ms hm | @serveWrite r f ms hm =>
    intro k
    refine (h k).congr rfl (fun κ => ?_) rfl
    rw [hm]
    cases r <;> cases κ <;> simp [unit]

theorem CacheMove.dirOk (h : DirOk s) (m : CacheMove s s') : DirOk s' := by
  have hsame : s'.dir = s.dir ∧ s'.owner = s.owner ∧ memTally s'.msgs = memTally s.msgs := by
    cases m with
    | hit => exact ⟨rfl, rfl, rfl⟩
    | request | replace =>
      refine ⟨rfl, rfl, ?_⟩
      funext κ
      cases κ <;> simp [memUnit]
    | receive _ hm | forwardM _ hm | inv hm | wbAck _ hm | forwardMI _ hm | wbNackMI _ hm
    | forwardMII _ hm | wbNackII _ hm =>
      refine ⟨rfl, rfl, ?_⟩
      rw [hm]
      funext κ
      cases κ <;> simp [memUnit]
  unfold DirOk at *
  rwa [hsame.1, hsame.2.1, hsame.2.2]

theorem DirMove.dirOk (h : DirOk s) (m : DirMove s s') : DirOk s' := by
  unfold DirOk at h
  cases m with
  | fetch hd hm | forward hd _ hm | data hd hm | dmaData hd hm | dmaAck hd hm =>
    rw [hd, hm] at h
    simp [DirOk, memUnit, hd] at h ⊢
    omega
  | dmaRead hd | dmaWrite hd =>
    rw [hd] at h
    simp [DirOk, memUnit] at h ⊢
    omega
  | dmaInv hd ho hd' =>
    rw [hd] at h
    rcases hd' with rfl | rfl
    all_goals simpa [DirOk, memUnit] using h
  | nack hd ho hm =>
    rw [hm] at h
    rcases hd with hd | hd
    all_goals
      rw [hd] at h
      simpa [DirOk, memUnit, hd] using h
  | writeback hd ho hm =>
    rw [hm] at h
    rcases hd with ⟨hd, rfl⟩ | ⟨hd, rfl⟩
    all_goals
      rw [hd] at h
      simp [DirOk, memUnit] at h ⊢
      omega
  | overwrite hd ho hm =>
    rw [hd, hm] at h
    simp [DirOk, memUnit] at h ⊢
    omega
  | ack hd hm =>
    rw [hm] at h
    cases hs : s.dir with
    | MI | M_DRDI | M_DWRI =>
      rw [hs] at h
      simp [DirOk, memUnit] at h ⊢
      omega
    | _ =>
      rw [hs] at hd
      exact absurd hd Bool.false_ne_true
  | @serveFetch r ms hm =>
    have ht : memTally (.fetched r s.memory ::ₘ ms) = memTally s.msgs := by
      funext κ
      rw [hm]
      cases r <;> cases κ <;> simp [memUnit]
    unfold DirOk
    rwa [ht]
  | @serveWrite r f ms hm =>
    have ht : memTally (.written r ::ₘ ms) = memTally s.msgs := by
      funext κ
      rw [hm]
      cases r <;> cases κ <;> simp [memUnit]
    unfold DirOk
    rwa [ht]

end LineState

end NocSwap.MIExample
