import NocSwap.Protocol.MI.Correct.Line

/-!
# MI_example: one holder of a line
-/

namespace NocSwap.MIExample

open Function Multiset LineMsg

open LineMsg (Kind MemKind)

theorem DirState.atHome_of_isWriteback {d : DirState} (h : d.isWriteback = true) :
    d.atHome = true := by
  cases d with
  | MI | M_DRDI | M_DWRI => rfl
  | _ => exact absurd h Bool.false_ne_true

namespace LineState

variable {β : Type} {s s' : LineState β}

/-- A cache is in `M`, `MII`, or `MI` with a write-back not yet accepted, or gets `DATA`. -/
def Holds (s : LineState β) (k : Nat) : Prop :=
  match s.cache k with
  | .M _ | .MII _ => True
  | .MI _ => tally s.msgs k .wbAck = 0 ∧ tally s.msgs k .write = 0
  | _ => 1 ≤ tally s.msgs k .data

variable {k : Nat}

theorem Holds.congr (h : Holds s' k) (hc : s'.cache k = s.cache k)
    (hdata : tally s'.msgs k .data = tally s.msgs k .data)
    (hack : tally s'.msgs k .wbAck = tally s.msgs k .wbAck)
    (hwrite : tally s'.msgs k .write = tally s.msgs k .write) : Holds s k := by
  unfold Holds at *
  rw [hc, hdata, hack, hwrite] at h
  exact h

structure HolderOk (s : LineState β) (k : Nat) : Prop where
  cache : ∀ b ∈ (s.cache k).data?, b = s.value
  putx : ∀ b, .putx k b ∈ s.msgs → b = s.value
  data : ∀ b, .data k b ∈ s.msgs → b = s.value

structure HomeOk (s : LineState β) : Prop where
  fetched : ∀ r b, .fetched r b ∈ s.msgs → b = s.value
  write : ∀ r f, .write r f ∈ s.msgs → f s.memory = s.value
  memory : (∀ r f, .write r f ∉ s.msgs) → s.memory = s.value

structure Token (s : LineState β) : Prop where
  home : s.dir.atHome = true → ∀ k, ¬ Holds s k
  unique : ∀ k l, Holds s k → Holds s l → k = l

structure Coherent (s : LineState β) : Prop extends Token s where
  holder : ∀ k, Holds s k → HolderOk s k
  value : s.dir.atHome = true → HomeOk s

variable {b : β}

theorem cache_of_data (h : CacheOk s k) (hm : .data k b ∈ s.msgs) :
    s.cache k = .IS ∨ s.cache k = .IM := by
  have hle := unit_le_tally hm k .data
  simp only [unit, if_true] at hle
  unfold CacheOk at h
  cases hc : s.cache k with
  | IS => exact .inl rfl
  | IM => exact .inr rfl
  | _ =>
    rw [hc] at h
    simp only [CountsOk] at h
    omega

theorem holds_of_data (h : CacheOk s k) (hm : .data k b ∈ s.msgs) : Holds s k := by
  have hle := unit_le_tally hm k .data
  simp only [unit, if_true] at hle
  unfold Holds
  rcases cache_of_data h hm with hc | hc
  all_goals
    rw [hc]
    exact hle

variable {ms : Multiset (LineMsg β)}

theorem holderOk_of_data (h : CacheOk s k)
    (hm : s.msgs = .data k b ::ₘ ms) (hb : b = s.value) : HolderOk s k := by
  have hmem : .data k b ∈ s.msgs := by
    rw [hm]
    exact mem_cons_self ..
  have hc := cache_of_data h hmem
  have hk : ∀ c : CacheState β, c = .IS ∨ c = .IM →
      CountsOk c (tally s.msgs k) (s.owner.count k) →
      tally s.msgs k .putx = 0 ∧ tally ms k .data = 0 := by
    rintro c (rfl | rfl) hk
    all_goals
      rw [hm] at hk ⊢
      simp [CountsOk, unit] at hk ⊢
      omega
  obtain ⟨hput, hdata⟩ := hk _ hc h
  refine ⟨fun b' hb' => ?_, fun b' hb' => ?_, fun b' hb' => ?_⟩
  · rcases hc with hc | hc
    all_goals
      rw [hc] at hb'
      exact absurd hb' (Option.not_mem_none _)
  · exact absurd hb' (notMem_of_tally hput (by simp [unit]))
  · rw [hm, mem_cons] at hb'
    rcases hb' with hb' | hb'
    · cases hb'
      exact hb
    · exact absurd hb' (notMem_of_tally hdata (by simp [unit]))

theorem CacheOk.notMem_of_M (h : CacheOk s k) (hc : s.cache k = .M b) (b' : β) :
    .putx k b' ∉ s.msgs ∧ .data k b' ∉ s.msgs := by
  have hk := h.counts hc rfl
  unfold CountsOk at hk
  constructor
  · apply notMem_of_tally (k := k) (κ := .putx) (by omega)
    simp [unit]
  · apply notMem_of_tally (k := k) (κ := .data) (by omega)
    simp [unit]

theorem notMem_of_memTally_eq_zero (h : ∀ κ, memTally ms κ = 0)
    (r : Option Nat) : (∀ b, .fetched r b ∉ ms) ∧ ∀ f, .write r f ∉ ms := by
  constructor
  · intro b
    cases r with
    | none => exact notMem_of_memTally (h .dmaFetch) Nat.one_ne_zero
    | some r => exact notMem_of_memTally (h .cacheFetch) Nat.one_ne_zero
  · intro f
    cases r with
    | none => exact notMem_of_memTally (h .dmaWrite) Nat.one_ne_zero
    | some r => exact notMem_of_memTally (h .cacheWrite) Nat.one_ne_zero

theorem holderOk_of_M (h : CacheOk s k) (hc : s.cache k = .M b)
    (hb : b = s.value) : HolderOk s k := by
  refine ⟨fun b' hb' => ?_, fun b' hb' => ?_, fun b' hb' => ?_⟩
  · rw [hc] at hb'
    cases hb'
    exact hb
  · exact absurd hb' (h.notMem_of_M hc b').1
  · exact absurd hb' (h.notMem_of_M hc b').2

structure Keeps (s s' : LineState β) : Prop where
  dir : s'.dir.atHome = true → s.dir.atHome = true
  holds : ∀ k, Holds s' k → Holds s k
  cache : ∀ k, ∀ b ∈ (s'.cache k).data?, b ∈ (s.cache k).data?
  msgs : ∀ m ∈ s'.msgs, m.hasData = true → m ∈ s.msgs
  writes : ∀ r f, .write r f ∈ s.msgs → .write r f ∈ s'.msgs
  value : s'.value = s.value
  memory : s'.memory = s.memory

theorem Coherent.keep (h : Coherent s) (hk : Keeps s s') : Coherent s' where
  home hd k hh := h.home (hk.dir hd) k (hk.holds k hh)
  unique k l hk' hl := h.unique k l (hk.holds k hk') (hk.holds l hl)
  holder k hh := by
    have hok := h.holder k (hk.holds k hh)
    refine ⟨fun b hb => ?_, fun b hb => ?_, fun b hb => ?_⟩
    all_goals rw [hk.value]
    · exact hok.cache b (hk.cache k b hb)
    · exact hok.putx b (hk.msgs _ hb rfl)
    · exact hok.data b (hk.msgs _ hb rfl)
  value hd := by
    have hok := h.value (hk.dir hd)
    refine ⟨fun r b hb => ?_, fun r f hf => ?_, fun hno => ?_⟩
    · rw [hk.value]
      exact hok.fetched r b (hk.msgs _ hb rfl)
    · rw [hk.value, hk.memory]
      exact hok.write r f (hk.msgs _ hf rfl)
    · rw [hk.value, hk.memory]
      exact hok.memory fun r f hf => hno r f (hk.writes r f hf)

variable {i : Nat}

theorem coherent_of_holds (hd : s.dir.atHome = false) (hi : HolderOk s i)
    (hu : ∀ k, Holds s k → k = i) : Coherent s where
  home hd' := by
    rw [hd] at hd'
    exact absurd hd' Bool.false_ne_true
  unique k l hk hl := (hu k hk).trans (hu l hl).symm
  holder k hk := by
    rw [hu k hk]
    exact hi
  value hd' := by
    rw [hd] at hd'
    exact absurd hd' Bool.false_ne_true

theorem coherent_of_home (hd : HomeOk s) (hu : ∀ k, ¬ Holds s k) : Coherent s where
  home _ := hu
  unique k _ hk := absurd hk (hu k)
  holder k hk := absurd hk (hu k)
  value _ := hd

theorem Keeps.update {c : CacheState β}
    (hi : Holds { s.setCache i c with msgs := ms } i → Holds s i)
    (ht : ∀ k ≠ i, ∀ κ, tally ms k κ = tally s.msgs k κ)
    (hc : ∀ b ∈ c.data?, b ∈ (s.cache i).data?) (hms : ∀ m ∈ ms, m.hasData = true → m ∈ s.msgs)
    (hw : ∀ r f, .write r f ∈ s.msgs → .write r f ∈ ms) :
    Keeps s { s.setCache i c with msgs := ms } := by
  refine ⟨id, fun k hk => ?_, fun k b hb => ?_, hms, hw, rfl, rfl⟩
  · rcases eq_or_ne k i with rfl | hki
    · exact hi hk
    · exact hk.congr (update_of_ne hki ..) (ht k hki _) (ht k hki _) (ht k hki _)
  · rcases eq_or_ne k i with rfl | hki
    · simp only [setCache, update_self] at hb
      exact hc b hb
    · simpa only [setCache, update_of_ne hki] using hb

theorem Keeps.exchange {d : DirState} {o : List Nat} (hd : d.atHome = true → s.dir.atHome = true)
    (ht : ∀ k κ, κ = .data ∨ κ = .wbAck ∨ κ = .write → tally ms k κ = tally s.msgs k κ)
    (hms : ∀ m ∈ ms, m.hasData = true → m ∈ s.msgs)
    (hw : ∀ r f, .write r f ∈ s.msgs → .write r f ∈ ms) :
    Keeps s { s with dir := d, owner := o, msgs := ms } := by
  refine ⟨hd, fun k hk => hk.congr rfl ?_ ?_ ?_, fun _ _ hb => hb, hms, hw, rfl, rfl⟩
  all_goals
    apply ht
    simp

theorem Coherent.forward (h : Coherent s) {j : Nat} {c : CacheState β}
    (hm : s.msgs = .fwd i j ::ₘ ms) (hi : Holds s i) (hb : b ∈ (s.cache i).data?)
    (hc' : ∀ k, CacheOk { s.setCache i c with msgs := .data j b ::ₘ ms } k)
    (hi' : i ≠ j → ¬ Holds { s.setCache i c with msgs := .data j b ::ₘ ms } i) :
    Coherent { s.setCache i c with msgs := .data j b ::ₘ ms } := by
  have hd : s.dir.atHome = false := by
    by_contra hne
    exact h.home (Bool.not_eq_false _ ▸ hne) i hi
  refine coherent_of_holds (i := j) hd
    (holderOk_of_data (hc' j) rfl ((h.holder i hi).cache b hb)) fun k hk => ?_
  by_contra hkj
  rcases eq_or_ne k i with rfl | hki
  · exact hi' hkj hk
  · refine hki (h.unique k i (hk.congr (update_of_ne hki ..) ?_ ?_ ?_) hi)
    all_goals
      rw [hm]
      simp [unit, Ne.symm hkj]

theorem Coherent.store (h : Coherent s)
    (hi : Holds s i) (ht : ∀ k ≠ i, ∀ κ, tally ms k κ = tally s.msgs k κ)
    (hc' : CacheOk { s.setCache i (.M b) with value := b, msgs := ms } i) :
    Coherent { s.setCache i (.M b) with value := b, msgs := ms } := by
  have hd : s.dir.atHome = false := by
    by_contra hne
    exact h.home (Bool.not_eq_false _ ▸ hne) i hi
  refine coherent_of_holds (i := i) hd (holderOk_of_M hc' (update_self ..) rfl) fun k hk => ?_
  by_contra hki
  exact hki (h.unique k i
    (hk.congr (update_of_ne hki ..) (ht k hki _) (ht k hki _) (ht k hki _)) hi)

theorem CacheMove.coherent (h : Coherent s) (hc : ∀ k, CacheOk s k) (m : CacheMove s s') :
    Coherent s' := by
  have hc' := m.cacheOk hc
  cases m with
  | @request i c hi hci =>
    refine h.keep (Keeps.update ?_ (fun k hki κ => ?_) ?_ ?_ ?_)
    · intro hk
      rcases hci with rfl | rfl
      all_goals simpa [Holds, setCache, hi, unit] using hk
    · cases κ <;> simp [unit, hki.symm]
    · rcases hci with rfl | rfl
      all_goals simp [CacheState.data?]
    · simp +contextual [hasData]
    · simp
  | @hit i b b' hi =>
    refine h.store ?_ (fun _ _ _ => rfl) (hc' i)
    simp [Holds, hi]
  | @receive i b b' ms hi hm =>
    refine h.store (holds_of_data (hc i) (b := b) ?_) (fun k hki κ => ?_) (hc' i)
    · rw [hm]
      exact mem_cons_self ..
    · rw [hm]
      cases κ <;> simp [unit, hki.symm]
  | @forwardM i j b ms hi hm | @forwardMII i j b ms hi hm =>
    have hk := (hc i).counts hi hm
    refine h.forward hm ?_ ?_ hc' fun hij => ?_
    · simp [Holds, hi]
    · simp [hi, CacheState.data?]
    · simp [CountsOk, unit] at hk
      simp [Holds, setCache, unit, hij.symm]
      omega
  | @replace i b hi =>
    have hh : Holds s i := by simp [Holds, hi]
    have hb : b = s.value := (h.holder i hh).cache b (by simp [hi, CacheState.data?])
    have hd : s.dir.atHome = false := by
      by_contra hne
      exact h.home (Bool.not_eq_false _ ▸ hne) i hh
    refine coherent_of_holds (i := i) hd ⟨?_, ?_, ?_⟩ fun k hk' => ?_
    · simp [setCache, CacheState.data?, hb]
    · intro b' hb'
      rw [mem_cons] at hb'
      rcases hb' with hb' | hb'
      · cases hb'
        exact hb
      · exact absurd hb' ((hc i).notMem_of_M hi b').1
    · intro b' hb'
      rw [mem_cons] at hb'
      rcases hb' with hb' | hb'
      · cases hb'
      · exact absurd hb' ((hc i).notMem_of_M hi b').2
    · by_contra hki
      refine hki (h.unique k i (hk'.congr (update_of_ne hki ..) ?_ ?_ ?_) hh)
      all_goals simp [unit]
  | @inv i ms hm =>
    refine h.keep ⟨id, fun k hk => hk.congr rfl ?_ ?_ ?_, fun _ _ hb => hb, ?_, ?_, rfl, rfl⟩
    all_goals simp +contextual [unit, hm]
  | @wbAck i b ms hi hm | @wbNackII i ms hi hm =>
    have hk := (hc i).counts hi hm
    refine h.keep (Keeps.update ?_ (fun k hki κ => ?_) ?_ ?_ ?_)
    · intro hh
      simp [CountsOk, unit] at hk
      simp [Holds, setCache] at hh
      omega
    · rw [hm]
      cases κ <;> simp [unit, hki.symm]
    all_goals simp +contextual [CacheState.data?, hm]
  | @forwardMI i j b ms hi hm =>
    have hk := (hc i).counts hi hm
    simp [CountsOk, unit] at hk
    refine h.forward hm ?_ ?_ hc' fun hij => ?_
    · simp [Holds, hi, hm, unit]
      omega
    · simp [hi, CacheState.data?]
    · simp [Holds, setCache, unit, hij.symm]
      omega
  | @wbNackMI i b ms hi hm =>
    have hk := (hc i).counts hi hm
    simp [CountsOk, unit] at hk
    refine h.keep (Keeps.update ?_ (fun k hki κ => ?_) ?_ ?_ ?_)
    · intro _
      simp [Holds, hi, hm, unit]
      omega
    · rw [hm]
      cases κ <;> simp [unit, hki.symm]
    all_goals simp +contextual [CacheState.data?, hi, hm]

theorem CacheOk.holds_of_putx (h : CacheOk s i) (hm : s.msgs = .putx i b ::ₘ ms)
    (ho : s.owner = [i]) : (∃ b', s.cache i = .MI b') ∧ Holds s i := by
  have hk := h.counts rfl hm
  rw [ho] at hk
  unfold Holds
  cases hci : s.cache i with
  | _ =>
    rw [hci] at hk
    simp [CountsOk, unit, hm] at hk ⊢ <;> omega

/-- The cache whose write-back the directory takes is in `MI`, and the right goes to the directory.
-/
theorem Coherent.writeback (h : Coherent s) (hc : ∀ k, CacheOk s k) (hdir : DirOk s) {d : DirState}
    {f : β → β} {v : β} (hd : s.dir.atHome = false) (hm : s.msgs = .putx i b ::ₘ ms)
    (ho : s.owner = [i]) (hv : Holds s i → f s.memory = v) :
    Coherent { s with dir := d, owner := [], value := v, msgs := .write (some i) f ::ₘ ms } := by
  have hMI := (hc i).holds_of_putx hm ho
  have hms : ∀ κ, memTally ms κ = 0 := by
    intro κ
    have hz := hdir.memTally_eq_zero (.inl hd) κ
    rw [hm, memTally_cons] at hz
    omega
  refine coherent_of_home ⟨fun r b' hb' => ?_, fun r f' hf' => ?_, fun hno => ?_⟩ fun k hkh => ?_
  · rw [mem_cons] at hb'
    rcases hb' with hb' | hb'
    · cases hb'
    · exact absurd hb' ((notMem_of_memTally_eq_zero hms r).1 b')
  · rw [mem_cons] at hf'
    rcases hf' with hf' | hf'
    · cases hf'
      exact hv hMI.2
    · exact absurd hf' ((notMem_of_memTally_eq_zero hms r).2 f')
  · exact absurd (mem_cons_self ..) (hno (some i) f)
  · rcases eq_or_ne k i with rfl | hki
    · obtain ⟨b', hb'⟩ := hMI.1
      simp [Holds, hb', unit] at hkh
    · refine hki (h.unique k i (hkh.congr rfl ?_ ?_ ?_) hMI.2)
      all_goals
        rw [hm]
        simp [unit, hki.symm]

theorem DirMove.coherent (h : Coherent s) (hc : ∀ k, CacheOk s k) (hdir : DirOk s)
    (m : DirMove s s') : Coherent s' := by
  have hc' := m.cacheOk hc hdir
  cases m with
  | fetch hd hm | dmaData hd hm | dmaAck hd hm =>
    refine h.keep (Keeps.exchange (fun _ => ?_) ?_ ?_ ?_)
    · rw [hd]
      rfl
    · rintro k κ (rfl | rfl | rfl) <;> simp [hm, unit]
    all_goals simp +contextual [hm, hasData]
  | forward hd ho hm | nack hd ho hm =>
    refine h.keep (Keeps.exchange id ?_ ?_ ?_)
    · rintro k κ (rfl | rfl | rfl) <;> simp [hm, unit]
    all_goals simp +contextual [hm, hasData]
  | @writeback i b d ms hd ho hm =>
    refine h.writeback hc hdir ?_ hm (hdir.owner_eq ho) fun hi => (h.holder i hi).putx b ?_
    · rcases hd with ⟨hd, -⟩ | ⟨hd, -⟩
      all_goals
        rw [hd]
        rfl
    · rw [hm]
      exact mem_cons_self ..
  | overwrite hd ho hm =>
    refine h.writeback hc hdir ?_ hm (hdir.owner_eq ho) fun _ => rfl
    rw [hd]
    rfl
  | @data i b ms hd hm =>
    have hd' : s.dir.atHome = true := by
      rw [hd]
      rfl
    refine coherent_of_holds rfl (holderOk_of_data (hc' i) rfl ((h.value hd').fetched (some i) b ?_))
      fun k hk => ?_
    · rw [hm]
      exact mem_cons_self ..
    · by_contra hki
      refine h.home hd' k (hk.congr rfl ?_ ?_ ?_)
      all_goals
        rw [hm]
        simp [unit, Ne.symm hki]
  | @ack i ms hd hm =>
    refine h.keep ⟨fun _ => DirState.atHome_of_isWriteback hd, fun k hk => ?_, fun _ _ hb => hb,
      ?_, ?_, rfl, rfl⟩
    · rcases eq_or_ne k i with rfl | hki
      · -- the cache is in `MI` and its write-back stays accepted
        have hk' := (hc k).counts rfl hm
        unfold Holds at hk ⊢
        cases hci : s.cache k with
        | _ =>
          rw [hci] at hk' hk
          simp [CountsOk, unit] at hk' hk ⊢
      · refine hk.congr rfl ?_ ?_ ?_
        all_goals
          rw [hm]
          simp [unit, hki.symm]
    all_goals simp +contextual [hm, hasData]
  | dmaRead hd =>
    refine h.keep (Keeps.exchange (fun _ => ?_) ?_ ?_ ?_)
    · rw [hd]
      rfl
    · rintro k κ (rfl | rfl | rfl) <;> simp [unit]
    all_goals simp +contextual [hasData]
  | @dmaWrite f hd =>
    have hd' : s.dir.atHome = true := by
      rw [hd]
      rfl
    have hms := notMem_of_memTally_eq_zero (hdir.memTally_eq_zero (.inr hd))
    have hmem := (h.value hd').memory fun r f => (hms r).2 f
    refine coherent_of_home ⟨fun r b' hb' => ?_, fun r f' hf' => ?_, fun hno => ?_⟩ fun k hk => ?_
    · rw [mem_cons] at hb'
      rcases hb' with hb' | hb'
      · cases hb'
      · exact absurd hb' ((hms r).1 b')
    · rw [mem_cons] at hf'
      rcases hf' with hf' | hf'
      · cases hf'
        exact congrArg f hmem
      · exact absurd hf' ((hms r).2 f')
    · exact absurd (mem_cons_self ..) (hno none f)
    · refine h.home hd' k (hk.congr rfl ?_ ?_ ?_)
      all_goals simp [unit]
  | dmaInv hd ho hd' =>
    refine h.keep (Keeps.exchange (fun hh => ?_) ?_ ?_ ?_)
    · rcases hd' with rfl | rfl <;> exact absurd hh Bool.false_ne_true
    · rintro k κ (rfl | rfl | rfl) <;> simp [unit]
    all_goals simp +contextual [hasData]
  | @serveFetch r ms hm =>
    obtain ⟨hd, hms⟩ : s.dir.atHome = true ∧ ∀ κ, memTally ms κ = 0 := by
      cases r with
      | none => exact hdir.memTally_cons (κ := .dmaFetch) hm rfl
      | some i => exact hdir.memTally_cons (κ := .cacheFetch) hm rfl
    replace hms := notMem_of_memTally_eq_zero hms
    have hval : s.memory = s.value := by
      refine (h.value hd).memory fun r' f hf => ?_
      rw [hm, mem_cons] at hf
      rcases hf with hf | hf
      · cases hf
      · exact (hms r').2 f hf
    refine coherent_of_home ⟨fun r' b hb => ?_, fun r' f hf => ?_, fun _ => hval⟩ fun k hk => ?_
    · rw [mem_cons] at hb
      rcases hb with hb | hb
      · cases hb
        exact hval
      · exact absurd hb ((hms r').1 b)
    · rw [mem_cons] at hf
      rcases hf with hf | hf
      · cases hf
      · exact absurd hf ((hms r').2 f)
    · refine h.home hd k (hk.congr rfl ?_ ?_ ?_)
      all_goals cases r <;> simp [unit, hm]
  | @serveWrite r f ms hm =>
    obtain ⟨hd, hms⟩ : s.dir.atHome = true ∧ ∀ κ, memTally ms κ = 0 := by
      cases r with
      | none => exact hdir.memTally_cons (κ := .dmaWrite) hm rfl
      | some i => exact hdir.memTally_cons (κ := .cacheWrite) hm rfl
    replace hms := notMem_of_memTally_eq_zero hms
    have hval : f s.memory = s.value := by
      refine (h.value hd).write r f ?_
      rw [hm]
      exact mem_cons_self ..
    refine coherent_of_home ⟨fun r' b hb => ?_, fun r' f' hf => ?_, fun _ => hval⟩ fun k hk => ?_
    · rw [mem_cons] at hb
      rcases hb with hb | hb
      · cases hb
      · exact absurd hb ((hms r').1 b)
    · rw [mem_cons] at hf
      rcases hf with hf | hf
      · cases hf
      · exact absurd hf ((hms r').2 f')
    · refine h.home hd k (hk.congr rfl ?_ ?_ ?_)
      all_goals cases r <;> simp [unit, hm]

structure Inv (s : LineState β) : Prop where
  cache : ∀ k, CacheOk s k
  dir : DirOk s
  coherent : Coherent s

theorem inv_init (b : β) : Inv (init b) := by
  refine ⟨fun k => ?_, ?_, ?_⟩
  · simp [CacheOk, CountsOk, init, tally]
  · simp [DirOk, init, memTally]
  · refine coherent_of_home ⟨?_, ?_, fun _ => rfl⟩ fun k => ?_
    all_goals simp [init, Holds, tally]

theorem Step.inv (h : Inv s) (hs : Step s s') : Inv s' := by
  cases hs with
  | idle => exact h
  | cache m => exact ⟨m.cacheOk h.cache, m.dirOk h.dir, m.coherent h.coherent h.cache⟩
  | dir m => exact ⟨m.cacheOk h.cache h.dir, m.dirOk h.dir, m.coherent h.coherent h.cache h.dir⟩

end LineState

end NocSwap.MIExample
