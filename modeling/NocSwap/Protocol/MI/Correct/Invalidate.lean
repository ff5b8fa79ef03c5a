import NocSwap.Protocol.MI.Correct.Log

/-!
# MI_example: invalidations
-/

namespace NocSwap.MIExample

open List LineMsg L1Line

open Ruby (DataBlock)

def LineMsg.invUnit {β : Type} (k : Nat) : LineMsg β → Nat
  | .inv i => if i = k then 1 else 0
  | _ => 0

namespace LineState

variable {β : Type} {s s' : LineState β}

def invTally (ms : Multiset (LineMsg β)) (k : Nat) : Nat := (ms.map fun m => m.invUnit k).sum

@[simp] theorem invTally_cons (m : LineMsg β) (ms : Multiset (LineMsg β)) (k : Nat) :
    invTally (m ::ₘ ms) k = m.invUnit k + invTally ms k := by
  simp [invTally]

variable {ms : Multiset (LineMsg β)} {k : Nat}

theorem invTally_eq_zero (h : .inv k ∉ ms) : invTally ms k = 0 := by
  refine Multiset.sum_eq_zero fun n hn => ?_
  obtain ⟨m, hm, rfl⟩ := Multiset.mem_map.mp hn
  cases m with
  | inv i =>
    have hik : i ≠ k := by
      rintro rfl
      exact h hm
    exact if_neg hik
  | _ => rfl

theorem notMem_of_invTally (h : invTally ms k = 0) : .inv k ∉ ms := by
  intro hm
  obtain ⟨ms, rfl⟩ := Multiset.exists_cons_of_mem hm
  simp [invUnit] at h

/-- There is at most one `INV` for a cache, and then its write-back is awaited or acknowledged. -/
structure InvOk (s : LineState β) (k : Nat) : Prop where
  one : invTally s.msgs k ≤ 1
  sent : 1 ≤ invTally s.msgs k → s.owner = [k] ∧ (s.dir = .M_DRD ∨ s.dir = .M_DWR) ∨
    1 ≤ tally s.msgs k .write + tally s.msgs k .wbAck

theorem InvOk.congr (h : InvOk s k) (hi : invTally s'.msgs k = invTally s.msgs k)
    (ht : tally s'.msgs k .write + tally s'.msgs k .wbAck =
      tally s.msgs k .write + tally s.msgs k .wbAck)
    (hd : s.owner = [k] ∧ (s.dir = .M_DRD ∨ s.dir = .M_DWR) →
      s'.owner = [k] ∧ (s'.dir = .M_DRD ∨ s'.dir = .M_DWR)) : InvOk s' k := by
  refine ⟨hi ▸ h.one, fun hk => ?_⟩
  rw [hi] at hk
  rw [ht]
  exact (h.sent hk).imp_left hd

theorem CacheMove.invOk (h : InvOk s k) (m : CacheMove s s')
    (hack : ∀ b, s.cache k = .MI b → s'.cache k = .I → invTally s.msgs k = 0) : InvOk s' k := by
  cases m with
  | @wbAck i b ms hc hm =>
    rcases eq_or_ne i k with rfl | hik
    · have hzero := hack b hc (by simp [setCache])
      rw [hm] at hzero
      simp [invUnit] at hzero
      exact ⟨by simp [hzero], fun hk => by simp [hzero] at hk⟩
    · exact h.congr (by simp [hm, invUnit]) (by simp [hm, unit, hik]) id
  | @inv i ms hm =>
    have hone := h.one
    rw [hm] at hone
    rcases eq_or_ne i k with rfl | hik
    · simp only [invTally_cons, invUnit, if_true] at hone
      exact ⟨by simp only; omega, fun hk => by simp only at hk; omega⟩
    · exact h.congr (by simp [hm, invUnit, hik]) (by simp [hm, unit]) id
  | request | replace => exact h.congr (by simp [invUnit]) (by simp [unit]) id
  | hit => exact h.congr rfl rfl id
  | receive _ hm | wbNackMI _ hm | wbNackII _ hm
  | forwardM _ hm | forwardMI _ hm | forwardMII _ hm =>
    exact h.congr (by simp [hm, invUnit]) (by simp [hm, unit]) id

theorem CacheOk.of_owner (h : CacheOk s k) (ho : s.owner = [k]) :
    tally s.msgs k .write = 0 ∧ tally s.msgs k .wbAck = 0 := by
  unfold CacheOk at h
  rw [ho] at h
  cases hc : s.cache k with
  | _ =>
    rw [hc] at h
    simp only [CountsOk, count_singleton_self] at h
    omega

theorem InvOk.writeback {i : Nat} (h : InvOk s k) {b : β} {d : DirState} {v : β} {f : β → β}
    (ho : s.owner = [i]) (hm : s.msgs = .putx i b ::ₘ ms) :
    InvOk { s with dir := d, owner := [], value := v, msgs := .write (some i) f ::ₘ ms } k := by
  have hinv : invTally (.write (some i) f ::ₘ ms) k = invTally s.msgs k := by
    simp [hm, invUnit]
  refine ⟨hinv ▸ h.one, fun hk => .inr ?_⟩
  rcases eq_or_ne i k with rfl | hik
  · simp only [tally_cons, unit, if_true]
    omega
  · have hsent := h.sent (hinv ▸ hk)
    rw [ho, hm] at hsent
    simpa [unit, hik] using hsent

theorem DirMove.invOk (h : InvOk s k) (hc : CacheOk s k) (hdir : DirOk s)
    (m : DirMove s s') : InvOk s' k := by
  cases m with
  | @fetch i ms hd hm | @forward o j ms hd ho hm | data hd hm | dmaData hd hm | dmaAck hd hm =>
    refine h.congr (by simp [hm, invUnit]) (by simp [hm, unit]) ?_
    simp [hd]
  | nack hd ho hm => exact h.congr (by simp [hm, invUnit]) (by simp [hm, unit]) id
  | @writeback i b d ms hd ho hm | @overwrite i b f ms hd ho hm =>
    exact h.writeback (hdir.owner_eq ho) hm
  | @ack i ms hd hm =>
    refine h.congr (by simp [hm, invUnit]) ?_ ?_
    · simp only [hm, tally_cons, unit]
      omega
    · rintro ⟨-, hd' | hd'⟩ <;> simp [hd', DirState.isWriteback] at hd
  | dmaRead hd | dmaWrite hd =>
    refine h.congr (by simp [invUnit]) (by simp [unit]) ?_
    simp [hd]
  | @dmaInv o d hd ho hd' =>
    rcases eq_or_ne o k with rfl | hok
    · -- no earlier one is under way: the owner waits for nothing
      have hzero : invTally s.msgs o = 0 := by
        by_contra hne
        have hsent := h.sent (by omega)
        obtain ⟨hwrite, hack⟩ := hc.of_owner ho
        simp [hd, hwrite, hack] at hsent
      exact ⟨by simp [invUnit, hzero], fun _ => .inl ⟨ho, hd'⟩⟩
    · refine h.congr (by simp [invUnit, hok]) (by simp [unit]) ?_
      simp [hd]
  | @serveFetch r ms hm | @serveWrite r f ms hm =>
    refine h.congr (by simp [hm, invUnit]) ?_ id
    cases r <;> simp [hm, unit]

theorem Step.invOk (h : InvOk s k) (hinv : Inv s) (hs : Step s s')
    (hack : ∀ b, s.cache k = .MI b → s'.cache k = .I → invTally s.msgs k = 0) : InvOk s' k := by
  cases hs with
  | idle => exact h
  | cache hmove => exact hmove.invOk h hack
  | dir hmove => exact hmove.invOk h (hinv.cache k) hinv.dir

theorem InvOk.eq_zero (h : InvOk s k) (hc : CacheOk s k)
    (hs : (∃ b, s.cache k = .MII b) ∨ s.cache k = .II) : invTally s.msgs k = 0 := by
  by_contra hne
  have hsent := h.sent (by omega)
  unfold CacheOk at hc
  rcases hs with ⟨b, hb⟩ | hb
  all_goals
    rw [hb] at hc
    rcases hsent with ⟨ho, -⟩ | hsent
    · simp [CountsOk, ho] at hc
    · simp only [CountsOk] at hc
      omega

end LineState

variable {B : Nat}

theorem L1Cache.Step.blocked {c : L1Context B} {l : L1Line B} {event : L1Event}
    {w : L1Work B} (h : L1Cache.Step c l event w) (hb : w.line.sequencer.blocked = false) :
    l.sequencer.blocked = false ∨ w.line.getState = .M := by
  cases h with
  | storeHit he ht hs hr => exact .inr hs
  | dataStore hm he ht hs hr => exact .inr rfl
  | _ => exact .inl hb

def CacheState.state {β : Type} : CacheState β → L1State
  | .I => .I
  | .IS => .IS
  | .IM => .IM
  | .M _ => .M
  | .MI _ => .MI
  | .MII _ => .MII
  | .II => .II

theorem L1Line.state_abs (l : L1Line B) : l.abs.state = l.getState := by
  unfold L1Line.abs
  cases l.getState <;> rfl

theorem L1Cache.Step.of_wbAck {c : L1Context B} {l : L1Line B} {event : L1Event}
    {w : L1Work B} (h : L1Cache.Step c l event w) (hs : l.getState = .MI)
    (hs' : w.line.getState = .I) : event = .Writeback_Ack := by
  cases h with
  | wbAck => rfl
  | inv => cases hs.symm.trans hs'
  | loadHit hev he ht hst | storeHit he ht hst =>
    simp [getState, he, ht, hst] at hs
  | miss hev ht hst | drop ht hst => cases (getState_eq_I ht hst).symm.trans hs
  | dataLoad hm he ht hst | dataStore hm he ht hst =>
    simp [getState, ht, hst] at hs
  | forward hm he ht hst | replace hev he ht hst => simp [getState, he, ht, hst] at hs
  | forwardMI hm he ht hst | wbNackMI he ht hst => simp [getState] at hs'
  | forwardMII hm he ht hst | wbNackII he ht hst => simp [getState, ht, hst] at hs

theorem Directory.Step.inv_mem {c : DirContext B} {l : DirLine B} {event : DirEvent}
    {w : DirWork B} (h : Directory.Step c l event w) {m : RequestMsg B} (hm : m ∈ w.forwards)
    (ht : m.type = .INV) (hin : ∀ r, c.inMsg = .request r → r.type ≠ .INV) :
    m.addr = c.address ∧ l.entry.owner = [m.destination] := by
  cases h with
  | @forward r o hr =>
    cases mem_singleton.mp hm
    exact absurd ht (hin r hr)
  | dmaInv hev hr hs ho =>
    cases mem_singleton.mp hm
    exact ⟨rfl, ho⟩
  | nack | ack | ackWrite =>
    cases mem_singleton.mp hm
    cases ht
  | _ => cases hm

theorem Directory.Step.length_forwards {c : DirContext B} {l : DirLine B} {event : DirEvent}
    {w : DirWork B} (h : Directory.Step c l event w) : w.forwards.length ≤ 1 := by
  cases h <;> simp

namespace System

variable {B : Nat} {P : Params} {s s' : System B} {l : Label B} {i x : Nat}

def forwardTo (i x : Nat) (m : RequestMsg B) : Bool := forwardPort i m && m.addr = x

variable {m : RequestMsg B}

@[simp] theorem forwardTo_iff :
    forwardTo i x m = true ↔ m.destination = .L1Cache i ∧ m.addr = x := by
  simp [forwardTo, forwardPort]

def InvFirst (s : System B) (i x : Nat) : Prop :=
  (s.forwards.queue.filter (forwardTo i x)).Pairwise fun m m' => m.type = .WB_ACK → m'.type ≠ .INV

theorem mem_lineMsgs_of_forward {a : LineMsg (DataBlock B)}
    (hm : m ∈ s.forwards.content) (ha : lineForward x m = some a) : a ∈ s.lineMsgs x := by
  unfold lineMsgs
  refine Multiset.mem_add.mpr (.inl (Multiset.mem_add.mpr (.inl (Multiset.mem_add.mpr (.inl
    (Multiset.mem_add.mpr (.inr ?_)))))))
  exact (Multiset.mem_filterMap ..).mpr ⟨m, hm, ha⟩

theorem ne_WB_ACK_of_tally (h : LineState.tally (s.lineMsgs x) i .wbAck = 0)
    (hm : m ∈ s.forwards.queue.filter (forwardTo i x)) : m.type ≠ .WB_ACK := by
  intro ht
  obtain ⟨hmem, hto⟩ := mem_filter.mp hm
  obtain ⟨hdest, haddr⟩ := forwardTo_iff.mp hto
  have hack : .wbAck i ∈ s.lineMsgs x :=
    mem_lineMsgs_of_forward (MsgChannel.mem_content_of_mem_queue hmem)
      (by simp [lineForward, haddr, hdest, ht, MachineID.cache?])
  exact LineState.notMem_of_tally h (by simp [unit]) hack

theorem invFirst_of_tally (h : LineState.tally (s.lineMsgs x) i .wbAck = 0) : s.InvFirst i x :=
  pairwise_iff_forall_sublist.mpr fun hsub ht =>
    absurd ht (ne_WB_ACK_of_tally h (hsub.subset (mem_cons_self ..)))

theorem exists_of_inv_mem (hheld : s.forwards.held = []) (h : .inv i ∈ s.lineMsgs x) :
    ∃ m ∈ s.forwards.queue.filter (forwardTo i x), m.type = .INV := by
  have hreq : ∀ m : RequestMsg B, lineRequest x m ≠ some (.inv i) := by
    intro m hm
    simp only [lineRequest] at hm
    split at hm
    · obtain ⟨j, -, hj⟩ := Option.map_eq_some_iff.mp hm
      split at hj <;> cases hj
    · cases hm
  have hresp : ∀ m : ResponseMsg B, lineResponse x m ≠ some (.inv i) := by
    intro m hm
    simp [lineResponse] at hm
  have hmreq : ∀ r : MemoryRequest, lineMemoryRequest (B := B) x r ≠ some (.inv i) := by
    intro r hr
    simp only [lineMemoryRequest] at hr
    split at hr
    · cases hw : r.write <;> simp [hw] at hr
    · cases hr
  have hmem : ∀ m : MemoryMsg B, lineMemoryMsg x m ≠ some (.inv i) := by
    intro m hm
    simp only [lineMemoryMsg] at hm
    split at hm
    · cases ht : m.type <;> simp [ht] at hm
    · cases hm
  simp only [lineMsgs, Multiset.mem_add, Multiset.mem_filterMap, hreq, hresp, hmreq, hmem, and_false,
    exists_false, false_or, or_false] at h
  obtain ⟨m, hm, hline⟩ := h
  simp only [lineForward] at hline
  split at hline
  case isTrue hx =>
    obtain ⟨j, hj, hline⟩ := Option.bind_eq_some_iff.mp hline
    cases ht : m.type with
    | INV =>
      simp only [ht, Option.some.injEq, inv.injEq] at hline
      subst hline
      refine ⟨m, mem_filter.mpr ⟨MsgChannel.mem_queue_of_mem_content hheld hm, ?_⟩, ht⟩
      exact forwardTo_iff.mpr ⟨MachineID.cache?_eq_some.mp hj, hx⟩
    | _ => simp [ht] at hline
  case isFalse => cases hline

theorem InvFirst.invTally_eq_zero (h : s.InvFirst i x) (hheld : s.forwards.held = [])
    (hm : s.forwards.head (forwardPort i) = some m) (hx : m.addr = x)
    (ht : m.type = .WB_ACK) : LineState.invTally (s.lineMsgs x) i = 0 := by
  refine LineState.invTally_eq_zero fun hinv => ?_
  obtain ⟨m', hm', ht'⟩ := exists_of_inv_mem hheld hinv
  have hto : forwardTo i x m = true := by simp [forwardTo, MsgChannel.pos_of_head hm, hx]
  have hport : ∀ a : RequestMsg B, forwardTo i x a = true → forwardPort i a = true :=
    fun a ha => (Bool.and_eq_true_iff.mp ha).1
  have hpair := h
  unfold InvFirst at hpair
  rw [MsgChannel.filter_queue_of_head hm hport hto] at hpair hm'
  rcases mem_cons.mp hm' with rfl | hm'
  · cases ht.symm.trans ht'
  · exact rel_of_pairwise_cons hpair hm' ht ht'

theorem InvFirst.of_sublist (h : s.InvFirst i x)
    (hsub : (s'.forwards.queue.filter (forwardTo i x)).Sublist
      (s.forwards.queue.filter (forwardTo i x))) : s'.InvFirst i x :=
  List.Pairwise.sublist hsub h

theorem InvFirst.applyDir (h : s.InvFirst i x) (hinv : s.Inv P) {d y : Nat} {m : DirInMsg B}
    {event : DirEvent} {w : DirWork B}
    (hw : Directory.Step (s.dirContext P d y m) (s.dir y) event w)
    (hin : ∀ r, m = .request r → r.type ≠ .INV) : (s.applyDir d y w).InvFirst i x := by
  have hqueue : (s.applyDir d y w).forwards.queue = s.forwards.queue ++ w.forwards :=
    MsgChannel.queue_send w.forwards s.forwards
  unfold InvFirst
  rw [hqueue, filter_append, pairwise_append]
  refine ⟨h, ?_, fun a ha b hb hack hinvb => ?_⟩
  · have hle : (w.forwards.filter (forwardTo i x)).length ≤ 1 :=
      (length_filter_le ..).trans hw.length_forwards
    rcases hf : w.forwards.filter (forwardTo i x) with _ | ⟨a, _ | ⟨b, t⟩⟩
    · exact List.Pairwise.nil
    · exact pairwise_singleton ..
    · simp [hf] at hle
  · -- an `INV` goes to the owner, for which no acknowledgement is under way
    obtain ⟨hmem, hto⟩ := mem_filter.mp hb
    obtain ⟨hdest, haddr⟩ := forwardTo_iff.mp hto
    obtain ⟨hy, howner⟩ := hw.inv_mem hmem hinvb hin
    obtain rfl : x = y := haddr.symm.trans hy
    obtain ⟨v, hv⟩ := hinv.line x
    have ho : (line x v s).owner = [i] := by
      simp [line, howner, hdest, MachineID.cache?]
    exact ne_WB_ACK_of_tally ((hv.cache i).of_owner ho).2 ha hack

theorem invFirst_applyL1 {j y : Nat} {w : L1Work B} {event : L1Event} {m : L1InMsg B}
    (h : (s.l1 i x).sequencer.blocked = false → s.InvFirst i x) (hinv : (s.applyL1 j y w).Inv P)
    (hw : L1Cache.Step (s.l1Context P j y m) (s.l1 j y) event w)
    (hb : ((s.applyL1 j y w).l1 i x).sequencer.blocked = false) :
    (s.applyL1 j y w).InvFirst i x := by
  have hsub : ((s.applyL1 j y w).forwards.queue.filter (forwardTo i x)).Sublist
      (s.forwards.queue.filter (forwardTo i x)) := by
    refine List.Sublist.filter _ ?_
    show (if _ then _ else _ : MsgChannel _).queue.Sublist _
    split
    · exact MsgChannel.queue_pop_sublist ..
    · exact List.Sublist.refl _
  rcases em (i = j ∧ x = y) with ⟨rfl, rfl⟩ | hne
  · have hline : (s.applyL1 i x w).l1 i x = w.line := by simp [applyL1, setL1]
    rw [hline] at hb
    rcases hw.blocked hb with hb' | hM
    · exact (h hb').of_sublist hsub
    · -- in `M`, no acknowledgement is under way
      obtain ⟨v, hv⟩ := hinv.line x
      obtain ⟨b, hb'⟩ := abs_of_getState_eq_M hM
      have hc := (hv.cache i).counts (c := .M b) (by simp [line, hline, hb']) rfl
      simp only [LineState.CountsOk] at hc
      exact invFirst_of_tally hc.2.2.2.2.2.2.1
  · rw [(l1Same_applyL1 hne).blocked] at hb
    exact (h hb).of_sublist hsub

theorem held_deliver {μ : Type} {n : Nat} {c : MsgChannel μ} (h : c.held = []) :
    (c.deliver n).held = [] := by
  unfold MsgChannel.deliver
  split <;> exact h

theorem held_arrive {μ : Type} {same : μ → μ → Bool} {n : Nat} {c : MsgChannel μ}
    (h : c.held = []) : (arrive P same n c).held = [] := by
  unfold arrive
  split
  · exact held_deliver h
  · exact h

theorem StepTo.held (hs : StepTo P s l s') : (s.forwards.held = [] → s'.forwards.held = []) ∧
    (s.responses.held = [] → s'.responses.held = []) ∧
    (s.memoryResponses.held = [] → s'.memoryResponses.held = []) := by
  cases hs with
  | forwardIn | responseIn | mandatoryIn | replacement =>
    refine ⟨fun h => ?_, fun h => ?_, id⟩
    · show (if _ then _ else _ : MsgChannel _).held = []
      split <;> exact h
    · show ((if _ then _ else _ : MsgChannel _).send _).held = []
      split <;> exact h
  | requestIn | dmaRequestIn | memoryIn =>
    refine ⟨id, id, fun h => ?_⟩
    show (if _ then _ else _ : MsgChannel _).held = []
    split <;> exact h
  | deliver v n =>
    cases v with
    | forward => exact ⟨held_arrive, id, id⟩
    | response => exact ⟨id, held_arrive, id⟩
    | memory => exact ⟨id, id, held_deliver⟩
    | _ => exact ⟨id, id, id⟩
  | requeue v n => cases v <;> exact ⟨id, id, id⟩
  | _ => exact ⟨id, id, id⟩

theorem StepTo.invFirst (hord : P.ordered = true) (hinv : s.Inv P) (hinv' : s'.Inv P)
    (h : (s.l1 i x).sequencer.blocked = false → s.InvFirst i x) (hs : StepTo P s l s')
    (hb : (s'.l1 i x).sequencer.blocked = false) : s'.InvFirst i x := by
  have hsame : (s'.l1 i x).sequencer.blocked = (s.l1 i x).sequencer.blocked →
      s'.forwards = s.forwards → s'.InvFirst i x := by
    intro hbl hfwd
    unfold InvFirst
    rw [hfwd]
    exact h (hbl ▸ hb)
  cases hs with
  | idle | delayResponse | makeDMARequest | serveRead | serveWrite => exact hsame rfl rfl
  | makeRequest hx hseq => exact hsame (l1Same_makeRequest hseq).blocked rfl
  | @delayForward j m hm hbl =>
    have hto : forwardTo i x m = false := by
      by_contra hto
      obtain ⟨hdest, rfl⟩ := forwardTo_iff.mp (Bool.not_eq_false _ ▸ hto)
      have hport : m.destination = .L1Cache j := by simpa [forwardPort] using MsgChannel.pos_of_head hm
      cases hdest.symm.trans hport
      cases hbl.symm.trans hb
    refine (h hb).of_sublist ?_
    show ((s.forwards.delayHead (forwardPort j)).queue.filter (forwardTo i x)).Sublist _
    rw [MsgChannel.filter_queue_delayHead hm hto]
  | forwardIn hm hbl hev hw | responseIn hm hbl hw | mandatoryIn hm hev hw
  | replacement hm he hav hv hw => exact invFirst_applyL1 h hinv' hw hb
  | @requestIn d m event w hm hev hw =>
    refine (h hb).applyDir hinv hw fun r hr ht => ?_
    cases hr
    rcases (hinv.ok.msgs.requests m (MsgChannel.mem_content_of_head hm)).1 with ht' | ht'
    all_goals cases ht'.symm.trans ht
  | dmaRequestIn hm hw | memoryIn hm hw => exact (h hb).applyDir hinv hw fun r hr => by cases hr
  | dmaMandatoryIn | dmaResponseIn => exact hsame rfl rfl
  | deliver v n =>
    cases v with
    | forward =>
      refine (h hb).of_sublist ?_
      show ((arrive P _ n s.forwards).queue.filter (forwardTo i x)).Sublist _
      unfold arrive
      split
      case isTrue hf =>
        rw [MsgChannel.filter_queue_deliver (hf hord)]
        intro a ha b hmem hto hto'
        obtain ⟨hda, rfl⟩ := forwardTo_iff.mp hto
        obtain ⟨hdb, hab⟩ := forwardTo_iff.mp hto'
        have hsource : ∀ m ∈ s.forwards.net, m.source = .Directory (P.home m.addr) := fun m hm =>
          (hinv.ok.msgs.forwards m (MsgChannel.mem_content_of_mem_queue (mem_append_right _ hm))).2.1
        simp [hsource a ha, hsource b hmem, hab, hda, hdb]
      case isFalse => exact List.Sublist.refl _
    | _ => exact hsame rfl rfl
  | requeue v n => cases v <;> exact hsame rfl rfl

theorem StepTo.of_wbAck (hs : StepTo P s l s') {b : DataBlock B} (h : (s.l1 i x).abs = .MI b)
    (h' : (s'.l1 i x).abs = .I) :
    (s.l1 i x).sequencer.blocked = false ∧ ∃ m, s.forwards.head (forwardPort i) = some m ∧
      m.addr = x ∧ m.type = .WB_ACK := by
  have hst : (s.l1 i x).getState = .MI := by rw [← state_abs, h]; rfl
  have hst' : (s'.l1 i x).getState = .I := by rw [← state_abs, h']; rfl
  rcases hs.l1_cases i x with ⟨event, m, w, hl1⟩ | hsame
  · have hline : (s'.l1 i x) = w.line := by simp [hl1.eq, applyL1, setL1]
    rw [hline] at hst'
    have hev : event = .Writeback_Ack := hl1.step.of_wbAck hst hst'
    subst hev
    refine ⟨hl1.blocked (.inl rfl), ?_⟩
    obtain ⟨m', hm', hx, hev⟩ := hl1.forward rfl
    refine ⟨m', hm', hx, ?_⟩
    cases ht : m'.type with
    | WB_ACK => rfl
    | _ =>
      rw [ht] at hev
      cases hev
  · unfold getState at hst hst'
    rw [hsame.tbe, hsame.cacheEntry, hst] at hst'
    cases hst'

structure InvalidateOk (s : System B) : Prop where
  held : s.forwards.held = []
  first : ∀ i x, (s.l1 i x).sequencer.blocked = false → s.InvFirst i x
  line : ∀ i x v, (line x v s).InvOk i

theorem StepTo.invalidateOk (hord : P.ordered = true) (hinv : s.Inv P) (h : s.InvalidateOk)
    (hs : StepTo P s l s') : s'.InvalidateOk where
  held := hs.held.1 h.held
  first i x := hs.invFirst hord hinv (hs.inv hinv) (h.first i x)
  line i x v := by
    obtain ⟨v₀, hv₀⟩ := hinv.line x
    obtain ⟨v₁, -, -, hstep, -⟩ := hs.refines hinv x v₀
    have hok : (line x v₁ s').InvOk i := by
      refine hstep.invOk (h.line i x v₀) hv₀ fun b hMI hI => ?_
      obtain ⟨hb, m, hm, hx, ht⟩ := hs.of_wbAck hMI hI
      exact (h.first i x hb).invTally_eq_zero h.held hm hx ht
    exact ⟨hok.one, hok.sent⟩

theorem run_invalidateOk (hord : P.ordered = true) {memory : Nat → DataBlock B}
    {ls : List (Label B)} (hs : (init memory).run P ls = .ok s) : s.InvalidateOk := by
  refine (run_induction (P := P) (p := fun _ s => s.InvalidateOk) ?_ ?_ hs).2
  · refine ⟨rfl, fun _ _ _ => List.Pairwise.nil, fun i x v => ⟨Nat.zero_le _, fun h => ?_⟩⟩
    cases h
  · intro ls s l s' _ hinv h hs _
    exact hs.invalidateOk hord hinv h

end System

end NocSwap.MIExample
