import Mathlib.Data.List.Induction
import NocSwap.Ruby.AbstractController
import NocSwap.Ruby.Correct.BufferRun

/-!
# Stalled messages and their record
-/

namespace NocSwap

open List MessageBuffer Function

variable {b b' : MessageBuffer} {addr a t : Nat}

def MessageBuffer.stallAddrs (b : MessageBuffer) : List Nat := b.stallMsgMap.map Prod.fst

namespace MessageBuffer

theorem mem_stallInsert {m : Message} {map : List (Nat × List Message)} :
    a ∈ (stallInsert addr m map).map Prod.fst ↔ a = addr ∨ a ∈ map.map Prod.fst := by
  induction map with
  | nil => simp [stallInsert]
  | cons e map ih =>
    obtain ⟨a₀, l⟩ := e
    unfold stallInsert
    split_ifs with h₁ h₂
    · simp
    · subst h₂
      simp
    · rw [map_cons, mem_cons, ih, map_cons, mem_cons]
      tauto

theorem stallMessage_stallAddrs (h : b.stallMessage addr t = .ok b') :
    a ∈ b'.stallAddrs ↔ a = addr ∨ a ∈ b.stallAddrs := by
  obtain ⟨b₁, m, hdeq, rfl⟩ := stallMessage_ok h
  obtain ⟨m₀, rest, -, -, -, rfl⟩ := dequeue_ok hdeq
  exact mem_stallInsert

theorem reanalyzeMessages_stallAddrs (h : b.reanalyzeMessages addr t = .ok b') (a : Nat) :
    a ∈ b'.stallAddrs ↔ a ∈ b.stallAddrs ∧ ¬ a = addr := by
  obtain ⟨l, -, rfl⟩ := reanalyzeMessages_ok h
  simp only [stallAddrs, mem_map, mem_filter, decide_eq_true_eq]
  constructor
  · rintro ⟨e, ⟨he, hne⟩, rfl⟩
    exact ⟨⟨e, he, rfl⟩, hne⟩
  · rintro ⟨⟨e, he, rfl⟩, hne⟩
    exact ⟨e, ⟨he, hne⟩, rfl⟩

end MessageBuffer

namespace AbstractController

variable {c c' : AbstractController} {f : MessageBuffer → Except Fault MessageBuffer}
  {buf curInPort now : Nat}

def Stalled (c : AbstractController) (buf addr : Nat) : Prop := addr ∈ (c.buffers buf).stallAddrs

def Waiting (c : AbstractController) (buf addr : Nat) : Prop :=
  ∃ msgVec, c.waitingBuffers.lookup addr = some msgVec ∧ some buf ∈ msgVec

def Registered (c : AbstractController) : Prop := ∀ buf addr, c.Stalled buf addr → c.Waiting buf addr

/-- A stalled buffer takes no other's only place, and all with messages for the address are woken
up. -/
def Remembers (c : AbstractController) : Op → Prop
  | .stallAndWait curInPort buf addr _ => ∀ msgVec, c.waitingBuffers.lookup addr = some msgVec →
    ∀ old, msgVec[curInPort]? = some (some old) → old ≠ buf → c.Stalled old addr →
      ∃ rank, rank ≠ curInPort ∧ msgVec[rank]? = some (some old)
  | .wakeUpBuffers curInPort addr _ => ∀ msgVec, c.waitingBuffers.lookup addr = some msgVec →
    ∀ buf, c.Stalled buf addr → some buf ∈ msgVec.take curInPort
  | _ => True

def Sized (c : AbstractController) : Prop :=
  ∀ addr msgVec, c.waitingBuffers.lookup addr = some msgVec → msgVec.length = c.inPorts

def Kept (c : AbstractController) (op : Op) (c' : AbstractController) : Prop :=
  c'.Sized ∧ (c.Registered → (c'.Registered ↔ c.Remembers op))

theorem onBuffers_stalled {T : Nat → Prop} (bufs : List Nat)
    (hf : ∀ b b', f b = .ok b' → ∀ a, a ∈ b'.stallAddrs ↔ a ∈ b.stallAddrs ∧ ¬ T a) :
    Outcome (c.onBuffers f bufs) (fun c' => c'.inPorts = c.inPorts ∧
      c'.waitingBuffers = c.waitingBuffers ∧
      ∀ buf a, c'.Stalled buf a ↔ c.Stalled buf a ∧ (buf ∈ bufs → ¬ T a)) fun _ => True := by
  induction bufs generalizing c with
  | nil =>
    show Outcome (.ok c) _ _
    simp
  | cons buf₀ bufs ih =>
    simp only [onBuffers, foldlM_cons, outcome_do]
    refine Outcome.introOk fun b hb => ?_
    refine ih.onOk fun c' hc' => ?_
    obtain ⟨hports, hwaiting, hstalled⟩ := hc'
    refine ⟨hports, hwaiting, fun buf a => (hstalled buf a).trans ?_⟩
    show a ∈ (update c.buffers buf₀ b buf).stallAddrs ∧ _ ↔
      a ∈ (c.buffers buf).stallAddrs ∧ _
    rcases eq_or_ne buf buf₀ with rfl | hne
    · rw [update_self, hf _ _ hb]
      simp only [mem_cons, true_or, true_imp_iff]
      tauto
    · rw [update_of_ne hne]
      simp [hne]

theorem stallAndWait_kept (hsized : c.Sized) :
    Outcome (c.exec (.stallAndWait curInPort buf addr now))
      (c.Kept (.stallAndWait curInPort buf addr now)) fun _ => True := by
  simp only [exec, stallBuffer, outcome_do]
  intro hlt
  simp only [onBuffers, foldlM_cons, foldlM_nil, outcome_do]
  refine Outcome.introOk fun b hb => ?_
  generalize hvec : (c.waitingBuffers.lookup addr).getD (replicate c.inPorts none) = msgVec
  have hlen : msgVec.length = c.inPorts := by
    rw [← hvec]
    cases hl : c.waitingBuffers.lookup addr with
    | none => exact length_replicate ..
    | some v => exact hsized addr v hl
  generalize hc' : (⟨c.inPorts, update c.buffers buf b,
    c.waitingBuffers.insert addr (msgVec.set curInPort (some buf))⟩ : AbstractController) = c'
  have hlookup : c'.waitingBuffers.lookup addr = some (msgVec.set curInPort (some buf)) := by
    rw [← hc']
    exact AList.lookup_insert ..
  have hlookup_ne : ∀ a, a ≠ addr → c'.waitingBuffers.lookup a = c.waitingBuffers.lookup a := by
    intro a ha
    rw [← hc']
    exact AList.lookup_insert_ne ha
  have hstalled : ∀ buf' a, c'.Stalled buf' a ↔ c.Stalled buf' a ∨ buf' = buf ∧ a = addr := by
    intro buf' a
    rw [← hc']
    show a ∈ (update c.buffers buf b buf').stallAddrs ↔ a ∈ (c.buffers buf').stallAddrs ∨ _
    rcases eq_or_ne buf' buf with rfl | hne
    · rw [update_self, stallMessage_stallAddrs hb]
      simp only [true_and]
      tauto
    · rw [update_of_ne hne]
      simp [hne]
  have hget : ∀ rank, rank ≠ curInPort →
      (msgVec.set curInPort (some buf))[rank]? = msgVec[rank]? :=
    fun rank hne => getElem?_set_ne hne.symm
  refine ⟨fun a v hv => ?_, fun hreg => ⟨fun hreg' v hv old hold hne hst => ?_,
    fun hrem buf' a hst => ?_⟩⟩
  · rw [← hc'] at hv ⊢
    rcases eq_or_ne a addr with rfl | ha
    · rw [AList.lookup_insert] at hv
      cases hv
      rw [length_set, hlen]
    · rw [AList.lookup_insert_ne ha] at hv
      exact hsized a v hv
  · obtain rfl : v = msgVec := by
      rw [← hvec, hv]
      rfl
    obtain ⟨v', hv', hmem⟩ := hreg' old addr ((hstalled ..).mpr (.inl hst))
    rw [hlookup] at hv'
    cases hv'
    obtain ⟨rank, hrank⟩ := mem_iff_getElem?.mp hmem
    have hne' : rank ≠ curInPort := by
      rintro rfl
      rw [getElem?_set_self (by omega)] at hrank
      exact hne (Option.some.inj (Option.some.inj hrank)).symm
    exact ⟨rank, hne', (hget rank hne').symm.trans hrank⟩
  · rcases eq_or_ne a addr with rfl | ha
    · refine ⟨_, hlookup, ?_⟩
      rcases eq_or_ne buf' buf with rfl | hne
      · exact mem_iff_getElem?.mpr ⟨curInPort, getElem?_set_self (by omega)⟩
      · have hst : c.Stalled buf' a := by simpa [hne] using (hstalled ..).mp hst
        obtain ⟨v, hv, hmem⟩ := hreg buf' a hst
        obtain rfl : v = msgVec := by
          rw [← hvec, hv]
          rfl
        -- a place of the buffer other than the one that is taken
        obtain ⟨rank, hrank, hget'⟩ : ∃ rank, rank ≠ curInPort ∧ v[rank]? = some (some buf') := by
          obtain ⟨rank, hrank⟩ := mem_iff_getElem?.mp hmem
          rcases eq_or_ne rank curInPort with rfl | hne'
          · exact hrem v hv buf' hrank hne hst
          · exact ⟨rank, hne', hrank⟩
        exact mem_iff_getElem?.mpr ⟨rank, (hget rank hrank).trans hget'⟩
    · have hst : c.Stalled buf' a := by simpa [ha] using (hstalled ..).mp hst
      obtain ⟨v, hv, hmem⟩ := hreg buf' a hst
      exact ⟨v, (hlookup_ne a ha).trans hv, hmem⟩

theorem wakeUpBelow_kept {rank : Nat} (hsized : c.Sized) :
    Outcome (c.wakeUpBelow rank addr now) (fun c' => c'.Sized ∧ (c.Registered → (c'.Registered ↔
      ∀ msgVec, c.waitingBuffers.lookup addr = some msgVec →
        ∀ buf, c.Stalled buf addr → some buf ∈ msgVec.take rank))) fun _ => True := by
  unfold wakeUpBelow
  cases hl : c.waitingBuffers.lookup addr with
  | none =>
    refine ⟨hsized, fun hreg => ⟨(fun _ v hv => nomatch hv), fun _ => hreg⟩⟩
  | some msgVec =>
    simp only [outcome_do]
    refine (onBuffers_stalled _ fun b b' hb =>
      reanalyzeMessages_stallAddrs hb).onOk fun c₁ h₁ => ?_
    obtain ⟨hports, hwaiting, hstalled⟩ := h₁
    have hmem : ∀ buf, buf ∈ (msgVec.take rank).reverse.filterMap id ↔ some buf ∈ msgVec.take rank := by
      simp
    rw [hwaiting]
    refine ⟨fun a v hv => ?_, fun hreg => ⟨fun hreg' v hv buf hst => ?_, fun hall buf a hst => ?_⟩⟩
    · rcases eq_or_ne a addr with rfl | ha
      · rw [AList.lookup_erase] at hv
        cases hv
      · rw [AList.lookup_erase_ne ha] at hv
        exact (hsized a v hv).trans hports.symm
    · cases hv
      by_contra hnot
      -- a buffer that is not woken up has lost its record
      obtain ⟨v', hv', -⟩ := hreg' buf addr ((hstalled buf addr).mpr
        ⟨hst, fun hin => absurd ((hmem buf).mp hin) hnot⟩)
      rw [AList.lookup_erase] at hv'
      cases hv'
    · obtain ⟨hst₀, hkeep⟩ := (hstalled buf a).mp hst
      have ha : a ≠ addr := by
        rintro rfl
        exact hkeep ((hmem buf).mpr (hall msgVec rfl buf hst₀)) rfl
      obtain ⟨v, hv, hin⟩ := hreg buf a hst₀
      exact ⟨v, (AList.lookup_erase_ne ha).trans hv, hin⟩

theorem plain_kept (hsized : c.Sized) (hf : ∀ b b', f b = .ok b' → b'.stallMsgMap = b.stallMsgMap) :
    Outcome (c.onBuffers f [buf]) (fun c' => c'.Sized ∧ (c.Registered → (c'.Registered ↔ True)))
      fun _ => True := by
  have hf' : ∀ b b', f b = .ok b' → ∀ a, a ∈ b'.stallAddrs ↔ a ∈ b.stallAddrs ∧ ¬ False := by
    intro b b' hb a
    unfold stallAddrs
    simp [hf b b' hb]
  refine (onBuffers_stalled [buf] hf').onOk fun c' hc' => ?_
  obtain ⟨hports, hwaiting, hstalled⟩ := hc'
  refine ⟨fun a v hv => ?_, fun hreg => iff_of_true (fun buf a hst => ?_) trivial⟩
  · rw [hwaiting] at hv
    exact (hsized a v hv).trans hports.symm
  · obtain ⟨v, hv, hin⟩ := hreg buf a ((hstalled buf a).mp hst).1
    exact ⟨v, hwaiting ▸ hv, hin⟩

theorem fst_map_ok {α : Type} {x : Except Fault (MessageBuffer × α)} (h : Prod.fst <$> x = .ok b') :
    ∃ r, x = .ok (b', r) := by
  cases x with
  | error => cases h
  | ok r =>
    cases h
    exact ⟨r.2, rfl⟩

theorem exec_kept (hsized : c.Sized) (op : Op) : Outcome (c.exec op) (c.Kept op) fun _ => True := by
  cases op with
  | stallAndWait => exact stallAndWait_kept hsized
  | wakeUpBuffers => exact wakeUpBelow_kept hsized
  | wakeUpAllBuffersOf addr now =>
    refine (wakeUpBelow_kept hsized).onOk fun c' h => ⟨h.1, fun hreg => ?_⟩
    refine iff_of_true ((h.2 hreg).mpr fun v hv buf hst => ?_) trivial
    obtain ⟨v', hv', hin⟩ := hreg buf addr hst
    obtain rfl : v = v' := Option.some.inj (hv.symm.trans hv')
    rwa [take_of_length_le (hsized addr v hv).le]
  | wakeUpAllBuffers now =>
    simp only [exec, wakeUpAllBuffers, outcome_do]
    have hf : ∀ b b' : MessageBuffer, b.reanalyzeAllMessages now = .ok b' →
        ∀ a, a ∈ b'.stallAddrs ↔ a ∈ b.stallAddrs ∧ ¬ True := by
      intro b b' hb a
      rw [reanalyzeAllMessages_ok hb]
      simp [stallAddrs]
    refine (onBuffers_stalled _ hf).onOk fun c₁ h₁ => ?_
    refine ⟨(fun a v hv => by cases hv), fun hreg => iff_of_true (fun buf a hst => ?_) trivial⟩
    obtain ⟨hst₀, hkeep⟩ := (h₁.2.2 buf a).mp hst
    obtain ⟨v, hv, hin⟩ := hreg buf a hst₀
    refine absurd trivial (hkeep ?_)
    rw [mem_eraseDups, mem_flatMap]
    exact ⟨⟨a, v⟩, AList.mem_lookup_iff.mp hv, by simpa using hin⟩
  | enqueue =>
    unfold exec
    refine plain_kept hsized fun b b' hb => ?_
    obtain ⟨r, hb⟩ := fst_map_ok hb
    rw [(enqueue_ok hb).2.2]
    rfl
  | dequeue =>
    unfold exec
    refine plain_kept hsized fun b b' hb => ?_
    obtain ⟨r, hb⟩ := fst_map_ok hb
    obtain ⟨m₀, rest, -, -, -, rfl⟩ := dequeue_ok hb
    rfl
  | recycle =>
    unfold exec
    refine plain_kept hsized fun b b' hb => ?_
    obtain ⟨r, hb⟩ := fst_map_ok hb
    obtain ⟨m₀, rest, -, -, rfl⟩ := recycle_ok hb
    rfl
  | delayHead =>
    unfold exec
    refine plain_kept hsized fun b b' hb => ?_
    obtain ⟨r, hb⟩ := fst_map_ok hb
    obtain ⟨m₀, rest, -, hb⟩ := delayHead_ok hb
    rw [(enqueue_ok hb).2.2]
    rfl

theorem sized_run (hsized : c.Sized) (ops : List Op) :
    Outcome (ops.foldlM exec c) Sized fun _ => True :=
  Outcome.foldlM ops (fun op _ _ hc => (exec_kept hc op).onOk fun _ h => h.1) c hsized

/-- **Stalled messages and their record.** Each buffer with stalled messages for an address is in
its record, if and only if no action forgets one. -/
theorem registered_iff (hnone : c.waitingBuffers = ∅) (hempty : ∀ buf, (c.buffers buf).stallMsgMap = [])
    (ops : List Op) :
    (∀ pre, pre <+: ops → ∀ c', pre.foldlM exec c = .ok c' → c'.Registered) ↔
      ∀ pre op, pre ++ [op] <+: ops → ∀ c₁ c', pre.foldlM exec c = .ok c₁ → c₁.exec op = .ok c' →
        c₁.Remembers op := by
  have hsized : c.Sized := by
    intro a v hv
    rw [hnone] at hv
    cases hv
  have hstep : ∀ {pre : List Op} {op : Op} {c₁ c' : AbstractController}, pre.foldlM exec c = .ok c₁ → c₁.exec op = .ok c' → c₁.Registered →
      (c'.Registered ↔ c₁.Remembers op) := fun hpre hop =>
    ((exec_kept ((sized_run hsized _).of_ok hpre) _).of_ok hop).2
  constructor
  · intro h pre op hpre c₁ c' hc₁ hc'
    refine (hstep hc₁ hc' (h pre ((prefix_append ..).trans hpre) c₁ hc₁)).mp (h _ hpre c' ?_)
    rw [foldlM_append, hc₁]
    exact (bind_pure _).trans hc'
  · intro h pre
    induction pre using reverseRecOn with
    | nil =>
      intro _ c' hc' buf a hst
      cases hc'
      unfold Stalled stallAddrs at hst
      rw [hempty] at hst
      cases hst
    | append_singleton pre op ih =>
      intro hpre c' hc'
      rw [foldlM_append] at hc'
      obtain ⟨c₁, hc₁, hc'⟩ := bind_eq_ok.mp hc'
      have hop : c₁.exec op = .ok c' := (bind_pure _).symm.trans hc'
      exact (hstep hc₁ hop (ih ((prefix_append ..).trans hpre) c₁ hc₁)).mpr
        (h pre op hpre c₁ c' hc₁ hop)

def twoPorts : AbstractController where
  inPorts := 2
  buffers := fun _ => { MessageBuffer.new 0 true false with prioHeap := [⟨0, 0, 0, 0, .singleton 0⟩] }
  waitingBuffers := ∅

/-- A message stalled at the in_port of rank `0` is woken up from that of rank `1`. -/
theorem registered_iff_twoPorts :
    (([.stallAndWait 0 0 7 5, .wakeUpBuffers 1 7 6] : List Op).foldlM exec twoPorts).toOption.map
      (fun c => (c.buffers 0).prioHeap.length) = some 1 ∧
    ∀ pre, pre <+: [.stallAndWait 0 0 7 5, .wakeUpBuffers 1 7 6] → ∀ c',
      pre.foldlM exec twoPorts = .ok c' → c'.Registered := by
  refine ⟨by decide, (registered_iff rfl (fun _ => rfl) _).mpr ?_⟩
  rintro pre op ⟨post, hpost⟩ c₁ c' hc₁ -
  rcases pre with - | ⟨op₁, - | ⟨op₂, pre⟩⟩
  · obtain rfl : op = .stallAndWait 0 0 7 5 := by simpa using congrArg head? hpost
    cases hc₁
    exact fun v hv => nomatch hv
  · simp only [cons_append, nil_append, cons.injEq] at hpost
    obtain ⟨rfl, rfl, -⟩ := hpost
    cases hc₁
    intro v hv buf hst
    cases hv
    -- only the buffer of the stalled message has one
    obtain rfl | hne := eq_or_ne buf 0
    · decide
    · unfold Stalled at hst
      dsimp only at hst
      rw [update_of_ne hne] at hst
      cases hst
  · have hlen := congrArg length hpost
    simp at hlen

/-- The in_port of rank `1` stalls a message, and the address is woken up from that of rank `0`. -/
theorem stalled_forgotten :
    (([.stallAndWait 1 0 7 5, .wakeUpBuffers 0 7 5] : List Op).foldlM exec twoPorts).toOption.map
      (fun c => ((c.buffers 0).stallAddrs, c.waitingBuffers.entries)) = some ([7], []) := by
  decide

end AbstractController

end NocSwap
