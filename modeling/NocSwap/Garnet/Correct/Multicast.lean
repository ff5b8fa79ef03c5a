import NocSwap.Garnet.Multicast
import NocSwap.Lib.SameOutcome

/-!
# Each destination exactly once
-/

namespace NocSwap.Multicast

open List

open Ruby (Machines NetDest)

variable {M : Ruby.Machines} {σ : Type} {I : Injector M σ} {D d : Ruby.NetDest M}

/-! ### One call -/

structure IsFor (f : Unicast M) (id : M.MachineID) : Prop where
  destNi : f.destNi = M.nodeId id
  netDest : f.netDest = (Ruby.NetDest.clear M).add id
  msgDest : f.msgDest = (Ruby.NetDest.clear M).add id

/-- A call on a message to `d` that has made flits for `sent`, the others being `rest`. -/
structure Serves (d : Ruby.NetDest M) (sent rest : List Nat) (c : Call M σ) : Prop where
  destNi : c.flits.map Unicast.destNi = sent
  isFor : ∀ f ∈ c.flits, ∃ id, d.isElement id = true ∧ IsFor f id
  done : c.done = true ↔ rest = []
  left : c.done = false → ∀ id, c.left.isElement id = true ↔
    d.isElement id = true ∧ M.nodeId id ∉ sent

theorem Serves.stop (s : σ) {dests : List Nat} (hne : dests ≠ []) :
    Serves d [] dests ⟨false, [], d, s⟩ where
  destNi := rfl
  isFor f hf := absurd hf not_mem_nil
  done := by simp [hne]
  left _ id := by simp

theorem Serves.finish (d : Ruby.NetDest M) (s : σ) : Serves d [] [] ⟨true, [], d, s⟩ where
  destNi := rfl
  isFor f hf := absurd hf not_mem_nil
  done := by simp
  left h := absurd h Bool.false_ne_true.symm

theorem cloneDest_multi (id : M.MachineID) (d : Ruby.NetDest M) : cloneDest true (M.nodeId id) d =
      ((Ruby.NetDest.clear M).add id, d.removeNetDest ((Ruby.NetDest.clear M).add id)) := by
  rw [cloneDest, if_pos rfl, personalize, Machines.findMachine_nodeId]

theorem isElement_removed {id id' : M.MachineID} :
    (d.removeNetDest ((Ruby.NetDest.clear M).add id)).isElement id' = true ↔
      d.isElement id' = true ∧ id' ≠ id := by
  simp

theorem flitisizeLoop_spec (dests : List Nat) (hnodup : dests.Nodup) :
    ∀ (d : Ruby.NetDest M) (s : σ), (∀ n ∈ dests, n ∈ d.getAllDest) →
    Outcome (flitisizeLoop I true dests d s)
      (fun c => ∃ sent rest, dests = sent ++ rest ∧ Serves d sent rest c) fun _ => True := by
  induction dests with
  | nil =>
    intro d s _
    exact ⟨[], [], rfl, .finish d s⟩
  | cons n dests ih =>
    intro d s hmem
    obtain ⟨hn, htail⟩ := nodup_cons.mp hnodup
    obtain ⟨id, hid, rfl⟩ := Ruby.NetDest.mem_getAllDest.mp (hmem n (mem_cons_self ..))
    rw [flitisizeLoop, outcome_bind]
    refine .intro (fun x _ => ?_) fun _ _ => trivial
    rcases x with ⟨_ | vc, s'⟩
    · exact ⟨[], _, rfl, Serves.stop s' (cons_ne_nil _ _)⟩
    · simp only [cloneDest_multi, outcome_do]
      refine .intro (fun t _ => ?_) fun _ _ => trivial
      -- the destinations still to be served are left in the message
      have hleft : ∀ k ∈ dests,
          k ∈ (d.removeNetDest ((Ruby.NetDest.clear M).add id)).getAllDest := by
        intro k hk
        obtain ⟨id', hid', rfl⟩ := Ruby.NetDest.mem_getAllDest.mp (hmem k (mem_cons_of_mem _ hk))
        rw [Ruby.NetDest.nodeId_mem_getAllDest, isElement_removed]
        refine ⟨hid', ?_⟩
        rintro rfl
        exact hn hk
      refine (ih htail _ t hleft).onOk ?_
      rintro c ⟨sent, rest, rfl, hc⟩
      refine ⟨M.nodeId id :: sent, rest, rfl, ?_, ?_, hc.done, fun hdone id' => ?_⟩
      · rw [map_cons, hc.destNi]
      · intro f hf
        rcases mem_cons.mp hf with rfl | hf
        · exact ⟨id, hid, rfl, rfl, rfl⟩
        · obtain ⟨id', hid', hf'⟩ := hc.isFor f hf
          exact ⟨id', (isElement_removed.mp hid').1, hf'⟩
      · rw [hc.left hdone id', isElement_removed, mem_cons, M.nodeId_injective.eq_iff]
        tauto

theorem flitisizeMessage_spec (d : Ruby.NetDest M) (s : σ) : Outcome (flitisizeMessage I d s)
      (fun c => ∃ sent rest, d.getAllDest = sent ++ rest ∧ Serves d sent rest c)
      fun _ => True := by
  unfold flitisizeMessage
  by_cases hmulti : 1 < d.getAllDest.length
  · rw [decide_eq_true hmulti]
    exact flitisizeLoop_spec _ (d.getAllDest_sorted.imp fun h => h.ne) d s fun _ h => h
  · rw [decide_eq_false hmulti]
    rcases hd : d.getAllDest with _ | ⟨n, _ | ⟨n', rest⟩⟩
    · exact ⟨[], [], rfl, .finish d s⟩
    · -- a single destination: the clone has it already
      obtain ⟨id, rfl, hid⟩ := Ruby.NetDest.eq_add_clear_of_getAllDest hd
      simp only [flitisizeLoop, cloneDest, Bool.false_eq_true, if_false, outcome_bind]
      refine .intro (fun x _ => ?_) fun _ _ => trivial
      rcases x with ⟨_ | vc, s'⟩
      · exact ⟨[], [M.nodeId id], rfl, Serves.stop s' (cons_ne_nil _ _)⟩
      · simp only [outcome_bind]
        refine .intro (fun t _ => ?_) fun _ _ => trivial
        refine ⟨[M.nodeId id], [], rfl, rfl, ?_, by simp, by simp⟩
        rintro f (_ | ⟨_, ⟨⟩⟩)
        exact ⟨id, by rw [hid]; simp, rfl, hid, hid⟩
    · rw [hd] at hmulti
      simp at hmulti

/-- The flits are for different machines of `D`, and the others are left in the message while no
call has returned `true`. -/
structure Progress (D : Ruby.NetDest M) (fs : List (Unicast M)) (d : Ruby.NetDest M) (done : Bool) :
    Prop where
  nodup : (fs.map Unicast.destNi).Nodup
  isFor : ∀ f ∈ fs, ∃ id, D.isElement id = true ∧ IsFor f id
  left : done = false → ∀ id, d.isElement id = true ↔
    D.isElement id = true ∧ M.nodeId id ∉ fs.map Unicast.destNi
  all : done = true → ∀ n, n ∈ fs.map Unicast.destNi ↔ n ∈ D.getAllDest

theorem Progress.start (D : Ruby.NetDest M) : Progress D [] D false where
  nodup := nodup_nil
  isFor f hf := absurd hf not_mem_nil
  left _ id := by simp
  all h := absurd h Bool.false_ne_true

theorem Progress.call {fs : List (Unicast M)} (h : Progress D fs d false) {c : Call M σ}
    {sent rest : List Nat} (hd : d.getAllDest = sent ++ rest) (hc : Serves d sent rest c) :
    Progress D (fs ++ c.flits) c.left c.done := by
  have hleft := h.left rfl
  have hsub : ∀ n ∈ sent, n ∈ d.getAllDest := fun n hn => hd ▸ mem_append_left _ hn
  have hfor : ∀ f ∈ fs ++ c.flits, ∃ id, D.isElement id = true ∧ IsFor f id := by
    intro f hf
    rcases mem_append.mp hf with hf | hf
    · exact h.isFor f hf
    · obtain ⟨id, hid, hf'⟩ := hc.isFor f hf
      exact ⟨id, ((hleft id).mp hid).1, hf'⟩
  refine ⟨?_, hfor, fun hdone id => ?_, fun hdone n => ?_⟩
  · rw [map_append, hc.destNi, nodup_append]
    have hsorted := d.getAllDest_sorted
    rw [hd, pairwise_append] at hsorted
    refine ⟨h.nodup, hsorted.1.imp fun hlt => hlt.ne, ?_⟩
    -- what is served now was left, so it had not been served before
    rintro a ha b hb rfl
    obtain ⟨id, hid, rfl⟩ := Ruby.NetDest.mem_getAllDest.mp (hsub a hb)
    exact ((hleft id).mp hid).2 ha
  · rw [hc.left hdone id, hleft id, map_append, mem_append, hc.destNi]
    tauto
  · obtain rfl := hc.done.mp hdone
    rw [append_nil] at hd
    rw [map_append, mem_append, hc.destNi, ← hd, Ruby.NetDest.mem_getAllDest,
      Ruby.NetDest.mem_getAllDest]
    constructor
    · rintro (hn | ⟨id, hid, rfl⟩)
      · obtain ⟨f, hf, rfl⟩ := mem_map.mp hn
        obtain ⟨id, hid, hf'⟩ := h.isFor f hf
        exact ⟨id, hid, hf'.destNi.symm⟩
      · exact ⟨id, ((hleft id).mp hid).1, rfl⟩
    · rintro ⟨id, hid, rfl⟩
      by_cases hn : M.nodeId id ∈ fs.map Unicast.destNi
      · exact .inl hn
      · exact .inr ⟨id, (hleft id).mpr ⟨hid, hn⟩, rfl⟩

/-- **Multicast to unicast, exactly once.** Calls of `flitisizeMessage` make flits for different
destinations, leave the others in the message, and have served all when one returns `true`. -/
theorem multicast_exactly_once {fs : List (Unicast M)} {d : Ruby.NetDest M} {done : Bool}
    (h : Calls I D fs d done) :
    (fs.map Unicast.destNi).Nodup ∧
    (∀ f ∈ fs, ∃ id, D.isElement id = true ∧ f.destNi = M.nodeId id ∧
      f.netDest = (Ruby.NetDest.clear M).add id ∧ f.msgDest = (Ruby.NetDest.clear M).add id) ∧
    (done = false → ∀ id, d.isElement id = true ↔
      D.isElement id = true ∧ M.nodeId id ∉ fs.map Unicast.destNi) ∧
    (done = true → ∀ n, n ∈ fs.map Unicast.destNi ↔ n ∈ D.getAllDest) := by
  have hprogress : Progress D fs d done := by
    induction h with
    | start => exact .start D
    | call s _ hcall ih =>
      obtain ⟨sent, rest, hd, hc⟩ := (flitisizeMessage_spec _ s).of_ok hcall
      exact ih.call hd hc
  refine ⟨hprogress.nodup, fun f hf => ?_, hprogress.left, hprogress.all⟩
  obtain ⟨id, hid, h1, h2, h3⟩ := hprogress.isFor f hf
  exact ⟨id, hid, h1, h2, h3⟩

def threeMachines : Machines := ⟨2, fun t => 2 - t⟩

def scripted : Injector threeMachines (List (Option Nat)) where
  calculateVC := fun s => .ok (s.headD none, s.tail)
  insert := fun _ _ s => .ok s

/-- A message for three machines, sent in two calls: the first one finds one free channel. -/
theorem multicast_exactly_once_three :
    ∃ fs d, Calls scripted ⟨fun _ _ => true⟩ fs d true ∧ fs.map Unicast.destNi = [0, 1, 2] ∧
      ∀ n, n ∈ fs.map Unicast.destNi ↔
        n ∈ Ruby.NetDest.getAllDest (M := threeMachines) ⟨fun _ _ => true⟩ := by
  obtain ⟨c, c', hc, hstop, hc', hdone, hdests⟩ :
      ∃ c c', flitisizeMessage scripted ⟨fun _ _ => true⟩ [some 4, none] = .ok c ∧ c.done = false ∧
        flitisizeMessage scripted c.left [some 4, some 5] = .ok c' ∧ c'.done = true ∧
        (c.flits ++ c'.flits).map Unicast.destNi = [0, 1, 2] := ⟨_, _, rfl, rfl, rfl, rfl, rfl⟩
  have hfirst := Calls.call _ .start hc
  rw [hstop] at hfirst
  have hcalls := Calls.call _ hfirst hc'
  rw [hdone] at hcalls
  obtain ⟨-, -, -, hall⟩ := multicast_exactly_once hcalls
  exact ⟨_, _, hcalls, hdests, hall rfl⟩

variable {P : Params} {n vnet : Nat}

def HeadIs (s : Net) (n vnet : Nat) (d : Ruby.NetDest M) : Prop :=
  ∃ m, ((s.ni n).inNode vnet).prioHeap.head? = some m ∧ m.destination = d.toNodes

theorem HeadIs.congr {s s' : Net} (h : HeadIs s n vnet d)
    (hni : (s'.ni n).inNode = (s.ni n).inNode) :
    HeadIs s' n vnet d := by
  unfold HeadIs
  rwa [hni]

theorem calculateVC_inNode (k : Nat) (s : Net) :
    Outcome (NocSwap.calculateVC P n k s) (fun x => (x.2.ni n).inNode = (s.ni n).inNode)
      fun _ => True := by
  unfold NocSwap.calculateVC
  rw [outcome_bind]
  refine .intro (fun x _ => ?_) fun _ _ => trivial
  rcases x with ⟨_ | vc, delta⟩
  · simp only [outcome_do]
    exact fun _ => by simp
  · simp only [outcome_pure]
    simp

theorem createFlit_inNode (s : Net) (vc dest : Nat) (m : Message) :
    ((s.createFlit P n vnet vc dest m).ni n).inNode = (s.ni n).inNode := by
  simp [Net.createFlit, Net.insert]

theorem setHead_self {s : Net} {m : Message} (h : ((s.ni n).inNode vnet).prioHeap.head? = some m) :
    s.setInNode n vnet (((s.ni n).inNode vnet).setHead m) = s := by
  obtain ⟨rest, hrest⟩ := List.head?_eq_some_iff.mp h
  have hsame : ((s.ni n).inNode vnet).setHead m = (s.ni n).inNode vnet := by
    unfold MessageBuffer.setHead
    rw [hrest]
    show { (s.ni n).inNode vnet with prioHeap := m :: rest } = _
    rw [← hrest]
  rw [hsame]
  simp [Net.setInNode, Net.setNi]

theorem setHead_headIs {s : Net} {m m' : Message}
    (h : ((s.ni n).inNode vnet).prioHeap.head? = some m) (hd : m'.destination = d.toNodes) :
    HeadIs (s.setInNode n vnet (((s.ni n).inNode vnet).setHead m')) n vnet d := by
  obtain ⟨rest, hrest⟩ := List.head?_eq_some_iff.mp h
  refine ⟨m', ?_, hd⟩
  simp [Net.setInNode, MessageBuffer.setHead, hrest]

theorem cloneDest_toNodes {k : Nat} (hk : k ∈ d.getAllDest) :
    (cloneDest true k d).1.toNodes = NetDest.singleton k ∧
      (cloneDest true k d).2.toNodes = d.toNodes.removeNetDest (NetDest.singleton k) := by
  obtain ⟨id, -, rfl⟩ := Ruby.NetDest.mem_getAllDest.mp hk
  rw [cloneDest_multi, Ruby.NetDest.toNodes_removeNetDest, Ruby.NetDest.toNodes_add_clear]
  exact ⟨rfl, rfl⟩

theorem SameCall.cons {x : Except Fault (Call M Net)} {y : Except Fault (Bool × Net)}
    (h : SameOutcome (fun c x => x = (c.done, c.state)) x y) (f : Unicast M) :
    SameOutcome (fun c x => x = (c.done, c.state))
      (x >>= fun c => pure { c with flits := f :: c.flits }) y := by
  rw [← bind_pure y]
  exact h.bind fun c x hcx => hcx

theorem flitisizeLoop_eq (multi : Bool) (dests : List Nat) (hnodup : dests.Nodup) :
    ∀ (d : Ruby.NetDest M) (s : Net), HeadIs s n vnet d →
      (multi = true → ∀ k ∈ dests, k ∈ d.getAllDest) →
    SameOutcome (fun c x => x = (c.done, c.state))
      (flitisizeLoop (niInjector P n vnet) multi dests d s)
      (NocSwap.flitisizeLoop P n vnet multi dests s) := by
  induction dests with
  | nil => exact fun d s _ _ => rfl
  | cons k dests ih =>
    intro d s hhead hmem
    obtain ⟨hk, htail⟩ := nodup_cons.mp hnodup
    have hvc := calculateVC_inNode (P := P) (n := n) (if P.injSingleVnet = 0 then vnet else 0) s
    simp only [flitisizeLoop, NocSwap.flitisizeLoop, flitisizeDest, niInjector, bind_assoc, pure_bind]
    refine (SameOutcome.of_outcome hvc).bind ?_
    rintro ⟨vc, t⟩ _ ⟨rfl, ht⟩
    refine SameOutcome.require_bind Iff.rfl fun _ => ?_
    cases vc with
    | none => exact rfl
    | some vc =>
      obtain ⟨m, hm, hd⟩ := hhead.congr ht
      simp only [hm, orFail, bind_assoc]
      refine SameOutcome.require_bind Iff.rfl fun _ => ?_
      cases multi with
      | false =>
        -- the message is not touched
        have hself : { m with destination := d.toNodes } = m := by rw [← hd]
        simp only [cloneDest, Bool.false_eq_true, if_false, hself, setHead_self hm]
        refine SameCall.cons (ih htail d _ ?_ fun h => absurd h Bool.false_ne_true) _
        exact HeadIs.congr ⟨m, hm, hd⟩ (createFlit_inNode ..)
      | true =>
        obtain ⟨hclone, hleft⟩ := cloneDest_toNodes (hmem rfl k (mem_cons_self ..))
        rw [hclone, hleft, ← hd]
        refine SameCall.cons (ih htail _ _ ?_ fun _ k' hk' => ?_) _
        · refine HeadIs.congr (setHead_headIs hm ?_) (createFlit_inNode ..)
          rw [hleft, hd]
        · -- the destinations to come are not the one just served
          have hkk : k' ≠ k := fun h => hk (h ▸ hk')
          have hnodes : (cloneDest true k d).2.getAllDest =
              d.getAllDest.filter fun n => decide (n ∉ [k]) := congrArg NetDest.nodes hleft
          rw [hnodes, mem_filter]
          exact ⟨hmem rfl k' (mem_cons_of_mem _ hk'), by simpa using hkk⟩

/-- **Refinement.** With a message for `d` at the head of the input buffer, the interface does what
the function above does with its injector, faults included. -/
theorem flitisizeMessage_eq (s : Net) (m : Message) (rest : List Message) (d : Ruby.NetDest M) :
    let m := { m with destination := d.toNodes }
    let s := s.setInNode n vnet { (s.ni n).inNode vnet with prioHeap := m :: rest }
    NocSwap.flitisizeMessage P n vnet m s =
      (flitisizeMessage (niInjector P n vnet) d s).map fun c => (c.done, c.state) := by
  intro m s
  have hm : ((s.ni n).inNode vnet).prioHeap.head? = some m := by simp [s, Net.setInNode]
  have hloop := flitisizeLoop_eq (P := P) (decide (1 < d.getAllDest.length)) d.getAllDest
    (d.getAllDest_sorted.imp fun h => h.ne) d s ⟨m, hm, rfl⟩ fun _ k hk => hk
  exact hloop.eq_map

end NocSwap.Multicast
