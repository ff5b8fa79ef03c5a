import NocSwap.Garnet.Correct.Stalled
import NocSwap.Garnet.Correct.Conservation
import NocSwap.Garnet.FunctionalWrite

/-!
# What a functional write reaches
-/

namespace NocSwap

open List Function

variable {P : Params} {w : MessageWrite} {s s' : Net}

/-! ### The buffers that are written -/

def Net.writeBuf (w : MessageWrite) (s : Net) (b : Buf) : Net :=
  s.setBuf b ((s.buf b).map fun f => (f.functionalWrite w).1)

def Writes (w : MessageWrite) (bs : List Buf) (x : StateM Net Nat) : Prop :=
  ∀ s, (x.run s).2 = bs.foldl (Net.writeBuf w) s

theorem writes_buf (b : Buf) : Writes w [b] (b.functionalWrite w) := fun _ => rfl

variable {bs bs' : List Buf} {x y : StateM Net Nat}

theorem Writes.add (hx : Writes w bs x) (hy : Writes w bs' y) (g : Nat → Nat → Nat) :
    Writes w (bs ++ bs') (do let a ← x; let b ← y; return g a b) := by
  intro s
  rw [foldl_append, ← hx s, ← hy]
  rfl

theorem writes_sum {α : Type} {l : List α} {write : α → StateM Net Nat} {g : α → List Buf}
    (h : ∀ a, Writes w (g a) (write a)) : Writes w (l.flatMap g) (sumWrites l write) := by
  have hloop : ∀ (l : List α) (num : Nat),
      Writes w (l.flatMap g) (l.foldlM (fun num a => do return num + (← write a)) num) := by
    intro l
    induction l with
    | nil => exact fun _ _ => rfl
    | cons a l ih =>
      intro num s
      rw [flatMap_cons, foldl_append, ← h a s]
      exact ih (num + ((write a).run s).1) ((write a).run s).2
  exact hloop l 0

def routerBufs (P : Params) (r : Nat) : List Buf :=
  (List.range (P.inports r).length).flatMap (fun i => [Buf.switchBuffer r i]) ++
  (P.inports r).flatMap (fun p => (List.range P.numVcs).flatMap fun v => [Buf.inputVc p.link v]) ++
  (P.outports r).flatMap (fun p => [Buf.srcQueue p.link])

def niBufs (P : Params) (n : Nat) : List Buf :=
  (List.range P.numVcs).flatMap (fun v => [Buf.niOutVc n v]) ++ [Buf.srcQueue (.extIn n)]

/-- The buffers that `GarnetNetwork::functionalWrite` goes through. -/
def written (P : Params) : List Buf :=
  (List.range P.numRouters).flatMap (routerBufs P) ++ (List.range P.numNodes).flatMap (niBufs P) ++
  P.links.flatMap (fun l => [Buf.linkBuffer l])

theorem Writes.add₃ {bs'' : List Buf} {z : StateM Net Nat} (hx : Writes w bs x)
    (hy : Writes w bs' y) (hz : Writes w bs'' z) :
    Writes w (bs ++ bs' ++ bs'')
      (do let a ← x; let b ← y; let c ← z; return a + b + c) := by
  intro s
  rw [foldl_append, foldl_append, ← hx s, ← hy, ← hz]
  rfl

theorem functionalWrite_writes (P : Params) (w : MessageWrite) :
    Writes w (written P) (GarnetNetwork.functionalWrite P w) := by
  apply Writes.add₃
  · apply writes_sum
    intro r
    apply Writes.add₃
    · exact writes_sum fun i => writes_buf _
    · exact writes_sum fun p => writes_sum fun v => writes_buf _
    · exact writes_sum fun p => writes_buf _
  · apply writes_sum
    intro n
    exact (writes_sum fun v => writes_buf _).add (writes_buf _) (· + ·)
  · exact writes_sum fun l => writes_buf _

theorem foldl_writeBuf (h : bs.Nodup) (s : Net) :
    bs.foldl (Net.writeBuf w) s = { s with buf := fun b =>
      if b ∈ bs then ((s.buf b).map fun f => (f.functionalWrite w).1) else s.buf b } := by
  induction bs generalizing s with
  | nil => simp
  | cons a bs ih =>
    obtain ⟨ha, hbs⟩ := nodup_cons.mp h
    rw [foldl_cons, ih hbs]
    simp only [Net.writeBuf, Net.setBuf]
    congr
    funext b
    rcases eq_or_ne b a with rfl | hne
    · rw [if_neg ha, if_pos (mem_cons_self ..), update_self]
    · rw [update_of_ne hne]
      simp [hne]

section Keys

variable {α β κ : Type} {l : List α} (k : α → κ) (hl : (l.map k).Nodup)

include hl

theorem nodup_flatMap_of_key {g : α → List β} (hg : ∀ a ∈ l, (g a).Nodup)
    (hkey : ∀ a ∈ l, ∀ a' ∈ l, ∀ b ∈ g a, b ∈ g a' → k a = k a') : (l.flatMap g).Nodup := by
  rw [nodup_flatMap]
  refine ⟨hg, (pairwise_map.mp hl).imp_of_mem ?_⟩
  intro a a' ha ha' hne b hb hb'
  exact hne (hkey a ha a' ha' b hb hb')

theorem nodup_flatMap_singleton {f : κ → β} (hf : Function.Injective f) :
    (l.flatMap fun a => [f (k a)]).Nodup := by
  rw [← map_eq_flatMap, ← comp_def f k, ← map_map]
  exact hl.map hf

end Keys

theorem range_map_id_nodup (n : Nat) : ((List.range n).map id).Nodup := by
  rw [map_id]
  exact nodup_range

theorem links_nodup_of_pairwise {ports : List Port} (h : ports.Pairwise PortsDiffer) :
    (ports.map Port.link).Nodup :=
  pairwise_map.mpr (h.imp fun hpq => hpq.1)

variable {r : Nat} {b : Buf}

theorem mem_routerBufs : b ∈ routerBufs P r ↔ (∃ i < (P.inports r).length, b = .switchBuffer r i) ∨
      (∃ p ∈ P.inports r, ∃ v < P.numVcs, b = .inputVc p.link v) ∨
      ∃ p ∈ P.outports r, b = .srcQueue p.link := by
  simp [routerBufs]

variable {n : Nat}

theorem mem_niBufs : b ∈ niBufs P n ↔
    (∃ v < P.numVcs, b = .niOutVc n v) ∨ b = .srcQueue (.extIn n) := by
  simp [niBufs]

theorem mem_written : b ∈ written P ↔
    (∃ r < P.numRouters, b ∈ routerBufs P r) ∨ (∃ n < P.numNodes, b ∈ niBufs P n) ∨
      ∃ l ∈ P.links, b = .linkBuffer l := by
  simp [written]

theorem routerBufs_nodup (P : Params) (r : Nat) : (routerBufs P r).Nodup := by
  have hin := links_nodup_of_pairwise (inports_pairwise P r)
  have hout := links_nodup_of_pairwise (outports_pairwise P r)
  have hrange := range_map_id_nodup (P.inports r).length
  have hvcs := range_map_id_nodup P.numVcs
  unfold routerBufs
  rw [nodup_append, nodup_append]
  refine ⟨⟨?_, ?_, ?_⟩, ?_, ?_⟩
  · exact nodup_flatMap_singleton id hrange fun _ _ h => (Buf.switchBuffer.inj h).2
  · apply nodup_flatMap_of_key Port.link hin
    · intro p _
      exact nodup_flatMap_singleton id hvcs fun _ _ h => (Buf.inputVc.inj h).2
    · intro p _ p' _ b hb hb'
      obtain ⟨v, -, hb⟩ := mem_flatMap.mp hb
      obtain ⟨v', -, hb'⟩ := mem_flatMap.mp hb'
      exact (Buf.inputVc.inj ((mem_singleton.mp hb).symm.trans (mem_singleton.mp hb'))).1
  · intro a ha b hb
    obtain ⟨i, -, ha⟩ := mem_flatMap.mp ha
    obtain ⟨p, -, hb⟩ := mem_flatMap.mp hb
    obtain ⟨v, -, hb⟩ := mem_flatMap.mp hb
    rw [mem_singleton.mp ha, mem_singleton.mp hb]
    exact Buf.noConfusion
  · exact nodup_flatMap_singleton Port.link hout fun _ _ h => Buf.srcQueue.inj h
  · intro a ha b hb
    obtain ⟨p, -, hb⟩ := mem_flatMap.mp hb
    rw [mem_singleton.mp hb]
    rintro rfl
    simp at ha

theorem niBufs_nodup (P : Params) (n : Nat) : (niBufs P n).Nodup := by
  unfold niBufs
  rw [nodup_append]
  refine ⟨?_, nodup_singleton _, ?_⟩
  · exact nodup_flatMap_singleton id (range_map_id_nodup P.numVcs) fun _ _ h => (Buf.niOutVc.inj h).2
  · intro a ha b hb
    rw [mem_singleton.mp hb]
    rintro rfl
    simp at ha

theorem links_nodup (P : Params) : P.links.Nodup := by
  unfold Params.links
  rw [nodup_append, nodup_append]
  refine ⟨⟨?_, ?_, ?_⟩, ?_, ?_⟩
  · exact nodup_range.map fun _ _ h => Link.extIn.inj h
  · exact nodup_range.map fun _ _ h => Link.extOut.inj h
  · simp
  · apply nodup_flatMap_of_key id (range_map_id_nodup P.numRouters)
    · intro r _
      have hdirns : Params.meshDirns.Nodup := by decide
      exact (hdirns.filter _).map fun _ _ h => (Link.int.inj h).2
    · intro r _ r' _ l hl hl'
      obtain ⟨d, -, rfl⟩ := mem_map.mp hl
      obtain ⟨d', -, h⟩ := mem_map.mp hl'
      exact (Link.int.inj h).1.symm
  · intro a ha b hb
    obtain ⟨r, -, hb⟩ := mem_flatMap.mp hb
    obtain ⟨d, -, rfl⟩ := mem_map.mp hb
    rintro rfl
    simp at ha

def holder (P : Params) : Buf → Params.Sink
  | .switchBuffer r _ => .router r
  | .inputVc l _ => P.linkConsumer l
  | .srcQueue l => P.creditConsumer l
  | .niOutVc n _ | .stallQueue n => .ni n
  | .linkBuffer l => P.linkConsumer l

theorem holder_routerBufs (hr : r < P.numRouters) (h : b ∈ routerBufs P r) :
    holder P b = .router r := by
  rcases mem_routerBufs.mp h with ⟨i, -, rfl⟩ | ⟨p, hp, v, -, rfl⟩ | ⟨p, hp, rfl⟩
  · rfl
  · exact inport_consumer hr hp
  · exact outport_driver hp

theorem holder_niBufs (h : b ∈ niBufs P n) : holder P b = .ni n := by
  rcases mem_niBufs.mp h with ⟨v, -, rfl⟩ | rfl
  · rfl
  · rfl

theorem written_nodup (P : Params) : (written P).Nodup := by
  unfold written
  rw [nodup_append, nodup_append]
  refine ⟨⟨?_, ?_, ?_⟩, ?_, ?_⟩
  · apply nodup_flatMap_of_key id (range_map_id_nodup P.numRouters)
    · exact fun r _ => routerBufs_nodup P r
    · intro r hr r' hr' b hb hb'
      have h := holder_routerBufs (mem_range.mp hr) hb
      rw [holder_routerBufs (mem_range.mp hr') hb'] at h
      exact (Params.Sink.router.inj h).symm
  · apply nodup_flatMap_of_key id (range_map_id_nodup P.numNodes)
    · exact fun n _ => niBufs_nodup P n
    · intro n _ n' _ b hb hb'
      have h := holder_niBufs hb
      rw [holder_niBufs hb'] at h
      exact (Params.Sink.ni.inj h).symm
  · -- a router holds the one, an interface the other
    intro a ha b hb
    obtain ⟨r, hr, ha⟩ := mem_flatMap.mp ha
    obtain ⟨n, -, hb⟩ := mem_flatMap.mp hb
    rintro rfl
    have hsink := (holder_routerBufs (mem_range.mp hr) ha).symm.trans (holder_niBufs hb)
    cases hsink
  · -- the buffers of the links are of a kind of their own
    apply nodup_flatMap_singleton id
    · rw [map_id]
      exact links_nodup P
    · exact fun _ _ h => Buf.linkBuffer.inj h
  · intro a ha b hb
    obtain ⟨l, -, hb⟩ := mem_flatMap.mp hb
    obtain rfl := mem_singleton.mp hb
    rintro rfl
    rcases mem_append.mp ha with ha | ha
    · obtain ⟨r, -, ha⟩ := mem_flatMap.mp ha
      rcases mem_routerBufs.mp ha with ⟨_, -, h⟩ | ⟨_, -, _, -, h⟩ | ⟨_, -, h⟩ <;> cases h
    · obtain ⟨n, -, ha⟩ := mem_flatMap.mp ha
      rcases mem_niBufs.mp ha with ⟨_, -, h⟩ | h <;> cases h

theorem inputVc_ne_extOut (P : Params) : Inductive P fun s =>
    ∀ b, ∀ f ∈ s.buf b, ∀ n v, b ≠ .inputVc (.extOut n) v := by
  have hport : ∀ {r : Nat} {p : Port} {n v w : Nat}, p ∈ P.inports r →
      Buf.inputVc p.link w ≠ .inputVc (.extOut n) v := by
    intro r p n v w hp h
    have hlink := (Buf.inputVc.inj h).1
    rcases mem_inports.mp hp with ⟨_, -, -, rfl⟩ | ⟨_, _, -, rfl⟩ <;> cases hlink
  refine (flits_inductive (I := fun _ => True)
    (φ := fun b _ => ∀ n v, b ≠ .inputVc (.extOut n) v) ?_).alone
  intro s _ h b f haft n v
  cases haft with
  | kept hf | cleared hf => exact h _ _ hf n v
  | arrived ha => exact hport ha.port
  | handedBack hs => exact hport (mem_of_getElem? hs.ptr.port)
  | swapped hs => exact hport (mem_of_getElem? hs.facing)
  | linked | granted | crossed | created | sent | stalled => exact Buf.noConfusion

theorem mem_written_of_mem (hb : b ∈ places P) (hext : ∀ n v, b ≠ .inputVc (.extOut n) v)
    (hstall : ∀ n, b ≠ .stallQueue n) : b ∈ written P := by
  rw [mem_places] at hb
  rw [mem_written]
  cases b with
  | niOutVc n v => exact .inr (.inl ⟨n, hb.1, mem_niBufs.mpr (.inl ⟨v, hb.2, rfl⟩)⟩)
  | linkBuffer l => exact .inr (.inr ⟨l, hb, rfl⟩)
  | switchBuffer r i => exact .inl ⟨r, hb.1, mem_routerBufs.mpr (.inl ⟨i, hb.2, rfl⟩)⟩
  | stallQueue n => exact absurd rfl (hstall n)
  | srcQueue l =>
    rcases mem_links.mp hb with ⟨n, hn, rfl⟩ | ⟨n, hn, rfl⟩ | ⟨r, hr, d, v, hv, rfl⟩
    · exact .inr (.inl ⟨n, hn, mem_niBufs.mpr (.inr rfl)⟩)
    · exact .inl ⟨P.niRouter n, P.niRouter_lt n, mem_routerBufs.mpr (.inr (.inr
        ⟨_, mem_outports.mpr (.inl ⟨n, hn, rfl, rfl⟩), rfl⟩))⟩
    · exact .inl ⟨r, hr, mem_routerBufs.mpr (.inr (.inr
        ⟨_, mem_outports.mpr (.inr ⟨d, v, hv, rfl⟩), rfl⟩))⟩
  | inputVc l vc =>
    obtain ⟨hl, hvc⟩ := hb
    rcases mem_links.mp hl with ⟨n, hn, rfl⟩ | ⟨n, hn, rfl⟩ | ⟨r, hr, d, v, hv, rfl⟩
    · exact .inl ⟨P.niRouter n, P.niRouter_lt n, mem_routerBufs.mpr (.inr (.inl
        ⟨_, mem_inports.mpr (.inl ⟨n, hn, rfl, rfl⟩), vc, hvc, rfl⟩))⟩
    · exact absurd rfl (hext n vc)
    · exact .inl ⟨v, nbr_lt hr hv, mem_routerBufs.mpr (.inr (.inl
        ⟨_, mem_of_getElem? (facing_inport hr hv), vc, hvc, rfl⟩))⟩

theorem stallQueue_not_mem_written (P : Params) (n : Nat) : Buf.stallQueue n ∉ written P := by
  intro h
  rcases mem_written.mp h with ⟨r, -, h⟩ | ⟨n', -, h⟩ | ⟨l, -, h⟩
  · rcases mem_routerBufs.mp h with ⟨_, -, h⟩ | ⟨_, -, _, -, h⟩ | ⟨_, -, h⟩ <;> cases h
  · rcases mem_niBufs.mp h with ⟨_, -, h⟩ | h <;> cases h
  · cases h

theorem functionalWrite_eq (h : Reachable P s) (w : MessageWrite) :
    ((GarnetNetwork.functionalWrite P w).run s).2 = { s with buf := fun b =>
      match b with
      | .stallQueue n => s.buf (.stallQueue n)
      | b => (s.buf b).map fun f => (f.functionalWrite w).1 } := by
  rw [functionalWrite_writes P w s, foldl_writeBuf (written_nodup P)]
  congr
  funext b
  have hempty : (∀ n, b ≠ .stallQueue n) → b ∉ written P → s.buf b = [] := by
    intro hstall hb
    rw [eq_nil_iff_forall_not_mem]
    intro f hf
    have hplace := ((conserved P).reachable h).mem_places hf
    exact hb (mem_written_of_mem hplace ((inputVc_ne_extOut P).reachable h b f hf) hstall)
  by_cases hb : b ∈ written P
  · rw [if_pos hb]
    cases b with
    | stallQueue n => exact absurd hb (stallQueue_not_mem_written P n)
    | _ => rfl
  · rw [if_neg hb]
    cases b with
    | stallQueue n => rfl
    | _ => simp [hempty (fun n => Buf.noConfusion) hb]

/-- The message of every flit in flight is written once, in its place, and nothing else is changed.
-/
structure WritesOnce (w : MessageWrite) (s s' : Net) : Prop where
  inFlight : ∀ u < s.created, consumedCount u s.consumed = 0 →
    ∃! x : Buf × Nat, ∃ f, (s.buf x.1)[x.2]? = some f ∧ f.uid = u ∧
      (s'.buf x.1)[x.2]? = some { f with msg := (w f.msg).1 }
  length : ∀ b, (s'.buf b).length = (s.buf b).length
  others : s' = { s with buf := s'.buf }

/-- **What a functional write reaches.** It applies once to the message of every flit in the
network, and to no other, if and only if no flit is stalled at an interface. -/
theorem functionalWrite_iff (h : Reachable P s) :
    (∀ w, WritesOnce w s ((GarnetNetwork.functionalWrite P w).run s).2) ↔
      ∀ n < P.numNodes, s.buf (.stallQueue n) = [] := by
  have hinv := (conserved P).reachable h
  constructor
  · intro hall n _
    cases hq : s.buf (.stallQueue n) with
    | nil => rfl
    | cons f fs =>
      -- a write that changes every message does not change that of `f`
      let w : MessageWrite := fun m => ({ m with time := m.time + 1 }, true)
      have hf : f ∈ s.buf (.stallQueue n) := hq ▸ mem_cons_self ..
      obtain ⟨hlt, hcons⟩ := hinv.in_flight hf
      obtain ⟨x, ⟨g, hg, hgu, hwritten⟩, -⟩ := (hall w).inFlight f.uid hlt hcons
      have hx := (hinv.existsUnique hlt hcons).unique ⟨g, hg, hgu⟩
        ⟨f, show (s.buf (Buf.stallQueue n, 0).1)[(Buf.stallQueue n, 0).2]? = some f by rw [hq]; rfl,
          rfl⟩
      subst hx
      rw [functionalWrite_eq h] at hwritten
      have hsame : g = { g with msg := (w g.msg).1 } := Option.some.inj (hg.symm.trans hwritten)
      have htime : g.msg.time = g.msg.time + 1 := congrArg (fun f => f.msg.time) hsame
      omega
  · intro hempty w
    have hbuf : ∀ b, (((GarnetNetwork.functionalWrite P w).run s).2).buf b =
        (s.buf b).map fun f => { f with msg := (w f.msg).1 } := by
      intro b
      rw [functionalWrite_eq h]
      cases b with
      | stallQueue n =>
        have hnil : s.buf (.stallQueue n) = [] := by
          rw [eq_nil_iff_forall_not_mem]
          intro f hf
          have hn : n < P.numNodes := mem_places.mp (hinv.mem_places hf)
          rw [hempty n hn] at hf
          cases hf
        show s.buf (.stallQueue n) = _
        rw [hnil]
        rfl
      | _ => rfl
    constructor
    · intro u hu hcons
      obtain ⟨x, ⟨f, hf, hfu⟩, huniq⟩ := hinv.existsUnique hu hcons
      refine ⟨x, ⟨f, hf, hfu, ?_⟩, fun y ⟨g, hg, hgu, _⟩ => huniq y ⟨g, hg, hgu⟩⟩
      rw [hbuf, getElem?_map, hf, Option.map_some]
    · intro b
      rw [hbuf, length_map]
    · rw [functionalWrite_eq h]

/-- In the run of the pair no flit is stalled, and its one flit is written. -/
theorem functionalWrite_iff_pair : ∃ s, run .pair pairRun (.init .pair) = some s ∧ s.created = 1 ∧
    ∀ w, WritesOnce w s ((GarnetNetwork.functionalWrite .pair w).run s).2 := by
  have hrun : (run .pair pairRun (.init .pair)).map
      (fun s => (s.created, s.buf (.stallQueue 0), s.buf (.stallQueue 1))) = some (1, [], []) := by
    decide +kernel
  obtain ⟨s, hs, hval⟩ := Option.map_eq_some_iff.mp hrun
  obtain ⟨hcr, hval⟩ := Prod.mk.inj hval
  obtain ⟨hzero, hone⟩ := Prod.mk.inj hval
  refine ⟨s, hs, hcr, (functionalWrite_iff (reachable_of_run .init hs)).mpr fun n hn => ?_⟩
  have hn' : n < 2 := hn
  rcases Nat.lt_succ_iff_lt_or_eq.mp hn' with hlt | rfl
  · obtain rfl : n = 0 := by omega
    exact hzero
  · exact hone

/-- The second flit for node `0` of the hub is stalled, and a functional write leaves its message as
it is. -/
theorem functionalWrite_misses_hub :
    ∃ s f, hubSetup.bind (simulate (.hub 0) 20) = some s ∧ Reachable (.hub 0) s ∧
      f ∈ s.buf (.stallQueue 0) ∧ f.uid < s.created ∧ consumedCount f.uid s.consumed = 0 ∧
      ∀ w, f ∈ (((GarnetNetwork.functionalWrite (.hub 0) w).run s).2).buf (.stallQueue 0) := by
  have hrun : (hubSetup.bind (simulate (.hub 0) 20)).map
      (fun s => (s.buf (.stallQueue 0)).length) = some 1 := by decide +kernel
  obtain ⟨s, hs, hlen⟩ := Option.map_eq_some_iff.mp hrun
  obtain ⟨t, ht, hsim⟩ := Option.bind_eq_some_iff.mp hs
  have hreach : Reachable (.hub 0) s := reachable_of_simulate _ (reachable_of_run .init ht) hsim
  obtain ⟨f, hf⟩ := length_eq_one_iff.mp hlen
  have hmem : f ∈ s.buf (.stallQueue 0) := by
    rw [hf]
    exact mem_singleton_self f
  obtain ⟨hlt, hcons⟩ := ((conserved (.hub 0)).reachable hreach).in_flight hmem
  refine ⟨s, f, hs, hreach, hmem, hlt, hcons, fun w => ?_⟩
  rw [functionalWrite_eq hreach]
  exact hmem

end NocSwap
