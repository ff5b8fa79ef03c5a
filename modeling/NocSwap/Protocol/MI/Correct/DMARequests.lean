import NocSwap.Protocol.MI.Correct.Invariant

/-!
# MI_example: the requests of DMA controllers

A DMA request to a line is one token, which is queued, requested, taken by the directory or answered.
-/

namespace NocSwap.MIExample

open Function List MsgChannel

open Ruby (DataBlock)

variable {B : Nat}

inductive DMAToken (B : Nat)
  /-- In the mandatory queue. -/
  | queued (m : SequencerMsg B)
  /-- On its way to the directory. -/
  | requested (m : DMARequestMsg B)
  /-- With the directory, which owes an answer. -/
  | taken (t : DirTBE B)
  /-- Answered. -/
  | answered (type : DMAResponseType)

def DirState.owesDMA : DirState → Bool
  | .M_DRD | .M_DWR | .M_DWRI | .ID | .ID_W => true
  | _ => false

def DirLine.tokens (k : Nat) (l : DirLine B) : Multiset (DMAToken B) :=
  match l.tbe with
  | some t => if t.dmaRequestor = .DMA k ∧ t.tbeState.owesDMA = true then {.taken t} else 0
  | none => 0

def DMAPacket.block (pkt : DMAPacket B) : DataBlock B := (DMALine.requestMsg 0 0 pkt).dataBlk

def DMAToken.Fits (pkt : DMAPacket B) : DMAToken B → Prop
  | .queued _ => False
  | .requested m =>
    m.type = (if pkt.write = true then .WRITE else .READ) ∧ m.dataBlk = pkt.block ∧
      m.len = pkt.data.length
  | .taken t =>
    if pkt.write = true then
      (t.tbeState = .M_DWR ∨ t.tbeState = .M_DWRI ∨ t.tbeState = .ID_W) ∧ t.dataBlk = pkt.block ∧
        t.len = pkt.data.length
    else t.tbeState = .M_DRD ∨ t.tbeState = .ID
  | .answered type => type = if pkt.write = true then .ACK else .DATA

def DMAPacket.busy (pkt : DMAPacket B) : DMAState := if pkt.write = true then .BUSY_WR else .BUSY_RD

inductive DMAOk (k x : Nat) (l : DMALine B) (ts : Multiset (DMAToken B)) : Prop
  | free (hr : l.request = none) (ht : l.tbe = none) (h : ts = 0)
  | queued {r : DMARequest B} (hr : l.request = some r) (ht : l.tbe = none)
      (h : ts = {.queued (DMALine.requestMsg k x r.pkt)})
  | busy {r : DMARequest B} {a : DMAToken B} (hr : l.request = some r)
      (hs : l.getState = r.pkt.busy) (h : ts = {a}) (ha : a.Fits r.pkt)

inductive DMAMove (k x : Nat) (l : DMALine B) (ts : Multiset (DMAToken B)) (l' : DMALine B)
    (ts' : Multiset (DMAToken B)) : Prop
  | idle (hl : l' = l) (h' : ts' = ts)
  | make {p : DMAPacket B} (hr : l.request = none)
      (hl : l' = { l with request := some ⟨p, 0, p.data.length⟩ })
      (h' : ts' = .queued (DMALine.requestMsg k x p) ::ₘ ts)
  | send {m : SequencerMsg B} {n : DMARequestMsg B} {u : Multiset (DMAToken B)}
      (hm : n.type = (if m.write = true then .WRITE else .READ) ∧ n.dataBlk = m.dataBlk ∧
        n.len = m.len)
      (hl : l' = { l with
        tbe := some { tbeState := if m.write = true then .BUSY_WR else .BUSY_RD } })
      (ht : l.tbe = none) (h : ts = .queued m ::ₘ u) (h' : ts' = .requested n ::ₘ u)
  | take {m : DMARequestMsg B} {t : DirTBE B} {u : Multiset (DMAToken B)}
      (ht : if m.type = .WRITE then
          (t.tbeState = .M_DWR ∨ t.tbeState = .ID_W) ∧ t.dataBlk = m.dataBlk ∧ t.len = m.len
        else t.tbeState = .M_DRD ∨ t.tbeState = .ID)
      (hl : l' = l) (h : ts = .requested m ::ₘ u) (h' : ts' = .taken t ::ₘ u)
  | overwrite {t : DirTBE B} {u : Multiset (DMAToken B)} (ht : t.tbeState = .M_DWR) (hl : l' = l)
      (h : ts = .taken t ::ₘ u) (h' : ts' = .taken { t with tbeState := .M_DWRI } ::ₘ u)
  | answer {t : DirTBE B} {type : DMAResponseType} {u : Multiset (DMAToken B)}
      (ht : (t.tbeState = .M_DRD ∨ t.tbeState = .ID) ∧ type = .DATA ∨
        (t.tbeState = .M_DWRI ∨ t.tbeState = .ID_W) ∧ type = .ACK)
      (hl : l' = l) (h : ts = .taken t ::ₘ u) (h' : ts' = .answered type ::ₘ u)
  | callback {a : DMAResponseType} (hl : l' = {}) (h : ts = .answered a ::ₘ ts')

variable {k x : Nat} {l : DMALine B} {ts : Multiset (DMAToken B)}

theorem DMAOk.eq_of_cons {a : DMAToken B} (h : DMAOk k x l (a ::ₘ ts)) :
    ts = 0 ∧ ∃ r, l.request = some r ∧
      (l.tbe = none ∧ a = .queued (DMALine.requestMsg k x r.pkt) ∨
        l.getState = r.pkt.busy ∧ a.Fits r.pkt) := by
  cases h with
  | free hr ht h => exact absurd h Multiset.cons_ne_zero
  | @queued r hr ht h =>
    obtain ⟨ha, hts⟩ := (Multiset.singleton_eq_cons_iff _).mp h.symm
    exact ⟨hts, r, hr, .inl ⟨ht, ha.symm⟩⟩
  | @busy r b hr hs h hb =>
    obtain ⟨ha, hts⟩ := (Multiset.singleton_eq_cons_iff _).mp h.symm
    exact ⟨hts, r, hr, .inr ⟨hs, ha ▸ hb⟩⟩

theorem DMAPacket.len_eq (k x : Nat) (pkt : DMAPacket B) :
    (DMALine.requestMsg k x pkt).len = pkt.data.length := if_pos pkt.fits

theorem DMAOk.of_cons {a : DMAToken B} (h : DMAOk k x l (a ::ₘ ts)) (ha : ∀ m, a ≠ .queued m) :
    ts = 0 ∧ ∃ r, l.request = some r ∧ l.getState = r.pkt.busy ∧ a.Fits r.pkt := by
  obtain ⟨hts, r, hr, ⟨-, rfl⟩ | hbusy⟩ := h.eq_of_cons
  · exact absurd rfl (ha _)
  · exact ⟨hts, r, hr, hbusy⟩

theorem DMAMove.ok {l' : DMALine B} {ts' : Multiset (DMAToken B)}
    (h : DMAOk k x l ts) (hmove : DMAMove k x l ts l' ts') : DMAOk k x l' ts' := by
  cases hmove with
  | idle hl h' =>
    subst hl h'
    exact h
  | make hr hl h' =>
    subst hl h'
    cases h with
    | free hr' ht hts => exact .queued rfl ht (by rw [hts]; rfl)
    | queued hr' | busy hr' => cases hr.symm.trans hr'
  | send hm hl ht hts h' =>
    subst hl h' hts
    obtain ⟨rfl, r, hr, ⟨-, hq⟩ | ⟨-, hfalse⟩⟩ := h.eq_of_cons
    · cases hq
      refine .busy hr ?_ rfl ⟨hm.1, hm.2.1, hm.2.2.trans (DMAPacket.len_eq ..)⟩
      rfl
    · exact hfalse.elim
  | @take m t u ht hl hts h' =>
    subst hl h' hts
    obtain ⟨rfl, r, hr, hs, htype, hblk, hlen⟩ := h.of_cons (by simp)
    refine .busy hr hs rfl ?_
    show if _ then _ else _
    rw [htype] at ht
    cases hw : r.pkt.write with
    | true =>
      simp only [hw, if_true] at ht ⊢
      obtain ⟨hst, hb, hl⟩ := ht
      exact ⟨hst.imp_right .inr, hb.trans hblk, hl.trans hlen⟩
    | false => simpa [hw] using ht
  | @overwrite t u ht hl hts h' =>
    subst hl h' hts
    obtain ⟨rfl, r, hr, hs, hfits⟩ := h.of_cons (by simp)
    refine .busy hr hs rfl ?_
    unfold DMAToken.Fits at hfits ⊢
    cases hw : r.pkt.write with
    | true =>
      rw [hw, if_pos rfl] at hfits
      rw [if_pos rfl]
      exact ⟨.inr (.inl rfl), hfits.2⟩
    | false => simp [hw, ht] at hfits
  | @answer t type u ht hl hts h' =>
    subst hl h' hts
    obtain ⟨rfl, r, hr, hs, hfits⟩ := h.of_cons (by simp)
    refine .busy hr hs rfl ?_
    unfold DMAToken.Fits at hfits ⊢
    cases hw : r.pkt.write with
    | true =>
      rcases ht with ⟨hst | hst, -⟩ | ⟨-, rfl⟩
      · simp [hw, hst] at hfits
      · simp [hw, hst] at hfits
      · rfl
    | false =>
      rcases ht with ⟨-, rfl⟩ | ⟨hst | hst, -⟩
      · rfl
      · simp [hw, hst] at hfits
      · simp [hw, hst] at hfits
  | callback hl hts =>
    subst hl hts
    obtain ⟨rfl, -⟩ := h.of_cons (by simp)
    exact .free rfl rfl rfl

namespace System

section Tokens

variable (k x : Nat)

def queuedToken (m : SequencerMsg B) : Option (DMAToken B) :=
  if m.dma = k ∧ m.lineAddress = x then some (.queued m) else none

def requestedToken (m : DMARequestMsg B) : Option (DMAToken B) :=
  if m.requestor = .DMA k ∧ m.lineAddress = x then some (.requested m) else none

def answeredToken (m : DMAResponseMsg B) : Option (DMAToken B) :=
  if m.destination = .DMA k ∧ m.lineAddress = x then some (.answered m.type) else none

def tokens (s : System B) : Multiset (DMAToken B) :=
  s.dmaMandatory.content.filterMap (queuedToken k x) +
    s.dmaRequests.content.filterMap (requestedToken k x) + (s.dir x).tokens k +
    s.dmaResponses.content.filterMap (answeredToken k x)

end Tokens

variable {P : Params} {s s' : System B} {l : Label B} {k x : Nat}

variable {m : DMAResponseMsg B}

theorem answered_mem_tokens (hm : m ∈ s.dmaResponses.content)
    (hd : m.destination = .DMA k) (hx : m.lineAddress = x) : .answered m.type ∈ s.tokens k x := by
  unfold tokens
  refine Multiset.mem_add.mpr (.inr ((Multiset.mem_filterMap ..).mpr ⟨m, hm, ?_⟩))
  exact if_pos ⟨hd, hx⟩

theorem dmaMove_of_eq (hdma : s'.dma = s.dma)
    (hq : s'.dmaMandatory.content = s.dmaMandatory.content)
    (hr : s'.dmaRequests.content = s.dmaRequests.content)
    (hd : (s'.dir x).tokens k = (s.dir x).tokens k)
    (ha : s'.dmaResponses.content = s.dmaResponses.content) :
    DMAMove k x (s.dma k x) (s.tokens k x) (s'.dma k x) (s'.tokens k x) := by
  refine .idle (by rw [hdma]) ?_
  unfold tokens
  rw [hq, hr, hd, ha]

/-- A transition of a directory does nothing to the request, writes the TBE to the memory, or
answers. -/
inductive DirTokens (k x : Nat) (l : DirLine B) (w : DirWork B) : Prop
  | same (hl : w.line.tokens k = l.tokens k) (hr : w.dmaResponses.filterMap (answeredToken k x) = [])
  | overwrite {t : DirTBE B} (ht : t.tbeState = .M_DWR) (hl : l.tokens k = {.taken t})
      (hl' : w.line.tokens k = {.taken { t with tbeState := .M_DWRI }})
      (hr : w.dmaResponses.filterMap (answeredToken k x) = [])
  | answer {t : DirTBE B} {type : DMAResponseType}
      (ht : (t.tbeState = .M_DRD ∨ t.tbeState = .ID) ∧ type = .DATA ∨
        (t.tbeState = .M_DWRI ∨ t.tbeState = .ID_W) ∧ type = .ACK)
      (hl : l.tokens k = {.taken t}) (hl' : w.line.tokens k = 0)
      (hr : w.dmaResponses.filterMap (answeredToken k x) = [.answered type])

theorem DirLine.tokens_eq_zero {l : DirLine B} (h : ∀ t ∈ l.tbe, t.tbeState.owesDMA = false) :
    l.tokens k = 0 := by
  unfold DirLine.tokens
  cases ht : l.tbe with
  | none => rfl
  | some t => simp [h t ht]

theorem DirLine.tbeState_eq {l : DirLine B} (ht : l.tbe = some t) : t.tbeState = l.getState := by
  unfold DirLine.getState
  rw [ht]

variable {c : DirContext B} {w : DirWork B}

theorem dirTokens_answer {l : DirLine B}
    {type : DMAResponseType} {b : DataBlock B} (htbe : l.tbe = some t)
    (ht : (t.tbeState = .M_DRD ∨ t.tbeState = .ID) ∧ type = .DATA ∨
      (t.tbeState = .M_DWRI ∨ t.tbeState = .ID_W) ∧ type = .ACK)
    (hw : w.line.tokens k = 0)
    (hr : w.dmaResponses = [Directory.dmaResponse c type t.dmaRequestor b]) :
    DirTokens k c.address l w := by
  have howes : t.tbeState.owesDMA = true := by
    rcases ht with ⟨ht | ht, -⟩ | ⟨ht | ht, -⟩ <;> rw [ht] <;> rfl
  by_cases hk : t.dmaRequestor = .DMA k
  · refine .answer ht ?_ hw ?_
    · simp [DirLine.tokens, htbe, hk, howes]
    · simp [hr, answeredToken, Directory.dmaResponse, hk]
  · refine .same ?_ ?_
    · rw [hw]
      simp [DirLine.tokens, htbe, hk]
    · simp [hr, answeredToken, Directory.dmaResponse, hk]

variable {event : DirEvent}

theorem dirStep_tokens {l : DirLine B} (h : Directory.Step c l event w) (hok : l.Ok)
    (hm : ∀ r, c.inMsg ≠ .dmaRequest r) : DirTokens k c.address l w := by
  have hnone : l.getState.hasTBE = false → l.tokens k = 0 := by
    intro hs
    have htbe := hok.hasTBE
    rw [← hok.getState_eq, hs] at htbe
    refine DirLine.tokens_eq_zero fun t ht => ?_
    rw [ht] at htbe
    cases htbe
  cases h with
  | fetch | forward | nack | data | recycleRequest | recycleDMARequest => exact .same rfl rfl
  | writeback hm hs =>
    refine .same ?_ rfl
    rw [hnone (by rw [hs]; rfl)]
    rfl
  | writebackRead hm ht hs =>
    refine dirTokens_answer ht (.inl ⟨.inl ?_, rfl⟩) ?_ rfl
    · rw [DirLine.tbeState_eq ht, hs]
    · exact DirLine.tokens_eq_zero fun t ht => by cases ht; rfl
  | @overwrite m t hm ht hs =>
    have hst : t.tbeState = .M_DWR := (DirLine.tbeState_eq ht).trans hs
    by_cases hk : t.dmaRequestor = .DMA k
    · refine .overwrite hst ?_ ?_ rfl
      · simp [DirLine.tokens, ht, hk, hst, DirState.owesDMA]
      · simp [DirLine.tokens, hk, DirState.owesDMA]
    · refine .same ?_ rfl
      simp [DirLine.tokens, ht, hk]
  | ack hm hs =>
    refine .same ?_ rfl
    rw [DirLine.tokens_eq_zero (l := l) fun t ht => ?_]
    · rfl
    · rw [DirLine.tbeState_eq ht]
      rcases hs with hs | hs <;> rw [hs] <;> rfl
  | ackWrite hm ht hs =>
    refine dirTokens_answer ht (.inr ⟨.inl ?_, rfl⟩) rfl rfl
    rw [DirLine.tbeState_eq ht, hs]
  | dmaData hm ht hs =>
    refine dirTokens_answer ht (.inl ⟨.inr ?_, rfl⟩) rfl rfl
    rw [DirLine.tbeState_eq ht, hs]
  | dmaAck hm ht hs =>
    refine dirTokens_answer ht (.inr ⟨.inr ?_, rfl⟩) rfl rfl
    rw [DirLine.tbeState_eq ht, hs]
  | dmaRead hm' | dmaWrite hm' | dmaInv _ hm' => exact absurd hm' (hm _)

variable {d : Nat}

theorem tokens_applyDir : (s.applyDir d x w).tokens k x =
      s.dmaMandatory.content.filterMap (queuedToken k x) +
        (if DirPort.dmaRequestQueue_in ∈ w.dequeued then s.dmaRequests.pop (dmaRequestPort d)
          else s.dmaRequests).content.filterMap (requestedToken k x) + w.line.tokens k +
        s.dmaResponses.content.filterMap (answeredToken k x) +
        (w.dmaResponses.filterMap (answeredToken k x) : Multiset (DMAToken B)) := by
  have hreq : (s.applyDir d x w).dmaRequests.content =
      (if DirPort.dmaRequestQueue_in ∈ w.dequeued then s.dmaRequests.pop (dmaRequestPort d)
        else s.dmaRequests).content := by
    simp only [applyDir]
    split
    · rfl
    · split
      · exact content_recycle ..
      · rfl
  unfold tokens
  rw [hreq]
  simp [applyDir, setDir, Multiset.filterMap_add, add_assoc]

theorem dirStep_dma {l : DirLine B} (h : Directory.Step c l event w) :
    (∀ m ∈ w.dmaResponses, m.lineAddress = c.address) ∧
      (.dmaRequestQueue_in ∈ w.dequeued → ∃ m, c.inMsg = .dmaRequest m) := by
  cases h with
  | dmaRead hm | dmaWrite hm | dmaInv _ hm => simp [hm]
  | _ => simp [Directory.dmaResponse]

theorem answeredToken_of_ne (h : m.lineAddress ≠ x) :
    answeredToken k x m = none := if_neg fun hm => h hm.2

theorem requestedToken_of_ne {m : DMARequestMsg B} (h : m.lineAddress ≠ x) :
    requestedToken k x m = none := if_neg fun hm => h hm.2

variable {y : Nat}

theorem tokens_applyDir_of_ne (hx : x ≠ y) {m : DirInMsg B}
    (hw : Directory.Step (s.dirContext P d y m) (s.dir y) event w)
    (hm : ∀ r, m = .dmaRequest r → s.dmaRequests.head (dmaRequestPort d) = some r ∧
      r.lineAddress = y) :
    (s.applyDir d y w).tokens k x = s.tokens k x := by
  obtain ⟨haddr, hdeq⟩ := dirStep_dma hw
  have hresp : w.dmaResponses.filterMap (answeredToken k x) = [] := by
    refine filterMap_eq_nil_iff.mpr fun m hm => answeredToken_of_ne ?_
    rw [haddr m hm]
    exact hx.symm
  have hreq : (s.applyDir d y w).dmaRequests.content.filterMap (requestedToken k x) =
      s.dmaRequests.content.filterMap (requestedToken k x) := by
    simp only [applyDir]
    split
    case isTrue hd =>
      obtain ⟨r, hr⟩ := hdeq hd
      obtain ⟨hhead, hy⟩ := hm r hr
      exact filterMap_content_of_none hhead (requestedToken_of_ne (hy.trans_ne hx.symm))
    case isFalse =>
      split
      · rw [content_recycle]
      · rfl
  unfold tokens
  rw [hreq]
  simp [applyDir, setDir, Multiset.filterMap_add, hresp, update_of_ne hx]

theorem dmaMove_applyDir (hok : (s.dir y).Ok) {m : DirInMsg B}
    (hw : Directory.Step (s.dirContext P d y m) (s.dir y) event w) (hm : ∀ r, m ≠ .dmaRequest r) :
    DMAMove k x (s.dma k x) (s.tokens k x) ((s.applyDir d y w).dma k x)
      ((s.applyDir d y w).tokens k x) := by
  rcases eq_or_ne x y with rfl | hx
  · have hnot : DirPort.dmaRequestQueue_in ∉ w.dequeued := fun hd => by
      obtain ⟨r, hr⟩ := (dirStep_dma hw).2 hd
      exact hm r hr
    have htok : (s.applyDir d x w).tokens k x = _ := tokens_applyDir
    rw [if_neg hnot] at htok
    rw [htok]
    unfold tokens
    cases dirStep_tokens (k := k) hw hok hm with
    | same hl hr =>
      rw [show filterMap (answeredToken k x) w.dmaResponses = [] from hr, hl]
      exact .idle rfl (by simp)
    | overwrite ht hl hl' hr =>
      rw [show filterMap (answeredToken k x) w.dmaResponses = [] from hr, hl, hl']
      refine .overwrite ht rfl (u := s.dmaMandatory.content.filterMap (queuedToken k x) +
        s.dmaRequests.content.filterMap (requestedToken k x) +
        s.dmaResponses.content.filterMap (answeredToken k x)) ?_ ?_
      · rw [← Multiset.singleton_add]
        abel
      · rw [← Multiset.singleton_add, Multiset.coe_nil]
        abel
    | answer ht hl hl' hr =>
      rw [show filterMap (answeredToken k x) w.dmaResponses = _ from hr, hl, hl']
      refine .answer ht rfl (u := s.dmaMandatory.content.filterMap (queuedToken k x) +
        s.dmaRequests.content.filterMap (requestedToken k x) +
        s.dmaResponses.content.filterMap (answeredToken k x)) ?_ ?_
      · rw [← Multiset.singleton_add]
        abel
      · rw [← Multiset.singleton_add, Multiset.coe_singleton]
        abel
  · refine .idle rfl (tokens_applyDir_of_ne hx hw fun r hr => absurd hr (hm r))

theorem dmaMove_take {m : DMARequestMsg B}
    (hhead : s.dmaRequests.head (dmaRequestPort d) = some m) (hy : m.lineAddress = y)
    (hnone : (s.dir y).tbe = none) (hdeq : DirPort.dmaRequestQueue_in ∈ w.dequeued)
    (htbe : w.line.tbe = some t) (hreq : t.dmaRequestor = m.requestor)
    (ht : if m.type = .WRITE then
        (t.tbeState = .M_DWR ∨ t.tbeState = .ID_W) ∧ t.dataBlk = m.dataBlk ∧ t.len = m.len
      else t.tbeState = .M_DRD ∨ t.tbeState = .ID)
    (hresp : w.dmaResponses = []) (hx : x = y) :
    DMAMove k x (s.dma k x) (s.tokens k x) ((s.applyDir d y w).dma k x)
      ((s.applyDir d y w).tokens k x) := by
  subst hx
  have howes : t.tbeState.owesDMA = true := by
    split at ht
    · rcases ht.1 with hs | hs <;> rw [hs] <;> rfl
    · rcases ht with hs | hs <;> rw [hs] <;> rfl
  have htok : (s.applyDir d x w).tokens k x = _ := tokens_applyDir
  have hdir : (s.dir x).tokens k = 0 :=
    DirLine.tokens_eq_zero fun t ht => by cases hnone.symm.trans ht
  rw [if_pos hdeq, hresp] at htok
  rw [htok]
  unfold tokens
  rw [hdir]
  by_cases hk : m.requestor = .DMA k
  · have hpop := filterMap_content_of_some (f := requestedToken k x) hhead
      (if_pos ⟨hk, hy⟩)
    have hline : w.line.tokens k = {.taken t} := by
      simp [DirLine.tokens, htbe, hreq.trans hk, howes]
    rw [hpop, hline]
    refine .take ht rfl (u := s.dmaMandatory.content.filterMap (queuedToken k x) +
      (s.dmaRequests.pop (dmaRequestPort d)).content.filterMap (requestedToken k x) +
      s.dmaResponses.content.filterMap (answeredToken k x)) ?_ ?_
    · rw [← Multiset.singleton_add, ← Multiset.singleton_add]
      abel
    · rw [← Multiset.singleton_add, filterMap_nil, Multiset.coe_nil]
      abel
  · have hpop := filterMap_content_of_none (f := requestedToken k x) hhead
      (if_neg fun h => hk h.1)
    have hline : w.line.tokens k = 0 := by
      simp [DirLine.tokens, htbe, hreq, hk]
    rw [hpop, hline]
    exact .idle rfl (by simp)

theorem dmaMove_dmaRequestIn (hok : s.Ok P) {m : DMARequestMsg B}
    (hm : s.dmaRequests.head (dmaRequestPort d) = some m)
    (hw : Directory.Step (s.dirContext P d m.lineAddress (.dmaRequest m)) (s.dir m.lineAddress)
      (Directory.dmaRequestEvent m.type) w) :
    DMAMove k x (s.dma k x) (s.tokens k x) ((s.applyDir d m.lineAddress w).dma k x)
      ((s.applyDir d m.lineAddress w).tokens k x) := by
  rcases eq_or_ne x m.lineAddress with hx | hx
  · have hnone : (s.dir m.lineAddress).getState.hasTBE = false →
        (s.dir m.lineAddress).tbe = none := by
      intro hs
      have htbe := (hok.dir m.lineAddress).hasTBE
      rw [← (hok.dir m.lineAddress).getState_eq, hs] at htbe
      exact Option.isSome_eq_false_iff.mp htbe |> Option.isNone_iff_eq_none.mp
    generalize hev : Directory.dmaRequestEvent m.type = event at hw
    cases hw with
    | @dmaRead m' hm' hs =>
      cases hm'
      refine dmaMove_take hm rfl (hnone (by rw [hs]; rfl)) (by simp) rfl rfl ?_ rfl hx
      cases ht : m.type with
      | READ => exact .inr rfl
      | WRITE =>
        rw [ht] at hev
        cases hev
    | @dmaWrite m' hm' hs =>
      cases hm'
      refine dmaMove_take hm rfl (hnone (by rw [hs]; rfl)) (by simp) rfl rfl ?_ rfl hx
      cases ht : m.type with
      | READ =>
        rw [ht] at hev
        cases hev
      | WRITE => exact ⟨.inr rfl, rfl, rfl⟩
    | @dmaInv _ next m' o hev' hm' hs =>
      cases hm'
      refine dmaMove_take hm rfl (hnone (by rw [hs]; rfl)) (by simp) rfl rfl ?_ rfl hx
      cases ht : m.type with
      | READ =>
        rcases hev' with ⟨-, rfl⟩ | ⟨rfl, -⟩
        · exact .inl rfl
        · rw [ht] at hev
          cases hev
      | WRITE =>
        rcases hev' with ⟨rfl, -⟩ | ⟨-, rfl⟩
        · rw [ht] at hev
          cases hev
        · exact ⟨.inl rfl, rfl, rfl⟩
    | recycleRequest | recycleDMARequest =>
      refine dmaMove_of_eq rfl rfl (by simp [applyDir]) ?_ ?_
      · simp [applyDir, setDir, hx]
      · simp [applyDir]
    | fetch hm' | forward hm' | nack hm' | writeback hm' | writebackRead hm' | overwrite hm'
    | data hm' | ack hm' | ackWrite hm' | dmaData hm' | dmaAck hm' => cases hm'
  · refine .idle rfl (tokens_applyDir_of_ne hx hw fun r hr => ?_)
    cases hr
    exact ⟨hm, rfl⟩

variable {j : Nat}

theorem setDMA_of_ne {line : DMALine B} (h : ¬ (k = j ∧ x = y)) :
    (s.setDMA j y line).dma k x = s.dma k x := by
  simp only [setDMA]
  rcases eq_or_ne k j with rfl | hk
  · have hx : x ≠ y := fun hx => h ⟨rfl, hx⟩
    rw [update_self, update_of_ne hx]
  · rw [update_of_ne hk]

theorem dmaMove_makeDMARequest (pkt : DMAPacket B) (hr : (s.dma j y).request = none) :
    let s' := { s.setDMA j y { s.dma j y with request := some ⟨pkt, 0, pkt.data.length⟩ } with
      dmaMandatory := s.dmaMandatory.send [DMALine.requestMsg j y pkt] }
    DMAMove k x (s.dma k x) (s.tokens k x) (s'.dma k x) (s'.tokens k x) := by
  intro s'
  by_cases h : k = j ∧ x = y
  · obtain ⟨rfl, rfl⟩ := h
    have hnew : queuedToken k x (DMALine.requestMsg k x pkt) =
        some (.queued (DMALine.requestMsg k x pkt)) := if_pos ⟨rfl, rfl⟩
    refine .make (p := pkt) hr (by simp [s', setDMA]) ?_
    simp only [s', tokens, setDMA]
    rw [filterMap_content_send, filterMap_cons_some hnew, filterMap_nil,
      Multiset.coe_singleton, ← Multiset.singleton_add]
    abel
  · have hnew : queuedToken k x (DMALine.requestMsg j y pkt) = none :=
      if_neg fun hm => h ⟨hm.1.symm, hm.2.symm⟩
    refine .idle (setDMA_of_ne h) ?_
    simp only [s', tokens, setDMA]
    rw [filterMap_content_send, filterMap_cons_none hnew, filterMap_nil,
      Multiset.coe_nil, add_zero]

theorem tokens_applyDMA {w : DMAWork B} : (s.applyDMA j y w).tokens k x =
      (if DMAPort.dmaRequestQueue_in ∈ w.dequeued then s.dmaMandatory.pop (dmaMandatoryPort j)
        else s.dmaMandatory).content.filterMap (queuedToken k x) +
      (w.requests.filterMap (requestedToken k x) : Multiset (DMAToken B)) +
      s.dmaRequests.content.filterMap (requestedToken k x) + (s.dir x).tokens k +
      (if DMAPort.dmaResponseQueue_in ∈ w.dequeued then s.dmaResponses.pop (dmaResponsePort j)
        else s.dmaResponses).content.filterMap (answeredToken k x) := by
  have hqueue : (s.applyDMA j y w).dmaMandatory.content =
      (if DMAPort.dmaRequestQueue_in ∈ w.dequeued then s.dmaMandatory.pop (dmaMandatoryPort j)
        else s.dmaMandatory).content := by
    simp only [applyDMA]
    split
    · rfl
    · split
      · exact content_recycle ..
      · split
        · exact content_requeueAll ..
        · rfl
  unfold tokens
  rw [hqueue]
  simp only [applyDMA, setDMA, content_send, Multiset.filterMap_add, Multiset.filterMap_coe]
  abel

theorem dmaMove_dmaMandatoryIn {m : SequencerMsg B} {w : DMAWork B}
    (hm : s.dmaMandatory.head (dmaMandatoryPort j) = some m)
    (hw : DMA.Step (s.dmaContext P j m.lineAddress (.request m)) (s.dma j m.lineAddress)
      (DMA.requestEvent m) w) :
    DMAMove k x (s.dma k x) (s.tokens k x) ((s.applyDMA j m.lineAddress w).dma k x)
      ((s.applyDMA j m.lineAddress w).tokens k x) := by
  have hj : m.dma = j := by simpa [dmaMandatoryPort] using pos_of_head hm
  rw [tokens_applyDMA]
  generalize hev : DMA.requestEvent m = event at hw
  cases hw with
  | @send _ type next m' hev' hm' ht =>
    cases hm'
    have hwrite : type = (if m.write = true then .WRITE else .READ) ∧
        next = if m.write = true then .BUSY_WR else .BUSY_RD := by
      unfold DMA.requestEvent at hev
      cases hwr : m.write with
      | true =>
        simp only [hwr, if_true] at hev ⊢
        rcases hev' with ⟨rfl, -⟩ | ⟨-, h⟩
        · cases hev
        · exact h
      | false =>
        simp only [hwr, Bool.false_eq_true, if_false] at hev ⊢
        rcases hev' with ⟨-, h⟩ | ⟨rfl, -⟩
        · exact h
        · cases hev
    obtain ⟨rfl, rfl⟩ := hwrite
    by_cases h : k = j ∧ x = m.lineAddress
    · obtain ⟨rfl, rfl⟩ := h
      have hpop := filterMap_content_of_some (f := queuedToken k m.lineAddress) hm
        (if_pos ⟨hj, rfl⟩)
      have hnew : ∀ type, requestedToken k m.lineAddress
          (DMA.dmaRequest (s.dmaContext P k m.lineAddress (.request m)) type m) =
            some (.requested (DMA.dmaRequest _ type m)) := fun _ => if_pos ⟨rfl, rfl⟩
      refine .send (m := m) (n := DMA.dmaRequest (s.dmaContext P k m.lineAddress (.request m))
        (if m.write = true then .WRITE else .READ) m) (u := (s.dmaMandatory.pop
        (dmaMandatoryPort k)).content.filterMap (queuedToken k m.lineAddress) +
          s.dmaRequests.content.filterMap (requestedToken k m.lineAddress) +
            (s.dir m.lineAddress).tokens k + s.dmaResponses.content.filterMap
              (answeredToken k m.lineAddress)) ⟨rfl, rfl, rfl⟩ ?_ ht ?_ ?_
      · simp [applyDMA, setDMA]
      · unfold tokens
        rw [hpop]
        simp
      · simp only [mem_singleton, if_true, filterMap_cons_some (hnew _),
          filterMap_nil, Multiset.coe_singleton, reduceCtorEq, if_false]
        rw [← Multiset.singleton_add]
        abel
    · have hnew : ∀ type, requestedToken k x
          (DMA.dmaRequest (s.dmaContext P j m.lineAddress (.request m)) type m) = none :=
        fun _ => if_neg fun hr => h ⟨(MachineID.DMA.inj hr.1).symm, hr.2.symm⟩
      have hpop := filterMap_content_of_none (f := queuedToken k x) hm
        (if_neg fun hq => h ⟨hq.1.symm.trans hj, hq.2.symm⟩)
      refine .idle (setDMA_of_ne h) ?_
      simp [hpop, hnew, tokens]
  | stall =>
    refine .idle ?_ (by simp [tokens])
    by_cases h : k = j ∧ x = m.lineAddress
    · obtain ⟨rfl, rfl⟩ := h
      simp [applyDMA, setDMA]
    · exact setDMA_of_ne h
  | data hm' => cases hm'
  | ack =>
    unfold DMA.requestEvent at hev
    split at hev <;> cases hev

theorem dmaMove_dmaResponseIn {w : DMAWork B}
    (hm : s.dmaResponses.head (dmaResponsePort j) = some m)
    (hw : DMA.Step (s.dmaContext P j m.lineAddress (.response m)) (s.dma j m.lineAddress)
      (DMA.responseEvent m.type) w) :
    DMAMove k x (s.dma k x) (s.tokens k x) ((s.applyDMA j m.lineAddress w).dma k x)
      ((s.applyDMA j m.lineAddress w).tokens k x) := by
  have hj : m.destination = .DMA j := by simpa [dmaResponsePort] using pos_of_head hm
  have hwork : w.line = {} ∧ w.requests = [] ∧ w.dequeued = [.dmaResponseQueue_in] := by
    generalize hev : DMA.responseEvent m.type = event at hw
    cases hw with
    | data | ack => exact ⟨rfl, rfl, rfl⟩
    | send hev' hm' => cases hm'
    | stall hev' =>
      subst hev
      cases ht : m.type <;> simp [DMA.responseEvent, ht] at hev'
  obtain ⟨hline, hreq, hdeq⟩ := hwork
  rw [tokens_applyDMA, hreq, hdeq]
  by_cases h : k = j ∧ x = m.lineAddress
  · obtain ⟨rfl, rfl⟩ := h
    have hpop := filterMap_content_of_some (f := answeredToken k m.lineAddress) hm
      (if_pos ⟨hj, rfl⟩)
    refine .callback (a := m.type) ?_ ?_
    · simp [applyDMA, setDMA, hline]
    · unfold tokens
      rw [hpop]
      simp
  · have hpop := filterMap_content_of_none (f := answeredToken k x) hm
      (if_neg fun hq => h ⟨(MachineID.DMA.inj (hj.symm.trans hq.1)).symm, hq.2.symm⟩)
    refine .idle (setDMA_of_ne h) ?_
    simp [hpop, tokens]

theorem StepTo.dmaMove (hok : s.Ok P) (hs : StepTo P s l s') (k x : Nat) :
    DMAMove k x (s.dma k x) (s.tokens k x) (s'.dma k x) (s'.tokens k x) := by
  have hsame : ∀ s', SameContent s s' →
      DMAMove k x (s.dma k x) (s.tokens k x) (s'.dma k x) (s'.tokens k x) := fun s' hs' =>
    dmaMove_of_eq hs'.dma hs'.dmaMandatory hs'.dmaRequests (by rw [hs'.dir]) hs'.dmaResponses
  cases hs with
  | idle | makeRequest | delayForward | delayResponse | forwardIn | responseIn | mandatoryIn
  | replacement | serveRead | serveWrite => exact .idle rfl rfl
  | requestIn hm hev hw | memoryIn hm hw =>
    exact dmaMove_applyDir (hok.dir _) hw fun r hr => by cases hr
  | dmaRequestIn hm hw => exact dmaMove_dmaRequestIn hok hm hw
  | makeDMARequest hx hr => exact dmaMove_makeDMARequest _ hr
  | dmaMandatoryIn hm hw => exact dmaMove_dmaMandatoryIn hm hw
  | dmaResponseIn hm hw => exact dmaMove_dmaResponseIn hm hw
  | deliver v n => exact hsame _ (sameContent_deliver v n)
  | requeue v n => exact hsame _ (sameContent_requeue v n)

theorem run_dmaOk {memory : Nat → DataBlock B} {ls : List (Label B)}
    (hs : (init memory).run P ls = .ok s) (k x : Nat) : DMAOk k x (s.dma k x) (s.tokens k x) := by
  refine (run_induction (P := P) (p := fun _ s => DMAOk k x (s.dma k x) (s.tokens k x))
    (.free rfl rfl rfl) ?_ hs).2
  intro ls s l s' _ hinv ih hto _
  exact (hto.dmaMove hinv.ok k x).ok ih

end System

end NocSwap.MIExample
