import NocSwap.Protocol.MI.Correct.Step
import NocSwap.Protocol.MI.Correct.Token

/-!
# MI_example: the system and the protocol of its lines

The system seen at one line is a state of the protocol of that line. A transition of a cache or of a
directory is a step of the protocol at its own line and changes nothing at the others.
-/

namespace NocSwap.MIExample

open Function MsgChannel Multiset L1Line LineState MachineID Directory

open Ruby (DataBlock Callback)

variable {B : Nat}

def MachineID.cache? : MachineID → Option Nat
  | .L1Cache i => some i
  | _ => none

@[simp] theorem MachineID.cache?_eq_some {m : MachineID} {i : Nat} :
    m.cache? = some i ↔ m = .L1Cache i := by
  cases m <;> simp [cache?]

namespace System

section Line

variable (x : Nat)

/-- What a request is to line `x`. -/
def lineRequest (m : RequestMsg B) : Option (LineMsg (DataBlock B)) :=
  if m.addr = x then
    m.requestor.cache?.map fun i => if m.type = .PUTX then .putx i m.dataBlk else .getx i
  else none

/-- What a forwarded message is to line `x`. -/
def lineForward (m : RequestMsg B) : Option (LineMsg (DataBlock B)) :=
  if m.addr = x then
    m.destination.cache?.bind fun i =>
      match m.type with
      | .GETX => m.requestor.cache?.map (.fwd i)
      | .WB_ACK => some (.wbAck i)
      | .WB_NACK => some (.wbNack i)
      | .INV => some (.inv i)
      | .PUTX => none
  else none

def lineResponse (m : ResponseMsg B) : Option (LineMsg (DataBlock B)) :=
  if m.addr = x then m.destination.cache?.map fun i => .data i m.dataBlk else none

def lineMemoryRequest (r : MemoryRequest) : Option (LineMsg (DataBlock B)) :=
  if r.addr = x then
    match r.write with
    | none => some (.fetch r.originalRequestor.cache?)
    | some data => some (.write r.originalRequestor.cache? fun b => b.setData data 0)
  else none

def lineMemoryMsg (m : MemoryMsg B) : Option (LineMsg (DataBlock B)) :=
  if m.addr = x then
    match m.type with
    | .MEMORY_READ => some (.fetched m.originalRequestor.cache? m.dataBlk)
    | .MEMORY_WB => some (.written m.originalRequestor.cache?)
  else none

/-- The messages of line `x`, in any channel. -/
def lineMsgs (s : System B) : Multiset (LineMsg (DataBlock B)) :=
  s.requests.content.filterMap (lineRequest x) + s.forwards.content.filterMap (lineForward x) +
    s.responses.content.filterMap (lineResponse x) +
    (s.memoryRequests : Multiset MemoryRequest).filterMap (lineMemoryRequest x) +
    s.memoryResponses.content.filterMap (lineMemoryMsg x)

theorem mem_lineMsgs {s : System B} {a : LineMsg (DataBlock B)} :
    a ∈ s.lineMsgs x ↔ (∃ m ∈ s.requests.content, lineRequest x m = some a) ∨
      (∃ m ∈ s.forwards.content, lineForward x m = some a) ∨
      (∃ m ∈ s.responses.content, lineResponse x m = some a) ∨
      (∃ r ∈ s.memoryRequests, lineMemoryRequest x r = some a) ∨
      ∃ m ∈ s.memoryResponses.content, lineMemoryMsg x m = some a := by
  simp only [lineMsgs, mem_add, mem_filterMap, mem_coe, or_assoc]

/-- The line `x` of the system, with coherent value `v`. -/
def line (v : DataBlock B) (s : System B) : LineState (DataBlock B) where
  cache i := (s.l1 i x).abs
  dir := (s.dir x).getState
  owner := (s.dir x).entry.owner.filterMap MachineID.cache?
  memory := s.memory x
  value := v
  msgs := s.lineMsgs x

end Line

section L1

variable {s : System B} {i x y : Nat} {w : L1Work B} {v : DataBlock B}

def popL1 (i : Nat) (ports : List L1Port) (s : System B) : System B :=
  { s with
    responses :=
      if L1Port.responseNetwork_in ∈ ports then s.responses.pop (responsePort i) else s.responses
    forwards :=
      if L1Port.forwardRequestNetwork_in ∈ ports then s.forwards.pop (forwardPort i)
      else s.forwards }

theorem lineMsgs_applyL1 (y : Nat) : (s.applyL1 i x w).lineMsgs y =
      (w.requests.filterMap (lineRequest y) : Multiset (LineMsg (DataBlock B))) +
        (w.responses.filterMap (lineResponse y) : Multiset (LineMsg (DataBlock B))) +
        (s.popL1 i w.dequeued).lineMsgs y := by
  simp only [lineMsgs, applyL1, popL1, setL1, content_send, filterMap_add, filterMap_coe]
  abel

theorem line_applyL1 (v' : DataBlock B) : line x v' (s.applyL1 i x w) =
      { (line x v s).setCache i w.line.abs with
        value := v'
        msgs := (s.applyL1 i x w).lineMsgs x } := by
  unfold line setCache
  congr 1
  funext k
  rcases eq_or_ne k i with rfl | hki
  · simp [applyL1, setL1]
  · simp [applyL1, setL1, update_of_ne hki]

theorem line_applyL1_of_abs (hc : w.line.abs = (s.l1 i x).abs) :
    line x v (s.applyL1 i x w) = { line x v s with msgs := (s.applyL1 i x w).lineMsgs x } := by
  rw [line_applyL1 (v := v), hc, setCache,
    show (s.l1 i x).abs = (line x v s).cache i from rfl, update_eq_self]
  rfl

theorem line_applyL1_of_ne (hy : y ≠ x) (hm : (s.applyL1 i x w).lineMsgs y = s.lineMsgs y) :
    line y v (s.applyL1 i x w) = line y v s := by
  unfold line
  rw [hm]
  congr 1
  funext k
  rcases eq_or_ne k i with rfl | hki
  · simp [applyL1, setL1, update_of_ne hy]
  · simp [applyL1, setL1, update_of_ne hki]

variable {m : RequestMsg B}

variable {a : LineMsg (DataBlock B)}

theorem lineMsgs_popL1_forward
    (hm : s.forwards.head (forwardPort i) = some m) (ha : lineForward y m = some a) :
    s.lineMsgs y = a ::ₘ (s.popL1 i [.forwardRequestNetwork_in]).lineMsgs y := by
  unfold lineMsgs
  rw [filterMap_content_of_some hm ha]
  simp [popL1]

theorem lineMsgs_popL1_response {m : ResponseMsg B}
    (hm : s.responses.head (responsePort i) = some m) (ha : lineResponse y m = some a) :
    s.lineMsgs y = a ::ₘ (s.popL1 i [.responseNetwork_in]).lineMsgs y := by
  unfold lineMsgs
  rw [filterMap_content_of_some hm ha]
  simp [popL1]

theorem lineMsgs_popL1_nil : (s.popL1 i []).lineMsgs y = s.lineMsgs y := rfl

theorem lineMsgs_popL1_mandatory : (s.popL1 i [.mandatoryQueue_in]).lineMsgs y = s.lineMsgs y := rfl

/-- A move of the cache is a step of the protocol. -/
theorem step_applyL1 {c : CacheState (DataBlock B)} {ms : Multiset (LineMsg (DataBlock B))}
    {v' : DataBlock B}
    (hmove : LineState.CacheMove (line x v s)
      { (line x v s).setCache i c with value := v', msgs := ms })
    (hc : w.line.abs = c) (hms : (s.applyL1 i x w).lineMsgs x = ms) :
    LineState.Step (line x v s) (line x v' (s.applyL1 i x w)) := by
  subst hc hms
  rw [line_applyL1 (v := v)]
  exact .cache hmove

variable {P : Params} {event : L1Event}

/-- A cache takes a forwarded message. -/
theorem forwardIn_line (h : s.Ok P) (hm : s.forwards.head (forwardPort i) = some m)
    (hev : L1Cache.forwardEvent m.type = .ok event)
    (hw : L1Cache.Step (s.l1Context P i m.addr (.forward m)) (s.l1 i m.addr) event w) :
    LineState.Step (line m.addr v s) (line m.addr v (s.applyL1 i m.addr w)) := by
  obtain ⟨-, -, -, hreq⟩ := h.msgs.forwards m (mem_content_of_head hm)
  have hdest : m.destination = .L1Cache i := by simpa [forwardPort] using pos_of_head hm
  cases ht : m.type with
  | GETX =>
    rw [ht] at hev
    cases hev
    obtain ⟨j, hj⟩ := hreq ht
    have hpop := lineMsgs_popL1_forward (y := m.addr) (a := .fwd i j) hm (by
      simp [lineForward, hdest, ht, hj, cache?])
    have hdata : ∀ b, lineResponse m.addr
        (L1Cache.dataMsg (s.l1Context P i m.addr (.forward m)) m.requestor b) = some (.data j b) := by
      intro b
      simp [lineResponse, L1Cache.dataMsg, l1Context, hj, cache?]
    cases hw with
    | @forward e m' hm' he htbe hs =>
      cases hm'
      refine step_applyL1 (.forwardM (b := e.dataBlk) ?_ hpop) ?_ ?_
      · simp [line, L1Line.abs, getState, entryData, he, htbe, hs]
      · simp [L1Line.abs, getState, htbe]
      · simp [lineMsgs_applyL1, hdata]
    | @forwardMI t m' hm' he htbe hs =>
      cases hm'
      refine step_applyL1 (.forwardMI (b := t.dataBlk) ?_ hpop) ?_ ?_
      · simp [line, L1Line.abs, getState, tbeData, htbe, hs]
      · simp [L1Line.abs, getState]
      · simp [lineMsgs_applyL1, hdata]
    | @forwardMII t m' hm' he htbe hs =>
      cases hm'
      refine step_applyL1 (.forwardMII (b := t.dataBlk) ?_ hpop) ?_ ?_
      · simp [line, L1Line.abs, getState, tbeData, htbe, hs]
      · simp [L1Line.abs, getState, he]
      · simp [lineMsgs_applyL1, hdata]
    | loadHit hev | miss hev | replace hev => simp at hev
  | WB_ACK =>
    rw [ht] at hev
    cases hev
    have hpop := lineMsgs_popL1_forward (y := m.addr) (a := .wbAck i) hm (by
      simp [lineForward, hdest, ht, cache?])
    cases hw with
    | @wbAck t he htbe hs =>
      refine step_applyL1 (.wbAck (b := t.dataBlk) ?_ hpop) ?_ ?_
      · simp [line, L1Line.abs, getState, tbeData, htbe, hs]
      · simp [L1Line.abs, getState, he]
      · simp [lineMsgs_applyL1]
    | loadHit hev | miss hev | replace hev => simp at hev
  | WB_NACK =>
    rw [ht] at hev
    cases hev
    have hpop := lineMsgs_popL1_forward (y := m.addr) (a := .wbNack i) hm (by
      simp [lineForward, hdest, ht, cache?])
    cases hw with
    | @wbNackMI t he htbe hs =>
      refine step_applyL1 (.wbNackMI (b := t.dataBlk) ?_ hpop) ?_ ?_
      · simp [line, L1Line.abs, getState, tbeData, htbe, hs]
      · simp [L1Line.abs, getState, tbeData]
      · simp [lineMsgs_applyL1]
    | @wbNackII t he htbe hs =>
      refine step_applyL1 (.wbNackII ?_ hpop) ?_ ?_
      · simp [line, L1Line.abs, getState, htbe, hs]
      · simp [L1Line.abs, getState, he]
      · simp [lineMsgs_applyL1]
    | loadHit hev | miss hev | replace hev => simp at hev
  | INV =>
    rw [ht] at hev
    cases hev
    have hpop := lineMsgs_popL1_forward (y := m.addr) (a := .inv i) hm (by
      simp [lineForward, hdest, ht, cache?])
    cases hw with
    | @replace event e hev he htbe hs =>
      refine step_applyL1 (.replace (b := e.dataBlk) ?_) ?_ ?_
      · simp [line, L1Line.abs, getState, entryData, he, htbe, hs]
      · simp [L1Line.abs, getState, tbeData]
      · simp [lineMsgs_applyL1, lineMsgs_popL1_nil, lineRequest, L1Cache.requestMsg, l1Context,
          cache?, line]
    | inv hs =>
      have hmove := LineState.CacheMove.inv (s := line m.addr v s) hpop
      rw [line_applyL1_of_abs rfl, lineMsgs_applyL1]
      simpa using .cache hmove
    | loadHit hev | miss hev => simp at hev
  | PUTX =>
    rw [ht] at hev
    cases hev

def callbackValue (v : DataBlock B) (cbs : List (Callback B)) : DataBlock B :=
  cbs.foldl (fun _ cb => cb.after) v

/-- A cache takes its data. -/
theorem responseIn_line {m : ResponseMsg B} (hm : s.responses.head (responsePort i) = some m)
    (hw : L1Cache.Step (s.l1Context P i m.addr (.response m)) (s.l1 i m.addr) .Data w) :
    LineState.Step (line m.addr v s)
      (line m.addr (callbackValue v w.callbacks) (s.applyL1 i m.addr w)) := by
  have hdest : m.destination = .L1Cache i := by simpa [responsePort] using pos_of_head hm
  have hpop := lineMsgs_popL1_response (y := m.addr) (a := .data i m.dataBlk) hm (by
    simp [lineResponse, hdest, cache?])
  cases hw with
  | @dataLoad e t m' pkt hm' he ht hs hr hp =>
    cases hm'
    refine step_applyL1 (c := .M m.dataBlk) (.receive (.inl ?_) hpop) ?_ ?_
    · simp [line, L1Line.abs, getState, ht, hs]
    · simp [L1Line.abs, getState, entryData]
    · simp [lineMsgs_applyL1]
  | @dataStore e t m' pkt hm' he ht hs hr =>
    cases hm'
    refine step_applyL1 (.receive (.inr ?_) hpop) ?_ ?_
    · simp [line, L1Line.abs, getState, ht, hs]
    · simp [L1Line.abs, getState, entryData, L1Cache.storeLine, callbackValue]
    · simp [lineMsgs_applyL1]
  | loadHit hev | miss hev | replace hev => simp at hev

/-- A cache takes a request of its processor. -/
theorem mandatoryIn_line {m : RubyRequest} (hev : event = .Load ∨ event = .Ifetch ∨ event = .Store)
    (hw : L1Cache.Step (s.l1Context P i x (.mandatory m)) (s.l1 i x) event w) :
    LineState.Step (line x v s) (line x (callbackValue v w.callbacks) (s.applyL1 i x w)) := by
  cases hw with
  | @loadHit _ e pkt hev' he ht hs hr hp =>
    refine step_applyL1 (c := .M e.dataBlk) (.hit (b := e.dataBlk) ?_) ?_ ?_
    · simp [line, L1Line.abs, getState, entryData, he, ht, hs]
    · simp [L1Line.abs, getState, entryData, he, ht, hs]
    · simp [lineMsgs_applyL1, lineMsgs_popL1_mandatory, line, setCache]
  | @storeHit e pkt he ht hs hr =>
    refine step_applyL1 (.hit (b := e.dataBlk) ?_) ?_ ?_
    · simp [line, L1Line.abs, getState, entryData, he, ht, hs]
    · simp [L1Line.abs, getState, entryData, L1Cache.storeLine, hs, callbackValue]
    · simp [lineMsgs_applyL1, lineMsgs_popL1_mandatory, line, setCache]
  | @miss _ next hev' ht hs =>
    have hst := getState_eq_I ht hs
    refine step_applyL1 (.request (c := if next = .IS then .IS else .IM) ?_ ?_) ?_ ?_
    · simp [line, L1Line.abs, hst]
    · rcases hev' with ⟨-, rfl⟩ | ⟨-, rfl⟩ <;> simp
    · rcases hev' with ⟨-, rfl⟩ | ⟨-, rfl⟩ <;> simp [L1Line.abs, getState]
    · simp [lineMsgs_applyL1, lineMsgs_popL1_mandatory, line, lineRequest, L1Cache.requestMsg,
        l1Context, cache?]
  | replace hev' =>
    rcases hev' with rfl | rfl <;> simp at hev
  | _ => simp at hev

/-- A cache gives up a line. -/
theorem replacement_line {m : L1InMsg B}
    (hw : L1Cache.Step (s.l1Context P i x m) (s.l1 i x) .Replacement w) :
    LineState.Step (line x v s) (line x (callbackValue v w.callbacks) (s.applyL1 i x w)) := by
  cases hw with
  | drop ht hs =>
    -- an entry in `I` is as good as none
    have habs : (L1Line.abs { s.l1 i x with cacheEntry := none }) = (s.l1 i x).abs := by
      have hI : getState { s.l1 i x with cacheEntry := none } = .I :=
        getState_eq_I ht fun e he => absurd he (Option.not_mem_none e)
      unfold L1Line.abs
      rw [hI, getState_eq_I ht hs]
    rw [show callbackValue v _ = v from rfl, line_applyL1_of_abs habs, lineMsgs_applyL1]
    exact .idle
  | @replace _ e hev he ht hs =>
    refine step_applyL1 (.replace (b := e.dataBlk) ?_) ?_ ?_
    · simp [line, L1Line.abs, getState, entryData, he, ht, hs]
    · simp [L1Line.abs, getState, tbeData]
    · simp [lineMsgs_applyL1, lineMsgs_popL1_nil, lineRequest, L1Cache.requestMsg, l1Context,
        cache?, line]
  | loadHit hev | miss hev => simp at hev

theorem lineRequest_of_ne (h : m.addr ≠ y) : lineRequest y m = none := if_neg h

theorem lineForward_of_ne (h : m.addr ≠ y) : lineForward y m = none := if_neg h

theorem lineResponse_of_ne {m : ResponseMsg B} (h : m.addr ≠ y) : lineResponse y m = none :=
  if_neg h

/-- A transition of a cache leaves the other lines alone. -/
theorem applyL1_line_of_ne {m : L1InMsg B} (hy : y ≠ x)
    (hw : L1Cache.Step (s.l1Context P i x m) (s.l1 i x) event w)
    (hf : event.isForward = true → ∃ m, s.forwards.head (forwardPort i) = some m ∧ m.addr = x)
    (hr : event = .Data → ∃ m, s.responses.head (responsePort i) = some m ∧ m.addr = x) :
    line y v (s.applyL1 i x w) = line y v s := by
  apply line_applyL1_of_ne hy
  obtain ⟨hreq, hresp⟩ := hw.addr
  obtain ⟨hdf, hdr⟩ := hw.dequeued
  have hreq' : w.requests.filterMap (lineRequest y) = [] := by
    refine List.filterMap_eq_nil_iff.mpr fun m hm => lineRequest_of_ne ?_
    rw [hreq m hm]
    exact hy.symm
  have hresp' : w.responses.filterMap (lineResponse y) = [] := by
    refine List.filterMap_eq_nil_iff.mpr fun m hm => lineResponse_of_ne ?_
    rw [hresp m hm]
    exact hy.symm
  have hfwd : (s.popL1 i w.dequeued).forwards.content.filterMap (lineForward y) =
      s.forwards.content.filterMap (lineForward y) := by
    simp only [popL1]
    split
    case isTrue hd =>
      obtain ⟨m, hm, hx⟩ := hf (hdf hd)
      exact filterMap_content_of_none hm (lineForward_of_ne (hx.trans_ne hy.symm))
    case isFalse => rfl
  have hrsp : (s.popL1 i w.dequeued).responses.content.filterMap (lineResponse y) =
      s.responses.content.filterMap (lineResponse y) := by
    simp only [popL1]
    split
    case isTrue hd =>
      obtain ⟨m, hm, hx⟩ := hr (hdr hd)
      exact filterMap_content_of_none hm (lineResponse_of_ne (hx.trans_ne hy.symm))
    case isFalse => rfl
  rw [lineMsgs_applyL1, hreq', hresp', lineMsgs, hfwd, hrsp]
  simp only [coe_nil, zero_add]
  rfl

end L1

section Dir

variable {P : Params} {s : System B} {d x y : Nat} {w : DirWork B} {v : DataBlock B}

def popDir (d : Nat) (ports : List DirPort) (s : System B) : System B :=
  { s with
    requests :=
      if DirPort.requestQueue_in ∈ ports then s.requests.pop (requestPort d) else s.requests
    memoryResponses :=
      if DirPort.memQueue_in ∈ ports then s.memoryResponses.pop (memoryPort d)
      else s.memoryResponses }

theorem lineMsgs_applyDir (y : Nat) : (s.applyDir d x w).lineMsgs y =
      (w.forwards.filterMap (lineForward y) : Multiset (LineMsg (DataBlock B))) +
        (w.responses.filterMap (lineResponse y) : Multiset (LineMsg (DataBlock B))) +
        ((w.memoryRequests.filterMap (lineMemoryRequest y) : List (LineMsg (DataBlock B))) :
          Multiset (LineMsg (DataBlock B))) +
        (s.popDir d w.dequeued).lineMsgs y := by
  have hreq : (s.applyDir d x w).requests.content = (s.popDir d w.dequeued).requests.content := by
    simp only [applyDir, popDir]
    split
    case isTrue => rfl
    case isFalse =>
      split
      case isTrue => exact content_recycle ..
      case isFalse => rfl
  rw [lineMsgs, hreq]
  simp only [lineMsgs, applyDir, popDir, setDir, content_send, filterMap_add,
    filterMap_coe, ← coe_add]
  abel

theorem line_applyDir (v' : DataBlock B) : line x v' (s.applyDir d x w) =
      { line x v s with
        dir := w.line.getState
        owner := w.line.entry.owner.filterMap MachineID.cache?
        value := v'
        msgs := (s.applyDir d x w).lineMsgs x } := by
  simp [line, applyDir, setDir]

theorem line_applyDir_of_ne (hy : y ≠ x) (hm : (s.applyDir d x w).lineMsgs y = s.lineMsgs y) :
    line y v (s.applyDir d x w) = line y v s := by
  unfold line
  rw [hm]
  simp [applyDir, setDir, update_of_ne hy]

variable {st : DirState} {o : List Nat} {ms : Multiset (LineMsg (DataBlock B))} {v' : DataBlock B}

/-- A move of the directory is a step of the protocol. -/
theorem step_applyDir (hmove : LineState.DirMove (line x v s)
      { line x v s with dir := st, owner := o, value := v', msgs := ms })
    (hst : w.line.getState = st) (ho : w.line.entry.owner.filterMap MachineID.cache? = o)
    (hms : (s.applyDir d x w).lineMsgs x = ms) :
    LineState.Step (line x v s) (line x v' (s.applyDir d x w)) := by
  subst hst ho hms
  rw [line_applyDir (v := v)]
  exact .dir hmove

variable {a : LineMsg (DataBlock B)}

theorem lineMsgs_popDir_request {m : RequestMsg B}
    (hm : s.requests.head (requestPort d) = some m) (ha : lineRequest y m = some a) :
    s.lineMsgs y = a ::ₘ (s.popDir d [.requestQueue_in]).lineMsgs y := by
  unfold lineMsgs
  rw [filterMap_content_of_some hm ha]
  simp [popDir]

variable {m : MemoryMsg B}

theorem lineMsgs_popDir_memory
    (hm : s.memoryResponses.head (memoryPort d) = some m) (ha : lineMemoryMsg y m = some a) :
    s.lineMsgs y = a ::ₘ (s.popDir d [.memQueue_in]).lineMsgs y := by
  unfold lineMsgs
  rw [filterMap_content_of_some hm ha]
  simp [popDir]

theorem lineMsgs_popDir_dmaRequest :
    (s.popDir d [.dmaRequestQueue_in]).lineMsgs y = s.lineMsgs y := rfl

theorem line_recycle {ports : List DirPort} :
    line x v (s.applyDir d x { line := s.dir x, recycled := ports }) = line x v s := by
  rw [line_applyDir (v := v), lineMsgs_applyDir]
  rfl

theorem owner_eq (h : s.Ok P) (hs : (s.dir x).getState.hasOwner = true) :
    ∃ o, (s.dir x).entry.owner = [.L1Cache o] ∧ (line x v s).owner = [o] := by
  have ho := (h.dir x).owner
  rw [← (h.dir x).getState_eq, if_pos hs] at ho
  obtain ⟨o, ho⟩ := ho
  refine ⟨o, ho, ?_⟩
  simp [line, ho, cache?]

theorem mem_owner_iff {i : Nat} : i ∈ (line x v s).owner ↔ .L1Cache i ∈ (s.dir x).entry.owner := by
  simp [line, List.mem_filterMap]

def DMAWritePending (s : System B) (x : Nat) : Prop :=
  ((s.dir x).getState = .ID_W ∨ (s.dir x).getState = .M_DWRI) ∧ ∃ r f, .write r f ∈ s.lineMsgs x

theorem step_applyDir_write {r : Option Nat} {f : DataBlock B → DataBlock B}
    (hmove : LineState.DirMove (line x v s)
      { line x v s with dir := st, owner := o, value := v', msgs := .write r f ::ₘ ms })
    (hst : w.line.getState = st) (ho : w.line.entry.owner.filterMap MachineID.cache? = o)
    (hms : (s.applyDir d x w).lineMsgs x = .write r f ::ₘ ms) (hw : st = .ID_W ∨ st = .M_DWRI) :
    ∃ v', LineState.Step (line x v s) (line x v' (s.applyDir d x w)) ∧
      (v' = v ∨ (s.applyDir d x w).DMAWritePending x) := by
  refine ⟨v', step_applyDir hmove hst ho hms, .inr ⟨?_, r, f, ?_⟩⟩
  · simpa [applyDir, setDir, hst] using hw
  · rw [hms]
    exact mem_cons_self ..

variable {event : DirEvent}

/-- The directory takes a request of a cache. -/
theorem requestIn_line (h : s.Ok P) {m : RequestMsg B}
    (hm : s.requests.head (requestPort d) = some m)
    (hev : requestEvent m (s.dir m.addr) = .ok event)
    (hw : Directory.Step (s.dirContext P d m.addr (.request m)) (s.dir m.addr) event w) :
    ∃ v', LineState.Step (line m.addr v s) (line m.addr v' (s.applyDir d m.addr w)) ∧
      (v' = v ∨ (s.applyDir d m.addr w).DMAWritePending m.addr) := by
  obtain ⟨htype, -, i, hi, -⟩ := h.msgs.requests m (mem_content_of_head hm)
  have hst : w.line.getState = w.line.entry.directoryState := by
    refine (hw.ok (h.dir m.addr) fun m' hm' => ?_).getState_eq
    cases hm'
    exact ⟨i, hi⟩
  unfold requestEvent at hev
  rcases htype with ht | ht
  · rw [ht] at hev
    cases hev
    have hpop := lineMsgs_popDir_request (y := m.addr) (a := .getx i) hm (by
      simp [lineRequest, hi, ht, cache?])
    refine ⟨v, ?_, .inl rfl⟩
    cases hw with
    | @fetch m' hm' hs =>
      cases hm'
      refine step_applyDir (.fetch hs hpop) hst ?_ ?_
      · simp [hi, cache?]
      · simp [lineMsgs_applyDir, lineMemoryRequest, queueMemoryRead, dirContext, hi,
          cache?]
    | @forward m' o hm' hs ho =>
      cases hm'
      obtain ⟨o', ho', hline⟩ := owner_eq (v := v) h (x := m.addr) (by rw [hs]; rfl)
      cases ho.symm.trans ho'
      refine step_applyDir (.forward hs hline hpop) (hst.trans hs.symm) ?_ ?_
      · simp [hi, cache?]
      · simp [lineMsgs_applyDir, lineForward, forward, dirContext, hi, ht, cache?]
    | recycleRequest | recycleDMARequest =>
      rw [line_recycle]
      exact .idle
    | dmaInv hev => simp at hev
  · have hpop := lineMsgs_popDir_request (y := m.addr) (a := .putx i m.dataBlk) hm (by
      simp [lineRequest, hi, ht, cache?])
    have hwrite : ∀ {bytes}, lineMemoryRequest (B := B) m.addr
        ⟨d, m.addr, m.requestor, some bytes⟩ = some (.write (some i) fun b => b.setData bytes 0) := by
      intro bytes
      simp [lineMemoryRequest, hi, cache?]
    rw [ht] at hev
    by_cases ho : m.requestor ∈ (s.dir m.addr).entry.owner
    · rw [if_pos ho] at hev
      cases hev
      rw [hi, ← mem_owner_iff (v := v)] at ho
      cases hw with
      | @writeback m' hm' hs =>
        cases hm'
        refine ⟨v, step_applyDir (.writeback (.inl ⟨hs, rfl⟩) ho hpop) hst rfl ?_, .inl rfl⟩
        simp [lineMsgs_applyDir, queueMemoryWrite, dirContext, hwrite]
      | @writebackRead m' t hm' htbe hs =>
        cases hm'
        refine ⟨v, step_applyDir (.writeback (.inr ⟨hs, rfl⟩) ho hpop) hst rfl ?_, .inl rfl⟩
        simp [lineMsgs_applyDir, queueMemoryWrite, dirContext, hwrite]
      | @overwrite m' t hm' htbe hs =>
        cases hm'
        refine step_applyDir_write
          (.overwrite (f := fun b => b.setData (t.dataBlk.getData 0 t.len) 0) hs ho hpop) hst rfl ?_
          (.inr rfl)
        simp [lineMsgs_applyDir, queueMemoryWritePartial, dirContext, hwrite]
      | recycleRequest | recycleDMARequest =>
        refine ⟨v, ?_, .inl rfl⟩
        rw [line_recycle]
        exact .idle
      | dmaInv hev => simp at hev
    · rw [if_neg ho] at hev
      cases hev
      rw [hi, ← mem_owner_iff (v := v)] at ho
      refine ⟨v, ?_, .inl rfl⟩
      cases hw with
      | @nack m' hm' hs =>
        cases hm'
        refine step_applyDir (.nack hs ho hpop) rfl rfl ?_
        simp [lineMsgs_applyDir, lineForward, forward, dirContext, hi, cache?]
      | recycleRequest | recycleDMARequest =>
        rw [line_recycle]
        exact .idle
      | dmaInv hev => simp at hev

/-- The directory takes a DMA request. -/
theorem dmaRequestIn_line (h : s.Ok P) {m : DMARequestMsg B}
    (hev : event = .DMA_READ ∨ event = .DMA_WRITE) (hr : m.requestor.cache? = none)
    (hw : Directory.Step (s.dirContext P d x (.dmaRequest m)) (s.dir x) event w) :
    ∃ v', LineState.Step (line x v s) (line x v' (s.applyDir d x w)) ∧
      (v' = v ∨ (s.applyDir d x w).DMAWritePending x) := by
  have hst : w.line.getState = w.line.entry.directoryState := by
    refine (hw.ok (h.dir x) fun m' hm' => ?_).getState_eq
    cases hm'
  have hnone : (s.dir x).getState = .I → (line x v s).owner = [] := by
    intro hs
    have ho := (h.dir x).owner
    rw [← (h.dir x).getState_eq, hs] at ho
    simp only [line, DirState.hasOwner] at ho ⊢
    rw [ho]
    rfl
  cases hw with
  | @dmaRead m' hm' hs =>
    cases hm'
    refine ⟨v, step_applyDir (.dmaRead hs) hst (hnone hs).symm ?_, .inl rfl⟩
    simp [lineMsgs_applyDir, lineMsgs_popDir_dmaRequest, lineMemoryRequest,
      queueMemoryRead, dirContext, hr, line]
  | @dmaWrite m' hm' hs =>
    cases hm'
    refine step_applyDir_write
      (.dmaWrite (f := fun b => b.setData (m.dataBlk.getData 0 m.len) 0) hs) hst (hnone hs).symm ?_
      (.inl rfl)
    simp [lineMsgs_applyDir, lineMsgs_popDir_dmaRequest, lineMemoryRequest,
      queueMemoryWritePartial, dirContext, hr, line]
  | @dmaInv _ next m' o hev' hm' hs ho =>
    cases hm'
    obtain ⟨o', ho', hline⟩ := owner_eq (v := v) h (x := x) (by rw [hs]; rfl)
    cases ho.symm.trans ho'
    refine ⟨v, step_applyDir (.dmaInv hs hline ?_) hst ?_ ?_, .inl rfl⟩
    · rcases hev' with ⟨-, rfl⟩ | ⟨-, rfl⟩
      · exact .inl rfl
      · exact .inr rfl
    · simp [hline, cache?]
    · simp [lineMsgs_applyDir, lineMsgs_popDir_dmaRequest, lineForward, forward,
        dirContext, cache?, line]
  | recycleRequest | recycleDMARequest =>
    refine ⟨v, ?_, .inl rfl⟩
    rw [line_recycle]
    exact .idle
  | _ => simp at hev

/-- The directory takes an answer of its memory. -/
theorem memoryIn_line (h : s.Ok P) (hinv : (line m.addr v s).DirOk)
    (hm : s.memoryResponses.head (memoryPort d) = some m)
    (hw : Directory.Step (s.dirContext P d m.addr (.memory m)) (s.dir m.addr)
      (memoryEvent m.type) w) :
    LineState.Step (line m.addr v s) (line m.addr v (s.applyDir d m.addr w)) := by
  have hst : w.line.getState = w.line.entry.directoryState := by
    refine (hw.ok (h.dir m.addr) fun m' hm' => ?_).getState_eq
    cases hm'
  unfold LineState.DirOk at hinv
  cases ht : m.type with
  | MEMORY_READ =>
    rw [ht] at hw
    have hpop := lineMsgs_popDir_memory (y := m.addr)
      (a := .fetched m.originalRequestor.cache? m.dataBlk) hm (by simp [lineMemoryMsg, ht])
    rw [show (line m.addr v s).msgs = s.lineMsgs m.addr from rfl, hpop] at hinv
    cases hw with
    | @data m' hm' hs =>
      cases hm'
      rw [show (line m.addr v s).dir = .IM from hs] at hinv
      cases hr : m.originalRequestor.cache? with
      | none => simp [hr, LineMsg.memUnit] at hinv
      | some i =>
        rw [hr] at hpop
        refine step_applyDir (.data hs hpop) hst rfl ?_
        simp [lineMsgs_applyDir, lineResponse, dirContext, hr]
    | @dmaData m' t hm' htbe hs =>
      cases hm'
      rw [show (line m.addr v s).dir = .ID from hs] at hinv
      cases hr : m.originalRequestor.cache? with
      | some i => simp [hr, LineMsg.memUnit] at hinv
      | none =>
        rw [hr] at hpop
        refine step_applyDir (.dmaData hs hpop) hst hinv.1.symm ?_
        simp [lineMsgs_applyDir]
    | recycleRequest | recycleDMARequest =>
      rw [line_recycle]
      exact .idle
    | dmaInv hev => simp [memoryEvent] at hev
  | MEMORY_WB =>
    rw [ht] at hw
    have hpop := lineMsgs_popDir_memory (y := m.addr)
      (a := .written m.originalRequestor.cache?) hm (by simp [lineMemoryMsg, ht])
    rw [show (line m.addr v s).msgs = s.lineMsgs m.addr from rfl, hpop] at hinv
    have hcache : (s.dir m.addr).getState.isWriteback = true →
        (∃ i, m.originalRequestor.cache? = some i) ∧ (line m.addr v s).owner = [] := by
      intro hs
      cases hr : m.originalRequestor.cache? with
      | some i =>
        cases hd : (s.dir m.addr).getState with
        | MI | M_DRDI | M_DWRI =>
          rw [show (line m.addr v s).dir = _ from hd] at hinv
          exact ⟨⟨i, rfl⟩, hinv.1⟩
        | _ =>
          rw [hd] at hs
          exact absurd hs Bool.false_ne_true
      | none =>
        cases hd : (s.dir m.addr).getState with
        | MI | M_DRDI | M_DWRI =>
          rw [show (line m.addr v s).dir = _ from hd] at hinv
          simp [hr, LineMsg.memUnit] at hinv
        | _ =>
          rw [hd] at hs
          exact absurd hs Bool.false_ne_true
    cases hw with
    | @ack m' hm' hs =>
      cases hm'
      have hwb : (s.dir m.addr).getState.isWriteback = true := by
        rcases hs with hs | hs
        all_goals
          rw [hs]
          rfl
      obtain ⟨⟨i, hr⟩, ho⟩ := hcache hwb
      rw [hr] at hpop
      refine step_applyDir (.ack hwb hpop) hst ho.symm ?_
      simp [lineMsgs_applyDir, lineForward, forward, dirContext, hr]
    | @ackWrite m' t hm' htbe hs =>
      cases hm'
      have hwb : (s.dir m.addr).getState.isWriteback = true := by
        rw [hs]
        rfl
      obtain ⟨⟨i, hr⟩, ho⟩ := hcache hwb
      rw [hr] at hpop
      refine step_applyDir (.ack hwb hpop) hst ho.symm ?_
      simp [lineMsgs_applyDir, lineForward, forward, dirContext, hr]
    | @dmaAck m' t hm' htbe hs =>
      cases hm'
      rw [show (line m.addr v s).dir = .ID_W from hs] at hinv
      cases hr : m.originalRequestor.cache? with
      | some i => simp [hr, LineMsg.memUnit] at hinv
      | none =>
        rw [hr] at hpop
        refine step_applyDir (.dmaAck hs hpop) hst hinv.1.symm ?_
        simp [lineMsgs_applyDir]
    | recycleRequest | recycleDMARequest =>
      rw [line_recycle]
      exact .idle
    | dmaInv hev => simp [memoryEvent] at hev

theorem lineMemoryRequest_of_ne {r : MemoryRequest} (h : r.addr ≠ y) :
    lineMemoryRequest (B := B) y r = none := if_neg h

theorem lineMemoryMsg_of_ne (h : m.addr ≠ y) : lineMemoryMsg y m = none :=
  if_neg h

/-- A transition of the directory leaves the other lines alone. -/
theorem applyDir_line_of_ne {m : DirInMsg B} (hy : y ≠ x)
    (hw : Directory.Step (s.dirContext P d x m) (s.dir x) event w)
    (hr : .requestQueue_in ∈ w.dequeued →
      ∃ m, s.requests.head (requestPort d) = some m ∧ m.addr = x)
    (hm : .memQueue_in ∈ w.dequeued →
      ∃ m, s.memoryResponses.head (memoryPort d) = some m ∧ m.addr = x) :
    line y v (s.applyDir d x w) = line y v s := by
  apply line_applyDir_of_ne hy
  obtain ⟨hfwd, hresp, hmem⟩ := hw.addr
  have hfwd' : w.forwards.filterMap (lineForward y) = [] := by
    refine List.filterMap_eq_nil_iff.mpr fun m hm => lineForward_of_ne ?_
    rw [hfwd m hm]
    exact hy.symm
  have hresp' : w.responses.filterMap (lineResponse y) = [] := by
    refine List.filterMap_eq_nil_iff.mpr fun m hm => lineResponse_of_ne ?_
    rw [hresp m hm]
    exact hy.symm
  have hmem' : w.memoryRequests.filterMap (lineMemoryRequest (B := B) y) = [] := by
    refine List.filterMap_eq_nil_iff.mpr fun m hm => lineMemoryRequest_of_ne ?_
    rw [hmem m hm]
    exact hy.symm
  have hreq : (s.popDir d w.dequeued).requests.content.filterMap (lineRequest y) =
      s.requests.content.filterMap (lineRequest y) := by
    simp only [popDir]
    split
    case isTrue hd =>
      obtain ⟨m, hm, hx⟩ := hr hd
      exact filterMap_content_of_none hm (lineRequest_of_ne (hx.trans_ne hy.symm))
    case isFalse => rfl
  have hans : (s.popDir d w.dequeued).memoryResponses.content.filterMap (lineMemoryMsg y) =
      s.memoryResponses.content.filterMap (lineMemoryMsg y) := by
    simp only [popDir]
    split
    case isTrue hd =>
      obtain ⟨m, hm, hx⟩ := hm hd
      exact filterMap_content_of_none hm (lineMemoryMsg_of_ne (hx.trans_ne hy.symm))
    case isFalse => rfl
  rw [lineMsgs_applyDir, hfwd', hresp', hmem', lineMsgs, hreq, hans]
  simp only [coe_nil, zero_add]
  rfl

end Dir

end System

end NocSwap.MIExample
