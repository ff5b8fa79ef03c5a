import Mathlib.Data.List.Rotate
import NocSwap.Base.CircleBuf

/-!
# A circular buffer keeps the newest data
-/

namespace NocSwap.Base.CircleBuf

open List Nat

variable {α : Type} {b : CircleBuf α} {c : Nat} {l : List α}

/-- What a call copies out and leaves of the newest `c` elements; none for a call out of bounds. -/
def newest (c : Nat) (l : List α) : Op α → Option (List α × List α)
  | .write input => some ([], (l ++ input).drop ((l ++ input).length - c))
  | .read len => if len ≤ l.length then some (l.take len, l.drop len) else none
  | .peek offset len => if offset + len ≤ l.length then some ((l.drop offset).take len, l) else none
  | .flush => some ([], [])

def newestRun (c : Nat) (l : List α) : List (Op α) → Option (List (List α) × List α)
  | [] => some ([], l)
  | op :: ops => do
    let (out, l) ← newest c l op
    let (outs, l) ← newestRun c l ops
    return (out :: outs, l)

/-- The content ends where the next element is written. -/
structure Holds (c : Nat) (b : CircleBuf α) (l : List α) : Prop where
  length_eq : b.buf.length = c
  start_lt : b._start < c
  stop_eq : b._stop = b._start + l.length
  suffix : l <:+ b.buf.rotate b._stop

theorem Holds.length_le (h : Holds c b l) : l.length ≤ c := by
  have hle := h.suffix.length_le
  rwa [length_rotate, h.length_eq] at hle

theorem Holds.size_eq (h : Holds c b l) : b.size = l.length := by
  unfold size
  rw [h.stop_eq, Nat.add_sub_cancel_left]

theorem normalize_holds (hlen : b.buf.length = c) (hstart : b._start < 2 * c)
    (hstop : b._stop = b._start + l.length) (hl : l <:+ b.buf.rotate b._stop) :
    ∃ b', b.normalize = .ok b' ∧ Holds c b' l := by
  have hle := hl.length_le
  rw [length_rotate, hlen] at hle
  by_cases h : c ≤ b._start
  · refine ⟨{ b with _start := b._start - c, _stop := b._stop - c }, ?_, hlen, ?_, ?_, ?_⟩
    · simp only [normalize, require, hlen, h, if_true]
      rw [if_pos (by omega), if_pos (by omega), if_pos (by omega)]
      rfl
    · show b._start - c < c
      omega
    · show b._stop - c = b._start - c + l.length
      omega
    · show l <:+ b.buf.rotate (b._stop - c)
      rwa [← rotate_mod, hlen, ← mod_eq_sub_mod (by omega), ← hlen, rotate_mod]
  · refine ⟨b, ?_, hlen, by omega, hstop, hl⟩
    simp only [normalize, require, hlen, h, if_false]
    rw [if_pos (by omega), if_pos (by omega), if_pos (by omega)]
    rfl

theorem Holds.rotate_start (h : Holds c b l) : ∃ u, b.buf.rotate b._start = l ++ u := by
  obtain ⟨u, hu⟩ := h.suffix
  have hlen : u.length + l.length = b.buf.length := by
    rw [← length_append, hu, length_rotate]
  refine ⟨u, ?_⟩
  calc b.buf.rotate b._start = b.buf.rotate (b._stop + u.length) := by
        rw [h.stop_eq, Nat.add_assoc, Nat.add_comm l.length, hlen, ← rotate_mod _ (_ + _),
          add_mod_right, rotate_mod]
    _ = (u ++ l).rotate u.length := by rw [← rotate_rotate, hu]
    _ = l ++ u := rotate_append_length_eq ..

theorem Holds.peek_eq {offset len : Nat} (h : Holds c b l) (hle : offset + len ≤ l.length) :
    b.peek offset len = .ok ((l.drop offset).take len) := by
  obtain ⟨u, hu⟩ := h.rotate_start
  have hlen := congrArg length hu
  rw [length_rotate, length_append] at hlen
  have hout : (b.buf.rotate (offset + b._start)).take len = (l.drop offset).take len := by
    rw [Nat.add_comm, ← rotate_rotate, hu, rotate_eq_drop_append_take (by simp; omega),
      drop_append_of_le_length (by omega), append_assoc, take_append_of_le_length (by simp; omega)]
  rw [← hout, rotate_eq_drop_append_take_mod, take_append, length_drop]
  unfold peek
  rw [require, if_pos (h.size_eq ▸ hle)]
  by_cases hwrap : (offset + b._start) % b.buf.length + len ≤ b.buf.length
  · rw [Nat.sub_eq_zero_of_le (by omega), take_zero, append_nil]
    exact if_pos hwrap
  · rw [take_of_length_le (by rw [length_drop]; omega), take_take, Nat.min_eq_left (by omega)]
    exact if_neg hwrap

theorem Holds.read {len : Nat} (h : Holds c b l) (hle : len ≤ l.length) :
    ∃ b', b.read len = .ok (l.take len, b') ∧ Holds c b' (l.drop len) := by
  have hc := h.length_le
  have hstart := h.start_lt
  have hstop := h.stop_eq
  obtain ⟨b', hb', hholds⟩ := normalize_holds (b := { b with _start := b._start + len })
    (l := l.drop len) h.length_eq (by simp; omega) (by simp; omega)
    ((drop_suffix len l).trans h.suffix)
  refine ⟨b', ?_, hholds⟩
  unfold CircleBuf.read
  rw [h.peek_eq (by omega), drop_zero]
  show (normalize _ >>= _) = _
  rw [hb']
  rfl

theorem rotate_append_of_mod {u v : List α} {n : Nat}
    (h : n % (u ++ v).length = u.length % (u ++ v).length) : (u ++ v).rotate n = v ++ u := by
  rw [← rotate_mod, h, rotate_mod, rotate_append_length_eq]

/-- A write that fits, seen from its end: the oldest elements have made room. -/
theorem rotate_copyTo {buf input : List α} (stop : Nat) (hin : input.length ≤ buf.length)
    (hpos : 0 < buf.length) :
    let next := stop % buf.length
    let headLen := min (buf.length - next) input.length
    (copyTo 0 (input.drop headLen) (copyTo next (input.take headLen) buf)).rotate
      (stop + input.length) = (buf.rotate stop).drop input.length ++ input := by
  intro next headLen
  have hnext : next < buf.length := mod_lt _ hpos
  have htake : (buf.take next).length = next := by
    rw [length_take, Nat.min_eq_left hnext.le]
  have hmod : (stop + input.length) % buf.length = (next + input.length) % buf.length :=
    (mod_add_mod ..).symm
  rw [rotate_eq_drop_append_take_mod (l := buf)]
  change _ = drop _ (buf.drop next ++ buf.take next) ++ _
  rcases Nat.le_total input.length (buf.length - next) with h | h
  · have hbuf : copyTo 0 (input.drop headLen) (copyTo next (input.take headLen) buf) =
        (buf.take next ++ input) ++ buf.drop (next + input.length) := by
      simp [headLen, copyTo, Nat.min_eq_right h]
    have hlen : (buf.take next ++ input ++ buf.drop (next + input.length)).length = buf.length := by
      simp only [length_append, htake, length_drop]
      omega
    rw [hbuf, rotate_append_of_mod (by rw [hlen, hmod, length_append, htake]),
      drop_append_of_le_length (by rw [length_drop]; exact h), drop_drop, append_assoc]
  · obtain ⟨x, y, rfl, hx⟩ : ∃ x y, input = x ++ y ∧ x.length = buf.length - next :=
      ⟨_, _, (take_append_drop _ _).symm, by rw [length_take, Nat.min_eq_left h]⟩
    rw [length_append] at hin hmod ⊢
    have hbuf : copyTo 0 ((x ++ y).drop headLen) (copyTo next ((x ++ y).take headLen) buf) =
        y ++ ((buf.take next).drop y.length ++ x) := by
      simp only [headLen, Nat.min_eq_left h, ← hx, drop_left, take_left, copyTo, take_zero,
        nil_append, Nat.zero_add]
      rw [hx, Nat.add_sub_cancel' hnext.le, drop_length, append_nil,
        drop_append_of_le_length (by omega)]
    have hlen : (y ++ ((buf.take next).drop y.length ++ x)).length = buf.length := by
      simp only [length_append, length_drop, htake]
      omega
    have hrot : next + (x.length + y.length) = y.length + buf.length := by omega
    have hnil : (buf.drop next).drop (x.length + y.length) = [] :=
      drop_of_length_le (by rw [length_drop]; omega)
    rw [hbuf, rotate_append_of_mod (by rw [hlen, hmod, hrot, add_mod_right]), drop_append, hnil,
      length_drop, nil_append, append_assoc, ← hx, Nat.add_sub_cancel_left]

theorem Holds.write (h : Holds c b l) (input : List α) :
    ∃ b', b.write input = .ok b' ∧ Holds c b' ((l ++ input).drop ((l ++ input).length - c)) := by
  have hc := h.length_eq
  have hle := h.length_le
  have hstart := h.start_lt
  have hstop := h.stop_eq
  obtain ⟨kept, hkept⟩ : ∃ kept, (if b.buf.length < input.length then
      input.drop (input.length - b.buf.length) else input) = kept := ⟨_, rfl⟩
  obtain ⟨hlast, hfit⟩ : (l ++ input).drop ((l ++ input).length - c) =
      (l ++ kept).drop ((l ++ kept).length - c) ∧ kept.length ≤ c := by
    subst hkept
    split
    · rename_i hlt
      rw [length_append, Nat.add_sub_assoc (by omega), drop_length_add_append, length_append,
        length_drop, Nat.add_sub_assoc (by omega), drop_length_add_append, hc]
      refine ⟨?_, by omega⟩
      rw [Nat.sub_sub_self (by omega), Nat.sub_self, drop_zero]
    · exact ⟨rfl, by omega⟩
  rw [hlast]
  have hrot := rotate_copyTo b._stop (hc.symm ▸ hfit : kept.length ≤ b.buf.length) (by omega)
  have hbuf := congrArg length hrot
  rw [length_rotate, length_append, length_drop, length_rotate] at hbuf
  simp only [CircleBuf.write, hkept]
  generalize hs : (if b.buf.length < b._stop + kept.length - b._start then
    b._stop + kept.length - b.buf.length else b._start) = start
  have hlen : ((l ++ kept).drop ((l ++ kept).length - c)).length =
      min (l.length + kept.length) c := by
    rw [length_drop, length_append]
    omega
  have hstart' : start < 2 * c ∧
      b._stop + kept.length = start + min (l.length + kept.length) c := by
    split at hs <;> omega
  refine normalize_holds (hbuf.trans (by omega)) hstart'.1 (hlen ▸ hstart'.2) ?_
  rw [hrot]
  have hl : l ++ kept <:+ b.buf.rotate b._stop ++ kept := by
    obtain ⟨u, hu⟩ := h.suffix
    exact ⟨u, by rw [← append_assoc, hu]⟩
  refine suffix_of_suffix_length_le ((drop_suffix _ _).trans hl) ?_ ?_
  · rw [← drop_append_of_le_length (by rw [length_rotate, hc]; exact hfit)]
    exact drop_suffix _ _
  · rw [hlen, length_append, length_drop, length_rotate]
    omega

theorem Holds.exec {op : Op α} {out l' : List α} (h : Holds c b l)
    (hx : newest c l op = some (out, l')) : ∃ b', b.exec op = .ok (out, b') ∧ Holds c b' l' := by
  cases op with
  | write input =>
    cases hx
    obtain ⟨b', hb', hholds⟩ := h.write input
    refine ⟨b', ?_, hholds⟩
    show (b.write input >>= _) = _
    rw [hb']
    rfl
  | read len =>
    obtain ⟨hle, hx⟩ := Option.ite_none_right_eq_some.mp hx
    cases hx
    exact h.read hle
  | peek offset len =>
    obtain ⟨hle, hx⟩ := Option.ite_none_right_eq_some.mp hx
    cases hx
    refine ⟨b, ?_, h⟩
    show (b.peek offset len >>= _) = _
    rw [h.peek_eq hle]
    rfl
  | flush =>
    cases hx
    exact ⟨_, rfl, h.length_eq, zero_lt_of_lt h.start_lt, rfl, nil_suffix⟩

theorem Holds.run {ops : List (Op α)} {outs : List (List α)} {l' : List α} (h : Holds c b l)
    (hrun : newestRun c l ops = some (outs, l')) :
    ∃ b', b.run ops = .ok (outs, b') ∧ Holds c b' l' := by
  induction ops generalizing b l outs with
  | nil =>
    cases hrun
    exact ⟨b, rfl, h⟩
  | cons op ops ih =>
    obtain ⟨⟨out, l₁⟩, hx, hrun⟩ := Option.bind_eq_some_iff.mp hrun
    obtain ⟨⟨outs, l₂⟩, hrun, heq⟩ := Option.bind_eq_some_iff.mp hrun
    cases heq
    obtain ⟨b₁, hb₁, h₁⟩ := h.exec hx
    obtain ⟨b₂, hb₂, h₂⟩ := ih h₁ hrun
    refine ⟨b₂, ?_, h₂⟩
    unfold CircleBuf.run
    rw [hb₁]
    show (CircleBuf.run b₁ ops >>= _) = _
    rw [hb₂]
    rfl

/-- The calls of a sequence within the bounds return what the queue of the newest `c` elements
gives. -/
theorem keeps_newest (hc : 0 < c) (zero : α) {ops : List (Op α)} {outs : List (List α)}
    (h : newestRun c [] ops = some (outs, l)) :
    ∃ b, run ⟨replicate c zero, 0, 0⟩ ops = .ok (outs, b) ∧ b.size = l.length ∧
      b.peek 0 b.size = .ok l ∧ b._start < c ∧ b._start ≤ b._stop ∧ b._stop ≤ b._start + c := by
  have hinit : Holds c ⟨replicate c zero, 0, 0⟩ [] := ⟨length_replicate, hc, rfl, nil_suffix⟩
  obtain ⟨b, hb, h⟩ := hinit.run h
  have hpeek : b.peek 0 b.size = _ := h.peek_eq (by rw [h.size_eq, Nat.zero_add])
  rw [drop_zero, take_of_length_le h.size_eq.ge] at hpeek
  have hle := h.length_le
  have hstop := h.stop_eq
  exact ⟨b, hb, h.size_eq, hpeek, h.start_lt, by omega, by omega⟩

/-- Five elements are written at once and one more after a read that wraps. -/
theorem keeps_newest_three :
    ∃ b, run ⟨[0, 0, 0], 0, 0⟩ [.write [1, 2, 3, 4, 5], .read 2, .write [6, 7], .peek 1 2] =
        .ok ([[], [3, 4], [], [6, 7]], b) ∧ b.size = 3 ∧ b.peek 0 b.size = .ok [5, 6, 7] ∧
      b._start < 3 ∧ b._start ≤ b._stop ∧ b._stop ≤ b._start + 3 :=
  keeps_newest (c := 3) (l := [5, 6, 7]) (by decide) 0 (by decide)

end NocSwap.Base.CircleBuf
