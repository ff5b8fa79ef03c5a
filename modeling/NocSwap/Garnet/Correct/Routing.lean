import Mathlib.Data.Prod.Lex
import Mathlib.Logic.Relation
import Mathlib.Order.Basic
import NocSwap.Garnet.RoutingUnit

/-!
# The directions the mesh algorithms choose
-/

namespace NocSwap

open Nat

/-! ### What a choice says about the destination -/

def Params.col (P : Params) (r : Nat) : Nat := r % P.numCols

def Params.row (P : Params) (r : Nat) : Nat := r / P.numCols

def Minimal (P : Params) (my dest : Nat) : PortDirection → Prop
  | .East => P.col my < P.col dest
  | .West => P.col dest < P.col my
  | .North => P.row my < P.row dest
  | .South => P.row dest < P.row my
  | _ => False

def XyTurn (P : Params) (my dest : Nat) (d : PortDirection) : Prop :=
  d = .North ∨ d = .South → P.col my = P.col dest

def WestFirstTurn (P : Params) (my dest : Nat) (d : PortDirection) : Prop :=
  d ≠ .West → P.col my ≤ P.col dest

section Choice

variable {P : Params} {my dest rnd : Nat} {freeVc : PortDirection → Except Fault Nat}

theorem offset_zero (h : ¬ ¬ ((offset P.numCols my dest).xHops = 0 ∧
    (offset P.numCols my dest).yHops = 0)) : my = dest := by
  rw [not_not] at h
  simp only [offset] at h
  rw [← div_add_mod my P.numCols, ← div_add_mod dest P.numCols,
    show my % P.numCols = dest % P.numCols by omega, show my / P.numCols = dest / P.numCols by omega]

theorem minimal_vertical (hy : (offset P.numCols my dest).yHops ≠ 0) :
    Minimal P my dest (if (offset P.numCols my dest).yDirn then .North else .South) := by
  simp only [offset] at hy
  simp only [offset, decide_eq_true_eq]
  split_ifs <;> simp only [Minimal, Params.row] <;> omega

theorem minimal_horizontal (hx : (offset P.numCols my dest).xHops ≠ 0) :
    Minimal P my dest (if (offset P.numCols my dest).xDirn then .East else .West) := by
  simp only [offset] at hx
  simp only [offset, decide_eq_true_eq]
  split_ifs <;> simp only [Minimal, Params.col] <;> omega

theorem col_eq_of_xHops (hx : (offset P.numCols my dest).xHops = 0) : P.col my = P.col dest := by
  simp only [offset] at hx
  simp only [Params.col]
  omega

theorem col_le_of_xDirn (hx : (offset P.numCols my dest).xDirn = true) : P.col my ≤ P.col dest := by
  simpa [offset, Params.col] using hx

theorem outportComputeXY_outcome : Outcome (outportComputeXY (offset P.numCols my dest))
      (fun d => Minimal P my dest d ∧ XyTurn P my dest d) (fun _ => my = dest) := by
  simp only [outportComputeXY, Offset.check, outcome_do, outcome_ite, outcome_error]
  refine ⟨fun hne => ⟨fun hx => ⟨minimal_horizontal (by omega), fun hd => ?_⟩, fun hx =>
    ⟨fun hy => ⟨minimal_vertical (by omega), fun _ => col_eq_of_xHops (by omega)⟩,
      fun hy => absurd (by omega) hne⟩⟩, offset_zero⟩
  split_ifs at hd <;> simp at hd

theorem moreFree_outcome (hx : (offset P.numCols my dest).xHops ≠ 0)
    (hy : (offset P.numCols my dest).yHops ≠ 0) :
    Outcome (moreFree (offset P.numCols my dest) rnd freeVc)
      (fun d => Minimal P my dest d ∧ (d = .West → (offset P.numCols my dest).xDirn = false))
      (fun _ => True) := by
  have hX : Minimal P my dest (offset P.numCols my dest).xOutport ∧
      ((offset P.numCols my dest).xOutport = .West →
        (offset P.numCols my dest).xDirn = false) := by
    refine ⟨minimal_horizontal hx, fun h => ?_⟩
    simpa [Offset.xOutport] using h
  have hY : Minimal P my dest (offset P.numCols my dest).yOutport ∧
      ((offset P.numCols my dest).yOutport = .West →
        (offset P.numCols my dest).xDirn = false) := by
    refine ⟨minimal_vertical hy, fun h => ?_⟩
    unfold Offset.yOutport at h
    split_ifs at h
  simp only [moreFree, outcome_do]
  refine Outcome.introOk fun x _ => Outcome.introOk fun y _ => ?_
  split_ifs
  · exact hX
  · exact hY
  · exact hX
  · exact hY

theorem minimal_coin (rnd : Nat) (hx : (offset P.numCols my dest).xHops ≠ 0)
    (hy : (offset P.numCols my dest).yHops ≠ 0) :
    Minimal P my dest (if rnd % 2 ≠ 0 then (if (offset P.numCols my dest).xDirn then .East else .West)
      else (if (offset P.numCols my dest).yDirn then .North else .South)) := by
  by_cases h : rnd % 2 ≠ 0
  · rw [if_pos h]; exact minimal_horizontal hx
  · rw [if_neg h]; exact minimal_vertical hy

theorem outportComputeRandom_outcome :
    Outcome (outportComputeRandom (offset P.numCols my dest) rnd) (Minimal P my dest)
      (fun _ => my = dest) := by
  simp only [outportComputeRandom, Offset.check, outcome_do, outcome_ite]
  refine ⟨fun hne => ⟨fun hx => minimal_vertical (by omega), fun hx => ⟨fun hy =>
    minimal_horizontal hx, fun hy => ?_⟩⟩, offset_zero⟩
  have hcoin := minimal_coin rnd hx hy
  -- in each quadrant the coin decides between the same two directions
  cases hxd : (offset P.numCols my dest).xDirn <;> cases hyd : (offset P.numCols my dest).yDirn <;>
    simpa [hxd, hyd] using hcoin

theorem outportComputeAdaptRand_outcome :
    Outcome (outportComputeAdaptRand (offset P.numCols my dest) rnd freeVc) (Minimal P my dest)
      (fun _ => True) := by
  simp only [outportComputeAdaptRand, Offset.check, outcome_do, outcome_ite]
  exact fun hne => ⟨fun hx => minimal_vertical (by omega), fun hx => ⟨fun hy =>
    minimal_horizontal hx, fun hy => (moreFree_outcome hx hy).imp fun _ h => h.1⟩⟩

variable {d : PortDirection}

theorem westFirst_vertical (hx : (offset P.numCols my dest).xHops = 0) :
    WestFirstTurn P my dest d := fun _ => (col_eq_of_xHops hx).le

theorem westFirst_horizontal :
    WestFirstTurn P my dest (if (offset P.numCols my dest).xDirn then .East else .West) := by
  intro hd
  cases hx : (offset P.numCols my dest).xDirn with
  | true => exact col_le_of_xDirn hx
  | false => simp [hx] at hd

theorem outportComputeWestFirst_outcome :
    Outcome (outportComputeWestFirst (offset P.numCols my dest) rnd)
      (fun d => Minimal P my dest d ∧ WestFirstTurn P my dest d) (fun _ => my = dest) := by
  simp only [outportComputeWestFirst, Offset.check, outcome_do, outcome_ite, Bool.not_eq_true']
  refine ⟨fun hne => ⟨fun hx => ⟨minimal_vertical (by omega), westFirst_vertical hx⟩, fun hx =>
    ⟨fun hy => ⟨minimal_horizontal hx, westFirst_horizontal⟩, fun hy => ?_⟩⟩, offset_zero⟩
  have hcoin := minimal_coin rnd hx hy
  refine ⟨fun hxd => ⟨?_, fun hd => absurd rfl hd⟩, fun hxd => ?_⟩
  · simpa [hxd] using minimal_horizontal hx
  · rw [Bool.not_eq_false] at hxd
    have hturn : ∀ d, WestFirstTurn P my dest d := fun d _ => col_le_of_xDirn hxd
    exact ⟨fun hyd => ⟨by simpa [hxd, hyd] using hcoin, hturn _⟩,
      fun hyd => ⟨by simpa [hxd, hyd] using hcoin, hturn _⟩⟩

theorem outportComputeAdaptWestFirst_outcome :
    Outcome (outportComputeAdaptWestFirst (offset P.numCols my dest) rnd freeVc)
      (fun d => Minimal P my dest d ∧ WestFirstTurn P my dest d) (fun _ => True) := by
  simp only [outportComputeAdaptWestFirst, Offset.check, outcome_do, outcome_ite, Bool.not_eq_true']
  refine fun hne => ⟨fun hx => ⟨minimal_vertical (by omega), westFirst_vertical hx⟩, fun hx =>
    ⟨fun hy => ⟨minimal_horizontal hx, westFirst_horizontal⟩, fun hy => ⟨fun hxd => ⟨?_, fun hd =>
      absurd rfl hd⟩, fun hxd => ?_⟩⟩⟩
  · simpa [hxd] using minimal_horizontal hx
  · rw [Bool.not_eq_false] at hxd
    exact (moreFree_outcome hx hy).imp fun d h => ⟨h.1, fun _ => col_le_of_xDirn hxd⟩

theorem meshOutport_minimal {alg : RoutingAlgorithm} {x : Except Fault PortDirection}
    (h : meshOutport alg (offset P.numCols my dest) rnd freeVc = some x)
    (hx : x = .ok d) : Minimal P my dest d := by
  subst hx
  cases alg with
  | xy => exact (outportComputeXY_outcome.of_ok (Option.some.inj h)).1
  | random => exact outportComputeRandom_outcome.of_ok (Option.some.inj h)
  | adaptRand => exact outportComputeAdaptRand_outcome.of_ok (Option.some.inj h)
  | westFirst => exact (outportComputeWestFirst_outcome.of_ok (Option.some.inj h)).1
  | adaptWestFirst => exact (outportComputeAdaptWestFirst_outcome.of_ok (Option.some.inj h)).1
  | custom => cases Option.some.inj h
  | table | deflection => cases h

end Choice

section Neighbours

variable {P : Params} {r v : Nat}

theorem coords {x y : Nat} (hx : x < P.numCols) :
    P.col (x + P.numCols * y) = x ∧ P.row (x + P.numCols * y) = y := by
  constructor
  · rw [Params.col, add_mul_mod_self_left, mod_eq_of_lt hx]
  · rw [Params.row, add_mul_div_left _ _ P.cols_pos, div_eq_of_lt hx, Nat.zero_add]

theorem eq_coords (P : Params) (r : Nat) : P.col r + P.numCols * P.row r = r :=
  mod_add_div r P.numCols

theorem nbr_east (h : P.nbr r .East = some v) : P.col v = P.col r + 1 ∧ P.row v = P.row r := by
  simp only [Params.nbr, Option.ite_none_right_eq_some, Option.some.injEq] at h
  obtain ⟨hc, rfl⟩ := h
  have hr := eq_coords P r
  have hv : r + 1 = (P.col r + 1) + P.numCols * P.row r := by omega
  have := coords (P := P) (x := P.col r + 1) (y := P.row r) hc
  rwa [← hv] at this

theorem nbr_west (h : P.nbr r .West = some v) : P.col r = P.col v + 1 ∧ P.row v = P.row r := by
  simp only [Params.nbr, Option.ite_none_right_eq_some, Option.some.injEq] at h
  obtain ⟨hc, rfl⟩ := h
  have hr := eq_coords P r
  have hcol : P.col r < P.numCols := mod_lt r P.cols_pos
  have hc' : 0 < P.col r := hc
  have hv : r - 1 = (P.col r - 1) + P.numCols * P.row r := by omega
  have := coords (P := P) (x := P.col r - 1) (y := P.row r) (by omega)
  rw [← hv] at this
  omega

theorem nbr_north (h : P.nbr r .North = some v) : P.col v = P.col r ∧ P.row v = P.row r + 1 := by
  simp only [Params.nbr, Option.ite_none_right_eq_some, Option.some.injEq] at h
  obtain ⟨-, rfl⟩ := h
  exact ⟨add_mod_right r P.numCols, add_div_right r P.cols_pos⟩

theorem nbr_south (h : P.nbr r .South = some v) : P.col v = P.col r ∧ P.row r = P.row v + 1 := by
  simp only [Params.nbr, Option.ite_none_right_eq_some, Option.some.injEq] at h
  obtain ⟨hc, rfl⟩ := h
  have hle : P.numCols ≤ r := (Nat.div_pos_iff.mp hc).2
  refine ⟨(mod_eq_sub_mod hle).symm, ?_⟩
  simp only [Params.row]
  rw [div_eq_sub_div P.cols_pos hle]

end Neighbours

structure Channel where
  router : Nat
  dirn : PortDirection

abbrev Choice := Nat → Nat → PortDirection → Prop

inductive Routed (P : Params) (choose : Choice) (src dest : Nat) : Nat → Prop
  | start : Routed P choose src dest src
  | hop {u v : Nat} {d : PortDirection} : Routed P choose src dest u → u ≠ dest →
      choose u dest d → P.nbr u d = some v → Routed P choose src dest v

/-- A flit that enters a router over `c`, on a route of the algorithm, may leave it over `c'`. -/
def DependsOn (P : Params) (choose : Choice) (c c' : Channel) : Prop :=
  ∃ src dest : Nat, src < P.numRouters ∧ dest < P.numRouters ∧
    Routed P choose src dest c.router ∧ c.router ≠ dest ∧ choose c.router dest c.dirn ∧
    P.nbr c.router c.dirn = some c'.router ∧ c'.router ≠ dest ∧ choose c'.router dest c'.dirn

def xyChoice (P : Params) : Choice := fun my dest d =>
  outportComputeXY (offset P.numCols my dest) = .ok d

/-- The choices of west-first routing, plain or adaptive, over all draws and numbers of free
channels. -/
def westFirstChoice (P : Params) : Choice := fun my dest d =>
  (∃ rnd, outportComputeWestFirst (offset P.numCols my dest) rnd = .ok d) ∨
    ∃ rnd freeVc, outportComputeAdaptWestFirst (offset P.numCols my dest) rnd freeVc = .ok d

variable {P : Params} {my dest : Nat} {d : PortDirection}

theorem xyChoice_spec (h : xyChoice P my dest d) : Minimal P my dest d ∧ XyTurn P my dest d :=
  outportComputeXY_outcome.of_ok h

theorem westFirstChoice_spec
    (h : westFirstChoice P my dest d) : Minimal P my dest d ∧ WestFirstTurn P my dest d := by
  rcases h with ⟨rnd, h⟩ | ⟨rnd, freeVc, h⟩
  · exact outportComputeWestFirst_outcome.of_ok h
  · exact outportComputeAdaptWestFirst_outcome.of_ok h

theorem acyclic_of_rank {α β : Type*} [Preorder β] {r : α → α → Prop} (rank : α → β)
    (h : ∀ a b, r a b → rank a < rank b) (a : α) : ¬ Relation.TransGen r a a := by
  intro hcyc
  have hlt : Relation.TransGen (· < ·) (rank a) (rank a) := hcyc.lift rank h
  rw [Relation.transGen_eq_self] at hlt
  exact lt_irrefl _ hlt

def xyRank (P : Params) (c : Channel) : Nat ×ₗ Int :=
  match c.dirn with
  | .East => toLex (0, (P.col c.router : Int))
  | .West => toLex (0, -(P.col c.router : Int))
  | .North => toLex (1, (P.row c.router : Int))
  | _ => toLex (1, -(P.row c.router : Int))

/-- All `West` channels, then column by column the vertical channels and the `East` ones that leave
it. -/
def westFirstRank (P : Params) (c : Channel) : Nat ×ₗ Int ×ₗ Int :=
  match c.dirn with
  | .West => toLex (0, toLex (-(P.col c.router : Int), 0))
  | .North => toLex (1, toLex (2 * (P.col c.router : Int), (P.row c.router : Int)))
  | .East => toLex (1, toLex (2 * (P.col c.router : Int) + 1, 0))
  | _ => toLex (1, toLex (2 * (P.col c.router : Int), -(P.row c.router : Int)))

def HopCoords (P : Params) (u v : Nat) : PortDirection → Prop
  | .East => P.col v = P.col u + 1 ∧ P.row v = P.row u
  | .West => P.col u = P.col v + 1 ∧ P.row v = P.row u
  | .North => P.col v = P.col u ∧ P.row v = P.row u + 1
  | .South => P.col v = P.col u ∧ P.row u = P.row v + 1
  | _ => False

theorem nbr_coords {u v : Nat} (h : P.nbr u d = some v) : HopCoords P u v d := by
  cases d with
  | East => exact nbr_east h
  | West => exact nbr_west h
  | North => exact nbr_north h
  | South => exact nbr_south h
  | Local | Unknown | Empty => cases h

variable {c c' : Channel}

theorem xyRank_lt (h : DependsOn P (xyChoice P) c c') : xyRank P c < xyRank P c' := by
  obtain ⟨u, d⟩ := c
  obtain ⟨v, d'⟩ := c'
  obtain ⟨_, dest, -, -, -, -, hc, hnbr, -, hc'⟩ := h
  obtain ⟨hmin, hturn⟩ := xyChoice_spec hc
  obtain ⟨hmin', hturn'⟩ := xyChoice_spec hc'
  have hhop := nbr_coords hnbr
  dsimp only at hmin hturn hmin' hturn' hhop
  -- the direction of each channel bounds the column or the row of the destination
  cases d <;> cases d' <;> simp only [Minimal, HopCoords] at hmin hmin' hhop <;>
    simp only [XyTurn, reduceCtorEq, or_self, or_true, true_or, true_implies, false_implies]
      at hturn hturn' <;>
    simp only [xyRank, Prod.Lex.toLex_lt_toLex, true_and] <;> omega

theorem westFirstRank_lt
    (h : DependsOn P (westFirstChoice P) c c') : westFirstRank P c < westFirstRank P c' := by
  obtain ⟨u, d⟩ := c
  obtain ⟨v, d'⟩ := c'
  obtain ⟨_, dest, -, -, -, -, hc, hnbr, -, hc'⟩ := h
  obtain ⟨hmin, hturn⟩ := westFirstChoice_spec hc
  obtain ⟨hmin', hturn'⟩ := westFirstChoice_spec hc'
  have hhop := nbr_coords hnbr
  dsimp only at hmin hturn hmin' hturn' hhop
  cases d <;> cases d' <;> simp only [Minimal, HopCoords] at hmin hmin' hhop <;>
    simp only [WestFirstTurn, ne_eq, reduceCtorEq, not_false_eq_true, not_true_eq_false,
      true_implies, false_implies] at hturn hturn' <;>
    simp only [westFirstRank, Prod.Lex.toLex_lt_toLex, true_and] <;> omega

/-- **The turn-restricted algorithms are free of cyclic dependencies**, over all random draws and
numbers of free channels. -/
theorem turn_restricted_acyclic (P : Params) :
    (∀ c, ¬ Relation.TransGen (DependsOn P (xyChoice P)) c c) ∧
      (∀ c, ¬ Relation.TransGen (DependsOn P (westFirstChoice P)) c c) :=
  ⟨acyclic_of_rank (xyRank P) fun _ _ h => xyRank_lt h,
    acyclic_of_rank (westFirstRank P) fun _ _ h => westFirstRank_lt h⟩

end NocSwap
