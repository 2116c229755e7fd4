import ObjyDb.Js.Text
import Mathlib.Data.Prod.Lex

/-!
# Clock — logical clocks and timestamps

A timestamp is a counter and the id of the node that made it; `gt` compares counters first and
then node ids.  It is the strict order of `LinearOrder Ts`, so last-writer-wins is well defined.
-/

namespace ObjyDb

open Js

/-- `{ c, n }` -/
@[ext]
structure Ts where
  c : Nat
  n : JsString
  deriving DecidableEq

namespace Ts

def key (ts : Ts) : Nat ×ₗ JsString :=
  toLex (ts.c, ts.n)

theorem key_injective : Function.Injective key := by
  intro a b h
  have hpair : (a.c, a.n) = (b.c, b.n) := h
  exact Ts.ext (congrArg Prod.fst hpair) (congrArg Prod.snd hpair)

instance : LinearOrder Ts := LinearOrder.lift' key key_injective

theorem lt_iff (a b : Ts) : a < b ↔ a.c < b.c ∨ a.c = b.c ∧ a.n < b.n :=
  Prod.Lex.toLex_lt_toLex

end Ts

/-! ## `clock.js` -/

structure Clock where
  c : Nat
  n : JsString
  deriving DecidableEq

def makeClock (id : JsString) : Clock :=
  ⟨0, id⟩

/-- The clock after `nextTs`, and the timestamp it gives. -/
def nextTs (clock : Clock) : Clock × Ts :=
  ({ clock with c := clock.c + 1 }, ⟨clock.c + 1, clock.n⟩)

def touch (clock : Clock) (ts : Option Ts) : Clock :=
  match ts with
  | some ts => if ts.c > clock.c then { clock with c := ts.c } else clock
  | none => clock

/-- `gt(a, b)`; a missing timestamp is `none`. -/
def gt (a b : Option Ts) : Bool :=
  match a, b with
  | none, _ => true
  | some _, none => true
  | some a, some b =>
      if a.c ≠ b.c then decide (a.c > b.c) else decide (a.n > b.n)

theorem gt_some_iff (a b : Ts) : gt (some a) (some b) = true ↔ b < a := by
  rw [Ts.lt_iff, gt]
  by_cases hc : a.c = b.c
  · simp [hc]
  · rw [if_pos hc, decide_eq_true_iff]
    constructor
    · exact fun h => Or.inl h
    · rintro (h | ⟨h, -⟩)
      · exact h
      · exact absurd h.symm hc

/-! ## Counters -/

theorem nextTs_gt (clock : Clock) : (nextTs clock).2.c = clock.c + 1 ∧
    (nextTs clock).1.c = clock.c + 1 := ⟨rfl, rfl⟩

theorem le_touch (clock : Clock) (ts : Option Ts) : clock.c ≤ (touch clock ts).c := by
  unfold touch
  cases ts with
  | none => exact le_rfl
  | some ts =>
      dsimp only
      split_ifs with h
      · exact h.le
      · exact le_rfl

theorem le_touch_ts (clock : Clock) (ts : Ts) : ts.c ≤ (touch clock (some ts)).c := by
  unfold touch
  dsimp only
  split_ifs with h
  · exact le_rfl
  · exact not_lt.mp h

end ObjyDb
