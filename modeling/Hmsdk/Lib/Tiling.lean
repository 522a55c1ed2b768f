import Mathlib

/-! # Intervals cut into consecutive pieces

Pieces tile an interval when each starts where the one before ended. Every point
of the interval is then in exactly one piece and no other point is in any.
-/

namespace Lib.Tiling

variable {α : Type*} [LinearOrder α]

/-- The nonempty pieces lead from `start` to `stop` without a gap. -/
inductive Tiles : α → List (α × α) → α → Prop where
  | done (stop : α) : Tiles stop [] stop
  | piece {start middle stop : α} {later : List (α × α)} (forward : start < middle)
      (rest : Tiles middle later stop) : Tiles start ((start, middle) :: later) stop

/-- The point lies in the interval, its end excluded. -/
def inside (point : α) (interval : α × α) : Bool :=
  decide (interval.1 ≤ point ∧ point < interval.2)

theorem Tiles.le {start stop : α} {pieces : List (α × α)} (tiles : Tiles start pieces stop) :
    start ≤ stop := by
  induction tiles with
  | done => exact le_rfl
  | piece forward _ ih => exact forward.le.trans ih

theorem Tiles.countP_inside {start stop : α} {pieces : List (α × α)}
    (tiles : Tiles start pieces stop) (point : α) :
    pieces.countP (inside point) = if inside point (start, stop) then 1 else 0 := by
  induction tiles with
  | done stop =>
      have outside : ¬ (stop ≤ point ∧ point < stop) := fun both => both.2.not_ge both.1
      simp [inside, outside]
  | @piece start middle stop later forward rest ih =>
      have onward : middle ≤ stop := rest.le
      rw [List.countP_cons, ih]
      simp only [inside, decide_eq_true_eq]
      rcases lt_or_ge point middle with before | after
      · simp [before.not_ge, before, before.trans_le onward]
      · simp [after.not_gt, after, forward.le.trans after]

end Lib.Tiling
