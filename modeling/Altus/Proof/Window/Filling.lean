import Altus.Proof.Window.Extension

namespace Altus.WindowedQueue

open Bytes Runs UBList

/-- The positions that a window received. -/
def View.points (view : View) : Set Nat := Set.Iio view.position ∪ covered view.runs

/-- The block ends where the first listed one begins; without a listed one it begins at `lastSeq`. -/
def View.Precedes (view : View) (first last : Nat) : Prop :=
  match view.runs with
  | [] => first = view.position
  | run :: _ => last = run.1

section Filling

variable {state : WQState} {view : View} {first length : Nat}

/-- No point between `lastSeq` and the first listed block is received. -/
theorem View.gap {point : Nat} (above : view.position ≤ point) (early : ∀ run ∈ view.runs, point < run.1) :
    point ∉ view.points := by
  rintro (before | ⟨run, member, lower, -⟩)
  · exact absurd before (not_lt.mpr above)
  · exact absurd lower (not_le.mpr (early run member))

/-- The first byte of each listed block is received. -/
theorem Represents.first_received (represents : Represents state view) {run : Nat × Nat} (member : run ∈ view.runs) :
    run.1 ∈ view.points :=
  Or.inr ⟨run, member, le_rfl, represents.nonempty run member⟩

/-- The received positions grow by the block. -/
theorem Grows.points {last : Nat} {nextView : View} (grows : Grows view first last nextView) :
    nextView.points = view.points ∪ Set.Ico first last := by
  have split : Set.Iio nextView.position = Set.Iio view.position ∪ Set.Ico view.position nextView.position :=
    (Set.Iio_union_Ico_eq_Iio grows.forward).symm
  rw [View.points, View.points, split, Set.union_assoc, Set.union_comm (Set.Ico _ _), grows.union, Set.union_assoc]

/-- A block in front of the first listed one needs no new place in the list. -/
theorem Represents.check_precedes (represents : Represents state view) (positive : 0 < length)
    (lower : view.position ≤ first) (precedes : view.Precedes first (first + length))
    (near : first + length < view.origin + 2 ^ 31) :
    (altusUBCheck state.window.ubList (BitVec.ofNat 32 first) (BitVec.ofNat 32 length)).1 = ubenumUBExtended ∨
      (altusUBCheck state.window.ubList (BitVec.ofNat 32 first) (BitVec.ofNat 32 length)).1 = ubenumNewUBAdded := by
  have ordered := represents.ordered
  have follows := altusUBCheck_follows represents.lists represents.few represents.within (by omega)
    (Nat.le_add_right first length) near
  rw [Nat.add_sub_cancel_left] at follows
  rw [View.Precedes] at precedes
  split at precedes
  · rename_i noRuns
    rw [noRuns, place, Follows, if_pos (by simp)] at follows
    exact Or.inr follows.1
  · rename_i run rest runs
    rw [runs, place.eq_def] at follows
    simp only [← precedes, lt_self_iff_false, if_false, if_true, if_pos (show first < first + length by omega)] at follows
    exact Or.inl follows.1

/-- A block in front of the first listed one is accepted when the window has room for it. -/
theorem Represents.accepts_precedes (represents : Represents state view) (positive : 0 < length)
    (lower : view.position ≤ first) (precedes : view.Precedes first (first + length)) (small : first + length < 2 ^ 31)
    (room : (first + length - view.origin) / 4096 + 2 ≤ state.window.windowSize.toNat) :
    Accepts state.window (BitVec.ofNat 32 first) (BitVec.ofNat 32 length) := by
  have ordered := represents.ordered
  have depth : view.depth = view.position - view.origin := rfl
  refine ⟨?_, ?_, represents.check_precedes positive lower precedes (by omega)⟩
  · rw [represents.lastSeq, Serial.sub_pos_iff (by omega) (by omega) (by decide)]
    omega
  · have distance : BitVec.ofNat 32 first + BitVec.ofNat 32 length - state.window.lastSeq =
        BitVec.ofNat 32 (first + length - view.position) := by
      rw [represents.lastSeq, ← BitVec.ofNat_add, Serial.ofNat_sub (by omega)]
    have one : (1 : U32).toNat = 1 := rfl
    have span : nodeSpan.toNat = 4096 := rfl
    rw [PassesWindow, distance, represents.safeLen, BitVec.lt_def, BitVec.toNat_add, BitVec.toNat_add, BitVec.toNat_udiv,
      BitVec.toNat_ofNat, BitVec.toNat_ofNat, one, span]
    omega

end Filling

end Altus.WindowedQueue
