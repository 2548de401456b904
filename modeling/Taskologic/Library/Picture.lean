import Mathlib.Data.Set.Image
import Mathlib.Logic.Function.Iterate
import Mathlib.Tactic

/-!
# Pictures and quarter turns

A picture is so many dots wide and high, and some of its places are black. `quarter` turns it clockwise. Two quarter
turns put every dot in the opposite corner (`dots_half`), three are the turn the other way (`dots_threeQuarter`), and
four change nothing (`iterate_quarter_four`), so only the number of turns modulo four counts
(`iterate_quarter_mod`).
-/

set_option autoImplicit false
set_option relaxedAutoImplicit false

namespace Taskologic.Library

/-- Black places, the first coordinate to the right and the second downwards. -/
@[ext]
structure Picture where
  width : ℕ
  height : ℕ
  dots : Set (ℕ × ℕ)
  inside : ∀ p ∈ dots, p.1 < width ∧ p.2 < height

namespace Picture

/-- A quarter turn clockwise. -/
def quarter (picture : Picture) : Picture where
  width := picture.height
  height := picture.width
  dots := (fun p ↦ (picture.height - 1 - p.2, p.1)) '' picture.dots
  inside := by
    rintro q ⟨p, hp, rfl⟩
    have := picture.inside p hp
    dsimp only
    omega

section Turns

variable (picture : Picture)

theorem dots_half : (quarter^[2] picture).dots =
    (fun p ↦ (picture.width - 1 - p.1, picture.height - 1 - p.2)) '' picture.dots :=
  Set.image_image _ _ _

theorem dots_threeQuarter :
    (quarter^[3] picture).dots = (fun p ↦ (p.2, picture.width - 1 - p.1)) '' picture.dots := by
  change (fun q ↦ (picture.height - 1 - q.2, q.1)) '' (quarter^[2] picture).dots = _
  rw [dots_half, Set.image_image]
  refine Set.image_congr fun p hp ↦ ?_
  have := picture.inside p hp
  rw [Prod.mk.injEq]
  omega

@[simp]
theorem iterate_quarter_four : quarter^[4] picture = picture := by
  refine Picture.ext rfl rfl ?_
  change (fun q ↦ (picture.width - 1 - q.2, q.1)) '' (quarter^[3] picture).dots = _
  rw [dots_threeQuarter, Set.image_image]
  refine (Set.image_congr fun p hp ↦ ?_).trans (Set.image_id _)
  have := picture.inside p hp
  rw [id, Prod.ext_iff]
  dsimp only
  omega

theorem iterate_quarter_mod (turns : ℕ) : quarter^[turns % 4] picture = quarter^[turns] picture := by
  have hround (rounds : ℕ) : quarter^[4 * rounds] picture = picture := by
    rw [Function.iterate_mul]
    exact Function.iterate_fixed (iterate_quarter_four picture) rounds
  conv_rhs => rw [← Nat.mod_add_div turns 4, Function.iterate_add_apply, hround]

end Turns

end Picture

end Taskologic.Library
