import Mathlib.Data.Nat.ModEq
import Mathlib.Tactic.SplitIfs

/-!
# Check digits of the hybrid systems

A hybrid system MOD `M + 1, M` keeps a running check below `M`: for each digit it doubles the check
modulo `M + 1`, reading 0 as `M`, and adds the digit modulo `M`. A string of digits is accepted when
its check is 1.

For an even `M` one step is injective in the check (`step_left_injective`) and in the digit
(`step_right_injective`). So one wrong digit is always seen (`checksum_ne_of_substitution`), and
there is exactly one last digit that makes a string accepted (`checksum_append_eq_one_iff`).
-/

set_option autoImplicit false
set_option relaxedAutoImplicit false

namespace Taskologic.Library.CheckDigit

/-- The check doubled modulo `M + 1`, with 0 read as `M`. -/
def double (M check : ℕ) : ℕ := (if check = 0 then M else check) * 2 % (M + 1)

/-- The check after one more digit. -/
def step (M check digit : ℕ) : ℕ := (double M check + digit) % M

/-- The check of a string of digits. Half of an even `M` doubles to `M`, as 0 does. -/
def checksum (M : ℕ) (digits : List ℕ) : ℕ := digits.foldl (step M) (M / 2)

/-- The digit that makes a string with this check accepted. -/
def closing (M check : ℕ) : ℕ := (1 + M - double M check) % M

section Even

variable {M : ℕ}

theorem double_eq (hM : Even M) {check : ℕ} (hcheck : check < M) :
    ∃ base, 1 ≤ base ∧ base ≤ M ∧ (check = 0 ∧ base = M ∨ check = base) ∧
      ((2 * base ≤ M ∧ double M check = 2 * base) ∨
        (M + 1 < 2 * base ∧ double M check = 2 * base - (M + 1))) := by
  have hreduce : ∀ base, 1 ≤ base → base ≤ M →
      (2 * base ≤ M ∧ base * 2 % (M + 1) = 2 * base) ∨
        (M + 1 < 2 * base ∧ base * 2 % (M + 1) = 2 * base - (M + 1)) := by
    intro base hpos hle
    obtain ⟨half, rfl⟩ := hM
    by_cases hsmall : 2 * base ≤ half + half
    · exact .inl ⟨hsmall, by rw [Nat.mod_eq_of_lt (by omega)]; omega⟩
    · refine .inr ⟨by omega, ?_⟩
      rw [Nat.mod_eq_sub_mod (by omega), Nat.mod_eq_of_lt (by omega)]
      omega
  unfold double
  split_ifs with hzero
  · exact ⟨M, by omega, le_rfl, .inl ⟨hzero, rfl⟩, hreduce M (by omega) le_rfl⟩
  · exact ⟨check, by omega, by omega, .inr rfl, hreduce check (by omega) (by omega)⟩

theorem double_pos (hM : Even M) {check : ℕ} (hcheck : check < M) : 1 ≤ double M check := by
  obtain ⟨base, hpos, -, -, hdouble⟩ := double_eq hM hcheck
  omega

theorem double_le (hM : Even M) {check : ℕ} (hcheck : check < M) : double M check ≤ M := by
  obtain ⟨base, -, hle, -, hdouble⟩ := double_eq hM hcheck
  omega

theorem double_injective (hM : Even M) {check other : ℕ} (hcheck : check < M) (hother : other < M)
    (h : double M check = double M other) : check = other := by
  obtain ⟨base, hpos, hle, hbase, hdouble⟩ := double_eq hM hcheck
  obtain ⟨base', hpos', hle', hbase', hdouble'⟩ := double_eq hM hother
  obtain ⟨half, rfl⟩ := hM
  omega

theorem step_lt (hM : 0 < M) (check digit : ℕ) : step M check digit < M := Nat.mod_lt _ hM

theorem step_right_injective {check digit other : ℕ} (hdigit : digit < M) (hother : other < M)
    (h : step M check digit = step M check other) : digit = other := by
  have hmod : digit ≡ other [MOD M] := Nat.ModEq.add_left_cancel' (double M check) h
  exact hmod.eq_of_lt_of_lt hdigit hother

theorem step_left_injective (hM : Even M) {check other digit : ℕ} (hcheck : check < M)
    (hother : other < M) (h : step M check digit = step M other digit) : check = other := by
  have hmod : double M check ≡ double M other [MOD M] := Nat.ModEq.add_right_cancel' digit h
  have hpred : double M check - 1 ≡ double M other - 1 [MOD M] := by
    apply Nat.ModEq.add_right_cancel' 1
    rwa [Nat.sub_add_cancel (double_pos hM hcheck), Nat.sub_add_cancel (double_pos hM hother)]
  have hle := double_le hM hcheck
  have hle' := double_le hM hother
  have hpos := double_pos hM hcheck
  have hpos' := double_pos hM hother
  have hsame := hpred.eq_of_lt_of_lt (by omega) (by omega)
  exact double_injective hM hcheck hother (by omega)

theorem foldl_lt (hM : 0 < M) {check : ℕ} (hcheck : check < M) (digits : List ℕ) :
    digits.foldl (step M) check < M := by
  induction digits generalizing check with
  | nil => exact hcheck
  | cons digit digits ih => exact ih (step_lt hM check digit)

theorem foldl_injective (hM : Even M) {check other : ℕ} (hcheck : check < M) (hother : other < M)
    (digits : List ℕ) (h : digits.foldl (step M) check = digits.foldl (step M) other) :
    check = other := by
  have hpos : 0 < M := by omega
  induction digits generalizing check other with
  | nil => exact h
  | cons digit digits ih =>
    exact step_left_injective hM hcheck hother (ih (step_lt hpos _ _) (step_lt hpos _ _) h)

theorem checksum_lt (hM : 0 < M) (digits : List ℕ) : checksum M digits < M :=
  foldl_lt hM (Nat.div_lt_self hM (by decide)) digits

/-- One wrong digit changes the check, wherever it stands. -/
theorem checksum_ne_of_substitution (hM : Even M) {digit other : ℕ} (hdigit : digit < M)
    (hother : other < M) (hne : digit ≠ other) (front back : List ℕ) :
    checksum M (front ++ digit :: back) ≠ checksum M (front ++ other :: back) := by
  have hpos : 0 < M := by omega
  intro h
  simp only [checksum, List.foldl_append, List.foldl_cons] at h
  have hstep := foldl_injective hM (step_lt hpos _ _) (step_lt hpos _ _) back h
  exact hne (step_right_injective hdigit hother hstep)

theorem closing_lt (hM : 0 < M) (check : ℕ) : closing M check < M := Nat.mod_lt _ hM

/-- A string is accepted with exactly one last digit. -/
theorem checksum_append_eq_one_iff (hM : Even M) (hone : 1 < M) {digit : ℕ} (hdigit : digit < M)
    (digits : List ℕ) :
    checksum M (digits ++ [digit]) = 1 ↔ digit = closing M (checksum M digits) := by
  have hlt : checksum M digits < M := checksum_lt (by omega) digits
  have hle := double_le hM hlt
  have hclosed : step M (checksum M digits) (closing M (checksum M digits)) = 1 := by
    unfold step closing
    rw [Nat.add_mod_mod, show double M (checksum M digits) + (1 + M - double M (checksum M digits)) =
      1 + M by omega, Nat.add_mod_right, Nat.mod_eq_of_lt hone]
  have hlast : checksum M (digits ++ [digit]) = step M (checksum M digits) digit := by
    simp only [checksum, List.foldl_append, List.foldl_cons, List.foldl_nil]
  rw [hlast]
  constructor
  · intro h
    exact step_right_injective hdigit (closing_lt (by omega) _) (h.trans hclosed.symm)
  · rintro rfl
    exact hclosed

end Even

end Taskologic.Library.CheckDigit
