import Mathlib.Tactic.Ring

/-!
# Numbers in positional notation

So many digits of a number in a base, most significant first, and the number that digits
stand for. Reading what was written gives the number back when the width is enough.
-/

namespace Nits.Logical

/-- The last `width` digits of `n`, most significant first. -/
def digitsOf (base width n : Nat) : List Nat :=
  (List.range width).reverse.map fun place => n / base ^ place % base

/-- The number whose digits are those of `start` and then these. -/
def valueOf (base start : Nat) (digits : List Nat) : Nat :=
  digits.foldl (fun value digit => value * base + digit) start

theorem length_digitsOf (base width n : Nat) : (digitsOf base width n).length = width := by
  simp [digitsOf]

theorem digitsOf_lt {base width n digit : Nat} (positive : 0 < base)
    (mem : digit ∈ digitsOf base width n) : digit < base := by
  obtain ⟨place, -, rfl⟩ := List.mem_map.mp mem
  exact Nat.mod_lt _ positive

theorem digitsOf_succ (base width n : Nat) :
    digitsOf base (width + 1) n = n / base ^ width % base :: digitsOf base width n := by
  simp [digitsOf, List.range_succ]

theorem valueOf_digitsOf (base start width n : Nat) :
    valueOf base start (digitsOf base width n) = start * base ^ width + n % base ^ width := by
  induction width generalizing start with
  | zero => simp [valueOf, digitsOf, Nat.mod_one]
  | succ width ih =>
    rw [digitsOf_succ]
    have later := ih (start * base + n / base ^ width % base)
    rw [valueOf, List.foldl_cons]
    refine later.trans ?_
    rw [Nat.mod_pow_succ]
    ring

/-- Enough digits give the number back. -/
theorem valueOf_digitsOf_of_lt {base width n : Nat} (small : n < base ^ width) :
    valueOf base 0 (digitsOf base width n) = n := by
  rw [valueOf_digitsOf, Nat.zero_mul, Nat.zero_add, Nat.mod_eq_of_lt small]

/-- A number is determined by enough digits, however these are written. -/
theorem digitsOf_inj {α : Type} {base width m n : Nat} {digit : Nat → α}
    (apart : ∀ a < base, ∀ b < base, digit a = digit b → a = b) (smallM : m < base ^ width)
    (smallN : n < base ^ width)
    (same : (digitsOf base width m).map digit = (digitsOf base width n).map digit) : m = n := by
  rcases base.eq_zero_or_pos with rfl | positive
  · cases width with
    | zero => omega
    | succ width => simp at smallM
  have read {a b : List Nat} (belowA : ∀ d ∈ a, d < base) (belowB : ∀ d ∈ b, d < base)
      (equal : a.map digit = b.map digit) : a = b := by
    induction a generalizing b with
    | nil => exact (List.map_eq_nil_iff.mp equal.symm).symm
    | cons first a ih =>
      cases b with
      | nil => cases equal
      | cons second b =>
        obtain ⟨head, tail⟩ := List.cons.inj equal
        obtain ⟨firstBelow, laterA⟩ := List.forall_mem_cons.mp belowA
        obtain ⟨secondBelow, laterB⟩ := List.forall_mem_cons.mp belowB
        rw [apart first firstBelow second secondBelow head, ih laterA laterB tail]
  have digits := read (fun _ => digitsOf_lt positive) (fun _ => digitsOf_lt positive) same
  rw [← valueOf_digitsOf_of_lt smallM, digits, valueOf_digitsOf_of_lt smallN]

/-- More digits give no smaller a number. -/
theorem le_valueOf {base : Nat} (positive : 0 < base) (start : Nat) (digits : List Nat) :
    start ≤ valueOf base start digits := by
  induction digits generalizing start with
  | nil => exact Nat.le_refl start
  | cons digit later ih =>
    have first : start ≤ start * base + digit :=
      (Nat.le_mul_of_pos_right start positive).trans (Nat.le_add_right _ _)
    exact first.trans (ih _)

end Nits.Logical
