import Mathlib
/-!
# The order of doubles away from NaN

A double's `<`, `≤` and `==` all read one comparison of the unpacked values, which is lexicographic
in three parts: a class (negative infinity, negative, zero, positive, positive infinity), then the
exponent and then the mantissa, both reversed for negative values. `rank` sends a double to that
triple, so on doubles that are not NaN the three relations are `<`, `≤` and `=` of a linear order
(`lt_iff_rank_lt`, `le_iff_rank_le`, `beq_iff_rank_eq`). Both zeros have one rank: they are `==`
to each other although their bits differ.
-/

namespace CoSimBridge.Number

open Float.Model (UnpackedFloat)
open Float.Model.UnpackedFloat

set_option autoImplicit false

/-- A triple of integers in lexicographic order. -/
def lexTriple (a b c : Int) : Int ×ₗ Int ×ₗ Int := toLex (a, toLex (b, c))

theorem compare_lexTriple (a b c a' b' c' : Int) :
    compare (lexTriple a b c) (lexTriple a' b' c') =
      (compare a a').then ((compare b b').then (compare c c')) := rfl

theorem compare_intCast_natCast (m n : Nat) : compare (m : Int) n = compare m n := by
  rcases lt_trichotomy m n with h | rfl | h
  · rw [compare_lt_iff_lt.mpr h, compare_lt_iff_lt.mpr (by exact_mod_cast h)]
  · simp
  · rw [compare_gt_iff_gt.mpr h, compare_gt_iff_gt.mpr (by exact_mod_cast h)]

theorem compare_neg_neg_int (a b : Int) : compare (-a) (-b) = compare b a := by
  rcases lt_trichotomy a b with h | rfl | h
  · rw [compare_gt_iff_gt.mpr (neg_lt_neg h), compare_gt_iff_gt.mpr h]
  · simp
  · rw [compare_lt_iff_lt.mpr (neg_lt_neg h), compare_lt_iff_lt.mpr h]

/-- Where an unpacked float stands: class first, then exponent and mantissa, which order
negative values the other way round. NaN is put last, but it compares with nothing. -/
def unpackedRank : UnpackedFloat → Int ×ₗ Int ×ₗ Int
  | .infinity .negative => lexTriple 0 0 0
  | .finite .negative m e _ => lexTriple 1 (-e) (-m)
  | .zero _ => lexTriple 2 0 0
  | .finite .positive m e _ => lexTriple 3 e m
  | .infinity .positive => lexTriple 4 0 0
  | .notANumber => lexTriple 5 0 0

/-- The comparison of two unpacked floats, neither NaN, is that of their ranks. -/
theorem compare_eq_unpackedRank {a b : UnpackedFloat} (ha : a.isNaN = false)
    (hb : b.isNaN = false) :
    a.compare b = some (compare (unpackedRank a) (unpackedRank b)) := by
  -- every pair of different classes is settled by the first part of the rank
  rcases a with (_ | _) | _ | (_ | _) | ⟨(_ | _), m₁, e₁, h₁⟩ <;>
  rcases b with (_ | _) | _ | (_ | _) | ⟨(_ | _), m₂, e₂, h₂⟩ <;>
  simp only [isNaN, Bool.true_eq_false] at ha hb <;> try rfl
  case finite.negative.finite.negative =>
    simp only [Float.Model.UnpackedFloat.compare, unpackedRank, compare_lexTriple,
      compare_neg_neg_int, compare_intCast_natCast, Std.ReflCmp.compare_self, Ordering.eq_then,
      Ordering.swap_then, Option.some.injEq]
    rw [← Std.OrientedOrd.eq_swap, ← Std.OrientedOrd.eq_swap]
  case finite.positive.finite.positive =>
    simp only [Float.Model.UnpackedFloat.compare, unpackedRank, compare_lexTriple,
      compare_intCast_natCast, Std.ReflCmp.compare_self, Ordering.eq_then]

/-- NaN compares with nothing, itself included. -/
theorem isNaN_eq_false_of_compare {a b : UnpackedFloat} {o : Ordering} (h : a.compare b = some o) :
    a.isNaN = false ∧ b.isNaN = false := by
  cases a <;> cases b <;> first | exact ⟨rfl, rfl⟩ | simp [Float.Model.UnpackedFloat.compare] at h

/-- The rank of a double in the order its comparisons read. -/
def rank (x : Float) : Int ×ₗ Int ×ₗ Int := unpackedRank x.toModel.unpack

theorem lt_iff_compare (x y : Float) :
    x < y ↔ x.toModel.unpack.compare y.toModel.unpack = some .lt := by
  show Float.lt x y = true ↔ _
  simp only [Float.lt, decide_eq_true_eq]
  show (x.toModel.unpack.compare y.toModel.unpack == some .lt) = true ↔ _
  simp

theorem le_iff_compare (x y : Float) :
    x ≤ y ↔ (x.toModel.unpack.compare y.toModel.unpack).any (·.isLE) = true := by
  show Float.le x y = true ↔ _
  simp only [Float.le, decide_eq_true_eq]
  rfl

section

variable {x y : Float}

theorem lt_iff_rank_lt (hx : x.isNaN = false) (hy : y.isNaN = false) :
    x < y ↔ rank x < rank y := by
  rw [lt_iff_compare, compare_eq_unpackedRank hx hy, Option.some.injEq, compare_lt_iff_lt]
  rfl

theorem le_iff_rank_le (hx : x.isNaN = false) (hy : y.isNaN = false) :
    x ≤ y ↔ rank x ≤ rank y := by
  rw [le_iff_compare, compare_eq_unpackedRank hx hy, Option.any_some, Ordering.isLE_iff_ne_gt,
    compare_gt_iff_gt, not_lt]
  rfl

theorem beq_iff_rank_eq (hx : x.isNaN = false) (hy : y.isNaN = false) :
    (x == y) = true ↔ rank x = rank y := by
  show (x.toModel.unpack.compare y.toModel.unpack == some .eq) = true ↔ _
  rw [compare_eq_unpackedRank hx hy, beq_iff_eq, Option.some.injEq, compare_eq_iff_eq]
  rfl

theorem beq_self (hx : x.isNaN = false) : (x == x) = true :=
  (beq_iff_rank_eq hx hx).mpr rfl

theorem beq_swap (hx : x.isNaN = false) (hy : y.isNaN = false) : (x == y) = (y == x) := by
  rw [Bool.eq_iff_iff, beq_iff_rank_eq hx hy, beq_iff_rank_eq hy hx, eq_comm]

theorem isNaN_eq_false_of_lt (h : x < y) : x.isNaN = false ∧ y.isNaN = false :=
  isNaN_eq_false_of_compare ((lt_iff_compare x y).mp h)

theorem isNaN_eq_false_of_le (h : x ≤ y) : x.isNaN = false ∧ y.isNaN = false := by
  obtain ⟨o, ho, -⟩ := (Option.any_eq_true _ _).mp ((le_iff_compare x y).mp h)
  exact isNaN_eq_false_of_compare ho

theorem isNaN_eq_false_of_beq (h : (x == y) = true) : x.isNaN = false ∧ y.isNaN = false := by
  have h' : (x.toModel.unpack.compare y.toModel.unpack == some .eq) = true := h
  exact isNaN_eq_false_of_compare (beq_iff_eq.mp h')

/-- A double `==` to one up to `z` is up to `z` too. -/
theorem le_of_beq_of_le {z : Float} (hxy : (x == y) = true) (hxz : x ≤ z) : y ≤ z := by
  obtain ⟨hx, hy⟩ := isNaN_eq_false_of_beq hxy
  have hz := (isNaN_eq_false_of_le hxz).2
  rw [le_iff_rank_le hy hz, ← (beq_iff_rank_eq hx hy).mp hxy]
  exact (le_iff_rank_le hx hz).mp hxz

theorem le_of_le_of_le {z : Float} (hxy : x ≤ y) (hyz : y ≤ z) : x ≤ z := by
  obtain ⟨hx, hy⟩ := isNaN_eq_false_of_le hxy
  have hz := (isNaN_eq_false_of_le hyz).2
  rw [le_iff_rank_le hx hz]
  exact ((le_iff_rank_le hx hy).mp hxy).trans ((le_iff_rank_le hy hz).mp hyz)

theorem not_le_iff_lt (hx : x.isNaN = false) (hy : y.isNaN = false) : ¬ x ≤ y ↔ y < x := by
  rw [le_iff_rank_le hx hy, lt_iff_rank_lt hy hx, not_le]

theorem not_lt_iff_le (hx : x.isNaN = false) (hy : y.isNaN = false) : ¬ x < y ↔ y ≤ x := by
  rw [lt_iff_rank_lt hx hy, le_iff_rank_le hy hx, not_lt]

end

end CoSimBridge.Number
