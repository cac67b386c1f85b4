import Mathlib
import CoSimBridge.Fmu.Model
import CoSimBridge.Proofs.Except
/-!
# Array shapes in 64-bit arithmetic

A dimension declares its size either as a fixed start value or through the start value of a
structural parameter. The shape of a variable holds each declared size read as a signed 64-bit
word, and the element count of a shape multiplies in the same arithmetic. Main statement
(`shape_sizes_wrap`): the shape's entries are the declared sizes reduced into the signed 64-bit
range, and the element count is the exact product of the declared sizes reduced the same way;
an entry is its size exactly when the size is below 2^63, and the count is the product exactly
when the product is. A size of 2^63, or two sizes of 2^32, show that the reduction happens.
-/

namespace CoSimBridge.Fmu
set_option autoImplicit false

/-! ## Signed 64-bit words -/

theorem signed64_eq_self_iff (x : Int) : signed64 x = x ↔ -2 ^ 63 ≤ x ∧ x < 2 ^ 63 := by
  have hm : ((Nat.pow 2 64 : Nat) : Int) = 2 ^ 64 := by norm_num [Nat.pow_eq]
  constructor
  · intro h
    rw [← h, signed64]
    have lo := Int.le_bmod (x := x) (m := Nat.pow 2 64) (by decide)
    have hi := Int.bmod_lt (x := x) (m := Nat.pow 2 64) (by decide)
    rw [hm] at lo hi
    constructor <;> omega
  · rintro ⟨lo, hi⟩
    apply Int.bmod_eq_of_le <;> rw [hm] <;> omega

/-- A natural number is its own signed 64-bit word exactly when it is below 2^63. -/
theorem signed64_natCast_eq_self_iff (n : Nat) : signed64 n = n ↔ n < 2 ^ 63 := by
  rw [signed64_eq_self_iff]
  omega

/-- Multiplying sizes one after another, each reduced to a word, reduces the exact product. -/
theorem signed64_foldl_mul (sizes : List Nat) :
    ∀ acc : Int, signed64 ((sizes.map fun n : Nat => signed64 n).foldl (· * ·) acc) =
      signed64 (acc * sizes.prod) := by
  induction sizes with
  | nil => simp
  | cons n sizes ih =>
    intro acc
    rw [List.map_cons, List.foldl_cons, ih, List.prod_cons, Nat.cast_mul]
    calc signed64 (acc * signed64 n * sizes.prod)
        = signed64 (signed64 n * (acc * sizes.prod)) := by ring_nf
      _ = signed64 (n * (acc * sizes.prod)) := Int.bmod_mul_bmod
      _ = signed64 (acc * (n * sizes.prod)) := by ring_nf

/-- The element count of reduced sizes is the exact product, reduced. -/
theorem elementCount_map_signed64 (sizes : List Nat) :
    elementCount (sizes.map fun n : Nat => signed64 n) = signed64 sizes.prod := by
  rw [elementCount, signed64_foldl_mul, one_mul]

/-! ## Declared sizes -/

/-- The size a dimension declares in a model description: its fixed start value, or the start
value of the structural parameter it references, read as an unsigned 64-bit number. -/
inductive Dimension.Sized (md : ModelDescription) : Dimension → Nat → Prop
  | fixed (n : Nat) : Sized md (.fixed n) n
  | parameter {vr n : Nat} {p : Variable} (hp : md.byReference? vr = some p)
      (hn : Number.readUnsigned (Text.trim p.start) 64 = .ok n) : Sized md (.parameter vr) n

namespace Dimension

variable {md : ModelDescription}

@[simp] theorem sized_fixed_iff {n m : Nat} : Sized md (.fixed n) m ↔ m = n := by
  constructor
  · rintro ⟨⟩
    rfl
  · rintro rfl
    exact .fixed _

@[simp] theorem sized_parameter_iff {vr n : Nat} :
    Sized md (.parameter vr) n ↔
      ∃ p, md.byReference? vr = some p ∧ Number.readUnsigned (Text.trim p.start) 64 = .ok n := by
  constructor
  · rintro ⟨⟩
    exact ⟨_, ‹_›, ‹_›⟩
  · rintro ⟨p, hp, hn⟩
    exact .parameter hp hn

/-- A dimension declares at most one size. -/
theorem Sized.unique {d : Dimension} {n m : Nat} (hn : Sized md d n) (hm : Sized md d m) :
    n = m := by
  cases hn with
  | fixed => exact (sized_fixed_iff.1 hm).symm
  | parameter hp hr =>
    obtain ⟨p', hp', hr'⟩ := sized_parameter_iff.1 hm
    rw [hp] at hp'
    cases hp'
    rw [hr] at hr'
    cases hr'
    rfl

end Dimension

namespace ModelDescription

variable {md : ModelDescription} {v : Variable} {s : List Int}

/-- A shape succeeds exactly when every dimension declares a size, and then holds each size
as a signed 64-bit word. -/
theorem shape_eq_ok_iff :
    md.shape v = .ok s ↔
      List.Forall₂ (fun d x => ∃ n, Dimension.Sized md d n ∧ x = signed64 n) v.dimensions s := by
  rw [shape, List.mapM_except_eq_ok_iff]
  conv_rhs => rw [← List.zipIdx_map_fst 0 v.dimensions, List.forall₂_map_left_iff]
  apply Iff.of_eq
  congr 1
  funext ⟨d, i⟩ x
  apply propext
  -- only the dimension matters: the index is read by the failure texts alone
  cases d with
  | fixed n => simp [eq_comm]
  | parameter vr =>
    cases hp : md.byReference? vr with
    | none => simp [hp]
    | some p =>
      cases hn : Number.readUnsigned (Text.trim p.start) 64 with
      | error e => simp [hp, hn]
      | ok n => simp [hp, hn, eq_comm]

/-- The sizes behind a successful shape. -/
theorem shape_sized (h : md.shape v = .ok s) :
    ∃ sizes : List Nat, List.Forall₂ (Dimension.Sized md) v.dimensions sizes ∧
      s = sizes.map fun n : Nat => signed64 n := by
  have hall := shape_eq_ok_iff.1 h
  clear h
  generalize v.dimensions = ds at hall ⊢
  induction hall with
  | nil => exact ⟨[], .nil, rfl⟩
  | cons hd _ ih =>
    obtain ⟨n, hn, hx⟩ := hd
    obtain ⟨sizes, hsizes, hs⟩ := ih
    exact ⟨n :: sizes, .cons hn hsizes, by rw [hx, hs, List.map_cons]⟩

/-- Every entry of a shape is its dimension's declared size reduced into the signed 64-bit
range, and the element count is the exact product of the declared sizes reduced the same way;
an entry is its size, and the count the product, exactly when that value is below 2^63. -/
theorem shape_sizes_wrap (h : md.shape v = .ok s) :
    ∃ sizes : List Nat, List.Forall₂ (Dimension.Sized md) v.dimensions sizes ∧
      List.Forall₂ (fun (x : Int) (n : Nat) => x = signed64 n ∧ (x = n ↔ n < 2 ^ 63)) s sizes ∧
      elementCount s = signed64 sizes.prod ∧
      (elementCount s = sizes.prod ↔ sizes.prod < 2 ^ 63) := by
  obtain ⟨sizes, hsized, rfl⟩ := shape_sized h
  have hentries : ∀ ns : List Nat,
      List.Forall₂ (fun (x : Int) (n : Nat) => x = signed64 n ∧ (x = n ↔ n < 2 ^ 63))
        (ns.map fun n : Nat => signed64 n) ns := by
    intro ns
    induction ns with
    | nil => exact .nil
    | cons n ns ih => exact .cons ⟨rfl, signed64_natCast_eq_self_iff n⟩ ih
  refine ⟨sizes, hsized, hentries sizes, elementCount_map_signed64 sizes, ?_⟩
  rw [elementCount_map_signed64]
  exact signed64_natCast_eq_self_iff _

/-- A grid whose rows are counted by a structural parameter: shape and count are exact. -/
theorem shape_sizes_wrap_parameter_rows :
    let md : ModelDescription :=
      { modelVariables := [{ name := "n", vr := 12, start := "3" }] };
    let v : Variable := { name := "grid", vr := 15, dimensions := [.parameter 12, .fixed 2] };
    md.shape v = .ok [3, 2] ∧
      ∃ sizes : List Nat, List.Forall₂ (Dimension.Sized md) v.dimensions sizes ∧
        List.Forall₂ (fun (x : Int) (n : Nat) => x = signed64 n ∧ (x = n ↔ n < 2 ^ 63))
          [3, 2] sizes ∧
        elementCount [3, 2] = signed64 sizes.prod ∧
        (elementCount [3, 2] = sizes.prod ↔ sizes.prod < 2 ^ 63) := by
  intro md v
  have hstart : Number.readUnsigned (Text.trim "3") 64 = .ok 3 := by decide
  have h : md.shape v = .ok [3, 2] := by
    simp [md, v, shape, byReference?, signed64, hstart]
    rfl
  exact ⟨h, shape_sizes_wrap h⟩

/-- A fixed size of 2^63 is read as -2^63, and two sizes of 2^32 count no elements. -/
theorem shape_wraps_past_signed_range :
    ModelDescription.shape {} { name := "y", vr := 1, dimensions := [.fixed (2 ^ 63)] } =
        .ok [-2 ^ 63] ∧
      ModelDescription.shape {}
          { name := "z", vr := 2, dimensions := [.fixed (2 ^ 32), .fixed (2 ^ 32)] } =
        .ok [2 ^ 32, 2 ^ 32] ∧
      elementCount [2 ^ 32, 2 ^ 32] = 0 := by
  refine ⟨?_, ?_, by decide⟩
  · simp [shape, signed64]
  · simp [shape, signed64]
    rfl

end ModelDescription

end CoSimBridge.Fmu
