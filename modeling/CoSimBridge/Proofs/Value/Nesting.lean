import Mathlib
import CoSimBridge.Value.Shape
import CoSimBridge.Proofs.Except
/-!
# Nesting and flattening array values

An FMU array holds its elements flat in row-major order; its wire value has one list level per
dimension. `Value.nest` cuts the flat list into the levels and `Value.flatten` takes them apart
again. For a shape with at least one dimension, every dimension but the last positive, the two
are inverse (`nest_flatten_inverse`): a list with as many elements as the shape holds nests and
flattens back to itself, and a value that flattens has as many elements as the shape holds and
nests back from them.

Both directions go by induction over the shape. The invariant linking them is the stride: at a
dimension `d` above a shape holding `m` elements, a flat list of `d * m` elements has stride
`m`, so nesting cuts it into `d` chunks of `m` elements, and these chunks are exactly what
flattening the `d` items of the level gives, one item each.
-/

namespace CoSimBridge

theorem List.mapM_option_eq_some_iff {α β : Type} {f : α → Option β} :
    ∀ {xs : List α} {ys : List β},
      xs.mapM f = some ys ↔ List.Forall₂ (fun x y => f x = some y) xs ys
  | [], ys => by
    simp only [List.mapM_nil, pure, Option.some.injEq, List.forall₂_nil_left_iff]
    exact eq_comm
  | x :: xs, ys => by
    rw [List.mapM_cons, List.forall₂_cons_left_iff]
    simp only [Option.bind_eq_bind, Option.bind_eq_some_iff, pure, Option.some.injEq,
      mapM_option_eq_some_iff]
    constructor
    · rintro ⟨y, hy, ys', hys, rfl⟩
      exact ⟨y, ys', hy, hys, rfl⟩
    · rintro ⟨y, ys', hy, hys, rfl⟩
      exact ⟨y, hy, ys', hys, rfl⟩

/-- Relating every element of a list to something relates the list to a list. -/
theorem List.exists_forall₂ {α β : Type} {R : α → β → Prop} :
    ∀ {xs : List α}, (∀ x ∈ xs, ∃ y, R x y) → ∃ ys, List.Forall₂ R xs ys
  | [], _ => ⟨[], .nil⟩
  | x :: xs, h => by
    obtain ⟨y, hy⟩ := h x List.mem_cons_self
    obtain ⟨ys, hys⟩ := exists_forall₂ fun x' hx' => h x' (List.mem_cons_of_mem x hx')
    exact ⟨y :: ys, .cons hy hys⟩

/-- What every related pair says of its right side holds of every element on the right. -/
theorem List.Forall₂.forall_mem_right {α β : Type} {R : α → β → Prop} {P : β → Prop}
    (hP : ∀ x y, R x y → P y) :
    ∀ {xs : List α} {ys : List β}, List.Forall₂ R xs ys → ∀ y ∈ ys, P y
  | _, _, .nil => fun _ h => absurd h List.not_mem_nil
  | _, _, .cons hxy h => fun y hy => by
    rcases List.mem_cons.mp hy with rfl | hy
    · exact hP _ _ hxy
    · exact forall_mem_right hP h y hy

namespace Value

variable {α : Type}

/-! ## Chunks of equal size -/

@[simp] theorem length_chunks (size : Nat) :
    ∀ (n : Nat) (xs : List α), (chunks size n xs).length = n
  | 0, _ => rfl
  | n + 1, xs => by simp [chunks, length_chunks size n]

/-- `n` chunks of `size` elements cut from a list of `size * n` elements join back to it. -/
theorem flatten_chunks (size : Nat) :
    ∀ (n : Nat) (xs : List α), xs.length = size * n → (chunks size n xs).flatten = xs
  | 0, xs, h => by simp_all [chunks]
  | n + 1, xs, h => by
    have hrest : (xs.drop size).length = size * n := by
      rw [List.length_drop, h, Nat.mul_succ, Nat.add_sub_cancel]
    rw [chunks, List.flatten_cons, flatten_chunks size n _ hrest, List.take_append_drop]

theorem length_of_mem_chunks (size : Nat) :
    ∀ (n : Nat) (xs : List α), xs.length = size * n →
      ∀ c ∈ chunks size n xs, c.length = size
  | 0, _, _, c, hc => by simp [chunks] at hc
  | n + 1, xs, h, c, hc => by
    have hrest : (xs.drop size).length = size * n := by
      rw [List.length_drop, h, Nat.mul_succ, Nat.add_sub_cancel]
    rcases List.mem_cons.mp hc with rfl | hc
    · rw [List.length_take, h, Nat.mul_succ]
      omega
    · exact length_of_mem_chunks size n _ hrest c hc

/-- Pieces of `size` elements each are the chunks of the list they join to. -/
theorem chunks_flatten (size : Nat) :
    ∀ (parts : List (List α)), (∀ p ∈ parts, p.length = size) →
      chunks size parts.length parts.flatten = parts
  | [], _ => rfl
  | p :: ps, h => by
    have hp : p.length = size := h p List.mem_cons_self
    rw [List.length_cons, chunks, List.flatten_cons, ← hp, List.take_left, List.drop_left,
      hp, chunks_flatten size ps fun q hq => h q (List.mem_cons_of_mem p hq)]

/-- Parts of `m` elements each join to `m` elements per part. -/
theorem length_flatten_of_forall {parts : List (List α)} {m : Nat}
    (h : ∀ p ∈ parts, p.length = m) : parts.flatten.length = parts.length * m := by
  rw [List.length_flatten, List.map_congr_left h, List.map_const', List.sum_replicate, smul_eq_mul]

/-! ## Flattening -/

theorem flatten_nil (v : Value) : flatten [] v = .ok [v] := rfl

/-- A level of a shape flattens when it is a list as long as its dimension whose items all
flatten by the rest of the shape; the result joins theirs. -/
theorem flatten_cons_eq_ok {d : Int} {rest : List Int} {v : Value} {xs : List Value} :
    flatten (d :: rest) v = .ok xs ↔
      ∃ items parts, v = .list items ∧ (items.length : Int) = d ∧
        List.Forall₂ (fun item part => flatten rest item = .ok part) items parts ∧
        xs = parts.flatten := by
  constructor
  · intro h
    cases v with
    | list items =>
      simp only [flatten] at h
      split at h
      · cases h
      · rename_i hlen
        obtain ⟨parts, hparts, h⟩ := Except.exists_of_bind_eq_ok h
        cases h
        exact ⟨items, parts, rfl, by simpa using hlen, List.mapM_except_forall₂ hparts, rfl⟩
    | _ => simp [flatten] at h
  · rintro ⟨items, parts, rfl, hlen, hparts, rfl⟩
    simp only [flatten, hlen, bne_self_eq_false, Bool.false_eq_true, ↓reduceIte]
    rw [List.mapM_except_of_forall₂ hparts]
    rfl

/-- What a value flattens to has as many elements as its shape holds. -/
theorem length_flatten : ∀ (shape : List Int) {v : Value} {xs : List Value},
    flatten shape v = .ok xs → (xs.length : Int) = shape.prod
  | [], v, xs, h => by
    cases h
    simp
  | d :: rest, v, xs, h => by
    obtain ⟨items, parts, rfl, hlen, hparts, rfl⟩ := flatten_cons_eq_ok.mp h
    -- every item flattens to as many elements as the rest of the shape holds
    have heach : ∀ p ∈ parts, ((Nat.cast ∘ List.length) p : Int) = rest.prod :=
      List.Forall₂.forall_mem_right (fun _ _ hitem => length_flatten rest hitem) hparts
    rw [List.length_flatten, Nat.cast_list_sum, List.map_map, List.map_congr_left heach,
      List.map_const', List.sum_replicate, nsmul_eq_mul, ← hparts.length_eq, hlen, List.prod_cons]

/-- Items that each flatten to themselves alone join to the list of items. -/
theorem flatten_of_forall₂_nil : ∀ {items : List Value} {parts : List (List Value)},
    List.Forall₂ (fun item part => flatten [] item = .ok part) items parts →
      parts.flatten = items
  | _, _, .nil => rfl
  | _, _, .cons h hs => by
    cases h
    rw [List.flatten_cons, flatten_of_forall₂_nil hs]
    rfl

/-! ## Nesting -/

/-- The shapes nesting is meant for: at least one dimension, and every dimension but the last
positive. -/
structure Nestable (shape : List Int) : Prop where
  ne_nil : shape ≠ []
  pos : ∀ d ∈ shape.dropLast, 0 < d

/-- Below a positive outer dimension lies a shape nesting is meant for. -/
theorem Nestable.cons {d e : Int} {rest : List Int} (h : Nestable (d :: e :: rest)) :
    0 < d ∧ Nestable (e :: rest) := by
  refine ⟨h.pos d (by simp), List.cons_ne_nil e rest, fun x hx => h.pos x ?_⟩
  rw [List.dropLast_cons_cons]
  exact List.mem_cons_of_mem d hx

/-- The last level keeps the whole list. -/
theorem nest_single (d : Int) (xs : List Value) : nest [d] xs = some (.list xs) := by
  rw [nest]

/-- A level above more levels cuts its list into as many chunks as its dimension, each as long
as the list divided by the dimension, and nests each chunk by the rest of the shape. -/
theorem nest_cons_cons {d e : Int} {rest : List Int} (hd : 0 < d) (xs : List Value) :
    nest (d :: e :: rest) xs =
      ((chunks (xs.length / d.toNat) d.toNat xs).mapM (nest (e :: rest))).map .list := by
  rw [nest, if_neg (not_le.mpr hd)]

/-- A list with as many elements as the shape holds nests, and flattens back to itself. -/
theorem flatten_nest : ∀ (shape : List Int), Nestable shape → ∀ xs : List Value,
    (xs.length : Int) = shape.prod → ∃ v, nest shape xs = some v ∧ flatten shape v = .ok xs
  | [], hs, _, _ => absurd rfl hs.ne_nil
  | [d], _, xs, hlen => by
    refine ⟨.list xs, nest_single d xs,
      flatten_cons_eq_ok.mpr ⟨xs, xs.map ([·]), rfl, ?_, ?_, ?_⟩⟩
    · simpa using hlen
    · exact List.forall₂_map_right_iff.mpr (List.forall₂_same.mpr fun _ _ => rfl)
    · rw [← List.flatMap_def, List.flatMap_singleton']
  | d :: e :: rest, hs, xs, hlen => by
    obtain ⟨hd, hrest⟩ := hs.cons
    -- the stride: the rest of the shape holds `m` elements, and the list `m` for each of `d`
    have hprod : 0 ≤ (e :: rest).prod :=
      nonneg_of_mul_nonneg_right (by rw [← List.prod_cons, ← hlen]; positivity) hd
    set m := ((e :: rest).prod).toNat
    have hxs : xs.length = m * d.toNat := by
      have : (xs.length : Int) = ((m * d.toNat : Nat) : Int) := by
        rw [hlen, List.prod_cons]
        push_cast
        rw [Int.toNat_of_nonneg hprod, Int.toNat_of_nonneg hd.le, mul_comm]
      exact_mod_cast this
    have hstride : xs.length / d.toNat = m := by
      rw [hxs, Nat.mul_div_cancel _ (by omega)]
    -- every chunk nests and flattens back, by the rest of the shape
    have hcs : ∀ c ∈ chunks m d.toNat xs,
        ∃ v, nest (e :: rest) c = some v ∧ flatten (e :: rest) v = .ok c := fun c hc =>
      flatten_nest (e :: rest) hrest c
        (by rw [length_of_mem_chunks m _ xs hxs c hc, Int.toNat_of_nonneg hprod])
    obtain ⟨vs, hvs⟩ := List.exists_forall₂ hcs
    refine ⟨.list vs, ?_, flatten_cons_eq_ok.mpr ⟨vs, chunks m d.toNat xs, rfl, ?_, ?_, ?_⟩⟩
    · rw [nest_cons_cons hd, hstride,
        List.mapM_option_eq_some_iff.mpr (hvs.imp fun _ _ h => h.1)]
      rfl
    · rw [← hvs.length_eq, length_chunks, Int.toNat_of_nonneg hd.le]
    · exact List.Forall₂.flip (hvs.imp fun _ _ h => h.2)
    · exact (flatten_chunks m _ xs hxs).symm

/-- A value that flattens nests back from what it flattened to. -/
theorem nest_flatten : ∀ (shape : List Int), Nestable shape → ∀ {v : Value} {xs : List Value},
    flatten shape v = .ok xs → nest shape xs = some v
  | [], hs, _, _, _ => absurd rfl hs.ne_nil
  | [d], _, v, xs, h => by
    obtain ⟨items, parts, rfl, -, hparts, rfl⟩ := flatten_cons_eq_ok.mp h
    rw [flatten_of_forall₂_nil hparts, nest_single]
  | d :: e :: rest, hs, v, xs, h => by
    obtain ⟨hd, hrest⟩ := hs.cons
    obtain ⟨items, parts, rfl, hlen, hparts, rfl⟩ := flatten_cons_eq_ok.mp h
    -- every part is as long as the rest of the shape holds, so the stride is that length
    set m := ((e :: rest).prod).toNat
    have heach : ∀ p ∈ parts, p.length = m :=
      List.Forall₂.forall_mem_right (fun _ p hp => by
        have := length_flatten (e :: rest) hp
        omega) hparts
    have hn : parts.length = d.toNat := by
      rw [← hparts.length_eq]
      omega
    have hstride : parts.flatten.length / d.toNat = m := by
      rw [length_flatten_of_forall heach, hn, Nat.mul_div_cancel_left _ (by omega)]
    rw [nest_cons_cons hd, hstride, ← hn, chunks_flatten m parts heach,
      List.mapM_option_eq_some_iff.mpr
        (List.Forall₂.flip (hparts.imp fun _ _ hp => nest_flatten (e :: rest) hrest hp))]
    rfl

/-- Nesting and flattening are inverse for a shape with at least one dimension, every dimension
but the last positive: a list with as many elements as the shape holds nests, and the nested
value flattens back to the list; a value that flattens has as many elements as the shape holds,
and nesting them gives the value back. -/
theorem nest_flatten_inverse {shape : List Int} (hs : Nestable shape) :
    (∀ xs : List Value, (xs.length : Int) = shape.prod →
      ∃ v, nest shape xs = some v ∧ flatten shape v = .ok xs) ∧
    ∀ (v : Value) (xs : List Value), flatten shape v = .ok xs →
      (xs.length : Int) = shape.prod ∧ nest shape xs = some v :=
  ⟨flatten_nest shape hs, fun _ _ h => ⟨length_flatten shape h, nest_flatten shape hs h⟩⟩

/-- Two rows of three, and two rows of none. -/
theorem nest_flatten_inverse_rows :
    Nestable [2, 3] ∧
    ((∀ xs : List Value, (xs.length : Int) = [2, 3].prod →
      ∃ v, nest [2, 3] xs = some v ∧ flatten [2, 3] v = .ok xs) ∧
    ∀ (v : Value) (xs : List Value), flatten [2, 3] v = .ok xs →
      (xs.length : Int) = [2, 3].prod ∧ nest [2, 3] xs = some v) :=
  have hs : Nestable [2, 3] := ⟨by decide, by decide⟩
  ⟨hs, nest_flatten_inverse hs⟩

example : nest [2, 0] [] = some (.list [.list [], .list []]) := by cbv

example : nest [2, 2] [.bool true, .bool false, .nil, .nil] =
    some (.list [.list [.bool true, .bool false], .list [.nil, .nil]]) := by cbv

end Value

end CoSimBridge
