import Mathlib
import CoSimBridge.Proofs.Fmu.Packing
/-!
# Slicing and concatenating native values

Native values keep their elements in three ways: fixed-width elements back to back in the
bytes, strings in a list, and byte strings back to back in the bytes with the list of their
sizes. A slice cuts each of these at the element bounds, the byte strings at the sums of the
sizes before and inside the range; a concatenation appends bytes, sizes and strings each on
their own.

Both are list homomorphisms on what the value holds (`NativeValues.Holds`): the slice from `a`
to `b` holds the elements from `a` to `b`, and the concatenation of values of one kind and
width holds the elements of the first followed by those of the second. For packed values this
reads on `unpack` (`pack_slice_concat`).
-/

namespace CoSimBridge

namespace Fmu

namespace NativeValues

variable {α : Type}

/-! ## Runs of a list -/

/-- The elements from `p` to `q` of the elements from `off` to `stop`. -/
theorem drop_take_run {l : List α} {off stop p q : Nat} (hq : off + q ≤ stop) :
    ((((l.take stop).drop off).take q).drop p) = (l.take (off + q)).drop (off + p) := by
  rw [List.take_drop, List.take_take, Nat.min_eq_left hq, List.drop_drop]

/-- A window of `w` elements, taken as a run. -/
theorem take_drop_window (l : List α) (i w : Nat) :
    (l.drop (i * w)).take w = (l.take ((i + 1) * w)).drop (i * w) := by
  rw [List.take_drop, Nat.succ_mul]

/-- The sum of a longer prefix adds the sum of the elements between. -/
theorem sum_take_eq_add {sz : List Nat} {j k : Nat} (hjk : j ≤ k) :
    (sz.take k).sum = (sz.take j).sum + ((sz.take k).drop j).sum := by
  rw [← List.sum_take_add_sum_drop (sz.take k) j, List.take_take, Nat.min_eq_left hjk]

/-- The window of element `i` of a run of whole elements from `a` to `b` is the window of element
`a + i` of the whole. -/
theorem window_run {l : List α} {a b i w : Nat} (h : a + i + 1 ≤ b) :
    (((l.take (b * w)).drop (a * w)).drop (i * w)).take w = (l.drop ((a + i) * w)).take w := by
  have hle : a * w + i * w + w ≤ b * w := by
    rw [← Nat.add_mul, ← Nat.succ_mul]
    exact Nat.mul_le_mul_right w h
  rw [List.drop_drop, List.take_drop, List.take_take, Nat.min_eq_left hle, List.take_drop,
    Nat.add_mul]

/-- The sizes of the first `m` elements of a run from `a` add up, after the sizes before `a`, to
the sizes before `a + m`. -/
theorem sum_take_run (sz : List Nat) {a b m : Nat} (hm : a + m ≤ b) :
    (sz.take a).sum + (((sz.take b).drop a).take m).sum = (sz.take (a + m)).sum := by
  rw [List.take_drop, List.take_take, Nat.min_eq_left hm,
    sum_take_eq_add (Nat.le_add_right a m)]

/-! ## What a slice keeps -/

variable {nv : NativeValues} {vs : List Value} {a b : Nat}

@[simp] theorem slice_kind (nv : NativeValues) (a b : Nat) : (nv.slice a b).kind = nv.kind := by
  unfold slice
  split <;> rfl

@[simp] theorem slice_enumWidth (nv : NativeValues) (a b : Nat) :
    (nv.slice a b).enumWidth = nv.enumWidth := by
  unfold slice
  split <;> rfl

/-- The width of an element depends on the kind and the enumeration width alone. -/
theorem width_congr {nv nv' : NativeValues} (hk : nv'.kind = nv.kind)
    (hw : nv'.enumWidth = nv.enumWidth) : nv'.width = nv.width := by
  simp only [width, hk, hw]

theorem width_string (hk : nv.kind = .string) : nv.width = 0 := by
  simp [width, hk]

theorem width_binary (hk : nv.kind = .binary) : nv.width = 0 := by
  simp [width, hk]

theorem width_slice (nv : NativeValues) (a b : Nat) : (nv.slice a b).width = nv.width :=
  width_congr (slice_kind nv a b) (slice_enumWidth nv a b)

theorem len_string (hk : nv.kind = .string) : nv.len = (nv.strings.getD []).length := by
  simp [len, hk]

theorem len_binary (hk : nv.kind = .binary) : nv.len = (nv.sizes.getD []).length := by
  simp [len, hk]

/-- The kinds split into strings, byte strings, fixed widths, and kinds without elements. -/
theorem kind_split (nv : NativeValues) :
    nv.kind = .string ∨ nv.kind = .binary ∨ 0 < nv.width ∨
      (nv.kind ≠ .string ∧ nv.kind ≠ .binary ∧ nv.width = 0) := by
  by_cases hs : nv.kind = .string
  · exact .inl hs
  by_cases hb : nv.kind = .binary
  · exact .inr (.inl hb)
  rcases Nat.eq_zero_or_pos nv.width with h0 | hw
  · exact .inr (.inr (.inr ⟨hs, hb, h0⟩))
  · exact .inr (.inr (.inl hw))

/-- A value of a kind without elements holds none. -/
theorem len_of_width_zero (hs : nv.kind ≠ .string) (hb : nv.kind ≠ .binary)
    (h0 : nv.width = 0) : nv.len = 0 := by
  unfold len
  split
  · contradiction
  · contradiction
  · simp [h0]

theorem Holds.of_width_zero (hs : nv.kind ≠ .string) (hb : nv.kind ≠ .binary)
    (h0 : nv.width = 0) : nv.Holds [] where
  len_eq := len_of_width_zero hs hb h0
  at?_eq i hi := absurd hi (Nat.not_lt_zero i)
  fixed hw := absurd h0 (Nat.pos_iff_ne_zero.mp hw)
  sizes_sum h := absurd h hb

/-- The slice of strings holds the strings from `a` to `b`. -/
theorem Holds.slice_string (hh : nv.Holds vs) (hk : nv.kind = .string) (hb : b ≤ vs.length) :
    (nv.slice a b).Holds ((vs.take b).drop a) := by
  have hL : (nv.strings.getD []).length = vs.length := (len_string hk).symm.trans hh.len_eq
  have hk' : (nv.slice a b).kind = .string := (slice_kind nv a b).trans hk
  have hS : (nv.slice a b).strings.getD [] = ((nv.strings.getD []).take b).drop a := by
    cases hstr : nv.strings <;> simp [slice, hk, hstr]
  refine ⟨?_, fun i hi => ?_, fun hw => ?_, fun hbin => ?_⟩
  · rw [len_string hk', hS]
    simp [hL]
  · simp only [List.length_drop, List.length_take] at hi
    -- element `i` of the slice is element `a + i` of the whole
    have hall := hh.at?_eq (a + i) (by omega)
    rw [at?_string hk (by omega)] at hall
    rw [at?_string hk' (by rw [hS]; simp; omega)]
    simpa only [hS, List.getElem_drop, List.getElem_take] using hall
  · exact absurd (width_string hk') (Nat.pos_iff_ne_zero.mp hw)
  · rw [hk'] at hbin
    cases hbin

/-- The slice of byte strings holds the byte strings from `a` to `b`: its bytes run from the sum
of the sizes before `a` to the sum of the sizes before `b`. -/
theorem Holds.slice_binary (hh : nv.Holds vs) (hk : nv.kind = .binary) (hab : a ≤ b)
    (hb : b ≤ vs.length) : (nv.slice a b).Holds ((vs.take b).drop a) := by
  set sz := nv.sizes.getD [] with hsz
  have hlen : sz.length = vs.length := (len_binary hk).symm.trans hh.len_eq
  have hsum : sz.sum = nv.data.length := hh.sizes_sum hk
  have hk' : (nv.slice a b).kind = .binary := (slice_kind nv a b).trans hk
  have hS : (nv.slice a b).sizes.getD [] = (sz.take b).drop a := by
    cases h : nv.sizes <;> simp [slice, hk, h, sz]
  have hrun : (sz.take a).sum + ((sz.take b).drop a).sum = (sz.take b).sum :=
    (sum_take_eq_add hab).symm
  have hD : (nv.slice a b).data = (nv.data.take (sz.take b).sum).drop (sz.take a).sum := by
    simp only [slice, hk, ← List.sum_eq_foldl_nat, ← hsz, hrun]
  -- the sizes before `b` fit within the bytes
  have hstop : (sz.take b).sum ≤ nv.data.length := by
    rw [← hsum, ← List.sum_take_add_sum_drop sz b]
    exact Nat.le_add_right _ _
  refine ⟨?_, fun i hi => ?_, fun hw => ?_, fun _ => ?_⟩
  · rw [len_binary hk', hS]
    simp [hlen]
  · simp only [List.length_drop, List.length_take] at hi
    -- element `i` of the slice is element `a + i` of the whole, whose bytes end within the run
    have hi' : a + (i + 1) ≤ b := by omega
    have hend : (sz.take (a + (i + 1))).sum ≤ (sz.take b).sum := by
      rw [sum_take_eq_add hi']
      exact Nat.le_add_right _ _
    have hall := hh.at?_eq (a + i) (by omega)
    rw [at?_binary hk (by rw [← hsz]; omega), ← hsz] at hall
    rw [at?_binary hk' (by rw [hS, List.length_drop, List.length_take, hlen]; omega), hS, hD,
      drop_take_run (by rwa [sum_take_run sz hi']), sum_take_run sz hi',
      sum_take_run sz (by omega : a + i ≤ b), ← Nat.add_assoc, hall]
    simp only [List.getElem_drop, List.getElem_take]
  · exact absurd (width_binary hk') (Nat.pos_iff_ne_zero.mp hw)
  · rw [hS, hD, List.length_drop, List.length_take, Nat.min_eq_left hstop, ← hrun]
    omega

/-- The slice of fixed-width elements holds the elements from `a` to `b`: its bytes are their
windows. -/
theorem Holds.slice_fixed (hh : nv.Holds vs) (hw : 0 < nv.width) (hab : a ≤ b)
    (hb : b ≤ vs.length) : (nv.slice a b).Holds ((vs.take b).drop a) := by
  have hks : nv.kind ≠ .string := fun h => absurd (width_string h) (Nat.pos_iff_ne_zero.mp hw)
  have hkb : nv.kind ≠ .binary := fun h => absurd (width_binary h) (Nat.pos_iff_ne_zero.mp hw)
  have hw' : (nv.slice a b).width = nv.width := width_slice nv a b
  have hD : (nv.slice a b).data = (nv.data.take (b * nv.width)).drop (a * nv.width) := by
    unfold slice
    split <;> simp_all
  have hdata := hh.fixed hw
  have hlen : (nv.slice a b).data.length = nv.width * (b - a) := by
    have hbw : b * nv.width ≤ nv.data.length := by
      rw [hdata, Nat.mul_comm]
      exact Nat.mul_le_mul_left _ hb
    rw [hD, List.length_drop, List.length_take, Nat.min_eq_left hbw, Nat.mul_sub, Nat.mul_comm,
      Nat.mul_comm a]
  have hslen : (nv.slice a b).len = b - a := by
    rw [len_of_width (hw' ▸ hw), hw', hlen, Nat.mul_div_cancel_left _ hw]
  refine ⟨by simp [hslen]; omega, fun i hi => ?_, fun _ => ?_, fun h => ?_⟩
  · simp only [List.length_drop, List.length_take] at hi
    -- element `i` of the slice is read from the window of element `a + i` of the whole
    have hall := hh.at?_eq (a + i) (by omega)
    rw [at?_window hw (by rw [hh.len_eq]; omega)] at hall
    rw [at?_window (hw' ▸ hw) (by omega), hw', hD, window_run (by omega), slice_kind,
      slice_enumWidth, hall]
    simp only [List.getElem_drop, List.getElem_take]
  · rw [hw', hlen]
    simp
    omega
  · exact absurd ((slice_kind nv a b).symm.trans h) hkb

/-- A slice from `a` to `b` holds the elements from `a` to `b`. -/
theorem Holds.slice (hh : nv.Holds vs) (hab : a ≤ b) (hb : b ≤ vs.length) :
    (nv.slice a b).Holds ((vs.take b).drop a) := by
  rcases kind_split nv with hk | hk | hw | ⟨hks, hkb, h0⟩
  · exact hh.slice_string hk hb
  · exact hh.slice_binary hk hab hb
  · exact hh.slice_fixed hw hab hb
  · -- a kind without elements holds none, before and after
    have hvs : vs = [] := List.eq_nil_of_length_eq_zero (hh.len_eq ▸ len_of_width_zero hks hkb h0)
    subst hvs
    have hw0 : (nv.slice a b).width = 0 := (width_slice nv a b).trans h0
    simpa using Holds.of_width_zero (by rwa [slice_kind]) (by rwa [slice_kind]) hw0

/-! ## What a concatenation keeps -/

variable {x y : NativeValues} {xs ys : List Value}

@[simp] theorem concat_kind (x y : NativeValues) : (x.concat y).kind = x.kind := rfl

@[simp] theorem concat_enumWidth (x y : NativeValues) : (x.concat y).enumWidth = x.enumWidth := rfl

@[simp] theorem concat_data (x y : NativeValues) : (x.concat y).data = x.data ++ y.data := rfl

theorem concat_sizes (x y : NativeValues) :
    (x.concat y).sizes.getD [] = x.sizes.getD [] ++ y.sizes.getD [] := by
  cases hx : x.sizes <;> cases hy : y.sizes <;> simp [concat, hx, hy]

theorem concat_strings (x y : NativeValues) :
    (x.concat y).strings.getD [] = x.strings.getD [] ++ y.strings.getD [] := by
  cases hx : x.strings <;> cases hy : y.strings <;> simp [concat, hx, hy]

/-- The concatenation of strings holds the strings of both, in order. -/
theorem Holds.concat_string (hx : x.Holds xs) (hy : y.Holds ys) (hk : x.kind = .string)
    (hyk : y.kind = .string) : (x.concat y).Holds (xs ++ ys) := by
  have hLx : (x.strings.getD []).length = xs.length := (len_string hk).symm.trans hx.len_eq
  have hLy : (y.strings.getD []).length = ys.length := (len_string hyk).symm.trans hy.len_eq
  have hk' : (x.concat y).kind = .string := hk
  refine ⟨by simp [len_string hk', concat_strings, hLx, hLy], fun i hi => ?_,
    fun hw => absurd (width_string hk') (Nat.pos_iff_ne_zero.mp hw), fun h => ?_⟩
  · rw [List.length_append] at hi
    rw [at?_string hk' (by simp [concat_strings, hLx, hLy]; omega)]
    simp only [concat_strings]
    rcases Nat.lt_or_ge i xs.length with hix | hiy
    · -- a string of the first value
      have hall := hx.at?_eq i hix
      rw [at?_string hk (by omega)] at hall
      rw [List.getElem_append_left (by omega), List.getElem_append_left hix, hall]
    · -- a string of the second value, after those of the first
      have hall := hy.at?_eq (i - xs.length) (by omega)
      rw [at?_string hyk (by omega)] at hall
      rw [List.getElem_append_right (by omega), List.getElem_append_right hiy]
      simpa only [hLx] using hall
  · rw [hk'] at h
    cases h

/-- The concatenation of byte strings holds the byte strings of both, in order: the second's
bytes start where the first's sizes end. -/
theorem Holds.concat_binary (hx : x.Holds xs) (hy : y.Holds ys) (hk : x.kind = .binary)
    (hyk : y.kind = .binary) : (x.concat y).Holds (xs ++ ys) := by
  set sx := x.sizes.getD [] with hsx
  set sy := y.sizes.getD [] with hsy
  have hlx : sx.length = xs.length := (len_binary hk).symm.trans hx.len_eq
  have hly : sy.length = ys.length := (len_binary hyk).symm.trans hy.len_eq
  have hsumx : sx.sum = x.data.length := hx.sizes_sum hk
  have hsumy : sy.sum = y.data.length := hy.sizes_sum hyk
  have hk' : (x.concat y).kind = .binary := hk
  refine ⟨by simp [len_binary hk', concat_sizes, ← hsx, ← hsy, hlx, hly], fun i hi => ?_,
    fun hw => absurd (width_binary hk') (Nat.pos_iff_ne_zero.mp hw),
    fun _ => by simp [concat_sizes, ← hsx, ← hsy, hsumx, hsumy]⟩
  rw [List.length_append] at hi
  rw [at?_binary hk' (by simp [concat_sizes, ← hsx, ← hsy]; omega), concat_sizes, ← hsx,
    ← hsy, concat_data]
  rcases Nat.lt_or_ge i xs.length with hix | hiy
  · -- a byte string of the first value, whose bytes end within the first's
    have hall := hx.at?_eq i hix
    rw [at?_binary hk (by rw [← hsx]; omega), ← hsx] at hall
    have hend : (sx.take (i + 1)).sum ≤ x.data.length := by
      rw [← hsumx, ← List.sum_take_add_sum_drop sx (i + 1)]
      exact Nat.le_add_right _ _
    have hto : (sx ++ sy).take (i + 1) = sx.take (i + 1) := List.take_append_of_le_length (by omega)
    have hfrom : (sx ++ sy).take i = sx.take i := List.take_append_of_le_length (by omega)
    rw [hto, hfrom, List.take_append_of_le_length hend, hall, List.getElem_append_left hix]
  · -- a byte string of the second value, after all the bytes of the first
    obtain ⟨j, rfl⟩ : ∃ j, i = xs.length + j := ⟨i - xs.length, by omega⟩
    have hall := hy.at?_eq j (by omega)
    rw [at?_binary hyk (by rw [← hsy]; omega), ← hsy] at hall
    -- the sizes before element `j` of the second value follow all the sizes of the first
    have hsizes : ∀ m, ((sx ++ sy).take (xs.length + m)).sum = x.data.length + (sy.take m).sum :=
      fun m => by rw [← hlx, List.take_length_add_append, List.sum_append, hsumx]
    rw [Nat.add_assoc, hsizes, hsizes, List.take_length_add_append,
      List.drop_length_add_append, hall, List.getElem_append_right (by omega)]
    simp

/-- The concatenation of fixed-width elements of one width holds the elements of both, in
order: the second's windows follow the first's bytes. -/
theorem Holds.concat_fixed (hx : x.Holds xs) (hy : y.Holds ys) (hw : 0 < x.width)
    (hyk : y.kind = x.kind) (hye : y.enumWidth = x.enumWidth) : (x.concat y).Holds (xs ++ ys) := by
  have hwy : y.width = x.width := width_congr hyk hye
  have hdx := hx.fixed hw
  have hdy := hy.fixed (hwy ▸ hw)
  rw [hwy] at hdy
  have hlen : (x.concat y).data.length = x.width * (xs ++ ys).length := by
    simp [hdx, hdy, Nat.mul_add]
  have hclen : (x.concat y).len = (xs ++ ys).length := by
    rw [len_of_width ((width_concat x y).symm ▸ hw), width_concat, hlen,
      Nat.mul_div_cancel_left _ hw]
  refine ⟨hclen, fun i hi => ?_, fun _ => by rw [width_concat, hlen], fun h => ?_⟩
  · rw [at?_window ((width_concat x y).symm ▸ hw) (by omega), width_concat, concat_kind,
      concat_enumWidth, concat_data]
    rw [List.length_append] at hi
    rcases Nat.lt_or_ge i xs.length with hix | hiy
    · -- a window within the first value's bytes
      have hall := hx.at?_eq i hix
      rw [at?_window hw (by rw [hx.len_eq]; exact hix)] at hall
      have hfit : i * x.width + x.width ≤ x.data.length := by
        rw [hdx, ← Nat.succ_mul, Nat.mul_comm]
        exact Nat.mul_le_mul_left _ hix
      rw [List.drop_append_of_le_length (by omega),
        List.take_append_of_le_length (by simp; omega), hall, List.getElem_append_left hix]
    · -- a window of the second value, after all the bytes of the first
      obtain ⟨j, rfl⟩ : ∃ j, i = xs.length + j := ⟨i - xs.length, by omega⟩
      have hall := hy.at?_eq j (by omega)
      rw [at?_window (hwy ▸ hw) (by rw [hy.len_eq]; omega), hwy, hyk, hye] at hall
      rw [show (xs.length + j) * x.width = x.data.length + j * x.width by
          rw [hdx, Nat.add_mul, Nat.mul_comm],
        List.drop_length_add_append, hall, List.getElem_append_right (by omega)]
      simp
  · have hkb : x.kind = .binary := h
    exact absurd (width_binary hkb) (Nat.pos_iff_ne_zero.mp hw)

/-- Concatenating a value of the same kind and width holds the elements of both, in order. -/
theorem Holds.concat (hx : x.Holds xs) (hy : y.Holds ys) (hyk : y.kind = x.kind)
    (hye : y.enumWidth = x.enumWidth) : (x.concat y).Holds (xs ++ ys) := by
  rcases kind_split x with hk | hk | hw | ⟨hks, hkb, h0⟩
  · exact hx.concat_string hy hk (hyk.trans hk)
  · exact hx.concat_binary hy hk (hyk.trans hk)
  · exact hx.concat_fixed hy hw hyk hye
  · -- kinds without elements hold none on either side
    have hxs : xs = [] := List.eq_nil_of_length_eq_zero (hx.len_eq ▸ len_of_width_zero hks hkb h0)
    have hy0 : y.width = 0 := (width_congr hyk hye).trans h0
    have hys : ys = [] := List.eq_nil_of_length_eq_zero
      (hy.len_eq ▸ len_of_width_zero (hyk ▸ hks) (hyk ▸ hkb) hy0)
    subst hxs hys
    exact Holds.of_width_zero hks hkb ((width_concat x y).trans h0)

end NativeValues

open NativeValues

/-- Slicing and concatenating packed values are list homomorphisms on their elements: the slice
of a packed value from `a` to `b` unpacks to its elements from `a` to `b`, and a packed value
followed by another packed in the same kind and width unpacks to the elements of the first
followed by those of the second. -/
theorem pack_slice_concat {k : Kind} {w : Int} {vs us : List Value} {x y : NativeValues}
    (hx : pack k w vs = .ok x) (hy : pack k w us = .ok y) :
    (∀ a b, a ≤ b → b ≤ x.len →
      ∃ xs, x.unpack = .ok xs ∧ (x.slice a b).unpack = .ok ((xs.take b).drop a)) ∧
    ∃ xs ys, x.unpack = .ok xs ∧ y.unpack = .ok ys ∧
      (x.concat y).unpack = .ok (xs ++ ys) := by
  obtain ⟨hhx, hkx, hwx⟩ := pack_holds hx
  obtain ⟨hhy, hky, hwy⟩ := pack_holds hy
  refine ⟨fun a b hab hb => ⟨vs, hhx.unpack, (hhx.slice hab (hhx.len_eq ▸ hb)).unpack⟩,
    vs, us, hhx.unpack, hhy.unpack, ?_⟩
  exact (hhx.concat hhy (hky.trans hkx.symm) (hwy.trans hwx.symm)).unpack

/-- Two byte strings, sliced anywhere, and followed by a third. -/
theorem pack_slice_concat_bytes :
    ∃ x y, pack .binary 8 [.bytes [1, 2], .bytes [3]] = .ok x ∧
      pack .binary 8 [.bytes [4]] = .ok y ∧
      ((∀ a b, a ≤ b → b ≤ x.len →
        ∃ xs, x.unpack = .ok xs ∧ (x.slice a b).unpack = .ok ((xs.take b).drop a)) ∧
      ∃ xs ys, x.unpack = .ok xs ∧ y.unpack = .ok ys ∧
        (x.concat y).unpack = .ok (xs ++ ys)) := by
  have hx : pack .binary 8 [.bytes [1, 2], .bytes [3]] =
      .ok { kind := .binary, enumWidth := 8, data := [1, 2, 3], sizes := some [2, 1] } := by
    cbv
  have hy : pack .binary 8 [.bytes [4]] =
      .ok { kind := .binary, enumWidth := 8, data := [4], sizes := some [1] } := by
    cbv
  exact ⟨_, _, hx, hy, pack_slice_concat hx hy⟩

example : (({ kind := .binary, enumWidth := 8, data := [1, 2, 3], sizes := some [2, 1] } :
    NativeValues).slice 1 2).unpack = .ok [.bytes [3]] := by
  cbv

end Fmu

end CoSimBridge
