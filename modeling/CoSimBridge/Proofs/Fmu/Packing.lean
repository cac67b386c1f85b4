import CoSimBridge.Fmu.Native
import CoSimBridge.Proofs.Wire.Primitives
/-! Packing native values. Elements of a fixed-width kind are written one after the other, each
as its bit pattern in the kind's width (four bytes for booleans and enumerations when
enumerations are four bytes wide); strings are kept one per element and byte strings are
concatenated with their sizes. Reading element `i` back takes the `i`-th window of bytes, the
`i`-th string, or the bytes the sizes before `i` skip. Packing a list accepts exactly the
elements of the kind's own type, enumerations within 32 bits when they are four bytes wide, and
every accepted list unpacks to itself. The first refused element names the failure. -/

namespace CoSimBridge
set_option autoImplicit false

/-- Whether `v` has the type of the elements of kind `k`: a boolean for booleans and clocks, a
64-bit integer for enumerations, a byte string for binaries and the matching type otherwise. -/
def Kind.holds : Kind → Value → Bool
  | .bool, .bool _ | .clock, .bool _ | .int8, .int8 _ | .uint8, .uint8 _ | .int16, .int16 _
  | .uint16, .uint16 _ | .int32, .int32 _ | .uint32, .uint32 _ | .int64, .int64 _
  | .uint64, .uint64 _ | .float32, .float32 _ | .float64, .float64 _ | .enum, .int64 _
  | .string, .string _ | .binary, .bytes _ => true
  | _, _ => false

namespace Fmu
open Wire

/-- Why the elements of kind `k` with enumeration width `w` refuse `v`, if they do: a value of
another type, or an enumeration outside 32 bits when enumerations are four bytes wide. -/
def refusal (k : Kind) (w : Int) (v : Value) : Option Condition :=
  if !k.holds v then some .valueType
  else match k, v with
    | .enum, .int64 x =>
      if w = 4 ∧ (x.toInt < -2 ^ 31 ∨ 2 ^ 31 ≤ x.toInt) then some .enumRange else none
    | _, _ => none

/-- The residue of a two's complement pattern, balanced, is the value it stands for. -/
theorem bmod_toNat_emod {w : Nat} (x : BitVec w) :
    ((x.toNat : Int) % ((2 ^ w : Nat) : Int)).bmod (2 ^ w : Nat) = x.toInt := by
  rw [Int.emod_eq_of_lt (by positivity) (by exact_mod_cast x.isLt), BitVec.toInt_eq_toNat_bmod]

/-- The results of `f` on `0, …, n - 1`, for `n` the length of `vs`, are the elements of `vs`. -/
theorem mapM_range_eq_ok {β ε : Type} {f : Nat → Except ε β} {vs : List β}
    (h : ∀ i (hi : i < vs.length), f i = .ok vs[i]) : (List.range vs.length).mapM f = .ok vs := by
  suffices ∀ n (hn : n ≤ vs.length), (List.range n).mapM f = .ok (vs.take n) by
    simpa using this vs.length le_rfl
  intro n hn
  induction n with
  | zero => rfl
  | succ n ih =>
    rw [List.range_succ, List.mapM_append, ih (by omega), List.take_add_one,
      List.getElem?_eq_getElem (by omega)]
    simp [h n (by omega), bind, Except.bind, pure, Except.pure]

namespace NativeValues

/-! Reading an element of a fixed-width kind. -/

theorem len_of_width {nv : NativeValues} (hw : 0 < nv.width) :
    nv.len = nv.data.length / nv.width := by
  obtain ⟨k, ew, data, sizes, strings⟩ := nv
  cases k <;> simp_all [len, width]

/-- Element `i` of a fixed-width kind is read from its own window of bytes alone. -/
theorem at?_window {nv : NativeValues} {i : Nat} (hw : 0 < nv.width) (hi : i < nv.len) :
    nv.at? i =
      (mk nv.kind nv.enumWidth ((nv.data.drop (i * nv.width)).take nv.width) none none).at? 0 := by
  set nv₁ := mk nv.kind nv.enumWidth ((nv.data.drop (i * nv.width)).take nv.width) none none
  have hw1 : nv₁.width = nv.width := by simp only [nv₁, width]
  have hfill : (i + 1) * nv.width ≤ nv.data.length := by
    rw [len_of_width hw] at hi
    exact (Nat.le_div_iff_mul_le hw).mp hi
  have hlen1 : nv₁.len = 1 := by
    rw [len_of_width (hw1 ▸ hw), hw1]
    simp only [nv₁, List.length_take, List.length_drop]
    rw [Nat.min_eq_left (by rw [Nat.add_mul] at hfill; omega), Nat.div_self hw]
  unfold at?
  rw [if_neg (by simp; omega), if_neg (by simp [hlen1])]
  simp only [Int.toNat_natCast, Int.toNat_zero, Nat.zero_mul, List.drop_zero, hw1, nv₁,
    List.take_take, Nat.min_self]
  -- only the two variable-width kinds read anything but the window
  cases hk : nv.kind with
  | string => simp [width, hk] at hw
  | binary => simp [width, hk] at hw
  | _ => rfl

/-- Element `i` of strings is the `i`-th string. -/
theorem at?_string {nv : NativeValues} (hk : nv.kind = .string) {i : Nat}
    (hi : i < (nv.strings.getD []).length) :
    nv.at? i = .ok (.string (nv.strings.getD [])[i]) := by
  have hlen : nv.len = (nv.strings.getD []).length := by simp [len, hk]
  unfold at?
  rw [if_neg (by simp [hlen]; omega)]
  simp [hk, List.head?_drop, List.getElem?_eq_getElem hi]

/-- Element `i` of byte strings is the run of bytes after the sizes before `i`. -/
theorem at?_binary {nv : NativeValues} (hk : nv.kind = .binary) {i : Nat}
    (hi : i < (nv.sizes.getD []).length) :
    nv.at? i = .ok (.bytes ((nv.data.take ((nv.sizes.getD []).take (i + 1)).sum).drop
      ((nv.sizes.getD []).take i).sum)) := by
  have hlen : nv.len = (nv.sizes.getD []).length := by simp [len, hk]
  have hsplit : ((nv.sizes.getD []).take i).sum + (((nv.sizes.getD []).take (i + 1)).drop i).sum =
      ((nv.sizes.getD []).take (i + 1)).sum := by
    rw [← List.sum_take_add_sum_drop ((nv.sizes.getD []).take (i + 1)) i, List.take_take,
      Nat.min_eq_left (Nat.le_succ i)]
  unfold at?
  rw [if_neg (by simp [hlen]; omega)]
  simp only [Int.toNat_natCast, hk, slice, ← List.sum_eq_foldl_nat, hsplit]

/-! Appending one element. -/

/-- An accepted element of a fixed-width kind is appended as one window of bytes that reads
back as the element. -/
theorem push_fixed {nv : NativeValues} {v : Value} (h : refusal nv.kind nv.enumWidth v = none)
    (hw : 0 < nv.width) :
    ∃ bs, nv.push v = .ok { nv with data := nv.data ++ bs } ∧ bs.length = nv.width ∧
      (mk nv.kind nv.enumWidth bs none none).at? 0 = .ok v := by
  obtain ⟨k, ew, data, sizes, strings⟩ := nv
  cases k <;> cases v <;> simp [refusal, Kind.holds] at h
  case bool.bool b =>
    refine ⟨_, rfl, by simp, ?_⟩
    by_cases h4 : ew = 4 <;> cases b <;>
      simp [at?, len, width, h4, List.take_of_length_le, ofLittleEndian_littleEndian]
  case clock.bool b =>
    refine ⟨_, rfl, by simp, ?_⟩
    cases b <;> simp [at?, len, width, List.take_of_length_le, ofLittleEndian_littleEndian]
  case int8.int8 x =>
    refine ⟨_, rfl, by simp [width, Kind.size], ?_⟩
    have hx := bmod_toNat_emod x.toBitVec
    norm_num at hx
    simp [at?, len, width, Kind.size, List.take_of_length_le, ofLittleEndian_littleEndian, hx]
  case int16.int16 x =>
    refine ⟨_, rfl, by simp [width, Kind.size], ?_⟩
    have hx := bmod_toNat_emod x.toBitVec
    norm_num at hx
    simp [at?, len, width, Kind.size, List.take_of_length_le, ofLittleEndian_littleEndian, hx]
  case int32.int32 x =>
    refine ⟨_, rfl, by simp [width, Kind.size], ?_⟩
    have hx := bmod_toNat_emod x.toBitVec
    norm_num at hx
    simp [at?, len, width, Kind.size, List.take_of_length_le, ofLittleEndian_littleEndian, hx]
  case int64.int64 x =>
    refine ⟨_, rfl, by simp [width, Kind.size], ?_⟩
    have hx := bmod_toNat_emod x.toBitVec
    norm_num at hx
    simp [at?, len, width, Kind.size, List.take_of_length_le, ofLittleEndian_littleEndian, hx]
  case uint8.uint8 x =>
    refine ⟨_, rfl, by simp [width, Kind.size], ?_⟩
    simp [at?, len, width, Kind.size, List.take_of_length_le, ofLittleEndian_littleEndian]
  case uint16.uint16 x =>
    refine ⟨_, rfl, by simp [width, Kind.size], ?_⟩
    simp [at?, len, width, Kind.size, List.take_of_length_le, ofLittleEndian_littleEndian]
  case uint32.uint32 x =>
    refine ⟨_, rfl, by simp [width, Kind.size], ?_⟩
    simp [at?, len, width, Kind.size, List.take_of_length_le, ofLittleEndian_littleEndian]
  case uint64.uint64 x =>
    refine ⟨_, rfl, by simp [width, Kind.size], ?_⟩
    simp [at?, len, width, Kind.size, List.take_of_length_le, ofLittleEndian_littleEndian]
  case float32.float32 x =>
    refine ⟨_, rfl, by simp [width, Kind.size], ?_⟩
    simp [at?, len, width, Kind.size, List.take_of_length_le, ofLittleEndian_littleEndian]
  case float64.float64 x =>
    refine ⟨_, rfl, by simp [width, Kind.size], ?_⟩
    simp [at?, len, width, Kind.size, List.take_of_length_le, ofLittleEndian_littleEndian]
  case enum.int64 x =>
    by_cases h4 : ew = 4
    · -- four bytes: the value is within 32 bits, and its residue is balanced back
      subst h4
      obtain ⟨hlo, hhi⟩ := h rfl
      have hn : max (x.toInt % 4294967296) 0 = x.toInt % 4294967296 :=
        max_eq_left (Int.emod_nonneg _ (by norm_num))
      have hb : (x.toInt % 4294967296).bmod 4294967296 = x.toInt := by
        rw [show (4294967296 : Int) = ((4294967296 : Nat) : Int) from rfl, Int.emod_bmod]
        exact Int.bmod_eq_of_le_mul_two (by omega) (by omega)
      refine ⟨littleEndian 4 (x.toInt % Int.pow 2 32).toNat, ?_, by simp [width], ?_⟩
      · simp [push, width, Int.pow]
        omega
      · simp [at?, len, width, List.take_of_length_le, ofLittleEndian_littleEndian, Int.pow, hn, hb]
    · refine ⟨littleEndian 8 x.toBitVec.toNat, ?_, by simp [width, h4], ?_⟩
      · simp [push, width, h4]
      · have hx := bmod_toNat_emod x.toBitVec
        norm_num at hx
        simp [at?, len, width, h4, List.take_of_length_le, ofLittleEndian_littleEndian, hx]
  case string.string s => simp [width] at hw
  case binary.bytes b => simp [width] at hw

theorem push_string {nv : NativeValues} (hk : nv.kind = .string) (s : Bytes) :
    nv.push (.string s) = .ok { nv with strings := some (nv.strings.getD [] ++ [s]) } := by
  obtain ⟨k, ew, data, sizes, strings⟩ := nv
  subst hk
  rfl

theorem push_binary {nv : NativeValues} (hk : nv.kind = .binary) (b : Bytes) :
    nv.push (.bytes b) =
      .ok { nv with data := nv.data ++ b, sizes := some (nv.sizes.getD [] ++ [b.length]) } := by
  obtain ⟨k, ew, data, sizes, strings⟩ := nv
  subst hk
  rfl

/-- A refused element fails the append with its reason. -/
theorem push_refused {nv : NativeValues} {v : Value} {c : Condition}
    (h : refusal nv.kind nv.enumWidth v = some c) : ∃ e, nv.push v = .error e ∧ e.has c := by
  obtain ⟨k, ew, data, sizes, strings⟩ := nv
  cases k <;> cases v <;>
    simp [refusal, Kind.holds, push, Fault.has, Fault.conditions, Fault.codecf, Fault.codec] at h ⊢
  all_goals try exact h.symm
  -- the enumeration outside 32 bits in four bytes
  obtain ⟨⟨rfl, hout⟩, rfl⟩ := h
  simp [width]
  exact ⟨_, if_pos hout, by simp [Fault.conditions]⟩

/-- The kinds that accept anything are the strings, the byte strings and the fixed-width
kinds. -/
theorem kind_cases {nv : NativeValues} {v : Value} (h : refusal nv.kind nv.enumWidth v = none) :
    nv.kind = .string ∨ nv.kind = .binary ∨ 0 < nv.width := by
  obtain ⟨k, ew, data, sizes, strings⟩ := nv
  cases k <;> simp [refusal, Kind.holds, width, Kind.size] at h ⊢
  all_goals split <;> omega

/-! Values that hold a list of elements. -/

/-- `nv` holds the elements `vs`: it counts them and gives each back at its position, fixed-width
elements fill the bytes exactly, and the sizes of byte strings add up to the bytes. -/
structure Holds (nv : NativeValues) (vs : List Value) : Prop where
  len_eq : nv.len = vs.length
  at?_eq : ∀ i (hi : i < vs.length), nv.at? i = .ok vs[i]
  fixed : 0 < nv.width → nv.data.length = nv.width * vs.length
  sizes_sum : nv.kind = .binary → (nv.sizes.getD []).sum = nv.data.length

theorem Holds.empty (k : Kind) (w : Int) : Holds { kind := k, enumWidth := w } [] where
  len_eq := by cases k <;> simp [len]
  at?_eq := fun i hi => absurd hi (Nat.not_lt_zero i)
  fixed := fun _ => by simp
  sizes_sum := fun _ => by simp

theorem Holds.push_string {nv : NativeValues} {vs : List Value} (hh : Holds nv vs)
    (hk : nv.kind = .string) (s : Bytes) :
    Holds { nv with strings := some (nv.strings.getD [] ++ [s]) } (vs ++ [.string s]) := by
  have hlen : (nv.strings.getD []).length = vs.length := by
    rw [← hh.len_eq]
    simp [len, hk]
  have hk' : ({ nv with strings := some (nv.strings.getD [] ++ [s]) } : NativeValues).kind =
      .string := hk
  refine ⟨by simp [len, hk, hlen], fun i hi => ?_, fun hw => by simp [width, hk] at hw,
    fun hb => by simp [hk] at hb⟩
  rw [at?_string hk' (by simp at hi ⊢; omega)]
  rcases Nat.lt_or_ge i vs.length with hold | hnew
  · -- an earlier string is where it was
    have := hh.at?_eq i hold
    rw [at?_string hk (by omega)] at this
    simp only [Except.ok.injEq] at this
    simp [List.getElem_append_left (by omega : i < (nv.strings.getD []).length),
      List.getElem_append_left hold, this]
  · have hi' : i = vs.length := by simp at hi; omega
    subst hi'
    simp [hlen]

theorem Holds.push_binary {nv : NativeValues} {vs : List Value} (hh : Holds nv vs)
    (hk : nv.kind = .binary) (b : Bytes) :
    Holds { nv with data := nv.data ++ b, sizes := some (nv.sizes.getD [] ++ [b.length]) }
      (vs ++ [.bytes b]) := by
  have hk' : ({ nv with data := nv.data ++ b, sizes := some (nv.sizes.getD [] ++ [b.length]) } :
      NativeValues).kind = .binary := hk
  obtain ⟨sz, hsz⟩ : ∃ sz, nv.sizes.getD [] = sz := ⟨_, rfl⟩
  have hlen : sz.length = vs.length := by
    rw [← hh.len_eq, ← hsz]
    simp [len, hk]
  have hsum : sz.sum = nv.data.length := hsz ▸ hh.sizes_sum hk
  rw [hsz] at hk' ⊢
  refine ⟨by simp [len, hk, hlen], fun i hi => ?_, fun hw => by simp [width, hk] at hw,
    fun _ => by simp [hsum]⟩
  simp only [List.length_append, List.length_singleton] at hi
  rw [at?_binary hk' (by simp; omega)]
  simp only [Option.getD_some]
  rcases Nat.lt_or_ge i vs.length with hold | hnew
  · -- an earlier run of bytes ends within the old bytes
    have := hh.at?_eq i hold
    rw [at?_binary hk (by rw [hsz]; omega), hsz] at this
    have hstop : (sz.take (i + 1)).sum ≤ nv.data.length := by
      rw [← hsum]
      exact List.Sublist.sum_le_sum (List.take_sublist _ _) (by simp)
    have hto : (sz ++ [b.length]).take (i + 1) = sz.take (i + 1) :=
      List.take_append_of_le_length (by omega)
    have hfrom : (sz ++ [b.length]).take i = sz.take i := List.take_append_of_le_length (by omega)
    rw [hto, hfrom, List.take_append_of_le_length hstop, this, List.getElem_append_left hold]
  · have hi' : i = vs.length := by omega
    subst hi'
    have hall : (sz ++ [b.length]).take (vs.length + 1) = sz ++ [b.length] :=
      List.take_of_length_le (by simp; omega)
    rw [hall, List.take_left' hlen]
    simp only [List.sum_append, List.sum_singleton, hsum]
    rw [List.take_of_length_le (by simp), List.drop_left]
    simp

theorem Holds.push_fixed {nv : NativeValues} {vs : List Value} {v : Value} (hh : Holds nv vs)
    (hw : 0 < nv.width) {bs : Bytes} (hbs : bs.length = nv.width)
    (hv : (NativeValues.mk nv.kind nv.enumWidth bs none none).at? 0 = .ok v) :
    Holds { nv with data := nv.data ++ bs } (vs ++ [v]) := by
  have hdata := hh.fixed hw
  have hw' : ({ nv with data := nv.data ++ bs } : NativeValues).width = nv.width := by
    simp only [width]
  have hlen' : ({ nv with data := nv.data ++ bs } : NativeValues).len = vs.length + 1 := by
    rw [len_of_width (hw'.symm ▸ hw), hw']
    simp only [List.length_append, hdata, hbs]
    rw [← Nat.mul_succ, Nat.mul_div_cancel_left _ hw]
  refine ⟨by simp [hlen'], fun i hi => ?_, fun _ => by simp [hdata, hbs, Nat.mul_succ, hw'],
    fun hb => by simp [width, show nv.kind = .binary from hb] at hw⟩
  rw [at?_window (hw'.symm ▸ hw) (by simp at hi; omega), hw']
  simp only
  rcases Nat.lt_or_ge i vs.length with hold | hnew
  · -- an earlier window lies within the old bytes
    have := hh.at?_eq i hold
    rw [at?_window hw (by rw [hh.len_eq]; exact hold)] at this
    have hfit : i * nv.width + nv.width ≤ nv.data.length := by
      rw [hdata, ← Nat.succ_mul, Nat.mul_comm]
      exact Nat.mul_le_mul_left _ hold
    rw [List.drop_append_of_le_length (by omega),
      List.take_append_of_le_length (by simp; omega), this, List.getElem_append_left hold]
  · have hi' : i = vs.length := by simp at hi; omega
    subst hi'
    rw [Nat.mul_comm, ← hdata, List.drop_left, List.take_of_length_le (by omega), hv]
    simp

/-- Appending an accepted element keeps the elements held, with the new one last. -/
theorem Holds.push {nv : NativeValues} {vs : List Value} {v : Value} (hh : Holds nv vs)
    (h : refusal nv.kind nv.enumWidth v = none) :
    ∃ nv', nv.push v = .ok nv' ∧ Holds nv' (vs ++ [v]) ∧ nv'.kind = nv.kind ∧
      nv'.enumWidth = nv.enumWidth := by
  rcases kind_cases h with hk | hk | hw
  · obtain ⟨s, rfl⟩ : ∃ s, v = .string s := by
      cases v <;> simp [refusal, Kind.holds, hk] at h ⊢
    exact ⟨_, NativeValues.push_string hk s, hh.push_string hk s, rfl, rfl⟩
  · obtain ⟨b, rfl⟩ : ∃ b, v = .bytes b := by
      cases v <;> simp [refusal, Kind.holds, hk] at h ⊢
    exact ⟨_, NativeValues.push_binary hk b, hh.push_binary hk b, rfl, rfl⟩
  · obtain ⟨bs, hpush, hbs, hv⟩ := NativeValues.push_fixed h hw
    exact ⟨_, hpush, hh.push_fixed hw hbs hv, rfl, rfl⟩

theorem width_concat (e nv : NativeValues) : (e.concat nv).width = e.width := rfl

theorem Holds.unpack {nv : NativeValues} {vs : List Value} (hh : Holds nv vs) :
    nv.unpack = .ok vs := by
  rw [NativeValues.unpack, hh.len_eq]
  exact mapM_range_eq_ok fun i hi => hh.at?_eq i hi

end NativeValues

open NativeValues

/-! Packing a list. -/

/-- Packing the rest of a list after elements already held, all of it accepted. -/
theorem foldPush_accepted {k : Kind} {w : Int} (vs : List Value) :
    ∀ (nv : NativeValues) (us : List Value) (s : Nat), (∀ v ∈ vs, refusal k w v = none) →
      nv.Holds us → nv.kind = k → nv.enumWidth = w →
      ∃ nv', (vs.zipIdx s).foldlM (fun nv (v, i) =>
          (nv.push v).mapError (Fault.context ("element " ++ toString i))) nv = .ok nv' ∧
        nv'.Holds (us ++ vs) ∧ nv'.kind = k ∧ nv'.enumWidth = w := by
  induction vs with
  | nil => exact fun nv us _ _ hh hk hw => ⟨nv, rfl, by simpa using hh, hk, hw⟩
  | cons v vs ih =>
    intro nv us s hall hh hk hw
    obtain ⟨nv', hpush, hh', hk', hw'⟩ := hh.push (hk ▸ hw ▸ hall v List.mem_cons_self)
    obtain ⟨nv'', hfold, hh'', hk'', hw''⟩ := ih nv' (us ++ [v]) (s + 1)
      (fun u hu => hall u (List.mem_cons_of_mem v hu)) hh' (hk' ▸ hk) (hw' ▸ hw)
    refine ⟨nv'', ?_, by simpa using hh'', hk'', hw''⟩
    rw [List.zipIdx_cons, List.foldlM_cons]
    simp only [hpush]
    exact hfold

/-- Packing a list whose first refused element comes after the accepted ones `pre` fails there,
naming its position and its reason. -/
theorem foldPush_refused {k : Kind} {w : Int} {v : Value} {c : Condition}
    (hv : refusal k w v = some c) (post pre : List Value) :
    ∀ (nv : NativeValues) (us : List Value) (s : Nat), (∀ u ∈ pre, refusal k w u = none) →
      nv.Holds us → nv.kind = k → nv.enumWidth = w →
      ∃ inner, ((pre ++ v :: post).zipIdx s).foldlM (fun nv (v, i) =>
          (nv.push v).mapError (Fault.context ("element " ++ toString i))) nv =
        .error (Fault.context ("element " ++ toString (s + pre.length)) inner) ∧ inner.has c := by
  induction pre with
  | nil =>
    intro nv us s _ _ hk hw
    obtain ⟨e, hpush, he⟩ := push_refused (hk ▸ hw ▸ hv)
    exact ⟨e, by simp [List.zipIdx_cons, hpush, Except.mapError, bind, Except.bind], he⟩
  | cons u pre ih =>
    intro nv us s hpre hh hk hw
    obtain ⟨nv', hpush, hh', hk', hw'⟩ := hh.push (hk ▸ hw ▸ hpre u List.mem_cons_self)
    obtain ⟨inner, hfold, hinner⟩ := ih nv' (us ++ [u]) (s + 1)
      (fun x hx => hpre x (List.mem_cons_of_mem u hx)) hh' (hk' ▸ hk) (hw' ▸ hw)
    refine ⟨inner, ?_, hinner⟩
    rw [List.length_cons, ← Nat.add_assoc, ← Nat.add_right_comm s, ← hfold,
      List.cons_append, List.zipIdx_cons, List.foldlM_cons]
    simp only [hpush]
    rfl

/-- A list that is not all accepted has a first refused element. -/
theorem exists_first_refused {k : Kind} {w : Int} {vs : List Value}
    (h : ¬ ∀ v ∈ vs, refusal k w v = none) :
    ∃ pre v post, vs = pre ++ v :: post ∧ (∀ u ∈ pre, refusal k w u = none) ∧
      refusal k w v ≠ none := by
  set p : Value → Bool := fun u => (refusal k w u).isNone
  have hne : vs.dropWhile p ≠ [] := by
    intro h0
    apply h
    intro u hu
    simpa [p] using List.dropWhile_eq_nil_iff.mp h0 u hu
  obtain ⟨v, post, hvp⟩ := List.exists_cons_of_ne_nil hne
  refine ⟨vs.takeWhile p, v, post, ?_, fun u hu => ?_, ?_⟩
  · rw [← hvp, List.takeWhile_append_dropWhile]
  · simpa [p] using List.mem_takeWhile_imp hu
  · have := List.head_dropWhile_not p hne
    simp only [hvp, List.head_cons, p] at this
    exact Option.ne_none_iff_isSome.mpr (by simpa using this)

/-- Packing a list of native values accepts exactly the elements of the kind's own type
(enumerations within 32 bits when they are four bytes wide); the packed value counts them, its
fixed-width elements fill its bytes, and it unpacks to the list itself. A refused list fails at
its first refused element, naming the element's position and the reason. -/
theorem pack_unpack (k : Kind) (w : Int) (vs : List Value) :
    ((∃ nv, pack k w vs = .ok nv) ↔ ∀ v ∈ vs, refusal k w v = none) ∧
    (∀ nv, pack k w vs = .ok nv → nv.kind = k ∧ nv.enumWidth = w ∧ nv.len = vs.length ∧
      (0 < nv.width → nv.data.length = nv.width * vs.length) ∧ nv.unpack = .ok vs) ∧
    (∀ e, pack k w vs = .error e → ∃ i v c inner, vs[i]? = some v ∧ refusal k w v = some c ∧
      (∀ u ∈ vs.take i, refusal k w u = none) ∧
      e = Fault.context ("element " ++ toString i) inner ∧ inner.has c) := by
  by_cases hall : ∀ v ∈ vs, refusal k w v = none
  · obtain ⟨nv, hpack, hh, hk, hw⟩ :=
      foldPush_accepted vs _ [] 0 hall (Holds.empty k w) rfl rfl
    have hpack : pack k w vs = .ok nv := hpack
    refine ⟨iff_of_true ⟨nv, hpack⟩ hall, fun nv' h => ?_, fun e h => ?_⟩
    · rw [hpack, Except.ok.injEq] at h
      subst h
      simp only [List.nil_append] at hh
      exact ⟨hk, hw, hh.len_eq, hh.fixed, hh.unpack⟩
    · rw [hpack] at h
      cases h
  · obtain ⟨pre, v, post, rfl, hpre, hv⟩ := exists_first_refused hall
    obtain ⟨c, hc⟩ := Option.ne_none_iff_exists'.mp hv
    obtain ⟨inner, hpack, hinner⟩ :=
      foldPush_refused hc post pre _ [] 0 hpre (Holds.empty k w) rfl rfl
    have hpack : pack k w (pre ++ v :: post) =
        .error (Fault.context ("element " ++ toString (0 + pre.length)) inner) := hpack
    refine ⟨iff_of_false (fun ⟨nv, h⟩ => by rw [hpack] at h; cases h) hall,
      fun nv h => (by rw [hpack] at h; cases h), fun e h => ?_⟩
    rw [hpack, Except.error.injEq] at h
    subst h
    exact ⟨pre.length, v, c, inner, by simp, hc, by simpa using hpre, by simp, hinner⟩

/-- Packing succeeds only on elements it accepts, into a value of the kind and width asked for
that holds them. -/
theorem pack_holds {k : Kind} {w : Int} {vs : List Value} {nv : NativeValues}
    (h : pack k w vs = .ok nv) : nv.Holds vs ∧ nv.kind = k ∧ nv.enumWidth = w := by
  by_cases hall : ∀ v ∈ vs, refusal k w v = none
  · obtain ⟨nv', hfold, hh, hk, hw⟩ :=
      foldPush_accepted vs _ [] 0 hall (Holds.empty k w) rfl rfl
    have hpack : pack k w vs = .ok nv' := hfold
    rw [hpack, Except.ok.injEq] at h
    subst h
    exact ⟨by simpa using hh, hk, hw⟩
  · obtain ⟨pre, v, post, rfl, hpre, hv⟩ := exists_first_refused hall
    obtain ⟨c, hc⟩ := Option.ne_none_iff_exists'.mp hv
    obtain ⟨inner, hfold, -⟩ :=
      foldPush_refused hc post pre _ [] 0 hpre (Holds.empty k w) rfl rfl
    have hpack : pack k w (pre ++ v :: post) = .error _ := hfold
    rw [hpack] at h
    cases h

end Fmu

end CoSimBridge
