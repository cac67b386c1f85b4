import Mathlib
import CoSimBridge.Proofs.Wire.RoundTrip
/-!
# Encoding undoes decoding on the bytes decoding accepts

Decoding reads a boolean or a presence flag as "not zero", so different bytes decode to the
same value, and encoding writes such a byte back as 1 or 0. `flagMask d v` marks the boolean
and presence-flag bytes in the layout of `v` under `d`, and `normalizeFlags` writes each marked
byte as the encoder does. For a type tree as a registry resolves it (`Descriptor.Registered`),
whatever decoding returns conforms to the tree, and encoding it gives exactly the bytes decoding
consumed with their flags normalized (`encode_decode_normalizes`); so the two agree exactly when
every flag byte read was 0 or 1.

The proof follows the decoder: a reading that succeeds is inverted into the bytes it consumed
(`Reader.Consumed`), and each node's bytes are the concatenation of its parts'.
-/

namespace CoSimBridge
set_option autoImplicit false

/-- A type tree as a registry resolves it: every custom leaf it reaches is bound to a struct,
and no struct declares a member name twice, which the registry refuses. -/
inductive Descriptor.Registered : Descriptor → Prop
  | list {o : Bool} {e : Descriptor} : e.Registered → (Descriptor.list o e).Registered
  | primitive {o : Bool} {k : Kind} {n : String} {b : Binding} :
      k ≠ .custom → (Descriptor.leaf o k n b).Registered
  | struct {o : Bool} {n s : String} {ms : List (String × Descriptor)} :
      (ms.map Prod.fst).Nodup → (∀ m ∈ ms, m.2.Registered) →
      (Descriptor.leaf o .custom n (.struct (.mk s ms))).Registered

namespace Wire
open Value

/-! Flag bytes. -/

/-- A byte as the encoder writes back what the decoder read: a flag byte that is not 0
becomes 1, any other byte stays. -/
def normalizeFlag (flag : Bool) (x : UInt8) : UInt8 := if flag && x != 0 then 1 else x

/-- Bytes with the bytes that `mask` marks written back as flags. -/
def normalizeFlags (mask : List Bool) (bs : Bytes) : Bytes := List.zipWith normalizeFlag mask bs

mutual

/-- Which bytes of the encoding of `v` under `d` are booleans or presence flags. -/
def flagMask (d : Descriptor) (v : Value) : List Bool :=
  match v with
  | .nil => [true]
  | _ =>
    let body : List Bool := match d with
      | .list _ e =>
        match v with
        | .list items => List.replicate 4 false ++ itemsFlagMask e items
        | _ => []
      | .leaf _ .custom _ b =>
        match b with
        | .struct (.mk _ members) =>
          match v with
          | .record fields => membersFlagMask fields members
          | _ => []
        | _ => []
      | .leaf _ .bool _ _ => [true]
      | .leaf _ k _ _ => List.replicate ((scalarBytes k v).getD []).length false
    if d.optional then true :: body else body
termination_by (sizeOf d, 0, 0)

/-- The flags of list elements, back to back. -/
def itemsFlagMask (e : Descriptor) (xs : List Value) : List Bool :=
  match xs with
  | [] => []
  | x :: rest => flagMask e x ++ itemsFlagMask e rest
termination_by (sizeOf e, 1, xs.length)

/-- The flags of struct members taken from a record by name, in declaration order; a missing
member is written as an absent flag. -/
def membersFlagMask (fields : List (String × Value)) (ms : List (String × Descriptor)) :
    List Bool :=
  match ms with
  | [] => []
  | (m, t) :: rest =>
    match field? fields m with
    | none => true :: membersFlagMask fields rest
    | some mv => flagMask t mv ++ membersFlagMask fields rest
termination_by (sizeOf ms, 1, 0)

end

theorem flagMask_nil (d : Descriptor) : flagMask d .nil = [true] := by
  rw [flagMask.eq_def]

theorem flagMask_list (o : Bool) (e : Descriptor) (xs : List Value) :
    flagMask (.list o e) (.list xs) =
      if o then true :: (List.replicate 4 false ++ itemsFlagMask e xs)
      else List.replicate 4 false ++ itemsFlagMask e xs := by
  rw [flagMask.eq_def]
  rfl

theorem flagMask_record (o : Bool) (n s : String) (ms : List (String × Descriptor))
    (fs : List (String × Value)) :
    flagMask (.leaf o .custom n (.struct (.mk s ms))) (.record fs) =
      if o then true :: membersFlagMask fs ms else membersFlagMask fs ms := by
  rw [flagMask.eq_def]
  rfl

theorem flagMask_bool (o : Bool) (n : String) (b : Binding) (x : Bool) :
    flagMask (.leaf o .bool n b) (.bool x) = if o then [true, true] else [true] := by
  rw [flagMask.eq_def]
  rfl

/-- Any other primitive is all data bytes. -/
theorem flagMask_scalar {o : Bool} {k : Kind} {n : String} {b : Binding} {v : Value} {bs : Bytes}
    (hk : v.hasKind k = true) (hkb : k ≠ .bool) (hbs : scalarBytes k v = some bs) :
    flagMask (.leaf o k n b) v =
      if o then true :: List.replicate bs.length false else List.replicate bs.length false := by
  -- the mask matches on the value and on the kind, so it reduces once both are known
  cases k <;> cases v <;> simp [hasKind] at hk <;>
    first | exact absurd rfl hkb | (rw [flagMask.eq_def]; simp only [hbs]; rfl)

theorem itemsFlagMask_nil (e : Descriptor) : itemsFlagMask e [] = [] := by
  rw [itemsFlagMask.eq_def]

theorem itemsFlagMask_cons (e : Descriptor) (x : Value) (xs : List Value) :
    itemsFlagMask e (x :: xs) = flagMask e x ++ itemsFlagMask e xs := by
  rw [itemsFlagMask.eq_def]

theorem membersFlagMask_nil (fs : List (String × Value)) : membersFlagMask fs [] = [] := by
  rw [membersFlagMask.eq_def]

theorem membersFlagMask_cons_some {fs : List (String × Value)} {m : String} {x : Value}
    (hx : field? fs m = some x) (t : Descriptor) (ms : List (String × Descriptor)) :
    membersFlagMask fs ((m, t) :: ms) = flagMask t x ++ membersFlagMask fs ms := by
  rw [membersFlagMask.eq_def]
  simp only [hx]

@[simp] theorem length_normalizeFlags (mask : List Bool) (bs : Bytes) :
    (normalizeFlags mask bs).length = min mask.length bs.length :=
  List.length_zipWith

theorem normalizeFlags_append {m₁ m₂ : List Bool} {c₁ c₂ : Bytes} (h : m₁.length = c₁.length) :
    normalizeFlags (m₁ ++ m₂) (c₁ ++ c₂) = normalizeFlags m₁ c₁ ++ normalizeFlags m₂ c₂ :=
  List.zipWith_append h

theorem normalizeFlags_replicate_false {n : Nat} {c : Bytes} (h : c.length = n) :
    normalizeFlags (List.replicate n false) c = c := by
  subst h
  induction c with
  | nil => rfl
  | cons x c ih => simpa [normalizeFlags, normalizeFlag, List.replicate_succ] using ih

theorem normalizeFlags_cons_true (x : UInt8) (mask : List Bool) (c : Bytes) :
    normalizeFlags (true :: mask) (x :: c) = (if x = 0 then 0 else 1) :: normalizeFlags mask c := by
  by_cases hx : x = 0 <;> simp [normalizeFlags, normalizeFlag, hx]

/-- Normalizing changes nothing exactly when every marked byte is already 0 or 1. -/
theorem normalizeFlags_eq_self_iff {mask : List Bool} {bs : Bytes} (h : mask.length = bs.length) :
    normalizeFlags mask bs = bs ↔
      ∀ (i : Nat) (x : UInt8), mask[i]? = some true → bs[i]? = some x → x = 0 ∨ x = 1 := by
  induction mask generalizing bs with
  | nil =>
    cases bs with
    | nil => simp [normalizeFlags]
    | cons _ _ => simp at h
  | cons f mask ih =>
    cases bs with
    | nil => simp at h
    | cons x bs =>
      simp only [List.length_cons, Nat.add_right_cancel_iff] at h
      have hx : normalizeFlag f x = x ↔ (f = true → x = 0 ∨ x = 1) := by
        cases f <;> by_cases h0 : x = 0 <;> simp [normalizeFlag, h0, @eq_comm _ (1 : UInt8)]
      -- position 0 is the head, position `i + 1` is position `i` of the tail
      simp only [normalizeFlags, List.zipWith_cons_cons, List.cons.injEq] at ih ⊢
      rw [hx, ih h]
      constructor
      · rintro ⟨h0, hrest⟩ (_ | i) y hf hy
        · simp only [List.getElem?_cons_zero, Option.some.injEq] at hf hy
          exact hy ▸ h0 hf
        · exact hrest i y hf hy
      · intro hall
        exact ⟨fun hf => hall 0 x (by simp [hf]) rfl, fun i y => hall (i + 1) y⟩

/-! Readings that succeed, read backwards. -/

/-- Reading from `r₀` to `r` consumed exactly the bytes `c`. -/
def Reader.Consumed (r₀ r : Reader) (c : Bytes) : Prop :=
  r₀.rest = c ++ r.rest ∧ r.offset = r₀.offset + c.length

theorem Reader.Consumed.trans {r₀ r₁ r₂ : Reader} {c₁ c₂ : Bytes} (h₁ : r₀.Consumed r₁ c₁)
    (h₂ : r₁.Consumed r₂ c₂) : r₀.Consumed r₂ (c₁ ++ c₂) := by
  obtain ⟨hr₁, ho₁⟩ := h₁
  obtain ⟨hr₂, ho₂⟩ := h₂
  refine ⟨by rw [hr₁, hr₂, List.append_assoc], ?_⟩
  rw [ho₂, ho₁, List.length_append]
  omega

theorem bind_eq_ok {α β : Type} {x : Reading α} {f : α → Reading β} {r r' : Reader} {b : β}
    (h : (x >>= f) r = .ok b r') : ∃ a r₁, x r = .ok a r₁ ∧ f a r₁ = .ok b r' := by
  cases hx : x r with
  | ok a r₁ => exact ⟨a, r₁, rfl, by simpa [bind, EStateM.bind, hx] using h⟩
  | error e r₁ => simp [bind, EStateM.bind, hx] at h

theorem pure_eq_ok {α : Type} {a b : α} {r r' : Reader} (h : (pure a : Reading α) r = .ok b r') :
    a = b ∧ r = r' := by
  simpa [pure, EStateM.pure] using h

theorem withContext_eq_ok {α : Type} {g : Fault → Fault} {x : Reading α} {r r' : Reader} {a : α}
    (h : withContext g x r = .ok a r') : x r = .ok a r' := by
  unfold withContext at h
  split at h
  · rename_i hx
    cases h
    exact hx
  · cases h

theorem take_eq_ok {n : Nat} {what : String} {r₀ r : Reader} {c : Bytes}
    (h : take n what r₀ = .ok c r) : c.length = n ∧ r₀.Consumed r c := by
  unfold take at h
  split at h
  · cases h
  · rename_i hlen
    cases h
    have hc : (r₀.rest.take n).length = n := List.length_take_of_le (by omega)
    exact ⟨hc, (List.take_append_drop n r₀.rest).symm, by rw [hc]⟩

theorem readUnsigned_eq_ok {w : Nat} {r₀ r : Reader} {n : Nat} (h : readUnsigned w r₀ = .ok n r) :
    ∃ c, c.length = w ∧ r₀.Consumed r c ∧ n = ofLittleEndian c := by
  obtain ⟨c, r₁, hc, hp⟩ := bind_eq_ok h
  obtain ⟨hn, rfl⟩ := pure_eq_ok hp
  obtain ⟨hlen, hcons⟩ := take_eq_ok hc
  exact ⟨c, hlen, hcons, hn.symm⟩

theorem readBool_eq_ok {r₀ r : Reader} {b : Bool} (h : readBool r₀ = .ok b r) :
    ∃ x, r₀.Consumed r [x] ∧ b = (x != 0) := by
  obtain ⟨c, r₁, hc, hp⟩ := bind_eq_ok h
  obtain ⟨hb, rfl⟩ := pure_eq_ok hp
  obtain ⟨hlen, hcons⟩ := take_eq_ok hc
  obtain ⟨x, rfl⟩ := List.length_eq_one_iff.mp hlen
  exact ⟨x, hcons, hb.symm⟩

theorem readSized_eq_ok {what : String} {r₀ r : Reader} {s : Bytes}
    (h : readSized what r₀ = .ok s r) :
    ∃ c, c.length = 4 ∧ r₀.Consumed r (c ++ s) ∧ s.length = ofLittleEndian c := by
  unfold readSized at h
  split at h
  · rename_i n r₁ hn
    split at h
    · rename_i s' r₂ hs
      cases h
      obtain ⟨c, hlen, hc, rfl⟩ := readUnsigned_eq_ok hn
      obtain ⟨hslen, hs⟩ := take_eq_ok hs
      exact ⟨c, hlen, hc.trans hs, hslen⟩
    · cases h
  · cases h

/-! Little-endian fields read back. -/

theorem ofLittleEndian_lt (c : Bytes) : ofLittleEndian c < Nat.pow 256 c.length := by
  induction c with
  | nil => simp [ofLittleEndian]
  | cons x c ih =>
    have hx := x.toNat_lt
    simp only [ofLittleEndian, List.foldr_cons, List.length_cons] at ih ⊢
    rw [show Nat.pow 256 (c.length + 1) = 256 * Nat.pow 256 c.length from Nat.mul_comm _ _]
    omega

theorem littleEndian_ofLittleEndian (c : Bytes) : littleEndian c.length (ofLittleEndian c) = c := by
  induction c with
  | nil => simp [littleEndian]
  | cons x c ih =>
    have hx := x.toNat_lt
    rw [List.length_cons, littleEndian_succ]
    simp only [ofLittleEndian, List.foldr_cons] at ih ⊢
    have hmod : (x.toNat + 256 * List.foldr (fun b acc => b.toNat + 256 * acc) 0 c) % 256 =
        x.toNat := by omega
    have hdiv : (x.toNat + 256 * List.foldr (fun b acc => b.toNat + 256 * acc) 0 c) / 256 =
        List.foldr (fun b acc => b.toNat + 256 * acc) 0 c := by omega
    rw [hmod, hdiv, ih, Nat.toUInt8_eq, UInt8.ofNat_toNat]

theorem littleEndian_ofLittleEndian_of_length {c : Bytes} {w : Nat} (hw : c.length = w) :
    littleEndian w (ofLittleEndian c) = c :=
  hw ▸ littleEndian_ofLittleEndian c

/-- A field of `w` bytes read and written back, through any modulus that keeps its value. -/
theorem littleEndian_ofLittleEndian_mod {c : Bytes} {w m : Nat} (hw : c.length = w)
    (hm : Nat.pow 256 w ≤ m) : littleEndian w (ofLittleEndian c % m) = c := by
  have hlt : ofLittleEndian c < m := lt_of_lt_of_le (hw ▸ ofLittleEndian_lt c) hm
  rw [Nat.mod_eq_of_lt hlt, littleEndian_ofLittleEndian_of_length hw]

/-! Primitive values. -/

theorem fixed_eq_ok {α : Type} {width : Nat} {mk : Nat → α} {r₀ r : Reader} {a : α}
    (h : (do let m ← readUnsigned width; pure (mk m) : Reading α) r₀ = .ok a r) :
    ∃ c, c.length = width ∧ r₀.Consumed r c ∧ a = mk (ofLittleEndian c) := by
  obtain ⟨n, r₁, hn, hp⟩ := bind_eq_ok h
  obtain ⟨rfl, rfl⟩ := pure_eq_ok hp
  obtain ⟨c, hlen, hc, rfl⟩ := readUnsigned_eq_ok hn
  exact ⟨c, hlen, hc, rfl⟩

theorem sized_eq_ok {α : Type} {what : String} {mk : Bytes → α} {r₀ r : Reader} {a : α}
    (h : (do let t ← readSized what; pure (mk t) : Reading α) r₀ = .ok a r) :
    ∃ c s, c.length = 4 ∧ r₀.Consumed r (c ++ s) ∧ s.length = ofLittleEndian c ∧ a = mk s := by
  obtain ⟨s, r₁, hs, hp⟩ := bind_eq_ok h
  obtain ⟨rfl, rfl⟩ := pure_eq_ok hp
  obtain ⟨c, hlen, hc, hslen⟩ := readSized_eq_ok hs
  exact ⟨c, s, hlen, hc, hslen, rfl⟩

theorem decodeScalar_bool_eq_ok {r₀ r : Reader} {v : Value}
    (h : decodeScalar .bool r₀ = .ok v r) : ∃ x, r₀.Consumed r [x] ∧ v = .bool (x != 0) := by
  rw [decodeScalar] at h
  obtain ⟨b, r₁, hb, hp⟩ := bind_eq_ok h
  obtain ⟨rfl, rfl⟩ := pure_eq_ok hp
  obtain ⟨x, hx, rfl⟩ := readBool_eq_ok hb
  exact ⟨x, hx, rfl⟩

/-- Every primitive but a boolean consumes exactly the bytes its value is written as. -/
theorem decodeScalar_eq_ok {k : Kind} (hk : k ≠ .bool) {r₀ r : Reader} {v : Value}
    (h : decodeScalar k r₀ = .ok v r) :
    ∃ c, r₀.Consumed r c ∧ v.hasKind k = true ∧ scalarBytes k v = some c := by
  cases k
  case bool => exact absurd rfl hk
  case string | binary =>
    rw [decodeScalar] at h
    obtain ⟨c, s, hlen, hc, hslen, rfl⟩ := sized_eq_ok h
    refine ⟨c ++ s, hc, rfl, ?_⟩
    rw [scalarBytes, hslen, littleEndian_ofLittleEndian_of_length hlen]
  case invalid | custom | clock =>
    simp [decodeScalar, throw, throwThe, MonadExceptOf.throw, EStateM.throw] at h
  -- a signed value is written as the residue of its bit pattern
  case int8 | int16 | int32 | int64 | enum =>
    rw [decodeScalar] at h
    obtain ⟨c, hlen, hc, rfl⟩ := fixed_eq_ok h
    refine ⟨c, hc, rfl, ?_⟩
    simp only [scalarBytes, Int8.toInt, Int16.toInt, Int32.toInt, Int64.toInt, toNat_toInt_emod,
      Int8.toBitVec_ofNat', Int16.toBitVec_ofNat', Int32.toBitVec_ofNat', Int64.toBitVec_ofNat',
      BitVec.toNat_ofNat]
    rw [littleEndian_ofLittleEndian_mod hlen (by decide)]
  all_goals
    rw [decodeScalar] at h
    obtain ⟨c, hlen, hc, rfl⟩ := fixed_eq_ok h
    refine ⟨c, hc, rfl, ?_⟩
    simp only [scalarBytes, UInt8.toNat_ofNat', UInt16.toNat_ofNat', UInt32.toNat_ofNat',
      UInt64.toNat_ofNat']
    rw [littleEndian_ofLittleEndian_mod hlen (by decide)]

/-! Reading back node by node. -/

/-- What decoding returned under `d` conforms to `d`, and encoding it gives back the bytes `c`
decoding consumed, with their flags normalized. -/
structure ReadsBack (d : Descriptor) (v : Value) (c : Bytes) : Prop where
  conforms : v.Conforms d
  length_flagMask : (flagMask d v).length = c.length
  encode_eq : encode d v = .ok (normalizeFlags (flagMask d v) c)

/-- Whatever decoding returns under `d`, from any cursor, reads back as the bytes it consumed. -/
def DecodesBack (d : Descriptor) : Prop :=
  ∀ r₀ v r, decode d r₀ = .ok v r → ∃ c, r₀.Consumed r c ∧ ReadsBack d v c

/-- The body of `d`, decoded as `d` without its presence flag, reads back behind that flag:
`d`'s mask and encoding put a flag in front of the body's when `d` is optional. -/
def BodyReadsBack (d : Descriptor) : Prop :=
  ∀ r₀ v r, decode (d.withOptional false) r₀ = .ok v r →
    ∃ c mask, r₀.Consumed r c ∧ v.Conforms d ∧ mask.length = c.length ∧
      flagMask d v = (if d.optional then true :: mask else mask) ∧
      encode d v = .ok (if d.optional then 1 :: normalizeFlags mask c else normalizeFlags mask c)

theorem Reader.consumed_head {r₀ : Reader} {x : UInt8} {rest : Bytes} (h : r₀.rest = x :: rest) :
    r₀.Consumed ⟨rest, r₀.offset + 1⟩ [x] :=
  ⟨by rw [h]; rfl, rfl⟩

/-- An optional node consumed its presence byte first: 0 reads as absent, any other byte as
present, followed by the node without its flag. -/
theorem decode_optional_eq_ok {d : Descriptor} (h : d.optional = true) {r₀ r : Reader}
    {v : Value} (hv : decode d r₀ = .ok v r) :
    ∃ x rest, r₀.rest = x :: rest ∧
      (x = 0 ∧ v = .nil ∧ r = ⟨rest, r₀.offset + 1⟩ ∨
        x ≠ 0 ∧ decode (d.withOptional false) ⟨rest, r₀.offset + 1⟩ = .ok v r) := by
  obtain ⟨bytes, pos⟩ := r₀
  cases bytes with
  | nil =>
    -- no presence byte to read
    rw [decode.eq_def] at hv
    simp [h, readBool, take, bind, EStateM.bind] at hv
  | cons x rest =>
    refine ⟨x, rest, rfl, ?_⟩
    by_cases hx : x = 0
    · subst hx
      rw [decode_absent h] at hv
      cases hv
      exact .inl ⟨rfl, rfl, rfl⟩
    · rw [decode_present h hx] at hv
      exact .inr ⟨hx, hv⟩

theorem decodesBack_of_body {d : Descriptor} (hbody : BodyReadsBack d) : DecodesBack d := by
  intro r₀ v r hv
  cases hopt : d.optional with
  | false =>
    have hv' : decode (d.withOptional false) r₀ = .ok v r := by
      rw [← hopt, withOptional_optional]
      exact hv
    obtain ⟨c, mask, hc, hconf, hlen, hmask, henc⟩ := hbody r₀ v r hv'
    rw [hopt, if_neg Bool.false_ne_true] at hmask henc
    exact ⟨c, hc, hconf, by rw [hmask, hlen], by rw [henc, hmask]⟩
  | true =>
    obtain ⟨x, rest, hrest, ⟨rfl, rfl, rfl⟩ | ⟨hx, hbv⟩⟩ := decode_optional_eq_ok hopt hv
    · -- absent: the presence byte alone, read and written as 0
      refine ⟨[0], Reader.consumed_head hrest, .absent hopt, by rw [flagMask_nil]; rfl, ?_⟩
      rw [encode_nil hopt, flagMask_nil]
      rfl
    · obtain ⟨c, mask, hc, hconf, hlen, hmask, henc⟩ := hbody _ v r hbv
      rw [hopt, if_pos rfl] at hmask henc
      refine ⟨x :: c, (Reader.consumed_head hrest).trans hc, hconf, by simp [hmask, hlen], ?_⟩
      rw [henc, hmask, normalizeFlags_cons_true, if_neg hx]

/-! Primitive leaves. -/

theorem bodyReadsBack_scalar {o : Bool} {k : Kind} {n : String} {b : Binding}
    (hk : k ≠ .custom) : BodyReadsBack (.leaf o k n b) := by
  intro r₀ v r h
  rw [Descriptor.withOptional, decode_scalar_body hk] at h
  by_cases hkb : k = .bool
  · -- a boolean byte is a flag: any byte but 0 reads as true
    subst hkb
    obtain ⟨x, hc, rfl⟩ := decodeScalar_bool_eq_ok h
    refine ⟨[x], [true], hc, .scalar rfl, rfl, by rw [flagMask_bool]; rfl, ?_⟩
    rw [encode_scalar rfl rfl]
    by_cases hx : x = 0 <;> simp [normalizeFlags, normalizeFlag, hx, Descriptor.optional]
  · obtain ⟨c, hc, hkv, hbs⟩ := decodeScalar_eq_ok hkb h
    refine ⟨c, List.replicate c.length false, hc, .scalar hkv, by simp,
      flagMask_scalar hkv hkb hbs, ?_⟩
    rw [encode_scalar hkv hbs, normalizeFlags_replicate_false rfl]
    rfl

/-! Lists. -/

theorem items_decodeBack {e : Descriptor} (he : DecodesBack e) (n : Nat) :
    ∀ (i : Nat) (r₀ : Reader) (xs : List Value) (r : Reader), decodeItems e i n r₀ = .ok xs r →
      ∃ c, r₀.Consumed r c ∧ xs.length = n ∧ (∀ x ∈ xs, x.Conforms e) ∧
        (itemsFlagMask e xs).length = c.length ∧
        encodeItems e i xs = .ok (normalizeFlags (itemsFlagMask e xs) c) := by
  induction n with
  | zero =>
    intro i r₀ xs r h
    rw [decodeItems.eq_def] at h
    obtain ⟨rfl, rfl⟩ := pure_eq_ok h
    refine ⟨[], ⟨by simp, by simp⟩, rfl, by simp, by rw [itemsFlagMask_nil]; rfl, ?_⟩
    rw [encodeItems.eq_def, itemsFlagMask_nil]
    rfl
  | succ n ih =>
    intro i r₀ xs r h
    rw [decodeItems.eq_def] at h
    obtain ⟨x, r₁, hx, h⟩ := bind_eq_ok h
    obtain ⟨rest, r₂, hrest, hp⟩ := bind_eq_ok h
    obtain ⟨rfl, rfl⟩ := pure_eq_ok hp
    obtain ⟨c₁, hc₁, hback⟩ := he _ _ _ (withContext_eq_ok hx)
    obtain ⟨c₂, hc₂, hlen, hconf, hmask, henc⟩ := ih (i + 1) r₁ rest r₂ hrest
    refine ⟨c₁ ++ c₂, hc₁.trans hc₂, by simp [hlen], ?_, ?_, ?_⟩
    · intro y hy
      rcases List.mem_cons.mp hy with rfl | hy
      · exact hback.conforms
      · exact hconf y hy
    · simp [itemsFlagMask_cons, hback.length_flagMask, hmask]
    · rw [encodeItems_cons hback.encode_eq, henc, itemsFlagMask_cons,
        normalizeFlags_append hback.length_flagMask]
      rfl

theorem bodyReadsBack_list {o : Bool} {e : Descriptor} (he : DecodesBack e) :
    BodyReadsBack (.list o e) := by
  intro r₀ v r h
  rw [Descriptor.withOptional, decode_list_body] at h
  obtain ⟨n, r₁, hn, h⟩ := bind_eq_ok h
  obtain ⟨xs, r₂, hxs, hp⟩ := bind_eq_ok h
  obtain ⟨rfl, rfl⟩ := pure_eq_ok hp
  obtain ⟨c₁, hlen₁, hc₁, rfl⟩ := readUnsigned_eq_ok hn
  obtain ⟨c₂, hc₂, hlen, hconf, hmask, henc⟩ := items_decodeBack he _ 0 r₁ xs r₂ hxs
  refine ⟨c₁ ++ c₂, List.replicate 4 false ++ itemsFlagMask e xs, hc₁.trans hc₂, .list hconf,
    by simp [hlen₁, hmask]; omega, flagMask_list o e xs, ?_⟩
  -- the count field is written back from the number of elements it announced
  rw [encode_list henc, hlen, littleEndian_ofLittleEndian_of_length hlen₁,
    normalizeFlags_append (by simp [hlen₁]), normalizeFlags_replicate_false hlen₁]
  rfl

/-! Structs. -/

theorem field?_of_mem {fs : List (String × Value)} (hnodup : (fs.map Prod.fst).Nodup)
    {p : String × Value} (hp : p ∈ fs) : field? fs p.1 = some p.2 := by
  induction fs with
  | nil => simp at hp
  | cons q fs ih =>
    obtain ⟨m, x⟩ := q
    obtain ⟨hm, hnodup⟩ := List.nodup_cons.mp hnodup
    rw [field?_cons]
    rcases List.mem_cons.mp hp with rfl | hp
    · exact if_pos rfl
    · have hne : m ≠ p.1 := fun heq => hm (List.mem_map.mpr ⟨p, hp, heq.symm⟩)
      rw [if_neg hne]
      exact ih hnodup hp

/-- Struct members read back one after another; encoding takes them from any record that holds
each decoded member under its name. -/
theorem members_decodeBack (s : String) (ms : List (String × Descriptor))
    (hms : ∀ m ∈ ms, DecodesBack m.2) (hnodup : (ms.map Prod.fst).Nodup) :
    ∀ (r₀ : Reader) (ws : List (String × Value)) (r : Reader), decodeMembers s ms r₀ = .ok ws r →
      ∃ c, r₀.Consumed r c ∧ ws.map Prod.fst = ms.map Prod.fst ∧
        (∀ m ∈ ms, ∀ x, field? ws m.1 = some x → x.Conforms m.2) ∧
        ∀ fs : List (String × Value), (∀ p ∈ ws, field? fs p.1 = some p.2) →
          (membersFlagMask fs ms).length = c.length ∧
          encodeMembers s fs ms = .ok (normalizeFlags (membersFlagMask fs ms) c) := by
  induction ms with
  | nil =>
    intro r₀ ws r h
    rw [decodeMembers.eq_def] at h
    obtain ⟨rfl, rfl⟩ := pure_eq_ok h
    refine ⟨[], ⟨by simp, by simp⟩, rfl, by simp, fun fs _ => ?_⟩
    rw [membersFlagMask_nil, encodeMembers.eq_def]
    exact ⟨rfl, rfl⟩
  | cons mt ms ih =>
    obtain ⟨m, t⟩ := mt
    intro r₀ ws r h
    obtain ⟨hm, hnodup⟩ := List.nodup_cons.mp hnodup
    rw [decodeMembers.eq_def] at h
    obtain ⟨x, r₁, hx, h⟩ := bind_eq_ok h
    obtain ⟨more, r₂, hmore, hp⟩ := bind_eq_ok h
    obtain ⟨rfl, rfl⟩ := pure_eq_ok hp
    obtain ⟨c₁, hc₁, hback⟩ := hms (m, t) List.mem_cons_self _ _ _ (withContext_eq_ok hx)
    obtain ⟨c₂, hc₂, hkeys, hconf, henc⟩ :=
      ih (fun m' hm' => hms m' (List.mem_cons_of_mem _ hm')) hnodup r₁ more r₂ hmore
    refine ⟨c₁ ++ c₂, hc₁.trans hc₂, by simp [hkeys], fun m' hm' y hy => ?_, fun fs hfs => ?_⟩
    · -- a later member has another name, so its field is found in the rest
      rw [field?_cons] at hy
      rcases List.mem_cons.mp hm' with rfl | hm'
      · rw [if_pos rfl] at hy
        cases hy
        exact hback.conforms
      · have hne : m ≠ m'.1 := fun heq => hm (List.mem_map.mpr ⟨m', hm', heq.symm⟩)
        rw [if_neg hne] at hy
        exact hconf m' hm' y hy
    · have hfx : field? fs m = some x := hfs (m, x) List.mem_cons_self
      obtain ⟨hlen, henc⟩ := henc fs fun p hp => hfs p (List.mem_cons_of_mem _ hp)
      rw [membersFlagMask_cons_some hfx]
      refine ⟨by simp [hback.length_flagMask, hlen], ?_⟩
      rw [encodeMembers_cons_some hfx hback.encode_eq, henc,
        normalizeFlags_append hback.length_flagMask]
      rfl

theorem bodyReadsBack_struct {o : Bool} {n s : String} {ms : List (String × Descriptor)}
    (hnodup : (ms.map Prod.fst).Nodup) (hms : ∀ m ∈ ms, DecodesBack m.2) :
    BodyReadsBack (.leaf o .custom n (.struct (.mk s ms))) := by
  intro r₀ v r h
  rw [Descriptor.withOptional, decode_struct_body] at h
  obtain ⟨ws, r₁, hws, hp⟩ := bind_eq_ok h
  obtain ⟨rfl, rfl⟩ := pure_eq_ok hp
  obtain ⟨c, hc, hkeys, hconf, henc⟩ := members_decodeBack s ms hms hnodup r₀ ws r₁ hws
  -- the decoded record holds each member once, so encoding finds each under its name
  have hself : ∀ p ∈ ws, field? ws p.1 = some p.2 :=
    fun p hp => field?_of_mem (hkeys ▸ hnodup) hp
  obtain ⟨hlen, henc⟩ := henc ws hself
  exact ⟨c, membersFlagMask ws ms, hc, .record (fun key => by rw [hkeys]) hconf, hlen,
    flagMask_record o n s ms ws, encode_record henc⟩

/-! Every registered type tree. -/

theorem decodesBack_of_registered {d : Descriptor} (hd : d.Registered) : DecodesBack d := by
  induction hd with
  | list _ ih => exact decodesBack_of_body (bodyReadsBack_list ih)
  | primitive hk => exact decodesBack_of_body (bodyReadsBack_scalar hk)
  | struct hnodup _ ih => exact decodesBack_of_body (bodyReadsBack_struct hnodup ih)

/-- Decoding any bytes under a registered type tree gives a value of that tree, and encoding
it gives back exactly the prefix decoding consumed, except that each boolean and presence-flag
byte is written as 1 if it was not 0; so the two agree exactly when every such byte read was 0
or 1. -/
theorem encode_decode_normalizes {d : Descriptor} (hd : d.Registered) {b : Bytes} {v : Value}
    {r : Reader} (h : decode d (Reader.ofBytes b) = .ok v r) :
    v.Conforms d ∧ r.rest = b.drop r.offset ∧ (flagMask d v).length = r.offset ∧
      ∃ out, encode d v = .ok out ∧ out.length = r.offset ∧
        out = normalizeFlags (flagMask d v) (b.take r.offset) ∧
        (out = b.take r.offset ↔ ∀ (i : Nat) (x : UInt8),
          (flagMask d v)[i]? = some true → b[i]? = some x → x = 0 ∨ x = 1) := by
  obtain ⟨pre, ⟨hrest, hoff⟩, hback⟩ := decodesBack_of_registered hd _ v r h
  simp only [Reader.ofBytes, Nat.zero_add] at hrest hoff
  have htake : b.take r.offset = pre := by rw [hrest, hoff]; simp
  have hdrop : r.rest = b.drop r.offset := by rw [hrest, hoff]; simp
  refine ⟨hback.conforms, hdrop, by rw [hback.length_flagMask, hoff], _, hback.encode_eq,
    by simp [hback.length_flagMask, hoff], by rw [htake], ?_⟩
  rw [htake, normalizeFlags_eq_self_iff hback.length_flagMask]
  -- every flag lies in the consumed prefix, where the input and `pre` agree
  have hpre : ∀ i, (flagMask d v)[i]? = some true → b[i]? = pre[i]? := fun i hf => by
    have hi : i < pre.length := hback.length_flagMask ▸ (List.getElem?_eq_some_iff.mp hf).1
    rw [hrest, List.getElem?_append_left hi]
  exact forall_congr' fun i => forall_congr' fun x => imp_congr_right fun hf => by rw [hpre i hf]

/-- An optional boolean whose presence byte is 2 and whose value byte is 5 decodes as `true`
and encodes back as `[1, 1]`: both bytes are flags. -/
theorem encode_decode_normalizes_optional_bool :
    (Descriptor.leaf true .bool "" .unbound).Registered ∧
    decode (.leaf true .bool "" .unbound) (Reader.ofBytes [2, 5, 9]) = .ok (.bool true) ⟨[9], 2⟩ ∧
    ((Value.bool true).Conforms (.leaf true .bool "" .unbound) ∧
      ([9] : Bytes) = ([2, 5, 9] : Bytes).drop 2 ∧
      (flagMask (.leaf true .bool "" .unbound) (.bool true)).length = 2 ∧
      ∃ out, encode (.leaf true .bool "" .unbound) (.bool true) = .ok out ∧ out.length = 2 ∧
        out = normalizeFlags (flagMask (.leaf true .bool "" .unbound) (.bool true))
          (([2, 5, 9] : Bytes).take 2) ∧
        (out = ([2, 5, 9] : Bytes).take 2 ↔ ∀ (i : Nat) (x : UInt8),
          (flagMask (.leaf true .bool "" .unbound) (.bool true))[i]? = some true →
            ([2, 5, 9] : Bytes)[i]? = some x → x = 0 ∨ x = 1)) := by
  have hd : (Descriptor.leaf true .bool "" .unbound).Registered := .primitive (by decide)
  have hdec : decode (.leaf true .bool "" .unbound) (Reader.ofBytes [2, 5, 9]) =
      .ok (.bool true) ⟨[9], 2⟩ := by
    rw [Reader.ofBytes, decode_present rfl (by decide), Descriptor.withOptional,
      decode_scalar_body (by decide)]
    rfl
  exact ⟨hd, hdec, encode_decode_normalizes hd hdec⟩

end Wire
end CoSimBridge
