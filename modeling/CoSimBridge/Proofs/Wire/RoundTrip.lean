import CoSimBridge.Proofs.Wire.Conformance
/-! Decoding undoes encoding. A value of a bound type tree encodes, and decoding its bytes
followed by anything reads back the same value and stops exactly where they end: the presence
byte, the 32-bit list count, the members back to back and the 32-bit string lengths line up
between the two recursions at every node. Lengths and counts must fit their 32-bit fields: the
writer keeps only their low 32 bits, so a longer string reads back wrong. -/

namespace CoSimBridge.Wire
set_option autoImplicit false
open Value

/-- `v` encodes under `d`, and decoding its bytes followed by anything gives a value that is
the same as `v` and leaves exactly what followed unread. -/
def RoundTrips (d : Descriptor) (v : Value) : Prop :=
  ∃ bs, encode d v = .ok bs ∧
    ∀ rest pos, ∃ w, decode d ⟨bs ++ rest, pos⟩ = .ok w ⟨rest, pos + bs.length⟩ ∧ w.Same v

/-! The presence byte. -/

theorem encode_nil {d : Descriptor} (h : d.optional = true) : encode d .nil = .ok [0] := by
  rw [encode.eq_1, if_pos h]

theorem decode_absent {d : Descriptor} (h : d.optional = true) (rest : Bytes) (pos : Nat) :
    decode d ⟨0 :: rest, pos⟩ = .ok .nil ⟨rest, pos + 1⟩ := by
  rw [decode.eq_def]
  simp [h, bind_ok (readBool_cons 0 rest pos), pure, EStateM.pure]

/-- Any presence byte but 0 reads as present. -/
theorem decode_present {d : Descriptor} (h : d.optional = true) {x : UInt8} (hx : x ≠ 0)
    (rest : Bytes) (pos : Nat) :
    decode d ⟨x :: rest, pos⟩ = decode (d.withOptional false) ⟨rest, pos + 1⟩ := by
  have hb : readBool ⟨x :: rest, pos⟩ = .ok true ⟨rest, pos + 1⟩ := by
    rw [readBool_cons, bne_iff_ne.mpr hx]
  cases d with
  | list o e =>
    rw [decode.eq_def, decode.eq_def]
    simp_all [bind_ok hb, Descriptor.withOptional, Descriptor.optional]
  | leaf o k n b =>
    -- the body matches on the kind, so it only reduces once the kind is known
    cases k <;>
    · rw [decode.eq_def, decode.eq_def]
      simp_all [bind_ok hb, Descriptor.withOptional, Descriptor.optional]

theorem withOptional_optional (d : Descriptor) : d.withOptional d.optional = d := by
  cases d <;> rfl

theorem roundTrips_nil {d : Descriptor} (h : d.optional = true) : RoundTrips d .nil :=
  ⟨[0], encode_nil h, fun rest pos => ⟨.nil, decode_absent h rest pos, .refl _⟩⟩

/-- An optional node puts its presence byte in front of the body it would have without the
flag; a body that reads back makes the whole node read back. -/
theorem roundTrips_of_body {d : Descriptor} {v : Value} (body : Bytes)
    (he : encode d v = .ok (if d.optional then 1 :: body else body))
    (hd : ∀ rest pos, ∃ w, decode (d.withOptional false) ⟨body ++ rest, pos⟩ =
      .ok w ⟨rest, pos + body.length⟩ ∧ w.Same v) :
    RoundTrips d v := by
  refine ⟨_, he, fun rest pos => ?_⟩
  cases hopt : d.optional with
  | false =>
    rw [← hopt, withOptional_optional] at hd
    simpa using hd rest pos
  | true =>
    obtain ⟨w, hw, hs⟩ := hd rest (pos + 1)
    refine ⟨w, ?_, hs⟩
    rw [if_pos rfl, List.cons_append, decode_present hopt (by decide), hw, List.length_cons]
    congr 2
    omega

/-! Leaves. -/

/-- A fixed-width field read back: `width` bytes holding the residue of a value. -/
theorem decode_fixed {α : Type} (width n : Nat) (mk : Nat → α) (rest : Bytes) (pos : Nat) :
    (do let m ← readUnsigned width; pure (mk m) : Reading α) ⟨littleEndian width n ++ rest, pos⟩ =
      .ok (mk (n % Nat.pow 256 width)) ⟨rest, pos + (littleEndian width n).length⟩ := by
  simp [bind_ok (readUnsigned_littleEndian width n rest pos), pure, EStateM.pure]

/-- A length field and its body read back, when the length fits the field. -/
theorem decode_sized {α : Type} (what : String) (s : Bytes) (hs : s.length < Nat.pow 2 32)
    (mk : Bytes → α) (rest : Bytes) (pos : Nat) :
    (do let t ← readSized what; pure (mk t) : Reading α)
        ⟨littleEndian 4 s.length ++ s ++ rest, pos⟩ =
      .ok (mk s) ⟨rest, pos + (littleEndian 4 s.length ++ s).length⟩ := by
  simp only [bind_ok (readSized_append hs what rest pos), List.length_append, length_littleEndian]
  simp only [pure, EStateM.pure]
  congr 2
  omega

theorem scalarBytes_decodeScalar {k : Kind} {v : Value} (hk : v.hasKind k = true)
    (hs : v.fitsWire = true) : ∃ bs, scalarBytes k v = some bs ∧
      ∀ rest pos, decodeScalar k ⟨bs ++ rest, pos⟩ = .ok v ⟨rest, pos + bs.length⟩ := by
  cases k <;> cases v <;> simp [hasKind] at hk <;> refine ⟨_, rfl, fun rest pos => ?_⟩
  case bool.bool b =>
    cases b <;> simp [decodeScalar, bind_ok (readBool_cons _ rest pos), pure, EStateM.pure]
  -- a signed value is written as its two's complement residue
  case int8.int8 x =>
    rw [decodeScalar, decode_fixed]
    congr 2
    exact Int8.toBitVec_inj.mp (ofNat_toInt_emod x.toBitVec _ rfl)
  case int16.int16 x =>
    rw [decodeScalar, decode_fixed]
    congr 2
    exact Int16.toBitVec_inj.mp (ofNat_toInt_emod x.toBitVec _ rfl)
  case int32.int32 x =>
    rw [decodeScalar, decode_fixed]
    congr 2
    exact Int32.toBitVec_inj.mp (ofNat_toInt_emod x.toBitVec _ rfl)
  case int64.int64 x =>
    rw [decodeScalar, decode_fixed]
    congr 2
    exact Int64.toBitVec_inj.mp (ofNat_toInt_emod x.toBitVec _ rfl)
  case enum.int64 x =>
    rw [decodeScalar, decode_fixed]
    congr 2
    exact Int64.toBitVec_inj.mp (ofNat_toInt_emod x.toBitVec _ rfl)
  case string.string s => rw [decodeScalar, decode_sized _ s (by simpa [fitsWire] using hs)]
  case binary.bytes s => rw [decodeScalar, decode_sized _ s (by simpa [fitsWire] using hs)]
  -- unsigned integers and float bit patterns
  all_goals
    rw [decodeScalar, decode_fixed]
    simp

theorem encode_scalar {o : Bool} {k : Kind} {n : String} {b : Binding} {v : Value}
    {bs : Bytes} (hk : v.hasKind k = true) (hbs : scalarBytes k v = some bs) :
    encode (.leaf o k n b) v = .ok (if o then 1 :: bs else bs) := by
  have he : encodeScalar k v = .ok bs := by
    cases k <;> cases v <;> simp [hasKind] at hk <;> simp [encodeScalar, isWirePrimitive, hbs]
  -- the encoder's match on the value and on the custom kind reduces once both are known
  cases k <;> cases v <;> simp [hasKind] at hk <;> rw [encode.eq_def] <;> simp only [he] <;> rfl

theorem decode_scalar_body {k : Kind} (hk : k ≠ .custom) (n : String) (b : Binding) :
    decode (.leaf false k n b) = decodeScalar k := by
  cases k <;> first | exact absurd rfl hk | (rw [decode.eq_def]; rfl)

theorem roundTrips_scalar {o : Bool} {k : Kind} {n : String} {b : Binding} {v : Value}
    (hk : v.hasKind k = true) (hs : v.fitsWire = true) : RoundTrips (.leaf o k n b) v := by
  obtain ⟨bs, hbs, hdec⟩ := scalarBytes_decodeScalar hk hs
  refine roundTrips_of_body bs (encode_scalar hk hbs) fun rest pos => ⟨v, ?_, .refl v⟩
  rw [Descriptor.withOptional, decode_scalar_body (ne_custom_of_hasKind hk), hdec]

/-! Lists. -/

theorem encodeItems_cons {e : Descriptor} {x : Value} {b : Bytes} (hb : encode e x = .ok b)
    (i : Nat) (xs : List Value) :
    encodeItems e i (x :: xs) = (encodeItems e (i + 1) xs).map (b ++ ·) := by
  rw [encodeItems.eq_def]
  simp only [hb]

/-- List elements back to back: each reads back when the one before it leaves the rest. -/
theorem items_roundTrip {e : Descriptor} {xs : List Value} (h : ∀ x ∈ xs, RoundTrips e x)
    (i : Nat) : ∃ bs, encodeItems e i xs = .ok bs ∧
      ∀ rest pos, ∃ ws, decodeItems e i xs.length ⟨bs ++ rest, pos⟩ =
        .ok ws ⟨rest, pos + bs.length⟩ ∧ ws.length = xs.length ∧
        ∀ p ∈ ws.zip xs, p.1.Same p.2 := by
  induction xs generalizing i with
  | nil =>
    refine ⟨[], by rw [encodeItems.eq_def], fun rest pos => ⟨[], ?_, rfl, by simp⟩⟩
    rw [decodeItems.eq_def]
    rfl
  | cons x xs ih =>
    obtain ⟨b, hb, hdb⟩ := h x List.mem_cons_self
    obtain ⟨bs, hbs, hdbs⟩ := ih (fun y hy => h y (List.mem_cons_of_mem x hy)) (i + 1)
    refine ⟨b ++ bs, by rw [encodeItems_cons hb, hbs]; rfl, fun rest pos => ?_⟩
    obtain ⟨w, hw, hsw⟩ := hdb (bs ++ rest) pos
    obtain ⟨ws, hws, hlen, hsame⟩ := hdbs rest (pos + b.length)
    refine ⟨w :: ws, ?_, by simp [hlen], ?_⟩
    · rw [List.length_cons, decodeItems.eq_def, List.append_assoc]
      simp only
      rw [bind_ok (withContext_ok hw), bind_ok hws]
      simp only [pure, EStateM.pure, List.length_append]
      congr 2
      omega
    · intro p hp
      rw [List.zip_cons_cons, List.mem_cons] at hp
      rcases hp with rfl | hp
      · exact hsw
      · exact hsame p hp

theorem decode_list_body (e : Descriptor) : decode (.list false e) =
    (do let n ← readUnsigned 4; let items ← decodeItems e 0 n; pure (.list items)) := by
  rw [decode.eq_1]
  rfl

theorem encode_list {o : Bool} {e : Descriptor} {xs : List Value} {bs : Bytes}
    (hbs : encodeItems e 0 xs = .ok bs) :
    encode (.list o e) (.list xs) =
      .ok (if o then 1 :: (littleEndian 4 xs.length ++ bs) else littleEndian 4 xs.length ++ bs) := by
  rw [encode.eq_2]
  cases o <;> simp [hbs, Except.map, Descriptor.optional]

theorem roundTrips_list {o : Bool} {e : Descriptor} {xs : List Value}
    (hlen : xs.length < Nat.pow 2 32) (h : ∀ x ∈ xs, RoundTrips e x) :
    RoundTrips (.list o e) (.list xs) := by
  obtain ⟨bs, hbs, hdbs⟩ := items_roundTrip h 0
  refine roundTrips_of_body (littleEndian 4 xs.length ++ bs) (encode_list hbs) fun rest pos => ?_
  obtain ⟨ws, hws, hlen', hsame⟩ := hdbs rest (pos + 4)
  refine ⟨.list ws, ?_, .list hlen' hsame⟩
  -- the count field holds the whole length
  have hcount : xs.length % Nat.pow 256 4 = xs.length := Nat.mod_eq_of_lt hlen
  rw [Descriptor.withOptional, decode_list_body, List.append_assoc]
  rw [bind_ok (readUnsigned_littleEndian 4 _ _ pos), hcount, bind_ok hws]
  simp only [pure, EStateM.pure, List.length_append, length_littleEndian]
  congr 2
  omega

/-! Structs. -/

theorem encodeMembers_cons_some {s m : String} {t : Descriptor} {fs : List (String × Value)}
    {x : Value} {b : Bytes} (hx : field? fs m = some x) (hb : encode t x = .ok b)
    (ms : List (String × Descriptor)) :
    encodeMembers s fs ((m, t) :: ms) = (encodeMembers s fs ms).map (b ++ ·) := by
  rw [encodeMembers.eq_def]
  simp only [hx, hb]

/-- Struct members back to back in declaration order, each taken from the record by name. -/
theorem members_roundTrip (s : String) {fs : List (String × Value)}
    {ms : List (String × Descriptor)}
    (h : ∀ m ∈ ms, ∃ x, field? fs m.1 = some x ∧ RoundTrips m.2 x) :
    ∃ bs, encodeMembers s fs ms = .ok bs ∧
      ∀ rest pos, ∃ ws, decodeMembers s ms ⟨bs ++ rest, pos⟩ = .ok ws ⟨rest, pos + bs.length⟩ ∧
        ws.map Prod.fst = ms.map Prod.fst ∧
        ∀ n w, field? ws n = some w → ∃ x, field? fs n = some x ∧ w.Same x := by
  induction ms with
  | nil =>
    refine ⟨[], by rw [encodeMembers.eq_def], fun rest pos => ⟨[], ?_, rfl, by simp [field?]⟩⟩
    rw [decodeMembers.eq_def]
    rfl
  | cons mt ms ih =>
    obtain ⟨m, t⟩ := mt
    obtain ⟨x, hx, b, hb, hdb⟩ := h (m, t) List.mem_cons_self
    obtain ⟨bs, hbs, hdbs⟩ := ih fun m' hm' => h m' (List.mem_cons_of_mem _ hm')
    refine ⟨b ++ bs, by rw [encodeMembers_cons_some hx hb, hbs]; rfl, fun rest pos => ?_⟩
    obtain ⟨w, hw, hsw⟩ := hdb (bs ++ rest) pos
    obtain ⟨ws, hws, hkeys, hsame⟩ := hdbs rest (pos + b.length)
    refine ⟨(m, w) :: ws, ?_, by simp [hkeys], fun n w' hn => ?_⟩
    · rw [decodeMembers.eq_def, List.append_assoc]
      simp only
      rw [bind_ok (withContext_ok hw), bind_ok hws]
      simp only [pure, EStateM.pure, List.length_append]
      congr 2
      omega
    · rw [field?_cons] at hn
      by_cases hm : m = n
      · subst hm
        rw [if_pos rfl] at hn
        cases hn
        exact ⟨x, hx, hsw⟩
      · rw [if_neg hm] at hn
        exact hsame n w' hn

theorem decode_struct_body (n s : String) (ms : List (String × Descriptor)) :
    decode (.leaf false .custom n (.struct (.mk s ms))) =
      (do let fields ← decodeMembers s ms; pure (.record fields)) := by
  rw [decode.eq_def]
  rfl

theorem encode_record {o : Bool} {n s : String} {ms : List (String × Descriptor)}
    {fs : List (String × Value)} {bs : Bytes} (hbs : encodeMembers s fs ms = .ok bs) :
    encode (.leaf o .custom n (.struct (.mk s ms))) (.record fs) =
      .ok (if o then 1 :: bs else bs) := by
  rw [encode.eq_def]
  cases o <;> simp [hbs, Except.map, Descriptor.optional]

theorem roundTrips_record {o : Bool} {n s : String} {ms : List (String × Descriptor)}
    {fs : List (String × Value)} (hkeys : ∀ key, key ∈ fs.map Prod.fst ↔ key ∈ ms.map Prod.fst)
    (h : ∀ m ∈ ms, ∃ x, field? fs m.1 = some x ∧ RoundTrips m.2 x) :
    RoundTrips (.leaf o .custom n (.struct (.mk s ms))) (.record fs) := by
  obtain ⟨bs, hbs, hdbs⟩ := members_roundTrip s h
  refine roundTrips_of_body bs (encode_record hbs) fun rest pos => ?_
  obtain ⟨ws, hws, hwkeys, hsame⟩ := hdbs rest pos
  refine ⟨.record ws, ?_, .record (fun key => ?_) (fun key w y hw hy => ?_)⟩
  · rw [Descriptor.withOptional, decode_struct_body, bind_ok hws]
    rfl
  · -- both records hold exactly the member names
    apply Bool.eq_iff_iff.mpr
    rw [field?_isSome_iff, field?_isSome_iff, hwkeys, hkeys]
  · obtain ⟨x, hx, hwx⟩ := hsame key w hw
    rw [hx] at hy
    cases hy
    exact hwx

/-! Every conforming value. -/

/-- By induction on the conformance; the record case finds each member's value under its
name, which the record holds since its keys are the member names. -/
theorem roundTrips_of_conforms {d : Descriptor} {v : Value} (hv : v.Conforms d)
    (hd : d.Bound) (hs : v.fitsWire = true) : RoundTrips d v := by
  induction hv with
  | absent h => exact roundTrips_nil h
  | scalar hk => exact roundTrips_scalar hk hs
  | list _ ih =>
    cases hd with
    | list he =>
      simp only [fitsWire, Bool.and_eq_true, decide_eq_true_eq, fitsWireAll_iff] at hs
      exact roundTrips_list hs.1 fun x hx => ih x hx he (hs.2 x hx)
  | @record o n s ms fs hkeys _ ih =>
    cases hd with
    | primitive hk => exact absurd rfl hk
    | struct hms =>
      rw [fitsWire, fitsWireFields_iff] at hs
      refine roundTrips_record hkeys fun m hm => ?_
      have hkey : (field? fs m.1).isSome :=
        (field?_isSome_iff fs m.1).mpr ((hkeys m.1).mpr (List.mem_map_of_mem hm))
      obtain ⟨x, hx⟩ := Option.isSome_iff_exists.mp hkey
      exact ⟨x, hx, ih m hm x hx (hms m hm) (hs _ (mem_of_field?_eq_some hx))⟩

/-- Encoding a value of a bound type tree succeeds when its strings, byte strings and lists
fit their 32-bit length fields, and decoding the bytes followed by any suffix gives back the
same value (records as maps, floats by their bits, strings as bytes) with exactly the suffix
unread. -/
theorem decode_encode {d : Descriptor} {v : Value} (hd : d.Bound) (hv : v.Conforms d)
    (hs : v.fitsWire = true) : ∃ bs, encode d v = .ok bs ∧
      ∀ suffix, ∃ w, decode d (Reader.ofBytes (bs ++ suffix)) = .ok w ⟨suffix, bs.length⟩ ∧
        w.Same v := by
  obtain ⟨bs, he, hdec⟩ := roundTrips_of_conforms hv hd hs
  refine ⟨bs, he, fun suffix => ?_⟩
  obtain ⟨w, hw, hsame⟩ := hdec suffix 0
  exact ⟨w, by simpa [Reader.ofBytes] using hw, hsame⟩

theorem decode_encode_struct_with_absent_member :
    (Descriptor.leaf false .custom "Pose" (.struct (.mk "Pose"
        [("x", .primitive .float64), ("tag", .leaf true .string "" .unbound)]))).Bound ∧
    (Value.record [("tag", .nil), ("x", .float64 0x3FF0000000000000)]).Conforms
      (.leaf false .custom "Pose" (.struct (.mk "Pose"
        [("x", .primitive .float64), ("tag", .leaf true .string "" .unbound)]))) ∧
    (Value.record [("tag", .nil), ("x", .float64 0x3FF0000000000000)]).fitsWire = true ∧
    ∃ bs, encode (.leaf false .custom "Pose" (.struct (.mk "Pose"
        [("x", .primitive .float64), ("tag", .leaf true .string "" .unbound)])))
        (.record [("tag", .nil), ("x", .float64 0x3FF0000000000000)]) = .ok bs ∧
      ∀ suffix, ∃ w, decode (.leaf false .custom "Pose" (.struct (.mk "Pose"
          [("x", .primitive .float64), ("tag", .leaf true .string "" .unbound)])))
          (Reader.ofBytes (bs ++ suffix)) = .ok w ⟨suffix, bs.length⟩ ∧
        w.Same (.record [("tag", .nil), ("x", .float64 0x3FF0000000000000)]) := by
  have hb : (Descriptor.leaf false .custom "Pose" (.struct (.mk "Pose"
      [("x", .primitive .float64), ("tag", .leaf true .string "" .unbound)]))).Bound := by
    refine .struct fun m hm => ?_
    simp only [List.mem_cons, List.not_mem_nil, or_false] at hm
    rcases hm with rfl | rfl <;> exact .primitive (by decide)
  have hc : (Value.record [("tag", .nil), ("x", .float64 0x3FF0000000000000)]).Conforms
      (.leaf false .custom "Pose" (.struct (.mk "Pose"
        [("x", .primitive .float64), ("tag", .leaf true .string "" .unbound)]))) := by
    refine .record (fun key => by simp [or_comm]) fun m hm x hx => ?_
    simp only [List.mem_cons, List.not_mem_nil, or_false] at hm
    rcases hm with rfl | rfl <;> simp [field?] at hx <;> subst hx
    · exact .scalar rfl
    · exact .absent rfl
  exact ⟨hb, hc, by decide, decode_encode hb hc (by decide)⟩

/-- A string of exactly `2^32` bytes is written with a zero length field, so it reads back
empty. -/
theorem decode_encode_string_of_length_two_pow_32 {s : Bytes} (hs : s.length = Nat.pow 2 32) :
    ¬ ∃ bs, encode (.primitive .string) (.string s) = .ok bs ∧
      ∀ suffix, ∃ w, decode (.primitive .string) (Reader.ofBytes (bs ++ suffix)) =
        .ok w ⟨suffix, bs.length⟩ ∧ w.Same (.string s) := by
  rintro ⟨bs, he, hd⟩
  -- the length keeps only its low 32 bits, which are all zero
  have hwrap : littleEndian 4 (Nat.pow 2 32) = littleEndian 4 0 := by decide
  have hbytes : scalarBytes .string (.string s) = some (littleEndian 4 0 ++ s) := by
    rw [scalarBytes, hs, hwrap]
  rw [Descriptor.primitive, encode_scalar rfl hbytes, if_neg Bool.false_ne_true] at he
  cases he
  obtain ⟨w, hw, -⟩ := hd []
  -- the decoder reads a zero length and stops after the length field
  have hzero : readUnsigned 4 ⟨littleEndian 4 0 ++ (s ++ []), 0⟩ = .ok 0 ⟨s ++ [], 4⟩ := by
    rw [readUnsigned_littleEndian]
  have hread : decode (.primitive .string) (Reader.ofBytes (littleEndian 4 0 ++ s ++ [])) =
      .ok (.string []) ⟨s ++ [], 4⟩ := by
    rw [Descriptor.primitive, decode_scalar_body (by decide), decodeScalar, Reader.ofBytes,
      List.append_assoc]
    have htake : take 0 "string" ⟨s ++ [], 4⟩ = .ok [] ⟨s ++ [], 4⟩ := by simp [take]
    simp only [bind, EStateM.bind, readSized, hzero, htake]
    rfl
  rw [hread, EStateM.Result.ok.injEq, Reader.mk.injEq] at hw
  obtain ⟨-, hrest, -⟩ := hw
  rw [List.append_nil] at hrest
  rw [hrest] at hs
  exact absurd hs (by decide)

/-- Decoding does not undo encoding for a string of `2^32` zero bytes. -/
theorem string_of_length_two_pow_32_misreads :
    (Descriptor.primitive .string).Bound ∧
    (Value.string (List.replicate (Nat.pow 2 32) 0)).Conforms (.primitive .string) ∧
    ¬ ∃ bs, encode (.primitive .string) (.string (List.replicate (Nat.pow 2 32) 0)) = .ok bs ∧
      ∀ suffix, ∃ w, decode (.primitive .string) (Reader.ofBytes (bs ++ suffix)) =
        .ok w ⟨suffix, bs.length⟩ ∧ w.Same (.string (List.replicate (Nat.pow 2 32) 0)) :=
  ⟨.primitive (by decide), .scalar rfl,
    decode_encode_string_of_length_two_pow_32 (List.length_replicate ..)⟩

end CoSimBridge.Wire
