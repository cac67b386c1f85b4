import CoSimBridge.Can.Record
import CoSimBridge.Proofs.Wire.Primitives
/-! CAN records read back. Each operation a record can carry is written as its opcode, its
length, and its body; reading the record checks the length against what remains, against the
fixed length of a confirmation and against the 16-bit data length of a frame, and all three
agree with what was written for every frame of up to 65535 bytes. Records back to back read back
as the list of their operations. The only failure of writing a list of such operations is a
frame too long for its 16-bit length. -/

namespace CoSimBridge.Can
open Wire
set_option autoImplicit false

/-- Built by one of the two constructors the records know, a transmission or a confirmation,
as opposed to an operation with another opcode. -/
def Operation.Known : Operation → Prop
  | .transmit _ | .confirm _ => True
  | .other _ _ => False

instance : DecidablePred Operation.Known := fun op =>
  match op with
  | .transmit _ | .confirm _ => isTrue trivial
  | .other _ _ => isFalse id

theorem flag_ne_zero (b : Bool) : ((if b then 1 else 0 : UInt8) != 0) = b := by
  cases b <;> rfl

theorem readTransmit_record (f : Frame) (hn : f.data.length ≤ 0xFFFF) (rest : Bytes) (o : Nat) :
    readTransmit (16 + f.data.length)
      ⟨littleEndian 4 f.id.toNat ++ (if f.extended then 1 else 0) :: (if f.remote then 1 else 0) ::
        (littleEndian 2 f.data.length ++ (f.data ++ rest)), o⟩ =
      .ok f ⟨rest, o + 8 + f.data.length⟩ := by
  have hmod : f.data.length % 65536 = f.data.length := Nat.mod_eq_of_lt (by omega)
  simp [readTransmit, bind, EStateM.bind, readUnsigned_littleEndian, readBool_cons, hmod,
    Nat.add_comm, take_append rfl, pure, EStateM.pure, flag_ne_zero]
  omega

theorem readRecord_transmit (f : Frame) (hn : f.data.length ≤ 0xFFFF) (rest : Bytes) (o : Nat) :
    readRecord ⟨littleEndian 4 0x10 ++ littleEndian 4 (16 + f.data.length) ++
      littleEndian 4 f.id.toNat ++ [if f.extended then 1 else 0, if f.remote then 1 else 0] ++
        littleEndian 2 f.data.length ++ f.data ++ rest, o⟩ =
      .ok (some (.transmit f)) ⟨rest, o + 16 + f.data.length⟩ := by
  have hlen : (16 + f.data.length) % Nat.pow 256 4 = 16 + f.data.length :=
    Nat.mod_eq_of_lt (by simp; omega)
  simp [readRecord, bind, EStateM.bind, readUnsigned_littleEndian, get, getThe, MonadStateOf.get,
    EStateM.get, hlen, Reader.remaining]
  rw [if_neg (by omega)]
  simp only [EStateM.bind, readTransmit_record f hn, pure, EStateM.pure]

theorem readRecord_confirm (i : UInt32) (rest : Bytes) (o : Nat) :
    readRecord ⟨littleEndian 4 0x20 ++ littleEndian 4 12 ++ littleEndian 4 i.toNat ++ rest, o⟩ =
      .ok (some (.confirm i)) ⟨rest, o + 12⟩ := by
  simp [readRecord, bind, EStateM.bind, readUnsigned_littleEndian, get, getThe, MonadStateOf.get,
    EStateM.get, Reader.remaining, pure, EStateM.pure]

theorem readRecord_encodeOne {op : Operation} {bs : Bytes} (h : encodeOne op = .ok bs)
    (rest : Bytes) (o : Nat) :
    readRecord ⟨bs ++ rest, o⟩ = .ok (some op) ⟨rest, o + bs.length⟩ ∧ 12 ≤ bs.length := by
  cases op with
  | transmit f =>
    by_cases hn : f.data.length ≤ 0xFFFF
    · simp only [encodeOne, if_neg (Nat.not_lt.mpr hn), Except.ok.injEq] at h
      subst h
      refine ⟨?_, by simp; omega⟩
      rw [readRecord_transmit f hn]
      simp
      omega
    · simp [encodeOne, Nat.lt_of_not_le hn] at h
  | confirm i =>
    simp only [encodeOne, Except.ok.injEq] at h
    subst h
    exact ⟨readRecord_confirm i rest o, by simp⟩
  | other c i => simp [encodeOne] at h

theorem encode_cons (op : Operation) (ops : List Operation) :
    encode (op :: ops) = (do let b ← encodeOne op; let bs ← encode ops; pure (b ++ bs)) := by
  simp only [encode, List.mapM_cons, bind_assoc, pure_bind, List.flatten_cons]

theorem readRecords_nil (fuel o : Nat) : readRecords fuel ⟨[], o⟩ = .ok [] ⟨[], o⟩ := by
  cases fuel <;> simp [readRecords, bind, EStateM.bind, get, getThe, MonadStateOf.get, EStateM.get,
    Reader.remaining, pure, EStateM.pure]

theorem readRecords_succ {r : Reader} (h : r.rest ≠ []) (fuel : Nat) :
    readRecords (fuel + 1) r =
      (do let op ← readRecord; let rest ← readRecords fuel; pure (op.toList ++ rest)) r := by
  simp [readRecords, bind, EStateM.bind, get, getThe, MonadStateOf.get, EStateM.get,
    Reader.remaining, h]

/-- The records of operations read back as those operations, given one unit of fuel per record;
every record takes at least 12 bytes. -/
theorem readRecords_encode {ops : List Operation} {bs : Bytes} (h : encode ops = .ok bs) :
    12 * ops.length ≤ bs.length ∧
      ∀ fuel, ops.length ≤ fuel → ∀ o, readRecords fuel ⟨bs, o⟩ = .ok ops ⟨[], o + bs.length⟩ := by
  induction ops generalizing bs with
  | nil =>
    simp only [encode, List.mapM_nil, bind, Except.bind, pure, Except.pure, Except.ok.injEq] at h
    subst h
    exact ⟨by simp, fun fuel _ o => readRecords_nil fuel o⟩
  | cons op ops ih =>
    rw [encode_cons] at h
    -- peel the first record and the rest off the successful encoding
    cases hb : encodeOne op with
    | error e => simp [hb, bind, Except.bind] at h
    | ok b =>
      cases hr : encode ops with
      | error e => simp [hb, hr, bind, Except.bind] at h
      | ok r =>
        simp only [hb, hr, bind, Except.bind, pure, Except.pure, Except.ok.injEq] at h
        subst h
        obtain ⟨hlen, hread⟩ := ih hr
        refine ⟨?_, fun fuel hfuel o => ?_⟩
        · have := (readRecord_encodeOne hb [] 0).2
          simp only [List.length_cons, List.length_append]
          omega
        · obtain ⟨hone, hb12⟩ := readRecord_encodeOne hb r o
          obtain ⟨fuel, rfl⟩ : ∃ k, fuel = k + 1 := ⟨fuel - 1, by simp at hfuel; omega⟩
          have hne : b ++ r ≠ [] := by
            intro h0
            simp [List.append_eq_nil_iff] at h0
            simp [h0.1] at hb12
          rw [readRecords_succ hne, bind_ok hone, bind_ok (hread fuel (by simp at hfuel; omega) _)]
          simp [pure, EStateM.pure]
          omega

theorem decode_of_encode {ops : List Operation} {bs : Bytes} (h : encode ops = .ok bs) :
    decode bs = .ok ops := by
  obtain ⟨hlen, hread⟩ := readRecords_encode h
  simp only [decode, Reader.ofBytes, hread (bs.length / 8 + 1) (by omega) 0]

/-! Which lists of operations encode. -/

theorem encodeOne_of_le {f : Frame} (hn : f.data.length ≤ 0xFFFF) :
    ∃ b, encodeOne (.transmit f) = .ok b :=
  ⟨_, if_neg (Nat.not_lt.mpr hn)⟩

theorem encodeOne_of_lt {f : Frame} (hn : 0xFFFF < f.data.length) :
    ∃ e, encodeOne (.transmit f) = .error e ∧ e.has .shape := by
  refine ⟨_, if_pos hn, ?_⟩
  simp [Fault.has, Fault.conditions, Fault.codecf, Fault.codec]

/-- After a record that encodes, the failures of the whole list are those of the rest. -/
theorem encode_cons_error {op : Operation} {b : Bytes} (hb : encodeOne op = .ok b)
    (ops : List Operation) (e : Fault) : encode (op :: ops) = .error e ↔ encode ops = .error e := by
  rw [encode_cons, hb]
  cases encode ops <;> simp [bind, Except.bind, pure, Except.pure]

theorem encode_succeeds {ops : List Operation} (hknown : ∀ op ∈ ops, op.Known)
    (hfit : ∀ f, .transmit f ∈ ops → f.data.length ≤ 0xFFFF) : ∃ bs, encode ops = .ok bs := by
  induction ops with
  | nil => exact ⟨[], rfl⟩
  | cons op ops ih =>
    obtain ⟨r, hr⟩ := ih (fun o h => hknown o (List.mem_cons_of_mem _ h))
      (fun f h => hfit f (List.mem_cons_of_mem _ h))
    have hb : ∃ b, encodeOne op = .ok b := by
      cases op with
      | transmit f => exact encodeOne_of_le (hfit f List.mem_cons_self)
      | confirm i => exact ⟨_, rfl⟩
      | other c i => exact (hknown _ List.mem_cons_self).elim
    obtain ⟨b, hb⟩ := hb
    exact ⟨b ++ r, by simp [encode_cons, hb, hr, bind, Except.bind, pure, Except.pure]⟩

theorem encode_fails_iff {ops : List Operation} (hknown : ∀ op ∈ ops, op.Known) :
    (∃ e, encode ops = .error e ∧ e.has .shape) ↔
      ∃ f, .transmit f ∈ ops ∧ 0xFFFF < f.data.length := by
  induction ops with
  | nil => simp [encode, bind, Except.bind, pure, Except.pure]
  | cons op ops ih =>
    have ih := ih (fun o h => hknown o (List.mem_cons_of_mem _ h))
    -- an operation that encodes leaves both sides to the rest of the list
    have tail {b : Bytes} (hb : encodeOne op = .ok b) (hlong : ∀ f, op = .transmit f → f.data.length ≤ 0xFFFF) :
        (∃ e, encode (op :: ops) = .error e ∧ e.has .shape) ↔
          ∃ f, .transmit f ∈ op :: ops ∧ 0xFFFF < f.data.length := by
      simp only [encode_cons_error hb, ih, List.mem_cons]
      constructor
      · rintro ⟨f, hf, hlt⟩
        exact ⟨f, .inr hf, hlt⟩
      · rintro ⟨f, hf | hf, hlt⟩
        · exact absurd (hlong f hf.symm) (by omega)
        · exact ⟨f, hf, hlt⟩
    cases op with
    | transmit f =>
      by_cases hn : f.data.length ≤ 0xFFFF
      · obtain ⟨b, hb⟩ := encodeOne_of_le hn
        exact tail hb (fun g hg => by cases hg; exact hn)
      · obtain ⟨e, he, hshape⟩ := encodeOne_of_lt (Nat.lt_of_not_le hn)
        refine iff_of_true ⟨e, ?_, hshape⟩ ⟨f, List.mem_cons_self, Nat.lt_of_not_le hn⟩
        simp [encode_cons, he, bind, Except.bind]
    | confirm i => exact tail rfl (fun g hg => by cases hg)
    | other c i => exact (hknown _ List.mem_cons_self).elim

theorem decode_encode_operations (ops : List Operation) (hknown : ∀ op ∈ ops, op.Known) :
    ((∀ f, .transmit f ∈ ops → f.data.length ≤ 0xFFFF) →
      ∃ bs, encode ops = .ok bs ∧ decode bs = .ok ops) ∧
    ((∃ e, encode ops = .error e ∧ e.has .shape) ↔
      ∃ f, .transmit f ∈ ops ∧ 0xFFFF < f.data.length) := by
  refine ⟨fun hfit => ?_, encode_fails_iff hknown⟩
  obtain ⟨bs, hbs⟩ := encode_succeeds hknown hfit
  exact ⟨bs, hbs, decode_of_encode hbs⟩

theorem decode_encode_operations_mixed :
    (∀ op ∈ [Operation.transmit { id := 1, data := [1, 2, 3] }, .confirm 9,
      .transmit { id := 0x1FFFFFFF, extended := true, remote := true, data := [] }], op.Known) ∧
    ((∀ f, .transmit f ∈ [Operation.transmit { id := 1, data := [1, 2, 3] }, .confirm 9,
      .transmit { id := 0x1FFFFFFF, extended := true, remote := true, data := [] }] →
        f.data.length ≤ 0xFFFF) →
      ∃ bs, encode [Operation.transmit { id := 1, data := [1, 2, 3] }, .confirm 9,
        .transmit { id := 0x1FFFFFFF, extended := true, remote := true, data := [] }] = .ok bs ∧
      decode bs = .ok [Operation.transmit { id := 1, data := [1, 2, 3] }, .confirm 9,
        .transmit { id := 0x1FFFFFFF, extended := true, remote := true, data := [] }]) ∧
    ((∃ e, encode [Operation.transmit { id := 1, data := [1, 2, 3] }, .confirm 9,
        .transmit { id := 0x1FFFFFFF, extended := true, remote := true, data := [] }] = .error e ∧
        e.has .shape) ↔
      ∃ f, .transmit f ∈ [Operation.transmit { id := 1, data := [1, 2, 3] }, .confirm 9,
        .transmit { id := 0x1FFFFFFF, extended := true, remote := true, data := [] }] ∧
        0xFFFF < f.data.length) :=
  ⟨by decide, decode_encode_operations _ (by decide)⟩

end CoSimBridge.Can
