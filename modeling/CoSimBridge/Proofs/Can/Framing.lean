import CoSimBridge.Proofs.Can.RoundTrip
import CoSimBridge.Proofs.Wire.Reencode
/-!
# Records are framed by their length fields

A payload of CAN operations is a sequence of records, each announcing its own length. `Record c op`
says that the bytes `c` form one complete record reading as `op`: a transmission whose 16-bit
data length and 32-bit record length agree, a confirmation of exactly twelve bytes, or a record
with any other opcode and any body, which reads as no operation. `Records` strings such records
together.

Reading one record succeeds exactly on a record followed by anything (`readRecord_eq_ok_iff`), so
the record at the front of a payload is determined by its bytes (`Record.unique`) and never by
what follows. Decoding accepts exactly the payloads that split into records
(`decode_eq_ok_iff`), and its record loop stops by itself before its fuel runs out
(`readRecords_fuel_congr`). Hence decoding is a homomorphism on concatenations that start with a
decodable payload (`decode_append_records`).
-/

namespace CoSimBridge
set_option autoImplicit false

namespace Wire

theorem get_eq_ok {r r₁ s : Reader} (h : (get : Reading Reader) r = .ok s r₁) : s = r ∧ r₁ = r := by
  simp only [get, getThe, MonadStateOf.get, EStateM.get, EStateM.Result.ok.injEq] at h
  exact ⟨h.1.symm, h.2.symm⟩

theorem throw_bind_ne_ok {α β : Type} {e : Fault} {f : α → Reading β} {r r' : Reader} {b : β} :
    ((throw e : Reading α) >>= f) r ≠ .ok b r' := by
  simp [throw, throwThe, MonadExceptOf.throw, EStateM.throw, bind, EStateM.bind]

/-- A field read as a little-endian number is the writing of that number. -/
theorem field_of_readUnsigned {w : Nat} {r₀ r : Reader} {n : Nat} (h : readUnsigned w r₀ = .ok n r) :
    n < Nat.pow 256 w ∧ r₀.Consumed r (littleEndian w n) := by
  obtain ⟨c, hlen, hc, rfl⟩ := readUnsigned_eq_ok h
  exact ⟨hlen ▸ ofLittleEndian_lt c, by rwa [littleEndian_ofLittleEndian_of_length hlen]⟩

end Wire

namespace Can
open Wire

/-- The bytes of one complete record and the operation it reads as. A flag byte of a transmission
is set when it is not zero; a record with an opcode other than transmit and confirm reads as no
operation, whatever its body. -/
inductive Record : Bytes → Option Operation → Prop
  | transmit (id : UInt32) (ide rtr : UInt8) (data : Bytes) (hn : data.length < Nat.pow 256 2) :
      Record (littleEndian 4 0x10 ++ littleEndian 4 (16 + data.length) ++ littleEndian 4 id.toNat ++
        [ide, rtr] ++ littleEndian 2 data.length ++ data)
        (some (.transmit { id, extended := ide != 0, remote := rtr != 0, data }))
  | confirm (id : UInt32) :
      Record (littleEndian 4 0x20 ++ littleEndian 4 12 ++ littleEndian 4 id.toNat) (some (.confirm id))
  | other (opcode : Nat) (body : Bytes) (hop : opcode < Nat.pow 256 4) (htransmit : opcode ≠ 0x10)
      (hconfirm : opcode ≠ 0x20) (hlen : 8 + body.length < Nat.pow 256 4) :
      Record (littleEndian 4 opcode ++ littleEndian 4 (8 + body.length) ++ body) none

/-- Bytes that split into complete records, back to back, and the operations they carry. -/
inductive Records : Bytes → List Operation → Prop
  | nil : Records [] []
  | cons {c rest : Bytes} {op : Option Operation} {ops : List Operation} :
      Record c op → Records rest ops → Records (c ++ rest) (op.toList ++ ops)

theorem Record.eight_le_length {c : Bytes} {op : Option Operation} (h : Record c op) :
    8 ≤ c.length := by
  cases h <;> simp <;> omega

/-! Reading one record. -/

theorem readTransmit_bytes (id : UInt32) (ide rtr : UInt8) (data : Bytes)
    (hn : data.length < Nat.pow 256 2) (rest : Bytes) (o : Nat) :
    readTransmit (16 + data.length)
      ⟨littleEndian 4 id.toNat ++ ide :: rtr :: (littleEndian 2 data.length ++ (data ++ rest)), o⟩ =
      .ok { id, extended := ide != 0, remote := rtr != 0, data } ⟨rest, o + 8 + data.length⟩ := by
  have hmod : data.length % Nat.pow 256 2 = data.length := Nat.mod_eq_of_lt hn
  simp [readTransmit, bind, EStateM.bind, readUnsigned_littleEndian, readBool_cons, hmod,
    Nat.add_comm, take_append rfl, pure, EStateM.pure]
  omega

theorem readRecord_of_record {c : Bytes} {op : Option Operation} (h : Record c op) (rest : Bytes)
    (o : Nat) : readRecord ⟨c ++ rest, o⟩ = .ok op ⟨rest, o + c.length⟩ := by
  cases h with
  | transmit id ide rtr data hn =>
    have hlen : (16 + data.length) % Nat.pow 256 4 = 16 + data.length :=
      Nat.mod_eq_of_lt (by simp at hn ⊢; omega)
    simp [readRecord, bind, EStateM.bind, readUnsigned_littleEndian, get, getThe, MonadStateOf.get,
      EStateM.get, hlen, Reader.remaining]
    rw [if_neg (by omega)]
    simp only [EStateM.bind, readTransmit_bytes id ide rtr data hn, pure, EStateM.pure]
    simp
    omega
  | confirm id =>
    simpa [Nat.add_assoc] using readRecord_confirm id rest o
  | other opcode body hop htransmit hconfirm hlen =>
    simp [readRecord, bind, EStateM.bind, readUnsigned_littleEndian, get, getThe, MonadStateOf.get,
      EStateM.get, Reader.remaining, Nat.mod_eq_of_lt hop, Nat.mod_eq_of_lt hlen, htransmit,
      hconfirm, take_append rfl, pure, EStateM.pure]
    omega

theorem readTransmit_eq_ok {length : Nat} {r₀ r : Reader} {f : Frame}
    (h : readTransmit length r₀ = .ok f r) :
    ∃ ide rtr, f.data.length < Nat.pow 256 2 ∧ length = 16 + f.data.length ∧
      r₀.Consumed r (littleEndian 4 f.id.toNat ++ [ide, rtr] ++ littleEndian 2 f.data.length ++ f.data) ∧
      f.extended = (ide != 0) ∧ f.remote = (rtr != 0) := by
  unfold readTransmit at h
  split at h
  · exact absurd h throw_bind_ne_ok
  obtain ⟨id, r₁, hid, h⟩ := bind_eq_ok h
  obtain ⟨ide, r₂, hide, h⟩ := bind_eq_ok h
  obtain ⟨rtr, r₃, hrtr, h⟩ := bind_eq_ok h
  obtain ⟨n, r₄, hn, h⟩ := bind_eq_ok h
  split at h
  · exact absurd h throw_bind_ne_ok
  rename_i hlen
  obtain ⟨data, r₅, hdata, h⟩ := bind_eq_ok h
  obtain ⟨rfl, rfl⟩ := pure_eq_ok h
  obtain ⟨hid_lt, hc₁⟩ := field_of_readUnsigned hid
  obtain ⟨x, hc₂, rfl⟩ := readBool_eq_ok hide
  obtain ⟨y, hc₃, rfl⟩ := readBool_eq_ok hrtr
  obtain ⟨hn_lt, hc₄⟩ := field_of_readUnsigned hn
  obtain ⟨rfl, hc₅⟩ := take_eq_ok hdata
  have hid' : (UInt32.ofNat id).toNat = id := by simp; omega
  dsimp only
  refine ⟨x, y, hn_lt, by simp at hlen; omega, ?_, rfl, rfl⟩
  simpa [hid'] using (((hc₁.trans hc₂).trans hc₃).trans hc₄).trans hc₅

theorem record_of_readRecord {r r' : Reader} {op : Option Operation} (h : readRecord r = .ok op r') :
    ∃ c, r.Consumed r' c ∧ Record c op := by
  unfold readRecord at h
  obtain ⟨s, r₁, hs, h₁⟩ := bind_eq_ok h
  obtain ⟨rfl, rfl⟩ := get_eq_ok hs
  clear h
  dsimp only at h₁
  -- the header: opcode and length, then the check that the body fits what remains
  obtain ⟨opcode, r₂, hop, h₂⟩ := bind_eq_ok h₁
  obtain ⟨length, r₃, hlen, h₃⟩ := bind_eq_ok h₂
  obtain ⟨s, r₄, hs, h⟩ := bind_eq_ok h₃
  obtain ⟨rfl, rfl⟩ := get_eq_ok hs
  clear h₁ h₂ h₃
  split at h
  · exact absurd h throw_bind_ne_ok
  rename_i hroom
  obtain ⟨hop_lt, hc₁⟩ := field_of_readUnsigned hop
  obtain ⟨hlen_lt, hc₂⟩ := field_of_readUnsigned hlen
  split at h
  · -- a transmission
    rename_i htransmit
    obtain ⟨f, r₅, hf, h⟩ := bind_eq_ok h
    obtain ⟨rfl, rfl⟩ := pure_eq_ok h
    have hf : readTransmit length r₄ = .ok f r₅ := by
      split at hf
      · cases hf; assumption
      · cases hf
    obtain ⟨ide, rtr, hn, rfl, hc₃, hx, hy⟩ := readTransmit_eq_ok hf
    obtain ⟨id, extended, remote, data⟩ := f
    simp only at hx hy hn hc₃ ⊢
    subst hx hy
    simp only [beq_iff_eq] at htransmit
    subst htransmit
    refine ⟨_, (hc₁.trans hc₂).trans hc₃, ?_⟩
    simpa using Record.transmit id ide rtr data hn
  · split at h
    · -- a confirmation
      rename_i _ hconfirm
      split at h
      · exact absurd h throw_bind_ne_ok
      rename_i h12
      obtain ⟨i, r₅, hi, h⟩ := bind_eq_ok h
      obtain ⟨rfl, rfl⟩ := pure_eq_ok h
      obtain ⟨hi_lt, hc₃⟩ := field_of_readUnsigned hi
      simp only [beq_iff_eq] at hconfirm
      simp only [bne_iff_ne, ne_eq, Decidable.not_not] at h12
      subst hconfirm h12
      have hid : (UInt32.ofNat i).toNat = i := by simp; omega
      refine ⟨_, (hc₁.trans hc₂).trans hc₃, ?_⟩
      simpa [hid] using Record.confirm (UInt32.ofNat i)
    · -- another opcode: its body is skipped
      rename_i htransmit hconfirm
      obtain ⟨body, r₅, hbody, h⟩ := bind_eq_ok h
      obtain ⟨rfl, rfl⟩ := pure_eq_ok h
      obtain ⟨hblen, hc₃⟩ := take_eq_ok hbody
      simp only [beq_iff_eq] at htransmit hconfirm
      simp only [Bool.or_eq_true, decide_eq_true_eq, not_or, not_lt] at hroom
      have hlength : length = 8 + body.length := by omega
      subst hlength
      exact ⟨_, (hc₁.trans hc₂).trans hc₃,
        Record.other opcode body hop_lt htransmit hconfirm hlen_lt⟩

/-- Reading one record succeeds exactly on a complete record, whatever follows it. -/
theorem readRecord_eq_ok_iff {r r' : Reader} {op : Option Operation} :
    readRecord r = .ok op r' ↔ ∃ c, r.Consumed r' c ∧ Record c op := by
  refine ⟨record_of_readRecord, ?_⟩
  rintro ⟨c, ⟨hrest, hoff⟩, hc⟩
  obtain ⟨bs, o⟩ := r
  obtain ⟨rest, o'⟩ := r'
  simp only at hrest hoff
  subst hrest hoff
  exact readRecord_of_record hc rest o

/-- The record at the front of a payload is fixed by its own bytes. -/
theorem Record.unique {c c' rest rest' : Bytes} {op op' : Option Operation} (hc : Record c op)
    (hc' : Record c' op') (h : c ++ rest = c' ++ rest') : c = c' ∧ op = op' ∧ rest = rest' := by
  have h₁ := readRecord_of_record hc rest 0
  have h₂ := readRecord_of_record hc' rest' 0
  rw [h, h₂] at h₁
  simp only [EStateM.Result.ok.injEq, Reader.mk.injEq] at h₁
  obtain ⟨rfl, rfl, hlen⟩ := h₁
  exact ⟨(List.append_inj h (by omega)).1, rfl, rfl⟩

/-! The record loop. -/

theorem Records.of_readRecords {fuel : Nat} {r r' : Reader} {ops : List Operation}
    (hfuel : r.remaining < 8 * fuel) (h : readRecords fuel r = .ok ops r') :
    Records r.rest ops ∧ r'.rest = [] := by
  induction fuel generalizing r ops with
  | zero => omega
  | succ fuel ih =>
    by_cases hr : r.rest = []
    · obtain ⟨rest, o⟩ := r
      simp only at hr
      subst hr
      rw [readRecords_nil] at h
      simp only [EStateM.Result.ok.injEq] at h
      obtain ⟨rfl, rfl⟩ := h
      exact ⟨.nil, rfl⟩
    · rw [readRecords_succ hr] at h
      obtain ⟨op, r₁, hone, h₁⟩ := bind_eq_ok h
      obtain ⟨ops', r₂, hrest, h₂⟩ := bind_eq_ok h₁
      obtain ⟨rfl, rfl⟩ := pure_eq_ok h₂
      obtain ⟨c, ⟨hc, -⟩, hrec⟩ := readRecord_eq_ok_iff.mp hone
      -- each record takes at least its header, so the rest fits the remaining fuel
      have h8 := hrec.eight_le_length
      have hlen : r.remaining = c.length + r₁.remaining := by
        simp [Reader.remaining, hc]
      obtain ⟨hrs, hnil⟩ := ih (by omega) hrest
      rw [hc]
      exact ⟨.cons hrec hrs, hnil⟩

theorem readRecords_of_records {bs : Bytes} {ops : List Operation} (h : Records bs ops) :
    ∀ fuel o, bs.length < 8 * fuel → readRecords fuel ⟨bs, o⟩ = .ok ops ⟨[], o + bs.length⟩ := by
  induction h with
  | nil =>
    intro fuel o _
    rw [readRecords_nil]
    rfl
  | @cons c rest op ops hc _ ih =>
    intro fuel o hlen
    have h8 := hc.eight_le_length
    obtain ⟨fuel, rfl⟩ : ∃ k, fuel = k + 1 := ⟨fuel - 1, by omega⟩
    have hne : c ++ rest ≠ [] := by
      intro h0
      simp only [List.append_eq_nil_iff] at h0
      simp [h0.1] at h8
    simp only [List.length_append] at hlen
    rw [readRecords_succ hne, bind_ok (readRecord_of_record hc rest o),
      bind_ok (ih fuel (o + c.length) (by omega))]
    simp only [pure, EStateM.pure, List.length_append, Nat.add_assoc]

/-- Decoding accepts exactly the payloads that split into complete records. -/
theorem decode_eq_ok_iff {bs : Bytes} {ops : List Operation} : decode bs = .ok ops ↔ Records bs ops := by
  constructor
  · intro h
    cases hr : readRecords (bs.length / 8 + 1) (Reader.ofBytes bs) with
    | ok ops' r' =>
      simp only [decode, hr, Except.ok.injEq] at h
      subst h
      exact (Records.of_readRecords (by simp only [Reader.remaining, Reader.ofBytes]; omega) hr).1
    | error e r' => simp [decode, hr] at h
  · intro h
    simp only [decode, Reader.ofBytes, readRecords_of_records h (bs.length / 8 + 1) 0 (by omega)]

/-- The record loop stops by itself: any fuel beyond one unit per eight bytes gives the same
outcome. -/
theorem readRecords_fuel_congr {f₁ f₂ : Nat} {r : Reader} (h₁ : r.remaining < 8 * f₁)
    (h₂ : r.remaining < 8 * f₂) : readRecords f₁ r = readRecords f₂ r := by
  induction f₁ generalizing f₂ r with
  | zero => omega
  | succ f₁ ih =>
    obtain ⟨f₂, rfl⟩ : ∃ k, f₂ = k + 1 := ⟨f₂ - 1, by omega⟩
    by_cases hr : r.rest = []
    · obtain ⟨rest, o⟩ := r
      simp only at hr
      subst hr
      rw [readRecords_nil, readRecords_nil]
    · rw [readRecords_succ hr, readRecords_succ hr]
      cases hone : readRecord r with
      | ok op r₁ =>
        obtain ⟨c, ⟨hc, -⟩, hrec⟩ := readRecord_eq_ok_iff.mp hone
        have h8 := hrec.eight_le_length
        have hlen : r.remaining = c.length + r₁.remaining := by
          simp [Reader.remaining, hc]
        have hih : readRecords f₁ r₁ = readRecords f₂ r₁ := ih (by omega) (by omega)
        rw [bind_ok hone, bind_ok hone]
        simp only [bind, EStateM.bind, hih]
      | error e r₁ => simp [bind, EStateM.bind, hone]

/-! Concatenations. -/

theorem Records.append {a b : Bytes} {xs ys : List Operation} (ha : Records a xs)
    (hb : Records b ys) : Records (a ++ b) (xs ++ ys) := by
  induction ha with
  | nil => simpa using hb
  | cons hc _ ih => simpa [List.append_assoc] using Records.cons hc ih

/-- Records after a decodable prefix are those of the rest: the prefix's records are found again,
record by record, since each is fixed by its own bytes. -/
theorem Records.split {a : Bytes} {xs : List Operation} (ha : Records a xs) {b : Bytes}
    {ys : List Operation} (hab : Records (a ++ b) ys) : ∃ zs, Records b zs ∧ ys = xs ++ zs := by
  induction ha generalizing ys with
  | nil => exact ⟨ys, by simpa using hab, rfl⟩
  | @cons c rest op ops hc _ ih =>
    generalize hbs : c ++ rest ++ b = bs at hab
    cases hab with
    | nil =>
      have h8 := hc.eight_le_length
      simp only [List.append_eq_nil_iff] at hbs
      simp [hbs.1.1] at h8
    | cons hc' hrest' =>
      rw [List.append_assoc] at hbs
      obtain ⟨rfl, rfl, rfl⟩ := Record.unique hc hc' hbs
      obtain ⟨zs, hzs, rfl⟩ := ih hrest'
      exact ⟨zs, hzs, by simp⟩

theorem decode_append_of_ok {a b : Bytes} {xs : List Operation} (ha : decode a = .ok xs)
    (ys : List Operation) : decode (a ++ b) = .ok ys ↔ ∃ zs, decode b = .ok zs ∧ ys = xs ++ zs := by
  have ha := decode_eq_ok_iff.mp ha
  simp only [decode_eq_ok_iff]
  constructor
  · exact ha.split
  · rintro ⟨zs, hzs, rfl⟩
    exact ha.append hzs

/-- Decoding ends on every payload, before its fuel runs out; it decodes records independently,
so a payload that decodes followed by any bytes decodes exactly when those bytes do, to the
operations of both; and a record with an opcode it does not know, whose length field gives its
own length, is skipped without effect on the records after it. -/
theorem decode_append_records :
    (∀ (bs : Bytes) (fuel : Nat), bs.length < 8 * fuel →
      readRecords fuel (Reader.ofBytes bs) = readRecords (bs.length / 8 + 1) (Reader.ofBytes bs)) ∧
    (∀ {a : Bytes} {xs : List Operation}, decode a = .ok xs → ∀ (b : Bytes) (ys : List Operation),
      decode (a ++ b) = .ok ys ↔ ∃ zs, decode b = .ok zs ∧ ys = xs ++ zs) ∧
    (∀ (opcode : Nat) (body : Bytes), opcode < Nat.pow 256 4 → opcode ≠ 0x10 → opcode ≠ 0x20 →
      8 + body.length < Nat.pow 256 4 →
      decode (littleEndian 4 opcode ++ littleEndian 4 (8 + body.length) ++ body) = .ok [] ∧
      ∀ (b : Bytes) (ys : List Operation),
        decode (littleEndian 4 opcode ++ littleEndian 4 (8 + body.length) ++ body ++ b) = .ok ys ↔
          decode b = .ok ys) := by
  refine ⟨fun bs fuel hfuel => readRecords_fuel_congr hfuel (by simp [Reader.ofBytes, Reader.remaining]; omega),
    fun ha b ys => decode_append_of_ok ha ys, fun opcode body hop htransmit hconfirm hlen => ?_⟩
  have hskip : decode (littleEndian 4 opcode ++ littleEndian 4 (8 + body.length) ++ body) = .ok [] :=
    decode_eq_ok_iff.mpr (by simpa using Records.cons (Record.other opcode body hop htransmit hconfirm hlen) .nil)
  refine ⟨hskip, fun b ys => ?_⟩
  rw [decode_append_of_ok hskip]
  simp

/-- A record of opcode `0x30` with a two-byte body, then a confirmation: the first is skipped. -/
theorem decode_append_records_skips_unknown :
    readRecords 4 (Reader.ofBytes (littleEndian 4 0x30 ++ littleEndian 4 (8 + [7, 7].length) ++ [7, 7])) =
      readRecords 2 (Reader.ofBytes (littleEndian 4 0x30 ++ littleEndian 4 (8 + [7, 7].length) ++ [7, 7])) ∧
    decode (littleEndian 4 0x30 ++ littleEndian 4 (8 + [7, 7].length) ++ [7, 7] ++
      (littleEndian 4 0x20 ++ littleEndian 4 12 ++ littleEndian 4 9)) = .ok [.confirm 9] := by
  have hconfirm : decode (littleEndian 4 0x20 ++ littleEndian 4 12 ++ littleEndian 4 9) =
      .ok [.confirm 9] := rfl
  refine ⟨decode_append_records.1 _ 4 (by decide), ?_⟩
  obtain ⟨hskip, hrest⟩ := decode_append_records.2.2 0x30 [7, 7] (by decide) (by decide) (by decide)
    (by decide)
  exact ((decode_append_records.2.1 hskip _ _).mpr ⟨_, hconfirm, rfl⟩)

end Can

end CoSimBridge
