import Mathlib
import CoSimBridge.Proofs.Wire.Reencode
/-!
# The wire format is self-delimiting

A reading that succeeds by consuming bytes `c` does the same in front of any other bytes, and
on every strict prefix of `c` it fails for want of bytes, with a codec failure that carries the
truncated-buffer condition (`Delimited`). The property composes: a reading built by `bind` from
such readings has it (`SelfDelimiting.bind`), and a failure wrapped in context keeps both its
condition and its class. Decoding under a bound type tree is built that way from `take`, so no
strict prefix of what it consumes decodes (`selfDelimiting_decode`); with the round trip, no
strict prefix of an encoding decodes (`decode_strict_prefix_truncated`), as long as the value's
lengths and counts fit their 32-bit fields.
-/

namespace CoSimBridge
set_option autoImplicit false

namespace Fault

/-- A failure for want of bytes: it matches the truncated-buffer condition and is of the codec's
class. -/
def Truncation (f : Fault) : Prop :=
  f.has .truncated = true ∧ f.classCode = FaultClass.codec.code

theorem Truncation.wrap {f : Fault} (h : f.Truncation) (b a : String) :
    (Fault.wrap b f a).Truncation := by
  simpa [Truncation, has, conditions, classCode, cls?] using h

theorem Truncation.context {f : Fault} (h : f.Truncation) (s : String) :
    (Fault.context s f).Truncation :=
  h.wrap _ _

theorem truncation_codecf (op detail : String) : (codecf op .truncated detail).Truncation := by
  simp [Truncation, codecf, codec, has, conditions, classCode, cls?, FaultClass.code]

end Fault

namespace Wire
open Value

variable {α β : Type}

/-! Prefixes of concatenations. -/

/-- A prefix of `c₁ ++ c₂` at least as long as `c₁` is `c₁` followed by a prefix of `c₂`. -/
theorem prefix_append_split {p c₁ c₂ : Bytes} (hp : p <+: c₁ ++ c₂) (hlen : c₁.length ≤ p.length) :
    ∃ q, p = c₁ ++ q ∧ q <+: c₂ := by
  obtain ⟨q, rfl⟩ := List.prefix_of_prefix_length_le (List.prefix_append c₁ c₂) hp hlen
  exact ⟨q, rfl, (List.prefix_append_right_inj c₁).mp hp⟩

/-! Failing for want of bytes. -/

/-- Reading `x` from `r` fails for want of bytes. -/
def Starves (x : Reading α) (r : Reader) : Prop :=
  ∃ f r', x r = .error f r' ∧ f.Truncation

theorem Starves.bind {x : Reading α} {r : Reader} (h : Starves x r) (f : α → Reading β) :
    Starves (x >>= f) r := by
  obtain ⟨e, r', hx, he⟩ := h
  exact ⟨e, r', by simp [Bind.bind, EStateM.bind, hx], he⟩

theorem starves_bind_of_ok {x : Reading α} {f : α → Reading β} {r r' : Reader} {a : α}
    (hx : x r = .ok a r') (h : Starves (f a) r') : Starves (x >>= f) r := by
  obtain ⟨e, r'', hf, he⟩ := h
  exact ⟨e, r'', by rw [bind_ok hx, hf], he⟩

theorem Starves.withContext {x : Reading α} {r : Reader} (h : Starves x r) {g : Fault → Fault}
    (hg : ∀ f, f.Truncation → (g f).Truncation) : Starves (withContext g x) r := by
  obtain ⟨e, r', hx, he⟩ := h
  exact ⟨g e, r', by simp [Wire.withContext, hx], hg e he⟩

theorem take_starves {p : Bytes} {n : Nat} (h : p.length < n) (what : String) (o : Nat) :
    Starves (take n what) ⟨p, o⟩ := by
  simp only [Starves, take, if_pos h]
  exact ⟨_, _, rfl, Fault.truncation_codecf _ _⟩

/-! Readings delimited by what they consume. -/

/-- `x` reads `a` from offset `o` by consuming exactly `c`: it does so in front of any bytes,
and from every strict prefix of `c` it fails for want of bytes. -/
structure Delimited (x : Reading α) (o : Nat) (c : Bytes) (a : α) : Prop where
  extend : ∀ rest, x ⟨c ++ rest, o⟩ = .ok a ⟨rest, o + c.length⟩
  starve : ∀ p, p <+: c → p.length < c.length → Starves x ⟨p, o⟩

/-- Every success of `x` is delimited by the bytes it consumed. -/
def SelfDelimiting (x : Reading α) : Prop :=
  ∀ r₀ a r, x r₀ = .ok a r → ∃ c, r₀.Consumed r c ∧ Delimited x r₀.offset c a

/-- Two readings in sequence: a strict prefix ends either inside the first one's bytes, or
after them and inside the second one's. -/
theorem Delimited.bind {x : Reading α} {f : α → Reading β} {o : Nat} {c₁ c₂ : Bytes} {a : α}
    {b : β} (h₁ : Delimited x o c₁ a) (h₂ : Delimited (f a) (o + c₁.length) c₂ b) :
    Delimited (x >>= f) o (c₁ ++ c₂) b := by
  refine ⟨fun rest => ?_, fun p hp hlen => ?_⟩
  · rw [List.append_assoc, bind_ok (h₁.extend _), h₂.extend, List.length_append, Nat.add_assoc]
  · by_cases hshort : p.length < c₁.length
    · have hp₁ : p <+: c₁ :=
        List.prefix_of_prefix_length_le hp (List.prefix_append c₁ c₂) hshort.le
      exact (h₁.starve p hp₁ hshort).bind f
    · obtain ⟨q, rfl, hq⟩ := prefix_append_split hp (by omega)
      simp only [List.length_append] at hlen
      exact starves_bind_of_ok (h₁.extend q) (h₂.starve q hq (by omega))

theorem SelfDelimiting.bind {x : Reading α} {f : α → Reading β} (hx : SelfDelimiting x)
    (hf : ∀ a, SelfDelimiting (f a)) : SelfDelimiting (x >>= f) := by
  intro r₀ b r h
  obtain ⟨a, r₁, hxa, hfb⟩ := bind_eq_ok h
  obtain ⟨c₁, hc₁, hd₁⟩ := hx r₀ a r₁ hxa
  obtain ⟨c₂, hc₂, hd₂⟩ := hf a r₁ b r hfb
  rw [hc₁.2] at hd₂
  exact ⟨c₁ ++ c₂, hc₁.trans hc₂, hd₁.bind hd₂⟩

theorem selfDelimiting_pure (a : α) : SelfDelimiting (pure a : Reading α) := by
  intro r₀ b r h
  obtain ⟨rfl, rfl⟩ := pure_eq_ok h
  exact ⟨[], ⟨by simp, by simp⟩, fun rest => rfl, fun p _ hlen => absurd hlen (Nat.not_lt_zero _)⟩

theorem selfDelimiting_throw (e : Fault) : SelfDelimiting (throw e : Reading α) := by
  intro r₀ a r h
  simp [throw, throwThe, MonadExceptOf.throw, EStateM.throw] at h

theorem SelfDelimiting.withContext {x : Reading α} (hx : SelfDelimiting x) {g : Fault → Fault}
    (hg : ∀ f, f.Truncation → (g f).Truncation) : SelfDelimiting (withContext g x) := by
  intro r₀ a r h
  obtain ⟨c, hc, hd⟩ := hx r₀ a r (withContext_eq_ok h)
  exact ⟨c, hc, fun rest => withContext_ok (hd.extend rest),
    fun p hp hlen => (hd.starve p hp hlen).withContext hg⟩

/-! The primitive readings. -/

theorem selfDelimiting_take (n : Nat) (what : String) : SelfDelimiting (take n what) := by
  intro r₀ c r h
  obtain ⟨hlen, hc⟩ := take_eq_ok h
  exact ⟨c, hc, fun rest => by rw [take_append hlen, hlen],
    fun p _ hp => take_starves (hlen ▸ hp) what _⟩

theorem selfDelimiting_readUnsigned (w : Nat) : SelfDelimiting (readUnsigned w) :=
  (selfDelimiting_take _ _).bind fun _ => selfDelimiting_pure _

theorem readUnsigned_starves {p : Bytes} {w : Nat} (h : p.length < w) (o : Nat) :
    Starves (readUnsigned w) ⟨p, o⟩ :=
  (take_starves h _ o).bind _

theorem selfDelimiting_readBool : SelfDelimiting readBool :=
  (selfDelimiting_take _ _).bind fun _ => selfDelimiting_pure _

/-- A length field and its body. `readSized` puts the cursor back when the body is short, which
changes where it fails but not why. -/
theorem selfDelimiting_readSized (what : String) : SelfDelimiting (readSized what) := by
  intro r₀ s r h
  obtain ⟨c, hlen, hc, hslen⟩ := readSized_eq_ok h
  have hfits : s.length < Nat.pow 256 4 := hslen ▸ hlen ▸ ofLittleEndian_lt c
  have hfield : c = littleEndian 4 s.length := by
    rw [hslen, littleEndian_ofLittleEndian_of_length hlen]
  subst hfield
  refine ⟨_, hc, fun rest => ?_, fun p hp hplen => ?_⟩
  · rw [readSized_append hfits, List.length_append, length_littleEndian, Nat.add_assoc]
  · by_cases hshort : p.length < 4
    · -- the length field itself is cut
      obtain ⟨e, r', hx, he⟩ := readUnsigned_starves hshort r₀.offset
      exact ⟨e, r', by simp only [readSized, hx], he⟩
    · -- the body is cut: the field reads whole and the body's `take` comes up short
      obtain ⟨q, rfl, hq⟩ := prefix_append_split hp (by simp; omega)
      simp only [List.length_append, length_littleEndian] at hplen
      obtain ⟨e, r', hx, he⟩ := take_starves (show q.length < s.length by omega) what (r₀.offset + 4)
      refine ⟨e, ⟨littleEndian 4 s.length ++ q, r₀.offset⟩, ?_, he⟩
      simp only [readSized, readUnsigned_littleEndian, Nat.mod_eq_of_lt hfits, hx]

/-! Decoding. -/

theorem selfDelimiting_decodeScalar (k : Kind) : SelfDelimiting (decodeScalar k) := by
  cases k
  case bool => exact selfDelimiting_readBool.bind fun _ => selfDelimiting_pure _
  case string | binary => exact (selfDelimiting_readSized _).bind fun _ => selfDelimiting_pure _
  case invalid | custom | clock => exact selfDelimiting_throw _
  all_goals exact (selfDelimiting_readUnsigned _).bind fun _ => selfDelimiting_pure _

theorem selfDelimiting_decodeItems {e : Descriptor} (he : SelfDelimiting (decode e)) (n : Nat) :
    ∀ i, SelfDelimiting (decodeItems e i n) := by
  induction n with
  | zero =>
    intro i
    rw [decodeItems.eq_def]
    exact selfDelimiting_pure _
  | succ n ih =>
    intro i
    rw [decodeItems.eq_def]
    exact (he.withContext fun f hf => hf.context _).bind fun _ =>
      (ih (i + 1)).bind fun _ => selfDelimiting_pure _

theorem selfDelimiting_decodeMembers (s : String) {ms : List (String × Descriptor)}
    (hms : ∀ m ∈ ms, SelfDelimiting (decode m.2)) : SelfDelimiting (decodeMembers s ms) := by
  induction ms with
  | nil =>
    rw [decodeMembers.eq_def]
    exact selfDelimiting_pure _
  | cons mt ms ih =>
    obtain ⟨m, t⟩ := mt
    rw [decodeMembers.eq_def]
    exact ((hms (m, t) List.mem_cons_self).withContext fun f hf => hf.wrap _ _).bind fun _ =>
      (ih fun m' hm' => hms m' (List.mem_cons_of_mem _ hm')).bind fun _ => selfDelimiting_pure _

/-- An optional node with no byte left for its presence flag. -/
theorem decode_optional_starves {d : Descriptor} (h : d.optional = true) (o : Nat) :
    Starves (decode d) ⟨[], o⟩ := by
  have hflag : Starves readBool ⟨[], o⟩ := (take_starves (by simp) _ o).bind _
  rw [decode.eq_def]
  simp only [h, ↓reduceIte]
  exact hflag.bind _

/-- The presence flag in front of a delimited body: a strict prefix is empty, or the flag
followed by a strict prefix of the body. -/
theorem selfDelimiting_of_body {d : Descriptor}
    (hbody : SelfDelimiting (decode (d.withOptional false))) : SelfDelimiting (decode d) := by
  cases hopt : d.optional with
  | false =>
    rw [← hopt, withOptional_optional] at hbody
    exact hbody
  | true =>
    intro r₀ v r hv
    obtain ⟨x, rest, hrest, ⟨rfl, rfl, rfl⟩ | ⟨hx, hbv⟩⟩ := decode_optional_eq_ok hopt hv
    · refine ⟨[0], Reader.consumed_head hrest, fun more => decode_absent hopt more _,
        fun p _ hlen => ?_⟩
      have hp : p = [] := List.length_eq_zero_iff.mp (by simpa using hlen)
      subst hp
      exact decode_optional_starves hopt _
    · obtain ⟨c, hc, hd⟩ := hbody _ v r hbv
      dsimp only at hd
      refine ⟨x :: c, (Reader.consumed_head hrest).trans hc, fun more => ?_, fun p hp hlen => ?_⟩
      · rw [List.cons_append, decode_present hopt hx, hd.extend, List.length_cons]
        congr 2
        omega
      · rcases List.prefix_cons_iff.mp hp with rfl | ⟨t, rfl, ht⟩
        · exact decode_optional_starves hopt _
        · obtain ⟨e, r', he, htrunc⟩ := hd.starve t ht (by simpa using hlen)
          exact ⟨e, r', by rw [decode_present hopt hx, he], htrunc⟩

/-- Every success of decoding under a bound type tree is delimited by the bytes it consumed:
the same bytes followed by anything decode the same way, and no strict prefix of them decodes,
each failing for want of bytes with a codec failure. By induction on the tree. -/
theorem selfDelimiting_decode {d : Descriptor} (hd : d.Bound) : SelfDelimiting (decode d) := by
  induction hd with
  | list _ ih =>
    refine selfDelimiting_of_body ?_
    rw [Descriptor.withOptional, decode_list_body]
    exact (selfDelimiting_readUnsigned 4).bind fun n =>
      (selfDelimiting_decodeItems ih n 0).bind fun _ => selfDelimiting_pure _
  | primitive hk =>
    refine selfDelimiting_of_body ?_
    rw [Descriptor.withOptional, decode_scalar_body hk]
    exact selfDelimiting_decodeScalar _
  | struct _ ih =>
    refine selfDelimiting_of_body ?_
    rw [Descriptor.withOptional, decode_struct_body]
    exact (selfDelimiting_decodeMembers _ ih).bind fun _ => selfDelimiting_pure _

/-! No strict prefix of an encoding decodes. -/

/-- A value of a bound type tree whose strings, byte strings and lists fit their 32-bit length
fields encodes, and decoding any strict prefix of its encoding fails with a failure that matches
the truncated-buffer condition and is of the codec's class. -/
theorem decode_strict_prefix_truncated {d : Descriptor} {v : Value} (hd : d.Bound)
    (hv : v.Conforms d) (hs : v.fitsWire = true) :
    ∃ bs, encode d v = .ok bs ∧ ∀ p, p <+: bs → p ≠ bs →
      ∃ f r, decode d (Reader.ofBytes p) = .error f r ∧
        f.has .truncated = true ∧ f.classCode = FaultClass.codec.code := by
  obtain ⟨bs, henc, hdec⟩ := decode_encode hd hv hs
  refine ⟨bs, henc, fun p hp hne => ?_⟩
  obtain ⟨w, hw, -⟩ := hdec []
  obtain ⟨c, ⟨hrest, -⟩, hdelim⟩ := selfDelimiting_decode hd _ _ _ hw
  -- decoding the encoding alone consumes all of it
  have hc : c = bs := by simpa [Reader.ofBytes] using hrest.symm
  subst hc
  exact hdelim.starve p hp (lt_of_le_of_ne hp.length_le fun h => hne (hp.eq_of_length h))

theorem decode_strict_prefix_truncated_optional_list :
    (Descriptor.list true (.primitive .int16)).Bound ∧
    (Value.list [.int16 1, .int16 (-2)]).Conforms (.list true (.primitive .int16)) ∧
    (Value.list [.int16 1, .int16 (-2)]).fitsWire = true ∧
    ∃ bs, encode (.list true (.primitive .int16)) (.list [.int16 1, .int16 (-2)]) = .ok bs ∧
      ∀ p, p <+: bs → p ≠ bs →
        ∃ f r, decode (.list true (.primitive .int16)) (Reader.ofBytes p) = .error f r ∧
          f.has .truncated = true ∧ f.classCode = FaultClass.codec.code := by
  have hd : (Descriptor.list true (.primitive .int16)).Bound := .list (.primitive (by decide))
  have hv : (Value.list [.int16 1, .int16 (-2)]).Conforms (.list true (.primitive .int16)) := by
    refine .list fun x hx => ?_
    simp only [List.mem_cons, List.not_mem_nil, or_false] at hx
    rcases hx with rfl | rfl <;> exact .scalar rfl
  exact ⟨hd, hv, by decide, decode_strict_prefix_truncated hd hv (by decide)⟩

/-- A string of `2^32` zero bytes is written behind a length field of zero, and that field
alone, a strict prefix of the encoding, decodes as the empty string. -/
theorem string_of_length_two_pow_32_has_decodable_prefix :
    (Descriptor.primitive .string).Bound ∧
    (Value.string (List.replicate (Nat.pow 2 32) 0)).Conforms (.primitive .string) ∧
    ∃ bs, encode (.primitive .string) (.string (List.replicate (Nat.pow 2 32) 0)) = .ok bs ∧
      [0, 0, 0, 0] <+: bs ∧ [0, 0, 0, 0] ≠ bs ∧
      decode (.primitive .string) (Reader.ofBytes [0, 0, 0, 0]) = .ok (.string []) ⟨[], 4⟩ := by
  have hzero : littleEndian 4 0 = [0, 0, 0, 0] := by decide
  have hwrap : littleEndian 4 (Nat.pow 2 32) = littleEndian 4 0 := by decide
  have hbytes : scalarBytes .string (.string (List.replicate (Nat.pow 2 32) 0)) =
      some (littleEndian 4 0 ++ List.replicate (Nat.pow 2 32) 0) := by
    rw [scalarBytes, List.length_replicate, hwrap]
  have henc := @encode_scalar false .string "" .unbound _ _ rfl hbytes
  rw [if_neg Bool.false_ne_true, hzero] at henc
  have hne : [0, 0, 0, 0] ≠ ([0, 0, 0, 0] ++ List.replicate (Nat.pow 2 32) 0 : Bytes) := by
    intro h
    have hlen := congrArg List.length h
    rw [List.length_append, List.length_replicate] at hlen
    exact absurd hlen (by decide)
  -- the zero length field reads back, and an empty body follows it
  have hdec : decode (.primitive .string) (Reader.ofBytes [0, 0, 0, 0]) =
      .ok (.string []) ⟨[], 4⟩ := by
    have hread := decode_sized "string" [] (by decide) Value.string [] 0
    rw [Descriptor.primitive, decode_scalar_body (by decide), decodeScalar, Reader.ofBytes]
    simpa [hzero] using hread
  exact ⟨.primitive (by decide), .scalar rfl, _, henc, List.prefix_append _ _, hne, hdec⟩

end Wire
end CoSimBridge
