import Mathlib
import CoSimBridge.Wire.Codec
/-! Byte-level facts of the wire codec: little-endian integers read back what was written,
modulo their width, and a reader over written bytes followed by anything else stops exactly
where the written bytes end. Each primitive value of a kind's type comes back unchanged. -/

namespace CoSimBridge.Wire
set_option autoImplicit false

theorem littleEndian_succ (w n : Nat) :
    littleEndian (w + 1) n = (n % 256).toUInt8 :: littleEndian w (n / 256) := by
  simp only [littleEndian, List.range_succ_eq_map, List.map_cons, List.map_map]
  congr 1
  · simp
  · apply List.map_congr_left
    intro i _
    simp [Nat.pow_succ', Nat.div_div_eq_div_mul]

@[simp] theorem length_littleEndian (w n : Nat) : (littleEndian w n).length = w := by
  simp [littleEndian]

theorem ofLittleEndian_littleEndian (w n : Nat) :
    ofLittleEndian (littleEndian w n) = n % Nat.pow 256 w := by
  induction w generalizing n with
  | zero => simp [littleEndian, ofLittleEndian, Nat.mod_one]
  | succ w ih =>
    rw [littleEndian_succ]
    simp only [ofLittleEndian, List.foldr_cons] at ih ⊢
    rw [ih, show Nat.pow 256 (w + 1) = 256 * Nat.pow 256 w from Nat.mul_comm _ _, Nat.mod_mul]
    simp

/-! Readings that succeed. -/

theorem bind_ok {α β : Type} {x : Reading α} {f : α → Reading β} {r r' : Reader} {a : α}
    (h : x r = .ok a r') : (x >>= f) r = f a r' := by
  simp [bind, EStateM.bind, h]

theorem withContext_ok {α : Type} {g : Fault → Fault} {x : Reading α} {r r' : Reader} {a : α}
    (h : x r = .ok a r') : withContext g x r = .ok a r' := by
  simp [withContext, h]

theorem take_append {bs : Bytes} {n : Nat} (h : bs.length = n) (what : String) (rest : Bytes)
    (o : Nat) : take n what ⟨bs ++ rest, o⟩ = .ok bs ⟨rest, o + n⟩ := by
  subst h
  simp [take]

theorem readUnsigned_littleEndian (w n : Nat) (rest : Bytes) (o : Nat) :
    readUnsigned w ⟨littleEndian w n ++ rest, o⟩ = .ok (n % Nat.pow 256 w) ⟨rest, o + w⟩ := by
  simp [readUnsigned, bind, EStateM.bind, take_append (length_littleEndian w n), pure,
    EStateM.pure, ofLittleEndian_littleEndian]

theorem readBool_cons (b : UInt8) (rest : Bytes) (o : Nat) :
    readBool ⟨b :: rest, o⟩ = .ok (b != 0) ⟨rest, o + 1⟩ := by
  have h : take 1 "bool" ⟨b :: rest, o⟩ = .ok [b] ⟨rest, o + 1⟩ :=
    take_append (show [b].length = 1 from rfl) "bool" rest o
  simp [readBool, bind, EStateM.bind, h, pure, EStateM.pure]

/-- A length field followed by its body; the body's length must fit the 32-bit field. -/
theorem readSized_append {s : Bytes} (hs : s.length < Nat.pow 256 4) (what : String)
    (rest : Bytes) (o : Nat) :
    readSized what ⟨littleEndian 4 s.length ++ s ++ rest, o⟩ = .ok s ⟨rest, o + 4 + s.length⟩ := by
  simp only [readSized, List.append_assoc, readUnsigned_littleEndian, Nat.mod_eq_of_lt hs,
    take_append rfl]

/-! Two's complement: a signed value written as its residue reads back as itself. -/

/-- The residue of a two's complement value is its bit pattern. -/
theorem toNat_toInt_emod {w : Nat} (x : BitVec w) : (x.toInt % Int.pow 2 w).toNat = x.toNat := by
  have hp : Int.pow 2 w = ((2 ^ w : Nat) : Int) := by simp [Int.pow_eq]
  rw [hp, BitVec.toInt_eq_toNat_bmod, Int.bmod_emod,
    Int.emod_eq_of_lt (by positivity) (by exact_mod_cast x.isLt)]
  simp

theorem ofNat_toInt_emod {w : Nat} (x : BitVec w) (m : Nat) (hm : m = Nat.pow 2 w) :
    BitVec.ofNat w ((x.toInt % Int.pow 2 w).toNat % m) = x := by
  have hlt : x.toNat < m := hm ▸ x.isLt
  apply BitVec.eq_of_toNat_eq
  rw [toNat_toInt_emod, Nat.mod_eq_of_lt hlt, BitVec.toNat_ofNat, Nat.mod_eq_of_lt x.isLt]

end CoSimBridge.Wire
