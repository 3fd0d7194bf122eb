/-
# `WebTech.Lib.Utf8` — texts as bytes

    decode (encode s) = some s                              (`decode_encode`)
    decode b = some s  ⟺  encode s = b                      (`decode_eq_some`)
    the first byte is cut off an encoded text whose first
    character has one byte                                  (`encodeChar_of_size`)
    an ASCII text is written byte for character             (`encode_ascii`)
    an ASCII character is taken out as its byte is          (`filter_encode`)
-/
import Mathlib.Data.List.Basic

namespace Utf8

abbrev Bytes := List UInt8

def encode (s : List Char) : Bytes := s.flatMap String.utf8EncodeChar

def decode (b : Bytes) : Option (List Char) := b.toByteArray.utf8Decode?.map Array.toList

@[simp] theorem encode_nil : encode [] = [] := rfl

@[simp] theorem encode_cons (c : Char) (s : List Char) :
    encode (c :: s) = String.utf8EncodeChar c ++ encode s := rfl

@[simp] theorem encode_append (s t : List Char) : encode (s ++ t) = encode s ++ encode t :=
  List.flatMap_append

theorem toByteArray_encode (s : List Char) : (encode s).toByteArray = s.utf8Encode := rfl

theorem toByteArray_injective {b b' : Bytes} (h : b.toByteArray = b'.toByteArray) : b = b' := by
  have := congrArg ByteArray.data h
  rw [List.data_toByteArray, List.data_toByteArray] at this
  simpa using this

theorem decode_encode (s : List Char) : decode (encode s) = some s := by
  rw [decode, toByteArray_encode, List.utf8Decode?_utf8Encode]
  rfl

theorem encode_injective {s t : List Char} (h : encode s = encode t) : s = t :=
  Option.some.inj ((decode_encode s).symm.trans ((congrArg decode h).trans (decode_encode t)))

theorem decode_eq_some {b : Bytes} {s : List Char} : decode b = some s ↔ encode s = b := by
  constructor
  · intro h
    obtain ⟨a, ha, rfl⟩ := Option.map_eq_some_iff.mp h
    have hsome : b.toByteArray.utf8Decode?.isSome := by rw [ha]; rfl
    have hget : b.toByteArray.utf8Decode?.get hsome = a := Option.get_of_eq_some hsome ha
    have := ByteArray.utf8Encode_get_utf8Decode? (h := hsome)
    rw [hget] at this
    exact toByteArray_injective this
  · rintro rfl
    exact decode_encode s

theorem encode_eq_nil {s : List Char} : encode s = [] ↔ s = [] :=
  ⟨fun h => encode_injective (h.trans encode_nil.symm), fun h => h ▸ encode_nil⟩

/-- A character has a byte at least. -/
theorem length_le_encode (s : List Char) : s.length ≤ (encode s).length := by
  induction s with
  | nil => exact Nat.le_refl 0
  | cons c s ih =>
      have hpos : 0 < (String.utf8EncodeChar c).length := by
        rw [String.length_utf8EncodeChar]
        exact Char.utf8Size_pos c
      rw [encode_cons, List.length_append, List.length_cons]
      omega

/-- A character of one byte is cut off by its length. -/
theorem encodeChar_of_size {c : Char} (h : c.utf8Size = 1) (b : Bytes) :
    (String.utf8EncodeChar c ++ b).take 1 = String.utf8EncodeChar c ∧
      (String.utf8EncodeChar c ++ b).drop 1 = b := by
  have hlen : (String.utf8EncodeChar c).length = 1 := (String.length_utf8EncodeChar c).trans h
  exact ⟨List.take_left' hlen, List.drop_left' hlen⟩

theorem encodeChar_ascii {c : Char} (h : c.toNat < 128) :
    String.utf8EncodeChar c = [c.toNat.toUInt8] := by
  have hle : c.val.toNat ≤ 0x7f := Nat.le_of_lt_succ h
  rw [String.utf8EncodeChar]
  exact if_pos hle

theorem encode_ascii : ∀ {s : List Char}, (∀ c ∈ s, c.toNat < 128) →
    encode s = s.map fun c => c.toNat.toUInt8
  | [], _ => rfl
  | c :: s, h => by
      obtain ⟨hc, hs⟩ := List.forall_mem_cons.mp h
      rw [encode_cons, encodeChar_ascii hc, encode_ascii hs]
      rfl

/-- A byte below 128 is read as the character it was written for. -/
theorem ofNat_byte {c : Char} (h : c.toNat < 128) : Char.ofNat c.toNat.toUInt8.toNat = c := by
  have hmod : c.toNat.toUInt8.toNat = c.toNat := by
    rw [Nat.toUInt8, UInt8.toNat_ofNat']
    exact Nat.mod_eq_of_lt (by omega)
  rw [hmod, Char.ofNat_toNat]

/-- The bytes of a character that is not ASCII. -/
theorem encodeChar_high {c : Char} (h : 128 ≤ c.toNat) :
    ∀ b ∈ String.utf8EncodeChar c, 128 ≤ b.toNat := by
  have hbyte : ∀ m n : Nat, 128 ≤ n → m + n < 256 → 128 ≤ (UInt8.ofNat (m + n)).toNat := by
    intro m n hn hlt
    rw [UInt8.toNat_ofNat', Nat.mod_eq_of_lt hlt]
    omega
  have hv : ¬ c.val.toNat ≤ 0x7f := Nat.not_le.mpr h
  rw [String.utf8EncodeChar]
  simp only [if_neg hv]
  split
  · simp only [List.forall_mem_cons]
    exact ⟨hbyte _ _ (by decide) (by omega), hbyte _ _ (by decide) (by omega), nofun⟩
  · split
    · simp only [List.forall_mem_cons]
      exact ⟨hbyte _ _ (by decide) (by omega), hbyte _ _ (by decide) (by omega),
        hbyte _ _ (by decide) (by omega), nofun⟩
    · simp only [List.forall_mem_cons]
      exact ⟨hbyte _ _ (by decide) (by omega), hbyte _ _ (by decide) (by omega),
        hbyte _ _ (by decide) (by omega), hbyte _ _ (by decide) (by omega), nofun⟩

/-- **An ASCII character taken out** of a text is its byte taken out. -/
theorem filter_encode {a : Char} (ha : a.toNat < 128) (s : List Char) :
    (encode s).filter (fun b => b ≠ a.toNat.toUInt8) = encode (s.filter fun c => c ≠ a) := by
  have hbyte : ∀ {n : Nat}, n < 128 → n.toUInt8.toNat = n := fun hn => by
    rw [Nat.toUInt8, UInt8.toNat_ofNat']
    exact Nat.mod_eq_of_lt (by omega)
  induction s with
  | nil => rfl
  | cons c s ih =>
      rw [encode_cons, List.filter_append, ih]
      by_cases hc : c = a
      · subst hc
        rw [encodeChar_ascii ha, List.filter_cons_of_neg (by simp), List.filter_cons_of_neg (by simp)]
        rfl
      · have hkeep : ∀ b ∈ String.utf8EncodeChar c, b ≠ a.toNat.toUInt8 := by
          by_cases hascii : c.toNat < 128
          · rw [encodeChar_ascii hascii]
            rintro b hb heq
            rw [List.mem_singleton.mp hb] at heq
            have hnat := congrArg UInt8.toNat heq
            rw [hbyte hascii, hbyte ha] at hnat
            exact hc (Char.toNat_inj.mp hnat)
          · intro b hb heq
            have hhigh := encodeChar_high (Nat.not_lt.mp hascii) b hb
            rw [heq, hbyte ha] at hhigh
            omega
        have hcons : (c :: s).filter (fun c => c ≠ a) = c :: s.filter fun c => c ≠ a :=
          List.filter_cons_of_pos (decide_eq_true hc)
        rw [List.filter_eq_self.mpr fun b hb => decide_eq_true (hkeep b hb), hcons, encode_cons]

end Utf8
