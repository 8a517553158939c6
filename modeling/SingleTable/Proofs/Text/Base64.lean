import Mathlib.Tactic.SplitIfs
import SingleTable.Text.Base64

/-!
# Base64 is canonical

A text is read as some bytes exactly if it is what is written for them (`decode_eq_some_iff`), so reading
undoes writing, and no two texts stand for the same bytes. Both directions follow the groups of three bytes
and four characters.
-/

set_option autoImplicit false

namespace SingleTable.Text.Base64

/-! ## The alphabet -/

theorem value?_digit {n : Nat} (h : n < 64) : value? (digit n) = some n := by
  have hall : ∀ n < 64, value? (digit n) = some n := by decide +kernel
  exact hall n h

theorem digit_ne_padding {n : Nat} (h : n < 64) : digit n ≠ '=' := by
  have hall : ∀ n < 64, digit n ≠ '=' := by decide +kernel
  exact hall n h

/-- A character with a value is the one of the alphabet that stands at it. -/
theorem eq_digit_of_value? {c : Char} {n : Nat} (h : value? c = some n) : n < 64 ∧ c = digit n := by
  -- The alphabet has characters below 128 only, and these can be tried.
  have hall : ∀ code < 128, (value? (Char.ofNat code)).all (fun n => digit n = Char.ofNat code) = true := by
    decide +kernel
  have hbounds : c.toNat < 128 ∧ n < 64 := by
    rw [value?] at h
    split_ifs at h <;> cases h <;> omega
  have hdigit := hall c.toNat hbounds.1
  rw [Char.ofNat_toNat, h, Option.all_some, decide_eq_true_eq] at hdigit
  exact ⟨hbounds.2, hdigit.symm⟩

/-! ## Groups -/

theorem toNat_byte {n : Nat} (h : n < 256) : (UInt8.ofNat n).toNat = n := UInt8.toNat_ofNat_of_lt' h

/-- Two digits and two padding characters stand for one byte. -/
theorem decode_byte {a b : Nat} (ha : a < 64) (hb : b < 64) :
    decode [digit a, digit b, '=', '='] =
      if (a * 64 + b) % 16 = 0 then some [UInt8.ofNat ((a * 64 + b) / 16)] else none := by
  rw [decode, value?_digit ha, value?_digit hb]
  rfl

/-- Three digits and a padding character stand for two bytes. -/
theorem decode_pair {a b c : Nat} (ha : a < 64) (hb : b < 64) (hc : c < 64) :
    decode [digit a, digit b, digit c, '='] =
      if ((a * 64 + b) * 64 + c) % 4 = 0 then
        some [UInt8.ofNat (((a * 64 + b) * 64 + c) / 1024),
          UInt8.ofNat (((a * 64 + b) * 64 + c) / 4 % 256)]
      else none := by
  rw [decode, value?_digit ha, value?_digit hb, value?_digit hc]
  · rfl
  · exact fun hpadding => digit_ne_padding hc hpadding

/-- Four digits stand for three bytes. -/
theorem decode_triple {a b c d : Nat} (ha : a < 64) (hb : b < 64) (hc : c < 64) (hd : d < 64)
    (rest : List Char) :
    decode (digit a :: digit b :: digit c :: digit d :: rest) =
      (decode rest).map fun bytes =>
        UInt8.ofNat ((((a * 64 + b) * 64 + c) * 64 + d) / 65536) ::
          UInt8.ofNat ((((a * 64 + b) * 64 + c) * 64 + d) / 256 % 256) ::
            UInt8.ofNat ((((a * 64 + b) * 64 + c) * 64 + d) % 256) :: bytes := by
  rw [decode, value?_digit ha, value?_digit hb, value?_digit hc, value?_digit hd]
  · cases decode rest with
    | none => rfl
    | some bytes => rfl
  · exact fun _ hpadding _ => digit_ne_padding hd hpadding
  · exact fun hpadding _ => digit_ne_padding hd hpadding

/-! ## Writing and reading -/

/-- The bytes of a text that was written for them. -/
theorem decode_encode (bytes : List UInt8) : decode (encode bytes) = some bytes := by
  fun_induction encode bytes with
  | case1 => rfl
  | case2 a n =>
    have ha := a.toNat_lt
    have hn : n = a.toNat * 16 := rfl
    have hjoin : n / 64 * 64 + n % 64 = n := by omega
    have hbyte : n / 16 = a.toNat := by omega
    rw [decode_byte (by omega) (by omega), hjoin, if_pos (by omega), hbyte, UInt8.ofNat_toNat]
  | case3 a b n =>
    have ha := a.toNat_lt
    have hb := b.toNat_lt
    have hn : n = (a.toNat * 256 + b.toNat) * 4 := rfl
    have hjoin : (n / 4096 * 64 + n / 64 % 64) * 64 + n % 64 = n := by omega
    have hfirst : n / 1024 = a.toNat := by omega
    have hsecond : n / 4 % 256 = b.toNat := by omega
    rw [decode_pair (by omega) (by omega) (by omega), hjoin, if_pos (by omega), hfirst, hsecond,
      UInt8.ofNat_toNat, UInt8.ofNat_toNat]
  | case4 a b c rest n ih =>
    have ha := a.toNat_lt
    have hb := b.toNat_lt
    have hc := c.toNat_lt
    have hn : n = (a.toNat * 256 + b.toNat) * 256 + c.toNat := rfl
    have hjoin : ((n / 262144 * 64 + n / 4096 % 64) * 64 + n / 64 % 64) * 64 + n % 64 = n := by omega
    have hfirst : n / 65536 = a.toNat := by omega
    have hsecond : n / 256 % 256 = b.toNat := by omega
    have hthird : n % 256 = c.toNat := by omega
    rw [decode_triple (by omega) (by omega) (by omega) (by omega), ih, Option.map_some, hjoin, hfirst,
      hsecond, hthird, UInt8.ofNat_toNat, UInt8.ofNat_toNat, UInt8.ofNat_toNat]

/-- A text that is read as some bytes is what is written for them. -/
theorem eq_encode_of_decode {text : List Char} {bytes : List UInt8} (h : decode text = some bytes) :
    text = encode bytes := by
  fun_induction decode text generalizing bytes with
  | case1 =>
    cases h
    rfl
  | case2 a b =>
    simp only [bind, Option.bind_eq_some_iff] at h
    obtain ⟨x, hx, y, hy, h⟩ := h
    obtain ⟨hx, rfl⟩ := eq_digit_of_value? hx
    obtain ⟨hy, rfl⟩ := eq_digit_of_value? hy
    split at h
    · cases h
      have hbits : (x * 64 + y) / 16 * 16 / 64 = x ∧ (x * 64 + y) / 16 * 16 % 64 = y := by omega
      rw [encode, toNat_byte (by omega), hbits.1, hbits.2]
    · cases h
  | case3 a b c hc =>
    simp only [bind, Option.bind_eq_some_iff] at h
    obtain ⟨x, hx, y, hy, z, hz, h⟩ := h
    obtain ⟨hx, rfl⟩ := eq_digit_of_value? hx
    obtain ⟨hy, rfl⟩ := eq_digit_of_value? hy
    obtain ⟨hz, rfl⟩ := eq_digit_of_value? hz
    split at h
    · cases h
      have hjoin : (((x * 64 + y) * 64 + z) / 1024 * 256 + ((x * 64 + y) * 64 + z) / 4 % 256) * 4 =
          (x * 64 + y) * 64 + z := by omega
      have hbits : ((x * 64 + y) * 64 + z) / 4096 = x ∧ ((x * 64 + y) * 64 + z) / 64 % 64 = y ∧
          ((x * 64 + y) * 64 + z) % 64 = z := by omega
      rw [encode, toNat_byte (by omega), toNat_byte (by omega), hjoin, hbits.1,
        hbits.2.1, hbits.2.2]
    · cases h
  | case4 a b c d rest _ _ ih =>
    simp only [bind, Option.bind_eq_some_iff] at h
    obtain ⟨w, hw, x, hx, y, hy, z, hz, more, hmore, h⟩ := h
    obtain ⟨hw, rfl⟩ := eq_digit_of_value? hw
    obtain ⟨hx, rfl⟩ := eq_digit_of_value? hx
    obtain ⟨hy, rfl⟩ := eq_digit_of_value? hy
    obtain ⟨hz, rfl⟩ := eq_digit_of_value? hz
    cases h
    have hjoin : ((((w * 64 + x) * 64 + y) * 64 + z) / 65536 * 256 +
          (((w * 64 + x) * 64 + y) * 64 + z) / 256 % 256) * 256 +
          (((w * 64 + x) * 64 + y) * 64 + z) % 256 = ((w * 64 + x) * 64 + y) * 64 + z := by omega
    have hbits : (((w * 64 + x) * 64 + y) * 64 + z) / 262144 = w ∧
        (((w * 64 + x) * 64 + y) * 64 + z) / 4096 % 64 = x ∧
        (((w * 64 + x) * 64 + y) * 64 + z) / 64 % 64 = y ∧
        (((w * 64 + x) * 64 + y) * 64 + z) % 64 = z := by omega
    rw [encode, toNat_byte (by omega), toNat_byte (by omega),
      toNat_byte (by omega), hjoin, hbits.1, hbits.2.1, hbits.2.2.1, hbits.2.2.2, ih hmore]
  | case5 => cases h

/-- Reading accepts exactly what writing produces. -/
theorem decode_eq_some_iff {text : List Char} {bytes : List UInt8} :
    decode text = some bytes ↔ text = encode bytes := by
  constructor
  · exact eq_encode_of_decode
  · rintro rfl
    exact decode_encode bytes

end SingleTable.Text.Base64
