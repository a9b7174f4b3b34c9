import LinearGrammar.Text.Utf8

/-!
# Texts are read from their bytes

What `encode` writes of a text, `decode` takes back. The bytes of a character are the digits of its
code point to the base 64, with a mark on the first of them that says how many follow and the same mark
on all that do. So the reader has to come to the same number of bytes, and the code point is then
put together again.

Strict decoding makes this less plain than it sounds: of the three and the four byte forms some are
refused by the second byte, those that a shorter form would do for, the surrogates and what lies above
the last code point. That no character is written in such a form is the whole of the side conditions
below.
-/

namespace LinearGrammar.Text

variable {n m k l : Nat}

theorem toNat_continuation (hm : m < 64) : (UInt8.ofNat (m + 128)).toNat = m + 128 := by
  rw [UInt8.toNat_ofNat']
  omega

theorem isContinuation_continuation : ∀ m < 64, isContinuation (UInt8.ofNat (m + 128)) = true := by
  decide

theorem extend_continuation (code : Nat) (hm : m < 64) :
    extend code (UInt8.ofNat (m + 128)) = code * 64 + m := by
  rw [extend, toNat_continuation hm]
  omega

/-! ## The forms of a character -/

theorem firstChar_one (rest : List UInt8) (hn : n < 128) :
    firstChar (UInt8.ofNat n) rest = .ok (Char.ofNat n, rest) := by
  have hvalue : (UInt8.ofNat n).toNat = n := by
    rw [UInt8.toNat_ofNat']
    omega
  have hlt : UInt8.ofNat n < 0x80 := by
    rw [UInt8.lt_iff_toNat_lt, hvalue]
    exact hn
  rw [firstChar, if_pos hlt, hvalue]

/-- A first byte with its mark is no character on its own, and the digit it carries is what is left of
it without the mark. -/
theorem firstChar_lead {b second low high : UInt8} {rest : List UInt8} {width : Nat}
    (hb : ¬ b < 0x80) (hlead : leadOf b = some (width, low, high)) (hlow : low ≤ second)
    (hhigh : second ≤ high) :
    firstChar b (second :: rest) =
      continueChar (extend (b.toNat % Nat.pow 2 (7 - width)) second) 2 (width - 2) rest := by
  rw [firstChar, if_neg hb, hlead]
  simp [hlow, hhigh]

theorem leadOf_two : ∀ n < 32, 2 ≤ n → ¬ UInt8.ofNat (n + 192) < 0x80 ∧
    leadOf (UInt8.ofNat (n + 192)) = some (2, 0x80, 0xBF) ∧
    (UInt8.ofNat (n + 192)).toNat % Nat.pow 2 (7 - 2) = n := by
  decide

theorem leadOf_three : ∀ n < 16, ¬ UInt8.ofNat (n + 224) < 0x80 ∧
    leadOf (UInt8.ofNat (n + 224)) =
      some (3, if n = 0 then 0xA0 else 0x80, if n = 13 then 0x9F else 0xBF) ∧
    (UInt8.ofNat (n + 224)).toNat % Nat.pow 2 (7 - 3) = n := by
  decide

theorem leadOf_four : ∀ n < 5, ¬ UInt8.ofNat (n + 240) < 0x80 ∧
    leadOf (UInt8.ofNat (n + 240)) =
      some (4, if n = 0 then 0x90 else 0x80, if n = 4 then 0x8F else 0xBF) ∧
    (UInt8.ofNat (n + 240)).toNat % Nat.pow 2 (7 - 4) = n := by
  decide

theorem firstChar_two (rest : List UInt8) (hn : n < 32) (hlow : 2 ≤ n) (hm : m < 64) :
    firstChar (UInt8.ofNat (n + 192)) (UInt8.ofNat (m + 128) :: rest) =
      .ok (Char.ofNat (n * 64 + m), rest) := by
  obtain ⟨hb, hlead, hdigit⟩ := leadOf_two n hn hlow
  rw [firstChar_lead hb hlead, hdigit, extend_continuation n hm, continueChar]
  · rw [UInt8.le_iff_toNat_le, toNat_continuation hm]
    exact Nat.le_add_left 128 m
  · rw [UInt8.le_iff_toNat_le, toNat_continuation hm]
    change m + 128 ≤ 191
    omega

theorem firstChar_three (rest : List UInt8) (hn : n < 16) (hm : m < 64) (hk : k < 64)
    (hlow : n = 0 → 32 ≤ m) (hhigh : n = 13 → m < 32) :
    firstChar (UInt8.ofNat (n + 224))
        (UInt8.ofNat (m + 128) :: UInt8.ofNat (k + 128) :: rest) =
      .ok (Char.ofNat ((n * 64 + m) * 64 + k), rest) := by
  obtain ⟨hb, hlead, hdigit⟩ := leadOf_three n hn
  rw [firstChar_lead hb hlead, hdigit, extend_continuation n hm, continueChar,
    if_pos (isContinuation_continuation k hk), extend_continuation _ hk, continueChar]
  · rw [UInt8.le_iff_toNat_le, toNat_continuation hm]
    split
    · next hzero =>
        have := hlow hzero
        change 160 ≤ m + 128
        omega
    · exact Nat.le_add_left 128 m
  · rw [UInt8.le_iff_toNat_le, toNat_continuation hm]
    split
    · next hlast =>
        have := hhigh hlast
        change m + 128 ≤ 159
        omega
    · change m + 128 ≤ 191
      omega

theorem firstChar_four (rest : List UInt8) (hn : n < 5) (hm : m < 64) (hk : k < 64)
    (hl : l < 64) (hlow : n = 0 → 16 ≤ m) (hhigh : n = 4 → m < 16) :
    firstChar (UInt8.ofNat (n + 240))
        (UInt8.ofNat (m + 128) :: UInt8.ofNat (k + 128) :: UInt8.ofNat (l + 128) :: rest) =
      .ok (Char.ofNat (((n * 64 + m) * 64 + k) * 64 + l), rest) := by
  obtain ⟨hb, hlead, hdigit⟩ := leadOf_four n hn
  rw [firstChar_lead hb hlead, hdigit, extend_continuation n hm, continueChar,
    if_pos (isContinuation_continuation k hk), extend_continuation _ hk, continueChar,
    if_pos (isContinuation_continuation l hl), extend_continuation _ hl, continueChar]
  · rw [UInt8.le_iff_toNat_le, toNat_continuation hm]
    split
    · next hzero =>
        have := hlow hzero
        change 144 ≤ m + 128
        omega
    · exact Nat.le_add_left 128 m
  · rw [UInt8.le_iff_toNat_le, toNat_continuation hm]
    split
    · next hlast =>
        have := hhigh hlast
        change m + 128 ≤ 143
        omega
    · change m + 128 ≤ 191
      omega

/-! ## Characters and texts -/

theorem exists_firstChar_eq (c : Char) (rest : List UInt8) :
    ∃ b bytes, String.utf8EncodeChar c ++ rest = b :: bytes ∧ firstChar b bytes = .ok (c, rest) := by
  obtain ⟨v, hv⟩ : ∃ v, v = c.toNat := ⟨_, rfl⟩
  have hc : Char.ofNat v = c := hv ▸ Char.ofNat_toNat c
  have hvalid : v < 0xD800 ∨ 0xDFFF < v ∧ v < 0x110000 := hv ▸ c.valid
  have hval : c.val.toNat = v := hv.symm
  unfold String.utf8EncodeChar
  simp only [hval]
  split
  · exact ⟨_, _, rfl, hc ▸ firstChar_one rest (by omega)⟩
  · split
    · have hcode : v / 64 % 32 * 64 + v % 64 = v := by omega
      have h := firstChar_two (n := v / 64 % 32) (m := v % 64) rest (by omega) (by omega)
        (by omega)
      rw [hcode, hc] at h
      exact ⟨_, _, rfl, h⟩
    · split
      · have hcode : (v / 4096 % 16 * 64 + v / 64 % 64) * 64 + v % 64 = v := by omega
        have h := firstChar_three (n := v / 4096 % 16) (m := v / 64 % 64) (k := v % 64) rest
          (by omega) (by omega) (by omega) (by omega) (by omega)
        rw [hcode, hc] at h
        exact ⟨_, _, rfl, h⟩
      · have hcode : ((v / 262144 % 8 * 64 + v / 4096 % 64) * 64 + v / 64 % 64) * 64 + v % 64 = v :=
          by omega
        have h := firstChar_four (n := v / 262144 % 8) (m := v / 4096 % 64) (k := v / 64 % 64)
          (l := v % 64) rest (by omega) (by omega) (by omega) (by omega) (by omega) (by omega)
        rw [hcode, hc] at h
        exact ⟨_, _, rfl, h⟩

theorem decodeAt_encode (cs : List Char) (index : Nat) :
    decodeAt index (cs.flatMap String.utf8EncodeChar) = .ok cs := by
  induction cs generalizing index with
  | nil => rw [List.flatMap_nil, decodeAt]
  | cons c cs ih =>
      obtain ⟨b, bytes, hbytes, hfirst⟩ := exists_firstChar_eq c (cs.flatMap String.utf8EncodeChar)
      rw [List.flatMap_cons, hbytes, decodeAt]
      split
      · next heq =>
          rw [hfirst] at heq
          cases heq
      · next heq =>
          rw [hfirst] at heq
          cases heq
          rw [ih]

theorem decode_encode (text : String) : decode (encode text) = .ok text := by
  rw [decode, encode, decodeAt_encode]
  exact congrArg Except.ok String.ofList_toList

end LinearGrammar.Text
