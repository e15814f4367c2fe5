import FieldPost.Text.Utf8

/-!
Texts and their UTF-8 bytes. Every character is written in one to four bytes from which the
lenient reading gets it back, so reading undoes writing for every text, and texts are in the same
order as their bytes. Nothing is said of bytes that are not the bytes of a text.
-/

namespace FieldPost.Text.Utf8

/-- The bytes of the character with this number. No character is a surrogate. -/
inductive Encoded : Nat → Bytes → Prop
  | one {code : Nat} (high : code < 0x80) : Encoded code [.ofNat code]
  | two {code : Nat} (low : 0x80 ≤ code) (high : code < 0x800) :
      Encoded code [.ofNat (code / 64 + 0xC0), .ofNat (code % 64 + 0x80)]
  | three {code : Nat} (low : 0x800 ≤ code) (high : code < 0x10000)
      (scalar : code < 0xD800 ∨ 0xDFFF < code) :
      Encoded code
        [.ofNat (code / 4096 + 0xE0), .ofNat (code / 64 % 64 + 0x80), .ofNat (code % 64 + 0x80)]
  | four {code : Nat} (low : 0x10000 ≤ code) (high : code < 0x110000) :
      Encoded code
        [.ofNat (code / 262144 + 0xF0), .ofNat (code / 4096 % 64 + 0x80),
          .ofNat (code / 64 % 64 + 0x80), .ofNat (code % 64 + 0x80)]

theorem encoded (char : Char) : Encoded char.toNat (String.utf8EncodeChar char) := by
  have bounds : char.toNat < 0xD800 ∨ 0xDFFF < char.toNat ∧ char.toNat < 0x110000 := char.valid
  have code : char.val.toNat = char.toNat := rfl
  unfold String.utf8EncodeChar
  simp only [code]
  split
  · exact .one (by omega)
  · split
    · have lead : char.toNat / 64 % 32 = char.toNat / 64 := by omega
      rw [lead]
      exact .two (by omega) (by omega)
    · split
      · have lead : char.toNat / 4096 % 16 = char.toNat / 4096 := by omega
        rw [lead]
        exact .three (by omega) (by omega) (by omega)
      · have lead : char.toNat / 262144 % 8 = char.toNat / 262144 := by omega
        rw [lead]
        exact .four (by omega) (by omega)

/-- One continuation byte more for the value read so far. -/
theorem continued_succ {count low high value digit : Nat} (rest : Bytes)
    (small : digit < 64) (above : low ≤ digit + 0x80) (below : digit + 0x80 ≤ high) :
    continued (count + 1) low high value (.ofNat (digit + 0x80) :: rest) =
      continued count 0x80 0xBF (value * 0x40 + digit) rest := by
  have number : (UInt8.ofNat (digit + 0x80)).toNat = digit + 0x80 := by
    rw [UInt8.toNat_ofNat']
    omega
  rw [continued, number, if_pos ⟨above, below⟩, Nat.add_sub_cancel]

theorem to_nat_of_lt (number : Nat) (small : number < 256) : (UInt8.ofNat number).toNat = number := by
  rw [UInt8.toNat_ofNat']
  omega

/-- The first byte tells how many follow and bounds the second, so nothing else is read. -/
theorem next_encoded {code : Nat} {bytes : Bytes} (written : Encoded code bytes) :
    ∃ lead rest, bytes = lead :: rest ∧
      ∀ after, next lead (rest ++ after) = (some (Char.ofNat code), after) := by
  cases written with
  | one high =>
      refine ⟨_, _, rfl, fun after => ?_⟩
      have lead := to_nat_of_lt code (by omega)
      simp only [next, lead]
      rw [if_pos high]
      rfl
  | two low high =>
      refine ⟨_, _, rfl, fun after => ?_⟩
      have lead := to_nat_of_lt (code / 64 + 0xC0) (by omega)
      have value : code / 64 * 0x40 + code % 64 = code := by omega
      simp only [next, lead]
      rw [if_neg (by omega), if_neg (by omega), if_pos (by omega), Nat.add_sub_cancel,
        List.cons_append, continued_succ _ (by omega) (by omega) (by omega), value]
      rfl
  | three low high scalar =>
      refine ⟨_, _, rfl, fun after => ?_⟩
      have lead := to_nat_of_lt (code / 4096 + 0xE0) (by omega)
      have value : (code / 4096 * 0x40 + code / 64 % 64) * 0x40 + code % 64 = code := by omega
      simp only [next, lead]
      rw [if_neg (by omega), if_neg (by omega), if_neg (by omega), if_pos (by omega),
        Nat.add_sub_cancel, List.cons_append,
        continued_succ _ (by omega) (by split <;> omega) (by split <;> omega), List.cons_append,
        continued_succ _ (by omega) (by omega) (by omega), value]
      rfl
  | four low high =>
      refine ⟨_, _, rfl, fun after => ?_⟩
      have lead := to_nat_of_lt (code / 262144 + 0xF0) (by omega)
      have value : ((code / 262144 * 0x40 + code / 4096 % 64) * 0x40 + code / 64 % 64) * 0x40 +
          code % 64 = code := by omega
      simp only [next, lead]
      rw [if_neg (by omega), if_neg (by omega), if_neg (by omega), if_neg (by omega),
        if_pos (by omega), Nat.add_sub_cancel, List.cons_append,
        continued_succ _ (by omega) (by split <;> omega) (by split <;> omega), List.cons_append,
        continued_succ _ (by omega) (by omega) (by omega), List.cons_append,
        continued_succ _ (by omega) (by omega) (by omega), value]
      rfl

theorem scan_encode_append (chars : List Char) (after : Bytes) :
    scan (encodeChars chars ++ after) = chars.map some ++ scan after := by
  induction chars with
  | nil => rfl
  | cons char chars induction =>
      obtain ⟨lead, rest, bytes, read⟩ := next_encoded (encoded char)
      rw [encodeChars, List.flatMap_cons, ← encodeChars, bytes, List.append_assoc,
        List.cons_append, scan, read, Char.ofNat_toNat, induction]
      rfl

/-- Reading undoes writing. -/
theorem decode_lossy_encode (chars : List Char) : decodeLossy (encodeChars chars) = chars := by
  have whole := scan_encode_append chars []
  rw [List.append_nil, scan, List.append_nil] at whole
  rw [decodeLossy, whole, List.map_map]
  exact List.map_id chars

theorem byte_cons_lt {first second : Nat} (small : first < 256) (bounded : second < 256)
    (left right : Bytes) :
    UInt8.ofNat first :: left < UInt8.ofNat second :: right ↔
      first < second ∨ first = second ∧ left < right := by
  rw [List.cons_lt_cons_iff, UInt8.lt_iff_toNat_lt, ← UInt8.toNat_inj, to_nat_of_lt _ small,
    to_nat_of_lt _ bounded]

/-- The bytes of a smaller character come first, whatever follows either of them. -/
theorem encoded_lt {smaller larger : Nat} {before after : Bytes}
    (first : Encoded smaller before) (second : Encoded larger after) (less : smaller < larger)
    (left right : Bytes) : before ++ left < after ++ right := by
  cases first <;> cases second <;> simp only [List.cons_append, List.nil_append] <;>
    simp (disch := omega) only [byte_cons_lt] <;> omega

/-- Texts are in the order of their bytes. -/
theorem encode_lt {smaller larger : List Char} (less : smaller < larger) :
    encodeChars smaller < encodeChars larger := by
  have positive (char : Char) (rest : List Char) : ∃ lead bytes,
      encodeChars (char :: rest) = lead :: bytes := by
    obtain ⟨lead, bytes, written, _⟩ := next_encoded (encoded char)
    exact ⟨lead, _, by rw [encodeChars, List.flatMap_cons, written]; rfl⟩
  induction less with
  | nil =>
      rename_i char rest
      obtain ⟨lead, bytes, written⟩ := positive char rest
      rw [written]
      exact .nil
  | rel before => exact encoded_lt (encoded _) (encoded _) before _ _
  | cons _ induction =>
      simp only [encodeChars, List.flatMap_cons]
      exact List.append_left_lt induction

end FieldPost.Text.Utf8
