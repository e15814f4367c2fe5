import FieldPost.Proofs.Characters
import FieldPost.Proofs.Concealment
import FieldPost.Url.Form

/-!
Queries in the encoding of forms. Decoding undoes encoding for every text, whatever its
characters, and a pair put at the end of a query is the last one of its pairs. Nothing is said of
queries that were not written in this encoding, except that their pairs stay what they are.
-/

namespace FieldPost

open FieldPost.Text

namespace Percent

theorem decode_cons_of_ne {byte : UInt8} (plain : byte ≠ 0x25) (rest : Bytes) :
    decode (byte :: rest) = byte :: decode rest := by
  rw [decode]
  rintro high low more rfl
  exact absurd rfl plain

theorem decode_append_of_not_mem {bytes : Bytes} (plain : 0x25 ∉ bytes) (rest : Bytes) :
    decode (bytes ++ rest) = bytes ++ decode rest := by
  induction bytes with
  | nil => rfl
  | cons byte bytes induction =>
      simp only [List.mem_cons, not_or] at plain
      rw [List.cons_append, decode_cons_of_ne (Ne.symm plain.1), induction plain.2,
        List.cons_append]

/-- The digits that encoding writes are those that decoding reads. -/
theorem digit_of_upper (value : Nat) (small : value < 16) :
    ∃ byte, String.utf8EncodeChar (upperDigit value) = [byte] ∧ digit? byte = some value := by
  have all : ∀ value : Fin 16, (String.utf8EncodeChar (upperDigit value)).map digit? =
      [some value.val] := by decide
  obtain ⟨byte, rest, same, digit, none⟩ := List.map_eq_cons_iff.mp (all ⟨value, small⟩)
  rw [List.map_eq_nil_iff.mp none] at same
  exact ⟨byte, same, digit⟩

theorem decode_encode_byte (byte : UInt8) (rest : Bytes) :
    decode (Utf8.encodeChars (encodeByte byte) ++ rest) = byte :: decode rest := by
  have bound := byte.toNat_lt
  obtain ⟨high, written, highDigit⟩ := digit_of_upper (byte.toNat / 16) (by omega)
  obtain ⟨low, also, lowDigit⟩ := digit_of_upper (byte.toNat % 16) (by omega)
  have percent : String.utf8EncodeChar '%' = [0x25] := by decide
  have value : byte.toNat / 16 * 16 + byte.toNat % 16 = byte.toNat := by omega
  simp only [Utf8.encodeChars, encodeByte, List.flatMap_cons, List.flatMap_nil, percent, written,
    also, List.cons_append, List.nil_append, List.append_nil]
  rw [decode, highDigit, lowDigit]
  simp only [value, UInt8.ofNat_toNat]

theorem decode_encode_bytes (bytes rest : Bytes) :
    decode (Utf8.encodeChars (bytes.flatMap encodeByte) ++ rest) = bytes ++ decode rest := by
  induction bytes with
  | nil => rfl
  | cons byte bytes induction =>
      have split := decode_encode_byte byte (Utf8.encodeChars (bytes.flatMap encodeByte) ++ rest)
      rw [induction] at split
      rw [List.flatMap_cons, Utf8.encodeChars, List.flatMap_append, List.append_assoc]
      exact split

/-- A percent sign among the bytes is one of the text. -/
theorem decode_plain_char {char : Char} (plain : char ≠ '%') (rest : Bytes) :
    decode (Utf8.encodeChars [char] ++ rest) = Utf8.encodeChars [char] ++ decode rest := by
  refine decode_append_of_not_mem (fun inside => ?_) rest
  have read := Utf8.mem_scan (show (0x25 : UInt8).toNat < 0x80 by decide) inside
  have whole := Utf8.scan_encode_append [char] []
  rw [List.append_nil, Utf8.scan, List.append_nil] at whole
  rw [whole] at read
  exact plain (Option.some.inj (List.mem_singleton.mp read)).symm

theorem decode_encode_char {mustEncode : Char → Bool} (percent : mustEncode '%' = true)
    (char : Char) (rest : Bytes) :
    decode (Utf8.encodeChars (encodeChar mustEncode char) ++ rest) =
      Utf8.encodeChars [char] ++ decode rest := by
  rw [encodeChar]
  split
  · exact decode_encode_bytes _ rest
  · rename_i kept
    refine decode_plain_char ?_ rest
    rintro rfl
    exact kept percent

end Percent

namespace Url

/-- What a space and a plus sign in a field stand for. -/
def spaced (text : List Char) : List Char := text.map fun char => if char = '+' then ' ' else char

theorem spaced_of_not_mem {text : List Char} (missing : '+' ∉ text) : spaced text = text := by
  rw [spaced]
  refine (List.map_congr_left fun char inside => ?_).trans (List.map_id text)
  refine if_neg ?_
  rintro rfl
  exact missing inside

/-- The field of one character is read as the bytes of that character. -/
theorem decode_field_char (char : Char) (rest : Bytes) :
    Percent.decode (Utf8.encodeChars (spaced (encodeFieldChar char)) ++ rest) =
      Utf8.encodeChars [char] ++ Percent.decode rest := by
  rw [encodeFieldChar]
  split
  · rename_i space
    subst space
    exact Percent.decode_plain_char (show ' ' ≠ '%' by decide) rest
  · have missing : '+' ∉ Percent.encodeChar Percent.inForm char := by
      have encoded : '+' ∉ Percent.encode Percent.inForm [char] :=
        Redaction.not_mem_encode (by decide) (by decide) (by decide) [char]
      rwa [Percent.encode, List.flatMap_cons, List.flatMap_nil, List.append_nil] at encoded
    rw [spaced_of_not_mem missing]
    exact Percent.decode_encode_char (by decide) char rest

theorem decode_encode_field (text : List Char) (rest : Bytes) :
    Percent.decode (Utf8.encodeChars (spaced (encodeField text)) ++ rest) =
      Utf8.encodeChars text ++ Percent.decode rest := by
  induction text with
  | nil => rfl
  | cons char text induction =>
      have first := decode_field_char char
        (Utf8.encodeChars (spaced (encodeField text)) ++ rest)
      rw [induction] at first
      simp only [encodeField, spaced, Utf8.encodeChars, List.flatMap_cons, List.map_append,
        List.flatMap_append, List.append_assoc, List.flatMap_nil, List.nil_append] at first ⊢
      exact first

/-- Decoding a field undoes encoding it. -/
theorem decode_field_encode (text : List Char) :
    decodeField (encodeField text) = String.ofList text := by
  have whole := decode_encode_field text []
  simp only [Percent.decode, List.append_nil] at whole
  rw [decodeField, ← spaced, whole, Utf8.decode_lossy_encode]

/-- Neither of the marks that part pairs and their sides is in an encoded field. -/
theorem not_mem_encode_field {mark : Char} (must : Percent.inForm mark = true)
    (noPlus : mark ≠ '+') (noPercent : mark ≠ '%')
    (noDigit : ∀ value < 16, mark ≠ Percent.upperDigit value) (text : List Char) :
    mark ∉ encodeField text := by
  intro inside
  obtain ⟨char, among, written⟩ := List.mem_flatMap.mp inside
  rw [encodeFieldChar] at written
  split at written
  · exact noPlus (List.mem_singleton.mp written)
  · exact Redaction.not_mem_encode must noPercent noDigit text
      (List.mem_flatMap.mpr ⟨char, among, written⟩)

theorem decode_query_append (query more : List Char) :
    decodeQuery (query ++ '&' :: more) = decodeQuery query ++ decodeQuery more := by
  simp only [decodeQuery, splitOnChar_eq_splitOn, List.splitOn_append_cons_self,
    List.filter_append, List.map_append]

theorem decode_query_pair (name value : List Char) :
    decodeQuery (pairText name value) = [(String.ofList name, String.ofList value)] := by
  have noEquals : '=' ∉ encodeField name :=
    not_mem_encode_field (by decide) (by decide) (by decide) (by decide) name
  have noAmpersand (text : List Char) : '&' ∉ encodeField text :=
    not_mem_encode_field (by decide) (by decide) (by decide) (by decide) text
  have unsplit : '&' ∉ pairText name value := by
    simp [pairText, noAmpersand]
  rw [decodeQuery, splitOnChar_eq_splitOn, List.splitOn_eq_singleton unsplit]
  simp [pairText, cut_at_char_append noEquals, decode_field_encode]

/-- A pair put at the end of a query is the last one that is read. -/
theorem pairs_append_pair (url : Url) (name value : String) :
    (url.appendPair name value).pairs = url.pairs ++ [(name, value)] := by
  have pair := decode_query_pair name.toList value.toList
  have nothing : decodeQuery [] = [] := rfl
  simp only [String.ofList_toList] at pair
  simp only [pairs, appendPair, Option.getD_some]
  split
  · rename_i none
    rw [none, pair, Option.getD_none, nothing, List.nil_append]
  · rename_i empty
    rw [empty, pair, Option.getD_some, nothing, List.nil_append]
  · rename_i query filled known
    rw [known, decode_query_append, pair, Option.getD_some]

end Url

end FieldPost
