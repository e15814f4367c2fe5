import FieldPost.Proofs.Answers
import FieldPost.Url.Parser

/-!
Controls and spaces in the name of a host. No step of reading a name takes one away: neither
percent-decoding, nor the spelling of characters, nor the writing of labels. So a name with one
in it is refused. Hosts in brackets are not looked at, nor what a name is otherwise.
-/

namespace FieldPost

open FieldPost.Text

theorem result_of_mem {α β : Type} {ask : α → Option β} {entries : List α} {results : List β}
    {entry : α} (asked : entries.mapM ask = some results) (member : entry ∈ entries) :
    ∃ result ∈ results, ask entry = some result := by
  induction entries generalizing results with
  | nil => cases member
  | cons first rest induction =>
      simp only [List.mapM_cons, Option.bind_eq_bind, Option.bind_eq_some_iff, Option.pure_def,
        Option.some.injEq] at asked
      obtain ⟨result, answered, others, all, rfl⟩ := asked
      rcases List.mem_cons.mp member with rfl | later
      · exact ⟨result, List.mem_cons_self, answered⟩
      · obtain ⟨found, among, same⟩ := induction all later
        exact ⟨found, List.mem_cons_of_mem _ among, same⟩

/-! ### Bytes -/

namespace Percent

theorem no_digit_of_low {low : UInt8} (small : low.toNat ≤ 0x20) : digit? low = none := by
  have first : ¬(0x30 ≤ low.toNat ∧ low.toNat ≤ 0x39) := by omega
  have second : ¬(0x41 ≤ low.toNat ∧ low.toNat ≤ 0x46) := by omega
  have third : ¬(0x61 ≤ low.toNat ∧ low.toNat ≤ 0x66) := by omega
  simp only [digit?, if_neg first, if_neg second, if_neg third]

/-- No percent sign takes a control or a space for a digit. -/
theorem mem_decode {low : UInt8} {bytes : Bytes} (small : low.toNat ≤ 0x20)
    (inside : low ∈ bytes) : low ∈ decode bytes := by
  have noDigit := no_digit_of_low small
  fun_induction decode bytes with
  | case1 high second rest highDigit secondDigit readSecond readHigh induction =>
      have notHigh : low ≠ high := by
        rintro rfl
        cases noDigit.symm.trans readHigh
      have notSecond : low ≠ second := by
        rintro rfl
        cases noDigit.symm.trans readSecond
      have notSign : low ≠ 0x25 := by
        rintro rfl
        revert small
        decide
      simp only [List.mem_cons, notSign, notHigh, notSecond, false_or] at inside
      exact List.mem_cons_of_mem _ (induction inside)
  | case2 high second rest stray induction =>
      rcases List.mem_cons.mp inside with rfl | later
      · exact List.mem_cons_self
      · exact List.mem_cons_of_mem _ (induction later)
  | case3 byte rest other induction =>
      rcases List.mem_cons.mp inside with rfl | later
      · exact List.mem_cons_self
      · exact List.mem_cons_of_mem _ (induction later)
  | case4 => exact inside

end Percent

namespace Text.Utf8

section

variable {low : UInt8} {bytes : Bytes}

theorem mem_continued {count lower higher value : Nat} (ascii : low.toNat < 0x80)
    (above : 0x80 ≤ lower) (inside : low ∈ bytes) :
    low ∈ (continued count lower higher value bytes).2 := by
  fun_induction continued count lower higher value bytes with
  | case1 => exact inside
  | case2 => exact inside
  | case3 count lower higher value byte rest fits induction =>
      have notByte : low ≠ byte := by
        rintro rfl
        omega
      exact induction (Nat.le_refl _) ((List.mem_cons.mp inside).resolve_left notByte)
  | case4 => exact inside

theorem mem_next {lead : UInt8} (ascii : low.toNat < 0x80) (inside : low ∈ bytes) :
    low ∈ (next lead bytes).2 := by
  have goesOn : ∀ count lower higher value, 0x80 ≤ lower →
      low ∈ (continued count lower higher value bytes).2 :=
    fun count lower higher value above => mem_continued ascii above inside
  by_cases one : lead.toNat < 0x80
  · simpa [next, one] using inside
  by_cases stray : lead.toNat < 0xC2
  · simpa [next, one, stray] using inside
  by_cases two : lead.toNat < 0xE0
  · simpa [next, one, stray, two] using goesOn 1 0x80 0xBF _ (by decide)
  by_cases three : lead.toNat < 0xF0
  · simp only [next, if_neg one, if_neg stray, if_neg two, if_pos three]
    apply goesOn
    split <;> decide
  by_cases four : lead.toNat < 0xF5
  · simp only [next, if_neg one, if_neg stray, if_neg two, if_neg three, if_pos four]
    apply goesOn
    split <;> decide
  · simpa [next, one, stray, two, three, four] using inside

/-- No character of several bytes takes a byte of ASCII. -/
theorem mem_scan (ascii : low.toNat < 0x80) (inside : low ∈ bytes) :
    some (Char.ofNat low.toNat) ∈ scan bytes := by
  fun_induction scan bytes with
  | case1 => cases inside
  | case2 lead rest induction =>
      rcases List.mem_cons.mp inside with rfl | later
      · have read : (next low rest).1 = some (Char.ofNat low.toNat) := by
          simp [next, ascii]
        rw [read]
        exact List.mem_cons_self
      · exact List.mem_cons_of_mem _ (induction (mem_next ascii later))

end

theorem mem_encode_chars {char : Char} {text : List Char} (ascii : char.toNat < 0x80)
    (inside : char ∈ text) : UInt8.ofNat char.toNat ∈ encodeChars text := by
  apply List.mem_flatMap.mpr
  refine ⟨char, inside, ?_⟩
  have one : char.toNat ≤ 127 := Nat.lt_succ_iff.mp ascii
  simp [String.utf8EncodeChar, one]

/-- Bytes that are text keep every character that they read as. -/
theorem mem_of_decode {bytes : Bytes} {text : String} {char : Char}
    (decoded : decode? bytes = some text) (inside : some char ∈ scan bytes) :
    char ∈ text.toList := by
  simp only [decode?, Option.map_eq_some_iff] at decoded
  obtain ⟨chars, all, rfl⟩ := decoded
  obtain ⟨found, among, same⟩ := result_of_mem all inside
  cases same
  rwa [String.toList_ofList]

end Text.Utf8

/-! ### Labels -/

namespace Punycode

theorem mem_output_pass {basics code : Nat} {progress : Progress} {char other : Char}
    (written : char ∈ progress.output) : char ∈ (progress.pass basics code other).output := by
  unfold Progress.pass
  split
  · exact written
  split
  · exact List.mem_append_left _ written
  · exact written

theorem mem_encode_codes {label : List Char} {basics next : Nat} {progress : Progress}
    {codes : List Nat} {char : Char} (written : char ∈ progress.output) :
    char ∈ encodeCodes label basics next progress codes := by
  induction codes generalizing next progress with
  | nil => exact written
  | cons code codes induction =>
      apply induction
      apply List.foldlRecOn label (Progress.pass basics code)
        (motive := fun progress => char ∈ progress.output)
      · exact written
      · intro progress still other _
        exact mem_output_pass still

/-- Basic characters are written before all others. -/
theorem mem_encode {label : List Char} {char : Char} (basic : isBasic char = true)
    (inside : char ∈ label) : char ∈ encode label := by
  have among : char ∈ label.filter isBasic := List.mem_filter.mpr ⟨inside, basic⟩
  apply mem_encode_codes
  rcases basics : label.filter isBasic with _ | ⟨first, rest⟩
  · rw [basics] at among
    cases among
  · rw [basics] at among
    exact List.mem_append_left _ among

end Punycode

namespace DomainName

theorem map_char_of_low {char : Char} (small : char.toNat ≤ 0x20) : mapChar char = some [char] := by
  have all : ∀ code < 0x21, mapChar (Char.ofNat code) = some [Char.ofNat code] := by decide +kernel
  have this := all char.toNat (by omega)
  rwa [Char.ofNat_toNat] at this

theorem mem_labels {name : List Char} {char : Char} (inside : char ∈ name) (noDot : char ≠ '.') :
    ∃ label ∈ labels name, char ∈ label := by
  induction name with
  | nil => cases inside
  | cons first rest induction =>
      unfold labels
      rcases List.mem_cons.mp inside with rfl | later
      · rw [if_neg noDot]
        split
        · exact ⟨[char], List.mem_cons_self, List.mem_cons_self⟩
        · exact ⟨_, List.mem_cons_self, List.mem_cons_self⟩
      · obtain ⟨label, among, within⟩ := induction later
        split
        · exact ⟨label, List.mem_cons_of_mem _ among, within⟩
        split
        · rename_i none
          rw [none] at among
          cases among
        · rename_i other more parts
          rw [parts] at among
          rcases List.mem_cons.mp among with rfl | further
          · exact ⟨_, List.mem_cons_self, List.mem_cons_of_mem _ within⟩
          · exact ⟨label, List.mem_cons_of_mem _ further, within⟩

theorem mem_encode_label {label encoded : List Char} {char : Char}
    (basic : Punycode.isBasic char = true) (inside : char ∈ label)
    (written : encodeLabel label = some encoded) : char ∈ encoded := by
  unfold encodeLabel at written
  split at written
  · split at written
    · split at written
      · cases written
        exact inside
      · cases written
    · cases written
  · split at written
    · cases written
      exact inside
    · cases written
      exact List.mem_append_right _ (Punycode.mem_encode basic inside)

theorem mem_intercalate {label : List Char} {labels : List (List Char)} {char : Char}
    (inside : char ∈ label) (among : label ∈ labels) : char ∈ ['.'].intercalate labels := by
  induction labels with
  | nil => cases among
  | cons first rest induction =>
      rcases rest with _ | ⟨second, rest⟩
      · cases List.mem_singleton.mp among
        simpa [List.intercalate] using inside
      · rcases List.mem_cons.mp among with rfl | later
        · simp [List.intercalate, inside]
        · have further := induction later
          simp only [List.intercalate, List.intersperse_cons_cons, List.flatten_cons] at further ⊢
          exact List.mem_append_right _ (List.mem_append_right _ further)

/-- A name with a control or a space is refused. -/
theorem to_ascii_of_low {name : List Char} {char : Char} (inside : char ∈ name)
    (small : char.toNat ≤ 0x20) : toAscii? name = none := by
  apply Option.eq_none_iff_forall_ne_some.mpr
  intro sent found
  simp only [toAscii?, mapChars, Option.bind_eq_bind, Option.bind_eq_some_iff,
    Option.map_eq_some_iff] at found
  obtain ⟨_, ⟨spelled, mapped, rfl⟩, encoded, written, allowed⟩ := found
  obtain ⟨spelling, among, same⟩ := result_of_mem mapped inside
  rw [map_char_of_low small] at same
  cases same
  have noDot : char ≠ '.' := by
    rintro rfl
    revert small
    decide
  have basic : Punycode.isBasic char = true := by
    simp only [Punycode.isBasic, decide_eq_true_eq]
    omega
  obtain ⟨label, ofName, within⟩ :=
    mem_labels (List.mem_flatten.mpr ⟨[char], among, List.mem_singleton_self char⟩) noDot
  obtain ⟨sentLabel, ofSent, encodes⟩ := result_of_mem written ofName
  have kept := mem_intercalate (mem_encode_label basic within encodes) ofSent
  have forbidden : isForbidden char = true := by simp [isForbidden, small]
  rw [if_pos (List.any_eq_true.mpr ⟨char, kept, forbidden⟩)] at allowed
  cases allowed

end DomainName

/-! ### Hosts -/

namespace Url

/-- A host that ends in a control or a space cannot be read. -/
theorem read_host_of_stray_end (text : List Char) {stray : Char}
    (control : isControlOrSpace stray = true) :
    ∃ problem, readHost (text ++ [stray]) = .error problem := by
  have small : stray.toNat ≤ 0x20 := by simpa [isControlOrSpace] using control
  have inside : stray ∈ text ++ [stray] := List.mem_append_right _ (List.mem_singleton_self stray)
  unfold readHost
  split
  · rename_i rest parts
    have notLast : rest.getLast? ≠ some ']' := by
      rcases text with _ | ⟨first, text⟩
      · cases parts
        revert small
        decide
      · have tail : text ++ [stray] = rest := (List.cons.inj parts).2
        rw [← tail, List.getLast?_concat]
        rintro ⟨⟩
        revert small
        decide
    exact ⟨.invalidIpv6, by rw [readBracketed, if_neg notLast]⟩
  · have refused : (Utf8.decode? (Percent.decode (Utf8.encodeChars (text ++ [stray])))).bind
        (fun decoded => DomainName.toAscii? decoded.toList) = none := by
      rcases read : Utf8.decode? (Percent.decode (Utf8.encodeChars (text ++ [stray]))) with
        _ | decoded
      · rfl
      · have code : (UInt8.ofNat stray.toNat).toNat = stray.toNat := by
          rw [UInt8.toNat_ofNat']
          omega
        have byte := Utf8.mem_encode_chars (by omega) inside
        have kept := Utf8.mem_scan (by omega) (Percent.mem_decode (by omega) byte)
        rw [code, Char.ofNat_toNat] at kept
        exact DomainName.to_ascii_of_low (Utf8.mem_of_decode read kept) small
    exact ⟨.invalidName, by simp only [refused]⟩

end Url

end FieldPost
