import FieldPost.Proofs.Concealment

/-!
The texts of URLs that were read. Everything in such a text stands where it is read from again:
no part holds the mark of a later one, nothing is trimmed or dropped, and what was encoded is not
encoded once more. So scheme, query and fragment are read back as they are, and authority and path
are read from what the URL has of them, whatever its query is. That these two come back unchanged
is not said: a few odd paths of files do not.
-/

namespace FieldPost.Url

open FieldPost.Text FieldPost.Answers

/-! ### Characters that stay -/

/-- Neither trimmed nor dropped, and not the mark of a query or fragment. -/
def isPlain (char : Char) : Bool := !(isControlOrSpace char || char == '?' || char == '#')

def Plain (text : List Char) : Prop := ∀ char ∈ text, isPlain char = true

theorem Plain.append {before after : List Char} (first : Plain before) (second : Plain after) :
    Plain (before ++ after) := List.forall_mem_append.mpr ⟨first, second⟩

theorem Plain.cons {char : Char} {text : List Char} (first : isPlain char = true)
    (rest : Plain text) : Plain (char :: text) := List.forall_mem_cons.mpr ⟨first, rest⟩

theorem plain_nil : Plain [] := fun _ inside => nomatch inside

theorem plain_flat_map {Item : Type} {items : List Item} {write : Item → List Char}
    (each : ∀ item ∈ items, Plain (write item)) : Plain (items.flatMap write) := by
  intro char inside
  obtain ⟨item, member, written⟩ := List.mem_flatMap.mp inside
  exact each item member char written

/-- Encoding writes a percent sign, a digit, or a character that it keeps. -/
theorem mem_encode_cases {mustEncode : Char → Bool} {text : List Char} {char : Char}
    (inside : char ∈ Percent.encode mustEncode text) :
    char = '%' ∨ (∃ value < 16, char = Percent.upperDigit value) ∨
      (char ∈ text ∧ mustEncode char = false) := by
  obtain ⟨source, among, written⟩ := List.mem_flatMap.mp inside
  rw [Percent.encodeChar] at written
  split at written
  · obtain ⟨byte, _, digits⟩ := List.mem_flatMap.mp written
    have bound := byte.toNat_lt
    simp only [Percent.encodeByte, List.mem_cons, List.not_mem_nil, or_false] at digits
    rcases digits with percent | high | low
    · exact .inl percent
    · exact .inr (.inl ⟨_, by omega, high⟩)
    · exact .inr (.inl ⟨_, by omega, low⟩)
  · rename_i kept
    rw [List.mem_singleton.mp written]
    exact .inr (.inr ⟨among, Bool.not_eq_true _ ▸ kept⟩)

/-- The characters that encoding writes for others are kept by it. -/
structure Stable (mustEncode : Char → Bool) : Prop where
  percent : mustEncode '%' = false
  digits : ∀ value < 16, mustEncode (Percent.upperDigit value) = false

theorem Stable.kept {mustEncode : Char → Bool} (stable : Stable mustEncode) {text : List Char} :
    ∀ char ∈ Percent.encode mustEncode text, mustEncode char = false := by
  intro char inside
  rcases mem_encode_cases inside with rfl | ⟨value, small, rfl⟩ | ⟨_, kept⟩
  · exact stable.percent
  · exact stable.digits value small
  · exact kept

theorem encode_of_kept {mustEncode : Char → Bool} {text : List Char}
    (kept : ∀ char ∈ text, mustEncode char = false) : Percent.encode mustEncode text = text := by
  induction text with
  | nil => rfl
  | cons char text induction =>
      have first := kept char List.mem_cons_self
      have rest := induction fun other inside => kept other (List.mem_cons_of_mem char inside)
      simp only [Percent.encode] at rest
      simp [Percent.encode, Percent.encodeChar, first, rest]

theorem stable_fragment : Stable Percent.inFragment := ⟨by decide, by decide⟩

theorem stable_query (scheme : List Char) : Stable (mustEncodeInQuery scheme) := by
  unfold mustEncodeInQuery
  split
  · exact ⟨by decide, by decide⟩
  · exact ⟨by decide, by decide⟩

theorem not_control_of_kept {char : Char} (kept : Percent.inControl char = false)
    (space : char ≠ ' ') : isControlOrSpace char = false := by
  have other : char.toNat ≠ 0x20 := fun same => space (by
    rw [← Char.ofNat_toNat char, same])
  simp only [Percent.inControl, Bool.or_eq_false_iff, decide_eq_false_iff_not] at kept
  simp only [isControlOrSpace, decide_eq_false_iff_not]
  omega

theorem not_control_of_query {char : Char} (kept : Percent.inQuery char = false) :
    isControlOrSpace char = false ∧ char ≠ '#' := by
  simp only [Percent.inQuery, Bool.or_eq_false_iff] at kept
  have other : ∀ mark ∈ " \"#<>".toList, char ≠ mark := by
    rintro mark member rfl
    have inside := kept.2
    rw [List.contains_iff_mem.mpr member] at inside
    cases inside
  exact ⟨not_control_of_kept kept.1 (other ' ' (by decide)), other '#' (by decide)⟩

theorem plain_upper_digit : ∀ value < 16, isPlain (Percent.upperDigit value) = true := by decide

theorem plain_of_encoded {mustEncode : Char → Bool}
    (must : ∀ char, isPlain char = false → mustEncode char = true) (text : List Char) :
    Plain (Percent.encode mustEncode text) := by
  intro char inside
  rcases mem_encode_cases inside with rfl | ⟨value, small, rfl⟩ | ⟨_, kept⟩
  · rfl
  · exact plain_upper_digit value small
  · cases plain : isPlain char with
    | true => rfl
    | false =>
        rw [must char plain] at kept
        cases kept

theorem in_path_of_not_plain {char : Char} (mark : isPlain char = false) :
    Percent.inPath char = true := by
  cases kept : Percent.inPath char with
  | true => rfl
  | false =>
      simp only [Percent.inPath, Bool.or_eq_false_iff] at kept
      obtain ⟨control, fragment⟩ := not_control_of_query kept.1
      have query : char ≠ '?' := by
        rintro rfl
        exact absurd kept.2 (by decide)
      simp [isPlain, control, fragment, query] at mark

/-! ### Hosts and authorities -/

theorem digit_of_mem_digits {base number : Nat} (positive : 1 < base) (small : base ≤ 16)
    {char : Char} (inside : char ∈ base.toDigits number) : ∃ digit < 16, char = digit.digitChar := by
  induction number using Nat.strongRecOn with
  | ind number induction =>
      by_cases last : number < base
      · rw [Nat.toDigits_of_lt_base last, List.mem_singleton] at inside
        exact ⟨number, by omega, inside⟩
      · rw [Nat.toDigits_of_base_le positive (by omega), List.mem_append,
          List.mem_singleton] at inside
        rcases inside with before | last
        · exact induction (number / base) (Nat.div_lt_self (by omega) positive) before
        · exact ⟨number % base, by have := Nat.mod_lt number (by omega : 0 < base); omega, last⟩

theorem plain_digits {base : Nat} (positive : 1 < base) (small : base ≤ 16) (number : Nat) :
    Plain (base.toDigits number) := by
  have all : ∀ digit < 16, isPlain (Nat.digitChar digit) = true := by decide
  intro char inside
  obtain ⟨digit, below, rfl⟩ := digit_of_mem_digits positive small inside
  exact all digit below

theorem plain_to_string (number : Nat) : Plain (toString number).toList := by
  rw [Nat.toString_eq_ofList_toDigits, String.toList_ofList]
  exact plain_digits (by decide) (by decide) number

theorem plain_intercalate {mark : Char} (plain : isPlain mark = true) {texts : List (List Char)}
    (each : ∀ text ∈ texts, Plain text) : Plain ([mark].intercalate texts) := by
  induction texts with
  | nil => exact plain_nil
  | cons first rest induction =>
      have begins := each first List.mem_cons_self
      cases rest with
      | nil => simpa [List.intercalate] using begins
      | cons second rest =>
          have further := induction fun text member => each text (List.mem_cons_of_mem first member)
          simp only [List.intercalate, List.intersperse_cons_cons, List.flatten_cons] at further ⊢
          exact begins.append (Plain.cons plain further)

theorem plain_ipv4 (address : Nat) : Plain (Host.ipv4 address).text := by
  rw [Host.text, Address.ipv4Text, String.toList_intercalate]
  refine plain_intercalate (by decide) fun text member => ?_
  obtain ⟨_, listed, rfl⟩ := List.mem_map.mp member
  obtain ⟨place, _, rfl⟩ := List.mem_map.mp listed
  exact plain_to_string _

theorem plain_pieces (pieces : List Nat) :
    Plain (":".intercalate (pieces.map Address.hex)).toList := by
  rw [String.toList_intercalate]
  refine plain_intercalate (by decide) fun text member => ?_
  obtain ⟨_, listed, rfl⟩ := List.mem_map.mp member
  obtain ⟨piece, _, rfl⟩ := List.mem_map.mp listed
  rw [Address.hex, String.toList_ofList]
  exact plain_digits (by decide) (by decide) piece

theorem plain_ipv6 (pieces : List Nat) : Plain (Host.ipv6 pieces).text := by
  have inner : Plain (Address.ipv6Text pieces).toList := by
    rw [Address.ipv6Text]
    split
    · exact plain_pieces pieces
    · rw [String.toList_append, String.toList_append]
      have gap : Plain "::".toList := Plain.cons (by decide) (Plain.cons (by decide) plain_nil)
      exact ((plain_pieces _).append gap).append (plain_pieces _)
  exact (Plain.cons (by decide) inner).append (Plain.cons (by decide) plain_nil)

theorem plain_bracketed {text : List Char} {host : Host} (read : readBracketed text = .ok host) :
    Plain host.text := by
  unfold readBracketed at read
  split at read
  · split at read
    · cases read
      exact plain_ipv6 _
    · cases read
  · cases read

theorem plain_of_to_ascii {name sent : List Char} (written : DomainName.toAscii? name = some sent) :
    Plain sent := by
  simp only [DomainName.toAscii?, Option.bind_eq_bind, Option.bind_eq_some_iff] at written
  obtain ⟨mapped, _, labels, _, checked⟩ := written
  split at checked
  · cases checked
  · rename_i allowed
    cases checked
    intro char inside
    have free : DomainName.isForbidden char = false :=
      eq_false_of_ne_true (List.any_eq_false.mp (eq_false_of_ne_true allowed) char inside)
    have query : char ≠ '?' := ne_of_apply_ne DomainName.isForbidden (by rw [free]; decide)
    have fragment : char ≠ '#' := ne_of_apply_ne DomainName.isForbidden (by rw [free]; decide)
    simp only [DomainName.isForbidden, Bool.or_eq_false_iff] at free
    simp [isPlain, isControlOrSpace, query, fragment, free.1.1]

theorem plain_read_host {text : List Char} {host : Host} (read : readHost text = .ok host) :
    Plain host.text := by
  unfold readHost at read
  split at read
  · exact plain_bracketed read
  · split at read
    · cases read
    · rename_i name found
      split at read
      · cases read
      · split at read
        · split at read
          · cases read
            exact plain_ipv4 _
          · cases read
        · cases read
          obtain ⟨decoded, _, written⟩ := Option.bind_eq_some_iff.mp found
          exact plain_of_to_ascii written

theorem plain_opaque_host {text : List Char} {host : Host}
    (read : readOpaqueHost text = .ok host) : Plain host.text := by
  unfold readOpaqueHost at read
  split at read
  · exact plain_bracketed read
  · cases read
    exact plain_nil
  · split at read
    · cases read
    · rename_i allowed
      cases read
      intro char inside
      rcases mem_encode_cases inside with rfl | ⟨value, small, rfl⟩ | ⟨among, kept⟩
      · rfl
      · exact plain_upper_digit value small
      · have free : isForbiddenInHost char = false :=
          eq_false_of_ne_true (List.any_eq_false.mp (eq_false_of_ne_true allowed) char among)
        have mark (other : Char) (forbidden : isForbiddenInHost other = true) : char ≠ other :=
          ne_of_apply_ne isForbiddenInHost (by rw [free, forbidden]; decide)
        simp [isPlain, not_control_of_kept kept (mark ' ' (by decide)), mark '?' (by decide),
          mark '#' (by decide)]

theorem plain_authority {kind : Kind} {scheme text : List Char} {authority : Authority}
    (read : readAuthority kind scheme text = .ok authority) : Plain authority.text := by
  have encoded : ∀ text, Plain (Percent.encode Percent.inUserinfo text) :=
    plain_of_encoded fun char mark => by simp [Percent.inUserinfo, in_path_of_not_plain mark]
  obtain ⟨username, password, host, port, hostText, named, rfl⟩ := read_authority_shape read
  refine Plain.append (Plain.append ?_ (named.elim plain_read_host plain_opaque_host)) ?_
  · rw [Authority.userText]
    split
    · exact plain_nil
    · refine ((encoded username).append ?_).append (Plain.cons (by decide) plain_nil)
      split
      · exact plain_nil
      · exact Plain.cons (by decide) (encoded password)
  · rw [Authority.portText]
    split
    · exact plain_nil
    · exact Plain.cons (by decide) (plain_to_string _)

/-! ### Paths -/

theorem plain_shorten {kind : Kind} {path : List (List Char)} (plain : ∀ segment ∈ path, Plain segment) :
    ∀ segment ∈ shorten kind path, Plain segment := by
  unfold shorten
  split
  · split
    · exact plain
    · exact fun _ member => nomatch member
  · exact fun segment member => plain segment (List.dropLast_subset _ member)

theorem plain_extend {kind : Kind} {path : List (List Char)} {last : List Char}
    (plain : ∀ segment ∈ path, Plain segment) (also : Plain last) :
    ∀ segment ∈ extend kind path last, Plain segment := by
  unfold extend
  split
  · intro segment member
    rw [List.mem_singleton.mp member]
    refine Plain.append (fun char inside => also char (List.mem_of_mem_take inside)) ?_
    exact Plain.cons (by decide) plain_nil
  · exact List.forall_mem_append.mpr ⟨plain, List.forall_mem_singleton.mpr also⟩

theorem plain_resolve {kind : Kind} {path segments : List (List Char)}
    (plain : ∀ segment ∈ path, Plain segment) (also : ∀ segment ∈ segments, Plain segment) :
    ∀ segment ∈ resolve kind path segments, Plain segment := by
  have closed {path : List (List Char)} (plain : ∀ segment ∈ path, Plain segment) :
      ∀ segment ∈ path ++ [[]], Plain segment :=
    List.forall_mem_append.mpr ⟨plain, List.forall_mem_singleton.mpr plain_nil⟩
  fun_induction resolve kind path segments with
  | case1 path => exact plain
  | case2 path last above => exact closed (plain_shorten plain)
  | case3 path last _ here => exact closed plain
  | case4 path last _ _ => exact plain_extend plain (also _ (by simp))
  | case5 path segment rest _ above induction =>
      exact induction (plain_shorten plain) fun other member => also other (by simp [member])
  | case6 path segment rest _ _ here induction =>
      exact induction plain fun other member => also other (by simp [member])
  | case7 path segment rest _ _ _ induction =>
      exact induction (plain_extend plain (also _ (by simp))) fun other member =>
        also other (by simp [member])

theorem plain_encode_pieces (kind : Kind) (text : List Char) :
    ∀ segment ∈ encodePieces kind text, Plain segment := by
  intro segment member
  obtain ⟨piece, _, rfl⟩ := List.mem_map.mp member
  exact plain_of_encoded (fun _ => in_path_of_not_plain) piece

theorem mem_of_drop_empty {path : List (List Char)} {segment : List Char}
    (member : segment ∈ dropEmpty path) : segment ∈ path := by
  fun_induction dropEmpty path with
  | case1 second rest induction => exact List.mem_cons_of_mem _ (induction member)
  | case2 => exact member

theorem plain_segments {items : List (List Char)} (plain : ∀ segment ∈ items, Plain segment) :
    Plain (UrlPath.segments items).text :=
  plain_flat_map fun segment member => Plain.cons (by decide) (plain segment member)

theorem plain_read_path (kind : Kind) (text : List Char) : Plain (readPath kind text).text := by
  refine plain_segments fun segment member => ?_
  have resolved (rest : List Char) :
      ∀ segment ∈ resolve kind [] (encodePieces kind rest), Plain segment :=
    plain_resolve (fun _ member => nomatch member) (plain_encode_pieces kind rest)
  split at member
  · exact resolved _ segment (mem_of_drop_empty member)
  · exact resolved _ segment member

theorem plain_other_path (text : List Char) : Plain (readOtherPath text).text := by
  unfold readOtherPath
  split
  · exact plain_nil
  · exact plain_segments (plain_resolve (fun _ member => nomatch member)
      (plain_encode_pieces .other _))

theorem plain_file_parts {text : List Char} {parts : Authority × UrlPath}
    (read : readFileParts text = .ok parts) : Plain parts.1.text ∧ Plain parts.2.text := by
  have named {host : Host} (plain : Plain host.text) : Plain (Authority.text ⟨[], [], host, none⟩) :=
    (Plain.append plain_nil plain).append plain_nil
  have nameless : Plain (Authority.text ⟨[], [], .empty, none⟩) := plain_nil
  simp only [readFileParts.eq_def] at read
  split at read
  · rename_i first second rest
    split at read
    · split at read
      · cases read
        exact ⟨nameless, plain_read_path .file rest⟩
      · obtain ⟨host, readable, same⟩ := (bind_eq_ok_iff _ _ _).mp read
        cases same
        refine ⟨named ?_, plain_read_path .file _⟩
        split
        · exact plain_nil
        · exact plain_read_host readable
    · cases read
      exact ⟨nameless, plain_read_path .file (first :: second :: rest)⟩
  · cases read
    exact ⟨nameless, plain_read_path .file _⟩

/-- Authority and path are plain, but an opaque path is what is left of a text when its controls
are encoded. -/
theorem plain_read_parts {scheme text : List Char} {parts : Option Authority × UrlPath}
    (read : readParts scheme text = .ok parts) :
    (∀ authority, parts.1 = some authority → Plain authority.text) ∧
      (Plain parts.2.text ∨
        parts.1 = none ∧ parts.2 = .opaqueText (Percent.encode Percent.inControl text)) := by
  unfold readParts at read
  split at read
  · obtain ⟨authority, readable, same⟩ := (bind_eq_ok_iff _ _ _).mp read
    cases same
    refine ⟨?_, .inl (plain_read_path _ _)⟩
    rintro _ ⟨⟩
    exact plain_authority readable
  · obtain ⟨found, readable, rfl⟩ := (map_eq_ok_iff _ _ _).mp read
    obtain ⟨authority, path⟩ := plain_file_parts readable
    refine ⟨?_, .inl path⟩
    rintro _ ⟨⟩
    exact authority
  · split at read
    · obtain ⟨authority, readable, same⟩ := (bind_eq_ok_iff _ _ _).mp read
      cases same
      refine ⟨?_, .inl (plain_other_path _)⟩
      rintro _ ⟨⟩
      exact plain_authority readable
    · rename_i rest _
      cases read
      exact ⟨fun _ => nofun, .inl (plain_other_path ('/' :: rest))⟩
    · cases read
      exact ⟨fun _ => nofun, .inr ⟨rfl, rfl⟩⟩

/-! ### The whole text -/

/-- What is known of a URL that was read, whatever text it was read from. -/
structure Written (url : Url) : Prop where
  scheme : ∃ first name, url.scheme = first :: name ∧ first.isAlpha = true ∧
    name.all isSchemeChar = true ∧ (first :: name).map Char.toLower = first :: name
  stays : ∀ char ∈ url.authorityText ++ url.path.text,
    isTabOrLineEnd char = false ∧ char ≠ '?' ∧ char ≠ '#'
  query : ∀ query, url.query = some query → ∀ char ∈ query,
    mustEncodeInQuery url.scheme char = false
  fragment : ∀ fragment, url.fragment = some fragment → ∀ char ∈ fragment,
    Percent.inFragment char = false
  ends : url.query = none → url.fragment = none →
    ∀ char ∈ (url.authorityText ++ url.path.text).getLast?, isControlOrSpace char = false

theorem drop_while_of_head {inside : Char → Bool} {text : List Char}
    (begins : ∀ char ∈ text.head?, inside char = false) : text.dropWhile inside = text := by
  cases text with
  | nil => rfl
  | cons char text =>
      have outside := begins char rfl
      rw [List.dropWhile_cons, outside]
      rfl

theorem clean_of_kept {text : List Char} (stays : ∀ char ∈ text, isTabOrLineEnd char = false)
    (begins : ∀ char ∈ text.head?, isControlOrSpace char = false)
    (ends : ∀ char ∈ text.getLast?, isControlOrSpace char = false) : clean text = text := by
  have whole : trimmedEnd text = text := by
    rw [trimmedEnd, drop_while_of_head (by simpa using ends), List.reverse_reverse]
  rw [clean_eq, drop_while_of_head begins, whole, kept]
  refine List.filter_eq_self.mpr fun char inside => ?_
  rw [stays char inside]
  rfl

theorem cut_part_append {mark : Char} {before : List Char} (missing : mark ∉ before)
    (after : Option (List Char)) :
    cutPart mark (before ++ after.elim [] (mark :: ·)) = (before, after) := by
  cases after with
  | none => simp only [cutPart, Option.elim_none, List.append_nil, cut_at_char_of_not_mem missing]
  | some after => simp only [cutPart, Option.elim_some, cut_at_char_append missing]

theorem query_text_eq (url : Url) : url.queryText = url.query.elim [] ('?' :: ·) := by
  unfold queryText
  cases url.query <;> rfl

theorem fragment_text_eq (url : Url) : url.fragmentText = url.fragment.elim [] ('#' :: ·) := by
  unfold fragmentText
  cases url.fragment <;> rfl

theorem kept_in_query {scheme : List Char} {char : Char}
    (kept : mustEncodeInQuery scheme char = false) : isControlOrSpace char = false ∧ char ≠ '#' := by
  apply not_control_of_query
  unfold mustEncodeInQuery at kept
  split at kept
  · exact kept
  · exact (Bool.or_eq_false_iff.mp kept).1

theorem kept_in_fragment {char : Char} (kept : Percent.inFragment char = false) :
    isControlOrSpace char = false := by
  simp only [Percent.inFragment, Bool.or_eq_false_iff] at kept
  refine not_control_of_kept kept.1 ?_
  rintro rfl
  exact absurd kept.2 (by decide)

theorem scheme_char_plain {char : Char} (inside : isSchemeChar char = true) :
    isTabOrLineEnd char = false ∧ char ≠ '?' ∧ char ≠ '#' := by
  have ne (mark : Char) (outside : isSchemeChar mark = false) : char ≠ mark :=
    ne_of_apply_ne isSchemeChar (by rw [inside, outside]; decide)
  refine ⟨?_, ne '?' (by decide), ne '#' (by decide)⟩
  simp [isTabOrLineEnd, ne '\t' (by decide), ne '\n' (by decide), ne '\r' (by decide)]

namespace Written

variable {url : Url}

/-- Scheme, authority and path hold no mark of a query or fragment. -/
theorem front (written : Written url) :
    ∀ char ∈ url.scheme ++ ':' :: (url.authorityText ++ url.path.text),
      isTabOrLineEnd char = false ∧ char ≠ '?' ∧ char ≠ '#' := by
  obtain ⟨first, name, scheme, letter, named, _⟩ := written.scheme
  intro char inside
  rw [scheme] at inside
  rcases List.mem_append.mp inside with early | late
  · exact scheme_char_plain (scheme_chars letter named char early)
  · rcases List.mem_cons.mp late with rfl | later
    · decide
    · exact written.stays char later

theorem last_plain (written : Written url) :
    ∀ char ∈ (url.scheme ++ ':' :: (url.authorityText ++ url.path.text) ++ url.queryText ++
      url.fragmentText).getLast?, isControlOrSpace char = false := by
  have marked {mark : Char} {text : List Char} (plain : isControlOrSpace mark = false)
      (kept : ∀ char ∈ text, isControlOrSpace char = false) (before : List Char) :
      ∀ char ∈ (before ++ mark :: text).getLast?, isControlOrSpace char = false := by
    intro char last
    rw [List.getLast?_append_of_ne_nil _ (List.cons_ne_nil _ _)] at last
    rcases List.mem_cons.mp (List.mem_of_getLast? last) with rfl | inside
    · exact plain
    · exact kept char inside
  rw [query_text_eq, fragment_text_eq]
  cases fragment : url.fragment with
  | some text =>
      exact marked (by decide)
        (fun char inside => kept_in_fragment (written.fragment text fragment char inside)) _
  | none =>
      rw [Option.elim_none, List.append_nil]
      cases query : url.query with
      | some text =>
          exact marked (by decide)
            (fun char inside => (kept_in_query (written.query text query char inside)).1) _
      | none =>
          rw [Option.elim_none, List.append_nil]
          intro char last
          rw [List.getLast?_append_of_ne_nil _ (List.cons_ne_nil _ _)] at last
          cases rest : url.authorityText ++ url.path.text with
          | nil =>
              rw [rest] at last
              cases last
              decide
          | cons first more =>
              have ends := written.ends query fragment
              rw [rest] at last ends
              rw [List.getLast?_cons_cons] at last
              exact ends char last

theorem text_chars (url : Url) :
    url.text.toList = url.scheme ++ ':' :: (url.authorityText ++ url.path.text) ++
      url.query.elim [] ('?' :: ·) ++ url.fragment.elim [] ('#' :: ·) := by
  simp [text, chars, query_text_eq, fragment_text_eq]

theorem clean_text (written : Written url) : clean url.text.toList = url.text.toList := by
  have elim {mark : Char} {text : Option (List Char)} {char : Char}
      (inside : char ∈ text.elim [] (mark :: ·)) : char = mark ∨ ∃ inner, text = some inner ∧ char ∈ inner := by
    cases text with
    | none => cases inside
    | some inner => exact (List.mem_cons.mp inside).imp id fun later => ⟨inner, rfl, later⟩
  apply clean_of_kept
  · intro char inside
    rw [text_chars, List.mem_append, List.mem_append] at inside
    rcases inside with (early | query) | fragment
    · exact (written.front char early).1
    · rcases elim query with rfl | ⟨text, known, inside⟩
      · rfl
      · exact kept_of_plain (kept_in_query (written.query text known char inside)).1
    · rcases elim fragment with rfl | ⟨text, known, inside⟩
      · rfl
      · exact kept_of_plain (kept_in_fragment (written.fragment text known char inside))
  · obtain ⟨first, name, scheme, letter, _, _⟩ := written.scheme
    intro char begins
    rw [text_chars, scheme] at begins
    cases begins
    exact (plain_of_letter letter).1
  · rw [text_chars, ← query_text_eq, ← fragment_text_eq]
    exact written.last_plain

/-- The text of a URL that was read is read part by part. -/
theorem parse (written : Written url) :
    parse url.text = (readParts url.scheme (url.authorityText ++ url.path.text)).map fun parts =>
      { scheme := url.scheme, authority := parts.1, path := parts.2, query := url.query,
        fragment := url.fragment } := by
  obtain ⟨first, name, scheme, letter, named, lower⟩ := written.scheme
  have front := written.front
  have noQuery : '?' ∉ url.scheme ++ ':' :: (url.authorityText ++ url.path.text) :=
    fun inside => (front '?' inside).2.1 rfl
  have noFragment : '#' ∉ url.scheme ++ ':' :: (url.authorityText ++ url.path.text) ++
      url.query.elim [] ('?' :: ·) := by
    intro inside
    rcases List.mem_append.mp inside with early | late
    · exact (front '#' early).2.2 rfl
    · cases query : url.query with
      | none => simp [query] at late
      | some text =>
          rw [query, Option.elim_some] at late
          rcases List.mem_cons.mp late with mark | later
          · cases mark
          · exact (kept_in_query (written.query text query '#' later)).2 rfl
  have taken : takeScheme (url.scheme ++ ':' :: (url.authorityText ++ url.path.text)) =
      some (url.scheme, url.authorityText ++ url.path.text) := by
    refine take_scheme_eq_some_iff.mpr ⟨first, name, by rw [scheme], letter, named, ?_⟩
    rw [lower, scheme]
  have query : url.query.map (Percent.encode (mustEncodeInQuery url.scheme)) = url.query := by
    cases known : url.query with
    | none => rfl
    | some text => rw [Option.map_some, encode_of_kept (written.query text known)]
  have fragment : url.fragment.map (Percent.encode Percent.inFragment) = url.fragment := by
    cases known : url.fragment with
    | none => rfl
    | some text => rw [Option.map_some, encode_of_kept (written.fragment text known)]
  have cleaned := written.clean_text.trans (text_chars url)
  simp only [Url.parse, cleaned, cut_part_append noFragment, cut_part_append noQuery, taken,
    query, fragment]
  cases readParts url.scheme (url.authorityText ++ url.path.text) <;> rfl

end Written

/-! ### Texts that were read -/

theorem ascii_of_alphanum {char : Char} (letter : char.isAlphanum = true) : char.toNat < 0x80 := by
  unfold Char.isAlphanum Char.isAlpha Char.isUpper Char.isLower Char.isDigit at letter
  simp only [Bool.or_eq_true, Bool.and_eq_true, decide_eq_true_eq, UInt32.le_iff_toNat_le,
    ge_iff_le] at letter
  have code : char.val.toNat = char.toNat := rfl
  have bounds : 'Z'.val.toNat = 90 ∧ 'z'.val.toNat = 122 ∧ '9'.val.toNat = 57 := by decide
  omega

/-- Letters, digits and marks of ASCII are characters of ASCII. -/
theorem ascii_of_marked {marks : List Char} (each : marks.all (·.toNat < 0x80) = true) {char : Char}
    (inside : (char.isAlphanum || marks.contains char) = true) : char.toNat < 0x80 := by
  rcases (Bool.or_eq_true _ _).mp inside with letter | mark
  · exact ascii_of_alphanum letter
  · exact of_decide_eq_true (List.all_eq_true.mp each char (List.contains_iff_mem.mp mark))

/-- What holds of every code of ASCII holds of every character of ASCII. -/
@[elab_as_elim]
theorem of_ascii {property : Char → Prop} {char : Char} (small : char.toNat < 0x80)
    (all : ∀ code < 0x80, property (Char.ofNat code)) : property char := by
  have found := all char.toNat small
  rwa [Char.ofNat_toNat] at found

theorem lower_of_scheme_char {char : Char} (inside : isSchemeChar char = true) :
    isSchemeChar char.toLower = true ∧ char.toLower.toLower = char.toLower ∧
      (char.isAlpha = true → char.toLower.isAlpha = true) := by
  have all : ∀ code < 0x80, isSchemeChar (Char.ofNat code) = true →
      isSchemeChar (Char.ofNat code).toLower = true ∧
        (Char.ofNat code).toLower.toLower = (Char.ofNat code).toLower ∧
        ((Char.ofNat code).isAlpha = true → (Char.ofNat code).toLower.isAlpha = true) := by
    decide +kernel
  have small : char.toNat < 0x80 := ascii_of_marked (by decide) inside
  revert inside
  exact of_ascii small all

theorem scheme_of_taken {text scheme rest : List Char}
    (taken : takeScheme text = some (scheme, rest)) :
    ∃ first name, scheme = first :: name ∧ first.isAlpha = true ∧
      name.all isSchemeChar = true ∧ (first :: name).map Char.toLower = first :: name := by
  obtain ⟨first, name, _, letter, named, rfl⟩ := take_scheme_eq_some_iff.mp taken
  have each := fun char inside => lower_of_scheme_char (scheme_chars letter named char inside)
  refine ⟨first.toLower, name.map Char.toLower, rfl, (each first (by simp)).2.2 letter, ?_, ?_⟩
  · rw [List.all_eq_true]
    intro char inside
    obtain ⟨source, among, rfl⟩ := List.mem_map.mp inside
    exact (each source (List.mem_cons_of_mem first among)).1
  · rw [← List.map_cons, List.map_map]
    exact List.map_congr_left fun char inside => (each char inside).2.1

theorem last_of_clean (text : List Char) :
    ∀ char ∈ (clean text).getLast?, isControlOrSpace char = false := by
  intro char last
  rw [clean_eq] at last
  rcases List.eq_nil_or_concat (trimmedEnd (text.dropWhile isControlOrSpace)) with
    none | ⟨before, final, some⟩
  · rw [none] at last
    cases last
  · rw [List.concat_eq_append] at some
    have stops := List.head?_dropWhile_not isControlOrSpace
      (text.dropWhile isControlOrSpace).reverse
    have ends := congrArg List.getLast? some
    rw [trimmedEnd, List.getLast?_reverse, List.getLast?_concat] at ends
    rw [ends] at stops
    have plain : isControlOrSpace final = false := by simpa using stops
    rw [some, kept, List.filter_append] at last
    have kept : [final].filter (fun char => !isTabOrLineEnd char) = [final] := by
      simp [kept_of_plain plain]
    rw [kept, List.getLast?_concat] at last
    cases last
    exact plain

theorem last_of_encode {mustEncode : Char → Bool} {text : List Char} {char : Char}
    (last : char ∈ (Percent.encode mustEncode text).getLast?) :
    (∃ value < 16, char = Percent.upperDigit value) ∨ char ∈ text.getLast? := by
  rcases List.eq_nil_or_concat text with rfl | ⟨before, final, rfl⟩
  · cases last
  · rw [List.concat_eq_append] at last ⊢
    rw [Percent.encode, List.flatMap_append, List.flatMap_cons, List.flatMap_nil,
      List.append_nil, Percent.encodeChar] at last
    split at last
    · rcases List.eq_nil_or_concat (Utf8.encodeChars [final]) with none | ⟨bytes, byte, some⟩
      · have positive := Utf8.length_le_encodeChars [final]
        rw [none] at positive
        cases positive
      · have bound := byte.toNat_lt
        rw [some, List.concat_eq_append, List.flatMap_append, List.flatMap_cons, List.flatMap_nil,
          List.append_nil, Percent.encodeByte, ← List.append_assoc,
          List.getLast?_append_of_ne_nil _ (List.cons_ne_nil _ _)] at last
        cases last
        exact .inl ⟨byte.toNat % 16, by omega, rfl⟩
    · rw [List.getLast?_concat] at last ⊢
      exact .inr last

theorem cut_part_none {mark : Char} {text before : List Char}
    (cut : cutPart mark text = (before, none)) : before = text := by
  unfold cutPart at cut
  split at cut
  · exact (Prod.mk.inj cut).1.symm
  · cases (Prod.mk.inj cut).2

/-- What an opaque path keeps of a text is dropped from no other one. -/
theorem stays_in_opaque {text : List Char} (marks : ∀ char ∈ text, char ≠ '?' ∧ char ≠ '#') :
    ∀ char ∈ Percent.encode Percent.inControl text,
      isTabOrLineEnd char = false ∧ char ≠ '?' ∧ char ≠ '#' := by
  have digits : ∀ value < 16, isTabOrLineEnd (Percent.upperDigit value) = false ∧
      Percent.upperDigit value ≠ '?' ∧ Percent.upperDigit value ≠ '#' := by decide
  intro char inside
  rcases mem_encode_cases inside with rfl | ⟨value, small, rfl⟩ | ⟨among, kept⟩
  · decide
  · exact digits value small
  · refine ⟨?_, marks char among⟩
    have ne (mark : Char) (control : Percent.inControl mark = true) : char ≠ mark :=
      ne_of_apply_ne Percent.inControl (by rw [kept, control]; decide)
    simp [isTabOrLineEnd, ne '\t' (by decide), ne '\n' (by decide), ne '\r' (by decide)]

theorem Plain.stays {text : List Char} (plain : Plain text) :
    ∀ char ∈ text, isTabOrLineEnd char = false ∧ char ≠ '?' ∧ char ≠ '#' := by
  intro char inside
  have marks := plain char inside
  simp only [isPlain, Bool.not_eq_true', Bool.or_eq_false_iff, beq_eq_false_iff_ne] at marks
  exact ⟨kept_of_plain marks.1.1, marks.1.2, marks.2⟩

theorem Plain.ends {text : List Char} (plain : Plain text) :
    ∀ char ∈ text.getLast?, isControlOrSpace char = false := by
  intro char last
  have marks := plain char (List.mem_of_getLast? last)
  simp only [isPlain, Bool.not_eq_true', Bool.or_eq_false_iff] at marks
  exact marks.1.1

theorem plain_authority_text {url : Url}
    (plain : ∀ authority, url.authority = some authority → Plain authority.text) :
    Plain url.authorityText := by
  unfold authorityText
  split
  · rename_i authority known
    exact Plain.cons (by decide) (Plain.cons (by decide) (plain authority known))
  · split
    · exact Plain.cons (by decide) (Plain.cons (by decide) plain_nil)
    · exact plain_nil

/-- Only what is trimmed away could end an opaque path in a control or a space. -/
theorem ends_of_opaque {url : Url} {text : List Char} (none : url.authority = none)
    (opaquePath : url.path = .opaqueText (Percent.encode Percent.inControl text))
    (ends : ∀ char ∈ text.getLast?, isControlOrSpace char = false) :
    ∀ char ∈ (url.authorityText ++ url.path.text).getLast?, isControlOrSpace char = false := by
  have digits : ∀ value < 16, isControlOrSpace (Percent.upperDigit value) = false := by decide
  intro char last
  rw [List.getLast?_append, Option.mem_def, Option.or_eq_some_iff] at last
  rcases last with inPath | ⟨empty, before⟩
  · rw [opaquePath] at inPath
    rcases last_of_encode inPath with ⟨value, small, rfl⟩ | among
    · exact digits value small
    · exact ends char among
  · have nothing : url.authorityText = [] := by
      rw [authorityText, none, List.getLast?_eq_none_iff.mp empty]
      rfl
    rw [nothing] at before
    cases before

theorem written_of_parsed {text : String} {url : Url} (parsed : Url.parse text = .ok url) :
    Written url := by
  unfold Url.parse at parsed
  rcases fragments : cutPart '#' (clean text.toList) with ⟨beforeFragment, fragment⟩
  rcases queries : cutPart '?' beforeFragment with ⟨whole, query⟩
  have begun : whole = body (clean text.toList) := by
    rw [← body_eq, fragments, queries]
  simp only [fragments, queries] at parsed
  split at parsed
  · cases parsed
  rename_i scheme rest taken
  obtain ⟨⟨authority, path⟩, read, same⟩ := (bind_eq_ok_iff _ _ _).mp parsed
  cases same
  obtain ⟨plain, parted⟩ := plain_read_parts read
  have written : Plain (authorityText ⟨scheme, authority, path, none, none⟩) :=
    plain_authority_text plain
  obtain ⟨first, name, parts, _⟩ := take_scheme_eq_some_iff.mp taken
  have marks : ∀ char ∈ rest, char ≠ '?' ∧ char ≠ '#' := by
    intro char inside
    have among : char ∈ body (clean text.toList) := by
      rw [← begun, parts]
      simp [inside]
    simpa using List.mem_takeWhile_imp among
  constructor
  · exact scheme_of_taken taken
  · intro char inside
    rcases List.mem_append.mp inside with early | late
    · exact written.stays char early
    · rcases parted with segments | ⟨_, opaquePath⟩
      · exact segments.stays char late
      · simp only at opaquePath
        rw [opaquePath] at late
        exact stays_in_opaque marks char late
  · intro query known
    obtain ⟨source, _, rfl⟩ := Option.map_eq_some_iff.mp known
    exact (stable_query scheme).kept
  · intro fragment known
    obtain ⟨source, _, rfl⟩ := Option.map_eq_some_iff.mp known
    exact stable_fragment.kept
  · intro noQuery noFragment
    rw [Option.map_eq_none_iff.mp noQuery] at queries
    rw [Option.map_eq_none_iff.mp noFragment] at fragments
    rcases parted with segments | ⟨none, opaquePath⟩
    · exact (written.append segments).ends
    · refine ends_of_opaque none opaquePath fun char last => last_of_clean text.toList char ?_
      rw [← cut_part_none fragments, ← cut_part_none queries, parts,
        List.getLast?_append_of_ne_nil _ (List.cons_ne_nil _ _)]
      cases rest with
      | nil => cases last
      | cons head more => rwa [List.getLast?_cons_cons]

end FieldPost.Url
