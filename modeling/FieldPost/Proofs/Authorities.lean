import FieldPost.Proofs.HostNames
import Mathlib.Data.List.TakeWhile

/-!
Where the authority of a network URL stands in its text, and what becomes of it when text is put
behind the URL. A control or a space at the end of an authority makes it unreadable, whether it
stands behind a host or behind a port. What an authority says otherwise is left open.
-/

namespace FieldPost

open FieldPost.Text FieldPost.Answers

namespace Url

theorem take_while_before_stop {inside : Char → Bool} {text : List Char} {stop : Char}
    (within : stop ∈ text) (stops : inside stop = false) (more : List Char) :
    (text ++ more).takeWhile inside = text.takeWhile inside := by
  rw [List.takeWhile_append, if_neg]
  intro same
  have self := (List.takeWhile_prefix inside).eq_of_length same
  rw [List.takeWhile_eq_self_iff.mp self stop within] at stops
  cases stops

theorem take_while_before_nothing {inside : Char → Bool} {more : List Char}
    (nothing : more.takeWhile inside = []) (text : List Char) :
    (text ++ more).takeWhile inside = text.takeWhile inside := by
  rw [List.takeWhile_append, nothing, List.append_nil]
  split
  · rename_i same
    exact ((List.takeWhile_prefix inside).eq_of_length same).symm
  · rfl

theorem ne_of_control {char : Char} (control : isControlOrSpace char = true) (mark : Char)
    (plain : isControlOrSpace mark = false) : char ≠ mark := by
  rintro rfl
  cases plain.symm.trans control

/-! ### Authorities -/

theorem read_authority_ok_cases {scheme text : List Char} {authority : Authority}
    (read : readAuthority .network scheme text = .ok authority) :
    (splitPort false (splitUser text).2).1 ≠ [] ∧
      (∃ host, readHost (splitPort false (splitUser text).2).1 = .ok host) ∧
      ∃ port, readPort scheme (splitPort false (splitUser text).2).2 = .ok port := by
  have failed : ∀ {α β : Type} (problem : Problem) (next : α → Except Problem β),
      (Except.error problem >>= next) = .error problem := fun _ _ => rfl
  rcases users : splitUser text with ⟨user, hostPort⟩
  rcases sides : splitPort false hostPort with ⟨hostText, portText⟩
  simp only [readAuthority, users, sides, failed] at read
  split at read
  · cases read
  simp only [true_and, reduceCtorEq, if_false] at read
  by_cases empty : hostText.isEmpty = true
  · rw [if_pos empty] at read
    cases read
  rw [if_neg empty] at read
  rcases (bind_eq_ok_iff _ _ _).mp read with ⟨host, found, further⟩
  refine ⟨by simpa using empty, ⟨host, found⟩, ?_⟩
  split at further
  · cases further
  · rcases (bind_eq_ok_iff _ _ _).mp further with ⟨port, readable, _⟩
    exact ⟨port, readable⟩

/-- Whatever the kind, an authority that was read has an encoded user and a host that was read. -/
theorem read_authority_shape {kind : Kind} {scheme text : List Char} {authority : Authority}
    (read : readAuthority kind scheme text = .ok authority) :
    ∃ username password host port hostText,
      (readHost hostText = .ok host ∨ readOpaqueHost hostText = .ok host) ∧
      authority = ⟨Percent.encode Percent.inUserinfo username,
        Percent.encode Percent.inUserinfo password, host, port⟩ := by
  have failed : ∀ {α β : Type} (problem : Problem) (next : α → Except Problem β),
      (Except.error problem >>= next) = .error problem := fun _ _ => rfl
  rcases users : splitUser text with ⟨user, hostPort⟩
  rcases sides : splitPort false hostPort with ⟨hostText, portText⟩
  simp only [readAuthority, users, sides, failed] at read
  split at read
  · cases read
  split at read
  · cases read
  split at read
  -- The host is read in one of two ways, and all else is the same.
  all_goals
    rcases (bind_eq_ok_iff _ _ _).mp read with ⟨host, found, further⟩
    split at further
    · cases further
    rcases (bind_eq_ok_iff _ _ _).mp further with ⟨port, _, checked⟩
    split at checked
    · cases checked
    · cases checked
      exact ⟨_, _, host, port, hostText, by simp [found], rfl⟩

theorem split_port_append (bracketed : Bool) (text : List Char) :
    (splitPort bracketed text).1 ++ (splitPort bracketed text).2 = text := by
  fun_induction splitPort bracketed text with
  | case1 => rfl
  | case2 => rfl
  | case3 bracketed char rest goesOn inside sides induction =>
      exact congrArg (char :: ·) induction

theorem split_port_colon (bracketed : Bool) (text : List Char) :
    (splitPort bracketed text).2 = [] ∨
      ∃ digits, (splitPort bracketed text).2 = ':' :: digits := by
  fun_induction splitPort bracketed text with
  | case1 => exact .inl rfl
  | case2 bracketed char rest colon =>
      rw [colon.1]
      exact .inr ⟨rest, rfl⟩
  | case3 bracketed char rest goesOn inside sides induction => exact induction

theorem split_user_concat (text : List Char) {last : Char} (plain : last ≠ '@') :
    ∃ more, (splitUser (text ++ [last])).2 = more ++ [last] := by
  unfold splitUser
  split
  · refine ⟨(text.reverse.takeWhile (· != '@')).reverse, ?_⟩
    simp [plain]
  · exact ⟨text, rfl⟩

/-- A control or a space at the end of an authority stands in a host or in a port. -/
theorem read_authority_of_stray_end (scheme text : List Char) {stray : Char}
    (control : isControlOrSpace stray = true) :
    ∃ problem, readAuthority .network scheme (text ++ [stray]) = .error problem := by
  rcases read : readAuthority .network scheme (text ++ [stray]) with problem | authority
  · exact ⟨problem, rfl⟩
  exfalso
  obtain ⟨_, ⟨host, readable⟩, port, portRead⟩ := read_authority_ok_cases read
  obtain ⟨more, hostPort⟩ := split_user_concat text (ne_of_control control '@' rfl)
  rw [hostPort] at readable portRead
  have parts := split_port_append false (more ++ [stray])
  rcases split_port_colon false (more ++ [stray]) with alone | ⟨digits, colon⟩
  · rw [alone, List.append_nil] at parts
    rw [parts] at readable
    obtain ⟨problem, refused⟩ := read_host_of_stray_end more control
    cases readable.symm.trans refused
  · rw [colon] at parts portRead
    have last : (':' :: digits).getLast? = some stray := by
      have atEnd := congrArg List.getLast? parts
      rwa [List.getLast?_append_of_ne_nil _ (List.cons_ne_nil _ _), List.getLast?_concat] at atEnd
    have inside : stray ∈ digits :=
      (List.mem_cons.mp (List.mem_of_getLast? last)).resolve_left
        (ne_of_control control ':' rfl)
    have noNumber : ¬ digits.all Address.isDigit = true := by
      intro all
      have digit := List.all_eq_true.mp all stray inside
      simp only [Address.isDigit, Bool.and_eq_true, decide_eq_true_eq, Char.le_def,
        UInt32.le_iff_toNat_le] at digit
      have small : stray.val.toNat ≤ 0x20 := by simpa [isControlOrSpace] using control
      have zero : (0x30 : Nat) ≤ stray.val.toNat := digit.1
      omega
    simp only [readPort, if_neg noNumber] at portRead
    cases portRead

/-! ### Schemes and authorities of texts -/

/-- A slash, a query or a fragment ends an authority. -/
def isInAuthority (char : Char) : Bool := !(isSlash .network char || char == '?' || char == '#')

/-- The authority of a network URL in what follows its scheme. -/
def authorityOf (rest : List Char) : List Char :=
  (rest.dropWhile (isSlash .network)).takeWhile isInAuthority

/-- Nothing follows the authority of a network URL. -/
def endsInAuthority (text : List Char) : Bool :=
  match takeScheme text with
  | none => false
  | some (_, rest) => (rest.dropWhile (isSlash .network)).all isInAuthority

theorem scheme_char_of_letter {char : Char} (letter : char.isAlpha = true) :
    isSchemeChar char = true := by
  simp [isSchemeChar, Char.isAlphanum, letter]

theorem scheme_chars {first : Char} {name : List Char} (letter : first.isAlpha = true)
    (named : name.all isSchemeChar = true) :
    ∀ char ∈ first :: name, isSchemeChar char = true := by
  intro char inside
  rcases List.mem_cons.mp inside with rfl | later
  · exact scheme_char_of_letter letter
  · exact List.all_eq_true.mp named char later

theorem take_scheme_eq_some_iff {text scheme rest : List Char} :
    takeScheme text = some (scheme, rest) ↔
      ∃ first name, text = first :: name ++ ':' :: rest ∧ first.isAlpha = true ∧
        name.all isSchemeChar = true ∧ scheme = (first :: name).map Char.toLower := by
  constructor
  · intro taken
    rcases text with _ | ⟨first, text⟩
    · cases taken
    rw [takeScheme, List.head?_cons] at taken
    by_cases alpha : first.isAlpha = true
    · simp only [if_pos alpha] at taken
      have parts := List.takeWhile_append_dropWhile (p := isSchemeChar) (l := first :: text)
      split at taken
      · rename_i rest' colon
        cases taken
        refine ⟨first, text.takeWhile isSchemeChar, ?_, alpha, List.all_takeWhile, ?_⟩
        · rw [colon, List.takeWhile_cons, scheme_char_of_letter alpha] at parts
          exact parts.symm
        · rw [List.takeWhile_cons, scheme_char_of_letter alpha]
          rfl
      · cases taken
    · simp only [if_neg alpha] at taken
      cases taken
  · rintro ⟨first, name, rfl, alpha, named, rfl⟩
    have all := scheme_chars alpha named
    have dropped : (first :: name ++ ':' :: rest).dropWhile isSchemeChar = ':' :: rest := by
      rw [List.dropWhile_append_of_pos all]
      rfl
    have taken : (first :: name ++ ':' :: rest).takeWhile isSchemeChar = first :: name := by
      rw [List.takeWhile_append_of_pos all]
      exact List.append_nil _
    have begins : (first :: name ++ ':' :: rest).head? = some first := rfl
    simp only [takeScheme, begins, if_pos alpha, dropped, taken]

/-- What is read before fragment and query. -/
def body (text : List Char) : List Char := text.takeWhile fun char => char != '?' && char != '#'

theorem cut_part_fst (mark : Char) (text : List Char) :
    (cutPart mark text).1 = text.takeWhile fun char => char != mark := by
  induction text with
  | nil => rfl
  | cons char text induction =>
      by_cases same : mark = char
      · subst same
        simp [cutPart, cutAtChar, cutAt, dropMark?]
      · have plain : (char != mark) = true := by simpa using Ne.symm same
        rw [List.takeWhile_cons, plain, if_pos rfl, ← induction]
        rcases later : cutAtChar mark text with _ | ⟨before, after⟩
        · have none : cutAtChar mark (char :: text) = none := by
            rw [cutAtChar] at later ⊢
            simp [cutAt, dropMark?, same, later]
          simp [cutPart, none, later]
        · have some : cutAtChar mark (char :: text) = some (char :: before, after) := by
            rw [cutAtChar] at later ⊢
            simp [cutAt, dropMark?, same, later]
          simp [cutPart, some, later]

theorem body_eq (text : List Char) : (cutPart '?' (cutPart '#' text).1).1 = body text := by
  rw [cut_part_fst, cut_part_fst, List.takeWhile_takeWhile]
  apply congrArg (fun inside => List.takeWhile inside text)
  funext char
  simp only [Bool.decide_and, Bool.decide_eq_true]

theorem parse_ok_cases {text : String} {url : Url} (parsed : parse text = .ok url) :
    ∃ rest parts, takeScheme (body (clean text.toList)) = some (url.scheme, rest) ∧
      readParts url.scheme rest = .ok parts := by
  rw [← body_eq]
  simp only [parse] at parsed
  split at parsed
  · cases parsed
  · rename_i scheme rest taken
    rcases (bind_eq_ok_iff _ _ _).mp parsed with ⟨parts, read, same⟩
    cases same
    exact ⟨rest, parts, taken, read⟩

theorem parse_of_parts {text : String} {scheme rest : List Char}
    {parts : Option Authority × UrlPath}
    (schemed : takeScheme (body (clean text.toList)) = some (scheme, rest))
    (read : readParts scheme rest = .ok parts) : ∃ url, parse text = .ok url := by
  rw [← body_eq] at schemed
  simp only [parse, schemed, read]
  exact ⟨_, rfl⟩

section

variable {text more scheme rest : List Char}

theorem take_scheme_append (taken : takeScheme text = some (scheme, rest)) (more : List Char) :
    takeScheme (text ++ more) = some (scheme, rest ++ more) := by
  obtain ⟨first, name, rfl, alpha, named, same⟩ := take_scheme_eq_some_iff.mp taken
  apply take_scheme_eq_some_iff.mpr
  exact ⟨first, name, by simp, alpha, named, same⟩

/-- Slashes do not end a scheme, so its colon comes before them. -/
theorem take_scheme_before_slashes (taken : takeScheme (text ++ more) = some (scheme, rest))
    (slashes : ∀ char ∈ more, char = '/') :
    ∃ before, takeScheme text = some (scheme, before) ∧ rest = before ++ more := by
  have noColon : ':' ∉ more := by
    intro inside
    have slash := slashes ':' inside
    revert slash
    decide
  obtain ⟨first, name, parts, alpha, named, same⟩ := take_scheme_eq_some_iff.mp taken
  rcases List.append_eq_append_iff.mp parts with ⟨after, _, atColon⟩ | ⟨after, atText, atColon⟩
  · exfalso
    apply noColon
    rw [atColon]
    simp
  · rcases after with _ | ⟨colon, before⟩
    · exfalso
      apply noColon
      rw [List.nil_append] at atColon
      rw [← atColon]
      exact List.mem_cons_self
    · obtain ⟨rfl, rfl⟩ := List.cons.inj atColon
      refine ⟨before, take_scheme_eq_some_iff.mpr ?_, rfl⟩
      exact ⟨first, name, atText, alpha, named, same⟩

theorem body_of_scheme (taken : takeScheme text = some (scheme, rest)) :
    takeScheme (body text) = some (scheme, body rest) := by
  obtain ⟨first, name, rfl, alpha, named, same⟩ := take_scheme_eq_some_iff.mp taken
  have plain : ∀ char, isSchemeChar char = true → (char != '?' && char != '#') = true := by
    intro char inside
    have notQuery : char ≠ '?' := by
      rintro rfl
      revert inside
      decide
    have notFragment : char ≠ '#' := by
      rintro rfl
      revert inside
      decide
    simp [notQuery, notFragment]
  have all : ∀ char ∈ first :: name, (char != '?' && char != '#') = true := by
    intro char inside
    exact plain char (scheme_chars alpha named char inside)
  apply take_scheme_eq_some_iff.mpr
  refine ⟨first, name, ?_, alpha, named, same⟩
  rw [body, List.takeWhile_append_of_pos all]
  rfl

theorem scheme_of_body (taken : takeScheme (body text) = some (scheme, rest)) :
    ∃ whole, takeScheme text = some (scheme, whole) ∧ body whole = rest := by
  have parts := List.takeWhile_append_dropWhile
    (p := fun char : Char => char != '?' && char != '#') (l := text)
  have whole := take_scheme_append taken
    (text.dropWhile fun char => char != '?' && char != '#')
  rw [body, parts] at whole
  refine ⟨_, whole, ?_⟩
  have again := body_of_scheme whole
  rw [taken] at again
  exact (Prod.mk.inj (Option.some.inj again)).2.symm

theorem authority_of_body (rest : List Char) :
    ((body rest).dropWhile (isSlash .network)).takeWhile (fun char => !isSlash .network char) =
      authorityOf rest := by
  have plain : ∀ char, isSlash .network char = true → (char != '?' && char != '#') = true := by
    intro char slash
    simp only [isSlash, Bool.or_eq_true, Bool.and_eq_true, beq_iff_eq] at slash
    rcases slash with rfl | ⟨_, rfl⟩ <;> rfl
  induction rest with
  | nil => rfl
  | cons char rest induction =>
      rcases slash : isSlash .network char with _ | _
      · have stays : (body (char :: rest)).dropWhile (isSlash .network) = body (char :: rest) := by
          rw [body, List.takeWhile_cons]
          split
          · rw [List.dropWhile_cons, slash]
            rfl
          · rfl
        rw [stays, authorityOf, List.dropWhile_cons, slash, body, List.takeWhile_takeWhile]
        apply congrArg (fun inside => List.takeWhile inside (char :: rest))
        funext other
        simp only [isInAuthority, bne, Bool.not_or, Bool.decide_and, Bool.decide_eq_true,
          Bool.and_assoc]
      · rw [body, List.takeWhile_cons, plain char slash, if_pos rfl, List.dropWhile_cons, slash,
          authorityOf, List.dropWhile_cons, slash]
        exact induction

theorem read_network_iff (network : kindOf scheme = .network) :
    (∃ parts, readParts scheme (body rest) = .ok parts) ↔
      ∃ authority, readAuthority .network scheme (authorityOf rest) = .ok authority := by
  simp only [readParts, network, authority_of_body]
  constructor
  · rintro ⟨parts, read⟩
    rcases (bind_eq_ok_iff _ _ _).mp read with ⟨authority, readable, _⟩
    exact ⟨authority, readable⟩
  · rintro ⟨authority, readable⟩
    exact ⟨_, (bind_eq_ok_iff _ _ _).mpr ⟨authority, readable, rfl⟩⟩

theorem parse_iff_of_scheme {text : String}
    (taken : takeScheme (clean text.toList) = some (scheme, rest)) :
    (∃ url, parse text = .ok url) ↔ ∃ parts, readParts scheme (body rest) = .ok parts := by
  have ofBody := body_of_scheme taken
  constructor
  · rintro ⟨url, parsed⟩
    obtain ⟨before, parts, takenBefore, read⟩ := parse_ok_cases parsed
    rw [ofBody] at takenBefore
    cases takenBefore
    exact ⟨parts, read⟩
  · rintro ⟨parts, read⟩
    exact parse_of_parts ofBody read

theorem scheme_of_parsed {text : String} {url : Url} (parsed : parse text = .ok url) :
    ∃ rest, takeScheme (clean text.toList) = some (url.scheme, rest) := by
  obtain ⟨before, parts, taken, _⟩ := parse_ok_cases parsed
  obtain ⟨rest, whole, _⟩ := scheme_of_body taken
  exact ⟨rest, whole⟩

end

/-! ### Joined texts -/

section

variable {rest before slashes strays : List Char}

theorem no_authority_in_slashes (all : ∀ char ∈ rest, isSlash .network char = true) :
    authorityOf rest = [] := by
  rw [authorityOf, List.dropWhile_eq_nil_iff.mpr all, List.takeWhile_nil]

theorem authority_of_append (begun : rest.dropWhile (isSlash .network) ≠ []) (more : List Char) :
    authorityOf (rest ++ more) = authorityOf rest ++
      if (rest.dropWhile (isSlash .network)).all isInAuthority then more.takeWhile isInAuthority
      else [] := by
  have dropped : ¬(rest.dropWhile (isSlash .network)).isEmpty = true := by
    simpa using begun
  rw [authorityOf, authorityOf, List.dropWhile_append, if_neg dropped]
  by_cases whole : (rest.dropWhile (isSlash .network)).all isInAuthority = true
  · have all : ∀ char ∈ rest.dropWhile (isSlash .network), isInAuthority char = true :=
      List.all_eq_true.mp whole
    rw [if_pos whole, List.takeWhile_append_of_pos all, List.takeWhile_eq_self_iff.mpr all]
  · obtain ⟨stop, within, stops⟩ := List.all_eq_false.mp (Bool.eq_false_iff.mpr whole)
    rw [if_neg whole, List.append_nil]
    exact take_while_before_stop within (Bool.eq_false_iff.mpr stops) more

/-- An authority that is followed by a slash is that of what stands before the slash. -/
theorem authority_before_slash (begun : before.dropWhile (isSlash .network) ≠ [])
    (path : List Char) : authorityOf (before ++ '/' :: path) = authorityOf before := by
  rw [authority_of_append begun]
  have stops : ('/' :: path).takeWhile isInAuthority = [] := rfl
  rw [stops, ite_self, List.append_nil]

/-- When a slash and a path are put in the place of what ends a URL, the authority gets what stood
there without being a slash, unless something else comes before it. -/
theorem joined_authority (same : before ++ slashes = rest ++ strays)
    (all : ∀ char ∈ slashes, char = '/') (inside : ∀ char ∈ strays, isInAuthority char = true)
    (authority : authorityOf rest ≠ []) (path : List Char) :
    authorityOf (before ++ '/' :: path) = authorityOf rest ++
      if (rest.dropWhile (isSlash .network)).all isInAuthority then strays else [] := by
  have begun : rest.dropWhile (isSlash .network) ≠ [] := by
    intro none
    rw [authorityOf, none] at authority
    exact authority rfl
  have extended := authority_of_append begun strays
  rw [List.takeWhile_eq_self_iff.mpr inside] at extended
  have begunBefore : before.dropWhile (isSlash .network) ≠ [] := by
    intro none
    apply authority
    have nothing : authorityOf (before ++ slashes) = [] := by
      apply no_authority_in_slashes
      intro char within
      rcases List.mem_append.mp within with early | late
      · exact List.dropWhile_eq_nil_iff.mp none char early
      · rw [all char late]
        rfl
    rw [same, extended] at nothing
    exact (List.append_eq_nil_iff.mp nothing).1
  rw [authority_before_slash begunBefore, ← extended, ← same, authority_of_append begunBefore]
  have stops : slashes.takeWhile isInAuthority = [] := by
    rcases slashes with _ | ⟨slash, slashes⟩
    · rfl
    · rw [all slash List.mem_cons_self]
      rfl
  rw [stops, ite_self, List.append_nil]

end

end Url

end FieldPost
