import FieldPost.Proofs.Authorities
import FieldPost.Proofs.Shapes
import FieldPost.Upload.Server

/-!
The destination that is made of a server's URL and a path. The URL has been read alone when the
settings were loaded; the joined text is another text. Controls and spaces at the end of the URL
are dropped when it is read alone and stand in the middle of the joined text, where a host or a
port cannot have them. How the path of the destination is spelled is not said.
-/

namespace FieldPost

open FieldPost.Text FieldPost.Answers

namespace Url

/-! ### Ends of texts -/

def kept (text : List Char) : List Char := text.filter fun char => !isTabOrLineEnd char

def trimmedEnd (text : List Char) : List Char :=
  (text.reverse.dropWhile isControlOrSpace).reverse

/-- The controls and spaces at the end of a text that are dropped only because they stand there.
Tabs and line ends are dropped anywhere. -/
def strays (text : List Char) : List Char :=
  kept (text.reverse.takeWhile isControlOrSpace).reverse

def withoutSlashes (text : List Char) : List Char :=
  (text.reverse.dropWhile (· == '/')).reverse

section

variable {text path : List Char} {char : Char}

theorem stray_control (stray : char ∈ strays text) : isControlOrSpace char = true := by
  have inside := List.mem_reverse.mp (List.mem_filter.mp stray).1
  exact List.mem_takeWhile_imp inside

theorem in_authority_of_control (control : isControlOrSpace char = true) :
    isInAuthority char = true := by
  have ne := ne_of_control control
  simp [isInAuthority, isSlash, ne '/' rfl, ne '\\' rfl, ne '?' rfl, ne '#' rfl]

theorem drop_controls_append (inside : char ∈ text) (plain : isControlOrSpace char = false)
    (more : List Char) : (text ++ more).dropWhile isControlOrSpace =
      text.dropWhile isControlOrSpace ++ more := by
  rw [List.dropWhile_append, if_neg]
  intro none
  have all := List.dropWhile_eq_nil_iff.mp (List.isEmpty_iff.mp none)
  rw [all char inside] at plain
  cases plain

theorem trimmed_end_append (plain : isControlOrSpace char = false) (before after : List Char) :
    trimmedEnd (before ++ char :: after) = before ++ char :: trimmedEnd after := by
  have stays : (char :: before.reverse).dropWhile isControlOrSpace = char :: before.reverse := by
    rw [List.dropWhile_cons, plain]
    rfl
  rw [trimmedEnd, trimmedEnd, List.reverse_append, List.reverse_cons, List.append_assoc,
    List.singleton_append, List.dropWhile_append, stays]
  split
  · rename_i none
    rw [List.isEmpty_iff.mp none]
    simp
  · simp

theorem clean_eq (text : List Char) :
    clean text = kept (trimmedEnd (text.dropWhile isControlOrSpace)) := rfl

theorem clean_append_strays (inside : char ∈ text) (plain : isControlOrSpace char = false) :
    clean text ++ strays text = kept (text.dropWhile isControlOrSpace) := by
  have parts := List.takeWhile_append_dropWhile (p := isControlOrSpace) (l := text)
  have late : char ∈ (text.dropWhile isControlOrSpace).reverse := by
    rw [List.mem_reverse]
    rw [← parts] at inside
    rcases List.mem_append.mp inside with early | late
    · rw [List.mem_takeWhile_imp early] at plain
      cases plain
    · exact late
  have atEnd : text.reverse.takeWhile isControlOrSpace =
      (text.dropWhile isControlOrSpace).reverse.takeWhile isControlOrSpace := by
    calc
      _ = ((text.dropWhile isControlOrSpace).reverse ++
          (text.takeWhile isControlOrSpace).reverse).takeWhile isControlOrSpace := by
        rw [← List.reverse_append, parts]
      _ = _ := take_while_before_stop late plain _
  rw [strays, atEnd, clean_eq, kept, kept, kept, ← List.filter_append, trimmedEnd,
    ← List.reverse_append, List.takeWhile_append_dropWhile, List.reverse_reverse]

theorem clean_join (inside : char ∈ text) (plain : isControlOrSpace char = false) :
    clean (text ++ '/' :: path) =
      kept (text.dropWhile isControlOrSpace) ++ '/' :: kept (trimmedEnd path) := by
  rw [clean_eq, drop_controls_append inside plain, trimmed_end_append (by decide), kept,
    List.filter_append]
  rfl

theorem without_slashes_append (text : List Char) :
    ∃ slashes, withoutSlashes text ++ slashes = text ∧ ∀ char ∈ slashes, char = '/' := by
  refine ⟨(text.reverse.takeWhile (· == '/')).reverse, ?_, ?_⟩
  · rw [withoutSlashes, ← List.reverse_append, List.takeWhile_append_dropWhile,
      List.reverse_reverse]
  · intro char inside
    have slash := List.mem_takeWhile_imp (List.mem_reverse.mp inside)
    exact eq_of_beq slash

theorem mem_of_clean (cleaned : char ∈ clean text) : char ∈ text := by
  have trimmed := (List.mem_filter.mp cleaned).1
  have started := (List.dropWhile_sublist isControlOrSpace).subset (List.mem_reverse.mp trimmed)
  exact (List.dropWhile_sublist isControlOrSpace).subset (List.mem_reverse.mp started)

theorem plain_of_letter (letter : char.isAlpha = true) :
    isControlOrSpace char = false ∧ char ≠ '/' := by
  constructor
  · have all : ∀ code < 0x21, (Char.ofNat code).isAlpha = false := by decide
    rcases control : isControlOrSpace char with _ | _
    · rfl
    · have small : char.toNat ≤ 0x20 := by simpa [isControlOrSpace] using control
      have noLetter := all char.toNat (by omega)
      rw [Char.ofNat_toNat, letter] at noLetter
      cases noLetter
  · rintro rfl
    revert letter
    decide

variable {scheme rest : List Char}

/-- Under the same scheme as the URL alone stands what the URL has without its last slashes, a
slash, and the path. -/
theorem joined_scheme (taken : takeScheme (clean text) = some (scheme, rest)) (path : List Char) :
    ∃ before slashes, before ++ slashes = rest ++ strays text ∧ (∀ char ∈ slashes, char = '/') ∧
      takeScheme (kept ((withoutSlashes text).dropWhile isControlOrSpace)) =
        some (scheme, before) ∧
      clean (withoutSlashes text ++ '/' :: path) =
        kept ((withoutSlashes text).dropWhile isControlOrSpace) ++
          '/' :: kept (trimmedEnd path) := by
  obtain ⟨slashes, parts, all⟩ := without_slashes_append text
  obtain ⟨first, name, begins, letter, _, _⟩ := take_scheme_eq_some_iff.mp taken
  obtain ⟨plain, notSlash⟩ := plain_of_letter letter
  have inText : first ∈ text := by
    apply mem_of_clean
    rw [begins]
    exact List.mem_cons_self
  have solid : first ∈ withoutSlashes text := by
    rw [← parts] at inText
    exact (List.mem_append.mp inText).resolve_right fun late => notSlash (all first late)
  have keptSlashes : kept slashes = slashes := by
    apply List.filter_eq_self.mpr
    intro char inside
    rw [all char inside]
    rfl
  have whole : kept ((withoutSlashes text).dropWhile isControlOrSpace) ++ slashes =
      clean text ++ strays text := by
    rw [clean_append_strays inText plain]
    calc
      _ = kept ((withoutSlashes text).dropWhile isControlOrSpace ++ slashes) := by
        rw [kept, kept, List.filter_append, ← kept, ← kept, keptSlashes]
      _ = _ := by rw [← drop_controls_append solid plain, parts]
  have takenWhole := take_scheme_append taken (strays text)
  rw [← whole] at takenWhole
  obtain ⟨before, takenBefore, same⟩ := take_scheme_before_slashes takenWhole all
  exact ⟨before, slashes, same.symm, all, takenBefore, clean_join solid plain⟩

end

/-! ### Network URLs -/

/-- A path that is put behind the URL makes a part of its authority of what was dropped there. -/
def Spoils (text : List Char) : Prop :=
  strays text ≠ [] ∧ endsInAuthority (clean text) = true

instance (text : List Char) : Decidable (Spoils text) :=
  inferInstanceAs (Decidable (strays text ≠ [] ∧ endsInAuthority (clean text) = true))

theorem authority_needs_text {scheme : List Char} {authority : Authority}
    (read : readAuthority .network scheme [] = .ok authority) : False :=
  (read_authority_ok_cases read).1 rfl

/-- A network URL that was read alone can be read with a path after it, unless strays then stand
at the end of its authority. -/
theorem joined_network_iff {text joined : String} {url : Url} {path : List Char}
    (parsed : parse text = .ok url) (network : kindOf url.scheme = .network)
    (parts : joined.toList = withoutSlashes text.toList ++ '/' :: path) :
    (∃ whole, parse joined = .ok whole) ↔ ¬Spoils text.toList := by
  obtain ⟨rest, taken⟩ := scheme_of_parsed parsed
  obtain ⟨authority, readable⟩ :=
    (read_network_iff network).mp ((parse_iff_of_scheme taken).mp ⟨url, parsed⟩)
  have filled : authorityOf rest ≠ [] := by
    intro none
    rw [none] at readable
    exact authority_needs_text readable
  obtain ⟨before, slashes, same, all, takenBefore, cleaned⟩ := joined_scheme taken path
  have takenJoined := take_scheme_append takenBefore ('/' :: kept (trimmedEnd path))
  rw [← cleaned, ← parts] at takenJoined
  rw [parse_iff_of_scheme takenJoined, read_network_iff network,
    joined_authority same all (fun char stray => in_authority_of_control (stray_control stray))
      filled]
  have ends : endsInAuthority (clean text.toList) =
      (rest.dropWhile (isSlash .network)).all isInAuthority := by
    simp only [endsInAuthority, taken]
  rw [← ends]
  by_cases spoiled : Spoils text.toList
  · have bad := spoiled
    obtain ⟨standing, bare⟩ := spoiled
    rcases List.eq_nil_or_concat (strays text.toList) with nothing | ⟨more, last, shape⟩
    · exact (standing nothing).elim
    have control : isControlOrSpace last = true := by
      apply stray_control
      rw [shape]
      simp
    obtain ⟨problem, refused⟩ :=
      read_authority_of_stray_end url.scheme (authorityOf rest ++ more) control
    rw [if_pos bare, shape, List.concat_eq_append, ← List.append_assoc, refused]
    simp [bad]
  · have nothing : (if endsInAuthority (clean text.toList) = true then strays text.toList else []) =
        [] := by
      split
      · rename_i bare
        by_contra standing
        exact spoiled ⟨standing, bare⟩
      · rfl
    rw [nothing, List.append_nil]
    exact iff_of_true ⟨authority, readable⟩ spoiled

/-! ### URLs of any scheme -/

/-- The text that is read as an authority, when two slashes announce one. -/
def announced? (kind : Kind) : List Char → Option (List Char)
  | first :: second :: rest =>
      if isSlash kind first && isSlash kind second then
        some (rest.takeWhile fun char => !isSlash kind char)
      else none
  | _ => none

theorem read_file_parts_iff (text : List Char) :
    (∃ parts, readFileParts text = .ok parts) ↔
      ∀ host, announced? .file text = some host →
        (host.isEmpty || isDrive host) = true ∨ ∃ read, readHost host = .ok read := by
  rcases text with _ | ⟨first, _ | ⟨second, rest⟩⟩
  · simp [readFileParts, announced?]
  · simp [readFileParts, announced?]
  by_cases slashes : (isSlash .file first && isSlash .file second) = true
  · simp only [readFileParts, announced?, if_pos slashes, Option.some.injEq, forall_eq']
    split
    · rename_i local?
      simp [local?]
    · rename_i remote
      rw [or_iff_right remote]
      constructor
      · rintro ⟨parts, read⟩
        rcases (bind_eq_ok_iff _ _ _).mp read with ⟨host, readable, _⟩
        exact ⟨host, readable⟩
      · rintro ⟨host, readable⟩
        exact ⟨_, (bind_eq_ok_iff _ _ _).mpr ⟨host, readable, rfl⟩⟩
  · simp only [readFileParts, announced?, if_neg slashes]
    exact iff_of_true ⟨_, rfl⟩ (by rintro host ⟨⟩)

theorem read_other_parts_iff {scheme : List Char} (other : kindOf scheme = .other)
    (text : List Char) :
    (∃ parts, readParts scheme text = .ok parts) ↔
      ∀ authority, announced? .other text = some authority →
        ∃ read, readAuthority .other scheme authority = .ok read := by
  have slash : ∀ char, isSlash .other char = (char == '/') := by
    intro char
    simp [isSlash]
  simp only [readParts, other]
  split
  · rename_i rest
    simp only [announced?, slash, BEq.rfl, Bool.and_self, if_true, Option.some.injEq, forall_eq']
    constructor
    · rintro ⟨parts, read⟩
      rcases (bind_eq_ok_iff _ _ _).mp read with ⟨authority, readable, _⟩
      exact ⟨authority, readable⟩
    · rintro ⟨authority, readable⟩
      exact ⟨_, (bind_eq_ok_iff _ _ _).mpr ⟨authority, readable, rfl⟩⟩
  · rename_i rest single
    apply iff_of_true ⟨_, rfl⟩
    rcases rest with _ | ⟨second, rest⟩
    · rintro authority ⟨⟩
    · have notSlash : ¬second = '/' := by
        rintro rfl
        exact single rest rfl
      simp [announced?, slash, notSlash]
  · rename_i double single
    apply iff_of_true ⟨_, rfl⟩
    rcases text with _ | ⟨first, _ | ⟨second, rest⟩⟩
    · rintro authority ⟨⟩
    · rintro authority ⟨⟩
    · have notSlash : ¬first = '/' := by
        rintro rfl
        exact single (second :: rest) rfl
      simp [announced?, slash, notSlash]

/-- Nothing but an authority can be wrong after a scheme that is not of the network. -/
theorem read_parts_of_announced {scheme text other : List Char} (off : kindOf scheme ≠ .network)
    (read : ∃ parts, readParts scheme text = .ok parts)
    (same : announced? (kindOf scheme) other = none ∨
      announced? (kindOf scheme) other = announced? (kindOf scheme) text) :
    ∃ parts, readParts scheme other = .ok parts := by
  rcases kind : kindOf scheme with _ | _ | _
  · exact (off kind).elim
  · rw [kind] at same
    have ofFile : ∀ text, (∃ parts, readParts scheme text = .ok parts) ↔
        ∃ parts, readFileParts text = .ok parts := by
      intro text
      simp only [readParts, kind]
      cases readFileParts text <;> simp [Except.map]
    rw [ofFile, read_file_parts_iff] at read ⊢
    intro host announced
    rcases same with none | same
    · cases none.symm.trans announced
    · exact read host (same ▸ announced)
  · rw [kind] at same
    rw [read_other_parts_iff kind] at read ⊢
    intro authority announced
    rcases same with none | same
    · cases none.symm.trans announced
    · exact read authority (same ▸ announced)

theorem announced_after_slash {kind : Kind} {before slashes path : List Char}
    (solid : ∀ last ∈ before.getLast?, isSlash kind last = false)
    (apart : ∀ first ∈ path.head?, isSlash kind first = false)
    (all : ∀ char ∈ slashes, char = '/') :
    announced? kind (before ++ '/' :: path) = none ∨
      announced? kind (before ++ '/' :: path) = announced? kind (before ++ slashes) := by
  rcases before with _ | ⟨first, _ | ⟨second, before⟩⟩
  · left
    rcases path with _ | ⟨head, path⟩
    · rfl
    · simp [announced?, apart head rfl]
  · left
    simp [announced?, solid first rfl]
  · right
    have path : ('/' :: path).takeWhile (fun char => !isSlash kind char) = [] := rfl
    have ended : slashes.takeWhile (fun char => !isSlash kind char) = [] := by
      rcases slashes with _ | ⟨slash, slashes⟩
      · rfl
      · rw [all slash List.mem_cons_self]
        rfl
    simp only [List.cons_append, announced?, take_while_before_nothing path,
      take_while_before_nothing ended]

theorem body_append_of_mark {before : List Char} {mark : Char} (inside : mark ∈ before)
    (marks : (mark != '?' && mark != '#') = false) (more : List Char) :
    body (before ++ more) = body before :=
  take_while_before_stop inside marks more

theorem body_append_of_plain {before : List Char}
    (plain : ∀ char ∈ before, (char != '?' && char != '#') = true) (more : List Char) :
    body (before ++ more) = before ++ body more :=
  List.takeWhile_append_of_pos plain

theorem head_of_body {text : List Char} {first : Char} (begins : first ∈ (body text).head?) :
    first ∈ text.head? := by
  rcases text with _ | ⟨char, text⟩
  · cases begins
  · rw [body, List.takeWhile_cons] at begins
    split at begins
    · exact begins
    · cases begins

/-- A URL and a path that meet in neither a control, a space nor a backslash. -/
structure Meet (url path : List Char) : Prop where
  ends : ∀ last ∈ (withoutSlashes url).getLast?, isControlOrSpace last = false ∧ last ≠ '\\'
  begins : ∀ first ∈ path.head?, isTabOrLineEnd first = false ∧ first ≠ '/' ∧ first ≠ '\\'

theorem last_not_slash {text : List Char} {last : Char}
    (ends : last ∈ (withoutSlashes text).getLast?) : last ≠ '/' := by
  rw [withoutSlashes, List.getLast?_reverse] at ends
  have stops := List.head?_dropWhile_not (fun char => char == '/') text.reverse
  rw [Option.mem_def.mp ends] at stops
  simpa using stops

theorem kept_of_plain {char : Char} (plain : isControlOrSpace char = false) :
    isTabOrLineEnd char = false := by
  have ne : ∀ mark, isControlOrSpace mark = true → char ≠ mark :=
    fun mark control => (ne_of_control control char plain).symm
  simp [isTabOrLineEnd, ne '\t' rfl, ne '\n' rfl, ne '\r' rfl]

/-- The last character of a text stands at the end of what is kept of it. -/
theorem last_kept {text : List Char} {last : Char} (ends : last ∈ text.getLast?)
    (plain : isControlOrSpace last = false) :
    last ∈ (kept (text.dropWhile isControlOrSpace)).getLast? := by
  obtain ⟨more, rfl⟩ := List.getLast?_eq_some_iff.mp ends
  have stays : [last].dropWhile isControlOrSpace = [last] := by
    rw [List.dropWhile_cons, plain]
    rfl
  have dropped : (more ++ [last]).dropWhile isControlOrSpace =
      more.dropWhile isControlOrSpace ++ [last] := by
    rw [List.dropWhile_append, stays]
    split
    · rename_i none
      rw [List.isEmpty_iff.mp none]
      rfl
    · rfl
  rw [dropped, kept, List.filter_append]
  simp [kept_of_plain plain]

/-- Trimming at the end, and dropping tabs and line ends, leave a first character that is none. -/
theorem head_kept {text : List Char} {first : Char}
    (begins : first ∈ (kept (trimmedEnd text)).head?)
    (stays : ∀ head ∈ text.head?, isTabOrLineEnd head = false) : first ∈ text.head? := by
  have trimmed : trimmedEnd text <+: text := by
    have suffix := List.dropWhile_suffix (l := text.reverse) isControlOrSpace
    have whole := List.reverse_prefix.mpr suffix
    rwa [List.reverse_reverse] at whole
  rcases shape : trimmedEnd text with _ | ⟨head, rest⟩
  · rw [shape] at begins
    cases begins
  · rw [shape] at begins trimmed
    rcases text with _ | ⟨char, text⟩
    · cases List.prefix_nil.mp trimmed
    · have same := (List.cons_prefix_cons.mp trimmed).1
      subst same
      have keeps := stays head rfl
      rw [kept, List.filter_cons, keeps] at begins
      exact begins

theorem strays_of_meet {url path : List Char} (meet : Meet url path) : strays url = [] := by
  obtain ⟨slashes, parts, all⟩ := without_slashes_append url
  have ends : ∀ last ∈ url.getLast?, isControlOrSpace last = false := by
    intro last atEnd
    rw [← parts, List.getLast?_append] at atEnd
    rcases slashEnd : slashes.getLast? with _ | slash
    · rw [slashEnd, Option.none_or] at atEnd
      exact (meet.ends last atEnd).1
    · rw [slashEnd, Option.some_or] at atEnd
      cases atEnd
      rw [all last (List.mem_of_getLast? slashEnd)]
      rfl
  have stops : url.reverse.takeWhile isControlOrSpace = [] := by
    rcases backwards : url.reverse with _ | ⟨last, rest⟩
    · rfl
    · have atEnd : last ∈ url.getLast? := by
        rw [← List.head?_reverse, backwards]
        rfl
      rw [List.takeWhile_cons, ends last atEnd]
      rfl
  rw [strays, stops]
  rfl

theorem joined_of_meet {text joined : String} {url : Url} {path : List Char}
    (parsed : parse text = .ok url) (meet : Meet text.toList path)
    (parts : joined.toList = withoutSlashes text.toList ++ '/' :: path) :
    ∃ whole, parse joined = .ok whole := by
  have noStrays := strays_of_meet meet
  by_cases network : kindOf url.scheme = .network
  · rw [joined_network_iff parsed network parts]
    exact fun spoiled => spoiled.1 noStrays
  obtain ⟨rest, taken⟩ := scheme_of_parsed parsed
  obtain ⟨before, slashes, same, all, takenBefore, cleaned⟩ := joined_scheme taken path
  rw [noStrays, List.append_nil] at same
  have read := (parse_iff_of_scheme taken).mp ⟨url, parsed⟩
  have takenJoined := take_scheme_append takenBefore ('/' :: kept (trimmedEnd path))
  rw [← cleaned, ← parts] at takenJoined
  rw [parse_iff_of_scheme takenJoined]
  rw [← same] at read
  have solid : ∀ last ∈ before.getLast?, isSlash (kindOf url.scheme) last = false := by
    intro last atEnd
    obtain ⟨first, name, shape, _⟩ := take_scheme_eq_some_iff.mp takenBefore
    rcases ends : (withoutSlashes text.toList).getLast? with _ | final
    · rw [List.getLast?_eq_none_iff.mp ends] at shape
      cases shape
    obtain ⟨plain, notBackslash⟩ := meet.ends final ends
    have finalKept := last_kept ends plain
    have notSlash := last_not_slash ends
    rw [shape, List.getLast?_append_of_ne_nil _ (List.cons_ne_nil _ _), List.getLast?_cons,
      Option.mem_def.mp atEnd, Option.getD_some] at finalKept
    cases finalKept
    simp [isSlash, notSlash, notBackslash]
  have apart : ∀ first ∈ (body (kept (trimmedEnd path))).head?,
      isSlash (kindOf url.scheme) first = false := by
    intro first begins
    have atStart := head_kept (head_of_body begins) fun head atHead => (meet.begins head atHead).1
    obtain ⟨_, notSlash, notBackslash⟩ := meet.begins first atStart
    simp [isSlash, notSlash, notBackslash]
  by_cases plain : ∀ char ∈ before, (char != '?' && char != '#') = true
  · have slashBody : body slashes = slashes := by
      apply List.takeWhile_eq_self_iff.mpr
      intro char inside
      rw [all char inside]
      rfl
    rw [body_append_of_plain plain, slashBody] at read
    rw [body_append_of_plain plain]
    exact read_parts_of_announced network read (announced_after_slash solid apart all)
  · simp only [not_forall] at plain
    obtain ⟨mark, inside, marks⟩ := plain
    rw [body_append_of_mark inside (Bool.eq_false_iff.mpr marks)] at read ⊢
    exact read

end Url

/-! ### Destinations -/

theorem ServerSettings.submission_url_chars (server : ServerSettings) :
    server.submissionUrl.toList = Url.withoutSlashes server.url.toList ++
      '/' :: server.submissionPath.toList.dropWhile (· == '/') := by
  simp [ServerSettings.submissionUrl, Url.withoutSlashes]

theorem Settings.url_of_loaded {environment : Environment} {files : FileTree} {text : String}
    {settings : Settings} (loaded : Settings.load environment files text = .ok settings) :
    ∃ url, Url.parse settings.server.url = .ok url := by
  obtain ⟨_, _, _, _, checked⟩ := load_eq_ok_iff.mp loaded
  exact url_of_checked checked

namespace Upload.Server

variable {filled : Instance}

/-- Without a destination of the instance's own, the joined text alone decides. -/
theorem destination_cases (server : ServerSettings) (own : filled.submissionUri = none)
    (deviceId : Option String) :
    ((∃ url, Url.parse server.submissionUrl = .ok url) ∧
        ∃ target, destination server filled deviceId = .ok target) ∨
      (¬(∃ url, Url.parse server.submissionUrl = .ok url) ∧
        ∃ reason, destination server filled deviceId =
          .error (.invalidUrl (Redaction.url server.submissionUrl) reason)) := by
  rcases read : Url.parse server.submissionUrl with problem | url
  · refine .inr ⟨by rintro ⟨url, ⟨⟩⟩, problem.message, ?_⟩
    simp only [destination, own, Option.getD_none, read]
  · refine .inl ⟨⟨url, rfl⟩, ?_⟩
    simp only [destination, own, Option.getD_none, read]
    cases deviceId with
    | none => exact ⟨_, rfl⟩
    | some deviceId => exact ⟨_, rfl⟩

/-- A server's URL that was accepted leads to a destination whatever the path and the device's
identifier are, except where strays behind its host or port become a part of these. Where the
scheme is not of the network, text in the path may also become an authority, but not when URL and
path meet plainly. -/
theorem destination_of_accepted_url {environment : Environment} {files : FileTree} {text : String}
    {settings : Settings} (loaded : Settings.load environment files text = .ok settings)
    (own : filled.submissionUri = none) (deviceId : Option String) :
    ∃ url, Url.parse settings.server.url = .ok url ∧
      (Url.kindOf url.scheme = .network →
        ((∃ target, destination settings.server filled deviceId = .ok target) ↔
            ¬Url.Spoils settings.server.url.toList) ∧
          ((∃ reason, destination settings.server filled deviceId =
              .error (.invalidUrl (Redaction.url settings.server.submissionUrl) reason)) ↔
            Url.Spoils settings.server.url.toList)) ∧
      (Url.Meet settings.server.url.toList
          (settings.server.submissionPath.toList.dropWhile (· == '/')) →
        ∃ target, destination settings.server filled deviceId = .ok target) := by
  obtain ⟨url, parsed⟩ := Settings.url_of_loaded loaded
  have parts := settings.server.submission_url_chars
  refine ⟨url, parsed, ?_, ?_⟩
  · intro network
    have joined := Url.joined_network_iff parsed network parts
    rcases destination_cases settings.server own deviceId with
      ⟨readable, target, found⟩ | ⟨unreadable, reason, refused⟩
    · have whole := joined.mp readable
      simp [found, whole]
    · have spoils := not_not.mp fun whole => unreadable (joined.mpr whole)
      simp [refused, spoils]
  · intro meet
    have readable := Url.joined_of_meet parsed meet parts
    rcases destination_cases settings.server own deviceId with
      ⟨_, destined⟩ | ⟨unreadable, _⟩
    · exact destined
    · exact (unreadable readable).elim

/-! Settings that differ in where a space stands at the end of the URL. -/

def spacedText (url : String) : String := "\x7b\"server\":\x7b\"url\":\"" ++ url ++ "\"\x7d\x7d"

def spacedSettings (url : String) : Settings := { server := { url } }

def blankInstance : Instance where
  displayName := "F"
  formId := "f"
  formVersion := none
  status := .complete
  path := "/i/f/f.xml"
  submissionUri := none
  changed := .ofSeconds 0

theorem spaced_loaded (url : String)
    (read : (Settings.load ⟨none, []⟩ {} (spacedText url)).toOption = some (spacedSettings url)) :
    Settings.load ⟨none, []⟩ {} (spacedText url) = .ok (spacedSettings url) := by
  rcases loaded : Settings.load ⟨none, []⟩ {} (spacedText url) with problem | settings
  · rw [loaded] at read
    cases read
  · rw [loaded] at read
    exact congrArg Except.ok (Option.some.inj read)

/-- A space behind the host is dropped when the URL is read alone, and refused in front of a
path. -/
theorem accepted_url_without_destination :
    ¬∀ (environment : Environment) (files : FileTree) (text : String) (settings : Settings)
      (filled : Instance) (deviceId : Option String),
      Settings.load environment files text = .ok settings → filled.submissionUri = none →
        ∃ target, destination settings.server filled deviceId = .ok target := by
  intro always
  have loaded := spaced_loaded "https://odk.example.org " (by decide +kernel)
  have own : blankInstance.submissionUri = none := rfl
  obtain ⟨target, found⟩ := always _ _ _ _ blankInstance none loaded own
  have unreadable :
      (Url.parse (spacedSettings "https://odk.example.org ").server.submissionUrl).isOk = false := by
    decide +kernel
  rcases destination_cases (spacedSettings "https://odk.example.org ").server own none with
    ⟨⟨url, read⟩, _⟩ | ⟨_, reason, refused⟩
  · rw [read] at unreadable
    cases unreadable
  · cases found.symm.trans refused

/-- Behind a slash the space is in the path, where it does no harm. -/
theorem space_behind_slash_has_destination :
    Settings.load ⟨none, []⟩ {} (spacedText "https://odk.example.org/ ") =
        .ok (spacedSettings "https://odk.example.org/ ") ∧
      blankInstance.submissionUri = none ∧
      ∃ target, destination (spacedSettings "https://odk.example.org/ ").server blankInstance
        (some "id") = .ok target := by
  have loaded := spaced_loaded "https://odk.example.org/ " (by decide +kernel)
  have own : blankInstance.submissionUri = none := rfl
  obtain ⟨url, parsed, onNetwork, _⟩ := destination_of_accepted_url loaded own (some "id")
  have network : ((Url.parse (spacedSettings "https://odk.example.org/ ").server.url).toOption.map
      fun url => Url.kindOf url.scheme) = some .network := by decide +kernel
  rw [parsed] at network
  refine ⟨loaded, own, (onNetwork (Option.some.inj network)).1.mpr ?_⟩
  decide +kernel

end Upload.Server

end FieldPost
