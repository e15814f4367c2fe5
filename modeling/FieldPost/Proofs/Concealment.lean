import FieldPost.Proofs.Joining
import FieldPost.Proofs.Spelling
import FieldPost.Submission
import FieldPost.Upload.Spreadsheet

/-!
How much of the user in a URL is hidden before the URL is named to someone. What stands before the
first at sign goes, if that sign stands before the first slash; so a user without an at sign is
hidden whole, and of one with such a sign everything behind it is shown. Destinations that cannot
be read, or that are no spreadsheet, are named from the text that they were given as; those that
were made for the server have no at sign in their user.

What a far side or a connection says of a URL is not looked at.
-/

namespace FieldPost

open FieldPost.Text FieldPost.Answers

namespace Redaction

def endsAuthority (char : Char) : Bool := char == '/' || char == '?' || char == '#'

/-- The parts of a URL text with a user in it. -/
structure UserUrl where
  scheme : List Char
  user : List Char
  host : List Char
  tail : List Char
  scheme_plain : ¬"://".toList <:+: scheme
  user_plain : user.all (!endsAuthority ·) = true
  host_plain : host.all (fun char => char != '@' && !endsAuthority char) = true
  tail_begins : tail.head?.all endsAuthority = true

def joined (scheme rest : List Char) : String := String.ofList (scheme ++ "://".toList ++ rest)

def starred (scheme rest : List Char) : String :=
  String.ofList (scheme ++ "://****@".toList ++ rest)

namespace UserUrl

def text (known : UserUrl) : String :=
  joined known.scheme (known.user ++ '@' :: (known.host ++ known.tail))

/-- The text without anything of the user. -/
def hidden (known : UserUrl) : String := starred known.scheme (known.host ++ known.tail)

end UserUrl

/-! ### Cutting -/

/-- The end of a scheme and the mark behind it hold no other mark. -/
theorem mark_not_earlier {part : List Char} (filled : part ≠ []) (plain : ¬"://".toList <:+: part) :
    ¬"://".toList <+: part ++ "://".toList := by
  intro here
  rcases part with _ | ⟨first, _ | ⟨second, _ | ⟨third, part⟩⟩⟩
  · exact filled rfl
  · simp at here
  · simp at here
  · apply plain
    have within : "://".toList <+: first :: second :: third :: part := by
      apply List.prefix_of_prefix_length_le here
      · exact List.prefix_append _ _
      · simp
    exact within.isInfix

theorem cut_scheme {scheme : List Char} (plain : ¬"://".toList <:+: scheme) (rest : List Char) :
    cutAt "://".toList (scheme ++ "://".toList ++ rest) = some (scheme, rest) := by
  apply cut_at_first
  · exact List.cons_ne_nil _ _
  · intro part filled within
    apply mark_not_earlier filled
    intro earlier
    exact plain (earlier.trans within.isInfix)

theorem hide_user_without_scheme {text : List Char} (plain : ¬"://".toList <:+: text) :
    hideUser text = text := by
  rw [hideUser]
  rcases found : cutAt "://".toList text with _ | ⟨scheme, rest⟩
  · rfl
  · have parts := eq_append_of_cutAt found
    exact (plain ⟨scheme, rest, parts.symm⟩).elim

section

variable {scheme : List Char} (plain : ¬"://".toList <:+: scheme)

include plain

theorem hide_user_without_at {rest : List Char} (noAt : '@' ∉ rest.takeWhile (· != '/')) :
    hideUser (scheme ++ "://".toList ++ rest) = scheme ++ "://".toList ++ rest := by
  simp only [hideUser, cut_scheme plain, cut_at_char_of_not_mem noAt]

theorem hide_user_before_at {before : List Char} (noAt : '@' ∉ before) (noSlash : '/' ∉ before)
    (after : List Char) :
    hideUser (scheme ++ "://".toList ++ (before ++ '@' :: after)) =
      scheme ++ "://****@".toList ++ after := by
  have within : ∀ char ∈ before, (char != '/') = true := by
    intro char inside
    simpa using ne_of_mem_of_not_mem inside noSlash
  have front : (before ++ '@' :: after).takeWhile (· != '/') =
      before ++ '@' :: after.takeWhile (· != '/') := by
    rw [List.takeWhile_append_of_pos within]
    rfl
  have behind : (before ++ '@' :: after).drop (before.length + 1) = after := by
    simp
  simp only [hideUser, cut_scheme plain, front, cut_at_char_append noAt, behind]

end

/-- The first at sign before the first slash, if there is one. -/
theorem at_before_slash {rest : List Char} (known : '@' ∈ rest.takeWhile (· != '/')) :
    ∃ before after, rest = before ++ '@' :: after ∧ '@' ∉ before ∧ '/' ∉ before := by
  rcases List.eq_append_cons_of_mem known with ⟨before, between, parts, noAt⟩
  refine ⟨before, between ++ rest.dropWhile (· != '/'), ?_, noAt, ?_⟩
  · have whole := List.takeWhile_append_dropWhile (p := (· != '/')) (l := rest)
    rw [parts, List.append_assoc, List.cons_append] at whole
    exact whole.symm
  · intro slash
    have inside : '/' ∈ rest.takeWhile (· != '/') := by
      rw [parts]
      exact List.mem_append_left _ slash
    cases List.mem_takeWhile_imp inside

theorem not_mem_of_ends {text : List Char} (plain : text.all (!endsAuthority ·) = true)
    {mark : Char} (ends : endsAuthority mark = true) : mark ∉ text := by
  intro inside
  have kept := List.all_eq_true.mp plain mark inside
  rw [ends] at kept
  cases kept

/-! ### URLs with a user -/

theorem joined_to_list (scheme rest : List Char) :
    (joined scheme rest).toList = scheme ++ "://".toList ++ rest :=
  String.toList_ofList

theorem starred_inj {scheme rest other : List Char} (same : starred scheme rest = starred scheme other) :
    rest = other := by
  have chars := String.ofList_injective same
  exact List.append_cancel_left chars

namespace UserUrl

variable (known : UserUrl)

/-- What stands behind the first at sign of a user is shown. -/
theorem url_of_at {before behind : List Char} (parts : known.user = before ++ '@' :: behind)
    (noAt : '@' ∉ before) :
    url known.text = starred known.scheme (behind ++ '@' :: (known.host ++ known.tail)) := by
  have noSlash : '/' ∉ before := by
    intro slash
    have inside : '/' ∈ known.user := by
      rw [parts]
      exact List.mem_append_left _ slash
    exact not_mem_of_ends known.user_plain rfl inside
  have hides := hide_user_before_at known.scheme_plain noAt noSlash
    (behind ++ '@' :: (known.host ++ known.tail))
  rw [url, text, joined_to_list, parts, starred, ← hides, List.append_assoc before]
  rfl

theorem url_of_plain (noAt : '@' ∉ known.user) : url known.text = known.hidden := by
  have hides := hide_user_before_at known.scheme_plain noAt
    (not_mem_of_ends known.user_plain rfl) (known.host ++ known.tail)
  rw [url, text, joined_to_list, hidden, starred, ← hides]

theorem url_eq_hidden_iff : url known.text = known.hidden ↔ '@' ∉ known.user := by
  constructor
  · intro same atSign
    rcases List.eq_append_cons_of_mem atSign with ⟨before, behind, parts, noAt⟩
    rw [known.url_of_at parts noAt, hidden] at same
    have lengths := congrArg List.length (starred_inj same)
    simp only [List.length_append, List.length_cons] at lengths
    omega
  · exact known.url_of_plain

/-- A link to a spreadsheet has no user. -/
theorem not_sheet : SheetLink.isSheet known.text = false := by
  rcases linked : SheetLink.id? known.text with _ | id
  · rw [SheetLink.isSheet, linked]
    rfl
  rw [SheetLink.id?, text, joined_to_list] at linked
  split at linked
  · cases linked
  · rename_i more found
    have base : SheetLink.base.toList =
        "https".toList ++ "://".toList ++ ("docs.google.com".toList ++ "/spreadsheets/d/".toList) := by
      decide
    have cut := cut_scheme known.scheme_plain (known.user ++ '@' :: (known.host ++ known.tail))
    rw [eq_append_of_dropMark? found, base, List.append_assoc, cut_scheme (by decide)] at cut
    have rests := (Prod.mk.inj (Option.some.inj cut)).2
    rw [List.append_assoc, List.append_eq_append_iff] at rests
    rcases rests with ⟨between, user, behind⟩ | ⟨between, site, behind⟩
    · rcases between with _ | ⟨first, between⟩
      · cases behind
      · have slash : first = '/' := (List.cons.inj behind).1.symm
        have inside : '/' ∈ known.user := by
          rw [user, slash]
          simp
        exact (not_mem_of_ends known.user_plain rfl inside).elim
    · rcases between with _ | ⟨first, between⟩
      · cases behind
      · have atSign : first = '@' := (List.cons.inj behind).1.symm
        have inside : '@' ∈ "docs.google.com".toList := by
          rw [site, atSign]
          simp
        have noAt : '@' ∉ "docs.google.com".toList := by decide
        exact (noAt inside).elim

end UserUrl

/-! ### URLs that were read -/

/-- A mark that has to be encoded, and is none that encoding writes, is not in the result. -/
theorem not_mem_encode {mustEncode : Char → Bool} {mark : Char} (must : mustEncode mark = true)
    (noPercent : mark ≠ '%') (noDigit : ∀ value < 16, mark ≠ Percent.upperDigit value)
    (text : List Char) : mark ∉ Percent.encode mustEncode text := by
  intro inside
  rcases List.mem_flatMap.mp inside with ⟨char, _, written⟩
  rw [Percent.encodeChar] at written
  split at written
  · rcases List.mem_flatMap.mp written with ⟨byte, _, digits⟩
    have bound := byte.toNat_lt
    simp only [Percent.encodeByte, List.mem_cons, List.not_mem_nil, or_false] at digits
    rcases digits with percent | high | low
    · exact noPercent percent
    · exact noDigit _ (by omega) high
    · exact noDigit _ (by omega) low
  · rename_i kept
    rw [List.mem_singleton.mp written] at must
    exact kept must

/-- Neither name nor password of an authority has a mark that could end them. -/
def UserEncoded (authority : Authority) : Prop :=
  ∀ mark ∈ ['@', '/'], mark ∉ authority.username ∧ mark ∉ authority.password

theorem user_encoded_of_empty (host : Host) : UserEncoded ⟨[], [], host, none⟩ :=
  fun _ _ => ⟨List.not_mem_nil, List.not_mem_nil⟩

theorem user_encoded (username password : List Char) (host : Host) (port : Option Nat) :
    UserEncoded
      ⟨Percent.encode Percent.inUserinfo username, Percent.encode Percent.inUserinfo password,
        host, port⟩ := by
  intro mark known
  have encoded : ∀ text, mark ∉ Percent.encode Percent.inUserinfo text := by
    rcases List.mem_pair.mp known with rfl | rfl
    · exact not_mem_encode (by decide) (by decide) (by decide)
    · exact not_mem_encode (by decide) (by decide) (by decide)
  exact ⟨encoded username, encoded password⟩

theorem user_encoded_of_read {kind : Url.Kind} {scheme text : List Char} {authority : Authority}
    (read : Url.readAuthority kind scheme text = .ok authority) : UserEncoded authority := by
  obtain ⟨username, password, host, port, _, _, rfl⟩ := Url.read_authority_shape read
  exact user_encoded username password host port

theorem user_encoded_of_file {text : List Char} {parts : Authority × UrlPath}
    (read : Url.readFileParts text = .ok parts) : UserEncoded parts.1 := by
  simp only [Url.readFileParts.eq_def] at read
  split at read
  · split at read
    · split at read
      · cases read
        exact user_encoded_of_empty _
      · rcases (bind_eq_ok_iff _ _ _).mp read with ⟨host, _, same⟩
        cases same
        exact user_encoded_of_empty _
    · cases read
      exact user_encoded_of_empty _
  · cases read
    exact user_encoded_of_empty _

theorem user_encoded_of_parts {scheme text : List Char} {authority : Authority} {path : UrlPath}
    (read : Url.readParts scheme text = .ok (some authority, path)) : UserEncoded authority := by
  simp only [Url.readParts.eq_def] at read
  split at read
  · rcases (bind_eq_ok_iff _ _ _).mp read with ⟨found, readable, same⟩
    cases same
    exact user_encoded_of_read readable
  · rcases (map_eq_ok_iff _ _ _).mp read with ⟨parts, readable, same⟩
    cases same
    exact user_encoded_of_file readable
  · split at read
    · rcases (bind_eq_ok_iff _ _ _).mp read with ⟨found, readable, same⟩
      cases same
      exact user_encoded_of_read readable
    · cases read
    · cases read

theorem slash_of_lower {char : Char} (lower : char.toLower = '/') : char = '/' := by
  by_cases upper : char.val ≥ 'A'.val ∧ char.val ≤ 'Z'.val
  · have lowered : char.toLower.toNat = (char.val + ('a'.val - 'A'.val)).toNat :=
      congrArg Char.toNat (dif_pos upper)
    have slash : char.toLower.toNat = 47 := congrArg Char.toNat lower
    have above : 65 ≤ char.val.toNat := upper.1
    have below : char.val.toNat ≤ 90 := upper.2
    have distance : ('a'.val - 'A'.val).toNat = 32 := by decide
    rw [slash, UInt32.toNat_add, distance] at lowered
    omega
  · have kept : char.toLower = char := dif_neg upper
    rwa [kept] at lower

theorem slash_not_in_scheme {text scheme rest : List Char}
    (taken : Url.takeScheme text = some (scheme, rest)) : '/' ∉ scheme := by
  rcases Url.take_scheme_eq_some_iff.mp taken with ⟨first, name, _, letter, named, rfl⟩
  intro slash
  rcases List.mem_map.mp slash with ⟨char, inside, lower⟩
  have allowed := Url.scheme_chars letter named char inside
  rw [slash_of_lower lower] at allowed
  cases allowed

/-- What is known of a URL that was read, and stays so with more pairs in its query. -/
structure Encoded (written : Url) : Prop where
  scheme : '/' ∉ written.scheme
  user : ∀ authority, written.authority = some authority → UserEncoded authority

theorem encoded_of_parsed {text : String} {written : Url} (parsed : Url.parse text = .ok written) :
    Encoded written := by
  simp only [Url.parse] at parsed
  split at parsed
  · cases parsed
  · rename_i scheme rest taken
    rcases (bind_eq_ok_iff _ _ _).mp parsed with ⟨⟨found, path⟩, read, same⟩
    cases same
    constructor
    · exact slash_not_in_scheme taken
    · rintro authority rfl
      exact user_encoded_of_parts read

/-- The user of an authority as it is written, without the at sign behind it. -/
def userinfo (authority : Authority) : List Char :=
  authority.username ++ (if authority.password.isEmpty then [] else ':' :: authority.password)

theorem user_text_eq {authority : Authority} (user : authority.userText ≠ []) :
    authority.userText = userinfo authority ++ ['@'] := by
  rw [Authority.userText] at user ⊢
  split at user
  · exact (user rfl).elim
  · rename_i filled
    rw [if_neg filled, userinfo]

theorem not_mem_userinfo {authority : Authority} (encoded : UserEncoded authority) {mark : Char}
    (known : mark ∈ ['@', '/']) : mark ∉ userinfo authority := by
  have missing := encoded mark known
  have noColon : mark ≠ ':' := by
    rintro rfl
    revert known
    decide
  rw [userinfo]
  split <;> simp [missing, noColon]

theorem url_of_encoded {written : Url} (encoded : Encoded written) {authority : Authority}
    (has : written.authority = some authority) (user : authority.userText ≠ []) :
    url written.text =
      starred written.scheme (authority.host.text ++ authority.portText ++ written.path.text ++
        written.queryText ++ written.fragmentText) := by
  have plain : ¬"://".toList <:+: written.scheme := by
    intro marked
    exact encoded.scheme (marked.subset (by decide))
  have userEncoded := encoded.user authority has
  have hides := hide_user_before_at plain (not_mem_userinfo userEncoded (by decide))
    (not_mem_userinfo userEncoded (by decide))
    (authority.host.text ++ authority.portText ++ written.path.text ++ written.queryText ++
      written.fragmentText)
  rw [url, Url.text, String.toList_ofList, starred, ← hides, Url.chars, Url.authorityText, has]
  simp [Authority.text, user_text_eq user]

/-! ### What is named -/

/-- Without a user, a URL is shown as it is unless an at sign stands between the end of its
authority and its first slash. -/
theorem url_eq_self_iff {scheme rest : List Char} (plain : ¬"://".toList <:+: scheme)
    (nobody : '@' ∉ rest.takeWhile (!endsAuthority ·)) :
    url (joined scheme rest) = joined scheme rest ↔ '@' ∉ rest.takeWhile (· != '/') := by
  constructor
  · intro same atSign
    rcases at_before_slash atSign with ⟨before, after, rfl, noAt, noSlash⟩
    rw [url, joined_to_list, hide_user_before_at plain noAt noSlash] at same
    have chars := String.ofList_injective same
    have stars : "://****@".toList = "://".toList ++ "****".toList ++ ['@'] := by decide
    simp only [stars, List.append_assoc, List.singleton_append] at chars
    have rests := List.append_cancel_left (List.append_cancel_left chars)
    have hidden : "****".toList = before := List.append_cancel_right rests
    apply nobody
    rw [← hidden]
    simp [endsAuthority]
  · intro noAt
    rw [url, joined_to_list, hide_user_without_at plain noAt, joined]

theorem destination_error_cases {server : ServerSettings} {filled : Instance}
    {deviceId : Option String} {error : UploadError}
    (failed : Upload.Server.destination server filled deviceId = .error error) :
    ∃ problem : Url.Problem, error =
      .invalidUrl (url (filled.submissionUri.getD server.submissionUrl)) problem.message := by
  simp only [Upload.Server.destination] at failed
  split at failed
  · rename_i problem _
    cases failed
    exact ⟨problem, rfl⟩
  · split at failed <;> cases failed

theorem destination_ok_cases {server : ServerSettings} {filled : Instance}
    {deviceId : Option String} {text : String}
    (found : Upload.Server.destination server filled deviceId = .ok text) :
    ∃ written, text = written.text ∧ Encoded written := by
  simp only [Upload.Server.destination] at found
  split at found
  · cases found
  · rename_i parsed read
    have encoded := encoded_of_parsed read
    split at found
    · cases found
      exact ⟨parsed, rfl, encoded⟩
    · cases found
      exact ⟨_, rfl, encoded.scheme, encoded.user⟩

theorem submit_user_url {known : UserUrl} {filled : Instance}
    (own : filled.submissionUri = some known.text) (server : Uploader Http.Peer)
    (configured : Option String) (accounts : Accounts) (world : World Http.Peer) :
    Submission.submit ⟨server, Upload.Spreadsheet.uploader configured accounts⟩ .spreadsheet world
        filled =
      (.error (.notASpreadsheet filled.id (url known.text)), world) := by
  have destination : (Upload.Spreadsheet.uploader configured accounts).destination filled none =
      .ok known.text := by
    simp only [Upload.Spreadsheet.uploader, Upload.Spreadsheet.destination, own]
  simp [Submission.submit, Route.uploader, Route.deviceId, Route.protocol, destination,
    known.not_sheet]

/-- The user of a URL is hidden exactly if it has no at sign, and else what stands behind the
first one is shown. -/
theorem user_hidden_before_first_at (known : UserUrl) :
    (url known.text = known.hidden ↔ '@' ∉ known.user) ∧
      (∀ before behind, known.user = before ++ '@' :: behind → '@' ∉ before →
        url known.text = starred known.scheme (behind ++ '@' :: (known.host ++ known.tail))) ∧
      (∀ filled : Instance, '@' ∉ known.user → filled.submissionUri = some known.text →
        (∀ server deviceId error,
          Upload.Server.destination server filled deviceId = .error error →
            ∃ problem : Url.Problem, error = .invalidUrl known.hidden problem.message) ∧
          ∀ server configured accounts world,
            Submission.submit ⟨server, Upload.Spreadsheet.uploader configured accounts⟩
                .spreadsheet world filled =
              (.error (.notASpreadsheet filled.id known.hidden), world)) ∧
      (∀ server filled deviceId text,
        Upload.Server.destination server filled deviceId = .ok text →
          ∃ written : Url, text = written.text ∧
            ∀ authority, written.authority = some authority → authority.userText ≠ [] →
              url text = starred written.scheme (authority.host.text ++ authority.portText ++
                written.path.text ++ written.queryText ++ written.fragmentText)) ∧
      (∀ scheme rest, ¬"://".toList <:+: scheme → '@' ∉ rest.takeWhile (!endsAuthority ·) →
        (url (joined scheme rest) = joined scheme rest ↔ '@' ∉ rest.takeWhile (· != '/'))) ∧
      ∀ text : String, ¬"://".toList <:+: text.toList → url text = text := by
  refine ⟨known.url_eq_hidden_iff, ?_, ?_, ?_, ?_, ?_⟩
  · intro before behind parts noAt
    exact known.url_of_at parts noAt
  · intro filled noAt own
    have hides := known.url_of_plain noAt
    constructor
    · intro server deviceId error failed
      rcases destination_error_cases failed with ⟨problem, rfl⟩
      rw [own, Option.getD_some, hides]
      exact ⟨problem, rfl⟩
    · intro server configured accounts world
      rw [submit_user_url own, hides]
  · intro server filled deviceId text found
    rcases destination_ok_cases found with ⟨written, rfl, encoded⟩
    refine ⟨written, rfl, ?_⟩
    intro authority has user
    exact url_of_encoded encoded has user
  · intro scheme rest plain nobody
    exact url_eq_self_iff plain nobody
  · intro text plain
    rw [url, hide_user_without_scheme plain, String.ofList_toList]

def ofPassword (password : List Char) (plain : password.all (!endsAuthority ·) = true) :
    UserUrl where
  scheme := "https".toList
  user := "user:".toList ++ password
  host := "odk.example.org".toList
  tail := "/submission".toList
  scheme_plain := by decide +kernel
  user_plain := by
    rw [List.all_append, plain, Bool.and_true]
    decide +kernel
  host_plain := by decide +kernel
  tail_begins := by decide +kernel

def wordPassword : UserUrl := ofPassword "pass".toList (by decide +kernel)

def signPassword : UserUrl := ofPassword "p@ss".toList (by decide +kernel)

theorem password_behind_at_shown :
    url signPassword.text = "https://****@ss@odk.example.org/submission" ∧
      (¬∀ known : UserUrl, url known.text = known.hidden) ∧
      ¬∀ scheme rest, ¬"://".toList <:+: scheme → '@' ∉ rest.takeWhile (!endsAuthority ·) →
        url (joined scheme rest) = joined scheme rest := by
  have shown : url signPassword.text = "https://****@ss@odk.example.org/submission" := by
    decide +kernel
  have apart : "https://****@ss@odk.example.org/submission" ≠ signPassword.hidden := by
    decide +kernel
  have changed : url (joined "https".toList "odk.example.org#a@b".toList) ≠
      joined "https".toList "odk.example.org#a@b".toList := by
    decide +kernel
  refine ⟨shown, ?_, ?_⟩
  · intro hides
    exact apart (shown.symm.trans (hides signPassword))
  · intro keeps
    exact changed (keeps _ _ (by decide +kernel) (by decide +kernel))

theorem password_before_at_hidden :
    (∀ server configured accounts world,
      Submission.submit ⟨server, Upload.Spreadsheet.uploader configured accounts⟩ .spreadsheet world
          { Upload.Server.blankInstance with submissionUri := some wordPassword.text } =
        (.error (.notASpreadsheet 0 wordPassword.hidden), world)) ∧
      wordPassword.hidden = "https://****@odk.example.org/submission" ∧
      url signPassword.text =
        starred "https".toList "ss@odk.example.org/submission".toList := by
  have noAt : '@' ∉ wordPassword.user := by decide +kernel
  have parts : signPassword.user = "user:p".toList ++ '@' :: "ss".toList := by decide +kernel
  rcases user_hidden_before_first_at wordPassword with ⟨-, -, named, -⟩
  rcases user_hidden_before_first_at signPassword with ⟨-, shown, -⟩
  refine ⟨(named _ noAt rfl).2, by decide +kernel, ?_⟩
  have shownBehind := shown "user:p".toList "ss".toList parts (by decide +kernel)
  have written : "ss".toList ++ '@' :: (signPassword.host ++ signPassword.tail) =
      "ss@odk.example.org/submission".toList := by
    decide +kernel
  rwa [written] at shownBehind

end Redaction

end FieldPost
