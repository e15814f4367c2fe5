import FieldPost.Proofs.Rereading
import FieldPost.SheetLink

/-!
Links to spreadsheets, and the URL that rows are appended at. A link names the longest run of
identifier characters behind its beginning, and whatever follows the run is not seen again. The
URL made of such a run is read as one of the sheets service, with the run as one segment of its
path. Whether there is a sheet of that name is not said.
-/

namespace FieldPost

open FieldPost.Text FieldPost.Answers

namespace Url

/-- A segment of a path that is read as it is written. -/
structure Literal (segment : List Char) : Prop where
  unsplit : ∀ char ∈ segment, isSlash .network char = false
  kept : ∀ char ∈ segment, Percent.inPath char = false
  notHere : isHere segment = false
  notAbove : isAbove segment = false

theorem Literal.plain {segment : List Char} (literal : Literal segment) : Plain segment := by
  intro char inside
  cases plain : isPlain char with
  | true => rfl
  | false => exact absurd (literal.kept char inside) (by simp [in_path_of_not_plain plain])

theorem resolve_literal {segments : List (List Char)}
    (literal : ∀ segment ∈ segments, Literal segment) (path : List (List Char)) :
    resolve .network path segments = path ++ segments := by
  induction segments generalizing path with
  | nil => rw [resolve, List.append_nil]
  | cons segment rest induction =>
      have first := literal segment List.mem_cons_self
      have extended : extend .network path segment = path ++ [segment] := rfl
      cases rest with
      | nil => simp [resolve, first.notHere, first.notAbove, extended]
      | cons second rest =>
          have onward := induction
            (fun other member => literal other (List.mem_cons_of_mem segment member))
            (path ++ [segment])
          rw [resolve, first.notHere, first.notAbove, extended, onward]
          · simp
          · simp

theorem path_text_eq {segments : List (List Char)} (filled : segments ≠ []) :
    segments.flatMap ('/' :: ·) = '/' :: ['/'].intercalate segments := by
  induction segments with
  | nil => exact absurd rfl filled
  | cons segment rest induction =>
      cases rest with
      | nil => simp [List.intercalate]
      | cons second rest =>
          rw [List.flatMap_cons, induction (List.cons_ne_nil _ _)]
          simp [List.intercalate]

theorem encode_pieces_literal {segments : List (List Char)} (filled : segments ≠ [])
    (literal : ∀ segment ∈ segments, Literal segment) :
    encodePieces .network (['/'].intercalate segments) = segments := by
  have same : (['/'].intercalate segments).map
      (fun char => if isSlash .network char then '/' else char) = ['/'].intercalate segments := by
    refine (List.map_congr_left fun char inside => ?_).trans (List.map_id _)
    have among : char ∈ segments.flatMap ('/' :: ·) := by
      rw [path_text_eq filled]
      exact List.mem_cons_of_mem _ inside
    obtain ⟨segment, member, inner⟩ := List.mem_flatMap.mp among
    rcases List.mem_cons.mp inner with rfl | within
    · rfl
    · rw [(literal segment member).unsplit char within]
      rfl
  have unsplit : ∀ segment ∈ segments, '/' ∉ segment := fun segment member inside => by
    have apart := (literal segment member).unsplit '/' inside
    cases apart
  rw [encodePieces, pieces, same, splitOnChar_eq_splitOn,
    List.splitOn_intercalate '/' unsplit filled]
  exact (List.map_congr_left fun segment member =>
    encode_of_kept (literal segment member).kept).trans (List.map_id _)

/-- A path of such segments is read as these segments. -/
theorem read_path_literal {segments : List (List Char)} (filled : segments ≠ [])
    (literal : ∀ segment ∈ segments, Literal segment) :
    readPath .network (segments.flatMap ('/' :: ·)) = .segments segments := by
  have slash : isSlash .network '/' = true := rfl
  simp only [readPath, path_text_eq filled, slash, if_true, encode_pieces_literal filled literal,
    resolve_literal literal, List.nil_append]
  rfl

/-- A host and such a path behind two slashes are told apart by the first slash of the path. -/
theorem read_parts_literal {scheme host : List Char} {segments : List (List Char)}
    (network : kindOf scheme = .network) (named : host ≠ [])
    (unsplit : ∀ char ∈ host, isSlash .network char = false) (filled : segments ≠ [])
    (literal : ∀ segment ∈ segments, Literal segment) :
    readParts scheme ('/' :: '/' :: (host ++ segments.flatMap ('/' :: ·))) =
      (readAuthority .network scheme host).map fun authority =>
        (some authority, .segments segments) := by
  have begins : ('/' :: '/' :: (host ++ segments.flatMap ('/' :: ·))).dropWhile (isSlash .network) =
      host ++ segments.flatMap ('/' :: ·) := by
    have slash : isSlash .network '/' = true := rfl
    rw [List.dropWhile_cons, slash, if_pos rfl, List.dropWhile_cons, slash, if_pos rfl]
    refine drop_while_of_head fun char first => unsplit char ?_
    rw [List.head?_append_of_ne_nil _ named] at first
    exact List.mem_of_head? first
  have ends : (host ++ segments.flatMap ('/' :: ·)).takeWhile (fun char => !isSlash .network char) =
      host := by
    rw [List.takeWhile_append_of_pos (fun char inside => by simp [unsplit char inside]),
      path_text_eq filled, List.takeWhile_cons]
    simp [isSlash]
  simp only [readParts, network, begins, ends, List.drop_left, read_path_literal filled literal]
  cases readAuthority .network scheme host <;> rfl

end Url

namespace SheetLink

/-- Letters, digits, underscores and hyphens right behind the beginning of a link, and as many of
them as there are. -/
def Names (url id : String) : Prop :=
  ∃ rest, url.toList = "https://docs.google.com/spreadsheets/d/".toList ++ id.toList ++ rest ∧
    id ≠ "" ∧ (∀ char ∈ id.toList, char.isAlphanum = true ∨ char = '_' ∨ char = '-') ∧
    ∀ char ∈ rest.head?, ¬(char.isAlphanum = true ∨ char = '_' ∨ char = '-')

theorem is_id_char_iff (char : Char) :
    isIdChar char = true ↔ char.isAlphanum = true ∨ char = '_' ∨ char = '-' := by
  simp [isIdChar, or_assoc]

theorem take_while_eq_iff (inside : Char → Bool) (text run : List Char) :
    text.takeWhile inside = run ↔ ∃ rest, text = run ++ rest ∧ (∀ char ∈ run, inside char = true) ∧
      ∀ char ∈ rest.head?, inside char = false := by
  constructor
  · rintro rfl
    refine ⟨text.dropWhile inside, List.takeWhile_append_dropWhile.symm,
      fun char member => List.mem_takeWhile_imp member, ?_⟩
    intro char begins
    have stops := List.head?_dropWhile_not inside text
    rw [Option.mem_def.mp begins] at stops
    simpa using stops
  · rintro ⟨rest, rfl, all, stops⟩
    rw [List.takeWhile_append_of_pos all]
    cases rest with
    | nil => rw [List.takeWhile_nil, List.append_nil]
    | cons char rest => rw [List.takeWhile_cons, stops char rfl]; simp

/-- A link has the identifier that it names, if it names one. -/
theorem id_eq_some_iff (url id : String) : id? url = some id ↔ Names url id := by
  have run := fun rest => take_while_eq_iff isIdChar rest id.toList
  simp only [← Bool.not_eq_true, is_id_char_iff] at run
  unfold id?
  constructor
  · intro found
    split at found
    · cases found
    · rename_i rest behind
      dsimp only at found
      split at found
      · cases found
      · rename_i filled
        have taken : rest.takeWhile isIdChar = id.toList := by
          rw [← Option.some.inj found, String.toList_ofList]
        obtain ⟨more, parts, all, stops⟩ := (run rest).mp taken
        refine ⟨more, ?_, ?_, all, stops⟩
        · rw [eq_append_of_dropMark? behind, parts, List.append_assoc]
          rfl
        · rintro rfl
          rw [taken] at filled
          exact filled rfl
  · rintro ⟨rest, parts, filled, all, stops⟩
    have taken := (run (id.toList ++ rest)).mpr ⟨rest, rfl, all, stops⟩
    have listed : id.toList.isEmpty = false := by
      rw [List.isEmpty_eq_false_iff]
      exact fun same => filled (String.toList_inj.mp same)
    have behind := drop_mark_self base.toList (id.toList ++ rest)
    rw [parts, List.append_assoc]
    unfold base at behind ⊢
    simp only [behind, taken, listed, Bool.false_eq_true, if_false, String.ofList_toList]

/-! ### Where rows are appended -/

/-- The URL of the sheets service for an identifier. -/
def appended (id : String) : Url where
  scheme := "https".toList
  authority := some { host := .name "sheets.googleapis.com".toList }
  path := .segments
    ["v4".toList, "spreadsheets".toList, id.toList, "values".toList, "A1:append".toList]
  query := some "valueInputOption=USER_ENTERED".toList

/-- The URL as it is put together is this one as it is written. -/
theorem append_url_eq (id : String) : appendUrl id = (appended id).text := by
  have before : "https://sheets.googleapis.com/v4/spreadsheets/".toList =
      "https".toList ++ ':' :: '/' :: '/' :: "sheets.googleapis.com".toList ++
        '/' :: "v4".toList ++ '/' :: "spreadsheets".toList ++ ['/'] := by decide +kernel
  have after : "/values/A1:append?valueInputOption=USER_ENTERED".toList =
      '/' :: "values".toList ++ '/' :: "A1:append".toList ++
        '?' :: "valueInputOption=USER_ENTERED".toList := by decide +kernel
  have whole : (appended id).chars =
      "https".toList ++ ':' :: ('/' :: '/' :: "sheets.googleapis.com".toList) ++
        ('/' :: "v4".toList ++ ('/' :: "spreadsheets".toList ++ ('/' :: id.toList ++
          ('/' :: "values".toList ++ ('/' :: "A1:append".toList ++ []))))) ++
        '?' :: "valueInputOption=USER_ENTERED".toList ++ [] := rfl
  apply String.toList_inj.mp
  calc (appendUrl id).toList
    _ = "https://sheets.googleapis.com/v4/spreadsheets/".toList ++ id.toList ++
          "/values/A1:append?valueInputOption=USER_ENTERED".toList := by
      unfold appendUrl
      rw [String.toList_append, String.toList_append]
    _ = (appended id).chars := by
      rw [before, after, whole]
      simp only [List.append_assoc, List.cons_append, List.nil_append, List.append_nil]
    _ = (appended id).text.toList := String.toList_ofList.symm

theorem id_char_literal {char : Char} (inside : isIdChar char = true) :
    Url.isSlash .network char = false ∧ Percent.inPath char = false ∧
      char.toLower ≠ '.' ∧ char.toLower ≠ '%' := by
  have all : ∀ code < 0x80, isIdChar (Char.ofNat code) = true →
      Url.isSlash .network (Char.ofNat code) = false ∧ Percent.inPath (Char.ofNat code) = false ∧
        (Char.ofNat code).toLower ≠ '.' ∧
        (Char.ofNat code).toLower ≠ '%' := by decide +kernel
  have small : char.toNat < 0x80 := by
    rcases (is_id_char_iff char).mp inside with letter | rfl | rfl
    · exact Url.ascii_of_alphanum letter
    · decide
    · decide
  revert inside
  exact Url.of_ascii small all

theorem literal_of_id {id : String} (filled : id ≠ "")
    (all : ∀ char ∈ id.toList, isIdChar char = true) : Url.Literal id.toList := by
  have lowered : ∀ char ∈ id.toList.map Char.toLower, char ≠ '.' ∧ char ≠ '%' := by
    intro char inside
    obtain ⟨source, among, rfl⟩ := List.mem_map.mp inside
    exact (id_char_literal (all source among)).2.2
  have listed : id.toList ≠ [] := fun none => filled (String.toList_inj.mp none)
  have apart : ∀ spelling : List Char, spelling.head? = some '.' ∨ spelling.head? = some '%' →
      id.toList.map Char.toLower ≠ spelling := by
    rintro spelling begins rfl
    rcases begins with dot | percent
    · exact (lowered '.' (List.mem_of_head? dot)).1 rfl
    · exact (lowered '%' (List.mem_of_head? percent)).2 rfl
  constructor
  · exact fun char inside => (id_char_literal (all char inside)).1
  · exact fun char inside => (id_char_literal (all char inside)).2.1
  · simp [Url.isHere, apart]
  · simp [Url.isAbove, apart]

theorem appended_literal {id : String} (filled : id ≠ "")
    (all : ∀ char ∈ id.toList, isIdChar char = true) :
    ∀ segment ∈ ["v4".toList, "spreadsheets".toList, id.toList, "values".toList,
      "A1:append".toList], Url.Literal segment := by
  have fixed : ["v4".toList, "spreadsheets".toList, "values".toList, "A1:append".toList].all
      (fun segment => segment.all (fun char => !Url.isSlash .network char) &&
        segment.all (fun char => !Percent.inPath char) &&
        !Url.isHere segment && !Url.isAbove segment) = true := by decide +kernel
  intro segment member
  by_cases same : segment = id.toList
  · exact same ▸ literal_of_id filled all
  · have literal := List.all_eq_true.mp fixed segment (by
      simp only [List.mem_cons, same, false_or] at member ⊢
      exact member)
    simp only [Bool.and_eq_true, List.all_eq_true, Bool.not_eq_true'] at literal
    obtain ⟨⟨⟨unsplit, kept⟩, notHere⟩, notAbove⟩ := literal
    exact ⟨unsplit, kept, notHere, notAbove⟩

theorem appended_written {id : String} (filled : id ≠ "")
    (all : ∀ char ∈ id.toList, isIdChar char = true) : Url.Written (appended id) where
  scheme := ⟨'h', "ttps".toList, rfl, by decide +kernel⟩
  stays := by
    have authority : "//sheets.googleapis.com".toList.all Url.isPlain = true := by decide +kernel
    refine Url.Plain.stays (Url.Plain.append (List.all_eq_true.mp authority) ?_)
    exact Url.plain_flat_map fun segment member =>
      Url.Plain.cons rfl (appended_literal filled all segment member).plain
  query := by
    rintro query known
    cases known
    have kept : "valueInputOption=USER_ENTERED".toList.all
        (fun char => !Url.mustEncodeInQuery "https".toList char) = true := by decide +kernel
    intro char inside
    have apart := List.all_eq_true.mp kept char inside
    exact (Bool.not_eq_true' _).mp apart
  fragment := nofun
  ends := nofun

/-- The URL is read with its identifier as one segment of the path. -/
theorem parse_append_url {id : String} (filled : id ≠ "")
    (all : ∀ char ∈ id.toList, isIdChar char = true) :
    Url.parse (appendUrl id) = .ok (appended id) := by
  have host : Url.readAuthority .network "https".toList "sheets.googleapis.com".toList =
      .ok { host := .name "sheets.googleapis.com".toList } := by decide +kernel
  have parts : Url.readParts (appended id).scheme
      ((appended id).authorityText ++ (appended id).path.text) =
        .ok ((appended id).authority, (appended id).path) := by
    have network : Url.kindOf "https".toList = .network := by decide +kernel
    have named : "sheets.googleapis.com".toList ≠ [] := by decide +kernel
    have plain : "sheets.googleapis.com".toList.all (fun char => !Url.isSlash .network char) =
        true := by decide +kernel
    have unsplit : ∀ char ∈ "sheets.googleapis.com".toList, Url.isSlash .network char = false := by
      simpa only [List.all_eq_true, Bool.not_eq_true'] using plain
    have read := Url.read_parts_literal network named unsplit (List.cons_ne_nil _ _)
      (appended_literal filled all)
    rw [host] at read
    exact read
  rw [append_url_eq, (appended_written filled all).parse, parts]
  rfl

theorem Names.parse_append_url {url id : String} (names : Names url id) :
    Url.parse (appendUrl id) = .ok (appended id) := by
  obtain ⟨_, _, filled, all, _⟩ := names
  exact SheetLink.parse_append_url filled fun char inside =>
    (is_id_char_iff char).mpr (all char inside)

end SheetLink

end FieldPost
