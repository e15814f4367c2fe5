import FieldPost.Json.Printer
import FieldPost.Json.Reader
import Mathlib.Data.List.Basic

/-!
JSON values that were written are read back, their entries in the order in which an object keeps
them. Numbers are left out: of these the reader may keep less than was written.
-/

namespace FieldPost

/-! ### Strings -/

namespace JsonText

open FieldPost.Text FieldPost.Codec

theorem digit_of_hex {value : Nat} (small : value < 16) :
    Numeral.digit? 16 (Hex.digit value) = some value := by
  have all : ∀ value < 16, Numeral.digit? 16 (Hex.digit value) = some value := by decide
  exact all value small

/-- The escape of a control character. -/
theorem read_unit_of_control {code : Nat} (control : code < 0x20) (rest : List Char) :
    readUnit ('0' :: '0' :: Hex.digit (code / 16) :: Hex.digit (code % 16) :: rest) =
      .ok (code, rest) := by
  have enough := Utf8.length_le_encodeChars ['0', '0', Hex.digit (code / 16), Hex.digit (code % 16)]
  have high : Numeral.digit? 16 (Hex.digit (code / 16)) = some (code / 16) :=
    digit_of_hex (by omega)
  have low : Numeral.digit? 16 (Hex.digit (code % 16)) = some (code % 16) :=
    digit_of_hex (by omega)
  have zero : Numeral.digit? 16 '0' = some 0 := rfl
  have whole : ((0 * 16 + 0) * 16 + code / 16) * 16 + code % 16 = code := by omega
  rw [readUnit, if_neg (by simpa using enough)]
  simp only [zero, high, low, whole]

/-- A character stands for itself, or is written as an escape that is resolved to it. -/
theorem escape_cases (char : Char) :
    (escape char = [char] ∧ char ≠ '"' ∧ char ≠ '\\' ∧ ¬char.toNat < 0x20) ∨
      ∃ text, escape char = '\\' :: text ∧ ∀ rest, readEscape (text ++ rest) = .ok (char, rest) := by
  have coded : ∀ {code : Nat}, char.toNat = code → char = Char.ofNat code :=
    fun same => same ▸ (Char.ofNat_toNat char).symm
  unfold escape
  split
  · rename_i same
    exact .inr ⟨['"'], rfl, fun rest => by rw [same]; rfl⟩
  split
  · rename_i same
    exact .inr ⟨['\\'], rfl, fun rest => by rw [same]; rfl⟩
  split
  · rename_i same
    exact .inr ⟨['n'], rfl, fun rest => by rw [same]; rfl⟩
  split
  · rename_i same
    exact .inr ⟨['r'], rfl, fun rest => by rw [same]; rfl⟩
  split
  · rename_i same
    exact .inr ⟨['t'], rfl, fun rest => by rw [same]; rfl⟩
  split
  · rename_i same
    exact .inr ⟨['b'], rfl, fun rest => by rw [coded same]; rfl⟩
  split
  · rename_i same
    exact .inr ⟨['f'], rfl, fun rest => by rw [coded same]; rfl⟩
  split
  · rename_i control
    refine .inr ⟨_, rfl, fun rest => ?_⟩
    have low : ¬(0xDC00 ≤ char.toNat ∧ char.toNat ≤ 0xDFFF) := by omega
    have high : ¬(0xD800 ≤ char.toNat ∧ char.toNat ≤ 0xDBFF) := by omega
    simp only [List.cons_append, List.nil_append, readEscape, read_unit_of_control control, bind,
      Except.bind, if_neg low, if_neg high, Char.ofNat_toNat]
  · rename_i noQuote noBackslash _ _ _ _ _ plain
    exact .inl ⟨rfl, noQuote, noBackslash, plain⟩

theorem read_escaped (char : Char) (fuel : Nat) (rest : List Char) :
    readChars (fuel + 1) (escape char ++ rest) =
      (readChars fuel rest).map fun taken => (char :: taken.1, taken.2) := by
  rcases escape_cases char with ⟨escaped, noQuote, noBackslash, plain⟩ | ⟨text, escaped, resolved⟩
  · simp only [escaped, List.cons_append, List.nil_append, readChars, if_neg noQuote,
      if_neg noBackslash, if_neg plain, bind, Except.bind]
    cases readChars fuel rest <;> rfl
  · have noQuote : '\\' ≠ '"' := by decide
    simp only [escaped, List.cons_append, readChars, if_neg noQuote, if_true, resolved, bind,
      Except.bind]
    cases readChars fuel rest <;> rfl

theorem read_chars_escaped (chars rest : List Char) {fuel : Nat} (enough : chars.length < fuel) :
    readChars fuel (chars.flatMap escape ++ '"' :: rest) = .ok (chars, rest) := by
  induction chars generalizing fuel with
  | nil =>
      obtain ⟨fuel, rfl⟩ := Nat.exists_eq_succ_of_ne_zero (Nat.ne_zero_of_lt enough)
      rfl
  | cons char chars induction =>
      obtain ⟨fuel, rfl⟩ := Nat.exists_eq_succ_of_ne_zero (Nat.ne_zero_of_lt enough)
      rw [List.flatMap_cons, List.append_assoc, read_escaped,
        induction (Nat.lt_of_succ_lt_succ enough)]
      rfl

theorem length_le_escaped (chars : List Char) :
    chars.length ≤ (chars.flatMap escape).length := by
  induction chars with
  | nil => exact Nat.le_refl _
  | cons char chars induction =>
      have filled : 1 ≤ (escape char).length := by
        rcases escape_cases char with ⟨escaped, _⟩ | ⟨text, escaped, _⟩ <;> simp [escaped]
      simp only [List.flatMap_cons, List.length_append, List.length_cons]
      omega

/-- A string is read up to the quote behind it. -/
theorem read_written (value : String) (rest : List Char) :
    read (value.toList.flatMap escape ++ '"' :: rest) = .ok (value, rest) := by
  have shorter := length_le_escaped value.toList
  rw [read, read_chars_escaped value.toList rest]
  · rw [Except.map, String.ofList_toList]
  · simp only [List.length_append, List.length_cons]
    omega

end JsonText

/-! ### Values -/

namespace Json

/-- A value without numbers in which no more than so many containers are in one another. -/
inductive Nests : (depth : Nat) → Json → Prop
  | null {depth : Nat} : Nests depth .null
  | bool {depth : Nat} (value : Bool) : Nests depth (.bool value)
  | string {depth : Nat} (value : String) : Nests depth (.string value)
  | array {depth : Nat} {items : List Json} (inside : ∀ item ∈ items, Nests depth item) :
      Nests (depth + 1) (.array items)
  | object {depth : Nat} {entries : List (String × Json)}
      (inside : ∀ entry ∈ entries, Nests depth entry.2) : Nests (depth + 1) (.object entries)

mutual

/-- A value as it is kept: the entries of every object are put into it one after the other. -/
def filed : Json → Json
  | .null => .null
  | .bool value => .bool value
  | .number value => .number value
  | .string value => .string value
  | .array items => .array (filedItems items)
  | .object entries => .object (filedEntries [] entries)

def filedItems : List Json → List Json
  | [] => []
  | item :: rest => item.filed :: filedItems rest

def filedEntries : (held : List (String × Json)) → List (String × Json) → List (String × Json)
  | held, [] => held
  | held, (key, value) :: rest => filedEntries (putEntry key value.filed held) rest

end

end Json

namespace JsonReader

/-- Reading the text from this state comes to the other state, with this much text left. -/
def Reaches (state : State) (text : List Char) (next : State) (rest : List Char) : Prop :=
  ∀ fuel, text.length ≤ fuel → ∃ left, rest.length ≤ left ∧
    run state (JsonToken.scanFrom fuel text) = run next (JsonToken.scanFrom left rest)

section

variable {state next last : State} {text rest after : List Char}

theorem Reaches.trans (first : Reaches state text next rest) (second : Reaches next rest last after) :
    Reaches state text last after := by
  intro fuel enough
  obtain ⟨left, more, same⟩ := first fuel enough
  obtain ⟨least, most, again⟩ := second left more
  exact ⟨least, most, same.trans again⟩

theorem reaches_of_token {first : Char} {token : JsonToken}
    (solid : JsonToken.isSpace first = false) (reads : JsonToken.next first text = (token, rest))
    (shorter : rest.length ≤ text.length) (steps : state.step token = .ok next) :
    Reaches state (first :: text) next rest := by
  intro fuel enough
  rw [List.length_cons] at enough
  obtain ⟨fuel, rfl⟩ := Nat.exists_eq_add_of_lt enough
  refine ⟨text.length + fuel, by omega, ?_⟩
  simp only [JsonToken.scanFrom, solid, reads, Bool.false_eq_true, if_false, run, steps]
  rfl

/-- A value is wanted here, or the end of a list. -/
def Wants (state : State) : Prop := state.wanted = .value ∨ state.wanted = .itemOrClose

theorem step_of_wants (wants : Wants state) {token : JsonToken} (opens : token ≠ .closeArray) :
    state.step token = state.begin token := by
  unfold State.step
  rcases wants with wanted | wanted
  · rw [wanted]
  · rw [wanted]
    split <;> simp_all

theorem finish_of_wanted (state : State) (wanted : Wanted) (value : Json) :
    ({ state with wanted } : State).finish value = state.finish value := by
  rcases state with ⟨_ | ⟨_ | _, frames⟩, _, _⟩ <;> rfl

theorem reaches_string (value : String) (rest : List Char)
    (steps : state.step (.string value) = .ok next) :
    Reaches state (JsonText.write value ++ rest) next rest := by
  have parts : JsonText.write value ++ rest =
      '"' :: (value.toList.flatMap JsonText.escape ++ '"' :: rest) := by
    simp [JsonText.write]
  have reads : JsonToken.next '"' (value.toList.flatMap JsonText.escape ++ '"' :: rest) =
      (.string value, rest) := by
    simp only [JsonToken.next, JsonText.read_written]
  rw [parts]
  apply reaches_of_token rfl reads _ steps
  simp only [List.length_append, List.length_cons]
  omega

theorem reaches_scalar {first : Char} (word : List Char) {value : Json}
    (solid : JsonToken.isSpace first = false)
    (reads : ∀ text, JsonToken.next first (word ++ text) = (.scalar value, text))
    (wants : Wants state) (rest : List Char) :
    Reaches state (first :: (word ++ rest)) (state.finish value) rest := by
  apply reaches_of_token solid (reads rest) (List.suffix_append word rest).length_le
  rw [step_of_wants wants (by nofun)]
  rfl

theorem reaches_bracket {first : Char} {token : JsonToken}
    (solid : JsonToken.isSpace first = false)
    (reads : ∀ text, JsonToken.next first text = (token, text)) (steps : state.step token = .ok next)
    (rest : List Char) : Reaches state (first :: rest) next rest :=
  reaches_of_token solid (reads rest) (Nat.le_refl _) steps

end

section

variable {depth : Nat} {outer : List Frame} {found : Json}

/-- Such a value is read as it is kept, with whatever behind it, where there is room for it. -/
def ReadsBack (depth : Nat) (value : Json) : Prop :=
  ∀ state, Wants state → state.frames.length + depth ≤ depthLimit → ∀ rest,
    Reaches state (value.chars ++ rest) (state.finish value.filed) rest

theorem reaches_items {item : Json} {items done : List Json} {wanted : Wanted}
    (each : ∀ one ∈ item :: items, ReadsBack depth one)
    (wants : Wants ⟨.array done :: outer, wanted, found⟩)
    (room : outer.length + 1 + depth ≤ depthLimit) (rest : List Char) :
    Reaches ⟨.array done :: outer, wanted, found⟩ (Json.itemChars (item :: items) ++ ']' :: rest)
      (State.finish ⟨outer, .commaOrClose, found⟩
        (.array (done.reverse ++ Json.filedItems (item :: items)))) rest := by
  induction items generalizing item done wanted with
  | nil =>
      apply (each item List.mem_cons_self _ wants room _).trans
      apply reaches_bracket rfl (fun _ => rfl)
      simp [State.step, State.finish, State.close, Json.filedItems]
  | cons second items induction =>
      have read := each item List.mem_cons_self _ wants room
        (',' :: (Json.itemChars (second :: items) ++ ']' :: rest))
      have comma : Reaches ⟨.array (item.filed :: done) :: outer, .commaOrClose, found⟩
          (',' :: (Json.itemChars (second :: items) ++ ']' :: rest))
          ⟨.array (item.filed :: done) :: outer, .value, found⟩
          (Json.itemChars (second :: items) ++ ']' :: rest) :=
        reaches_bracket rfl (fun _ => rfl) rfl _
      have later : Reaches ⟨.array (item.filed :: done) :: outer, .value, found⟩
          (Json.itemChars (second :: items) ++ ']' :: rest)
          (State.finish ⟨outer, .commaOrClose, found⟩
            (.array ((item.filed :: done).reverse ++ Json.filedItems (second :: items)))) rest :=
        induction (fun one member => each one (List.mem_cons_of_mem _ member)) (.inl rfl)
      simpa [Json.itemChars, Json.filedItems] using read.trans (comma.trans later)

theorem reaches_entry {key : String} {value : Json} {held : List (String × Json)} {last : String}
    {wanted : Wanted} (back : ReadsBack depth value)
    (wants : wanted = .keyOrClose ∨ wanted = .key)
    (room : outer.length + 1 + depth ≤ depthLimit) (rest : List Char) :
    Reaches ⟨.object held last :: outer, wanted, found⟩
      (JsonText.write key ++ ':' :: value.chars ++ rest)
      ⟨.object (Json.putEntry key value.filed held) key :: outer, .commaOrClose, found⟩ rest := by
  have steps : State.step ⟨.object held last :: outer, wanted, found⟩ (.string key) =
      .ok ⟨.object held key :: outer, .colon, found⟩ := by
    rcases wants with rfl | rfl <;> rfl
  have colon : Reaches ⟨.object held key :: outer, .colon, found⟩ (':' :: (value.chars ++ rest))
      ⟨.object held key :: outer, .value, found⟩ (value.chars ++ rest) :=
    reaches_bracket rfl (fun _ => rfl) rfl _
  rw [List.append_assoc, List.cons_append]
  apply (reaches_string key _ steps).trans
  exact colon.trans (back ⟨.object held key :: outer, .value, found⟩ (.inl rfl) room rest)

theorem reaches_entries {entry : String × Json} {entries held : List (String × Json)}
    {last : String} {wanted : Wanted} (each : ∀ one ∈ entry :: entries, ReadsBack depth one.2)
    (wants : wanted = .keyOrClose ∨ wanted = .key)
    (room : outer.length + 1 + depth ≤ depthLimit) (rest : List Char) :
    Reaches ⟨.object held last :: outer, wanted, found⟩
      (Json.entryChars (entry :: entries) ++ '\x7d' :: rest)
      (State.finish ⟨outer, .commaOrClose, found⟩
        (.object (Json.filedEntries held (entry :: entries)))) rest := by
  induction entries generalizing entry held last wanted with
  | nil =>
      apply (reaches_entry (each entry List.mem_cons_self) wants room _).trans
      exact reaches_bracket rfl (fun _ => rfl) rfl _
  | cons second entries induction =>
      have later : Reaches
          ⟨.object (Json.putEntry entry.1 entry.2.filed held) entry.1 :: outer, .key, found⟩
          (Json.entryChars (second :: entries) ++ '\x7d' :: rest)
          (State.finish ⟨outer, .commaOrClose, found⟩
            (.object (Json.filedEntries held (entry :: second :: entries)))) rest :=
        induction (fun one member => each one (List.mem_cons_of_mem _ member)) (.inr rfl)
      have parts : Json.entryChars (entry :: second :: entries) ++ '\x7d' :: rest =
          JsonText.write entry.1 ++ ':' :: entry.2.chars ++
            ',' :: (Json.entryChars (second :: entries) ++ '\x7d' :: rest) := by
        simp [Json.entryChars]
      rw [parts]
      apply (reaches_entry (each entry List.mem_cons_self) wants room _).trans
      exact (reaches_bracket rfl (fun _ => rfl) rfl _).trans later

end

theorem reads_back {depth : Nat} {value : Json} (nests : Json.Nests depth value) :
    ReadsBack depth value := by
  induction nests with
  | null =>
      intro state wants room rest
      exact reaches_scalar "ull".toList rfl (fun _ => rfl) wants rest
  | bool value =>
      intro state wants room rest
      cases value with
      | true => exact reaches_scalar "rue".toList rfl (fun _ => rfl) wants rest
      | false => exact reaches_scalar "alse".toList rfl (fun _ => rfl) wants rest
  | string value =>
      intro state wants room rest
      apply reaches_string
      rw [step_of_wants wants (by nofun)]
      rfl
  | @array depth items inside induction =>
      intro state wants room rest
      have fits : state.frames.length < depthLimit := by omega
      have opened : state.step .openArray =
          .ok ⟨.array [] :: state.frames, .itemOrClose, state.found⟩ := by
        rw [step_of_wants wants (by nofun)]
        simp only [State.begin, State.enter, if_pos fits]
      have closing := finish_of_wanted state .commaOrClose
      simp only [Json.chars, List.cons_append, List.append_assoc]
      apply (reaches_bracket rfl (fun _ => rfl) opened _).trans
      rw [Json.filed, ← closing]
      cases items with
      | nil => exact reaches_bracket rfl (fun _ => rfl) rfl _
      | cons item items => exact reaches_items induction (.inr rfl) (by omega) rest
  | @object depth entries inside induction =>
      intro state wants room rest
      have fits : state.frames.length < depthLimit := by omega
      have opened : state.step .openObject =
          .ok ⟨.object [] "" :: state.frames, .keyOrClose, state.found⟩ := by
        rw [step_of_wants wants (by nofun)]
        simp only [State.begin, State.enter, if_pos fits]
      have closing := finish_of_wanted state .commaOrClose
      simp only [Json.chars, List.cons_append, List.append_assoc]
      apply (reaches_bracket rfl (fun _ => rfl) opened _).trans
      rw [Json.filed, ← closing]
      cases entries with
      | nil => exact reaches_bracket rfl (fun _ => rfl) rfl _
      | cons entry entries => exact reaches_entries induction (.inl rfl) (by omega) rest

end JsonReader

/-- A value without numbers is read back from its text as it is kept. -/
theorem Json.of_text_of_nests {value : Json}
    (nests : Json.Nests JsonReader.depthLimit value) : Json.ofText value.text = .ok value.filed := by
  have wants : JsonReader.Wants {} := .inl rfl
  have read := JsonReader.reads_back nests _ wants (Nat.le_of_eq (Nat.zero_add _)) []
  obtain ⟨left, _, same⟩ := read _ (Nat.le_refl _)
  rw [List.append_nil] at same
  rw [Json.ofText, Json.text, String.toList_ofList, JsonToken.scan, same]
  cases left <;> rfl

end FieldPost
