import FieldPost.Table

/-!
The row of an identifier after each change of a table. Inserting, erasing and changing touch
one identifier and leave the row of every other one alone; an identifier that was given out and
has no row any more gets none again.
-/

namespace FieldPost

/-- Dropping entries by their keys drops them from every question about those keys. -/
theorem lookup_filter_key {Key Value : Type} [BEq Key] [LawfulBEq Key]
    (entries : List (Key × Value)) (kept : Key → Bool) (key : Key) :
    (entries.filter fun entry => kept entry.1).lookup key =
      if kept key then entries.lookup key else none := by
  induction entries with
  | nil => simp
  | cons entry rest induction =>
      rcases entry with ⟨first, value⟩
      by_cases same : key = first
      · subst same
        by_cases keeps : kept key = true
        · simp [keeps]
        · simpa [keeps] using induction
      · have different : (key == first) = false := by simpa using same
        by_cases keeps : kept first = true
        · simp [keeps, List.lookup_cons, different, induction]
        · simp [keeps, List.lookup_cons, different, induction]

namespace Table

variable {Row : Type}

/-- The table in which no identifier was given out yet. -/
def empty : Table Row := {}

theorem lookup_eq_some_of_mem {rows : List (Int × Row)} {id : Int} {row : Row}
    (distinct : (rows.map (·.1)).Pairwise (· < ·)) (member : (id, row) ∈ rows) :
    rows.lookup id = some row := by
  induction rows with
  | nil => simp at member
  | cons entry rest induction =>
      rcases entry with ⟨first, value⟩
      simp only [List.map_cons, List.pairwise_cons] at distinct
      rcases List.mem_cons.mp member with same | later
      · cases same
        exact List.lookup_cons_self
      · have smaller : first < id :=
          distinct.1 id (List.mem_map.mpr ⟨(id, row), later, rfl⟩)
        have different : (id == first) = false := by
          simp only [beq_eq_false_iff_ne, ne_eq]
          omega
        rw [List.lookup_cons, different]
        exact induction distinct.2 later

/-- A table has the row of an identifier exactly when the two stand together in it. -/
theorem find_eq_some_iff (table : Table Row) (id : Int) (row : Row) :
    table.find? id = some row ↔ (id, row) ∈ table.rows := by
  constructor
  · intro found
    obtain ⟨before, after, rows, _⟩ := List.lookup_eq_some_iff.mp found
    rw [rows]
    simp
  · exact lookup_eq_some_of_mem table.ascending

theorem le_last_of_find {table : Table Row} {id : Int} {row : Row}
    (found : table.find? id = some row) : id ≤ table.lastId := by
  have member := (find_eq_some_iff table id row).mp found
  exact table.issued id (List.mem_map.mpr ⟨(id, row), member, rfl⟩)

theorem find_next (table : Table Row) : table.find? table.nextId = none := by
  cases found : table.find? table.nextId with
  | none => rfl
  | some row =>
      have issued := le_last_of_find found
      simp only [nextId] at issued
      omega

theorem find_insert (table : Table Row) (row : Row) (id : Int) :
    (table.insert row).find? id =
      if id = table.nextId then some row else table.find? id := by
  simp only [find?, rows_insert, List.lookup_append]
  by_cases fresh : id = table.nextId
  · subst fresh
    have unused : table.rows.lookup table.nextId = none := find_next table
    rw [unused]
    simp
  · have different : (id == table.nextId) = false := by simpa using fresh
    simp [fresh, List.lookup_cons, different]

theorem mem_insert (table : Table Row) (row : Row) :
    (table.nextId, row) ∈ (table.insert row).rows :=
  List.mem_append_right _ (List.mem_singleton.mpr rfl)

theorem find_erase (table : Table Row) (erased id : Int) :
    (table.erase erased).find? id = if id = erased then none else table.find? id := by
  have filtered := lookup_filter_key table.rows (fun other => other != erased) id
  simp only [find?, rows_erase]
  rw [filtered]
  by_cases same : id = erased <;> simp [same]

theorem lookup_changed (rows : List (Int × Row)) (changed : Int) (change : Row → Row) (id : Int) :
    (rows.map (changeAt changed change)).lookup id =
      if id = changed then (rows.lookup id).map change else rows.lookup id := by
  induction rows with
  | nil => simp
  | cons entry rest induction =>
      rcases entry with ⟨first, row⟩
      by_cases same : id = first
      · subst same
        by_cases here : id = changed <;> simp [changeAt, here]
      · have different : (id == first) = false := by simpa using same
        by_cases here : first = changed
        · subst here
          simp [changeAt, List.lookup_cons, different, induction]
        · simp [changeAt, here, List.lookup_cons, different, induction]

theorem find_modify (table : Table Row) (changed : Int) (change : Row → Row) (id : Int) :
    (table.modify changed change).find? id =
      if id = changed then (table.find? id).map change else table.find? id :=
  lookup_changed table.rows changed change id

theorem last_erase (table : Table Row) (id : Int) : (table.erase id).lastId = table.lastId := rfl

theorem last_modify (table : Table Row) (id : Int) (change : Row → Row) :
    (table.modify id change).lastId = table.lastId := rfl

end Table

end FieldPost
