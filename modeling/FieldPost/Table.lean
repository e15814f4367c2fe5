/-!
Tables of rows with identifiers. An identifier is one more than the last one ever given out,
so it is never given out again, not even after its row is gone. Rows stay in the order of
their identifiers.
-/

namespace FieldPost

structure Table (Row : Type) where
  lastId : Int := 0
  rows : List (Int × Row) := []
  ascending : (rows.map (·.1)).Pairwise (· < ·) := by simp
  issued : ∀ id ∈ rows.map (·.1), id ≤ lastId := by simp

namespace Table

variable {Row : Type}

def find? (table : Table Row) (id : Int) : Option Row := table.rows.lookup id

def select (table : Table Row) (wanted : Row → Bool) : List (Int × Row) :=
  table.rows.filter fun entry => wanted entry.2

def nextId (table : Table Row) : Int := table.lastId + 1

def insert (table : Table Row) (row : Row) : Table Row where
  lastId := table.nextId
  rows := table.rows ++ [(table.nextId, row)]
  ascending := by
    rw [List.map_append, List.pairwise_append]
    refine ⟨table.ascending, by simp, ?_⟩
    intro id known last isLast
    have before := table.issued id known
    simp only [List.map_cons, List.map_nil, List.mem_singleton] at isLast
    simp only [nextId] at isLast
    omega
  issued := by
    intro id known
    rw [List.map_append, List.mem_append] at known
    rcases known with known | known
    · have before := table.issued id known
      simp only [nextId]
      omega
    · simp only [List.map_cons, List.map_nil, List.mem_singleton] at known
      omega

def keep (table : Table Row) (kept : Int × Row → Bool) : Table Row where
  lastId := table.lastId
  rows := table.rows.filter kept
  ascending := table.ascending.sublist (List.filter_sublist.map _)
  issued := fun id known => table.issued id ((List.filter_sublist.map _).subset known)

def erase (table : Table Row) (id : Int) : Table Row := table.keep fun entry => entry.1 != id

/-- An entry, changed when it has this identifier. -/
def changeAt (id : Int) (change : Row → Row) (entry : Int × Row) : Int × Row :=
  if entry.1 = id then (entry.1, change entry.2) else entry

theorem changeAt_fst (id : Int) (change : Row → Row) (entry : Int × Row) :
    (changeAt id change entry).1 = entry.1 := by
  unfold changeAt
  split <;> rfl

theorem map_fst_changeAt (id : Int) (change : Row → Row) (rows : List (Int × Row)) :
    (rows.map (changeAt id change)).map (·.1) = rows.map (·.1) := by
  rw [List.map_map]
  exact List.map_congr_left fun entry _ => changeAt_fst id change entry

def modify (table : Table Row) (id : Int) (change : Row → Row) : Table Row where
  lastId := table.lastId
  rows := table.rows.map (changeAt id change)
  ascending := by rw [map_fst_changeAt]; exact table.ascending
  issued := by rw [map_fst_changeAt]; exact table.issued

theorem rows_insert (table : Table Row) (row : Row) :
    (table.insert row).rows = table.rows ++ [(table.nextId, row)] := rfl

theorem lastId_insert (table : Table Row) (row : Row) :
    (table.insert row).lastId = table.lastId + 1 := rfl

theorem rows_erase (table : Table Row) (id : Int) :
    (table.erase id).rows = table.rows.filter (fun entry => entry.1 != id) := rfl

end Table

end FieldPost
