import FieldPost.Proofs.Blanks
import FieldPost.Summary
import Mathlib.Data.List.Nodup
import Mathlib.Data.String.Basic

/-!
What a summary says of the results that were recorded in it. The last result for an instance
counts, at the place where it was recorded; the text has the blocks of these results in the order of
their names and identifiers and loses nothing but the blanks at its end. Each block has a dash in
it, so these blanks never reach beyond the last one, and the order of recording leaves no trace.
-/

namespace FieldPost

open FieldPost.Text

namespace Result

/-- Comes first in the text: by the name, and by the identifier where the names are the same. -/
def Precedes (left right : Result) : Prop :=
  left.displayName < right.displayName ∨
    left.displayName = right.displayName ∧ left.instanceId < right.instanceId

instance (left right : Result) : Decidable (left.Precedes right) :=
  inferInstanceAs (Decidable (_ ∨ _ ∧ _))

/-- A block at the end of the text. A blank message leaves the name with its dash. -/
def lastBlock (result : Result) : String :=
  if isBlankText result.verdict.message then result.displayName ++ " -"
  else result.displayName ++ " - " ++ trimmedEnd result.verdict.message

theorem at_most_iff (left right : Result) :
    left.atMost right = true ↔ left.displayName < right.displayName ∨
      left.displayName = right.displayName ∧ left.instanceId ≤ right.instanceId := by
  unfold atMost
  split
  · rename_i same
    simp [same]
  · rename_i different
    simp [different]

theorem at_most_trans (first second third : Result) (early : first.atMost second = true)
    (late : second.atMost third = true) : first.atMost third = true := by
  rw [at_most_iff] at early late ⊢
  rcases early with less | ⟨same, below⟩ <;> rcases late with later | ⟨equal, above⟩
  · exact .inl (String.lt_trans less later)
  · exact .inl (equal ▸ less)
  · exact .inl (same ▸ later)
  · exact .inr ⟨same.trans equal, Int.le_trans below above⟩

theorem at_most_total (left right : Result) :
    (left.atMost right || right.atMost left) = true := by
  rw [Bool.or_eq_true, at_most_iff, at_most_iff]
  rcases lt_trichotomy left.displayName right.displayName with less | same | greater
  · exact .inl (.inl less)
  · rcases Int.le_total left.instanceId right.instanceId with below | above
    · exact .inl (.inr ⟨same, below⟩)
    · exact .inr (.inr ⟨same.symm, above⟩)
  · exact .inr (.inl greater)

theorem precedes_asymm {left right : Result} (before : left.Precedes right)
    (after : right.Precedes left) : False := by
  rcases before with less | ⟨same, below⟩ <;> rcases after with greater | ⟨equal, above⟩
  · exact String.lt_irrefl _ (String.lt_trans less greater)
  · exact String.lt_irrefl _ (equal ▸ less)
  · exact String.lt_irrefl _ (same ▸ greater)
  · exact Int.lt_irrefl _ (Int.lt_trans below above)

theorem precedes_of_at_most {left right : Result} (ordered : left.atMost right = true)
    (distinct : left.instanceId ≠ right.instanceId) : left.Precedes right := by
  rcases (at_most_iff left right).mp ordered with less | ⟨same, below⟩
  · exact .inl less
  · exact .inr ⟨same, lt_of_le_of_ne below distinct⟩

/-- The dash stops the trimming. -/
theorem trimmed_end_block (result : Result) : trimmedEnd result.block = result.lastBlock := by
  have dash : ("-".toList ++ " ".toList ++ result.verdict.message.toList).all isBlank = false := by
    rw [List.append_assoc, List.all_append]
    rfl
  have parts : result.block.toList = result.displayName.toList ++ " ".toList ++
      ("-".toList ++ " ".toList ++ result.verdict.message.toList) := by
    simp [block]
  have kept : trimEnd result.block.toList = result.displayName.toList ++ " ".toList ++
      trimEnd ("-".toList ++ " ".toList ++ result.verdict.message.toList) := by
    rw [parts, trim_end_append_of_filled _ dash]
  unfold trimmedEnd lastBlock
  rw [kept]
  cases blank : result.verdict.message.toList.all isBlank with
  | true =>
      have rest : (" ".toList ++ result.verdict.message.toList).all isBlank = true := by
        rw [List.all_append, blank]
        rfl
      rw [List.append_assoc "-".toList, trim_end_append_of_blank _ rest,
        if_pos (show isBlankText result.verdict.message = true from blank)]
      apply String.toList_inj.mp
      simp [trimEnd, isBlank]
  | false =>
      rw [trim_end_append_of_filled _ blank,
        if_neg (by rw [show isBlankText result.verdict.message = false from blank]; simp)]
      apply String.toList_inj.mp
      simp [trimmedEnd]

end Result

namespace Summary

/-- The summary of results that were recorded one after the other. -/
def ofResults (recorded : List Result) : Summary :=
  recorded.foldl (fun summary result =>
    summary.record result.instanceId result.displayName result.verdict) {}

/-- Whether one of the later results is for the same instance. -/
def isReplaced (result : Result) (later : List Result) : Bool :=
  later.any (·.instanceId == result.instanceId)

/-- The results that none after them replaces, in the order in which they were recorded. -/
def lastOnes : List Result → List Result
  | [] => []
  | result :: later =>
      if isReplaced result later then lastOnes later else result :: lastOnes later

theorem is_replaced_eq_false_iff (result : Result) (later : List Result) :
    isReplaced result later = false ↔ ∀ other ∈ later, other.instanceId ≠ result.instanceId := by
  rw [isReplaced, List.any_eq_false]
  simp only [beq_iff_eq]

/-! ### Which results are kept -/

/-- Of what a summary had before, the results that are not replaced stay in front. -/
theorem results_of_fold (summary : Summary) (recorded : List Result) :
    (recorded.foldl (fun summary result =>
      summary.record result.instanceId result.displayName result.verdict) summary).results =
      summary.results.filter (fun result => !isReplaced result recorded) ++ lastOnes recorded := by
  induction recorded generalizing summary with
  | nil => simp [isReplaced, lastOnes]
  | cons first rest induction =>
      rw [List.foldl_cons, induction, record, List.filter_append, List.filter_filter,
        List.append_assoc]
      congr 1
      · apply List.filter_congr
        intro result _
        simp only [isReplaced, List.any_cons, Bool.not_or, bne_comm (a := result.instanceId)]
        exact Bool.and_comm _ _
      · rw [lastOnes]
        cases replaced : isReplaced first rest <;> simp [replaced]

theorem results_of_recorded (recorded : List Result) :
    (ofResults recorded).results = lastOnes recorded :=
  results_of_fold {} recorded

theorem mem_last_ones_iff (recorded : List Result) (result : Result) :
    result ∈ lastOnes recorded ↔ ∃ early later, recorded = early ++ result :: later ∧
      ∀ other ∈ later, other.instanceId ≠ result.instanceId := by
  induction recorded with
  | nil => simp [lastOnes]
  | cons first rest induction =>
      have later_on : (∃ early later, first :: rest = early ++ result :: later ∧
          ∀ other ∈ later, other.instanceId ≠ result.instanceId) ↔
          first = result ∧ isReplaced first rest = false ∨ result ∈ lastOnes rest := by
        rw [induction]
        constructor
        · rintro ⟨early, later, split, last⟩
          cases early with
          | nil =>
              cases split
              exact .inl ⟨rfl, (is_replaced_eq_false_iff _ _).mpr last⟩
          | cons head early =>
              cases split
              exact .inr ⟨early, later, rfl, last⟩
        · rintro (⟨rfl, last⟩ | ⟨early, later, rfl, last⟩)
          · exact ⟨[], rest, rfl, (is_replaced_eq_false_iff _ _).mp last⟩
          · exact ⟨first :: early, later, rfl, last⟩
      rw [later_on, lastOnes]
      cases isReplaced first rest <;> simp [eq_comm]

theorem last_ones_subset (recorded : List Result) : lastOnes recorded ⊆ recorded := by
  intro result kept
  obtain ⟨early, later, rfl, _⟩ := (mem_last_ones_iff recorded result).mp kept
  exact List.mem_append_right _ List.mem_cons_self

theorem last_ones_distinct (recorded : List Result) :
    ((lastOnes recorded).map (·.instanceId)).Nodup := by
  induction recorded with
  | nil => exact .nil
  | cons first rest induction =>
      unfold lastOnes
      split
      · exact induction
      · rename_i last
        rw [Bool.not_eq_true, is_replaced_eq_false_iff] at last
        rw [List.map_cons, List.nodup_cons]
        refine ⟨?_, induction⟩
        intro again
        obtain ⟨other, kept, same⟩ := List.mem_map.mp again
        exact last other (last_ones_subset rest kept) same

/-- Every instance that a result was recorded for has a last one. -/
theorem last_one_exists {recorded : List Result} {result : Result} (member : result ∈ recorded) :
    ∃ last ∈ lastOnes recorded, last.instanceId = result.instanceId := by
  induction recorded generalizing result with
  | nil => cases member
  | cons first rest induction =>
      have behind : ∀ other ∈ rest, ∃ last ∈ lastOnes (first :: rest),
          last.instanceId = other.instanceId := by
        intro other inside
        obtain ⟨last, kept, same⟩ := induction inside
        refine ⟨last, ?_, same⟩
        unfold lastOnes
        split
        · exact kept
        · exact List.mem_cons_of_mem _ kept
      rcases List.mem_cons.mp member with rfl | later
      · cases replaced : isReplaced result rest with
        | true =>
            obtain ⟨other, inside, same⟩ := List.any_eq_true.mp replaced
            rw [← beq_iff_eq.mp same]
            exact behind other inside
        | false =>
            refine ⟨result, ?_, rfl⟩
            rw [lastOnes, replaced, if_neg Bool.false_ne_true]
            exact List.mem_cons_self
      · exact behind result later

theorem last_ones_of_distinct {recorded : List Result}
    (distinct : (recorded.map (·.instanceId)).Nodup) : lastOnes recorded = recorded := by
  induction recorded with
  | nil => rfl
  | cons first rest induction =>
      rw [List.map_cons, List.nodup_cons] at distinct
      have last : isReplaced first rest = false := by
        rw [is_replaced_eq_false_iff]
        intro other inside same
        exact distinct.1 (List.mem_map.mpr ⟨other, inside, same⟩)
      rw [lastOnes, last, if_neg Bool.false_ne_true, induction distinct.2]

/-! ### What is looked up -/

theorem get_of_distinct {summary : Summary}
    (distinct : (summary.results.map (·.instanceId)).Nodup) {result : Result}
    (member : result ∈ summary.results) :
    summary.get? result.instanceId = some result.verdict := by
  unfold get?
  cases found : summary.results.find? (·.instanceId == result.instanceId) with
  | none =>
      have absent := List.find?_eq_none.mp found result member
      exact absurd (beq_self_eq_true _) absent
  | some other =>
      have same : other.instanceId = result.instanceId := by simpa using List.find?_some found
      have inside := List.mem_of_find?_eq_some found
      rw [List.inj_on_of_nodup_map distinct inside member same]
      rfl

theorem get_eq_none_iff (summary : Summary) (id : Int) :
    summary.get? id = none ↔ ∀ result ∈ summary.results, result.instanceId ≠ id := by
  unfold get?
  rw [Option.map_eq_none_iff, List.find?_eq_none]
  simp only [beq_iff_eq, ne_eq]

theorem any_failure_iff (summary : Summary) :
    summary.anyFailure = true ↔ 0 < summary.failureCount := by
  unfold anyFailure failureCount
  rw [List.any_eq_true, List.countP_pos_iff]

/-! ### The text -/

theorem sorted_perm (summary : Summary) : summary.sorted.Perm summary.results :=
  List.mergeSort_perm _ _

theorem sorted_precedes {summary : Summary}
    (distinct : (summary.results.map (·.instanceId)).Nodup) :
    summary.sorted.Pairwise Result.Precedes := by
  have ordered := List.pairwise_mergeSort Result.at_most_trans Result.at_most_total summary.results
  have others : (summary.sorted.map (·.instanceId)).Nodup :=
    (summary.sorted_perm.map _).nodup_iff.mpr distinct
  rw [List.Nodup, List.pairwise_map] at others
  exact ordered.imp₂
    (fun _ _ before different => Result.precedes_of_at_most before different) others

/-- Without two results for one instance there is only one order in which they may stand. -/
theorem sorted_eq_of_perm {summary : Summary}
    (distinct : (summary.results.map (·.instanceId)).Nodup) {listed : List Result}
    (same : listed.Perm summary.results) (ordered : listed.Pairwise Result.Precedes) :
    summary.sorted = listed := by
  refine List.Perm.eq_of_pairwise ?_ (sorted_precedes distinct) ordered ?_
  · intro first second _ _ before after
    exact (Result.precedes_asymm before after).elim
  · exact summary.sorted_perm.trans same.symm

theorem joined_blocks (listed : List Result) :
    (String.join (listed.map fun result => result.block ++ "\n\n")).toList =
      (listed.map (·.block.toList)).flatMap (· ++ "\n\n".toList) := by
  rw [String.toList_join, List.flatMap_map, List.flatMap_map]
  simp only [String.toList_append]

theorem flat_map_append (blocks : List (List Char)) (gap : List Char) (some : blocks ≠ []) :
    blocks.flatMap (· ++ gap) = gap.intercalate blocks ++ gap := by
  induction blocks with
  | nil => exact absurd rfl some
  | cons first rest induction =>
      cases rest with
      | nil => simp [List.intercalate]
      | cons second rest =>
          rw [List.flatMap_cons, induction (List.cons_ne_nil _ _)]
          simp [List.intercalate]

/-- The empty line behind the last block is trimmed away. -/
theorem message_eq_intercalate (summary : Summary) :
    summary.message = trimmedEnd ("\n\n".intercalate (summary.sorted.map Result.block)) := by
  unfold message
  generalize summary.sorted = listed
  cases listed with
  | nil => rfl
  | cons first rest =>
      have blank : "\n\n".toList.all isBlank = true := by decide
      have some : (first :: rest).map (·.block.toList) ≠ [] := List.cons_ne_nil _ _
      unfold trimmedEnd
      rw [joined_blocks, flat_map_append _ _ some, trim_end_append_of_blank _ blank,
        String.toList_intercalate, List.map_map]
      rfl

/-- Trimming reaches no block but the last. -/
theorem message_of_sorted {summary : Summary} {others : List Result} {last : Result}
    (sorted : summary.sorted = others ++ [last]) :
    summary.message =
      String.join (others.map fun result => result.block ++ "\n\n") ++ last.lastBlock := by
  have filled : last.block.toList.all isBlank = false := by
    simp [Result.block, isBlank]
  have blank : "\n\n".toList.all isBlank = true := by decide
  rw [← Result.trimmed_end_block]
  unfold message trimmedEnd
  rw [sorted, joined_blocks, List.map_append, List.flatMap_append, ← joined_blocks,
    List.map_singleton, List.flatMap_singleton, ← List.append_assoc,
    trim_end_append_of_blank _ blank, trim_end_append_of_filled _ filled, String.ofList_append,
    String.ofList_toList]

theorem block_eq_append (result : Result) :
    ∃ blanks, result.block = result.lastBlock ++ blanks := by
  obtain ⟨blanks, split⟩ := List.rdropWhile_prefix isBlank (l := result.block.toList)
  refine ⟨String.ofList blanks, ?_⟩
  rw [← Result.trimmed_end_block, trimmedEnd, ← String.ofList_append, trim_end_eq, split,
    String.ofList_toList]

/-- Every result is in the text, with nothing but blanks missing from the end of its message. -/
theorem shown_in_message {summary : Summary} {result : Result} (member : result ∈ summary.results) :
    ∃ before after, summary.message = before ++ result.lastBlock ++ after := by
  have listed := summary.sorted_perm.mem_iff.mpr member
  rcases List.eq_nil_or_concat summary.sorted with none | ⟨others, last, sorted⟩
  · rw [none] at listed
    cases listed
  · rw [List.concat_eq_append] at sorted
    rw [sorted, List.mem_append, List.mem_singleton] at listed
    rw [message_of_sorted sorted]
    rcases listed with inside | rfl
    · obtain ⟨early, late, rfl⟩ := List.append_of_mem inside
      obtain ⟨blanks, split⟩ := block_eq_append result
      refine ⟨String.join (early.map fun result => result.block ++ "\n\n"),
        blanks ++ "\n\n" ++ String.join (late.map fun result => result.block ++ "\n\n") ++
          last.lastBlock, ?_⟩
      apply String.toList_inj.mp
      simp [String.toList_join, split]
    · exact ⟨_, "", by rw [String.append_empty]⟩

/-! ### The whole summary -/

/-- What a summary says when these results were recorded in it, one after the other. -/
structure Reports (summary : Summary) (recorded : List Result) : Prop where
  results : summary.results = lastOnes recorded
  distinct : (summary.results.map (·.instanceId)).Nodup
  /-- A result is kept if it is the last one for its instance. -/
  mem_iff : ∀ result, result ∈ summary.results ↔ ∃ early later,
    recorded = early ++ result :: later ∧ ∀ other ∈ later, other.instanceId ≠ result.instanceId
  found : ∀ result ∈ summary.results, summary.get? result.instanceId = some result.verdict
  missing : ∀ id, summary.get? id = none ↔ ∀ result ∈ recorded, result.instanceId ≠ id
  failures : summary.anyFailure = true ↔ 0 < summary.failureCount
  /-- The text loses only the blanks at its end, and these are those of its last block. -/
  text : ∃ listed : List Result, listed.Perm summary.results ∧
    listed.Pairwise Result.Precedes ∧
    summary.message = trimmedEnd ("\n\n".intercalate (listed.map Result.block)) ∧
    ∀ others last, listed = others ++ [last] → summary.message =
      String.join (others.map fun result => result.block ++ "\n\n") ++ last.lastBlock
  shown : ∀ result ∈ summary.results,
    ∃ before after, summary.message = before ++ result.lastBlock ++ after

theorem reports_of_recorded (recorded : List Result) : (ofResults recorded).Reports recorded := by
  have results := results_of_recorded recorded
  have distinct : ((ofResults recorded).results.map (·.instanceId)).Nodup := by
    rw [results]
    exact last_ones_distinct recorded
  refine
    { results
      distinct
      mem_iff := ?_
      found := fun _ => get_of_distinct distinct
      missing := ?_
      failures := any_failure_iff _
      text := ⟨_, sorted_perm _, sorted_precedes distinct, message_eq_intercalate _,
        fun _ _ => message_of_sorted⟩
      shown := fun _ => shown_in_message }
  · rw [results]
    exact mem_last_ones_iff recorded
  · intro id
    rw [get_eq_none_iff, results]
    constructor
    · intro absent result member same
      obtain ⟨last, kept, equal⟩ := last_one_exists member
      exact absent last kept (equal.trans same)
    · intro absent result kept
      exact absent result (last_ones_subset recorded kept)

/-- A summary has the last result for each instance, in the order of these, and its text has every
one of them; the text is the same in whatever order the results of different instances came. -/
theorem summary_of_recorded (recorded : List Result) :
    (ofResults recorded).Reports recorded ∧
      ∀ others : List Result, others.Perm recorded → (recorded.map (·.instanceId)).Nodup →
        (ofResults others).message = (ofResults recorded).message := by
  refine ⟨reports_of_recorded recorded, ?_⟩
  intro others same distinct
  have reports := reports_of_recorded recorded
  have reversed := reports_of_recorded others
  have others_distinct : (others.map (·.instanceId)).Nodup := (same.map _).nodup_iff.mpr distinct
  have results : (ofResults others).results.Perm (ofResults recorded).results := by
    rw [results_of_recorded, results_of_recorded, last_ones_of_distinct distinct,
      last_ones_of_distinct others_distinct]
    exact same
  have sorted : (ofResults recorded).sorted = (ofResults others).sorted :=
    sorted_eq_of_perm reports.distinct ((sorted_perm _).trans results)
      (sorted_precedes reversed.distinct)
  unfold message
  rw [sorted]

/-- Two results of one name, one of them without words, and a message that ends in a new line. -/
def surveyResults : List Result :=
  [⟨2, "Water point", .failure "Network error\n"⟩, ⟨3, "Household", .failure " \n "⟩,
    ⟨1, "Household", .success "Thank you"⟩]

theorem survey_results_in_any_order :
    (surveyResults.map (·.instanceId)).Nodup ∧
      (ofResults surveyResults.reverse).message = (ofResults surveyResults).message ∧
      (ofResults surveyResults).message =
        "Household - Thank you\n\nHousehold -  \n \n\nWater point - Network error" := by
  have distinct : (surveyResults.map (·.instanceId)).Nodup := by decide
  have same := (summary_of_recorded surveyResults).2 surveyResults.reverse
    (List.reverse_perm surveyResults) distinct
  have sorted : (ofResults surveyResults).sorted =
      [⟨1, "Household", .success "Thank you"⟩, ⟨3, "Household", .failure " \n "⟩] ++
        [⟨2, "Water point", .failure "Network error\n"⟩] := by
    apply sorted_eq_of_perm (reports_of_recorded surveyResults).distinct
    · decide +kernel
    · decide +kernel
  refine ⟨distinct, same, ?_⟩
  rw [message_of_sorted sorted]
  decide +kernel

end Summary

end FieldPost
