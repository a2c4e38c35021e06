import SheetIntake.Proofs.Batches

/-!
# Reports and the number of workers

An error gets its number in the whole list by a replacement in its text, and the reason in the text
can quote the item. Where the item looks like the label that it has in its chunk, the reason changes
too, so the report depends on how the list was cut into chunks.

* `ItemError.chunked_eq_chunked_iff` — when an error has the same text in chunks of two sizes.
* `ItemError.chunked_eq_text_iff` — when its reason is the one that validation gave.
* `reports_agree_iff` — when two numbers of workers give the same report.
* `label_in_item_is_replaced` — an item whose text is changed.
-/

namespace SheetIntake.Schema

open SheetIntake.Text

namespace ItemError

/-- Whether the reason of an error stays as it is in chunks of a size: the item is in the first
chunk, or the reason does not have the label that the item has within its chunk. -/
def KeepsReason (size : Nat) (e : ItemError) : Prop :=
  e.position < size ∨ contains e.reason (label (e.position % size)) = false

instance (size : Nat) (e : ItemError) : Decidable (e.KeepsReason size) :=
  inferInstanceAs (Decidable (_ ∨ _))

theorem chunked_eq (size : Nat) (e : ItemError) : e.chunked size = label e.position ++
      (" " ++ replaceAll e.reason (label (e.position % size)) (label e.position)) := by
  unfold chunked
  rw [shifted_eq]
  rw [Nat.div_add_mod']

theorem keepsReason_iff {size : Nat} (hsize : 0 < size) (e : ItemError) : e.KeepsReason size ↔
      e.position % size = e.position ∨ contains e.reason (label (e.position % size)) = false := by
  unfold KeepsReason
  rw [Nat.mod_eq_iff_lt (Nat.ne_of_gt hsize)]

theorem chunked_eq_chunked_iff {size₁ size₂ : Nat} (h₁ : 0 < size₁) (h₂ : 0 < size₂)
    (e : ItemError) : e.chunked size₁ = e.chunked size₂ ↔
      e.position % size₁ = e.position % size₂ ∨ (e.KeepsReason size₁ ∧ e.KeepsReason size₂) := by
  rw [chunked_eq, chunked_eq, String.append_right_inj, String.append_right_inj,
    replaceAll_label_eq_iff, keepsReason_iff h₁, keepsReason_iff h₂]

/-- In chunks that are long enough for its position, an error has its own text. -/
theorem chunked_of_lt {size : Nat} {e : ItemError} (h : e.position < size) :
    e.chunked size = e.text := by
  rw [chunked_eq, Nat.mod_eq_of_lt h]
  unfold text replaceAll
  rw [replaceChars_self (marked_label e.position).ne_nil, List.drop_zero, String.ofList_toList,
    String.append_assoc]

theorem chunked_eq_text_iff {size : Nat} (hsize : 0 < size) (e : ItemError) :
    e.chunked size = e.text ↔ e.KeepsReason size := by
  have hlt := Nat.lt_succ_self e.position
  rw [← chunked_of_lt hlt, chunked_eq_chunked_iff hsize (Nat.succ_pos _), Nat.mod_eq_of_lt hlt]
  constructor
  · intro h
    rcases h with hmod | hkeeps
    · exact (keepsReason_iff hsize e).mpr (.inl hmod)
    · exact hkeeps.1
  · exact fun hkeeps => .inr ⟨hkeeps, .inl hlt⟩

end ItemError

/-! ## Reports of different workers -/

/-- The errors that a report tells. -/
def reported (schema : Value) (items : List Value) : List ItemError :=
  (chunkErrors schema items).take errorLimit

theorem batchReport_eq_iff {schema : Value} {items : List Value} {size₁ size₂ : Nat} :
    batchReport schema size₁ items = batchReport schema size₂ items ↔
      ∀ e ∈ reported schema items, e.chunked size₁ = e.chunked size₂ := by
  rw [← List.map_inj_left]
  constructor
  · exact congrArg BatchReport.errors
  · intro herrors
    unfold batchReport
    rw [show (chunkErrors schema items).take errorLimit = reported schema items from rfl, herrors]

/-- Reports for different numbers of workers differ at most in the texts of the errors. They are the
same exactly when each reported item has the same place in its chunk, or keeps its reason in both.
The texts are those of a single chunk exactly when each reported item keeps its reason. -/
theorem reports_agree_iff (schema : Value) (items : List Value) {n m : Int} (hn : n ≠ 0)
    (hm : m ≠ 0) :
    ∃ r s, validateBatch items schema n = .ok r ∧ validateBatch items schema m = .ok s
      ∧ { r with errors := s.errors } = s
      ∧ (r = s ↔ ∀ e ∈ reported schema items,
        e.position % chunkSize items.length n = e.position % chunkSize items.length m
          ∨ (e.KeepsReason (chunkSize items.length n) ∧ e.KeepsReason (chunkSize items.length m)))
      ∧ (r.errors = (reported schema items).map ItemError.text ↔
        ∀ e ∈ reported schema items, e.KeepsReason (chunkSize items.length n)) := by
  have hsize (workers : Int) := chunkSize_pos items.length workers
  refine ⟨_, _, validateBatch_eq schema items hn, validateBatch_eq schema items hm, rfl, ?_, ?_⟩
  · rw [batchReport_eq_iff]
    refine forall₂_congr (fun e _ => ?_)
    exact ItemError.chunked_eq_chunked_iff (hsize n) (hsize m) e
  · show (reported schema items).map _ = _ ↔ _
    rw [List.map_inj_left]
    refine forall₂_congr (fun e _ => ?_)
    exact ItemError.chunked_eq_text_iff (hsize n) e

/-- Two and three workers have the same chunks, and they agree on a text that is not that of the
item. -/
theorem reports_agree_mixedItems :
    ∃ r s, validateBatch mixedItems wholeNumbers 2 = .ok r
      ∧ validateBatch mixedItems wholeNumbers 3 = .ok s ∧ r = s
      ∧ r.errors ≠ (reported wholeNumbers mixedItems).map ItemError.text := by
  obtain ⟨r, s, hr, hs, -, hsame, htexts⟩ :=
    reports_agree_iff wholeNumbers mixedItems (n := 2) (m := 3) (by decide) (by decide)
  refine ⟨r, s, hr, hs, hsame.mpr (fun e _ => .inl rfl), fun heq => ?_⟩
  have hkeeps := htexts.mp heq
  unfold reported at hkeeps
  rw [chunkErrors_mixedItems] at hkeeps
  exact absurd (hkeeps _ List.mem_cons_self) (by decide)

/-- A text of an item that looks like a label is changed, and the report is another one than for a
single worker. -/
theorem label_in_item_is_replaced :
    ∃ r s, validateBatch mixedItems wholeNumbers 3 = .ok r
      ∧ r.errors = ["Item 1: 'Item 1: x' is not of type 'integer'",
        "Item 2: None is not of type 'integer'"]
      ∧ validateBatch mixedItems wholeNumbers 1 = .ok s
      ∧ s.errors = ["Item 1: 'Item 0: x' is not of type 'integer'",
        "Item 2: None is not of type 'integer'"] := by
  refine ⟨_, _, validateBatch_eq _ _ (by decide), ?_, validateBatch_eq _ _ (by decide), ?_⟩
  · unfold batchReport
    rw [chunkErrors_mixedItems]
    decide
  · unfold batchReport
    rw [chunkErrors_mixedItems]
    decide

end SheetIntake.Schema
