import SheetIntake.Proofs.Labels
import SheetIntake.Proofs.Outcome
import Mathlib.Data.List.Perm.Basic
import Mathlib.Data.List.Nodup

/-!
# Batches are counted and numbered as a whole

A list of items is validated in chunks of one size, the last of which may be shorter. The place of
an item in its chunk is the remainder of its position in the list, and the chunk begins at the
multiple of the size before it. So what the workers report can be said about the whole list.

* `getElem?_chunkErrors` — the errors are those of the failing items, in order.
* `shiftedErrors_chunksOf` — the texts of all errors, from the errors of the whole list.
* `combine_eq`, `validateBatch_eq` — the report is `batchReport`, for the size of the chunks.
* `batch_accurate` — the report counts items and numbers errors as `BatchReport.Accurate` says.
-/

namespace SheetIntake.Schema

/-! ## The errors of a chunk -/

/-- Whether an item fails under a schema: it does not satisfy it, or validation breaks off. -/
def fails (schema item : Value) : Bool :=
  match validate schema item with
  | .ok none => false
  | .ok (some _) => true
  | .error _ => true

variable {schema : Value} {items : List Value}

theorem isSome_itemReason? (schema item : Value) :
    (itemReason? (admitted schema) schema item).isSome = fails schema item := by
  unfold itemReason? fails validate
  cases admitted schema with
  | error fault => rfl
  | ok draft =>
    rw [Outcome.ok_bind]
    dsimp only
    cases validateAdmitted draft schema item with
    | error fault => rfl
    | ok reason => cases reason <;> rfl

def ItemError.moved (n : Nat) (e : ItemError) : ItemError :=
  { e with position := n + e.position }

theorem chunkErrors_append (schema : Value) (xs ys : List Value) : chunkErrors schema (xs ++ ys) =
      chunkErrors schema xs ++ (chunkErrors schema ys).map (ItemError.moved xs.length) := by
  unfold chunkErrors
  rw [List.zipIdx_append, List.filterMap_append, List.zipIdx_eq_map_add (l := ys),
    List.filterMap_map, List.map_filterMap]
  congr 1
  refine List.filterMap_congr (fun p _ => ?_)
  rw [Option.map_map, Nat.zero_add]
  rfl

theorem length_chunkErrors (schema : Value) (items : List Value) :
    (chunkErrors schema items).length = items.countP (fails schema) := by
  unfold chunkErrors
  rw [List.length_filterMap_eq_countP]
  conv => rhs; rw [← List.zipIdx_map_fst 0 items, List.countP_map]
  refine List.countP_congr (fun p _ => ?_)
  rw [Option.isSome_map, isSome_itemReason?]
  rfl

theorem position_lt {e : ItemError} (he : e ∈ chunkErrors schema items) :
    e.position < items.length := by
  obtain ⟨p, hp, heq⟩ := List.mem_filterMap.mp he
  obtain ⟨reason, -, rfl⟩ := Option.map_eq_some_iff.mp heq
  exact List.snd_lt_of_mem_zipIdx hp

theorem chunkErrors_cons (schema item : Value) (items : List Value) :
    chunkErrors schema (item :: items) =
      ((itemReason? (admitted schema) schema item).map (ItemError.mk 0)).toList
        ++ (chunkErrors schema items).map (ItemError.moved 1) := by
  have happend := chunkErrors_append schema [item] items
  rw [List.singleton_append] at happend
  congr 1

theorem getElem?_chunkErrors {j : Nat} {e : ItemError}
    (h : (chunkErrors schema items)[j]? = some e) :
    ∃ item, items[e.position]? = some item ∧ fails schema item
      ∧ (items.take e.position).countP (fails schema) = j := by
  induction items generalizing j e with
  | nil => exact absurd h (by simp [chunkErrors])
  | cons item items ih =>
    -- an error of the rest comes one place later, and `item` counts where it fails
    have hlater {i : Nat} (hi : ((chunkErrors schema items).map (ItemError.moved 1))[i]? = some e) :
        ∃ item', (item :: items)[e.position]? = some item' ∧ fails schema item'
          ∧ ((item :: items).take e.position).countP (fails schema) =
            i + if fails schema item then 1 else 0 := by
      rw [List.getElem?_map] at hi
      obtain ⟨e', he', rfl⟩ := Option.map_eq_some_iff.mp hi
      obtain ⟨item', hitem', hfails, hcount⟩ := ih he'
      have hposition : (e'.moved 1).position = e'.position + 1 := Nat.add_comm 1 _
      rw [hposition, List.getElem?_cons_succ, List.take_succ_cons, List.countP_cons, hcount]
      exact ⟨item', hitem', hfails, rfl⟩
    rw [chunkErrors_cons] at h
    have hsome := isSome_itemReason? schema item
    cases hreason : itemReason? (admitted schema) schema item with
    | none =>
      rw [hreason] at h hsome
      obtain ⟨item', hitem', hfails, hcount⟩ := hlater h
      rw [← hsome] at hcount
      exact ⟨item', hitem', hfails, hcount⟩
    | some reason =>
      rw [hreason] at h hsome
      cases j with
      | zero =>
        cases h
        exact ⟨item, rfl, hsome.symm, rfl⟩
      | succ i =>
        obtain ⟨item', hitem', hfails, hcount⟩ := hlater h
        rw [← hsome] at hcount
        exact ⟨item', hitem', hfails, hcount⟩

/-! ## Chunks -/

theorem chunkSize_pos (count : Nat) (workers : Int) : 0 < chunkSize count workers :=
  Nat.le_max_left 1 _

theorem flatten_chunksOf {α : Type} {size : Nat} (hsize : 0 < size) {fuel : Nat} {items : List α}
    (hfuel : items.length ≤ fuel) : (chunksOf size fuel items).flatten = items := by
  induction fuel generalizing items with
  | zero => exact (List.eq_nil_of_length_eq_zero (Nat.le_zero.mp hfuel)).symm
  | succ fuel ih =>
    cases items with
    | nil => rfl
    | cons item items =>
      show (item :: items).take size ++ (chunksOf size fuel ((item :: items).drop size)).flatten = _
      have hlength : ((item :: items).drop size).length ≤ fuel := by
        rw [List.length_drop]
        omega
      rw [ih hlength, List.take_append_drop]

theorem flatten_chunks {α : Type} (items : List α) (workers : Int) :
    (chunks items workers).flatten = items :=
  flatten_chunksOf (chunkSize_pos _ _) (Nat.le_refl _)

/-! ## Results -/

/-- The results of chunks that are counted from a number on. -/
def resultsFrom (schema : Value) (k : Nat) (chunks : List (List Value)) : List ChunkResult :=
  (chunks.zipIdx k).map (fun p =>
    { index := p.2, size := p.1.length, errors := chunkErrors schema p.1 })

theorem resultsFrom_cons (schema : Value) (k : Nat) (chunk : List Value)
    (chunks : List (List Value)) : resultsFrom schema k (chunk :: chunks) =
      { index := k, size := chunk.length, errors := chunkErrors schema chunk } ::
        resultsFrom schema (k + 1) chunks := rfl

theorem itemCount_resultsFrom (schema : Value) (k : Nat) (chunks : List (List Value)) :
    itemCount (resultsFrom schema k chunks) = chunks.flatten.length := by
  induction chunks generalizing k with
  | nil => rfl
  | cons chunk chunks ih =>
    rw [resultsFrom_cons, itemCount, ih, List.flatten_cons, List.length_append]

theorem validCount_resultsFrom (schema : Value) (k : Nat) (chunks : List (List Value)) :
    validCount (resultsFrom schema k chunks) + chunks.flatten.countP (fails schema) =
      chunks.flatten.length := by
  induction chunks generalizing k with
  | nil => rfl
  | cons chunk chunks ih =>
    have hchunk := length_chunkErrors schema chunk
    have hle := List.countP_le_length (p := fails schema) (l := chunk)
    have hrest := ih (k + 1)
    rw [resultsFrom_cons, validCount, List.flatten_cons, List.countP_append, List.length_append]
    dsimp only
    omega

/-- The text of an error of a list that is validated in chunks of a size. -/
def ItemError.chunked (size : Nat) (e : ItemError) : String :=
  shifted (e.position / size * size) { e with position := e.position % size }

theorem shiftedErrors_chunksOf (schema : Value) {size : Nat} (hsize : 0 < size) {fuel : Nat}
    {items : List Value} (hfuel : items.length ≤ fuel) (offset k : Nat) :
    shiftedErrors offset (resultsFrom schema k (chunksOf size fuel items)) =
      (chunkErrors schema items).map (fun e => ItemError.shifted (offset + e.position / size * size)
          { e with position := e.position % size }) := by
  induction fuel generalizing items offset k with
  | zero =>
    obtain rfl := List.eq_nil_of_length_eq_zero (Nat.le_zero.mp hfuel)
    rfl
  | succ fuel ih =>
    cases hitems : items with
    | nil => rfl
    | cons item rest =>
      rw [← hitems]
      have hunfold : chunksOf size (fuel + 1) items =
          items.take size :: chunksOf size fuel (items.drop size) := by
        rw [hitems]
        rfl
      have hlength : (items.drop size).length ≤ fuel := by
        rw [List.length_drop]
        omega
      rw [hunfold, resultsFrom_cons, shiftedErrors, ih hlength]
      conv =>
        rhs
        rw [← List.take_append_drop size items, chunkErrors_append, List.map_append, List.map_map]
      refine congrArg₂ (· ++ ·) ?_ ?_
      · refine List.map_congr_left (fun e he => ?_)
        have hlt : e.position < size := by
          have := position_lt he
          rw [List.length_take] at this
          omega
        rw [Nat.div_eq_of_lt hlt, Nat.mod_eq_of_lt hlt, Nat.zero_mul]
        rfl
      · refine List.map_congr_left (fun e he => ?_)
        -- there are errors after the chunk, so it is full
        have hfull : (items.take size).length = size := by
          have := position_lt he
          rw [List.length_drop] at this
          rw [List.length_take]
          omega
        show _ = ItemError.shifted (offset + ((items.take size).length + e.position) / size * size)
          { e with position := ((items.take size).length + e.position) % size }
        rw [hfull, Nat.add_div_left _ hsize, Nat.add_mod_left, Nat.succ_mul,
          Nat.add_assoc offset size, Nat.add_comm size]

/-! ## Reports -/

theorem mergeSort_results {results : List ChunkResult} {chunks : List (List Value)}
    (hperm : results.Perm (chunkResults schema chunks)) :
    results.mergeSort (fun a b => a.index ≤ b.index) = chunkResults schema chunks := by
  have hindices : (chunkResults schema chunks).map ChunkResult.index =
      List.range' 0 chunks.length := by
    unfold chunkResults
    rw [List.map_map]
    exact List.zipIdx_map_snd 0 chunks
  have hsorted : (chunkResults schema chunks).Pairwise
      (fun a b => decide (a.index ≤ b.index)) := by
    have hlt : (chunkResults schema chunks).Pairwise (fun a b => a.index < b.index) := by
      rw [← List.pairwise_map, hindices]
      exact List.pairwise_lt_range'
    exact hlt.imp (fun h => decide_eq_true (Nat.le_of_lt h))
  have hnodup : ((chunkResults schema chunks).map ChunkResult.index).Nodup := by
    rw [hindices]
    exact List.nodup_range'
  have hmerge := (List.mergeSort_perm results (fun a b => a.index ≤ b.index)).trans hperm
  refine List.Perm.eq_of_pairwise (fun a b ha hb hab hba => ?_)
    (List.pairwise_mergeSort (fun a b c => ?_) (fun a b => ?_) results) hsorted hmerge
  · refine List.inj_on_of_nodup_map hnodup (hmerge.mem_iff.mp ha) hb ?_
    exact Nat.le_antisymm (of_decide_eq_true hab) (of_decide_eq_true hba)
  · simp only [decide_eq_true_eq]
    omega
  · simp only [Bool.or_eq_true, decide_eq_true_eq]
    omega

def batchReport (schema : Value) (size : Nat) (items : List Value) : BatchReport :=
  { isValid := (chunkErrors schema items).isEmpty
    total := items.length
    valid := items.length - items.countP (fails schema)
    invalid := items.countP (fails schema)
    errors := ((chunkErrors schema items).take errorLimit).map (ItemError.chunked size) }

theorem combine_eq {results : List ChunkResult} {workers : Int}
    (hperm : results.Perm (chunkResults schema (chunks items workers))) :
    combine results = batchReport schema (chunkSize items.length workers) items := by
  have hcount := itemCount_resultsFrom schema 0 (chunks items workers)
  have hvalid := validCount_resultsFrom schema 0 (chunks items workers)
  have herrors := shiftedErrors_chunksOf schema (chunkSize_pos items.length workers)
    (Nat.le_refl items.length) 0 0
  simp only [Nat.zero_add] at herrors
  rw [flatten_chunks] at hcount hvalid
  change itemCount (chunkResults schema (chunks items workers)) = _ at hcount
  change validCount (chunkResults schema (chunks items workers)) + _ = _ at hvalid
  change shiftedErrors 0 (chunkResults schema (chunks items workers)) =
    (chunkErrors schema items).map (ItemError.chunked (chunkSize items.length workers)) at herrors
  have hvalid' := Nat.eq_sub_of_add_eq hvalid
  have hle := List.countP_le_length (p := fails schema) (l := items)
  unfold combine batchReport
  rw [mergeSort_results hperm]
  dsimp only
  rw [herrors, hcount, hvalid', List.isEmpty_map, Nat.sub_sub_self hle, List.map_take]

theorem validateBatch_eq (schema : Value) (items : List Value) {workers : Int}
    (hworkers : workers ≠ 0) : validateBatch items schema workers =
      .ok (batchReport schema (chunkSize items.length workers) items) := by
  unfold validateBatch
  cases items with
  | nil => rfl
  | cons item items =>
    rw [if_neg (by simp), if_neg hworkers, combine_eq (List.Perm.refl _)]

/-- What a report should tell about items: how many they are, how many of them fail, and which ones
the first fifty of these are. -/
structure BatchReport.Accurate (schema : Value) (items : List Value) (r : BatchReport) : Prop where
  total : r.total = items.length
  invalid : r.invalid = items.countP (fails schema)
  valid : r.valid + r.invalid = r.total
  isValid : r.isValid = true ↔ ∀ item ∈ items, fails schema item = false
  errorCount : r.errors.length = min 50 r.invalid
  numbered : ∀ j error, r.errors[j]? = some error → ∃ g item, items[g]? = some item
    ∧ fails schema item = true ∧ (items.take g).countP (fails schema) = j
    ∧ Text.startsWith error (ItemError.label g) = true

theorem startsWith_chunked (size : Nat) (e : ItemError) :
    Text.startsWith (e.chunked size) (ItemError.label e.position) := by
  have hstarts := ItemError.startsWith_shifted (e.position / size * size)
    { e with position := e.position % size }
  rwa [Nat.div_add_mod'] at hstarts

theorem accurate_batchReport (schema : Value) (size : Nat) (items : List Value) :
    (batchReport schema size items).Accurate schema items where
  total := rfl
  invalid := rfl
  valid := Nat.sub_add_cancel List.countP_le_length
  isValid := by
    show (chunkErrors schema items).isEmpty ↔ _
    rw [List.isEmpty_iff_length_eq_zero, length_chunkErrors, List.countP_eq_zero]
    simp only [Bool.not_eq_true]
  errorCount := by
    show (((chunkErrors schema items).take errorLimit).map (ItemError.chunked size)).length = _
    rw [List.length_map, List.length_take, length_chunkErrors]
    rfl
  numbered j error herror := by
    change (((chunkErrors schema items).take errorLimit).map (ItemError.chunked size))[j]? = _
      at herror
    rw [List.getElem?_map] at herror
    obtain ⟨e, he, rfl⟩ := Option.map_eq_some_iff.mp herror
    rw [List.getElem?_take] at he
    obtain ⟨-, he⟩ := Option.ite_none_right_eq_some.mp he
    obtain ⟨item, hitem, hfails, hcount⟩ := getElem?_chunkErrors he
    exact ⟨e.position, item, hitem, hfails, hcount, startsWith_chunked size e⟩

/-- Whichever worker finishes first, the report is the same, and it is accurate. -/
theorem batch_accurate {results : List ChunkResult} {workers : Int} (hworkers : workers ≠ 0)
    (hperm : results.Perm (chunkResults schema (chunks items workers))) :
    validateBatch items schema workers = .ok (combine results)
      ∧ (combine results).Accurate schema items := by
  rw [combine_eq hperm]
  exact ⟨validateBatch_eq schema items hworkers, accurate_batchReport schema _ items⟩

def wholeNumbers : Value :=
  .object [("type", .str "integer")]

def mixedItems : List Value :=
  [.int 1, .str "Item 0: x", .null]

theorem chunkErrors_mixedItems : chunkErrors wholeNumbers mixedItems =
      [{ position := 1, reason := "'Item 0: x' is not of type 'integer'" },
        { position := 2, reason := "None is not of type 'integer'" }] := by
  decide +kernel

theorem batch_accurate_reversed :
    ∃ results, results.Perm (chunkResults wholeNumbers (chunks mixedItems 3))
      ∧ validateBatch mixedItems wholeNumbers 3 = .ok (combine results)
      ∧ (combine results).Accurate wholeNumbers mixedItems ∧ (combine results).invalid = 2 := by
  have hperm := List.reverse_perm (chunkResults wholeNumbers (chunks mixedItems 3))
  obtain ⟨hreport, haccurate⟩ := batch_accurate (by decide) hperm
  refine ⟨_, hperm, hreport, haccurate, ?_⟩
  rw [haccurate.invalid, ← length_chunkErrors, chunkErrors_mixedItems]
  rfl

end SheetIntake.Schema
