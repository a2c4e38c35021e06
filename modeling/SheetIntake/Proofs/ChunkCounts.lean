import SheetIntake.Proofs.Batches

/-!
# How many chunks there are

A worker is started for each chunk. Chunks are as long as the items divided by the workers, rounded
down, so what the division leaves over goes to chunks that no worker was meant for.

* `length_chunksOf_le_iff` — how many chunks of one length the items need.
* `workers_suffice_iff` — when there are no more chunks than workers.
* `third_worker_is_started` — three items for two workers.
-/

namespace SheetIntake.Schema

variable {α : Type} {size fuel : Nat} {items : List α}

theorem ne_nil_of_mem_chunksOf (hsize : 0 < size) {chunk : List α}
    (h : chunk ∈ chunksOf size fuel items) : chunk ≠ [] := by
  induction fuel generalizing items with
  | zero => exact absurd h List.not_mem_nil
  | succ fuel ih =>
    cases items with
    | nil => exact absurd h List.not_mem_nil
    | cons item items =>
      rcases List.mem_cons.mp h with rfl | hrest
      · rw [List.take_cons hsize]
        exact List.cons_ne_nil _ _
      · exact ih hrest

theorem length_chunksOf_le_iff (hsize : 0 < size) (hfuel : items.length ≤ fuel) {n : Nat} :
    (chunksOf size fuel items).length ≤ n ↔ items.length ≤ n * size := by
  induction fuel generalizing items n with
  | zero =>
    rw [List.eq_nil_of_length_eq_zero (Nat.le_zero.mp hfuel)]
    exact iff_of_true (Nat.zero_le _) (Nat.zero_le _)
  | succ fuel ih =>
    cases items with
    | nil => exact iff_of_true (Nat.zero_le _) (Nat.zero_le _)
    | cons item items =>
      have hrest : ((item :: items).drop size).length ≤ fuel := by
        rw [List.length_drop]
        omega
      show (chunksOf size fuel ((item :: items).drop size)).length + 1 ≤ n ↔ _
      -- one chunk is the first, and the others hold what is left without it
      cases n with
      | zero => simp
      | succ n =>
        rw [Nat.succ_le_succ_iff, ih hrest, List.length_drop, Nat.succ_mul]
        omega

theorem le_mul_chunkSize_iff {count workers : Nat} (hworkers : 0 < workers) :
    count ≤ workers * chunkSize count workers ↔ count ≤ workers ∨ workers ∣ count := by
  have hsize : chunkSize count workers = max 1 (count / workers) := by
    rw [chunkSize, ← Int.ofNat_fdiv, Int.toNat_natCast]
  have hdivision := Nat.div_add_mod count workers
  rw [hsize, Nat.dvd_iff_mod_eq_zero]
  rcases Nat.lt_or_ge count workers with hless | hge
  · rw [Nat.div_eq_of_lt hless, Nat.max_eq_left (Nat.zero_le 1), Nat.mul_one]
    omega
  · have hquotient : 1 ≤ count / workers := (Nat.one_le_div_iff hworkers).mpr hge
    rw [Nat.max_eq_right hquotient]
    constructor
    · intro hle
      exact .inr (by omega)
    · rintro (hle | hzero)
      · exact Nat.le_trans hle (Nat.le_mul_of_pos_right _ hquotient)
      · omega

/-- A batch is cut into chunks that are not empty and make up the items again, and each gives one
result. There are no more of them than workers exactly when there are no more items than workers, or
the items can be shared out evenly. -/
theorem workers_suffice_iff (schema : Value) {items : List Value} (hitems : items ≠ [])
    {workers : Int} (hworkers : 1 ≤ workers) :
    validateBatch items schema workers = .ok (combine (chunkResults schema (chunks items workers)))
      ∧ (chunkResults schema (chunks items workers)).length = (chunks items workers).length
      ∧ (∀ chunk ∈ chunks items workers, chunk ≠ []) ∧ (chunks items workers).flatten = items
      ∧ ((chunks items workers).length ≤ workers ↔
        items.length ≤ workers ∨ workers ∣ items.length) := by
  obtain ⟨n, rfl⟩ := Int.eq_ofNat_of_zero_le (Int.le_trans Int.one_nonneg hworkers)
  have hsize := chunkSize_pos items.length n
  refine ⟨?_, by simp [chunkResults], fun _ => ne_nil_of_mem_chunksOf hsize, flatten_chunks _ _, ?_⟩
  · rw [validateBatch, if_neg (by simpa using hitems), if_neg (by omega)]
  · rw [Int.ofNat_le, Int.ofNat_le, Int.natCast_dvd_natCast, chunks,
      length_chunksOf_le_iff hsize (Nat.le_refl _)]
    exact le_mul_chunkSize_iff (by omega)

theorem three_workers_share_six_items :
    ∃ results, validateBatch (List.replicate 6 .null) wholeNumbers 3 = .ok (combine results)
      ∧ results.length ≤ (3 : Int) := by
  obtain ⟨hreport, hlength, -, -, hsuffice⟩ :=
    workers_suffice_iff wholeNumbers (List.cons_ne_nil Value.null (List.replicate 5 .null))
      (show (1 : Int) ≤ 3 by decide)
  refine ⟨_, hreport, ?_⟩
  rw [hlength]
  exact hsuffice.mpr (.inr (by decide))

/-- A number, and two texts that look like the first item's label. -/
def labelledItems : List Value :=
  [.int 1, .str "Item 0: a", .str "Item 0: b"]

theorem third_worker_is_started :
    chunks labelledItems 2 = [[.int 1], [.str "Item 0: a"], [.str "Item 0: b"]] := rfl

end SheetIntake.Schema
