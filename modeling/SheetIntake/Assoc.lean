/-!
# Finite maps in insertion order

A map is a list of pairs. A key that is put again keeps its place and gets the new value; a new key
goes to the end.
-/

namespace SheetIntake.Assoc

variable {α β : Type}

def get? [DecidableEq α] (key : α) : List (α × β) → Option β
  | [] => none
  | (k, v) :: rest => if k = key then some v else get? key rest

def put [DecidableEq α] (key : α) (value : β) : List (α × β) → List (α × β)
  | [] => [(key, value)]
  | (k, v) :: rest => if k = key then (k, value) :: rest else (k, v) :: put key value rest

def erase [DecidableEq α] (key : α) (entries : List (α × β)) : List (α × β) :=
  entries.filter (fun e => e.1 ≠ key)

def keys (entries : List (α × β)) : List α :=
  entries.map Prod.fst

def merge [DecidableEq α] (entries added : List (α × β)) : List (α × β) :=
  added.foldl (fun m e => put e.1 e.2 m) entries

attribute [local simp] get? put

@[simp]
theorem get?_put_self [DecidableEq α] (key : α) (value : β) (entries : List (α × β)) :
    get? key (put key value entries) = some value := by
  induction entries with
  | nil => simp
  | cons e rest ih =>
    by_cases h : e.1 = key <;> simp [h, ih]

theorem get?_put_of_ne [DecidableEq α] {key other : α} (h : other ≠ key) (value : β)
    (entries : List (α × β)) : get? other (put key value entries) = get? other entries := by
  induction entries with
  | nil => simp [h.symm]
  | cons e rest ih =>
    obtain ⟨k, v⟩ := e
    by_cases hk : k = key
    · subst hk
      simp [h.symm]
    · simp only [put, get?, if_neg hk, ih]

theorem get?_map {γ : Type} [DecidableEq α] (f : α → β → γ) (key : α) (entries : List (α × β)) :
    get? key (entries.map (fun e => (e.1, f e.1 e.2))) = (get? key entries).map (f key) := by
  induction entries with
  | nil => rfl
  | cons e rest ih =>
    obtain ⟨k, v⟩ := e
    rw [List.map_cons, get?, get?]
    split
    · next h => rw [h, Option.map_some]
    · exact ih

theorem get?_append_of_get? [DecidableEq α] {key : α} {value : β} {entries : List (α × β)}
    (h : get? key entries = some value) (later : List (α × β)) :
    get? key (entries ++ later) = some value := by
  induction entries with
  | nil => exact absurd h (Option.some_ne_none value).symm
  | cons e rest ih =>
    rw [get?] at h
    rw [List.cons_append, get?]
    split at h
    · next hk => rwa [if_pos hk]
    · next hk => rw [if_neg hk, ih h]

theorem mem_of_get? [DecidableEq α] {key : α} {value : β} {entries : List (α × β)}
    (h : get? key entries = some value) : (key, value) ∈ entries := by
  induction entries with
  | nil => exact absurd h (by nofun)
  | cons e rest ih =>
    rw [get?] at h
    split at h
    · next hk =>
      obtain rfl := Option.some.inj h
      rw [← hk]
      exact List.mem_cons_self
    · exact List.mem_cons_of_mem e (ih h)

end SheetIntake.Assoc
