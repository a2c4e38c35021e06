import Mathlib.Data.List.Chain
import SheetIntake.Proofs.Jobs
import SheetIntake.Registry.History

/-!
# What removals take back

The document of an import name has an active schema and a list of releases. `Store.Keeps` is the view
of a store that both operations are described by:

* `Store.Keeps.run_save` — a schema that differs from the active one becomes active and is *also* the
  last release.
* `Store.Keeps.run_remove` — a removal makes the last release active and drops it.
* `Store.Keeps.run_remove_first` — without releases there is nothing that a removal could do, and it
  fails.

So the last release is the active schema itself, and the first removal after a save changes nothing
but the list. After any number of saves and removals the active schema is one save later than the
number of removals tells (`active_after_removals`).
-/

namespace SheetIntake.Registry

open Assoc
open Job (run run_bind run_pure)

variable {s : Store} {name now : String} {active : Value} {releases : List Value}

/-! ## Requests to a registry that can be reached -/

theorem servers_of_reachable (h : s.reachable) (request : Request) :
    servers request s = s.respond request := by
  unfold servers
  rw [if_pos h]

theorem run_findFirst (h : s.reachable) (filter : Document) :
    run servers (findFirst filter) s = (.ok (s.documents.find? (accepts filter)), s) := by
  show servers (.findFirst filter) s = _
  rw [servers_of_reachable h]
  rfl

theorem run_count_all (h : s.reachable) :
    run servers (count []) s = (.ok s.documents.length, s) := by
  have hall : s.documents.filter (accepts []) = s.documents :=
    List.filter_eq_self.mpr (fun _ _ => rfl)
  show servers (.count []) s = _
  rw [servers_of_reachable h]
  show (Except.ok (s.documents.filter (accepts [])).length, s) = _
  rw [hall]

theorem run_insert (h : s.reachable) (d : Document) :
    run servers (insert d) s = (.ok (), { s with documents := s.documents ++ [d] }) := by
  show servers (.insert d) s = _
  rw [servers_of_reachable h]
  rfl

theorem run_update (h : s.reachable) {filter : Document} {change : Change}
    {result : UpdateResult} {documents : List Document}
    (hupdate : Store.updateFirst filter change s.documents = .ok (result, documents)) :
    run servers (update filter change) s = (.ok result, { s with documents }) := by
  show servers (.update filter change) s = _
  rw [servers_of_reachable h]
  simp only [Store.respond, hupdate]
  rfl

/-! ## The document of an import name -/

namespace Store

def documentOf? (s : Store) (name : String) : Option Document :=
  s.documents.find? (accepts (named (.str name)))

def activeOf? (s : Store) (name : String) : Option Value :=
  (s.documentOf? name).bind (Assoc.get? "active_schema")

end Store

theorem accepts_named {d : Document} :
    accepts (named (.str name)) d ↔ get? "import_name" d = some (.str name) := by
  unfold accepts named
  rw [List.all_cons, List.all_nil, Bool.and_true]
  cases get? "import_name" d with
  | none => simp
  | some v =>
    rw [Value.alike_str, Option.some.injEq]

def release (schema : Value) : Value :=
  .object [("schema", schema)]

theorem release_injective : Function.Injective release := by
  intro a b h
  unfold release at h
  simpa using h

theorem truthy_releases (releases : List Value) (last : Value) :
    (Value.list ((releases ++ [last]).map release)).truthy := by
  simp [Value.truthy]

theorem lastRelease_concat (releases : List Value) (last : Value) :
    lastRelease (.list ((releases ++ [last]).map release)) = .ok (release last) := by
  simp [lastRelease]

theorem memberOr_release (schema default : Value) :
    (release schema).memberOr "schema" default = .ok schema := rfl

/-- What both operations make of a document: it has another active schema, another date and other
releases, and keeps the rest. -/
def revised (d : Document) (active : Value) (now : String) (releases : List Value) : Document :=
  Assoc.put "schemas_releases" (.list (releases.map release))
    (Assoc.put "created_at" (.str now) (Assoc.put "active_schema" active d))

theorem get?_import_name_revised (d : Document) :
    get? "import_name" (revised d active now releases) = get? "import_name" d := by
  unfold revised
  rw [get?_put_of_ne (by decide), get?_put_of_ne (by decide), get?_put_of_ne (by decide)]

theorem get?_active_schema_revised (d : Document) :
    get? "active_schema" (revised d active now releases) = some active := by
  unfold revised
  rw [get?_put_of_ne (by decide), get?_put_of_ne (by decide), get?_put_self]

theorem get?_schemas_releases_revised (d : Document) :
    get? "schemas_releases" (revised d active now releases) = some (.list (releases.map release)) :=
  get?_put_self ..

theorem get?_schemas_releases_put (d : Document) : get? "schemas_releases"
        (put "created_at" (.str now) (put "active_schema" active d)) =
      get? "schemas_releases" d := by
  rw [get?_put_of_ne (by decide), get?_put_of_ne (by decide)]

section

variable {d : Document} (h : get? "schemas_releases" d = some (.list (releases.map release)))
  (schema : Value) (now : String)

include h

theorem apply_push :
    Change.apply { set := [("active_schema", schema), ("created_at", .str now)]
                   push := [("schemas_releases", release schema)] } d =
      .ok (revised d schema now (releases ++ [schema])) := by
  have hpushed : Change.pushed
      (put "created_at" (.str now) (put "active_schema" schema d)) "schemas_releases"
        (release schema) = .ok (revised d schema now (releases ++ [schema])) := by
    unfold Change.pushed revised
    rw [get?_schemas_releases_put, h, List.map_append]
    rfl
  unfold Change.apply
  simp only [Assoc.merge, List.foldl_cons, List.foldl_nil, List.foldlM_cons, List.foldlM_nil, hpushed]
  rfl

theorem apply_pop :
    Change.apply { set := [("active_schema", schema), ("created_at", .str now)]
                   pop := ["schemas_releases"] } d =
      .ok (revised d schema now releases.dropLast) := by
  have hpopped : Change.popped
      (put "created_at" (.str now) (put "active_schema" schema d)) "schemas_releases" =
        revised d schema now releases.dropLast := by
    unfold Change.popped revised
    rw [get?_schemas_releases_put, h, List.map_dropLast]
  exact congrArg Except.ok hpopped

end

theorem updateFirst_split {filter d : Document} {before : List Document} (change : Change)
    (after : List Document) (hd : accepts filter d) (hbefore : ∀ e ∈ before, !accepts filter e) :
    Store.updateFirst filter change (before ++ d :: after) = (change.apply d).map fun e =>
      (⟨true, !(Value.object d).alike (.object e)⟩, before ++ e :: after) := by
  induction before with
  | nil =>
    rw [List.nil_append, Store.updateFirst, if_pos hd]
    cases change.apply d <;> rfl
  | cons e before ih =>
    obtain ⟨he, hbefore⟩ := List.forall_mem_cons.mp hbefore
    rw [List.cons_append, Store.updateFirst, if_neg (by simpa using he), ih hbefore]
    cases change.apply d <;> rfl

/-! ## One operation -/

/-- A store that can be reached and has a document for an import name, with an active schema and
releases. -/
structure Store.Keeps (s : Store) (name : String) (active : Value) (releases : List Value) : Prop where
  reachable : s.reachable = true
  document : ∃ d, s.documentOf? name = some d ∧ Assoc.get? "active_schema" d = some active
    ∧ Assoc.get? "schemas_releases" d = some (.list (releases.map release))

theorem run_saveSchema_of_none (hreachable : s.reachable) (hnone : s.documentOf? name = none)
    (members : Document) (now : String) :
    ∃ answer t, run servers (saveSchema (.object members) (.str name) now) s = (.ok answer, t)
      ∧ t.Keeps name (.object members) [] := by
  let d := firstDocument (.str name) (.object members) now
  have hfind : Store.documentOf? { s with documents := s.documents ++ [d] } name = some d := by
    have haccepts : accepts (named (.str name)) d := accepts_named.mpr rfl
    show (s.documents ++ [d]).find? (accepts (named (.str name))) = some d
    rw [List.find?_append, show s.documents.find? _ = none from hnone, Option.none_or,
      List.find?_cons_of_pos haccepts]
  refine ⟨.object [("status", .str "inserted"), ("acknowledged", .bool true)],
    { s with documents := s.documents ++ [d] }, ?_, hreachable, d, hfind, rfl, rfl⟩
  simp only [saveSchema, run_bind, run_findFirst hreachable, run_count_all hreachable,
    show s.documents.find? _ = none from hnone, copied, Job.run_ofExcept, run_insert hreachable,
    run_pure]
  rfl

namespace Store.Keeps

theorem activeOf? (h : s.Keeps name active releases) : s.activeOf? name = some active := by
  obtain ⟨d, hd, hactive, -⟩ := h.document
  rw [Store.activeOf?, hd, Option.bind_some, hactive]

theorem run_update {d : Document} {change : Change} {schema : Value}
    (hreachable : s.reachable) (hd : s.documentOf? name = some d)
    (happly : change.apply d = .ok (revised d schema now releases)) :
    ∃ result t, run servers (update (named (.str name)) change) s = (.ok result, t)
      ∧ t.Keeps name schema releases := by
  have haccepts : accepts (named (.str name)) (revised d schema now releases) := by
    rw [accepts_named, get?_import_name_revised, ← accepts_named]
    exact List.find?_some hd
  obtain ⟨hfound, before, after, hsplit, hbefore⟩ := List.find?_eq_some_iff_append.mp hd
  have hupdate := updateFirst_split change after hfound hbefore
  rw [← hsplit, happly] at hupdate
  exact ⟨_, _, Registry.run_update hreachable hupdate, hreachable, _,
    List.find?_eq_some_iff_append.mpr ⟨haccepts, before, after, rfl, hbefore⟩,
    get?_active_schema_revised d, get?_schemas_releases_revised d⟩

theorem run_save (h : s.Keeps name active releases) {members : Document} (now : String)
    (hdiffer : active.alike (.object members) = false) :
    ∃ answer t, run servers (saveSchema (.object members) (.str name) now) s = (.ok answer, t)
      ∧ t.Keeps name (.object members) (releases ++ [.object members]) := by
  obtain ⟨d, hd, hactive, hreleases⟩ := h.document
  have hsome : decide (s.documents.length = 0) = false :=
    decide_eq_false (List.length_pos_of_mem (List.mem_of_find?_eq_some hd)).ne'
  obtain ⟨result, t, hupdate, hkeeps⟩ :=
    run_update h.reachable hd (apply_push hreleases (.object members) now)
  refine ⟨.object (("status", .str "Active Schema Updated") :: result.members), t, ?_, hkeeps⟩
  unfold release at hupdate
  simp only [saveSchema, run_bind, run_findFirst h.reachable, run_count_all h.reachable,
    show s.documents.find? _ = some d from hd, hsome, Value.member, hactive, Job.run_ofExcept,
    hdiffer, Bool.false_eq_true, if_false, copied, hupdate, run_pure]

theorem run_remove {last : Value} (h : s.Keeps name active (releases ++ [last])) (now : String) :
    ∃ answer t, run servers (removeSchema (.str name) now) s = (.ok answer, t)
      ∧ t.Keeps name last releases := by
  obtain ⟨d, hd, -, hreleases⟩ := h.document
  obtain ⟨result, t, hupdate, hkeeps⟩ := run_update h.reachable hd (apply_pop hreleases last now)
  rw [List.dropLast_concat] at hkeeps
  refine ⟨.object (("status", .str "Active Schema Replaced with Last Release") :: result.members), t,
    ?_, hkeeps⟩
  simp only [removeSchema, run_bind, run_findFirst h.reachable,
    show s.documents.find? _ = some d from hd, hreleases, Option.getD_some, truthy_releases,
    Bool.not_true, Bool.false_eq_true, if_false, lastRelease_concat, memberOr_release,
    Job.run_ofExcept, hupdate, run_pure]

theorem run_remove_first (h : s.Keeps name active []) (now : String) :
    run servers (removeSchema (.str name) now) s =
      (.error (.noSuchOperation "MongoConnection" "delete_one"), s) := by
  obtain ⟨d, hd, -, hreleases⟩ := h.document
  have hempty : (Value.list ([].map release)).truthy = false := rfl
  simp only [removeSchema, run_bind, run_findFirst h.reachable,
    show s.documents.find? _ = some d from hd, hreleases, Option.getD_some, hempty, Bool.not_false,
    if_true, Job.run_throw]

end Store.Keeps

/-! ## Runs of saves and removals -/

def saves (name : String) (entries : List (Document × String)) : List (Job protocol Value) :=
  entries.map (fun e => saveSchema (.object e.1) (.str name) e.2)

def savedSchemas (entries : List (Document × String)) : List Value :=
  entries.map (fun e => .object e.1)

def removals (name : String) (moments : List String) : List (Job protocol Value) :=
  moments.map (removeSchema (.str name))

namespace Store.Keeps

theorem run_saves {entries : List (Document × String)} (h : s.Keeps name active releases)
    (hdiffer : (active :: savedSchemas entries).IsChain (fun a b => a.alike b = false)) :
    ∃ answers t, Job.runEach servers (saves name entries) s = (answers, t)
      ∧ (∀ answer ∈ answers, answer.isOk)
      ∧ t.Keeps name ((savedSchemas entries).getLastD active) (releases ++ savedSchemas entries) := by
  induction entries generalizing s active releases with
  | nil => exact ⟨[], s, rfl, nofun, by simpa [savedSchemas] using h⟩
  | cons e rest ih =>
    obtain ⟨hfirst, hrest⟩ := List.isChain_cons_cons.mp hdiffer
    obtain ⟨answer, t, hrun, hkeeps⟩ := h.run_save e.2 hfirst
    obtain ⟨answers, u, hruns, hoks, hkeeps⟩ := ih hkeeps hrest
    refine ⟨.ok answer :: answers, u, Job.runEach_cons hrun hruns,
      List.forall_mem_cons.mpr ⟨rfl, hoks⟩, ?_⟩
    rw [List.append_assoc] at hkeeps
    rwa [savedSchemas, List.map_cons, List.getLastD_cons]

theorem run_removals (h : s.Keeps name active releases) (moments : List String) :
    ∃ answers t, Job.runEach servers (removals name moments) s = (answers, t)
      ∧ ((∀ answer ∈ answers, answer.isOk) ↔ moments.length ≤ releases.length)
      ∧ t.Keeps name ((releases.drop (releases.length - moments.length)).headD active)
          (releases.take (releases.length - moments.length)) := by
  induction moments generalizing s active releases with
  | nil => exact ⟨[], s, rfl, by simp, by simpa using h⟩
  | cons now rest ih =>
    rcases List.eq_nil_or_concat' releases with rfl | ⟨earlier, last, rfl⟩
    · -- this removal fails and leaves the store as it is, and so do all later ones
      obtain ⟨answers, t, hruns, -, hkeeps⟩ := ih h
      refine ⟨_, t, Job.runEach_cons (h.run_remove_first now) hruns, ?_, by simpa using hkeeps⟩
      rw [List.forall_mem_cons, List.length_cons, List.length_nil]
      exact ⟨fun hoks => absurd hoks.1 Bool.false_ne_true, fun hle => absurd hle (by omega)⟩
    · obtain ⟨answer, t, hrun, hkeeps⟩ := h.run_remove now
      obtain ⟨answers, u, hruns, hoks, hkeeps⟩ := ih hkeeps
      have hcount : (earlier ++ [last]).length - (now :: rest).length =
          earlier.length - rest.length := by simp
      have hle : earlier.length - rest.length ≤ earlier.length := Nat.sub_le ..
      have hhead (xs : List Value) : (xs ++ [last]).headD active = xs.headD last := by
        cases xs <;> rfl
      refine ⟨.ok answer :: answers, u, Job.runEach_cons hrun hruns, ?_, ?_⟩
      · rw [List.forall_mem_cons, hoks, List.length_append, List.length_cons, List.length_singleton,
          Nat.add_le_add_iff_right]
        exact and_iff_right rfl
      · rwa [hcount, List.drop_append_of_le_length hle, List.take_append_of_le_length hle, hhead]

end Store.Keeps

/-- Where the active schema after removals stands among all that were saved. -/
theorem active_eq_getElem? (first : Value) (rest : List Value) (k : Nat) :
    some ((rest.drop (rest.length - k)).headD (rest.getLastD first)) =
      (first :: rest)[rest.length + 1 - max 1 (min k rest.length)]? := by
  rcases Nat.eq_zero_or_pos (min k rest.length) with hzero | hpos
  · -- nothing was removed, or there was nothing to remove
    have hdrop : rest.drop (rest.length - k) = [] := List.drop_eq_nil_of_le (by omega)
    rw [hdrop, hzero, Nat.max_eq_left (by omega), Nat.add_sub_cancel]
    show some (rest.getLastD first) = _
    rw [List.getLastD_eq_getLast?, ← List.getLast?_cons, List.getLast?_eq_getElem?, List.length_cons,
      Nat.add_sub_cancel]
  · have hlt : rest.length - k < rest.length := by omega
    have hindex : rest.length + 1 - max 1 (min k rest.length) = rest.length - k + 1 := by omega
    rw [hindex, List.getElem?_cons_succ, List.drop_eq_getElem_cons hlt, List.headD_cons,
      List.getElem?_eq_getElem hlt]

/-- For an import name without a document, saves of schemas of which neighbours differ, and removals
after them: the removals succeed as long as they are fewer than the saves, and then fail, so that the
document stays. The active schema is the last one that was saved after no removal and after one, the
one before it after two, and so on; after a removal it is never the one that the number of removals
leads back to. -/
theorem active_after_removals {t : Store} {entries : List (Document × String)} {moments : List String}
    {answers : List (Except Fault Value)} (hreachable : s.reachable = true)
    (hfree : s.documentOf? name = none) (hsome : entries ≠ [])
    (hdiffer : (savedSchemas entries).IsChain (fun a b => a.alike b = false))
    (hrun : Job.runEach servers (saves name entries ++ removals name moments) s = (answers, t)) :
    ((∀ answer ∈ answers, answer.isOk = true) ↔ moments.length < entries.length)
      ∧ t.activeOf? name =
          (savedSchemas entries)[entries.length - max 1 (min moments.length (entries.length - 1))]?
      ∧ (0 < moments.length → moments.length < entries.length →
          ∃ wanted active, (savedSchemas entries)[entries.length - 1 - moments.length]? = some wanted
            ∧ t.activeOf? name = some active ∧ wanted.alike active = false) := by
  obtain ⟨⟨first, now⟩, rest, rfl⟩ := List.exists_cons_of_ne_nil hsome
  obtain ⟨answer, u, hfirst, hkeeps⟩ := run_saveSchema_of_none hreachable hfree first now
  obtain ⟨saved, v, hsaves, hsaved, hkeeps⟩ := hkeeps.run_saves hdiffer
  obtain ⟨removed, w, hremovals, hremoved, hkeeps⟩ := hkeeps.run_removals moments
  obtain ⟨rfl, rfl⟩ := Prod.mk.inj
    (hrun.symm.trans (Job.runEach_cons hfirst (Job.runEach_append hsaves hremovals)))
  have hlength : (savedSchemas rest).length = rest.length := List.length_map ..
  have hactive : t.activeOf? name = (savedSchemas ((first, now) :: rest))[
      rest.length + 1 - max 1 (min moments.length rest.length)]? := by
    rw [hkeeps.activeOf?, List.nil_append, ← hlength]
    exact active_eq_getElem? ..
  refine ⟨?_, hactive, fun hpos hlt => ?_⟩
  · rw [List.nil_append, hlength] at hremoved
    rw [List.forall_mem_cons, List.forall_mem_append, hremoved, List.length_cons, Nat.lt_succ_iff]
    exact ⟨fun h => h.2.2, fun h => ⟨rfl, hsaved, h⟩⟩
  · -- the active schema is the neighbour of the wanted one
    rw [List.length_cons] at hlt ⊢
    have hbound : rest.length - moments.length + 1 < (savedSchemas ((first, now) :: rest)).length := by
      rw [savedSchemas, List.length_map, List.length_cons]
      omega
    have hindex : rest.length + 1 - max 1 (min moments.length rest.length) =
        rest.length - moments.length + 1 := by omega
    refine ⟨_, _, List.getElem?_eq_getElem (Nat.lt_of_succ_lt hbound), ?_,
      List.isChain_iff_getElem.mp hdiffer _ hbound⟩
    rw [hactive, hindex, List.getElem?_eq_getElem hbound]

def typeSchema (type : String) : Document :=
  [("type", .str type)]

def typeSaves : List (Document × String) :=
  [(typeSchema "object", "1"), (typeSchema "array", "2"), (typeSchema "null", "3")]

/-- Three saves and two removals: the second schema is active. -/
theorem active_after_two_removals :
    let run := Job.runEach servers (saves "imp" typeSaves ++ removals "imp" ["4", "5"]) {}
    (∀ answer ∈ run.1, answer.isOk = true)
      ∧ run.2.activeOf? "imp" = some (.object (typeSchema "array")) := by
  intro run
  have hdiffer : (savedSchemas typeSaves).IsChain (fun a b => a.alike b = false) := by decide
  have hrun : Job.runEach servers (saves "imp" typeSaves ++ removals "imp" ["4", "5"]) {} =
      (run.1, run.2) := rfl
  obtain ⟨hoks, hactive, -⟩ := active_after_removals rfl rfl (by decide) hdiffer hrun
  exact ⟨hoks.mpr (by decide), hactive⟩

/-- Two saves and a removal, all of which succeed: the second schema stays active. -/
theorem latest_schema_stays_active :
    let run := Job.runEach servers (saves "imp" (typeSaves.take 2) ++ removals "imp" ["3"]) {}
    (∀ answer ∈ run.1, answer.isOk = true)
      ∧ run.2.activeOf? "imp" = some (.object (typeSchema "array"))
      ∧ run.2.activeOf? "imp" ≠ some (.object (typeSchema "object")) := by
  decide

end SheetIntake.Registry
