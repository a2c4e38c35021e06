import SheetIntake.Proofs.FileSummaries

/-!
# What the work on a message comes to

Where the record of the task is kept, the work of both workers comes to an outcome, or it is left off.
Which of the two it is, whether the outcome is good, and what becomes of the registry can be told from
the message and the registry alone: `uploadVerdict`, `removalVerdict` and `reportFor` say so.

* `updateSchema_follows`, `takeBackSchema_follows` — the work on a schema comes to its verdict.
* `registry_of_uploadVerdict`, `registry_of_removalVerdict` — an outcome that is not good leaves the
  registry as it was.
* `checkFile_follows` — the record of the task has the summary of the report.

Work that is left off has changed nothing but the record, and the record tells of more to come.
-/

namespace SheetIntake.Worker

open Service

/-- A status that no other one is to follow. -/
def IsFinal (status : String) : Prop :=
  status = "published" ∨ Text.startsWith status "failed" = true

instance (status : String) : Decidable (IsFinal status) :=
  inferInstanceAs (Decidable (_ ∨ _))

/-- The work was left off: nothing but the record has changed, and that tells of more to come. -/
def LeftOff (key : String) (s t : Stores) : Prop :=
  ∃ cache status, t = { s with cache } ∧ cache.Tracks key status ∧ ¬ IsFinal status

/-- What the work is to come to: whether the outcome is good, and the registry after it. -/
structure Verdict where
  good : Bool
  registry : Registry.Store

/-- The work came to an outcome as it was to, and the record of a good one tells of more to come. -/
structure Produced (key : String) (s : Stores) (v : Verdict) (outcome : Outcome) (t : Stores) :
    Prop where
  verdict : v = ⟨outcome.good, t.registry⟩
  tracked : ∃ status, t.cache.Tracks key status ∧ (outcome.good = true → ¬ IsFinal status)
  broker : t.broker = s.broker

/-- What an attempt to change the registry comes to. -/
def Verdict.ofAttempt (attempt : Except Fault Value × Registry.Store) : Verdict :=
  ⟨attemptGood attempt.1, attempt.2⟩

variable {s : Stores} {message task : Value} {before : String} {now : Moment}

/-! ## Schemas -/

/-- The schema of a message; none where it is known not to be one. -/
def schemaOf? (raw : Bool) (message : Value) : Except Fault (Option Value) := do
  let given ← message.member "schema"
  match Schema.create raw given with
  | .ok schema => return some schema
  | .error (.invalidSchema _) => return none
  | .error fault => throw fault

theorem makeSchema_follows (h : s.cache.Tracks (schemaKey task.text) before)
    (raw : Bool) (message name : Value) :
    Job.Follows servers (makeSchema raw message task name now) s (schemaOf? raw message)
      (fun schema made t => made = schema ∧ ∃ cache status, t = { s with cache }
        ∧ cache.Tracks (schemaKey task.text) status) (· = s) := by
  have hmakes (given : Value) (hgiven : message.member "schema" = .ok given)
      (hjudged : Judged raw given) :
      ∃ cache status, (makeSchema raw message task name now).run servers s =
          (.ok (Schema.create raw given).toOption, { s with cache })
        ∧ cache.Tracks (schemaKey task.text) status :=
    @run_makeSchema s task before now h raw given message hgiven hjudged name
  unfold schemaOf?
  cases hgiven : message.member "schema" with
  | error fault =>
    unfold makeSchema
    rw [hgiven]
    exact Job.follows_of_run_error rfl rfl
  | ok given =>
    rw [Outcome.ok_bind]
    cases hcreate : Schema.create raw given with
    | ok schema =>
      obtain ⟨cache, status, hrun, hcache⟩ := hmakes given hgiven (.inl ⟨schema, hcreate⟩)
      rw [hcreate] at hrun
      exact Job.follows_of_run_ok hrun ⟨rfl, cache, status, rfl, hcache⟩
    | error fault =>
      -- Only one kind of fault tells that what was given is no schema.
      cases fault with
      | invalidSchema reason =>
        obtain ⟨cache, status, hrun, hcache⟩ := hmakes given hgiven (.inr ⟨reason, hcreate⟩)
        rw [hcreate] at hrun
        exact Job.follows_of_run_ok hrun ⟨rfl, cache, status, rfl, hcache⟩
      | _ =>
        unfold makeSchema
        rw [hgiven]
        refine Job.follows_bind_of_run_ok (Job.run_ofExcept _ _) ?_
        rw [hcreate]
        exact Job.follows_of_run_error rfl rfl

variable {attempt : Except Fault Value}

theorem attemptStatus_of_good (failed : String)
    (h : attemptGood attempt) : attemptStatus failed attempt = "completed" := by
  cases attempt with
  | ok v => rfl
  | error fault => cases h

variable {registry : Registry.Store}

theorem Verdict.registry_ofAttempt {job : Job Registry.protocol Value}
    {good : Value → Registry.Store → Prop}
    (h : Job.Ends Registry.servers job registry good (fun _ t => t = registry))
    (hbad : (ofAttempt (job.run Registry.servers registry)).good = false) :
    (ofAttempt (job.run Registry.servers registry)).registry = registry := by
  rcases h with ⟨v, t, hrun, -⟩ | ⟨fault, t, hrun, rfl⟩
  · rw [hrun] at hbad
    cases hbad
  · rw [hrun]
    rfl

/-- What making and saving the schema of a message comes to. -/
def uploadVerdict (message : Value) (now : Moment) (registry : Registry.Store) :
    Except Fault Verdict := do
  let importName ← message.member "import_name"
  let raw ← message.memberOr "raw" (.bool false)
  match ← schemaOf? raw.truthy message with
  | some schema =>
    return .ofAttempt ((Registry.saveSchema schema importName now.text).run Registry.servers registry)
  | none => return ⟨false, registry⟩

theorem registry_of_uploadVerdict {message : Value} {now : Moment}
    {v : Verdict} (h : uploadVerdict message now registry = .ok v) (hbad : v.good = false) :
    v.registry = registry := by
  obtain ⟨importName, -, h⟩ := Outcome.bind_eq_ok.mp h
  obtain ⟨raw, -, h⟩ := Outcome.bind_eq_ok.mp h
  obtain ⟨made, -, h⟩ := Outcome.bind_eq_ok.mp h
  cases made with
  | none =>
    cases h
    rfl
  | some schema =>
    cases h
    exact Verdict.registry_ofAttempt Registry.ends_saveSchema_unchanged hbad

theorem updateSchema_follows (h : s.cache.Tracks (schemaKey task.text) before)
    (hbefore : ¬ IsFinal before) :
    Job.Follows servers (updateSchema message task now) s (uploadVerdict message now s.registry)
      (Produced (schemaKey task.text) s) (LeftOff (schemaKey task.text) s) := by
  have hleft : LeftOff (schemaKey task.text) s s :=
    ⟨s.cache, before, rfl, h, hbefore⟩
  refine Job.follows_ofExcept_bind (fun importName _ => ?_) hleft
  refine Job.follows_ofExcept_bind (fun raw _ => ?_) hleft
  obtain ⟨c₁, hcreating, h₁⟩ := @run_report s task schemaEndpoint before now h "creating-schema"
    ("Creating schema for import: " ++ importName.text) [] (List.forall_mem_nil _)
  refine Job.follows_bind_of_run_ok hcreating ?_
  have hmake := @makeSchema_follows { s with cache := c₁ } task _ now h₁ raw.truthy message importName
  refine Job.Follows.bind (hmake.imp (fun _ _ _ h => h) ?_) ?_
  · rintro _ rfl
    exact ⟨c₁, "creating-schema", rfl, h₁, by decide⟩
  rintro _ made _ ⟨rfl, c₂, status, rfl, h₂⟩
  cases made with
  | none =>
    exact Job.follows_of_run_ok rfl ⟨rfl, ⟨status, h₂, fun h => absurd h Bool.false_ne_true⟩, rfl⟩
  | some schema =>
    obtain ⟨document, c₃, hsave, h₃⟩ := @run_saveMade { s with cache := c₂ } task status now h₂
      schema importName
    refine Job.follows_of_run_ok hsave ⟨rfl, ⟨_, h₃, fun hgood => ?_⟩, rfl⟩
    rw [attemptStatus_of_good _ hgood]
    decide

/-- What taking back the last schema of the import name of a message comes to. -/
def removalVerdict (message : Value) (now : Moment) (registry : Registry.Store) :
    Except Fault Verdict := do
  let importName ← message.member "import_name"
  return .ofAttempt ((Registry.removeSchema importName now.text).run Registry.servers registry)

theorem registry_of_removalVerdict {message : Value} {now : Moment}
    {v : Verdict} (h : removalVerdict message now registry = .ok v) (hbad : v.good = false) :
    v.registry = registry := by
  obtain ⟨importName, -, h⟩ := Outcome.bind_eq_ok.mp h
  cases h
  exact Verdict.registry_ofAttempt Registry.ends_removeSchema_distinct hbad

theorem distinct_shown (h : ∀ v, attempt = .ok v → v.distinct) (other : String) :
    (if (attemptValue attempt).truthy then attemptValue attempt else .str other).distinct := by
  split
  · cases attempt with
    | ok v => exact h v rfl
    | error fault => rfl
  · rfl

theorem takeBackSchema_follows (h : s.cache.Tracks (schemaKey task.text) before)
    (hbefore : ¬ IsFinal before) :
    Job.Follows servers (takeBackSchema message task now) s (removalVerdict message now s.registry)
      (Produced (schemaKey task.text) s) (LeftOff (schemaKey task.text) s) := by
  refine Job.follows_ofExcept_bind (fun importName _ => ?_) ⟨s.cache, before, rfl, h, hbefore⟩
  obtain ⟨c₁, hremoving, h₁⟩ := @run_report s task schemaEndpoint before now h "removing-schema"
    ("Removing schema for import: " ++ importName.text) [] (List.forall_mem_nil _)
  refine Job.follows_bind_of_run_ok hremoving ?_
  refine Job.follows_bind_of_run_ok (run_attempted _ _) ?_
  have hshown : ∀ v, ((Registry.removeSchema importName now.text).run Registry.servers
      s.registry).1 = .ok v → v.distinct := by
    intro v hv
    rcases @Registry.ends_removeSchema_distinct importName now.text s.registry with
      ⟨w, t, hrun, hw⟩ | ⟨fault, t, hrun, -⟩
    · rw [hrun] at hv
      exact Except.ok.inj hv ▸ hw
    · rw [hrun] at hv
      cases hv
  -- From here on it does not matter how the attempt went, only what it gave.
  generalize (Registry.removeSchema importName now.text).run Registry.servers s.registry =
    attempt at hshown ⊢
  obtain ⟨c₂, hcompleted, h₂⟩ := @run_report { s with cache := c₁, registry := attempt.2 } task
    schemaEndpoint "removing-schema" now h₁ (attemptStatus "failed-removing-schema" attempt.1)
    "Schema removal completed."
    [("results", if (attemptValue attempt.1).truthy then attemptValue attempt.1
      else .str "Active Schema not found.")] (by simpa using distinct_shown hshown _)
  refine Job.follows_bind_of_run_ok hcompleted ?_
  refine Job.follows_of_run_ok rfl ⟨rfl, ⟨_, h₂, fun hgood => ?_⟩, rfl⟩
  rw [attemptStatus_of_good _ hgood]
  decide

/-! ## Files -/

def reportFor (message : Value) (workers : Nat) (now : Moment) (registry : Registry.Store) :
    Except Fault FileReport := do
  let file ← fileOf message
  let importName ← message.member "import_name"
  reportOn file importName workers now registry

/-- What the worker makes of a report on a file. -/
def checkedOutcome (task : Value) (report : FileReport) : Outcome where
  good := Value.str report.status ≠ .str "error"
  document := .object [("task_id", task), ("status", .str report.status),
    ("results", report.summary)]

theorem good_checkedOutcome {task : Value} {report : FileReport} :
    (checkedOutcome task report).good ↔ report.status ≠ "error" := by
  simp [checkedOutcome]

def resultsOf? (r : TaskRecord) : Option Value :=
  Assoc.get? "results" r.dataMembers

def Records (c : Cache.Store) (key status : String) (results : Option Value) : Prop :=
  c.reachable = true ∧ ∃ r, c.Holds key r ∧ r.status = status ∧ resultsOf? r = results

theorem checkFile_follows (h : s.cache.Tracks (Cache.taskKey fileEndpoint task.text) before)
    (hmessage : message.distinct) (workers : Nat) :
    Job.Follows servers (checkFile message task workers now) s
      (reportFor message workers now s.registry)
      (fun report outcome t => outcome = checkedOutcome task report ∧ ∃ cache, t = { s with cache }
        ∧ Records cache (Cache.taskKey fileEndpoint task.text) report.status (some report.summary))
      (LeftOff (Cache.taskKey fileEndpoint task.text) s) := by
  obtain ⟨c₁, hprocessing, h₁⟩ := @run_report s task fileEndpoint before now h "processing-file" "" []
    (List.forall_mem_nil _)
  refine Job.follows_bind_of_run_ok hprocessing ?_
  refine Job.follows_ofExcept_bind (fun file hfile => ?_) ⟨c₁, _, rfl, h₁, by decide⟩
  obtain ⟨c₂, hvalidating, h₂⟩ := @run_report { s with cache := c₁ } task fileEndpoint _ now h₁
    "validating-file" "" [] (List.forall_mem_nil _)
  refine Job.follows_bind_of_run_ok hvalidating ?_
  refine Job.follows_ofExcept_bind (fun importName _ => ?_) ⟨c₂, _, rfl, h₂, by decide⟩
  have hsummarize : (onRegistry (summarize file importName workers now)).run servers
      { s with cache := c₂ } =
      ((reportOn file importName workers now s.registry).map FileReport.summary,
        { s with cache := c₂ }) := by
    rw [run_onRegistry, run_summarize]
  cases hreport : reportOn file importName workers now s.registry with
  | error fault =>
    rw [hreport] at hsummarize
    exact Job.ends_bind_of_run_error hsummarize ⟨rfl, c₂, _, rfl, h₂, by decide⟩
  | ok report =>
    rw [hreport] at hsummarize
    have hsummary := distinct_summary_of_reportOn (distinct_name_of_fileOf hmessage hfile) hreport
    obtain ⟨hc₂, r, hr, -⟩ := h₂
    obtain ⟨c₃, hresults, hc₃, h₃⟩ := @run_report_record { s with cache := c₂ } task fileEndpoint
      now hc₂ r hr report.status "" [("results", report.summary)] (by simpa using hsummary)
    refine Job.follows_bind_of_run_ok hsummarize ?_
    rw [report.member_status_summary]
    refine Job.follows_bind_of_run_ok (Job.run_ofExcept _ _) ?_
    refine Job.follows_bind_of_run_ok hresults ?_
    refine Job.follows_of_run_ok rfl ⟨rfl, c₃, rfl, hc₃, _, h₃, rfl, ?_⟩
    show Assoc.get? "results" (Assoc.put "update_date" _ (Assoc.put "results" _ _)) = _
    rw [Assoc.get?_put_of_ne (by decide), Assoc.get?_put_self]

end SheetIntake.Worker
