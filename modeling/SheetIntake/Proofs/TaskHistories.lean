import SheetIntake.Proofs.WorkerViews

/-!
# Task records after any calls

Records are kept and changed under many tasks and import names of one endpoint. What is read back
afterwards can be told from the calls alone.

* `RecordChange.applyTo` — what an update makes of a record.
* `recordAfter` — the record of a task after calls, from the calls alone.
* `Store.Mirrors.step` — one more call succeeds and leaves such a store.
* `tasks_read_back` — what is read back after any calls.
-/

namespace SheetIntake

theorem Assoc.merge_eq_append {α β : Type} [DecidableEq α] {present added : List (α × β)}
    (h : (Assoc.keys (present ++ added)).Nodup) : Assoc.merge present added = present ++ added := by
  unfold Assoc.merge
  induction added generalizing present with
  | nil => simp
  | cons e rest ih =>
    have hnot : e.1 ∉ Assoc.keys present := by
      intro hmem
      rw [Assoc.keys, List.map_append, List.map_cons, List.nodup_append] at h
      exact h.2.2 e.1 hmem e.1 (.head _) rfl
    rw [List.append_cons present e rest] at h ⊢
    rw [List.foldl_cons, Assoc.put_of_not_mem hnot]
    exact ih h

def TaskRecord.importName (r : TaskRecord) : String :=
  ((Assoc.get? "import_name" r.dataMembers).getD (.str "default")).text

namespace Cache

/-! ## Changes of a record -/

/-- The fields of a record that hold texts. -/
inductive RecordField where
  | status
  | message

def RecordField.name : RecordField → String
  | .status => "status"
  | .message => "message"

/-- A text for a field of a record, and perhaps a message and data. Neither an empty message nor empty
data change anything. -/
structure RecordChange where
  field : RecordField
  text : String
  message : String := ""
  data : Option (List (String × Value)) := none
  /-- Whether the data take the place of the present ones. -/
  reset : Bool := false

namespace RecordChange

def update (change : RecordChange) : TaskUpdate where
  field := change.field.name
  value := .str change.text
  message := .str change.message
  data := change.data.elim .null .object
  resetData := change.reset

def setField (change : RecordChange) (r : TaskRecord) : TaskRecord :=
  match change.field with
  | .status => { r with status := change.text }
  | .message => { r with message := change.text }

/-- The record with the message, unless that is empty. -/
def setMessage (change : RecordChange) (r : TaskRecord) : TaskRecord :=
  { r with message := if change.message = "" then r.message else change.message }

def setData (change : RecordChange) (r : TaskRecord) : TaskRecord :=
  match change.data.getD [] with
  | [] => r
  | added => { r with data := .object (if change.reset then added
      else Assoc.merge r.dataMembers added) }

def applyTo (change : RecordChange) (r : TaskRecord) : TaskRecord :=
  change.setData (change.setMessage (change.setField r))

end RecordChange

section

variable {c : Store} {task endpoint : String} {r : TaskRecord} {change : RecordChange}

theorem asks_updateTask_change : (updateTask (.str task) endpoint change.update).Asks
    (Service.Touches (taskKey endpoint task)) := by
  rw [updateTask_of_text rfl]
  exact .bind (Job.asks_ask (.set _)) fun _ => .bind (Service.asks_updateMessage _) fun _ =>
    Service.asks_updateData _

theorem hides_of_touches {key other : String} (hother : other ≠ key) {request : Request}
    (h : Service.Touches key request) : Plan.Hides servers (Store.content? · other) request := by
  intro c
  cases h with
  | read => rw [Service.servers_fields]
  | set fields =>
    rcases Service.servers_setFields_cases key fields c with ⟨fault, hset⟩ | ⟨content, hset⟩
    · rw [hset c rfl rfl]
    · rw [hset c rfl rfl]
      exact Store.content?_replace_of_ne hother

variable (hc : c.reachable = true) (h : c.Holds (taskKey endpoint task) r)

include hc h

theorem run_setField_change :
    c.Becomes (setFields (taskKey endpoint task) [(change.field.name, .str change.text)])
      (taskKey endpoint task) (change.setField r) := by
  obtain ⟨found, hfound, htells⟩ := h
  refine ⟨_, run_setField hc hfound, hc, _, Store.content?_replace_self, ?_⟩
  unfold RecordChange.setField
  cases change.field with
  | status => exact htells.put_status change.text
  | message => exact htells.put_message change.text

variable (hdata : ∀ members, change.data = some members → (Value.object members).distinct = true)

include hdata

theorem run_updateData_change :
    c.Becomes (updateData (.str task) endpoint change.update) (taskKey endpoint task)
      (change.setData r) := by
  obtain ⟨field, text, message, data, reset⟩ := change
  match data with
  | none | some [] => exact ⟨c, rfl, hc, h⟩
  | some (m :: ms) =>
    obtain ⟨hnames, hvalues⟩ := Value.distinct_object_iff.mp (hdata (m :: ms) rfl)
    have hrun := run_updateData hc h text message (List.cons_ne_nil m ms) hvalues reset
    cases reset with
    | false => exact hrun
    | true =>
      -- data put into an empty object are that object
      have hmerge := @Assoc.merge_eq_append _ _ _ [] (m :: ms) hnames
      rw [if_pos rfl, hmerge] at hrun
      exact hrun

theorem run_update :
    ∃ c', (updateTask (.str task) endpoint change.update).run servers c = (.ok (), c')
      ∧ c'.reachable ∧ c'.Holds (taskKey endpoint task) (change.applyTo r)
      ∧ ∀ other, other ≠ taskKey endpoint task → c'.content? other = c.content? other := by
  obtain ⟨c₁, hfield, hc₁, h₁⟩ := @run_setField_change c task endpoint r change hc h
  obtain ⟨c₂, hmessage, hc₂, h₂⟩ := run_updateMessage hc₁ h₁ change.message
  obtain ⟨c₃, hupdate, hc₃, h₃⟩ := run_updateData_change hc₂ h₂ hdata
  have hrun : (updateTask (.str task) endpoint change.update).run servers c = (.ok (), c₃) := by
    rw [updateTask_of_text rfl]
    exact (Job.run_bind_ok hfield).trans ((Job.run_bind_ok hmessage).trans hupdate)
  refine ⟨c₃, hrun, hc₃, h₃, fun other hother => ?_⟩
  -- all requests are about the key of the task
  have hasks := (@asks_updateTask_change task endpoint change).imp fun _ => hides_of_touches hother
  have hview := Plan.Asks.view_run hasks c
  exact (congrArg (Store.content? ·.2 other) hrun).symm.trans hview

end

/-! ## Calls -/

/-- A call that keeps a record or changes the one that is kept. -/
inductive TaskCall where
  | set (task : String) (record : TaskRecord)
  | update (task : String) (change : RecordChange)

namespace TaskCall

def task : TaskCall → String
  | .set task _ => task
  | .update task _ => task

def job (endpoint : String) : TaskCall → Job protocol Unit
  | .set task record => setTask (.str task) record endpoint
  | .update task change => updateTask (.str task) endpoint change.update

def Sound : TaskCall → Prop
  | .set _ record => (∃ members, record.data = .object members) ∧ record.data.distinct = true
  | .update _ change => ∀ members, change.data = some members → (Value.object members).distinct = true

def effect (task : String) (r : Option TaskRecord) : TaskCall → Option TaskRecord
  | .set other record => if other = task then some record else r
  | .update other change => if other = task then r.map change.applyTo else r

theorem effect_of_ne {call : TaskCall} {task : String} (h : task ≠ call.task)
    (r : Option TaskRecord) : call.effect task r = r := by
  cases call with
  | set other record | update other change => exact if_neg (Ne.symm h)

end TaskCall

def recordAfter (task : String) (calls : List TaskCall) : Option TaskRecord :=
  calls.foldl (TaskCall.effect task) none

def changesOf (task : String) (calls : List TaskCall) : List RecordChange :=
  calls.filterMap fun
    | .set _ _ => none
    | .update other change => if other = task then some change else none

section

variable {task : String} {calls : List TaskCall} {call : TaskCall}

theorem recordAfter_concat (task : String) (calls : List TaskCall) (call : TaskCall) :
    recordAfter task (calls ++ [call]) = call.effect task (recordAfter task calls) := by
  unfold recordAfter
  rw [List.foldl_append, List.foldl_cons, List.foldl_nil]

theorem isSome_recordAfter :
    (recordAfter task calls).isSome ↔ ∃ record, TaskCall.set task record ∈ calls := by
  induction calls using List.reverseRecOn with
  | nil => simp [recordAfter]
  | append_singleton calls call ih =>
    rw [recordAfter_concat]
    by_cases htask : task = call.task
    · cases call with
      | set other record =>
        obtain rfl : task = other := htask
        simp [TaskCall.effect]
      | update other change =>
        obtain rfl : task = other := htask
        simp [TaskCall.effect, ih]
    · rw [TaskCall.effect_of_ne htask, ih]
      refine exists_congr fun record => ?_
      have hne : TaskCall.set task record ≠ call := by
        rintro rfl
        exact htask rfl
      simp [hne]

/-- After the last record that was set for a task, only the changes of the task count. -/
theorem foldl_effect {record : TaskRecord} (h : ∀ later, TaskCall.set task later ∉ calls) :
    calls.foldl (TaskCall.effect task) (some record) =
      some ((changesOf task calls).foldl (fun r change => change.applyTo r) record) := by
  induction calls generalizing record with
  | nil => rfl
  | cons call rest ih =>
    have hrest : ∀ later, TaskCall.set task later ∉ rest :=
      fun later hmem => h later (.tail _ hmem)
    rw [List.foldl_cons]
    cases call with
    | set other later =>
      have hne : other ≠ task := by
        rintro rfl
        exact h later (.head _)
      rw [TaskCall.effect, if_neg hne, ih hrest]
      rfl
    | update other change =>
      rw [TaskCall.effect]
      by_cases hother : other = task
      · rw [if_pos hother, Option.map_some, ih hrest]
        simp [changesOf, hother]
      · rw [if_neg hother, ih hrest]
        simp [changesOf, hother]

end

/-! ## Keys -/

theorem taskKey_inj {endpoint task other : String}
    (h : taskKey endpoint task = taskKey endpoint other) : task = other := by
  exact (String.append_right_inj _).mp h

theorem importKey_inj {endpoint name other : String}
    (h : importKey endpoint name = importKey endpoint other) : name = other := by
  exact (String.append_right_inj _).mp ((String.append_left_inj _).mp h)

/-! ## Stores -/

/-- A record or none is under a key. -/
def Store.Keeps (c : Store) (key : String) : Option TaskRecord → Prop
  | some r => c.Holds key r
  | none => c.content? key = none

/-- A task was set with a record of an import name. -/
def SetUnder (calls : List TaskCall) (task name : String) : Prop :=
  ∃ record, TaskCall.set task record ∈ calls ∧ record.importName = name

/-- A store that holds the records after calls, and under each import name the tasks that were set with
it. -/
structure Store.Mirrors (c : Store) (endpoint : String) (calls : List TaskCall) : Prop where
  reachable : c.reachable = true
  records : ∀ task, c.Keeps (taskKey endpoint task) (recordAfter task calls)
  members : ∀ name, ∃ tasks, c.membersOf (importKey endpoint name) = .ok tasks ∧ tasks.Nodup
    ∧ ∀ task, task ∈ tasks ↔ SetUnder calls task name

section

variable {c c' : Store} {key endpoint task name : String} {r : Option TaskRecord}
  {calls : List TaskCall}

theorem Store.Keeps.congr (h : c.Keeps key r) (hcontent : c'.content? key = c.content? key) :
    c'.Keeps key r := by
  cases r with
  | some record =>
    obtain ⟨fields, hfields, htells⟩ := h
    exact ⟨fields, hcontent.trans hfields, htells⟩
  | none => exact hcontent.trans h

theorem Store.Keeps.fieldsOf (h : c.Keeps key r) : ∃ found, c.fieldsOf key = .ok found := by
  cases r with
  | some record =>
    obtain ⟨fields, hfields, -⟩ := h
    exact ⟨fields, Store.fieldsOf_of_content? hfields⟩
  | none =>
    have hnone : c.content? key = none := h
    exact ⟨[], by rw [Store.fieldsOf, hnone]⟩

theorem Store.Mirrors.records_concat {call : TaskCall} (h : c.Mirrors endpoint calls)
    (hkeeps : c'.Keeps (taskKey endpoint call.task)
      (call.effect call.task (recordAfter call.task calls))) (hothers : ∀ task, task ≠ call.task →
      c'.content? (taskKey endpoint task) = c.content? (taskKey endpoint task)) (task : String) :
    c'.Keeps (taskKey endpoint task) (recordAfter task (calls ++ [call])) := by
  rw [recordAfter_concat]
  by_cases htask : task = call.task
  · rw [htask]
    exact hkeeps
  · rw [TaskCall.effect_of_ne htask]
    exact (h.records task).congr (hothers task htask)

theorem Store.Mirrors.exists_holds (h : c.Mirrors endpoint calls)
    (hset : ∃ record, TaskCall.set task record ∈ calls) :
    ∃ r, recordAfter task calls = some r ∧ c.Holds (taskKey endpoint task) r := by
  obtain ⟨r, hr⟩ := Option.isSome_iff_exists.mp (isSome_recordAfter.mpr hset)
  have hkeeps := h.records task
  rw [hr] at hkeeps
  exact ⟨r, hr, hkeeps⟩

variable {record : TaskRecord}

theorem setUnder_concat_set {other : String} : SetUnder (calls ++ [.set task record]) other name ↔
      SetUnder calls other name ∨ other = task ∧ record.importName = name := by
  simp only [SetUnder, List.mem_append, List.mem_singleton, TaskCall.set.injEq, or_and_right,
    exists_or, and_assoc, exists_and_left, exists_eq_left]

variable {tasks : List String}

theorem nodup_withMember (h : tasks.Nodup) :
    (if task ∈ tasks then tasks else tasks ++ [task]).Nodup := by
  split
  · exact h
  · next hnew => exact h.append (List.nodup_singleton task) (by simpa using hnew)

theorem mem_withMember {other : String} :
    other ∈ (if task ∈ tasks then tasks else tasks ++ [task]) ↔ other ∈ tasks ∨ other = task := by
  split
  · next hold =>
    refine (or_iff_left_of_imp ?_).symm
    rintro rfl
    exact hold
  · simp

/-! ## One call -/

theorem run_setTask (hc : c.reachable) {found : List (String × String)}
    (hfound : c.fieldsOf (taskKey endpoint task) = .ok found)
    (htasks : c.membersOf (importKey endpoint record.importName) = .ok tasks)
    {members : List (String × Value)} (hdata : record.data = .object members)
    (hdistinct : record.data.distinct) :
    ∃ fields, Tells fields record ∧ (setTask (.str task) record endpoint).run servers c =
      (.ok (), (c.replace (taskKey endpoint task) (.fields fields)).replace
        (importKey endpoint record.importName)
        (.members (if task ∈ tasks then tasks else tasks ++ [task]))) := by
  obtain ⟨fields, hserve, htells⟩ := servers_setRecord hc hfound hdata hdistinct
  refine ⟨fields, htells, ?_⟩
  have hset : (setFields (taskKey endpoint task) (recordFields record)).run servers c =
      (.ok (), c.replace (taskKey endpoint task) (.fields fields)) := hserve
  have hname : record.data.memberOr "import_name" (.str "default") =
      .ok ((Assoc.get? "import_name" record.dataMembers).getD (.str "default")) := by
    rw [TaskRecord.dataMembers, hdata, Value.memberOr]
  have hother := (taskKey_ne_importKey endpoint task record.importName).symm
  unfold setTask
  rw [hname]
  refine (Job.run_bind_ok (Job.run_ofExcept _ c)).trans ((Job.run_bind_ok hset).trans ?_)
  have hkept : (c.replace (taskKey endpoint task) (.fields fields)).reachable := hc
  exact servers_addMember hkept
    ((Store.membersOf_congr (Store.content?_replace_of_ne hother)).trans htasks) task

theorem Store.Mirrors.step_set (h : c.Mirrors endpoint calls)
    (hsound : (TaskCall.set task record).Sound) :
    ∃ c', ((TaskCall.set task record).job endpoint).run servers c = (.ok (), c')
      ∧ c'.Mirrors endpoint (calls ++ [.set task record]) := by
  obtain ⟨⟨members, hdata⟩, hdistinct⟩ := hsound
  obtain ⟨found, hfound⟩ := (h.records task).fieldsOf
  obtain ⟨tasks, htasks, hnodup, hmem⟩ := h.members record.importName
  obtain ⟨fields, htells, hrun⟩ := run_setTask h.reachable hfound htasks hdata hdistinct
  refine ⟨_, hrun, h.reachable, ?_, fun name => ?_⟩
  · -- the tasks of an import name are under another key than any record
    have hkey : ∀ other, taskKey endpoint other ≠ importKey endpoint record.importName :=
      fun other => taskKey_ne_importKey endpoint other record.importName
    refine h.records_concat ?_ fun other hother => ?_
    · rw [TaskCall.task, TaskCall.effect, if_pos rfl]
      refine ⟨fields, ?_, htells⟩
      rw [Store.content?_replace_of_ne (hkey task), Store.content?_replace_self]
    · rw [Store.content?_replace_of_ne (hkey other)]
      exact Store.content?_replace_of_ne fun heq => hother (taskKey_inj heq)
  · by_cases hname : name = record.importName
    · -- the task is a member now, if it was not one already
      subst hname
      refine ⟨if task ∈ tasks then tasks else tasks ++ [task], ?_, nodup_withMember hnodup,
        fun other => ?_⟩
      · rw [Store.membersOf, Store.content?_replace_self]
      · rw [mem_withMember, setUnder_concat_set, hmem]
        simp
    · -- both keys that are written differ from that of another import name
      obtain ⟨others, hothers, hnodup', hmem'⟩ := h.members name
      refine ⟨others, ?_, hnodup', fun other => ?_⟩
      · have hkey : importKey endpoint name ≠ importKey endpoint record.importName :=
          fun heq => hname (importKey_inj heq)
        refine Eq.trans (Store.membersOf_congr ?_) hothers
        rw [Store.content?_replace_of_ne hkey]
        exact Store.content?_replace_of_ne (taskKey_ne_importKey endpoint task name).symm
      · rw [setUnder_concat_set, hmem']
        simp [Ne.symm hname]

theorem Store.Mirrors.step_update (h : c.Mirrors endpoint calls) {change : RecordChange}
    (hsound : (TaskCall.update task change).Sound) (hset : ∃ record, TaskCall.set task record ∈ calls) :
    ∃ c', ((TaskCall.update task change).job endpoint).run servers c = (.ok (), c')
      ∧ c'.Mirrors endpoint (calls ++ [.update task change]) := by
  obtain ⟨r, hr, hholds⟩ := h.exists_holds hset
  obtain ⟨c', hrun, hreach, hholds', hothers⟩ := run_update h.reachable hholds hsound
  refine ⟨c', hrun, hreach, ?_, fun name => ?_⟩
  · refine h.records_concat ?_ fun other hother => hothers _ fun heq => hother (taskKey_inj heq)
    rw [TaskCall.task, TaskCall.effect, if_pos rfl, hr]
    exact hholds'
  · obtain ⟨tasks, htasks, hnodup, hmem⟩ := h.members name
    have hkey := (taskKey_ne_importKey endpoint task name).symm
    refine ⟨tasks, (Store.membersOf_congr (hothers _ hkey)).trans htasks, hnodup, fun other => ?_⟩
    rw [hmem]
    simp [SetUnder]

end

/-! ## Runs -/

/-- Calls with sound data that update only tasks that were set before. -/
structure Orderly (calls : List TaskCall) : Prop where
  sound : ∀ call ∈ calls, call.Sound
  known : ∀ before task change after, calls = before ++ .update task change :: after →
    ∃ record, TaskCall.set task record ∈ before

theorem Orderly.of_concat {calls : List TaskCall} {call : TaskCall} (h : Orderly (calls ++ [call])) :
    Orderly calls := by
  refine ⟨fun other hmem => h.sound other (List.mem_append_left _ hmem), ?_⟩
  rintro before task change after rfl
  exact h.known before task change (after ++ [call]) (by simp)

theorem Orderly.concat {calls : List TaskCall} {call : TaskCall} (h : Orderly calls)
    (hsound : call.Sound)
    (hknown : ∀ task change, call = .update task change → ∃ record, TaskCall.set task record ∈ calls) :
    Orderly (calls ++ [call]) := by
  refine ⟨List.forall_mem_append.mpr ⟨h.sound, List.forall_mem_singleton.mpr hsound⟩, ?_⟩
  intro before task change after hsplit
  -- the update is the last call, or one of those before
  rcases List.eq_nil_or_concat' after with rfl | ⟨rest, last, rfl⟩
  · obtain ⟨rfl, hcall⟩ := List.append_inj' hsplit rfl
    exact hknown task change (List.cons.inj hcall).1
  · have hcalls : calls ++ [call] = (before ++ .update task change :: rest) ++ [last] := by
      rw [hsplit, List.append_assoc, List.cons_append]
    exact h.known before task change rest (List.append_inj' hcalls rfl).1

section

variable {c : Store} {endpoint task name : String} {calls : List TaskCall}

theorem Store.Mirrors.step {call : TaskCall} (h : c.Mirrors endpoint calls)
    (hcalls : Orderly (calls ++ [call])) :
    ∃ c', (call.job endpoint).run servers c = (.ok (), c') ∧ c'.Mirrors endpoint (calls ++ [call]) := by
  have hsound := hcalls.sound call (by simp)
  cases call with
  | set task record => exact h.step_set hsound
  | update task change => exact h.step_update hsound (hcalls.known calls task change [] rfl)

theorem mirrors_empty (endpoint : String) : Store.Mirrors {} endpoint [] where
  reachable := rfl
  records _ := rfl
  members _ := ⟨[], rfl, List.nodup_nil, fun _ => by simp [SetUnder]⟩

theorem exists_runEach (endpoint : String) (h : Orderly calls) :
    ∃ c, Job.runEach servers (calls.map (TaskCall.job endpoint)) {} =
        (calls.map fun _ => .ok (), c) ∧ c.Mirrors endpoint calls := by
  induction calls using List.reverseRecOn with
  | nil => exact ⟨{}, rfl, mirrors_empty endpoint⟩
  | append_singleton calls call ih =>
    -- the last call meets a store that mirrors the calls before it
    obtain ⟨c, hruns, hmirrors⟩ := ih h.of_concat
    obtain ⟨c', hrun, hmirrors'⟩ := hmirrors.step h
    refine ⟨c', ?_, hmirrors'⟩
    rw [List.map_append, List.map_append]
    exact Job.runEach_append hruns (Job.runEach_cons hrun rfl)

/-! ## Reading -/

theorem run_getTask_of_keeps (hc : c.reachable) {r : Option TaskRecord}
    (h : c.Keeps (taskKey endpoint task) r) :
    (getTask task endpoint).run servers c = (.ok r, c) := by
  cases r with
  | some record => exact run_getTask hc h
  | none =>
    have hnone : c.content? (taskKey endpoint task) = none := h
    have hfields : c.fieldsOf (taskKey endpoint task) = .ok [] := by rw [Store.fieldsOf, hnone]
    unfold getTask
    rw [Job.run_bind_ok (run_fields hc hfields)]
    rfl

theorem run_members (hc : c.reachable) {key : String} {tasks : List String}
    (htasks : c.membersOf key = .ok tasks) :
    (members key).run servers c = (.ok (Store.sorted tasks), c) := by
  refine (servers_of_reachable hc (.members key)).trans ?_
  unfold Store.respond
  dsimp only
  rw [htasks]
  rfl

def readTask (endpoint task : String) : Job protocol (Option TaskRecord) := do
  let fields ← fields (taskKey endpoint task)
  if fields.isEmpty then return none
  let members ← Job.ofExcept (recordMembers fields)
  let record ← Job.ofExcept (TaskRecord.ofMembers members)
  return some record

theorem tasksOf_eq (importName endpoint : String) :
    tasksOf importName endpoint = (do
      let tasks ← members (importKey endpoint importName)
      let records ← tasks.mapM (readTask endpoint)
      return records.filterMap id) := rfl

theorem run_readTask (hc : c.reachable) {r : TaskRecord} (h : c.Holds (taskKey endpoint task) r) :
    (readTask endpoint task).run servers c = (.ok (some r), c) := by
  obtain ⟨found, hfound, htells⟩ := h
  obtain ⟨members, hmembers, hrecord⟩ := htells.ofMembers
  have hne : ¬found.isEmpty := by
    intro hempty
    have hstatus := htells.status
    rw [List.isEmpty_iff.mp hempty] at hstatus
    exact absurd hstatus (by simp [Assoc.get?])
  unfold readTask
  rw [Job.run_bind_ok (run_fields hc (Store.fieldsOf_of_content? hfound)), if_neg hne, hmembers]
  refine (Job.run_bind_ok (Job.run_ofExcept _ c)).trans ?_
  rw [hrecord]
  rfl

theorem run_mapM_readTask (hc : c.reachable) {tasks : List String}
    (h : ∀ task ∈ tasks, ∃ r, c.Holds (taskKey endpoint task) r) : ∃ records : List TaskRecord,
      (tasks.mapM (readTask endpoint)).run servers c = (.ok (records.map some), c)
        ∧ tasks.map (fun task => (getTask task endpoint).run servers c) =
          records.map (fun r => (.ok (some r), c)) := by
  -- the loop collects what it has read in reverse
  suffices hloop : ∃ records : List TaskRecord,
      (∀ done, (List.mapM.loop (readTask endpoint) tasks done).run servers c =
        (.ok (done.reverse ++ records.map some), c))
        ∧ tasks.map (fun task => (getTask task endpoint).run servers c) =
          records.map (fun r => (.ok (some r), c)) by
    obtain ⟨records, hrun, hget⟩ := hloop
    exact ⟨records, hrun [], hget⟩
  induction tasks with
  | nil => exact ⟨[], fun done => by rw [List.map_nil, List.append_nil]; rfl, rfl⟩
  | cons task rest ih =>
    obtain ⟨r, hr⟩ := h task (.head _)
    obtain ⟨records, hrun, hget⟩ := ih fun other hmem => h other (.tail _ hmem)
    refine ⟨r :: records, fun done => ?_, ?_⟩
    · refine (Job.run_bind_ok (run_readTask hc hr)).trans ((hrun (some r :: done)).trans ?_)
      rw [List.reverse_cons, List.append_assoc, List.map_cons, List.singleton_append]
    · rw [List.map_cons, List.map_cons, run_getTask hc hr, hget]

theorem Store.Mirrors.run_tasksOf (h : c.Mirrors endpoint calls) (name : String) :
    ∃ (tasks : List String) (records : List TaskRecord), tasks.Nodup
      ∧ (∀ task, task ∈ tasks ↔ SetUnder calls task name)
      ∧ (tasksOf name endpoint).run servers c = (.ok records, c)
      ∧ tasks.map (fun task => (getTask task endpoint).run servers c) =
        records.map (fun r => (.ok (some r), c)) := by
  obtain ⟨tasks, htasks, hnodup, hmem⟩ := h.members name
  have hperm : (Store.sorted tasks).Perm tasks := List.mergeSort_perm _ _
  have hholds : ∀ task ∈ Store.sorted tasks, ∃ r, c.Holds (taskKey endpoint task) r := by
    intro task htask
    obtain ⟨record, hset, -⟩ := (hmem task).mp (hperm.mem_iff.mp htask)
    obtain ⟨r, -, hholds⟩ := h.exists_holds ⟨record, hset⟩
    exact ⟨r, hholds⟩
  obtain ⟨records, hrun, hget⟩ := run_mapM_readTask h.reachable hholds
  refine ⟨Store.sorted tasks, records, hperm.nodup_iff.mpr hnodup, fun task => ?_, ?_, hget⟩
  · rw [hperm.mem_iff, hmem]
  · refine (Job.run_bind_ok (run_members h.reachable htasks)).trans ((Job.run_bind_ok hrun).trans ?_)
    simp

end

/-- All calls of an orderly run succeed. Afterwards the record of a task is the last one that was set,
with the changes of that task since then, and there is none where none was set. The tasks of an import
name are those that were ever set with it, each once, and their records are those of the tasks. -/
theorem tasks_read_back (endpoint : String) {calls : List TaskCall} (h : Orderly calls) :
    ∃ c, Job.runEach servers (calls.map (TaskCall.job endpoint)) {} = (calls.map fun _ => .ok (), c)
      ∧ (∀ task before record after, calls = before ++ .set task record :: after →
          (∀ later, TaskCall.set task later ∉ after) →
          (getTask task endpoint).run servers c =
            (.ok (some ((changesOf task after).foldl (fun r change => change.applyTo r) record)), c))
      ∧ (∀ task, (∀ record, TaskCall.set task record ∉ calls) →
          (getTask task endpoint).run servers c = (.ok none, c))
      ∧ ∀ name, ∃ (tasks : List String) (records : List TaskRecord), tasks.Nodup
          ∧ (∀ task, task ∈ tasks ↔
            ∃ record, TaskCall.set task record ∈ calls ∧ record.importName = name)
          ∧ (tasksOf name endpoint).run servers c = (.ok records, c)
          ∧ tasks.map (fun task => (getTask task endpoint).run servers c) =
            records.map (fun r => (.ok (some r), c)) := by
  obtain ⟨c, hruns, hmirrors⟩ := exists_runEach endpoint h
  refine ⟨c, hruns, ?_, ?_, hmirrors.run_tasksOf⟩
  · intro task before record after hcalls hlast
    have hrecord : recordAfter task calls =
        some ((changesOf task after).foldl (fun r change => change.applyTo r) record) := by
      rw [hcalls, recordAfter, List.foldl_append, List.foldl_cons, TaskCall.effect, if_pos rfl]
      exact foldl_effect hlast
    rw [← hrecord]
    exact run_getTask_of_keeps hmirrors.reachable (hmirrors.records task)
  · intro task hnone
    have hrecord : recordAfter task calls = none := by
      rw [← Option.not_isSome_iff_eq_none, isSome_recordAfter]
      rintro ⟨record, hmem⟩
      exact hnone record hmem
    rw [← hrecord]
    exact run_getTask_of_keeps hmirrors.reachable (hmirrors.records task)

/-- Two tasks, one of them with an import name, that are updated in turn. -/
def twoTasks : List TaskCall :=
  [.set "first" ⟨"accepted", 202, "Submitted",
      .object [("import_name", .str "people"), ("rows", .int 1)]⟩,
    .set "second" ⟨"accepted", -7, "", .object []⟩,
    .update "first" ⟨.status, "validated", "Done",
      some [("rows", .list [.int 2, .null]), ("date", .str "today")], false⟩,
    .update "second" ⟨.message, "Waiting", "", some [("rows", .int 5)], true⟩,
    .update "first" ⟨.message, "Published", "", none, true⟩]

theorem orderly_twoTasks : Orderly twoTasks := by
  have hempty : Orderly [] :=
    ⟨fun _ hmem => absurd hmem List.not_mem_nil, fun before _ _ _ hsplit => absurd hsplit (by simp)⟩
  refine ((((hempty.concat ?_ ?_).concat ?_ ?_).concat ?_ ?_).concat ?_ ?_).concat ?_ ?_
  all_goals
    simp [TaskCall.Sound, Value.distinct, Value.distinctMembers, Value.distinctItems, Assoc.keys]

/-- The run of the two tasks: both are read back with their changes, and the first one is the only task
of its import name. -/
theorem twoTasks_read_back : Orderly twoTasks ∧
    ∃ c, Job.runEach servers (twoTasks.map (TaskCall.job "schema")) {} =
        (twoTasks.map fun _ => .ok (), c)
      ∧ (getTask "second" "schema").run servers c =
        (.ok (some ⟨"accepted", -7, "Waiting", .object [("rows", .int 5)]⟩), c)
      ∧ (tasksOf "people" "schema").run servers c =
        (.ok [⟨"validated", 202, "Published", .object [("import_name", .str "people"),
          ("rows", .list [.int 2, .null]), ("date", .str "today")]⟩], c) := by
  obtain ⟨c, hruns, hget, -, htasks⟩ := tasks_read_back "schema" orderly_twoTasks
  have hfirst := hget "first" [] _ _ rfl (by simp)
  have hsecond := hget "second" [_] _ _ rfl (by simp)
  obtain ⟨tasks, records, hnodup, hmem, hrun, hrecords⟩ := htasks "people"
  have honly : tasks = ["first"] := by
    refine List.perm_singleton.mp ((List.perm_ext_iff_of_nodup hnodup (List.nodup_singleton _)).mpr ?_)
    intro task
    rw [hmem, List.mem_singleton]
    constructor
    · rintro ⟨record, hset, hname⟩
      simp only [twoTasks, List.mem_cons, TaskCall.set.injEq, reduceCtorEq, List.not_mem_nil,
        or_false] at hset
      rcases hset with ⟨rfl, -⟩ | ⟨-, rfl⟩
      · rfl
      · exact absurd hname (by decide)
    · rintro rfl
      exact ⟨_, List.mem_cons_self, rfl⟩
  rw [honly, List.map_singleton, hfirst] at hrecords
  obtain ⟨r, rfl, hr⟩ := List.map_eq_singleton_iff.mp hrecords.symm
  obtain rfl := Option.some.inj (Except.ok.inj (Prod.mk.inj hr).1)
  exact ⟨orderly_twoTasks, c, hruns, hsecond, hrun⟩

end Cache

end SheetIntake
