import SheetIntake.Proofs.TaskRecords
import SheetIntake.Worker.Schema

/-!
# The schema worker at work

Where the record of the task is kept, the worker carries an upload through to its end: it accepts
the delivery, and the record tells whether the result was published, which depends on whether a
schema could be made and saved.

* `readMessage_encoded` — the worker reads the message that was published.
* `run_updateSchema`, `run_publishResult` — the two halves of the work.
* `run_handleSchema` — the whole of it, where the record is kept.
-/

namespace SheetIntake

open Cache (taskKey updateData)
open Job (run run_bind_ok)
open Value (distinct str)

namespace Service

/-! ## Jobs for a part of the servers -/

variable {α : Type}

theorem run_onCache (job : Job Cache.protocol α) (s : Stores) : (onCache job).run servers s =
      ((job.run Cache.servers s.cache).1, { s with cache := (job.run Cache.servers s.cache).2 }) :=
  Plan.run_within Stores.cache (fun s cache => { s with cache })
    (fun _ _ => ⟨Except.map_id ▸ rfl, rfl⟩) (fun _ _ => rfl) (fun _ _ _ => rfl) (fun _ => rfl)
    (ExceptT.run job) s

theorem run_onRegistry (job : Job Registry.protocol α) (s : Stores) :
    (onRegistry job).run servers s = ((job.run Registry.servers s.registry).1,
        { s with registry := (job.run Registry.servers s.registry).2 }) :=
  Plan.run_within Stores.registry (fun s registry => { s with registry })
    (fun _ _ => ⟨Except.map_id ▸ rfl, rfl⟩) (fun _ _ => rfl) (fun _ _ _ => rfl) (fun _ => rfl)
    (ExceptT.run job) s

theorem run_onBroker {job : Job Broker.protocol α} {s : Stores} {r : Except Fault α}
    {broker : Broker.Store} (h : job.run Broker.servers s.broker = (r, broker)) :
    (onBroker job).run servers s = (r, { s with broker }) :=
  (Plan.run_within Stores.broker (fun s broker => { s with broker })
    (fun _ _ => ⟨Except.map_id ▸ rfl, rfl⟩) (fun _ _ => rfl) (fun _ _ _ => rfl) (fun _ => rfl)
    (ExceptT.run job) s).trans (congrArg (fun x => (x.1, { s with broker := x.2 })) h)

end Service

/-- A record with a status is kept under a key, in a cache that can be reached. -/
def Cache.Store.Tracks (c : Cache.Store) (key status : String) : Prop :=
  c.reachable = true ∧ ∃ r, c.Holds key r ∧ r.status = status

namespace Worker

open Service

/-! ## Messages -/

theorem readMessage_encoded {v : Value} (hv : v.distinct) :
    readMessage (Text.encodeUtf8 (Json.write .line v)) = .ok v := by
  unfold readMessage Cache.parsed
  rw [Text.decodeUtf8_encodeUtf8]
  dsimp only
  rw [Json.read_write .line hv]

theorem distinct_schemaMessage {id : String} {task : SchemaTask} {schema : Value} {name : String}
    {raw : Bool} {now : Moment} (hschema : schema.distinct) :
    (schemaMessage id task schema name raw now).distinct := by
  have hnames : ["id", "timestamp", "schema", "import_name", "raw", "task", "date"].Nodup := by
    decide
  refine Value.distinct_object_iff.mpr ⟨hnames, ?_⟩
  simp [distinct, hschema]

variable {s : Stores} {task : Value} {id endpoint before : String} {now : Moment}

/-! ## Reports -/

theorem distinct_updated {data : List (String × Value)} (hdata : ∀ m ∈ data, m.2.distinct) :
    ∀ m ∈ data ++ [("update_date", str now.text)], m.2.distinct :=
  List.forall_mem_append.mpr ⟨hdata, List.forall_mem_singleton.mpr rfl⟩

theorem run_report_record (hc : s.cache.reachable) {r : TaskRecord}
    (hr : s.cache.Holds (taskKey endpoint task.text) r) (status message : String)
    {data : List (String × Value)} (hdata : ∀ m ∈ data, m.2.distinct) :
    ∃ cache, (report endpoint task (.str status) message (updatedAt now data)).run servers s =
        (.ok (), { s with cache })
      ∧ cache.reachable ∧ cache.Holds (taskKey endpoint task.text)
        ({ r with status }.revised message (data ++ [("update_date", str now.text)]) false) := by
  obtain ⟨cache, hrun, hreach, hholds⟩ := Cache.run_updateTask hc hr status message
    (List.concat_ne_nil _ data) (distinct_updated hdata) false
  refine ⟨cache, ?_, hreach, hholds⟩
  unfold report
  rw [run_onCache]
  exact congrArg (fun x => (x.1, { s with cache := x.2 })) hrun

theorem run_report (h : s.cache.Tracks (taskKey endpoint task.text) before)
    (status message : String) {data : List (String × Value)}
    (hdata : ∀ m ∈ data, m.2.distinct) :
    ∃ cache, (report endpoint task (.str status) message (updatedAt now data)).run servers s =
        (.ok (), { s with cache })
      ∧ cache.Tracks (taskKey endpoint task.text) status := by
  obtain ⟨hc, r, hr, -⟩ := h
  obtain ⟨cache, hrun, hreach, hholds⟩ :=
    @run_report_record s task endpoint now hc r hr status message data hdata
  exact ⟨cache, hrun, hreach, _, hholds, rfl⟩

/-! ## Making and saving a schema -/

theorem run_attempted (job : Job Registry.protocol Value) (s : Stores) :
    (attempted job).run servers s = (.ok (job.run Registry.servers s.registry).1,
      { s with registry := (job.run Registry.servers s.registry).2 }) := by
  unfold attempted
  rw [Job.run_tryCatch, Job.run_bind, run_onRegistry]
  cases (job.run Registry.servers s.registry).1 <;> rfl

/-- A document is a schema, or the reason why it is none is known. -/
def Judged (raw : Bool) (document : Value) : Prop :=
  (∃ schema, Schema.create raw document = .ok schema)
    ∨ ∃ reason, Schema.create raw document = .error (.invalidSchema reason)

/-- Whether a schema can be made out of a document and saved. -/
def saves (raw : Bool) (document : Value) (name : String) (now : Moment) (registry : Registry.Store) :
    Bool :=
  match Schema.create raw document with
  | .ok schema =>
    attemptGood ((Registry.saveSchema schema (.str name) now.text).run Registry.servers registry).1
  | .error _ => false

/-- The key of a task about schemas. -/
abbrev schemaKey (task : String) : String :=
  taskKey schemaEndpoint task

theorem run_saveMade (h : s.cache.Tracks (schemaKey task.text) before) (schema name : Value) :
    ∃ document cache, (saveMade schema task name now).run servers s =
          (.ok ⟨attemptGood ((Registry.saveSchema schema name now.text).run
            Registry.servers s.registry).1, document⟩, { s with
              cache
              registry := ((Registry.saveSchema schema name now.text).run
                Registry.servers s.registry).2 })
        ∧ cache.Tracks (schemaKey task.text)
            (attemptStatus "failed-saving-schema" ((Registry.saveSchema schema name now.text).run
              Registry.servers s.registry).1) := by
  obtain ⟨c₁, hsaving, h₁⟩ := @run_report s task schemaEndpoint before now h "saving-schema" "" []
    (List.forall_mem_nil _)
  have hattempt := run_attempted (Registry.saveSchema schema name now.text)
    { s with cache := c₁ }
  generalize (Registry.saveSchema schema name now.text).run Registry.servers s.registry =
    attempt at hattempt ⊢
  obtain ⟨c₂, hcompleted, h₂⟩ := @run_report { s with cache := c₁, registry := attempt.2 } task
    schemaEndpoint "saving-schema" now h₁ (attemptStatus "failed-saving-schema" attempt.1)
    "Validation completed and uploaded to the database."
    [("results", .str (if (attemptValue attempt.1).truthy then (attemptValue attempt.1).inspect
      else "Schema is the same, no update needed."))] (by simp [distinct])
  refine ⟨?document, c₂, ?run, h₂⟩
  case run =>
    unfold saveMade
    rw [run_bind_ok hsaving, run_bind_ok hattempt]
    exact run_bind_ok hcompleted

theorem run_makeSchema (h : s.cache.Tracks (schemaKey task.text) before)
    {raw : Bool} {document message : Value} (hdocument : message.member "schema" = .ok document)
    (hjudged : Judged raw document) (name : Value) :
    ∃ cache status,
      (makeSchema raw message task name now).run servers s =
          (.ok (Schema.create raw document).toOption, { s with cache })
        ∧ cache.Tracks (schemaKey task.text) status := by
  unfold makeSchema
  rw [hdocument, run_bind_ok (Job.run_ofExcept _ _)]
  have hreport (status message : String) :=
    @run_report s task schemaEndpoint before now h status message [] (List.forall_mem_nil _)
  rcases hjudged with ⟨schema, hcreate⟩ | ⟨reason, hcreate⟩
  all_goals
    rw [hcreate]
    obtain ⟨cache, hrun, hcache⟩ := hreport _ _
    exact ⟨cache, _, run_bind_ok hrun, hcache⟩

theorem run_updateSchema (h : s.cache.Tracks (schemaKey id) before)
    {document : Value} {name : String} {raw : Bool} {sent : Moment} (hjudged : Judged raw document) :
    ∃ result cache registry status,
      (updateSchema (schemaMessage id .upload document name raw sent) (.str id) now).run servers s =
          (.ok ⟨saves raw document name now s.registry, result⟩, { s with cache, registry })
        ∧ cache.Tracks (schemaKey id) status := by
  obtain ⟨c₁, hcreating, h₁⟩ := @run_report s (.str id) schemaEndpoint before now h "creating-schema"
    ("Creating schema for import: " ++ (str name).text) [] (List.forall_mem_nil _)
  have hdocument : (schemaMessage id .upload document name raw sent).member "schema" =
      .ok document := rfl
  obtain ⟨c₂, status, hmake, h₂⟩ := @run_makeSchema { s with cache := c₁ } (.str id) "creating-schema"
    now h₁ raw document _ hdocument hjudged (.str name)
  -- All that comes before is the same for what is a schema and what is none.
  obtain ⟨failure, hstart⟩ : ∃ failure,
      (updateSchema (schemaMessage id .upload document name raw sent) (.str id) now).run servers s =
        run servers ((Schema.create raw document).toOption.elim (return ⟨false, failure⟩)
          (saveMade · (.str id) (.str name) now)) { s with cache := c₂ } := by
    refine ⟨?failure, ?run⟩
    case run =>
      refine (run_bind_ok (Job.run_ofExcept _ _)).trans ?_
      refine (run_bind_ok (Job.run_ofExcept _ _)).trans ?_
      refine (run_bind_ok hcreating).trans ?_
      refine (run_bind_ok hmake).trans ?_
      cases (Schema.create raw document).toOption <;> rfl
  rw [hstart]
  unfold saves
  cases Schema.create raw document with
  | ok schema =>
    obtain ⟨result, c₃, hsave, h₃⟩ :=
      @run_saveMade { s with cache := c₂ } (.str id) status now h₂ schema (.str name)
    exact ⟨result, c₃, _, _, hsave, h₃⟩
  | error fault => exact ⟨failure, c₂, s.registry, status, rfl, h₂⟩

/-! ## The result -/

/-- The last status that a worker tells: whether the result was published. -/
def lastStatus (good : Bool) : String :=
  if good then "published" else "failed-publishing-result"

theorem run_publish (hbroker : s.broker.reachable) (m : Broker.Message) :
    (onBroker (Broker.publish m)).run servers s =
      (.ok (), { s with broker := s.broker.withMessage m }) := by
  have hserve : Broker.servers (.publish m) s.broker = (.ok (), s.broker.withMessage m) :=
    if_pos (by simp [hbroker])
  exact run_onBroker hserve

theorem run_publish_unreachable (hbroker : s.broker.reachable = false) (m : Broker.Message) :
    (onBroker (Broker.publish m)).run servers s = (.error .brokerUnreachable, s) := by
  have hserve : Broker.servers (.publish m) s.broker = (.error .brokerUnreachable, s.broker) :=
    if_neg (by simp [hbroker, Broker.Request.isLocal])
  exact run_onBroker hserve

theorem run_settle (settlement : Broker.Settlement) (s : Stores) :
    (onBroker (Broker.settle settlement)).run servers s =
      (.ok (), { s with broker := { s.broker with
        settlements := s.broker.settlements ++ [settlement] } }) := by
  have hserve : Broker.servers (.settle settlement) s.broker =
      (.ok (), { s.broker with settlements := s.broker.settlements ++ [settlement] }) :=
    if_pos (by simp [Broker.Request.isLocal])
  exact run_onBroker hserve

theorem run_uploadDate (h : s.cache.Tracks (taskKey endpoint task.text) before) :
    ∃ date, (uploadDate endpoint task now).run servers s = (.ok date, s) ∧ date.distinct := by
  obtain ⟨hc, r, hr, -⟩ := h
  have hget := Cache.run_getTask hc hr
  obtain ⟨found, -, htells⟩ := hr
  obtain ⟨members, hmembers⟩ := htells.object
  have hread : (onCache (Cache.getTask task.text endpoint)).run servers s = (.ok (some r), s) := by
    rw [run_onCache, hget]
  refine ⟨(Assoc.get? "upload_date" members).getD (.str now.text), ?_, ?_⟩
  · refine (run_bind_ok hread).trans ?_
    dsimp only
    rw [hmembers]
    rfl
  · have hdistinct := htells.distinct
    rw [hmembers] at hdistinct
    cases hdate : Assoc.get? "upload_date" members with
    | none => rw [Option.getD_none, distinct]
    | some date => exact (Value.distinct_object_iff.mp hdistinct).2 _ (Assoc.mem_of_get? hdate)

/-- The broker after the end of the work: a good result was published. -/
def announced (queue : Broker.Queue) (outcome : Outcome) (broker : Broker.Store) : Broker.Store :=
  if outcome.good then broker.withMessage (messageFor queue outcome.document none) else broker

theorem settlements_announced (queue : Broker.Queue) (outcome : Outcome) (broker : Broker.Store) :
    (announced queue outcome broker).settlements = broker.settlements := by
  unfold announced
  split <;> rfl

theorem published_announced (queue : Broker.Queue) (outcome : Outcome) (broker : Broker.Store) :
    (announced queue outcome broker).published =
      if outcome.good then broker.published ++ [messageFor queue outcome.document none]
      else broker.published := by
  unfold announced
  split <;> rfl

/-- The record of a task at the end of the work. Of a result that is not published no data are kept
but the moment of the upload. -/
def lastRecord (good : Bool) (r : TaskRecord) (uploaded : Value) (now : Moment) : TaskRecord :=
  if good then
    { r with status := "published" }.revised "Validation result published"
      [("update_date", .str now.text)] false
  else
    { r with status := "failed-publishing-result" }.revised unpublished
      [("error", .str unpublished), ("update_date", .str now.text), ("upload_date", uploaded)] true

theorem status_lastRecord (good : Bool) (r : TaskRecord) (uploaded : Value) (now : Moment) :
    (lastRecord good r uploaded now).status = lastStatus good := by
  cases good <;> rfl

theorem run_publishResult_record (hc : s.cache.reachable) {r : TaskRecord}
    (hr : s.cache.Holds (taskKey endpoint task.text) r) (queue : Broker.Queue)
    {outcome : Outcome} (hbroker : outcome.good → s.broker.reachable) :
    ∃ cache uploaded, (publishResult endpoint queue task outcome now).run servers s =
        (.ok (), { s with cache, broker := announced queue outcome s.broker })
      ∧ cache.reachable ∧ cache.Holds (taskKey endpoint task.text)
        (lastRecord outcome.good r uploaded now) := by
  unfold publishResult lastRecord announced
  cases hgood : outcome.good with
  | true =>
    have hpublish := run_publish (hbroker hgood) (messageFor queue outcome.document none)
    obtain ⟨cache, hreport, hreach, hholds⟩ := @run_report_record
      { s with broker := s.broker.withMessage (messageFor queue outcome.document none) } task endpoint
      now hc r hr "published" "Validation result published" [] (List.forall_mem_nil _)
    exact ⟨cache, .null, (run_bind_ok hpublish).trans hreport, hreach, hholds⟩
  | false =>
    obtain ⟨date, hdate, hdistinct⟩ := @run_uploadDate s task endpoint _ now ⟨hc, r, hr, rfl⟩
    have hadded : ∀ m ∈ [("error", str unpublished), ("update_date", .str now.text),
        ("upload_date", date)], m.2.distinct := by
      simp [distinct, hdistinct]
    obtain ⟨cache, hrun, hreach, hholds⟩ := Cache.run_updateTask hc hr "failed-publishing-result"
      unpublished (List.cons_ne_nil _ _) hadded true
    refine ⟨cache, date, ?_, hreach, hholds⟩
    refine (run_bind_ok hdate).trans ?_
    rw [run_onCache]
    exact congrArg (fun x => (x.1, { s with cache := x.2 })) hrun

theorem run_publishResult (h : s.cache.Tracks (taskKey endpoint task.text) before)
    (queue : Broker.Queue) {outcome : Outcome} (hbroker : outcome.good → s.broker.reachable) :
    ∃ cache, (publishResult endpoint queue task outcome now).run servers s =
        (.ok (), { s with cache, broker := announced queue outcome s.broker })
      ∧ cache.Tracks (taskKey endpoint task.text) (lastStatus outcome.good) := by
  obtain ⟨hc, r, hr, -⟩ := h
  obtain ⟨cache, uploaded, hrun, hreach, hholds⟩ :=
    @run_publishResult_record s task endpoint now hc r hr queue outcome hbroker
  exact ⟨cache, hrun, hreach, _, hholds, status_lastRecord ..⟩

/-! ## A delivery -/

def receivedData (sent now : Moment) : List (String × Value) :=
  [("upload_date", .str sent.text), ("update_date", .str now.text)]

/-- The work on an upload after its status was set for the first time. -/
def afterReceived (id : String) (document : Value) (name : String) (raw : Bool) (sent now : Moment) :
    Job protocol Unit := do
  onCache (do
    Cache.updateMessage (taskKey schemaEndpoint id) (.str "")
    updateData (.str id) schemaEndpoint
      (Cache.statusUpdate "received-schema-update" "" (receivedData sent now) false))
  let outcome ← updateSchema (schemaMessage id .upload document name raw sent) (.str id) now
  publishResult schemaEndpoint .schemaResults (.str id) outcome now

/-- The request that sets the first status of an upload. -/
abbrev receiving (id : String) : Service.Request :=
  .cache (.setFields (schemaKey id) [("status", .str "received-schema-update")])

/-- The first thing that the worker does is to set the status. -/
theorem handleSchema_start {document : Value} (hdocument : document.distinct) (tag : Nat)
    (id name : String) (raw : Bool) (sent now : Moment) :
    ∃ next, ExceptT.run (handleSchema tag (Text.encodeUtf8
          (Json.write .line (schemaMessage id .upload document name raw sent))) now) =
        .ask (receiving id) next
      ∧ next (.ok ()) = ExceptT.run (settling tag (afterReceived id document name raw sent now)) := by
  unfold handleSchema schemaWork
  rw [readMessage_encoded (distinct_schemaMessage hdocument)]
  exact ⟨_, rfl, rfl⟩

/-- After the status was set, the worker reads the record. Where only the status is there, it gives
the message up. -/
theorem afterReceived_start (tag : Nat) (id : String) (document : Value) (name : String) (raw : Bool)
    (sent now : Moment) :
    ∃ next, ExceptT.run (settling tag (afterReceived id document name raw sent now)) =
        .ask (.cache (.fields (schemaKey id))) next
      ∧ next (.ok [("status", "received-schema-update")]) =
          ExceptT.run (onBroker (Broker.settle (.refused tag false))) :=
  ⟨_, rfl, rfl⟩

theorem run_afterReceived {document : Value} {name : String} {raw : Bool} {sent : Moment} (tag : Nat)
    (hjudged : Judged raw document)
    (h : s.cache.Tracks (schemaKey id) before)
    (hbroker : s.broker.reachable) :
    ∃ t, (settling tag (afterReceived id document name raw sent now)).run servers s = (.ok (), t)
      ∧ t.cache.Tracks (schemaKey id)
          (lastStatus (saves raw document name now s.registry))
      ∧ t.broker.settlements = s.broker.settlements ++ [.accepted tag] := by
  obtain ⟨hc, r, hr, -⟩ := h
  have hdata : ∀ m ∈ receivedData sent now, m.2.distinct := by
    simp [receivedData, distinct]
  obtain ⟨c₁, hmessage, hc₁, h₁⟩ := Cache.run_updateMessage hc hr ""
  have hne : receivedData sent now ≠ [] := List.cons_ne_nil _ _
  obtain ⟨c₂, hupdate, hc₂, h₂⟩ := Cache.run_updateData hc₁ h₁ "received-schema-update" "" hne hdata
    false
  have hreceived : (onCache (do
      Cache.updateMessage (schemaKey id) (.str "")
      updateData (.str id) schemaEndpoint
        (Cache.statusUpdate "received-schema-update" "" (receivedData sent now) false))).run servers s =
      (.ok (), { s with cache := c₂ }) := by
    rw [run_onCache, run_bind_ok hmessage, hupdate]
  obtain ⟨result, c₃, registry, status, hwork, h₃⟩ := @run_updateSchema { s with cache := c₂ } id _ now
    ⟨hc₂, _, h₂, rfl⟩ document name raw sent hjudged
  obtain ⟨c₄, hpublish, h₄⟩ :=
    @run_publishResult { s with cache := c₃, registry } (.str id) schemaEndpoint status now h₃
      .schemaResults ⟨saves raw document name now s.registry, result⟩ (fun _ => hbroker)
  let broker := announced .schemaResults ⟨saves raw document name now s.registry, result⟩ s.broker
  have hall : (afterReceived id document name raw sent now).run servers s =
      (.ok (), { s with cache := c₄, registry, broker }) := by
    exact (run_bind_ok hreceived).trans ((run_bind_ok hwork).trans hpublish)
  have hrun : (settling tag (afterReceived id document name raw sent now)).run servers s =
      (.ok (), { s with
        cache := c₄
        registry
        broker := { broker with settlements := broker.settlements ++ [.accepted tag] } }) := by
    unfold settling
    rw [Job.run_tryCatch, run_bind_ok hall, run_settle]
  exact ⟨_, hrun, h₄, congrArg (· ++ [.accepted tag]) (settlements_announced ..)⟩

theorem run_handleSchema {document : Value} {name : String} {raw : Bool} {sent : Moment} (tag : Nat)
    (hdocument : document.distinct) (hjudged : Judged raw document)
    (h : s.cache.Tracks (schemaKey id) before)
    (hbroker : s.broker.reachable) :
    ∃ t, (handleSchema tag (Text.encodeUtf8
          (Json.write .line (schemaMessage id .upload document name raw sent))) now).run servers s =
        (.ok (), t)
      ∧ t.cache.Tracks (schemaKey id)
          (lastStatus (saves raw document name now s.registry))
      ∧ t.broker.settlements = s.broker.settlements ++ [.accepted tag] := by
  obtain ⟨next, hstart, hnext⟩ := handleSchema_start hdocument tag id name raw sent now
  obtain ⟨hc, r, hr, -⟩ := h
  obtain ⟨found, hfound, htells⟩ := hr
  let cache := s.cache.replace (schemaKey id)
    (.fields (Assoc.put "status" "received-schema-update" found))
  have hset : servers (receiving id) s = (.ok (), { s with cache }) :=
    congrArg (fun x => (x.1, { s with cache := x.2 })) (Cache.run_setField hc hfound)
  obtain ⟨t, hrun, ht⟩ := @run_afterReceived { s with cache } id "received-schema-update" now document
    name raw sent tag hjudged
    ⟨hc, _, ⟨_, Cache.Store.content?_replace_self, htells.put_status "received-schema-update"⟩, rfl⟩
    hbroker
  refine ⟨t, ?_, ht⟩
  unfold run
  rw [hstart, Plan.run_ask, hset]
  rw [hnext]
  exact hrun

end Worker

end SheetIntake
