import SheetIntake.Proofs.SchemaTasks

/-!
# What the schema worker asks and sees

All that the worker asks of the cache while it carries out an upload is about the key of its task.
So what others do under other keys makes no difference to it.

* `asks_handleSchema` — the requests of the worker.
* `sees_of_works` — their answers depend on what is under the key, the registry and the broker.
* `hides_addMember` — adding a task to the set of its import name is not seen.
-/

namespace SheetIntake.Service

open Cache (getTask taskKey updateData stored)
open Worker
open Job (asks_ask asks_ofExcept asks_ofExcept_bind asks_pure asks_throw)
open Cache.Store (changed content?_replace_self fieldsOf respond withFields)

/-! ## What the worker asks -/

/-- Requests about the fields under one key. -/
inductive Touches (key : String) : Cache.Request → Prop
  | read : Touches key (.fields key)
  | set (fields : List (String × Value)) : Touches key (.setFields key fields)

/-- The requests of the worker: all that it asks of the cache is about one key. -/
inductive Works (key : String) : Request → Prop
  | cache {request : Cache.Request} (h : Touches key request) : Works key (.cache request)
  | registry (request : Registry.Request) : Works key (.registry request)
  | broker (request : Broker.Request) : Works key (.broker request)

section

variable {id endpoint : String} {now : Moment}

theorem asks_getTask : (getTask id endpoint).Asks (Touches (taskKey endpoint id)) := by
  refine .bind (asks_ask .read) (fun fields => .bind (asks_ofExcept _) (fun members => ?_))
  split <;> exact asks_pure _

theorem asks_updateMessage (message : Value) :
    (Cache.updateMessage (taskKey endpoint id) message).Asks (Touches (taskKey endpoint id)) := by
  unfold Cache.updateMessage
  split
  · exact asks_ask (.set _)
  · exact asks_pure ()

theorem asks_updateData (u : Cache.TaskUpdate) :
    (updateData (.str id) endpoint u).Asks (Touches (taskKey endpoint id)) := by
  have hset : ∀ present : Value, (do
      let present ← Job.ofExcept (Cache.dataMembers present)
      let added ← Job.ofExcept (Cache.dataMembers u.data)
      Cache.setFields (taskKey endpoint id)
        [("data", .str (Json.write .line (.object (Assoc.merge present added))))]).Asks
      (Touches (taskKey endpoint id)) := fun present =>
    .bind (asks_ofExcept _) (fun _ => .bind (asks_ofExcept _) (fun _ => asks_ask (.set _)))
  unfold updateData
  split
  · split
    · exact .bind (asks_pure _) hset
    · refine .bind asks_getTask (fun record => ?_)
      cases record with
      | some record => exact .bind (asks_pure _) hset
      | none => exact .bind (asks_throw _) hset
  · exact asks_pure ()

theorem asks_onCache {α : Type} {key : String} {job : Job Cache.protocol α}
    (h : job.Asks (Touches key)) : (onCache job).Asks (Works key) :=
  .within (h.imp fun _ => .cache)

theorem asks_onBroker {key : String} (request : Broker.Request) :
    (onBroker (Job.ask request)).Asks (Works key) :=
  .within (asks_ask (.broker request))

theorem asks_updateTask (status message : String) (data : List (String × Value)) (reset : Bool) :
    (Cache.updateTask (.str id) endpoint (Cache.statusUpdate status message data reset)).Asks
      (Touches (taskKey endpoint id)) := by
  rw [Cache.updateTask_eq]
  exact .bind (asks_ask (.set _)) fun _ => .bind (asks_updateMessage _) fun _ => asks_updateData _

theorem asks_report (status message : String) (data : List (String × Value)) :
    (report endpoint (.str id) (.str status) message (updatedAt now data)).Asks
      (Works (taskKey endpoint id)) :=
  asks_onCache (asks_updateTask status message _ false)

theorem asks_makeSchema (raw : Bool) (message : Value) (name : String) :
    (makeSchema raw message (.str id) (.str name) now).Asks (Works (schemaKey id)) := by
  refine .bind (asks_ofExcept _) (fun given => ?_)
  split
  · exact .bind (asks_report _ _ _) fun _ => asks_pure _
  · exact .bind (asks_report _ _ _) fun _ => asks_pure _
  · exact asks_throw _

theorem asks_saveMade (schema : Value) (name : String) :
    (saveMade schema (.str id) (.str name) now).Asks (Works (schemaKey id)) := by
  have hregistry : (attempted (Registry.saveSchema schema (.str name) now.text)).Asks
      (Works (schemaKey id)) := by
    refine .tryCatch (.bind (.within ?_) fun _ => asks_pure _) fun _ => asks_pure _
    exact Plan.asks_of_forall .registry _
  exact .bind (asks_report _ _ _) fun _ => .bind hregistry fun _ =>
    .bind (asks_report _ _ _) fun _ => asks_pure _

theorem asks_updateSchema (document : Value) (name : String) (raw : Bool) (sent : Moment) :
    (updateSchema (schemaMessage id .upload document name raw sent) (.str id) now).Asks
      (Works (schemaKey id)) := by
  refine asks_ofExcept_bind (asks_ofExcept_bind (.bind (asks_report _ _ _) fun _ =>
    .bind (asks_makeSchema _ _ _) fun made => ?_))
  cases made with
  | some schema => exact asks_saveMade schema name
  | none => exact asks_pure _

theorem asks_publishResult (queue : Broker.Queue) (outcome : Outcome) :
    (publishResult endpoint queue (.str id) outcome now).Asks (Works (taskKey endpoint id)) := by
  have hdate : (uploadDate endpoint (.str id) now).Asks (Works (taskKey endpoint id)) := by
    refine .bind (asks_onCache asks_getTask) fun record => ?_
    cases record with
    | none => exact asks_throw _
    | some record =>
      dsimp only
      split
      · exact asks_pure _
      · exact asks_throw _
  unfold publishResult
  split
  · exact .bind (asks_onBroker _) fun _ => asks_report _ _ _
  · exact .bind hdate fun date => asks_onCache (asks_updateTask _ _ _ true)

theorem asks_settling {key : String} {work : Job protocol Unit} (tag : Nat)
    (hwork : work.Asks (Works key)) : (settling tag work).Asks (Works key) :=
  .tryCatch (.bind hwork fun _ => asks_onBroker _) fun _ => asks_onBroker _

theorem asks_afterReceived (document : Value) (name : String) (raw : Bool) (sent : Moment) :
    (afterReceived id document name raw sent now).Asks (Works (schemaKey id)) :=
  .bind (asks_onCache (.bind (asks_updateMessage _) fun _ => asks_updateData _)) fun _ =>
    .bind (asks_updateSchema _ _ _ _) fun _ => asks_publishResult _ _

theorem asks_handleSchema {document : Value} (hdocument : document.distinct) (tag : Nat)
    (name : String) (raw : Bool) (sent : Moment) : (handleSchema tag (Text.encodeUtf8
      (Json.write .line (schemaMessage id .upload document name raw sent))) now).Asks
      (Works (schemaKey id)) := by
  unfold handleSchema schemaWork
  rw [readMessage_encoded (distinct_schemaMessage hdocument)]
  refine asks_settling tag (asks_ofExcept_bind (asks_ofExcept_bind
    (asks_ofExcept_bind ?_)))
  exact .bind (asks_report _ _ _) fun _ => .bind (asks_updateSchema _ _ _ _) fun _ =>
    asks_publishResult _ _

end

/-! ## What the worker sees -/

variable {key other : String}

theorem fieldsOf_congr {c d : Cache.Store} (h : d.content? key = c.content? key) :
    d.fieldsOf key = c.fieldsOf key := by
  rw [fieldsOf, fieldsOf, h]

/-- Setting fields fails and changes nothing, or sets them; which of the two depends on what is under
the key, and so does the content that is there afterwards. -/
theorem servers_setFields_cases (key : String) (fields : List (String × Value)) (c : Cache.Store) :
    (∃ fault, ∀ d : Cache.Store, d.reachable = c.reachable → d.content? key = c.content? key →
        Cache.servers (.setFields key fields) d = (.error fault, d))
      ∨ ∃ content, ∀ d : Cache.Store, d.reachable = c.reachable → d.content? key = c.content? key →
        Cache.servers (.setFields key fields) d = (.ok (), d.replace key (.fields content)) := by
  cases hreach : c.reachable with
  | false => exact .inl ⟨.cacheUnreachable, fun d hd _ => if_neg (by simp [hd])⟩
  | true =>
    cases htexts : fields.mapM (fun f => do return (f.1, ← stored f.2)) with
    | error fault =>
      refine .inl ⟨fault, fun d hd _ => ?_⟩
      rw [Cache.servers_of_reachable hd]
      unfold respond
      dsimp only
      rw [htexts]
      rfl
    | ok texts =>
      cases hfound : c.fieldsOf key with
      | error fault =>
        refine .inl ⟨fault, fun d hd hcontent => ?_⟩
        rw [Cache.servers_of_reachable hd]
        unfold respond
        dsimp only
        rw [htexts, Outcome.ok_bind, withFields, fieldsOf_congr hcontent, hfound]
        rfl
      | ok found =>
        exact .inr ⟨_, fun d hd hcontent =>
          Cache.servers_setFields hd ((fieldsOf_congr hcontent).trans hfound) htexts⟩

/-- What the worker sees of the servers: the entry of the task, the registry and the broker. -/
def workerView (key : String) (s : Stores) :
    Bool × Option Cache.Content × Registry.Store × Broker.Store :=
  (s.cache.reachable, s.cache.content? key, s.registry, s.broker)

theorem workerView_eq_iff {s t : Stores} : workerView key s = workerView key t ↔
    s.cache.reachable = t.cache.reachable ∧ s.cache.content? key = t.cache.content? key
      ∧ s.registry = t.registry ∧ s.broker = t.broker := by
  simp only [workerView, Prod.mk.injEq]

theorem servers_cache (request : Cache.Request) (s : Stores) :
    servers (.cache request) s = ((Cache.servers request s.cache).1,
      { s with cache := (Cache.servers request s.cache).2 }) := rfl

theorem servers_registry (request : Registry.Request) (s : Stores) :
    servers (.registry request) s = ((Registry.servers request s.registry).1,
      { s with registry := (Registry.servers request s.registry).2 }) := rfl

theorem servers_broker (request : Broker.Request) (s : Stores) :
    servers (.broker request) s = ((Broker.servers request s.broker).1,
      { s with broker := (Broker.servers request s.broker).2 }) := rfl

theorem servers_fields (key : String) (c : Cache.Store) : Cache.servers (.fields key) c =
      (if c.reachable then c.fieldsOf key else .error .cacheUnreachable, c) := by
  unfold Cache.servers
  split <;> rfl

theorem sees_of_works {request : Request} (h : Works key request) :
    Plan.Sees servers (workerView key) request := by
  intro s t hview
  obtain ⟨hreach, hcontent, hregistry, hbroker⟩ := workerView_eq_iff.mp hview
  rw [workerView_eq_iff]
  cases h with
  | cache htouches =>
    rw [servers_cache, servers_cache]
    cases htouches with
    | read =>
      rw [servers_fields, servers_fields]
      refine ⟨?_, hreach, hcontent, hregistry, hbroker⟩
      rw [hreach, fieldsOf_congr hcontent]
    | set fields =>
      rcases servers_setFields_cases key fields t.cache with ⟨fault, hset⟩ | ⟨content, hset⟩
      · rw [hset s.cache hreach hcontent, hset t.cache rfl rfl]
        exact ⟨rfl, hreach, hcontent, hregistry, hbroker⟩
      · rw [hset s.cache hreach hcontent, hset t.cache rfl rfl]
        refine ⟨rfl, hreach, ?_, hregistry, hbroker⟩
        rw [content?_replace_self, content?_replace_self]
  | registry request =>
    rw [servers_registry, servers_registry, hregistry]
    exact ⟨rfl, hreach, hcontent, rfl, hbroker⟩
  | broker request =>
    rw [servers_broker, servers_broker, hbroker]
    exact ⟨rfl, hreach, hcontent, hregistry, rfl⟩

/-- Adding to a set leaves what is under other keys as it is. -/
theorem servers_addMember_content? {set : String} (hkey : key ≠ set) (member : Value)
    (c : Cache.Store) : (Cache.servers (.addMember set member) c).2.reachable = c.reachable
      ∧ (Cache.servers (.addMember set member) c).2.content? key = c.content? key := by
  unfold Cache.servers
  split
  · next hreach =>
    unfold respond changed
    dsimp only
    cases hstored : stored member with
    | error fault => exact ⟨rfl, rfl⟩
    | ok text =>
      rw [Outcome.ok_bind, Cache.Store.withMembers]
      cases c.membersOf set with
      | error fault => exact ⟨rfl, rfl⟩
      | ok members => exact ⟨rfl, Cache.Store.content?_replace_of_ne hkey⟩
  · exact ⟨rfl, rfl⟩

theorem hides_addMember {set : String} (hkey : key ≠ set) (member : Value) :
    Plan.Hides servers (workerView key) (.cache (.addMember set member)) := by
  intro s
  obtain ⟨hreach, hcontent⟩ := servers_addMember_content? hkey member s.cache
  exact workerView_eq_iff.mpr ⟨hreach, hcontent, rfl, rfl⟩

end SheetIntake.Service
