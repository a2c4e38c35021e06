import SheetIntake.Proofs.Submissions

/-!
# Uploads that are lost

The message about an upload is published before the record of its task is kept, so the worker may
take it up first. It then sets a status under the key of the task, reads the record, finds that
there is none, and gives the message up; the record that is kept afterwards stays as it is.

* `upload_finished_iff` — an upload comes to its end exactly when the record was kept before the worker
  read it.
-/

namespace SheetIntake.Service

open Cache (taskKey importKey taskKey_ne_importKey)
open Cache.Store (content?_replace_self content?_replace_of_ne fieldsOf_of_content? membersOf_congr)
open Worker

/-! ## How an upload ends -/

/-- The worker settled the delivery in a way, and the record has a status. -/
def Ended (s t : Stores) (key : String) (settlement : Broker.Settlement) (status : String) : Prop :=
  t.broker.settlements = s.broker.settlements ++ [settlement] ∧ t.cache.Tracks key status

def uploadBody (id : String) (document : Value) (name : String) (raw : Bool) (sent : Moment) : String :=
  Json.write .line (schemaMessage id .upload document name raw sent)

def schemaHandler (tag : Nat) (now : Moment) (body : List UInt8) : Plan protocol (Except Fault Unit) :=
  ExceptT.run (handleSchema tag body now)

theorem tracks_congr {c d : Cache.Store} {key status : String} (hreach : d.reachable = c.reachable)
    (hcontent : d.content? key = c.content? key) (h : c.Tracks key status) : d.Tracks key status := by
  obtain ⟨hc, r, ⟨fields, hfields, htells⟩, hstatus⟩ := h
  exact ⟨hreach.trans hc, r, ⟨fields, hcontent.trans hfields, htells⟩, hstatus⟩

section

variable {α : Type} {id name : String} {document : Value} {raw : Bool} {sent now : Moment} {tag : Nat}
  {s : Stores} {log : List (Side × Request)}

/-- Beside a plan that the worker does not see, the work ends as it does alone. -/
theorem ended_of_run {plan : Plan protocol α} {work : Job protocol Unit} {u t : Stores}
    {key status : String} {settlement : Broker.Settlement} {result : α × Except Fault Unit × Stores}
    (h : Plan.Interleaving servers plan (ExceptT.run work) s log result)
    (hplan : plan.Asks (Plan.Hides servers (workerView key))) (hwork : work.Asks (Works key))
    (hrun : work.run servers s = (.ok (), t)) (hended : Ended u t key settlement status) :
    Ended u result.2.2 key settlement status := by
  have hview := (h.of_unseen hplan (hwork.imp fun _ => sees_of_works)).2
  have hend : (Plan.run servers (ExceptT.run work) s).2 = t := congrArg Prod.snd hrun
  rw [hend] at hview
  obtain ⟨hreach, hcontent, -, hbroker⟩ := workerView_eq_iff.mp hview
  exact ⟨by rw [hbroker]; exact hended.1, tracks_congr hreach hcontent hended.2⟩

/-- The record is kept whatever is under its key, as long as those are fields. -/
theorem servers_keep {found : List (String × String)} (hc : s.cache.reachable)
    (hfound : s.cache.fieldsOf (schemaKey id) = .ok found) :
    ∃ cache, servers (recordRequest id name) s = (.ok (), { s with cache })
      ∧ cache.Tracks (schemaKey id) "accepted"
      ∧ ∀ key, key ≠ schemaKey id → cache.content? key = s.cache.content? key := by
  have hnames : ["task_id", "import_name"].Nodup := by decide
  have hdistinct : (submittedData (.str id) name).distinct := by
    refine Value.distinct_object_iff.mpr ⟨hnames, ?_⟩
    simp [Value.distinct]
  obtain ⟨fields, hset, htells⟩ := Cache.servers_setRecord (c := s.cache)
    (r := acceptedRecord id name submitted) hc hfound rfl hdistinct
  refine ⟨s.cache.replace (schemaKey id) (.fields fields),
    congrArg (fun x => (x.1, { s with cache := x.2 })) hset,
    ⟨hc, _, ⟨fields, content?_replace_self, htells⟩, rfl⟩, fun key hkey =>
    content?_replace_of_ne hkey⟩

theorem sees_cache (request : Cache.Request) : Plan.Sees servers Stores.cache (.cache request) := by
  intro s t h
  rw [servers_cache, servers_cache, h]
  exact ⟨rfl, rfl⟩

theorem sees_broker (request : Broker.Request) : Plan.Sees servers Stores.broker (.broker request) := by
  intro s t h
  rw [servers_broker, servers_broker, h]
  exact ⟨rfl, rfl⟩

theorem asks_keeping : (keeping id name).Asks (fun request => ∃ r, request = Request.cache r) :=
  Job.Asks.bind (.within (Plan.asks_of_forall (fun r => ⟨r, rfl⟩) _)) fun _ => Job.asks_pure _

variable {result : Except Fault TaskAnswer × Except Fault Unit × Stores}

/-- The worker has given the message up: the record is kept afterwards and stays as it is. -/
theorem ended_given_up
    {found : List (String × String)}
    (h : Plan.Interleaving servers (keeping id name)
      (ExceptT.run (onBroker (Broker.settle (.refused tag false)))) s log result)
    (hc : s.cache.reachable) (hfound : s.cache.fieldsOf (schemaKey id) = .ok found) :
    Ended s result.2.2 (schemaKey id) (.refused tag false) "accepted" := by
  have hasks : ∀ allowed : protocol.Request → Prop, (∀ request, allowed (Request.broker request)) →
      (onBroker (Broker.settle (.refused tag false))).Asks allowed :=
    fun allowed hallowed => .within (Job.asks_ask (hallowed _))
  constructor
  · -- The broker: only the worker asks it.
    have hbroker := (@Plan.Interleaving.of_unseen protocol _ Stores Broker.Store _ servers
      Stores.broker _ _ s log result h
      (asks_keeping.imp (by rintro _ ⟨r, rfl⟩ t; rfl)) (hasks _ sees_broker)).2
    have hrun := congrArg (·.2.broker) (run_settle (.refused tag false) s)
    exact congrArg Broker.Store.settlements (hbroker.trans hrun)
  · -- The cache: only the route asks it.
    have hcache := (@Plan.Interleaving.of_unseen protocol _ Stores Cache.Store _ servers
      Stores.cache _ _ s _ _ h.across (hasks _ fun _ _ => rfl)
      (asks_keeping.imp (by rintro _ ⟨r, rfl⟩; exact sees_cache r))).2
    obtain ⟨next, last, hkeeping, hnext, -, hlast⟩ := keeping_start id name
    obtain ⟨cache, hkeep, htracks, -⟩ := @servers_keep id name s found hc hfound
    have hrun : (Plan.run servers (keeping id name) s).2.cache =
        (Cache.servers (.addMember (importKey schemaEndpoint name) (.str id)) cache).2 := by
      rw [hkeeping, Plan.run_ask, hkeep]
      rw [hnext, Plan.run_ask]
      obtain ⟨done, hdone⟩ := hlast (servers
        (.cache (.addMember (importKey schemaEndpoint name) (.str id))) { s with cache }).1
      rw [hdone]
      rfl
    obtain ⟨hreach, hcontent⟩ := servers_addMember_content?
      (taskKey_ne_importKey schemaEndpoint id name) (.str id) cache
    have hsame := hcache.trans hrun
    exact tracks_congr ((congrArg Cache.Store.reachable hsame).trans hreach)
      ((congrArg (Cache.Store.content? · _) hsame).trans hcontent) htracks

/-- The state of the servers when the message about an upload was published. -/
structure Published (document : Value) (raw : Bool) (id : String) (s : Stores) : Prop where
  distinct : document.distinct = true
  judged : Judged raw document
  cache : s.cache.reachable = true
  broker : s.broker.reachable = true
  fresh : s.cache.content? (taskKey schemaEndpoint id) = none

theorem Published.fieldsOf (hs : Published document raw id s) :
    s.cache.fieldsOf (schemaKey id) = .ok [] := by
  rw [Cache.Store.fieldsOf, hs.fresh]

/-- The worker finds the record, and carries the upload through. -/
theorem ended_accepted {plan : Plan protocol α} {result : α × Except Fault Unit × Stores}
    (h : Plan.Interleaving servers plan
      (schemaHandler tag now (Text.encodeUtf8 (uploadBody id document name raw sent))) s log result)
    (hplan : plan.Asks (Plan.Hides servers (workerView (schemaKey id))))
    (hdocument : document.distinct) (hjudged : Judged raw document)
    (hbroker : s.broker.reachable)
    (htracks : s.cache.Tracks (schemaKey id) "accepted") :
    Ended s result.2.2 (schemaKey id) (.accepted tag)
      (lastStatus (saves raw document name now s.registry)) := by
  obtain ⟨t, hrun, hstatus, hsettled⟩ := @run_handleSchema s id "accepted" now document name raw sent
    tag hdocument hjudged htracks hbroker
  exact ended_of_run h hplan (asks_handleSchema hdocument tag name raw sent) hrun
    ⟨hsettled, hstatus⟩

/-- What is left of the route when the record is kept is not seen by the worker. -/
theorem asks_adding : ∃ next, keeping id name = .ask (recordRequest id name) next
      ∧ (next (.ok ())).Asks (Plan.Hides servers (workerView (schemaKey id))) := by
  obtain ⟨next, last, hkeeping, hnext, -, hlast⟩ := keeping_start id name
  refine ⟨next, hkeeping, ?_⟩
  rw [hnext]
  refine .ask (hides_addMember (taskKey_ne_importKey schemaEndpoint id name) _) fun answer => ?_
  obtain ⟨done, hdone⟩ := hlast answer
  rw [hdone]
  exact .done done

/-- Where nothing is under the key, the worker puts the status there, which is all that it reads. -/
theorem servers_received (hc : s.cache.reachable)
    (hfresh : s.cache.fieldsOf (schemaKey id) = .ok []) :
    ∃ cache, servers (receiving id) s = (.ok (), { s with cache })
      ∧ cache.reachable
      ∧ cache.fieldsOf (schemaKey id) = .ok [("status", "received-schema-update")]
      ∧ servers (.cache (.fields (schemaKey id))) { s with cache } =
          (.ok [("status", "received-schema-update")], { s with cache }) := by
  let cache := s.cache.replace (schemaKey id) (.fields [("status", "received-schema-update")])
  have hset := @Cache.servers_setFields s.cache hc (schemaKey id) []
    [("status", "received-schema-update")] [("status", .str "received-schema-update")] hfresh rfl
  have hreach : cache.reachable := hc
  have hfound : cache.fieldsOf (schemaKey id) = .ok [("status", "received-schema-update")] :=
    fieldsOf_of_content? content?_replace_self
  have hread := servers_fields (schemaKey id) cache
  rw [if_pos hreach, hfound] at hread
  refine ⟨cache, ?_, hreach, hfound, ?_⟩
  · rw [servers_cache, hset]
    rfl
  · rw [servers_cache, hread]
    rfl

/-- How the work on an upload ends depends on whether its record was kept first. -/
def EndedByOrder (id : String) (tag : Nat) (log : List (Side × Request)) (status : String)
    (s t : Stores) : Prop :=
  (KeptFirst (taskKey schemaEndpoint id) log →
      Ended s t (taskKey schemaEndpoint id) (.accepted tag) status)
    ∧ (¬ KeptFirst (taskKey schemaEndpoint id) log →
        Ended s t (taskKey schemaEndpoint id) (.refused tag false) "accepted")

/-- The worker takes the message before the route goes on. -/
theorem Published.ended (hs : Published document raw id s)
    (h : Plan.Interleaving servers (keeping id name)
      (schemaHandler tag now (Text.encodeUtf8 (uploadBody id document name raw sent))) s log result) :
    EndedByOrder id tag log (lastStatus (saves raw document name now s.registry)) s result.2.2 := by
  obtain ⟨next, hkeeping, hadding⟩ := @asks_adding id name
  obtain ⟨work, hstart, hwork⟩ := handleSchema_start hs.distinct tag id name raw sent now
  rw [hkeeping, schemaHandler, uploadBody, hstart] at h
  cases h with
  | left rest =>
    -- The record is kept before the worker begins.
    obtain ⟨cache, hkeep, htracks, -⟩ := @servers_keep id name s [] hs.cache hs.fieldsOf
    rw [hkeep, ← hstart] at rest
    have hended := ended_accepted rest hadding hs.distinct hs.judged hs.broker htracks
    exact ⟨fun _ => hended, fun hnot => absurd (keptFirst_cons_kept _) hnot⟩
  | @right _ _ _ _ log _ rest =>
    obtain ⟨cache, hset, hreach, hfound, hread⟩ := @servers_received id s hs.cache hs.fieldsOf
    have hlog : KeptFirst (schemaKey id) ((.right, receiving id) :: log) ↔
        KeptFirst (schemaKey id) log :=
      keptFirst_cons (fun _ => by simp) (by simp)
    obtain ⟨after, hafter, hgiveup⟩ := afterReceived_start tag id document name raw sent now
    rw [hset] at rest
    rw [hwork, hafter] at rest
    rw [EndedByOrder, hlog]
    cases rest with
    | left rest =>
      -- The record is kept over the status, before the worker reads it.
      obtain ⟨kept, hkeep, htracks, -⟩ := @servers_keep id name { s with cache } _ hreach hfound
      rw [hkeep, ← hafter] at rest
      obtain ⟨t, hrun, hstatus, hsettled⟩ := @run_afterReceived { s with cache := kept } id "accepted"
        now document name raw sent tag hs.judged htracks hs.broker
      have hended : Ended s result.2.2 (schemaKey id) (.accepted tag)
          (lastStatus (saves raw document name now s.registry)) :=
        ended_of_run rest hadding (asks_settling tag (asks_afterReceived document name raw sent)) hrun
          ⟨hsettled, hstatus⟩
      exact ⟨fun _ => hended, fun hnot => absurd (keptFirst_cons_kept _) hnot⟩
    | right rest =>
      -- The worker reads a status without a record.
      rw [hread] at rest
      rw [hgiveup, ← hkeeping] at rest
      have hended := @ended_given_up id name tag { s with cache } _ result _ rest hreach hfound
      exact ⟨fun hkept => absurd hkept not_keptFirst_cons_read, fun _ => hended⟩

/-- A message is the only one that waits for the worker of schemas. -/
def Waits (body : String) (s : Stores) : Prop :=
  ∃ m, s.broker.waiting Broker.Queue.schema.name = [m] ∧ m.body = body

theorem Waits.of_take {body : String} (h : Waits body s) {m : Broker.Message}
    {broker : Broker.Store} (htake : s.broker.take? Broker.Queue.schema.name = some (m, broker)) :
    m.body = body ∧ broker.settlements = s.broker.settlements
      ∧ broker.reachable = s.broker.reachable := by
  obtain ⟨message, hwaiting, hbody⟩ := h
  rw [Broker.Store.take?, hwaiting, Option.some.injEq, Prod.mk.injEq] at htake
  obtain ⟨rfl, rfl⟩ := htake
  exact ⟨hbody, rfl, rfl⟩

theorem Waits.exists_take {body : String} (h : Waits body s) :
    ∃ m broker, s.broker.take? Broker.Queue.schema.name = some (m, broker) ∧ m.body = body := by
  obtain ⟨message, hwaiting, hbody⟩ := h
  exact ⟨message, _, by rw [Broker.Store.take?, hwaiting], hbody⟩

namespace Handled

/-- The record is kept while the message waits. -/
theorem ended_accepted {plan : Plan protocol α} {result : α × Except Fault Unit × Stores}
    (h : Handled .schema (schemaHandler tag now) plan s log result)
    (hplan : plan.Asks (Plan.Hides servers (workerView (schemaKey id))))
    (hdocument : document.distinct) (hjudged : Judged raw document)
    (hbroker : s.broker.reachable) (hwaits : Waits (uploadBody id document name raw sent) s)
    (htracks : s.cache.Tracks (schemaKey id) "accepted") :
    Ended s result.2.2 (schemaKey id) (.accepted tag)
      (lastStatus (saves raw document name now s.registry)) := by
  induction h with
  | @route request next s log result rest ih =>
    -- The rest of the route makes no difference to what the worker sees.
    cases hplan with
    | ask hhides hnext =>
      obtain ⟨hreach, hcontent, hregistry, hsame⟩ := workerView_eq_iff.mp (hhides s)
      have hended := ih (hnext _) (hsame ▸ hbroker)
        (by unfold Waits; rw [hsame]; exact hwaits) (tracks_congr hreach hcontent htracks)
      rw [hregistry] at hended
      exact ⟨by rw [← hsame]; exact hended.1, hended.2⟩
  | @take plan s log result message broker htake rest =>
    obtain ⟨hbody, hsettlements, hreach⟩ := hwaits.of_take htake
    rw [hbody] at rest
    have hended := @Service.ended_accepted _ id name document raw sent now tag { s with broker } log plan
      result rest hplan hdocument hjudged (hreach.trans hbroker) htracks
    exact ⟨hsettlements ▸ hended.1, hended.2⟩

theorem ended (hs : Published document raw id s)
    (hwaits : Waits (uploadBody id document name raw sent) s)
    {result : Except Fault TaskAnswer × Except Fault Unit × Stores}
    (h : Handled .schema (schemaHandler tag now) (keeping id name) s log result) :
    EndedByOrder id tag log (lastStatus (saves raw document name now s.registry)) s result.2.2 := by
  obtain ⟨next, hkeeping, hadding⟩ := @asks_adding id name
  generalize hplan : keeping id name = plan at h
  cases h with
  | route rest =>
    rw [hkeeping] at hplan
    cases hplan
    obtain ⟨cache, hkeep, htracks, -⟩ := @servers_keep id name s [] hs.cache hs.fieldsOf
    rw [hkeep] at rest
    have hended := @Handled.ended_accepted _ id name document raw sent now tag { s with cache } _ _ _ rest
      hadding hs.distinct hs.judged hs.broker hwaits htracks
    exact ⟨fun _ => hended, fun hnot => absurd (keptFirst_cons_kept _) hnot⟩
  | @take _ _ _ _ message broker htake rest =>
    obtain ⟨hbody, hsettlements, hreach⟩ := hwaits.of_take htake
    rw [hbody, ← hplan] at rest
    have hpublished : Published document raw id { s with broker } :=
      ⟨hs.distinct, hs.judged, hs.cache, hreach.trans hs.broker, hs.fresh⟩
    obtain ⟨hkept, hlost⟩ := hpublished.ended rest
    exact ⟨fun h => ⟨hsettlements ▸ (hkept h).1, (hkept h).2⟩,
      fun h => ⟨hsettlements ▸ (hlost h).1, (hlost h).2⟩⟩

end Handled

/-! ## The answer -/

/-- The record of a task can be kept and added to those of its import name. -/
structure CanKeep (id name : String) (s : Stores) : Prop where
  cache : s.cache.reachable = true
  fields : ∃ found, s.cache.fieldsOf (taskKey schemaEndpoint id) = .ok found
  members : ∃ members, s.cache.membersOf (importKey schemaEndpoint name) = .ok members

/-- The worker leaves fields where it finds them. -/
theorem canKeep_of_works {request : Request} (h : Works (schemaKey id) request)
    (hs : CanKeep id name s) : CanKeep id name (servers request s).2 := by
  cases h with
  | registry request | broker request => exact ⟨hs.cache, hs.fields, hs.members⟩
  | cache htouches =>
    rw [servers_cache]
    cases htouches with
    | read =>
      rw [servers_fields]
      exact ⟨hs.cache, hs.fields, hs.members⟩
    | set fields =>
      have hother := (taskKey_ne_importKey schemaEndpoint id name).symm
      rcases servers_setFields_cases (schemaKey id) fields s.cache with
        ⟨fault, hset⟩ | ⟨content, hset⟩
      · rw [hset s.cache rfl rfl]
        exact ⟨hs.cache, hs.fields, hs.members⟩
      · rw [hset s.cache rfl rfl]
        refine ⟨hs.cache, ⟨content, fieldsOf_of_content?
          content?_replace_self⟩, ?_⟩
        obtain ⟨members, hmembers⟩ := hs.members
        exact ⟨members,
          (membersOf_congr (content?_replace_of_ne hother)).trans hmembers⟩

theorem keeping_gives : (keeping id name).Gives servers (CanKeep id name)
    (.ok (.one (acceptedRecord id name submitted))) := by
  have hother := taskKey_ne_importKey schemaEndpoint id name
  obtain ⟨next, last, hkeeping, hnext, hlast, -⟩ := keeping_start id name
  have hadd : ∀ s, CanKeep id name s → ∃ cache, CanKeep id name { s with cache } ∧
      servers (.cache (.addMember (importKey schemaEndpoint name) (.str id))) s =
        (.ok (), { s with cache }) := by
    rintro s ⟨hc, ⟨found, hfound⟩, members, hmembers⟩
    have hserve := Cache.servers_addMember hc hmembers id
    generalize (if id ∈ members then members else members ++ [id]) = added at hserve
    refine ⟨s.cache.replace (importKey schemaEndpoint name) (.members added), ⟨hc, ⟨found, ?_⟩,
      ⟨added, ?_⟩⟩, ?_⟩
    · exact (fieldsOf_congr (content?_replace_of_ne hother)).trans hfound
    · rw [Cache.Store.membersOf, content?_replace_self]
    · rw [servers_cache, hserve]
      rfl
  have hkeep : ∀ s, CanKeep id name s → ∃ cache, CanKeep id name { s with cache } ∧
      servers (recordRequest id name) s = (.ok (), { s with cache }) := by
    rintro s ⟨hc, ⟨found, hfound⟩, members, hmembers⟩
    obtain ⟨cache, hserve, ⟨hreach, r, ⟨fields, hfields, -⟩, -⟩, hothers⟩ :=
      @servers_keep id name s found hc hfound
    exact ⟨cache, ⟨hreach, ⟨fields, fieldsOf_of_content? hfields⟩,
      ⟨members, (membersOf_congr (hothers _ hother.symm)).trans hmembers⟩⟩, hserve⟩
  rw [hkeeping]
  refine .ask (fun s hs => ?_) (fun s hs => ?_)
  · obtain ⟨cache, hkept, hserve⟩ := hkeep s hs
    rw [hserve]
    exact hkept
  · obtain ⟨cache, hkept, hserve⟩ := hkeep s hs
    rw [hserve]
    rw [hnext]
    refine .ask (fun t ht => ?_) (fun t ht => ?_)
    · obtain ⟨cache, hadded, hserve⟩ := hadd t ht
      rw [hserve]
      exact hadded
    · obtain ⟨cache, -, hserve⟩ := hadd t ht
      rw [hserve]
      rw [hlast]
      exact .done

theorem Handled.gives {plan : Plan protocol α} {result : α × Except Fault Unit × Stores} {a : α}
    (h : Handled .schema (schemaHandler tag now) plan s log result)
    (hplan : plan.Gives servers (CanKeep id name) a)
    (hcache : plan.Asks (fun request => ∃ r, request = Request.cache r))
    (hdocument : document.distinct) (hwaits : Waits (uploadBody id document name raw sent) s)
    (hs : CanKeep id name s) : result.1 = a := by
  induction h with
  | @route request next s log result rest ih =>
    cases hplan with
    | ask hkeeps hgives =>
      cases hcache with
      | ask hrequest hnext =>
        obtain ⟨r, rfl⟩ := hrequest
        exact ih (hgives s hs) (hnext _) hwaits (hkeeps s hs)
  | @take plan s log result message broker htake rest =>
    obtain ⟨hbody, -, -⟩ := hwaits.of_take htake
    rw [hbody] at rest
    have hwork : (schemaHandler tag now (Text.encodeUtf8 (uploadBody id document name raw sent))).Asks
        (fun request => ∀ s, CanKeep id name s → CanKeep id name (servers request s).2) :=
      Plan.Asks.imp (asks_handleSchema hdocument tag name raw sent)
        fun _ hworks _ => canKeep_of_works hworks
    exact rest.gives_left hplan hwork ⟨hs.cache, hs.fields, hs.members⟩

end

/-! ## Uploads -/

/-- The route of the status tells a status of a task. -/
def Shows (s : Stores) (id status : String) : Prop :=
  ∃ record, ((statusOf schemaEndpoint id "").run servers s).1 = .ok (.one record)
    ∧ record.status = status

theorem shows_of_tracks {s : Stores} {id status : String}
    (h : s.cache.Tracks (schemaKey id) status) : Shows s id status := by
  obtain ⟨hc, r, hr, hstatus⟩ := h
  have hget : (onCache (Cache.getTask id schemaEndpoint)).run servers s = (.ok (some r), s) := by
    rw [run_onCache, Cache.run_getTask hc hr]
  refine ⟨r, ?_, hstatus⟩
  unfold statusOf
  exact congrArg Prod.fst (Job.run_bind_ok hget)

/-- An upload came to its end: the worker accepted the delivery, and the status tells what came of
it. -/
def Finished (tag : Nat) (id : String) (s t : Stores) : Prop :=
  t.broker.settlements = s.broker.settlements ++ [.accepted tag]
    ∧ (Shows t id "published" ∨ Shows t id "failed-publishing-result")

section

variable {submission : SchemaSubmission} {sent now : Moment} {tag : Nat} {s : Stores}

theorem Ready.published (hready : Ready submission s) :
    Published submission.schema submission.raw (nextTask s) (afterPublish submission sent s) :=
  ⟨hready.distinct, hready.judged, hready.cache, hready.broker, hready.fresh⟩

theorem Ready.waits (hready : Ready submission s) :
    Waits (uploadBody (nextTask s) submission.schema submission.importName submission.raw sent)
      (afterPublish submission sent s) :=
  ⟨_, waiting_withMessage hready.queue (routes_uploadMessage hready (nextTask s) sent), rfl⟩

theorem Ready.canKeep (hready : Ready submission s) :
    CanKeep (nextTask s) submission.importName (afterPublish submission sent s) :=
  ⟨hready.cache, ⟨[], hready.published.fieldsOf⟩, hready.tasks⟩

theorem Ready.ended (hready : Ready submission s) {log : List (Side × Request)}
    {result : Except Fault TaskAnswer × Except Fault Unit × Stores}
    (h : Handled .schema (schemaHandler tag now) (ExceptT.run (uploadSchema submission sent)) s log
      result) :
    result.1 = .ok (.one (acceptedRecord (nextTask s) submission.importName submitted))
      ∧ EndedByOrder (nextTask s) tag log (lastStatus
          (saves submission.raw submission.schema submission.importName now s.registry))
          s result.2.2 := by
  obtain ⟨rest, hrest, hlog⟩ := hready.handled (schemaKey (nextTask s)) h
  rw [EndedByOrder, hlog]
  exact ⟨hrest.gives keeping_gives asks_keeping hready.distinct hready.waits hready.canKeep,
    Handled.ended hready.published hready.waits hrest⟩

/-- An upload that was accepted comes to its end exactly when its record was kept before the worker
read it. Otherwise the message is given up, and the status stays as it was. -/
theorem upload_finished_iff (hready : Ready submission s) {log : List (Side × Request)}
    {answer : Except Fault TaskAnswer} {done : Except Fault Unit} {t : Stores}
    (h : Handled .schema (schemaHandler tag now) (ExceptT.run (uploadSchema submission sent)) s log
      (answer, done, t)) :
    answer = .ok (.one (acceptedRecord (nextTask s) submission.importName submitted))
      ∧ (Finished tag (nextTask s) s t ↔
          KeptFirst (Cache.taskKey schemaEndpoint (nextTask s)) log)
      ∧ (KeptFirst (Cache.taskKey schemaEndpoint (nextTask s)) log →
          Shows t (nextTask s) (lastStatus
            (saves submission.raw submission.schema submission.importName now s.registry)))
      ∧ (¬ KeptFirst (Cache.taskKey schemaEndpoint (nextTask s)) log →
          t.broker.settlements = s.broker.settlements ++ [.refused tag false]
            ∧ Shows t (nextTask s) "accepted") := by
  obtain ⟨hanswer, hkept, hlost⟩ := hready.ended h
  refine ⟨hanswer, ⟨fun hfinished => ?_, fun hfirst => ?_⟩,
    fun hfirst => shows_of_tracks (hkept hfirst).2,
    fun hnot => ⟨(hlost hnot).1, shows_of_tracks (hlost hnot).2⟩⟩
  · by_contra hnot
    have hsettled := hfinished.1.symm.trans (hlost hnot).1
    simp at hsettled
  · obtain ⟨hsettled, htracks⟩ := hkept hfirst
    refine ⟨hsettled, ?_⟩
    cases hsaves : saves submission.raw submission.schema submission.importName now s.registry with
    | true => exact .inl (shows_of_tracks (by rw [hsaves] at htracks; exact htracks))
    | false => exact .inr (shows_of_tracks (by rw [hsaves] at htracks; exact htracks))

/-! ## Both kinds of runs -/

theorem Ready.exists_kept (hready : Ready submission s) (sent now : Moment) (tag : Nat) :
    ∃ log result, Handled .schema (schemaHandler tag now) (ExceptT.run (uploadSchema submission sent)) s
        log result
      ∧ KeptFirst (schemaKey (nextTask s)) log := by
  obtain ⟨next, hkeeping, -⟩ := @asks_adding (nextTask s) submission.importName
  have hpublished := @Ready.published submission sent s hready
  obtain ⟨cache, hkeep, -, -⟩ := @servers_keep (nextTask s) submission.importName
    (afterPublish submission sent s) [] hpublished.cache hpublished.fieldsOf
  obtain ⟨message, broker, htake, -⟩ := (@Ready.waits submission sent s hready).exists_take
  obtain ⟨log, result, hrest⟩ := Plan.exists_interleaving servers (next (.ok ()))
    (schemaHandler tag now (Text.encodeUtf8 message.body))
    { afterPublish submission sent s with cache, broker }
  have hhandled : Handled .schema (schemaHandler tag now)
      (keeping (nextTask s) submission.importName) (afterPublish submission sent s)
      ((.left, recordRequest (nextTask s) submission.importName) :: log) result := by
    rw [hkeeping]
    refine .route ?_
    rw [hkeep]
    exact .take htake hrest
  obtain ⟨whole, hwhole, hlog⟩ := hready.exists_handled (schemaKey (nextTask s)) hhandled
  exact ⟨whole, result, hwhole, hlog.mpr (keptFirst_cons_kept _)⟩

theorem Ready.exists_lost (hready : Ready submission s) (sent now : Moment) (tag : Nat) :
    ∃ log result, Handled .schema (schemaHandler tag now) (ExceptT.run (uploadSchema submission sent)) s
        log result
      ∧ ¬ KeptFirst (schemaKey (nextTask s)) log := by
  have hpublished := @Ready.published submission sent s hready
  obtain ⟨message, broker, htake, hbody⟩ := (@Ready.waits submission sent s hready).exists_take
  obtain ⟨work, hstart, hwork⟩ := handleSchema_start hready.distinct tag (nextTask s)
    submission.importName submission.raw sent now
  obtain ⟨after, hafter, -⟩ := afterReceived_start tag (nextTask s) submission.schema
    submission.importName submission.raw sent now
  obtain ⟨cache, hset, -, -, hread⟩ := @servers_received (nextTask s)
    { afterPublish submission sent s with broker } hpublished.cache hpublished.fieldsOf
  obtain ⟨log, result, hrest⟩ := Plan.exists_interleaving servers
    (keeping (nextTask s) submission.importName) (after (.ok [("status", "received-schema-update")]))
    { afterPublish submission sent s with broker, cache }
  -- The worker sets the status and reads it before the route goes on.
  have hhandled : Handled .schema (schemaHandler tag now)
      (keeping (nextTask s) submission.importName) (afterPublish submission sent s)
      ((.right, receiving (nextTask s)) :: (.right, .cache (.fields (schemaKey (nextTask s)))) :: log) result := by
    refine .take htake ?_
    rw [hbody]
    unfold schemaHandler uploadBody
    rw [hstart]
    refine .right ?_
    rw [hset]
    rw [hwork, hafter]
    refine .right ?_
    rw [hread]
    exact hrest
  obtain ⟨whole, hwhole, hlog⟩ := hready.exists_handled (schemaKey (nextTask s)) hhandled
  refine ⟨whole, result, hwhole, ?_⟩
  rw [hlog, keptFirst_cons (fun _ => by simp) (by simp)]
  exact not_keptFirst_cons_read

end

def idle : Stores where
  broker :=
    { queues := [(Broker.Queue.schema.name, [])]
      bindings := [Broker.Queue.schema.binding] }

def people : SchemaSubmission where
  importName := "people"
  schema := .object [("name", .object [("type", .str "string")])]
  new := true

theorem ready_idle : Ready people idle where
  named := by decide
  distinct := by decide
  judged := .inl ⟨_, rfl⟩
  cache := rfl
  broker := rfl
  queue := rfl
  bound := List.mem_singleton_self _
  unknown := rfl
  tasks := ⟨[], rfl⟩
  fresh := rfl

theorem upload_finished_idle : ∃ log answer done t,
    Handled .schema (schemaHandler 1 ⟨20⟩) (ExceptT.run (uploadSchema people ⟨10⟩)) idle log
        (answer, done, t)
      ∧ KeptFirst (Cache.taskKey schemaEndpoint (nextTask idle)) log
      ∧ Finished 1 (nextTask idle) idle t := by
  obtain ⟨log, ⟨answer, done, t⟩, hrun, hkept⟩ := ready_idle.exists_kept ⟨10⟩ ⟨20⟩ 1
  exact ⟨log, answer, done, t, hrun, hkept, (upload_finished_iff ready_idle hrun).2.1.mpr hkept⟩

/-- An upload that is accepted, and then lost. -/
theorem upload_given_up : ∃ log done t,
    Handled .schema (schemaHandler 1 ⟨20⟩) (ExceptT.run (uploadSchema people ⟨10⟩)) idle log
        (.ok (.one (acceptedRecord (nextTask idle) "people" submitted)), done, t)
      ∧ t.broker.settlements = [.refused 1 false]
      ∧ Shows t (nextTask idle) "accepted" := by
  obtain ⟨log, ⟨answer, done, t⟩, hrun, hnot⟩ := ready_idle.exists_lost ⟨10⟩ ⟨20⟩ 1
  obtain ⟨hanswer, -, hlost⟩ := ready_idle.ended hrun
  obtain rfl : answer = _ := hanswer
  exact ⟨log, done, t, hrun, (hlost hnot).1, shows_of_tracks (hlost hnot).2⟩

end SheetIntake.Service
