import SheetIntake.Proofs.WorkerOutcomes
import SheetIntake.Service.World

/-!
# Errands

A message sends a worker on an errand. All errands have one course: that the message has been taken is
told in the record of the task, the work comes to an outcome, and a good outcome is published.

* `carryOut_ends` — an errand is carried out, or it is given up in one of four ways.
* `workOf_ends` — a body that sends the worker on no errand changes nothing.
* `settling_run` — in the end the delivery is settled, and settled once.
-/

namespace SheetIntake.Worker

open Service
open Service.World (WorkerName)

/-- The group of the records about the tasks of a worker. -/
def endpointOf : WorkerName → String
  | .schemas => schemaEndpoint
  | .files => fileEndpoint

/-- The queue to which the results of a worker go. -/
def resultsOf : WorkerName → Broker.Queue
  | .schemas => .schemaResults
  | .files => .validationResults

/-- What a message can ask a worker for. -/
inductive Errand where
  | upload
  | removal
  | check

namespace Errand

def worker : Errand → WorkerName
  | .check => .files
  | _ => .schemas

def received : Errand → String
  | .upload => "received-schema-update"
  | .removal => "received-removing-schema"
  | .check => "received-sample-validation"

def produce (e : Errand) (message task : Value) (workers : Nat) (now : Moment) :
    Job protocol Outcome :=
  match e with
  | .upload => updateSchema message task now
  | .removal => takeBackSchema message task now
  | .check => checkFile message task workers now

def carryOut (e : Errand) (message task : Value) (workers : Nat) (now : Moment) :
    Job protocol Unit := do
  reportReceived (endpointOf e.worker) message task e.received now
  let outcome ← e.produce message task workers now
  publishResult (endpointOf e.worker) (resultsOf e.worker) task outcome now

/-- What the work is to come to, or why it comes to nothing. -/
def verdict (e : Errand) (message : Value) (workers : Nat) (now : Moment)
    (registry : Registry.Store) : Except Fault Verdict :=
  match e with
  | .upload => uploadVerdict message now registry
  | .removal => removalVerdict message now registry
  | .check => (reportFor message workers now registry).map
      (fun r => ⟨(checkedOutcome .null r).good, registry⟩)

end Errand

variable {s t : Stores} {message task : Value} {workers : Nat} {now : Moment} {e : Errand}

theorem not_isFinal_status (report : FileReport) : ¬ IsFinal report.status := by
  cases report with
  | checked rows file name at_ =>
    show ¬ IsFinal (if rows.isValid then "success" else "warning")
    split <;> decide
  | noRows => decide
  | _ =>
    show ¬ IsFinal "error"
    decide

theorem not_isFinal_received (e : Errand) : ¬ IsFinal e.received := by
  cases e <;> decide

theorem registry_of_verdict {registry : Registry.Store} {v : Verdict}
    (h : e.verdict message workers now registry = .ok v) (hbad : v.good = false) :
    v.registry = registry := by
  cases e with
  | upload => exact registry_of_uploadVerdict h hbad
  | removal => exact registry_of_removalVerdict h hbad
  | check =>
    obtain ⟨report, -, rfl⟩ := Outcome.map_eq_ok.mp h
    rfl

theorem produce_follows
    (h : s.cache.Tracks (Cache.taskKey (endpointOf e.worker) task.text) e.received)
    (hmessage : message.distinct) : Job.Follows servers (e.produce message task workers now) s
      (e.verdict message workers now s.registry)
      (Produced (Cache.taskKey (endpointOf e.worker) task.text) s)
      (LeftOff (Cache.taskKey (endpointOf e.worker) task.text) s) := by
  cases e with
  | upload => exact updateSchema_follows h (not_isFinal_received .upload)
  | removal => exact takeBackSchema_follows h (not_isFinal_received .removal)
  | check =>
    refine (checkFile_follows h hmessage workers).map ?_ (fun _ h => h)
    rintro report outcome t ⟨rfl, cache, rfl, hc, r, hr, hstatus, -⟩
    exact ⟨rfl, ⟨_, ⟨hc, r, hr, hstatus⟩, fun _ => not_isFinal_status report⟩, rfl⟩

/-! ## The whole of the work -/

theorem report_ends {endpoint status text : String} {data : List (String × Value)}
    (hdata : ∀ m ∈ data, m.2.distinct) :
    Job.Ends servers (report endpoint task (.str status) text (updatedAt now data)) s
      (fun _ t => ∃ cache, t = { s with cache }
        ∧ cache.Tracks (Cache.taskKey endpoint task.text) status)
      (fun _ t => (∀ before, ¬ s.cache.Tracks (Cache.taskKey endpoint task.text) before)
        ∧ ∃ cache, t = { s with cache }) := by
  rcases hrun : (report endpoint task (.str status) text (updatedAt now data)).run servers s with
    ⟨fault | _, t⟩
  · refine Job.ends_of_run_error hrun ⟨fun before h => ?_, ?_⟩
    · obtain ⟨cache, hok, -⟩ := @run_report s task endpoint before now h status text data hdata
      exact Outcome.error_ne_ok (Prod.mk.inj (hrun.symm.trans hok)).1
    · unfold report at hrun
      rw [run_onCache] at hrun
      exact ⟨_, (Prod.mk.inj hrun).2.symm⟩
  · refine Job.ends_of_run_ok hrun ?_
    unfold report at hrun
    rw [run_onCache] at hrun
    refine ⟨_, (Prod.mk.inj hrun).2.symm, ?_⟩
    exact Cache.tracks_of_run_updateTask (List.concat_ne_nil _ data) (distinct_updated hdata)
      (Prod.ext (Prod.mk.inj hrun).1 rfl)

theorem run_publishResult_unsent {endpoint : String} {queue : Broker.Queue} {outcome : Outcome}
    (hgood : outcome.good) (hbroker : s.broker.reachable = false) :
    (publishResult endpoint queue task outcome now).run servers s =
      (.error .brokerUnreachable, s) := by
  unfold publishResult
  rw [if_pos hgood, Job.run_bind, run_publish_unreachable hbroker]

/-- The work on a message was done: the record tells whether the outcome is good, and only a good one
was published. -/
structure CarriedOut (e : Errand) (message task : Value) (workers : Nat) (now : Moment)
    (outcome : Outcome) (s t : Stores) : Prop where
  dated : ∃ date, message.member "date" = .ok date
  verdict : e.verdict message workers now s.registry = .ok ⟨outcome.good, t.registry⟩
  sent : outcome.good = true → s.broker.reachable = true
  tracks : t.cache.Tracks (Cache.taskKey (endpointOf e.worker) task.text) (lastStatus outcome.good)
  broker : t.broker = announced (resultsOf e.worker) outcome s.broker

/-- The work on a message ended with a fault. -/
inductive GivenUp (e : Errand) (message task : Value) (workers : Nat) (now : Moment) (s : Stores) :
    Stores → Prop
  /-- The message does not say when it was sent. -/
  | undated (hdate : ∀ date, message.member "date" ≠ .ok date) :
    GivenUp e message task workers now s s
  /-- There is no record of the task. -/
  | unrecorded (cache : Cache.Store)
    (h : ∀ before, ¬ s.cache.Tracks (Cache.taskKey (endpointOf e.worker) task.text) before) :
    GivenUp e message task workers now s { s with cache }
  /-- The work came to no outcome. -/
  | leftOff (date : Value) (fault : Fault) (t : Stores) (hdate : message.member "date" = .ok date)
    (hverdict : e.verdict message workers now s.registry = .error fault)
    (h : LeftOff (Cache.taskKey (endpointOf e.worker) task.text) s t) :
    GivenUp e message task workers now s t
  /-- The result could not be published. -/
  | unsent (date : Value) (status : String) (t : Stores) (hdate : message.member "date" = .ok date)
    (hverdict : e.verdict message workers now s.registry = .ok ⟨true, t.registry⟩)
    (hbroker : s.broker.reachable = false) (hsame : t.broker = s.broker)
    (htracks : t.cache.Tracks (Cache.taskKey (endpointOf e.worker) task.text) status)
    (hstatus : ¬ IsFinal status) :
    GivenUp e message task workers now s t

theorem carryOut_ends (hmessage : message.distinct) :
    Job.Ends servers (e.carryOut message task workers now) s
      (fun _ t => ∃ outcome, CarriedOut e message task workers now outcome s t)
      (fun _ t => GivenUp e message task workers now s t) := by
  refine Job.ends_bind_assoc.mpr ?_
  refine Job.ends_ofExcept_bind (fun date hdate => ?_) (fun fault hdate => ?_)
  · have hdata : ∀ m ∈ [("upload_date", date)], m.2.distinct := by
      simpa using Value.distinct_of_member hmessage hdate
    refine Job.Ends.bind ((report_ends hdata).imp (fun _ _ h => h) ?_) ?_
    · rintro _ _ ⟨hnone, cache, rfl⟩
      exact .unrecorded cache hnone
    rintro _ _ ⟨c₁, rfl, h₁⟩
    refine Job.Ends.bind (Job.Ends.imp (produce_follows h₁ hmessage) (fun _ _ h => h) ?_) ?_
    · rintro fault _ ⟨hverdict, cache, status, rfl, hcache, hstatus⟩
      exact .leftOff date fault _ hdate hverdict ⟨cache, status, rfl, hcache, hstatus⟩
    rintro outcome t ⟨_, hverdict, rfl, ⟨status, htracks, hstatus⟩, hbroker⟩
    -- Only a good outcome is sent, so only a good one can be given up for want of a broker.
    by_cases hsent : outcome.good → s.broker.reachable
    · obtain ⟨cache, hrun, hcache⟩ := @run_publishResult t task _ status now htracks
        (resultsOf e.worker) outcome (hbroker ▸ hsent)
      refine Job.ends_of_run_ok hrun ⟨outcome, ⟨date, hdate⟩, hverdict, hsent, hcache, ?_⟩
      exact congrArg (announced (resultsOf e.worker) outcome) hbroker
    · obtain ⟨hgood, hreach⟩ := Classical.not_imp.mp hsent
      have hunreachable : s.broker.reachable = false := Bool.eq_false_of_not_eq_true hreach
      refine Job.ends_of_run_error (run_publishResult_unsent hgood (hbroker ▸ hunreachable)) ?_
      exact .unsent date status t hdate (hgood ▸ hverdict) hunreachable hbroker htracks
        (hstatus hgood)
  · exact .undated fun date h => Outcome.error_ne_ok (hdate.symm.trans h)

/-! ## Deliveries -/

/-- The errand on which a message sends a worker, if it names one. -/
def errandOf? (worker : WorkerName) (message : Value) : Option Errand :=
  match worker with
  | .schemas =>
    match message.memberOr "task" (.str SchemaTask.upload.name) with
    | .ok kind =>
      if kind = .str SchemaTask.upload.name then some .upload
      else if kind = .str SchemaTask.remove.name then some .removal
      else none
    | .error _ => none
  | .files =>
    match message.memberOr "task" (.str fileTaskName) with
    | .ok kind => if kind = .str fileTaskName then some .check else none
    | .error _ => none

theorem worker_of_errandOf? {worker : WorkerName} (h : errandOf? worker message = some e) :
    e.worker = worker := by
  unfold errandOf? at h
  split at h
  · split at h
    · split at h
      · cases h
        rfl
      · split at h
        · cases h
          rfl
        · cases h
    · cases h
  · split at h
    · split at h
      · cases h
        rfl
      · cases h
    · cases h

/-- A body holds a message about a task that sends a worker on an errand. -/
structure Asks (worker : WorkerName) (body : List UInt8) (message task : Value) (e : Errand) :
    Prop where
  read : readMessage body = .ok message
  named : message.member "id" = .ok task
  errand : errandOf? worker message = some e

theorem Asks.unique {worker : WorkerName} {body : List UInt8} {other task' : Value} {e' : Errand}
    (h : Asks worker body message task e) (h' : Asks worker body other task' e') :
    message = other ∧ task = task' ∧ e = e' := by
  cases h.read.symm.trans h'.read
  exact ⟨rfl, Except.ok.inj (h.named.symm.trans h'.named),
    Option.some.inj (h.errand.symm.trans h'.errand)⟩

def workOf (worker : WorkerName) (body : List UInt8) (workers : Nat) (now : Moment) :
    Job protocol Unit :=
  match worker with
  | .schemas => schemaWork body now
  | .files => fileWork body workers now

theorem handle_eq (settings : Settings) (worker : WorkerName) (tag : Nat) (body : List UInt8)
    (now : Moment) : World.handle settings worker tag body now =
      settling tag (workOf worker body settings.workers now) := by
  cases worker <;> rfl

theorem distinct_of_readMessage {body : List UInt8} (h : readMessage body = .ok message) :
    message.distinct := by
  unfold readMessage Cache.parsed at h
  split at h
  · split at h
    · next v hread =>
      cases h
      exact Json.distinct_of_read hread
    · cases h
  · cases h

variable {worker : WorkerName} {body : List UInt8}

/-- A body sends a worker on an errand that was carried out. -/
def Fulfilled (worker : WorkerName) (body : List UInt8) (workers : Nat) (now : Moment)
    (s t : Stores) : Prop :=
  ∃ message task e outcome, Asks worker body message task e
    ∧ CarriedOut e message task workers now outcome s t

/-- A body sends a worker on no errand, or on one that was given up. -/
def Dropped (worker : WorkerName) (body : List UInt8) (workers : Nat) (now : Moment)
    (s t : Stores) : Prop :=
  ((∀ message task e, ¬ Asks worker body message task e) ∧ t = s)
    ∨ ∃ message task e, Asks worker body message task e ∧ GivenUp e message task workers now s t

theorem dropped_of_none (hread : readMessage body = .ok message)
    (hnone : errandOf? worker message = none) : Dropped worker body workers now s s := by
  refine .inl ⟨fun other _ e hasks => ?_, rfl⟩
  cases hread.symm.trans hasks.read
  exact Option.some_ne_none e (hasks.errand.symm.trans hnone)

/-- Both workers read the message and the name of the task first. -/
theorem reading_ends {rest : Value → Value → Job protocol Unit}
    (hrest : ∀ message task, readMessage body = .ok message → message.member "id" = .ok task →
      Job.Ends servers (rest message task) s (fun _ => Fulfilled worker body workers now s)
        (fun _ => Dropped worker body workers now s)) :
    Job.Ends servers (do
        let message ← Job.ofExcept (readMessage body)
        let task ← Job.ofExcept (message.member "id")
        rest message task) s
      (fun _ => Fulfilled worker body workers now s)
      (fun _ => Dropped worker body workers now s) := by
  refine Job.ends_ofExcept_bind (fun message hread => ?_) (fun fault hread => ?_)
  · refine Job.ends_ofExcept_bind (fun task hnamed => hrest message task hread hnamed)
      (fun fault hnamed => .inl ⟨fun other _ e hasks => ?_, rfl⟩)
    cases hread.symm.trans hasks.read
    exact Outcome.error_ne_ok (hnamed.symm.trans hasks.named)
  · exact .inl ⟨fun other _ e hasks => Outcome.error_ne_ok (hread.symm.trans hasks.read), rfl⟩

theorem errand_ends (h : Asks worker body message task e) :
    Job.Ends servers (e.carryOut message task workers now) s
      (fun _ => Fulfilled worker body workers now s) (fun _ => Dropped worker body workers now s) :=
  (carryOut_ends (distinct_of_readMessage h.read)).imp
    (fun _ _ ⟨outcome, hout⟩ => ⟨message, task, e, outcome, h, hout⟩)
    (fun _ _ hgiven => .inr ⟨message, task, e, h, hgiven⟩)

theorem workOf_ends (worker : WorkerName) (body : List UInt8) (workers : Nat) (now : Moment)
    (s : Stores) : Job.Ends servers (workOf worker body workers now) s
      (fun _ => Fulfilled worker body workers now s)
      (fun _ => Dropped worker body workers now s) := by
  cases worker with
  | schemas =>
    refine reading_ends fun message task hread hnamed => ?_
    refine Job.ends_ofExcept_bind (fun kind hkind => ?_) (fun fault hkind => ?_)
    · have herrand : errandOf? .schemas message =
          if kind = .str SchemaTask.upload.name then some .upload
          else if kind = .str SchemaTask.remove.name then some .removal
          else none := by
        unfold errandOf?
        rw [hkind]
      by_cases hupload : kind = .str SchemaTask.upload.name
      · rw [if_pos hupload] at herrand ⊢
        exact @errand_ends s message task workers now .upload .schemas body ⟨hread, hnamed, herrand⟩
      rw [if_neg hupload] at herrand ⊢
      by_cases hremove : kind = .str SchemaTask.remove.name
      · rw [if_pos hremove] at herrand ⊢
        exact @errand_ends s message task workers now .removal .schemas body ⟨hread, hnamed, herrand⟩
      · rw [if_neg hremove] at herrand ⊢
        exact Job.ends_of_run_error rfl (dropped_of_none hread herrand)
    · refine dropped_of_none hread ?_
      unfold errandOf?
      rw [hkind]
  | files =>
    refine reading_ends fun message task hread hnamed => ?_
    refine Job.ends_ofExcept_bind (fun kind hkind => ?_) (fun fault hkind => ?_)
    · have herrand : errandOf? .files message =
          if kind = .str fileTaskName then some .check else none := by
        unfold errandOf?
        rw [hkind]
      by_cases hcheck : kind = .str fileTaskName
      · rw [if_pos hcheck] at herrand
        rw [if_neg (not_not.mpr hcheck)]
        exact @errand_ends s message task workers now .check .files body ⟨hread, hnamed, herrand⟩
      · rw [if_neg hcheck] at herrand
        rw [if_pos hcheck]
        exact Job.ends_of_run_error rfl (dropped_of_none hread herrand)
    · refine dropped_of_none hread ?_
      unfold errandOf?
      rw [hkind]

/-! ## Settling -/

/-- The servers after a delivery was settled. -/
def settled (settlement : Broker.Settlement) (s : Stores) : Stores :=
  { s with broker := { s.broker with settlements := s.broker.settlements ++ [settlement] } }

theorem settlements_settled {settlement : Broker.Settlement}
    (h : t.broker.settlements = s.broker.settlements) :
    (settled settlement t).broker.settlements = s.broker.settlements ++ [settlement] :=
  congrArg (· ++ [settlement]) h

theorem settling_run {work : Job protocol Unit} {good bad : Stores → Prop} (tag : Nat)
    (h : Job.Ends servers work s (fun _ => good) (fun _ => bad)) :
    (∃ t, good t ∧ (settling tag work).run servers s = (.ok (), settled (.accepted tag) t))
      ∨ ∃ t, bad t
        ∧ (settling tag work).run servers s = (.ok (), settled (.refused tag false) t) := by
  unfold settling
  rcases h with ⟨_, t, hrun, hgood⟩ | ⟨fault, t, hrun, hbad⟩
  · refine .inl ⟨t, hgood, ?_⟩
    rw [Job.run_tryCatch, Job.run_bind_ok hrun, run_settle]
    rfl
  · refine .inr ⟨t, hbad, ?_⟩
    rw [Job.run_tryCatch, Job.run_bind, hrun]
    exact run_settle _ t

end SheetIntake.Worker
