import SheetIntake.Proofs.WorkerViews

/-!
# Submissions and the worker

The route that submits a schema looks for tasks that are known, publishes a message about a new one,
and then keeps its record. The worker may take the message as soon as it is published.

* `Ready.handled`, `Ready.exists_handled` — every run begins in the same way, up to where the message
  is published.
-/

namespace SheetIntake.Service

open Worker

/-! ## A route and a worker -/

section

variable {α β : Type}

/-- A route is carried out. At some moment the worker of a queue takes the oldest message there, and
from then on both go on together. The log tells who asked what. -/
inductive Handled (queue : Broker.Queue) (handler : List UInt8 → Plan protocol β) :
    Plan protocol α → Stores → List (Side × Request) → α × β × Stores → Prop
  | route {request next s log result}
      (rest : Handled queue handler (next (servers request s).1) (servers request s).2 log result) :
      Handled queue handler (.ask request next) s ((.left, request) :: log) result
  | take {plan s log result message broker}
      (htake : s.broker.take? queue.name = some (message, broker))
      (rest : Plan.Interleaving servers plan (handler (Text.encodeUtf8 message.body))
        { s with broker } log result) :
      Handled queue handler plan s log result

/-- The record of a task was kept before the worker read it. -/
def KeptFirst (key : String) (log : List (Side × Request)) : Prop :=
  ∃ before fields after, log = before ++ (.left, .cache (.setFields key fields)) :: after
    ∧ (.right, .cache (.fields key)) ∉ before

variable {key : String} {log : List (Side × Request)}

theorem keptFirst_cons_kept (fields : List (String × Value)) :
    KeptFirst key ((.left, .cache (.setFields key fields)) :: log) :=
  ⟨[], fields, log, rfl, List.not_mem_nil⟩

theorem not_keptFirst_cons_read : ¬ KeptFirst key ((.right, .cache (.fields key)) :: log) := by
  rintro ⟨before, fields, after, hlog, hread⟩
  cases before with
  | nil =>
    have hside : Side.right = Side.left := congrArg Prod.fst (List.cons.inj hlog).1
    cases hside
  | cons e before => exact hread (by rw [← (List.cons.inj hlog).1]; exact (.head _))

theorem keptFirst_cons {e : Side × Request}
    (hkept : ∀ fields, e ≠ (.left, .cache (.setFields key fields)))
    (hread : e ≠ (.right, .cache (.fields key))) : KeptFirst key (e :: log) ↔ KeptFirst key log := by
  constructor
  · rintro ⟨before, fields, after, hlog, hnot⟩
    cases before with
    | nil => exact absurd (List.cons.inj hlog).1 (hkept fields)
    | cons first before =>
      exact ⟨before, fields, after, (List.cons.inj hlog).2, fun h => hnot (.tail _ h)⟩
  · rintro ⟨before, fields, after, rfl, hnot⟩
    refine ⟨e :: before, fields, after, rfl, fun h => ?_⟩
    rcases List.mem_cons.mp h with h | h
    · exact hread h.symm
    · exact hnot h

namespace Handled

variable {queue : Broker.Queue} {handler : List UInt8 → Plan protocol β} {plan : Plan protocol α}
  {s : Stores} {result : α × β × Stores} {request : Request}

/-- As long as no message waits, only the route goes on. -/
theorem of_ask (h : Handled queue handler plan s log result)
    (hempty : s.broker.waiting queue.name = [])
    {next : Except Fault request.Answer → Plan protocol α} (hplan : plan = .ask request next) :
    ∃ rest, log = (.left, request) :: rest
      ∧ Handled queue handler (next (servers request s).1) (servers request s).2 rest result := by
  subst hplan
  cases h with
  | route rest => exact ⟨_, rfl, rest⟩
  | take htake rest =>
    rw [Broker.Store.take?, hempty] at htake
    cases htake

def Looks (request : Request) : Prop :=
  ∃ key, request = .cache (.members key) ∨ request = .cache (.fields key)

theorem servers_looks (h : Looks request) (s : Stores) : (servers request s).2 = s := by
  obtain ⟨key, rfl | rfl⟩ := h
  · have hsame : (Cache.servers (.members key) s.cache).2 = s.cache := by
      unfold Cache.servers
      split <;> rfl
    rw [servers_cache, hsame]
  · rw [servers_cache, servers_fields]

theorem keptFirst_cons_looks (h : Looks request) :
    KeptFirst key ((.left, request) :: log) ↔ KeptFirst key log := by
  obtain ⟨other, rfl | rfl⟩ := h <;> exact keptFirst_cons (fun _ => by simp) (by simp)

variable {γ : Type}

theorem run_looks {next : Except Fault request.Answer → Plan protocol γ} (h : Looks request)
    (s : Stores) : (Plan.run servers (.ask request next) s).1 =
      (Plan.run servers (next (servers request s).1) s).1 := by
  rw [Plan.run_ask, servers_looks h]

/-- Looking for records comes before anything that matters. -/
theorem of_looks {looking : Plan protocol γ} {f : γ → Plan protocol α} (key : String)
    (h : Handled queue handler (looking >>= f) s log result) (hlooking : looking.Asks Looks)
    (hempty : s.broker.waiting queue.name = []) {a : γ} (hrun : (looking.run servers s).1 = a) :
    ∃ rest, Handled queue handler (f a) s rest result ∧ (KeptFirst key log ↔ KeptFirst key rest) := by
  induction hlooking generalizing log with
  | done b =>
    have hdone : b = a := hrun
    exact ⟨log, hdone ▸ h, Iff.rfl⟩
  | @ask request next hlooks hnext ih =>
    obtain ⟨rest, rfl, hrest⟩ := h.of_ask hempty rfl
    rw [servers_looks hlooks] at hrest
    rw [run_looks hlooks] at hrun
    obtain ⟨after, hafter, hkept⟩ := ih _ hrest hrun
    exact ⟨after, hafter, (keptFirst_cons_looks hlooks).trans hkept⟩

/-- A run may begin with looking for records. -/
theorem exists_of_looks {looking : Plan protocol γ} {f : γ → Plan protocol α} (key : String)
    (hlooking : looking.Asks Looks) {a : γ} (hrun : (looking.run servers s).1 = a)
    (h : Handled queue handler (f a) s log result) :
    ∃ whole, Handled queue handler (looking >>= f) s whole result
      ∧ (KeptFirst key whole ↔ KeptFirst key log) := by
  induction hlooking with
  | done b =>
    have hdone : b = a := hrun
    exact ⟨log, hdone ▸ h, Iff.rfl⟩
  | @ask request next hlooks hnext ih =>
    rw [run_looks hlooks] at hrun
    obtain ⟨rest, hrest, hkept⟩ := ih _ hrun
    refine ⟨(.left, request) :: rest, .route ?_, (keptFirst_cons_looks hlooks).trans hkept⟩
    rw [servers_looks hlooks]
    exact hrest

end Handled

end

/-! ## The route -/

theorem asks_tasksOf (name endpoint : String) :
    (onCache (Cache.tasksOf name endpoint)).Asks Handled.Looks := by
  have hlooks : ∀ key, Handled.Looks (.cache (.members key)) ∧ Handled.Looks (.cache (.fields key)) :=
    fun key => ⟨⟨key, .inl rfl⟩, ⟨key, .inr rfl⟩⟩
  refine .within (.bind (Job.asks_ask (hlooks _).1) fun tasks => .bind (Job.asks_mapM (fun task => ?_)
    tasks) fun records => Job.asks_pure _)
  refine .bind (Job.asks_ask (hlooks _).2) fun fields => ?_
  split
  · exact Job.asks_pure _
  · exact .bind (Job.asks_ofExcept _) fun _ => .bind (Job.asks_ofExcept _) fun _ => Job.asks_pure _

def submitted : String :=
  "Schema upload request submitted successfully"

/-- The end of the route, after the message was published: the record is kept. -/
def keeping (id name : String) : Plan protocol (Except Fault TaskAnswer) :=
  ExceptT.run (do
    onCache (Cache.setTask (.str id) (acceptedRecord id name submitted) schemaEndpoint)
    return TaskAnswer.one (acceptedRecord id name submitted))

/-- The request that keeps the record of an upload. -/
abbrev recordRequest (id name : String) : Request :=
  .cache (.setFields (schemaKey id) (Cache.recordFields (acceptedRecord id name submitted)))

theorem keeping_start (id name : String) :
    ∃ next last, keeping id name = .ask (recordRequest id name) next
      ∧ next (.ok ()) = .ask (.cache (.addMember (Cache.importKey schemaEndpoint name) (.str id))) last
      ∧ last (.ok ()) = .done (.ok (.one (acceptedRecord id name submitted)))
      ∧ ∀ answer, ∃ result, last answer = .done result := by
  refine ⟨_, _, rfl, rfl, rfl, fun answer => ?_⟩
  cases answer with
  | ok a | error fault => exact ⟨_, rfl⟩

def uploadMessage (submission : SchemaSubmission) (id : String) (sent : Moment) : Broker.Message :=
  messageFor .schema (schemaMessage id .upload submission.schema submission.importName submission.raw
    sent) (some { messageId := id, timestamp := sent.seconds })

/-- The middle of the route, where no tasks are known. -/
def submitting (submission : SchemaSubmission) (sent : Moment) : Job protocol TaskAnswer := do
  let (task, record) ← submitSchema submission sent
  onCache (Cache.setTask task record schemaEndpoint)
  return .one record

theorem submitting_start (submission : SchemaSubmission) (sent : Moment) :
    ∃ next, ExceptT.run (submitting submission sent) = .ask .newTask next
      ∧ ∀ id, ∃ last, next (.ok id) = .ask (.broker (.publish (uploadMessage submission id sent))) last
        ∧ last (.ok ()) = keeping id submission.importName :=
  ⟨_, rfl, fun _ => ⟨_, rfl, rfl⟩⟩

/-- The beginning of the route: the records of tasks that are known already. -/
def knownTasks (submission : SchemaSubmission) : Job protocol (List TaskRecord) :=
  if submission.new then pure []
  else onCache (Cache.tasksOf submission.importName schemaEndpoint)

theorem uploadSchema_eq {submission : SchemaSubmission} (hname : submission.importName ≠ "")
    (sent : Moment) :
    uploadSchema submission sent = (do
      let known ← knownTasks submission
      if !known.isEmpty then return .all known else submitting submission sent) := by
  unfold uploadSchema expectImportName knownTasks
  rw [if_neg hname]
  cases submission.new <;> rfl

theorem asks_knownTasks (submission : SchemaSubmission) :
    (knownTasks submission).Asks Handled.Looks := by
  unfold knownTasks
  split
  · exact Job.asks_pure _
  · exact asks_tasksOf _ _

/-! ## Submissions that are accepted -/

def nextTask (s : Stores) : String :=
  taskName (s.taskCount + 1)

/-- The servers are ready for an upload: they can be reached, the queue of the worker is declared and
empty, no tasks of the import name are known unless a new one is asked for, and there is nothing
under the key of the task to come. The document is a schema or known to be none. -/
structure Ready (submission : SchemaSubmission) (s : Stores) : Prop where
  named : submission.importName ≠ ""
  distinct : submission.schema.distinct = true
  judged : Judged submission.raw submission.schema
  cache : s.cache.reachable = true
  broker : s.broker.reachable = true
  queue : Assoc.get? Broker.Queue.schema.name s.broker.queues = some []
  bound : Broker.Queue.schema.binding ∈ s.broker.bindings
  unknown : ((knownTasks submission).run servers s).1 = .ok []
  tasks : ∃ members, s.cache.membersOf (Cache.importKey schemaEndpoint submission.importName) =
    .ok members
  fresh : s.cache.content? (Cache.taskKey schemaEndpoint (nextTask s)) = none

theorem waiting_withMessage {broker : Broker.Store} {m : Broker.Message} {queue : String}
    (hqueue : Assoc.get? queue broker.queues = some []) (hroutes : broker.routes m queue) :
    (broker.withMessage m).waiting queue = [m] := by
  unfold Broker.Store.waiting Broker.Store.withMessage
  rw [Assoc.get?_map (fun name (messages : List Broker.Message) =>
    if broker.routes m name then messages ++ [m] else messages), hqueue, Option.map_some,
    if_pos hroutes]
  rfl

theorem routes_uploadMessage {submission : SchemaSubmission} {s : Stores} (h : Ready submission s)
    (id : String) (sent : Moment) :
    s.broker.routes (uploadMessage submission id sent) Broker.Queue.schema.name := by
  have hkey : Broker.topicMatches Broker.Queue.schema.pattern Broker.Queue.schema.key := by
    decide
  refine List.any_eq_true.mpr ⟨_, h.bound, ?_⟩
  rw [Bool.and_eq_true, Bool.and_eq_true, decide_eq_true_eq, decide_eq_true_eq]
  exact ⟨⟨rfl, rfl⟩, hkey⟩

def afterPublish (submission : SchemaSubmission) (sent : Moment) (s : Stores) : Stores :=
  { s with
    broker := s.broker.withMessage (uploadMessage submission (nextTask s) sent)
    taskCount := s.taskCount + 1 }

variable {β : Type} {handler : List UInt8 → Plan protocol β} {submission : SchemaSubmission}
  {sent : Moment} {s : Stores} {log : List (Side × Request)} {result : Except Fault TaskAnswer × β × Stores}

theorem servers_newTask (s : Stores) :
    servers .newTask s = (.ok (nextTask s), { s with taskCount := s.taskCount + 1 }) :=
  rfl

theorem servers_uploadMessage (hready : Ready submission s) :
    servers (.broker (.publish (uploadMessage submission (nextTask s) sent)))
      { s with taskCount := s.taskCount + 1 } = (.ok (), afterPublish submission sent s) := by
  have hpublish : Broker.servers
      (.publish (uploadMessage submission (nextTask s) sent)) s.broker =
      (.ok (), s.broker.withMessage (uploadMessage submission (nextTask s) sent)) :=
    if_pos (by simp [hready.broker])
  rw [servers_broker, hpublish]
  rfl

/-- Up to where the message is published, only the route goes on. -/
theorem Ready.handled (hready : Ready submission s) (key : String)
    (h : Handled .schema handler (ExceptT.run (uploadSchema submission sent)) s log result) :
    ∃ rest, Handled .schema handler (keeping (nextTask s) submission.importName)
        (afterPublish submission sent s) rest result
      ∧ (KeptFirst key log ↔ KeptFirst key rest) := by
  have hempty : s.broker.waiting Broker.Queue.schema.name = [] := by
    rw [Broker.Store.waiting, hready.queue]
    rfl
  rw [uploadSchema_eq hready.named] at h
  obtain ⟨next, hstart, hnext⟩ := submitting_start submission sent
  obtain ⟨last, hpublish, hlast⟩ := hnext (nextTask s)
  obtain ⟨middle, hmiddle, hkept⟩ :=
    Handled.of_looks key h (asks_knownTasks submission) hempty hready.unknown
  obtain ⟨named, rfl, hnamed⟩ := hmiddle.of_ask hempty hstart
  obtain ⟨rest, rfl, hrest⟩ := hnamed.of_ask hempty hpublish
  refine ⟨rest, ?_, ?_⟩
  · rw [servers_newTask, servers_uploadMessage hready] at hrest
    rw [← hlast]
    exact hrest
  · rw [hkept, keptFirst_cons (fun _ => by simp) (by simp),
      keptFirst_cons (fun _ => by simp) (by simp)]

theorem Ready.exists_handled (hready : Ready submission s) (key : String)
    (h : Handled .schema handler (keeping (nextTask s) submission.importName)
      (afterPublish submission sent s) log result) :
    ∃ whole, Handled .schema handler (ExceptT.run (uploadSchema submission sent)) s whole result
      ∧ (KeptFirst key whole ↔ KeptFirst key log) := by
  obtain ⟨next, hstart, hnext⟩ := submitting_start submission sent
  obtain ⟨last, hpublish, hlast⟩ := hnext (nextTask s)
  let message := Request.broker (.publish (uploadMessage submission (nextTask s) sent))
  have hpublished : Handled .schema handler (.ask message last) { s with taskCount := s.taskCount + 1 }
      ((.left, message) :: log) result := by
    refine .route ?_
    rw [servers_uploadMessage hready]
    rw [hlast]
    exact h
  have hsubmitting : Handled .schema handler (ExceptT.run (submitting submission sent)) s
      ((.left, .newTask) :: (.left, message) :: log) result := by
    rw [hstart]
    refine .route ?_
    rw [servers_newTask]
    rw [hpublish]
    exact hpublished
  rw [uploadSchema_eq hready.named]
  have hlog : KeptFirst key ((.left, .newTask) :: (.left, message) :: log) ↔ KeptFirst key log := by
    rw [keptFirst_cons (fun _ => by simp) (by simp), keptFirst_cons (fun _ => by simp [message])
      (by simp [message])]
  simp only [← hlog]
  exact Handled.exists_of_looks key (asks_knownTasks submission) hready.unknown hsubmitting

end SheetIntake.Service
