import SheetIntake.Proofs.Interleaving
import SheetIntake.Proofs.Jobs

/-!
# What plans see of each other

A plan that is carried out together with another one comes to the same end as it does alone, if the
other one changes nothing of what it looks at.

* `Asks.view_run` — a plan whose requests leave a view of the state as it is does so as a whole.
* `Interleaving.of_unseen` — a plan whose requests depend on a view of the state only runs as if it
  were alone beside a plan that leaves the view as it is.
* `Interleaving.gives_left` — a plan whose answers are the same in all states of a kind has one
  result.
-/

namespace SheetIntake

/-! ## Requests of a kind -/

namespace Plan

variable {p : Protocol} {α β : Type} {allowed : p.Request → Prop}

inductive Asks (allowed : p.Request → Prop) : Plan p α → Prop
  | done (a : α) : Asks allowed (.done a)
  | ask {request : p.Request} {next : Except Fault (p.Answer request) → Plan p α}
      (hrequest : allowed request) (hnext : ∀ answer, Asks allowed (next answer)) :
      Asks allowed (.ask request next)

theorem asks_of_forall (h : ∀ request, allowed request) (plan : Plan p α) : plan.Asks allowed := by
  induction plan with
  | done a => exact .done a
  | ask request next ih => exact .ask (h request) ih

theorem Asks.bind {plan : Plan p α} {f : α → Plan p β} (hplan : plan.Asks allowed)
    (hf : ∀ a, (f a).Asks allowed) : (plan >>= f).Asks allowed := by
  induction hplan with
  | done a => exact hf a
  | ask hrequest hnext ih => exact .ask hrequest ih

theorem Asks.imp {allowed' : p.Request → Prop} {plan : Plan p α} (hplan : plan.Asks allowed)
    (h : ∀ request, allowed request → allowed' request) : plan.Asks allowed' := by
  induction hplan with
  | done a => exact .done a
  | ask hrequest hnext ih => exact .ask (h _ hrequest) ih

theorem Asks.within {q : Protocol} {part : Protocol.Part q p} {plan : Plan q α}
    (hplan : plan.Asks (fun request => allowed (part.request request))) :
    (plan.within part).Asks allowed := by
  induction hplan with
  | done a => exact .done a
  | ask hrequest hnext ih => exact .ask hrequest fun answer => ih _

end Plan

namespace Job

variable {p : Protocol} {α β : Type} {allowed : p.Request → Prop}

/-- Whatever the answers, all requests of a job are of a kind. -/
def Asks (allowed : p.Request → Prop) (job : Job p α) : Prop :=
  (ExceptT.run job).Asks allowed

theorem asks_pure (a : α) : (pure a : Job p α).Asks allowed := .done (Except.ok a)

theorem asks_throw (fault : Fault) : (throw fault : Job p α).Asks allowed :=
  .done (Except.error fault)

theorem asks_ofExcept (result : Except Fault α) : (ofExcept result : Job p α).Asks allowed :=
  .done result

variable {f : α → Job p β}

theorem asks_ofExcept_bind {a : α} (hf : (f a).Asks allowed) :
    ((ofExcept (.ok a) : Job p α) >>= f).Asks allowed := hf

theorem asks_ask {request : p.Request} (h : allowed request) : (ask request).Asks allowed :=
  .ask h .done

variable {job : Job p α}

theorem Asks.bind (hjob : job.Asks allowed) (hf : ∀ a, (f a).Asks allowed) :
    (job >>= f).Asks allowed := by
  refine Plan.Asks.bind hjob (fun result => ?_)
  cases result with
  | ok a => exact hf a
  | error fault => exact .done (Except.error fault)

theorem Asks.tryCatch {handler : Fault → Job p α} (hjob : job.Asks allowed)
    (hhandler : ∀ fault, (handler fault).Asks allowed) : (tryCatch job handler).Asks allowed := by
  refine Plan.Asks.bind hjob (fun result => ?_)
  cases result with
  | ok a => exact .done (Except.ok a)
  | error fault => exact hhandler fault

theorem Asks.imp {allowed' : p.Request → Prop} (hjob : job.Asks allowed)
    (h : ∀ request, allowed request → allowed' request) : job.Asks allowed' :=
  Plan.Asks.imp hjob h

theorem Asks.within {q : Protocol} {part : Protocol.Part q p} {job : Job q α}
    (hjob : job.Asks (fun request => allowed (part.request request))) :
    (job.within part).Asks allowed :=
  Plan.Asks.within hjob

theorem asks_mapM (h : ∀ a, (f a).Asks allowed) (as : List α) : (as.mapM f).Asks allowed := by
  suffices hloop : ∀ done : List β, (List.mapM.loop f as done).Asks allowed from hloop []
  induction as with
  | nil => exact fun done => asks_pure done.reverse
  | cons a as ih => exact fun done => .bind (h a) fun b => ih (b :: done)

/-! ## Runs -/

theorem run_tryCatch {σ : Type} {servers : Servers p σ} (job : Job p α) (handler : Fault → Job p α)
    (s : σ) : run servers (tryCatch job handler) s = match run servers job s with
      | (.ok a, t) => (.ok a, t)
      | (.error fault, t) => run servers (handler fault) t := by
  unfold run
  change Plan.run servers (ExceptT.run job >>= _) s = _
  rw [Plan.run_bind]
  cases Plan.run servers (ExceptT.run job) s with
  | mk result t => cases result <;> rfl

end Job

namespace Plan

variable {p q : Protocol} {α σ τ : Type}

/-- A plan for a part of the servers changes that part, and goes by it. -/
theorem run_within {part : Protocol.Part p q} {small : Servers p σ} {big : Servers q τ}
    (get : τ → σ) (set : τ → σ → τ)
    (hask : ∀ request t, (big (part.request request) t).1.map (part.answer request) =
        (small request (get t)).1
      ∧ (big (part.request request) t).2 = set t (small request (get t)).2)
    (hget : ∀ t s, get (set t s) = s) (hset : ∀ t s s', set (set t s) s' = set t s')
    (hself : ∀ t, set t (get t) = t) (plan : Plan p α) (t : τ) :
    run big (plan.within part) t = ((run small plan (get t)).1, set t (run small plan (get t)).2) := by
  induction plan generalizing t with
  | done a => exact Prod.ext rfl (hself t).symm
  | ask request next ih =>
    obtain ⟨hanswer, hstate⟩ := hask request t
    rw [Plan.within, run_ask, hanswer, ih, hstate, hget, hset]
    rfl

/-! ## Two plans and a view -/

variable {υ β : Type} {servers : Servers p σ}

/-- A request whose answer, and whose effect on a view, depend on the view only. -/
def Sees (servers : Servers p σ) (view : σ → υ) (request : p.Request) : Prop :=
  ∀ s t, view s = view t → (servers request s).1 = (servers request t).1
    ∧ view (servers request s).2 = view (servers request t).2

/-- A request that leaves a view as it is. -/
def Hides (servers : Servers p σ) (view : σ → υ) (request : p.Request) : Prop :=
  ∀ s, view (servers request s).2 = view s

theorem Asks.view_run {view : σ → υ} {plan : Plan p α} (h : plan.Asks (Hides servers view)) (s : σ) :
    view (run servers plan s).2 = view s := by
  induction h generalizing s with
  | done a => rfl
  | ask hhides hnext ih => exact (ih _ _).trans (hhides s)

variable {view : σ → υ} {first : Plan p α} {second : Plan p β} {s : σ}
  {log : List (Side × p.Request)} {result : α × β × σ}

theorem Interleaving.of_unseen_from (h : Interleaving servers first second s log result)
    (hfirst : first.Asks (Hides servers view)) (hsecond : second.Asks (Sees servers view)) {t : σ}
    (hview : view s = view t) :
    result.2.1 = (run servers second t).1 ∧ view result.2.2 = view (run servers second t).2 := by
  induction h generalizing t with
  | done a b s => exact ⟨rfl, hview⟩
  | @left request next second s log result rest ih =>
    cases hfirst with
    | ask hhides hrest => exact ih (hrest _) hsecond ((hhides s).trans hview)
  | @right first request next s log result rest ih =>
    cases hsecond with
    | ask hsees hrest =>
      obtain ⟨hanswer, hnext⟩ := hsees s t hview
      rw [run_ask, ← hanswer]
      exact ih hfirst (hrest _) hnext

theorem Interleaving.of_unseen (h : Interleaving servers first second s log result)
    (hfirst : first.Asks (Hides servers view)) (hsecond : second.Asks (Sees servers view)) :
    result.2.1 = (run servers second s).1 ∧ view result.2.2 = view (run servers second s).2 :=
  h.of_unseen_from hfirst hsecond rfl

/-- A plan that has one result as long as its requests meet states of a kind, which they keep. -/
inductive Gives (servers : Servers p σ) (inv : σ → Prop) (a : α) : Plan p α → Prop
  | done : Gives servers inv a (.done a)
  | ask {request : p.Request} {next : Except Fault (p.Answer request) → Plan p α}
      (hkeeps : ∀ s, inv s → inv (servers request s).2)
      (hnext : ∀ s, inv s → Gives servers inv a (next (servers request s).1)) :
      Gives servers inv a (.ask request next)

theorem Interleaving.gives_left {inv : σ → Prop} {a : α}
    (h : Interleaving servers first second s log result) (hfirst : first.Gives servers inv a)
    (hsecond : second.Asks (fun request => ∀ s, inv s → inv (servers request s).2)) (hs : inv s) :
    result.1 = a := by
  induction h with
  | done b c s =>
    cases hfirst
    rfl
  | @left request next second s log result rest ih =>
    cases hfirst with
    | ask hkeeps hnext => exact ih (hnext s hs) hsecond (hkeeps s hs)
  | @right first request next s log result rest ih =>
    cases hsecond with
    | ask hkeeps hnext => exact ih hfirst (hnext _) (hkeeps s hs)

end Plan

end SheetIntake
