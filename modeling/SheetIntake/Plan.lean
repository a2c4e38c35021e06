import SheetIntake.Fault

/-!
# Plans

A plan is a computation that asks servers and goes on with their answers. What can be asked is a
`Protocol`. Each request is one atomic step of a server; between two requests of a plan other plans
may have theirs answered. `Plan.run` carries a plan out against the state of the servers without
such interruption.

A `Job` is a plan that may fail. Every answer may be a failure too.
-/

namespace SheetIntake

/-- What can be asked of servers, and the type of each answer. -/
structure Protocol where
  Request : Type
  Answer : Request → Type

inductive Plan (p : Protocol) (α : Type) where
  | done (a : α)
  | ask (request : p.Request) (next : Except Fault (p.Answer request) → Plan p α)

/-- How servers in a state answer, and the state after it. -/
abbrev Servers (p : Protocol) (σ : Type) : Type :=
  (request : p.Request) → σ → Except Fault (p.Answer request) × σ

namespace Plan

variable {p q : Protocol} {α β σ : Type}

def bind : Plan p α → (α → Plan p β) → Plan p β
  | .done a, f => f a
  | .ask request next, f => .ask request (fun answer => bind (next answer) f)

instance : Monad (Plan p) where
  pure := .done
  bind := bind

/-- Carries out a plan without interruption. -/
def run (servers : Servers p σ) : Plan p α → σ → α × σ
  | .done a, s => (a, s)
  | .ask request next, s =>
    let (answer, s) := servers request s
    run servers (next answer) s

@[simp]
theorem run_done (servers : Servers p σ) (a : α) (s : σ) :
    run servers (.done a : Plan p α) s = (a, s) := rfl

@[simp]
theorem run_pure (servers : Servers p σ) (a : α) (s : σ) :
    run servers (pure a : Plan p α) s = (a, s) := rfl

@[simp]
theorem run_ask (servers : Servers p σ) (request : p.Request)
    (next : Except Fault (p.Answer request) → Plan p α) (s : σ) :
    run servers (.ask request next) s =
      run servers (next (servers request s).1) (servers request s).2 := rfl

@[simp]
theorem run_bind (servers : Servers p σ) (plan : Plan p α) (f : α → Plan p β) (s : σ) :
    run servers (plan >>= f) s =
      run servers (f (run servers plan s).1) (run servers plan s).2 := by
  change run servers (bind plan f) s = _
  induction plan generalizing s with
  | done a => rfl
  | ask request next ih => simp only [bind, run_ask, ih]

end Plan

structure Protocol.Part (p q : Protocol) where
  request : p.Request → q.Request
  answer : (r : p.Request) → q.Answer (request r) → p.Answer r

namespace Plan

variable {p q : Protocol} {α : Type}

def within (part : Protocol.Part p q) : Plan p α → Plan q α
  | .done a => .done a
  | .ask request next =>
    .ask (part.request request) (fun answer => within part (next (answer.map (part.answer request))))

end Plan

abbrev Job (p : Protocol) (α : Type) : Type :=
  ExceptT Fault (Plan p) α

namespace Job

variable {p q : Protocol} {α σ : Type}

def ask (request : p.Request) : Job p (p.Answer request) :=
  ExceptT.mk (.ask request .done)

def ofExcept (result : Except Fault α) : Job p α :=
  ExceptT.mk (.done result)

/-- Carries out a job without interruption. -/
def run (servers : Servers p σ) (job : Job p α) (s : σ) : Except Fault α × σ :=
  Plan.run servers (ExceptT.run job) s

def within (part : Protocol.Part p q) (job : Job p α) : Job q α :=
  ExceptT.mk (Plan.within part (ExceptT.run job))

end Job

end SheetIntake
