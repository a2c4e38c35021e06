import SheetIntake.Plan

/-!
# Runs of jobs

What a job comes to when it is carried out without interruption, step by step, and runs of several
jobs one after the other.

* `run_bind` — the second step starts where the first one ended, if that gave a result.
* `runEach_append` — a run of jobs can be cut anywhere.
-/

namespace SheetIntake.Job

variable {p : Protocol} {α β σ : Type} {servers : Servers p σ}

@[simp]
theorem run_pure (a : α) (s : σ) : run servers (pure a : Job p α) s = (.ok a, s) := rfl

@[simp]
theorem run_throw (fault : Fault) (s : σ) :
    run servers (throw fault : Job p α) s = (.error fault, s) := rfl

@[simp]
theorem run_ofExcept (result : Except Fault α) (s : σ) :
    run servers (ofExcept result : Job p α) s = (result, s) := rfl

@[simp]
theorem run_ask (request : p.Request) (s : σ) :
    run servers (ask request) s = servers request s := rfl

theorem run_bind (job : Job p α) (f : α → Job p β) (s : σ) : run servers (job >>= f) s =
      match run servers job s with
      | (.ok a, t) => run servers (f a) t
      | (.error fault, t) => (.error fault, t) := by
  unfold run
  show Plan.run servers (ExceptT.run job >>= ExceptT.bindCont f) s = _
  rw [Plan.run_bind]
  cases Plan.run servers (ExceptT.run job) s with
  | mk result t => cases result <;> rfl

variable {job : Job p α} {f : α → Job p β} {s t : σ}

theorem run_bind_ok {a : α} (h : run servers job s = (.ok a, t)) :
    run servers (job >>= f) s = run servers (f a) t := by
  rw [run_bind, h]

variable {u : σ}

theorem run_bind_eq_ok {b : β} : run servers (job >>= f) s = (.ok b, u) ↔
      ∃ a t, run servers job s = (.ok a, t) ∧ run servers (f a) t = (.ok b, u) := by
  rw [run_bind]
  rcases run servers job s with ⟨fault | a, t⟩
  · simp
  · constructor
    · exact fun h => ⟨a, t, rfl, h⟩
    · rintro ⟨_, _, heq, h⟩
      obtain ⟨hresult, rfl⟩ := Prod.mk.inj heq
      cases hresult
      exact h

theorem run_ofExcept_bind_eq_ok {result : Except Fault α} {b : β} :
    run servers (ofExcept result >>= f) s = (.ok b, u) ↔
      ∃ a, result = .ok a ∧ run servers (f a) s = (.ok b, u) := by
  rw [run_bind, run_ofExcept]
  cases result <;> simp

/-! ## How jobs end -/

/-- A job ends with a result and a state for which one thing holds, or with a fault and a state for
which another one does. -/
def Ends (servers : Servers p σ) (job : Job p α) (s : σ) (good : α → σ → Prop)
    (bad : Fault → σ → Prop) : Prop :=
  (∃ a t, run servers job s = (.ok a, t) ∧ good a t)
    ∨ ∃ fault t, run servers job s = (.error fault, t) ∧ bad fault t

section

variable {good : α → σ → Prop} {after : β → σ → Prop} {bad : Fault → σ → Prop}

theorem ends_congr {other : Job p α} {u : σ} (h : run servers job s = run servers other u) :
    Ends servers job s good bad ↔ Ends servers other u good bad := by
  unfold Ends
  rw [h]

theorem ends_of_run_ok {a : α} (h : run servers job s = (.ok a, t)) (hgood : good a t) :
    Ends servers job s good bad :=
  .inl ⟨a, t, h, hgood⟩

theorem ends_of_run_error {fault : Fault} (h : run servers job s = (.error fault, t))
    (hbad : bad fault t) : Ends servers job s good bad :=
  .inr ⟨fault, t, h, hbad⟩

theorem Ends.imp {good' : α → σ → Prop} {bad' : Fault → σ → Prop} (h : Ends servers job s good bad)
    (hgood : ∀ a t, good a t → good' a t) (hbad : ∀ fault t, bad fault t → bad' fault t) :
    Ends servers job s good' bad' := by
  rcases h with ⟨a, t, hrun, ha⟩ | ⟨fault, t, hrun, hfault⟩
  · exact ends_of_run_ok hrun (hgood a t ha)
  · exact ends_of_run_error hrun (hbad fault t hfault)

theorem ends_bind_of_run_error {fault : Fault} (h : run servers job s = (.error fault, t))
    (hbad : bad fault t) : Ends servers (job >>= f) s after bad := by
  refine ends_of_run_error ?_ hbad
  rw [run_bind, h]

theorem Ends.bind (hjob : Ends servers job s good bad)
    (hf : ∀ a t, good a t → Ends servers (f a) t after bad) :
    Ends servers (job >>= f) s after bad := by
  rcases hjob with ⟨a, t, hrun, hgood⟩ | ⟨fault, t, hrun, hbad⟩
  · exact (ends_congr (run_bind_ok hrun)).mpr (hf a t hgood)
  · exact ends_bind_of_run_error hrun hbad

theorem ends_bind_assoc {γ : Type} {g : β → Job p γ} {last : γ → σ → Prop} :
    Ends servers (job >>= f >>= g) s last bad ↔
      Ends servers (job >>= fun a => f a >>= g) s last bad := by
  refine ends_congr ?_
  rw [run_bind, run_bind, run_bind]
  rcases run servers job s with ⟨fault | a, t⟩
  · rfl
  · exact (run_bind (f a) g t).symm

theorem ends_bind_of_run_ok {a : α} (h : run servers job s = (.ok a, t))
    (hf : Ends servers (f a) t after bad) : Ends servers (job >>= f) s after bad :=
  (ends_congr (run_bind_ok h)).mpr hf

theorem ends_ofExcept_bind {result : Except Fault α}
    (hok : ∀ a, result = .ok a → Ends servers (f a) s after bad)
    (herror : ∀ fault, result = .error fault → bad fault s) :
    Ends servers (ofExcept result >>= f) s after bad := by
  cases result with
  | ok a => exact ends_bind_of_run_ok (run_ofExcept _ s) (hok a rfl)
  | error fault => exact ends_of_run_error rfl (herror fault rfl)

end

/-! ## Jobs that follow a computation -/

/-- A job comes to what a computation without requests comes to: where that gives a result, the job
gives one and something holds of both, and where it fails, the job fails with the same fault. -/
def Follows {ρ : Type} (servers : Servers p σ) (job : Job p α) (s : σ) (computed : Except Fault ρ)
    (good : ρ → α → σ → Prop) (bad : σ → Prop) : Prop :=
  Ends servers job s (fun a t => ∃ r, computed = .ok r ∧ good r a t)
    (fun fault t => computed = .error fault ∧ bad t)

section

variable {ρ τ : Type} {computed : Except Fault ρ} {good : ρ → α → σ → Prop} {bad : σ → Prop}
  {next : ρ → Except Fault τ} {after : τ → β → σ → Prop}

theorem follows_of_run_ok {r : ρ} {a : α} (h : run servers job s = (.ok a, t)) (hgood : good r a t) :
    Follows servers job s (.ok r) good bad :=
  ends_of_run_ok h ⟨r, rfl, hgood⟩

theorem follows_of_run_error {fault : Fault} (h : run servers job s = (.error fault, t))
    (hbad : bad t) : Follows servers job s (.error fault) good bad :=
  ends_of_run_error h ⟨rfl, hbad⟩

theorem Follows.map {g : ρ → τ} {good' : τ → α → σ → Prop} {bad' : σ → Prop}
    (h : Follows servers job s computed good bad) (hgood : ∀ r a t, good r a t → good' (g r) a t)
    (hbad : ∀ t, bad t → bad' t) : Follows servers job s (computed.map g) good' bad' := by
  rcases h with ⟨a, t, hrun, r, rfl, hr⟩ | ⟨fault, t, hrun, rfl, ht⟩
  · exact follows_of_run_ok hrun (hgood r a t hr)
  · exact follows_of_run_error hrun (hbad t ht)

theorem Follows.imp {good' : ρ → α → σ → Prop} {bad' : σ → Prop}
    (h : Follows servers job s computed good bad) (hgood : ∀ r a t, good r a t → good' r a t)
    (hbad : ∀ t, bad t → bad' t) : Follows servers job s computed good' bad' :=
  Ends.imp h (fun a t ⟨r, hr, ha⟩ => ⟨r, hr, hgood r a t ha⟩) fun _ t ⟨hfault, ht⟩ =>
    ⟨hfault, hbad t ht⟩

theorem Follows.bind (hjob : Follows servers job s computed good bad)
    (hf : ∀ r a t, good r a t → Follows servers (f a) t (next r) after bad) :
    Follows servers (job >>= f) s (computed >>= next) after bad := by
  rcases hjob with ⟨a, t, hrun, r, rfl, hgood⟩ | ⟨fault, t, hrun, rfl, hbad⟩
  · exact ends_bind_of_run_ok hrun (hf r a t hgood)
  · exact ends_bind_of_run_error hrun ⟨rfl, hbad⟩

theorem follows_ofExcept_bind {read : Except Fault α} {following : α → Except Fault τ}
    (hf : ∀ a, read = .ok a → Follows servers (f a) s (following a) after bad) (hbad : bad s) :
    Follows servers (ofExcept read >>= f) s (read >>= following) after bad := by
  cases read with
  | ok a => exact ends_bind_of_run_ok (run_ofExcept _ s) (hf a rfl)
  | error fault => exact ends_bind_of_run_error (run_ofExcept _ s) ⟨rfl, hbad⟩

theorem follows_bind_of_run_ok {a : α} {later : Except Fault τ} (h : run servers job s = (.ok a, t))
    (hf : Follows servers (f a) t later after bad) :
    Follows servers (job >>= f) s later after bad :=
  ends_bind_of_run_ok h hf

end

/-! ## Several jobs -/

/-- Carries out jobs one after the other, whether they fail or not. -/
def runEach (servers : Servers p σ) : List (Job p α) → σ → List (Except Fault α) × σ
  | [], s => ([], s)
  | job :: rest, s =>
    let (result, s) := run servers job s
    let (results, s) := runEach servers rest s
    (result :: results, s)

theorem runEach_cons {rest : List (Job p α)} {result : Except Fault α}
    {results : List (Except Fault α)} (hjob : run servers job s = (result, t))
    (hrest : runEach servers rest t = (results, u)) :
    runEach servers (job :: rest) s = (result :: results, u) := by
  unfold runEach
  rw [hjob]
  show (result :: (runEach servers rest t).1, (runEach servers rest t).2) = _
  rw [hrest]

theorem runEach_append {first second : List (Job p α)} {results more : List (Except Fault α)}
    (hfirst : runEach servers first s = (results, t))
    (hsecond : runEach servers second t = (more, u)) :
    runEach servers (first ++ second) s = (results ++ more, u) := by
  induction first generalizing s results with
  | nil =>
    cases hfirst
    exact hsecond
  | cons job rest ih =>
    cases hfirst
    exact runEach_cons rfl (ih rfl)

end SheetIntake.Job
