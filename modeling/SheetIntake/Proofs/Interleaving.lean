import Mathlib.Data.List.Basic
import SheetIntake.Plan

/-!
# Two plans at once

Two plans that are carried out together ask in any order. `Interleaving` is the relation between
where they start and what comes of it, with a log that tells which request came from which side.

Many plans look first and then make one change. Of two such plans, what comes of them depends on one
thing only, whether the side that makes the first change does so after the other one has looked:

* `Interleaving.cases_of_looks` — where one side overtakes the other, both changes are made as they
  were planned at the start; otherwise one plan might as well have run after the other.
-/

namespace SheetIntake

/-- One of two plans that are carried out together. -/
inductive Side where
  | left
  | right
  deriving DecidableEq, Repr

namespace Side

def other : Side → Side
  | left => right
  | right => left

def pick {α : Type} : Side → α → α → α
  | left, a, _ => a
  | right, _, b => b

theorem other_other (side : Side) : side.other.other = side := by
  cases side <;> rfl

theorem other_ne (side : Side) : side.other ≠ side := by
  cases side <;> decide

end Side

namespace Plan

variable {p : Protocol} {α β σ : Type}

/-- Two plans are carried out together, until both are done. -/
inductive Interleaving (servers : Servers p σ) :
    Plan p α → Plan p β → σ → List (Side × p.Request) → α × β × σ → Prop
  | done (a : α) (b : β) (s : σ) : Interleaving servers (.done a) (.done b) s [] (a, b, s)
  | left {request next second s log result}
      (rest : Interleaving servers (next (servers request s).1) second (servers request s).2 log
        result) :
      Interleaving servers (.ask request next) second s ((.left, request) :: log) result
  | right {first request next s log result}
      (rest : Interleaving servers first (next (servers request s).1) (servers request s).2 log
        result) :
      Interleaving servers first (.ask request next) s ((.right, request) :: log) result

/-- Carries out two plans together in the order that a schedule gives, which has to be a whole one. -/
def interleave (servers : Servers p σ) : List Side → Plan p α → Plan p β → σ →
    Option (List (Side × p.Request) × α × β × σ)
  | [], .done a, .done b, s => some ([], a, b, s)
  | .left :: schedule, .ask request next, second, s =>
    (interleave servers schedule (next (servers request s).1) second (servers request s).2).map
      (fun r => ((.left, request) :: r.1, r.2))
  | .right :: schedule, first, .ask request next, s =>
    (interleave servers schedule first (next (servers request s).1) (servers request s).2).map
      (fun r => ((.right, request) :: r.1, r.2))
  | _, _, _, _ => none

theorem interleaving_of_interleave {servers : Servers p σ} {schedule : List Side}
    {first : Plan p α} {second : Plan p β} {s : σ} {r : List (Side × p.Request) × α × β × σ}
    (h : interleave servers schedule first second s = some r) :
    Interleaving servers first second s r.1 r.2 := by
  fun_induction interleave servers schedule first second s generalizing r with
  | case1 a b s =>
    cases h
    exact .done a b s
  | case2 schedule request next second s ih =>
    obtain ⟨r', hr', rfl⟩ := Option.map_eq_some_iff.mp h
    exact .left (ih hr')
  | case3 schedule first request next s ih =>
    obtain ⟨r', hr', rfl⟩ := Option.map_eq_some_iff.mp h
    exact .right (ih hr')
  | case4 => cases h

theorem exists_interleaving (servers : Servers p σ) (first : Plan p α) (second : Plan p β) (s : σ) :
    ∃ log result, Interleaving servers first second s log result := by
  induction first generalizing s with
  | done a =>
    induction second generalizing s with
    | done b => exact ⟨_, _, .done a b s⟩
    | ask request next ih =>
      obtain ⟨log, result, rest⟩ := ih _ (servers request s).2
      exact ⟨_, result, .right rest⟩
  | ask request next ih =>
    obtain ⟨log, result, rest⟩ := ih _ (servers request s).2
    exact ⟨_, result, .left rest⟩

def acrossLog {ρ : Type} (log : List (Side × ρ)) : List (Side × ρ) :=
  log.map (fun e => (e.1.other, e.2))

namespace Interleaving

variable {servers : Servers p σ} {s : σ} {log : List (Side × p.Request)} {result : α × β × σ}

theorem across {first : Plan p α} {second : Plan p β}
    (h : Interleaving servers first second s log result) :
    Interleaving servers second first s (acrossLog log) (result.2.1, result.1, result.2.2) := by
  induction h with
  | done a b s => exact .done b a s
  | left rest ih => exact .right ih
  | right rest ih => exact .left ih

/-- When one side is done, the other runs as if it were alone. -/
theorem of_done_left {a : α} {second : Plan p β}
    (h : Interleaving servers (.done a) second s log result) :
    result = (a, run servers second s) := by
  induction second generalizing s log with
  | done b => cases h; rfl
  | ask request next ih =>
    cases h with
    | right rest => exact ih _ rest

theorem of_done_right {first : Plan p α} {b : β}
    (h : Interleaving servers first (.done b) s log result) :
    result.2.2 = (run servers first s).2 := by
  have hacross := h.across.of_done_left
  exact congrArg (·.2.2) hacross

end Interleaving

/-! ## Who makes the first change -/

section

variable {ρ : Type} (changes : ρ → Bool)

/-- The side that makes the first change of a log. -/
def firstChange? (log : List (Side × ρ)) : Option Side :=
  (log.find? (fun e => changes e.2)).map Prod.fst

/-- A side makes the first change of a log after the other one has begun. -/
def Overtakes (side : Side) (log : List (Side × ρ)) : Prop :=
  ∃ before request after, log = before ++ (side, request) :: after ∧ changes request = true
    ∧ (∀ e ∈ before, changes e.2 = false) ∧ ∃ e ∈ before, e.1 = side.other

variable {changes} {side : Side} {request : ρ} {log : List (Side × ρ)}

theorem firstChange?_cons_look (hlook : changes request = false) :
    firstChange? changes ((side, request) :: log) = firstChange? changes log := by
  unfold firstChange?
  rw [List.find?_cons_of_neg (by simp [hlook])]

theorem firstChange?_cons_change (hchange : changes request) :
    firstChange? changes ((side, request) :: log) = some side := by
  simp [firstChange?, hchange]

theorem firstChange?_eq_some : firstChange? changes log = some side ↔ ∃ before request after,
      log = before ++ (side, request) :: after ∧ changes request
        ∧ ∀ e ∈ before, changes e.2 = false := by
  unfold firstChange?
  rw [Option.map_eq_some_iff]
  constructor
  · rintro ⟨⟨found, request⟩, hfind, rfl⟩
    obtain ⟨hchange, before, after, hlog, hbefore⟩ := List.find?_eq_some_iff_append.mp hfind
    exact ⟨before, request, after, hlog, hchange, fun e he => by simpa using hbefore e he⟩
  · rintro ⟨before, request, after, hlog, hchange, hbefore⟩
    refine ⟨(side, request), List.find?_eq_some_iff_append.mpr
      ⟨hchange, before, after, hlog, fun e he => ?_⟩, rfl⟩
    simp [hbefore e he]

theorem overtakes_cons_look_other (hlook : changes request = false) :
    Overtakes changes side ((side.other, request) :: log) ↔ firstChange? changes log = some side := by
  rw [firstChange?_eq_some]
  constructor
  · rintro ⟨before, change, after, hlog, hchange, hbefore, -⟩
    cases before with
    | nil =>
      have hhead := (List.cons.inj hlog).1
      exact absurd (congrArg Prod.fst hhead) side.other_ne
    | cons e before =>
      exact ⟨before, change, after, (List.cons.inj hlog).2, hchange,
        fun e he => hbefore e (.tail _ he)⟩
  · rintro ⟨before, change, after, hlog, hchange, hbefore⟩
    refine ⟨(side.other, request) :: before, change, after, by rw [hlog, List.cons_append], hchange,
      ?_, (side.other, request), .head _, rfl⟩
    exact List.forall_mem_cons.mpr ⟨hlook, hbefore⟩

theorem overtakes_cons_look_self (hlook : changes request = false) :
    Overtakes changes side ((side, request) :: log) ↔ Overtakes changes side log := by
  constructor
  · rintro ⟨before, change, after, hlog, hchange, hbefore, e, he, hside⟩
    cases before with
    | nil => cases he
    | cons first before =>
      obtain ⟨rfl, htail⟩ := List.cons.inj hlog
      refine ⟨before, change, after, htail, hchange,
        fun e he => hbefore e (.tail _ he), e, ?_, hside⟩
      rcases List.mem_cons.mp he with rfl | he
      · exact absurd hside.symm side.other_ne
      · exact he
  · rintro ⟨before, change, after, hlog, hchange, hbefore, e, he, hside⟩
    exact ⟨(side, request) :: before, change, after, by rw [hlog, List.cons_append], hchange,
      List.forall_mem_cons.mpr ⟨hlook, hbefore⟩, e, .tail _ he, hside⟩

theorem not_overtakes_cons_change {made : Side} (hchange : changes request) :
    ¬ Overtakes changes side ((made, request) :: log) := by
  rintro ⟨before, change, after, hlog, -, hbefore, e, he, -⟩
  cases before with
  | nil => cases he
  | cons first before =>
    obtain ⟨rfl, -⟩ := List.cons.inj hlog
    have hlook := hbefore _ (.head _)
    exact Bool.false_ne_true (hlook.symm.trans hchange)

theorem acrossLog_acrossLog (log : List (Side × ρ)) : acrossLog (acrossLog log) = log := by
  unfold acrossLog
  rw [List.map_map]
  exact List.map_id'' (fun e => by simp [Side.other_other]) log

theorem Overtakes.across (h : Overtakes changes side log) :
    Overtakes changes side.other (acrossLog log) := by
  obtain ⟨before, request, after, hlog, hchange, hbefore, e, he, hside⟩ := h
  refine ⟨acrossLog before, request, acrossLog after, ?_, hchange, ?_, (e.1.other, e.2),
    List.mem_map_of_mem he, ?_⟩
  · rw [hlog]
    exact List.map_append
  · exact List.forall_mem_map.mpr hbefore
  · rw [hside]

theorem overtakes_acrossLog :
    Overtakes changes side (acrossLog log) ↔ Overtakes changes side.other log := by
  constructor
  · intro h
    have hback := h.across
    rwa [acrossLog_acrossLog] at hback
  · intro h
    have hback := h.across
    rwa [Side.other_other] at hback

end

/-! ## Plans that look and then make one change -/

/-- The state after a change, if there is one to make. -/
def settle (servers : Servers p σ) : Option p.Request → σ → σ
  | none, s => s
  | some request, s => (servers request s).2

/-- A plan that only looks until it makes one given change, or none, and is done with it. What it
sees in between may come from any state of a kind. -/
inductive Commits (servers : Servers p σ) (changes : p.Request → Bool) (inv : σ → Prop) :
    Plan p α → Option p.Request → Prop
  | done (a : α) : Commits servers changes inv (.done a) none
  | look {request next change} (hlook : changes request = false)
      (hnext : ∀ s, inv s → Commits servers changes inv (next (servers request s).1) change) :
      Commits servers changes inv (.ask request next) change
  | change {request next} (hchange : changes request = true)
      (hnext : ∀ answer, ∃ a, next answer = .done a) :
      Commits servers changes inv (.ask request next) (some request)

/-- Servers that stay in the same state where they are only looked at, and in states of a kind. -/
structure Steady (servers : Servers p σ) (changes : p.Request → Bool) (inv : σ → Prop) :
    Prop where
  look : ∀ request s, changes request = false → (servers request s).2 = s
  keep : ∀ request s, inv s → inv (servers request s).2

variable {servers : Servers p σ} {changes : p.Request → Bool} {inv : σ → Prop}

theorem Commits.run {plan : Plan p α} {change : Option p.Request} {s : σ}
    (h : Commits servers changes inv plan change) (hsteady : Steady servers changes inv)
    (hs : inv s) : (Plan.run servers plan s).2 = settle servers change s := by
  induction h with
  | done a => rfl
  | @look request next change hlook hnext ih =>
    rw [run_ask, hsteady.look request s hlook]
    exact ih s hs
  | @change request next hchange hnext =>
    obtain ⟨a, ha⟩ := hnext (servers request s).1
    rw [run_ask, ha]
    rfl

namespace Interleaving

variable {first : Plan p α} {second : Plan p β} {u v : Option p.Request} {s : σ}
  {log : List (Side × p.Request)} {result : α × β × σ}

/-- Of two plans that have both looked, the one that changes first is the first to have run. -/
theorem of_commits (h : Interleaving servers first second s log result)
    (hfirst : Commits servers changes inv first u) (hsecond : Commits servers changes inv second v)
    (hsteady : Steady servers changes inv) (hs : inv s) :
    (firstChange? changes log = some .left → result.2.2 = settle servers v (settle servers u s))
      ∧ (firstChange? changes log = some .right →
          result.2.2 = settle servers u (settle servers v s))
      ∧ (firstChange? changes log = none → u = none ∧ v = none ∧ result.2.2 = s) := by
  induction h with
  | done a b s =>
    cases hfirst
    cases hsecond
    exact ⟨fun h => absurd h (by simp [firstChange?]), fun h => absurd h (by simp [firstChange?]),
      fun _ => ⟨rfl, rfl, rfl⟩⟩
  | @left request next second s log result rest ih =>
    cases hfirst with
    | look hlook hnext =>
      rw [hsteady.look request s hlook] at ih
      rw [firstChange?_cons_look hlook]
      exact ih (hnext s hs) hsecond hs
    | change hchange hnext =>
      obtain ⟨a, ha⟩ := hnext (servers request s).1
      rw [ha] at rest
      have hrun : result.2.2 = settle servers v (servers request s).2 := by
        rw [rest.of_done_left]
        exact hsecond.run hsteady (hsteady.keep request s hs)
      rw [firstChange?_cons_change hchange]
      exact ⟨fun _ => hrun, fun h => absurd h (by decide), fun h => absurd h (by decide)⟩
  | @right first request next s log result rest ih =>
    cases hsecond with
    | look hlook hnext =>
      rw [hsteady.look request s hlook] at ih
      rw [firstChange?_cons_look hlook]
      exact ih hfirst (hnext s hs) hs
    | change hchange hnext =>
      obtain ⟨b, hb⟩ := hnext (servers request s).1
      rw [hb] at rest
      have hrun : result.2.2 = settle servers u (servers request s).2 := by
        rw [rest.of_done_right]
        exact hfirst.run hsteady (hsteady.keep request s hs)
      rw [firstChange?_cons_change hchange]
      exact ⟨fun h => absurd h (by decide), fun _ => hrun, fun h => absurd h (by decide)⟩

/-- The changes of both plans are made, in the order that two conditions tell. If neither holds, a
state is given. -/
def Settles (servers : Servers p σ) (u v : Option p.Request) (s : σ) (left right : Prop)
    (otherwise t : σ) : Prop :=
  (left → t = settle servers v (settle servers u s))
    ∧ (right → t = settle servers u (settle servers v s)) ∧ (¬ left → ¬ right → t = otherwise)

section

variable {request : p.Request} {next : Except Fault (p.Answer request) → Plan p β}
  (hlook : changes request = false)
  (hsecond : Commits servers changes inv (next (servers request s).1) v)
  (hsteady : Steady servers changes inv) (hs : inv s)

include hlook hsecond hsteady hs

theorem run_of_look : (run servers (.ask request next) s).2 = settle servers v s := by
  rw [run_ask, hsteady.look request s hlook]
  exact hsecond.run hsteady hs

/-- When the second plan looks before anything was changed, both have looked at the same state. -/
theorem of_look_right (h : Interleaving servers first (next (servers request s).1) s log result)
    (hfirst : Commits servers changes inv first u) :
    Settles servers u v s (Overtakes changes .left ((.right, request) :: log))
      (firstChange? changes ((.right, request) :: log) = some .right)
      (run servers (.ask request next) (settle servers u s)).2 result.2.2 := by
  obtain ⟨hleft, hright, hnone⟩ := h.of_commits hfirst hsecond hsteady hs
  rw [show Side.right = Side.left.other from rfl, overtakes_cons_look_other hlook,
    firstChange?_cons_look hlook]
  refine ⟨hleft, hright, fun hnotLeft hnotRight => ?_⟩
  cases hchange : firstChange? changes log with
  | none =>
    obtain ⟨rfl, rfl, hresult⟩ := hnone hchange
    rw [hresult]
    exact (run_of_look hlook hsecond hsteady hs).symm
  | some side =>
    cases side with
    | left => exact absurd hchange hnotLeft
    | right => exact absurd hchange hnotRight

/-- One plan has looked, and the other one is about to begin. -/
theorem of_commits_left (h : Interleaving servers first (.ask request next) s log result)
    (hfirst : Commits servers changes inv first u) :
    Settles servers u v s (Overtakes changes .left log) (firstChange? changes log = some .right)
      (run servers (.ask request next) (settle servers u s)).2 result.2.2 := by
  induction hfirst generalizing log with
  | done a =>
    have hrun := congrArg (·.2.2) h.of_done_left
    have hsettle := hrun.trans (run_of_look hlook hsecond hsteady hs)
    exact ⟨fun _ => hsettle, fun _ => hsettle, fun _ _ => hrun⟩
  | @look seen after change hseen hafter ih =>
    cases h with
    | left rest =>
      rw [hsteady.look seen s hseen] at rest
      rw [overtakes_cons_look_self hseen, firstChange?_cons_look hseen]
      exact ih s hs rest
    | right rest =>
      rw [hsteady.look request s hlook] at rest
      exact of_look_right hlook hsecond hsteady hs rest (.look hseen hafter)
  | @change made after hmade hafter =>
    cases h with
    | left rest =>
      obtain ⟨a, ha⟩ := hafter (servers made s).1
      rw [ha] at rest
      have hrun := congrArg (·.2.2) rest.of_done_left
      refine ⟨fun h => absurd h (not_overtakes_cons_change hmade), fun h => ?_, fun _ _ => hrun⟩
      rw [firstChange?_cons_change hmade] at h
      cases h
    | right rest =>
      rw [hsteady.look request s hlook] at rest
      exact of_look_right hlook hsecond hsteady hs rest (.change hmade hafter)

end

/-! ## Two plans that both look first -/

variable {request : p.Request} {next : Except Fault (p.Answer request) → Plan p α}
  {request' : p.Request} {next' : Except Fault (p.Answer request') → Plan p β}
  (hlook : changes request = false) (hlook' : changes request' = false)
  (hfirst : Commits servers changes inv (next (servers request s).1) u)
  (hsecond : Commits servers changes inv (next' (servers request' s).1) v)
  (hsteady : Steady servers changes inv) (hs : inv s)

include hlook hlook' hfirst hsecond hsteady hs

/-- Two plans from their start, where the first one is the first to look. -/
theorem of_look_left
    (h : Interleaving servers (next (servers request s).1) (.ask request' next') s log result) :
    Settles servers u v s (Overtakes changes .left ((.left, request) :: log))
      (Overtakes changes .right ((.left, request) :: log))
      (run servers (.ask request' next') (run servers (.ask request next) s).2).2 result.2.2 := by
  have hrun : (run servers (.ask request next) s).2 = settle servers u s :=
    run_of_look hlook hfirst hsteady hs
  have hright : Overtakes changes .right ((.left, request) :: log) ↔
      firstChange? changes log = some .right := overtakes_cons_look_other hlook
  rw [overtakes_cons_look_self hlook, hright, hrun]
  exact h.of_commits_left hlook' hsecond hsteady hs hfirst

theorem cases_of_looks
    (h : Interleaving servers (.ask request next) (.ask request' next') s log result) :
    (Overtakes changes .left log → result.2.2 = settle servers v (settle servers u s))
      ∧ (Overtakes changes .right log → result.2.2 = settle servers u (settle servers v s))
      ∧ (¬ Overtakes changes .left log → ¬ Overtakes changes .right log → result.2.2 =
              (run servers (.ask request' next') (run servers (.ask request next) s).2).2
            ∨ result.2.2 =
              (run servers (.ask request next) (run servers (.ask request' next') s).2).2) := by
  cases h with
  | left rest =>
    rw [hsteady.look request s hlook] at rest
    obtain ⟨hleft, hright, hserial⟩ :=
      of_look_left hlook hlook' hfirst hsecond hsteady hs rest
    exact ⟨hleft, hright, fun h h' => .inl (hserial h h')⟩
  | @right _ _ _ _ log _ rest =>
    rw [hsteady.look request' s hlook'] at rest
    have hacross := of_look_left hlook' hlook hsecond hfirst hsteady hs rest.across
    rw [show (Side.left, request') :: acrossLog log = acrossLog ((.right, request') :: log) from rfl,
      overtakes_acrossLog, overtakes_acrossLog] at hacross
    obtain ⟨hright, hleft, hserial⟩ := hacross
    exact ⟨hleft, hright, fun h h' => .inr (hserial h' h)⟩

end Interleaving

end Plan

end SheetIntake
