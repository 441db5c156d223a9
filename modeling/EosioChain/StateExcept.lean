/-
This file gives the rules for invariants of programs in `EStateM`, the state monad with
exceptions whose error results keep the state at the throw. It models an object whose methods
change it in place: a method that throws part way leaves the object as it was at the throw, and
the object lives on.

An invariant is kept by a program when every run from a state that satisfies it ends, by a return
or by a throw, in a state that satisfies it; it is kept on return when only the runs that return
are asked to. Both are closed under binds and loops, so a method is proved from what each of its
steps keeps.
-/

import Mathlib

namespace StateExcept

universe u

variable {ε σ α β : Type u}

/-- The state a run leaves, whether it returned or threw. -/
def finalState : EStateM.Result ε σ α → σ
  | .ok _ s => s
  | .error _ s => s

@[simp] theorem finalState_ok (a : α) (s : σ) : finalState (.ok a s : EStateM.Result ε σ α) = s :=
  rfl

@[simp] theorem finalState_error (e : ε) (s : σ) :
    finalState (.error e s : EStateM.Result ε σ α) = s :=
  rfl

/-- A computation of `Except` run as a program: it returns or throws, and changes nothing. -/
theorem run_ofExcept (x : Except ε α) (s : σ) :
    (MonadExcept.ofExcept x : EStateM ε σ α).run s =
      match x with
      | .ok a => .ok a s
      | .error e => .error e s := by
  cases x <;> rfl

/-- A handler runs only when the computation it guards throws, from the state at the throw. -/
theorem run_tryCatch (x : EStateM ε σ α) (handle : ε → EStateM ε σ α) (s : σ) :
    (tryCatch x handle).run s =
      match x.run s with
      | .ok a s' => .ok a s'
      | .error e s' => (handle e).run s' := by
  change EStateM.tryCatch x handle s =
    match x s with
    | .ok a s' => .ok a s'
    | .error e s' => handle e s'
  unfold EStateM.tryCatch
  cases x s <;> rfl

/-- `prog` keeps `invariant` on every run, returning or throwing. -/
def Keeps (invariant : σ → Prop) (prog : EStateM ε σ α) : Prop :=
  ∀ s, invariant s → invariant (finalState (prog.run s))

/-- `prog` keeps `invariant` on every run that returns. -/
def KeepsOnReturn (invariant : σ → Prop) (prog : EStateM ε σ α) : Prop :=
  ∀ s, invariant s → ∀ a s', prog.run s = .ok a s' → invariant s'

variable {invariant : σ → Prop}

theorem Keeps.onReturn {prog : EStateM ε σ α} (keeps : Keeps invariant prog) :
    KeepsOnReturn invariant prog := by
  intro s holds a s' ran
  have kept := keeps s holds
  rw [ran, finalState_ok] at kept
  exact kept

theorem keeps_pure (a : α) : Keeps invariant (pure a : EStateM ε σ α) :=
  fun _ holds => holds

theorem keepsOnReturn_pure (a : α) : KeepsOnReturn invariant (pure a : EStateM ε σ α) :=
  (keeps_pure a).onReturn

theorem Keeps.bind {x : EStateM ε σ α} {f : α → EStateM ε σ β} (first : Keeps invariant x)
    (rest : ∀ a, Keeps invariant (f a)) : Keeps invariant (x >>= f) := by
  intro s holds
  have afterFirst := first s holds
  rw [EStateM.run_bind]
  cases ran : x.run s with
  | ok a s' =>
    rw [ran, finalState_ok] at afterFirst
    exact rest a s' afterFirst
  | error e s' =>
    rw [ran, finalState_error] at afterFirst
    exact afterFirst

theorem KeepsOnReturn.bind {x : EStateM ε σ α} {f : α → EStateM ε σ β}
    (first : KeepsOnReturn invariant x) (rest : ∀ a, KeepsOnReturn invariant (f a)) :
    KeepsOnReturn invariant (x >>= f) := by
  intro s holds b s'' ran
  rw [EStateM.run_bind] at ran
  cases firstRan : x.run s with
  | ok a s' =>
    rw [firstRan] at ran
    exact rest a s' (first s holds a s' firstRan) b s'' ran
  | error e s' =>
    rw [firstRan] at ran
    cases ran

/-- **A loop keeps what each of its iterations keeps.** -/
theorem keeps_forM {items : List β} {body : β → EStateM ε σ PUnit}
    (each : ∀ item ∈ items, Keeps invariant (body item)) : Keeps invariant (items.forM body) := by
  induction items with
  | nil => exact keeps_pure _
  | cons item items inductionHypothesis =>
    rw [List.forM]
    exact (each item List.mem_cons_self).bind fun _ =>
      inductionHypothesis fun other member => each other (List.mem_cons_of_mem _ member)

theorem keepsOnReturn_forM {items : List β} {body : β → EStateM ε σ PUnit}
    (each : ∀ item ∈ items, KeepsOnReturn invariant (body item)) :
    KeepsOnReturn invariant (items.forM body) := by
  induction items with
  | nil => exact keepsOnReturn_pure _
  | cons item items inductionHypothesis =>
    rw [List.forM]
    exact (each item List.mem_cons_self).bind fun _ =>
      inductionHypothesis fun other member => each other (List.mem_cons_of_mem _ member)

/-- A loop whose iterations all return, returns. -/
theorem forM_returns {items : List β} {body : β → EStateM ε σ PUnit}
    (each : ∀ item ∈ items, ∀ s, ∃ s', (body item).run s = .ok ⟨⟩ s') :
    ∀ s, ∃ s', (items.forM body).run s = .ok ⟨⟩ s' := by
  induction items with
  | nil => exact fun s => ⟨s, rfl⟩
  | cons item items inductionHypothesis =>
    intro s
    obtain ⟨s', ran⟩ := each item List.mem_cons_self s
    obtain ⟨s'', restRan⟩ :=
      inductionHypothesis (fun other member => each other (List.mem_cons_of_mem _ member)) s'
    refine ⟨s'', ?_⟩
    rw [List.forM, EStateM.run_bind, ran]
    exact restRan

end StateExcept
