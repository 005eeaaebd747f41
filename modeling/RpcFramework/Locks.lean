-- Programs of one thread with mutexes that are not recursive. A program returns,
-- throws, or tries to lock a mutex that its own thread holds; then it never goes
-- on. A guard frees its mutex when its block is left, also by an exception.
import Mathlib.Logic.Function.Basic

namespace locks

/-- What a thread works on: the mutexes it holds, and the data. -/
structure Locked (μ σ : Type*) where
  held : μ → Bool
  data : σ

/-- How a program ends. -/
inductive Outcome (μ σ ε α : Type*)
  | returned (a : α) (s : Locked μ σ)
  | threw (e : ε) (s : Locked μ σ)
  | relocked (m : μ)

/-- A program of one thread. -/
def Prog (μ σ ε α : Type*) := Locked μ σ → Outcome μ σ ε α

variable {μ σ ε : Type*} {α β : Type}

namespace Prog

def pure (a : α) : Prog μ σ ε α := fun s => .returned a s

/-- Go on with `f` when `x` has returned. -/
def bind (x : Prog μ σ ε α) (f : α → Prog μ σ ε β) : Prog μ σ ε β := fun s =>
  match x s with
  | .returned a s' => f a s'
  | .threw e s' => .threw e s'
  | .relocked m => .relocked m

/-- A step on the data. -/
def act (f : σ → α × σ) : Prog μ σ ε α := fun s =>
  .returned (f s.data).1 { s with data := (f s.data).2 }

/-- The value, or the exception. -/
def ofExcept : Except ε α → Prog μ σ ε α
  | .ok a => fun s => .returned a s
  | .error e => fun s => .threw e s

variable [DecidableEq μ]

/-- The end of the block of a guard. -/
def release (m : μ) : Outcome μ σ ε α → Outcome μ σ ε α
  | .returned a s => .returned a { s with held := Function.update s.held m false }
  | .threw e s => .threw e { s with held := Function.update s.held m false }
  | .relocked m' => .relocked m'

/-- A block behind a `std::lock_guard`. -/
def lockGuard (m : μ) (body : Prog μ σ ε α) : Prog μ σ ε α := fun s =>
  if s.held m then .relocked m
  else release m (body { s with held := Function.update s.held m true })

end Prog

instance : Monad (Prog μ σ ε) where
  pure := Prog.pure
  bind := Prog.bind

namespace Prog

theorem bind_run (x : Prog μ σ ε α) (f : α → Prog μ σ ε β) (s : Locked μ σ) :
    (x >>= f) s = match x s with
      | .returned a s' => f a s'
      | .threw e s' => .threw e s'
      | .relocked m => .relocked m := rfl

theorem bind_returned {x : Prog μ σ ε α} {s s' : Locked μ σ} {a : α} (h : x s = .returned a s')
    (f : α → Prog μ σ ε β) : (x >>= f) s = f a s' := by
  rw [bind_run, h]

theorem bind_threw {x : Prog μ σ ε α} {s s' : Locked μ σ} {e : ε} (h : x s = .threw e s')
    (f : α → Prog μ σ ε β) : (x >>= f) s = .threw e s' := by
  rw [bind_run, h]

theorem bind_relocked {x : Prog μ σ ε α} {s : Locked μ σ} {m : μ} (h : x s = .relocked m)
    (f : α → Prog μ σ ε β) : (x >>= f) s = .relocked m := by
  rw [bind_run, h]

/-- Programs that only compute a value or an exception compose as these do. -/
theorem bind_ofExcept {x : Prog μ σ ε α} {f : α → Prog μ σ ε β} {r : Except ε α}
    {g : α → Except ε β} {s : Locked μ σ} (hx : x s = ofExcept r s)
    (hf : ∀ a, f a s = ofExcept (g a) s) : (x >>= f) s = ofExcept (r >>= g) s := by
  rw [bind_run, hx]
  cases r with
  | error e => rfl
  | ok a => exact hf a

variable [DecidableEq μ] {s : Locked μ σ} {m : μ}

theorem lockGuard_held (h : s.held m = true) (body : Prog μ σ ε α) :
    lockGuard m body s = .relocked m := by
  unfold lockGuard
  rw [if_pos h]

theorem lockGuard_free (h : s.held m = false) (body : Prog μ σ ε α) :
    lockGuard m body s = release m (body { s with held := Function.update s.held m true }) := by
  unfold lockGuard
  rw [if_neg (by simp [h])]

/-- A step on the data under a mutex that is free leaves the mutexes as they were. -/
theorem lockGuard_act (h : s.held m = false) (f : σ → α × σ) :
    lockGuard m (act f : Prog μ σ ε α) s =
      .returned (f s.data).1 { s with data := (f s.data).2 } := by
  rw [lockGuard_free h]
  simp only [act, release, Function.update_idem, ← h, Function.update_eq_self]

end Prog

/-! ## One mutex and many threads -/

/-- The owner of a mutex is the one thread that is where it holds the mutex. -/
def Guarded {τ : Type*} (mu : Option τ) (holds : τ → Bool) : Prop :=
  ∀ t, mu = some t ↔ holds t = true

namespace Guarded

variable {τ : Type*} {mu : Option τ} {holds : τ → Bool} {t : τ}

/-- Two threads are not both where they hold the mutex. -/
theorem alone (h : Guarded mu holds) {u : τ} (ht : holds t = true) (hu : holds u = true) :
    t = u := by
  have htu := ((h t).mpr ht).symm.trans ((h u).mpr hu)
  exact Option.some.inj htu

variable [DecidableEq τ]

theorem lock (h : Guarded none holds) : Guarded (some t) (Function.update holds t true) := by
  intro u
  by_cases hu : u = t
  · subst hu
    simp
  · have hfree := h u
    rw [Function.update_of_ne hu, ← hfree]
    simp [Ne.symm hu]

theorem unlock (h : Guarded mu holds) (ht : holds t = true) :
    Guarded none (Function.update holds t false) := by
  intro u
  by_cases hu : u = t
  · subst hu
    simp
  · rw [Function.update_of_ne hu]
    refine ⟨fun hnone => absurd hnone (by simp), ?_⟩
    intro hh
    exact absurd (h.alone hh ht) hu

/-- A thread moves, and keeps the mutex if it had it. -/
theorem keep (h : Guarded mu holds) {b : Bool} (hb : holds t = b) :
    Guarded mu (Function.update holds t b) := by
  rw [← hb, Function.update_eq_self]
  exact h

end Guarded

end locks
