-- Machines that come to rest. A run whose every step makes something smaller must
-- stop, and it stops only where no step that must be taken is left. So what holds
-- in every such state cannot be missed, whatever the order of the steps is.
import Mathlib.Algebra.BigOperators.Group.Finset.Basic
import Mathlib.Order.WellFounded
import RpcFramework.Runs

namespace runs

variable {σ α : Type*} {m : Machine σ α} {may must : σ → α → Prop} {P Q : σ → Prop} {s s' : σ}

/-- No action that must be taken can be taken. -/
def Machine.AtRest (m : Machine σ α) (must : σ → α → Prop) (s : σ) : Prop :=
  ∀ a, must s a → m.step s a = none

/-- Every run of actions that may be taken comes to a state in which `P` holds. It does not stop
before, since there is an action that must be taken. -/
inductive Machine.Inevitable (m : Machine σ α) (may must : σ → α → Prop) (P : σ → Prop) : σ → Prop
  | now {s : σ} : P s → m.Inevitable may must P s
  | later {s : σ} : ¬ m.AtRest must s →
      (∀ a s', may s a → m.step s a = some s' → m.Inevitable may must P s') →
      m.Inevitable may must P s

theorem Machine.Inevitable.mono (h : m.Inevitable may must P s) (hPQ : ∀ s, P s → Q s) :
    m.Inevitable may must Q s := by
  induction h with
  | now hp => exact .now (hPQ _ hp)
  | later hgo _ ih => exact .later hgo ih

/-- Steps that make the measure smaller come to rest, so what holds at rest is inevitable. The
states on the way keep the invariant `I`. -/
theorem Machine.inevitable_of_measure {β : Type*} {r : β → β → Prop} (hwf : WellFounded r)
    (measure : σ → β) {I : σ → Prop}
    (hkeep : ∀ s a s', I s → may s a → m.step s a = some s' → I s' ∧ r (measure s') (measure s))
    (hrest : ∀ s, I s → m.AtRest must s → P s) (hs : I s) : m.Inevitable may must P s := by
  induction hb : measure s using hwf.induction generalizing s with
  | h b ih =>
    subst hb
    by_cases h : m.AtRest must s
    · exact .now (hrest s hs h)
    · refine .later h ?_
      intro a s' ha hstep
      obtain ⟨hI, hlt⟩ := hkeep s a s' hs ha hstep
      exact ih _ hlt hI rfl

/-! ## Measures of many threads -/

/-- Where one thread moves, the sum over all threads changes by what its own part does. -/
theorem sum_update {τ β : Type*} [DecidableEq τ] (rank : β → Nat) (pcs : τ → β) {ts : Finset τ}
    {t : τ} (ht : t ∈ ts) (pc : β) :
    ∑ u ∈ ts, rank (Function.update pcs t pc u) + rank (pcs t) =
      ∑ u ∈ ts, rank (pcs u) + rank pc := by
  rw [← Finset.add_sum_erase ts _ ht, ← Finset.add_sum_erase ts (fun u => rank (pcs u)) ht,
    Function.update_self]
  have hrest : ∑ u ∈ ts.erase t, rank (Function.update pcs t pc u) =
      ∑ u ∈ ts.erase t, rank (pcs u) :=
    Finset.sum_congr rfl fun u hu => by rw [Function.update_of_ne (Finset.ne_of_mem_erase hu)]
  omega

end runs
