import Mathlib.Data.List.Basic
import Mathlib.Tactic.Common

/-!
# Runs of guarded steps

A step that is not possible in a state has no result, and a run, `actions.foldlM step s`, has one
only when each of its steps does.  What holds at the start and is kept by each step holds at the
end; a property may speak of the actions so far, the latest one first.

* `run_induction`, `run_invariant` - the induction over a run;
* `run_concat`, `run_split` - a run up to one of its steps.
-/

namespace GuardedRun

variable {S A : Type*} {step : S → A → Option S} {s s' : S}

theorem run_cons {a : A} {actions : List A} :
    (a :: actions).foldlM step s = some s'
      ↔ ∃ s₁, step s a = some s₁ ∧ actions.foldlM step s₁ = some s' := by
  rw [List.foldlM_cons]
  exact Option.bind_eq_some_iff

/-- **Induction over a run**, for a property of the actions so far and the state. -/
theorem run_induction {P : List A → S → Prop}
    (hstep : ∀ earlier s a s', P earlier s → step s a = some s' → P (a :: earlier) s')
    (earlier actions : List A) (h : P earlier s)
    (hrun : actions.foldlM step s = some s') : P (actions.reverse ++ earlier) s' := by
  induction actions generalizing s earlier with
  | nil => exact Option.some.inj hrun ▸ h
  | cons a actions ih =>
    obtain ⟨s₁, hfirst, hrest⟩ := run_cons.mp hrun
    rw [List.reverse_cons, List.append_assoc]
    exact ih (a :: earlier) (hstep earlier s a s₁ h hfirst) hrest

/-- What every step keeps, a run keeps. -/
theorem run_invariant {P : S → Prop} (hstep : ∀ s a s', P s → step s a = some s' → P s')
    (actions : List A) (h : P s) (hrun : actions.foldlM step s = some s') : P s' :=
  run_induction (P := fun _ => P) (fun _ => hstep) [] actions h hrun

theorem run_append {first second : List A} :
    (first ++ second).foldlM step s = some s'
      ↔ ∃ s₁, first.foldlM step s = some s₁ ∧ second.foldlM step s₁ = some s' := by
  rw [List.foldlM_append]
  exact Option.bind_eq_some_iff

/-- A run and one more step. -/
theorem run_concat {actions : List A} {a : A} :
    (actions ++ [a]).foldlM step s = some s'
      ↔ ∃ s₁, actions.foldlM step s = some s₁ ∧ step s₁ a = some s' := by
  rw [run_append]
  refine exists_congr fun s₁ => and_congr_right fun _ => ?_
  rw [run_cons]
  constructor
  · rintro ⟨s₂, hstep, hnil⟩
    exact Option.some.inj hnil ▸ hstep
  · exact fun hstep => ⟨s', hstep, rfl⟩

/-- The step at one place of a run. -/
theorem run_split {earlier later : List A} {a : A}
    (hrun : (earlier ++ a :: later).foldlM step s = some s') :
    ∃ s₁ s₂, earlier.foldlM step s = some s₁ ∧ step s₁ a = some s₂ := by
  obtain ⟨s₁, hearlier, hrest⟩ := run_append.mp hrun
  obtain ⟨s₂, hstep, -⟩ := run_cons.mp hrest
  exact ⟨s₁, s₂, hearlier, hstep⟩

end GuardedRun
