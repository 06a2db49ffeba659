import Eos.Lib.Refine
import Mathlib.Algebra.BigOperators.Group.Finset.Piecewise
import Mathlib.Algebra.Order.BigOperators.Group.Finset

/-!
# Tasks that share one processor

A `Processor` runs one task at a time; the others keep their local states.  The current
task executes one step of its program, an interrupt changes the shared state, or the
processor switches to another task where the program allows it.  Which step a task takes
and when the processor switches is open, so that a property of all runs holds for every
scheduler, every priority and every order of wake-ups.

The quantities such runs preserve are often sums over the tasks; `sum_update` says how
they change when one local state does.
-/

set_option autoImplicit false

namespace Eos.Lib

/-- The shared state, the local state of every task and the current task. -/
structure Processor (S L T : Type) where
  shared : S
  task : T → L
  current : T

/-- The program of the tasks: the step of an operation, where tasks may be switched, and the
effect of an interrupt. -/
structure Program (S L T O : Type) where
  exec : T → O → S → L → Option (S × L)
  preemptible : S → Bool
  interrupt : S → S

/-- What happens next on a processor. -/
inductive Move (T O : Type)
  | run (o : O)
  | switch (t : T)
  | interrupt

variable {S L T O : Type} [DecidableEq T]

namespace Program

/-- The effect of a move. -/
def move (P : Program S L T O) (p : Processor S L T) : Move T O → Option (Processor S L T)
  | .run o => do
    let (s, l) ← P.exec p.current o p.shared (p.task p.current)
    return ⟨s, Function.update p.task p.current l, p.current⟩
  | .switch t => if P.preemptible p.shared then some { p with current := t } else none
  | .interrupt => some { p with shared := P.interrupt p.shared }

/-- Any move of a processor is possible at any time. -/
def Runs (P : Program S L T O) : Processor S L T → Processor S L T → Prop :=
  Reach P.move fun _ _ => True

/-- **The invariant rule**: an invariant is kept by the steps of the current task, by the
switches that may happen and by interrupts. -/
theorem Runs.invariant {P : Program S L T O} {I : Processor S L T → Prop}
    (hrun : ∀ p o s l, I p → P.exec p.current o p.shared (p.task p.current) = some (s, l) →
      I ⟨s, Function.update p.task p.current l, p.current⟩)
    (hswitch : ∀ p t, I p → P.preemptible p.shared = true → I { p with current := t })
    (hint : ∀ p, I p → I { p with shared := P.interrupt p.shared })
    {p q : Processor S L T} (hp : I p) (h : P.Runs p q) : I q := by
  refine Reach.invariant hp (fun u v o hu _ hv => ?_) h
  cases o with
  | run o =>
    obtain ⟨⟨s, l⟩, hs, hv⟩ := Option.bind_eq_some_iff.mp hv
    obtain rfl := Option.some.inj hv
    exact hrun u o s l hu hs
  | switch t =>
    simp only [move, Option.ite_none_right_eq_some, Option.some.injEq] at hv
    exact hv.2 ▸ hswitch u t hu hv.1
  | interrupt =>
    obtain rfl := Option.some.inj hv
    exact hint u hu

end Program

/-- A sum over the tasks after one local state has changed. -/
theorem sum_update [Fintype T] (g : T → L) (t : T) (l : L) (f : L → ℕ) :
    ∑ u, f (Function.update g t l u) + f (g t) = ∑ u, f (g u) + f l := by
  have h : ∀ u, f (Function.update g t l u) = Function.update (fun u => f (g u)) t (f l) u :=
    fun u => (Function.apply_update (fun _ => f) g t l u)
  simp only [h]
  rw [Finset.sum_update_of_mem (Finset.mem_univ t),
    Finset.sum_eq_add_sum_sdiff_singleton_of_mem (Finset.mem_univ t) fun u => f (g u)]
  omega

omit [DecidableEq T] in
/-- A term of such a sum is at most the sum. -/
theorem le_sum [Fintype T] (g : T → L) (f : L → ℕ) (t : T) : f (g t) ≤ ∑ u, f (g u) :=
  Finset.single_le_sum (f := fun u => f (g u)) (fun _ _ => Nat.zero_le _) (Finset.mem_univ t)

end Eos.Lib
