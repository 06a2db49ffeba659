import Mathlib.Order.Nat

/-!
# Infinite runs: progress under fairness

A run is a sequence of states, with the event that takes each state to the next one.
`LeadsTo run P Q` says that a state with `P` is followed by one with `Q`, sooner or later.  An
event that recurs and helps wherever `P` holds takes the run to `Q` (`LeadsTo.of_recurs`), and
progress that lowers a variant again and again comes to an end (`LeadsTo.of_variant`).
-/

set_option autoImplicit false

namespace Eos.Lib

variable {S E : Type}

/-- An event that satisfies `e` comes again and again. -/
def Recurs (event : Nat → E) (e : E → Prop) : Prop := ∀ i, ∃ j, i ≤ j ∧ e (event j)

/-- Wherever `P` holds, `Q` holds then or later. -/
def LeadsTo (run : Nat → S) (P Q : S → Prop) : Prop := ∀ i, P (run i) → ∃ j, i ≤ j ∧ Q (run j)

namespace LeadsTo

variable {run : Nat → S} {event : Nat → E} {P Q R : S → Prop}

/-- What implies the goal leads to it. -/
theorem of_imp (h : ∀ s, P s → Q s) : LeadsTo run P Q := fun i hi => ⟨i, le_rfl, h _ hi⟩

/-- Leading to something is transitive. -/
theorem trans (h : LeadsTo run P Q) (h' : LeadsTo run Q R) : LeadsTo run P R := by
  intro i hi
  obtain ⟨j, hij, hj⟩ := h i hi
  obtain ⟨k, hjk, hk⟩ := h' j hj
  exact ⟨k, hij.trans hjk, hk⟩

/-- Either case of a disjunction leads on. -/
theorem or {P' : S → Prop} (h : LeadsTo run P Q) (h' : LeadsTo run P' Q) :
    LeadsTo run (fun s => P s ∨ P' s) Q := by
  rintro i (hi | hi)
  · exact h i hi
  · exact h' i hi

/-- `P` holds until `Q` does. -/
theorem until_or (hkeep : ∀ i, P (run i) → P (run (i + 1)) ∨ Q (run (i + 1))) {i j : Nat}
    (hij : i ≤ j) (hi : P (run i)) : P (run j) ∨ ∃ k, i ≤ k ∧ Q (run k) := by
  induction j, hij using Nat.le_induction with
  | base => exact Or.inl hi
  | succ j hij ih =>
    obtain hP | hQ := ih
    · obtain hP' | hQ' := hkeep j hP
      · exact Or.inl hP'
      · exact Or.inr ⟨j + 1, Nat.le_succ_of_le hij, hQ'⟩
    · exact Or.inr hQ

/-- **The rule of the helpful event**: `P` holds until `Q` does, and an event that recurs takes `P`
to `Q`. -/
theorem of_recurs {e : E → Prop} (hrecurs : Recurs event e)
    (hkeep : ∀ i, P (run i) → P (run (i + 1)) ∨ Q (run (i + 1)))
    (hhelp : ∀ i, P (run i) → e (event i) → Q (run (i + 1))) : LeadsTo run P Q := by
  intro i hi
  obtain ⟨j, hij, hj⟩ := hrecurs i
  obtain hP | hQ := until_or hkeep hij hi
  · exact ⟨j + 1, Nat.le_succ_of_le hij, hhelp j hP hj⟩
  · exact hQ

/-- **The rule of the variant**: as long as `Q` does not hold, the variant gets smaller. -/
theorem of_variant (v : S → Nat)
    (h : ∀ n, LeadsTo run (fun s => P s ∧ v s = n) fun s => (P s ∧ v s < n) ∨ Q s) :
    LeadsTo run P Q := by
  intro i hi
  induction hn : v (run i) using Nat.strongRecOn generalizing i with
  | _ n ih =>
    obtain ⟨j, hij, ⟨hP, hlt⟩ | hQ⟩ := h n i ⟨hi, hn⟩
    · obtain ⟨k, hjk, hk⟩ := ih (v (run j)) hlt j hP rfl
      exact ⟨k, hij.trans hjk, hk⟩
    · exact ⟨j, hij, hQ⟩

end LeadsTo

end Eos.Lib
