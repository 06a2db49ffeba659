import Mathlib.Logic.Function.Basic

/-!
# A word with exclusive access

A load-exclusive sets the monitor of the core that executes it, and every write of another core
clears it.  A store-exclusive writes only if the monitor is still set; it may fail without a
reason, too, so that `ok` is open.  So nobody has written since a load whose
monitor is still set.
-/

set_option autoImplicit false

namespace Eos.Lib

/-- The value of a word, and which cores have a monitor on it. -/
structure Exclusive (C V : Type) where
  value : V
  monitor : C → Bool

namespace Exclusive

variable {C V : Type} [DecidableEq C] {w : Exclusive C V} {c d : C} {v : V} {ok keep : Bool}

/-- The monitor of `c` is set. -/
def load (w : Exclusive C V) (c : C) : Exclusive C V :=
  { w with monitor := Function.update w.monitor c true }

/-- The monitor of `c` is lost. -/
def clear (w : Exclusive C V) (c : C) : Exclusive C V :=
  { w with monitor := Function.update w.monitor c false }

/-- A write of `c` clears the monitors of the others; its own one may be kept. -/
def write (w : Exclusive C V) (c : C) (v : V) (keep : Bool) : Exclusive C V :=
  { w with value := v, monitor := fun d => decide (d = c) && keep && w.monitor d }

/-- A store-exclusive has success. -/
def Succeeds (w : Exclusive C V) (c : C) (ok : Bool) : Prop := w.monitor c = true ∧ ok = true

omit [DecidableEq C] in
instance : Decidable (w.Succeeds c ok) := inferInstanceAs (Decidable (_ ∧ _))

/-- A store-exclusive writes `v`, or it fails; the monitor is gone in both cases. -/
def store (w : Exclusive C V) (c : C) (v : V) (ok : Bool) : Exclusive C V :=
  if w.Succeeds c ok then w.write c v false else w.clear c

/-- A store-exclusive that has success writes the word. -/
theorem store_of_succeeds (h : w.Succeeds c ok) : w.store c v ok = w.write c v false := if_pos h

/-- One that fails only clears the monitor of its core. -/
theorem store_of_not (h : ¬w.Succeeds c ok) : w.store c v ok = w.clear c := if_neg h

/-- A monitor that is set behind a load was set before, or it is the one of the load. -/
theorem monitor_load (h : (w.load c).monitor d = true) : d = c ∨ w.monitor d = true := by
  by_cases hd : d = c
  · exact Or.inl hd
  · have hkeep : (w.load c).monitor d = w.monitor d := Function.update_of_ne hd _ _
    exact Or.inr (hkeep ▸ h)

/-- A monitor that is set after another was cleared was set before. -/
theorem monitor_clear (h : (w.clear c).monitor d = true) : w.monitor d = true := by
  by_cases hd : d = c
  · have hlost : (w.clear c).monitor d = false := by
      rw [hd]
      exact Function.update_self _ _ _
    rw [hlost] at h
    exact absurd h Bool.false_ne_true
  · have hkeep : (w.clear c).monitor d = w.monitor d := Function.update_of_ne hd _ _
    exact hkeep ▸ h

/-- **A write leaves no monitor of another core.** -/
theorem monitor_write (h : (w.write c v keep).monitor d = true) : d = c ∧ keep = true := by
  have hand : (decide (d = c) && keep && w.monitor d) = true := h
  rw [Bool.and_eq_true, Bool.and_eq_true, decide_eq_true_eq] at hand
  exact hand.1

end Exclusive

end Eos.Lib
