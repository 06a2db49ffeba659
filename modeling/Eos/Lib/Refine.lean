import Mathlib.Data.Option.Basic
import Mathlib.Logic.Relation

/-!
# Fallible computations: refinement and runs

A fallible step returns `none` where it has no result.  `Refines R x y` says that
`x` has an `R`-related result whenever `y` has one; the rules below follow the
constructs of the `Option` monad, so a refinement of a composed computation is put
together from refinements of its parts.  The same rules follow for two computations in
lockstep, `Option.Rel R x y`.

`Reach step ok s` is the set of states that runs from `s` lead to, where every
operation is one that `ok` admits in the state it is applied to.  The invariant
rule turns what one step preserves into what every run preserves, and the
simulation rule carries a whole run from one system to one that refines it.
-/

set_option autoImplicit false

namespace Eos.Lib

variable {A B C D S U O : Type}

/-! ## Refinement of fallible computations -/

/-- Whenever `y` has a result, `x` has one that `R` relates to it. -/
def Refines (R : A → B → Prop) (x : Option A) (y : Option B) : Prop :=
  ∀ b, y = some b → ∃ a, x = some a ∧ R a b

namespace Refines

variable {R : A → B → Prop}

/-- Two results refine each other if they are related. -/
theorem some {a : A} {b : B} (h : R a b) : Refines R (some a) (some b) := by
  rintro b' ⟨⟩
  exact ⟨a, rfl, h⟩

/-- A computation without a result is refined by every computation. -/
theorem none (x : Option A) : Refines R x Option.none := by
  rintro b ⟨⟩

/-- Sequential composition: refine the first computations, then the continuations at
every pair of related results. -/
theorem bind {R' : C → D → Prop} {x : Option A} {y : Option B} {f : A → Option C}
    {g : B → Option D} (h : Refines R x y) (hf : ∀ a b, R a b → Refines R' (f a) (g b)) :
    Refines R' (x >>= f) (y >>= g) := by
  intro d hd
  obtain ⟨b, hb, hd⟩ := Option.bind_eq_some_iff.mp hd
  obtain ⟨a, rfl, hab⟩ := h b hb
  exact hf a b hab d hd

/-- A branch on one condition is refined branch by branch. -/
theorem ite {c : Prop} [Decidable c] {x x' : Option A} {y y' : Option B}
    (h : c → Refines R x y) (h' : ¬c → Refines R x' y') :
    Refines R (if c then x else x') (if c then y else y') := by
  by_cases hc : c
  · simpa [hc] using h hc
  · simpa [hc] using h' hc

/-- Reading the same fallible value first, on both sides. -/
theorem bind_same {R' : C → D → Prop} {v : Option U} {f : U → Option C} {g : U → Option D}
    (h : ∀ u, v = Option.some u → Refines R' (f u) (g u)) :
    Refines R' (v >>= f) (v >>= g) := by
  cases v with
  | none => exact none _
  | some u => exact h u rfl

/-- A run of the one step is followed by a run of the other. -/
theorem exists_run {R : A → B → Prop} {f : A → Option A} {g : B → Option B}
    (h : ∀ a b, R a b → Refines R (f a) (g b)) (run : Nat → B)
    (hrun : ∀ i, g (run i) = Option.some (run (i + 1))) {a : A} (ha : R a (run 0)) :
    ∃ run' : Nat → A, run' 0 = a ∧ (∀ i, f (run' i) = Option.some (run' (i + 1))) ∧
      ∀ i, R (run' i) (run i) := by
  have hnext : ∀ i (u : { u : A // R u (run i) }),
      ∃ v : { v : A // R v (run (i + 1)) }, f u = Option.some v.1 := by
    intro i u
    obtain ⟨v, hv, hR⟩ := h u (run i) u.2 (run (i + 1)) (hrun i)
    exact ⟨⟨v, hR⟩, hv⟩
  let run' : ∀ i, { u : A // R u (run i) } :=
    fun i => Nat.rec ⟨a, ha⟩ (fun i u => (hnext i u).choose) i
  exact ⟨fun i => (run' i).1, rfl, fun i => (hnext i (run' i)).choose_spec, fun i => (run' i).2⟩

end Refines

/-- Dropping the first result of a computation that ends behind one call. -/
theorem map_snd_bind (x : Option A) (f : A → B) (c : C) :
    (do let y ← x; return (c, f y) : Option (C × B)).map Prod.snd =
      (do let y ← x; return f y) := by
  cases x <;> rfl

/-- Dropping the first result of a computation that ends behind two calls. -/
theorem map_snd_bind₂ (x : Option A) (f : A → Option B) (c : C) :
    (do let y ← x; let z ← f y; return (c, z) : Option (C × B)).map Prod.snd = x >>= f := by
  cases x with
  | none => rfl
  | some y =>
    show Option.map Prod.snd (do let z ← f y; return (c, z)) = f y
    cases f y <;> rfl

/-! ## Lockstep

Both computations have a result, and `R` relates them, or none has one. -/

/-- Related computations, followed by related ones. -/
theorem rel_bind {R : A → B → Prop} {R' : C → D → Prop} {x : Option A} {y : Option B}
    {f : A → Option C} {g : B → Option D} (h : Option.Rel R x y)
    (hf : ∀ a b, x = some a → R a b → Option.Rel R' (f a) (g b)) :
    Option.Rel R' (x >>= f) (y >>= g) := by
  cases h with
  | none => exact .none
  | some hab => exact hf _ _ rfl hab

/-- Related computations behind a common one. -/
theorem rel_bind_same {R : A → B → Prop} {v : Option U} {f : U → Option A} {g : U → Option B}
    (h : ∀ u, v = some u → Option.Rel R (f u) (g u)) : Option.Rel R (v >>= f) (v >>= g) := by
  cases v with
  | none => exact .none
  | some u => exact h u rfl

/-- Related computations under a common condition. -/
theorem rel_ite {R : A → B → Prop} {c : Prop} [Decidable c] {x x' : Option A} {y y' : Option B}
    (h : c → Option.Rel R x y) (h' : ¬c → Option.Rel R x' y') :
    Option.Rel R (if c then x else x') (if c then y else y') := by
  by_cases hc : c
  · rw [if_pos hc, if_pos hc]
    exact h hc
  · rw [if_neg hc, if_neg hc]
    exact h' hc

/-- A result on one side has a counterpart on the other one. -/
theorem exists_of_rel {R : A → B → Prop} {x : Option A} {y : Option B} (h : Option.Rel R x y)
    {b : B} (hy : y = some b) : ∃ a, x = some a ∧ R a b := by
  cases h with
  | none => cases hy
  | some hab =>
    cases hy
    exact ⟨_, rfl, hab⟩

/-- Where the first of two related computations has a result, the second has a related one. -/
theorem exists_of_rel' {R : A → B → Prop} {x : Option A} {y : Option B} (h : Option.Rel R x y)
    {a : A} (hx : x = some a) : ∃ b, y = some b ∧ R a b := by
  cases h with
  | none => cases hx
  | some hab =>
    cases hx
    exact ⟨_, rfl, hab⟩

/-! ## Runs -/

/-- The states that runs from `s` lead to, when each operation `o` of a run is one that
`ok` admits in the state it is applied to. -/
inductive Reach (step : S → O → Option S) (ok : S → O → Prop) (s : S) : S → Prop
  | start : Reach step ok s s
  | next {u v : S} {o : O} : Reach step ok s u → ok u o → step u o = some v → Reach step ok s v

namespace Reach

variable {step : S → O → Option S} {ok : S → O → Prop} {s : S}

/-- **The invariant rule.** What holds at the start and is kept by every admitted
operation holds in every reachable state. -/
theorem invariant {I : S → Prop} (h0 : I s)
    (hstep : ∀ u v o, I u → ok u o → step u o = some v → I v) {u : S}
    (h : Reach step ok s u) : I u := by
  induction h with
  | start => exact h0
  | next _ hok hst ih => exact hstep _ _ _ ih hok hst

/-- Runs may be continued. -/
theorem trans {u v : S} (h : Reach step ok s u) (h' : Reach step ok u v) :
    Reach step ok s v := by
  induction h' with
  | start => exact h
  | next _ hok hst ih => exact .next ih hok hst

/-- A stronger condition on the operations admits fewer runs. -/
theorem mono {ok' : S → O → Prop} (h : ∀ u o, ok u o → ok' u o) {u : S}
    (hu : Reach step ok s u) : Reach step ok' s u := by
  induction hu with
  | start => exact .start
  | next _ hok hst ih => exact .next ih (h _ _ hok) hst

end Reach

/-- The run of a list of operations, one after the other. -/
def runList (step : S → O → Option S) (s : S) (os : List O) : Option S :=
  os.foldlM step s

/-- A list of operations that meets a decidable condition at every step reaches a state. -/
theorem Reach.of_runList {step : S → O → Option S} {ok : S → O → Prop}
    [∀ s o, Decidable (ok s o)] {s : S} {os : List O} {u : S}
    (h : runList (fun s o => if ok s o then step s o else none) s os = some u) :
    Reach step ok s u := by
  induction os generalizing s with
  | nil =>
    cases h
    exact .start
  | cons o os ih =>
    simp only [runList, List.foldlM_cons] at h
    obtain ⟨v, hv, hu⟩ := Option.bind_eq_some_iff.mp h
    split at hv
    · next hok => exact (Reach.next .start hok hv).trans (ih hu)
    · cases hv

/-- Runs of the same operations refine each other if the steps do. -/
theorem Refines.runList {R : S → U → Prop} {f : S → O → Option S} {g : U → O → Option U}
    (h : ∀ s u o, R s u → Refines R (f s o) (g u o)) (os : List O) {s : S} {u : U} (hr : R s u) :
    Refines R (runList f s os) (runList g u os) := by
  induction os generalizing s u with
  | nil => exact .some hr
  | cons o os ih => exact (h s u o hr).bind fun _ _ hr' => ih hr'

/-- A checked run that ends in a state with `p` reaches such a state. -/
theorem Reach.of_any {step : S → O → Option S} {ok : S → O → Prop} [∀ s o, Decidable (ok s o)]
    {s : S} {os : List O} {p : S → Bool}
    (h : (runList (fun s o => if ok s o then step s o else none) s os).any p = true) :
    ∃ u, Reach step ok s u ∧ p u = true := by
  obtain ⟨u, hu, hp⟩ := (Option.any_eq_true _ _).mp h
  exact ⟨u, .of_runList hu, hp⟩

/-- **A run that is evaluated**: the operations `os` run from the start, each where it is allowed,
and what is to hold of both ends is decided. -/
theorem Reach.of_decide (step : S → O → Option S) (ok : S → O → Prop) [∀ s o, Decidable (ok s o)]
    (start : Option S) (os : List O) (P : S → S → Prop) [∀ s u, Decidable (P s u)]
    (h : (start.any fun s => (runList (fun s o => if ok s o then step s o else none) s os).any
      fun u => P s u) = true) : ∃ s u, start = some s ∧ Reach step ok s u ∧ P s u := by
  obtain ⟨s, hs, h⟩ := (Option.any_eq_true _ _).mp h
  obtain ⟨u, hu, hp⟩ := of_any h
  exact ⟨s, u, hs, hu, of_decide_eq_true hp⟩

end Eos.Lib
