import Mathlib.Data.Option.Basic

/-!
# Fallible computations: total correctness

A fallible step returns `none` where it has no result.  `Yields x P` says that `x` has a result
and that `P` holds of it; the rules follow the constructs of the `Option` monad.  A loop with fuel
whose rounds keep an invariant and lower a variant has a result, and it is the same for all fuel
above the variant (`ends_of_variant`).
-/

set_option autoImplicit false

namespace Eos.Lib

variable {A B S : Type}

/-- There is a result, and it satisfies `P`. -/
def Yields (x : Option A) (P : A → Prop) : Prop := ∃ a, x = some a ∧ P a

namespace Yields

variable {P P' : A → Prop} {Q : B → Prop} {x x' : Option A} {a : A}

/-- A computation that ends at once. -/
theorem some (h : P a) : Yields (some a) P := ⟨a, rfl, h⟩

/-- A weaker property of the result. -/
theorem mono (h : Yields x P) (hP : ∀ a, P a → P' a) : Yields x P' := by
  obtain ⟨a, hx, ha⟩ := h
  exact ⟨a, hx, hP a ha⟩

/-- Sequential composition: what holds of the first result is what the continuation needs. -/
theorem bind {f : A → Option B} (h : Yields x P) (hf : ∀ a, P a → Yields (f a) Q) :
    Yields (x >>= f) Q := by
  obtain ⟨a, rfl, ha⟩ := h
  exact hf a ha

/-- A computation whose result is mapped. -/
theorem map {f : A → B} (h : Yields x P) (hf : ∀ a, P a → Q (f a)) : Yields (x.map f) Q := by
  obtain ⟨a, rfl, ha⟩ := h
  exact some (hf a ha)

/-- Each branch under its condition. -/
theorem ite {c : Prop} [Decidable c] (h : c → Yields x P) (h' : ¬c → Yields x' P) :
    Yields (if c then x else x') P := by
  by_cases hc : c
  · rw [if_pos hc]
    exact h hc
  · rw [if_neg hc]
    exact h' hc

end Yields

/-- **The rule of the variant**: every round ends the loop or lowers the variant. -/
theorem ends_of_variant {loop : Nat → S → Option B} {I : S → Prop} {v : S → Nat}
    (hround : ∀ s, I s → (∃ r, ∀ fuel, loop (fuel + 1) s = some r) ∨
      ∃ s', I s' ∧ v s' < v s ∧ ∀ fuel, loop (fuel + 1) s = loop fuel s')
    {s : S} (hs : I s) : ∃ r, ∀ fuel, v s < fuel → loop fuel s = some r := by
  induction hn : v s using Nat.strongRecOn generalizing s with
  | _ n ih =>
    subst hn
    obtain ⟨r, hr⟩ | ⟨s', hs', hlt, hloop⟩ := hround s hs
    · refine ⟨r, fun fuel hfuel => ?_⟩
      obtain ⟨k, rfl⟩ := Nat.exists_eq_add_one_of_ne_zero (Nat.ne_zero_of_lt hfuel)
      exact hr k
    · obtain ⟨r, hr⟩ := ih (v s') hlt hs' rfl
      refine ⟨r, fun fuel hfuel => ?_⟩
      obtain ⟨k, rfl⟩ := Nat.exists_eq_add_one_of_ne_zero (Nat.ne_zero_of_lt hfuel)
      rw [hloop]
      exact hr k (by omega)

end Eos.Lib
