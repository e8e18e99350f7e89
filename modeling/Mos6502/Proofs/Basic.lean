import Mathlib.Data.List.Induction

/-!
# Results and folds

How a result that may fail comes about from its parts, and what a fold keeps of
its state.
-/
namespace Mos6502

variable {ε α β : Type}

theorem bind_eq_ok {x : Except ε α} {f : α → Except ε β} {b : β} :
    (x >>= f) = .ok b ↔ ∃ a, x = .ok a ∧ f a = .ok b := by
  cases x with
  | error e => exact ⟨nofun, nofun⟩
  | ok a =>
    refine ⟨fun h => ⟨a, rfl, h⟩, ?_⟩
    rintro ⟨_, ha, h⟩
    cases ha
    exact h

theorem map_eq_ok {x : Except ε α} {f : α → β} {b : β} :
    x.map f = .ok b ↔ ∃ a, x = .ok a ∧ f a = b := by
  cases x with
  | error e => exact ⟨nofun, nofun⟩
  | ok a =>
    refine ⟨fun h => ⟨a, rfl, Except.ok.inj h⟩, ?_⟩
    rintro ⟨_, ha, rfl⟩
    cases ha
    rfl

/-- What every step of a fold gives of a part of its state, the fold gives. -/
theorem foldl_rel {σ γ : Type} {R : σ → σ → Prop} (refl : ∀ s, R s s) (trans : ∀ {s t u}, R s t → R t u → R s u)
    (part : α → σ) (f : α → γ → α) (hf : ∀ a x, R (part a) (part (f a x))) (xs : List γ) (a : α) :
    R (part a) (part (xs.foldl f a)) := by
  induction xs generalizing a with
  | nil => exact refl _
  | cons x xs ih => exact trans (hf a x) (ih (f a x))

/-! ## Results gathered line by line -/

section Gather
variable {σ γ : Type} {step : σ → γ → σ × β} {run : List γ → σ × List β} (hnil : (run []).2 = [])
  (hconcat : ∀ xs x, run (xs ++ [x]) = ((step (run xs).1 x).1, (step (run xs).1 x).2 :: (run xs).2))
include hnil hconcat

theorem length_gather (xs : List γ) : (run xs).2.length = xs.length := by
  induction xs using List.reverseRecOn with
  | nil => rw [hnil]; rfl
  | append_singleton xs x ih => simp [hconcat, ih]

/-- The result for an item is the one of the state after the items before it. -/
theorem getElem?_gather {xs : List γ} {k : Nat} {x : γ} (h : xs[k]? = some x) :
    (run xs).2.reverse[k]? = some (step (run (xs.take k)).1 x).2 := by
  induction xs using List.reverseRecOn with
  | nil => simp at h
  | append_singleton xs y ih =>
    have hlen : (run xs).2.reverse.length = xs.length := by
      rw [List.length_reverse, length_gather hnil hconcat]
    have hk : k < xs.length + 1 := by
      have := (List.getElem?_eq_some_iff.1 h).1
      simpa using this
    rw [hconcat, List.reverse_cons]
    -- an item after the `k`-th changes neither its result nor the state before it
    rcases Nat.lt_succ_iff_lt_or_eq.1 hk with hk | rfl
    · rw [List.getElem?_append_left hk] at h
      rw [List.getElem?_append_left (by omega), List.take_append_of_le_length (by omega)]
      exact ih h
    · rw [List.getElem?_concat_length] at h
      cases h
      rw [← hlen, List.getElem?_concat_length, hlen, List.take_left]

end Gather

end Mos6502
