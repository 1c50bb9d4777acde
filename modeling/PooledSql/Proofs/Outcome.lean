/-!
# Outcomes

What an outcome that goes on from another one says of it: a success comes of a success, and a
failure either was there before or has come up later.
-/

namespace PooledSql

variable {ε α β : Type} {x : Except ε α} {f : ε} {b : β}

/-- Whatever is made of an outcome is made of a success. -/
theorem exists_of_map_eq_ok {g : α → β} (h : x.map g = .ok b) : ∃ a, x = .ok a ∧ g a = b := by
  cases x with
  | error f => cases h
  | ok a => exact ⟨a, rfl, Except.ok.inj h⟩

/-- Whatever goes on with an outcome succeeds only if that has been a success. -/
theorem exists_of_bind_eq_ok {g : α → Except ε β} (h : x >>= g = .ok b) :
    ∃ a, x = .ok a ∧ g a = .ok b := by
  cases x with
  | error f => cases h
  | ok a => exact ⟨a, rfl, h⟩

/-- A function of an outcome fails as the outcome does. -/
theorem map_eq_error_iff {g : α → β} : x.map g = .error f ↔ x = .error f := by
  cases x <;> simp [Except.map]

/-- Whatever goes on with an outcome fails if that is a failure, or after a success. -/
theorem bind_eq_error_iff {g : α → Except ε β} :
    x >>= g = .error f ↔ x = .error f ∨ ∃ a, x = .ok a ∧ g a = .error f := by
  cases x <;> simp [bind, Except.bind]

/-- The failure that an outcome is, if it is one. -/
def failure? : Except ε α → Option ε
  | .error f => some f
  | .ok _ => none

/-- What is made of a success does not change the failures. -/
theorem failure?_map {g : α → β} : failure? (do return g (← x)) = failure? x := by
  cases x <;> rfl

/-- Of two outcomes one after the other, the first one that is a failure decides. -/
theorem failure?_bind {g : α → Except ε β} {o : Option ε} (hg : ∀ a, failure? (g a) = o) :
    failure? (x >>= g) = (failure? x).or o := by
  cases x with
  | error f => rfl
  | ok a => exact hg a

/-- What fails step by step has come as far as a step that fails. -/
theorem exists_of_foldlM_eq_error {g : β → α → Except ε β} {as : List α}
    (h : as.foldlM g b = .error f) :
    ∃ before a behind b', as = before ++ a :: behind ∧ before.foldlM g b = .ok b' ∧
      g b' a = .error f := by
  induction as generalizing b with
  | nil => cases h
  | cons a as ih =>
    rw [List.foldlM_cons, bind_eq_error_iff] at h
    rcases h with ha | ⟨b₁, hb₁, has⟩
    · exact ⟨[], a, as, b, rfl, rfl, ha⟩
    · obtain ⟨before, a', behind, b', rfl, hb', ha'⟩ := ih has
      refine ⟨a :: before, a', behind, b', rfl, ?_, ha'⟩
      rw [List.foldlM_cons, hb₁]
      exact hb'

end PooledSql
