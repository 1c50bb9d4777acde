import PooledSql.Proofs.Database.Surroundings
import PooledSql.Proofs.Template.Layout

/-!
# Sources that are refused

Which sources are refused before a connection is asked for, and which only once there is one. A
statement is put together on its connection, since a fragment may name it; everything that does not
depend on the connection could be told at once. Parameters that nothing can run through, together
with plain text, are told only when the statement is put together (`Source.refused_iff`).

* `Source.fragments`: the fragments that a statement is put together from.
* `Source.statement_eq_error_iff`: why a statement cannot be put together.
* `Source.ofValue_toValue`: what has been taken for a source is taken for the same one again.
-/

namespace PooledSql

/-- The fragment that a part of a template is. -/
def Piece.spliced? : Piece → Option Fragment
  | spliced f => some f
  | passed _ => none

/-- Of several fragments, the first one that cannot be resolved decides the failure. -/
theorem Fragment.resolveAll_cons_eq_error_iff {context : Context} {fragment : Fragment}
    {fragments : List Fragment} {f : Failure} :
    resolveAll context (fragment :: fragments) = .error f ↔
      fragment.resolve context = .error f ∨
        ∃ text, fragment.resolve context = .ok text ∧ resolveAll context fragments = .error f := by
  simp [resolveAll, bind_eq_error_iff, pure, Except.pure]

namespace Piece

variable {context : Context} {f : Failure}

/-- Pieces have no layout if one of the fragments among them cannot be resolved, and the first of
these decides the failure. -/
theorem layOut_eq_error_iff {ps : List Piece} :
    layOut context ps = .error f ↔
    Fragment.resolveAll context (ps.filterMap spliced?) = .error f := by
  induction ps with
  | nil => simp [layOut, Fragment.resolveAll]
  | cons p ps ih =>
    -- a fragment may fail itself; a value never does
    cases p with
    | spliced fragment =>
      have hcons :
          (spliced fragment :: ps).filterMap spliced? = fragment :: ps.filterMap spliced? := rfl
      rw [hcons, Fragment.resolveAll_cons_eq_error_iff, ← ih]
      cases htext : fragment.resolve context with
      | error e => simp [layOut, htext, bind_eq_error_iff]
      | ok text => simp [layOut_spliced htext, map_eq_error_iff]
    | passed v =>
      have hcons : (passed v :: ps).filterMap spliced? = ps.filterMap spliced? := rfl
      rw [hcons, layOut_passed, ← ih, map_eq_error_iff]

end Piece

namespace Source

variable {context : Context} {f : Failure} {source : Source} {v params : Value}

/-- The fragments that the statement of a source is put together from, in order. -/
def fragments : Source → List Fragment
  | text .. => []
  | fragment f => [f]
  | template t => t.pieces.filterMap Piece.spliced?

/-- A statement cannot be put together if one of its fragments cannot be resolved, or if plain text
comes with parameters that nothing can run through. -/
theorem statement_eq_error_iff :
    source.statement params context = .error f ↔
      Fragment.resolveAll context source.fragments = .error f ∨
        (∃ lineage sql, source = .text lineage sql) ∧ params.items = .error f := by
  cases source with
  | text lineage sql =>
    simp [statement, fragments, Fragment.resolveAll, bind_eq_error_iff, pure, Except.pure]
  | fragment fragment =>
    simp [statement, fragments, Fragment.resolveAll, bind_eq_error_iff, pure, Except.pure]
  | template t =>
    rw [statement, Template.compile_eq, map_eq_error_iff, Template.layout,
      Piece.layOut_eq_error_iff]
    simp [fragments]

/-- What is taken for a source is plain text, or comes without parameters. -/
theorem ofValue_eq_ok (h : ofValue v params = .ok source) :
    (∃ lineage sql, v = .text lineage sql ∧ source = .text lineage sql) ∨
      params.truthy = false ∧ ((∃ f, source = .fragment f) ∨ ∃ t, source = .template t) := by
  unfold ofValue at h
  split at h
  · cases h
    exact .inl ⟨_, _, rfl, rfl⟩
  -- anything but plain text is refused if it comes with parameters
  split at h
  · cases h
  refine .inr ⟨by simpa using ‹¬ params.truthy = true›, ?_⟩
  split at h
  · cases h
    exact .inl ⟨_, rfl⟩
  · obtain ⟨t, -, ht⟩ := exists_of_bind_eq_ok h
    cases ht
    exact .inr ⟨t, rfl⟩

/-- What has been taken for a source is taken for the same source again. -/
theorem ofValue_toValue (h : ofValue v params = .ok source) :
    ofValue source.toValue params = .ok source := by
  rcases ofValue_eq_ok h with ⟨lineage, sql, -, rfl⟩ | ⟨hparams, ⟨f, rfl⟩ | ⟨t, rfl⟩⟩
  · rfl
  · simp [toValue, ofValue, hparams]
  · have ht : Template.ofSegments t.segments t.values = .ok t := dif_pos t.length_segments
    simp [toValue, ofValue, hparams, Template.toValue, Template.ofValue, ht, bind,
      Except.bind, pure, Except.pure]

/-- Whether a failure to put a statement together comes from a fragment that cannot be resolved. -/
def Unresolved (v params : Value) (context : Context) (f : Failure) : Prop :=
  ∃ source, ofValue v params = .ok source ∧ Fragment.resolveAll context source.fragments = .error f

/-- A statement cannot be put together of what is no source, of fragments that cannot be resolved,
or of plain text with parameters that nothing can run through. -/
theorem build_eq_error_iff :
    Statement.build v params context = .error f ↔
      ofValue v params = .error f ∨ Unresolved v params context f ∨
        (∃ lineage sql, v = .text lineage sql) ∧ params.items = .error f := by
  rw [Statement.build, bind_eq_error_iff]
  refine or_congr_right ⟨?_, ?_⟩
  · rintro ⟨source, hsource, hf⟩
    refine (statement_eq_error_iff.mp hf).imp (fun hf => ⟨source, hsource, hf⟩) ?_
    rintro ⟨⟨lineage, sql, rfl⟩, hitems⟩
    -- parameters matter only to plain text
    rcases ofValue_eq_ok hsource with ⟨_, _, rfl, -⟩ | ⟨-, ⟨_, h⟩ | ⟨_, h⟩⟩
    · exact ⟨⟨_, _, rfl⟩, hitems⟩
    all_goals cases h
  · rintro (⟨source, hsource, hf⟩ | ⟨⟨lineage, sql, rfl⟩, hitems⟩)
    · exact ⟨source, hsource, statement_eq_error_iff.mpr (.inl hf)⟩
    · exact ⟨.text lineage sql, rfl,
        statement_eq_error_iff.mpr (.inr ⟨⟨lineage, sql, rfl⟩, hitems⟩)⟩

/-- A query with what is no source is refused without any request. -/
theorem ends_submit_of_ofValue {c : Client} {pool : PoolId} {l : List (Deed c)}
    {r : Except Failure Query} (hv : ofValue v params = .error f) :
    Fiber.Ends (DatabaseM.submit pool v params : DatabaseM c Query) l r ↔
    l = [] ∧ r = .error f := by
  rw [DatabaseM.submit, hv]
  exact Fiber.ends_throw_iff

/-- A failure to put a statement together that is not the fault of a fragment is told before a
connection is asked for, if and only if the source is no plain text with parameters that nothing can
run through. What has been taken for a source has the same statement as what it was taken from. -/
theorem refused_iff {c : Client} {pool : PoolId} {v params : Value} {context : Context} :
    ((∀ f, Statement.build v params context = .error f → ¬ Unresolved v params context f →
        ofValue v params = .error f ∧ ∀ {l : List (Deed c)} {r : Except Failure Query},
          Fiber.Ends (DatabaseM.submit pool v params : DatabaseM c Query) l r ↔
            l = [] ∧ r = .error f) ↔
      ¬ ((∃ lineage sql, v = .text lineage sql) ∧ params.items? = none)) ∧
    ∀ source, ofValue v params = .ok source →
      Statement.build source.toValue params context = Statement.build v params context ∧
        source.statement params context = Statement.build v params context := by
  refine ⟨⟨?_, fun hplain f hbuild hresolved => ?_⟩, fun source hsource => ?_⟩
  · rintro h ⟨⟨lineage, sql, rfl⟩, hitems⟩
    have hfault :
        params.items = .error (Fault.misuse (.notIterable params.qualifiedTypeName)).failure := by
      rw [Value.items, hitems]
    have hbuild : Statement.build _ params context = .error _ :=
      build_eq_error_iff.mpr (.inr (.inr ⟨⟨lineage, sql, rfl⟩, hfault⟩))
    -- plain text is always taken for a source, and it has no fragments
    have hrefused := (h _ hbuild ?_).1
    · cases hrefused
    · rintro ⟨source, hsource, hf⟩
      cases hsource
      cases hf
  · have hv : ofValue v params = .error f := by
      rcases build_eq_error_iff.mp hbuild with hv | hf | ⟨htext, hitems⟩
      · exact hv
      · exact (hresolved hf).elim
      · refine (hplain ⟨htext, ?_⟩).elim
        cases h : params.items? with
        | none => rfl
        | some items =>
          rw [Value.items, h] at hitems
          cases hitems
    exact ⟨hv, ends_submit_of_ofValue hv⟩
  · have hstatement : ∀ {w}, ofValue w params = .ok source →
        Statement.build w params context = source.statement params context := by
      intro w hw
      rw [Statement.build, hw]
      rfl
    exact ⟨(hstatement (ofValue_toValue hsource)).trans (hstatement hsource).symm,
      (hstatement hsource).symm⟩

/-- A list is no source, which is told before a connection is asked for. -/
theorem refused_iff_list :
    ∃ f, Statement.build (.list []) (.tuple []) (.connection none) = .error f ∧
      ofValue (.list []) (.tuple []) = .error f ∧
      ∀ {l : List (Deed .silent)} {r : Except Failure Query},
        Fiber.Ends (DatabaseM.submit 0 (.list []) (.tuple []) : DatabaseM .silent Query) l r ↔
          l = [] ∧ r = .error f := by
  have hbuild : Statement.build (.list []) (.tuple []) (.connection none) =
    .error (Fault.template (.notATemplate (Value.list []).typeName)).failure := rfl
  refine ⟨_, hbuild, (refused_iff (c := .silent)).1.mpr ?_ _ hbuild ?_⟩
  · rintro ⟨⟨_, _, h⟩, -⟩
    cases h
  · rintro ⟨_, h, -⟩
    cases h

/-- It is not so that what is no fault of a fragment is told before a connection is asked for: a
number is no list of parameters. -/
theorem not_refused :
    ¬ ∀ {v params : Value} {context : Context} {f : Failure},
      Statement.build v params context = .error f →
      ¬ Unresolved v params context f → ofValue v params = .error f := by
  intro hall
  have hbuild : Statement.build (.ofString "SELECT 1") (.ofInt 5) (.connection none) = .error _ :=
    rfl
  have hrefused := hall hbuild ?_
  · cases hrefused
  · rintro ⟨source, hsource, hf⟩
    cases hsource
    cases hf

end Source

end PooledSql
