import PooledSql.Proofs.Format.Path

/-!
# Faults of format strings

How a format string and its arguments fail to make a template. Nearly always this is a fault of the
template: the text cannot be taken apart, a field has a conversion or a format, or a field leads to
no value. But the path of a field is followed while it is read, and a path that is broken off behind
a value is a fault of its own, which nothing turns into one of the template
(`Template.kind_of_ofFormat`).

* `Template.ComesTo`: a field is looked up under a name, all fields before it having values.
* `Template.fieldValues_eq_error_iff`: the first field without a value decides how fields fail.
-/

namespace PooledSql

namespace Template

open Format

/-- How many fields have no name. -/
def unnamed (fields : List (Field × List Char)) : Nat :=
  (fields.map fun field => field.1.name).count []

/-- Whether a field of a format string is looked up under a name: it has neither a conversion nor a
format, and all fields before it have values. -/
def ComesTo (format : String) (a : Arguments) (name : List Char) : Prop :=
  ∃ text before field behind vs, parts format = .ok ⟨text, before ++ field :: behind⟩ ∧
    fieldValues format a 0 before = .ok vs ∧ field.1.IsPlain ∧
      name = written (unnamed before) field.1.name

variable {format : String} {a : Arguments} {name : List Char} {next : Nat} {f : Failure}
  {fault : PathFault} {p : Parts} {field : Field × List Char}
  {before behind fields : List (Field × List Char)} {vs : List Value}

/-- A field without a name is one more. -/
theorem add_unnamed_cons : next + unnamed (field :: fields) =
    (if field.1.name = [] then next + 1 else next) + unnamed fields := by
  rw [unnamed, List.map_cons, List.count_cons]
  by_cases hname : field.1.name = []
  · rw [if_pos hname, if_pos (beq_iff_eq.mpr hname), unnamed]
    omega
  · rw [if_neg hname, if_neg (by simpa using hname), unnamed]
    rfl

/-- A field with a conversion or a format has no value. -/
theorem fieldValues_cons_of_not_isPlain (hfield : ¬ field.1.IsPlain) :
    fieldValues format a next (field :: fields) =
      .error (Fault.template (.fieldConversion (String.ofList field.1.name) format)).failure := by
  have hformatted : (field.1.conversion.isSome || !field.1.spec.isEmpty) = true := by
    by_contra hplain
    exact hfield (by simpa [Field.IsPlain] using hplain)
  rw [fieldValues, if_pos hformatted]

/-- Fields behind others that have values are looked up as these leave it to them. -/
theorem fieldValues_append (hbefore : fieldValues format a next before = .ok vs) :
    fieldValues format a next (before ++ fields) =
      (fieldValues format a (next + unnamed before) fields).map (vs ++ ·) := by
  -- by induction on the fields in front, each of which is plain, as it has a value
  induction before generalizing next vs with
  | nil =>
    cases hbefore
    show fieldValues format a next fields = (fieldValues format a next fields).map ([] ++ ·)
    cases fieldValues format a next fields <;> rfl
  | cons field before ih =>
    have hfield : field.1.IsPlain := (isPlain_of_fieldValues hbefore).1 field List.mem_cons_self
    rw [fieldValues_cons hfield] at hbefore
    obtain ⟨v, hv, hbefore⟩ := exists_of_bind_eq_ok hbefore
    obtain ⟨ws, hws, hvs⟩ := exists_of_bind_eq_ok hbefore
    cases hvs
    rw [List.cons_append, fieldValues_cons hfield, hv, add_unnamed_cons]
    show fieldValues format a _ (before ++ fields) >>= _ = _
    rw [ih hws]
    cases fieldValues format a _ fields <;> rfl

/-- Some fields fail to have values as the first one of them does. -/
theorem fieldValues_eq_error_iff : fieldValues format a next fields = .error f ↔
    ∃ before field behind vs, fields = before ++ field :: behind ∧
      fieldValues format a next before = .ok vs ∧
      (¬ field.1.IsPlain ∧
          f = (Fault.template (.fieldConversion (String.ofList field.1.name) format)).failure ∨
        field.1.IsPlain ∧
          fieldValue format a (written (next + unnamed before) field.1.name) = .error f) := by
  constructor
  · intro h
    induction fields generalizing next with
    | nil => cases h
    | cons field fields ih =>
      by_cases hfield : field.1.IsPlain
      · rw [fieldValues_cons hfield, bind_eq_error_iff] at h
        -- the value of this field fails, or those behind it do
        rcases h with hvalue | ⟨v, hv, hrest⟩
        · exact ⟨[], field, fields, [], rfl, rfl, .inr ⟨hfield, hvalue⟩⟩
        rw [bind_eq_error_iff] at hrest
        rcases hrest with hrest | ⟨_, -, hnever⟩
        · -- the failure comes up behind this field
          obtain ⟨before, g, behind, vs, rfl, hvs, hg⟩ := ih hrest
          refine ⟨field :: before, g, behind, v :: vs, rfl, ?_, by rwa [add_unnamed_cons]⟩
          rw [fieldValues_cons hfield, hv]
          show fieldValues format a _ before >>= _ = _
          rw [hvs]
          rfl
        · cases hnever
      · rw [fieldValues_cons_of_not_isPlain hfield] at h
        exact ⟨[], field, fields, [], rfl, rfl, .inl ⟨hfield, (Except.error.inj h).symm⟩⟩
  · rintro ⟨before, field, behind, vs, rfl, hvs, ⟨hfield, rfl⟩ | ⟨hfield, hvalue⟩⟩
    · rw [fieldValues_append hvs, fieldValues_cons_of_not_isPlain hfield]
      rfl
    · rw [fieldValues_append hvs, fieldValues_cons hfield, hvalue]
      rfl

/-- Fields that have values make up a template with the texts around them. -/
theorem exists_ofSegments (h : fieldValues format a next p.fields = .ok vs) :
    ∃ t, ofSegments (formatSegments p) vs = .ok t := by
  have hcount : (formatSegments p).length = vs.length + 1 := by
    rw [(isPlain_of_fieldValues h).2]
    simp [formatSegments]
  exact ⟨_, dif_pos hcount⟩

/-- A field that is looked up and leads to no value makes the format string fail alike, unless the
value is wanting. -/
theorem ComesTo.ofFormat_eq (h : ComesTo format a name) (hname : a.resolve name = .error f)
    (hf : isMissing f = false) : ofFormat format a = .error f := by
  obtain ⟨text, before, field, behind, vs, hparts, hvs, hfield, rfl⟩ := h
  have hvalue : fieldValue format a (written (0 + unnamed before) field.1.name) = .error f := by
    rw [Nat.zero_add]
    simp [fieldValue, hname, hf]
  have hvalues : fieldValues format a 0 (before ++ field :: behind) = .error f :=
    fieldValues_eq_error_iff.mpr ⟨before, field, behind, vs, rfl, hvs, .inr ⟨hfield, hvalue⟩⟩
  rw [ofFormat, hparts]
  show fieldValues format a 0 (before ++ field :: behind) >>= _ = _
  rw [hvalues]
  rfl

/-- A field whose path is broken off behind a value makes the format string fail so. -/
theorem ComesTo.ofFormat_of_stumbles (h : ComesTo format a name) (hname : a.Stumbles name fault) :
    ofFormat format a = .error (Fault.format fault).failure :=
  h.ofFormat_eq hname.resolve_eq rfl

/-- A field that asks a value for a part that it cannot have makes the format string fail so. -/
theorem ComesTo.ofFormat_of_misuses (h : ComesTo format a name) (hname : a.Misuses name) :
    ∃ m, ofFormat format a = .error (Fault.misuse m).failure := by
  obtain ⟨m, hm⟩ := hname.resolve_eq
  exact ⟨m, h.ofFormat_eq hm rfl⟩

/-- A format string fails to make a template by a fault of the template, or as one of its fields
does for another reason than the want of a value. -/
theorem ofFormat_cases (h : ofFormat format a = .error f) :
    f.kind = .malformedTemplate ∨
      isMissing f = false ∧ ∃ name, ComesTo format a name ∧ a.resolve name = .error f := by
  rw [ofFormat] at h
  split at h
  next =>
    cases h
    exact .inl rfl
  next p hparts =>
    rw [bind_eq_error_iff] at h
    rcases h with hvalues | ⟨vs, hvs, hsegments⟩
    · -- the first field without a value decides what is reported
      obtain ⟨before, field, behind, vs, hfields, hvs, hfirst⟩ :=
        fieldValues_eq_error_iff.mp hvalues
      rcases hfirst with ⟨-, rfl⟩ | ⟨hfield, hvalue⟩
      · exact .inl rfl
      have hcomes : ComesTo format a (written (unnamed before) field.1.name) :=
        ⟨p.text, before, field, behind, vs, by rw [hparts, ← hfields], hvs, hfield, rfl⟩
      rw [Nat.zero_add, fieldValue] at hvalue
      split at hvalue
      next => cases hvalue
      next g hg =>
        -- the want of a value is reported as a fault of the template, any other failure as itself
        split at hvalue
        next =>
          cases hvalue
          exact .inl rfl
        next hmissing =>
          cases hvalue
          exact .inr ⟨by simpa using hmissing, _, hcomes, hg⟩
    · -- the number of the segments fits that of the values
      obtain ⟨t, ht⟩ := exists_ofSegments hvs
      rw [ht] at hsegments
      cases hsegments

/-- The kind under which the failure of a format string is reported. A field whose path is broken
off behind a value is reported as a wrong value, and says what is wrong with the path; one that asks
a value for a part that it cannot have, as a wrong type; and everything else as a template that is
not put together correctly. -/
theorem kind_of_ofFormat (h : ofFormat format a = .error f) :
    (f.kind = .value ↔ ∃ name fault, ComesTo format a name ∧ a.Stumbles name fault ∧
      f = (Fault.format fault).failure) ∧
    (f.kind = .type ↔ ∃ name, ComesTo format a name ∧ a.Misuses name) ∧
    (f.kind = .value ∨ f.kind = .type ∨ f.kind = .malformedTemplate) := by
  have hvalue : (∃ name fault, ComesTo format a name ∧ a.Stumbles name fault ∧
      f = (Fault.format fault).failure) → f.kind = .value := by
    rintro ⟨_, _, -, -, rfl⟩
    rfl
  have htype : (∃ name, ComesTo format a name ∧ a.Misuses name) → f.kind = .type := by
    rintro ⟨name, hcomes, hname⟩
    obtain ⟨m, hm⟩ := hcomes.ofFormat_of_misuses hname
    obtain rfl : f = (Fault.misuse m).failure := Except.error.inj (h.symm.trans hm)
    rfl
  -- the three kinds differ, so that each case is decided by the one that it is reported under
  rcases ofFormat_cases h with hkind | ⟨hmissing, name, hcomes, hname⟩
  · rw [hkind] at hvalue htype ⊢
    exact ⟨⟨nofun, hvalue⟩, ⟨nofun, htype⟩, .inr (.inr rfl)⟩
  rcases a.resolve_cases hname with ⟨fault, hbroken⟩ | hmisuse | hmissing'
  · have hf : f = (Fault.format fault).failure :=
      Except.error.inj (h.symm.trans (hcomes.ofFormat_of_stumbles hbroken))
    have hkind := hvalue ⟨name, fault, hcomes, hbroken, hf⟩
    rw [hkind] at htype ⊢
    exact ⟨⟨fun _ => ⟨name, fault, hcomes, hbroken, hf⟩, fun _ => rfl⟩, ⟨nofun, htype⟩, .inl rfl⟩
  · have hkind := htype ⟨name, hcomes, hmisuse⟩
    rw [hkind] at hvalue ⊢
    exact ⟨⟨nofun, hvalue⟩, ⟨fun _ => ⟨name, hcomes, hmisuse⟩, fun _ => rfl⟩, .inr (.inl rfl)⟩
  · rw [hmissing'] at hmissing
    cases hmissing

/-- A point with no name behind it is a wrong value, since the index before it leads to a part of a
list. -/
theorem kind_of_ofFormat_point : ∃ f name fault,
    ofFormat "\x7b0[0].\x7d" { positional := [.list [.ofInt 5]] } = .error f ∧ f.kind = .value ∧
      ComesTo "\x7b0[0].\x7d" { positional := [.list [.ofInt 5]] } name ∧
      Arguments.Stumbles { positional := [.list [.ofInt 5]] } name fault := by
  have h : ofFormat "\x7b0[0].\x7d" { positional := [.list [.ofInt 5]] } =
      .error (Fault.format .emptyStep).failure := rfl
  obtain ⟨name, fault, hcomes, hname, -⟩ := (kind_of_ofFormat h).1.mp rfl
  exact ⟨_, name, fault, h, rfl, hcomes, hname⟩

/-- It is not so that a format string never fails as a wrong value. -/
theorem not_kind_of_ofFormat :
    ¬ ∀ format a f, ofFormat format a = .error f →
      f.kind ≠ .value ∧ f.kind ≠ .index ∧ f.kind ≠ .key ∧ f.kind ≠ .field := by
  intro hall
  have h : ofFormat "\x7b0.\x7d" { positional := [.ofInt 5] } =
    .error (Fault.format .emptyStep).failure := rfl
  exact (hall _ _ _ h).1 rfl

end Template

end PooledSql
