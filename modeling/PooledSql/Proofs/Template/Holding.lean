import PooledSql.Proofs.Literal.Comment
import PooledSql.Proofs.Literal.Refusal

/-!
# Fragments in values

Where a fragment that a template splices comes from. Running through a value, following a path into
it and taking it for a template lead to no fragments but those that lie in the value already, at
whatever depth and in whatever container (`Template.holds_of_ofSource`).

* `Value.parts`: what a value is made of.
* `Value.Holds`: a fragment lies anywhere in a value.
-/

namespace PooledSql

namespace Value

/-- What a value is made of, whatever kind of container it is. -/
def parts : Value → List Value
  | list vs | tuple vs => vs
  | dict entries => entries.map Prod.fst ++ entries.map Prod.snd
  | record fields => fields.map Prod.snd
  | template segments values => segments.map ofSegment ++ values
  | interpolation pieces parts => pieces ++ parts.map Prod.fst
  | statement sql params => [sql, params]
  | _ => []

/-- Whether a fragment lies anywhere in a value. -/
def Holds (f : Fragment) (v : Value) : Prop := Within parts (.fragment f) v

variable {f : Fragment} {u v w : Value}

/-- A value holds what one of its parts holds. -/
theorem Holds.of_part (h : u.Holds f) (hu : u ∈ v.parts) : v.Holds f := Within.part hu h

/-- A value without parts holds no fragment, unless it is one. -/
theorem not_holds (hv : v.parts = []) (hne : v ≠ .fragment f) : ¬ v.Holds f := fun h => by
  obtain heq | ⟨u, hu, -⟩ := within_iff.mp h
  · exact hne heq.symm
  · rw [hv] at hu
    exact List.not_mem_nil hu

/-- A fragment holds nothing but itself. -/
theorem holds_fragment_iff {g : Fragment} : (fragment g).Holds f ↔ g = f := by
  rw [Holds, within_iff]
  simp [parts, eq_comm]

/-- What a tuple holds, one of its items holds. -/
theorem holds_tuple_iff {vs : List Value} : (tuple vs).Holds f ↔ ∃ u ∈ vs, u.Holds f := by
  rw [Holds, within_iff]
  simp [parts, Holds]

/-- What a loop over a value runs through holds no fragments but those of the value. -/
theorem holds_of_mem_items {us : List Value} (hitems : v.items? = some us) (hu : u ∈ us)
    (h : u.Holds f) :
    v.Holds f := by
  cases v with
  | list vs | tuple vs =>
    cases hitems
    exact h.of_part hu
  | dict entries =>
    cases hitems
    exact h.of_part (List.mem_append_left _ hu)
  | text _ _ | bytes _ _ | range _ =>
    -- characters and numbers are no fragments
    cases hitems
    obtain ⟨_, -, rfl⟩ := List.mem_map.mp hu
    exact absurd h (not_holds rfl (by simp))
  | _ => cases hitems

/-- What is read by position holds no fragments but those of the sequence. -/
theorem holds_of_mem_sequence {sequence : Sequence} {us : List Value}
    (hitems : v.sequence? = some (sequence, us)) (hu : u ∈ us) (h : u.Holds f) : v.Holds f := by
  have hsame : v.items? = some us := by
    cases v <;> cases hitems <;> rfl
  exact holds_of_mem_items hsame hu h

/-- The value under a key holds no fragments but those of the dictionary. -/
theorem holds_of_lookupKey {key : Value} {entries : List (Value × Value)}
    (hw : lookupKey key entries = some w) (h : w.Holds f) : (dict entries).Holds f := by
  obtain ⟨entry, hentry, rfl⟩ := Option.map_eq_some_iff.mp hw
  exact h.of_part (List.mem_append_right _ (List.mem_map_of_mem (List.mem_of_find?_eq_some hentry)))

/-- An item of a sequence is one of its items. -/
theorem mem_of_itemAt {sequence : Sequence} {us : List Value} {n : Nat}
    (hu : itemAt sequence us n = .ok u) : u ∈ us := by
  rw [itemAt] at hu
  split at hu
  · next hget =>
    cases hu
    exact List.mem_of_getElem? hget
  · cases hu

/-- The part in a position holds no fragments but those of the value. -/
theorem holds_of_atPosition {n : Nat} (hw : v.atPosition n = .ok w) (h : w.Holds f) :
    v.Holds f := by
  rw [atPosition.eq_def] at hw
  split at hw
  · next hsequence => exact holds_of_mem_sequence hsequence (mem_of_itemAt hw) h
  · split at hw
    · next hlookup =>
      cases hw
      exact holds_of_lookupKey hlookup h
    · cases hw
  · cases hw

/-- The part under a text key holds no fragments but those of the value. -/
theorem holds_of_atKey {key : String} (hw : v.atKey key = .ok w) (h : w.Holds f) : v.Holds f := by
  rw [atKey.eq_def] at hw
  split at hw
  · cases hw
  · split at hw
    · next hlookup =>
      cases hw
      exact holds_of_lookupKey hlookup h
    · cases hw
  · cases hw

/-- A field holds no fragments but those of the value. -/
theorem holds_of_fieldNamed {name : String} (hw : v.fieldNamed name = .ok w) (h : w.Holds f) :
    v.Holds f := by
  have hfield : (name, w) ∈ v.fields := by
    rw [fieldNamed] at hw
    split at hw
    · next hlookup =>
      cases hw
      obtain ⟨l, l', heq, -⟩ := List.lookup_eq_some_iff.mp hlookup
      simp [heq]
    · cases hw
  -- by what has fields that may hold fragments: records, templates and statements
  cases v with
  | record fields => exact h.of_part (List.mem_map_of_mem hfield)
  | template segments values =>
    obtain ⟨-, rfl⟩ | ⟨-, rfl⟩ : name = "strings" ∧ w = tuple (segments.map ofSegment) ∨
        name = "values" ∧ w = tuple values := by simpa [fields] using hfield
    · obtain ⟨u, hu, h⟩ := holds_tuple_iff.mp h
      exact h.of_part (List.mem_append_left _ hu)
    · obtain ⟨u, hu, h⟩ := holds_tuple_iff.mp h
      exact h.of_part (List.mem_append_right _ hu)
  | statement sql params =>
    obtain ⟨-, rfl⟩ | ⟨-, rfl⟩ : name = "sql" ∧ w = sql ∨ name = "params" ∧ w = params := by
      simpa [fields] using hfield
    · exact h.of_part (by simp [parts])
    · exact h.of_part (by simp [parts])
  | _ =>
    -- the fields of numbers and dates are numbers
    have hplain : w.parts = [] ∧ w ≠ .fragment f := by
      simp only [fields, asInt?, List.mem_cons, Prod.mk.injEq, List.not_mem_nil, or_false] at hfield
      all_goals grind [parts]
    exact absurd h (not_holds hplain.1 hplain.2)

end Value

namespace Format

variable {f : Fragment} {v w : Value} {a : Arguments}

/-- All arguments. -/
def Arguments.values (a : Arguments) : List Value := a.positional ++ a.keyword.map Prod.snd

/-- What some steps lead to holds no fragments but those of the value they start from. -/
theorem Steps.holds_of_follow {steps : Steps} (hw : steps.follow v = .ok w) (h : w.Holds f) :
    v.Holds f := by
  induction steps generalizing v with
  | done =>
    cases hw
    exact h
  | fault _ => cases hw
  | field name rest ih =>
    obtain ⟨u, hu, hw⟩ := exists_of_bind_eq_ok hw
    exact Value.holds_of_fieldNamed hu (ih hw)
  | item key rest ih =>
    cases key with
    | position n =>
      obtain ⟨u, hu, hw⟩ := exists_of_bind_eq_ok hw
      exact Value.holds_of_atPosition hu (ih hw)
    | name s =>
      obtain ⟨u, hu, hw⟩ := exists_of_bind_eq_ok hw
      exact Value.holds_of_atKey hu (ih hw)

/-- What a path leads to holds no fragments but those of an argument. -/
theorem Arguments.holds_of_resolve {name : List Char} (hw : a.resolve name = .ok w)
    (h : w.Holds f) :
    ∃ v ∈ a.values, v.Holds f := by
  rw [resolve] at hw
  split at hw
  · cases hw
  · obtain ⟨v, hv, hw⟩ := exists_of_bind_eq_ok hw
    refine ⟨v, ?_, Steps.holds_of_follow hw h⟩
    -- the path starts from an argument, by its number or by its name
    rw [Arguments.get.eq_def] at hv
    split at hv
    · exact List.mem_append_left _ (Value.mem_of_itemAt hv)
    · split at hv
      · next hlookup =>
        cases hv
        obtain ⟨l, l', heq, -⟩ := List.lookup_eq_some_iff.mp hlookup
        simp [values, heq]
      · cases hv

end Format

namespace Template

variable {f : Fragment} {a : Format.Arguments} {t : Template}

/-- The values of fields hold no fragments but those of the arguments. -/
theorem holds_of_fieldValues {format : String} {next : Nat}
    {fields : List (Format.Field × List Char)}
    {vs : List Value} (hvs : fieldValues format a next fields = .ok vs) {w : Value} (hw : w ∈ vs)
    (h : w.Holds f) : ∃ v ∈ a.values, v.Holds f := by
  induction fields generalizing next vs with
  | nil =>
    cases hvs
    cases hw
  | cons field fields ih =>
    rw [fieldValues] at hvs
    split at hvs
    · cases hvs
    · obtain ⟨v, hv, hvs⟩ := exists_of_bind_eq_ok hvs
      obtain ⟨vs, hrest, heq⟩ := exists_of_bind_eq_ok hvs
      cases heq
      -- the value of this field is what a path leads to
      obtain rfl | hw := List.mem_cons.mp hw
      · rw [fieldValue] at hv
        split at hv
        · next hresolve =>
          cases hv
          exact a.holds_of_resolve hresolve h
        · split at hv <;> cases hv
      · exact ih hrest hw

/-- What a template has in the places of segments has been given as a segment. -/
theorem mem_of_segmentsOfValues {vs : List Value} {segments : List Segment}
    (h : segmentsOfValues vs = .ok segments) (hf : .fragment f ∈ segments) : .fragment f ∈ vs := by
  induction vs generalizing segments with
  | nil =>
    cases h
    cases hf
  | cons v vs ih =>
    obtain ⟨segment, hv, h⟩ := exists_of_bind_eq_ok h
    obtain ⟨segments, hvs, heq⟩ := exists_of_bind_eq_ok h
    cases heq
    obtain rfl | hf := List.mem_cons.mp hf
    · -- a segment that is a fragment is made of that fragment
      rw [segmentOfValue.eq_def] at hv
      split at hv <;> cases hv
      exact List.mem_cons_self
    · exact List.mem_cons_of_mem _ (ih hvs hf)

/-- A template of segments and values is made of them. -/
theorem eq_of_ofSegments {segments : List Segment} {values : List Value}
    (h : ofSegments segments values = .ok t) : t.segments = segments ∧ t.values = values := by
  rw [ofSegments] at h
  split at h <;> cases h
  exact ⟨rfl, rfl⟩

/-- What a template holds is a segment of it or lies in one of its values. -/
theorem holds_template_iff {segments : List Segment} {values : List Value} :
    (Value.template segments values).Holds f ↔
      .fragment f ∈ segments ∨ ∃ v ∈ values, v.Holds f := by
  -- a segment that is a text holds nothing
  have hsegment : ∀ s : Segment, (Value.ofSegment s).Holds f ↔ s = .fragment f := fun s => by
    cases s with
    | text lineage content =>
      have htext : ¬ (Value.text lineage content).Holds f := Value.not_holds rfl (by simp)
      simpa [Value.ofSegment] using htext
    | fragment g => simp [Value.ofSegment, Value.holds_fragment_iff]
  rw [Value.Holds, Value.within_iff]
  simp only [Value.parts, List.mem_append, List.mem_map]
  constructor
  · rintro (heq | ⟨_, ⟨s, hs, rfl⟩ | hv, h⟩)
    · cases heq
    · exact .inl ((hsegment s).mp h ▸ hs)
    · exact .inr ⟨_, hv, h⟩
  · rintro (hs | ⟨v, hv, h⟩)
    · exact .inr ⟨_, .inl ⟨_, hs, rfl⟩, (hsegment _).mpr rfl⟩
    · exact .inr ⟨v, .inr hv, h⟩

/-- A template of a format string holds no fragments but those of the arguments. -/
theorem holds_of_ofFormat {format : String} (ht : ofFormat format a = .ok t)
    (h : t.toValue.Holds f) : ∃ v ∈ a.values, v.Holds f := by
  obtain ⟨segments, values, hlength⟩ := t
  rw [ofFormat] at ht
  split at ht
  · cases ht
  · obtain ⟨vs, hvs, ht⟩ := exists_of_bind_eq_ok ht
    obtain ⟨rfl, rfl⟩ : segments = _ ∧ values = vs := eq_of_ofSegments ht
    rcases holds_template_iff.mp h with hs | ⟨w, hw, h⟩
    · -- the segments of a format string are texts
      simp [formatSegments] at hs
    · exact holds_of_fieldValues hvs hw h

/-- A template of lists holds no fragments but those of the lists. -/
theorem holds_of_ofLists {pieces parts : List Value}
    (ht : ofLists (.tuple pieces) (.tuple parts) = .ok t)
    (h : t.toValue.Holds f) : .fragment f ∈ pieces ∨ ∃ v ∈ parts, v.Holds f := by
  obtain ⟨segments, values, hlength⟩ := t
  obtain ⟨_, hpieces, ht⟩ := exists_of_bind_eq_ok ht
  obtain ⟨_, hvalues, ht⟩ := exists_of_bind_eq_ok ht
  cases hpieces
  cases hvalues
  split at ht
  · obtain ⟨_, hsegments, ht⟩ := exists_of_bind_eq_ok ht
    obtain ⟨rfl, rfl⟩ : segments = _ ∧ values = _ := eq_of_ofSegments ht
    exact (holds_template_iff.mp h).imp_left (mem_of_segmentsOfValues hsegments)
  · cases ht

/-- A template of an interpolation holds no fragments but those of its pieces and values. -/
theorem holds_of_ofInterpolation {pieces : List Value}
    {parts : List (Value × String × Option String × String)}
    (ht : ofInterpolation pieces parts = .ok t)
    (h : t.toValue.Holds f) : (Value.interpolation pieces parts).Holds f := by
  rw [ofInterpolation] at ht
  split at ht
  · cases ht
  · rcases holds_of_ofLists ht h with hs | ⟨w, hw, h⟩
    · exact Value.Holds.of_part .self (List.mem_append_left _ hs)
    · exact h.of_part (List.mem_append_right _ hw)

/-- A template holds no fragments but those of the value that it is made of. -/
theorem holds_of_ofValue {v : Value} (ht : ofValue v = .ok t) (h : t.toValue.Holds f) :
    v.Holds f := by
  rw [ofValue.eq_def] at ht
  split at ht
  · obtain ⟨segments, values, hlength⟩ := t
    obtain ⟨rfl, rfl⟩ := eq_of_ofSegments ht
    exact h
  · exact holds_of_ofInterpolation ht h
  · cases ht

/-- A template holds no fragments but those of its source. -/
theorem holds_of_ofSource {source : Value} (ht : ofSource source a = .ok t)
    (h : t.toValue.Holds f) :
    ∃ v ∈ source :: a.values, v.Holds f := by
  rw [ofSource.eq_def] at ht
  split at ht
  · obtain ⟨v, hv, h⟩ := holds_of_ofFormat ht h
    exact ⟨v, List.mem_cons_of_mem _ hv, h⟩
  · split at ht
    · exact ⟨source, List.mem_cons_self, holds_of_ofValue ht h⟩
    · cases ht

end Template

end PooledSql
