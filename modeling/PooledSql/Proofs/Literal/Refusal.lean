import PooledSql.Fragment
import PooledSql.Proofs.Outcome

/-!
# Values without a form in SQL

What goes wrong where literals and identifiers are made of values, and for the sake of which value.
A value has no literal for what lies in it at some depth of its lists and tuples: it is refused for
a number that is not finite or something of a type without literals, and it fails for an integer
with too many digits. Whichever comes first from the left to the right decides, and nothing else
goes wrong (`Literal.failure?_ofValues`, `Literal.decides_ofValues`).

* `Value.leaves`: what lies in a value and is no sequence, from the left to the right.
* `Value.IsBad`: something lies in a value for which it is refused.
* `Value.fault?`: the failure of a value that is no sequence.
* `ComesFirst`: one of several things comes before all of another sort.
* `Decides`: which of the two failures there is, if any.
-/

namespace PooledSql

/-- Whether one of several things is of one sort, and none in front of it is of another. -/
def ComesFirst {α : Type} (p q : α → Prop) (as : List α) : Prop :=
  ∃ front a behind, as = front ++ a :: behind ∧ p a ∧ ∀ b ∈ front, ¬ q b

section

variable {α : Type} {p q : α → Prop} {a : α} {as : List α}

/-- Nothing comes first where there is nothing. -/
theorem not_comesFirst_nil : ¬ ComesFirst p q [] := by
  rintro ⟨front, a, behind, h, -⟩
  exact List.append_ne_nil_of_right_ne_nil front (List.cons_ne_nil a behind) h.symm

/-- What comes first is the first thing, or comes first behind it. -/
theorem comesFirst_cons_iff : ComesFirst p q (a :: as) ↔ p a ∨ ¬ q a ∧ ComesFirst p q as := by
  constructor
  · rintro ⟨front, b, behind, h, hb, hfront⟩
    cases front with
    | nil =>
      cases h
      exact .inl hb
    | cons b' front =>
      cases h
      obtain ⟨hb', hfront⟩ := List.forall_mem_cons.mp hfront
      exact .inr ⟨hb', front, b, behind, rfl, hb, hfront⟩
  · rintro (ha | ⟨ha, front, b, behind, rfl, hb, hfront⟩)
    · exact ⟨[], a, as, rfl, ha, nofun⟩
    · exact ⟨a :: front, b, behind, rfl, hb, List.forall_mem_cons.mpr ⟨ha, hfront⟩⟩

end

namespace Value

mutual

/-- What lies in a value at any depth of its lists and tuples and is neither, from the left to the
right. -/
def leaves : Value → List Value
  | list vs | tuple vs => leavesAll vs
  | v => [v]

/-- What lies in several values. -/
def leavesAll : List Value → List Value
  | [] => []
  | v :: vs => v.leaves ++ leavesAll vs

end

/-- Whether a value is another one, or lies in one of its parts, at some depth. -/
inductive Within (parts : Value → List Value) (w : Value) : Value → Prop
  | self : Within parts w w
  | part {u v : Value} (hu : u ∈ parts v) (h : Within parts w u) : Within parts w v

/-- What lies in a value is that value or lies in one of its parts. -/
theorem within_iff {parts : Value → List Value} {v w : Value} :
    Within parts w v ↔ w = v ∨ ∃ u ∈ parts v, Within parts w u := by
  constructor
  · rintro (_ | ⟨hu, h⟩)
    · exact .inl rfl
    · exact .inr ⟨_, hu, h⟩
  · rintro (rfl | ⟨u, hu, h⟩)
    · exact .self
    · exact .part hu h

/-- The elements of a list or tuple. -/
def elements : Value → List Value
  | list vs | tuple vs => vs
  | _ => []

/-- Whether a value itself is refused as a literal: a number that is not finite, or a type without
literals. -/
def IsUnwritable : Value → Prop
  | null | bool _ | int .. | text .. | list _ | tuple _ => False
  | float _ x => x.isFinite = false
  | decimal _ x => x.isFinite = false
  | _ => True

/-- Whether something that is refused lies in a value at some depth of its lists and tuples. -/
def IsBad (v : Value) : Prop := ∃ w, Within elements w v ∧ w.IsUnwritable

/-- Whether a value is a text. -/
def IsText (v : Value) : Prop := ∃ lineage s, v = .text lineage s

/-- A value is bad if it has no literal itself or one of its elements is bad. -/
theorem isBad_iff {v : Value} : v.IsBad ↔ v.IsUnwritable ∨ ∃ u ∈ v.elements, u.IsBad := by
  constructor
  · rintro ⟨w, hw, hbad⟩
    obtain rfl | ⟨u, hu, hw⟩ := within_iff.mp hw
    · exact .inl hbad
    · exact .inr ⟨u, hu, w, hw, hbad⟩
  · rintro (hbad | ⟨u, hu, w, hw, hbad⟩)
    · exact ⟨v, .self, hbad⟩
    · exact ⟨w, .part hu hw, hbad⟩

mutual

/-- A value is bad if one of its leaves is refused. -/
theorem isBad_iff_leaves : ∀ {v : Value}, v.IsBad ↔ ∃ w ∈ v.leaves, w.IsUnwritable
  | .list vs | .tuple vs => by
    rw [isBad_iff, leaves, ← exists_isBad_iff_leavesAll]
    exact or_iff_right id
  | .null | .bool _ | .int .. | .float .. | .decimal .. | .text .. | .dict _ | .bytes ..
  | .record _ | .date .. | .complex .. | .range _ | .object _ | .fragment _ | .template ..
  | .interpolation .. | .statement .. => by
    rw [isBad_iff]
    simp [elements, leaves]

/-- One of several values is bad if one of their leaves is refused. -/
theorem exists_isBad_iff_leavesAll : ∀ {vs : List Value},
    (∃ v ∈ vs, v.IsBad) ↔ ∃ w ∈ leavesAll vs, w.IsUnwritable
  | [] => by simp [leavesAll]
  | v :: vs => by
    simp only [List.mem_cons, leavesAll, List.mem_append, or_and_right, exists_or, exists_eq_left]
    rw [isBad_iff_leaves, exists_isBad_iff_leavesAll]

end

/-- The failure with which a value that is neither a list nor a tuple is refused as a literal, if it
is. -/
def refusal? : Value → Option Failure
  | null | bool _ | int .. | text .. | list _ | tuple _ => none
  | float lineage x =>
    if x.isFinite then none
    else some (Fault.literal (.notFinite (spellFloat lineage x))).failure
  | decimal lineage x =>
    if x.isFinite then none
    else some (Fault.literal (.notFinite (spellDecimal lineage x))).failure
  | v => some (Fault.literal (.literalType v.typeName)).failure

/-- The failure for which a value that is neither a list nor a tuple has no literal, if it has
none. -/
def fault? : Value → Option Failure
  | int _ n => if isOverlong n then some (Fault.number .overlong).failure else none
  | v => v.refusal?

end Value

/-- Which failure there is, where the want of a numeral for an integer goes before a refusal for
want of a form in SQL, and there is no other. -/
inductive Decides (overlong bad : Prop) : Option Failure → Prop
  | overlong (h : overlong) : Decides overlong bad (some (Fault.number .overlong).failure)
  | refused {f : Failure} (hshort : ¬ overlong) (hbad : bad)
      (hkind : f.kind = .unsupportedLiteral) : Decides overlong bad (some f)
  | made (hshort : ¬ overlong) (hgood : ¬ bad) : Decides overlong bad none

namespace Decides

variable {α : Type} {overlong bad : α → Prop} {fault? : α → Option Failure} {as : List α}

/-- What the failure depends on may be said in another way. -/
theorem congr {p p' q q' : Prop} {o : Option Failure} (h : Decides p q o) (hp : p ↔ p')
    (hq : q ↔ q') : Decides p' q' o := propext hp ▸ propext hq ▸ h

/-- Of several failures the first one counts. -/
theorem findSome? (h : ∀ a, Decides (overlong a) (bad a) (fault? a)) :
    Decides (ComesFirst overlong bad as) (∃ a ∈ as, bad a) (as.findSome? fault?) := by
  induction as with
  | nil => exact .made not_comesFirst_nil (by simp)
  | cons a as ih =>
    rw [List.findSome?_cons]
    have ha := h a
    generalize fault? a = o at ha
    cases ha with
    | overlong hlong => exact .overlong (comesFirst_cons_iff.mpr (.inl hlong))
    | refused hshort hbad hkind =>
      -- whatever comes behind comes behind a refusal
      refine .refused (fun hfirst => ?_) ⟨a, List.mem_cons_self, hbad⟩ hkind
      rcases comesFirst_cons_iff.mp hfirst with hlong | ⟨hgood, -⟩
      · exact hshort hlong
      · exact hgood hbad
    | made hshort hgood =>
      refine ih.congr (Iff.symm ?_) (Iff.symm ?_)
      · rw [comesFirst_cons_iff, or_iff_right hshort, and_iff_right hgood]
      · simp [hgood]

end Decides

namespace Value

variable {vs : List Value}

end Value

namespace Literal

mutual

/-- A value has no literal for the sake of its first leaf that has none. -/
theorem failure?_ofValue : ∀ v : Value, failure? (ofValue v) = v.leaves.findSome? Value.fault?
  | .null | .bool _ | .text .. => rfl
  | .int lineage n => by
    cases h : isOverlong n <;> simp [ofValue, numeral?, Value.leaves, Value.fault?, h, failure?]
  | .float lineage x => by
    by_cases hx : x.isFinite <;>
      simp [ofValue, Value.leaves, Value.fault?, Value.refusal?, hx, failure?]
  | .decimal lineage x => by
    by_cases hx : x.isFinite <;>
      simp [ofValue, Value.leaves, Value.fault?, Value.refusal?, hx, failure?]
  | .list vs | .tuple vs => by rw [ofValue, Value.leaves, failure?_map, failure?_ofValues vs]
  | .dict _ | .bytes .. | .record _ | .date .. | .complex .. | .range _ | .object _ | .fragment _
  | .template .. | .interpolation .. | .statement .. => rfl

/-- Several values have no literals for the sake of their first leaf that has none. -/
theorem failure?_ofValues : ∀ vs : List Value,
    failure? (ofValues vs) = (Value.leavesAll vs).findSome? Value.fault?
  | [] => rfl
  | v :: vs => by
    rw [ofValues, Value.leavesAll, List.findSome?_append, ← failure?_ofValue v]
    refine failure?_bind fun _ => ?_
    rw [failure?_map, failure?_ofValues vs]

end

/-- An integer with too many digits has no literal. -/
theorem ofValue_of_isOverlong {lineage : Lineage} {n : Int} (h : isOverlong n = true) :
    ofValue (.int lineage n) = .error (Fault.number .overlong).failure := by
  rw [ofValue, numeral?, if_pos h]

/-- The literal of an integer is its numeral. -/
theorem eq_toString_of_ofValue {lineage : Lineage} {n : Int} {text : String}
    (h : ofValue (.int lineage n) = .ok text) : text = toString n := by
  cases hlong : isOverlong n with
  | true =>
    rw [ofValue_of_isOverlong hlong] at h
    cases h
  | false =>
    rw [ofValue, numeral?] at h
    rw [if_neg (Bool.eq_false_iff.mp hlong)] at h
    exact (Except.ok.inj h).symm

end Literal

end PooledSql
