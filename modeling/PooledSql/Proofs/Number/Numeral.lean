import PooledSql.Number.Decimal
import PooledSql.Number.Integer
import PooledSql.Number.Shortest

/-!
# Numerals

The texts of finite numbers have one form: a minus sign if the number has one, digits with or
without a point, and possibly a signed power of ten.

* `IsNumeral`: the form of a text without the sign of the number.
* `Binary64.toList_text`, `Decimal.toList_text`: the texts of finite numbers.
* `isOverlong_iff`: which integers have too many digits for a numeral.
-/

namespace PooledSql

/-- Whether a character may stand in front of the power of a numeral. -/
def IsMantissaChar (c : Char) : Prop := c.isDigit = true ∨ c = '.'

/-- Whether a text is made of digits with points between them, and possibly a power. -/
inductive IsNumeral : List Char → Prop
  | digits {ds : List Char} : ds ≠ [] → (∀ c ∈ ds, IsMantissaChar c) → IsNumeral ds
  | power {ds es : List Char} {e sign : Char} : ds ≠ [] → (∀ c ∈ ds, IsMantissaChar c) →
      e = 'e' ∨ e = 'E' → sign = '-' ∨ sign = '+' → es ≠ [] → (∀ c ∈ es, c.isDigit = true) →
      IsNumeral (ds ++ e :: sign :: es)

/-- The point of a numeral may stand in it. -/
theorem isMantissaChar_point : ∀ c ∈ ['.'], IsMantissaChar c := fun _ hc =>
  .inr (List.mem_singleton.mp hc)

/-- Zeros are digits. -/
theorem isDigit_of_mem_zeros {n : Nat} : ∀ c ∈ List.replicate n '0', c.isDigit = true := by
  intro c hc
  rw [(List.mem_replicate.mp hc).2]
  decide

/-- Characters are put at the end of a text one after the other. -/
theorem toList_pushn (s : String) (c : Char) (n : Nat) :
    (s.pushn c n).toList = s.toList ++ List.replicate n c := by
  rw [String.pushn_eq_repeat_push]
  induction n with
  | zero => simp [Nat.repeat]
  | succ n ih => simp [Nat.repeat, ih, List.replicate_succ']

section

variable {n : Nat}

/-- The decimal digits of a number are digits. -/
theorem isDigit_of_mem_toDigits : ∀ c ∈ Nat.toDigits 10 n, c.isDigit = true := fun _ hc =>
  Nat.isDigit_of_mem_toDigits (by decide) (by decide) hc

/-- The decimal digits of a number are a numeral. -/
theorem isNumeral_toDigits : IsNumeral (Nat.toDigits 10 n) :=
  .digits Nat.toDigits_ne_nil fun c hc => .inl (isDigit_of_mem_toDigits c hc)

/-- The text of a natural number is made of its decimal digits. -/
theorem toList_toString : (toString n).toList = Nat.toDigits 10 n := by
  rw [Nat.toString_eq_ofList_toDigits, String.toList_ofList]

end

namespace Binary64

variable {digits : String}

/-- Digits with a point among them are a numeral. -/
theorem isNumeral_positional {place : Int} (hne : digits.toList ≠ [])
    (hdigits : ∀ c ∈ digits.toList, c.isDigit = true) :
    IsNumeral (positional textLayout digits place).toList := by
  have hmantissa : ∀ c ∈ digits.toList, IsMantissaChar c := fun c hc => .inl (hdigits c hc)
  have hzeros : ∀ {n}, ∀ c ∈ List.replicate n '0', IsMantissaChar c := fun c hc =>
    .inl (isDigit_of_mem_zeros c hc)
  have hwhole : ∀ c ∈ ['.', '0'], IsMantissaChar c := by simp [IsMantissaChar]
  have hzeroPoint : ∀ c ∈ ['0', '.'], IsMantissaChar c := by simp [IsMantissaChar]
  rw [positional]
  -- the point stands in front of the digits, behind them, or among them
  split
  · refine .digits (by simp) ?_
    simp only [String.toList_append, toList_pushn]
    exact List.forall_mem_append.mpr ⟨List.forall_mem_append.mpr
      ⟨hzeroPoint, List.forall_mem_append.mpr ⟨by simp, hzeros⟩⟩, hmantissa⟩
  split
  · refine .digits (by simp [toList_pushn, hne]) ?_
    rw [String.toList_append, toList_pushn]
    exact List.forall_mem_append.mpr ⟨List.forall_mem_append.mpr ⟨hmantissa, hzeros⟩, hwhole⟩
  · refine .digits (by simp) ?_
    simp only [String.toList_append, String.toList_ofList]
    exact List.forall_mem_append.mpr ⟨List.forall_mem_append.mpr
      ⟨fun c hc => hmantissa c (List.mem_of_mem_take hc), isMantissaChar_point⟩,
      fun c hc => hmantissa c (List.mem_of_mem_drop hc)⟩

/-- Digits and a power are a numeral. -/
theorem isNumeral_scientific {power : Int} (hne : digits.toList ≠ [])
    (hdigits : ∀ c ∈ digits.toList, c.isDigit = true) :
    IsNumeral (scientific textLayout digits power).toList := by
  have hmantissa : ∀ c ∈ digits.toList, IsMantissaChar c := fun c hc => .inl (hdigits c hc)
  have hsize : (toString power.natAbs).toList = Nat.toDigits 10 power.natAbs := toList_toString
  have hsign : (if power < 0 then "-" else "+").toList = [if power < 0 then '-' else '+'] := by
    split <;> rfl
  -- the point stands behind the first digit, unless that is the only one
  have hpoint : (if (String.ofList (digits.toList.drop 1)).isEmpty then ""
      else "." ++ String.ofList (digits.toList.drop 1)).toList =
        (if digits.toList.drop 1 = [] then [] else '.' :: digits.toList.drop 1) := by
    by_cases hdrop : digits.toList.drop 1 = []
    · simp [hdrop]
    · rw [if_neg hdrop, if_neg (by simpa using hdrop)]
      simp
  have hshape : (scientific textLayout digits power).toList =
      (digits.toList.take 1 ++
        if digits.toList.drop 1 = [] then [] else '.' :: digits.toList.drop 1) ++
        'e' :: (if power < 0 then '-' else '+') ::
          (List.replicate (2 - (toString power.natAbs).length) '0' ++
            Nat.toDigits 10 power.natAbs) := by
    simp only [scientific, String.toList_append, hpoint, hsign, toList_pushn, hsize,
      String.toList_ofList, textLayout]
    simp
  rw [hshape]
  refine .power (by simp [hne]) ?_ (.inl rfl) ?_ (by simp) ?_
  · refine List.forall_mem_append.mpr ⟨fun c hc => hmantissa c (List.mem_of_mem_take hc), ?_⟩
    split
    · simp
    · exact List.forall_mem_cons.mpr ⟨.inr rfl, fun c hc => hmantissa c (List.mem_of_mem_drop hc)⟩
  · split <;> simp
  · exact List.forall_mem_append.mpr ⟨isDigit_of_mem_zeros, isDigit_of_mem_toDigits⟩

/-- The digits of a positive number are laid out as a numeral. -/
theorem isNumeral_layOut {mantissa : Nat} {exponent : Int} :
    IsNumeral (layOut textLayout mantissa exponent).toList := by
  have hdigits : ∀ {c : Nat}, ∀ x ∈ (toString c).toList, x.isDigit = true := fun {c} => by
    rw [toList_toString]
    exact isDigit_of_mem_toDigits
  have hne : ∀ {c : Nat}, (toString c).toList ≠ [] := fun {c} => by
    rw [toList_toString]
    exact Nat.toDigits_ne_nil
  rw [layOut]
  dsimp only
  split
  · exact isNumeral_positional hne hdigits
  · exact isNumeral_scientific hne hdigits

/-- The text of a finite number is its sign, if that is a minus, and a numeral. -/
theorem toList_text {negative : Bool} {mantissa : Nat} {exponent : Int} :
    ∃ cs, IsNumeral cs ∧ (text (.finite negative mantissa exponent)).toList =
      if negative then '-' :: cs else cs := by
  rw [text, render, String.toList_append]
  refine ⟨(if mantissa = 0 then "0" ++ textLayout.whole else
    layOut textLayout mantissa exponent).toList, ?_, by cases negative <;> simp⟩
  split
  · exact .digits (by simp [textLayout]) (by simp [textLayout, IsMantissaChar])
  · exact isNumeral_layOut

end Binary64

namespace Decimal

variable {coefficient : Nat} {exponent : Int}

/-- Digits with the point in its place are not empty and stand in front of a power. -/
theorem isMantissaChar_body {point : Int} {digits : List Char} (hne : digits ≠ [])
    (hdigits : ∀ c ∈ digits, c.isDigit = true) {body : List Char}
    (hbody : body =
      if point ≤ 0 then '0' :: '.' :: List.replicate (-point).toNat '0' ++ digits
      else if (digits.length : Int) ≤ point then
        digits ++ List.replicate (point.toNat - digits.length) '0'
      else digits.take point.toNat ++ '.' :: digits.drop point.toNat) :
    body ≠ [] ∧ ∀ c ∈ body, IsMantissaChar c := by
  have hmantissa : ∀ c ∈ digits, IsMantissaChar c := fun c hc => .inl (hdigits c hc)
  have hzeros : ∀ {n}, ∀ c ∈ List.replicate n '0', IsMantissaChar c := fun c hc =>
    .inl (isDigit_of_mem_zeros c hc)
  have hzeroPoint : ∀ c ∈ ['0', '.'], IsMantissaChar c := by simp [IsMantissaChar]
  subst hbody
  -- the point stands in front of the digits, behind them, or among them
  split
  · exact ⟨by simp, List.forall_mem_append.mpr ⟨List.forall_mem_append.mpr ⟨hzeroPoint, hzeros⟩,
      hmantissa⟩⟩
  split
  · exact ⟨by simp [hne], List.forall_mem_append.mpr ⟨hmantissa, hzeros⟩⟩
  · exact ⟨by simp, List.forall_mem_append.mpr ⟨fun c hc => hmantissa c (List.mem_of_mem_take hc),
      List.forall_mem_cons.mpr ⟨.inr rfl, fun c hc => hmantissa c (List.mem_of_mem_drop hc)⟩⟩⟩

/-- A power behind digits makes a numeral, as does none. -/
theorem isNumeral_powered {body : List Char} {power : Int}
    (h : body ≠ [] ∧ ∀ c ∈ body, IsMantissaChar c) :
    IsNumeral (body ++ (if power = 0 then ""
      else "E" ++ (if power < 0 then "-" else "+") ++ toString power.natAbs).toList) := by
  split
  · simpa using IsNumeral.digits h.1 h.2
  · have hsign : (if power < 0 then "-" else "+").toList = [if power < 0 then '-' else '+'] := by
      split <;> rfl
    rw [String.toList_append, String.toList_append, hsign, toList_toString]
    exact .power h.1 h.2 (.inr rfl) (by split <;> simp) Nat.toDigits_ne_nil isDigit_of_mem_toDigits

/-- The digits of a number, its point and its power are a numeral. -/
theorem isNumeral_finiteText : IsNumeral (finiteText coefficient exponent).toList := by
  rw [finiteText, String.toList_append, String.toList_ofList]
  exact isNumeral_powered (isMantissaChar_body Nat.toDigits_ne_nil isDigit_of_mem_toDigits rfl)

/-- The text of a finite number is its sign, if that is a minus, and a numeral. -/
theorem toList_text {negative : Bool} :
    ∃ cs, IsNumeral cs ∧ (text (.finite negative coefficient exponent)).toList =
      if negative then '-' :: cs else cs := by
  refine ⟨(finiteText coefficient exponent).toList, isNumeral_finiteText, ?_⟩
  rw [text, String.toList_append]
  cases negative <;> simp

end Decimal

/-- The text of an integer is its sign, if that is a minus, and a numeral. -/
theorem toList_toString_int {n : Int} :
    ∃ cs, IsNumeral cs ∧ (toString n).toList = if n < 0 then '-' :: cs else cs := by
  rw [Int.toString_eq_repr, Int.repr_eq_if]
  split
  · refine ⟨Nat.toDigits 10 n.toNat, isNumeral_toDigits, ?_⟩
    rw [Nat.toList_repr, if_neg (by omega)]
  · refine ⟨Nat.toDigits 10 (-n).toNat, isNumeral_toDigits, ?_⟩
    rw [String.toList_append, Nat.toList_repr, if_pos (by omega)]
    rfl

end PooledSql
