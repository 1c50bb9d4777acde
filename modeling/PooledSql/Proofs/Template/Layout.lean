import PooledSql.Fragment
import PooledSql.Proofs.Outcome
import PooledSql.Statement

/-!
# Layouts

What a template amounts to when its fragments are resolved: text, with the values that are passed to
the server in their places. The statement of a template is known by its layout
(`Template.compile_eq`), and two templates with the same layout have the same statement, whatever
segments and fragments they are made of.

* `Template.pieces`: what a template is made of, in order.
* `Layout`: the text in front of all values that are passed, and each of them with the text behind
  it.
* `Piece.layOut`: the layout of some pieces.
-/

namespace PooledSql

/-- A part of a template: a fragment that is spliced, or a value that is passed. -/
inductive Piece
  | spliced (fragment : Fragment)
  | passed (v : Value)

/-- Whether a value is a fragment, which is spliced rather than passed. -/
def Value.isFragment : Value → Bool
  | fragment _ => true
  | _ => false

/-- A value that is a fragment. -/
theorem Value.exists_of_isFragment {v : Value} (hv : v.isFragment = true) :
    ∃ f, v = .fragment f := by
  cases v with
  | fragment f => exact ⟨f, rfl⟩
  | _ => cases hv

/-- A value as a part of a template. -/
def Piece.ofValue : Value → Piece
  | .fragment f => .spliced f
  | v => .passed v

/-- The value that a part of a template passes. -/
def Piece.passed? : Piece → Option Value
  | spliced _ => none
  | passed v => some v

/-- Text with values in it. Each value stands in front of the text up to the next one. -/
structure Layout where
  front : String := ""
  passed : List (Value × String) := []

namespace Layout

/-- A layout behind a text. -/
def prepend (text : String) (l : Layout) : Layout := { l with front := text ++ l.front }

/-- A layout behind a value. -/
def pass (v : Value) (l : Layout) : Layout := { passed := (v, l.front) :: l.passed }

/-- Values as placeholders, each with the text behind it, when the first of them has the number
`next`. -/
def body (next : Nat) : List (Value × String) → String
  | [] => ""
  | (_, text) :: rest => placeholder next ++ text ++ body (next + 1) rest

/-- The statement of a layout when its first parameter has the number `next`. -/
def statement (next : Nat) (l : Layout) : Statement :=
  { sql := l.front ++ body next l.passed, params := l.passed.map Prod.fst }

variable {l : Layout} {next : Nat}

theorem statement_prepend {text : String} :
    (l.prepend text).statement next = (l.statement next).prepend text [] := by
  simp [statement, prepend, Statement.prepend, String.append_assoc]

theorem statement_pass {v : Value} :
    (l.pass v).statement next = (l.statement (next + 1)).prepend (placeholder next) [v] := by
  simp [statement, pass, body, Statement.prepend, String.append_assoc]

end Layout

theorem Statement.prepend_prepend {s : Statement} {text text' : String}
    {params params' : List Value} :
    (s.prepend text' params').prepend text params =
      s.prepend (text ++ text') (params ++ params') := by
  simp [prepend, String.append_assoc]

/-- The layout of some pieces; the first fragment that cannot be resolved decides the failure. -/
def Piece.layOut (context : Context) : List Piece → Except Failure Layout
  | [] => .ok {}
  | .spliced f :: ps => do
    let text ← f.resolve context
    return (← layOut context ps).prepend text
  | .passed v :: ps => return (← layOut context ps).pass v

namespace Template

/-- What segments with values between them are made of. -/
def piecesOf : List Segment → List Value → List Piece
  | [], _ => []
  | s :: ss, [] => .spliced (.ofSegment s) :: piecesOf ss []
  | s :: ss, v :: vs => .spliced (.ofSegment s) :: .ofValue v :: piecesOf ss vs

/-- What a template is made of. -/
def pieces (t : Template) : List Piece := piecesOf t.segments t.values

/-- The layout of a template. -/
def layout (t : Template) (context : Context) : Except Failure Layout :=
  Piece.layOut context t.pieces

end Template

/-- Texts without a separator are the first of them in front of the others. -/
theorem intercalate_empty_cons {text : String} {texts : List String} :
    "".intercalate (text :: texts) = text ++ "".intercalate texts := by
  cases texts <;> simp [String.intercalate_cons_cons]

/-- Fragments that are joined are the text of the first of them in front of the others. -/
theorem Fragment.resolve_joined_cons {context : Context} {f : Fragment} {fs : List Fragment}
    {text : String} (hf : f.resolve context = .ok text) :
    (joined "" (f :: fs)).resolve context = ((joined "" fs).resolve context).map (text ++ ·) := by
  rw [resolve, resolve, resolveAll, hf]
  cases resolveAll context fs with
  | error e => rfl
  | ok texts => exact congrArg Except.ok intercalate_empty_cons

/-- A segment is a fragment with its text. -/
theorem Fragment.resolve_ofSegment {context : Context} {s : Segment} :
    (ofSegment s).resolve context = s.resolve context := by
  cases s <;> rfl

/-- A value that is no fragment is passed. -/
theorem Piece.ofValue_eq {v : Value} (hv : v.isFragment = false) : ofValue v = .passed v := by
  cases v with
  | fragment f => cases hv
  | _ => rfl

namespace Piece

variable {context : Context} {ps : List Piece} {l : Layout}

/-- A layout behind a value is the rest of it behind the value. -/
theorem layOut_passed {v : Value} :
    layOut context (.passed v :: ps) = (layOut context ps).map (.pass v) := by
  rw [layOut]
  cases layOut context ps <;> rfl

/-- A layout behind a fragment is the rest of it behind the text of the fragment. -/
theorem layOut_spliced {f : Fragment} {text : String} (hf : f.resolve context = .ok text) :
    layOut context (.spliced f :: ps) = (layOut context ps).map (.prepend text) := by
  rw [layOut, hf]
  cases layOut context ps <;> rfl

/-- A layout has a fragment in front if that has a text and the rest has a layout. -/
theorem exists_of_layOut_spliced {f : Fragment} (h : layOut context (.spliced f :: ps) = .ok l) :
    ∃ text l', f.resolve context = .ok text ∧ layOut context ps = .ok l' ∧ l = l'.prepend text := by
  -- of the failures, that of the fragment comes first
  cases hf : f.resolve context with
  | error e =>
    rw [layOut, hf] at h
    cases h
  | ok text =>
    rw [layOut_spliced hf] at h
    cases hps : layOut context ps with
    | error e => rw [hps] at h; cases h
    | ok l' =>
      rw [hps] at h
      cases h
      exact ⟨text, l', rfl, rfl, rfl⟩

/-- A layout has a value in front if the rest has a layout. -/
theorem exists_of_layOut_passed {v : Value} (h : layOut context (.passed v :: ps) = .ok l) :
    ∃ l', layOut context ps = .ok l' ∧ l = l'.pass v := by
  rw [layOut_passed] at h
  cases hps : layOut context ps with
  | error e => rw [hps] at h; cases h
  | ok l' =>
    rw [hps] at h
    cases h
    exact ⟨l', rfl, rfl⟩

/-- The values in a layout are those that its pieces pass. -/
theorem passed_of_layOut (h : layOut context ps = .ok l) :
    l.passed.map Prod.fst = ps.filterMap passed? := by
  induction ps generalizing l with
  | nil =>
    cases h
    rfl
  | cons p ps ih =>
    -- a fragment adds to the text alone, a value is passed
    cases p with
    | spliced f =>
      obtain ⟨text, l', -, hps, rfl⟩ := exists_of_layOut_spliced h
      have hrest : l'.passed.map Prod.fst = ps.filterMap passed? := ih hps
      exact hrest
    | passed v =>
      obtain ⟨l', hps, rfl⟩ := exists_of_layOut_passed h
      exact congrArg (v :: ·) (ih hps)

end Piece

namespace Template

variable {context : Context} {next : Nat} {s : Segment} {segments : List Segment} {v : Value}
  {values : List Value}

/-- The values that a template passes are those that are no fragments. -/
theorem filterMap_piecesOf (hlength : values.length ≤ segments.length) :
    (piecesOf segments values).filterMap Piece.passed? = values.filter fun v => !v.isFragment := by
  induction segments generalizing values with
  | nil =>
    obtain rfl := List.eq_nil_of_length_eq_zero (Nat.le_zero.mp hlength)
    rfl
  | cons s segments ih =>
    -- behind the last value stand segments only
    cases values with
    | nil => exact ih (Nat.zero_le _)
    | cons v values =>
      have hrest := ih (Nat.succ_le_succ_iff.mp hlength)
      by_cases hv : v.isFragment
      · obtain ⟨f, rfl⟩ := Value.exists_of_isFragment hv
        exact hrest
      · rw [Bool.not_eq_true] at hv
        rw [piecesOf, Piece.ofValue_eq hv, List.filter_cons_of_pos (by simp [hv]), ← hrest]
        rfl

/-- A value that is no fragment becomes a placeholder. -/
theorem compileFrom_passed (hv : v.isFragment = false) :
    compileFrom context next (s :: segments) (v :: values) = (do
      let text ← s.resolve context
      return (← compileFrom context (next + 1) segments values).prepend (text ++
        placeholder next) [v]) := by
  cases v with
  | fragment f => cases hv
  | _ => rfl

/-- What segments with values between them are compiled to is the statement of their layout. -/
theorem compileFrom_eq : compileFrom context next segments values =
    (Piece.layOut context (piecesOf segments values)).map (Layout.statement next) := by
  -- the induction takes a segment and the value behind it in one step, as compiling does
  induction segments generalizing values next with
  | nil => rfl
  | cons s segments ih =>
    cases values with
    | nil =>
      rw [compileFrom, piecesOf, Piece.layOut, Fragment.resolve_ofSegment, ih]
      cases s.resolve context with
      | error f => rfl
      | ok text =>
        cases Piece.layOut context (piecesOf segments []) with
        | error f => rfl
        | ok l => exact congrArg Except.ok l.statement_prepend.symm
    | cons v values =>
      rw [piecesOf, Piece.layOut, Fragment.resolve_ofSegment]
      by_cases hv : v.isFragment
      · -- a fragment takes no number: the rest goes on with the same one
        obtain ⟨f, rfl⟩ := Value.exists_of_isFragment hv
        rw [compileFrom, Piece.ofValue, Piece.layOut]
        cases s.resolve context with
        | error f => rfl
        | ok text =>
          cases hspliced : f.resolve context with
          | error f => simp only [hspliced]; rfl
          | ok spliced =>
            simp only [hspliced, ih]
            cases Piece.layOut context (piecesOf segments values) with
            | error f => rfl
            | ok l =>
              refine congrArg Except.ok ?_
              rw [Layout.statement_prepend, Layout.statement_prepend, Statement.prepend_prepend]
              rfl
      · -- a value takes the next number
        rw [Bool.not_eq_true] at hv
        rw [compileFrom_passed hv, Piece.ofValue_eq hv, Piece.layOut, ih]
        cases s.resolve context with
        | error f => rfl
        | ok text =>
          cases Piece.layOut context (piecesOf segments values) with
          | error f => rfl
          | ok l =>
            refine congrArg Except.ok ?_
            rw [Layout.statement_prepend, Layout.statement_pass, Statement.prepend_prepend]
            rfl

/-- The statement of a template is that of its layout. -/
theorem compile_eq {t : Template} :
    t.compile context = (t.layout context).map (Layout.statement 1) :=
  compileFrom_eq

/-- The values in the layout of a template are those that are no fragments. -/
theorem passed_of_layout {t : Template} {l : Layout} (hl : t.layout context = .ok l) :
    l.passed.map Prod.fst = t.values.filter fun v => !v.isFragment := by
  rw [Piece.passed_of_layOut hl]
  exact filterMap_piecesOf (by rw [t.length_segments]; exact Nat.le_succ _)

end Template

end PooledSql
