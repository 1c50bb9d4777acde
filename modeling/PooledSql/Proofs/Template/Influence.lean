import Mathlib.Data.List.Forall2
import PooledSql.Proofs.Format.Grammar

/-!
# Influence of values

Values that are no fragments never get into the text of a statement. Two runs with the same format
string, whose arguments are the same fragments and other values in the same places, fail in the same
way or give the same text, and their parameters are the values that the fields refer to
(`Template.compile_ofFormat_alike`).

* `Value.Alike`: two values of which none is a fragment, or both are the same.
* `Agree`: outcomes of two runs.
-/

namespace PooledSql

/-- Whether two values are the same unless none of them is a fragment. -/
def Value.Alike (v w : Value) : Prop := v.isFragment = true ∨ w.isFragment = true → v = w

/-- Whether there are the same arguments, except that values which are no fragments may differ. -/
def Format.Arguments.Alike (a b : Format.Arguments) : Prop :=
  ∀ key, Option.Rel Value.Alike (a.find? key) (b.find? key)

/-- Whether two runs fail in the same way, or succeed with related results. -/
inductive Agree {α β : Type} (r : α → β → Prop) : Except Failure α → Except Failure β → Prop
  | error (f : Failure) : Agree r (.error f) (.error f)
  | ok {x : α} {y : β} : r x y → Agree r (.ok x) (.ok y)

namespace Agree

variable {α β γ δ : Type} {r : α → β → Prop} {s : γ → δ → Prop} {x : Except Failure α}
  {y : Except Failure β}

/-- Runs agree if they go on likewise from where they agree. -/
theorem bind {f : α → Except Failure γ} {g : β → Except Failure δ} (h : Agree r x y)
    (hfg : ∀ a b, r a b → Agree s (f a) (g b)) : Agree s (x >>= f) (y >>= g) := by
  cases h with
  | error e => exact .error e
  | ok hr => exact hfg _ _ hr

/-- Runs with related results have results that are related in every way that follows. -/
theorem mono {r' : α → β → Prop} (h : Agree r x y) (hr : ∀ a b, r a b → r' a b) : Agree r' x y := by
  cases h with
  | error e => exact .error e
  | ok hab => exact .ok (hr _ _ hab)

/-- A run agrees with itself. -/
theorem refl {x : Except Failure α} : Agree Eq x x := by
  cases x with
  | error f => exact .error f
  | ok a => exact .ok rfl

end Agree

namespace Value.Alike

variable {v w : Value}

/-- Values that are alike are fragments both, or none. -/
theorem isFragment_eq (h : Alike v w) : v.isFragment = w.isFragment := by
  cases hv : v.isFragment with
  | true => rw [← h (.inl hv), hv]
  | false =>
    cases hw : w.isFragment with
    | true => rw [h (.inr hw), hw] at hv; cases hv
    | false => rfl

end Value.Alike

namespace Layout

/-- Whether two layouts have the same texts. -/
def SameTexts (l l' : Layout) : Prop :=
  l.front = l'.front ∧ l.passed.map Prod.snd = l'.passed.map Prod.snd

/-- Placeholders do not depend on what they stand for. -/
theorem body_congr {passed passed' : List (Value × String)} {next : Nat}
    (h : passed.map Prod.snd = passed'.map Prod.snd) : body next passed = body next passed' := by
  induction passed generalizing passed' next with
  | nil =>
    obtain rfl : passed' = [] := by simpa using h.symm
    rfl
  | cons p passed ih =>
    cases passed' with
    | nil => cases h
    | cons p' passed' =>
      obtain ⟨htext, hrest⟩ := List.cons_eq_cons.mp h
      have hrest' : body (next + 1) passed = body (next + 1) passed' := ih hrest
      simp only [body, htext, hrest']

/-- Layouts with the same texts have statements with the same text. -/
theorem SameTexts.sql_eq {l l' : Layout} {next : Nat} (h : SameTexts l l') :
    (l.statement next).sql = (l'.statement next).sql := by
  rw [statement, statement, h.1, body_congr h.2]

end Layout

namespace Template

variable {context : Context} {segments : List Segment} {vs ws : List Value}

/-- Templates with the same segments, whose values are alike, have layouts with the same texts. -/
theorem agree_layOut (h : List.Forall₂ Value.Alike vs ws) :
    Agree Layout.SameTexts (Piece.layOut context (piecesOf segments vs))
      (Piece.layOut context (piecesOf segments ws)) := by
  induction segments generalizing vs ws with
  | nil => exact .ok ⟨rfl, rfl⟩
  | cons s segments ih =>
    cases h with
    | nil =>
      refine Agree.refl.mono ?_
      rintro l _ rfl
      exact ⟨rfl, rfl⟩
    | @cons v w vs ws hvw h =>
      have hrest := ih h
      refine Agree.refl.bind ?_
      rintro text _ rfl
      -- the value behind the segment is the same fragment in both runs, or none in either
      have hvalue : Agree Layout.SameTexts
          (Piece.layOut context (.ofValue v :: piecesOf segments vs))
          (Piece.layOut context (.ofValue w :: piecesOf segments ws)) := by
        by_cases hv : v.isFragment
        · obtain rfl := hvw (.inl hv)
          obtain ⟨f, rfl⟩ := Value.exists_of_isFragment hv
          refine Agree.refl.bind ?_
          rintro text' _ rfl
          exact hrest.bind fun l l' hl => .ok ⟨congrArg (text' ++ ·) hl.1, hl.2⟩
        · rw [Bool.not_eq_true] at hv
          have hw : w.isFragment = false := hvw.isFragment_eq ▸ hv
          rw [Piece.ofValue_eq hv, Piece.ofValue_eq hw]
          exact hrest.bind fun l l' hl => .ok ⟨rfl, congrArg₂ List.cons hl.1 hl.2⟩
      exact hvalue.bind fun l l' hl => .ok ⟨congrArg (text ++ ·) hl.1, hl.2⟩

section

open Format

variable {a b : Arguments} {format : String} {name : List Char} {names : List (List Char)}
  {next : Nat} {raw : List (Field × List Char)}

/-- Whether two rows of values are those that fields refer to in two runs. -/
def Refer (a b : Arguments) (keys : List Key) (vs ws : List Value) : Prop :=
  keys.map a.find? = vs.map some ∧ keys.map b.find? = ws.map some

/-- A field refers to the same argument in both runs, or to none. -/
theorem agree_fieldValue (halike : a.Alike b) (hname : ∀ c ∈ name, startsStep c = false) :
    Agree (fun v w => a.find? (referent next name) = some v ∧ b.find? (referent next name) = some w)
      (fieldValue format a (written next name)) (fieldValue format b (written next name)) := by
  rw [fieldValue, fieldValue, a.resolve_eq (startsStep_of_mem_written hname),
    b.resolve_eq (startsStep_of_mem_written hname)]
  -- the key is read off the format string alone
  cases hkey : readKey (written next name) with
  | error f => exact .error _
  | ok key =>
    obtain rfl : key = referent next name := by
      rw [eq_referent_of_readKey written_ne_nil hkey, referent_written]
    simp only [Arguments.get_eq]
    have hvalues := halike (referent next name)
    cases ha : a.find? (referent next name) with
    | none =>
      cases hb : b.find? (referent next name) with
      | none =>
        dsimp only
        -- an argument that is missing is missing in both runs
        split <;> exact .error _
      | some w => rw [ha, hb] at hvalues; cases hvalues
    | some v =>
      cases hb : b.find? (referent next name) with
      | none => rw [ha, hb] at hvalues; cases hvalues
      | some w => exact .ok ⟨rfl, rfl⟩

/-- Fields refer to the same arguments in both runs, unless they have no values. -/
theorem agree_fieldValues (halike : a.Alike b)
    (hnames : ∀ f ∈ raw, ∀ c ∈ f.1.name, startsStep c = false) :
    Agree (Refer a b (keysFrom next (raw.map fun f => f.1.name)))
      (fieldValues format a next raw) (fieldValues format b next raw) := by
  induction raw generalizing next with
  | nil => exact .ok ⟨rfl, rfl⟩
  | cons f raw ih =>
    obtain ⟨hname, hnames⟩ := List.forall_mem_cons.mp hnames
    -- fields are looked up from the left to the right, and so are their keys
    by_cases hf : f.1.IsPlain
    · rw [fieldValues_cons hf, fieldValues_cons hf, List.map_cons, keysFrom_cons]
      refine (agree_fieldValue halike hname).bind fun v w hvw =>
        (ih hnames).bind fun vs ws hrest => .ok ?_
      exact ⟨congrArg₂ List.cons hvw.1 hrest.1, congrArg₂ List.cons hvw.2 hrest.2⟩
    · -- a field with a conversion or a format fails whatever the arguments are
      have hfault : f.1.conversion.isSome || !f.1.spec.isEmpty := by
        cases hconversion : f.1.conversion <;> simp_all [Field.IsPlain]
      rw [fieldValues, fieldValues, if_pos hfault, if_pos hfault]
      exact .error _

/-- The values that fields refer to in two runs are alike. -/
theorem Refer.forall₂ {keys : List Key} {vs ws : List Value} (h : Refer a b keys vs ws)
    (halike : a.Alike b) : List.Forall₂ Value.Alike vs ws := by
  obtain ⟨ha, hb⟩ := h
  induction keys generalizing vs ws with
  | nil =>
    obtain rfl : vs = [] := by simpa using ha.symm
    obtain rfl : ws = [] := by simpa using hb.symm
    exact .nil
  | cons key keys ih =>
    -- both runs have a value for each key, and those of one key are alike
    cases vs with
    | nil => cases ha
    | cons v vs =>
      cases ws with
      | nil => cases hb
      | cons w ws =>
        obtain ⟨hv, ha⟩ := List.cons_eq_cons.mp ha
        obtain ⟨hw, hb⟩ := List.cons_eq_cons.mp hb
        have hvw := halike key
        rw [hv, hw] at hvw
        cases hvw with
        | some hvw => exact .cons hvw (ih ha hb)

/-- Whether the argument under a key is there and is no fragment. -/
def passes (a : Arguments) (key : Key) : Bool := (a.find? key).any fun v => !v.isFragment

/-- The values that are passed are those that fields refer to and that are no fragments. -/
theorem map_find?_passes {keys : List Key} (h : keys.map a.find? = vs.map some)
    (hpasses : ∀ key ∈ keys,
    passes a key = passes b key) : (keys.filter (passes b)).map a.find? =
      (vs.filter fun v => !v.isFragment).map some := by
  induction keys generalizing vs with
  | nil =>
    obtain rfl : vs = [] := by simpa using h.symm
    rfl
  | cons key keys ih =>
    cases vs with
    | nil => cases h
    | cons v vs =>
      obtain ⟨hv, h⟩ := List.cons_eq_cons.mp h
      obtain ⟨hkey, hpasses⟩ := List.forall_mem_cons.mp hpasses
      -- a key is passed exactly if its value is no fragment
      have hpass : passes b key = !v.isFragment := by rw [← hkey, passes, hv]; rfl
      have hrest := ih h hpasses
      rw [List.filter_cons, List.filter_cons, hpass]
      cases v.isFragment with
      | true => exact hrest
      | false => exact congrArg₂ List.cons hv hrest

/-- Templates of a format string in two runs have the same segments and the values that its fields
refer to. -/
theorem agree_ofFormat (halike : a.Alike b) (hformat : ∀ p, parts format = .ok p →
    ∀ f ∈ p.fields, ∀ c ∈ f.1.name, startsStep c = false) :
    Agree (fun t t' => t.segments = t'.segments ∧ ∃ p, parts format = .ok p ∧
        Refer a b (keys (p.fields.map fun f => f.1.name)) t.values t'.values)
      (ofFormat format a) (ofFormat format b) := by
  rw [ofFormat, ofFormat]
  cases hparts : parts format with
  | error fault => exact .error _
  | ok p =>
    refine (agree_fieldValues halike (hformat p hparts)).bind fun vs ws h => ?_
    -- both runs have as many values, so that segments and values match in both or in none
    have hlength : vs.length = ws.length := (h.forall₂ halike).length_eq
    rw [ofSegments, ofSegments]
    by_cases hcount : (formatSegments p).length = vs.length + 1
    · rw [dif_pos hcount, dif_pos (hlength ▸ hcount)]
      exact .ok ⟨rfl, p, rfl, h⟩
    · rw [dif_neg hcount, dif_neg (hlength ▸ hcount), hlength]
      exact .error _

/-- Templates with the same segments, whose values are alike, are compiled to statements with the
same text, whose parameters are the values that are no fragments. -/
theorem agree_compile {t t' : Template} (hsegments : t.segments = t'.segments)
    (hvalues : List.Forall₂ Value.Alike t.values t'.values) :
    Agree (fun s s' => s.sql = s'.sql ∧ s.params = t.values.filter (fun v => !v.isFragment) ∧
        s'.params = t'.values.filter fun v => !v.isFragment)
      (t.compile context) (t'.compile context) := by
  have hlayouts : Agree Layout.SameTexts (t.layout context) (t'.layout context) := by
    rw [layout, layout, pieces, pieces, ← hsegments]
    exact agree_layOut hvalues
  rw [compile_eq, compile_eq]
  cases hl : t.layout context with
  | error f =>
    cases hl' : t'.layout context with
    | error f' => rw [hl, hl'] at hlayouts; cases hlayouts; exact .error _
    | ok l' => rw [hl, hl'] at hlayouts; cases hlayouts
  | ok l =>
    cases hl' : t'.layout context with
    | error f' => rw [hl, hl'] at hlayouts; cases hlayouts
    | ok l' =>
      rw [hl, hl'] at hlayouts
      cases hlayouts with
      | ok htexts => exact .ok ⟨htexts.sql_eq, passed_of_layout hl, passed_of_layout hl'⟩

/-- The statement of a format string and its arguments. -/
def statement (format : String) (a : Arguments) (context : Context) : Except Failure Statement := do
  (← ofFormat format a).compile context

/-- Two runs with the same format string, whose fields take no steps, and with arguments that are
alike fail in the same way or have statements with the same text. The parameters are the arguments
of each run that the fields refer to, in the same order and without the fragments, so they differ
only where a field refers to an argument that does. -/
theorem compile_ofFormat_alike (hformat : ∀ p, parts format = .ok p →
      ∀ f ∈ p.fields, ∀ c ∈ f.1.name, startsStep c = false) (halike : a.Alike b) :
    Agree (fun s s' => s.sql = s'.sql ∧ s.params.length = s'.params.length ∧
        ∃ p, parts format = .ok p ∧
          Refer a b ((keys (p.fields.map fun f => f.1.name)).filter (passes a)) s.params s'.params)
      (statement format a context) (statement format b context) := by
  refine (agree_ofFormat halike hformat).bind ?_
  rintro t t' ⟨hsegments, p, hparts, hrefer⟩
  refine (agree_compile hsegments (hrefer.forall₂ halike)).mono ?_
  rintro s s' ⟨hsql, hparams, hparams'⟩
  -- whether an argument is passed is the same in both runs
  have hpasses : ∀ key, passes b key = passes a key := by
    intro key
    have hkey := halike key
    rw [passes, passes]
    generalize a.find? key = v at hkey ⊢
    generalize b.find? key = w at hkey ⊢
    cases hkey with
    | none => rfl
    | some hvw => exact congrArg not hvw.isFragment_eq.symm
  have hfiltered :
      Refer a b ((keys (p.fields.map fun f => f.1.name)).filter (passes a)) s.params s'.params := by
    rw [hparams, hparams']
    exact ⟨map_find?_passes hrefer.1 fun _ _ => rfl, map_find?_passes hrefer.2 fun key _ =>
      hpasses key⟩
  refine ⟨hsql, ?_, p, hparts, hfiltered⟩
  exact (hfiltered.forall₂ halike).length_eq

/-- A number, used twice, and a fragment. -/
def numbers : Arguments :=
  { positional := [.ofInt 5], keyword := [("t", .fragment (.text " OR b = "))] }

/-- A text that looks like a placeholder, a comment and a field, used twice, and the same
fragment. -/
def injections : Arguments :=
  { positional := [.ofString "$9; -- \x7bt\x7d"], keyword := [("t", .fragment (.text " OR b = "))] }

/-- What looks like SQL does not get into the text any more than a number does. -/
theorem compile_ofFormat_alike_injections : ∃ s s',
    statement "a = \x7b\x7d\x7bt\x7d\x7b0\x7d" numbers .nowhere = .ok s ∧
      statement "a = \x7b\x7d\x7bt\x7d\x7b0\x7d" injections .nowhere = .ok s' ∧
        s.sql = "a = $1 OR b = $2" ∧ s.sql = s'.sql ∧ s.params.length = s'.params.length := by
  have hparts : parts "a = \x7b\x7d\x7bt\x7d\x7b0\x7d" =
      .ok ⟨"a = ".toList, [(.ofName [], []), (.ofName ['t'], []), (.ofName ['0'], [])]⟩ := rfl
  have hformat : ∀ p, parts "a = \x7b\x7d\x7bt\x7d\x7b0\x7d" = .ok p →
      ∀ f ∈ p.fields, ∀ c ∈ f.1.name, startsStep c = false := by
    intro p hp
    rw [hparts] at hp
    cases hp
    simp [Field.ofName, startsStep]
  have halike : numbers.Alike injections := by
    intro key
    rcases key with (_ | n) | s
    · exact .some fun h => h.elim Bool.noConfusion Bool.noConfusion
    · exact .none
    · rw [Arguments.find?, Arguments.find?, numbers, injections]
      cases List.lookup (String.ofList s) [("t", Value.fragment (.text " OR b = "))] with
      | none => exact .none
      | some v => exact .some fun _ => rfl
  have hagree := @compile_ofFormat_alike .nowhere _ _ _ hformat halike
  have hnumbers : statement "a = \x7b\x7d\x7bt\x7d\x7b0\x7d" numbers .nowhere =
      .ok { sql := "a = $1 OR b = $2", params := [.ofInt 5, .ofInt 5] } := by
    have ht : ofFormat "a = \x7b\x7d\x7bt\x7d\x7b0\x7d" numbers =
        .ok ⟨textsOf ["a = ".toList, [], [], []],
        [.ofInt 5, .fragment (.text " OR b = "), .ofInt 5], rfl⟩ := by
      rw [ofFormat, hparts]
      rfl
    rw [statement, ht]
    cbv
  have hinjections : statement "a = \x7b\x7d\x7bt\x7d\x7b0\x7d" injections .nowhere =
      .ok { sql := "a = $1 OR b = $2",
            params := [.ofString "$9; -- \x7bt\x7d", .ofString "$9; -- \x7bt\x7d"] } := by
    have ht : ofFormat "a = \x7b\x7d\x7bt\x7d\x7b0\x7d" injections =
        .ok ⟨textsOf ["a = ".toList, [], [], []],
        [.ofString "$9; -- \x7bt\x7d", .fragment (.text " OR b = "),
          .ofString "$9; -- \x7bt\x7d"], rfl⟩ := by
      rw [ofFormat, hparts]
      rfl
    rw [statement, ht]
    cbv
  rw [hnumbers, hinjections] at hagree
  cases hagree with
  | ok h => exact ⟨_, _, hnumbers, hinjections, rfl, h.1, h.2.1⟩

end

end Template

end PooledSql
