import PooledSql.Proofs.Number.Numeral
import PooledSql.Proofs.Template.Layout

/-!
# Placeholders

How a server finds the placeholders of a statement: a dollar sign and all the digits behind it. A
template whose texts have no dollar signs is compiled to a statement with one placeholder for each
value that is passed. They are read with their own numbers, and with the texts of the template
between them, unless a text that begins with a digit stands right behind a value
(`Template.placeholders_compile`).

* `Scanned.ofText`: a text cut at its placeholders.
* `Layout.Separates`: no value has a digit right behind it.
-/

namespace PooledSql

/-- A text cut at its placeholders: the text in front, and each number with the text behind it. -/
structure Scanned where
  front : List Char
  marks : List (Nat × List Char)

namespace Scanned

/-- A character in front of a text that has been cut. A dollar sign begins a placeholder if there
are digits behind it, all of which are the number of the placeholder. -/
def push (c : Char) (s : Scanned) : Scanned :=
  if c = '$' ∧ s.front.takeWhile Char.isDigit ≠ [] then
    ⟨[], (Nat.ofDigitChars 10 (s.front.takeWhile Char.isDigit) 0, s.front.dropWhile Char.isDigit)
      :: s.marks⟩
  else ⟨c :: s.front, s.marks⟩

/-- The placeholders of a text. -/
def ofText (cs : List Char) : Scanned := cs.foldr push ⟨[], []⟩

/-- A text without dollar signs belongs to what stands in front of the next placeholder. -/
theorem ofText_append {cs ds : List Char} (hcs : '$' ∉ cs) :
    ofText (cs ++ ds) = ⟨cs ++ (ofText ds).front, (ofText ds).marks⟩ := by
  -- a text is cut from its end, so that the characters in front come last
  induction cs with
  | nil => rfl
  | cons c cs ih =>
    have hc : c ≠ '$' := fun h => hcs (h ▸ List.mem_cons_self ..)
    have hrest := ih fun h => hcs (List.mem_cons_of_mem _ h)
    calc ofText (c :: cs ++ ds) = push c (ofText (cs ++ ds)) := rfl
      _ = ⟨c :: cs ++ (ofText ds).front, (ofText ds).marks⟩ := by simp [hrest, push, hc]

end Scanned

/-- More digits make no smaller number. -/
theorem le_ofDigitChars {cs : List Char} {n : Nat} : n ≤ Nat.ofDigitChars 10 cs n := by
  induction cs generalizing n with
  | nil => exact Nat.le_refl n
  | cons c cs ih =>
    rw [Nat.ofDigitChars_cons]
    exact Nat.le_trans (by omega) ih

/-- The digits of a positive number are read as another number if there are more digits behind
them. -/
theorem ofDigitChars_toDigits_append {n : Nat} {cs : List Char} (hn : 0 < n) :
    Nat.ofDigitChars 10 (Nat.toDigits 10 n ++ cs) 0 = n ↔ cs = [] := by
  rw [Nat.ofDigitChars_append, Nat.ofDigitChars_ten_toDigits]
  constructor
  · intro heq
    cases cs with
    | nil => rfl
    | cons c cs =>
      rw [Nat.ofDigitChars_cons] at heq
      -- one more digit makes at least ten times the number
      have hle := @le_ofDigitChars cs (10 * n + (c.toNat - '0'.toNat))
      omega
  · rintro rfl
    rfl

/-- The placeholder of a number is a dollar sign and its digits. -/
theorem toList_placeholder {n : Nat} : (placeholder n).toList = '$' :: Nat.toDigits 10 n := by
  rw [placeholder, String.toList_append, toList_toString]
  rfl

namespace Layout

variable {l : Layout} {passed : List (Value × String)} {next : Nat}

/-- Whether no text in a layout has a dollar sign. -/
def IsFree (l : Layout) : Prop := '$' ∉ l.front.toList ∧ ∀ p ∈ l.passed, '$' ∉ p.2.toList

/-- Whether no value in a layout has a digit right behind it. -/
def Separates (l : Layout) : Prop := ∀ p ∈ l.passed, ∀ c ∈ p.2.toList.head?, c.isDigit = false

/-- What a placeholder and the text behind it are read as: the digits at the beginning of the text
go with the number. -/
def mark (n : Nat) (text : String) : Nat × List Char :=
  (Nat.ofDigitChars 10 (Nat.toDigits 10 n ++ text.toList.takeWhile Char.isDigit) 0,
    text.toList.dropWhile Char.isDigit)

/-- The placeholders of values, each with the text behind it. -/
theorem ofText_body (hpassed : ∀ p ∈ passed, '$' ∉ p.2.toList) :
    Scanned.ofText (body next passed).toList =
      ⟨[], (passed.zipIdx next).map fun q => mark q.2 q.1.2⟩ := by
  induction passed generalizing next with
  | nil => rfl
  | cons p passed ih =>
    obtain ⟨v, text⟩ := p
    have hrest : Scanned.ofText (body (next + 1) passed).toList =
        ⟨[], (passed.zipIdx (next + 1)).map fun q => mark q.2 q.1.2⟩ :=
      ih fun q hq => hpassed q (List.mem_cons_of_mem _ hq)
    -- the only dollar sign up to the next placeholder is that of this one
    have hdigits : '$' ∉ Nat.toDigits 10 next := fun h => by
      have hdigit := isDigit_of_mem_toDigits _ h
      exact absurd hdigit (by decide)
    have htext : '$' ∉ Nat.toDigits 10 next ++ text.toList :=
      List.not_mem_append hdigits (hpassed _ (List.mem_cons_self ..))
    have hchars : (body next ((v, text) :: passed)).toList =
        '$' :: (Nat.toDigits 10 next ++ text.toList ++ (body (next + 1) passed).toList) := by
      rw [body, String.toList_append, String.toList_append, toList_placeholder]
      simp
    have hall : ∀ c ∈ Nat.toDigits 10 next, c.isDigit = true := isDigit_of_mem_toDigits
    calc Scanned.ofText (body next ((v, text) :: passed)).toList
        = .push '$' ⟨Nat.toDigits 10 next ++ text.toList,
            (passed.zipIdx (next + 1)).map fun q => mark q.2 q.1.2⟩ := by
          rw [hchars, Scanned.ofText, List.foldr_cons, ← Scanned.ofText,
            Scanned.ofText_append htext, hrest, List.append_nil]
      -- the number takes the digits of the text behind it along
      _ = ⟨[], (((v, text) :: passed).zipIdx next).map fun q => mark q.2 q.1.2⟩ := by
          rw [Scanned.push, List.takeWhile_append_of_pos hall, List.dropWhile_append_of_pos hall,
            if_pos ⟨rfl, List.append_ne_nil_of_left_ne_nil Nat.toDigits_ne_nil _⟩]
          rfl

/-- The placeholders of the statement of a layout. -/
theorem ofText_statement (hl : l.IsFree) :
    Scanned.ofText (l.statement next).sql.toList =
      ⟨l.front.toList, (l.passed.zipIdx next).map fun q => mark q.2 q.1.2⟩ := by
  rw [statement, String.toList_append, Scanned.ofText_append hl.1, ofText_body hl.2,
    List.append_nil]

/-- Placeholders are read with their own numbers if no text behind them begins with a digit. -/
theorem numbers_eq_iff (hnext : 0 < next) :
    ((passed.zipIdx next).map fun q => (mark q.2 q.1.2).1) = List.range' next passed.length ↔
      ∀ p ∈ passed, p.2.toList.takeWhile Char.isDigit = [] := by
  induction passed generalizing next with
  | nil => simp
  | cons p passed ih =>
    rw [List.zipIdx_cons, List.map_cons, List.length_cons, List.range'_succ, List.cons.injEq,
      ih (Nat.succ_pos next), List.forall_mem_cons]
    exact and_congr_left fun _ => ofDigitChars_toDigits_append hnext

/-- The texts behind placeholders are read as they are if none of them begins with a digit. -/
theorem texts_eq (hpassed : ∀ p ∈ passed, p.2.toList.takeWhile Char.isDigit = []) :
    ((passed.zipIdx next).map fun q => (mark q.2 q.1.2).2) = passed.map fun p => p.2.toList := by
  have htext : ∀ q ∈ passed.zipIdx next, (mark q.2 q.1.2).2 = q.1.2.toList := by
    intro q hq
    -- nothing is taken off the front of the text
    have hsplit := List.takeWhile_append_dropWhile (p := Char.isDigit) (l := q.1.2.toList)
    rwa [hpassed q.1 (List.fst_mem_of_mem_zipIdx hq), List.nil_append] at hsplit
  calc (passed.zipIdx next).map (fun q => (mark q.2 q.1.2).2)
      = (passed.zipIdx next).map ((fun p => p.2.toList) ∘ Prod.fst) := List.map_congr_left htext
    _ = passed.map fun p => p.2.toList := by rw [← List.map_map, List.zipIdx_map_fst]

/-- No digits are at the beginning of a text that begins with none. -/
theorem takeWhile_isDigit_eq_nil_iff {cs : List Char} :
    cs.takeWhile Char.isDigit = [] ↔ ∀ c ∈ cs.head?, c.isDigit = false := by
  cases cs with
  | nil => simp
  | cons c cs => simp [List.takeWhile_cons]

end Layout

namespace Piece

variable {context : Context} {ps : List Piece}

/-- Fragments without dollar signs in their texts have a layout without them. -/
theorem exists_layOut (hps : ∀ f, .spliced f ∈ ps →
    ∃ text, f.resolve context = .ok text ∧ '$' ∉ text.toList) :
    ∃ l, layOut context ps = .ok l ∧ l.IsFree := by
  induction ps with
  | nil => exact ⟨{}, rfl, by simp, by simp⟩
  | cons p ps ih =>
    obtain ⟨l, hl, hfront, hpassed⟩ := ih fun f hf => hps f (List.mem_cons_of_mem _ hf)
    -- a fragment is put in front of the text, a value in front of the rest
    cases p with
    | spliced f =>
      obtain ⟨text, hf, htext⟩ := hps f (List.mem_cons_self ..)
      refine ⟨l.prepend text, by rw [layOut_spliced hf, hl]; rfl, ?_, hpassed⟩
      rw [Layout.prepend, String.toList_append]
      exact List.not_mem_append htext hfront
    | passed v =>
      refine ⟨l.pass v, by rw [layOut_passed, hl]; rfl, by simp [Layout.pass], ?_⟩
      exact List.forall_mem_cons.mpr ⟨hfront, hpassed⟩

/-- What is spliced into segments with values between them is a segment or a value. -/
theorem spliced_of_mem_piecesOf {segments : List Segment} {values : List Value} {f : Fragment}
    (hf : .spliced f ∈ Template.piecesOf segments values) :
    (∃ s ∈ segments, f = .ofSegment s) ∨ .fragment f ∈ values := by
  induction segments generalizing values with
  | nil => cases hf
  | cons s segments ih =>
    -- behind a segment stands a value as long as there are any
    cases values with
    | nil =>
      obtain heq | hf := List.mem_cons.mp hf
      · cases heq
        exact .inl ⟨s, List.mem_cons_self .., rfl⟩
      · obtain ⟨s', hs', heq⟩ | hvalue := ih hf
        · exact .inl ⟨s', List.mem_cons_of_mem _ hs', heq⟩
        · cases hvalue
    | cons v values =>
      obtain heq | hf := List.mem_cons.mp hf
      · cases heq
        exact .inl ⟨s, List.mem_cons_self .., rfl⟩
      obtain heq | hf := List.mem_cons.mp hf
      · cases v with
        | fragment f' =>
          cases heq
          exact .inr (List.mem_cons_self ..)
        | _ => cases heq
      · obtain ⟨s', hs', heq⟩ | hvalue := ih hf
        · exact .inl ⟨s', List.mem_cons_of_mem _ hs', heq⟩
        · exact .inr (List.mem_cons_of_mem _ hvalue)

end Piece

/-- A template whose texts have no dollar signs is compiled. Its parameters are the values that are
no fragments, in order, and as many placeholders are found in its text. They are read with the
numbers from one on in order, and with the texts of the template in front of them and between them,
exactly if no value that is passed has a digit right behind it. -/
theorem Template.placeholders_compile {t : Template} {context : Context}
    (hsegments : ∀ s ∈ t.segments, ∃ text, s.resolve context = .ok text ∧ '$' ∉ text.toList)
    (hvalues : ∀ f, .fragment f ∈ t.values →
      ∃ text, f.resolve context = .ok text ∧ '$' ∉ text.toList) :
    ∃ l statement, t.layout context = .ok l ∧ t.compile context = .ok statement ∧
      statement = l.statement 1 ∧ statement.params = t.values.filter (fun v => !v.isFragment) ∧
      (Scanned.ofText statement.sql.toList).marks.length = statement.params.length ∧
      ((Scanned.ofText statement.sql.toList).marks.map Prod.fst =
          List.range' 1 statement.params.length ∧
          (Scanned.ofText statement.sql.toList).front = l.front.toList ∧
          (Scanned.ofText statement.sql.toList).marks.map Prod.snd =
            l.passed.map (fun p => p.2.toList) ↔
        l.Separates) := by
  -- whatever is spliced has a text without dollar signs, so that there is a layout
  have hspliced : ∀ f, .spliced f ∈ t.pieces →
      ∃ text, f.resolve context = .ok text ∧ '$' ∉ text.toList := by
    intro f hf
    obtain ⟨s, hs, rfl⟩ | hf := Piece.spliced_of_mem_piecesOf hf
    · rw [Fragment.resolve_ofSegment]
      exact hsegments s hs
    · exact hvalues f hf
  obtain ⟨l, hl, hfree⟩ := Piece.exists_layOut hspliced
  have hlayout : t.layout context = .ok l := hl
  refine ⟨l, l.statement 1, hlayout, by rw [compile_eq, hlayout]; rfl, rfl, ?_, ?_, ?_⟩
  · rw [Layout.statement, passed_of_layout hlayout]
  · rw [Layout.ofText_statement hfree]
    simp [Layout.statement]
  · have hparams : (l.statement 1).params.length = l.passed.length := List.length_map _
    rw [Layout.ofText_statement hfree, hparams, List.map_map, List.map_map]
    constructor
    · -- the numbers alone tell that no digits have gone with them
      rintro ⟨hnumbers, -, -⟩ p hp
      exact Layout.takeWhile_isDigit_eq_nil_iff.mp
        ((Layout.numbers_eq_iff Nat.one_pos).mp hnumbers p hp)
    · intro hseparates
      have htake : ∀ p ∈ l.passed, p.2.toList.takeWhile Char.isDigit = [] := fun p hp =>
        Layout.takeWhile_isDigit_eq_nil_iff.mpr (hseparates p hp)
      exact ⟨(Layout.numbers_eq_iff Nat.one_pos).mpr htake, rfl, Layout.texts_eq htake⟩

/-- A template with a digit behind a value, and nothing but an empty fragment between them. -/
def Template.touching : Template where
  segments := [.text .plain "a = ", .text .plain "", .text .plain "0 or b = ", .text .plain ""]
  values := [.ofInt 5, .fragment (.joined ", " []), .ofString "$9"]
  length_segments := rfl

/-- An empty fragment does not keep a digit from the placeholder in front of it: both placeholders
are found, but not with the numbers one and two. -/
theorem Template.placeholders_compile_touching :
    ∃ l statement, touching.layout .nowhere = .ok l ∧ touching.compile .nowhere = .ok statement ∧
      statement.sql = "a = $10 or b = $2" ∧ ¬ l.Separates ∧
      (Scanned.ofText statement.sql.toList).marks.length = 2 ∧
      (Scanned.ofText statement.sql.toList).marks.map Prod.fst ≠ [1, 2] := by
  have hsegments : ∀ s ∈ touching.segments,
      ∃ text, s.resolve .nowhere = .ok text ∧ '$' ∉ text.toList := by
    intro s hs
    simp only [touching, List.mem_cons, List.not_mem_nil, or_false] at hs
    obtain rfl | rfl | rfl | rfl := hs <;> exact ⟨_, rfl, by decide⟩
  have hvalues : ∀ f, .fragment f ∈ touching.values →
      ∃ text, f.resolve .nowhere = .ok text ∧ '$' ∉ text.toList := by
    intro f hf
    simp only [touching, List.mem_cons, List.not_mem_nil, or_false] at hf
    obtain hf | hf | hf := hf <;> cases hf
    exact ⟨"", rfl, by decide⟩
  obtain ⟨l, statement, hlayout, hcompile, hstatement, hparams, hlength, hiff⟩ :=
    placeholders_compile hsegments hvalues
  have hl : l = ⟨"a = ", [(.ofInt 5, "0 or b = "), (.ofString "$9", "")]⟩ :=
    Except.ok.inj (hlayout.symm.trans (by cbv))
  subst hl hstatement
  have hnot : ¬ Layout.Separates ⟨"a = ", [(.ofInt 5, "0 or b = "), (.ofString "$9", "")]⟩ :=
    fun h =>
    absurd (h _ (List.mem_cons_self ..) '0' rfl) (by decide)
  have hsql : (Layout.statement 1 ⟨"a = ", [(.ofInt 5, "0 or b = "), (.ofString "$9", "")]⟩).sql =
      "a = $10 or b = $2" := by
    decide
  refine ⟨_, _, hlayout, hcompile, hsql, hnot, hlength, ?_⟩
  rw [hsql]
  decide

end PooledSql
