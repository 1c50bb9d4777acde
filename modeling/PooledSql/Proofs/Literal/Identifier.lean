import Mathlib.Data.List.Basic
import PooledSql.Fragment
import PooledSql.Fragment.Resolution

/-!
# Reading quoted identifiers

How a server reads quoted identifiers back: a quote inside of one is doubled, and nothing else is
special. The text of a quoted identifier is read as its name wherever no quote stands behind it
(`Identifier.read_eq_some_iff`), and a text of several identifiers as their names, if the separator
neither is empty nor begins with a quote (`Identifier.readList_eq_some_iff`). Both readers take no
other texts.

* `Identifier.read`: the identifier at the front of a text, and what is left of the text.
* `Identifier.readList`: the identifiers of a whole text, with a separator between neighbours.
-/

namespace PooledSql

namespace Identifier

/-- The characters of an identifier whose opening quote has been read, and what is left of the text
after its closing quote. -/
def body : List Char → Option (List Char × List Char)
  | [] => none
  | [c] => if c = '"' then some ([], []) else none
  | c :: c' :: cs =>
    if c = '"' then
      if c' = '"' then do
        let (s, rest) ← body cs
        return ('"' :: s, rest)
      else some ([], c' :: cs)
    else do
      let (s, rest) ← body (c' :: cs)
      return (c :: s, rest)

/-- The quoted identifier at the front of a text, and what is left of the text. -/
def read : List Char → Option (String × List Char)
  | [] => none
  | c :: cs => if c = '"' then (body cs).map fun (s, rest) => (String.ofList s, rest) else none

variable {s rest cs separator : List Char}

/-- The characters of an identifier are read back if the text does not go on with a quote. -/
theorem body_doubling (hrest : rest.head? ≠ some '"') :
    body (Literal.doubling '"' s ++ '"' :: rest) = some (s, rest) := by
  induction s with
  | nil =>
    -- the closing quote is not the first half of a doubled one
    cases rest with
    | nil => rfl
    | cons c rest =>
      have hc : c ≠ '"' := fun h => hrest (congrArg some h)
      simp [Literal.doubling, body, hc]
  | cons c s ih =>
    by_cases hc : c = '"'
    · -- the two quotes of a doubled one are read at once
      have hfront : Literal.doubling '"' (c :: s) = '"' :: '"' :: Literal.doubling '"' s := by
        simp [Literal.doubling, hc]
      rw [hfront, List.cons_append, List.cons_append, body, ih, hc]
      rfl
    · have hfront : Literal.doubling '"' (c :: s) = c :: Literal.doubling '"' s := by
        simp [Literal.doubling, hc]
      obtain ⟨c', cs, hcs⟩ : ∃ c' cs, Literal.doubling '"' s ++ '"' :: rest = c' :: cs :=
        List.exists_cons_of_ne_nil (by simp)
      rw [hfront, List.cons_append, hcs, body, if_neg hc, ← hcs, ih]
      rfl

/-- What is read as the characters of an identifier are their quotes doubled, a closing quote, and a
text that does not go on with a quote. -/
theorem eq_of_body_eq_some (h : body cs = some (s, rest)) :
    cs = Literal.doubling '"' s ++ '"' :: rest ∧ rest.head? ≠ some '"' := by
  -- case by case of what is read next: nothing, a last quote, a doubled quote, a closing quote, or
  -- another character
  fun_induction body cs generalizing s with
  | case1 => cases h
  | case2 => simp_all [Literal.doubling]
  | case3 => cases h
  | case4 cs ih =>
    obtain ⟨⟨s', rest'⟩, hs, heq⟩ := Option.bind_eq_some_iff.mp h
    cases heq
    obtain ⟨rfl, hrest⟩ := ih hs
    exact ⟨by simp [Literal.doubling], hrest⟩
  | case5 c' cs hc' =>
    cases h
    exact ⟨rfl, fun hhead => hc' (Option.some.inj hhead)⟩
  | case6 c c' cs hc ih =>
    obtain ⟨⟨s', rest'⟩, hs, heq⟩ := Option.bind_eq_some_iff.mp h
    cases heq
    obtain ⟨hcs, hrest⟩ := ih hs
    exact ⟨by simp [hcs, Literal.doubling, hc], hrest⟩

/-- What is read as an identifier at the front of a text is the text of that identifier, and no
quote is left behind it. -/
theorem read_eq_some_iff {name : String} :
    read cs = some (name, rest) ↔
      cs = (Literal.identifierText name).toList ++ rest ∧ rest.head? ≠ some '"' := by
  have htext : (Literal.identifierText name).toList ++ rest =
      '"' :: (Literal.doubling '"' name.toList ++ '"' :: rest) := by
    simp [Literal.identifierText]
  rw [htext]
  constructor
  · intro h
    cases cs with
    | nil => cases h
    | cons c cs =>
      rw [read] at h
      -- an identifier begins with a quote
      split at h
      · next hc =>
        obtain ⟨⟨s, rest'⟩, hs, heq⟩ := Option.map_eq_some_iff.mp h
        cases heq
        obtain ⟨rfl, hrest⟩ := eq_of_body_eq_some hs
        exact ⟨by simp [hc], hrest⟩
      · cases h
  · rintro ⟨rfl, hrest⟩
    simp [read, body_doubling hrest]

/-- An identifier has been read from in front of what is left of a text. -/
theorem length_lt_of_read {name : String} (h : read cs = some (name, rest)) :
    rest.length < cs.length := by
  obtain ⟨rfl, -⟩ := read_eq_some_iff.mp h
  simp only [Literal.identifierText, String.toList_ofList, List.length_append, List.length_cons]
  omega

/-- The identifiers of a text that has one at least, with a separator between neighbours. -/
def readMany (separator cs : List Char) : Option (List String) :=
  match _ : read cs with
  | none => none
  | some (name, rest) =>
    if rest = [] then some [name]
    else
      match _ : separator.isPrefixOf? rest with
      | none => none
      | some rest' => (readMany separator rest').map (name :: ·)
termination_by cs.length
decreasing_by
  have hlt := length_lt_of_read ‹read cs = some (name, rest)›
  have heq := List.append_eq_of_isPrefixOf?_eq_some ‹separator.isPrefixOf? rest = some rest'›
  rw [← heq, List.length_append] at hlt
  omega

/-- The identifiers of a text, with a separator between neighbours. -/
def readList (separator cs : List Char) : Option (List String) :=
  if cs = [] then some [] else readMany separator cs

/-- The text of several names as quoted identifiers with a separator between neighbours. -/
def listText (separator : List Char) (names : List String) : List Char :=
  separator.intercalate (names.map fun name => (Literal.identifierText name).toList)

/-- Several identifiers are read one after the other: the first one, and if there is more, a
separator and the identifiers behind it. -/
theorem readMany_eq :
    readMany separator cs = (read cs).bind fun first =>
      if first.2 = [] then some [first.1]
      else
        (separator.isPrefixOf? first.2).bind fun rest =>
          (readMany separator rest).map (first.1 :: ·) := by
  rw [readMany]
  split
  · next h => simp [h]
  · next name rest h =>
    rw [h, Option.bind_some]
    by_cases hrest : rest = []
    · simp [hrest]
    · simp only [hrest, if_false]
      split <;> simp [*]

/-- The first of several identifiers is read, and there is nothing behind it, or a separator and the
others. -/
theorem readMany_step_iff {names : List String} :
    readMany separator cs = some names ↔
      ∃ name rest, read cs = some (name, rest) ∧
        (rest = [] ∧ names = [name] ∨
          rest ≠ [] ∧ ∃ rest' names', separator ++ rest' = rest ∧
            readMany separator rest' = some names' ∧ names = name :: names') := by
  rw [readMany_eq, Option.bind_eq_some_iff]
  constructor
  · rintro ⟨⟨name, rest⟩, hread, h⟩
    refine ⟨name, rest, hread, ?_⟩
    -- the first identifier is the last one, or a separator follows it
    by_cases hrest : rest = []
    · rw [if_pos hrest] at h
      exact .inl ⟨hrest, (Option.some.inj h).symm⟩
    · rw [if_neg hrest] at h
      obtain ⟨rest', hsep, h⟩ := Option.bind_eq_some_iff.mp h
      obtain ⟨names', hnames, heq⟩ := Option.map_eq_some_iff.mp h
      exact .inr ⟨hrest, rest', names', List.isPrefixOf?_eq_some_iff_append_eq.mp hsep,
        hnames, heq.symm⟩
  · rintro ⟨name, rest, hread, ⟨hrest, rfl⟩ | ⟨hrest, rest', names', hsep, hnames, rfl⟩⟩
    · exact ⟨_, hread, if_pos hrest⟩
    · refine ⟨_, hread, (if_neg hrest).trans ?_⟩
      rw [List.isPrefixOf?_eq_some_iff_append_eq.mpr hsep, Option.bind_some, hnames]
      rfl

/-- The text of one name is that of its identifier. -/
theorem listText_singleton {name : String} :
    listText separator [name] = (Literal.identifierText name).toList :=
  List.intercalate_singleton

/-- The text of a name and further ones is that of its identifier, a separator and the text of the
others. -/
theorem listText_cons {name : String} {names : List String} (hnames : names ≠ []) :
    listText separator (name :: names) =
      (Literal.identifierText name).toList ++ (separator ++ listText separator names) := by
  obtain ⟨name', names, rfl⟩ := List.exists_cons_of_ne_nil hnames
  simp [listText, List.intercalate_cons_cons, List.append_assoc]

/-- Only no names have an empty text. -/
theorem listText_eq_nil_iff {names : List String} : listText separator names = [] ↔ names = [] := by
  cases names with
  | nil => simp [listText]
  | cons name names =>
    by_cases hnames : names = []
    · simp [hnames, listText_singleton, Literal.identifierText]
    · simp [listText_cons hnames, Literal.identifierText]

/-- A text is read as several identifiers exactly when it is theirs. -/
theorem readMany_eq_some_iff (hne : separator ≠ []) (hquote : separator.head? ≠ some '"')
    {names : List String} :
    readMany separator cs = some names ↔ names ≠ [] ∧ cs = listText separator names := by
  -- no quote stands behind an identifier: there is nothing at all or a separator
  have hhead : ∀ rest, (separator ++ rest).head? ≠ some '"' := fun rest => by
    rwa [List.head?_append_of_ne_nil _ hne]
  induction names generalizing cs with
  | nil =>
    have hnil : readMany separator cs ≠ some [] := fun h => by
      obtain ⟨_, _, -, ⟨-, h⟩ | ⟨-, _, _, -, -, h⟩⟩ := readMany_step_iff.mp h <;> cases h
    exact ⟨fun h => absurd h hnil, fun h => absurd rfl h.1⟩
  | cons name names ih =>
    rw [readMany_step_iff]
    constructor
    · rintro ⟨name', rest, hread, h⟩
      obtain ⟨rfl, -⟩ := read_eq_some_iff.mp hread
      refine ⟨by simp, ?_⟩
      rcases h with ⟨rfl, heq⟩ | ⟨-, rest', names', rfl, hnames, heq⟩
      · rw [heq, listText_singleton, List.append_nil]
      · cases heq
        obtain ⟨hne', rfl⟩ := ih.mp hnames
        exact (listText_cons hne').symm
    · rintro ⟨-, rfl⟩
      -- the last identifier has nothing behind it, every other one a separator
      by_cases hnames : names = []
      · subst hnames
        refine ⟨name, [], read_eq_some_iff.mpr ⟨?_, by simp⟩, .inl ⟨rfl, rfl⟩⟩
        rw [listText_singleton, List.append_nil]
      · have hread : read (listText separator (name :: names)) =
            some (name, separator ++ listText separator names) :=
          read_eq_some_iff.mpr ⟨listText_cons hnames, hhead _⟩
        have hrest : separator ++ listText separator names ≠ [] := by simp [hne]
        exact ⟨name, _, hread, .inr ⟨hrest, _, names, rfl, ih.mpr ⟨hnames, rfl⟩, rfl⟩⟩

/-- A text is read as a list of identifiers exactly when it is theirs. -/
theorem readList_eq_some_iff (hne : separator ≠ []) (hquote : separator.head? ≠ some '"')
    {names : List String} : readList separator cs = some names ↔ cs = listText separator names := by
  by_cases hcs : cs = []
  · rw [readList, if_pos hcs, hcs, Option.some_inj, eq_comm, ← listText_eq_nil_iff, eq_comm]
  · rw [readList, if_neg hcs, readMany_eq_some_iff hne hquote, and_iff_right_iff_imp]
    rintro rfl
    exact mt listText_eq_nil_iff.mpr hcs

end Identifier

namespace Literal

/-- Texts are the names of identifiers. -/
theorem identifiers_texts (names : List (Lineage × String)) :
    identifiers (names.map fun name => .text name.1 name.2) =
      .ok (names.map fun name => identifierText name.2) := by
  induction names with
  | nil => rfl
  | cons name names ih =>
    rw [List.map_cons, identifiers, ih]
    rfl

/-- Texts are written as quoted identifiers with the separator between neighbours. -/
theorem joinedIdentifiers_texts {values : Value} {names : List (Lineage × String)}
    (separator : String) (h : values.items? = some (names.map fun name => .text name.1 name.2)) :
    ∃ text, joinedIdentifiers values separator = .ok text ∧
      text.toList = Identifier.listText separator.toList (names.map Prod.snd) := by
  refine ⟨joinWith separator (names.map fun name => identifierText name.2), ?_, ?_⟩
  · rw [joinedIdentifiers, Value.items, h]
    simp only [bind, Except.bind, identifiers_texts]
    rfl
  · simp [joinWith, Identifier.listText, String.toList_intercalate, Function.comp_def]

end Literal

/-- Quoted identifiers are read back. An identifier is read from the front of every text that does
not go on with a quote, and the text behind it is left. The identifiers of a list are read from the
text of the list, with every separator that neither is empty nor begins with a quote, whether the
text is written at once or is that of a fragment, whatever the fragment is resolved for. Two lists
that have the same text with one separator are lists of the same names. -/
theorem readList_identifiers {separator : String} (hne : separator ≠ "")
    (hquote : separator.toList.head? ≠ some '"') :
    (∀ (lineage : Lineage) (name : String) (rest : List Char), rest.head? ≠ some '"' →
      ∃ text, Literal.identifier (.text lineage name) = .ok text ∧
        Identifier.read (text.toList ++ rest) = some (name, rest)) ∧
    (∀ (values : Value) (names : List (Lineage × String)),
      values.items? = some (names.map fun name => .text name.1 name.2) →
      ∃ text, Literal.joinedIdentifiers values separator = .ok text ∧
        Identifier.readList separator.toList text.toList = some (names.map Prod.snd) ∧
        ∃ f, Fragment.identifiers values separator = .ok f ∧
          ∀ context, f.resolve context = .ok text) ∧
    ∀ (values values' : Value) (names names' : List (Lineage × String)),
      values.items? = some (names.map fun name => .text name.1 name.2) →
      values'.items? = some (names'.map fun name => .text name.1 name.2) →
      Literal.joinedIdentifiers values separator = Literal.joinedIdentifiers values' separator →
      names.map Prod.snd = names'.map Prod.snd := by
  have hne' : separator.toList ≠ [] := fun h => hne (String.toList_eq_nil_iff.mp h)
  refine ⟨fun lineage name rest hrest => ?_, fun values names h => ?_,
    fun values values' names names' h h' heq => ?_⟩
  · exact ⟨_, rfl, Identifier.read_eq_some_iff.mpr ⟨rfl, hrest⟩⟩
  · obtain ⟨text, hjoined, htext⟩ := Literal.joinedIdentifiers_texts separator h
    refine ⟨text, hjoined, (Identifier.readList_eq_some_iff hne' hquote).mpr htext,
      .text text, ?_, ?_⟩
    · rw [Fragment.identifiers, hjoined]
      rfl
    · intro context
      rw [Fragment.resolve]
  · obtain ⟨text, hjoined, htext⟩ := Literal.joinedIdentifiers_texts separator h
    obtain ⟨text', hjoined', htext'⟩ := Literal.joinedIdentifiers_texts separator h'
    obtain rfl : text = text' := by simpa [hjoined, hjoined'] using heq
    have hnames := (Identifier.readList_eq_some_iff hne' hquote).mpr htext
    have hnames' := (Identifier.readList_eq_some_iff hne' hquote).mpr htext'
    exact Option.some.inj (hnames.symm.trans hnames')

/-- A list with a quote at the end of a name and an empty name is read back with a separator that
ends with a quote, and so is each of its names in front of that separator. -/
theorem readList_identifiers_quotes :
    Literal.joinedIdentifiers (.list [.ofString "a\"", .ofString ""]) ",\"" =
        .ok "\"a\"\"\",\"\"\"" ∧
      Identifier.read "\"a\"\"\",\"\"\"".toList = some ("a\"", [',', '"', '"', '"']) ∧
      Identifier.readList ",\"".toList "\"a\"\"\",\"\"\"".toList = some ["a\"", ""] := by
  obtain ⟨hread, hlist, -⟩ := @readList_identifiers ",\"" (by decide) (by decide)
  obtain ⟨text, htext, hfront⟩ := hread .plain "a\"" [',', '"', '"', '"'] (by decide)
  obtain ⟨text', htext', hback, -⟩ :=
    hlist (.list [.ofString "a\"", .ofString ""]) [(.plain, "a\""), (.plain, "")] rfl
  have hjoined : Literal.joinedIdentifiers (.list [.ofString "a\"", .ofString ""]) ",\"" =
      .ok "\"a\"\"\",\"\"\"" := by rfl
  cases htext
  cases hjoined.symm.trans htext'
  exact ⟨hjoined, hfront, hback⟩

/-- Without a separator the quotes of two neighbours are the doubled quote of one name. -/
example : Literal.joinedIdentifiers (.list [.ofString "a", .ofString "b"]) "" =
    Literal.joinedIdentifiers (.list [.ofString "a\"b"]) "" := by rfl

end PooledSql
