import Mathlib.Data.List.TakeWhile
import PooledSql.Number.Reading
import PooledSql.Proofs.Number.Numeral
import PooledSql.Proofs.Template.Layout
import PooledSql.Template

/-!
# The grammar of format strings

A format string is spelled as a text whose braces are doubled, followed by fields in single braces,
each with a text behind it whose braces are doubled as well. Whatever is spelled so is taken apart
into the texts and the arguments that its fields refer to, and nothing else makes a template
(`Template.ofFormat_spell_and_exists_spell`).

* `Format.spell`: the format string of texts and fields.
* `Format.keys`: the arguments that fields refer to.
* `Format.HidesBraces`: where the text of a field may have braces.
-/

namespace PooledSql

namespace Format

/-- Whether a character is a brace. -/
def IsBrace (c : Char) : Prop := c = '\x7b' ∨ c = '\x7d'

instance : DecidablePred IsBrace := fun _ => inferInstanceAs (Decidable (_ ∨ _))

/-- A text with its braces doubled. -/
def doubled (cs : List Char) : List Char := cs.flatMap fun c => if IsBrace c then [c, c] else [c]

/-- The format string of a text in front and of fields, each with the text behind it. -/
def spell (front : List Char) (fields : List (List Char × List Char)) : List Char :=
  doubled front ++ fields.flatMap fun f => '\x7b' :: (f.1 ++ '\x7d' :: doubled f.2)

/-- The characters with a meaning of their own in a field. -/
def marks : List Char := ['\x7b', '\x7d', '[', ']', '.', ':', '!']

instance (name : List Char) : Decidable (∀ c ∈ name, c ∉ marks) := List.decidableBAll ..

/-- The digits, of any script, that a text begins with, and the rest of it. -/
def leadingDigits (name : List Char) : List Nat × List Char :=
  NumberGrammar.anyScript.takeDigits false name

/-- Whether the number that a text begins with, if it does, is one that a path may hold. -/
def FitsIndex (name : List Char) : Prop := numberOfDigits (leadingDigits name).1 ≤ largestIndex

instance : DecidablePred FitsIndex := fun _ => inferInstanceAs (Decidable (_ ≤ _))

/-- Whether a text can be the name of a field: it has no marks, and if it is not all digits, then it
begins with no number too large. -/
structure IsFieldName (name : List Char) : Prop where
  unmarked : ∀ c ∈ name, c ∉ marks
  fits : (leadingDigits name).2 ≠ [] → FitsIndex name

/-- The argument that a field refers to, behind some fields without a name. -/
def referent (unnamed : Nat) (name : List Char) : Key :=
  if name = [] then .position unnamed
  else if (leadingDigits name).2 = [] then .position (numberOfDigits (leadingDigits name).1)
  else .name name

/-- The name that the argument of a field is looked up by, behind some fields without a name. -/
def written (unnamed : Nat) (name : List Char) : List Char :=
  if name = [] then Nat.toDigits 10 unnamed else name

/-- The arguments that fields refer to, behind some fields without a name. -/
def keysFrom (unnamed : Nat) (names : List (List Char)) : List Key :=
  names.mapIdx fun j name => referent (unnamed + (names.take j).count []) name

/-- The arguments that the fields of a format string refer to. A field without a name refers to the
one behind those of all the fields without a name before it. -/
def keys (names : List (List Char)) : List Key := keysFrom 0 names

/-- The argument under a key, if there is one. -/
def Arguments.find? (a : Arguments) : Key → Option Value
  | .position n => a.positional[n]?
  | .name s => a.keyword.lookup (String.ofList s)

/-- Whether the text of a field has no brace outside an index, of which each is closed. -/
def HidesBraces (inIndex : Bool) : List Char → Prop
  | [] => inIndex = false
  | c :: cs =>
    if inIndex then HidesBraces (c != ']') cs else ¬ IsBrace c ∧ HidesBraces (c == '[') cs

/-- A field that is nothing but a name. -/
def Field.ofName (name : List Char) : Field := ⟨name, none, []⟩

/-- Whether a field has neither a conversion nor a format. -/
def Field.IsPlain (f : Field) : Prop := f.conversion = none ∧ f.spec = []

/-- Whether all fields are nothing but names. -/
def Parts.IsPlain (p : Parts) : Prop := ∀ f ∈ p.fields, f.1.IsPlain

variable {a : Arguments} {c : Char} {cs name rest text : List Char} {d n next : Nat}
  {fields : List (List Char × List Char)} {names : List (List Char)} {p : Parts}
  {key : Key} {v : Value} {vs : List Value} {format : String}

/-! ### Spelled texts are taken apart -/

theorem doubled_cons_of_isBrace (hc : IsBrace c) : doubled (c :: cs) = c :: c :: doubled cs := by
  simp [doubled, hc]

theorem doubled_cons (hc : ¬ IsBrace c) : doubled (c :: cs) = c :: doubled cs := by
  simp [doubled, hc]

/-- A character that is no brace belongs to the text. -/
theorem scanText_cons (hc : ¬ IsBrace c) : scanText (c :: cs) = (scanText cs).map (.push c) := by
  rw [IsBrace, not_or] at hc
  rw [scanText.eq_7] <;> intros <;> simp_all

/-- A character that is no mark belongs to the name. -/
theorem scanName_cons (hc : c ∉ marks) :
    scanName (c :: cs) = (scanName cs).map fun (f, p) => (f.pushName c, p) := by
  simp only [marks, List.mem_cons, List.not_mem_nil, or_false, not_or] at hc
  rw [scanName.eq_7] <;> intros <;> simp_all

/-- A text with its braces doubled is read as it was. -/
theorem scanText_doubled : scanText (doubled text ++ rest) =
    (scanText rest).map fun p => { p with text := text ++ p.text } := by
  induction text with
  | nil =>
    rw [doubled, List.flatMap_nil, List.nil_append]
    cases scanText rest <;> rfl
  | cons c cs ih =>
    -- a doubled brace is read in one step, as one character
    have hpush :
        scanText (doubled (c :: cs) ++ rest) = (scanText (doubled cs ++ rest)).map (.push c) := by
      by_cases hc : IsBrace c
      · rw [doubled_cons_of_isBrace hc]
        rcases hc with rfl | rfl <;> rfl
      · rw [doubled_cons hc]
        exact scanText_cons hc
    rw [hpush, ih]
    cases scanText rest <;> rfl

/-- A name without marks is read up to the brace behind it. -/
theorem scanName_append (hname : ∀ c ∈ name, c ∉ marks) : scanName (name ++ '\x7d' :: rest) =
    (scanText rest).map fun p => (.ofName name, p) := by
  induction name with
  | nil => rfl
  | cons c cs ih =>
    obtain ⟨hc, hcs⟩ := List.forall_mem_cons.mp hname
    rw [List.cons_append, scanName_cons hc, ih hcs]
    cases scanText rest <;> rfl

/-- A brace in front of a name without marks opens a field. -/
theorem scanText_field (hname : ∀ c ∈ name, c ∉ marks) :
    scanText ('\x7b' :: (name ++ '\x7d' :: rest)) =
    (scanText rest).map (.cons (.ofName name)) := by
  -- the brace is not doubled, since a name has no braces
  have hopens : scanText ('\x7b' :: (name ++ '\x7d' :: rest)) =
      (scanName (name ++ '\x7d' :: rest)).map fun (f, p) => .cons f p := by
    cases name with
    | nil => rfl
    | cons c cs =>
      refine scanText.eq_4 c (cs ++ '\x7d' :: rest) ?_
      rintro rfl
      exact hname _ List.mem_cons_self (by decide)
  rw [hopens, scanName_append hname]
  cases scanText rest <;> rfl

/-- What is spelled is taken apart into what it is spelled of. -/
theorem scanText_spell (hnames : ∀ f ∈ fields, ∀ c ∈ f.1, c ∉ marks) :
    scanText (spell text fields) =
    .ok ⟨text, fields.map fun f => (.ofName f.1, f.2)⟩ := by
  induction fields generalizing text with
  | nil =>
    have htext := @scanText_doubled [] text
    simpa [spell, scanText, Except.map] using htext
  | cons f fields ih =>
    obtain ⟨hf, hfields⟩ := List.forall_mem_cons.mp hnames
    -- the braces of the text are doubled, so that the first single one begins the field
    have hfield :
        spell text (f :: fields) = doubled text ++ '\x7b' ::
          (f.1 ++ '\x7d' :: spell f.2 fields) := by
      simp [spell]
    rw [hfield, scanText_doubled, scanText_field hf, ih hfields]
    simp [Except.map, Parts.cons]

/-! ### The arguments of fields -/

@[simp]
theorem keysFrom_nil : keysFrom next [] = [] := rfl

theorem keysFrom_cons : keysFrom next (name :: names) =
    referent next name :: keysFrom (if name = [] then next + 1 else next) names := by
  -- the fields without a name are counted from the front
  have hcount : ∀ j, next + ((name :: names).take (j + 1)).count [] =
      (if name = [] then next + 1 else next) + (names.take j).count [] := by
    intro j
    rw [List.take_succ_cons, List.count_cons]
    by_cases hname : name = []
    · rw [if_pos (beq_iff_eq.mpr hname), if_pos hname]
      omega
    · rw [if_neg (by simpa using hname), if_neg hname]
      rfl
  simp only [keysFrom, List.mapIdx_cons, hcount, List.take_zero, List.count_nil, Nat.add_zero]

/-- The digits at the beginning of a text are one more in front of the others. -/
theorem leadingDigits_cons : leadingDigits (c :: cs) = match Text.digitValue? c with
    | some d => (d :: (leadingDigits cs).1, (leadingDigits cs).2)
    | none => ([], c :: cs) := by
  -- in any script, what digits stand for does not depend on those before
  have hgrown :
      ∀ afterDigit cs, NumberGrammar.anyScript.takeDigits afterDigit cs = leadingDigits cs := by
    intro afterDigit cs
    cases cs with
    | nil => rfl
    | cons c cs => simp [leadingDigits, NumberGrammar.takeDigits, NumberGrammar.anyScript]
  rw [leadingDigits, NumberGrammar.takeDigits, hgrown]
  rfl

/-- More digits stand for no smaller a number. -/
theorem le_foldl_digits {ds : List Nat} : n ≤ ds.foldl (fun n d => 10 * n + d) n := by
  induction ds generalizing n with
  | nil => exact Nat.le_refl n
  | cons d ds ih =>
    have hd : n ≤ 10 * n + d := by omega
    exact Nat.le_trans hd ih

/-- A text is read as a number if it has nothing but digits, unless there are too many of them in
front. -/
theorem readKeyFrom_eq
    (hfits : (leadingDigits cs).1.foldl (fun n d => 10 * n + d) n ≤ largestIndex) :
    readKeyFrom name n cs = .ok (if (leadingDigits cs).2 = []
      then .position ((leadingDigits cs).1.foldl (fun n d => 10 * n + d) n) else .name name) := by
  induction cs generalizing n with
  | nil => rfl
  | cons c cs ih =>
    rw [readKeyFrom]
    rw [leadingDigits_cons] at hfits ⊢
    cases hc : Text.digitValue? c with
    | none => rfl
    | some d =>
      simp only [hc, List.foldl_cons] at hfits ⊢
      -- the number is not yet too large, since more digits make it no smaller
      rw [if_neg (Nat.not_lt.mpr (Nat.le_trans le_foldl_digits hfits)), ih hfits]

/-- A name is read as the argument that it refers to, unless it begins with too large a number. -/
theorem readKey_eq (hname : name ≠ []) (hfits : FitsIndex name) :
    readKey name = .ok (referent next name) := by
  rw [readKey, if_neg (by simpa using hname), readKeyFrom_eq hfits, referent, if_neg hname]
  rfl

/-- Texts of ASCII digits have nothing but digits. -/
theorem leadingDigits_eq (hcs : ∀ c ∈ cs, c.isDigit = true) :
    leadingDigits cs = (cs.map fun c => c.toNat - '0'.toNat, []) := by
  induction cs with
  | nil => rfl
  | cons c cs ih =>
    obtain ⟨hc, hrest⟩ := List.forall_mem_cons.mp hcs
    have hrange : 48 ≤ c.toNat ∧ c.toNat ≤ 57 := by
      simpa [Char.isDigit, UInt32.le_iff_toNat_le] using hc
    have hvalue : Text.digitValue? c = some (c.toNat - '0'.toNat) := by
      rw [Text.digitValue?, if_pos (by omega), if_pos hrange]
      rfl
    rw [leadingDigits_cons, hvalue, ih hrest]
    rfl

theorem written_ne_nil : written next name ≠ [] := by
  rw [written]
  split
  · exact Nat.toDigits_ne_nil
  · assumption

/-- The argument of a field is looked up by a name that refers to it. -/
theorem referent_written : referent next (written next name) = referent next name := by
  by_cases hname : name = []
  · -- the number that is written for a field without a name is read back
    have hdigits : leadingDigits (Nat.toDigits 10 next) =
        ((Nat.toDigits 10 next).map fun c => c.toNat - '0'.toNat, []) :=
      leadingDigits_eq isDigit_of_mem_toDigits
    have hnumber : numberOfDigits (leadingDigits (Nat.toDigits 10 next)).1 = next := by
      rw [hdigits, numberOfDigits, List.foldl_map]
      exact Nat.ofDigitChars_ten_toDigits
    rw [written, if_pos hname, referent, if_neg Nat.toDigits_ne_nil,
      if_pos (by rw [hdigits]), hnumber, referent, if_pos hname]
  · rw [written, if_neg hname]

/-- A name that is read at all begins with no number too large. -/
theorem fits_of_readKeyFrom (hn : n ≤ largestIndex) (h : readKeyFrom name n cs = .ok key) :
    (leadingDigits cs).1.foldl (fun n d => 10 * n + d) n ≤ largestIndex := by
  induction cs generalizing n with
  | nil => exact hn
  | cons c cs ih =>
    rw [readKeyFrom] at h
    rw [leadingDigits_cons]
    cases hc : Text.digitValue? c with
    | none => exact hn
    | some d =>
      simp only [hc] at h ⊢
      -- reading goes on only while the number is not too large
      split at h
      next => cases h
      next hle => exact ih (Nat.not_lt.mp hle) h

/-- A name is read as the argument that it refers to, if it is read at all. -/
theorem eq_referent_of_readKey (hname : name ≠ []) (h : readKey name = .ok key) :
    key = referent next name := by
  have hfits : FitsIndex name := by
    rw [readKey, if_neg (by simpa using hname)] at h
    exact fits_of_readKeyFrom (Nat.zero_le _) h
  rw [readKey_eq hname hfits] at h
  exact (Except.ok.inj h).symm

/-- The characters that begin a step are marks. -/
theorem startsStep_of_unmarked (hc : c ∉ marks) : startsStep c = false := by
  simp only [marks, List.mem_cons, List.not_mem_nil, or_false, not_or] at hc
  simp [startsStep, hc]

/-- The argument of a field is looked up by a name that takes no steps if that of the field takes
none. -/
theorem startsStep_of_mem_written (hname : ∀ c ∈ name, startsStep c = false) :
    ∀ c ∈ written next name, startsStep c = false := by
  rw [written]
  split
  · -- what is written for a field without a name has nothing but digits
    intro c hc
    have hdigit := isDigit_of_mem_toDigits c hc
    have hpoint : c ≠ '.' := by rintro rfl; exact absurd hdigit (by decide)
    have hbracket : c ≠ '[' := by rintro rfl; exact absurd hdigit (by decide)
    simp [startsStep, hpoint, hbracket]
  · exact hname

/-- A name that takes no steps leads to the argument under it. -/
theorem Arguments.resolve_eq (hname : ∀ c ∈ name, startsStep c = false) :
    a.resolve name = match readKey name with
      | .error f => .error (Fault.format f).failure
      | .ok key => a.get key := by
  have hall : ∀ c ∈ name, (!startsStep c) = true := fun c hc => by simp [hname c hc]
  rw [resolve, List.takeWhile_eq_self_iff.mpr hall, List.dropWhile_eq_nil_iff.mpr hall]
  cases readKey name with
  | error f => rfl
  | ok key =>
    change (do Steps.follow (← a.get key) .done) = a.get key
    cases a.get key <;> rfl

/-- The failure to find an argument. -/
def Key.missing : Key → Failure
  | .position _ => (Fault.missingIndex .tuple).failure
  | .name s => (Fault.missingKey (.ofString (String.ofList s))).failure

/-- An argument is taken if it is there. -/
theorem Arguments.get_eq : a.get key = match a.find? key with
    | some v => .ok v
    | none => .error key.missing := by
  cases key with
  | position n =>
    rw [get, Value.itemAt, find?]
    rfl
  | name s =>
    rw [get, find?]
    rfl

/-- No number of an argument is too large. -/
theorem Arguments.position_le (hlength : a.positional.length ≤ largestIndex)
    (hn : a.find? (.position n) = some v) : n ≤ largestIndex := by
  obtain ⟨hlt, -⟩ := List.getElem?_eq_some_iff.mp hn
  omega

/-! ### What is taken apart is spelled -/

/-- Whether a text is spelled of parts, whose fields it may write in any way that hides braces. -/
def Spells (cs : List Char) (p : Parts) : Prop :=
  ∃ fields : List (List Char × List Char), fields.map Prod.snd = p.fields.map Prod.snd ∧
    (∀ f ∈ fields, HidesBraces false f.1) ∧ cs = spell p.text fields

/-- Whether a text is what is left of a field, perhaps from inside an index on, its closing brace,
and more text, which is taken apart into parts. -/
def Closes (inIndex : Bool) (cs : List Char) (p : Parts) : Prop :=
  ∃ field rest, HidesBraces inIndex field ∧ cs = field ++ '\x7d' :: rest ∧ scanText rest = .ok p

theorem Spells.nil : Spells [] ⟨[], []⟩ := ⟨[], rfl, by simp, rfl⟩

theorem Spells.push_of_isBrace (h : Spells cs p) (hc : IsBrace c) :
    Spells (c :: c :: cs) (p.push c) := by
  obtain ⟨fields, htexts, hfields, rfl⟩ := h
  refine ⟨fields, htexts, hfields, ?_⟩
  rw [spell, spell, Parts.push, doubled_cons_of_isBrace hc]
  rfl

theorem Spells.push (h : Spells cs p) (hc : ¬ IsBrace c) : Spells (c :: cs) (p.push c) := by
  obtain ⟨fields, htexts, hfields, rfl⟩ := h
  refine ⟨fields, htexts, hfields, ?_⟩
  rw [spell, spell, Parts.push, doubled_cons hc]
  rfl

theorem Closes.of_scanText (h : scanText cs = .ok p) : Closes false ('\x7d' :: cs) p :=
  ⟨[], cs, rfl, rfl, h⟩

/-- One more character stands in front of what is left of a field. -/
theorem Closes.push {inIndex : Bool} (h : Closes inIndex cs p) (hc : ¬ IsBrace c)
    (hindex : (c == '[') = inIndex) : Closes false (c :: cs) p := by
  obtain ⟨field, rest, hfield, rfl, hrest⟩ := h
  exact ⟨c :: field, rest, ⟨hc, hindex ▸ hfield⟩, rfl, hrest⟩

/-- One more character of an index stands in front of what is left of a field. -/
theorem Closes.pushIndex {inIndex : Bool} (h : Closes inIndex cs p)
    (hindex : (c != ']') = inIndex) :
    Closes true (c :: cs) p := by
  obtain ⟨field, rest, hfield, rfl, hrest⟩ := h
  refine ⟨c :: field, rest, ?_, rfl, hrest⟩
  rw [HidesBraces, if_pos rfl, hindex]
  exact hfield

/-- A format is empty only if its field is closed at once. -/
theorem closes_of_scanSpec (h : scanSpec 0 cs = .ok ([], p)) : Closes false cs p := by
  rw [scanSpec.eq_def] at h
  split at h
  next => cases h
  next =>
    obtain ⟨⟨spec, p'⟩, -, he⟩ := exists_of_map_eq_ok h
    cases he
  next cs =>
    obtain ⟨p', hcs, he⟩ := exists_of_map_eq_ok h
    cases he
    exact .of_scanText hcs
  next =>
    obtain ⟨⟨spec, p'⟩, -, he⟩ := exists_of_map_eq_ok h
    cases he

/-- A conversion is none only if it is the character NUL, with an empty format behind it. -/
theorem closes_of_scanConversion (h : scanConversion cs = .ok (none, [], p)) :
    Closes false cs p := by
  -- the character NUL is neither a brace nor the beginning of an index
  have hnul : ∀ {c : Char}, c.toNat = 0 → ¬ IsBrace c ∧ (c == '[') = false := by
    intro c hzero
    refine ⟨?_, beq_eq_false_iff_ne.mpr ?_⟩
    · rintro (rfl | rfl) <;> cases hzero
    · rintro rfl
      cases hzero
  rw [scanConversion.eq_def] at h
  split at h
  next => cases h
  next => cases h
  next c cs =>
    obtain ⟨p', hcs, he⟩ := exists_of_map_eq_ok h
    obtain ⟨hc, rfl⟩ : c.toNat = 0 ∧ p' = p := by simpa using he
    obtain ⟨hbrace, hindex⟩ := hnul hc
    exact (Closes.of_scanText hcs).push hbrace hindex
  next c cs =>
    obtain ⟨⟨spec, p'⟩, hcs, he⟩ := exists_of_map_eq_ok h
    obtain ⟨hc, rfl, rfl⟩ : c.toNat = 0 ∧ spec = [] ∧ p' = p := by simpa using he
    obtain ⟨hbrace, hindex⟩ := hnul hc
    have hmark : Closes false (':' :: cs) p' :=
      (closes_of_scanSpec hcs).push (by decide) (by decide)
    exact hmark.push hbrace hindex
  next => cases h

/-- What is left of a field that is nothing but a name, from inside an index on or not, ends in a
brace. -/
theorem closes_of_scanName_and_scanIndex :
    (∀ f p, scanName cs = .ok (f, p) → f.IsPlain → Closes false cs p) ∧
      ∀ f p, scanIndex cs = .ok (f, p) → f.IsPlain → Closes true cs p := by
  -- names and indices are read by turns, so both are proved at once
  induction cs with
  | nil => exact ⟨nofun, nofun⟩
  | cons c cs ih =>
    obtain ⟨ihName, ihIndex⟩ := ih
    constructor
    · intro f p h hf
      rw [scanName.eq_def] at h
      split at h
      next heq => cases heq
      next => cases h
      next heq =>
        cases heq
        obtain ⟨⟨f, p⟩, hcs, he⟩ := exists_of_map_eq_ok h
        cases he
        -- an index begins
        exact (ihIndex f p hcs hf).push (by decide) (by decide)
      next heq =>
        cases heq
        obtain ⟨p, hcs, he⟩ := exists_of_map_eq_ok h
        cases he
        exact .of_scanText hcs
      next heq =>
        cases heq
        obtain ⟨⟨spec, p⟩, hcs, he⟩ := exists_of_map_eq_ok h
        cases he
        -- a format that is there fails later, so it is empty
        obtain rfl : spec = [] := hf.2
        exact (closes_of_scanSpec hcs).push (by decide) (by decide)
      next heq =>
        cases heq
        obtain ⟨⟨conversion, spec, p⟩, hcs, he⟩ := exists_of_map_eq_ok h
        cases he
        obtain ⟨rfl, rfl⟩ : conversion = none ∧ spec = [] := hf
        exact (closes_of_scanConversion hcs).push (by decide) (by decide)
      next hopening hindex hclosing _ _ heq =>
        cases heq
        obtain ⟨⟨f, p⟩, hcs, he⟩ := exists_of_map_eq_ok h
        cases he
        exact (ihName f p hcs hf).push (not_or.mpr ⟨hopening, hclosing⟩)
          (beq_eq_false_iff_ne.mpr hindex)
    · intro f p h hf
      rw [scanIndex.eq_def] at h
      split at h
      next heq => cases heq
      next heq =>
        cases heq
        obtain ⟨⟨f, p⟩, hcs, he⟩ := exists_of_map_eq_ok h
        cases he
        exact (ihName f p hcs hf).pushIndex (by decide)
      next hclosing heq =>
        cases heq
        obtain ⟨⟨f, p⟩, hcs, he⟩ := exists_of_map_eq_ok h
        cases he
        -- inside of an index, braces and colons are characters like others
        exact (ihIndex f p hcs hf).pushIndex (bne_iff_ne.mpr hclosing)

/-- A field in front of a text that is spelled. -/
theorem Spells.cons {f : Field} (h : Spells rest p) (hname : HidesBraces false name) :
    Spells ('\x7b' :: (name ++ '\x7d' :: rest)) (p.cons f) := by
  obtain ⟨fields, htexts, hfields, rfl⟩ := h
  refine ⟨(name, p.text) :: fields, by simp [Parts.cons, htexts],
    List.forall_mem_cons.mpr ⟨hname, hfields⟩, ?_⟩
  simp [spell, Parts.cons, doubled]

/-- A format string is spelled of its parts, if their fields are nothing but names. The induction is
on the length of the text, since a field is passed over in one step. -/
theorem spells_of_scanText (h : scanText cs = .ok p) (hp : p.IsPlain) : Spells cs p := by
  induction hlength : cs.length using Nat.strongRecOn generalizing cs p with
  | ind length ih =>
    subst hlength
    rw [scanText.eq_def] at h
    -- by what the text begins with: nothing, a doubled brace, a field, or any other character
    split at h
    next =>
      cases h
      exact .nil
    next cs =>
      obtain ⟨p, hcs, rfl⟩ := exists_of_map_eq_ok h
      exact (ih _ (by simp only [List.length_cons]; omega) hcs hp rfl).push_of_isBrace (.inl rfl)
    next => cases h
    next c cs _ =>
      obtain ⟨⟨f, p⟩, hcs, rfl⟩ := exists_of_map_eq_ok h
      obtain ⟨hf, hp⟩ := List.forall_mem_cons.mp hp
      obtain ⟨name, rest, hname, heq, hrest⟩ := closes_of_scanName_and_scanIndex.1 f p hcs hf
      rw [heq] at ih ⊢
      exact (ih _ (by simp; omega) hrest hp rfl).cons hname
    next cs =>
      obtain ⟨p, hcs, rfl⟩ := exists_of_map_eq_ok h
      exact (ih _ (by simp only [List.length_cons]; omega) hcs hp rfl).push_of_isBrace (.inr rfl)
    next => cases h
    next c cs hdoubled hlast hfield hdoubled' hclosing =>
      -- a single brace would have ended the text or begun a field
      have hc : ¬ IsBrace c := by
        rintro (rfl | rfl)
        · cases cs with
          | nil => exact hlast rfl rfl
          | cons c' cs => exact hfield c' cs rfl rfl
        · exact hclosing rfl
      obtain ⟨p, hcs, rfl⟩ := exists_of_map_eq_ok h
      exact (ih _ (by simp) hcs hp rfl).push hc

end Format

namespace Template

open Format

variable {a : Arguments} {front name : List Char} {next : Nat}
  {fields : List (List Char × List Char)} {raw : List (Field × List Char)} {vs : List Value}
  {format : String} {t : Template}

/-- A field without a conversion and a format has the value of the argument that its name is written
for. -/
theorem fieldValues_cons {f : Field} {text : List Char} (hf : f.IsPlain) :
    fieldValues format a next ((f, text) :: raw) = (do
      let v ← fieldValue format a (written next f.name)
      return v :: (← fieldValues format a (if f.name = [] then next + 1 else next) raw)) := by
  rw [fieldValues, if_neg (by simp [hf.1, hf.2])]
  by_cases hname : f.name = [] <;> simp [hname, written]

/-- A field leads to the argument that it refers to. -/
theorem fieldValue_written {v : Value} (hlength : a.positional.length ≤ largestIndex)
    (hname : IsFieldName name) (hv : a.find? (referent next name) = some v) :
    fieldValue format a (written next name) = .ok v := by
  rw [← referent_written] at hv
  -- a number is not too large, since there is an argument in that place
  have hfits : FitsIndex (written next name) := by
    by_cases hdigits : (leadingDigits (written next name)).2 = []
    · rw [referent, if_neg written_ne_nil, if_pos hdigits] at hv
      exact a.position_le hlength hv
    · by_cases hempty : name = []
      · rw [written, if_pos hempty, leadingDigits_eq isDigit_of_mem_toDigits] at hdigits
        exact absurd rfl hdigits
      · rw [written, if_neg hempty] at hdigits ⊢
        exact hname.fits hdigits
  have hsteps :=
    @startsStep_of_mem_written name next fun c hc => startsStep_of_unmarked (hname.unmarked c hc)
  -- no step follows the key, so that the argument itself is the value
  rw [fieldValue, a.resolve_eq hsteps, @readKey_eq _ next written_ne_nil hfits]
  simp only [a.get_eq, hv]

/-- Fields have the values of the arguments that they refer to. -/
theorem fieldValues_eq (hlength : a.positional.length ≤ largestIndex)
    (hnames : ∀ f ∈ fields, IsFieldName f.1)
    (hvs : (keysFrom next (fields.map Prod.fst)).map a.find? = vs.map some) :
    fieldValues format a next (fields.map fun f => (.ofName f.1, f.2)) = .ok vs := by
  induction fields generalizing next vs with
  | nil =>
    obtain rfl : vs = [] := by simpa using hvs.symm
    rfl
  | cons f fields ih =>
    obtain ⟨hname, hnames⟩ := List.forall_mem_cons.mp hnames
    rw [List.map_cons, keysFrom_cons, List.map_cons] at hvs
    cases vs with
    | nil => cases hvs
    | cons v vs =>
      obtain ⟨hv, hrest⟩ := List.cons_eq_cons.mp hvs
      -- a field without a name takes the next number, and leaves the one behind it to the others
      have hvalue : fieldValue format a (written next (Field.ofName f.1).name) = .ok v :=
        fieldValue_written hlength hname hv
      have hvalues : fieldValues format a (if (Field.ofName f.1).name = [] then next + 1 else next)
          (fields.map fun f => (.ofName f.1, f.2)) = .ok vs := ih hnames hrest
      rw [List.map_cons, fieldValues_cons ⟨rfl, rfl⟩, hvalue, hvalues]
      rfl

/-- Fields have values only if they are nothing but names, and then one each. -/
theorem isPlain_of_fieldValues (h : fieldValues format a next raw = .ok vs) :
    (∀ f ∈ raw, f.1.IsPlain) ∧ vs.length = raw.length := by
  induction raw generalizing next vs with
  | nil =>
    cases h
    exact ⟨nofun, rfl⟩
  | cons f raw ih =>
    rw [fieldValues] at h
    split at h
    next => cases h
    next hplain =>
      obtain ⟨v, -, h⟩ := exists_of_bind_eq_ok h
      obtain ⟨vs, hvs, h⟩ := exists_of_bind_eq_ok h
      cases h
      obtain ⟨hraw, hcount⟩ := ih hvs
      have hf : f.1.IsPlain := by simpa [Field.IsPlain] using hplain
      exact ⟨List.forall_mem_cons.mpr ⟨hf, hraw⟩, congrArg Nat.succ hcount⟩

/-- The segments of texts. -/
def textsOf (texts : List (List Char)) : List Segment :=
  texts.map fun text => .text .plain (String.ofList text)

/-- A spelled format string makes a template of its texts and of the arguments that its fields refer
to. -/
theorem ofFormat_spell (hlength : a.positional.length ≤ largestIndex)
    (hnames : ∀ f ∈ fields, IsFieldName f.1)
    (hvs : (keys (fields.map Prod.fst)).map a.find? = vs.map some) :
    ofFormat (String.ofList (spell front fields)) a =
      ofSegments (textsOf (front :: fields.map Prod.snd)) vs := by
  have hparts : parts (String.ofList (spell front fields)) =
      .ok ⟨front, fields.map fun f => (.ofName f.1, f.2)⟩ := by
    rw [parts, String.toList_ofList]
    exact scanText_spell fun f hf => (hnames f hf).unmarked
  have hsegments : formatSegments ⟨front, fields.map fun f => (.ofName f.1, f.2)⟩ =
      textsOf (front :: fields.map Prod.snd) := by
    simp [formatSegments, textsOf]
  rw [ofFormat, hparts]
  simp only [fieldValues_eq hlength hnames hvs, hsegments]
  rfl

/-- A format string that is spelled of texts and fields makes a template of the texts and of the
arguments that the fields refer to, if the arguments are there; a tuple of arguments has never more
than the largest index. Conversely, every format string that makes a template is spelled of its
segments and of one field for each value, in which braces are hidden. -/
theorem ofFormat_spell_and_exists_spell :
    (∀ front fields (a : Arguments) vs, a.positional.length ≤ largestIndex →
      (∀ f ∈ fields, IsFieldName f.1) → (keys (fields.map Prod.fst)).map a.find? = vs.map some →
        ∃ t, ofFormat (String.ofList (spell front fields)) a = .ok t ∧
          t.segments = textsOf (front :: fields.map Prod.snd) ∧ t.values = vs) ∧
    ∀ format a t,
      ofFormat format a = .ok t → ∃ front fields, (∀ f ∈ fields, HidesBraces false f.1) ∧
      t.segments = textsOf (front :: fields.map Prod.snd) ∧ t.values.length = fields.length ∧
        format.toList = spell front fields := by
  constructor
  · intro front fields a vs hlength hnames hvs
    -- there is one value for each field, so that segments and values match
    have hcount : vs.length = fields.length := by
      have hlengths := congrArg List.length hvs
      simpa [keys, keysFrom] using hlengths.symm
    rw [ofFormat_spell hlength hnames hvs]
    exact ⟨_, dif_pos (by simp [textsOf, hcount]), rfl, rfl⟩
  · intro format a t h
    rw [ofFormat] at h
    split at h
    next => cases h
    next p hparts =>
      obtain ⟨vs, hvs, h⟩ := exists_of_bind_eq_ok h
      -- fields that have values are nothing but names, and so the text is spelled of them
      obtain ⟨hplain, hcount⟩ := isPlain_of_fieldValues hvs
      obtain ⟨fields, htexts, hfields, hspell⟩ := spells_of_scanText hparts hplain
      rw [ofSegments] at h
      split at h
      next =>
        cases h
        refine ⟨p.text, fields, hfields, ?_, ?_, hspell⟩
        · rw [htexts]
          simp [formatSegments, textsOf]
        · rw [hcount, ← List.length_map Prod.snd, ← htexts, List.length_map]
      next => cases h

/-- Texts of braces between fields, two of which refer to the same argument, and a field with a
brace in its index. -/
theorem ofFormat_spell_and_exists_spell_braces :
    (∃ t, ofFormat "\x7b\x7b\x7b\x7d\x7d\x7d\x7bb\x7d\x7b\x7d\x7b00\x7d\x7b\x7b"
        { positional := [.ofInt 5, .ofInt 6], keyword := [("b", .null)] } = .ok t ∧
      t.segments = textsOf [['\x7b'], ['\x7d'], [], [], ['\x7b']] ∧
      t.values = [.ofInt 5, .null, .ofInt 6, .ofInt 5]) ∧
    ∃ front fields, (∀ f ∈ fields, HidesBraces false f.1) ∧
      "\x7b0[\x7b]\x7d".toList = spell front fields := by
  constructor
  · have hnames : ∀ f ∈ [([], ['\x7d']), (['b'], []), ([], []), (['0', '0'], ['\x7b'])],
        IsFieldName f.1 := by
      intro f hf
      simp only [List.mem_cons, List.not_mem_nil, or_false] at hf
      obtain rfl | rfl | rfl | rfl := hf <;> exact ⟨by decide, by decide⟩
    have hspell : String.ofList
        (spell ['\x7b'] [([], ['\x7d']), (['b'], []), ([], []), (['0', '0'], ['\x7b'])]) =
        "\x7b\x7b\x7b\x7d\x7d\x7d\x7bb\x7d\x7b\x7d\x7b00\x7d\x7b\x7b" := by decide
    rw [← hspell]
    exact ofFormat_spell_and_exists_spell.1 ['\x7b'] _
      { positional := [.ofInt 5, .ofInt 6], keyword := [("b", .null)] }
      [.ofInt 5, .null, .ofInt 6, .ofInt 5] (by decide) hnames rfl
  · obtain ⟨front, fields, hfields, -, -, hspell⟩ := ofFormat_spell_and_exists_spell.2
      "\x7b0[\x7b]\x7d" { positional := [.dict [(.ofString "\x7b", .null)]] }
      ⟨[.text .plain "", .text .plain ""], [.null], rfl⟩ rfl
    exact ⟨front, fields, hfields, hspell⟩

/-- A field whose name begins with a number too large leads to no argument, not even to one of that
name. -/
theorem not_ofFormat_spell :
    ¬ ∀ front fields (a : Arguments) vs, a.positional.length ≤ largestIndex →
      (∀ f ∈ fields, ∀ c ∈ f.1, c ∉ marks) →
      (keys (fields.map Prod.fst)).map a.find? = vs.map some →
        ∃ t, ofFormat (String.ofList (spell front fields)) a = .ok t ∧
          t.segments = textsOf (front :: fields.map Prod.snd) ∧ t.values = vs := by
  intro h
  obtain ⟨t, ht, -⟩ := h [] [("99999999999999999999a".toList, [])]
    { keyword := [("99999999999999999999a", .null)] } [.null] (by decide) (by decide) rfl
  rw [ofFormat, parts, String.toList_ofList, scanText_spell (by decide)] at ht
  cases ht

end Template

end PooledSql
