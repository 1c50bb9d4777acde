import PooledSql.Proofs.Literal.Refusal
import PooledSql.Proofs.Number.Numeral

/-!
# Reading literals

How a server reads literals back, and that it reads the value for which a literal has been written,
up to what no literal tells: whether a sequence was a list or a tuple, and of which type a number or
a text was. An integer with too many digits has no literal to be read.

* `Dialect`: in what servers differ.
* `Dialect.read`: the literal at the front of a text, and what is left of the text.
* `Dialect.read_literal`: what is read from a literal that something else may follow.
-/

namespace PooledSql

/-- In what servers differ that read SQL text. -/
structure Dialect where
  /-- Whether a backslash stands for itself in a text constant without the letter `E` in front. -/
  standardStrings : Bool
  /-- Which characters beyond ASCII are letters or digits. -/
  isLetter : Char → Bool

/-- What a literal begins with: a whole constant, or the opening of an array. -/
inductive Lexeme
  | constant (v : Value)
  | array

namespace Dialect

/-- Whether a character goes on with the word in front of it. -/
def isWordChar (d : Dialect) (c : Char) : Bool :=
  c.isAlphanum || c == '_' || c == '$' || (128 ≤ c.toNat && d.isLetter c)

/-- The character that a backslash and the character after it stand for. Escapes by number are not
among those that are read here. -/
def escaped? (c : Char) : Option Char :=
  match c with
  | 'b' => some '\x08'
  | 'f' => some '\x0c'
  | 'n' => some '\n'
  | 'r' => some '\r'
  | 't' => some '\t'
  | 'x' | 'u' | 'U' => none
  | c => if c.isDigit then none else some c

/-- The characters of a text constant whose opening quote has been read, and what is left of the
text after its closing quote. -/
def textBody (escapes : Bool) : List Char → Option (List Char × List Char)
  | [] => none
  | [c] => if c = '\x27' then some ([], []) else none
  | c :: c' :: cs =>
    if c = '\x27' then
      if c' = '\x27' then do
        let (s, rest) ← textBody escapes cs
        return ('\x27' :: s, rest)
      else some ([], c' :: cs)
    else if c = '\\' ∧ escapes then do
      let e ← escaped? c'
      let (s, rest) ← textBody escapes cs
      return (e :: s, rest)
    else do
      let (s, rest) ← textBody escapes (c' :: cs)
      return (c :: s, rest)

/-- A text constant whose opening quote has been read. -/
def text (escapes : Bool) (cs : List Char) : Option (Lexeme × List Char) := do
  let (s, rest) ← textBody escapes cs
  return (.constant (.ofString (String.ofList s)), rest)

/-- The integer of a sign and a word, which has to be all digits and no part of a longer number. -/
def integer (negative : Bool) (word rest : List Char) : Option (Lexeme × List Char) :=
  if word ≠ [] ∧ word.all Char.isDigit ∧ rest.head? ≠ some '.' then
    let n : Int := Nat.ofDigitChars 10 word 0
    some (.constant (.ofInt (if negative then -n else n)), rest)
  else none

/-- What a word begins that no sign stands in front of. -/
def word (w rest : List Char) : Option (Lexeme × List Char) :=
  if w = ['n', 'u', 'l', 'l'] then some (.constant .null, rest)
  else if w = ['t', 'r', 'u', 'e'] then some (.constant (.bool true), rest)
  else if w = ['f', 'a', 'l', 's', 'e'] then some (.constant (.bool false), rest)
  else
    match w, rest with
    | ['A', 'r', 'r', 'a', 'y'], '[' :: rest => some (.array, rest)
    | ['E'], '\x27' :: rest => text true rest
    | _, _ => integer false w rest

/-- The lexeme at the front of a text, behind any number of spaces, and what is left of the text. -/
def lexeme (d : Dialect) (cs : List Char) : Option (Lexeme × List Char) :=
  match cs.dropWhile (· == ' ') with
  | '\x27' :: cs => text (!d.standardStrings) cs
  | '-' :: cs => integer true (cs.takeWhile d.isWordChar) (cs.dropWhile d.isWordChar)
  | '+' :: cs => integer false (cs.takeWhile d.isWordChar) (cs.dropWhile d.isWordChar)
  | cs => word (cs.takeWhile d.isWordChar) (cs.dropWhile d.isWordChar)

mutual

/-- The literal at the front of a text, read in at most a number of steps. -/
def readWithin (d : Dialect) : Nat → List Char → Option (Value × List Char)
  | 0, _ => none
  | n + 1, cs => do
    match ← d.lexeme cs with
    | (.constant v, rest) => return (v, rest)
    | (.array, ']' :: rest) => return (.list [], rest)
    | (.array, rest) => do
      let (vs, rest) ← d.readElementsWithin n rest
      return (.list vs, rest)

/-- The elements of an array and its end, read in at most a number of steps. -/
def readElementsWithin (d : Dialect) : Nat → List Char → Option (List Value × List Char)
  | 0, _ => none
  | n + 1, cs => do
    match ← d.readWithin n cs with
    | (v, ']' :: rest) => return ([v], rest)
    | (v, ',' :: ' ' :: rest) => do
      let (vs, rest) ← d.readElementsWithin n rest
      return (v :: vs, rest)
    | _ => none

end

/-- The literal at the front of a text, and what is left of the text. A text has no fewer characters
than there are steps in reading it. -/
def read (d : Dialect) (cs : List Char) : Option (Value × List Char) := d.readWithin cs.length cs

/-- Whether a text does not go on with the literal in front of it. -/
def Separates (d : Dialect) (rest : List Char) : Prop :=
  ∀ c ∈ rest.head?, d.isWordChar c = false ∧ c ≠ '.' ∧ c ≠ '\x27'

end Dialect

namespace Value

mutual

/-- Whether a value is made of nothing but the null value, truth values, integers and texts, in
lists and tuples. -/
def IsExact : Value → Prop
  | null | bool _ | int .. | text .. => True
  | list vs | tuple vs => AllExact vs
  | _ => False

/-- Whether several values are. -/
def AllExact : List Value → Prop
  | [] => True
  | v :: vs => v.IsExact ∧ AllExact vs

end

mutual

/-- A value as it is read back: sequences are lists, and numbers and texts have their plain
types. -/
def asRead : Value → Value
  | int _ n => ofInt n
  | text _ s => ofString s
  | list vs | tuple vs => list (allAsRead vs)
  | v => v

/-- Several values as they are read back. -/
def allAsRead : List Value → List Value
  | [] => []
  | v :: vs => v.asRead :: allAsRead vs

end

mutual

/-- Nothing in an exact value is refused as a literal. -/
theorem not_isUnwritable_of_isExact : ∀ {v : Value}, v.IsExact → ∀ w ∈ v.leaves, ¬ w.IsUnwritable
  | .null, _ | .bool _, _ | .int .., _ | .text .., _ => by simp [leaves, IsUnwritable]
  | .list _, hvs | .tuple _, hvs => not_isUnwritable_of_allExact hvs

/-- Nothing in several exact values is. -/
theorem not_isUnwritable_of_allExact : ∀ {vs : List Value}, AllExact vs →
    ∀ w ∈ leavesAll vs, ¬ w.IsUnwritable
  | [], _ => nofun
  | _ :: _, hvs => List.forall_mem_append.mpr
    ⟨not_isUnwritable_of_isExact hvs.1, not_isUnwritable_of_allExact hvs.2⟩

end

end Value

/-- If several values have literals, the first one has, and the others have. -/
theorem Literal.ofValues_cons {v : Value} {vs : List Value} {texts : List String}
    (h : ofValues (v :: vs) = .ok texts) :
    ∃ text texts', texts = text :: texts' ∧ ofValue v = .ok text ∧ ofValues vs = .ok texts' := by
  rw [ofValues] at h
  cases hv : ofValue v with
  | error f => rw [hv] at h; cases h
  | ok text =>
    cases hvs : ofValues vs with
    | error f => rw [hv, hvs] at h; cases h
    | ok texts' =>
      rw [hv, hvs] at h
      cases h
      exact ⟨text, texts', rfl, rfl, rfl⟩

/-- Every value has one literal. -/
theorem Literal.length_ofValues : ∀ {vs : List Value} {texts : List String},
    ofValues vs = .ok texts → texts.length = vs.length
  | [], _, rfl => rfl
  | _ :: _, _, h => by
    obtain ⟨_, _, rfl, -, hvs⟩ := ofValues_cons h
    exact congrArg (· + 1) (length_ofValues hvs)

/-- The text of an integer is not empty. -/
theorem toList_toString_ne_nil {n : Int} : (toString n).toList ≠ [] := by
  rw [Int.toString_eq_repr, Int.repr_eq_if]
  split
  · rw [Nat.toList_repr]
    exact Nat.toDigits_ne_nil
  · simp

/-- A text constant is not empty. -/
theorem toList_constantText_ne_nil {s : String} : (Literal.constantText s).toList ≠ [] := by
  rw [Literal.constantText, String.toList_ofList]
  split <;> simp

namespace Dialect

variable {d : Dialect} {rest : List Char}

/-- The characters of a constant are read back, where those that escape do so. -/
theorem textBody_constant {escapes : Bool} {s : List Char} (hs : '\\' ∈ s → escapes = true)
    (hrest : ∀ c ∈ rest.head?, c ≠ '\x27') :
    textBody escapes (s.flatMap Literal.constantChar ++ '\x27' :: rest) = some (s, rest) := by
  induction s with
  | nil =>
    -- the closing quote is not the first half of a doubled one
    cases rest with
    | nil => rfl
    | cons c rest => simp [textBody, hrest c rfl]
  | cons c s ih =>
    have htail := ih fun hmem => hs (List.mem_cons_of_mem _ hmem)
    by_cases hquote : c = '\x27'
    · subst hquote
      simp [Literal.constantChar, textBody, htail]
    by_cases hbackslash : c = '\\'
    · subst hbackslash
      have hescapes := hs (List.mem_cons_self ..)
      subst hescapes
      simp [Literal.constantChar, textBody, escaped?, htail]
    · -- any other character stands for itself, and is not the last one
      obtain ⟨c', cs, hcs⟩ : ∃ c' cs, s.flatMap Literal.constantChar ++ '\x27' :: rest = c' :: cs :=
        List.exists_cons_of_ne_nil (by simp)
      rw [hcs] at htail
      simp [Literal.constantChar, hquote, hbackslash, hcs, textBody, htail]

/-- A constant of a text that does not go on behind it is read back. -/
theorem text_constant {escapes : Bool} {s : String} (hs : '\\' ∈ s.toList → escapes = true)
    (hrest : ∀ c ∈ rest.head?, c ≠ '\x27') :
    text escapes (s.toList.flatMap Literal.constantChar ++ '\x27' :: rest) =
      some (.constant (.ofString s), rest) := by
  simp [text, textBody_constant hs hrest]

/-- A word is taken up to what does not go on with it, and that is left. -/
theorem span_word {w : List Char} (hw : ∀ c ∈ w, d.isWordChar c = true)
    (hrest : ∀ c ∈ rest.head?, d.isWordChar c = false) :
    (w ++ rest).takeWhile d.isWordChar = w ∧ (w ++ rest).dropWhile d.isWordChar = rest := by
  rw [List.takeWhile_append_of_pos hw, List.dropWhile_append_of_pos hw]
  cases rest with
  | nil => simp
  | cons c rest => simp [hrest c rfl]

/-- What a text begins with a word is known by that. -/
theorem lexeme_word {w : List Char} (hw : ∀ c ∈ w, d.isWordChar c = true) (hne : w ≠ [])
    (hrest : ∀ c ∈ rest.head?, d.isWordChar c = false) : d.lexeme (w ++ rest) = word w rest := by
  obtain ⟨htake, hdrop⟩ := span_word hw hrest
  obtain ⟨c, w', rfl⟩ := List.exists_cons_of_ne_nil hne
  -- a word begins with none of the characters by which other lexemes are known
  have hother : ∀ c', d.isWordChar c' = false → c ≠ c' := by
    rintro c' hc' rfl
    rw [hw c (List.mem_cons_self ..)] at hc'
    cases hc'
  have hspace : (c :: w' ++ rest).dropWhile (· == ' ') = c :: w' ++ rest := by
    simp [hother ' ' rfl]
  rw [lexeme, hspace]
  split
  · exact absurd (List.cons.inj ‹_›).1 (hother '\x27' rfl)
  · exact absurd (List.cons.inj ‹_›).1 (hother '-' rfl)
  · exact absurd (List.cons.inj ‹_›).1 (hother '+' rfl)
  · rw [htake, hdrop]

/-- The digits of a number are characters of a word. -/
theorem isWordChar_of_mem_toDigits {n : Nat} {c : Char} (hc : c ∈ Nat.toDigits 10 n) :
    d.isWordChar c = true := by
  have hdigit : c.isDigit = true := Nat.isDigit_of_mem_toDigits (by decide) (by decide) hc
  simp [isWordChar, Char.isAlphanum, hdigit]

/-- Digits that nothing goes on with are an integer. -/
theorem integer_toDigits {negative : Bool} {n : Nat} (hrest : d.Separates rest) :
    integer negative (Nat.toDigits 10 n) rest =
      some (.constant (.ofInt (if negative then -n else n)), rest) := by
  have hdigits : (Nat.toDigits 10 n).all Char.isDigit = true :=
    List.all_eq_true.mpr fun _ hc => Nat.isDigit_of_mem_toDigits (by decide) (by decide) hc
  have hpoint : rest.head? ≠ some '.' := fun hc => (hrest '.' hc).2.1 rfl
  rw [integer, if_pos ⟨Nat.toDigits_ne_nil, hdigits, hpoint⟩]
  simp [Nat.ofDigitChars_ten_toDigits]

/-- A word of digits is an integer. -/
theorem word_toDigits {n : Nat} :
    word (Nat.toDigits 10 n) rest = integer false (Nat.toDigits 10 n) rest := by
  have hdigit : ∀ {c w}, Nat.toDigits 10 n = c :: w → c.isDigit = true := fun hw =>
    Nat.isDigit_of_mem_toDigits (by decide) (by decide) (hw ▸ List.mem_cons_self ..)
  have hword : ∀ {c : Char} {w}, c.isDigit = false → Nat.toDigits 10 n ≠ c :: w := by
    intro c w hc hw
    rw [hdigit hw] at hc
    cases hc
  rw [word, if_neg (hword rfl), if_neg (hword rfl), if_neg (hword rfl)]
  · exact fun _ hw _ => hword rfl hw
  · exact fun _ hw _ => hword rfl hw

/-- An integer is read back. -/
theorem lexeme_int {n : Int} (hrest : d.Separates rest) :
    d.lexeme ((toString n).toList ++ rest) = some (.constant (.ofInt n), rest) := by
  have hword : ∀ c ∈ rest.head?, d.isWordChar c = false := fun c hc => (hrest c hc).1
  have hdigits : ∀ {m : Nat}, ∀ c ∈ Nat.toDigits 10 m, d.isWordChar c = true := fun _ =>
    isWordChar_of_mem_toDigits
  rw [Int.toString_eq_repr, Int.repr_eq_if]
  -- the digits are a word, with a minus in front of them or not
  split
  · have hn : ((n.toNat : Nat) : Int) = n := Int.toNat_of_nonneg ‹_›
    rw [Nat.toList_repr, lexeme_word hdigits Nat.toDigits_ne_nil hword, word_toDigits,
      integer_toDigits hrest, if_neg Bool.false_ne_true, hn]
  · obtain ⟨htake, hdrop⟩ := span_word (w := Nat.toDigits 10 (-n).toNat) hdigits hword
    have hn : -(((-n).toNat : Nat) : Int) = n := by omega
    rw [String.toList_append, Nat.toList_repr]
    change integer true ((Nat.toDigits 10 (-n).toNat ++ rest).takeWhile d.isWordChar)
      ((Nat.toDigits 10 (-n).toNat ++ rest).dropWhile d.isWordChar) = _
    rw [htake, hdrop, integer_toDigits hrest, if_pos rfl, hn]

/-- A text is read back. -/
theorem lexeme_text {s : String} (hrest : ∀ c ∈ rest.head?, c ≠ '\x27') :
    d.lexeme ((Literal.constantText s).toList ++ rest) = some (.constant (.ofString s), rest) := by
  have hconstant : ∀ {escapes : Bool}, ('\\' ∈ s.toList → escapes = true) →
      text escapes (s.toList.flatMap Literal.constantChar ++ ['\x27'] ++ rest) =
        some (.constant (.ofString s), rest) := by
    intro escapes hs
    rw [List.append_assoc]
    exact text_constant hs hrest
  rw [Literal.constantText, String.toList_ofList]
  split
  · -- behind a space, the letter that makes backslashes escape is a word of its own
    have hword :
        d.lexeme (['E'] ++ '\x27' :: (s.toList.flatMap Literal.constantChar ++ ['\x27'] ++ rest)) =
        word ['E'] ('\x27' :: (s.toList.flatMap Literal.constantChar ++ ['\x27'] ++ rest)) :=
      lexeme_word (by simp [isWordChar]) (by simp) (by simp [isWordChar])
    exact hword.trans (hconstant fun _ => rfl)
  · refine hconstant fun hs => ?_
    simp_all

/-- What separates the elements of an array ends a literal. -/
theorem separates_comma : d.Separates (',' :: rest) := by
  rintro _ ⟨⟩
  exact ⟨rfl, by decide, by decide⟩

/-- The end of an array ends a literal. -/
theorem separates_bracket : d.Separates (']' :: rest) := by
  rintro _ ⟨⟩
  exact ⟨rfl, by decide, by decide⟩

/-- A literal of one lexeme is read in one step. -/
theorem readWithin_constant {text : List Char} {v : Value}
    (h : d.lexeme (text ++ rest) = some (.constant v, rest)) (hne : text ≠ []) {n : Nat}
    (hn : text.length ≤ n) : d.readWithin n (text ++ rest) = some (v, rest) := by
  have hpos : 0 < text.length := List.length_pos_iff.mpr hne
  obtain ⟨n, rfl⟩ := Nat.exists_eq_succ_of_ne_zero (Nat.ne_of_gt (Nat.lt_of_lt_of_le hpos hn))
  simp [readWithin, h]

/-- No literal begins with the end of an array. -/
theorem readWithin_bracket {n : Nat} {cs : List Char} : d.readWithin n (']' :: cs) = none := by
  cases n with
  | zero => rfl
  | succ n =>
    have hlexeme : d.lexeme (']' :: cs) = none := rfl
    simp [readWithin, hlexeme]

/-- The opening of an array is read. -/
theorem lexeme_array : d.lexeme ("Array[".toList ++ rest) = some (.array, rest) :=
  @lexeme_word d ('[' :: rest) ['A', 'r', 'r', 'a', 'y'] (by simp [isWordChar]) (by simp)
    (by simp [isWordChar])

/-- An array is read back if its elements are. -/
theorem readWithin_array {vs : List Value} {texts : List String}
    (htexts : Literal.ofValues vs = .ok texts)
    (helements : vs ≠ [] → ∀ {n rest}, (Literal.joinWith ", " texts).toList.length < n →
      d.readElementsWithin n ((Literal.joinWith ", " texts).toList ++ ']' :: rest) =
        some (Value.allAsRead vs, rest))
    {n : Nat} (hn : ("Array[" ++ Literal.joinWith ", " texts ++ "]").toList.length ≤ n) :
    d.readWithin n (("Array[" ++ Literal.joinWith ", " texts ++ "]").toList ++ rest) =
      some (.list (Value.allAsRead vs), rest) := by
  have hsplit : ("Array[" ++ Literal.joinWith ", " texts ++ "]").toList ++ rest =
      "Array[".toList ++ ((Literal.joinWith ", " texts).toList ++ ']' :: rest) := by simp
  rw [hsplit]
  simp only [String.toList_append, List.length_append] at hn
  match n with
  | 0 => simp at hn
  | n + 1 =>
    rw [readWithin, lexeme_array]
    -- an array without elements is closed at once
    by_cases hvs : vs = []
    · subst hvs
      cases htexts
      rfl
    · have hread := @helements hvs n rest (by simp at hn; omega)
      generalize (Literal.joinWith ", " texts).toList ++ ']' :: rest = cs at hread
      -- an element does not begin with the bracket that closes the array
      by_cases hclosed : ∃ cs', cs = ']' :: cs'
      · obtain ⟨cs', rfl⟩ := hclosed
        cases n with
        | zero => simp [readElementsWithin] at hread
        | succ n => simp [readElementsWithin, readWithin_bracket] at hread
      · simp only [Option.bind_eq_bind, Option.bind_some]
        split
        · simp_all
        · exact absurd ⟨_, (Prod.mk.inj ‹_›).2⟩ hclosed
        · obtain rfl : cs = _ := (Prod.mk.inj ‹_›).2
          rw [hread]
          rfl

variable (d)

mutual

/-- The literal of an exact value is read back, in no more steps than it has characters. -/
theorem readWithin_ofValue : ∀ {v : Value} {text : String}, v.IsExact →
    Literal.ofValue v = .ok text → ∀ {n rest}, text.toList.length ≤ n → d.Separates rest →
      d.readWithin n (text.toList ++ rest) = some (v.asRead, rest)
  | .null, _, _, rfl, _, _, hn, hrest =>
    readWithin_constant (lexeme_word (w := ['n', 'u', 'l', 'l']) (by simp [isWordChar]) (by simp)
      fun c hc => (hrest c hc).1) (by simp) hn
  | .bool true, _, _, rfl, _, _, hn, hrest =>
    readWithin_constant (lexeme_word (w := ['t', 'r', 'u', 'e']) (by simp [isWordChar]) (by simp)
      fun c hc => (hrest c hc).1) (by simp) hn
  | .bool false, _, _, rfl, _, _, hn, hrest =>
    readWithin_constant
      (lexeme_word (w := ['f', 'a', 'l', 's', 'e']) (by simp [isWordChar]) (by simp)
      fun c hc => (hrest c hc).1) (by simp) hn
  | .int lineage m, text, _, h, _, _, hn, hrest => by
    obtain rfl := Literal.eq_toString_of_ofValue h
    exact readWithin_constant (lexeme_int hrest) toList_toString_ne_nil hn
  | .text lineage s, _, _, rfl, _, _, hn, hrest =>
    readWithin_constant (lexeme_text fun c hc => (hrest c hc).2.2) toList_constantText_ne_nil hn
  | .list vs, _, hvs, h, _, _, hn, _ | .tuple vs, _, hvs, h, _, _, hn, _ => by
    rw [Literal.ofValue] at h
    obtain ⟨texts, htexts, heq⟩ := exists_of_bind_eq_ok h
    cases heq
    exact readWithin_array htexts (readElementsWithin_ofValues hvs htexts) hn

/-- The literals of exact values are read back as the elements of an array. -/
theorem readElementsWithin_ofValues : ∀ {vs : List Value} {texts : List String},
    Value.AllExact vs → Literal.ofValues vs = .ok texts → vs ≠ [] →
      ∀ {n rest}, (Literal.joinWith ", " texts).toList.length < n →
        d.readElementsWithin n ((Literal.joinWith ", " texts).toList ++ ']' :: rest) =
          some (Value.allAsRead vs, rest)
  | [], _, _, _, hne, _, _, _ => absurd rfl hne
  | v :: vs, _, hvs, h, _, n, rest, hn => by
    obtain ⟨text, texts, rfl, htext, htexts⟩ := Literal.ofValues_cons h
    have hread : ∀ {n rest}, text.toList.length ≤ n → d.Separates rest →
        d.readWithin n (text.toList ++ rest) = some (v.asRead, rest) :=
      readWithin_ofValue hvs.1 htext
    match n with
    | n + 1 =>
      -- behind the last element the array is closed, behind any other one there is a comma
      cases vs with
      | nil =>
        cases htexts
        have hlength : text.toList.length ≤ n := by
          simpa [Literal.joinWith, Nat.lt_succ_iff] using hn
        simp [Literal.joinWith, readElementsWithin, hread hlength separates_bracket,
          Value.allAsRead]
      | cons w ws =>
        have hne : texts ≠ [] := by
          rintro rfl
          cases Literal.length_ofValues htexts
        obtain ⟨text', texts, rfl⟩ := List.exists_cons_of_ne_nil hne
        have hjoin : (Literal.joinWith ", " (text :: text' :: texts)).toList =
            text.toList ++ ',' :: ' ' :: (Literal.joinWith ", " (text' :: texts)).toList := by
          simp [Literal.joinWith, String.intercalate_cons_cons]
        rw [hjoin] at hn ⊢
        simp only [List.length_append, List.length_cons] at hn
        have hrests : d.readElementsWithin n
            ((Literal.joinWith ", " (text' :: texts)).toList ++ ']' :: rest) = _ :=
          readElementsWithin_ofValues hvs.2 htexts (by simp) (by omega)
        have hfirst : d.readWithin n (text.toList ++ ',' :: ' ' ::
            ((Literal.joinWith ", " (text' :: texts)).toList ++ ']' :: rest)) = _ :=
          hread (by omega) separates_comma
        simp [readElementsWithin, hfirst, hrests, Value.allAsRead]

end

end Dialect

end PooledSql
