import Mathlib.Data.List.Chain
import PooledSql.Fragment.Resolution
import PooledSql.Proofs.Literal.Reading
import PooledSql.Proofs.Number.Numeral
import PooledSql.Proofs.Template.Layout

/-!
# Literals and comments

What a text looks like from outside its text constants, and when a template whose values are written
into it begins a comment that none of its segments begins.

* `Dialect.outside`: the characters of a text outside its constants.
* `Quiet`: a text that begins no comment, nor goes on with one that begins in front of it, unless it
  begins with a minus.
* `Dialect.opensComment_template_iff`: a template begins a comment where a segment that ends in a
  minus meets a number with a minus, and nowhere else.
-/

namespace PooledSql

/-- Where in a text a character is read. -/
inductive Place
  /-- Outside constants and words. -/
  | gap
  /-- Behind a word of the one letter that makes backslashes escape in a constant behind it. -/
  | letter
  /-- Behind any other word, or inside it. -/
  | word
  /-- In a text constant. -/
  | constant (escapes : Bool)
  /-- Behind a backslash that escapes. -/
  | escaped
  /-- Behind a quote that ends a text constant, unless another quote follows. -/
  | closed (escapes : Bool)
  deriving DecidableEq

/-- Whether a character at a place is outside the constants. A quote that is doubled counts as the
end of a constant and the beginning of another. -/
def Place.isOutside : Place → Bool
  | constant _ | escaped => false
  | _ => true

/-- Two neighbours that do not begin a comment. -/
def Apart (x y : Char) : Prop := ¬ (x = '-' ∧ y = '-') ∧ ¬ (x = '/' ∧ y = '*')

namespace Dialect

/-- Whether backslashes escape in a constant that begins at a place. -/
def escapesAt (d : Dialect) : Place → Bool
  | .letter => true
  | .closed escapes => escapes
  | _ => !d.standardStrings

/-- The place behind a character. -/
def next (d : Dialect) (p : Place) (c : Char) : Place :=
  match p with
  | .constant escapes =>
    if c = '\x27' then .closed escapes
    else if c = '\\' ∧ escapes then .escaped
    else .constant escapes
  | .escaped => .constant true
  | p =>
    if c = '\x27' then .constant (d.escapesAt p)
    else if !d.isWordChar c then .gap
    else if p = .letter ∨ p = .word then .word
    else if c = 'E' ∨ c = 'e' then .letter
    else .word

/-- The place behind a text. -/
def place (d : Dialect) (p : Place) (cs : List Char) : Place := cs.foldl d.next p

/-- The characters of a text that are outside its constants. The quotes that begin constants are
among them, so that what stands on both sides of a constant is kept apart. -/
def outside (d : Dialect) : Place → List Char → List Char
  | _, [] => []
  | p, c :: cs => if p.isOutside then c :: d.outside (d.next p c) cs else d.outside (d.next p c) cs

/-- Whether a text begins a comment outside its constants. -/
def OpensComment (d : Dialect) (cs : List Char) : Prop :=
  ['-', '-'] <:+: d.outside .gap cs ∨ ['/', '*'] <:+: d.outside .gap cs

end Dialect

/-- Whether a value is a number with a minus. -/
def Value.isSigned : Value → Bool
  | int _ n => n < 0
  | float _ (.finite negative ..) => negative
  | decimal _ (.finite negative ..) => negative
  | _ => false

/-- Whether a text neither quotes anything nor begins a comment. -/
structure IsPlain (cs : List Char) : Prop where
  notMem_quote : '\x27' ∉ cs
  notMem_doubleQuote : '"' ∉ cs
  notMem_dollar : '$' ∉ cs
  not_line : ¬ ['-', '-'] <:+: cs
  not_block : ¬ ['/', '*'] <:+: cs

/-- Whether the text of a segment neither quotes anything nor begins a comment. -/
def Segment.IsPlain (context : Context) (s : Segment) : Prop :=
  ∃ text, s.resolve context = .ok text ∧ PooledSql.IsPlain text.toList

/-- Whether the text of a segment ends in a minus. -/
def Segment.EndsInMinus (context : Context) (s : Segment) : Prop :=
  ∃ text, s.resolve context = .ok text ∧ text.toList.getLast? = some '-'

/-- What a literal looks like from outside its constants: it begins no comment, neither by itself
nor with what follows, and goes on with none, unless it begins with a minus. -/
structure Quiet (signed : Bool) (cs : List Char) : Prop where
  isChain : cs.IsChain Apart
  head : ∃ c ∈ cs.head?, c ≠ '*' ∧ (c = '-' ↔ signed = true)
  getLast : ∀ c ∈ cs.getLast?, c ≠ '-' ∧ c ≠ '/'

/-- What a source is a template of: a format string and its arguments, or anything that is a
template by itself. -/
def Template.ofSource (source : Value) (arguments : Format.Arguments) : Except Failure Template :=
  match source with
  | .text _ format => ofFormat format arguments
  | source =>
    if arguments.isEmpty then ofValue source
    else .error (Fault.misuse .argumentsWithoutFormat).failure

/-- A template fragment is one of the template that its source is. -/
theorem Fragment.template_eq {source : Value} {arguments : Format.Arguments} :
    Fragment.template source arguments = Template.ofSource source arguments >>= ofTemplate := by
  cases source with
  | text lineage format => rfl
  | _ =>
    simp only [Fragment.template, Template.ofSource]
    split <;> rfl

/-- Neighbours begin no comment where a text has none of the two beginnings in it. -/
theorem isChain_apart_iff {cs : List Char} :
    cs.IsChain Apart ↔ ¬ ['-', '-'] <:+: cs ∧ ¬ ['/', '*'] <:+: cs := by
  rw [List.isChain_iff_forall_rel_of_append_cons_cons]
  constructor
  · intro h
    refine ⟨?_, ?_⟩
    · rintro ⟨s, t, rfl⟩
      exact (@h '-' '-' s t (by simp)).1 ⟨rfl, rfl⟩
    · rintro ⟨s, t, rfl⟩
      exact (@h '/' '*' s t (by simp)).2 ⟨rfl, rfl⟩
  · rintro ⟨hline, hblock⟩ x y s t rfl
    refine ⟨?_, ?_⟩
    · rintro ⟨rfl, rfl⟩
      exact hline ⟨s, t, by simp⟩
    · rintro ⟨rfl, rfl⟩
      exact hblock ⟨s, t, by simp⟩

namespace Quiet

variable {signed signed' : Bool} {cs cs' : List Char}

/-- A text that may stand in a literal is not empty. -/
theorem ne_nil (h : Quiet signed cs) : cs ≠ [] := by
  rintro rfl
  obtain ⟨c, hc, -⟩ := h.head
  cases hc

/-- Nothing begins with a comment behind such a text. -/
theorem apart_getLast (h : Quiet signed cs) : ∀ x ∈ cs.getLast?, ∀ y ∈ cs'.head?, Apart x y :=
  fun x hx _ _ =>
    ⟨fun hminus => (h.getLast x hx).1 hminus.1, fun hslash => (h.getLast x hx).2 hslash.1⟩

/-- Such texts may stand one after the other. -/
theorem append (h : Quiet signed cs) (h' : Quiet signed' cs') : Quiet signed (cs ++ cs') where
  isChain := List.isChain_append.mpr ⟨h.isChain, h'.isChain, h.apart_getLast⟩
  head := by
    rw [List.head?_append_of_ne_nil _ h.ne_nil]
    exact h.head
  getLast := by
    rw [List.getLast?_append_of_ne_nil _ h'.ne_nil]
    exact h'.getLast

/-- A character that has no part in the beginning of a comment is such a text. -/
theorem singleton {c : Char} (hminus : c ≠ '-') (hslash : c ≠ '/') (hstar : c ≠ '*') :
    Quiet false [c] where
  isChain := .singleton _
  head := ⟨c, rfl, hstar, iff_of_false hminus Bool.false_ne_true⟩
  getLast := by
    rintro _ ⟨⟩
    exact ⟨hminus, hslash⟩

/-- Characters that have no part in the beginning of a comment are such a text. -/
theorem of_forall (hne : cs ≠ []) (hcs : ∀ c ∈ cs, c ≠ '-' ∧ c ≠ '/' ∧ c ≠ '*') :
    Quiet false cs := by
  induction cs with
  | nil => exact absurd rfl hne
  | cons c cs ih =>
    obtain ⟨hminus, hslash, hstar⟩ := hcs c (List.mem_cons_self ..)
    have hc := singleton hminus hslash hstar
    cases cs with
    | nil => exact hc
    | cons c' cs => exact hc.append (ih (by simp) fun x hx => hcs x (List.mem_cons_of_mem _ hx))

/-- A minus in front of such a text is such a text, unless it meets another one. -/
theorem minus (h : Quiet false cs) : Quiet true ('-' :: cs) where
  isChain := by
    obtain ⟨c, hc, -, hminus⟩ := h.head
    refine List.isChain_cons.mpr ⟨fun y hy => ?_, h.isChain⟩
    obtain rfl := Option.mem_unique hc hy
    exact ⟨fun heq => Bool.false_ne_true (hminus.mp heq.2), fun heq => by cases heq.1⟩
  head := ⟨'-', rfl, by decide, by simp⟩
  getLast := by
    rw [← List.singleton_append, List.getLast?_append_of_ne_nil _ h.ne_nil]
    exact h.getLast

/-- Digits have no part in the beginning of a comment. -/
theorem of_isDigit (hne : cs ≠ []) (hcs : ∀ c ∈ cs, c.isDigit = true) : Quiet false cs :=
  of_forall hne fun c hc => by
    have hdigit := hcs c hc
    refine ⟨?_, ?_, ?_⟩ <;> (rintro rfl; cases hdigit)

/-- Digits and points have no part in the beginning of a comment. -/
theorem of_isMantissaChar (hne : cs ≠ []) (hcs : ∀ c ∈ cs, IsMantissaChar c) : Quiet false cs :=
  of_forall hne fun c hc => by
    refine ⟨?_, ?_, ?_⟩ <;> (rintro rfl; simpa [IsMantissaChar] using hcs _ hc)

/-- A numeral begins no comment, and its power ends in digits. -/
theorem of_isNumeral (h : IsNumeral cs) : Quiet false cs := by
  cases h with
  | digits hne hds => exact of_isMantissaChar hne hds
  | @power ds es e sign hne hds he hsign hne' hes =>
    have hletter : Quiet false [e] := by
      obtain rfl | rfl := he <;> exact singleton (by decide) (by decide) (by decide)
    have hpower : ∃ signed, Quiet signed (sign :: es) := by
      obtain rfl | rfl := hsign
      · exact ⟨true, (of_isDigit hne' hes).minus⟩
      · exact ⟨false, (singleton (by decide) (by decide) (by decide)).append (of_isDigit hne' hes)⟩
    obtain ⟨_, hpower⟩ := hpower
    exact (of_isMantissaChar hne hds).append (hletter.append hpower)

/-- A numeral begins no comment, with or without a minus in front of it. -/
theorem of_signed (h : IsNumeral cs) : Quiet signed (if signed then '-' :: cs else cs) := by
  cases signed with
  | false => exact of_isNumeral h
  | true => exact (of_isNumeral h).minus

end Quiet

namespace Dialect

variable {d : Dialect} {p : Place} {cs cs' : List Char}

/-- What is outside the constants of two texts one after the other. -/
theorem outside_append :
    d.outside p (cs ++ cs') = d.outside p cs ++ d.outside (d.place p cs) cs' := by
  induction cs generalizing p with
  | nil => rfl
  | cons c cs ih =>
    rw [List.cons_append, outside, outside, ih]
    split <;> rfl

/-- The place behind two texts one after the other. -/
theorem place_append : d.place p (cs ++ cs') = d.place (d.place p cs) cs' := List.foldl_append

/-- Without a quote no constant begins. -/
theorem isOutside_next (hp : p.isOutside = true) {c : Char} (hc : c ≠ '\x27') :
    (d.next p c).isOutside = true := by
  cases p with
  | constant | escaped => cases hp
  | _ =>
    simp only [next, if_neg hc]
    split_ifs <;> rfl

/-- A quote outside constants begins one. -/
theorem next_quote (hp : p.isOutside = true) : d.next p '\x27' = .constant (d.escapesAt p) := by
  cases p <;> first | rfl | cases hp

/-- The whole of a text without quotes is outside constants. -/
theorem outside_of_notMem_quote (hp : p.isOutside = true) (hcs : '\x27' ∉ cs) :
    d.outside p cs = cs ∧ (d.place p cs).isOutside = true := by
  induction cs generalizing p with
  | nil => exact ⟨rfl, hp⟩
  | cons c cs ih =>
    have hnext := isOutside_next (d := d) hp fun hc => hcs (hc ▸ List.mem_cons_self ..)
    obtain ⟨houtside, hplace⟩ := ih hnext fun hmem => hcs (List.mem_cons_of_mem _ hmem)
    rw [outside, if_pos hp, houtside]
    exact ⟨rfl, hplace⟩

/-- A character of a constant leaves the reader in the constant, and shows nothing but quotes
outside. -/
theorem outside_constantChar {escapes : Bool} {c : Char} (hc : c = '\\' → escapes = true) :
    (∀ x ∈ d.outside (.constant escapes) (Literal.constantChar c), x = '\x27') ∧
      d.place (.constant escapes) (Literal.constantChar c) = .constant escapes := by
  by_cases hquote : c = '\x27'
  · subst hquote
    simp [Literal.constantChar, outside, place, next, Place.isOutside, escapesAt]
  by_cases hbackslash : c = '\\'
  · obtain rfl := hc hbackslash
    subst hbackslash
    simp [Literal.constantChar, outside, place, next, Place.isOutside]
  · simp [Literal.constantChar, outside, place, next, Place.isOutside, hquote, hbackslash]

/-- The characters of a constant up to its end show nothing but quotes outside. -/
theorem outside_constantBody {escapes : Bool} {s : List Char} (hs : '\\' ∈ s → escapes = true) :
    (∀ x ∈ d.outside (.constant escapes) (s.flatMap Literal.constantChar ++ ['\x27']), x = '\x27') ∧
      (d.place (.constant escapes) (s.flatMap Literal.constantChar ++ ['\x27'])).isOutside =
        true := by
  induction s with
  | nil => simp [outside, place, next, Place.isOutside]
  | cons c s ih =>
    obtain ⟨hmem, hplace⟩ := outside_constantChar (d := d) (c := c) fun hc =>
      hs (hc ▸ List.mem_cons_self ..)
    obtain ⟨hmem', hplace'⟩ := ih fun hc => hs (List.mem_cons_of_mem _ hc)
    rw [List.flatMap_cons, List.append_assoc, outside_append, place_append, hplace]
    exact ⟨List.forall_mem_append.mpr ⟨hmem, hmem'⟩, hplace'⟩

/-- Whether a text, wherever outside constants it stands, looks quiet from outside its constants and
leaves none open. -/
def ReadsQuiet (d : Dialect) (signed : Bool) (cs : List Char) : Prop :=
  ∀ p : Place, p.isOutside = true →
    Quiet signed (d.outside p cs) ∧ (d.place p cs).isOutside = true

namespace ReadsQuiet

variable {signed signed' : Bool}

/-- Quiet texts without quotes are read as they are. -/
theorem of_quiet (h : Quiet signed cs) (hcs : '\x27' ∉ cs) : d.ReadsQuiet signed cs := by
  intro p hp
  obtain ⟨houtside, hplace⟩ := outside_of_notMem_quote (d := d) hp hcs
  rw [houtside]
  exact ⟨h, hplace⟩

/-- Characters that neither quote nor have a part in the beginning of a comment are read as they
are. -/
theorem of_forall (hne : cs ≠ []) (hcs : ∀ c ∈ cs, c ≠ '-' ∧ c ≠ '/' ∧ c ≠ '*' ∧ c ≠ '\x27') :
    d.ReadsQuiet false cs :=
  of_quiet (.of_forall hne fun c hc => ⟨(hcs c hc).1, (hcs c hc).2.1, (hcs c hc).2.2.1⟩)
    fun hc => (hcs _ hc).2.2.2 rfl

/-- Texts that are read so may stand one after the other. -/
theorem append (h : d.ReadsQuiet signed cs) (h' : d.ReadsQuiet signed' cs') :
    d.ReadsQuiet signed (cs ++ cs') := by
  intro p hp
  obtain ⟨hquiet, hplace⟩ := h p hp
  obtain ⟨hquiet', hplace'⟩ := h' _ hplace
  rw [outside_append, place_append]
  exact ⟨hquiet.append hquiet', hplace'⟩

/-- A numeral is read as it is, with or without a minus in front of it. -/
theorem of_isNumeral (h : IsNumeral cs) :
    d.ReadsQuiet signed (if signed then '-' :: cs else cs) := by
  have hmantissa :
      ∀ {ds : List Char}, (∀ c ∈ ds, IsMantissaChar c) → '\x27' ∉ ds := fun hds hc => by
    simpa [IsMantissaChar] using hds _ hc
  have hquote : '\x27' ∉ cs := by
    cases h with
    | digits _ hds => exact hmantissa hds
    | @power ds es e sign _ hds he hsign _ hes =>
      have hes' : '\x27' ∉ es := hmantissa fun c hc => .inl (hes c hc)
      obtain rfl | rfl := he <;> obtain rfl | rfl := hsign <;> simp [hmantissa hds, hes']
  refine of_quiet (.of_signed h) ?_
  cases signed <;> simp [hquote]

/-- A text constant looks from outside like the quotes in it. -/
theorem of_constantText {s : String} : d.ReadsQuiet false (Literal.constantText s).toList := by
  -- the quotes that begin and end a constant, wherever its backslashes escape as they must
  have hconstant : ∀ {p : Place}, p.isOutside = true → ('\\' ∈ s.toList → d.escapesAt p = true) →
      Quiet false (d.outside p ('\x27' :: s.toList.flatMap Literal.constantChar ++ ['\x27'])) ∧
        (d.place p ('\x27' :: s.toList.flatMap Literal.constantChar ++ ['\x27'])).isOutside =
          true := by
    intro p hp hs
    obtain ⟨hmem, hplace⟩ := outside_constantBody (d := d) hs
    have hnext := next_quote (d := d) hp
    rw [List.cons_append, outside, if_pos hp, place, List.foldl_cons, hnext]
    refine ⟨.of_forall (by simp) fun c hc => ?_, hplace⟩
    obtain rfl | hc := List.mem_cons.mp hc
    · decide
    · rw [hmem c hc]
      decide
  intro p hp
  rw [Literal.constantText, String.toList_ofList]
  -- a constant with a backslash has a space and a letter in front, behind which backslashes escape
  split
  · have hletter : d.place p [' ', 'E'] = .letter := by
      cases p with
      | constant | escaped => cases hp
      | _ => simp [place, next, isWordChar]
    have hprefix : d.outside p [' ', 'E'] = [' ', 'E'] :=
      (outside_of_notMem_quote hp (by decide)).1
    obtain ⟨hquiet, hplace⟩ := hconstant (p := .letter) rfl fun _ => rfl
    change Quiet false (d.outside p ([' ', 'E'] ++ _)) ∧
      (d.place p ([' ', 'E'] ++ _)).isOutside = true
    rw [outside_append, place_append, hprefix, hletter]
    exact ⟨(Quiet.of_forall (by simp) (by simp)).append hquiet, hplace⟩
  · exact hconstant hp fun hs => absurd (List.contains_iff_mem.mpr hs) ‹_›

/-- Literals with commas between them and brackets around them are read so if each of them is. -/
theorem of_array {texts : List String} (htexts : ∀ text ∈ texts, ∃ s, d.ReadsQuiet s text.toList) :
    d.ReadsQuiet false ("Array[" ++ Literal.joinWith ", " texts ++ "]").toList := by
  have hclose : d.ReadsQuiet false ("]".toList) := of_forall (by simp) (by simp)
  have hbody : ∃ s, d.ReadsQuiet s ((Literal.joinWith ", " texts).toList ++ "]".toList) := by
    -- by induction on the literals, up to the bracket that closes the array
    induction texts with
    | nil => exact ⟨false, by simpa [Literal.joinWith] using hclose⟩
    | cons text texts ih =>
      obtain ⟨s, htext⟩ := htexts text (List.mem_cons_self ..)
      obtain ⟨s', hrest⟩ := ih fun t ht => htexts t (List.mem_cons_of_mem _ ht)
      cases texts with
      | nil => exact ⟨s, by simpa [Literal.joinWith] using htext.append hclose⟩
      | cons text' texts =>
        have hcomma : d.ReadsQuiet false (", ".toList) := of_forall (by simp) (by simp)
        refine ⟨s, ?_⟩
        have hall := htext.append (hcomma.append hrest)
        simpa [Literal.joinWith, String.intercalate_cons_cons] using hall
  obtain ⟨s, hbody⟩ := hbody
  have hopen : d.ReadsQuiet false ("Array[".toList) := of_forall (by simp) (by simp)
  simpa using hopen.append hbody

variable (d)

mutual

/-- Every literal is read so. -/
theorem of_ofValue : ∀ {v : Value} {text : String}, Literal.ofValue v = .ok text →
    d.ReadsQuiet v.isSigned text.toList
  | .null, _, rfl => of_forall (by simp) (by simp)
  | .bool true, _, rfl => of_forall (by simp) (by simp)
  | .bool false, _, rfl => of_forall (by simp) (by simp)
  | .int _ n, _, h => by
    obtain rfl := Literal.eq_toString_of_ofValue h
    -- numbers are numerals, with a minus in front of them if they have one
    obtain ⟨cs, hcs, htext⟩ := toList_toString_int (n := n)
    have hread : d.ReadsQuiet (decide (n < 0)) (if decide (n < 0) = true then '-' :: cs else cs) :=
      of_isNumeral hcs
    change d.ReadsQuiet (decide (n < 0)) (toString n).toList
    rw [htext]
    simpa using hread
  | .float lineage (.finite negative m e), _, rfl => by
    obtain ⟨cs, hcs, htext⟩ := @Binary64.toList_text negative m e
    rw [htext]
    exact of_isNumeral hcs
  | .decimal lineage (.finite negative m e), _, rfl => by
    obtain ⟨cs, hcs, htext⟩ := @Decimal.toList_text m e negative
    rw [htext]
    exact of_isNumeral hcs
  | .text _ s, _, rfl => of_constantText
  | .list vs, text, h | .tuple vs, text, h => by
    rw [Literal.ofValue] at h
    cases hvs : Literal.ofValues vs with
    | error f => rw [hvs] at h; cases h
    | ok texts =>
      rw [hvs] at h
      cases h
      exact of_array fun text ht => exists_of_ofValues hvs ht

/-- Every one of several literals is read so. -/
theorem exists_of_ofValues : ∀ {vs : List Value} {texts : List String},
    Literal.ofValues vs = .ok texts → ∀ {text}, text ∈ texts → ∃ s, d.ReadsQuiet s text.toList
  | [], _, rfl, _, ht => absurd ht (List.not_mem_nil)
  | v :: vs, texts, h, text, ht => by
    obtain ⟨text', texts', rfl, hv, hvs⟩ := Literal.ofValues_cons h
    obtain rfl | ht := List.mem_cons.mp ht
    · exact ⟨_, of_ofValue hv⟩
    · exact exists_of_ofValues hvs ht

end

end ReadsQuiet

/-- Pieces without a separator are their characters one after the other. -/
theorem toList_intercalate_empty {texts : List String} :
    ("".intercalate texts).toList = texts.flatMap String.toList := by
  induction texts with
  | nil => rfl
  | cons text texts ih => rw [intercalate_empty_cons, String.toList_append, ih, List.flatMap_cons]

/-- Values that have literals are no fragments, and become their literals. -/
theorem ofValues_eq_literals : ∀ {vs : List Value} {literals : List String},
    Literal.ofValues vs = .ok literals → Fragment.ofValues vs = .ok (literals.map .text)
  | [], _, rfl => rfl
  | v :: vs, literals, h => by
    obtain ⟨text, texts, rfl, hv, hvs⟩ := Literal.ofValues_cons h
    have hfragment : Fragment.ofValue v = .ok (.text text) := by
      cases v with
      | fragment f => cases hv
      | _ => simp only [Fragment.ofValue, Fragment.literal, hv]; rfl
    rw [Fragment.ofValues, hfragment, ofValues_eq_literals hvs]
    rfl

/-- A segment whose text quotes nothing is seen as it is. -/
theorem outside_segment {text : String} (hp : p.isOutside = true) (h : IsPlain text.toList) :
    d.outside p (text.toList ++ cs) = text.toList ++ d.outside (d.place p text.toList) cs ∧
      (d.place p text.toList).isOutside = true := by
  obtain ⟨houtside, hplace⟩ := outside_of_notMem_quote (d := d) hp h.notMem_quote
  rw [outside_append, houtside]
  exact ⟨rfl, hplace⟩

/-- A literal meets the end of a segment badly if both are minuses. -/
theorem apart_iff {signed : Bool} {text : List Char} (h : Quiet signed cs) :
    (∀ x ∈ text.getLast?, ∀ y ∈ (cs ++ cs').head?, Apart x y) ↔
      ¬ (text.getLast? = some '-' ∧ signed = true) := by
  obtain ⟨c, hc, hstar, hminus⟩ := h.head
  have hhead : (cs ++ cs').head? = some c := by
    rw [List.head?_append_of_ne_nil _ h.ne_nil]
    exact hc
  rw [hhead]
  constructor
  · rintro hall ⟨hlast, hsigned⟩
    exact (hall '-' hlast c rfl).1 ⟨rfl, hminus.mpr hsigned⟩
  · rintro hnot x hx y ⟨⟩
    exact ⟨fun ⟨hx', hc'⟩ => hnot ⟨hx' ▸ hx, hminus.mp hc'⟩, fun ⟨_, hc'⟩ => hstar hc'⟩

/-- Segments with literals between them are put together, and a comment begins in them where a
segment that ends in a minus meets a number with a minus. -/
theorem isChain_interleave {context : Context} : ∀ {segments : List Segment} {values : List Value}
    {literals : List String}, segments.length = values.length + 1 →
    (∀ s ∈ segments, s.IsPlain context) → Literal.ofValues values = .ok literals →
    ∃ texts, Fragment.resolveAll context (Fragment.interleave segments (literals.map .text)) =
      .ok texts ∧ ∀ p : Place, p.isOutside = true →
        ((d.outside p (texts.flatMap String.toList)).IsChain Apart ↔
          ¬ ∃ pair ∈ segments.zip values, pair.1.EndsInMinus context ∧ pair.2.isSigned = true)
  | [s], [], _, _, hsegments, rfl => by
    obtain ⟨text, htext, hplain⟩ := hsegments s (List.mem_cons_self ..)
    refine ⟨[text], ?_, fun p hp => ?_⟩
    · rw [List.map_nil, Fragment.interleave, Fragment.interleave, Fragment.resolveAll,
        Fragment.resolve_ofSegment, htext]
      rfl
    · have hchain := isChain_apart_iff.mpr ⟨hplain.not_line, hplain.not_block⟩
      have houtside := (outside_of_notMem_quote (d := d) hp hplain.notMem_quote).1
      simpa [houtside] using hchain
  | _ :: _ :: _, [], _, hlength, _, _ => by cases hlength
  | s :: segments, v :: values, literals, hlength, hsegments, hliterals => by
    obtain ⟨text, htext, hplain⟩ := hsegments s (List.mem_cons_self ..)
    obtain ⟨literal, literals, rfl, hliteral, hrest⟩ := Literal.ofValues_cons hliterals
    obtain ⟨texts, htexts, hchain⟩ := isChain_interleave (Nat.succ_inj.mp hlength)
      (fun s hs => hsegments s (List.mem_cons_of_mem _ hs)) hrest
    refine ⟨text :: literal :: texts, ?_, fun p hp => ?_⟩
    · rw [List.map_cons, Fragment.interleave, Fragment.resolveAll, Fragment.resolveAll,
        Fragment.resolve_ofSegment, htext, htexts]
      rfl
    · obtain ⟨houtside, hplace⟩ :=
        @outside_segment d p (literal.toList ++ texts.flatMap String.toList) text hp hplain
      obtain ⟨hquiet, hplace⟩ := ReadsQuiet.of_ofValue d hliteral _ hplace
      -- whether the segment ends in a minus is told by its one text
      have hends : s.EndsInMinus context ↔ text.toList.getLast? = some '-' := by
        constructor
        · rintro ⟨text', htext', hlast⟩
          obtain rfl := Except.ok.inj (htext.symm.trans htext')
          exact hlast
        · exact fun hlast => ⟨text, htext, hlast⟩
      have hchainText := isChain_apart_iff.mpr ⟨hplain.not_line, hplain.not_block⟩
      -- what is read outside is the segment, the literal and the rest, and two of them meet in
      -- between
      rw [List.flatMap_cons, List.flatMap_cons, houtside, outside_append, List.isChain_append,
        apart_iff hquiet, List.isChain_append, hchain _ hplace, List.zip_cons_cons]
      simp only [List.mem_cons, exists_eq_or_imp, hends]
      constructor
      · rintro ⟨-, ⟨-, hlater, -⟩, hhere⟩ (hpair | hpair)
        · exact hhere hpair
        · exact hlater hpair
      · intro hnone
        exact ⟨hchainText, ⟨hquiet.isChain, fun hpair => hnone (.inr hpair), hquiet.apart_getLast⟩,
          fun hpair => hnone (.inl hpair)⟩

/-- A template of segments that neither quote anything nor begin a comment, with values that have
literals, is put together and resolved. Its text begins a comment outside its constants where a
segment that ends in a minus meets a number with a minus, and nowhere else. -/
theorem opensComment_template_iff (d : Dialect) {source : Value} {arguments : Format.Arguments}
    {t : Template} {literals : List String} {context : Context}
    (ht : Template.ofSource source arguments = .ok t)
    (hvalues : Literal.ofValues t.values = .ok literals)
    (hsegments : ∀ s ∈ t.segments, s.IsPlain context) :
    ∃ f text, Fragment.template source arguments = .ok f ∧ f.resolve context = .ok text ∧
      (d.OpensComment text.toList ↔
        ∃ pair ∈ t.segments.zip t.values, pair.1.EndsInMinus context ∧ pair.2.isSigned = true) := by
  obtain ⟨texts, htexts, hchain⟩ :=
    isChain_interleave (d := d) t.length_segments hsegments hvalues
  refine ⟨.joined "" (Fragment.interleave t.segments (literals.map .text)), "".intercalate texts,
    ?_, ?_, ?_⟩
  · rw [Fragment.template_eq, ht]
    change Fragment.ofTemplate t = _
    rw [Fragment.ofTemplate, ofValues_eq_literals hvalues]
    rfl
  · rw [Fragment.resolve, htexts]
    rfl
  · -- a template is read from its beginning, which is outside of any constant
    have hiff := (isChain_apart_iff.symm.trans (hchain .gap rfl)).not
    rw [toList_intercalate_empty, OpensComment]
    rw [not_not, ← not_or, not_not] at hiff
    exact hiff

/-- A text that quotes begins no comment behind a minus, and neither does an array with numbers that
have one. -/
theorem opensComment_template_array :
    ∃ f text, Fragment.template (.template [.text .plain "a-", .text .plain " = -", .text .plain ""]
        [.ofString "\\\x27--/*", .list [.ofInt (-1), .ofInt (-2)]]) {} = .ok f ∧
      f.resolve .nowhere = .ok text ∧
      (Dialect.OpensComment ⟨false, fun _ => true⟩ text.toList ↔
        ∃ pair ∈ [Segment.text .plain "a-", .text .plain " = -", .text .plain ""].zip
            [Value.ofString "\\\x27--/*", .list [.ofInt (-1), .ofInt (-2)]],
          pair.1.EndsInMinus .nowhere ∧ pair.2.isSigned = true) := by
  have hplain : ∀ text ∈ ["a-", " = -", ""], IsPlain text.toList := by
    rintro text htext
    simp only [List.mem_cons, List.not_mem_nil, or_false] at htext
    obtain rfl | rfl | rfl := htext <;>
      exact ⟨by simp, by simp, by simp, by simp [List.infix_cons_iff],
        by simp [List.infix_cons_iff]⟩
  refine @opensComment_template_iff ⟨false, fun _ => true⟩
    (.template [.text .plain "a-", .text .plain " = -", .text .plain ""]
      [.ofString "\\\x27--/*", .list [.ofInt (-1), .ofInt (-2)]]) {} ⟨_, _, rfl⟩ _ _ rfl rfl ?_
  rintro s hs
  simp only [List.mem_cons, List.not_mem_nil, or_false] at hs
  obtain rfl | rfl | rfl := hs <;> exact ⟨_, rfl, hplain _ (by simp)⟩

/-- Segments that begin no comment and values that have literals do not make a text that begins
none, to no reader: a minus at the end of a segment meets the minus of a number. -/
theorem not_opensComment_of_plain :
    ¬ ∃ d : Dialect, ∀ {source : Value} {arguments : Format.Arguments} {t : Template}
      {literals : List String} {context : Context} {f : Fragment} {text : String},
      Template.ofSource source arguments = .ok t → Literal.ofValues t.values = .ok literals →
      (∀ s ∈ t.segments, s.IsPlain context) → Fragment.template source arguments = .ok f →
      f.resolve context = .ok text → ¬ d.OpensComment text.toList := by
  rintro ⟨d, hall⟩
  have hplain : ∀ s ∈ [Segment.text .plain "SELECT 1-", .text .plain ""], s.IsPlain .nowhere := by
    intro s hs
    simp only [List.mem_cons, List.not_mem_nil, or_false] at hs
    obtain rfl | rfl := hs <;>
      exact ⟨_, rfl, by simp, by simp, by simp, by simp [List.infix_cons_iff],
        by simp [List.infix_cons_iff]⟩
  -- the minus of the segment and that of the number begin a comment
  have hminus : toString (-1 : Int) = "-1" := by decide
  have htext :
      ("".intercalate ["SELECT 1-", toString (-1 : Int), ""]).toList = "SELECT 1--1".toList := by
    simp [String.intercalate_cons_cons, hminus]
  have hnot : ¬ d.OpensComment ("".intercalate ["SELECT 1-", toString (-1 : Int), ""]).toList :=
    @hall (.template [.text .plain "SELECT 1-", .text .plain ""] [.ofInt (-1)]) {} ⟨_, _, rfl⟩
      [toString (-1 : Int)] .nowhere
      (.joined "" [.text "SELECT 1-", .text (toString (-1 : Int)), .text ""]) _ rfl rfl
        hplain rfl rfl
  rw [htext] at hnot
  refine hnot (.inl ?_)
  rw [(outside_of_notMem_quote rfl (by simp)).1]
  exact ⟨"SELECT 1".toList, "1".toList, by simp⟩

end Dialect

end PooledSql
