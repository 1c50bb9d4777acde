import PooledSql.Proofs.Format.Grammar

/-!
# The grammar of paths

A path is spelled as the name of an argument and the steps taken from there: a point and the name of
a field, or an index in brackets. Every text begins with such a path, and where it goes on with
anything else it is broken off. A path is followed while it is read, so that it matters that it is
broken off only if its front leads to a value (`Format.Arguments.resolve_cases`).

* `Format.Path`, `Format.Path.spell`: a path, and the text that it is spelled as.
* `Format.BreaksOff`: what stands behind some steps is not the beginning of another one.
* `Format.Arguments.Stumbles`, `Format.Arguments.Misuses`: a text is broken off behind a front that
  leads to a value, or asks that value for a part that it cannot have.
-/

namespace PooledSql

/-- Whether a value has no part under a key, whatever it holds: parts in positions are those of
sequences and dictionaries, and parts under names are those of dictionaries alone. -/
def Value.Declines (v : Value) (key : Format.Key) : Prop :=
  (∀ entries, v ≠ .dict entries) ∧ (v.sequence? = none ∨ ∃ s, key = .name s)

namespace Format

/-- A step of a path: to a field, or to the part under an index. -/
inductive Step
  | field (name : List Char)
  | item (index : List Char)
  deriving DecidableEq

namespace Step

/-- The text of a step. -/
def spell : Step → List Char
  | field name => '.' :: name
  | item index => '[' :: (index ++ [']'])

/-- Whether a step is spelled correctly. -/
def IsWellFormed : Step → Prop
  | field name => name ≠ [] ∧ ∀ c ∈ name, startsStep c = false
  | item index => index ≠ [] ∧ ']' ∉ index ∧ FitsIndex index

instance : DecidablePred IsWellFormed
  | field _ => inferInstanceAs (Decidable (_ ∧ _))
  | item _ => inferInstanceAs (Decidable (_ ∧ _ ∧ _))

/-- A step and those after it. -/
def before : Step → Steps → Steps
  | field name, rest => .field name rest
  | item index, rest => .item (referent 0 index) rest

/-- The value that a step leads to from another one. -/
def take (v : Value) (s : Step) : Except Failure Value := (s.before .done).follow v

end Step

/-- The name of an argument and the steps from there. -/
structure Path where
  /-- The name of the argument. -/
  head : List Char
  steps : List Step
  deriving DecidableEq

/-- The text of a path. -/
def Path.spell (p : Path) : List Char := p.head ++ p.steps.flatMap Step.spell

/-- Whether a path is spelled correctly. -/
structure Path.IsWellFormed (p : Path) : Prop where
  simple : ∀ c ∈ p.head, startsStep c = false
  fits : FitsIndex p.head
  steps : ∀ s ∈ p.steps, s.IsWellFormed

/-- Whether a text is empty or begins with a step. -/
def StartsStep (cs : List Char) : Prop := ∀ c ∈ cs.head?, startsStep c = true

instance : DecidablePred StartsStep := fun cs =>
  inferInstanceAs (Decidable (∀ c ∈ cs.head?, startsStep c = true))

/-- Whether some steps are over before a text. -/
def EndBefore (steps : List Step) (rest : List Char) : Prop :=
  StartsStep rest ∨ ∃ index, steps.getLast? = some (.item index)

/-- What stands behind some steps and is not the beginning of another one, nor the end of a path. -/
inductive BreaksOff (steps : List Step) : List Char → PathFault → Prop
  /-- There is no name behind a point. -/
  | emptyField {rest} (hrest : StartsStep rest) : BreaksOff steps ('.' :: rest) .emptyStep
  /-- There is no index in brackets. -/
  | emptyIndex {rest} : BreaksOff steps ('[' :: ']' :: rest) .emptyStep
  /-- An index begins with too large a number. -/
  | largeIndex {index rest} (hindex : ']' ∉ index) (hlarge : ¬ FitsIndex index) :
    BreaksOff steps ('[' :: (index ++ ']' :: rest)) .tooManyDigits
  /-- A bracket is not closed. -/
  | unclosedIndex {index} (hindex : ']' ∉ index) : BreaksOff steps ('[' :: index) .unclosedIndex
  /-- An index is followed by some other text. -/
  | textAfterIndex {index c rest} (hlast : steps.getLast? = some (.item index))
      (hc : startsStep c = false) : BreaksOff steps (c :: rest) .textAfterIndex

/-- Whether a text begins with a path that leads to a value, and is broken off there. Too large a
number in front is not even a name. -/
inductive Arguments.Stumbles (a : Arguments) : List Char → PathFault → Prop
  | front {head rest} (hhead : ∀ c ∈ head, startsStep c = false) (hrest : StartsStep rest)
      (hlarge : ¬ FitsIndex head) : a.Stumbles (head ++ rest) .tooManyDigits
  | behind {p : Path} {v rest fault} (hp : p.IsWellFormed) (hv : a.resolve p.spell = .ok v)
      (hrest : BreaksOff p.steps rest fault) : a.Stumbles (p.spell ++ rest) fault

/-- Whether a text begins with a path that leads to a value, and asks it for a part that it cannot
have. -/
def Arguments.Misuses (a : Arguments) (name : List Char) : Prop :=
  ∃ (p : Path) (index rest : List Char) (v : Value),
    p.IsWellFormed ∧ (Step.item index).IsWellFormed ∧
    name = p.spell ++ ((Step.item index).spell ++ rest) ∧ a.resolve p.spell = .ok v ∧
      v.Declines (referent 0 index)

variable {a : Arguments} {c : Char} {cs head index name rest : List Char} {s : Step}
  {steps : List Step} {rests : Steps} {p : Path} {v : Value} {f : Failure} {fault : PathFault}

/-! ### Spelled steps are read -/

/-- A text that begins with a step is over in front of it, as far as a name goes. -/
theorem readFieldName_of_startsStep (hcs : StartsStep cs) :
    readFieldName cs = ([], readSteps cs) := by
  cases cs with
  | nil => rfl
  | cons c cs =>
    have hc : c = '.' ∨ c = '[' := by simpa [startsStep] using hcs c rfl
    rcases hc with rfl | rfl <;> rfl

/-- Every text goes up to the next step. -/
theorem exists_append_startsStep (cs : List Char) :
    ∃ name rest, cs = name ++ rest ∧ (∀ c ∈ name, startsStep c = false) ∧ StartsStep rest := by
  refine ⟨cs.takeWhile fun c => !startsStep c, cs.dropWhile fun c => !startsStep c,
    List.takeWhile_append_dropWhile.symm, fun c hc => ?_, fun c hc => ?_⟩
  · simpa using List.mem_takeWhile_imp hc
  · have hfirst := List.head?_dropWhile_not (fun c => !startsStep c) cs
    rw [Option.mem_def.mp hc] at hfirst
    simpa using hfirst

theorem exists_cons_of_not_startsStep (h : ¬ StartsStep cs) :
    ∃ c rest, cs = c :: rest ∧ startsStep c = false := by
  cases cs with
  | nil => exact absurd nofun h
  | cons c rest => exact ⟨c, rest, rfl, by simpa [StartsStep] using h⟩

/-- The name of a field is read up to the next step. -/
theorem readFieldName_append (hname : ∀ c ∈ name, startsStep c = false) (hrest : StartsStep rest) :
    readFieldName (name ++ rest) = (name, readSteps rest) := by
  induction name with
  | nil => exact readFieldName_of_startsStep hrest
  | cons c name ih =>
    obtain ⟨hc, hname⟩ := List.forall_mem_cons.mp hname
    simp only [startsStep, Bool.or_eq_false_iff, beq_eq_false_iff_ne] at hc
    rw [List.cons_append, readFieldName.eq_4 _ _ hc.1 hc.2, ih hname]

/-- An index is read up to its bracket. -/
theorem readIndex_append (hindex : ']' ∉ index) :
    readIndex (index ++ ']' :: rest) = some (index, readSteps rest) := by
  induction index with
  | nil => rfl
  | cons c index ih =>
    obtain ⟨hc, hindex⟩ := not_or.mp (mt List.mem_cons.mpr hindex)
    rw [List.cons_append, readIndex.eq_3 _ _ (Ne.symm hc), ih hindex]
    rfl

/-- Without a bracket there is no index. -/
theorem readIndex_eq_none (hindex : ']' ∉ index) : readIndex index = none := by
  induction index with
  | nil => rfl
  | cons c index ih =>
    obtain ⟨hc, hindex⟩ := not_or.mp (mt List.mem_cons.mpr hindex)
    rw [readIndex.eq_3 _ _ (Ne.symm hc), ih hindex]
    rfl

/-- The only fault of a name or an index is too large a number. -/
theorem readKeyFrom_eq_error {n : Nat} (h : readKeyFrom name n cs = .error fault) :
    fault = .tooManyDigits := by
  induction cs generalizing n with
  | nil => cases h
  | cons c cs ih =>
    rw [readKeyFrom] at h
    split at h
    next => cases h
    next =>
      split at h
      next =>
        cases h
        rfl
      next => exact ih h

/-- Too large a number in front of a name or an index is a fault. -/
theorem readKey_eq_error (hlarge : ¬ FitsIndex name) : readKey name = .error .tooManyDigits := by
  have hname : name ≠ [] := by
    rintro rfl
    exact hlarge (by decide)
  rw [readKey, if_neg (by simpa using hname)]
  cases hkey : readKeyFrom name 0 name with
  | error fault => rw [readKeyFrom_eq_error hkey]
  | ok key => exact absurd (fits_of_readKeyFrom (Nat.zero_le _) hkey) hlarge

/-- A step begins with a character that does so. -/
theorem startsStep_spell : StartsStep (s.spell ++ rest) := by
  intro c hc
  cases s <;> cases hc <;> rfl

/-- A step is read, and then what is behind it. -/
theorem readSteps_spell (hs : s.IsWellFormed) (hrest : EndBefore [s] rest) :
    readSteps (s.spell ++ rest) = s.before (readSteps rest) := by
  -- a field goes up to the next step, an index up to its bracket
  cases s with
  | field name =>
    obtain ⟨hne, hname⟩ := hs
    have hrest : StartsStep rest := hrest.resolve_right (by simp)
    rw [Step.spell, List.cons_append, readSteps, readFieldName_append hname hrest]
    cases name with
    | nil => exact absurd rfl hne
    | cons c name => rfl
  | item index =>
    obtain ⟨hne, hclosed, hfits⟩ := hs
    have happend :
        (Step.item index).spell ++ rest = '[' :: (index ++ ']' :: rest) := by simp [Step.spell]
    rw [happend, readSteps, readIndex_append hclosed, Steps.ofItem, @readKey_eq _ 0 hne hfits]
    · rfl
    · exact hne

/-- Steps that are over before a text are so from any of them on. -/
theorem EndBefore.tail (h : EndBefore (s :: steps) rest) (hsteps : steps ≠ []) :
    EndBefore steps rest := by
  rcases h with hrest | ⟨index, hlast⟩
  · exact .inl hrest
  · rw [List.getLast?_cons_of_ne_nil hsteps] at hlast
    exact .inr ⟨index, hlast⟩

/-- Steps are read one after the other, and then what is behind them. -/
theorem readSteps_flatMap_spell (hsteps : ∀ s ∈ steps, s.IsWellFormed)
    (hrest : EndBefore steps rest) :
    readSteps (steps.flatMap Step.spell ++ rest) = steps.foldr Step.before (readSteps rest) := by
  induction steps with
  | nil => rfl
  | cons s steps ih =>
    obtain ⟨hs, hsteps⟩ := List.forall_mem_cons.mp hsteps
    rw [List.flatMap_cons, List.append_assoc, List.foldr_cons]
    cases steps with
    | nil => exact readSteps_spell hs hrest
    | cons s' steps =>
      -- what is behind the first step begins with the second one
      have hnext : StartsStep ((s' :: steps).flatMap Step.spell ++ rest) := by
        rw [List.flatMap_cons, List.append_assoc]
        exact startsStep_spell
      rw [readSteps_spell hs (.inl hnext), ih hsteps (hrest.tail (List.cons_ne_nil _ _))]

/-- Steps are broken off where they are over. -/
theorem BreaksOff.endBefore (h : BreaksOff steps rest fault) : EndBefore steps rest := by
  cases h with
  | emptyField | emptyIndex | largeIndex | unclosedIndex =>
    refine .inl fun c hc => ?_
    cases hc
    rfl
  | textAfterIndex hlast => exact .inr ⟨_, hlast⟩

/-- What breaks steps off is read as a fault. -/
theorem BreaksOff.readSteps_eq (h : BreaksOff steps rest fault) :
    readSteps rest = .fault fault := by
  -- each fault is seen where the steps before it end
  cases h with
  | emptyField hrest => rw [readSteps, readFieldName_of_startsStep hrest, Steps.ofField]
  | emptyIndex => rfl
  | @largeIndex index rest hindex hlarge =>
    rw [readSteps, readIndex_append hindex]
    -- an index with too large a number in front of it is not empty
    cases index with
    | nil => exact absurd (by decide) hlarge
    | cons c index => simp only [Steps.ofItem, readKey_eq_error hlarge]
  | unclosedIndex hindex => rw [readSteps, readIndex_eq_none hindex, Steps.ofItem]
  | textAfterIndex _ hc =>
    simp only [startsStep, Bool.or_eq_false_iff, beq_eq_false_iff_ne] at hc
    exact readSteps.eq_4 _ _ hc.1 hc.2

/-- What breaks steps off does so behind further ones. -/
theorem BreaksOff.cons (h : BreaksOff steps rest fault) : BreaksOff (s :: steps) rest fault := by
  cases h with
  | emptyField hrest => exact .emptyField hrest
  | emptyIndex => exact .emptyIndex
  | largeIndex hindex hlarge => exact .largeIndex hindex hlarge
  | unclosedIndex hindex => exact .unclosedIndex hindex
  | @textAfterIndex index c rest hlast hc =>
    have hlast : (s :: steps).getLast? = some (.item index) := by
      rw [List.getLast?_cons, hlast]
      rfl
    exact .textAfterIndex hlast hc

/-- Whether a text is spelled of steps, up to where it is broken off, if it is. -/
def IsSpelled (cs : List Char) : Prop :=
  ∃ steps rest, (∀ s ∈ steps, s.IsWellFormed) ∧ cs = steps.flatMap Step.spell ++ rest ∧
    (rest = [] ∨ ∃ fault, BreaksOff steps rest fault)

theorem IsSpelled.of_breaksOff (h : BreaksOff [] cs fault) : IsSpelled cs :=
  ⟨[], cs, nofun, rfl, .inr ⟨fault, h⟩⟩

/-- A step in front of a text that is spelled of steps. -/
theorem IsSpelled.step (h : IsSpelled rest) (hs : s.IsWellFormed) :
    IsSpelled (s.spell ++ rest) := by
  obtain ⟨steps, rest, hsteps, rfl, hend⟩ := h
  refine ⟨s :: steps, rest, List.forall_mem_cons.mpr ⟨hs, hsteps⟩, ?_, ?_⟩
  · rw [List.flatMap_cons, List.append_assoc]
  · exact hend.imp_right fun ⟨fault, h⟩ => ⟨fault, h.cons⟩

/-- A text that begins with a step is spelled of steps up to where it is broken off, if it is. The
induction is on the length of the text, since a step is passed over at once. -/
theorem isSpelled_of_startsStep (hcs : StartsStep cs) : IsSpelled cs := by
  induction hlength : cs.length using Nat.strongRecOn generalizing cs with
  | ind length ih =>
    subst hlength
    cases cs with
    | nil => exact ⟨[], [], nofun, rfl, .inl rfl⟩
    | cons c cs =>
      have hc : c = '.' ∨ c = '[' := by simpa [startsStep] using hcs c rfl
      rcases hc with rfl | rfl
      · -- the name of a field goes up to the next step
        obtain ⟨name, rest, rfl, hname, hrest⟩ := exists_append_startsStep cs
        by_cases hne : name = []
        · subst hne
          exact .of_breaksOff (.emptyField hrest)
        · have hs : (Step.field name).IsWellFormed := ⟨hne, hname⟩
          have hshorter : rest.length < ('.' :: (name ++ rest)).length := by
            simp only [List.length_cons, List.length_append]
            omega
          exact (ih _ hshorter hrest rfl).step hs
      · by_cases hclosed : ']' ∈ cs
        · obtain ⟨index, rest, rfl, hindex⟩ := List.eq_append_cons_of_mem hclosed
          by_cases hne : index = []
          · subst hne
            exact .of_breaksOff .emptyIndex
          by_cases hfits : FitsIndex index
          · have hs : (Step.item index).IsWellFormed := ⟨hne, hindex, hfits⟩
            have happend : '[' :: (index ++ ']' :: rest) = (Step.item index).spell ++ rest := by
              simp [Step.spell]
            rw [happend]
            by_cases hrest : StartsStep rest
            · exact (ih rest.length (by simp; omega) hrest rfl).step hs
            · -- only a step may follow an index
              obtain ⟨c, rest, rfl, hc⟩ := exists_cons_of_not_startsStep hrest
              have hbreaks : BreaksOff [.item index] (c :: rest) .textAfterIndex :=
                .textAfterIndex rfl hc
              exact ⟨[.item index], c :: rest, by simpa using hs, by simp, .inr ⟨_, hbreaks⟩⟩
          · exact .of_breaksOff (.largeIndex hindex hfits)
        · exact .of_breaksOff (.unclosedIndex hclosed)

/-! ### Paths are followed -/

/-- A step leads to a value, and those after it lead on from there. -/
theorem follow_before : (s.before rests).follow v = s.take v >>= rests.follow := by
  cases s with
  | field name =>
    simp only [Step.take, Step.before, Steps.follow]
    cases v.fieldNamed (String.ofList name) <;> rfl
  | item index =>
    simp only [Step.take, Step.before]
    cases referent 0 index with
    | position n =>
      simp only [Steps.follow]
      cases v.atPosition n <;> rfl
    | name s =>
      simp only [Steps.follow]
      cases v.atKey (String.ofList s) <;> rfl

/-- Steps lead from value to value, and whatever is behind them leads on from the last one. -/
theorem follow_foldr_before : (steps.foldr Step.before rests).follow v =
    steps.foldlM (fun v s => s.take v) v >>= rests.follow := by
  induction steps generalizing v with
  | nil => rfl
  | cons s steps ih =>
    rw [List.foldr_cons, follow_before, List.foldlM_cons, bind_assoc]
    exact bind_congr fun _ => ih

/-- Steps behind a name lead on from the argument that it names. -/
theorem Arguments.resolve_head_append (hhead : ∀ c ∈ head, startsStep c = false)
    (hrest : StartsStep rest) :
    a.resolve (head ++ rest) = a.resolve head >>= (readSteps rest).follow := by
  -- what names the argument goes up to the first step
  have hall : ∀ c ∈ head, (!startsStep c) = true := fun c hc => by simp [hhead c hc]
  have htake : (rest.takeWhile fun c => !startsStep c) = [] := by
    cases rest with
    | nil => rfl
    | cons c rest => simp [hrest c rfl]
  have hdrop : (rest.dropWhile fun c => !startsStep c) = rest := by
    cases rest with
    | nil => rfl
    | cons c rest => simp [hrest c rfl]
  rw [resolve, List.takeWhile_append_of_pos hall, List.dropWhile_append_of_pos hall, htake, hdrop,
    List.append_nil, a.resolve_eq hhead]
  cases readKey head <;> rfl

/-- What is behind the name of a path begins with a step. -/
theorem startsStep_flatMap_spell (hrest : EndBefore steps rest) :
    StartsStep (steps.flatMap Step.spell ++ rest) := by
  cases steps with
  | nil => exact hrest.resolve_right (by simp)
  | cons s steps =>
    rw [List.flatMap_cons, List.append_assoc]
    exact startsStep_spell

/-- A path leads to the argument that it names, and on from there step by step. -/
theorem Arguments.resolve_append_eq_foldlM (hp : p.IsWellFormed) (hrest : EndBefore p.steps rest) :
    a.resolve (p.spell ++ rest) = a.resolve p.head >>= fun v =>
      p.steps.foldlM (fun v s => s.take v) v >>= (readSteps rest).follow := by
  rw [Path.spell, List.append_assoc, resolve_head_append hp.simple (startsStep_flatMap_spell hrest),
    readSteps_flatMap_spell hp.steps hrest]
  exact bind_congr fun _ => follow_foldr_before

theorem Arguments.resolve_spell (hp : p.IsWellFormed) :
    a.resolve p.spell = a.resolve p.head >>= p.steps.foldlM (fun v s => s.take v) := by
  have hall := a.resolve_append_eq_foldlM hp (.inl (show StartsStep [] from nofun))
  rw [List.append_nil] at hall
  rw [hall]
  exact bind_congr fun v => bind_pure _

/-- A path with something behind it leads to where the path itself does, and on from there. -/
theorem Arguments.resolve_append (hp : p.IsWellFormed) (hrest : EndBefore p.steps rest) :
    a.resolve (p.spell ++ rest) = a.resolve p.spell >>= (readSteps rest).follow := by
  rw [resolve_append_eq_foldlM hp hrest, resolve_spell hp, bind_assoc]

/-- A text that is broken off behind a value is a fault of the path. -/
theorem Arguments.Stumbles.resolve_eq (h : a.Stumbles name fault) :
    a.resolve name = .error (Fault.format fault).failure := by
  cases h with
  | front hhead hrest hlarge =>
    rw [resolve_head_append hhead hrest, a.resolve_eq hhead, readKey_eq_error hlarge]
    rfl
  | behind hp hv hrest =>
    rw [resolve_append hp hrest.endBefore, hv, hrest.readSteps_eq]
    rfl

/-! ### Failures on the way -/

/-- A value is asked for the part under a key as by a step. -/
theorem follow_item_done {key : Key} : (Steps.item key .done).follow v = match key with
    | .position n => v.atPosition n
    | .name s => v.atKey (String.ofList s) := by
  cases key with
  | position n => exact bind_pure (v.atPosition n)
  | name s => exact bind_pure (v.atKey (String.ofList s))

/-- Asking a value for a part that it declines is a misuse. -/
theorem follow_item_of_declines {key : Key} (hv : v.Declines key) :
    ∃ m, (Steps.item key .done).follow v = .error (Fault.misuse m).failure := by
  obtain ⟨hdict, hsequence⟩ := hv
  rw [follow_item_done]
  -- only a dictionary has parts under names as well as under numbers
  cases key with
  | position n =>
    -- a sequence has parts in positions, so there is none
    have hnone : v.sequence? = none := hsequence.resolve_right nofun
    simp only [Value.atPosition.eq_def]
    split
    next heq => simp [hnone] at heq
    next => exact absurd rfl (hdict _)
    next => exact ⟨_, rfl⟩
  | name s =>
    simp only [Value.atKey.eq_def]
    split
    next => exact ⟨_, rfl⟩
    next => exact absurd rfl (hdict _)
    next => exact ⟨_, rfl⟩

/-- A sequence fails for want of an item. -/
theorem isMissing_of_itemAt {sequence : Sequence} {items : List Value} {n : Nat}
    (h : Value.itemAt sequence items n = .error f) : Template.isMissing f = true := by
  rw [Value.itemAt] at h
  split at h
  · cases h
  · cases h
    rfl

/-- A part is wanting, unless the value declines it. -/
theorem isMissing_of_follow_item {key : Key} (h : (Steps.item key .done).follow v = .error f)
    (hv : ¬ v.Declines key) : Template.isMissing f = true := by
  rw [follow_item_done] at h
  -- a part is looked up in a sequence or in a dictionary; anything else declines the index
  cases key with
  | position n =>
    simp only [Value.atPosition.eq_def] at h
    split at h
    next => exact isMissing_of_itemAt h
    next =>
      split at h
      · cases h
      · cases h
        rfl
    next hdict hnone => exact absurd ⟨fun entries => hdict entries, .inl hnone⟩ hv
  | name s =>
    simp only [Value.atKey.eq_def] at h
    split at h
    next heq =>
      -- a sequence declines every name
      refine absurd ⟨fun entries => ?_, .inr ⟨s, rfl⟩⟩ hv
      rintro rfl
      cases heq
    next =>
      split at h
      · cases h
      · cases h
        rfl
    next hdict _ => exact absurd ⟨fun entries => hdict entries, .inr ⟨s, rfl⟩⟩ hv

/-- A step fails for want of a part, or because the value declines the index. -/
theorem Step.take_eq_error (h : s.take v = .error f) : Template.isMissing f = true ∨
    f.kind = .type ∧ ∃ index, s = .item index ∧ v.Declines (referent 0 index) := by
  cases s with
  | field name =>
    have hfield : v.fieldNamed (String.ofList name) = .error f := h ▸ (bind_pure _).symm
    rw [Value.fieldNamed] at hfield
    split at hfield
    · cases hfield
    · cases hfield
      exact .inl rfl
  | item index =>
    -- the index is declined, or there is no such part
    by_cases hv : v.Declines (referent 0 index)
    · obtain ⟨m, hm⟩ := follow_item_of_declines hv
      rw [Step.take, Step.before, hm] at h
      cases h
      exact .inr ⟨rfl, index, rfl, hv⟩
    · exact .inl (isMissing_of_follow_item h hv)

/-- Asking a value that a path leads to for a part that it declines is a misuse. -/
theorem Arguments.Misuses.resolve_eq (h : a.Misuses name) :
    ∃ m, a.resolve name = .error (Fault.misuse m).failure := by
  obtain ⟨p, index, rest, v, hp, hindex, rfl, hv, hdeclines⟩ := h
  obtain ⟨m, hm⟩ := follow_item_of_declines hdeclines
  have htake : (Step.item index).take v = .error (Fault.misuse m).failure := hm
  have hover : EndBefore [.item index] rest := .inr ⟨index, rfl⟩
  refine ⟨m, ?_⟩
  rw [resolve_append hp (.inl startsStep_spell), hv, readSteps_spell hindex hover]
  change ((Step.item index).before (readSteps rest)).follow v = _
  rw [follow_before, htake]
  rfl

/-- Every text begins with too large a number, or with a path that is spelled correctly and goes on,
if it does, with something that breaks it off. -/
theorem exists_path (name : List Char) :
    (∃ head rest, name = head ++ rest ∧ (∀ c ∈ head, startsStep c = false) ∧ StartsStep rest ∧
      ¬ FitsIndex head) ∨
    ∃ (p : Path) (rest : List Char), p.IsWellFormed ∧ name = p.spell ++ rest ∧
      (rest = [] ∨ ∃ fault, BreaksOff p.steps rest fault) := by
  obtain ⟨head, rest, rfl, hhead, hrest⟩ := exists_append_startsStep name
  by_cases hfits : FitsIndex head
  · obtain ⟨steps, rest, hsteps, rfl, hend⟩ := isSpelled_of_startsStep hrest
    exact .inr ⟨⟨head, steps⟩, rest, ⟨hhead, hfits, hsteps⟩, (List.append_assoc ..).symm, hend⟩
  · exact .inl ⟨head, rest, rfl, hhead, hrest, hfits⟩

/-- A path that is spelled correctly leads to no value for want of an argument or of a part, or
because a value on the way declines an index. -/
theorem Arguments.resolve_spell_eq_error (hp : p.IsWellFormed) (h : a.resolve p.spell = .error f) :
    Template.isMissing f = true ∨ a.Misuses (p.spell ++ rest) := by
  rw [resolve_spell hp, bind_eq_error_iff] at h
  rcases h with hhead | ⟨v, hhead, hsteps⟩
  · -- the argument is not there
    left
    have hsome : ∃ key, readKey p.head = .ok key := by
      by_cases hempty : p.head = []
      · exact ⟨.name [], by rw [hempty]; rfl⟩
      · exact ⟨_, @readKey_eq _ 0 hempty hp.fits⟩
    obtain ⟨key, hkey⟩ := hsome
    rw [a.resolve_eq hp.simple, hkey] at hhead
    simp only [a.get_eq] at hhead
    split at hhead
    · cases hhead
    · cases hhead
      cases key <;> rfl
  · -- the step that fails is the first one behind a path to `w`
    obtain ⟨before, s, behind, w, heq, hbefore, hs⟩ := exists_of_foldlM_eq_error hsteps
    refine (Step.take_eq_error hs).imp_right ?_
    rintro ⟨-, index, rfl, hw⟩
    have hall := hp.steps
    rw [heq, List.forall_mem_append, List.forall_mem_cons] at hall
    obtain ⟨hwell, hindex, -⟩ := hall
    have hfront : Path.IsWellFormed ⟨p.head, before⟩ := ⟨hp.simple, hp.fits, hwell⟩
    refine ⟨⟨p.head, before⟩, index, behind.flatMap Step.spell ++ rest, w, hfront,
      hindex, ?_, ?_, hw⟩
    · simp [Path.spell, heq]
    · rw [resolve_spell hfront]
      show a.resolve p.head >>= _ = _
      rw [hhead]
      exact hbefore

/-- A text leads to no value because it is broken off behind one, because it asks one for a part
that this cannot have, or for want of an argument or of a part. -/
theorem Arguments.resolve_cases (h : a.resolve name = .error f) :
    (∃ fault, a.Stumbles name fault) ∨ a.Misuses name ∨ Template.isMissing f = true := by
  rcases exists_path name with ⟨head, rest, rfl, hhead, hrest, hlarge⟩ | ⟨p, rest, hp, rfl, hend⟩
  · exact .inl ⟨_, .front hhead hrest hlarge⟩
  have hover : EndBefore p.steps rest := by
    rcases hend with rfl | ⟨fault, hbroken⟩
    · exact .inl nofun
    · exact hbroken.endBefore
  rw [resolve_append hp hover, bind_eq_error_iff] at h
  rcases h with hfront | ⟨v, hv, hrest⟩
  · exact .inr (resolve_spell_eq_error hp hfront).symm
  · rcases hend with rfl | ⟨fault, hbroken⟩
    · cases hrest
    · exact .inl ⟨fault, .behind hp hv hbroken⟩

end Format

end PooledSql
