import PooledSql.Proofs.Result.FirstColumn

/-!
# Row counts

How many rows a result says it has, where the server has given rows back. What it says comes from
the status tag, and from the rows only if there is no tag. A tag that ends in the number of the rows
is right about them; but a command may give rows back and have a tag without a number, and then the
result says that no number is known although the rows are there (`WireM.rowCount_of_execute`).

* `StatusTag.EndsInCount`: a tag ends in a number behind its command.
* `StatusTag.IsBlank`, `StatusTag.IsCountless`: a tag has no words, and a tag has a command but no
  number.
* `WireM.ends_execute_of_told`: how a statement ends whose status tag has been told.
-/

namespace PooledSql

namespace StatusTag

/-- The words of a tag; there are none without a tag. -/
def words (tag : Option String) : List String := tag.elim [] Text.words

/-- The command that a tag names, which is empty if it names none. -/
def command (tag : Option String) : String := (words tag).head?.getD ""

/-- Whether a tag ends in a number, behind its command. -/
def EndsInCount (tag : Option String) (n : Int) : Prop :=
  ∃ command between last, words tag = command :: (between ++ [last]) ∧ readInteger last = .ok n

/-- Whether there is a tag, but nothing in it except blanks. -/
def IsBlank (tag : Option String) : Prop := words tag = [] ∧ tag.getD "" ≠ ""

/-- Whether a tag names a command, but does not end in a number. -/
def IsCountless (tag : Option String) : Prop := words tag ≠ [] ∧ ∀ n, ¬ EndsInCount tag n

variable {tag : Option String} {fetched : Nat} {n : Int}

/-- Without a tag the rows are counted. -/
theorem parse_of_absent (htag : tag.getD "" = "") :
    parse tag fetched = .ok ("", (fetched : Int)) := by
  cases tag with
  | none => rfl
  | some tag =>
    obtain rfl : tag = "" := htag
    rfl

/-- A tag of blanks has no command to name. -/
theorem parse_of_isBlank (htag : IsBlank tag) :
    parse tag fetched = .error (Fault.missingIndex .list).failure := by
  obtain ⟨hwords, hne⟩ := htag
  cases tag with
  | none => exact absurd rfl hne
  | some tag =>
    have hempty : ¬ tag.isEmpty = true := fun h => hne (String.isEmpty_iff.mp h)
    have hnone : Text.words tag = [] := hwords
    rw [parse, if_neg hempty, hnone]

/-- A tag with words names its first one, and the number that it ends in, if it does. -/
theorem parse_of_words {rest : List String} {c : String} (htag : words tag = c :: rest) :
    parse tag fetched = .ok (c, count (c :: rest)) := by
  cases tag with
  | none => cases htag
  | some tag =>
    have hwords : Text.words tag = c :: rest := htag
    have hempty : ¬ tag.isEmpty = true := fun h => by
      rw [String.isEmpty_iff.mp h] at hwords
      cases hwords
    rw [parse, if_neg hempty, hwords]

/-- A tag that ends in a number reports it. -/
theorem EndsInCount.count_eq (h : EndsInCount tag n) : count (words tag) = n := by
  obtain ⟨command, between, last, hwords, hlast⟩ := h
  rw [hwords, count, if_neg (by simp), ← List.cons_append, List.getLast?_concat]
  simp only [Option.map_some, hlast]

/-- A tag that does not end in a number reports none. -/
theorem count_eq_of_not_endsInCount (h : ∀ n, ¬ EndsInCount tag n) : count (words tag) = -1 := by
  rw [count]
  split
  next => rfl
  next hlength =>
    -- there is a last word behind the first one
    obtain ⟨command, rest, hwords⟩ : ∃ command rest, words tag = command :: rest :=
      List.exists_cons_of_length_pos (by omega)
    obtain ⟨between, last, rfl⟩ : ∃ between last, rest = between ++ [last] := by
      rcases List.eq_nil_or_concat rest with rfl | ⟨between, last, rfl⟩
      · simp [hwords] at hlength
      · exact ⟨between, last, List.concat_eq_append⟩
    rw [hwords, ← List.cons_append, List.getLast?_concat, Option.map_some]
    cases hlast : readInteger last with
    | error fault => rfl
    | ok n => exact absurd ⟨command, between, last, hwords, hlast⟩ (h n)

/-- A tag is read unless it is blank, and what is read counts the rows unless it is countless, if
the number that it may end in is the number of the rows. -/
theorem exists_parse (hblank : ¬ IsBlank tag) (hrows : 0 < fetched)
    (hcount : ∀ n, EndsInCount tag n → n = fetched) :
    ∃ n, parse tag fetched = .ok (command tag, n) ∧ (n = fetched ↔ ¬ IsCountless tag) := by
  -- a tag without words is not blank only if it is empty, and then the rows are counted
  cases hwords : words tag with
  | nil =>
    have habsent : tag.getD "" = "" := by
      by_contra hne
      exact hblank ⟨hwords, hne⟩
    have hcommand : command tag = "" := by
      rw [command, hwords]
      rfl
    exact ⟨fetched, by rw [parse_of_absent habsent, hcommand], by simp [IsCountless, hwords]⟩
  | cons c rest =>
    have hcommand : command tag = c := by
      rw [command, hwords]
      rfl
    refine ⟨count (words tag), by rw [parse_of_words hwords, hcommand, hwords], ?_⟩
    -- a tag with words counts what its last word says, and otherwise none
    by_cases h : ∃ n, EndsInCount tag n
    · obtain ⟨n, hn⟩ := h
      simp only [hn.count_eq, hcount n hn, IsCountless, not_and, not_forall, not_not, true_iff]
      exact fun _ => ⟨n, hn⟩
    · rw [not_exists] at h
      -- no number of rows is less than none
      have hne : (-1 : Int) ≠ fetched := by omega
      have hcountless : IsCountless tag := ⟨by simp [hwords], h⟩
      simp [count_eq_of_not_endsInCount h, hne, hcountless]

end StatusTag

namespace WireM

open PooledSql.Fiber StatusTag

variable {S : Setting} {X : Interface} {k : LeaseId} {run : RunId} {statement : Statement}
  {l : List (Exchange (S.interface.sum (requests X)))} {o : Except Failure Result}
  {tag : Option String} {told prepared : PreparedId} {params : List Value} {records : List Columns}

/-- What cannot be read of a status tag is no rejection by the driver. -/
theorem asRejection_of_parse {fetched : Nat} {f : Failure}
    (h : StatusTag.parse tag fetched = .error f) :
    asRejection f = f := by
  -- the one failure of reading a tag is an index fault
  rw [StatusTag.parse.eq_def] at h
  split at h
  next => cases h
  next =>
    split at h
    next => cases h
    next =>
      split at h
      next =>
        cases h
        rfl
      next => cases h

/-- Once the status tag of a statement has been told, the statement ends with a result of the
records that have been fetched, unless the tag cannot be read. -/
theorem ends_execute_of_told (h : Ends (execute k run statement : WireM S X Result) l o)
    (htold : .tells (.statusTag told) (.ok tag) ∈ l) :
    ∃ lent prepared records, l = executing k run statement lent prepared records tag ∧
      o = (StatusTag.parse tag records.length).map fun status => resultOf (status, records) := by
  rcases ends_execute_iff.mp h with ⟨rfl, -⟩ | ⟨lent, l', r, hfetched, rfl, rfl⟩
  · simp only [List.mem_singleton] at htold
    cases htold
  -- the tag is told while rows are fetched
  have htold' : .tells (.statusTag told) (.ok tag) ∈ l' := by
    simp only [List.mem_cons, List.mem_append, List.not_mem_nil, or_false] at htold
    rcases htold with hlease | hset | htold | hset
    · cases hlease
    · cases hset
    · exact htold
    · cases hset
  rcases ends_fetched_cases hfetched with ⟨-, huntold⟩ | ⟨prepared, records, tag', rfl, rfl⟩
  · exact absurd htold' (huntold told tag)
  obtain rfl : tag' = tag := by
    simp only [fetching, List.mem_cons, List.not_mem_nil, or_false, reduceCtorEq,
      false_or] at htold'
    cases htold'
    rfl
  refine ⟨lent, prepared, records, rfl, ?_⟩
  cases hparse : StatusTag.parse tag' records.length with
  | ok status => rfl
  | error f =>
    have hpassed := asRejection_of_parse hparse
    exact congrArg Except.error hpassed

/-- A statement for which rows have been fetched gives back a result of these rows and of the
command that its status tag names, unless the tag is blank, which ends the statement in an index
fault. If the number that the tag may end in is the number of the rows, then the result says how
many rows it has exactly if the tag is not one that names a command and ends in no number. -/
theorem rowCount_of_execute (h : Ends (execute k run statement : WireM S X Result) l o)
    (hfetched : .receives (.fetch prepared params) (.ok records) ∈ l)
    (htold : .tells (.statusTag told) (.ok tag) ∈ l) (hrecords : records ≠ [])
    (hcount : ∀ n, EndsInCount tag n → n = records.length) :
    (IsBlank tag → o = .error (Fault.missingIndex .list).failure) ∧
    (¬ IsBlank tag → ∃ result, o = .ok result ∧ result.rows = records.map Row.ofColumns ∧
      result.command = command tag ∧
        (result.rowCount = result.rows.length ↔ ¬ IsCountless tag)) := by
  obtain ⟨lent, prepared', records', rfl, rfl⟩ := ends_execute_of_told h htold
  obtain rfl : records = records' := records_eq_of_mem_executing hfetched
  constructor
  · intro hblank
    rw [parse_of_isBlank hblank]
    rfl
  · intro hblank
    obtain ⟨n, hparse, hn⟩ := exists_parse hblank (List.length_pos_iff.mpr hrecords) hcount
    rw [hparse]
    exact ⟨_, rfl, rfl, rfl, by rw [← hn]; simp [resultOf]⟩

/-- The records of a run are among what passes while it goes on. -/
theorem fetched_mem_executing {lent : Lease} :
    .receives (.fetch prepared statement.params) (.ok records) ∈
      (executing k run statement lent prepared records tag :
        List (Exchange (S.interface.sum (requests X)))) := by
  simp [executing, fetching]

/-- The status tag of a run is told while it goes on. -/
theorem told_mem_executing {lent : Lease} :
    .tells (.statusTag prepared) (.ok tag) ∈
      (executing k run statement lent prepared records tag :
        List (Exchange (S.interface.sum (requests X)))) := by
  simp [executing, fetching]

/-- Two numbers that have been inserted, as a server gives them back. -/
def inserted : List Columns := [[("n", .ofInt 1)], [("n", .ofInt 2)]]

/-- Two rows are inserted, and their number is the last one of the status tag. -/
theorem rowCount_of_execute_inserted :
    ∃ (l : List (Exchange (Interface.sum _ _))) (result : Result),
    Ends (execute 0 0 { sql := "INSERT INTO t VALUES (1), (2) RETURNING n" } :
      WireM ⟨Empty, Empty, Unit⟩ (.state Unit) Result) l (.ok result) ∧
    .tells (.statusTag 0) (.ok (some "INSERT 0 2")) ∈ l ∧
    result.command = "INSERT" ∧ result.rowCount = 2 ∧ result.rows.length = 2 := by
  have hends : Ends (execute 0 0 { sql := "INSERT INTO t VALUES (1), (2) RETURNING n" } :
      WireM ⟨Empty, Empty, Unit⟩ (.state Unit) Result) _ (.ok _) :=
    ends_execute_ok_iff.mpr
      ⟨{ pool := 0, link := 0 }, 0, inserted, some "INSERT 0 2", _, _, rfl, rfl, rfl⟩
  obtain ⟨-, hread⟩ :=
    rowCount_of_execute hends fetched_mem_executing told_mem_executing (by simp [inserted])
      fun n hn => hn.count_eq.symm
  have hcounts : EndsInCount (some "INSERT 0 2") 2 := ⟨"INSERT", ["0"], "2", rfl, rfl⟩
  obtain ⟨result, heq, hrows, hcommand, hcount⟩ := hread fun hblank => by cases hblank.1
  cases heq
  exact ⟨_, _, hends, told_mem_executing, hcommand,
    hcount.mpr fun hcountless => hcountless.2 2 hcounts, rfl⟩

/-- It is not so that a result with rows always says how many rows it has: the tag that comes with
the value of a setting has no number. -/
theorem not_rowCount_of_execute :
    ¬ ∀ {S : Setting} {X : Interface} {k : LeaseId} {run : RunId} {statement : Statement}
      {l : List (Exchange (S.interface.sum (requests X)))} {o : Except Failure Result}
      {tag : Option String}
      {told prepared : PreparedId} {params : List Value} {records : List Columns},
      Ends (execute k run statement : WireM S X Result) l o →
      .receives (.fetch prepared params) (.ok records) ∈ l →
      .tells (.statusTag told) (.ok tag) ∈ l →
      records ≠ [] → (∀ n, EndsInCount tag n → n = records.length) →
      ∃ result, o = .ok result ∧ result.command = command tag ∧
        result.rowCount = result.rows.length := by
  intro hall
  have hends : Ends (execute 0 0 { sql := "SHOW server_version" } :
      WireM ⟨Empty, Empty, Unit⟩ (.state Unit) Result) _ (.ok _) :=
    ends_execute_ok_iff.mpr
      ⟨{ pool := 0, link := 0 }, 0, [[("server_version", .ofString "16.2")]], some "SHOW", _, _,
        rfl, rfl, rfl⟩
  have hcountless : ∀ n, ¬ EndsInCount (some "SHOW") n := by
    rintro n ⟨command, between, last, hwords, -⟩
    have hone : ["SHOW"].length = (command :: (between ++ [last])).length :=
      congrArg List.length hwords
    simp at hone
  obtain ⟨result, heq, -, hcount⟩ := hall hends fetched_mem_executing told_mem_executing (by simp)
    fun n hn => absurd hn (hcountless n)
  cases heq
  cases hcount

end WireM

end PooledSql
