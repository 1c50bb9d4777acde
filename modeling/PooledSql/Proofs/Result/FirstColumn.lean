import PooledSql.Proofs.Result.Shapes
import PooledSql.Proofs.Wire.Requests

/-!
# First columns

What becomes of the first column of the records that a server gives back. A server may give a name
to several columns, and a row holds each name once, in the first place and with the last value; so
it is the last column of the first column's name whose values make up the first value and the first
column of a result (`WireM.firstColumn_of_execute`), and these are those of the first column itself
only where both agree.

* `Columns.first`, `Columns.lastNamesake`: the value of the first column of a record, and that of
  the last column with its name.
* `Row.lookup_ofColumns`: what a row has under a name.
* `WireM.ends_execute_ok_iff`: how a statement is run that gives back a result.
-/

namespace PooledSql

/-- A record as a server gives it back: named values in order, where a name may occur again. -/
abbrev Columns := List (String × Value)

namespace Columns

/-- The value of the first column. -/
def first (columns : Columns) : Value := (columns.head?.map Prod.snd).getD .null

/-- The value of the last column that has the name of the first one. -/
def lastNamesake : Columns → Value
  | [] => .null
  | (name, v) :: rest => (rest.reverse.lookup name).getD v

end Columns

namespace Row

variable {row : Row} {name n : String} {v : Value}

/-- What a row has under a name after a value has been put. -/
theorem lookup_put : (row.put name v).lookup n = if n = name then some v else row.lookup n := by
  induction row with
  | nil =>
    by_cases hn : n = name
    · simp [put, hn]
    · simp [put, hn]
  | cons column rest ih =>
    obtain ⟨m, old⟩ := column
    -- the value replaces one of the same name, or it goes on to the end
    by_cases hm : m = name
    · subst hm
      by_cases hn : n = m
      · simp [put, hn]
      · simp [put, hn, List.lookup_cons, beq_false_of_ne hn]
    · by_cases hn : n = m
      · subst hn
        simp [put, hm]
      · simp only [put, hm, if_false, List.lookup_cons, beq_false_of_ne hn, ih]

/-- Columns put one after the other leave, under a name, the last value that has been put under
it. -/
theorem lookup_foldl_put (columns : Columns) :
    (columns.foldl (fun row (name, v) => put name v row) row).lookup n =
      (columns.reverse.lookup n).or (row.lookup n) := by
  induction columns generalizing row with
  | nil => simp
  | cons column columns ih =>
    rw [List.foldl_cons, ih, lookup_put, List.reverse_cons, List.lookup_append, Option.or_assoc]
    by_cases hn : n = column.1
    · rw [if_pos hn, hn, List.lookup_cons_self, Option.some_or]
    · rw [if_neg hn, List.lookup_cons, beq_false_of_ne hn, List.lookup_nil, Option.none_or]

/-- A row has, under a name, the last value that it is given under it. -/
theorem lookup_ofColumns (columns : Columns) :
    (ofColumns columns).lookup n = columns.reverse.lookup n :=
  (lookup_foldl_put columns).trans (Option.or_none)

/-- A row that has a first column keeps its name. -/
theorem head_foldl_put (columns : Columns) (v : Value) (rest : Row) :
    ∃ v' rest', columns.foldl (fun row (name, v) => put name v row) ((name, v) :: rest) =
      (name, v') :: rest' := by
  induction columns generalizing v rest with
  | nil => exact ⟨v, rest, rfl⟩
  | cons column columns ih =>
    by_cases hname : name = column.1
    · simpa [put, hname] using ih column.2 rest
    · simpa [put, hname] using ih v (put column.1 column.2 rest)

/-- The row of a record begins with the name of the first column, and with the value of the last
column that has it. -/
theorem ofColumns_of_names {columns : Columns} {names : List String}
    (hnames : columns.map Prod.fst = name :: names) :
    ∃ rest, ofColumns columns = (name, columns.lastNamesake) :: rest := by
  obtain ⟨⟨_, v⟩, columns, rfl, rfl, -⟩ := List.map_eq_cons_iff.mp hnames
  obtain ⟨v', rest, heq⟩ : ∃ v' rest, ofColumns ((_, v) :: columns) = (_, v') :: rest :=
    head_foldl_put columns v []
  refine ⟨rest, heq.trans (congrArg (fun v => (_, v) :: rest) (Option.some.inj ?_))⟩
  calc some v' = (ofColumns ((_, v) :: columns)).lookup _ := by rw [heq, List.lookup_cons_self]
    _ = ((_, v) :: columns).reverse.lookup _ := lookup_ofColumns _
    _ = some (Columns.lastNamesake ((_, v) :: columns)) := by
      rw [List.reverse_cons, List.lookup_append, List.lookup_cons_self, Columns.lastNamesake]
      cases columns.reverse.lookup _ <;> rfl

end Row

namespace Result

variable {records : List Columns} {name : String} {names : List String} {result : Result}

/-- The values under the name of the first column are those of the last column that has it. -/
theorem valuesUnder_ofColumns (hnames : ∀ columns ∈ records, columns.map Prod.fst = name :: names) :
    valuesUnder name (records.map Row.ofColumns) = .ok (records.map Columns.lastNamesake) := by
  induction records with
  | nil => rfl
  | cons columns records ih =>
    rw [List.forall_mem_cons] at hnames
    obtain ⟨rest, heq⟩ := Row.ofColumns_of_names hnames.1
    simp only [List.map_cons, valuesUnder, heq, List.lookup_cons_self, ih hnames.2]
    rfl

/-- The first value of a result comes from the last column that has the first column's name. -/
theorem firstValue_eq (hrows : result.rows = records.map Row.ofColumns)
    (hnames : ∀ columns ∈ records, columns.map Prod.fst = name :: names) :
    result.firstValue = (records.head?.map Columns.lastNamesake).getD .null := by
  cases records with
  | nil => simp [firstValue, hrows]
  | cons columns records =>
    obtain ⟨rest, heq⟩ := Row.ofColumns_of_names (hnames columns List.mem_cons_self)
    simp [firstValue, hrows, heq]

/-- The first column of a result is the last one that has the first column's name. -/
theorem firstColumn_eq (hrows : result.rows = records.map Row.ofColumns)
    (hnames : ∀ columns ∈ records, columns.map Prod.fst = name :: names) :
    result.firstColumn = .ok (records.map Columns.lastNamesake) := by
  cases records with
  | nil => simp [firstColumn, hrows]
  | cons columns records =>
    obtain ⟨rest, heq⟩ := Row.ofColumns_of_names (hnames columns List.mem_cons_self)
    have hunder := valuesUnder_ofColumns hnames
    rw [List.map_cons, heq] at hunder
    simpa [firstColumn, hrows, heq] using hunder

end Result

namespace WireM

open PooledSql.Fiber

variable {S : Setting} {X : Interface} {k : LeaseId} {run : RunId} {statement : Statement}
  {l : List (Exchange (S.interface.sum (requests X)))}

/-- What passes while the rows of a statement are fetched. -/
def fetching (link : LinkId) (statement : Statement) (prepared : PreparedId)
    (records : List Columns) (tag : Option String) :
    List (Exchange (S.interface.sum (requests X))) :=
  [.sends (.prepare link statement.lineage statement.sql),
    .receives (.prepare link statement.lineage statement.sql) (.ok prepared),
    .sends (.fetch prepared statement.params),
    .receives (.fetch prepared statement.params) (.ok records),
    .tells (.statusTag prepared) (.ok tag)]

/-- What passes while a statement is run that gives back a result. -/
def executing (k : LeaseId) (run : RunId) (statement : Statement) (lent : Lease)
    (prepared : PreparedId) (records : List Columns) (tag : Option String) :
    List (Exchange (S.interface.sum (requests X))) :=
  .notes (.lease k) (some lent) :: .notes (.setRunning k (some (run, statement))) () ::
    (fetching lent.link statement prepared records tag ++ [.notes (.setRunning k none) ()])

/-- Records are fetched once while a statement is run. -/
theorem records_eq_of_mem_executing {lent : Lease} {prepared prepared' : PreparedId}
    {params : List Value} {records records' : List Columns} {tag : Option String}
    (h : .receives (.fetch prepared params) (.ok records) ∈ (executing k run statement lent
      prepared' records' tag : List (Exchange (S.interface.sum (requests X))))) :
    records = records' := by
  simp only [executing, fetching, List.mem_cons, List.mem_append, List.not_mem_nil, or_false,
    reduceCtorEq, false_or] at h
  rcases h with hother | hsame
  · cases hother
  · cases hsame
    rfl

/-- Rows are fetched up to the status tag, and then only the tag decides how that ends; or else the
tag is not told. -/
theorem ends_fetched_cases {link : LinkId} {r : Except Failure ((String × Int) × List Columns)}
    (h : Ends (fetched link statement : WireM S X _) l r) :
    ((∃ f, r = .error f) ∧ ∀ told tag, .tells (.statusTag told) (.ok tag) ∉ l) ∨
      ∃ prepared records tag, l = fetching link statement prepared records tag ∧
        r = (StatusTag.parse tag records.length).map (·, records) := by
  -- a failure of any step before the tag leaves that untold
  rcases ends_await_bind_iff.mp h with ⟨f, rfl, rfl⟩ | ⟨prepared, _, rfl, hfetch⟩
  · exact .inl ⟨⟨f, rfl⟩, by simp⟩
  rcases ends_await_bind_iff.mp hfetch with ⟨f, rfl, rfl⟩ | ⟨records, _, rfl, htag⟩
  · exact .inl ⟨⟨f, rfl⟩, by simp⟩
  obtain ⟨out, _, rfl, hread⟩ := ends_act_bind_iff.mp htag
  rcases ends_bind_iff.mp hread with ⟨f, hout, rfl⟩ | ⟨tag, _, _, rfl, hout, hparse⟩
  · obtain ⟨rfl, rfl⟩ := ends_ofExcept_iff.mp hout
    refine .inl ⟨⟨f, rfl⟩, fun told tag hmem => ?_⟩
    simp only [List.mem_cons, List.not_mem_nil, or_false, reduceCtorEq, false_or] at hmem
    cases hmem
  obtain ⟨rfl, rfl⟩ := ends_ofExcept_iff.mp hout
  -- nothing is asked for once the tag has been told
  refine .inr ⟨prepared, records, tag, ?_⟩
  rcases ends_bind_iff.mp hparse with ⟨f, hstatus, rfl⟩ | ⟨status, _, _, rfl, hstatus, hdone⟩
  · obtain ⟨rfl, heq⟩ := ends_ofExcept_iff.mp hstatus
    rw [← heq]
    exact ⟨rfl, rfl⟩
  · obtain ⟨rfl, heq⟩ := ends_ofExcept_iff.mp hstatus
    obtain ⟨rfl, rfl⟩ := ends_pure_iff.mp hdone
    rw [← heq]
    exact ⟨rfl, rfl⟩

/-- The rows of a statement come with a status tag that can be read. -/
theorem ends_fetched_ok_iff {link : LinkId} {status : String × Int} {records : List Columns} :
    Ends (fetched link statement : WireM S X _) l (.ok (status, records)) ↔
      ∃ prepared tag, StatusTag.parse tag records.length = .ok status ∧
        l = fetching link statement prepared records tag := by
  constructor
  · intro h
    rcases ends_fetched_cases h with ⟨⟨_, hr⟩, -⟩ | ⟨prepared, records', tag, rfl, hr⟩
    · cases hr
    · obtain ⟨status', hparse, heq⟩ := exists_of_map_eq_ok hr.symm
      cases heq
      exact ⟨prepared, tag, hparse, rfl⟩
  · rintro ⟨prepared, tag, hparse, rfl⟩
    -- each step comes to what the history says of it
    refine ends_await_bind_iff.mpr (.inr ⟨prepared, _, rfl, ?_⟩)
    refine ends_await_bind_iff.mpr (.inr ⟨records, _, rfl, ?_⟩)
    refine ends_act_bind_iff.mpr ⟨.ok tag, [], rfl, ?_⟩
    refine ends_bind_iff.mpr (.inr ⟨tag, [], [], rfl, ends_ofExcept_iff.mpr ⟨rfl, rfl⟩, ?_⟩)
    exact ends_bind_iff.mpr (.inr ⟨status, [], [], rfl, ends_ofExcept_iff.mpr ⟨rfl, hparse.symm⟩,
      ends_pure_iff.mpr ⟨rfl, rfl⟩⟩)

/-- A statement gives back a result of the records that have been fetched. -/
theorem ends_execute_ok_iff {result : Result} :
    Ends (execute k run statement : WireM S X Result) l (.ok result) ↔
      ∃ lent prepared records tag command rowCount,
        StatusTag.parse tag records.length = .ok (command, rowCount) ∧
        l = executing k run statement lent prepared records tag ∧
        result = { command, rowCount, rows := records.map Row.ofColumns } := by
  rw [ends_execute_iff]
  constructor
  · rintro (⟨-, ho⟩ | ⟨lent, l', r, hfetched, rfl, ho⟩)
    · cases ho
    · -- what is fetched decides whether there is a result
      cases r with
      | error f => cases ho
      | ok a =>
        cases ho
        obtain ⟨prepared, tag, hparse, rfl⟩ := ends_fetched_ok_iff.mp hfetched
        exact ⟨lent, prepared, a.2, tag, a.1.1, a.1.2, hparse, rfl, rfl⟩
  · rintro ⟨lent, prepared, records, tag, command, rowCount, hparse, rfl, rfl⟩
    exact .inr ⟨lent, _, .ok ((command, rowCount), records),
      ends_fetched_ok_iff.mpr ⟨prepared, tag, hparse, rfl⟩, rfl, rfl⟩

/-- A result is made of the records that have been fetched for it. -/
theorem rows_of_fetched {result : Result} {prepared : PreparedId} {params : List Value}
    {records : List Columns} (h : Ends (execute k run statement : WireM S X Result) l (.ok result))
    (hfetched : .receives (.fetch prepared params) (.ok records) ∈ l) :
    result.rows = records.map Row.ofColumns := by
  obtain ⟨lent, prepared', records', tag, command, rowCount, -, rfl, rfl⟩ :=
    ends_execute_ok_iff.mp h
  rw [records_eq_of_mem_executing hfetched]

/-- The first value and the first column of a result are the values of the last column that has the
name of the first one. They are those of the first column if and only if the two agree, in the first
record and in all of them. -/
theorem firstColumn_of_execute {result : Result} {prepared : PreparedId} {params : List Value}
    {records : List Columns} {name : String} {names : List String}
    (h : Ends (execute k run statement : WireM S X Result) l (.ok result))
    (hfetched : .receives (.fetch prepared params) (.ok records) ∈ l)
    (hnames : ∀ columns ∈ records, columns.map Prod.fst = name :: names) :
    result.firstValue = (records.head?.map Columns.lastNamesake).getD .null ∧
      result.firstColumn = .ok (records.map Columns.lastNamesake) ∧
      (result.firstValue = (records.head?.map Columns.first).getD .null ↔
        ∀ columns ∈ records.head?, columns.lastNamesake = columns.first) ∧
      (result.firstColumn = .ok (records.map Columns.first) ↔
        ∀ columns ∈ records, columns.lastNamesake = columns.first) := by
  have hrows := rows_of_fetched h hfetched
  have hvalue := Result.firstValue_eq hrows hnames
  have hcolumn := Result.firstColumn_eq hrows hnames
  -- the two columns agree as lists exactly if they agree in each record
  refine ⟨hvalue, hcolumn, ?_, ?_⟩
  · rw [hvalue]
    cases records with
    | nil => simp
    | cons columns records => simp
  · rw [hcolumn, Except.ok.injEq, List.map_inj_left]

/-- Two numbers under one name, as a server gives them back that was not told how to call them. -/
def unnamed : Columns := [("?column?", .ofInt 1), ("?column?", .ofInt 2)]

/-- Two numbers are selected. -/
def selectingTwo : Statement := { sql := "SELECT 1, 2" }

/-- What passes while two numbers are selected. -/
def selectedTwo : List (Exchange (S.interface.sum (requests X))) :=
  executing 0 0 selectingTwo { pool := 0, link := 0 } 0 [unnamed] (some "SELECT 1")

/-- Two numbers under one name make up a row of one column. -/
theorem ends_selectingTwo : Ends (execute 0 0 selectingTwo : WireM S X Result) selectedTwo
    (.ok { command := "SELECT", rowCount := 1, rows := [[("?column?", .ofInt 2)]] }) :=
  ends_execute_ok_iff.mpr ⟨_, _, _, _, _, _, rfl, rfl, rfl⟩

/-- The records that two numbers are read from. -/
theorem fetched_selectedTwo :
    .receives (.fetch 0 []) (.ok [unnamed]) ∈
      (selectedTwo : List (Exchange (S.interface.sum (requests X)))) := by
  refine List.mem_of_getElem? (i := 5) ?_
  rfl

/-- The names that two numbers are given back under. -/
theorem names_unnamed : ∀ columns ∈ [unnamed], columns.map Prod.fst = "?column?" :: ["?column?"] :=
  List.forall_mem_singleton.mpr rfl

/-- The first value and the first column of two numbers under one name are the second number. -/
theorem firstColumn_of_execute_unnamed :
    ∃ result : Result,
      Ends (execute 0 0 selectingTwo : WireM ⟨Empty, Empty, Unit⟩ (.state Unit) Result) selectedTwo
        (.ok result) ∧
      result.firstValue = .ofInt 2 ∧ result.firstColumn = .ok [.ofInt 2] := by
  have hends := ends_selectingTwo (S := ⟨Empty, Empty, Unit⟩) (X := .state Unit)
  obtain ⟨hvalue, hcolumn, -⟩ := firstColumn_of_execute hends fetched_selectedTwo names_unnamed
  exact ⟨_, hends, hvalue, hcolumn⟩

/-- It is not so that the first value and the first column of a result are those of the first
column. -/
theorem not_firstColumn_of_execute :
    ¬ ∀ {S : Setting} {X : Interface} {k : LeaseId} {run : RunId} {statement : Statement}
      {l : List (Exchange (S.interface.sum (requests X)))} {result : Result} {prepared : PreparedId}
      {params : List Value} {records : List Columns} {name : String} {names : List String},
      Ends (execute k run statement : WireM S X Result) l (.ok result) →
      .receives (.fetch prepared params) (.ok records) ∈ l →
      (∀ columns ∈ records, columns.map Prod.fst = name :: names) →
      result.firstValue = (records.head?.map Columns.first).getD .null ∧
        result.firstColumn = .ok (records.map Columns.first) := by
  intro hall
  have hfirst :=
    (hall (S := ⟨Empty, Empty, Unit⟩) (X := .state Unit) ends_selectingTwo fetched_selectedTwo
    names_unnamed).1
  simp [Result.firstValue, unnamed, Columns.first] at hfirst

end WireM

end PooledSql
