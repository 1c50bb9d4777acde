import Mathlib.Data.List.Basic
import PooledSql.Proofs.Outcome
import PooledSql.Result.Shape

/-!
# Agreement of shapes

What the shapes make of one result fits together, whatever rows there are: none at all, rows without
columns, or rows that differ in their columns or in the order of these. The first column of the
first row decides what makes up the first column of the result, and a row that lacks it is the only
thing that can go wrong (`Result.shapes_agree`).

* `Result.leadingName?`: the name of the first column of the first row.
* `Result.cell?`: what a row has in the first column of a result.
-/

namespace PooledSql

/-- A row has nothing under a name that none of its columns has. -/
theorem Row.lookup_eq_none_iff {row : Row} {name : String} :
    row.lookup name = none ↔ name ∉ row.map Prod.fst := by
  rw [List.lookup_eq_none_iff, List.mem_map]
  constructor
  · rintro h ⟨p, hp, rfl⟩
    simpa using h p hp
  · intro h p hp
    exact bne_iff_ne.mpr fun heq => h ⟨p, hp, heq.symm⟩

namespace Result

/-- The name of the first column of the first row, if there is one. -/
def leadingName? (r : Result) : Option String := r.rows.head?.bind fun row => row.head?.map Prod.fst

/-- What a row has in the first column of a result: the value under the name of that column, if the
row has it. A first row without columns leaves every row with `null`. -/
def cell? (r : Result) (row : Row) : Option Value :=
  match r.leadingName? with
  | some name => row.lookup name
  | none => some .null

variable {r : Result} {name : String} {row : Row} {rows : List Row} {v : Value} {vs : List Value}
  {f : Failure}

/-! ### Values under a name -/

/-- A row with a value under a name contributes it. -/
theorem valuesUnder_cons (hrow : row.lookup name = some v) :
    valuesUnder name (row :: rows) = (valuesUnder name rows).map (v :: ·) := by
  rw [valuesUnder, hrow]
  cases valuesUnder name rows <;> rfl

/-- A row without a value under a name ends the search. -/
theorem valuesUnder_cons_of_none (hrow : row.lookup name = none) :
    valuesUnder name (row :: rows) = .error (Fault.missingKey (.ofString name)).failure := by
  rw [valuesUnder, hrow]

/-- The values under a name are those of all rows, one each and in order. -/
theorem valuesUnder_eq_ok_iff :
    valuesUnder name rows = .ok vs ↔ rows.map (fun row => row.lookup name) = vs.map some := by
  induction rows generalizing vs with
  | nil => cases vs <;> simp [valuesUnder]
  | cons row rows ih =>
    cases hrow : row.lookup name with
    | none =>
      -- the row has no value, so no list of values fits
      rw [valuesUnder_cons_of_none hrow, List.map_cons, hrow]
      cases vs <;> simp
    | some v =>
      rw [valuesUnder_cons hrow, List.map_cons, hrow]
      -- the row has a value, which is the first one of the list
      constructor
      · intro h
        obtain ⟨ws, hws, rfl⟩ := exists_of_map_eq_ok h
        rw [ih.mp hws, List.map_cons]
      · intro h
        cases vs with
        | nil => cases h
        | cons w ws =>
          obtain ⟨hw, hws⟩ := List.cons.inj h
          rw [ih.mpr hws, Option.some.inj hw]
          rfl

/-- The want of a name is the only failure, and it names what is wanting. -/
theorem valuesUnder_eq_error_iff : valuesUnder name rows = .error f ↔
    (∃ row ∈ rows, name ∉ row.map Prod.fst) ∧ f = (Fault.missingKey (.ofString name)).failure := by
  induction rows with
  | nil => simp [valuesUnder]
  | cons row rows ih =>
    rw [List.exists_mem_cons_iff, ← Row.lookup_eq_none_iff]
    cases hrow : row.lookup name with
    | none =>
      rw [valuesUnder_cons_of_none hrow, Except.error.injEq, eq_comm]
      simp
    | some v =>
      rw [valuesUnder_cons hrow, map_eq_error_iff, ih]
      simp

/-! ### The first column and the first value -/

/-- A result with a first column has, in it, the values under its name. -/
theorem firstColumn_eq_valuesUnder (hname : r.leadingName? = some name) :
    r.firstColumn = valuesUnder name r.rows := by
  rw [firstColumn]
  split
  next hrows => simp [leadingName?, hrows] at hname
  next hrows => simp [leadingName?, hrows] at hname
  next hrows =>
    simp only [leadingName?, hrows, List.head?_cons, Option.bind_some, Option.map_some,
      Option.some.injEq] at hname
    rw [hname]

/-- Where there is no first column, every row stands for `null`. -/
theorem firstColumn_of_leadingName?_eq_none (hname : r.leadingName? = none) :
    r.firstColumn = .ok (r.rows.map fun _ => .null) := by
  rw [firstColumn]
  split
  next hrows => rw [hrows, List.map_nil]
  next => rfl
  next hrows => simp [leadingName?, hrows] at hname

/-- The first column has what each row has in it, in the order of the rows. -/
theorem firstColumn_eq_ok_iff : r.firstColumn = .ok vs ↔ r.rows.map r.cell? = vs.map some := by
  unfold cell?
  cases hname : r.leadingName? with
  | some name => rw [firstColumn_eq_valuesUnder hname, valuesUnder_eq_ok_iff]
  | none =>
    have hnulls :
        r.rows.map (fun _ => some Value.null) = (r.rows.map fun _ => Value.null).map some := by
      rw [List.map_map]
      rfl
    rw [firstColumn_of_leadingName?_eq_none hname, Except.ok.injEq, hnulls]
    exact (List.map_inj_right fun _ _ => Option.some.inj).symm

/-- The first column fails exactly if a row behind the first one lacks it. -/
theorem firstColumn_eq_error_iff : r.firstColumn = .error f ↔ ∃ name, r.leadingName? = some name ∧
    (∃ row ∈ r.rows.tail, name ∉ row.map Prod.fst) ∧
    f = (Fault.missingKey (.ofString name)).failure := by
  cases hname : r.leadingName? with
  | none => simp [firstColumn_of_leadingName?_eq_none hname]
  | some name =>
    rw [firstColumn_eq_valuesUnder hname, valuesUnder_eq_error_iff]
    -- the first row has the first column
    obtain ⟨row, hrow, hfirst⟩ := Option.bind_eq_some_iff.mp hname
    obtain ⟨p, hp, rfl⟩ := Option.map_eq_some_iff.mp hfirst
    have hhas : p.1 ∈ row.map Prod.fst := List.mem_map_of_mem (List.mem_of_mem_head? hp)
    obtain ⟨rows, hrows⟩ := List.head?_eq_some_iff.mp hrow
    rw [hrows, List.exists_mem_cons_iff, or_iff_right (not_not.mpr hhas), List.tail_cons]
    simp only [Option.some.injEq, exists_eq_left']

/-- The first value is what the first row has in the first column. -/
theorem firstValue_eq_cell? : r.firstValue = (r.rows.head?.bind r.cell?).getD .null := by
  rw [firstValue]
  split
  next name v row rows hrows => simp [cell?, leadingName?, hrows]
  next hrows =>
    -- there is no row, or the first one has no columns
    match hcases : r.rows with
    | [] => rfl
    | [] :: rows => simp [cell?, leadingName?, hcases]
    | (p :: row) :: rows => exact absurd hcases (hrows p.1 p.2 row rows)

/-- What the shapes make of a result fits together. There are always rows, a first row if there is
any row, and a first value, which is what the first row has in the first column, and `null` if there
is no row. The first column has what each row has there, one value for each row and in order, so
that it begins with the first value; it fails exactly if some row behind the first one lacks the
name of the first column, and then for want of that name. -/
theorem shapes_agree (r : Result) :
    Shape.ofResult r .rows = .ok (.rows r.rows) ∧ Shape.ofResult r .row = .ok (.row r.rows.head?) ∧
    ∃ v, Shape.ofResult r .value = .ok (.value v) ∧ v = (r.rows.head?.bind r.cell?).getD .null ∧
      (∀ reply, Shape.ofResult r .column = .ok reply ↔
        ∃ vs, reply = .column vs ∧ r.rows.map r.cell? = vs.map some ∧ vs.head?.getD .null = v) ∧
      ∀ f, Shape.ofResult r .column = .error f ↔ ∃ name, r.leadingName? = some name ∧
        (∃ row ∈ r.rows.tail, name ∉ row.map Prod.fst) ∧
          f = (Fault.missingKey (.ofString name)).failure := by
  have hcolumn : Shape.ofResult r .column = r.firstColumn.map .column := by
    rw [Shape.ofResult]
    cases r.firstColumn <;> rfl
  refine ⟨rfl, rfl, r.firstValue, rfl, firstValue_eq_cell?, fun reply => ?_, fun f => ?_⟩
  · -- the column is made of the values that the rows have under the name of the first one
    rw [hcolumn]
    constructor
    · intro h
      obtain ⟨vs, hvs, rfl⟩ := exists_of_map_eq_ok h
      have hentries := firstColumn_eq_ok_iff.mp hvs
      refine ⟨vs, rfl, hentries, ?_⟩
      -- both the first value and the column are made of what the first row has
      have hhead : r.rows.head?.map r.cell? = vs.head?.map some := by
        rw [← List.head?_map, hentries, List.head?_map]
      rw [firstValue_eq_cell?]
      cases hrow : r.rows.head? with
      | none =>
        rw [hrow] at hhead
        rw [Option.map_eq_none_iff.mp hhead.symm]
        rfl
      | some row =>
        rw [hrow] at hhead
        obtain ⟨v, hv, heq⟩ := Option.map_eq_some_iff.mp hhead.symm
        rw [hv, Option.bind_some, ← heq]
    · rintro ⟨vs, rfl, hentries, -⟩
      rw [firstColumn_eq_ok_iff.mpr hentries]
      rfl
  · rw [hcolumn, map_eq_error_iff, firstColumn_eq_error_iff]

/-- Rows may name their columns in different orders, and have others beside them. -/
example : Shape.ofResult { command := "SELECT", rows :=
      [[("n", .ofInt 1)], [("m", .null), ("n", .ofInt 2)], [("n", .null)]] } .column =
    .ok (.column [.ofInt 1, .ofInt 2, .null]) := rfl

end Result

end PooledSql
