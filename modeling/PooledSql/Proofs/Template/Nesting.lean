import PooledSql.Proofs.Template.Layout

/-!
# Templates in templates

A template may be made a fragment, with its values written into the text, and stand as a value in
another template. That is compiled as if the inner template had been written in its place from the
beginning, with literals for its values (`Template.compile_nested`).

* `Template.splice`: a template in the place of a value of another one.
* `Template.asLiterals`: a template with its values as literals.
* `Nest`: a template in which templates are nested to any depth, and `Nest.inline`: the same written
  as one.
-/

namespace PooledSql

/-- Two segments as one. Texts are joined to a text. -/
def Segment.append : Segment → Segment → Segment
  | .text _ a, .text _ b => .text .plain (a ++ b)
  | s, s' => .fragment (.joined "" [.ofSegment s, .ofSegment s'])

/-- A value as a fragment: a fragment stays as it is, anything else becomes a literal. -/
def Value.asLiteral : Value → Except Failure Value
  | .fragment f => .ok (.fragment f)
  | v => do return .fragment (← Fragment.literal v)

/-- A value of a template that may be an inner one, whose values become literals. -/
def Value.inline (isInner : Bool) (v : Value) : Except Failure Value :=
  if isInner then v.asLiteral else .ok v

namespace Template

/-- Segments with one more segment joined to the last of them. -/
def joinLast (s' : Segment) : List Segment → List Segment
  | [] => []
  | [s] => [s.append s']
  | s :: ss => s :: joinLast s' ss

/-- Segments with one segment joined to the first of them and another one to the last. -/
def joinEnds (s : Segment) (ss : List Segment) (s' : Segment) : List Segment :=
  joinLast s' (ss.modifyHead s.append)

theorem length_joinLast {s' : Segment} {ss : List Segment} :
    (joinLast s' ss).length = ss.length := by
  fun_induction joinLast s' ss with
  | case1 => rfl
  | case2 s => rfl
  | case3 s ss _ ih => exact congrArg (· + 1) ih

theorem length_joinEnds {s s' : Segment} {ss : List Segment} :
    (joinEnds s ss s').length = ss.length := by
  rw [joinEnds, length_joinLast, List.length_modifyHead]

/-- A template with another one in the place of a value. The segments around that value are joined
to the first and the last segment of the other template. -/
def splice (outer : Template) (i : Nat) (hi : i < outer.values.length) (inner : Template) :
    Template where
  segments :=
    have houter := outer.length_segments
    outer.segments.take i ++ joinEnds outer.segments[i] inner.segments outer.segments[i + 1] ++
      outer.segments.drop (i + 2)
  values := outer.values.take i ++ inner.values ++ outer.values.drop (i + 1)
  length_segments := by
    have houter := outer.length_segments
    have hinner := inner.length_segments
    simp only [List.length_append, List.length_take, List.length_drop, length_joinEnds]
    omega

/-- A template with its values as literals. -/
def asLiterals (t : Template) : Except Failure Template := do
  ofSegments t.segments (← t.values.mapM Value.asLiteral)

/-- A template with a segment and a value in front. -/
def cons (s : Segment) (v : Value) (t : Template) : Template where
  segments := s :: t.segments
  values := v :: t.values
  length_segments := congrArg (· + 1) t.length_segments

theorem length_values_cons {s : Segment} {v : Value} {t : Template} :
    0 < (t.cons s v).values.length :=
  Nat.succ_pos _

end Template

/-- A template in which templates are nested: its segments, each but the last one with a value or
another such template behind it. -/
inductive Nest
  | last (s : Segment)
  | value (s : Segment) (v : Value) (rest : Nest)
  | nested (s : Segment) (inner rest : Nest)

namespace Nest

/-- The template that is made by making a fragment of each nested one. -/
def template : Nest → Except Failure Template
  | last s => .ok ⟨[s], [], rfl⟩
  | value s v rest => do return (← rest.template).cons s v
  | nested s inner rest => do
    let f ← Fragment.template (← inner.template).toValue {}
    return (← rest.template).cons s (.fragment f)

/-- The template with all nested ones written in their places. Values become literals if they do not
belong to the outermost template. -/
def inline (isInner : Bool) : Nest → Except Failure Template
  | last s => .ok ⟨[s], [], rfl⟩
  | value s v rest => do
    let v ← v.inline isInner
    return (← rest.inline isInner).cons s v
  | nested s inner rest => do
    let t ← inner.inline true
    return ((← rest.inline isInner).cons s .null).splice 0 Template.length_values_cons t

end Nest

namespace Layout

variable {l l' : Layout}

/-- Two layouts one after the other. -/
def append (l l' : Layout) : Layout :=
  (l.passed.foldr (fun p m => (m.prepend p.2).pass p.1) l').prepend l.front

@[simp]
theorem prepend_empty : l.prepend "" = l := by
  simp [prepend]

@[simp]
theorem prepend_prepend {text text' : String} :
    (l.prepend text').prepend text = l.prepend (text ++ text') := by
  simp [prepend, String.append_assoc]

theorem prepend_append {text : String} : (l.prepend text).append l' = (l.append l').prepend text :=
  prepend_prepend.symm

theorem pass_append {v : Value} : (l.pass v).append l' = (l.append l').pass v := prepend_empty

end Layout

namespace Piece

variable {context : Context} {p : Piece} {ps ps' qs qs' : List Piece} {fs : List Fragment}
  {s s' : Segment} {ss segments : List Segment} {vs values : List Value}

/-- The layout of pieces one after the other is that of the first ones and that of the others, one
after the other. -/
theorem layOut_append :
    layOut context (ps ++ qs) = layOut context ps >>= fun l =>
      (layOut context qs).map l.append := by
  induction ps with
  | nil =>
    -- no pieces make the empty layout, behind which any other is itself
    have hnil : ∀ l', Layout.append {} l' = l' := fun _ => Layout.prepend_empty
    change layOut context qs = (layOut context qs).map (Layout.append {})
    cases layOut context qs <;> simp [Except.map, hnil]
  | cons p ps ih =>
    rw [List.cons_append]
    -- a fragment or a value comes in front of whatever the layout of the rest is
    cases p with
    | spliced f =>
      cases hf : f.resolve context with
      | error e => rw [layOut, layOut, hf]; rfl
      | ok text =>
        rw [layOut_spliced hf, layOut_spliced hf, ih]
        cases layOut context ps with
        | error e => rfl
        | ok l =>
          cases layOut context qs with
          | error e => rfl
          | ok l' => exact congrArg Except.ok Layout.prepend_append.symm
    | passed v =>
      rw [layOut_passed, layOut_passed, ih]
      cases layOut context ps with
      | error e => rfl
      | ok l =>
        cases layOut context qs with
        | error e => rfl
        | ok l' => exact congrArg Except.ok Layout.pass_append.symm

/-- Pieces may be put in the place of others that have the same layout. -/
theorem layOut_append_congr (hps : layOut context ps = layOut context ps')
    (hqs : layOut context qs = layOut context qs') :
    layOut context (ps ++ qs) = layOut context (ps' ++ qs') := by
  rw [layOut_append, layOut_append, hps, hqs]

/-- Pieces behind another one may be put in the place of others that have the same layout. -/
theorem layOut_cons_congr (hps : layOut context ps = layOut context ps') :
    layOut context (p :: ps) = layOut context (p :: ps') :=
  @layOut_append_congr context [p] [p] ps ps' rfl hps

/-- Fragments joined to one may as well stand one after the other. -/
theorem layOut_joined :
    layOut context (.spliced (.joined "" fs) :: ps) = layOut context (fs.map .spliced ++ ps) := by
  induction fs with
  | nil =>
    have hempty : Fragment.resolve context (.joined "" []) = .ok "" := rfl
    rw [layOut_spliced hempty]
    cases hps : layOut context ps <;> simp [Except.map, hps]
  | cons f fs ih =>
    rw [List.map_cons, List.cons_append]
    cases hf : f.resolve context with
    | error e => rw [layOut, layOut, Fragment.resolve, Fragment.resolveAll, hf]; rfl
    | ok text =>
      -- the fragments fail in the same order on both sides
      rw [layOut_spliced hf, ← ih]
      have hall := @Fragment.resolve_joined_cons context f fs text hf
      cases hrest : Fragment.resolve context (.joined "" fs) with
      | error e => rw [layOut, layOut, hall, hrest]; rfl
      | ok rest =>
        rw [hrest] at hall
        rw [layOut_spliced hrest, layOut_spliced hall]
        cases layOut context ps <;> simp [Except.map]

/-- Two segments joined to one may as well stand one after the other. -/
theorem layOut_segment_append :
    layOut context (.spliced (.ofSegment (s.append s')) :: ps) =
      layOut context (.spliced (.ofSegment s) :: .spliced (.ofSegment s') :: ps) := by
  have hjoined : layOut context (.spliced (.joined "" [.ofSegment s, .ofSegment s']) :: ps) =
      layOut context (.spliced (.ofSegment s) :: .spliced (.ofSegment s') :: ps) := layOut_joined
  cases s with
  | fragment f => exact hjoined
  | text lineage a =>
    cases s' with
    | fragment f => exact hjoined
    | text lineage' b =>
      have htext : ∀ {text qs}, layOut context (.spliced (.text text) :: qs) =
          (layOut context qs).map (.prepend text) := layOut_spliced rfl
      -- two texts are joined while templates are made, anything else only when it is resolved
      rw [Segment.append, Fragment.ofSegment, Fragment.ofSegment, Fragment.ofSegment, htext,
        htext, htext]
      cases layOut context ps <;> simp [Except.map]

/-- What is behind the first of some segments is the same whatever that is. -/
theorem exists_piecesOf_cons :
    ∃ rest, ∀ s, Template.piecesOf (s :: ss) vs = .spliced (.ofSegment s) :: rest := by
  cases vs with
  | nil => exact ⟨_, fun _ => rfl⟩
  | cons v vs => exact ⟨_, fun _ => rfl⟩

/-- Segments with values between them and more of both behind are made of those parts. -/
theorem piecesOf_append (hlength : segments.length = values.length) :
    Template.piecesOf (segments ++ ss) (values ++ vs) =
      Template.piecesOf segments values ++ Template.piecesOf ss vs := by
  induction segments generalizing values with
  | nil =>
    obtain rfl := List.eq_nil_of_length_eq_zero hlength.symm
    rfl
  | cons s segments ih =>
    cases values with
    | nil => cases hlength
    | cons v values =>
      rw [List.cons_append, List.cons_append, Template.piecesOf, ih (Nat.succ_inj.mp hlength)]
      rfl

/-- A segment that is joined to the last of some others may as well stand behind it. -/
theorem layOut_joinLast (hlength : segments.length = values.length + 1) :
    layOut context (Template.piecesOf (Template.joinLast s' segments ++ ss) (values ++ vs)) =
      layOut context (Template.piecesOf segments values ++ Template.piecesOf (s' :: ss) vs) := by
  induction segments generalizing values with
  | nil => cases hlength
  | cons s segments ih =>
    -- the last segment is that behind which no value stands
    cases values with
    | nil =>
      obtain rfl := List.eq_nil_of_length_eq_zero (Nat.succ_inj.mp hlength)
      obtain ⟨rest, hrest⟩ := @exists_piecesOf_cons ss vs
      rw [Template.joinLast, List.cons_append, List.nil_append, List.nil_append, hrest, hrest]
      exact layOut_segment_append
    | cons v values =>
      have hlength' := Nat.succ_inj.mp hlength
      obtain ⟨s₂, segments, rfl⟩ := List.exists_cons_of_length_eq_add_one hlength'
      exact layOut_cons_congr (layOut_cons_congr (ih hlength'))

/-- Segments that are joined to the ends of some others may as well stand around them. -/
theorem layOut_joinEnds (hlength : segments.length = values.length + 1) :
    layOut context (Template.piecesOf (Template.joinEnds s segments s' ++ ss) (values ++ vs)) =
      layOut context (.spliced (.ofSegment s) ::
        (Template.piecesOf segments values ++ Template.piecesOf (s' :: ss) vs)) := by
  obtain ⟨s₁, segments, rfl⟩ := List.exists_cons_of_length_eq_add_one hlength
  obtain ⟨rest, hrest⟩ := @exists_piecesOf_cons segments values
  -- what is joined to the first segment may be that of the last one as well
  have hfirst : (s.append s₁ :: segments).length = values.length + 1 := hlength
  rw [Template.joinEnds, List.modifyHead_cons, layOut_joinLast hfirst, hrest, hrest]
  exact layOut_segment_append

end Piece

namespace Template

variable {context : Context} {outer inner t : Template} {i : Nat} {f : Fragment}

/-- A template is taken for itself. -/
theorem template_toValue : Fragment.template t.toValue {} = Fragment.ofTemplate t := by
  have hsegments : ofSegments t.segments t.values = .ok t := dif_pos t.length_segments
  change (do Fragment.ofTemplate (← ofSegments t.segments t.values)) = Fragment.ofTemplate t
  rw [hsegments]
  rfl

/-- Segments with pieces between them are spliced like the segments with the pieces as values. -/
theorem map_interleave {segments : List Segment} {fs : List Fragment} :
    (Fragment.interleave segments fs).map .spliced = piecesOf segments (fs.map .fragment) := by
  induction segments generalizing fs with
  | nil => rfl
  | cons s segments ih =>
    cases fs with
    | nil => exact congrArg (_ :: ·) ih
    | cons f fs => exact congrArg (_ :: _ :: ·) ih

/-- What a template is made of, before a value, with the segment in front of it, and behind it. -/
theorem pieces_eq (hi : i < outer.values.length) :
    have houter := outer.length_segments
    outer.pieces = piecesOf (outer.segments.take i) (outer.values.take i) ++
      .spliced (.ofSegment outer.segments[i]) :: .ofValue outer.values[i] ::
        piecesOf (outer.segments.drop (i + 1)) (outer.values.drop (i + 1)) := by
  have houter := outer.length_segments
  have hlength : (outer.segments.take i).length = (outer.values.take i).length := by
    simp only [List.length_take]
    omega
  -- in front of the value are as many segments as values
  have hsplit := @Piece.piecesOf_append (outer.segments.drop i) (outer.segments.take i)
    (outer.values.drop i) (outer.values.take i) hlength
  rw [List.take_append_drop, List.take_append_drop] at hsplit
  rw [pieces, hsplit, List.drop_eq_getElem_cons hi, List.drop_eq_getElem_cons (by omega)]
  rfl

/-- The layout of a template with another one in the place of a value is that of the pieces of the
other one in the place of the value. -/
theorem layout_splice (hi : i < outer.values.length) :
    have houter := outer.length_segments
    (outer.splice i hi inner).layout context =
      Piece.layOut context (piecesOf (outer.segments.take i) (outer.values.take i) ++
        .spliced (.ofSegment outer.segments[i]) :: (inner.pieces ++
          piecesOf (outer.segments.drop (i + 1)) (outer.values.drop (i + 1)))) := by
  have houter := outer.length_segments
  have hlength : (outer.segments.take i).length = (outer.values.take i).length := by
    simp only [List.length_take]
    omega
  have hdrop : outer.segments.drop (i + 1) = outer.segments[i + 1] :: outer.segments.drop (i + 2) :=
    List.drop_eq_getElem_cons (by omega)
  -- the segment behind the value goes with the inner template
  have hpieces : (outer.splice i hi inner).pieces =
      piecesOf (outer.segments.take i) (outer.values.take i) ++
        piecesOf (joinEnds outer.segments[i] inner.segments outer.segments[i + 1] ++
          outer.segments.drop (i + 2)) (inner.values ++ outer.values.drop (i + 1)) := by
    rw [← Piece.piecesOf_append hlength, ← List.append_assoc, ← List.append_assoc]
    rfl
  rw [layout, hpieces, hdrop]
  exact Piece.layOut_append_congr rfl (Piece.layOut_joinEnds inner.length_segments)

/-- Values become literals as they do when a template is made a fragment. -/
theorem mapM_asLiteral {vs : List Value} :
    vs.mapM Value.asLiteral = (Fragment.ofValues vs).map (List.map .fragment) := by
  induction vs with
  | nil => rfl
  | cons v vs ih =>
    -- one value becomes the same on both sides
    have hv : v.asLiteral = (Fragment.ofValue v).map .fragment := by
      cases v with
      | fragment f => rfl
      | _ => simp only [Value.asLiteral, Fragment.ofValue]; cases Fragment.literal _ <;> rfl
    rw [List.mapM_cons, hv, ih, Fragment.ofValues]
    cases Fragment.ofValue v with
    | error e => rfl
    | ok f => cases Fragment.ofValues vs <;> rfl

/-- Every value becomes one piece of text. -/
theorem length_ofValues {vs : List Value} {fs : List Fragment} (h : Fragment.ofValues vs = .ok fs) :
    fs.length = vs.length := by
  induction vs generalizing fs with
  | nil =>
    cases h
    rfl
  | cons v vs ih =>
    rw [Fragment.ofValues] at h
    obtain ⟨f, -, h⟩ := exists_of_bind_eq_ok h
    obtain ⟨fs, hfs, heq⟩ := exists_of_bind_eq_ok h
    cases heq
    exact congrArg (· + 1) (ih hfs)

/-- A template that is made a fragment may as well stand there with its values as literals. -/
theorem exists_asLiterals (hf : Fragment.template t.toValue {} = .ok f) :
    ∃ q, t.asLiterals = .ok q ∧ (∀ v ∈ q.values, v.isFragment = true) ∧
      ∀ context ps,
        Piece.layOut context (.spliced f :: ps) = Piece.layOut context (q.pieces ++ ps) := by
  rw [template_toValue, Fragment.ofTemplate] at hf
  obtain ⟨fs, hfs, heq⟩ := exists_of_bind_eq_ok hf
  cases heq
  have hlength : t.segments.length = (fs.map Value.fragment).length + 1 := by
    rw [List.length_map, length_ofValues hfs, t.length_segments]
  -- the literals are the fragments that the template has been made of
  refine ⟨⟨t.segments, fs.map .fragment, hlength⟩, ?_, ?_, fun context ps => ?_⟩
  · rw [asLiterals, mapM_asLiteral, hfs]
    exact dif_pos hlength
  · intro v hv
    obtain ⟨f, -, rfl⟩ := List.mem_map.mp hv
    rfl
  · rw [pieces, ← map_interleave]
    exact Piece.layOut_joined

/-- A template with another one in the place of a value is laid out like one with a fragment of the
other one there. -/
theorem layout_eq_splice {q : Template} (hi : i < outer.values.length)
    (hvalue : outer.values[i] = .fragment f)
    (hq : ∀ ps, Piece.layOut context (.spliced f :: ps) = Piece.layOut context (q.pieces ++ ps)) :
    outer.layout context = (outer.splice i hi q).layout context := by
  rw [layout_splice hi, layout, pieces_eq hi, hvalue]
  exact Piece.layOut_append_congr rfl (Piece.layOut_cons_congr (hq _))

/-- A template with a value in front has literals if the value has one, and the rest has
literals. -/
theorem exists_of_asLiterals_cons {s : Segment} {v : Value} {q : Template}
    (h : (t.cons s v).asLiterals = .ok q) :
    ∃ v' q', v.asLiteral = .ok v' ∧ t.asLiterals = .ok q' ∧ q = q'.cons s v' := by
  obtain ⟨vs, hvs, hq⟩ := exists_of_bind_eq_ok h
  have hmap : (v :: t.values).mapM Value.asLiteral = .ok vs := hvs
  rw [List.mapM_cons] at hmap
  obtain ⟨v', hv, hmap⟩ := exists_of_bind_eq_ok hmap
  obtain ⟨vs, hrest, heq⟩ := exists_of_bind_eq_ok hmap
  cases heq
  -- there are as many segments for the rest as before
  rw [ofSegments] at hq
  split at hq
  next hlength =>
    cases hq
    have hlength' : t.segments.length = vs.length + 1 := Nat.succ_inj.mp hlength
    refine ⟨v', ⟨t.segments, vs, hlength'⟩, hv, ?_, rfl⟩
    rw [asLiterals, hrest]
    exact dif_pos hlength'
  next => cases hq

end Template

namespace Nest

variable {n : Nest} {t q : Template} {isInner : Bool}

/-- A template in which templates are nested has the layout of the template with all of them written
in their places. -/
theorem exists_inline (ht : n.template = .ok t)
    (hq : (if isInner then t.asLiterals else .ok t) = .ok q) :
    ∃ t', n.inline isInner = .ok t' ∧ ∀ context, q.layout context = t'.layout context := by
  -- whether the values of a template become literals depends on where it stands, so this is for
  -- both
  induction n generalizing t q isInner with
  | last s =>
    cases ht
    refine ⟨_, rfl, fun context => ?_⟩
    cases isInner <;> cases hq <;> rfl
  | value s v rest ih =>
    rw [template] at ht
    obtain ⟨tr, htr, heq⟩ := exists_of_bind_eq_ok ht
    cases heq
    -- the value becomes a literal exactly if this is an inner template
    obtain ⟨v', qr, hv, hqr, rfl⟩ : ∃ v' qr, v.inline isInner = .ok v' ∧
        (if isInner then tr.asLiterals else .ok tr) = .ok qr ∧ q = qr.cons s v' := by
      cases isInner with
      | true => exact Template.exists_of_asLiterals_cons hq
      | false =>
        cases hq
        exact ⟨v, tr, rfl, rfl, rfl⟩
    obtain ⟨t', ht', hlayout⟩ := ih htr hqr
    refine ⟨t'.cons s v', by rw [inline, hv, ht']; rfl, fun context => ?_⟩
    exact Piece.layOut_cons_congr (Piece.layOut_cons_congr (hlayout context))
  | nested s inner rest ihinner ihrest =>
    rw [template] at ht
    obtain ⟨ti, hti, ht⟩ := exists_of_bind_eq_ok ht
    obtain ⟨f, hf, ht⟩ := exists_of_bind_eq_ok ht
    obtain ⟨tr, htr, heq⟩ := exists_of_bind_eq_ok ht
    cases heq
    -- the fragment that has been made of the nested template is kept in both cases
    obtain ⟨qr, hqr, rfl⟩ : ∃ qr, (if isInner then tr.asLiterals else .ok tr) = .ok qr ∧
        q = qr.cons s (.fragment f) := by
      cases isInner with
      | true =>
        obtain ⟨v', qr, hv, hqr, rfl⟩ := Template.exists_of_asLiterals_cons hq
        cases hv
        exact ⟨qr, hqr, rfl⟩
      | false =>
        cases hq
        exact ⟨tr, rfl, rfl⟩
    -- inside the nested template, values become literals in any case
    obtain ⟨qi, hqi, -, hsplice⟩ := Template.exists_asLiterals hf
    have hliterals : (if true = true then ti.asLiterals else .ok ti) = .ok qi := hqi
    obtain ⟨ti', hti', hinner⟩ := ihinner hti hliterals
    obtain ⟨tr', htr', hrest⟩ := ihrest htr hqr
    refine ⟨_, by rw [inline, hti', htr']; rfl, fun context => ?_⟩
    rw [Template.layout_splice]
    refine Piece.layOut_cons_congr ((hsplice context _).trans ?_)
    exact Piece.layOut_append_congr (hinner context) (hrest context)

end Nest

/-- A fragment made of a template is the statement of the template with literals for its values. -/
theorem Template.build_fragment {t : Template} {f : Fragment}
    (hf : Fragment.template t.toValue {} = .ok f) :
    ∃ q, t.asLiterals = .ok q ∧ ∀ context,
      Statement.build (.fragment f) (.tuple []) context = q.compile context ∧
        ∀ s, q.compile context = .ok s → s.params = [] := by
  obtain ⟨q, hq, hvalues, hsplice⟩ := exists_asLiterals hf
  refine ⟨q, hq, fun context => ⟨?_, fun s hs => ?_⟩⟩
  · -- the layout of the template with literals is that of the fragment alone
    have hlayout : q.layout context = Piece.layOut context [.spliced f] := by
      rw [hsplice, List.append_nil]
      rfl
    change (do return ({ sql := (← f.resolve context) } : Statement) : Except Failure Statement) = _
    rw [compile_eq, hlayout]
    cases hf : f.resolve context with
    | error e => rw [Piece.layOut, hf]; rfl
    | ok text =>
      rw [Piece.layOut_spliced hf]
      refine congrArg Except.ok ?_
      simp [Layout.statement, Layout.prepend, Layout.body]
  · rw [compile_eq] at hs
    cases hl : q.layout context with
    | error e => rw [hl] at hs; cases hs
    | ok l =>
      rw [hl] at hs
      cases hs
      -- literals are fragments, so that no value is passed
      rw [Layout.statement, passed_of_layout hl, List.filter_eq_nil_iff]
      intro v hv
      simp [hvalues v hv]

/-- A template that has been made a fragment and stands in another template is compiled as if it had
been written in its place, with literals for its values. So are templates that are nested to any
depth; and on its own, it is the statement of the template with literals for its values, which has
no parameters. -/
theorem Template.compile_nested :
    (∀ {outer sub : Template} {i : Nat} {f : Fragment} (hi : i < outer.values.length),
      outer.values[i] = .fragment f → Fragment.template sub.toValue {} = .ok f →
      ∃ q, sub.asLiterals = .ok q ∧
        ∀ context, outer.compile context = (outer.splice i hi q).compile context) ∧
    (∀ {n : Nest} {t : Template}, n.template = .ok t →
      ∃ t', n.inline false = .ok t' ∧ ∀ context, t.compile context = t'.compile context) ∧
    ∀ {t : Template} {f : Fragment}, Fragment.template t.toValue {} = .ok f →
      ∃ q, t.asLiterals = .ok q ∧ ∀ context,
        Statement.build (.fragment f) (.tuple []) context = q.compile context ∧
          ∀ s, q.compile context = .ok s → s.params = [] := by
  refine ⟨?_, ?_, build_fragment⟩
  · intro outer sub i f hi hvalue hf
    obtain ⟨q, hq, -, hsplice⟩ := exists_asLiterals hf
    refine ⟨q, hq, fun context => ?_⟩
    rw [compile_eq, compile_eq, layout_eq_splice hi hvalue (hsplice context)]
  · intro n t ht
    obtain ⟨t', ht', hlayout⟩ := @Nest.exists_inline n t t false ht rfl
    exact ⟨t', ht', fun context => by rw [compile_eq, compile_eq, hlayout]⟩

/-- A condition with a value. -/
def Template.condition : Template where
  segments := [.text .plain "a = ", .text .plain " or b"]
  values := [.ofString "x"]
  length_segments := rfl

/-- The condition as a fragment. -/
def Fragment.condition : Fragment := .joined "" [.text "a = ", .text "\x27x\x27", .text " or b"]

/-- A template with the condition between two values. -/
def Template.selection : Template where
  segments :=
    [.text .plain "select ", .text .plain " where ", .text .plain " limit ", .text .plain ""]
  values := [.ofInt 5, .fragment .condition, .ofInt 7]
  length_segments := rfl

/-- A template with a template in it, in which there is another one. -/
def Nest.selection : Nest :=
  .value (.text .plain "select ") (.ofInt 5) (.nested (.text .plain " where ")
    (.nested (.text .plain "(")
      (.value (.text .plain "a = ") (.ofString "x") (.last (.text .plain " or b")))
      (.value (.text .plain ") = ") (.bool true) (.last (.text .plain ""))))
    (.value (.text .plain " limit ") (.ofInt 7) (.last (.text .plain ""))))

/-- A condition between two values is compiled as if it had been written there, and so is a
condition in a condition. -/
theorem Template.compile_nested_selection :
    Fragment.template condition.toValue {} = .ok .condition ∧
    (∃ q, condition.asLiterals = .ok q ∧ ∀ context,
      selection.compile context = (selection.splice 1 (by decide) q).compile context) ∧
    (∃ t t', Nest.selection.template = .ok t ∧ Nest.selection.inline false = .ok t' ∧
      (∀ context, t.compile context = t'.compile context) ∧ t'.values.length = 4) ∧
    ∃ q, condition.asLiterals = .ok q ∧ ∀ context,
      Statement.build (.fragment .condition) (.tuple []) context = q.compile context ∧
        ∀ s, q.compile context = .ok s → s.params = [] := by
  have hcondition : Fragment.template condition.toValue {} = .ok .condition := rfl
  refine ⟨hcondition, compile_nested.1 _ rfl hcondition, ?_, compile_nested.2.2 hcondition⟩
  obtain ⟨t', ht', hcompile⟩ := compile_nested.2.1 (show Nest.selection.template = .ok _ from rfl)
  refine ⟨_, t', rfl, ht', hcompile, ?_⟩
  cases ht'
  rfl

end PooledSql
