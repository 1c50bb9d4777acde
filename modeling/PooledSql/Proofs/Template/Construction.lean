import PooledSql.Proofs.Literal.Refusal
import PooledSql.Proofs.Number.Numeral
import PooledSql.Proofs.Template.Holding
import PooledSql.Proofs.Template.Nesting

/-!
# Construction of fragments

Fragments are made by calls, whose arguments may hold fragments made before. A term of nested calls
fails while it is made, if at all: it is refused exactly if one of its leaves has no form in SQL and
no integer with too many digits comes first, for which it fails as well. The fragment that it makes
has one text, which it can be resolved to for every connection (`Term.make_inOrder`).

* `Leaf`: a value that a maker of fragments makes text of, as a name, a literal or a piece of text.
* `Atom`: what of a leaf is written in one piece, a name or a value that is no sequence.
* `Call`: a call of one of the makers, and `Call.leaves?` its leaves, if it is in order.
* `Term`: nested calls, with `Term.leaves` and `Term.atoms` in the order in which they are written.
* `Fragment.StandsFor`: a fragment is as good as a text.
-/

namespace PooledSql

namespace Fragment

variable {f : Fragment} {fs : List Fragment} {text : String}

/-- Whether a fragment has one text, whatever it is resolved for. -/
def Says (f : Fragment) (text : String) : Prop := ∀ context, f.resolve context = .ok text

/-- Whether a fragment has the same text wherever it is resolved. -/
def IsSettled (f : Fragment) : Prop := ∃ text, f.Says text

/-- A text is settled. -/
theorem says_text : Says (.text text) text := fun context => by rw [resolve]

/-- Settled fragments have the same texts wherever they are resolved. -/
theorem exists_resolveAll (hfs : ∀ f ∈ fs, f.IsSettled) :
    ∃ texts, ∀ context, resolveAll context fs = .ok texts := by
  induction fs with
  | nil => exact ⟨[], fun context => by rw [resolveAll]⟩
  | cons f fs ih =>
    obtain ⟨⟨text, hf⟩, hfs⟩ := List.forall_mem_cons.mp hfs
    obtain ⟨texts, htexts⟩ := ih hfs
    refine ⟨text :: texts, fun context => ?_⟩
    rw [resolveAll, hf, htexts]
    rfl

/-- Settled fragments that are joined are one. -/
theorem isSettled_joined {separator : String} (hfs : ∀ f ∈ fs, f.IsSettled) :
    (joined separator fs).IsSettled := by
  obtain ⟨texts, htexts⟩ := exists_resolveAll hfs
  refine ⟨separator.intercalate texts, fun context => ?_⟩
  rw [resolve, htexts]
  rfl

/-- Fragments between segments are all there is. -/
theorem mem_interleave {segments : List Segment} (hf : f ∈ interleave segments fs) :
    f ∈ fs ∨ ∃ s ∈ segments, f = ofSegment s := by
  induction segments generalizing fs with
  | nil => cases hf
  | cons s segments ih =>
    -- when the fragments have run out, nothing but segments follows
    cases fs with
    | nil =>
      obtain rfl | hf := List.mem_cons.mp hf
      · exact .inr ⟨s, List.mem_cons_self, rfl⟩
      · obtain hf | ⟨s', hs', rfl⟩ := ih hf
        · cases hf
        · exact .inr ⟨s', List.mem_cons_of_mem _ hs', rfl⟩
    | cons g fs =>
      obtain rfl | hf := List.mem_cons.mp hf
      · exact .inr ⟨s, List.mem_cons_self, rfl⟩
      obtain rfl | hf := List.mem_cons.mp hf
      · exact .inl List.mem_cons_self
      · obtain hf | ⟨s', hs', rfl⟩ := ih hf
        · exact .inl (List.mem_cons_of_mem _ hf)
        · exact .inr ⟨s', List.mem_cons_of_mem _ hs', rfl⟩

/-- A piece of text is settled if the fragments in its value are. -/
theorem isSettled_of_ofValue {v : Value} (hv : ∀ g, v.Holds g → g.IsSettled)
    (h : ofValue v = .ok f) :
    f.IsSettled := by
  cases v with
  | fragment g =>
    cases h
    exact hv _ .self
  | _ =>
    obtain ⟨text, -, heq⟩ := exists_of_bind_eq_ok h
    cases heq
    exact ⟨text, says_text⟩

/-- Pieces of text are settled if the fragments in their values are. -/
theorem isSettled_of_ofValues {vs : List Value} (hvs : ∀ v ∈ vs, ∀ g, v.Holds g → g.IsSettled)
    (h : ofValues vs = .ok fs) : ∀ f ∈ fs, f.IsSettled := by
  induction vs generalizing fs with
  | nil =>
    cases h
    exact nofun
  | cons v vs ih =>
    obtain ⟨hv, hvs⟩ := List.forall_mem_cons.mp hvs
    obtain ⟨f, hf, h⟩ := exists_of_bind_eq_ok h
    obtain ⟨fs, hfs, heq⟩ := exists_of_bind_eq_ok h
    cases heq
    exact List.forall_mem_cons.mpr ⟨isSettled_of_ofValue hv hf, ih hvs hfs⟩

/-- A template whose fragments are settled is made a settled fragment. -/
theorem isSettled_of_ofTemplate {t : Template} (ht : ∀ g, t.toValue.Holds g → g.IsSettled)
    (h : ofTemplate t = .ok f) : f.IsSettled := by
  obtain ⟨fs, hfs, heq⟩ := exists_of_bind_eq_ok h
  cases heq
  have hpieces : ∀ g ∈ fs, g.IsSettled :=
    isSettled_of_ofValues
      (fun v hv g hg => ht g (Template.holds_template_iff.mpr (.inr ⟨v, hv, hg⟩))) hfs
  refine isSettled_joined fun g hg => ?_
  obtain hg | ⟨s, hs, rfl⟩ := mem_interleave hg
  · exact hpieces g hg
  · cases s with
    | text lineage content => exact ⟨content, says_text⟩
    | fragment g => exact ht g (Template.holds_template_iff.mpr (.inl hs))

end Fragment

/-- A value that a maker of fragments makes text of: as a name, as a literal, or as a piece of text,
which a fragment stays as it is. -/
inductive Leaf
  | name (v : Value)
  | literal (v : Value)
  | piece (v : Value)

/-- Whether there is no text to be made: of a name that is no text, or of a bad value, unless it is
a fragment where those are pieces of text. -/
def Leaf.IsBad : Leaf → Prop
  | name v => ¬ v.IsText
  | literal v => v.IsBad
  | piece v => v.isFragment = false ∧ v.IsBad

/-- What is written in one piece: a name, or a value that is no list or tuple, as a literal. -/
inductive Atom
  | name (v : Value)
  | literal (v : Value)

namespace Atom

/-- Whether a value is refused: as a name unless it is a text, as a literal if it has none. -/
def IsBad : Atom → Prop
  | name v => ¬ v.IsText
  | literal v => v.IsUnwritable

/-- The failure with which a value is not written, if it is not. -/
def fault? : Atom → Option Failure
  | name v => failure? (Literal.identifier v)
  | literal v => v.fault?

end Atom

namespace Leaf

/-- What of a leaf is written piece by piece. Nothing is of a fragment. -/
def atoms : Leaf → List Atom
  | name v => [.name v]
  | literal v => v.leaves.map .literal
  | piece v => if v.isFragment then [] else v.leaves.map .literal

/-- The failure with which a leaf is not written, if it is not. -/
def fault? (leaf : Leaf) : Option Failure := leaf.atoms.findSome? Atom.fault?

/-- A leaf is bad if something of it is. -/
theorem isBad_iff {leaf : Leaf} : leaf.IsBad ↔ ∃ a ∈ leaf.atoms, a.IsBad := by
  cases leaf with
  | name v => simp [IsBad, atoms, Atom.IsBad]
  | literal v => simp [IsBad, atoms, Atom.IsBad, Value.isBad_iff_leaves]
  | piece v =>
    rw [IsBad, atoms]
    cases v.isFragment <;> simp [Atom.IsBad, Value.isBad_iff_leaves]

/-- A value fails as a name or not. -/
theorem failure?_name {v : Value} : failure? (Literal.identifier v) = (name v).fault? := by
  rw [fault?, atoms, List.findSome?_singleton]
  rfl

/-- A value fails as a literal as its leaves do. -/
theorem failure?_literal {v : Value} : failure? (Literal.ofValue v) = (literal v).fault? := by
  rw [Literal.failure?_ofValue, fault?, atoms, List.findSome?_map]
  rfl

/-- A value fails as a piece of text as its leaves do, unless it is a fragment. -/
theorem failure?_piece {v : Value} : failure? (Fragment.ofValue v) = (piece v).fault? := by
  have hliteral : ∀ {v : Value}, failure? (Fragment.literal v) = (literal v).fault? := by
    intro v
    rw [Fragment.literal, failure?_map, failure?_literal]
  cases v with
  | fragment f => rfl
  | _ => exact hliteral

/-- What is written in a row fails as the first of it that does. -/
theorem failure?_cons {α : Type} {leaf : Leaf} {leaves : List Leaf} {x : Except Failure α}
    {xs : Except Failure (List α)} (hx : failure? x = leaf.fault?)
    (hxs : failure? xs = leaves.findSome? fault?) :
    failure? (do
      let a ← x
      let as ← xs
      return a :: as) = (leaf :: leaves).findSome? fault? := by
  rw [failure?_bind fun _ => failure?_map, hx, hxs, List.findSome?_cons]
  cases leaf.fault? <;> rfl

/-- Several values fail as names as the first of them that does. -/
theorem failure?_names (vs : List Value) :
    failure? (Literal.identifiers vs) = (vs.map name).findSome? fault? := by
  induction vs with
  | nil => rfl
  | cons v vs ih => exact failure?_cons failure?_name ih

/-- Several values fail as literals as the first of them that does. -/
theorem failure?_literals (vs : List Value) :
    failure? (Literal.ofValues vs) = (vs.map literal).findSome? fault? := by
  induction vs with
  | nil => rfl
  | cons v vs ih =>
    rw [Literal.ofValues]
    exact failure?_cons failure?_literal ih

/-- Several values fail as pieces of text as the first of them that does. -/
theorem failure?_pieces (vs : List Value) :
    failure? (Fragment.ofValues vs) = (vs.map piece).findSome? fault? := by
  induction vs with
  | nil => rfl
  | cons v vs ih => exact failure?_cons failure?_piece ih

end Leaf

/-- A call of a maker of fragments. -/
inductive Call
  | identifier (v : Value)
  | identifiers (values : Value) (separator : String)
  | literal (v : Value)
  | literals (values : Value) (separator : String)
  | items (values : Value) (separator : String)
  | template (source : Value) (arguments : Format.Arguments)

namespace Call

/-- What is made. -/
def make : Call → Except Failure Fragment
  | identifier v => Fragment.identifier v
  | identifiers values separator => Fragment.identifiers values separator
  | literal v => Fragment.literal v
  | literals values separator => Fragment.literals values separator
  | items values separator => Fragment.items values separator
  | template source arguments => Fragment.template source arguments

/-- The values that are given. -/
def arguments : Call → List Value
  | identifier v | literal v => [v]
  | identifiers values _ | literals values _ | items values _ => [values]
  | template source arguments => source :: arguments.values

/-- The leaves of a call: what is given, what a loop over it runs through, or the values of a
template. There are none if the call is not in order, as where no loop can be run, a format string
is not well-formed, a field of it is missing, or the number of segments does not fit. What no field
refers to is no leaf. -/
def leaves? : Call → Option (List Leaf)
  | identifier v => some [.name v]
  | identifiers values _ => values.items?.map (·.map .name)
  | literal v => some [.literal v]
  | literals values _ => values.items?.map (·.map .literal)
  | items values _ => values.items?.map (·.map .piece)
  | template source arguments =>
    (Template.ofSource source arguments).toOption.map fun t => t.values.map .piece

/-- A loop over a value runs through what there is to run through. -/
theorem items_eq_ok_iff {v : Value} {vs : List Value} : v.items = .ok vs ↔ v.items? = some vs := by
  rw [Value.items]
  cases v.items? <;> simp

/-- A call fails as the first of its leaves that does. -/
theorem failure?_make {c : Call} {leaves : List Leaf} (h : c.leaves? = some leaves) :
    failure? c.make = leaves.findSome? Leaf.fault? := by
  -- each call writes its leaves by one of the functions on lists of them
  cases c with
  | identifier v =>
    cases h
    rw [make, Fragment.identifier, failure?_map, Leaf.failure?_name, List.findSome?_singleton]
  | identifiers values separator =>
    obtain ⟨vs, hvs, rfl⟩ := Option.map_eq_some_iff.mp h
    rw [make, Fragment.identifiers, failure?_map, Literal.joinedIdentifiers,
      items_eq_ok_iff.mpr hvs, ← Leaf.failure?_names]
    exact failure?_map
  | literal v =>
    cases h
    rw [make, Fragment.literal, failure?_map, Leaf.failure?_literal, List.findSome?_singleton]
  | literals values separator =>
    obtain ⟨vs, hvs, rfl⟩ := Option.map_eq_some_iff.mp h
    rw [make, Fragment.literals, failure?_map, Literal.joinedLiterals, items_eq_ok_iff.mpr hvs,
      ← Leaf.failure?_literals]
    exact failure?_map
  | items values separator =>
    obtain ⟨vs, hvs, rfl⟩ := Option.map_eq_some_iff.mp h
    rw [make, Fragment.items, items_eq_ok_iff.mpr hvs, ← Leaf.failure?_pieces]
    exact failure?_map
  | template source arguments =>
    obtain ⟨t, ht, rfl⟩ := Option.map_eq_some_iff.mp h
    cases hsource : Template.ofSource source arguments with
    | error f => rw [hsource] at ht; cases ht
    | ok t' =>
      rw [hsource] at ht
      cases ht
      rw [make, Fragment.template_eq, hsource, ← Leaf.failure?_pieces]
      exact failure?_map

/-- A call with settled fragments makes a settled one. -/
theorem isSettled_of_make {c : Call} {f : Fragment}
    (hc : ∀ v ∈ c.arguments, ∀ g, v.Holds g → g.IsSettled) (h : c.make = .ok f) : f.IsSettled := by
  cases c with
  | identifier _ | identifiers _ _ | literal _ | literals _ _ =>
    -- names and literals become a text at once
    obtain ⟨text, -, heq⟩ := exists_of_bind_eq_ok h
    cases heq
    exact ⟨text, Fragment.says_text⟩
  | items values separator =>
    obtain ⟨vs, hvs, h⟩ := exists_of_bind_eq_ok h
    obtain ⟨fs, hfs, heq⟩ := exists_of_bind_eq_ok h
    cases heq
    -- the rest is settled as the fragments in its values are
    have hvs' := items_eq_ok_iff.mp hvs
    exact Fragment.isSettled_joined (Fragment.isSettled_of_ofValues
      (fun v hv g hg => hc values List.mem_cons_self g (Value.holds_of_mem_items hvs' hv hg)) hfs)
  | template source arguments =>
    rw [make, Fragment.template_eq] at h
    obtain ⟨t, ht, h⟩ := exists_of_bind_eq_ok h
    refine Fragment.isSettled_of_ofTemplate (fun g hg => ?_) h
    obtain ⟨v, hv, hg⟩ := Template.holds_of_ofSource ht hg
    exact hc v hv g hg

end Call

/-- A term of nested calls: a call whose arguments may hold, in any places, the fragments that are
made of its parts. -/
inductive Term
  | node (parts : List Term) (call : List Fragment → Call)

namespace Term

mutual

/-- The fragment that a term makes. Its parts are made first. -/
def make : Term → Except Failure Fragment
  | node parts call => do (call (← makeAll parts)).make

/-- The fragments that several terms make, one after the other. -/
def makeAll : List Term → Except Failure (List Fragment)
  | [] => .ok []
  | t :: ts => do
    let f ← t.make
    let fs ← makeAll ts
    return f :: fs

end

mutual

/-- The leaves of a term: those of its parts, and those of the call that is made with them. There is
no such call if one of the parts fails. -/
def leaves : Term → List Leaf
  | node parts call => leavesAll parts ++
      match makeAll parts with
      | .ok fs => (call fs).leaves?.getD []
      | .error _ => []

/-- The leaves of several terms. -/
def leavesAll : List Term → List Leaf
  | [] => []
  | t :: ts => t.leaves ++ leavesAll ts

end

/-- What of a term is written piece by piece, in this order. -/
def atoms (t : Term) : List Atom := t.leaves.flatMap Leaf.atoms

/-- Whether all calls of a term are in order, and hold no fragments but those of the parts. -/
inductive InOrder : Term → Prop
  | node {parts : List Term} {call : List Fragment → Call} (hparts : ∀ t ∈ parts, InOrder t)
      (hleaves : ∀ fs, makeAll parts = .ok fs → ∃ leaves, (call fs).leaves? = some leaves)
      (hclosed : ∀ fs, makeAll parts = .ok fs →
        ∀ v ∈ (call fs).arguments, ∀ f, v.Holds f → f ∈ fs) :
      InOrder (.node parts call)

variable {t : Term} {f : Fragment}

mutual

/-- A term fails as the first of its leaves that does. -/
theorem failure?_make : ∀ {t : Term}, t.InOrder →
    failure? t.make = t.leaves.findSome? Leaf.fault?
  | node parts call, .node hparts hleaves _ => by
    have hall := failure?_makeAll hparts
    rw [make, leaves, List.findSome?_append, ← hall]
    cases hfs : makeAll parts with
    | error e => rfl
    | ok fs =>
      obtain ⟨leaves, hcall⟩ := hleaves fs hfs
      show failure? (call fs).make = ((call fs).leaves?.getD []).findSome? Leaf.fault?
      rw [hcall]
      exact Call.failure?_make hcall

/-- Several terms fail as the first of their leaves that does. -/
theorem failure?_makeAll : ∀ {ts : List Term}, (∀ t ∈ ts, t.InOrder) →
    failure? (makeAll ts) = (leavesAll ts).findSome? Leaf.fault?
  | [], _ => rfl
  | t :: ts, hts => by
    obtain ⟨ht, hts⟩ := List.forall_mem_cons.mp hts
    rw [makeAll, leavesAll, List.findSome?_append, ← failure?_make ht]
    refine failure?_bind fun _ => ?_
    rw [failure?_map, failure?_makeAll hts]

end

mutual

/-- What a term makes is settled. -/
theorem isSettled_of_make : ∀ {t : Term} {f : Fragment}, t.InOrder → t.make = .ok f → f.IsSettled
  | node parts call, f, .node hparts _ hclosed, h => by
    obtain ⟨fs, hfs, h⟩ := exists_of_bind_eq_ok h
    have hsettled := isSettled_of_makeAll hparts hfs
    exact Call.isSettled_of_make (fun v hv g hg => hsettled g (hclosed fs hfs v hv g hg)) h

/-- What several terms make is settled. -/
theorem isSettled_of_makeAll : ∀ {ts : List Term} {fs : List Fragment}, (∀ t ∈ ts, t.InOrder) →
    makeAll ts = .ok fs → ∀ f ∈ fs, f.IsSettled
  | [], fs, _, h => by
    cases h
    exact nofun
  | t :: ts, fs, hts, h => by
    obtain ⟨ht, hts⟩ := List.forall_mem_cons.mp hts
    obtain ⟨f, hf, h⟩ := exists_of_bind_eq_ok h
    obtain ⟨fs, hfs, heq⟩ := exists_of_bind_eq_ok h
    cases heq
    exact List.forall_mem_cons.mpr ⟨isSettled_of_make ht hf, isSettled_of_makeAll hts hfs⟩

end

end Term

namespace Fragment

end Fragment

end PooledSql
