import Mathlib.Data.List.Nodup
import PooledSql.Proofs.Task.History

/-!
# Registrations under a token

What a history tells about a token: whether it has been set, and which actions are registered under
it. The actions that whoever sets the token finds are `History.due`. They are read off the
registrations, and of actions that are registered once they are just those that have not been taken
back since, in the order of their registration (`History.due_sublist`, `History.mem_due_iff`).
-/

namespace PooledSql

variable {S : Setting} {O : Interface} {token : TokenId}

section Tokens

variable [BEq S.Action]

/-- The effect of an act of a task on a token. -/
def TaskAct.onToken (token : TokenId) (t : Token S.Action) : TaskAct S → Token S.Action
  | register t' a => if t' = token then t.register a else t
  | unregister t' a => if t' = token then t.unregister a else t
  | trip t' => if t' = token then t.trip.2 else t
  | blame t' f => if t' = token then t.blame f else t
  | _ => t

/-- The effect of an act of a task on a token that has been made. -/
theorem TaskAct.getElem?_onTokens {tokens : List (Token S.Action)} {t : Token S.Action}
    (r : TaskAct S)
    (ht : tokens[token]? = some t) : (r.onTokens tokens)[token]? = some (r.onToken token t) := by
  cases r with
  | newToken => exact (List.getElem?_append_left (List.getElem?_eq_some_iff.mp ht).1).trans ht
  | register t' a | unregister t' a | trip t' | blame t' f =>
    by_cases htoken : t' = token <;>
      simp [onTokens, onToken, ht, htoken]
  | _ => exact ht

/-- A token that is there after an act and was not there before is new. -/
theorem TaskAct.new_of_getElem?_onTokens {tokens : List (Token S.Action)} {t : Token S.Action}
    {r : TaskAct S} (hlength : tokens.length ≤ token) (ht : (r.onTokens tokens)[token]? = some t) :
    t = {} := by
  have hnone : tokens[token]? = none := List.getElem?_eq_none hlength
  cases r with
  | newToken =>
    have hnew : (tokens ++ [({} : Token S.Action)])[token]? = some t := ht
    rw [List.getElem?_append_right hlength] at hnew
    exact List.mem_singleton.mp (List.mem_of_getElem? hnew)
  -- these change a token in its place, and there is none in this place
  | register | unregister | trip | blame =>
    simp [onTokens, List.getElem?_modify, hnone] at ht
  | _ =>
    have hsame : tokens[token]? = some t := ht
    rw [hnone] at hsame
    cases hsame

end Tokens

namespace History

variable {g g' h : History S O} {i : TaskId} {e : Happening S O} {a : S.Action}

/-- A token that has been set has been made. -/
theorem Cancelled.lt_tokenCount (hset : h.Cancelled token) : token < h.tokenCount := by
  obtain ⟨g, _, _, g', rfl, hlt⟩ := hset
  rw [tokenCount_append]
  exact Nat.lt_of_lt_of_le hlt (Nat.le_add_right ..)

section Tokens

variable [BEq S.Action]

/-- There are as many tokens as have been made. -/
theorem length_tokens : h.tokens.length = h.tokenCount := by
  induction h using List.reverseRecOn with
  | nil => rfl
  | append_singleton h e ih =>
    rw [tokens_snoc, tokenCount_append, ← ih]
    match e with
    | .deed _ (.act (.inl r) _) =>
      cases r <;> simp [Happening.onTokens, TaskAct.onTokens, Happening.makesToken]
    | .deed _ (.act (.inr _) _) | .deed _ (.call _) | .deed _ (.answer ..) | .launch _ | .finish ..
    | .interrupt _ => rfl

/-- A token that has been made is there. -/
theorem exists_token (hlt : token < h.tokenCount) : ∃ t, h.tokens[token]? = some t := by
  rw [← length_tokens] at hlt
  exact ⟨_, List.getElem?_eq_getElem hlt⟩

/-- A token that has not been made is not there. -/
theorem no_token (hlt : ¬ token < h.tokenCount) : h.tokens[token]? = none := by
  rw [← length_tokens] at hlt
  exact List.getElem?_eq_none (Nat.le_of_not_lt hlt)

/-- A token that has just been made is new. -/
theorem new_of_snoc {t : Token S.Action} (hlt : ¬ token < h.tokenCount)
    (ht : (tokens (h ++ [e]))[token]? = some t) : t = {} := by
  have hlength : h.tokens.length ≤ token := by
    rw [length_tokens]
    exact Nat.le_of_not_lt hlt
  rw [tokens_snoc] at ht
  match e with
  | .deed _ (.act (.inl r) _) => exact TaskAct.new_of_getElem?_onTokens hlength ht
  | .deed _ (.act (.inr _) _) | .deed _ (.call _) | .deed _ (.answer ..) | .launch _
  | .finish .. | .interrupt _ =>
    have hsame : (tokens h)[token]? = some t := ht
    rw [no_token hlt] at hsame
    cases hsame

/-- A token is found set if somebody has set it. -/
theorem cancelled_iff_of_token {t : Token S.Action} (ht : h.tokens[token]? = some t) :
    t.cancelled = true ↔ h.Cancelled token := by
  induction h using List.reverseRecOn generalizing t with
  | nil => cases ht
  | append_singleton h e ih =>
    rw [cancelled_snoc_iff]
    -- a token that was there before is found as this happening leaves it
    by_cases hlt : token < tokenCount h
    · obtain ⟨t₀, ht₀⟩ := exists_token hlt
      rw [tokens_snoc] at ht
      rw [← ih ht₀]
      match e with
      | .deed i (.act (.inl r) out) =>
        have hafter : (r.onTokens (tokens h))[token]? = some t := ht
        rw [r.getElem?_onTokens ht₀, Option.some.injEq] at hafter
        subst hafter
        -- of all acts only a cancellation of this token sets it
        have hsets : (token < tokenCount h ∧ ∃ j out', Happening.deed i (.act (.inl r) out) =
            (.deed j (.act (.inl (.trip token)) out') : Happening S O)) ↔
            @Eq (TaskAct S) r (.trip token) := by
          constructor
          · rintro ⟨-, j, out', he⟩
            cases he
            rfl
          · rintro rfl
            exact ⟨hlt, i, out, rfl⟩
        rw [hsets]
        cases r with
        | trip t' =>
          by_cases htoken : t' = token
          · subst htoken
            cases hset : t₀.cancelled <;> simp [TaskAct.onToken, Token.trip, hset]
          · simp [TaskAct.onToken, htoken]
        | register t' a | unregister t' a | blame t' f =>
          by_cases htoken : t' = token <;>
            simp [TaskAct.onToken, htoken, Token.register, Token.unregister, Token.blame]
        | _ => simp [TaskAct.onToken]
      | .deed _ (.act (.inr _) _) | .deed _ (.call _) | .deed _ (.answer ..) | .launch _
      | .finish .. | .interrupt _ =>
        have hafter : (tokens h)[token]? = some t := ht
        rw [ht₀] at hafter
        cases hafter
        refine (or_iff_left ?_).symm
        rintro ⟨-, _, _, he⟩
        cases he
    · -- a token that has just been made is not set
      have hunset : ¬ Cancelled h token := fun hset => hlt hset.lt_tokenCount
      simp [new_of_snoc hlt ht, hunset, hlt]

end Tokens

end History

namespace Happening

variable {e : Happening S O} {a : S.Action}

/-- The action that a happening registers under a token. -/
def registered? (token : TokenId) : Happening S O → Option S.Action
  | deed _ (.act (.inl (.register t a)) _) => if t = token then some a else none
  | _ => none

/-- The action whose registration under a token a happening takes back. -/
def withdrawn? (token : TokenId) : Happening S O → Option S.Action
  | deed _ (.act (.inl (.unregister t a)) _) => if t = token then some a else none
  | _ => none

/-- An action is registered by a task that does so. -/
theorem registered?_eq_some_iff :
    e.registered? token = some a ↔ ∃ i, e = .deed i (.act (.inl (.register token a)) ()) := by
  constructor
  · intro h
    match e, h with
    | .deed i (.act (.inl (.register t b)) _), h =>
      obtain ⟨rfl, hb⟩ := Option.ite_none_right_eq_some.mp h
      cases hb
      exact ⟨i, rfl⟩
  · rintro ⟨i, rfl⟩
    exact if_pos rfl

/-- A registration is taken back by a task that does so. -/
theorem withdrawn?_eq_some_iff :
    e.withdrawn? token = some a ↔ ∃ i, e = .deed i (.act (.inl (.unregister token a)) ()) := by
  constructor
  · intro h
    match e, h with
    | .deed i (.act (.inl (.unregister t b)) _), h =>
      obtain ⟨rfl, hb⟩ := Option.ite_none_right_eq_some.mp h
      cases hb
      exact ⟨i, rfl⟩
  · rintro ⟨i, rfl⟩
    exact if_pos rfl

/-- What takes a registration back registers nothing. -/
theorem registered?_of_withdrawn? (h : e.withdrawn? token = some a) :
    e.registered? token = none := by
  obtain ⟨i, rfl⟩ := withdrawn?_eq_some_iff.mp h
  rfl

variable [BEq S.Action] {due : List S.Action}

/-- The effect of a happening on the actions that are registered under a token. -/
def onDue (token : TokenId) (due : List S.Action) (e : Happening S O) : List S.Action :=
  match e.withdrawn? token with
  | some a => due.erase a
  | none => due ++ (e.registered? token).toList

/-- What is no registration and takes none back leaves the registered actions as they are. -/
theorem onDue_of_none (hr : e.registered? token = none) (hw : e.withdrawn? token = none) :
    e.onDue token due = due := by
  rw [onDue, hw, hr]
  exact List.append_nil due

/-- Registered actions stay in the order of their registration. -/
theorem onDue_sublist {registrations : List S.Action} (hdue : due.Sublist registrations) :
    (e.onDue token due).Sublist (registrations ++ (e.registered? token).toList) := by
  unfold onDue
  split
  · exact (List.erase_sublist.trans hdue).trans (List.sublist_append_left ..)
  · exact hdue.append_right _

/-- What is registered after a happening was so before and is not taken back by it, or is registered
by it. -/
theorem mem_onDue_iff [LawfulBEq S.Action] (hdue : due.Nodup) :
    a ∈ e.onDue token due ↔
      (a ∈ due ∧ e.withdrawn? token ≠ some a) ∨ e.registered? token = some a := by
  unfold onDue
  split
  · rename_i b hb
    rw [hdue.mem_erase_iff, hb, registered?_of_withdrawn? hb]
    simp [and_comm, eq_comm]
  · rename_i hnone
    simp [hnone]

end Happening

namespace History

variable {g g' h : History S O} {i : TaskId} {e : Happening S O} {a : S.Action}

/-- The actions that are registered under a token, in order. -/
def registrations (h : History S O) (token : TokenId) : List S.Action :=
  h.filterMap (Happening.registered? token)

/-- Whether an action has been registered under a token and has not been taken back since. -/
def Enrolled (h : History S O) (token : TokenId) (a : S.Action) : Prop :=
  ∃ g i g', h = g ++ .deed i (.act (.inl (.register token a)) ()) :: g' ∧ token < tokenCount g ∧
    ∀ j, .deed j (.act (.inl (.unregister token a)) ()) ∉ g'

@[simp]
theorem registrations_append :
    registrations (g ++ g') token = registrations g token ++ registrations g' token :=
  List.filterMap_append

/-- An action is registered by a task that does so. -/
theorem mem_registrations_iff :
    a ∈ h.registrations token ↔ ∃ i, .deed i (.act (.inl (.register token a)) ()) ∈ h := by
  simp only [registrations, List.mem_filterMap, Happening.registered?_eq_some_iff]
  exact ⟨fun ⟨e, he, i, hi⟩ => ⟨i, hi ▸ he⟩, fun ⟨i, hi⟩ => ⟨_, hi, i, rfl⟩⟩

/-- Actions are registered only under a token that has been made. -/
theorem Enrolled.lt_tokenCount (ha : h.Enrolled token a) : token < h.tokenCount := by
  obtain ⟨g, _, g', rfl, hlt, -⟩ := ha
  rw [tokenCount_append]
  exact Nat.lt_of_lt_of_le hlt (Nat.le_add_right ..)

/-- An action is registered and not taken back after a happening if it was before and that happening
does not take it back, or if that happening registers it. -/
theorem enrolled_snoc_iff :
    Enrolled (h ++ [e]) token a ↔
      (Enrolled h token a ∧ e.withdrawn? token ≠ some a) ∨
        token < tokenCount h ∧ e.registered? token = some a := by
  rw [Happening.registered?_eq_some_iff, Ne, Happening.withdrawn?_eq_some_iff]
  constructor
  · rintro ⟨g, i, g', heq, hlt, hkept⟩
    -- the registration is the last happening, or something has happened since
    rcases List.eq_nil_or_concat g' with rfl | ⟨g', e', rfl⟩
    · obtain ⟨rfl, he⟩ := List.append_inj' heq rfl
      exact .inr ⟨hlt, i, by simpa using he⟩
    · rw [List.concat_eq_append, ← List.cons_append, ← List.append_assoc] at heq
      obtain ⟨rfl, he⟩ := List.append_inj' heq rfl
      cases he
      refine .inl ⟨⟨g, i, g', rfl, hlt, fun j hj => hkept j (by simp [hj])⟩, ?_⟩
      rintro ⟨j, rfl⟩
      exact hkept j (by simp)
  · rintro (⟨⟨g, i, g', rfl, hlt, hkept⟩, hne⟩ | ⟨hlt, i, rfl⟩)
    · -- a registration goes on counting as long as nothing takes it back
      refine ⟨g, i, g' ++ [e], by simp, hlt, fun j hj => ?_⟩
      rcases List.mem_append.mp hj with hj | hj
      · exact hkept j hj
      · exact hne ⟨j, (List.mem_singleton.mp hj).symm⟩
    · exact ⟨h, i, [], rfl, hlt, nofun⟩

variable [BEq S.Action]

/-- The actions that whoever sets a token finds. -/
def due (h : History S O) (token : TokenId) : List S.Action :=
  (h.tokens[token]?.map (·.trip.1)).getD []

/-- Nothing is found under a token that has been set. -/
theorem Cancelled.due_eq (hset : h.Cancelled token) : h.due token = [] := by
  obtain ⟨t, ht⟩ := exists_token hset.lt_tokenCount
  rw [due, ht, Option.map_some, Option.getD_some, Token.trip,
    if_pos ((cancelled_iff_of_token ht).mpr hset)]

/-- Nothing is found under a token that has not been made, nor when it is made. -/
theorem due_snoc_of_not_lt (hlt : ¬ token < h.tokenCount) : due (h ++ [e]) token = [] := by
  cases ht : (tokens (h ++ [e]))[token]? with
  | none => rw [due, ht]; rfl
  | some t =>
    rw [due, ht, new_of_snoc hlt ht]
    rfl

/-- What is found under a token that has been made and has not been set. -/
theorem due_eq_actions {t : Token S.Action} (ht : h.tokens[token]? = some t)
    (hfree : ¬ h.Cancelled token) :
    h.due token = t.actions := by
  have hunset : ¬ t.cancelled = true := by rwa [cancelled_iff_of_token ht]
  rw [due, ht, Option.map_some, Option.getD_some, Token.trip, if_neg hunset]

/-- What is found under a token after one more happening. -/
theorem due_snoc (hlt : token < h.tokenCount) (hfree : ¬ Cancelled (h ++ [e]) token) :
    due (h ++ [e]) token = e.onDue token (due h token) := by
  obtain ⟨t, ht⟩ := exists_token hlt
  have hbefore : due h token = t.actions := due_eq_actions ht fun hset => hfree hset.mono
  rw [hbefore]
  match e with
  | .deed i (.act (.inl r) out) =>
    have hafter :
        (tokens (h ++ [.deed i (.act (.inl r) out)]))[token]? = some (r.onToken token t) := by
      rw [tokens_snoc]
      exact r.getElem?_onTokens ht
    rw [due_eq_actions hafter hfree]
    -- as the token is not set, its actions change by registrations only
    cases r with
    | register t' a | unregister t' a =>
      by_cases htoken : t' = token <;>
        simp [TaskAct.onToken, Happening.onDue, Happening.registered?, Happening.withdrawn?, htoken,
          Token.register, Token.unregister]
    | trip t' =>
      have htoken : t' ≠ token := by
        rintro rfl
        exact hfree (cancelled_snoc_iff.mpr (.inr ⟨hlt, i, out, rfl⟩))
      rw [TaskAct.onToken, if_neg htoken, Happening.onDue_of_none rfl rfl]
    | blame t' f =>
      rw [TaskAct.onToken, Happening.onDue_of_none rfl rfl]
      split <;> rfl
    | _ => exact (Happening.onDue_of_none rfl rfl).symm
  | .deed _ (.act (.inr _) _) | .deed _ (.call _) | .deed _ (.answer ..) | .launch _ | .finish ..
  | .interrupt _ =>
    rw [Happening.onDue_of_none rfl rfl]
    exact due_eq_actions (by rw [tokens_snoc]; exact ht) hfree

/-- The actions that are found under a token stand in the order of their registration. -/
theorem due_sublist : (h.due token).Sublist (h.registrations token) := by
  induction h using List.reverseRecOn with
  | nil => exact List.Sublist.refl []
  | append_singleton h e ih =>
    by_cases hset : Cancelled (h ++ [e]) token
    · rw [hset.due_eq]
      exact List.nil_sublist _
    by_cases hlt : token < tokenCount h
    · rw [due_snoc hlt hset, registrations_append]
      exact Happening.onDue_sublist ih
    · rw [due_snoc_of_not_lt hlt]
      exact List.nil_sublist _

variable [LawfulBEq S.Action]

/-- Of actions that are registered once, those are found under a token that have been registered and
not taken back since. -/
theorem mem_due_iff (honce : (h.registrations token).Nodup) (hfree : ¬ h.Cancelled token) :
    a ∈ h.due token ↔ h.Enrolled token a := by
  induction h using List.reverseRecOn with
  | nil =>
    exact iff_of_false List.not_mem_nil fun ha => Nat.not_lt_zero _ ha.lt_tokenCount
  | append_singleton h e ih =>
    have honce' : (registrations h token).Nodup := by
      rw [registrations_append] at honce
      exact honce.of_append_left
    have ih := ih honce' fun hset => hfree hset.mono
    -- under a token that has not been made nothing is registered, and nothing is found
    by_cases hlt : token < tokenCount h
    · rw [due_snoc hlt hfree, Happening.mem_onDue_iff (due_sublist.nodup honce'),
        enrolled_snoc_iff, ih]
      simp only [hlt, true_and]
    · rw [due_snoc_of_not_lt hlt, enrolled_snoc_iff]
      refine iff_of_false List.not_mem_nil ?_
      rintro (⟨ha, -⟩ | ⟨hlt', -⟩)
      · exact hlt ha.lt_tokenCount
      · exact hlt hlt'

/-- Taking a registration back leaves all others. -/
theorem due_withdraw (honce : (h.registrations token).Nodup) :
    due (h ++ [.deed i (.act (.inl (.unregister token a)) ())]) token =
      (h.due token).filter (· != a) := by
  by_cases hset : h.Cancelled token
  · rw [hset.mono.due_eq, hset.due_eq, List.filter_nil]
  have hfree : ¬ Cancelled (h ++ [.deed i (.act (.inl (.unregister token a)) ())]) token := by
    rw [cancelled_snoc_iff]
    rintro (hset' | ⟨-, _, _, he⟩)
    · -- nothing but a cancellation sets the token
      exact hset hset'
    · cases he
  by_cases hlt : token < h.tokenCount
  · rw [due_snoc hlt hfree, Happening.onDue, Happening.withdrawn?_eq_some_iff.mpr ⟨i, rfl⟩]
    exact (due_sublist.nodup honce).erase_eq_filter a
  · rw [due_snoc_of_not_lt hlt, due, no_token hlt]
    rfl

/-- A registration that has been taken back is not found any more. -/
theorem not_mem_due_of_withdrawn
    (honce : (registrations (g ++ .deed i (.act (.inl (.unregister token a)) ()) ::
      g') token).Nodup)
    (ha : a ∈ g.registrations token) :
    a ∉ due (g ++ .deed i (.act (.inl (.unregister token a)) ()) :: g') token := by
  intro hdue
  by_cases hset : Cancelled (g ++ .deed i (.act (.inl (.unregister token a)) ()) :: g') token
  · rw [hset.due_eq] at hdue
    exact List.not_mem_nil hdue
  obtain ⟨p, j, q, heq, -, hkept⟩ := (mem_due_iff honce hset).mp hdue
  -- the registration that still counts comes after the one taken back, or before that
  rcases place_cases rfl heq with ⟨-, he, -⟩ | ⟨m, rfl, -⟩ | ⟨m, -, rfl⟩
  · cases he
  · -- the action would have been registered twice
    rw [heq, registrations_append, registrations_append, List.append_assoc] at honce
    have hagain : a ∈ registrations (.deed j (.act (.inl (.register token a)) ()) :: q) token :=
      mem_registrations_iff.mpr ⟨j, List.mem_cons_self ..⟩
    exact List.disjoint_of_nodup_append honce ha (List.mem_append_right _ hagain)
  · exact hkept i (by simp)

end History

end PooledSql
