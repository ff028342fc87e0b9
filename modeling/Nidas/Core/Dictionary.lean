import Mathlib.Data.List.TakeWhile
import Mathlib.Logic.Relation
import Nidas.Lib.Loops

/-!
# Expansion of tokens

`Dictionary::expandString` replaces tokens in a string by their values: `${name}`, and `$name` up
to one of the characters `/`, `.` and `$` or the end.  It goes through the string from left to
right, and then through the result, until no token has been replaced.

## Strategy

`scan` is one pass over the string, and `expandRound` one round of the outer loop, which nothing
bounds.  What a pass does is described by `Passed`: defined tokens are replaced, and all else is
kept, including all that follows a `${` without its `}`.  A string that the loop has been left with
has no token that a pass would replace, so it is a fixed point (`meets_iff`): the only thing that
can go wrong is that the loop is never left.
-/

namespace Nidas.Core

/-- A string -/
abbrev Text := List Char

/-- A table of token values. -/
abbrev TokenTable := List (Text × Text)

/-- The characters that end a token without braces. -/
def endsToken (c : Char) : Bool := c = '/' || c = '.' || c = '$'

/-- `getTokenValue`, which is not asked for tokens of length 0 -/
def tokenValue (table : TokenTable) (name : Text) : Option Text :=
  if name = [] then none else table.lookup name

/-- The token behind a `$`: all its characters, its name, and what follows it.  There is none if a
brace is not closed. -/
def readToken : Text → Option (Text × Text × Text)
  | '{' :: body =>
      if '}' ∈ body then
        let name := body.takeWhile (· ≠ '}')
        some ('{' :: name ++ ['}'], name, (body.dropWhile (· ≠ '}')).tail)
      else none
  | after =>
      let name := after.takeWhile (fun c => !endsToken c)
      some (name, name, after.dropWhile (fun c => !endsToken c))

/-- What the token behind a `$` is: `src` are its characters, and `rest` is what follows. -/
inductive IsToken : Text → Text → Text → Prop where
  | braced (name rest : Text) (hname : '}' ∉ name) : IsToken ('{' :: name ++ ['}']) name rest
  | plain (name rest : Text) (hname : ∀ c ∈ name, endsToken c = false)
      (hrest : ∀ c ∈ rest.head?, endsToken c = true) (hbrace : name.head? ≠ some '{') :
      IsToken name name rest

/-- A text up to its first `}`. -/
theorem split_brace {body : Text} (hbrace : '}' ∈ body) :
    ∃ name rest, body = name ++ '}' :: rest ∧ '}' ∉ name ∧ body.takeWhile (· ≠ '}') = name ∧
      (body.dropWhile (· ≠ '}')).tail = rest := by
  induction body with
  | nil => cases hbrace
  | cons c body ih =>
      by_cases hc : c = '}'
      · subst hc
        exact ⟨[], body, rfl, List.not_mem_nil, rfl, rfl⟩
      · obtain ⟨name, rest, hbody, hname, htake, hdrop⟩ :=
          ih ((List.mem_cons.mp hbrace).resolve_left (Ne.symm hc))
        refine ⟨c :: name, rest, by rw [hbody]; rfl, ?_, ?_, ?_⟩
        · simp [Ne.symm hc, hname]
        · rw [List.takeWhile_cons, if_pos (by simpa using hc), htake]
        · rw [List.dropWhile_cons, if_pos (by simpa using hc), hdrop]

/-- A text up to the first character that ends a token. -/
theorem takeWhile_append_of_stop {name rest : Text} (hname : ∀ c ∈ name, endsToken c = false)
    (hrest : ∀ c ∈ rest.head?, endsToken c = true) :
    (name ++ rest).takeWhile (fun c => !endsToken c) = name ∧
      (name ++ rest).dropWhile (fun c => !endsToken c) = rest := by
  induction name with
  | nil =>
      cases rest with
      | nil => exact ⟨rfl, rfl⟩
      | cons c rest =>
          have hc := hrest c rfl
          simp [hc]
  | cons c name ih =>
      have hc := hname c List.mem_cons_self
      obtain ⟨htake, hdrop⟩ := ih fun d hd => hname d (List.mem_cons_of_mem _ hd)
      simp [hc, htake, hdrop]

theorem readToken_of_isToken {src name rest : Text} (htoken : IsToken src name rest) :
    readToken (src ++ rest) = some (src, name, rest) := by
  cases htoken with
  | braced name rest hname =>
      have hassoc : '{' :: name ++ ['}'] ++ rest = '{' :: (name ++ '}' :: rest) := by simp
      have hmem : '}' ∈ name ++ '}' :: rest := by simp
      have htake : (name ++ '}' :: rest).takeWhile (· ≠ '}') = name := by
        rw [List.takeWhile_append_of_pos]
        · simp
        · intro c hc
          have hne : c ≠ '}' := fun heq => hname (heq ▸ hc)
          simpa using hne
      have hdrop : (name ++ '}' :: rest).dropWhile (· ≠ '}') = '}' :: rest := by
        rw [List.dropWhile_append_of_pos]
        · simp
        · intro c hc
          have hne : c ≠ '}' := fun heq => hname (heq ▸ hc)
          simpa using hne
      rw [hassoc, readToken, if_pos hmem, htake, hdrop]
      rfl
  | plain name rest hname hrest hbrace =>
      obtain ⟨htake, hdrop⟩ := takeWhile_append_of_stop hname hrest
      unfold readToken
      split
      · rename_i body heq
        cases src with
        | nil =>
            cases hcons : rest with
            | nil =>
                rw [hcons] at heq
                cases heq
            | cons c rest' =>
                rw [hcons, List.nil_append, List.cons_eq_cons] at heq
                have hc := hrest c (by rw [hcons]; rfl)
                rw [heq.1] at hc
                cases hc
        | cons c src =>
            rw [List.cons_append, List.cons_eq_cons] at heq
            exact absurd (congrArg some heq.1) hbrace
      · dsimp only
        rw [htake, hdrop]

theorem isToken_of_readToken {after src name rest : Text}
    (hread : readToken after = some (src, name, rest)) :
    after = src ++ rest ∧ IsToken src name rest := by
  unfold readToken at hread
  split at hread
  · rename_i body
    split at hread
    · rename_i hbrace
      obtain ⟨name', rest', hbody, hname, htake, hdrop⟩ := split_brace hbrace
      dsimp only at hread
      rw [htake, hdrop] at hread
      cases hread
      refine ⟨by rw [hbody]; simp, .braced name rest hname⟩
    · cases hread
  · rename_i hbrace
    cases hread
    refine ⟨(List.takeWhile_append_dropWhile).symm, .plain _ _ ?_ ?_ ?_⟩
    · intro c hc
      have hall := List.mem_takeWhile_imp hc
      simpa using hall
    · intro c hc
      have hhead := List.head?_dropWhile_not (fun c => !endsToken c) after
      rw [Option.mem_def.mp hc] at hhead
      simpa using hhead
    · intro hhead
      cases hafter : after with
      | nil =>
          rw [hafter] at hhead
          cases hhead
      | cons c body =>
          rw [hafter, List.takeWhile_cons] at hhead
          split at hhead
          · cases hhead
            exact hbrace body hafter
          · cases hhead

theorem length_of_readToken {after src name rest : Text}
    (hread : readToken after = some (src, name, rest)) : rest.length ≤ after.length := by
  rw [(isToken_of_readToken hread).1, List.length_append]
  omega

/-! ## One pass -/

theorem length_lt_of_dropWhile {p : Char → Bool} {text after : Text} {c : Char}
    (hdrop : text.dropWhile p = c :: after) : after.length < text.length := by
  have hle := (List.dropWhile_suffix p (l := text)).length_le
  rw [hdrop, List.length_cons] at hle
  omega

/-- One pass over a string, and whether a token has been replaced.  At a brace that is not closed
the pass ends, and the rest is taken as it is. -/
def scan (table : TokenTable) (text : Text) : Text × Bool :=
  match hdrop : text.dropWhile (· ≠ '$') with
  | [] => (text, false)
  | _ :: after =>
      match hread : readToken after with
      | none => (text, false)
      | some (src, name, rest) =>
          let tail := scan table rest
          match tokenValue table name with
          | some value => (text.takeWhile (· ≠ '$') ++ value ++ tail.1, true)
          | none => (text.takeWhile (· ≠ '$') ++ '$' :: src ++ tail.1, tail.2)
  termination_by text.length
  decreasing_by
    exact (length_of_readToken hread).trans_lt (length_lt_of_dropWhile hdrop)

/-- One round of the loop of `expandString`. -/
def expandRound (table : TokenTable) (tmp : Text) : Text ⊕ Text :=
  let result := scan table tmp
  if result.2 then .inl result.1 else .inr result.1

/-- `Dictionary::expandString` returns a string. -/
def Expands (table : TokenTable) (input result : Text) : Prop :=
  Lib.Ends (expandRound table) input result

/-! ## What a pass does -/

theorem dropWhile_dollar {before : Text} (hbefore : '$' ∉ before) (after : Text) :
    (before ++ '$' :: after).dropWhile (· ≠ '$') = '$' :: after ∧
      (before ++ '$' :: after).takeWhile (· ≠ '$') = before := by
  induction before with
  | nil => exact ⟨rfl, rfl⟩
  | cons c before ih =>
      rw [List.mem_cons, not_or] at hbefore
      obtain ⟨hdrop, htake⟩ := ih hbefore.2
      have hc : c ≠ '$' := Ne.symm hbefore.1
      rw [List.cons_append, List.dropWhile_cons, List.takeWhile_cons, if_pos (by simpa using hc),
        if_pos (by simpa using hc), hdrop, htake]
      exact ⟨rfl, rfl⟩

variable (table : TokenTable)

theorem scan_of_notMem {text : Text} (htext : '$' ∉ text) : scan table text = (text, false) := by
  have hdrop : text.dropWhile (· ≠ '$') = [] := by
    rw [List.dropWhile_eq_nil_iff]
    intro c hc
    have hne : c ≠ '$' := fun heq => htext (heq ▸ hc)
    simpa using hne
  rw [scan]
  split
  · rfl
  · rename_i heq
    rw [hdrop] at heq
    cases heq

theorem scan_of_none {before after : Text} (hbefore : '$' ∉ before)
    (hread : readToken after = none) :
    scan table (before ++ '$' :: after) = (before ++ '$' :: after, false) := by
  rw [scan]
  split
  · rfl
  · rename_i heq
    rw [(dropWhile_dollar hbefore after).1, List.cons_eq_cons] at heq
    obtain ⟨-, rfl⟩ := heq
    split
    · rfl
    · rename_i hread'
      rw [hread] at hread'
      cases hread'

theorem scan_of_isToken {before src name rest : Text} (hbefore : '$' ∉ before)
    (htoken : IsToken src name rest) :
    scan table (before ++ '$' :: (src ++ rest)) =
      match tokenValue table name with
      | some value => (before ++ value ++ (scan table rest).1, true)
      | none => (before ++ '$' :: src ++ (scan table rest).1, (scan table rest).2) := by
  obtain ⟨hdrop, htake⟩ := dropWhile_dollar hbefore (src ++ rest)
  rw [scan]
  split
  · rename_i heq
    rw [hdrop] at heq
    cases heq
  · rename_i heq
    rw [hdrop, List.cons_eq_cons] at heq
    obtain ⟨-, rfl⟩ := heq
    split
    · rename_i hread
      rw [readToken_of_isToken htoken] at hread
      cases hread
    · rename_i hread
      rw [readToken_of_isToken htoken] at hread
      cases hread
      rw [htake]

/-- A text is plain, or it has a first `$`, with a token behind it or without. -/
theorem text_induction {motive : Text → Prop}
    (plain : ∀ text, '$' ∉ text → motive text)
    (unclosed : ∀ before after, '$' ∉ before → readToken after = none →
      motive (before ++ '$' :: after))
    (token : ∀ before src name rest, '$' ∉ before → IsToken src name rest → motive rest →
      motive (before ++ '$' :: (src ++ rest))) (text : Text) : motive text := by
  obtain ⟨bound, hbound⟩ : ∃ bound, text.length ≤ bound := ⟨_, Nat.le_refl _⟩
  induction bound generalizing text with
  | zero =>
      have hnil : text = [] := List.length_eq_zero_iff.mp (Nat.le_zero.mp hbound)
      exact plain text (hnil ▸ List.not_mem_nil)
  | succ bound ih =>
      by_cases hdollar : '$' ∈ text
      · obtain ⟨before, after, rfl, hbefore⟩ := List.eq_append_cons_of_mem hdollar
        cases hread : readToken after with
        | none => exact unclosed before after hbefore hread
        | some token' =>
            obtain ⟨src, name, rest⟩ := token'
            obtain ⟨rfl, htoken⟩ := isToken_of_readToken hread
            apply token before src name rest hbefore htoken
            apply ih
            simp only [List.length_append, List.length_cons] at hbound
            omega
      · exact plain text hdollar

/-- What a pass over a string should leave: defined tokens are replaced by their values, plain text
and undefined tokens are kept, and so is everything from a brace on that is not closed. -/
inductive Passed : Text → Text → Prop where
  | plain (text : Text) (htext : '$' ∉ text) : Passed text text
  | unclosed (before body : Text) (hbefore : '$' ∉ before) (hbody : '}' ∉ body) :
      Passed (before ++ '$' :: '{' :: body) (before ++ '$' :: '{' :: body)
  | kept (before src name rest rest' : Text) (hbefore : '$' ∉ before)
      (htoken : IsToken src name rest) (hvalue : tokenValue table name = none)
      (hrest : Passed rest rest') :
      Passed (before ++ '$' :: (src ++ rest)) (before ++ '$' :: (src ++ rest'))
  | replaced (before src name rest rest' value : Text) (hbefore : '$' ∉ before)
      (htoken : IsToken src name rest) (hvalue : tokenValue table name = some value)
      (hrest : Passed rest rest') :
      Passed (before ++ '$' :: (src ++ rest)) (before ++ (value ++ rest'))

theorem unclosed_of_readToken {after : Text} (hread : readToken after = none) :
    ∃ body, after = '{' :: body ∧ '}' ∉ body := by
  unfold readToken at hread
  split at hread
  · rename_i body
    split at hread
    · cases hread
    · rename_i hbrace
      exact ⟨body, rfl, hbrace⟩
  · cases hread

theorem passed_scan (text : Text) : Passed table text (scan table text).1 := by
  induction text using text_induction with
  | plain text htext =>
      rw [scan_of_notMem table htext]
      exact .plain text htext
  | unclosed before after hbefore hread =>
      rw [scan_of_none table hbefore hread]
      obtain ⟨body, rfl, hbody⟩ := unclosed_of_readToken hread
      exact .unclosed before body hbefore hbody
  | token before src name rest hbefore htoken ih =>
      rw [scan_of_isToken table hbefore htoken]
      cases hvalue : tokenValue table name with
      | none =>
          dsimp only
          rw [List.append_assoc, List.cons_append]
          exact .kept before src name rest _ hbefore htoken hvalue ih
      | some value =>
          dsimp only
          rw [List.append_assoc]
          exact .replaced before src name rest _ value hbefore htoken hvalue ih

/-- A pass that replaces no token leaves the string as it is. -/
theorem scan_eq_self {text : Text} (hsame : (scan table text).2 = false) :
    (scan table text).1 = text := by
  induction text using text_induction with
  | plain text htext => rw [scan_of_notMem table htext]
  | unclosed before after hbefore hread => rw [scan_of_none table hbefore hread]
  | token before src name rest hbefore htoken ih =>
      rw [scan_of_isToken table hbefore htoken] at hsame ⊢
      cases hvalue : tokenValue table name with
      | none =>
          rw [hvalue] at hsame
          dsimp only at hsame ⊢
          rw [ih hsame, List.append_assoc, List.cons_append]
      | some value =>
          rw [hvalue] at hsame
          cases hsame

/-! ## What the expansion should do -/

/-- The expansion ends, its result is not changed by another one, and what is done to the string
are passes that keep all but the defined tokens. -/
def MeetsExpansion (input : Text) : Prop :=
  ∃ result, Expands table input result ∧ Expands table result result ∧
    Relation.ReflTransGen (Passed table) input result

/-- All that can go wrong is that the expansion does not end. -/
theorem meets_iff (input : Text) :
    MeetsExpansion table input ↔ ∃ result, Expands table input result := by
  constructor
  · rintro ⟨result, hexpands, _⟩
    exact ⟨result, hexpands⟩
  · rintro ⟨result, hexpands⟩
    have hpost : Lib.Ends (expandRound table) result result ∧
        Relation.ReflTransGen (Passed table) input result := by
      refine @Lib.Ends.invariant _ _ _ input result
        (fun tmp => Relation.ReflTransGen (Passed table) input tmp)
        (fun out => Lib.Ends (expandRound table) out out ∧
          Relation.ReflTransGen (Passed table) input out) hexpands .refl ?_ ?_
      · intro tmp next hpassed hround
        unfold expandRound at hround
        dsimp only at hround
        split at hround
        · cases hround
          exact hpassed.tail (passed_scan table tmp)
        · cases hround
      · intro tmp out hpassed hround
        have hround' := hround
        unfold expandRound at hround
        dsimp only at hround
        split at hround
        · cases hround
        · rename_i hsame
          cases hround
          have heq := scan_eq_self table (by simpa using hsame)
          rw [heq] at hround' ⊢
          exact ⟨.leave hround', hpassed⟩
    exact ⟨result, hexpands, hpost⟩

end Nidas.Core
