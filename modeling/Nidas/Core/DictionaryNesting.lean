import Mathlib.Algebra.Order.BigOperators.Group.List
import Mathlib.Order.Lattice.Nat
import Mathlib.Tactic.Ring
import Nidas.Core.Dictionary

/-!
# How deep values nest

The expansion of a string ends if values do not nest without end: a value may have tokens, their
values may have tokens, and so on, but not forever.

## Strategy

Which token begins at a `$` may depend on what comes to stand behind it, because a value can be the
beginning of a token that goes on in the text around it.  `CanStart` says which tokens can begin
there, whatever follows, and `AtMost` that the values of these tokens nest at most `n` deep.  A pass
replaces a `$` by those of a value, which nest less deep, so a weight that grows fast enough with
the depth goes down in each round (`scan_weight`).

Where each token is followed by `/`, `.` or the end of its text, no value can go on in the text
around it, and the depth is exact: if it has no bound, there is a token of unbounded depth after
every pass, and the expansion does not end (`not_expands_of_unbounded`).
-/

namespace Nidas.Core

/-! ## The tokens that can begin at a dollar sign -/

/-- What follows the dollar signs of a text. -/
def dollars : Text → List Text
  | [] => []
  | c :: rest => if c = '$' then rest :: dollars rest else dollars rest

/-- A token whose name begins with `first`, before something that ends the name or the text. -/
def CanGoOn (goesOn : Bool) (first name : Text) : Text → Prop
  | [] => if goesOn then first <+: name else name = first
  | c :: _ => if c = '$' then first <+: name else name = first

/-- A token can begin before `after`; `goesOn` tells whether more text may come behind it. -/
def CanStart (goesOn : Bool) (after name : Text) : Prop :=
  match after with
  | '{' :: body =>
      if '}' ∈ body then name = body.takeWhile (· ≠ '}') else goesOn = true ∧ body <+: name
  | after =>
      CanGoOn goesOn (after.takeWhile fun c => !endsToken c) name
        (after.dropWhile fun c => !endsToken c)

/-- A character that separates tokens from what follows. -/
def Separates (c : Char) : Prop := c = '/' ∨ c = '.'

/-- The beginning of a token without braces. -/
structure IsStart (first : Text) : Prop where
  inside : ∀ c ∈ first, endsToken c = false
  noBrace : first.head? ≠ some '{'

/-- What a text looks like behind a dollar sign. -/
inductive Shape : Text → Prop where
  | braced (name rest : Text) (hname : '}' ∉ name) : Shape ('{' :: (name ++ '}' :: rest))
  | unclosed (body : Text) (hbody : '}' ∉ body) : Shape ('{' :: body)
  | ended (first : Text) (hfirst : IsStart first) : Shape first
  | dollar (first rest : Text) (hfirst : IsStart first) : Shape (first ++ '$' :: rest)
  | separated (first : Text) (c : Char) (rest : Text) (hfirst : IsStart first)
      (hc : Separates c) : Shape (first ++ c :: rest)

theorem endsToken_iff {c : Char} : endsToken c = true ↔ c = '$' ∨ Separates c := by
  unfold endsToken Separates
  simp only [Bool.or_eq_true, decide_eq_true_eq]
  constructor
  · rintro ((h | h) | h)
    · exact .inr (.inl h)
    · exact .inr (.inr h)
    · exact .inl h
  · rintro (h | h | h)
    · exact .inr h
    · exact .inl (.inl h)
    · exact .inl (.inr h)

theorem Separates.endsToken {c : Char} (hc : Separates c) : endsToken c = true :=
  endsToken_iff.mpr (.inr hc)

theorem Separates.ne_dollar {c : Char} (hc : Separates c) : c ≠ '$' := by
  rcases hc with rfl | rfl <;> decide

theorem IsStart.dollar_notMem {first : Text} (hfirst : IsStart first) : '$' ∉ first := fun hmem =>
  absurd (hfirst.inside '$' hmem) (by decide)

/-- A text up to the first character that ends a token. -/
theorem split_start (text : Text) :
    ∃ first rest, text = first ++ rest ∧ (∀ c ∈ first, endsToken c = false) ∧
      ∀ c ∈ rest.head?, endsToken c = true := by
  refine ⟨text.takeWhile (fun c => !endsToken c), text.dropWhile (fun c => !endsToken c),
    (List.takeWhile_append_dropWhile).symm, ?_, ?_⟩
  · intro c hc
    simpa using List.mem_takeWhile_imp hc
  · intro c hc
    have hhead := List.head?_dropWhile_not (fun c => !endsToken c) text
    rw [Option.mem_def.mp hc] at hhead
    simpa using hhead

theorem shape (text : Text) : Shape text := by
  by_cases hhead : text.head? = some '{'
  · obtain ⟨body, rfl⟩ : ∃ body, text = '{' :: body := by
      cases text with
      | nil => cases hhead
      | cons c body =>
          cases hhead
          exact ⟨body, rfl⟩
    by_cases hbrace : '}' ∈ body
    · obtain ⟨name, rest, rfl, hname, -⟩ := split_brace hbrace
      exact .braced name rest hname
    · exact .unclosed body hbrace
  · obtain ⟨first, rest, rfl, hinside, hrest⟩ := split_start text
    have hfirst : IsStart first := by
      refine ⟨hinside, ?_⟩
      cases first with
      | nil => simp
      | cons c first => exact hhead
    cases rest with
    | nil =>
        rw [List.append_nil]
        exact .ended first hfirst
    | cons c rest =>
        rcases endsToken_iff.mp (hrest c rfl) with rfl | hsep
        · exact .dollar first rest hfirst
        · exact .separated first c rest hfirst hsep

/-! ## Which tokens can begin, shape by shape -/

section

variable {goesOn : Bool} {name : Text}

theorem canStart_braced {body rest : Text} (hbody : '}' ∉ body) :
    CanStart goesOn ('{' :: (body ++ '}' :: rest)) name ↔ name = body := by
  have hmem : '}' ∈ body ++ '}' :: rest := by simp
  obtain ⟨body', rest', heq, hbody', htake, -⟩ := split_brace hmem
  have hsame : body' = body := by
    rcases List.append_eq_append_iff.mp heq with ⟨mid, hmid, hrest⟩ | ⟨mid, hmid, hrest⟩
    · cases mid with
      | nil => simpa using hmid
      | cons c mid =>
          rw [List.cons_append, List.cons_eq_cons] at hrest
          exact absurd (hmid ▸ List.mem_append_right body (hrest.1 ▸ List.mem_cons_self)) hbody'
    · cases mid with
      | nil => simpa using hmid.symm
      | cons c mid =>
          rw [List.cons_append, List.cons_eq_cons] at hrest
          exact absurd (hmid ▸ List.mem_append_right body' (hrest.1 ▸ List.mem_cons_self)) hbody
  show (if '}' ∈ body ++ '}' :: rest then name = (body ++ '}' :: rest).takeWhile (· ≠ '}')
    else goesOn = true ∧ body ++ '}' :: rest <+: name) ↔ name = body
  rw [if_pos hmem, htake, hsame]

theorem canStart_unclosed {body : Text} (hbody : '}' ∉ body) :
    CanStart goesOn ('{' :: body) name ↔ goesOn = true ∧ body <+: name := by
  show (if '}' ∈ body then name = body.takeWhile (· ≠ '}') else goesOn = true ∧ body <+: name) ↔ _
  rw [if_neg hbody]

theorem canStart_plain {first rest : Text} (hfirst : IsStart first)
    (hrest : ∀ c ∈ rest.head?, endsToken c = true) :
    CanStart goesOn (first ++ rest) name ↔ CanGoOn goesOn first name rest := by
  obtain ⟨htake, hdrop⟩ := takeWhile_append_of_stop hfirst.inside hrest
  unfold CanStart
  split
  · rename_i body heq
    cases first with
    | nil =>
        cases rest with
        | nil => cases heq
        | cons c rest =>
            rw [List.nil_append, List.cons_eq_cons] at heq
            have hc := hrest c rfl
            rw [heq.1] at hc
            cases hc
    | cons c first =>
        rw [List.cons_append, List.cons_eq_cons] at heq
        exact absurd (congrArg some heq.1) hfirst.noBrace
  · rw [htake, hdrop]

theorem canStart_ended {first : Text} (hfirst : IsStart first) :
    CanStart goesOn first name ↔ if goesOn then first <+: name else name = first := by
  have hplain := @canStart_plain goesOn name first [] hfirst (fun c hc => by cases hc)
  rwa [List.append_nil] at hplain

theorem canStart_dollar {first rest : Text} (hfirst : IsStart first) :
    CanStart goesOn (first ++ '$' :: rest) name ↔ first <+: name := by
  rw [canStart_plain hfirst fun c hc => by
    cases hc
    rfl]
  show (if '$' = '$' then first <+: name else name = first) ↔ _
  rw [if_pos rfl]

theorem canStart_separated {first rest : Text} {c : Char} (hfirst : IsStart first)
    (hc : Separates c) : CanStart goesOn (first ++ c :: rest) name ↔ name = first := by
  rw [canStart_plain hfirst fun d hd => by
    cases hd
    exact hc.endsToken]
  show (if c = '$' then first <+: name else name = first) ↔ _
  rw [if_neg hc.ne_dollar]

/-- A token that begins before `first` has a name that begins so, whatever follows. -/
theorem prefix_of_canStart {first rest : Text} (hfirst : IsStart first)
    (hstart : CanStart goesOn (first ++ rest) name) : first <+: name := by
  cases hempty : first with
  | nil => exact List.nil_prefix
  | cons d first' =>
      rw [← hempty]
      have hhead : ∀ tail : Text, (first ++ tail).head? = some d := by
        intro tail
        rw [hempty]
        rfl
      have hd : d ≠ '{' := by
        rintro rfl
        exact hfirst.noBrace (by rw [hempty]; rfl)
      have hnotBrace : ∀ body, first ++ rest ≠ '{' :: body := by
        intro body heq
        have := hhead rest
        rw [heq] at this
        exact hd (Option.some.inj this).symm
      unfold CanStart at hstart
      split at hstart
      · rename_i body heq
        exact absurd heq (hnotBrace body)
      · have htake : first <+: (first ++ rest).takeWhile (fun c => !endsToken c) := by
          rw [List.takeWhile_append_of_pos fun c hc => by simp [hfirst.inside c hc]]
          exact List.prefix_append _ _
        unfold CanGoOn at hstart
        split at hstart
        all_goals
          split at hstart
          · exact htake.trans hstart
          · exact hstart ▸ htake

/-- What can begin in a text with more text behind it, could begin before that was known. -/
theorem canStart_of_append {after cont : Text} (hstart : CanStart false (after ++ cont) name) :
    CanStart true after name := by
  cases shape after with
  | braced body rest hbody =>
      rw [List.cons_append, List.append_assoc, List.cons_append, canStart_braced hbody] at hstart
      exact (canStart_braced hbody).mpr hstart
  | unclosed body hbody =>
      rw [canStart_unclosed hbody, and_iff_right rfl]
      rw [List.cons_append] at hstart
      by_cases hclosed : '}' ∈ body ++ cont
      · obtain ⟨closed, rest, heq, hnot, -⟩ := split_brace hclosed
        rw [heq, canStart_braced hnot] at hstart
        rw [hstart]
        rcases List.append_eq_append_iff.mp heq with ⟨mid, hmid, -⟩ | ⟨mid, hmid, hrest⟩
        · exact ⟨mid, hmid.symm⟩
        · cases mid with
          | nil => exact ⟨[], by simpa using hmid⟩
          | cons c mid =>
              rw [List.cons_append, List.cons_eq_cons] at hrest
              have hmem : '}' ∈ closed ++ c :: mid :=
                List.mem_append_right closed (hrest.1 ▸ List.mem_cons_self)
              exact absurd (hmid ▸ hmem) hbody
      · rw [canStart_unclosed hclosed] at hstart
        cases hstart.1
  | ended first hfirst =>
      exact (canStart_ended hfirst).mpr (prefix_of_canStart hfirst hstart)
  | dollar first rest hfirst =>
      rw [List.append_assoc, List.cons_append, canStart_dollar hfirst] at hstart
      exact (canStart_dollar hfirst).mpr hstart
  | separated first c rest hfirst hc =>
      rw [List.append_assoc, List.cons_append, canStart_separated hfirst hc] at hstart
      exact (canStart_separated hfirst hc).mpr hstart

end

/-! ## What a pass does not change -/

variable (table : TokenTable)

/-- A pass keeps the text up to the first dollar sign. -/
theorem scan_append {before : Text} (hbefore : '$' ∉ before) (text : Text) :
    (scan table (before ++ text)).1 = before ++ (scan table text).1 := by
  have hmem : ∀ {other : Text}, '$' ∉ other → '$' ∉ before ++ other := by
    intro other hother hmem
    rcases List.mem_append.mp hmem with h | h
    · exact hbefore h
    · exact hother h
  cases text using text_induction with
  | plain text htext =>
      rw [scan_of_notMem table (hmem htext), scan_of_notMem table htext]
  | unclosed other after hother hread =>
      rw [← List.append_assoc, scan_of_none table (hmem hother) hread,
        scan_of_none table hother hread, List.append_assoc]
  | token other src name rest hother htoken _ =>
      rw [← List.append_assoc, scan_of_isToken table (hmem hother) htoken,
        scan_of_isToken table hother htoken]
      cases tokenValue table name with
      | none => simp only [List.append_assoc]
      | some value => simp only [List.append_assoc]

/-- What comes behind a token that is kept: its first characters are kept too, up to a dollar
sign. -/
theorem canStart_of_kept {x next name : Text}
    (hx : '}' ∈ x ∨ (IsStart x ∧ ∀ c ∈ next.head?, endsToken c = true))
    (hstart : CanStart false (x ++ (scan table next).1) name) :
    CanStart false (x ++ next) name := by
  cases hshape : shape x with
  | braced body rest hbody =>
      rw [List.cons_append, List.append_assoc, List.cons_append, canStart_braced hbody]
        at hstart ⊢
      exact hstart
  | unclosed body hbody =>
      rcases hx with hclosed | ⟨hfirst, -⟩
      · rcases List.mem_cons.mp hclosed with heq | hmem
        · cases heq
        · exact absurd hmem hbody
      · exact absurd rfl hfirst.noBrace
  | dollar first rest hfirst =>
      rw [List.append_assoc, List.cons_append, canStart_dollar hfirst] at hstart ⊢
      exact hstart
  | separated first c rest hfirst hc =>
      rw [List.append_assoc, List.cons_append, canStart_separated hfirst hc] at hstart ⊢
      exact hstart
  | ended first hfirst =>
      -- the characters of the name go on into what follows
      obtain ⟨more, rest, rfl, hinside, hrest⟩ := split_start next
      have hmore : '$' ∉ more := fun hmem => absurd (hinside '$' hmem) (by decide)
      have hjoin : IsStart (x ++ more) := by
        constructor
        · intro c hc
          rcases List.mem_append.mp hc with h | h
          · exact hfirst.inside c h
          · exact hinside c h
        · cases hempty : x with
          | cons c x' =>
              have hbrace := hfirst.noBrace
              rw [hempty] at hbrace
              exact hbrace
          | nil =>
              rcases hx with hclosed | ⟨-, hstop⟩
              · rw [hempty] at hclosed
                cases hclosed
              · cases more with
                | nil => simp
                | cons c more =>
                    have hc := hstop c rfl
                    rw [hinside c List.mem_cons_self] at hc
                    cases hc
      rw [scan_append table hmore, ← List.append_assoc] at hstart
      rw [← List.append_assoc]
      cases rest with
      | nil =>
          rw [scan_of_notMem table List.not_mem_nil] at hstart
          exact hstart
      | cons c rest =>
          rcases endsToken_iff.mp (hrest c rfl) with rfl | hc
          · exact (canStart_dollar hjoin).mpr (prefix_of_canStart hjoin hstart)
          · have hscan : (scan table (c :: rest)).1 = c :: (scan table rest).1 :=
              @scan_append table [c] (by simpa using Ne.symm hc.ne_dollar) rest
            rw [hscan, canStart_separated hjoin hc] at hstart
            exact (canStart_separated hjoin hc).mpr hstart

/-! ## Depth -/

section

variable (joins : Bool)

/-- The values of the tokens that can begin at a dollar sign nest at most `n` deep; `joins` tells
whether a value may go on in the text around it. -/
def AtMost : ℕ → Bool → Text → Prop
  | 0, goesOn, after => ∀ name value, tokenValue table name = some value →
      ¬CanStart goesOn after name
  | n + 1, goesOn, after => ∀ name value, tokenValue table name = some value →
      CanStart goesOn after name → ∀ inner ∈ dollars value, AtMost n joins inner

/-- The values in a string do not nest without end. -/
def Nests (text : Text) : Prop := ∃ n, ∀ after ∈ dollars text, AtMost table joins n false after

variable {table joins}

theorem AtMost.mono {n : ℕ} {goesOn goesOn' : Bool} {after after' : Text}
    (hsub : ∀ name, CanStart goesOn' after' name → CanStart goesOn after name)
    (h : AtMost table joins n goesOn after) : AtMost table joins n goesOn' after' := by
  cases n with
  | zero =>
      intro name value hvalue hstart
      exact h name value hvalue (hsub name hstart)
  | succ n =>
      intro name value hvalue hstart
      exact h name value hvalue (hsub name hstart)

theorem AtMost.succ {n : ℕ} : ∀ {goesOn : Bool} {after : Text},
    AtMost table joins n goesOn after → AtMost table joins (n + 1) goesOn after := by
  induction n with
  | zero =>
      intro goesOn after h name value hvalue hstart
      exact absurd hstart (h name value hvalue)
  | succ n ih =>
      intro goesOn after h name value hvalue hstart inner hinner
      exact ih (h name value hvalue hstart inner hinner)

theorem AtMost.le {n m : ℕ} {goesOn : Bool} {after : Text} (hle : n ≤ m)
    (h : AtMost table joins n goesOn after) : AtMost table joins m goesOn after := by
  induction m, hle using Nat.le_induction with
  | base => exact h
  | succ m _ ih => exact ih.succ

variable (table joins)

/-- How deep the values nest at a dollar sign. -/
noncomputable def depth (goesOn : Bool) (after : Text) : ℕ :=
  sInf { n | AtMost table joins n goesOn after }

variable {table joins}

theorem atMost_depth {n : ℕ} {goesOn : Bool} {after : Text}
    (h : AtMost table joins n goesOn after) :
    AtMost table joins (depth table joins goesOn after) goesOn after :=
  Nat.sInf_mem (s := { n | AtMost table joins n goesOn after }) ⟨n, h⟩

theorem depth_le {n : ℕ} {goesOn : Bool} {after : Text}
    (h : AtMost table joins n goesOn after) : depth table joins goesOn after ≤ n :=
  Nat.sInf_le h

theorem depth_mono {goesOn goesOn' : Bool} {after after' : Text} {n : ℕ}
    (h : AtMost table joins n goesOn after)
    (hsub : ∀ name, CanStart goesOn' after' name → CanStart goesOn after name) :
    depth table joins goesOn' after' ≤ depth table joins goesOn after :=
  depth_le ((atMost_depth h).mono hsub)

end

/-! ## Tokens that are separated from what follows -/

/-- The text is empty, or it begins with a separator. -/
def Follows (rest : Text) : Prop := ∀ c ∈ rest.head?, Separates c

/-- The token before `after` has a separator behind it, or the text ends there. -/
def Separated (after : Text) : Prop :=
  ∃ src name rest, after = src ++ rest ∧ IsToken src name rest ∧ '$' ∉ src ∧ Follows rest

/-- All tokens of a text are separated from what follows. -/
def AllSeparated (text : Text) : Prop := ∀ after ∈ dollars text, Separated after

theorem Follows.append {rest cont : Text} (hrest : Follows rest) (hcont : Follows cont) :
    Follows (rest ++ cont) := by
  cases rest with
  | nil => exact hcont
  | cons c rest => exact hrest

theorem IsToken.of_follows {src name rest other : Text} (htoken : IsToken src name rest)
    (hother : Follows other) : IsToken src name other := by
  cases htoken with
  | braced name rest hname => exact .braced name other hname
  | plain name rest hname hrest hbrace =>
      exact .plain src other hname (fun c hc => (hother c hc).endsToken) hbrace

theorem Separated.append {after cont : Text} (hafter : Separated after) (hcont : Follows cont) :
    Separated (after ++ cont) := by
  obtain ⟨src, name, rest, rfl, htoken, hsrc, hrest⟩ := hafter
  have hfollows := hrest.append hcont
  exact ⟨src, name, rest ++ cont, List.append_assoc _ _ _, htoken.of_follows hfollows, hsrc,
    hfollows⟩

/-- A token can begin where it is. -/
theorem IsToken.canStart {src name rest : Text} (htoken : IsToken src name rest) :
    CanStart false (src ++ rest) name := by
  cases htoken with
  | braced name rest hname =>
      rw [List.cons_append, List.cons_append, List.append_assoc]
      exact (canStart_braced hname).mpr rfl
  | plain name rest hname hstop hbrace =>
      apply (canStart_plain ⟨hname, hbrace⟩ hstop).mpr
      unfold CanGoOn
      split
      · rfl
      · split
        · exact List.prefix_refl src
        · rfl

/-- Only one token can begin before a text where it is separated. -/
theorem canStart_of_isToken {src name rest other : Text} (htoken : IsToken src name rest)
    (hrest : Follows rest) : CanStart false (src ++ rest) other ↔ other = name := by
  cases htoken with
  | braced name rest hname =>
      rw [List.cons_append, List.cons_append, List.append_assoc]
      exact canStart_braced hname
  | plain name rest hname hstop hbrace =>
      have hfirst : IsStart src := ⟨hname, hbrace⟩
      cases rest with
      | nil =>
          rw [List.append_nil, canStart_ended hfirst]
          exact Iff.rfl
      | cons c rest => exact canStart_separated hfirst (hrest c rfl)

theorem canStart_append_of_separated {after cont : Text} (hafter : Separated after)
    (hcont : Follows cont) (name : Text) :
    CanStart false (after ++ cont) name ↔ CanStart false after name := by
  obtain ⟨src, name', rest, rfl, htoken, -, hrest⟩ := hafter
  have hfollows := hrest.append hcont
  rw [List.append_assoc, canStart_of_isToken (htoken.of_follows hfollows) hfollows,
    canStart_of_isToken htoken hrest]

/-! ## The dollar signs of a text -/

@[simp] theorem dollars_nil : dollars [] = [] := rfl

theorem dollars_dollar (rest : Text) : dollars ('$' :: rest) = rest :: dollars rest := if_pos rfl

theorem dollars_append (first second : Text) :
    dollars (first ++ second) = (dollars first).map (· ++ second) ++ dollars second := by
  induction first with
  | nil => rfl
  | cons c first ih =>
      rw [List.cons_append, dollars, dollars, ih]
      split <;> rfl

theorem dollars_of_notMem {text : Text} (htext : '$' ∉ text) : dollars text = [] := by
  induction text with
  | nil => rfl
  | cons c text ih =>
      rw [List.mem_cons, not_or] at htext
      rw [dollars, if_neg (Ne.symm htext.1), ih htext.2]

/-- What follows a dollar sign in a text, is some end of the text. -/
theorem suffix_of_mem_dollars {text after : Text} (hmem : after ∈ dollars text) :
    after <:+ text := by
  induction text with
  | nil => cases hmem
  | cons c text ih =>
      rw [dollars] at hmem
      split at hmem
      · rcases List.mem_cons.mp hmem with rfl | h
        · exact List.suffix_cons _ _
        · exact (ih h).trans (List.suffix_cons _ _)
      · exact (ih hmem).trans (List.suffix_cons _ _)

/-- The dollar signs of a text with a token in it. -/
theorem dollars_token {before : Text} (hbefore : '$' ∉ before) (src rest : Text) :
    dollars (before ++ '$' :: (src ++ rest)) =
      (src ++ rest) :: ((dollars src).map (· ++ rest) ++ dollars rest) := by
  rw [dollars_append, dollars_of_notMem hbefore, dollars_dollar, dollars_append]
  rfl

/-- The dollar signs of a text with a value in it. -/
theorem dollars_value {before : Text} (hbefore : '$' ∉ before) (value rest : Text) :
    dollars (before ++ (value ++ rest)) =
      (dollars value).map (· ++ rest) ++ dollars rest := by
  rw [dollars_append, dollars_of_notMem hbefore, dollars_append]
  rfl

/-- The dollar signs of a token's characters come before a brace. -/
theorem IsToken.kept {src name rest : Text} (htoken : IsToken src name rest) :
    ∀ x, x = src ∨ x ∈ dollars src →
      '}' ∈ x ∨ (IsStart x ∧ ∀ c ∈ rest.head?, endsToken c = true) := by
  intro x hx
  cases htoken with
  | braced name rest hname =>
      left
      rcases hx with rfl | hmem
      · simp
      · obtain ⟨before, hbefore⟩ := suffix_of_mem_dollars hmem
        have hne : x ≠ [] := by
          rintro rfl
          have hdollar : dollars ('{' :: name ++ ['}'])
              = (dollars ('{' :: name)).map (· ++ ['}']) ++ dollars ['}'] := dollars_append _ _
          rw [hdollar] at hmem
          rcases List.mem_append.mp hmem with h | h
          · obtain ⟨y, -, hy⟩ := List.mem_map.mp h
            exact absurd (congrArg List.length hy) (by simp)
          · exact absurd h (by decide)
        have hlast := congrArg List.getLast? hbefore
        rw [List.getLast?_append_of_ne_nil _ hne,
          List.getLast?_append_of_ne_nil _ (by simp)] at hlast
        exact List.mem_of_getLast? hlast
  | plain name rest hname hstop hbrace =>
      right
      have hfirst : IsStart src := ⟨hname, hbrace⟩
      rcases hx with rfl | hmem
      · exact ⟨hfirst, hstop⟩
      · rw [dollars_of_notMem hfirst.dollar_notMem] at hmem
        cases hmem

/-! ## Separated tokens stay separated -/

variable {table}

theorem separated_of_isToken {src name rest : Text} (htoken : IsToken src name rest)
    (hsep : Separated (src ++ rest)) : '$' ∉ src ∧ Follows rest := by
  obtain ⟨src', name', rest', heq, htoken', hsrc, hrest⟩ := hsep
  have hread := readToken_of_isToken htoken
  rw [heq, readToken_of_isToken htoken'] at hread
  cases hread
  exact ⟨hsrc, hrest⟩

/-- The parts of a text with a token in it, if all tokens are separated. -/
theorem AllSeparated.token {before src name rest : Text} (hbefore : '$' ∉ before)
    (htoken : IsToken src name rest) (hsep : AllSeparated (before ++ '$' :: (src ++ rest))) :
    '$' ∉ src ∧ Follows rest ∧ AllSeparated rest := by
  unfold AllSeparated at hsep
  rw [dollars_token hbefore] at hsep
  obtain ⟨hsrc, hrest⟩ := separated_of_isToken htoken (hsep _ List.mem_cons_self)
  refine ⟨hsrc, hrest, ?_⟩
  intro after hafter
  exact hsep after (List.mem_cons_of_mem _ (List.mem_append_right _ hafter))

theorem follows_scan {rest : Text} (hrest : Follows rest) : Follows (scan table rest).1 := by
  cases rest with
  | nil =>
      rw [scan_of_notMem table List.not_mem_nil]
      exact hrest
  | cons c rest =>
      have hc := hrest c rfl
      have hscan : (scan table (c :: rest)).1 = c :: (scan table rest).1 :=
        @scan_append table [c] (by simpa using Ne.symm hc.ne_dollar) rest
      rw [hscan]
      exact hrest

/-- The values of a table have only separated tokens. -/
def SeparatedValues (table : TokenTable) : Prop :=
  ∀ name value, tokenValue table name = some value → AllSeparated value

theorem AllSeparated.scan (hvalues : SeparatedValues table) {text : Text}
    (hsep : AllSeparated text) : AllSeparated (scan table text).1 := by
  induction text using text_induction with
  | plain text htext =>
      rw [scan_of_notMem table htext]
      exact hsep
  | unclosed before after hbefore hread =>
      rw [scan_of_none table hbefore hread]
      exact hsep
  | token before src name rest hbefore htoken ih =>
      obtain ⟨hsrc, hrest, hsepRest⟩ := hsep.token hbefore htoken
      have hfollows := @follows_scan table rest hrest
      have htail := ih hsepRest
      rw [scan_of_isToken table hbefore htoken]
      cases hvalue : tokenValue table name with
      | none =>
          intro after hafter
          dsimp only at hafter
          rw [List.append_assoc, List.cons_append, dollars_token hbefore,
            dollars_of_notMem hsrc] at hafter
          rcases List.mem_cons.mp hafter with rfl | h
          · exact ⟨src, name, _, rfl, htoken.of_follows hfollows, hsrc, hfollows⟩
          · exact htail after h
      | some value =>
          intro after hafter
          dsimp only at hafter
          rw [List.append_assoc, dollars_value hbefore] at hafter
          rcases List.mem_append.mp hafter with h | h
          · obtain ⟨inner, hinner, rfl⟩ := List.mem_map.mp h
            exact (hvalues name value hvalue inner hinner).append hfollows
          · exact htail after h

/-! ## A pass makes the text lighter -/

section

variable (table) (joins : Bool) (base : ℕ)

/-- The weight of a dollar sign. -/
noncomputable def weight (after : Text) : ℕ := (base + 1) ^ depth table joins false after

/-- The weight of all dollar signs of a text. -/
noncomputable def totalWeight (text : Text) : ℕ :=
  ((dollars text).map (weight table joins base)).sum

/-- Either values may go on in the text around them, or no token can. -/
def Unjoined (text : Text) : Prop :=
  joins = true ∨ (SeparatedValues table ∧ AllSeparated text)

variable {table joins base}

theorem Unjoined.scan {text : Text} (hjoin : Unjoined table joins text) :
    Unjoined table joins (scan table text).1 :=
  hjoin.imp_right fun h => ⟨h.1, h.2.scan h.1⟩

/-- In its place, a value can begin the tokens that it was known to begin. -/
theorem canStart_of_value {before src name rest value inner : Text} (hbefore : '$' ∉ before)
    (htoken : IsToken src name rest)
    (hjoin : Unjoined table joins (before ++ '$' :: (src ++ rest)))
    (hvalue : tokenValue table name = some value) (hinner : inner ∈ dollars value)
    (other : Text) (hstart : CanStart false (inner ++ (scan table rest).1) other) :
    CanStart joins inner other := by
  rcases hjoin with rfl | ⟨hvalues, hsep⟩
  · exact canStart_of_append hstart
  · have hinnerStart := (canStart_append_of_separated (hvalues name value hvalue inner hinner)
      (follows_scan (hsep.token hbefore htoken).2.1) other).mp hstart
    cases joins with
    | false => exact hinnerStart
    | true =>
        rw [← List.append_nil inner] at hinnerStart
        exact canStart_of_append hinnerStart

/-- The dollar signs of a value weigh less than that of its token. -/
theorem value_weight {d : ℕ} {value cont : Text} (hbase : (dollars value).length ≤ base)
    (hdepth : ∀ inner ∈ dollars value, depth table joins false (inner ++ cont) ≤ d) :
    ((dollars value).map fun inner => weight table joins base (inner ++ cont)).sum
      < (base + 1) ^ (d + 1) := by
  have hpos : 0 < (base + 1) ^ d := Nat.pow_pos (Nat.succ_pos base)
  calc ((dollars value).map fun inner => weight table joins base (inner ++ cont)).sum
      ≤ ((dollars value).map fun inner => weight table joins base (inner ++ cont)).length
          * (base + 1) ^ d := by
        have hsum := List.sum_le_card_nsmul
          ((dollars value).map fun inner => weight table joins base (inner ++ cont))
          ((base + 1) ^ d) (by
            intro w hw
            obtain ⟨inner, hinner, rfl⟩ := List.mem_map.mp hw
            exact Nat.pow_le_pow_right (Nat.succ_pos base) (hdepth inner hinner))
        simpa using hsum
    _ ≤ base * (base + 1) ^ d := by
        rw [List.length_map]
        exact Nat.mul_le_mul_right _ hbase
    _ < (base + 1) * (base + 1) ^ d := Nat.mul_lt_mul_of_pos_right (Nat.lt_succ_self base) hpos
    _ = (base + 1) ^ (d + 1) := by ring

/-- A pass keeps the bound on the depth and makes the text lighter if it replaces a token. -/
theorem scan_weight {n : ℕ}
    (hbase : ∀ name value, tokenValue table name = some value → (dollars value).length ≤ base)
    {text : Text} (hjoin : Unjoined table joins text)
    (hdepth : ∀ after ∈ dollars text, AtMost table joins n false after) :
    (∀ after ∈ dollars (scan table text).1, AtMost table joins n false after) ∧
      totalWeight table joins base (scan table text).1 ≤ totalWeight table joins base text ∧
      ((scan table text).2 = true →
        totalWeight table joins base (scan table text).1 < totalWeight table joins base text) := by
  induction text using text_induction with
  | plain text htext =>
      rw [scan_of_notMem table htext]
      exact ⟨hdepth, le_rfl, fun h => by cases h⟩
  | unclosed before after hbefore hread =>
      rw [scan_of_none table hbefore hread]
      exact ⟨hdepth, le_rfl, fun h => by cases h⟩
  | token before src name rest hbefore htoken ih =>
      have hstart := htoken.canStart
      have hjoinRest : Unjoined table joins rest :=
        hjoin.imp_right fun h => ⟨h.1, (h.2.token hbefore htoken).2.2⟩
      have hhere := hdepth
      rw [dollars_token hbefore] at hhere
      obtain ⟨htailDepth, htailWeight, htailLess⟩ := ih hjoinRest fun after hafter =>
        hhere after (List.mem_cons_of_mem _ (List.mem_append_right _ hafter))
      have hfirst := hhere _ List.mem_cons_self
      have htext : totalWeight table joins base (before ++ '$' :: (src ++ rest)) =
          weight table joins base (src ++ rest) +
            (((dollars src).map fun x => weight table joins base (x ++ rest)).sum +
              totalWeight table joins base rest) := by
        unfold totalWeight
        rw [dollars_token hbefore, List.map_cons, List.map_append, List.map_map, List.sum_cons,
          List.sum_append]
        rfl
      rw [scan_of_isToken table hbefore htoken]
      cases hvalue : tokenValue table name with
      | none =>
          -- each dollar sign is kept, and no other tokens can begin there
          have hkept : ∀ x, x = src ∨ x ∈ dollars src → ∀ other,
              CanStart false (x ++ (scan table rest).1) other → CanStart false (x ++ rest) other :=
            fun x hx _ h => canStart_of_kept table (htoken.kept x hx) h
          have hmem : ∀ x, x = src ∨ x ∈ dollars src → AtMost table joins n false (x ++ rest) := by
            rintro x (rfl | hx)
            · exact hfirst
            · exact hhere _ (List.mem_cons_of_mem _
                (List.mem_append_left _ (List.mem_map_of_mem hx)))
          have hlighter : ∀ x, x = src ∨ x ∈ dollars src →
              weight table joins base (x ++ (scan table rest).1)
                ≤ weight table joins base (x ++ rest) := fun x hx =>
            Nat.pow_le_pow_right (Nat.succ_pos base) (depth_mono (hmem x hx) (hkept x hx))
          have hscan : totalWeight table joins base
              (before ++ '$' :: (src ++ (scan table rest).1)) =
              weight table joins base (src ++ (scan table rest).1) +
                (((dollars src).map fun x =>
                  weight table joins base (x ++ (scan table rest).1)).sum +
                  totalWeight table joins base (scan table rest).1) := by
            unfold totalWeight
            rw [dollars_token hbefore, List.map_cons, List.map_append, List.map_map,
              List.sum_cons, List.sum_append]
            rfl
          have hsum : ((dollars src).map fun x =>
              weight table joins base (x ++ (scan table rest).1)).sum
              ≤ ((dollars src).map fun x => weight table joins base (x ++ rest)).sum :=
            List.sum_le_sum fun x hx => hlighter x (.inr hx)
          have hsrc := hlighter src (.inl rfl)
          dsimp only
          rw [List.append_assoc, List.cons_append, hscan, htext]
          refine ⟨?_, by omega, fun h => ?_⟩
          · intro after hafter
            rw [dollars_token hbefore] at hafter
            rcases List.mem_cons.mp hafter with rfl | h
            · exact (hmem src (.inl rfl)).mono (hkept src (.inl rfl))
            · rcases List.mem_append.mp h with h | h
              · obtain ⟨x, hx, rfl⟩ := List.mem_map.mp h
                exact (hmem x (.inr hx)).mono (hkept x (.inr hx))
              · exact htailDepth after h
          · have hless := htailLess h
            omega
      | some value =>
          -- the dollar signs of the value nest less deep than the token did
          have hinside : ∀ inner ∈ dollars value, ∀ other,
              CanStart false (inner ++ (scan table rest).1) other → CanStart joins inner other :=
            fun inner hinner other => canStart_of_value hbefore htoken hjoin hvalue hinner other
          obtain ⟨k, hk⟩ : ∃ k, depth table joins false (src ++ rest) = k + 1 := by
            cases hd : depth table joins false (src ++ rest) with
            | zero =>
                have hzero := atMost_depth hfirst
                rw [hd] at hzero
                exact absurd hstart (hzero name value hvalue)
            | succ k => exact ⟨k, rfl⟩
          have hinner : ∀ inner ∈ dollars value,
              AtMost table joins k false (inner ++ (scan table rest).1) := by
            intro inner hmem
            have hdeep := atMost_depth hfirst
            rw [hk] at hdeep
            exact (hdeep name value hvalue hstart inner hmem).mono (hinside inner hmem)
          have hvalueWeight := value_weight (hbase name value hvalue) fun inner hmem =>
            depth_le (hinner inner hmem)
          have hscan : totalWeight table joins base (before ++ (value ++ (scan table rest).1)) =
              ((dollars value).map fun inner =>
                weight table joins base (inner ++ (scan table rest).1)).sum +
                totalWeight table joins base (scan table rest).1 := by
            unfold totalWeight
            rw [dollars_value hbefore, List.map_append, List.map_map, List.sum_append]
            rfl
          have htoken' : weight table joins base (src ++ rest) = (base + 1) ^ (k + 1) := by
            unfold weight
            rw [hk]
          dsimp only
          rw [List.append_assoc, hscan, htext, htoken']
          refine ⟨?_, by omega, fun _ => by omega⟩
          intro after hafter
          rw [dollars_value hbefore] at hafter
          rcases List.mem_append.mp hafter with h | h
          · obtain ⟨inner, hmem, rfl⟩ := List.mem_map.mp h
            have hle : k ≤ n := by
              have := depth_le hfirst
              omega
            exact (hinner inner hmem).le hle
          · exact htailDepth after h

end

/-! ## The expansion ends -/

theorem mem_of_tokenValue {name value : Text} (hvalue : tokenValue table name = some value) :
    (name, value) ∈ table := by
  unfold tokenValue at hvalue
  split at hvalue
  · cases hvalue
  · induction table with
    | nil => cases hvalue
    | cons entry table ih =>
        obtain ⟨other, otherValue⟩ := entry
        rw [List.lookup_cons] at hvalue
        split at hvalue
        · rename_i heq
          cases hvalue
          rw [beq_iff_eq] at heq
          exact heq ▸ List.mem_cons_self
        · exact List.mem_cons_of_mem _ (ih hvalue)

theorem exists_base (table : TokenTable) : ∃ base, ∀ name value,
    tokenValue table name = some value → (dollars value).length ≤ base := by
  refine ⟨(table.map fun entry => (dollars entry.2).length).sum, ?_⟩
  intro name value hvalue
  exact List.single_le_sum (fun _ _ => Nat.zero_le _) _
    (List.mem_map.mpr ⟨(name, value), mem_of_tokenValue hvalue, rfl⟩)

theorem expands_of_nests {joins : Bool} {input : Text} (hjoin : Unjoined table joins input)
    (hnests : Nests table joins input) : ∃ result, Expands table input result := by
  obtain ⟨n, hn⟩ := hnests
  obtain ⟨base, hbase⟩ := exists_base table
  refine @Lib.ends_of_measure _ _ (expandRound table)
    (fun tmp => Unjoined table joins tmp ∧ ∀ after ∈ dollars tmp, AtMost table joins n false after)
    (totalWeight table joins base) ?_ input ⟨hjoin, hn⟩
  rintro tmp next ⟨htmp, hdepth⟩ hround
  obtain ⟨hdepth', -, hless⟩ := scan_weight hbase htmp hdepth
  unfold expandRound at hround
  dsimp only at hround
  split at hround
  · rename_i hsubstitute
    cases hround
    exact ⟨⟨htmp.scan, hdepth'⟩, hless hsubstitute⟩
  · cases hround

/-! ## The expansion does not end -/

section

variable {joins : Bool}

/-- A bound for each dollar sign of a text gives one for all of them. -/
theorem exists_atMost {goesOn : Bool} {texts : List Text}
    (heach : ∀ after ∈ texts, ∃ n, AtMost table joins n goesOn after) :
    ∃ n, ∀ after ∈ texts, AtMost table joins n goesOn after := by
  induction texts with
  | nil => exact ⟨0, fun _ hmem => by cases hmem⟩
  | cons first texts ih =>
      obtain ⟨n, hn⟩ := heach first List.mem_cons_self
      obtain ⟨m, hm⟩ := ih fun after hmem => heach after (List.mem_cons_of_mem _ hmem)
      refine ⟨max n m, ?_⟩
      intro after hmem
      rcases List.mem_cons.mp hmem with rfl | h
      · exact hn.le (le_max_left n m)
      · exact (hm after h).le (le_max_right n m)

end

/-- The values nest without end. -/
def Unbounded (table : TokenTable) (after : Text) : Prop :=
  ∀ n, ¬AtMost table false n false after

/-- If values nest without end at a token, the token is defined, and they do so at a dollar sign of
its value. -/
theorem exists_unbounded {src name rest : Text} (htoken : IsToken src name rest)
    (hrest : Follows rest) (hunbounded : Unbounded table (src ++ rest)) :
    ∃ value, tokenValue table name = some value ∧ ∃ inner ∈ dollars value,
      Unbounded table inner := by
  cases hvalue : tokenValue table name with
  | none =>
      refine absurd ?_ (hunbounded 0)
      intro other value hother hstart
      rw [(canStart_of_isToken htoken hrest).mp hstart, hvalue] at hother
      cases hother
  | some value =>
      refine ⟨value, rfl, ?_⟩
      by_contra hnone
      obtain ⟨n, hn⟩ : ∃ n, ∀ inner ∈ dollars value, AtMost table false n false inner := by
        apply exists_atMost
        intro inner hinner
        by_contra hall
        exact hnone ⟨inner, hinner, fun n hn => hall ⟨n, hn⟩⟩
      refine absurd ?_ (hunbounded (n + 1))
      intro other value' hother hstart inner hinner
      rw [(canStart_of_isToken htoken hrest).mp hstart, hvalue] at hother
      cases hother
      exact hn inner hinner

/-- A pass over a text where values nest without end replaces a token, and they still do. -/
theorem scan_unbounded (hvalues : SeparatedValues table) {text : Text} (hsep : AllSeparated text)
    {after : Text} (hafter : after ∈ dollars text) (hunbounded : Unbounded table after) :
    (scan table text).2 = true ∧
      ∃ after' ∈ dollars (scan table text).1, Unbounded table after' := by
  induction text using text_induction with
  | plain text htext =>
      rw [dollars_of_notMem htext] at hafter
      cases hafter
  | unclosed before other hbefore hread =>
      have hmem : other ∈ dollars (before ++ '$' :: other) := by
        rw [dollars_append, dollars_dollar]
        exact List.mem_append_right _ List.mem_cons_self
      obtain ⟨src, name, rest, rfl, htoken, -⟩ := hsep other hmem
      rw [readToken_of_isToken htoken] at hread
      cases hread
  | token before src name rest hbefore htoken ih =>
      obtain ⟨hsrc, hrest, hsepRest⟩ := hsep.token hbefore htoken
      rw [dollars_token hbefore, dollars_of_notMem hsrc] at hafter
      rw [scan_of_isToken table hbefore htoken]
      rcases List.mem_cons.mp hafter with rfl | hmem
      · obtain ⟨value, hvalue, inner, hinner, hdeep⟩ := exists_unbounded htoken hrest hunbounded
        rw [hvalue]
        refine ⟨rfl, inner ++ (scan table rest).1, ?_, ?_⟩
        · dsimp only
          rw [List.append_assoc, dollars_value hbefore]
          exact List.mem_append_left _ (List.mem_map_of_mem hinner)
        · intro n hn
          exact hdeep n (hn.mono fun other hother =>
            (canStart_append_of_separated (hvalues name value hvalue inner hinner)
              (follows_scan hrest) other).mpr hother)
      · obtain ⟨hsubstitute, after', hafter', hdeep⟩ := ih hsepRest hmem
        cases tokenValue table name with
        | none =>
            refine ⟨hsubstitute, after', ?_, hdeep⟩
            dsimp only
            rw [List.append_assoc, List.cons_append, dollars_token hbefore]
            exact List.mem_cons_of_mem _ (List.mem_append_right _ hafter')
        | some value =>
            refine ⟨rfl, after', ?_, hdeep⟩
            dsimp only
            rw [List.append_assoc, dollars_value hbefore]
            exact List.mem_append_right _ hafter'

theorem not_expands_of_unbounded (hvalues : SeparatedValues table) {input : Text}
    (hsep : AllSeparated input) (hnests : ¬Nests table false input) (result : Text) :
    ¬Expands table input result := by
  refine @Lib.not_ends_of_closed _ _ (expandRound table) input (fun tmp =>
    AllSeparated tmp ∧ ∃ after ∈ dollars tmp, Unbounded table after) ?_ ⟨hsep, ?_⟩ result
  · rintro tmp ⟨htmp, after, hafter, hdeep⟩
    obtain ⟨hsubstitute, hnext⟩ := scan_unbounded hvalues htmp hafter hdeep
    refine ⟨(scan table tmp).1, ?_, htmp.scan hvalues, hnext⟩
    unfold expandRound
    exact if_pos hsubstitute
  · by_contra hnone
    apply hnests
    apply exists_atMost
    intro after hafter
    by_contra hall
    exact hnone ⟨after, hafter, fun n hn => hall ⟨n, hn⟩⟩

end Nidas.Core
