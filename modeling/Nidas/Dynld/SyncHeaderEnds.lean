import Nidas.Dynld.SyncHeader
import Nidas.Lib.Outcome

/-!
# The header is read to an end

`scanHeader` has five loops that go on until they find a mark, or until the text ends.  In each of
them an iteration that goes on has read some characters, so that whatever the text of a header is,
none of them goes on for ever (`scanHeader_ends`).
-/

namespace Nidas.Dynld.SyncHeader

open Lib TextStream

/-- The computation ends: with a value that meets a condition, or with another error. -/
def Ends {β : Type} (P : β → Prop) : Except HeaderError β → Prop := Outcome P (· ≠ .endless)

section Pieces

variable {header : TextStream}

theorem ends_require {condition : Bool} {error : HeaderError} (herror : error ≠ .endless) :
    Ends (fun _ => condition = true) (require condition error) := by
  cases condition with
  | true => rfl
  | false => exact herror

theorem ends_requireMore (section' : String) :
    Ends (fun _ => header.eof = false) (requireMore section' header) := by
  apply (ends_require (by simp)).mono _ fun _ herror => herror
  intro _ heof
  simpa using heof

theorem ends_expectWord (word expect before : String) :
    Ends (fun after => after.text <:+ header.text) (expectWord word expect before header) := by
  unfold expectWord
  apply Outcome.bind (ends_require (by simp))
  intro _ _
  exact readWord_suffix header

theorem getQuotedString_suffix (header : TextStream) :
    (getQuotedString header).2.text <:+ header.text := by
  unfold getQuotedString
  dsimp only
  split
  · exact ignoreTo_suffix header '"'
  · exact (getline_suffix _ 512 '"').trans (ignoreTo_suffix header '"')

theorem ends_readType (vtypestr : List Char) :
    Ends (fun _ => vtypestr ≠ []) (readType vtypestr) := by
  unfold readType
  cases hvtype : typeOf? vtypestr with
  | none => exact fun h => nomatch h
  | some vtype =>
      rintro rfl
      cases hvtype

theorem ends_readNonBlank (nextchar : Char) :
    Ends (fun result => result.2.text <:+ header.text) (readNonBlank nextchar header) := by
  unfold readNonBlank
  apply Outcome.bind (ends_requireMore _)
  intro _ _
  exact readChar_suffix header nextchar

theorem ends_readKeyword (keyword expect : String) (first : Char) :
    Ends (fun result => result.2.text <:+ header.text)
      (readKeyword keyword expect first header) := by
  unfold readKeyword
  apply Outcome.bind (ends_requireMore _)
  intro _ _
  apply Outcome.bind (ends_require (by simp))
  intro _ _
  exact (getQuotedString_suffix _).trans (getline_suffix header 4 '=')

theorem ends_readCalFile (nextchar : Char) :
    Ends (fun result => result.2.2.text <:+ header.text) (readCalFile nextchar header) := by
  unfold readCalFile
  split
  · apply Outcome.bind (ends_readKeyword _ _ _)
    intro file hfile
    apply Outcome.bind (ends_readNonBlank _)
    intro first hfirst
    dsimp only
    split
    · apply Outcome.bind (ends_readKeyword _ _ _)
      intro path hpath
      apply Outcome.bind (ends_readNonBlank _)
      intro last hlast
      exact ((hlast.trans hpath).trans hfirst).trans hfile
    · exact hfirst.trans hfile
  · exact List.suffix_refl _

/-- A variable has a type, which is not read from a stream that has failed. -/
theorem ends_readVariable (vname : List Char) :
    Ends (fun result => header.fail = false ∧ result.2.text <:+ header.text)
      (readVariable vname header) := by
  have hstart : header.readWord.2.readInt.2.text <:+ header.text :=
    (readInt_suffix _).trans (readWord_suffix header)
  unfold readVariable
  dsimp only
  apply Outcome.bind (ends_requireMore _)
  intro _ _
  apply Outcome.bind (ends_readType _)
  intro vtype hvtype
  have hfail : header.fail = false := by
    cases hfail : header.fail with
    | false => rfl
    | true =>
        have hread : header.readWord = ([], header) := fail_extract header hfail
        rw [hread] at hvtype
        exact absurd rfl hvtype
  apply Outcome.bind (ends_requireMore _)
  intro _ _
  apply Outcome.bind (ends_requireMore _)
  intro _ _
  apply Outcome.bind (ends_requireMore _)
  intro _ _
  apply Outcome.bind (ends_requireMore _)
  intro _ _
  apply Outcome.bind (ends_readNonBlank _)
  intro first hfirst
  apply Outcome.bind (ends_readCalFile _)
  intro last hlast
  apply Outcome.bind (ends_require (by simp))
  intro _ _
  refine ⟨hfail, ((hlast.trans hfirst).trans (getQuotedString_suffix _)).trans ?_⟩
  exact (((readFloats_suffix _ _).trans (getQuotedString_suffix _)).trans
    (getQuotedString_suffix _)).trans hstart

end Pieces

/-! ## The loops -/

theorem ends_readKeyedQuotedValues {fuel : ℕ} {flight : Flight} {header : TextStream}
    (hfail : header.fail = false) (hfuel : header.text.length < fuel) :
    Ends (fun result => result.2.text <:+ header.text)
      (readKeyedQuotedValues fuel flight header) := by
  induction fuel generalizing flight header with
  | zero => cases hfuel
  | succ fuel ih =>
      have hkey := readWord_suffix header
      rw [readKeyedQuotedValues]
      dsimp only
      apply Outcome.bind (ends_require (by simp))
      intro _ hmore
      have hlt := (length_readWord header (by simpa using hmore) hfail).1
      split
      · exact hkey
      · have hvalue := getQuotedString_suffix header.readWord.2
        apply Outcome.bind (ends_require (by simp))
        intro _ _
        apply Outcome.bind (ends_require (by simp))
        intro _ hread
        apply (ih (by simpa using hread) (by have := hvalue.length_le; omega)).mono _
          fun _ herror => herror
        exact fun result hresult => (hresult.trans hvalue).trans hkey

theorem ends_readVariables {fuel : ℕ} {newvars : List SyncRecordVariable} {vmap : VarMap}
    {header : TextStream} (hfuel : header.text.length < fuel) :
    Ends (fun result => result.2.2.text <:+ header.text)
      (readVariables fuel newvars vmap header) := by
  induction fuel generalizing newvars vmap header with
  | zero => cases hfuel
  | succ fuel ih =>
      have hname := readWord_suffix header
      rw [readVariables]
      dsimp only
      apply Outcome.bind (ends_requireMore _)
      intro _ hmore
      split
      · exact hname
      · apply Outcome.bind (ends_readVariable _)
        rintro ⟨var, after⟩ ⟨hread, hafter⟩
        -- a stream that had failed before the name would have failed after it
        have hfail : header.fail = false := by
          cases hfail : header.fail with
          | false => rfl
          | true =>
              have hsame : header.readWord = ([], header) := fail_extract header hfail
              rw [hsame, hfail] at hread
              cases hread
        have hlt := (length_readWord header hmore hfail).1
        apply (ih (by have := hafter.length_le; omega)).mono _ fun _ herror => herror
        exact fun result hresult => (hresult.trans hafter).trans hname

theorem ends_readGroup {rate : ℚ} {lag fuel : ℕ} {placing : Placing} {header : TextStream}
    (hfail : header.fail = false) (hfuel : header.text.length < fuel) :
    Ends (fun result => result.2.text <:+ header.text)
      (readGroup rate lag fuel placing header) := by
  induction fuel generalizing placing header with
  | zero => cases hfuel
  | succ fuel ih =>
      have hname := readWord_suffix header
      rw [readGroup]
      dsimp only
      apply Outcome.bind (ends_requireMore _)
      intro _ hmore
      obtain ⟨hlt, hread⟩ := length_readWord header hmore hfail
      split
      · exact hname
      · split
        · exact fun h => nomatch h
        · exact fun h => nomatch h
        · apply (ih hread (by omega)).mono _ fun _ herror => herror
          exact fun result hresult => hresult.trans hname

theorem ends_readRates {lag fuel : ℕ} {placing : Placing} {header : TextStream}
    (hfuel : header.text.length < fuel) :
    Ends (fun _ => True) (readRates fuel lag placing header) := by
  induction fuel generalizing lag placing header with
  | zero => cases hfuel
  | succ fuel ih =>
      rw [readRates]
      dsimp only
      split
      · trivial
      · next hread =>
          have hlt := length_readFloat header (by simpa using hread)
          apply Outcome.bind (ends_requireMore _)
          intro _ _
          apply Outcome.bind (ends_readGroup (by simpa using hread) (Nat.lt_succ_self _))
          rintro ⟨after, rest⟩ hrest
          dsimp only at hrest ⊢
          exact ih (by have := hrest.length_le; omega)

theorem ends_endHeader (flight : Flight) (placing : Placing) (header : TextStream) :
    Ends (fun _ => True) (endHeader flight placing header) := by
  unfold endHeader
  dsimp only
  split
  · exact fun h => nomatch h
  · apply Outcome.bind (ends_require (by simp))
    intro _ _
    trivial

/-- **Every text is read to an end**: no loop of `scanHeader` goes on for ever, nor does the one
that reads the coefficients of a variable. -/
theorem scanHeader_ends (data : List Char) :
    scanHeader data ≠ .error .endless ∧
      ∀ stream : TextStream, (stream.readFloats (stream.text.length + 1)).2.fail = true := by
  have hends : Ends (fun _ => True) (scanHeader data) := by
    unfold scanHeader
    apply Outcome.bind (ends_readKeyedQuotedValues rfl (Nat.lt_succ_self _))
    rintro ⟨flight, header⟩ _
    apply Outcome.bind (ends_expectWord _ _ _)
    intro header _
    apply Outcome.bind (ends_expectWord _ _ _)
    intro header _
    apply Outcome.bind (ends_readVariables (Nat.lt_succ_self _))
    rintro ⟨newvars, vmap, header⟩ _
    unfold scanRates
    apply Outcome.bind (ends_expectWord _ _ _)
    intro header _
    apply Outcome.bind (ends_expectWord _ _ _)
    intro header _
    apply Outcome.bind (ends_readRates (Nat.lt_succ_self _))
    rintro ⟨placing, header⟩ _
    exact ends_endHeader flight placing header
  constructor
  · intro hendless
    rw [hendless] at hends
    exact hends rfl
  · exact fun stream => fail_readFloats stream (Nat.lt_succ_self _)

end Nidas.Dynld.SyncHeader
