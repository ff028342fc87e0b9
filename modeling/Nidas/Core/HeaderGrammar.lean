import Nidas.Core.HeaderParsing

/-!
# What the parser accepts

A valid input header is a magic string, then lines of a known tag and a value, with
white space in front of each tag, then the end tag.  `Awaits` says what is still
missing of a valid header in each stage of the parser, and each method of the parser
is shown to take what is there of it and to stop where it ends.  So a valid header
is parsed to its end and no further, whatever the reads of the channel are.
-/

namespace Nidas.Core

open IOStream

/-! ## The grammar -/

/-- The part of a header behind the magic string. -/
inductive HeaderText : List UInt8 → Prop where
  | done : HeaderText (ascii "end header\n")
  | space {c : UInt8} {text : List UInt8} (hspace : isspace c = true) (htext : HeaderText text) :
      HeaderText (c :: text)
  | line {row : HeaderTag} {value text : List UInt8} (hrow : row ∈ headerTags)
      (hset : row.setFunc ≠ none) (hvalue : 10 ∉ value) (hlength : value.length < headerBufLen)
      (htext : HeaderText text) : HeaderText (ascii row.tag ++ (value ++ 10 :: text))

/-- A valid input header. -/
def ValidHeader (text : List UInt8) : Prop :=
  ∃ magic ∈ magicStrings, ∃ body, HeaderText body ∧ text = ascii magic ++ body

/-- What stands behind a tag: nothing behind the end tag, else a value and the rest. -/
inductive TagFollows (row : HeaderTag) : List UInt8 → Prop where
  | done (hset : row.setFunc = none) : TagFollows row []
  | value {value text : List UInt8} (hset : row.setFunc ≠ none) (hvalue : 10 ∉ value)
      (hlength : value.length < headerBufLen) (htext : HeaderText text) :
      TagFollows row (value ++ 10 :: text)

/-- What the parser still needs of a valid header, in each of its stages. -/
inductive Awaits (header : SampleInputHeader) : List UInt8 → Prop where
  | start {text : List UInt8} (hstage : header.stage = .start) (hbuf : header.buf = [])
      (hvalid : ValidHeader text) : Awaits header text
  | magic {magic : String} {left body : List UInt8} (hstage : header.stage = .magic)
      (hmagic : magic ∈ magicStrings) (hbuf : header.buf ++ left = ascii magic) (hleft : left ≠ [])
      (hbody : HeaderText body) : Awaits header (left ++ body)
  | text {body : List UInt8} (hstage : header.stage = .tag) (hbuf : header.buf = [])
      (hbody : HeaderText body) : Awaits header body
  | tag {row : HeaderTag} {left after : List UInt8} (hstage : header.stage = .tag)
      (hrow : row ∈ headerTags) (hbuf : header.buf ++ left = ascii row.tag)
      (hne : header.buf ≠ []) (hleft : left ≠ []) (hafter : TagFollows row after) :
      Awaits header (left ++ after)
  | value {row : HeaderTag} {value body : List UInt8} (hstage : header.stage = .value row)
      (hset : row.setFunc ≠ none) (hvalue : 10 ∉ value)
      (hlength : header.buf.length + value.length < headerBufLen) (hbody : HeaderText body) :
      Awaits header (value ++ 10 :: body)
  | done (hstage : header.stage = .done) (hbuf : header.buf = []) : Awaits header []

/-! ## What a header sets

The same grammar with the values that are set: a text takes the values before it to those
of `goal`. -/

/-- The part of a header behind the magic string. -/
inductive HeaderSets (goal : HeaderValues) : HeaderValues → List UInt8 → Prop where
  | done : HeaderSets goal goal (ascii "end header\n")
  | space {values : HeaderValues} {c : UInt8} {text : List UInt8} (hspace : isspace c = true)
      (htext : HeaderSets goal values text) : HeaderSets goal values (c :: text)
  | line {values : HeaderValues} {row : HeaderTag} {field : HeaderField} {value text : List UInt8}
      (hrow : row ∈ headerTags) (hset : row.setFunc = some field) (hvalue : 10 ∉ value)
      (hlength : value.length < headerBufLen)
      (htext : HeaderSets goal (field.set (trim value) values) text) :
      HeaderSets goal values (ascii row.tag ++ (value ++ 10 :: text))

/-- What stands behind a tag. -/
inductive TagSets (goal : HeaderValues) (row : HeaderTag) : HeaderValues → List UInt8 → Prop where
  | done (hset : row.setFunc = none) : TagSets goal row goal []
  | value {values : HeaderValues} {field : HeaderField} {value text : List UInt8}
      (hset : row.setFunc = some field) (hvalue : 10 ∉ value)
      (hlength : value.length < headerBufLen)
      (htext : HeaderSets goal (field.set (trim value) values) text) :
      TagSets goal row values (value ++ 10 :: text)

/-- What the parser still needs, in each of its stages, to come to the values of `goal`. -/
inductive AwaitsValues (goal : HeaderValues) (header : SampleInputHeader) : List UInt8 → Prop where
  | start {magic : String} {body : List UInt8} (hstage : header.stage = .start)
      (hbuf : header.buf = []) (hmagic : magic ∈ magicStrings)
      (hbody : HeaderSets goal header.values body) : AwaitsValues goal header (ascii magic ++ body)
  | magic {magic : String} {left body : List UInt8} (hstage : header.stage = .magic)
      (hmagic : magic ∈ magicStrings) (hbuf : header.buf ++ left = ascii magic) (hleft : left ≠ [])
      (hbody : HeaderSets goal header.values body) : AwaitsValues goal header (left ++ body)
  | text {body : List UInt8} (hstage : header.stage = .tag) (hbuf : header.buf = [])
      (hbody : HeaderSets goal header.values body) : AwaitsValues goal header body
  | tag {row : HeaderTag} {left after : List UInt8} (hstage : header.stage = .tag)
      (hrow : row ∈ headerTags) (hbuf : header.buf ++ left = ascii row.tag)
      (hne : header.buf ≠ []) (hleft : left ≠ []) (hafter : TagSets goal row header.values after) :
      AwaitsValues goal header (left ++ after)
  | value {row : HeaderTag} {field : HeaderField} {value body : List UInt8}
      (hstage : header.stage = .value row) (hset : row.setFunc = some field) (hvalue : 10 ∉ value)
      (hlength : header.buf.length + value.length < headerBufLen)
      (hbody : HeaderSets goal (field.set (trim (header.buf ++ value)) header.values) body) :
      AwaitsValues goal header (value ++ 10 :: body)
  | done (hstage : header.stage = .done) (hbuf : header.buf = []) (hvalues : header.values = goal) :
      AwaitsValues goal header []

theorem HeaderSets.headerText {goal values : HeaderValues} {text : List UInt8}
    (h : HeaderSets goal values text) : HeaderText text := by
  induction h with
  | done => exact .done
  | space hspace _ ih => exact .space hspace ih
  | line hrow hset hvalue hlength _ ih => exact .line hrow (by simp [hset]) hvalue hlength ih

/-- A valid text sets some values. -/
theorem HeaderText.sets {text : List UInt8} (htext : HeaderText text) (values : HeaderValues) :
    ∃ goal, HeaderSets goal values text := by
  induction htext generalizing values with
  | done => exact ⟨values, .done⟩
  | space hspace _ ih =>
      obtain ⟨goal, hgoal⟩ := ih values
      exact ⟨goal, .space hspace hgoal⟩
  | line hrow hset hvalue hlength _ ih =>
      obtain ⟨field, hfield⟩ := Option.ne_none_iff_exists'.mp hset
      obtain ⟨goal, hgoal⟩ := ih (field.set _ values)
      exact ⟨goal, .line hrow hfield hvalue hlength hgoal⟩

theorem TagSets.tagFollows {goal values : HeaderValues} {row : HeaderTag} {after : List UInt8}
    (h : TagSets goal row values after) : TagFollows row after := by
  cases h with
  | done hset => exact .done hset
  | value hset hvalue hlength htext =>
      exact .value (by simp [hset]) hvalue hlength htext.headerText

theorem AwaitsValues.awaits {goal : HeaderValues} {header : SampleInputHeader}
    {text : List UInt8} (h : AwaitsValues goal header text) : Awaits header text := by
  cases h with
  | start hstage hbuf hmagic hbody =>
      exact .start hstage hbuf ⟨_, hmagic, _, hbody.headerText, rfl⟩
  | magic hstage hmagic hbuf hleft hbody =>
      exact .magic hstage hmagic hbuf hleft hbody.headerText
  | text hstage hbuf hbody => exact .text hstage hbuf hbody.headerText
  | tag hstage hrow hbuf hne hleft hafter =>
      exact .tag hstage hrow hbuf hne hleft hafter.tagFollows
  | value hstage hset hvalue hlength hbody =>
      exact .value hstage (by simp [hset]) hvalue hlength hbody.headerText
  | done hstage hbuf _ => exact .done hstage hbuf

theorem Awaits.values {header : SampleInputHeader} {text : List UInt8} (h : Awaits header text) :
    ∃ goal, AwaitsValues goal header text := by
  cases h with
  | start hstage hbuf hvalid =>
      obtain ⟨magic, hmagic, body, hbody, rfl⟩ := hvalid
      obtain ⟨goal, hgoal⟩ := hbody.sets header.values
      exact ⟨goal, .start hstage hbuf hmagic hgoal⟩
  | magic hstage hmagic hbuf hleft hbody =>
      obtain ⟨goal, hgoal⟩ := hbody.sets header.values
      exact ⟨goal, .magic hstage hmagic hbuf hleft hgoal⟩
  | text hstage hbuf hbody =>
      obtain ⟨goal, hgoal⟩ := hbody.sets header.values
      exact ⟨goal, .text hstage hbuf hgoal⟩
  | tag hstage hrow hbuf hne hleft hafter =>
      cases hafter with
      | done hset => exact ⟨_, .tag hstage hrow hbuf hne hleft (.done hset)⟩
      | @value value _ hset hvalue hlength htext =>
          obtain ⟨field, hfield⟩ := Option.ne_none_iff_exists'.mp hset
          obtain ⟨goal, hgoal⟩ := htext.sets (field.set (trim value) header.values)
          exact ⟨goal, .tag hstage hrow hbuf hne hleft (.value hfield hvalue hlength hgoal)⟩
  | @value row value _ hstage hset hvalue hlength hbody =>
      obtain ⟨field, hfield⟩ := Option.ne_none_iff_exists'.mp hset
      obtain ⟨goal, hgoal⟩ := hbody.sets (field.set (trim (header.buf ++ value)) header.values)
      exact ⟨goal, .value hstage hfield hvalue hlength hgoal⟩
  | done hstage hbuf => exact ⟨_, .done hstage hbuf rfl⟩

/-! ## Taking bytes from the buffer -/

theorem readBuf_readBuf (first second : ℕ) (io : IOStream) :
    ((io.readBuf first).2.readBuf second).2 = (io.readBuf (first + second)).2 := by
  simp only [readBuf, List.drop_drop, List.append_assoc, ← List.take_add]
  congr 1
  rw [List.take_add, List.length_append]
  push_cast
  omega

/-- More than what is there cannot be taken. -/
theorem readBuf_of_le {len : ℕ} {io : IOStream} (hle : io.bytes.length ≤ len) :
    (io.readBuf len).2 = (io.readBuf io.bytes.length).2 := by
  simp only [readBuf, List.take_of_length_le hle, List.drop_of_length_le hle, List.take_length,
    List.drop_length]

/-- The buffer holds bytes of the header, and perhaps what follows it. -/
def Agrees (io : IOStream) (text : List UInt8) : Prop :=
  ∃ later body, io.bytes ++ later = text ++ body

variable {io : IOStream} {text : List UInt8}

theorem Agrees.drop (hagrees : Agrees io text) {count : ℕ} (hcount : count ≤ io.bytes.length)
    (hle : count ≤ text.length) : Agrees (io.readBuf count).2 (text.drop count) := by
  obtain ⟨later, body, heq⟩ := hagrees
  refine ⟨later, body, ?_⟩
  have hdrop := congrArg (List.drop count) heq
  rwa [List.drop_append_of_le_length hcount, List.drop_append_of_le_length hle] at hdrop

/-- The bytes in the buffer are the first ones of the header. -/
theorem Agrees.take_eq (hagrees : Agrees io text) {count : ℕ} (hcount : count ≤ io.bytes.length)
    (hle : count ≤ text.length) : io.bytes.take count = text.take count := by
  obtain ⟨later, body, heq⟩ := hagrees
  have htake := congrArg (List.take count) heq
  rwa [List.take_append_of_le_length hcount, List.take_append_of_le_length hle] at htake

theorem Agrees.cons {c : UInt8} {rest : List UInt8} (hagrees : Agrees io (c :: rest))
    (hbytes : io.bytes ≠ []) : ∃ more, io.bytes = c :: more := by
  obtain ⟨later, body, heq⟩ := hagrees
  cases hio : io.bytes with
  | nil => exact absurd hio hbytes
  | cons first more =>
      rw [hio] at heq
      exact ⟨more, by rw [(List.cons.inj heq).1]⟩

/-- What a method of the parser does: it takes all bytes and needs more, or it takes
some bytes and comes to the next stage. -/
inductive Advances (goal : HeaderValues) (io : IOStream) (text : List UInt8) : ParseState → Prop where
  | more {header : SampleInputHeader} (hlt : io.bytes.length < text.length)
      (hawaits : AwaitsValues goal header (text.drop io.bytes.length)) :
      Advances goal io text ⟨.more, header, (io.readBuf io.bytes.length).2⟩
  | complete {header : SampleInputHeader} {count : ℕ} (hpos : 0 < count)
      (hcount : count ≤ io.bytes.length) (hle : count ≤ text.length)
      (hawaits : AwaitsValues goal header (text.drop count)) :
      Advances goal io text ⟨.complete, header, (io.readBuf count).2⟩

/-- Bytes that have been taken before are counted too. -/
theorem Advances.of_drop {goal : HeaderValues} {count : ℕ} {state : ParseState} (hcount : count ≤ io.bytes.length)
    (hle : count ≤ text.length) (hrest : Advances goal (io.readBuf count).2 (text.drop count) state) :
    Advances goal io text state := by
  have hlength : (io.readBuf count).2.bytes.length = io.bytes.length - count := List.length_drop
  cases hrest with
  | more hlt hawaits =>
      rw [List.drop_drop, hlength, Nat.add_sub_cancel' hcount] at hawaits
      rw [List.length_drop, hlength] at hlt
      rw [readBuf_readBuf, hlength, Nat.add_sub_cancel' hcount]
      exact .more (by omega) hawaits
  | complete hpos hcount' hle' hawaits =>
      rw [List.drop_drop] at hawaits
      rw [List.length_drop] at hle'
      rw [readBuf_readBuf]
      exact .complete (by omega) (by omega) (by omega) hawaits

/-! ## Tags -/

theorem findTag_tag : ∀ row ∈ headerTags, findTag (ascii row.tag) = some row := by decide

/-- A tag that has not been read completely is not taken for a complete one. -/
theorem findTag_take :
    ∀ row ∈ headerTags, ∀ count < (ascii row.tag).length, 0 < count →
      ((findTag ((ascii row.tag).take count)).any
        fun found => decide (count ≠ (ascii found.tag).length)) = true := by
  decide

theorem tag_ne_nil : ∀ row ∈ headerTags, ascii row.tag ≠ [] := by decide

/-- No tag begins with white space. -/
theorem findTag_space {c : UInt8} (hspace : isspace c = true) : findTag [c] = none := by
  have hheads : ∀ row ∈ headerTags, ((ascii row.tag).head?.map isspace) = some false := by decide
  rw [findTag, List.find?_eq_none]
  intro row hrow hfound
  have htake := (of_decide_eq_true hfound).2
  have hhead := hheads row hrow
  cases htag : ascii row.tag with
  | nil =>
      rw [htag] at hhead
      cases hhead
  | cons first rest =>
      rw [htag] at hhead htake
      have hfirst : first = c := (List.cons.inj htake).1
      rw [hfirst, List.head?_cons, Option.map_some, hspace] at hhead
      cases hhead

variable {goal : HeaderValues} {header : SampleInputHeader} {fuel : ℕ} {c : UInt8} {more : List UInt8} {row : HeaderTag}

theorem readBuf_one (hbytes : io.bytes = c :: more) : (io.readBuf 1).1 = [c] := by
  rw [readBuf, hbytes]
  rfl

theorem tagLoop_nil (hbytes : io.bytes = []) :
    tagLoop (fuel + 1) false header io = ⟨.more, header, (io.readBuf io.bytes.length).2⟩ := by
  have hdata : (io.readBuf 1).1 = [] := by
    rw [readBuf, hbytes]
    rfl
  rw [tagLoop]
  dsimp only
  rw [if_neg Bool.false_ne_true, hdata, if_pos (by decide), readBuf_of_le (by rw [hbytes]; simp)]

theorem tagLoop_complete (hbytes : io.bytes = c :: more)
    (hfound : findTag (header.buf ++ [c]) = some row)
    (hlength : (header.buf ++ [c]).length = (ascii row.tag).length) :
    tagLoop (fuel + 1) false header io =
      ⟨.complete,
        { header with buf := [], stage := if row.setFunc = none then .done else .value row },
        (io.readBuf 1).2⟩ := by
  rw [tagLoop]
  dsimp only
  rw [if_neg Bool.false_ne_true, readBuf_one hbytes, if_neg (by simp), hfound]
  dsimp only
  rw [if_pos hlength]

theorem tagLoop_prefixed (hbytes : io.bytes = c :: more)
    (hfound : findTag (header.buf ++ [c]) = some row)
    (hlength : (header.buf ++ [c]).length ≠ (ascii row.tag).length) :
    tagLoop (fuel + 1) false header io =
      tagLoop fuel false { header with buf := header.buf ++ [c] } (io.readBuf 1).2 := by
  rw [tagLoop]
  dsimp only
  rw [if_neg Bool.false_ne_true, readBuf_one hbytes, if_neg (by simp), hfound]
  dsimp only
  rw [if_neg hlength]

theorem tagLoop_space (hbytes : io.bytes = c :: more) (hbuf : header.buf = [])
    (hspace : isspace c = true) :
    tagLoop (fuel + 1) false header io = tagLoop fuel false header (io.readBuf 1).2 := by
  have hheader : ({ header with buf := (header.buf ++ [c]).drop 1 } : SampleInputHeader) = header := by
    rw [hbuf]
    cases header
    simp_all
  rw [tagLoop]
  dsimp only
  rw [if_neg Bool.false_ne_true, readBuf_one hbytes, if_neg (by simp)]
  have hnone : findTag (header.buf ++ [c]) = none := by
    rw [hbuf]
    exact findTag_space hspace
  have hhead : (((header.buf ++ [c]).head?.map isspace).getD false) = true := by
    rw [hbuf]
    exact hspace
  rw [hnone]
  dsimp only
  rw [if_pos hhead, hheader]

/-- The end tag is the only one without a set function. -/
theorem TagSets.headerSets {values : HeaderValues} {after : List UInt8} (hrow : row ∈ headerTags)
    (hafter : TagSets goal row values after) :
    HeaderSets goal values (ascii row.tag ++ after) := by
  have hend : ∀ row ∈ headerTags, row.setFunc = none → row.tag = "end header\n" := by decide
  cases hafter with
  | done hset =>
      rw [hend row hrow hset, List.append_nil]
      exact .done
  | value hset hvalue hlength htext => exact .line hrow hset hvalue hlength htext

/-- What is awaited behind a tag. -/
theorem TagSets.awaits {after : List UInt8} (hafter : TagSets goal row header.values after) :
    AwaitsValues goal
      { header with buf := [], stage := if row.setFunc = none then .done else .value row }
      after := by
  generalize hvalues : header.values = values at hafter
  cases hafter with
  | done hset =>
      rw [if_pos hset]
      exact .done rfl rfl rfl
  | value hset hvalue hlength htext =>
      rw [if_neg (by simp [hset])]
      exact .value rfl hset hvalue (by simpa using hlength) htext

/-- A tag is read to its end. -/
theorem tagLoop_tag {values : HeaderValues} {after : List UInt8} (hrow : row ∈ headerTags)
    (hafter : TagSets goal row values after) :
    ∀ (left : List UInt8) (fuel : ℕ) (header : SampleInputHeader) (io : IOStream),
      header.values = values → header.stage = .tag → header.buf ++ left = ascii row.tag → left ≠ [] →
      io.bytes.length < fuel → Agrees io (left ++ after) →
      Advances goal io (left ++ after) (tagLoop fuel false header io) := by
  intro left
  induction left with
  | nil => intro fuel header io _ _ _ hleft; exact absurd rfl hleft
  | cons c left ih =>
      intro fuel header io hvalues hstage hbuf _ hfuel hagrees
      obtain ⟨fuel, rfl⟩ := Nat.exists_eq_succ_of_ne_zero (Nat.ne_of_gt (Nat.zero_lt_of_lt hfuel))
      by_cases hbytes : io.bytes = []
      · rw [tagLoop_nil hbytes]
        refine .more (by rw [hbytes]; simp) ?_
        rw [hbytes, List.length_nil, List.drop_zero]
        by_cases hempty : header.buf = []
        · rw [hempty, List.nil_append] at hbuf
          rw [hbuf]
          subst hvalues
          exact .text hstage hempty (hafter.headerSets hrow)
        · subst hvalues
          exact .tag hstage hrow hbuf hempty (List.cons_ne_nil c left) hafter
      · obtain ⟨more, hmore⟩ := hagrees.cons hbytes
        have hone : 1 ≤ io.bytes.length := List.length_pos_iff.mpr hbytes
        have hbuf' : (header.buf ++ [c]) ++ left = ascii row.tag := by
          rw [List.append_assoc]
          exact hbuf
        cases left with
        | nil =>
            rw [List.append_nil] at hbuf'
            rw [tagLoop_complete hmore (by rw [hbuf']; exact findTag_tag row hrow) (by rw [hbuf'])]
            subst hvalues
            exact .complete Nat.one_pos hone (by simp) hafter.awaits
        | cons next left =>
            -- the tag is not complete, so no tag is found that is
            have htake : header.buf ++ [c] = (ascii row.tag).take (header.buf ++ [c]).length := by
              rw [← hbuf', List.take_left' rfl]
            have hlt : (header.buf ++ [c]).length < (ascii row.tag).length := by
              rw [← hbuf', List.length_append]
              simp
            have hany := findTag_take row hrow _ hlt (by simp)
            rw [← htake] at hany
            obtain ⟨found, hfound, hne⟩ := (Option.any_eq_true ..).mp hany
            rw [tagLoop_prefixed hmore hfound (of_decide_eq_true hne)]
            refine Advances.of_drop hone (by simp) ?_
            refine ih fuel _ _ hvalues hstage hbuf' (List.cons_ne_nil next left) ?_
              (hagrees.drop hone (by simp))
            have hlength : (io.readBuf 1).2.bytes.length = io.bytes.length - 1 := List.length_drop
            omega

/-- White space is skipped, and then a tag is read. -/
theorem tagLoop_text {values : HeaderValues} (htext : HeaderSets goal values text)
    (hvalues : header.values = values) :
    ∀ (fuel : ℕ) (io : IOStream), header.stage = .tag → header.buf = [] → io.bytes.length < fuel →
      Agrees io text → Advances goal io text (tagLoop fuel false header io) := by
  have htag : ∀ {row : HeaderTag} {after : List UInt8} (fuel : ℕ) (io : IOStream),
      row ∈ headerTags → TagSets goal row header.values after → header.stage = .tag → header.buf = [] →
      io.bytes.length < fuel → Agrees io (ascii row.tag ++ after) →
      Advances goal io (ascii row.tag ++ after) (tagLoop fuel false header io) := by
    intro row after fuel io hrow hafter hstage hbuf hfuel hagrees
    exact tagLoop_tag hrow hafter _ fuel header io rfl hstage (by rw [hbuf]; rfl) (tag_ne_nil row hrow)
      hfuel hagrees
  induction htext with
  | done =>
      intro fuel io hstage hbuf hfuel hagrees
      have hend := @htag ⟨"end header\n", none⟩ [] fuel io (by decide) (hvalues ▸ .done rfl) hstage hbuf hfuel
      rw [List.append_nil] at hend
      exact hend hagrees
  | @space values c rest hspace htext ih =>
      intro fuel io hstage hbuf hfuel hagrees
      obtain ⟨fuel, rfl⟩ := Nat.exists_eq_succ_of_ne_zero (Nat.ne_of_gt (Nat.zero_lt_of_lt hfuel))
      by_cases hbytes : io.bytes = []
      · rw [tagLoop_nil hbytes]
        refine .more (by rw [hbytes]; simp) ?_
        rw [hbytes]
        subst hvalues
        exact .text hstage hbuf (.space hspace htext)
      · obtain ⟨more, hmore⟩ := hagrees.cons hbytes
        have hone : 1 ≤ io.bytes.length := List.length_pos_iff.mpr hbytes
        rw [tagLoop_space hmore hbuf hspace]
        refine Advances.of_drop hone (by simp) (ih hvalues fuel _ hstage hbuf ?_ (hagrees.drop hone (by simp)))
        have hlength : (io.readBuf 1).2.bytes.length = io.bytes.length - 1 := List.length_drop
        omega
  | line hrow hset hvalue hlength htext _ =>
      intro fuel io hstage hbuf hfuel hagrees
      subst hvalues
      exact htag fuel io hrow (.value hset hvalue hlength htext) hstage hbuf hfuel hagrees

theorem parseTag_text (hstage : header.stage = .tag) (hbuf : header.buf = [])
    (htext : HeaderSets goal header.values text) (hagrees : Agrees io text) :
    Advances goal io text (parseTag header io) := by
  rw [parseTag, hbuf]
  exact tagLoop_text htext rfl _ io hstage hbuf (by omega) hagrees

/-- A tag of which a part has been read is gone on with. -/
theorem parseTag_prefixed {left after : List UInt8} (hstage : header.stage = .tag)
    (hrow : row ∈ headerTags) (hbuf : header.buf ++ left = ascii row.tag) (hne : header.buf ≠ [])
    (hleft : left ≠ []) (hafter : TagSets goal row header.values after)
    (hagrees : Agrees io (left ++ after)) :
    Advances goal io (left ++ after) (parseTag header io) := by
  have htake : header.buf = (ascii row.tag).take header.buf.length := by
    rw [← hbuf, List.take_left' rfl]
  have hlt : header.buf.length < (ascii row.tag).length := by
    rw [← hbuf, List.length_append]
    have hpos := List.length_pos_iff.mpr hleft
    omega
  have hany := findTag_take row hrow _ hlt (List.length_pos_iff.mpr hne)
  rw [← htake] at hany
  obtain ⟨found, hfound, hlength⟩ := (Option.any_eq_true ..).mp hany
  have hstep : parseTag header io = tagLoop (io.bytes.length + 1) false header io := by
    rw [parseTag, decide_eq_true hne, tagLoop]
    dsimp only
    rw [if_pos rfl, if_neg (by simp)]
    dsimp only
    rw [List.append_nil, hfound]
    dsimp only
    rw [if_neg (of_decide_eq_true hlength)]
  rw [hstep]
  exact tagLoop_tag hrow hafter left _ header io rfl hstage hbuf hleft (Nat.lt_succ_self _) hagrees

/-! ## Values -/

/-- A value is read up to the end of its line. -/
theorem valueLoop_value {field : HeaderField} {body : List UInt8}
    (hset : row.setFunc = some field) :
    ∀ (value : List UInt8) (fuel : ℕ) (header : SampleInputHeader) (io : IOStream),
      HeaderSets goal (field.set (trim (header.buf ++ value)) header.values) body →
      header.stage = .value row → 10 ∉ value →
      header.buf.length + value.length < headerBufLen → io.bytes.length < fuel →
      Agrees io (value ++ 10 :: body) →
      Advances goal io (value ++ 10 :: body) (valueLoop row fuel header io) := by
  have hempty : ∀ (value : List UInt8) (fuel : ℕ) (header : SampleInputHeader) (io : IOStream),
      HeaderSets goal (field.set (trim (header.buf ++ value)) header.values) body →
      header.stage = .value row → 10 ∉ value →
      header.buf.length + value.length < headerBufLen → io.bytes = [] →
      Advances goal io (value ++ 10 :: body) (valueLoop row (fuel + 1) header io) := by
    intro value fuel header io hbody hstage hvalue hlength hbytes
    have hread : io.readBuf 1 = ([], (io.readBuf io.bytes.length).2) := by
      rw [← readBuf_of_le (show io.bytes.length ≤ 1 by rw [hbytes]; simp)]
      simp [readBuf, hbytes]
    rw [valueLoop, if_neg (by omega), hread]
    refine .more (by rw [hbytes, List.length_append, List.length_cons, List.length_nil]; omega) ?_
    rw [hbytes]
    exact .value hstage hset hvalue hlength hbody
  intro value
  induction value with
  | nil =>
      intro fuel header io hbody hstage hvalue hlength hfuel hagrees
      obtain ⟨fuel, rfl⟩ := Nat.exists_eq_succ_of_ne_zero (Nat.ne_of_gt (Nat.zero_lt_of_lt hfuel))
      by_cases hbytes : io.bytes = []
      · exact hempty [] fuel header io hbody hstage hvalue hlength hbytes
      · obtain ⟨more, hmore⟩ := hagrees.cons hbytes
        have hread : io.readBuf 1 = ([10], (io.readBuf 1).2) := by rw [← readBuf_one hmore]
        rw [valueLoop, if_neg (by rw [List.length_nil] at hlength; omega), hread]
        dsimp only
        rw [if_pos rfl]
        rw [List.append_nil] at hbody
        exact .complete Nat.one_pos (List.length_pos_iff.mpr hbytes) (by simp)
          (.text rfl rfl (by rw [hset]; exact hbody))
  | cons c value ih =>
      intro fuel header io hbody hstage hvalue hlength hfuel hagrees
      obtain ⟨fuel, rfl⟩ := Nat.exists_eq_succ_of_ne_zero (Nat.ne_of_gt (Nat.zero_lt_of_lt hfuel))
      by_cases hbytes : io.bytes = []
      · exact hempty (c :: value) fuel header io hbody hstage hvalue hlength hbytes
      · obtain ⟨more, hmore⟩ := hagrees.cons hbytes
        have hone : 1 ≤ io.bytes.length := List.length_pos_iff.mpr hbytes
        have hread : io.readBuf 1 = ([c], (io.readBuf 1).2) := by rw [← readBuf_one hmore]
        rw [List.mem_cons, not_or] at hvalue
        rw [List.length_cons] at hlength
        rw [valueLoop, if_neg (by omega), hread]
        dsimp only
        rw [if_neg (fun heq => hvalue.1 heq.symm)]
        refine Advances.of_drop hone (by simp) ?_
        refine ih fuel _ _ ?_ hstage hvalue.2 ?_ ?_ (hagrees.drop hone (by simp))
        · rw [List.append_assoc]
          exact hbody
        · simp only [List.length_append, List.length_singleton]
          omega
        · have hlength' : (io.readBuf 1).2.bytes.length = io.bytes.length - 1 := List.length_drop
          omega

/-! ## The magic string -/

theorem length_magic_ge : ∀ magic ∈ magicStrings, minMagicLen ≤ (ascii magic).length := by decide

/-- Magic strings differ in the part that is compared first. -/
theorem magic_take_inj :
    ∀ first ∈ magicStrings, ∀ second ∈ magicStrings,
      (ascii first).take minMagicLen = (ascii second).take minMagicLen → first = second := by
  decide

/-- A magic string of which enough has been read is found and read to its end. -/
theorem matchMagic_found {magic : String} {left body : List UInt8}
    (hmagic : magic ∈ magicStrings) :
    ∀ (texts : List String) (header : SampleInputHeader) (io : IOStream),
      magic ∈ texts → (∀ text ∈ texts, text ∈ magicStrings) → header.stage = .magic →
      header.buf ++ left = ascii magic → minMagicLen ≤ header.buf.length →
      Agrees io (left ++ body) →
      (io.bytes.length < left.length ∧
          matchMagic texts header io = ⟨.more, { header with buf := header.buf ++ io.bytes },
            (io.readBuf io.bytes.length).2⟩) ∨
        left.length ≤ io.bytes.length ∧
          matchMagic texts header io = ⟨.complete, { header with stage := .tag, buf := [] },
            (io.readBuf left.length).2⟩ := by
  intro texts
  induction texts with
  | nil => intro header io hmem; cases hmem
  | cons text rest ih =>
      intro header io hmem htexts hstage hbuf hlength hagrees
      have htake : header.buf.take minMagicLen = (ascii magic).take minMagicLen := by
        rw [← hbuf, List.take_append_of_le_length hlength]
      by_cases hsame : text = magic
      · subst hsame
        have hrlen : (ascii text).length - header.buf.length = left.length := by
          rw [← hbuf, List.length_append]
          omega
        rw [matchMagic]
        dsimp only
        rw [if_pos htake, hrlen]
        rcases Nat.lt_or_ge io.bytes.length left.length with hlt | hge
        · refine Or.inl ⟨hlt, ?_⟩
          have hdata : (io.readBuf left.length).1 = io.bytes :=
            List.take_of_length_le (Nat.le_of_lt hlt)
          rw [hdata, if_pos hlt, readBuf_of_le (Nat.le_of_lt hlt)]
        · refine Or.inr ⟨hge, ?_⟩
          have hdata : (io.readBuf left.length).1 = left := by
            have htaken := hagrees.take_eq hge (by simp)
            rwa [List.take_left' rfl] at htaken
          rw [hdata, if_neg (Nat.lt_irrefl _), hbuf, List.take_length, if_pos rfl, List.drop_length]
      · have hother : ¬ header.buf.take minMagicLen = (ascii text).take minMagicLen := by
          intro heq
          exact hsame (magic_take_inj text (htexts text (List.mem_cons_self ..)) magic hmagic
            (heq.symm.trans htake))
        rw [matchMagic]
        dsimp only
        rw [if_neg hother]
        refine ih header io ?_ (fun other hother => htexts other (List.mem_cons_of_mem _ hother))
          hstage hbuf hlength hagrees
        rcases List.mem_cons.mp hmem with heq | htail
        · exact absurd heq.symm hsame
        · exact htail

/-- A magic string is read to its end. -/
theorem parseMagic_magic {magic : String} {left body : List UInt8} (hstage : header.stage = .magic)
    (hmagic : magic ∈ magicStrings) (hbuf : header.buf ++ left = ascii magic)
    (hbody : HeaderSets goal header.values body) (hagrees : Agrees io (left ++ body)) :
    (io.bytes.length < left.length ∧ ∃ after, AwaitsValues goal after ((left ++ body).drop io.bytes.length) ∧
        parseMagic header io = ⟨.more, after, (io.readBuf io.bytes.length).2⟩) ∨
      left.length ≤ io.bytes.length ∧
        parseMagic header io = ⟨.complete, { header with stage := .tag, buf := [] },
          (io.readBuf left.length).2⟩ := by
  have hshort : ∀ {buf : List UInt8}, buf = header.buf ++ io.bytes → io.bytes.length < left.length →
      AwaitsValues goal { header with buf := buf } ((left ++ body).drop io.bytes.length) := by
    rintro buf rfl hlt
    have htaken := hagrees.take_eq (Nat.le_refl _) (by rw [List.length_append]; omega)
    rw [List.take_length, List.take_append_of_le_length (Nat.le_of_lt hlt)] at htaken
    rw [List.drop_append_of_le_length (Nat.le_of_lt hlt)]
    refine .magic hstage hmagic ?_ ?_ hbody
    · dsimp only
      rw [List.append_assoc, htaken, List.length_take, Nat.min_eq_left (Nat.le_of_lt hlt),
        List.take_append_drop, hbuf]
    · intro hnil
      rw [List.drop_eq_nil_iff] at hnil
      omega
  have hrest : minMagicLen - header.buf.length ≤ left.length := by
    have hlength := length_magic_ge magic hmagic
    rw [← hbuf, List.length_append] at hlength
    omega
  rw [parseMagic]
  dsimp only
  rcases Nat.lt_or_ge io.bytes.length (minMagicLen - header.buf.length) with hlt | hge
  · have hdata : (io.readBuf (minMagicLen - header.buf.length)).1 = io.bytes :=
      List.take_of_length_le (Nat.le_of_lt hlt)
    rw [hdata, if_pos hlt, readBuf_of_le (Nat.le_of_lt hlt)]
    exact Or.inl ⟨by omega, _, hshort rfl (by omega), rfl⟩
  · have hdata : (io.readBuf (minMagicLen - header.buf.length)).1 =
        left.take (minMagicLen - header.buf.length) := by
      have htaken := hagrees.take_eq hge (by rw [List.length_append]; omega)
      rwa [List.take_append_of_le_length hrest] at htaken
    have hlength : (left.take (minMagicLen - header.buf.length)).length =
        minMagicLen - header.buf.length := by
      rw [List.length_take, Nat.min_eq_left hrest]
    have hagrees' := hagrees.drop hge (by rw [List.length_append]; omega)
    rw [List.drop_append_of_le_length hrest] at hagrees'
    rw [hdata, hlength, if_neg (Nat.lt_irrefl _)]
    have hbytes : (io.readBuf (minMagicLen - header.buf.length)).2.bytes.length =
        io.bytes.length - (minMagicLen - header.buf.length) := List.length_drop
    rcases @matchMagic_found magic (left.drop (minMagicLen - header.buf.length)) body hmagic
      magicStrings { header with buf := header.buf ++ left.take (minMagicLen - header.buf.length) }
      (io.readBuf (minMagicLen - header.buf.length)).2 hmagic (fun _ hmem => hmem) hstage
      (by dsimp only; rw [List.append_assoc, List.take_append_drop, hbuf])
      (by dsimp only; rw [List.length_append, hlength]; omega) hagrees' with
      ⟨hlt, hmore⟩ | ⟨hle, hcomplete⟩
    · rw [hbytes, List.length_drop] at hlt
      rw [hmore, readBuf_readBuf, hbytes, Nat.add_sub_cancel' hge]
      refine Or.inl ⟨by omega, _, hshort ?_ (by omega), rfl⟩
      rw [List.append_assoc, ← hdata]
      exact congrArg (header.buf ++ ·) (List.take_append_drop _ io.bytes)
    · rw [hbytes, List.length_drop] at hle
      rw [hcomplete, readBuf_readBuf, List.length_drop, Nat.add_sub_cancel' hrest]
      exact Or.inr ⟨by omega, rfl⟩

/-! ## The parser -/

theorem parseTurn_magic {magic : String} {left body : List UInt8}
    (hstage : header.stage = .start ∨ header.stage = .magic) (hmagic : magic ∈ magicStrings)
    (hbuf : header.buf ++ left = ascii magic) (hbody : HeaderSets goal header.values body)
    (hagrees : Agrees io (left ++ body)) :
    Advances goal io (left ++ body) (parseTurn header io) := by
  have hturn : parseTurn header io = parseFirst header io := by
    obtain ⟨stage, buf, values⟩ := header
    dsimp only at hstage
    rcases hstage with rfl | rfl <;> rfl
  rw [hturn]
  unfold parseFirst
  rcases @parseMagic_magic io goal { header with stage := .magic } magic left body rfl hmagic hbuf hbody
    hagrees with ⟨hlt, after, hawaits, hmore⟩ | ⟨hle, hcomplete⟩
  · rw [hmore]
    exact .more (by rw [List.length_append]; omega) hawaits
  · rw [hcomplete]
    have hrest := hagrees.drop hle (by rw [List.length_append]; omega)
    rw [List.drop_left' rfl] at hrest
    refine Advances.of_drop hle (by rw [List.length_append]; omega) ?_
    rw [List.drop_left' rfl]
    exact parseTag_text rfl rfl hbody hrest

/-- One turn of the parser, in every stage but the last. -/
theorem parseTurn_advances (hawaits : AwaitsValues goal header text)
    (hstage : header.stage ≠ .done) (hagrees : Agrees io text) :
    Advances goal io text (parseTurn header io) := by
  cases hawaits with
  | start hstart hbuf hmagic hbody =>
      exact parseTurn_magic (Or.inl hstart) hmagic (by rw [hbuf]; rfl) hbody hagrees
  | magic hmiddle hmagic hbuf _ hbody =>
      exact parseTurn_magic (Or.inr hmiddle) hmagic hbuf hbody hagrees
  | text htag hbuf hbody =>
      have hturn : parseTurn header io = parseTag header io := by rw [parseTurn, htag]
      rw [hturn]
      exact parseTag_text htag hbuf hbody hagrees
  | tag htag hrow hbuf hne hleft hafter =>
      have hturn : parseTurn header io = parseTag header io := by rw [parseTurn, htag]
      rw [hturn]
      exact parseTag_prefixed htag hrow hbuf hne hleft hafter hagrees
  | @value row field value body hvalue hset hnot hlength hbody =>
      have hturn : parseTurn header io = parseValue row header io := by rw [parseTurn, hvalue]
      rw [hturn]
      exact valueLoop_value hset value _ header io hbody hvalue hnot hlength (Nat.lt_succ_self _)
        hagrees
  | done hdone => exact absurd hdone hstage

theorem AwaitsValues.of_done (hawaits : AwaitsValues goal header text)
    (hstage : header.stage = .done) :
    text = [] ∧ header.buf = [] ∧ header.values = goal := by
  cases hawaits with
  | done _ hbuf hvalues => exact ⟨rfl, hbuf, hvalues⟩
  | start hother => rw [hstage] at hother; cases hother
  | magic hother => rw [hstage] at hother; cases hother
  | text hother => rw [hstage] at hother; cases hother
  | tag hother => rw [hstage] at hother; cases hother
  | value hother => rw [hstage] at hother; cases hother

/-- What parsing comes to: all bytes of the buffer are part of the header, or the
header ends in the buffer and the parser is ready for the next one. -/
inductive ParsesTo (io : IOStream) (text : List UInt8) : ParseState → Prop where
  | more {header : SampleInputHeader} (hlt : io.bytes.length < text.length)
      (hawaits : Awaits header (text.drop io.bytes.length)) :
      ParsesTo io text ⟨.more, header, (io.readBuf io.bytes.length).2⟩
  | complete {header : SampleInputHeader} (hle : text.length ≤ io.bytes.length)
      (hstage : header.stage = .start) (hbuf : header.buf = []) :
      ParsesTo io text ⟨.complete, header, (io.readBuf text.length).2⟩

/-- The same with the values that are set. -/
inductive ParsesValues (goal : HeaderValues) (io : IOStream) (text : List UInt8) :
    ParseState → Prop where
  | more {header : SampleInputHeader} (hlt : io.bytes.length < text.length)
      (hawaits : AwaitsValues goal header (text.drop io.bytes.length)) :
      ParsesValues goal io text ⟨.more, header, (io.readBuf io.bytes.length).2⟩
  | complete {header : SampleInputHeader} (hle : text.length ≤ io.bytes.length)
      (hstage : header.stage = .start) (hbuf : header.buf = []) (hvalues : header.values = goal) :
      ParsesValues goal io text ⟨.complete, header, (io.readBuf text.length).2⟩

theorem parseLoop_parsesValues :
    ∀ (fuel : ℕ) (header : SampleInputHeader) (io : IOStream) (text : List UInt8),
      AwaitsValues goal header text → Agrees io text → io.bytes.length + 2 ≤ fuel →
      ParsesValues goal io text (parseLoop fuel header io) := by
  intro fuel
  induction fuel with
  | zero => intro header io text _ _ hfuel; omega
  | succ fuel ih =>
      intro header io text hawaits hagrees hfuel
      by_cases hstage : header.stage = .done
      · obtain ⟨hnil, hbuf, hvalues⟩ := hawaits.of_done hstage
        have hturn : parseTurn header io = ⟨.complete, { header with stage := .start }, io⟩ := by
          rw [parseTurn, hstage]
        have hsame : (io.readBuf text.length).2 = io := by
          rw [hnil]
          simp [readBuf]
        rw [parseLoop, hturn]
        dsimp only
        rw [if_pos hstage]
        have hdone := @ParsesValues.complete goal io text { header with stage := .start }
          (by rw [hnil]; simp) rfl hbuf hvalues
        rwa [hsame] at hdone
      · have hturn := parseTurn_advances hawaits hstage hagrees
        rw [parseLoop]
        generalize parseTurn header io = turn at hturn ⊢
        cases hturn with
        | more hlt hafter => exact .more hlt hafter
        | @complete after count hpos hcount hle hafter =>
            dsimp only
            rw [if_neg hstage]
            have hlength : (io.readBuf count).2.bytes.length = io.bytes.length - count :=
              List.length_drop
            have hrest := ih after (io.readBuf count).2 (text.drop count) hafter
              (hagrees.drop hcount hle) (by omega)
            generalize parseLoop fuel after (io.readBuf count).2 = state at hrest ⊢
            cases hrest with
            | more hlt hlast =>
                rw [List.drop_drop, hlength, Nat.add_sub_cancel' hcount] at hlast
                rw [List.length_drop, hlength] at hlt
                rw [readBuf_readBuf, hlength, Nat.add_sub_cancel' hcount]
                exact .more (by omega) hlast
            | complete hlast hstart hbuf hvalues =>
                rw [List.length_drop, hlength] at hlast
                rw [readBuf_readBuf, List.length_drop, Nat.add_sub_cancel' hle]
                exact .complete (by omega) hstart hbuf hvalues

/-- **A valid header is parsed to its end and no further**, and its values are set. -/
theorem parse_parsesValues (hawaits : AwaitsValues goal header text) (hagrees : Agrees io text) :
    ParsesValues goal io text (header.parse io) :=
  parseLoop_parsesValues _ header io text hawaits hagrees (by omega)

theorem parse_parsesTo (hawaits : Awaits header text) (hagrees : Agrees io text) :
    ParsesTo io text (header.parse io) := by
  obtain ⟨goal, hgoal⟩ := hawaits.values
  have hparse := parse_parsesValues hgoal hagrees
  generalize header.parse io = state at hparse ⊢
  cases hparse with
  | more hlt hafter => exact .more hlt hafter.awaits
  | complete hle hstage hbuf _ => exact .complete hle hstage hbuf

end Nidas.Core
