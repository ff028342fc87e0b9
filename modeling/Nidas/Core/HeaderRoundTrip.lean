import Nidas.Core.HeaderGrammar

/-!
# Writing an input header and reading it back

`SampleInputHeader::toString` writes the magic string, a line for each value, and the end
tag behind some padding.  `SampleInputHeader::read` parses and fills the buffer of the stream
in turns.  What `toString` writes is a text of the grammar that the parser accepts, as long as
no value with the space in front of it is longer than the parser's buffer, so that the parser
gives back the values and stops at the end of the text, whatever the reads of the channel.
-/

namespace Nidas.Core

open Lib

/-! ## Writing -/

/-- The get functions of the table of tags. -/
def HeaderField.get (field : HeaderField) (values : HeaderValues) : List UInt8 :=
  match field with
  | .archiveVersion => values.archiveVersion
  | .softwareVersion => values.softwareVersion
  | .projectName => values.projectName
  | .systemName => values.systemName
  | .configName => values.configName
  | .configVersion => values.configVersion
  | .dummyString => []

/-- The rows of `headers` that are marked as obsolete. -/
def obsoleteTags : List String :=
  ["site name:", "observation period name:", "xml name:", "xml version:"]

/-- The padding in front of the end tag, which has `nc` characters, behind `len` characters:
the header is filled up to `_size`, or by 128 characters when `_size` is zero. -/
def headerPadding (size : ℤ) (len nc : ℕ) : List UInt8 :=
  -- the length of the text as an int
  let len := Int.bmod len (2 ^ 32)
  let nout := if size = 0 then len + 128 else size
  let spaces := (nout - nc - 1 - len).toNat
  let newlines := (nout - nc - (len + spaces)).toNat
  List.replicate spaces 32 ++ List.replicate newlines 10

/-- One turn of the loop in `toString`. -/
def writeTag (size : ℤ) (values : HeaderValues) (out : List UInt8) (row : HeaderTag) :
    List UInt8 :=
  if row.tag ∈ obsoleteTags then out
  else
    match row.setFunc with
    | some field => out ++ ascii row.tag ++ [32] ++ field.get values ++ [10]
    | none => out ++ headerPadding size out.length (ascii row.tag).length ++ ascii row.tag

/-- `SampleInputHeader::toString`, with the value of `_size`. -/
def SampleInputHeader.toString (size : ℤ) (header : SampleInputHeader) : List UInt8 :=
  headerTags.foldl (writeTag size header.values) (ascii "NIDAS (ncar.ucar.edu)\n")

/-! ## Reading -/

/-- How `SampleInputHeader::read` ends: it returns, or it throws an `EOFException`, or an
`IOException` with the text of a `ParseException`. -/
inductive HeaderRead where
  | returned
  | eof
  | exception (what : String)
  deriving DecidableEq, Repr

/-- The stream and the header after reading. -/
structure ReadState where
  result : HeaderRead
  header : SampleInputHeader
  io : IOStream
  deriving DecidableEq, Repr

/-- The loop of `SampleInputHeader::read`.  The buffer is empty when the parser needs more,
so every turn but the last uses up one of the reads. -/
def readLoop : ℕ → SampleInputHeader → IOStream → ReadState
  | 0, header, io => ⟨.eof, header, io⟩
  | fuel + 1, header, io =>
      match header.parse io with
      | ⟨.complete, header, io⟩ => ⟨.returned, header, io⟩
      | ⟨.exception what, header, io⟩ => ⟨.exception what, header, io⟩
      | ⟨.more, header, io⟩ =>
          match io.read with
          | (none, io) => ⟨.eof, header, io⟩
          | (some _, io) => readLoop fuel header io

/-- `SampleInputHeader::read` -/
def SampleInputHeader.read (header : SampleInputHeader) (io : IOStream) : ReadState :=
  readLoop (io.reads.length + 1) header io

/-! ## What is written is accepted -/

/-- A value that can be told from the white space around it. -/
structure PlainValue (value : List UInt8) : Prop where
  no_newline : 10 ∉ value
  head : ∀ c ∈ value.head?, isspace c = false
  last : ∀ c ∈ value.getLast?, isspace c = false

theorem plainValue_of_any {value : List UInt8} (hnewline : 10 ∉ value)
    (hhead : value.head?.any isspace = false) (hlast : value.getLast?.any isspace = false) :
    PlainValue value := by
  refine ⟨hnewline, ?_, ?_⟩
  · intro c hc
    rwa [Option.mem_def.mp hc] at hhead
  · intro c hc
    rwa [Option.mem_def.mp hc] at hlast

theorem dropWhile_of_head {value : List UInt8} (h : ∀ c ∈ value.head?, isspace c = false) :
    value.dropWhile isspace = value := by
  cases value with
  | nil => rfl
  | cons c rest => rw [List.dropWhile_cons_of_neg (by rw [h c rfl]; exact Bool.false_ne_true)]

/-- The space behind the tag is cut off again. -/
theorem trim_space {value : List UInt8} (h : PlainValue value) : trim (32 :: value) = value := by
  have hspace : isspace 32 = true := by decide
  unfold trim
  rw [List.dropWhile_cons_of_pos hspace, dropWhile_of_head h.head, dropWhile_of_head,
    List.reverse_reverse]
  rw [List.head?_reverse]
  exact h.last

theorem HeaderSets.spaces {goal values : HeaderValues} {text : List UInt8}
    (h : HeaderSets goal values text) {c : UInt8} (hspace : isspace c = true) (n : ℕ) :
    HeaderSets goal values (List.replicate n c ++ text) := by
  induction n with
  | zero => exact h
  | succ n ih => exact .space hspace ih

/-- The line of a value. -/
theorem HeaderSets.valueLine {goal values : HeaderValues} {text value : List UInt8}
    {tag : String} {field : HeaderField} (hrow : ⟨tag, some field⟩ ∈ headerTags)
    (hvalue : PlainValue value) (hlength : value.length ≤ 254)
    (h : HeaderSets goal (field.set value values) text) :
    HeaderSets goal values (ascii tag ++ (32 :: value ++ 10 :: text)) := by
  refine .line hrow rfl ?_ ?_ ?_
  · simpa using hvalue.no_newline
  · rw [headerBufLen, List.length_cons]
    omega
  · rwa [trim_space hvalue]

theorem writeTag_line {size : ℤ} {values : HeaderValues} {out : List UInt8} (row : HeaderTag)
    {field : HeaderField} (htag : row.tag ∉ obsoleteTags) (hset : row.setFunc = some field) :
    writeTag size values out row =
      out ++ (ascii row.tag ++ (32 :: field.get values ++ [10])) := by
  unfold writeTag
  rw [if_neg htag, hset]
  simp

theorem writeTag_obsolete {size : ℤ} {values : HeaderValues} {out : List UInt8} (row : HeaderTag)
    (htag : row.tag ∈ obsoleteTags) : writeTag size values out row = out := if_pos htag

theorem writeTag_end {size : ℤ} {values : HeaderValues} {out : List UInt8} (row : HeaderTag)
    (htag : row.tag ∉ obsoleteTags) (hset : row.setFunc = none) :
    writeTag size values out row =
      out ++ (headerPadding size out.length (ascii row.tag).length ++ ascii row.tag) := by
  unfold writeTag
  rw [if_neg htag, hset]
  exact List.append_assoc _ _ _

/-- The text behind the magic string when the padding is `padding`. -/
def headerBody (values : HeaderValues) (padding : List UInt8) : List UInt8 :=
  ascii "archive version:" ++ (32 :: values.archiveVersion ++ 10 ::
  (ascii "software version:" ++ (32 :: values.softwareVersion ++ 10 ::
  (ascii "project name:" ++ (32 :: values.projectName ++ 10 ::
  (ascii "system name:" ++ (32 :: values.systemName ++ 10 ::
  (ascii "config name:" ++ (32 :: values.configName ++ 10 ::
  (ascii "config version:" ++ (32 :: values.configVersion ++ 10 ::
  (padding ++ ascii "end header\n"))))))))))))

theorem headerPadding_eq (size : ℤ) (len nc : ℕ) :
    ∃ spaces newlines, headerPadding size len nc =
      List.replicate spaces 32 ++ List.replicate newlines 10 :=
  ⟨_, _, rfl⟩

/-- The text that `toString` writes, line by line. -/
theorem toString_eq (size : ℤ) (header : SampleInputHeader) :
    ∃ spaces newlines, header.toString size =
      ascii "NIDAS (ncar.ucar.edu)\n" ++
        headerBody header.values (List.replicate spaces 32 ++ List.replicate newlines 10) := by
  unfold SampleInputHeader.toString headerTags
  simp only [List.foldl_cons, List.foldl_nil]
  rw [writeTag_line ⟨"archive version:", _⟩ (by decide) rfl,
    writeTag_line ⟨"software version:", _⟩ (by decide) rfl,
    writeTag_line ⟨"project name:", _⟩ (by decide) rfl,
    writeTag_line ⟨"system name:", _⟩ (by decide) rfl,
    writeTag_line ⟨"config name:", _⟩ (by decide) rfl,
    writeTag_line ⟨"config version:", _⟩ (by decide) rfl,
    writeTag_obsolete ⟨"site name:", _⟩ (by decide),
    writeTag_obsolete ⟨"observation period name:", _⟩ (by decide),
    writeTag_obsolete ⟨"xml name:", _⟩ (by decide),
    writeTag_obsolete ⟨"xml version:", _⟩ (by decide),
    writeTag_end ⟨"end header\n", _⟩ (by decide) rfl]
  generalize hpadding : headerPadding size _ _ = padding
  obtain ⟨spaces, newlines, heq⟩ := headerPadding_eq size _ _
  rw [hpadding] at heq
  refine ⟨spaces, newlines, ?_⟩
  rw [heq]
  unfold headerBody
  simp only [List.append_assoc, List.cons_append, List.nil_append]
  rfl

/-- A value that fits into the parser's buffer. -/
structure ShortValue (value : List UInt8) : Prop extends PlainValue value where
  length_le : value.length ≤ 254

/-- What `toString` writes sets the values of the header, whatever they were before. -/
theorem headerBody_sets {values : HeaderValues} (old : HeaderValues) (spaces newlines : ℕ)
    (hvalues : ∀ field : HeaderField, ShortValue (field.get values)) :
    HeaderSets values old
      (headerBody values (List.replicate spaces 32 ++ List.replicate newlines 10)) := by
  have hline {tag : String} {old : HeaderValues} {text : List UInt8} (field : HeaderField)
      (hrow : ⟨tag, some field⟩ ∈ headerTags)
      (h : HeaderSets values (field.set (field.get values) old) text) :
      HeaderSets values old (ascii tag ++ (32 :: field.get values ++ 10 :: text)) :=
    .valueLine hrow (hvalues field).toPlainValue (hvalues field).length_le h
  unfold headerBody
  apply hline .archiveVersion (by decide)
  apply hline .softwareVersion (by decide)
  apply hline .projectName (by decide)
  apply hline .systemName (by decide)
  apply hline .configName (by decide)
  apply hline .configVersion (by decide)
  rw [List.append_assoc]
  exact (HeaderSets.done.spaces (by decide) newlines).spaces (by decide) spaces

/-! ## Reading it back -/

theorem unread_readBuf {io : IOStream} {count : ℕ} (hcount : count ≤ io.bytes.length) :
    (io.readBuf count).2.unread = io.unread.drop count :=
  (List.drop_append_of_le_length hcount).symm

/-- **Reading goes on to the end of the header and no further.**  The induction is on the turns
of the loop: a turn that needs more has used up the buffer, and the rest of the header is in the
reads to come. -/
theorem readLoop_returns {goal : HeaderValues} {more : List UInt8} :
    ∀ (fuel : ℕ) (header : SampleInputHeader) (io : IOStream) (text : List UInt8),
      AwaitsValues goal header text → io.unread = text ++ more → io.reads.length < fuel →
      (readLoop fuel header io).result = .returned ∧
        (readLoop fuel header io).header.values = goal ∧
        (readLoop fuel header io).io.unread = more := by
  intro fuel
  induction fuel with
  | zero => intro header io text _ _ hfuel; omega
  | succ fuel ih =>
      intro header io text hawaits hunread hfuel
      have hparse := parse_parsesValues hawaits ⟨_, more, hunread⟩
      rw [readLoop]
      generalize header.parse io = state at hparse ⊢
      cases hparse with
      | complete hle hstage hbuf hvalues =>
          refine ⟨rfl, hvalues, ?_⟩
          dsimp only
          rw [unread_readBuf hle, hunread, List.drop_left]
      | @more after hlt hafter =>
          have hrest : (io.readBuf io.bytes.length).2.unread =
              text.drop io.bytes.length ++ more := by
            rw [unread_readBuf (le_refl _), hunread, List.drop_append_of_le_length hlt.le]
          have hempty : (io.readBuf io.bytes.length).2.bytes = [] := List.drop_length
          have hreads : (io.readBuf io.bytes.length).2.reads = io.reads := rfl
          generalize (io.readBuf io.bytes.length).2 = io' at hrest hempty hreads ⊢
          dsimp only
          rw [IOStream.read, if_neg (by rw [IOStream.available, hempty]; decide)]
          cases hio : io'.reads with
          | nil =>
              -- the header has not been read to its end, so there is something to read
              have hnil : io'.unread = [] := by
                rw [IOStream.unread, Lib.unread, hempty, hio]
                rfl
              rw [hnil] at hrest
              have hlength := congrArg List.length hrest
              rw [List.length_append, List.length_drop, List.length_nil] at hlength
              omega
          | cons read rest =>
              have hload : (io'.load read rest).unread = io'.unread := by
                rw [IOStream.unread, IOStream.unread, Lib.unread, Lib.unread, hempty, hio]
                rfl
              apply ih after (io'.load read rest) _ hafter
              · rw [hload, hrest]
              · have hlength : io'.reads.length = rest.length + 1 := by rw [hio]; rfl
                rw [hreads] at hlength
                show rest.length < fuel
                omega

/-- **The input header round-trips**: every header whose values are at most 254 bytes long and
have no newline and no white space around them is read back from what `toString` writes, and
the reading stops at its end, whatever the reads of the channel, the bytes behind it, the
padding and the values that the reader had before. -/
theorem read_toString {header reader : SampleInputHeader} {size : ℤ} {io : IOStream}
    {more : List UInt8} (hvalues : ∀ field : HeaderField, ShortValue (field.get header.values))
    (hstage : reader.stage = .start) (hbuf : reader.buf = [])
    (hio : io.unread = header.toString size ++ more) :
    (reader.read io).result = .returned ∧
      (reader.read io).header.values = header.values ∧
      (reader.read io).io.unread = more := by
  obtain ⟨spaces, newlines, htext⟩ := toString_eq size header
  apply readLoop_returns _ reader io (header.toString size) _ hio (Nat.lt_succ_self _)
  rw [htext]
  exact .start hstage hbuf (by decide) (headerBody_sets reader.values spaces newlines hvalues)

/-- A header with a project name that has a space inside. -/
def sampleHeader : SampleInputHeader where
  values := { archiveVersion := ascii "1", projectName := ascii "MY PROJECT" }

/-- The header arrives in three reads, one of them empty, with three bytes of a sample. -/
theorem read_toString_sampleHeader :
    let io : IOStream :=
      { reads := [⟨(sampleHeader.toString 0).take 30, true, by decide +kernel⟩, ⟨[], false, by decide⟩,
          ⟨(sampleHeader.toString 0).drop 30 ++ [1, 2, 3], false, by decide +kernel⟩] }
    (({} : SampleInputHeader).read io).result = .returned ∧
      (({} : SampleInputHeader).read io).header.values = sampleHeader.values ∧
      (({} : SampleInputHeader).read io).io.unread = [1, 2, 3] := by
  refine @read_toString sampleHeader {} 0 _ [1, 2, 3] ?_ rfl rfl ?_
  · intro field
    refine ⟨plainValue_of_any ?_ ?_ ?_, ?_⟩ <;> cases field <;> decide
  · decide +kernel

/-- A value of 255 letters. -/
def longValueHeader : SampleInputHeader where
  values := { archiveVersion := List.replicate 255 97 }

theorem read_longValueHeader :
    (({} : SampleInputHeader).read
      { reads := [], bytes := longValueHeader.toString 0 }).result ≠ .returned := by
  decide +kernel

/-- A value of 255 bytes is written, and the parser's buffer does not hold it. -/
theorem not_read_toString_of_plainValue :
    ¬ ∀ (header reader : SampleInputHeader) (size : ℤ) (io : IOStream) (more : List UInt8),
      (∀ field : HeaderField, PlainValue (field.get header.values)) →
      reader.stage = .start → reader.buf = [] → io.unread = header.toString size ++ more →
      (reader.read io).result = .returned ∧
        (reader.read io).header.values = header.values ∧
        (reader.read io).io.unread = more := by
  intro h
  refine read_longValueHeader (h longValueHeader {} 0 _ [] ?_ rfl rfl rfl).1
  intro field
  apply plainValue_of_any <;> cases field <;> decide +kernel

end Nidas.Core
