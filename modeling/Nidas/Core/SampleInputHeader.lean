import Nidas.Core.IOStream

/-!
# The NIDAS input header

An archive starts with a text header: a magic string, then lines with a tag and a
value, then the end tag.  `SampleInputHeader::parse` reads it from the buffer of
an `IOStream` and can stop at any byte, to go on when there is more.  `_buf` up to
`_headPtr` is `buf`; `_size`, which only the writer uses, is left out.
-/

namespace Nidas.Core

/-- The bytes of an ASCII text. -/
def ascii (text : String) : List UInt8 :=
  text.toList.map fun c => UInt8.ofNat c.toNat

/-- `::isspace` in the C locale -/
def isspace (c : UInt8) : Bool :=
  decide (9 ≤ c ∧ c ≤ 13) || decide (c = 32)

/-- `::isprint` in the C locale -/
def isprint (c : UInt8) : Bool :=
  decide (32 ≤ c ∧ c < 127)

/-! ## Tags and values -/

/-- The values that a header sets. -/
structure HeaderValues where
  archiveVersion : List UInt8 := []
  softwareVersion : List UInt8 := []
  projectName : List UInt8 := []
  systemName : List UInt8 := []
  configName : List UInt8 := []
  configVersion : List UInt8 := []
  deriving DecidableEq, Repr

/-- The set functions of the table of tags.  `setDummyString` does nothing. -/
inductive HeaderField where
  | archiveVersion
  | softwareVersion
  | projectName
  | systemName
  | configName
  | configVersion
  | dummyString
  deriving DecidableEq, Repr

/-- Call a set function. -/
def HeaderField.set (field : HeaderField) (value : List UInt8) (values : HeaderValues) :
    HeaderValues :=
  match field with
  | .archiveVersion => { values with archiveVersion := value }
  | .softwareVersion => { values with softwareVersion := value }
  | .projectName => { values with projectName := value }
  | .systemName => { values with systemName := value }
  | .configName => { values with configName := value }
  | .configVersion => { values with configVersion := value }
  | .dummyString => values

/-- A row of the table of tags.  The end tag is the one without a set function. -/
structure HeaderTag where
  tag : String
  setFunc : Option HeaderField
  deriving DecidableEq, Repr

/-- `SampleInputHeader::headers` -/
def headerTags : List HeaderTag :=
  [⟨"archive version:", some .archiveVersion⟩,
    ⟨"software version:", some .softwareVersion⟩,
    ⟨"project name:", some .projectName⟩,
    ⟨"system name:", some .systemName⟩,
    ⟨"config name:", some .configName⟩,
    ⟨"config version:", some .configVersion⟩,
    -- old
    ⟨"site name:", some .systemName⟩,
    ⟨"observation period name:", some .dummyString⟩,
    ⟨"xml name:", some .dummyString⟩,
    ⟨"xml version:", some .dummyString⟩,
    ⟨"end header\n", none⟩]

/-- `SampleInputHeader::magicStrings` -/
def magicStrings : List String := ["NIDAS (ncar.ucar.edu)\n", "NCAR ADS3\n"]

/-- `_minMagicLen`, the length of the shortest magic string -/
def minMagicLen : ℕ := 10

/-- `HEADER_BUF_LEN` -/
def headerBufLen : ℕ := 256

/-! ## Parsing -/

/-- `_stage`; in the value stage `_tagMatch` is the tag whose value is read. -/
inductive ParseStage where
  | start
  | magic
  | tag
  | value (tagMatch : HeaderTag)
  | done
  deriving DecidableEq, Repr

/-- The members of a `SampleInputHeader` that parsing uses. -/
structure SampleInputHeader where
  stage : ParseStage := .start
  buf : List UInt8 := []
  values : HeaderValues := {}
  deriving DecidableEq, Repr

/-- What a parsing method returns: false, true, or a `ParseException`. -/
inductive Parsed where
  | more
  | complete
  | exception (what : String)
  deriving DecidableEq, Repr

/-- The stream and the parser after a method. -/
structure ParseState where
  result : Parsed
  header : SampleInputHeader
  io : IOStream
  deriving DecidableEq, Repr

/-- A `ParseException`: the buffer is backed up and parsing starts over. -/
def parseException (what : String) (header : SampleInputHeader) (io : IOStream) : ParseState :=
  ⟨.exception what, { header with stage := .start, buf := [] }, io.backup⟩

/-- Compare what has been read with the magic strings, reading on where one
begins like it. -/
def matchMagic : List String → SampleInputHeader → IOStream → ParseState
  | [], header, io =>
      parseException ("header does not match \"" ++ "NIDAS (ncar.ucar.edu)\n" ++ "\"") header io
  | text :: rest, header, io =>
      let magic := ascii text
      if header.buf.take minMagicLen = magic.take minMagicLen then
        -- partial match to magic string, read entire string
        let rlen := magic.length - header.buf.length
        let (data, io) := io.readBuf rlen
        let header := { header with buf := header.buf ++ data }
        if data.length < rlen then ⟨.more, header, io⟩
        else if header.buf.take magic.length = magic then
          ⟨.complete, { header with stage := .tag, buf := header.buf.drop magic.length }, io⟩
        else matchMagic rest header io
      else matchMagic rest header io

/-- `SampleInputHeader::parseMagic` -/
def parseMagic (header : SampleInputHeader) (io : IOStream) : ParseState :=
  let rlen := minMagicLen - header.buf.length
  let (data, io) := io.readBuf rlen
  let header := { header with buf := header.buf ++ data }
  if data.length < rlen then ⟨.more, header, io⟩
  else matchMagic magicStrings header io

/-- The first tag that begins with the characters of the buffer. -/
def findTag (buf : List UInt8) : Option HeaderTag :=
  headerTags.find? fun row =>
    decide (buf.length ≤ (ascii row.tag).length ∧ (ascii row.tag).take buf.length = buf)

/-- Digits of a hexadecimal number. -/
def hexText (value : ℕ) : String :=
  String.ofList (Nat.toDigits 16 value)

/-- A character in the text of an exception; `hex << setw(2) << (int) c`. -/
def showChar (c : UInt8) : String :=
  if isprint c then String.ofList [Char.ofNat c.toNat]
  else
    let text := hexText (if c < 128 then c.toNat else 2 ^ 32 - 256 + c.toNat)
    "\\x" ++ (if text.length < 2 then " " ++ text else text)

/-- The loop of `SampleInputHeader::parseTag`, one character at a time.  `ready`
says that the buffer holds characters that have not been compared yet. -/
def tagLoop : ℕ → Bool → SampleInputHeader → IOStream → ParseState
  | 0, _, header, io => ⟨.more, header, io⟩
  | fuel + 1, ready, header, io =>
      let (data, io) := if ready then ([], io) else io.readBuf 1
      if !ready && data = [] then ⟨.more, header, io⟩
      else
        let header := { header with buf := header.buf ++ data }
        match findTag header.buf with
        | some row =>
            if header.buf.length = (ascii row.tag).length then
              -- complete match to a tag
              ⟨.complete,
                { header with
                  buf := []
                  stage := if row.setFunc = none then .done else .value row }, io⟩
            else tagLoop fuel false header io
        | none =>
            -- skip leading white space
            if (header.buf.head?.map isspace).getD false then
              tagLoop fuel false { header with buf := header.buf.drop 1 } io
            else
              -- read a few more characters so we can put out a bit more info
              let (more, io) := if header.buf.length < 10 then io.readBuf 20 else ([], io)
              parseException ("No match found for header string: \"" ++
                String.join ((header.buf ++ more).map showChar) ++ "\"") header io

/-- `SampleInputHeader::parseTag` -/
def parseTag (header : SampleInputHeader) (io : IOStream) : ParseState :=
  tagLoop (io.bytes.length + 2) (header.buf ≠ []) header io

/-- A value without the white space around it. -/
def trim (value : List UInt8) : List UInt8 :=
  ((value.dropWhile isspace).reverse.dropWhile isspace).reverse

/-- The loop of `SampleInputHeader::parseValue`, one character at a time. -/
def valueLoop (tagMatch : HeaderTag) : ℕ → SampleInputHeader → IOStream → ParseState
  | 0, header, io => ⟨.more, header, io⟩
  | fuel + 1, header, io =>
      if header.buf.length ≥ headerBufLen then
        parseException ("no value found for tag " ++ tagMatch.tag) header io
      else
        match io.readBuf 1 with
        | ([], io) => ⟨.more, header, io⟩
        | (c :: _, io) =>
            if c = 10 then
              ⟨.complete,
                { header with
                  buf := []
                  stage := .tag
                  values := match tagMatch.setFunc with
                    | some field => field.set (trim header.buf) header.values
                    | none => header.values }, io⟩
            else valueLoop tagMatch fuel { header with buf := header.buf ++ [c] } io

/-- `SampleInputHeader::parseValue` -/
def parseValue (tagMatch : HeaderTag) (header : SampleInputHeader) (io : IOStream) : ParseState :=
  valueLoop tagMatch (io.bytes.length + 1) header io

/-- One turn of the loop of `SampleInputHeader::parse`, by stage. -/
def parseTurn (header : SampleInputHeader) (io : IOStream) : ParseState :=
  match header.stage with
  | .start | .magic =>
      let first := parseMagic { header with stage := .magic } io
      match first.result with
      -- fall through to the tag
      | .complete => parseTag first.header first.io
      | _ => first
  | .tag => parseTag header io
  | .value tagMatch => parseValue tagMatch header io
  | .done => ⟨.complete, { header with stage := .start }, io⟩

/-- The loop of `SampleInputHeader::parse`.  A turn uses a character of the buffer,
or goes on to the next stage. -/
def parseLoop : ℕ → SampleInputHeader → IOStream → ParseState
  | 0, header, io => ⟨.more, header, io⟩
  | fuel + 1, header, io =>
      let turn := parseTurn header io
      match turn.result with
      | .complete => if header.stage = .done then turn else parseLoop fuel turn.header turn.io
      | _ => turn

/-- `SampleInputHeader::parse` -/
def SampleInputHeader.parse (header : SampleInputHeader) (io : IOStream) : ParseState :=
  parseLoop (2 * io.bytes.length + 4) header io

end Nidas.Core
