import Mathlib.Data.PNat.Basic
import Nidas.Dynld.UDPSampleOutput

/-!
# Packets screened by the UDP relay

`PacketReader::checkPacket` walks over a packet from sample to sample, with the lengths that it
finds in the packet itself, and cuts the packet off at the first sample that is not complete or has
an unacceptable header.

The length of a sample is in its header, so that no acceptable sample is a proper prefix of another
(`prefixFree_acceptable`).  What the walk keeps is therefore the longest prefix that could be kept,
and it keeps all of a datagram that was packed from acceptable samples.
-/

namespace Nidas.Apps

open Core Dynld Lib

/-! ## The code -/

/-- What is wrong with a packet, in the words of the log: a short header starting at some byte of a
packet of some length, or a bad header. -/
inductive BadPacket where
  | shortHeader (start length : ℕ)
  | badHeader (header : SampleHeader)
  deriving DecidableEq, Repr

/-- The members of a `PacketReader` that `checkPacket` uses, with the defaults of its constructor
where they do not depend on the time.  `log` has the number of each bad packet that was logged.  An
interval of zero is a division by zero in the source. -/
structure PacketReader where
  rejectedPackets : ℕ := 0
  minSampleTime : ℤ
  maxSampleTime : ℤ
  maxDsmId : ℤ := 1000
  maxSampleLength : ℕ := 8192
  rejectPacketInterval : ℕ+ := 100
  log : List (ℕ × BadPacket) := []
  deriving DecidableEq, Repr

namespace PacketReader

/-- A packet is rejected.  One of each `rejectPacketInterval` is logged, `logBadPacket`. -/
def reject (reader : PacketReader) (bad : BadPacket) : PacketReader :=
  let rejected := reader.rejectedPackets + 1
  if reader.rejectedPackets % reader.rejectPacketInterval = 0 then
    { reader with rejectedPackets := rejected, log := reader.log ++ [(rejected, bad)] }
  else { reader with rejectedPackets := rejected }

/-- The header at `dptr`, as it is copied from the packet. -/
def headerAt (pkt : List UInt8) (dptr : ℕ) : SampleHeader :=
  SampleHeader.ofBytes ((pkt.drop dptr).take sampleHeaderSize)

/-- The test of a header in `PacketReader::checkPacket`. -/
def isBad (reader : PacketReader) (header : SampleHeader) (eos eod : ℕ) : Bool :=
  header.type ≠ SampleType.char.code ||
    (header.dsmId : ℤ) > reader.maxDsmId ||
    eos > eod ||
    header.dataByteLength > reader.maxSampleLength ||
    header.dataByteLength = 0 ||
    header.timeTag < reader.minSampleTime ||
    header.timeTag > reader.maxSampleTime

/-- The loop in `PacketReader::checkPacket` from `dptr` on, and where it ends. -/
def checkLoop (reader : PacketReader) (pkt : List UInt8) (dptr : ℕ) : PacketReader × ℕ :=
  if dptr < pkt.length then
    if dptr + sampleHeaderSize > pkt.length then
      (reader.reject (.shortHeader dptr pkt.length), dptr)
    else
      let header := headerAt pkt dptr
      let eos := dptr + sampleHeaderSize + header.dataByteLength
      if reader.isBad header eos pkt.length then (reader.reject (.badHeader header), dptr)
      else checkLoop reader pkt eos
  else (reader, dptr)
termination_by pkt.length - dptr
decreasing_by
  simp only [sampleHeaderSize]
  omega

/-- `PacketReader::checkPacket`, with the packet of its new length. -/
def checkPacket (reader : PacketReader) (pkt : List UInt8) : PacketReader × List UInt8 :=
  let (reader, dptr) := reader.checkLoop pkt 0
  (reader, pkt.take dptr)

/-! ## Acceptable samples -/

/-- The header fields that are acceptable. -/
structure AcceptableHeader (reader : PacketReader) (header : SampleHeader) : Prop where
  type_eq : header.type = SampleType.char.code
  dsmId_le : (header.dsmId : ℤ) ≤ reader.maxDsmId
  length_pos : 0 < header.dataByteLength
  length_le : header.dataByteLength ≤ reader.maxSampleLength
  timeTag_ge : reader.minSampleTime ≤ header.timeTag
  timeTag_le : header.timeTag ≤ reader.maxSampleTime

/-- The bytes of one complete sample with acceptable header fields. -/
structure Acceptable (reader : PacketReader) (bytes : List UInt8) : Prop where
  header : reader.AcceptableHeader (headerAt bytes 0)
  length_eq : bytes.length = sampleHeaderSize + (headerAt bytes 0).dataByteLength

variable {reader : PacketReader}

/-- A header is in the first bytes, whatever follows them. -/
theorem headerAt_front {bytes pkt : List UInt8} (hfront : bytes <+: pkt)
    (hlength : sampleHeaderSize ≤ bytes.length) : headerAt bytes 0 = headerAt pkt 0 := by
  obtain ⟨rest, rfl⟩ := hfront
  rw [headerAt, headerAt, List.drop_zero, List.drop_zero, List.take_append_of_le_length hlength]

theorem Acceptable.length_ge {bytes : List UInt8} (hbytes : reader.Acceptable bytes) :
    sampleHeaderSize ≤ bytes.length := by
  rw [hbytes.length_eq]
  exact Nat.le_add_right ..

theorem prefixFree_acceptable (reader : PacketReader) : PrefixFree reader.Acceptable := by
  intro item other hitem hother hfront
  have hheader := headerAt_front hfront hitem.length_ge
  apply hfront.eq_of_length
  rw [hitem.length_eq, hother.length_eq, hheader]

/-- A header passes the test exactly if its fields are acceptable and its sample is complete. -/
theorem isBad_eq_false_iff (header : SampleHeader) (eos eod : ℕ) :
    reader.isBad header eos eod = false ↔ reader.AcceptableHeader header ∧ eos ≤ eod := by
  simp only [isBad, Bool.or_eq_false_iff, decide_eq_false_iff_not, not_not, not_lt,
    gt_iff_lt, ne_eq]
  constructor
  · rintro ⟨⟨⟨⟨⟨⟨htype, hdsm⟩, heos⟩, hle⟩, hne⟩, hmin⟩, hmax⟩
    exact ⟨⟨htype, hdsm, Nat.pos_of_ne_zero hne, hle, hmin, hmax⟩, heos⟩
  · rintro ⟨⟨htype, hdsm, hpos, hle, hmin, hmax⟩, heos⟩
    exact ⟨⟨⟨⟨⟨⟨htype, hdsm⟩, heos⟩, hle⟩, hpos.ne'⟩, hmin⟩, hmax⟩

/-! ## The walk -/

theorem headerAt_drop (pkt : List UInt8) (dptr : ℕ) :
    headerAt (pkt.drop dptr) 0 = headerAt pkt dptr := by
  rw [headerAt, List.drop_zero, headerAt]

/-- A complete sample with an acceptable header stands in front of the rest of the packet. -/
theorem exists_acceptable {pkt : List UInt8} {dptr : ℕ}
    (hheader : reader.AcceptableHeader (headerAt pkt dptr))
    (heos : dptr + sampleHeaderSize + (headerAt pkt dptr).dataByteLength ≤ pkt.length) :
    ∃ item, reader.Acceptable item ∧ pkt.drop dptr =
      item ++ pkt.drop (dptr + sampleHeaderSize + (headerAt pkt dptr).dataByteLength) := by
  let length := sampleHeaderSize + (headerAt pkt dptr).dataByteLength
  let item := (pkt.drop dptr).take length
  have hlength : item.length = length := by
    apply List.length_take_of_le
    rw [List.length_drop]
    omega
  have hsame : headerAt item 0 = headerAt pkt dptr := by
    rw [← headerAt_drop pkt dptr]
    apply headerAt_front (List.take_prefix ..)
    rw [hlength]
    exact Nat.le_add_right ..
  refine ⟨item, ⟨hsame ▸ hheader, ?_⟩, ?_⟩
  · rw [hlength, hsame]
  · rw [Nat.add_assoc, ← List.drop_drop]
    exact (List.take_append_drop length (pkt.drop dptr)).symm

/-- The walk from `dptr` on ends behind the longest prefix of what follows. -/
theorem longestPrefix_checkLoop (reader : PacketReader) (pkt : List UInt8) (dptr : ℕ) :
    ∃ part, LongestPrefix reader.Acceptable (pkt.drop dptr) part ∧
      (reader.checkLoop pkt dptr).2 = dptr + part.length := by
  fun_induction checkLoop reader pkt dptr with
  | case1 dptr hlt hshort =>
      refine ⟨[], .of_none ?_, rfl⟩
      intro item hfront hitem
      have hle := hfront.length_le
      have hge := hitem.length_ge
      rw [List.length_drop] at hle
      omega
  | case2 dptr hlt hlong header eos hbad =>
      refine ⟨[], .of_none ?_, rfl⟩
      intro item hfront hitem
      have hheader : headerAt item 0 = header :=
        (headerAt_front hfront hitem.length_ge).trans (headerAt_drop pkt dptr)
      have hle := hfront.length_le
      rw [List.length_drop, hitem.length_eq, hheader] at hle
      have hgood : reader.isBad header eos pkt.length = false := by
        rw [isBad_eq_false_iff]
        exact ⟨hheader ▸ hitem.header, by omega⟩
      exact absurd hbad (by simp [hgood])
  | case3 dptr hlt hlong header eos hgood ih =>
      obtain ⟨hheader, heos⟩ :=
        (isBad_eq_false_iff header eos pkt.length).mp (Bool.eq_false_of_not_eq_true hgood)
      obtain ⟨item, hitem, hsplit⟩ := exists_acceptable hheader heos
      obtain ⟨part, hpart, hend⟩ := ih
      refine ⟨item ++ part, ?_, ?_⟩
      · rw [hsplit]
        exact hpart.cons (prefixFree_acceptable reader) hitem
      · have hlength : (pkt.drop dptr).length = (item ++ pkt.drop eos).length := by rw [← hsplit]
        rw [List.length_append, List.length_drop, List.length_drop] at hlength
        rw [hend, List.length_append]
        omega
  | case4 dptr hend =>
      have hempty : pkt.drop dptr = [] := List.drop_eq_nil_of_le (Nat.not_lt.mp hend)
      refine ⟨[], .of_none ?_, rfl⟩
      intro item hfront hitem
      have hge := hitem.length_ge
      rw [hempty, List.prefix_nil] at hfront
      rw [hfront] at hge
      exact absurd hge (by decide)

/-- What `checkPacket` leaves of a packet. -/
theorem longestPrefix_checkPacket (reader : PacketReader) (pkt : List UInt8) :
    LongestPrefix reader.Acceptable pkt (reader.checkPacket pkt).2 := by
  obtain ⟨part, hpart, hend⟩ := longestPrefix_checkLoop reader pkt 0
  rw [List.drop_zero] at hpart
  have hkept : (reader.checkPacket pkt).2 = part := by
    rw [checkPacket]
    dsimp only
    rw [hend, Nat.zero_add]
    exact (List.prefix_iff_eq_take.mp hpart.isPrefix).symm
  rw [hkept]
  exact hpart

theorem reject_rejectedPackets (bad : BadPacket) :
    (reader.reject bad).rejectedPackets = reader.rejectedPackets + 1 := by
  unfold reject
  dsimp only
  split <;> rfl

theorem rejectedPackets_checkLoop (reader : PacketReader) (pkt : List UInt8) (dptr : ℕ) :
    (reader.checkLoop pkt dptr).1.rejectedPackets =
      if (reader.checkLoop pkt dptr).2 < pkt.length then reader.rejectedPackets + 1
      else reader.rejectedPackets := by
  fun_induction checkLoop reader pkt dptr with
  | case1 dptr hlt hshort => rw [if_pos hlt, reject_rejectedPackets]
  | case2 dptr hlt hlong header eos hbad => rw [if_pos hlt, reject_rejectedPackets]
  | case3 dptr hlt hlong header eos hgood ih => exact ih
  | case4 dptr hend => rw [if_neg hend]

/-- A packet is counted as rejected exactly if it is shortened. -/
theorem rejectedPackets_checkPacket (reader : PacketReader) (pkt : List UInt8) :
    (reader.checkPacket pkt).1.rejectedPackets = reader.rejectedPackets ↔
      (reader.checkPacket pkt).2 = pkt := by
  have hcount := rejectedPackets_checkLoop reader pkt 0
  rw [checkPacket]
  dsimp only
  rw [hcount, List.take_eq_self_iff]
  split <;> omega

/-! ## Packets of samples -/

/-- A sample that the relay is meant to pass on: characters, not empty, within the limits. -/
structure InLimits (reader : PacketReader) (sample : Sample) : Prop where
  encodable : sample.Encodable
  type_eq : sample.type = .char
  length_pos : 0 < sample.data.length
  length_le : sample.data.length ≤ reader.maxSampleLength
  dsmId_le : (sample.id / 2 ^ 16 : ℕ) ≤ reader.maxDsmId
  timeTag_ge : reader.minSampleTime ≤ sample.timeTag
  timeTag_le : sample.timeTag ≤ reader.maxSampleTime

theorem headerAt_encode {sample : Sample} (hencodable : sample.Encodable) :
    headerAt sample.encode 0 = sample.header := by
  rw [headerAt, List.drop_zero, Sample.encode,
    List.take_left' (SampleHeader.length_toBytes sample.header)]
  exact hencodable.ofBytes_header

theorem InLimits.acceptable {sample : Sample} (hlimits : reader.InLimits sample) :
    reader.Acceptable sample.encode := by
  have hheader := headerAt_encode hlimits.encodable
  have hdsm : sample.header.dsmId = sample.id / 2 ^ 16 := by
    have hid := hlimits.encodable.header_id
    rw [SampleHeader.id] at hid
    rw [SampleHeader.dsmId, hid]
  refine ⟨?_, ?_⟩
  · rw [hheader]
    refine ⟨?_, ?_, hlimits.length_pos, hlimits.length_le, hlimits.timeTag_ge, hlimits.timeTag_le⟩
    · rw [hlimits.encodable.header_type, hlimits.type_eq]
    · rw [hdsm]
      exact hlimits.dsmId_le
  · rw [hheader, Sample.length_encode]
    rfl

theorem concatenation_of_inLimits {samples : List Sample}
    (hlimits : ∀ sample ∈ samples, reader.InLimits sample) :
    Concatenation reader.Acceptable (samples.flatMap Sample.encode) := by
  refine ⟨samples.map Sample.encode, ?_, List.flatMap_def.symm⟩
  intro item hitem
  obtain ⟨sample, hsample, rfl⟩ := List.mem_map.mp hitem
  exact (hlimits sample hsample).acceptable

end PacketReader

/-- **Packing and screening agree.**  For every run of a `UDPSampleOutput`, the datagrams are
concatenations of whole samples and with the buffer hold every sample once and in order.  Any packet
is shortened to its longest prefix of complete acceptable samples, and a datagram of samples within
the limits is not shortened. -/
theorem packing_agrees_with_screening :
    (∀ events : List UDPSampleOutput.Event,
      Packed Sample.encode (UDPSampleOutput.received events) (UDPSampleOutput.run events).datagrams
        (UDPSampleOutput.run events).pending) ∧
    (∀ (reader : PacketReader) (pkt : List UInt8),
      LongestPrefix reader.Acceptable pkt (reader.checkPacket pkt).2) ∧
    ∀ (reader : PacketReader) (samples : List Sample),
      (∀ sample ∈ samples, reader.InLimits sample) →
        (reader.checkPacket (samples.flatMap Sample.encode)).2 = samples.flatMap Sample.encode := by
  refine ⟨UDPSampleOutput.packed_run, PacketReader.longestPrefix_checkPacket, ?_⟩
  intro reader samples hlimits
  have hlongest := reader.longestPrefix_checkPacket (samples.flatMap Sample.encode)
  exact hlongest.eq_self (PacketReader.concatenation_of_inLimits hlimits)

/-- Two samples of one byte each, from a DSM with the id 2, one second apart. -/
theorem screening_keeps_two_samples :
    let reader : PacketReader := { minSampleTime := 0, maxSampleTime := 3000000 }
    let samples : List Sample := [⟨1000000, .char, 2 * 2 ^ 16 + 10, [65]⟩,
      ⟨2000000, .char, 2 * 2 ^ 16 + 10, [66]⟩]
    (∀ sample ∈ samples, reader.InLimits sample) ∧
      (reader.checkPacket (samples.flatMap Sample.encode)).2 = samples.flatMap Sample.encode := by
  intro reader samples
  have hlimits : ∀ sample ∈ samples, reader.InLimits sample := by
    intro sample hsample
    rcases List.mem_pair.mp hsample with rfl | rfl
    · exact ⟨⟨by decide, by decide, by decide, by decide, by decide⟩, rfl, by decide, by decide,
        by decide, by decide, by decide⟩
    · exact ⟨⟨by decide, by decide, by decide, by decide, by decide⟩, rfl, by decide, by decide,
        by decide, by decide, by decide⟩
  exact ⟨hlimits, packing_agrees_with_screening.2.2 reader samples hlimits⟩

end Nidas.Apps
