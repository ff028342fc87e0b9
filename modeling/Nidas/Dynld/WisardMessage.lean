import Nidas.Lib.LittleEndian
import Nidas.Lib.MachineInt

/-!
# The messages of Wisard motes

A message has an `ID` marker with the number of a mote, a version, a type and data, then a checksum
and the end marker.  `checkEOM` and `checkCRC` test the last two, `readHead` reads the first ones.

A pointer into a message is what is behind it, up to the end that the code has found so far, and a
function that moves its pointer returns the rest.  `checkCRC` moves its own one to the marker when
the checksum is wrong, and returns the end of the data only.  Here it returns how far it has moved
(`checkCRC_eq_some_iff`).  Counters of messages for the log are left out.
-/

namespace Nidas.Dynld.Wisard

open Lib

/-! ## The end of a message -/

/-- The end marker, `"\x03\x04\r"` -/
def eom : List UInt8 := [0x03, 0x04, 0x0d]

/-- `checkEOM`: what is in front of the end marker.  A NUL behind it is dropped. -/
def checkEOM (msg : List UInt8) : Option (List UInt8) :=
  if msg.length < 4 then none
  else
    let ended := if msg.getLast? = some 0 then msg.dropLast else msg
    if ended.drop (ended.length - 3) = eom then some (ended.take (ended.length - 3)) else none

/-- The checksum of some bytes: their number, and all of them. -/
def checksum (bytes : List UInt8) : UInt8 := bytes.foldl (· ^^^ ·) (UInt8.ofNat bytes.length)

/-- The last byte is the checksum of those in front of it, of which there is at least one. -/
def ChecksumRight (cp : List UInt8) : Prop :=
  1 < cp.length ∧ cp.getLast? = some (checksum cp.dropLast)

instance (cp : List UInt8) : Decidable (ChecksumRight cp) :=
  inferInstanceAs (Decidable (_ ∧ _))

/-- `strstr(cp, "ID")`: the number of bytes in front of the first marker.  The end of the message
has no part of a marker. -/
def findID : List UInt8 → Option ℕ
  | [] => none
  | c :: rest =>
      if c = 0 then none
      else if c = 0x49 ∧ rest.head? = some 0x44 then some 0
      else (findID rest).map (· + 1)

/-- `checkCRC`, with the number of bytes behind which the checksum is right. -/
def checkCRC (cp : List UInt8) : Option ℕ :=
  if cp.length ≤ 1 then none
  else if cp.getLast? = some (checksum cp.dropLast) then some 0
  else
    match findID cp with
    | none => none
    | some 0 => none
    | some (n + 1) => (checkCRC (cp.drop (n + 1))).map (· + (n + 1))
  termination_by cp.length
  decreasing_by
    rw [List.length_drop]
    omega

/-- The marker that is found has no marker in front of it. -/
theorem findID_drop {cp : List UInt8} {n : ℕ} (hfind : findID cp = some n) :
    findID (cp.drop n) = some 0 ∧ n < cp.length := by
  induction cp generalizing n with
  | nil => cases hfind
  | cons c rest ih =>
      have hwhole := hfind
      rw [findID] at hfind
      split at hfind
      · cases hfind
      · split at hfind
        · cases hfind
          exact ⟨hwhole, by rw [List.length_cons]; omega⟩
        · obtain ⟨m, hm, rfl⟩ := Option.map_eq_some_iff.mp hfind
          obtain ⟨hdrop, hlt⟩ := ih hm
          exact ⟨hdrop, by rw [List.length_cons]; omega⟩

/-- A marker is found at the beginning if and only if it is there. -/
theorem findID_eq_zero_iff {cp : List UInt8} : findID cp = some 0 ↔ cp.take 2 = [0x49, 0x44] := by
  cases cp with
  | nil => simp [findID]
  | cons c rest =>
      rw [findID]
      cases rest with
      | nil => simp [findID]
      | cons second rest =>
          by_cases hc : c = 0x49
          · subst hc
            by_cases hsecond : second = 0x44
            · simp [hsecond]
            · simp [hsecond]
          · simp [hc]

theorem checkCRC_of_right {cp : List UInt8} (hright : ChecksumRight cp) :
    checkCRC cp = some 0 := by
  rw [checkCRC, if_neg (by have := hright.1; omega), if_pos hright.2]

/-- Where a marker is at the beginning, the checksum is not looked for elsewhere. -/
theorem checkCRC_of_marker {cp : List UInt8} (hfind : findID cp = some 0) :
    checkCRC cp = if ChecksumRight cp then some 0 else none := by
  split
  · next hright => exact checkCRC_of_right hright
  · next hwrong =>
      rw [checkCRC]
      split
      · rfl
      · next hlength =>
          rw [if_neg fun hlast => hwrong ⟨by omega, hlast⟩, hfind]

/-- The checksum is right from the first byte on, or from the first marker on. -/
theorem checkCRC_eq_some_iff {cp : List UInt8} {p : ℕ} : checkCRC cp = some p ↔
    (p = 0 ∧ ChecksumRight cp) ∨
      (0 < p ∧ ¬ChecksumRight cp ∧ findID cp = some p ∧ ChecksumRight (cp.drop p)) := by
  by_cases hright : ChecksumRight cp
  · rw [checkCRC_of_right hright]
    constructor
    · intro hp
      exact .inl ⟨(Option.some.inj hp).symm, hright⟩
    · rintro (⟨rfl, -⟩ | ⟨-, hwrong, -⟩)
      · rfl
      · exact absurd hright hwrong
  · have hright' : ∀ q, ¬(q = 0 ∧ ChecksumRight cp) := fun q hq => hright hq.2
    rw [or_iff_right (hright' p)]
    cases hfind : findID cp with
    | none =>
        have hnone : checkCRC cp = none := by
          rw [checkCRC]
          split
          · rfl
          · next hlength => rw [if_neg fun hlast => hright ⟨by omega, hlast⟩, hfind]
        rw [hnone]
        simp
    | some n =>
        obtain ⟨hmarker, hlt⟩ := findID_drop hfind
        cases n with
        | zero =>
            rw [checkCRC_of_marker hfind, if_neg hright]
            constructor
            · intro hp
              cases hp
            · rintro ⟨hpos, -, hp, -⟩
              cases hp
              omega
        | succ n =>
            have hmoved : checkCRC cp = (checkCRC (cp.drop (n + 1))).map (· + (n + 1)) := by
              rw [checkCRC, if_neg (by omega), if_neg fun hlast => hright ⟨by omega, hlast⟩, hfind]
            rw [hmoved, checkCRC_of_marker hmarker]
            split
            · next hafter =>
                rw [Option.map_some, Nat.zero_add]
                constructor
                · intro hp
                  cases hp
                  exact ⟨Nat.succ_pos n, hright, rfl, hafter⟩
                · rintro ⟨-, -, hp, -⟩
                  exact hp
            · next hafter =>
                constructor
                · intro hp
                  cases hp
                · rintro ⟨-, -, hp, hp'⟩
                  cases hp
                  exact absurd hp' hafter

/-! ## The header -/

/-- `MessageHeader` -/
structure MessageHeader where
  moteId : ℤ
  version : ℤ
  messageType : ℤ
  deriving DecidableEq, Repr

/-- The members that are set from headers: the serial numbers by mote and sensor type, and the last
sequence numbers by mote. -/
structure Identities where
  serialNumbers : ℤ → ℤ → ℤ
  sequenceNumbers : ℤ → ℤ

/-- The value of a `char`. -/
def charValue (c : UInt8) : ℤ := toSigned 8 c.toNat

def isDigit (c : UInt8) : Bool := 0x30 ≤ c && c ≤ 0x39

/-- `atoi` of digits.  `strtol` gives the largest `long` when there are too many of them. -/
def atoi (digits : List UInt8) : ℤ :=
  let value := digits.foldl (fun value c => value * 10 + (c.toNat - 0x30)) 0
  toInt32 (min value (2 ^ 63 - 1) : ℕ)

/-- `readMoteId`, with the number that it reads, or nothing where it returns -1 by itself. -/
def readMoteId (cp : List UInt8) : Option (ℤ × List UInt8) :=
  if cp.length < 4 then none
  else if cp.take 2 = [0x49, 0x44] then
    let digits := (cp.drop 2).takeWhile isDigit
    if digits = [] then none
    else
      -- with digits up to the end it is one of them that is compared to the colon
      match (cp.drop 2).dropWhile isDigit with
      | 0x3a :: rest => some (atoi digits, rest)
      | _ => none
  else none

/-- The serial numbers of a message of type 0. -/
def readSerialNumbers (moteId : ℤ) : List UInt8 → (ℤ → ℤ → ℤ) → ℤ → ℤ → ℤ
  | sensorType :: low :: high :: cp, serials =>
      readSerialNumbers moteId cp
        (Function.update serials moteId
          (Function.update (serials moteId) (charValue sensorType) (ofLeBytes [low, high])))
  | _, serials => serials

/-- A header begins with the marker. -/
theorem readMoteId_of_take_ne {cp : List UInt8} (hne : cp.take 2 ≠ [0x49, 0x44]) :
    readMoteId cp = none := by
  unfold readMoteId
  rw [if_neg hne, ite_self]

/-- `readHead`: the header, what is behind it, and the members. -/
def readHead (cp : List UInt8) (ids : Identities) :
    Option (MessageHeader × List UInt8 × Identities) :=
  match readMoteId cp with
  | none => none
  | some (moteId, cp) =>
      if moteId < 0 then none
      else
        match cp with
        | version :: messageType :: cp =>
            let hdr : MessageHeader := ⟨moteId, charValue version, charValue messageType⟩
            if messageType = 0 then
              some (hdr, cp.drop (cp.length / 3 * 3),
                { ids with serialNumbers := readSerialNumbers moteId cp ids.serialNumbers })
            else if messageType = 1 then
              match cp with
              | sequence :: cp =>
                  some (hdr, cp, { ids with
                    sequenceNumbers :=
                      Function.update ids.sequenceNumbers moteId (charValue sequence) })
              | [] => none
            else if messageType = 2 then some (hdr, cp, ids)
            else none
        | _ => none

end Nidas.Dynld.Wisard
