/-
  The public header of a datagram, and its two parsers.

  `QuicFramer::ProcessPublicHeader` (quic_framer.cc) is the parser of the protocol.
  The dialer has one of its own, `ReadPuicSessionId` (puic_session_base.cc): it has to
  know the connection before there is a framer to ask, it reads the connection id and
  nothing else, and it answers `0` for a datagram without one.

  `readPuicSessionId_eq`: where the framer finds an 8-byte connection id, the dialer
  reads the same one.
-/
import Mathlib.Data.Nat.Notation

namespace Puic

/-! ## Reading bytes -/

/-- `QuicDataReader::ReadBytes`, with the bytes that are left. -/
def readBytes (n : ℕ) (data : List UInt8) : Option (List UInt8 × List UInt8) :=
  if n ≤ data.length then some (data.take n, data.drop n) else none

/-- `QuicEndian::NetToHost`. -/
def netToHost (bytes : List UInt8) : ℕ := bytes.foldl (fun n b => n * 256 + b.toNat) 0

/-- `QuicDataReader::ReadConnectionId`. -/
def readConnectionId (data : List UInt8) : Option (ℕ × List UInt8) :=
  (readBytes 8 data).map fun r => (netToHost r.1, r.2)

def readUInt8 : List UInt8 → Option (UInt8 × List UInt8)
  | [] => none
  | b :: data => some (b, data)

/-! ## The framer -/

inductive Perspective where
  | isServer
  | isClient
deriving Repr, DecidableEq

/-- `QuicConnectionIdLength`. -/
inductive ConnectionIdLength where
  | packet0Byte
  | packet8Byte
deriving Repr, DecidableEq

/-- `QuicPacketNumberLength`. -/
inductive PacketNumberLength where
  | packet1Byte
  | packet2Byte
  | packet4Byte
  | packet6Byte
deriving Repr, DecidableEq

/-- `ParsedQuicVersion`; TLS handshakes are switched off. -/
inductive QuicVersion where
  | unsupported
  | quic39
  | quic41
  | quic42
  | quic43
deriving Repr, DecidableEq

/-- `PACKET_PUBLIC_FLAGS_*`. -/
def flagVersion : UInt8 := 0x01
def flagRst : UInt8 := 0x02
def flagNonce : UInt8 := 0x04
def flag8ByteConnectionId : UInt8 := 0x08
def flagsMax : UInt8 := 0x3f

def hasFlag (flags flag : UInt8) : Bool := flags &&& flag != 0

structure QuicFramer where
  perspective : Perspective
  version : QuicVersion
  validateFlags : Bool
  lastSerializedConnectionId : ℕ

structure QuicPacketHeader where
  connectionId : ℕ
  connectionIdLength : ConnectionIdLength
  resetFlag : Bool
  versionFlag : Bool
  packetNumberLength : PacketNumberLength
  version : QuicVersion
  nonce : Option (List UInt8)
deriving Repr, DecidableEq

/-- `ReadSequenceNumberLength` of the flags shifted by `kPublicHeaderSequenceNumberShift`. -/
def readSequenceNumberLength (flags : UInt8) : PacketNumberLength :=
  match (flags >>> 4) &&& 3 with
  | 3 => .packet6Byte
  | 2 => .packet4Byte
  | 1 => .packet2Byte
  | _ => .packet1Byte

/-- `CreateQuicVersionLabel`: the four letters as they are on the wire. -/
def createQuicVersionLabel : QuicVersion → Option (List UInt8)
  | .unsupported => none
  | .quic39 => some [0x51, 0x30, 0x33, 0x39]
  | .quic41 => some [0x51, 0x30, 0x34, 0x31]
  | .quic42 => some [0x51, 0x30, 0x34, 0x32]
  | .quic43 => some [0x51, 0x30, 0x34, 0x33]

/-- `ParseQuicVersionLabel`, in the order of `kSupportedTransportVersions`. -/
def parseQuicVersionLabel (label : List UInt8) : QuicVersion :=
  ([.quic43, .quic42, .quic41, .quic39].find? fun v => createQuicVersionLabel v = some label).getD
    .unsupported

/-- `DiversificationNonce`. -/
def nonceSize : ℕ := 32

namespace QuicFramer

variable (f : QuicFramer) (flags : UInt8) (data : List UInt8)

/-- The connection id of `ProcessPublicHeader`. -/
def processConnectionId :
    Except String ((ℕ × ConnectionIdLength) × List UInt8) :=
  if hasFlag flags flag8ByteConnectionId then
    match readConnectionId data with
    | none => .error "Unable to read ConnectionId."
    | some (id, rest) => .ok ((id, .packet8Byte), rest)
  else .ok ((f.lastSerializedConnectionId, .packet0Byte), data)

/-- The version of `ProcessPublicHeader`, which only a server reads. -/
def processVersion :
    Except String (QuicVersion × List UInt8) :=
  if hasFlag flags flagVersion && f.perspective == .isServer then
    match readBytes 4 data with
    | none => .error "Unable to read protocol version."
    | some (label, rest) =>
      let version := parseQuicVersionLabel label
      if version = f.version ∧ flags > flagsMax then .error "Illegal public flags value."
      else .ok (version, rest)
  else .ok (.unsupported, data)

/-- The nonce of `ProcessPublicHeader`, which only a server sends. -/
def processNonce :
    Except String (Option (List UInt8) × List UInt8) :=
  if hasFlag flags flagNonce && !hasFlag flags flagVersion &&
      !hasFlag flags flagRst && f.perspective == .isClient then
    match readBytes nonceSize data with
    | none => .error "Unable to read nonce."
    | some (nonce, rest) => .ok (some nonce, rest)
  else .ok (none, data)

/-- `ProcessPublicHeader`: the header, and what comes after it. -/
def processPublicHeader :
    Except String (QuicPacketHeader × List UInt8) := do
  match readUInt8 data with
  | none => .error "Unable to read public flags."
  | some (flags, data) =>
    let resetFlag := hasFlag flags flagRst
    let versionFlag := hasFlag flags flagVersion
    if f.validateFlags && !versionFlag && flags > flagsMax then
      .error "Illegal public flags value."
    else if resetFlag && versionFlag then .error "Got version flag in reset packet"
    else
      let (id, data) ← f.processConnectionId flags data
      let (version, data) ← f.processVersion flags data
      let (nonce, data) ← f.processNonce flags data
      .ok ({ connectionId := id.1
             connectionIdLength := id.2
             resetFlag
             versionFlag
             packetNumberLength := readSequenceNumberLength flags
             version
             nonce }, data)

end QuicFramer

/-! ## The dialer's parser -/

/-- `ReadPuicSessionId`. -/
def readPuicSessionId (packet : List UInt8) : ℕ :=
  match readUInt8 packet with
  | none => 0
  | some (flags, data) =>
    if hasFlag flags flag8ByteConnectionId then
      match readConnectionId data with
      | none => 0
      | some (id, _) => id
    else 0

theorem processConnectionId_ok {f : QuicFramer} {flags : UInt8} {data rest : List UInt8} {id : ℕ}
    (h : f.processConnectionId flags data = .ok ((id, .packet8Byte), rest)) :
    hasFlag flags flag8ByteConnectionId = true ∧ readConnectionId data = some (id, rest) := by
  unfold QuicFramer.processConnectionId at h
  split at h
  · next hf =>
    split at h
    · cases h
    · next hr => cases h; exact ⟨hf, hr⟩
  · cases h

/-- **The two parsers agree** on the datagrams with an 8-byte connection id. -/
theorem readPuicSessionId_eq {f : QuicFramer} {data rest : List UInt8} {h : QuicPacketHeader}
    (hp : f.processPublicHeader data = .ok (h, rest)) (hl : h.connectionIdLength = .packet8Byte) :
    readPuicSessionId data = h.connectionId := by
  unfold QuicFramer.processPublicHeader at hp
  split at hp
  · cases hp
  next flags data' hflags =>
  dsimp only at hp
  split at hp
  · cases hp
  split at hp
  · cases hp
  cases hid : f.processConnectionId flags data' with
  | error e => rw [hid] at hp; cases hp
  | ok r =>
  obtain ⟨⟨id, len⟩, data₁⟩ := r
  -- the rest of the header does not touch the connection id
  have hh : h.connectionId = id ∧ h.connectionIdLength = len := by
    rw [hid] at hp
    cases hv : f.processVersion flags data₁ with
    | error e => simp [bind, Except.bind, hv] at hp
    | ok v =>
      cases hn : f.processNonce flags v.2 with
      | error e => simp [bind, Except.bind, hv, hn] at hp
      | ok n =>
        simp only [bind, Except.bind, hv, hn, Except.ok.injEq, Prod.mk.injEq] at hp
        obtain ⟨rfl, -⟩ := hp
        exact ⟨rfl, rfl⟩
  obtain ⟨rfl, rfl⟩ := hh
  rw [hl] at hid
  obtain ⟨hf, hr⟩ := processConnectionId_ok hid
  simp [readPuicSessionId, hflags, hf, hr]

end Puic
