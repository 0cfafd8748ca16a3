/-
  What a client remembers of a server (`QuicCryptoClientConfig::CachedState`).

  The cached state holds the server config and the proof for it: the certificate chain,
  the hash of the hello that was answered and the signature.  A flag says that the proof
  has been verified.

  `SetServerConfig` refuses a config that does not parse, has no expiry or has expired.
  It stores the expiry before it compares it with the time, so that an expired config
  leaves its expiry behind; otherwise a refused config changes nothing
  (`setServerConfig_unchanged_iff`).

  Times are in microseconds.
-/
import Puic.CryptoFramer

namespace Puic

open CryptoHandshakeMessage

def kSCFG : QuicTag := quicTag 'S' 'C' 'F' 'G'
def kEXPY : QuicTag := quicTag 'E' 'X' 'P' 'Y'
def kSTTL : QuicTag := quicTag 'S' 'T' 'T' 'L'
def kPROF : QuicTag := quicTag 'P' 'R' 'O' 'F'
def kSourceAddressTokenTag : QuicTag := quicTag 'S' 'T' 'K' (Char.ofNat 0)
def kCertificateTag : QuicTag := quicTag 'C' 'R' 'T' (Char.ofNat 255)
def kCertificateSCTTag : QuicTag := quicTag 'C' 'S' 'C' 'T'

def kNumSecondsPerWeek : ℕ := 60 * 60 * 24 * 7

namespace QuicWallTime

def fromUNIXSeconds (seconds : ℕ) : ℕ := seconds * 1000000 % 2 ^ 64

/-- A sum that does not fit stops at the last time there is. -/
def add (time seconds : ℕ) : ℕ := min (time + seconds * 1000000) (2 ^ 64 - 1)

end QuicWallTime

/-- What `SetServerConfig` returns. -/
inductive ServerConfigState where
  | invalid
  | expired
  | invalidExpiry
  | valid
deriving Repr, DecidableEq

def ServerConfigState.errorDetails : ServerConfigState → String
  | .invalid => "SCFG invalid"
  | .expired => "SCFG has expired"
  | .invalidExpiry => "SCFG missing EXPY"
  | .valid => ""

structure CachedState where
  serverConfig : List UInt8
  sourceAddressToken : List UInt8
  certs : List (List UInt8)
  certSct : List UInt8
  chloHash : List UInt8
  serverConfigSig : List UInt8
  serverConfigValid : Bool
  expirationTime : ℕ
  generationCounter : ℕ
  scfg : Option CryptoHandshakeMessage

namespace CachedState

def new : CachedState := ⟨[], [], [], [], [], [], false, 0, 0, none⟩

variable (s : CachedState)

def isEmpty : Bool := s.serverConfig.isEmpty

/-- The config is parsed when it is first asked for. -/
def getServerConfig : Option CryptoHandshakeMessage × CachedState :=
  if s.serverConfig = [] then (none, s)
  else match s.scfg with
    | some scfg => (some scfg, s)
    | none => (CryptoFramer.parseMessage s.serverConfig,
        { s with scfg := CryptoFramer.parseMessage s.serverConfig })

def isComplete (now : ℕ) : Bool :=
  !s.isEmpty && s.serverConfigValid && s.getServerConfig.1.isSome && decide (now < s.expirationTime)

def setProofInvalid : CachedState :=
  { s with serverConfigValid := false, generationCounter := s.generationCounter + 1 }

def setServerConfig (serverConfig : List UInt8) (now expiryTime : ℕ) : ServerConfigState × CachedState :=
  let matchesExisting := serverConfig = s.serverConfig
  let (newScfg, s) :=
    if matchesExisting then s.getServerConfig else (CryptoFramer.parseMessage serverConfig, s)
  match newScfg with
  | none => (.invalid, s)
  | some scfg =>
    match if expiryTime = 0 then (scfg.getUint64 kEXPY).map QuicWallTime.fromUNIXSeconds
      else some expiryTime with
    | none => (.invalidExpiry, s)
    | some expiry =>
      let s := { s with expirationTime := expiry }
      if expiry < now then (.expired, s)
      else (.valid, if matchesExisting then
        s else { s.setProofInvalid with serverConfig, scfg := some scfg })

def setProof (certs : List (List UInt8)) (certSct chloHash signature : List UInt8) : CachedState :=
  if signature ≠ s.serverConfigSig ∨ chloHash ≠ s.chloHash ∨ certs ≠ s.certs then
    { s.setProofInvalid with certs, certSct, chloHash, serverConfigSig := signature }
  else s

def clearProof : CachedState :=
  { s.setProofInvalid with certs := [], certSct := [], chloHash := [], serverConfigSig := [] }

/-- The expiry that a message gives a config, if it does: at most a week from now. -/
def timeToLive (message : CryptoHandshakeMessage) (now : ℕ) : ℕ :=
  match message.getUint64 kSTTL with
  | some seconds => QuicWallTime.add now (min seconds kNumSecondsPerWeek)
  | none => 0

/-- `CacheNewServerConfig`; `chain` is what `DecompressChain` makes of the certificates. -/
def cacheNewServerConfig (message : CryptoHandshakeMessage) (now : ℕ) (chloHash : List UInt8)
    (chain : Option (List (List UInt8))) : Option CryptoError × CachedState :=
  match message.getStringPiece kSCFG with
  | none => (some ⟨.messageParameterNotFound, "Missing SCFG"⟩, s)
  | some scfg =>
    let (state, s) := s.setServerConfig scfg now (timeToLive message now)
    if state = .expired then (some ⟨.serverConfigExpired, state.errorDetails⟩, s)
    else if state ≠ .valid then (some ⟨.invalidMessageParameter, state.errorDetails⟩, s)
    else
      let s := { s with sourceAddressToken :=
        (message.getStringPiece kSourceAddressTokenTag).getD s.sourceAddressToken }
      match message.getStringPiece kPROF, message.getStringPiece kCertificateTag with
      | some proof, some _ =>
        match chain with
        | none => (some ⟨.invalidMessageParameter, "Certificate data invalid"⟩, s)
        | some certs => (none,
            s.setProof certs ((message.getStringPiece kCertificateSCTTag).getD []) chloHash proof)
      | some _, none => (some ⟨.invalidMessageParameter, "Certificate missing"⟩, s.clearProof)
      | none, some _ => (some ⟨.invalidMessageParameter, "Proof missing"⟩, s.clearProof)
      | none, none => (none, s.clearProof)

/-! ## What can be seen of a cached state -/

/-- All of it, with the config as `GetServerConfig` returns it. -/
def observed : CachedState := { s with scfg := s.getServerConfig.1 }

variable {s s' : CachedState} {serverConfig : List UInt8} {now expiryTime : ℕ}

theorem observed_getServerConfig : s.getServerConfig.2.observed = s.observed := by
  unfold getServerConfig
  split_ifs with h
  · rfl
  · cases hs : s.scfg with
    | some scfg => rfl
    | none =>
      unfold observed getServerConfig
      rw [if_neg h, if_neg h, hs]
      cases CryptoFramer.parseMessage s.serverConfig <;> rfl

theorem observed_expirationTime {expiry : ℕ} :
    { s with expirationTime := expiry }.observed = { s.observed with expirationTime := expiry } := by
  unfold observed getServerConfig
  split_ifs
  · rfl
  · cases s.scfg <;> rfl

theorem isComplete_congr (h : s'.observed = s.observed) (time : ℕ) :
    s'.isComplete time = s.isComplete time := by
  have hconfig : s'.serverConfig = s.serverConfig := (congrArg CachedState.serverConfig h :)
  have hvalid : s'.serverConfigValid = s.serverConfigValid := (congrArg CachedState.serverConfigValid h :)
  have hscfg : s'.getServerConfig.1 = s.getServerConfig.1 := (congrArg CachedState.scfg h :)
  have hexpiry : s'.expirationTime = s.expirationTime := (congrArg CachedState.expirationTime h :)
  unfold isComplete isEmpty
  rw [hconfig, hvalid, hscfg, hexpiry]

/-- The config with the given bytes, as far as it is known or parses. -/
def configFor (s : CachedState) (serverConfig : List UInt8) : Option CryptoHandshakeMessage :=
  if serverConfig = s.serverConfig then s.getServerConfig.1 else CryptoFramer.parseMessage serverConfig

/-- The expiry of a config: the one that is given, or else its own. -/
def expiryFor (s : CachedState) (serverConfig : List UInt8) (expiryTime : ℕ) : Option ℕ :=
  (s.configFor serverConfig).bind fun scfg =>
    if expiryTime = 0 then (scfg.getUint64 kEXPY).map QuicWallTime.fromUNIXSeconds else some expiryTime

theorem setServerConfig_eq (s : CachedState) (serverConfig : List UInt8) (now expiryTime : ℕ) :
    ∃ t, t.observed = s.observed ∧ s.setServerConfig serverConfig now expiryTime =
      match s.configFor serverConfig with
      | none => (.invalid, t)
      | some scfg =>
        match s.expiryFor serverConfig expiryTime with
        | none => (.invalidExpiry, t)
        | some expiry =>
          if expiry < now then (.expired, { t with expirationTime := expiry })
          else (.valid, if serverConfig = s.serverConfig then { t with expirationTime := expiry }
            else { t.setProofInvalid with expirationTime := expiry, serverConfig, scfg := some scfg }) := by
  unfold setServerConfig expiryFor configFor
  by_cases h : serverConfig = s.serverConfig
  · refine ⟨s.getServerConfig.2, observed_getServerConfig, ?_⟩
    simp only [h, if_true]
    cases s.getServerConfig.1 with
    | none => rfl
    | some scfg => rfl
  · refine ⟨s, rfl, ?_⟩
    simp only [h, if_false]
    cases CryptoFramer.parseMessage serverConfig with
    | none => rfl
    | some scfg => rfl

/-! ## Refused configs -/

/-- Nothing has changed that anyone can see, now or at another time. -/
def Unchanged (s s' : CachedState) : Prop :=
  s'.observed = s.observed ∧ ∀ time, s'.isComplete time = s.isComplete time

theorem unchanged_iff : s.Unchanged s' ↔ s'.observed = s.observed :=
  ⟨And.left, fun h => ⟨h, isComplete_congr h⟩⟩

/-- An expiry in the past is the one that was there before. -/
def ExpiryKept (s : CachedState) (serverConfig : List UInt8) (now expiryTime : ℕ) : Prop :=
  ∀ expiry, s.expiryFor serverConfig expiryTime = some expiry → expiry < now → expiry = s.expirationTime

theorem setServerConfig_unchanged_iff :
    ((s.setServerConfig serverConfig now expiryTime).1 ≠ .valid →
      s.Unchanged (s.setServerConfig serverConfig now expiryTime).2) ↔
        s.ExpiryKept serverConfig now expiryTime := by
  obtain ⟨t, ht, heq⟩ := setServerConfig_eq s serverConfig now expiryTime
  rw [heq, unchanged_iff]
  unfold ExpiryKept
  cases hconfig : s.configFor serverConfig with
  | none => simp [ht, expiryFor, hconfig]
  | some scfg =>
    cases hexpiry : s.expiryFor serverConfig expiryTime with
    | none => simp [ht]
    | some expiry =>
      dsimp only
      split_ifs with hlt
      · have hfields : { t with expirationTime := expiry }.observed =
            { s.observed with expirationTime := expiry } := by
          rw [← ht, observed_expirationTime]
        rw [hfields]
        constructor
        · intro h e he _
          obtain rfl := Option.some.inj he
          exact (congrArg CachedState.expirationTime (h (by simp)) :)
        · intro h _
          rw [h expiry rfl hlt]
          rfl
      · simp [hlt]
      · simp [hlt]

/-- After a config was refused, nothing else is cached. -/
theorem cacheNewServerConfig_refused {message : CryptoHandshakeMessage} {chloHash : List UInt8}
    {chain : Option (List (List UInt8))}
    (hscfg : message.getStringPiece kSCFG = some serverConfig)
    (h : (s.setServerConfig serverConfig now (timeToLive message now)).1 ≠ .valid) :
    (s.cacheNewServerConfig message now chloHash chain).2 =
      (s.setServerConfig serverConfig now (timeToLive message now)).2 := by
  unfold cacheNewServerConfig
  rw [hscfg]
  dsimp only
  split_ifs
  · rfl
  · rfl

/-- A refused config changes nothing unless it leaves behind an expiry in the past. -/
theorem refused_config_unchanged_iff (s : CachedState) :
    (∀ serverConfig now expiryTime,
      ((s.setServerConfig serverConfig now expiryTime).1 ≠ .valid →
        s.Unchanged (s.setServerConfig serverConfig now expiryTime).2) ↔
          s.ExpiryKept serverConfig now expiryTime) ∧
    (∀ (message : CryptoHandshakeMessage) serverConfig now chloHash chain,
      message.getStringPiece kSCFG = some serverConfig →
      (((s.setServerConfig serverConfig now (timeToLive message now)).1 ≠ .valid →
        s.Unchanged (s.cacheNewServerConfig message now chloHash chain).2) ↔
          s.ExpiryKept serverConfig now (timeToLive message now))) := by
  refine ⟨fun serverConfig now expiryTime => setServerConfig_unchanged_iff,
    fun message serverConfig now chloHash chain hscfg => ?_⟩
  rw [← setServerConfig_unchanged_iff]
  constructor
  · intro h hstate
    rw [← cacheNewServerConfig_refused hscfg hstate]
    exact h hstate
  · intro h hstate
    rw [cacheNewServerConfig_refused hscfg hstate]
    exact h hstate

/-- A complete state is no longer complete after its own config came again with an expiry that has
    passed. -/
theorem expired_config_damages :
    let scfg : List UInt8 := [0x53, 0x43, 0x46, 0x47, 0, 0, 0, 0]
    let s : CachedState :=
      { new with serverConfig := scfg, serverConfigValid := true, expirationTime := 100 }
    let (state, s') := s.setServerConfig scfg 2 1
    state = .expired ∧ s.isComplete 2 = true ∧ s'.isComplete 2 = false ∧ s'.expirationTime = 1 := by
  decide +kernel

end CachedState

end Puic
