/-
  Source-address tokens (quic_crypto_server_config.cc).

  A server gives a client a token, with which the client proves later that it owns its
  address.  The token is a sealed list: the address with the time, and the addresses of
  the token that the client brought, if they are not too old.  A new token is made from
  the tokens that are parsed out of the previous one, so its contents are a property of
  the whole history (`source_address_token_spec`).

  The loop stops when there are more than `kMaxTokenAddresses` addresses, so there can
  be one more than that.

  The boxer is an ideal encryption: what was sealed can be opened again.  Times are in
  microseconds and timestamps in seconds.
-/
import Puic.CachedState
import Mathlib.Data.List.Induction
import Mathlib.Data.List.Nodup

namespace Puic

open List

def kMaxTokenAddresses : ℕ := 4

/-- An address of 4 or 16 bytes. -/
abbrev QuicIpAddress := List UInt8

namespace QuicIpAddress

/-- An IPv4 address is mapped to an IPv6 address. -/
def dualStacked (ip : QuicIpAddress) : QuicIpAddress :=
  if ip.length = 4 then List.replicate 10 0 ++ [0xff, 0xff] ++ ip else ip

end QuicIpAddress

inductive HandshakeFailureReason where
  | handshakeOk
  | sourceAddressTokenDecryptionFailure
  | sourceAddressTokenParseFailure
  | sourceAddressTokenDifferentIpAddressFailure
  | sourceAddressTokenClockSkewFailure
  | sourceAddressTokenExpiredFailure
deriving Repr, DecidableEq

/-- The network parameters are not looked at. -/
structure SourceAddressToken where
  ip : QuicIpAddress
  timestamp : ℕ
  cachedNetworkParameters : Option (List UInt8)
deriving Repr, DecidableEq

/-- A secret boxer with its key. -/
structure SecretBoxer where
  box : ℕ → List UInt8 → List UInt8
  unbox : List UInt8 → Option (List UInt8)
  unbox_box : ∀ rand plaintext, unbox (box rand plaintext) = some plaintext

/-- How lists of tokens are serialized; a timestamp is an `int64`, and `parseToken` is the old format. -/
structure TokenFormat where
  serialize : List SourceAddressToken → List UInt8
  parseTokens : List UInt8 → Option (List SourceAddressToken)
  parseToken : List UInt8 → Option SourceAddressToken
  parse_serialize : ∀ tokens, (∀ token ∈ tokens, token.timestamp < 2 ^ 63) →
    parseTokens (serialize tokens) = some tokens

structure TokenConfig where
  boxer : SecretBoxer
  format : TokenFormat
  futureSecs : Fin (2 ^ 32)
  lifetimeSecs : Fin (2 ^ 32)

/-- A request for a token. -/
structure TokenRequest where
  ip : QuicIpAddress
  now : Fin (2 ^ 64)
  rand : ℕ
  cachedNetworkParameters : Option (List UInt8)

namespace QuicWallTime

/-- A difference that does not fit stops at the largest there is. -/
def absoluteDifference (time other : ℕ) : ℕ :=
  min (if other < time then time - other else other - time) (2 ^ 63 - 1)

end QuicWallTime

namespace TokenConfig

variable (c : TokenConfig)

def validateSourceAddressTokenTimestamp (token : SourceAddressToken) (now : ℕ) : HandshakeFailureReason :=
  let timestamp := QuicWallTime.fromUNIXSeconds token.timestamp
  let delta := QuicWallTime.absoluteDifference now timestamp
  if now < timestamp ∧ c.futureSecs < delta / 1000 / 1000 then .sourceAddressTokenClockSkewFailure
  else if timestamp < now ∧ c.lifetimeSecs < delta / 1000 / 1000 then .sourceAddressTokenExpiredFailure
  else .handshakeOk

/-- The loop over the previous tokens. -/
def appendPrevious (ip : QuicIpAddress) (now : ℕ) :
    List SourceAddressToken → List SourceAddressToken → List SourceAddressToken
  | tokens, [] => tokens
  | tokens, token :: previous =>
    if kMaxTokenAddresses < tokens.length then tokens
    else if token.ip = ip then appendPrevious ip now tokens previous
    else if c.validateSourceAddressTokenTimestamp token now ≠ .handshakeOk then
      appendPrevious ip now tokens previous
    else appendPrevious ip now (tokens ++ [token]) previous

def newSourceAddressToken (previous : List SourceAddressToken) (r : TokenRequest) : List UInt8 :=
  let token : SourceAddressToken := ⟨r.ip.dualStacked, r.now / 1000000, r.cachedNetworkParameters⟩
  c.boxer.box r.rand (c.format.serialize (c.appendPrevious token.ip r.now [token] previous))

def parseSourceAddressToken (token : List UInt8) : HandshakeFailureReason × List SourceAddressToken :=
  match c.boxer.unbox token with
  | none => (.sourceAddressTokenDecryptionFailure, [])
  | some plaintext =>
    match c.format.parseTokens plaintext with
    | some tokens => (.handshakeOk, tokens)
    | none =>
      match c.format.parseToken plaintext with
      | some token => (.handshakeOk, [token])
      | none => (.sourceAddressTokenParseFailure, [])

def validateSingleSourceAddressToken (token : SourceAddressToken) (ip : QuicIpAddress) (now : ℕ) :
    HandshakeFailureReason :=
  if token.ip ≠ ip.dualStacked then .sourceAddressTokenDifferentIpAddressFailure
  else c.validateSourceAddressTokenTimestamp token now

/-- The loop ends at the first token that is good. -/
def validateSourceAddressTokens (ip : QuicIpAddress) (now : ℕ) :
    HandshakeFailureReason → List SourceAddressToken → HandshakeFailureReason
  | reason, [] => reason
  | _, token :: tokens =>
    let reason := c.validateSingleSourceAddressToken token ip now
    if reason = .handshakeOk then reason else validateSourceAddressTokens ip now reason tokens

/-- A token is parsed, and validated if that went well. -/
def accepts (token : List UInt8) (ip : QuicIpAddress) (now : ℕ) : Bool :=
  let (reason, tokens) := c.parseSourceAddressToken token
  reason = .handshakeOk ∧
    c.validateSourceAddressTokens ip now .sourceAddressTokenDifferentIpAddressFailure tokens =
      .handshakeOk

/-- The tokens that a request comes with: none, or those of the last token. -/
def previousTokens (token : Option (List UInt8)) : List SourceAddressToken :=
  (token.map fun token => (c.parseSourceAddressToken token).2).getD []

/-- The last token of a history. -/
def issue (history : List TokenRequest) : Option (List UInt8) :=
  history.foldl (fun token r => some (c.newSourceAddressToken (c.previousTokens token) r)) none

/-! ## Timestamps -/

/-- A timestamp that is not too old and not too far ahead, in whole seconds. -/
def Fresh (timestamp now : ℕ) : Prop :=
  (now - timestamp * 1000000) / 1000000 ≤ c.lifetimeSecs ∧
    (timestamp * 1000000 - now) / 1000000 ≤ c.futureSecs

variable {c} {ip : QuicIpAddress} {now : ℕ} {token : SourceAddressToken}
    {tokens previous : List SourceAddressToken}

theorem validateSourceAddressTokenTimestamp_eq_ok (htime : token.timestamp * 1000000 < 2 ^ 64)
    (hnow : now < 2 ^ 64) :
    c.validateSourceAddressTokenTimestamp token now = .handshakeOk ↔ c.Fresh token.timestamp now := by
  have hmod : QuicWallTime.fromUNIXSeconds token.timestamp = token.timestamp * 1000000 :=
    Nat.mod_eq_of_lt htime
  unfold validateSourceAddressTokenTimestamp Fresh QuicWallTime.absoluteDifference
  rw [hmod]
  dsimp only
  generalize token.timestamp * 1000000 = stamp at htime
  rw [Nat.div_div_eq_div_mul]
  split_ifs with hahead hbehind <;> simp <;> omega

/-! ## The tokens of a history -/

/-- A previous token that goes into the new one: of another address, and not too old. -/
def kept (c : TokenConfig) (ip : QuicIpAddress) (now : ℕ) (token : SourceAddressToken) : Bool :=
  token.ip ≠ ip ∧ c.validateSourceAddressTokenTimestamp token now = .handshakeOk

theorem appendPrevious_eq : c.appendPrevious ip now tokens previous =
    tokens ++ (previous.filter (c.kept ip now)).take (kMaxTokenAddresses + 1 - tokens.length) := by
  induction previous generalizing tokens with
  | nil => simp [appendPrevious]
  | cons token previous ih =>
    unfold appendPrevious
    split_ifs with hfull hip htime
    · have hzero : kMaxTokenAddresses + 1 - tokens.length = 0 := by omega
      rw [hzero, take_zero, append_nil]
    · rw [ih, filter_cons_of_neg (by simp [kept, hip])]
    · rw [ih, filter_cons_of_neg (by simp [kept, htime])]
    · have hsucc : kMaxTokenAddresses + 1 - tokens.length =
          kMaxTokenAddresses + 1 - (tokens ++ [token]).length + 1 := by
        rw [length_append, length_singleton]
        omega
      rw [ih, filter_cons_of_pos (by simp [kept, hip, not_not.1 htime]), hsucc, take_succ_cons,
        append_assoc]
      rfl

/-- The tokens after a history. -/
def tokensAfter (c : TokenConfig) (history : List TokenRequest) : List SourceAddressToken :=
  c.previousTokens (c.issue history)

theorem tokensAfter_of_issue {history : List TokenRequest} {sealed : List UInt8}
    (h : c.issue history = some sealed) :
    c.tokensAfter history = (c.parseSourceAddressToken sealed).2 := by
  rw [tokensAfter, h]
  rfl

/-- The token for the request itself. -/
def ownToken (r : TokenRequest) : SourceAddressToken :=
  ⟨r.ip.dualStacked, r.now / 1000000, r.cachedNetworkParameters⟩

variable {history : List TokenRequest} {r : TokenRequest}

theorem issue_concat :
    c.issue (history ++ [r]) = some (c.newSourceAddressToken (c.tokensAfter history) r) := by
  unfold issue
  rw [foldl_append]
  rfl

/-- What holds of the contents of every token. -/
structure WellFormed (tokens : List SourceAddressToken) : Prop where
  distinct : (tokens.map (·.ip)).Nodup
  timestamps : ∀ token ∈ tokens, token.timestamp * 1000000 < 2 ^ 64

theorem WellFormed.cons (h : WellFormed previous) :
    WellFormed (ownToken r :: (previous.filter (c.kept r.ip.dualStacked r.now)).take
      kMaxTokenAddresses) := by
  have hsub : ((previous.filter (c.kept r.ip.dualStacked r.now)).take kMaxTokenAddresses).Sublist
      previous :=
    (take_sublist ..).trans (filter_sublist ..)
  constructor
  · rw [map_cons, nodup_cons]
    refine ⟨fun hmem => ?_, h.distinct.sublist (hsub.map _)⟩
    obtain ⟨token, htoken, hip⟩ := mem_map.1 hmem
    have hkept := (mem_filter.1 (mem_of_mem_take htoken)).2
    simp [kept, ownToken] at hkept hip
    exact hkept.1 hip
  · intro token htoken
    rcases mem_cons.1 htoken with rfl | htoken
    · have hlt := r.now.isLt
      show r.now.val / 1000000 * 1000000 < 2 ^ 64
      omega
    · exact h.timestamps token (hsub.subset htoken)

theorem parseSourceAddressToken_new (h : WellFormed previous) :
    c.parseSourceAddressToken (c.newSourceAddressToken previous r) =
      (.handshakeOk, ownToken r :: (previous.filter (c.kept r.ip.dualStacked r.now)).take
        kMaxTokenAddresses) := by
  unfold parseSourceAddressToken newSourceAddressToken
  rw [c.boxer.unbox_box, appendPrevious_eq]
  dsimp only
  rw [c.format.parse_serialize]
  · rfl
  · intro token htoken
    have := (h.cons (c := c) (r := r)).timestamps token htoken
    omega

theorem tokensAfter_concat (h : WellFormed (c.tokensAfter history)) : c.tokensAfter (history ++ [r]) =
    ownToken r :: ((c.tokensAfter history).filter (c.kept r.ip.dualStacked r.now)).take
      kMaxTokenAddresses := by
  rw [tokensAfter, issue_concat, previousTokens, Option.map_some, Option.getD_some,
    parseSourceAddressToken_new h]

theorem wellFormed_tokensAfter (history : List TokenRequest) : WellFormed (c.tokensAfter history) := by
  induction history using reverseRecOn with
  | nil => exact ⟨nodup_nil, fun _ h => absurd h not_mem_nil⟩
  | append_singleton history r ih =>
    rw [tokensAfter_concat ih]
    exact ih.cons

/-! ## Validation -/

theorem validateSourceAddressTokens_eq_ok {reason : HandshakeFailureReason}
    (hreason : reason ≠ .handshakeOk) :
    c.validateSourceAddressTokens ip now reason tokens = .handshakeOk ↔
      ∃ token ∈ tokens, c.validateSingleSourceAddressToken token ip now = .handshakeOk := by
  induction tokens generalizing reason with
  | nil => simp [validateSourceAddressTokens, hreason]
  | cons token tokens ih =>
    unfold validateSourceAddressTokens
    dsimp only
    split_ifs with hok
    · simp [hok]
    · rw [ih hok]
      simp [hok]

theorem accepts_new {a : QuicIpAddress} (h : WellFormed previous) (hnow : now < 2 ^ 64) :
    c.accepts (c.newSourceAddressToken previous r) a now = true ↔
      ∃ token ∈ (c.parseSourceAddressToken (c.newSourceAddressToken previous r)).2,
        token.ip = a.dualStacked ∧ c.Fresh token.timestamp now := by
  have hwf : WellFormed (c.parseSourceAddressToken (c.newSourceAddressToken previous r)).2 := by
    rw [parseSourceAddressToken_new h]
    exact h.cons
  have hok : (c.parseSourceAddressToken (c.newSourceAddressToken previous r)).1 = .handshakeOk := by
    rw [parseSourceAddressToken_new h]
  unfold accepts
  rw [decide_eq_true_iff, validateSourceAddressTokens_eq_ok (by simp)]
  constructor
  · rintro ⟨-, token, htoken, hvalid⟩
    unfold validateSingleSourceAddressToken at hvalid
    split_ifs at hvalid with hip
    exact ⟨token, htoken, not_not.1 hip,
      (validateSourceAddressTokenTimestamp_eq_ok (hwf.timestamps token htoken) hnow).1 hvalid⟩
  · rintro ⟨token, htoken, hip, hfresh⟩
    refine ⟨hok, token, htoken, ?_⟩
    rw [validateSingleSourceAddressToken, if_neg (not_not.2 hip)]
    exact (validateSourceAddressTokenTimestamp_eq_ok (hwf.timestamps token htoken) hnow).2 hfresh

/-- There is room for one more address. -/
def Room (c : TokenConfig) (history : List TokenRequest) (r : TokenRequest) : Prop :=
  ((c.tokensAfter history).filter (c.kept r.ip.dualStacked r.now)).length < kMaxTokenAddresses

/-- The last token of every history: how many addresses it has, that they are distinct, and for
    which of them and when it is accepted. -/
theorem source_address_token_spec (c : TokenConfig) (history : List TokenRequest) (r : TokenRequest) :
    ∃ token, c.issue (history ++ [r]) = some token ∧
      ((c.parseSourceAddressToken token).2.length ≤ kMaxTokenAddresses ↔ c.Room history r) ∧
      ((c.parseSourceAddressToken token).2.map (·.ip)).Nodup ∧
      ∀ (a : QuicIpAddress) (now : Fin (2 ^ 64)), c.accepts token a now = true ↔
        ∃ t ∈ (c.parseSourceAddressToken token).2, t.ip = a.dualStacked ∧ c.Fresh t.timestamp now := by
  have hwf := wellFormed_tokensAfter (c := c) history
  refine ⟨_, issue_concat, ?_, ?_, fun a now => accepts_new hwf now.isLt⟩
  · rw [parseSourceAddressToken_new hwf, length_cons, length_take, Room]
    omega
  · rw [parseSourceAddressToken_new hwf]
    exact hwf.cons.distinct

/-! ## One address too many -/

/-- Strings of bytes in a row: a 1 before each byte, and a 0 behind the string. -/
def joinFields (fields : List (List UInt8)) : List UInt8 :=
  fields.flatMap fun field => field.flatMap (fun b => [1, b]) ++ [0]

def splitFields : List UInt8 → Option (List (List UInt8))
  | [] => some []
  | 0 :: data => (splitFields data).map ([] :: ·)
  | _ :: b :: data => (splitFields data).bind fun fields =>
    fields.head?.map fun field => (b :: field) :: fields.tail
  | [_] => none

theorem splitFields_joinFields (fields : List (List UInt8)) :
    splitFields (joinFields fields) = some fields := by
  induction fields with
  | nil => rfl
  | cons field fields ih =>
    have hsplit : splitFields (field.flatMap (fun b => [1, b]) ++ [0] ++ joinFields fields) =
        some (field :: fields) := by
      induction field with
      | nil => simp [splitFields, ih]
      | cons b field ihb =>
        simp only [append_assoc, singleton_append] at ihb
        simp [splitFields, ihb]
    exact hsplit

def toFields (token : SourceAddressToken) : List (List UInt8) :=
  [token.ip, Wire.encode 8 token.timestamp, token.cachedNetworkParameters.elim [] (1 :: ·)]

def ofFields : List (List UInt8) → Option (List SourceAddressToken)
  | [] => some []
  | ip :: timestamp :: params :: fields =>
    (ofFields fields).map (⟨ip, Wire.decode timestamp, params.head?.map fun _ => params.tail⟩ :: ·)
  | _ => none

theorem ofFields_toFields (h : ∀ token ∈ tokens, token.timestamp < 2 ^ 63) :
    ofFields (tokens.flatMap toFields) = some tokens := by
  induction tokens with
  | nil => rfl
  | cons token tokens ih =>
    obtain ⟨ip, timestamp, params⟩ := token
    have htime : Wire.decode (Wire.encode 8 timestamp) = timestamp := by
      have hlt : timestamp < 2 ^ 63 := h _ (.head _)
      rw [Wire.decode_encode]
      omega
    simp only [flatMap_cons, toFields, cons_append, nil_append, ofFields,
      ih fun t ht => h t (.tail _ ht), htime, Option.map_some]
    cases params <;> rfl

/-- A format with three fields for a token. -/
def fieldFormat : TokenFormat where
  serialize tokens := joinFields (tokens.flatMap toFields)
  parseTokens data := (splitFields data).bind ofFields
  parseToken _ := none
  parse_serialize tokens h := by rw [splitFields_joinFields, Option.bind_some, ofFields_toFields h]

def plainConfig : TokenConfig := ⟨⟨fun _ plaintext => plaintext, some, fun _ _ => rfl⟩, fieldFormat,
  ⟨3600, by decide⟩, ⟨86400, by decide⟩⟩

theorem epoch_lt : 0 < 2 ^ 64 := by decide

/-- A request from one of the addresses of a network. -/
def requestFrom (host : UInt8) : TokenRequest := ⟨[10, 0, 0, host], ⟨0, epoch_lt⟩, 0, none⟩

/-- A client that asks from five addresses at the same time has them all in its token. -/
theorem five_addresses : ∃ token, plainConfig.issue ([1, 2, 3, 4, 5].map requestFrom) = some token ∧
    (plainConfig.parseSourceAddressToken token).2.length = kMaxTokenAddresses + 1 := by
  have htokens : plainConfig.tokensAfter
      ([] ++ [requestFrom 1] ++ [requestFrom 2] ++ [requestFrom 3] ++ [requestFrom 4] ++
      [requestFrom 5]) = [5, 4, 3, 2, 1].map fun host => ownToken (requestFrom host) := by
    iterate 5 rw [tokensAfter_concat (wellFormed_tokensAfter _)]
    decide +kernel
  have hissue : plainConfig.issue ([1, 2, 3, 4].map requestFrom ++ [requestFrom 5]) = some _ :=
    issue_concat
  refine ⟨_, hissue, ?_⟩
  rw [← tokensAfter_of_issue hissue]
  exact congrArg length htokens

end TokenConfig

end Puic
