/-
  Handshake messages and how they are written (crypto_handshake_message.cc and
  `CryptoFramer::ConstructHandshakeMessage`).

  A message is a tag and a map from tags to values.  On the wire come the tag, the
  number of entries, two reserved bytes, for every entry its tag and the offset at which
  its value ends, and then the values (`wire`).  A message below its minimum size gets
  one more entry, PAD, which both loops put into its place among the tags
  (`constructHandshakeMessage_eq`).

  Numbers are in host byte order, that is, the least significant byte comes first.
-/
import Puic.Lib.Wire
import Puic.Lib.SortedMap
import Mathlib.Order.Fin.Basic

namespace Puic

open Wire Writer List

abbrev QuicTag := Fin (2 ^ 32)

/-- The macro `TAG`. -/
def quicTag (a b c d : Char) : QuicTag :=
  Fin.ofNat (2 ^ 32) ((d.toNat <<< 24) + (c.toNat <<< 16) + (b.toNat <<< 8) + a.toNat)

def kPAD : QuicTag := ⟨0x444150, by decide⟩

def kMaxEntries : ℕ := 128

/-- The error codes of `QuicErrorCode` that a new server config can give. -/
inductive CryptoErrorCode where
  | messageParameterNotFound
  | invalidMessageParameter
  | serverConfigExpired
deriving Repr, DecidableEq

/-- An error of the handshake with its details. -/
structure CryptoError where
  code : CryptoErrorCode
  details : String
deriving Repr

/-- `tag_value_map_` as the loops see it. -/
abbrev TagValues := List (QuicTag × List UInt8)

@[ext]
structure CryptoHandshakeMessage where
  tag : QuicTag
  tagValueMap : SortedMap QuicTag (List UInt8)
  minimumSize : ℕ

namespace CryptoHandshakeMessage

def new : CryptoHandshakeMessage := ⟨⟨0, by decide⟩, .empty, 0⟩

variable (m : CryptoHandshakeMessage) (tag : QuicTag)

def setStringPiece (value : List UInt8) : CryptoHandshakeMessage :=
  { m with tagValueMap := m.tagValueMap.set tag value }

def getStringPiece : Option (List UInt8) :=
  (m.tagValueMap.entries.find? (·.1 = tag)).map (·.2)

/-- A missing value and one of another size are told apart by the error code, which no caller looks at. -/
def getUint64 : Option ℕ :=
  (m.getStringPiece tag).bind fun value => if value.length = 8 then some (decodeLe value) else none

def valuesLength (es : TagValues) : ℕ := (es.map (·.2.length)).sum

def size : ℕ :=
  4 + 2 + 2 + (4 + 4) * m.tagValueMap.entries.length + valuesLength m.tagValueMap.entries

/-- The message is below its minimum size. -/
def needsPad : Bool := m.size < m.minimumSize

/-- The length of the padding, which does not count the entry itself. -/
def padLength : ℕ := m.minimumSize - m.size - (4 + 4)

end CryptoHandshakeMessage

/-! ## Writing -/

namespace CryptoFramer

open CryptoHandshakeMessage

def writeTag (w : Writer) (tag : QuicTag) : Option Writer := w.write (encodeLe 4 tag)

/-- `WritePadTag` also moves the end offset on. -/
def writePadTag (w : Writer) (padLength endOffset : ℕ) : Option (Writer × ℕ) := do
  let w ← writeTag w kPAD
  let endOffset := (endOffset + padLength) % 2 ^ 32
  let w ← w.write (encodeLe 4 endOffset)
  return (w, endOffset)

/-- The loop over the tags and end offsets, and what comes after it. -/
def writeTags (padLength : ℕ) : TagValues → Bool → ℕ → Writer → Option Writer
  | [], needPadTag, endOffset, w =>
    if needPadTag then (writePadTag w padLength endOffset).map Prod.fst else some w
  | (tag, value) :: es, needPadTag, endOffset, w =>
    if tag = kPAD ∧ needPadTag then none
    else do
      let (w, endOffset) ← if kPAD < tag ∧
          needPadTag then writePadTag w padLength endOffset else some (w, endOffset)
      let w ← writeTag w tag
      let endOffset := (endOffset + value.length) % 2 ^ 32
      let w ← w.write (encodeLe 4 endOffset)
      writeTags padLength es (needPadTag && !(kPAD < tag)) endOffset w

/-- Padding is made of `-`. -/
def padding (padLength : ℕ) : List UInt8 := List.replicate padLength 0x2d

def writeValues (padLength : ℕ) : TagValues → Bool → Writer → Option Writer
  | [], needPadValue, w => if needPadValue then w.write (padding padLength) else some w
  | (tag, value) :: es, needPadValue, w => do
    let w ← if kPAD < tag ∧ needPadValue then w.write (padding padLength) else some w
    let w ← w.write value
    writeValues padLength es (needPadValue && !(kPAD < tag)) w

/-- The buffer has the length `len`, and what has been written is returned. -/
def constructHandshakeMessage (m : CryptoHandshakeMessage) : Option (List UInt8) :=
  let es := m.tagValueMap.entries
  let numEntries := if m.needsPad then es.length + 1 else es.length
  let len := if m.needsPad then m.size + (4 + 4 + m.padLength) else m.size
  if kMaxEntries < numEntries then none
  else do
    let w ← writeTag ⟨len, [], Nat.zero_le _⟩ m.tag
    let w ← w.write (encodeLe 2 numEntries)
    let w ← w.write (encodeLe 2 0)
    let w ← writeTags m.padLength es m.needsPad 0 w
    let w ← writeValues m.padLength es m.needsPad w
    return w.data

end CryptoFramer

/-! ## What is on the wire -/

namespace CryptoHandshakeMessage

/-- The entries with their end offsets, the first value starting at `start`. -/
def tableBytes (start : ℕ) : TagValues → List UInt8
  | [] => []
  | (tag, value) :: es =>
    encodeLe 4 tag ++ encodeLe 4 (start + value.length) ++ tableBytes (start + value.length) es

def valueBytes (es : TagValues) : List UInt8 := es.flatMap (·.2)

def wire (tag : QuicTag) (reserved : List UInt8) (es : TagValues) : List UInt8 :=
  encodeLe 4 tag ++ encodeLe 2 es.length ++ reserved ++ tableBytes 0 es ++ valueBytes es

/-- The entries that are written: those of the message, and PAD if it is needed. -/
def padded (m : CryptoHandshakeMessage) : SortedMap QuicTag (List UInt8) :=
  if m.needsPad then m.tagValueMap.set kPAD (CryptoFramer.padding m.padLength) else m.tagValueMap

variable {m : CryptoHandshakeMessage} {es : TagValues} {start : ℕ} {w : Writer}

theorem length_tableBytes : (tableBytes start es).length = 8 * es.length := by
  induction es generalizing start with
  | nil => rfl
  | cons e es ih =>
    rw [tableBytes, length_append, length_append, length_encodeLe, length_encodeLe, ih, length_cons]
    omega

theorem length_valueBytes : (valueBytes es).length = valuesLength es := length_flatMap

theorem length_wire {tag : QuicTag} {reserved : List UInt8} (h : reserved.length = 2) :
    (wire tag reserved es).length = 8 + 8 * es.length + valuesLength es := by
  rw [wire, length_append, length_append, length_append, length_append, length_encodeLe,
    length_encodeLe, h, length_tableBytes, length_valueBytes]

/-- The end offsets are 32-bit numbers, so it does not matter where they wrap. -/
theorem encodeLe_mod_add {n k : ℕ} : encodeLe 4 (n % 2 ^ 32 + k) = encodeLe 4 (n + k) := by
  have hmod (a : ℕ) : encode 4 (a % 2 ^ 32) = encode 4 a := by
    have h : encode 4 (a / 256 ^ 4 * 256 ^ 4 + a % 256 ^ 4) = encode 4 (a % 256 ^ 4) := encode_add_mul
    rw [Nat.div_add_mod'] at h
    exact h.symm
  rw [encodeLe, encodeLe, ← hmod, Nat.mod_add_mod, hmod]

theorem encodeLe_mod {n : ℕ} : encodeLe 4 (n % 2 ^ 32) = encodeLe 4 n := encodeLe_mod_add (k := 0)

theorem tableBytes_mod_add {n k : ℕ} : tableBytes (n % 2 ^ 32 + k) es = tableBytes (n + k) es := by
  induction es generalizing k with
  | nil => rfl
  | cons e es ih => rw [tableBytes, tableBytes, Nat.add_assoc, Nat.add_assoc, encodeLe_mod_add, ih]

theorem tableBytes_mod {n : ℕ} : tableBytes (n % 2 ^ 32) es = tableBytes n es :=
  tableBytes_mod_add (k := 0)

end CryptoHandshakeMessage

namespace CryptoFramer

open CryptoHandshakeMessage SortedMap

variable {m : CryptoHandshakeMessage} {es : TagValues} {w : Writer} {padLength endOffset : ℕ}

theorem writePadTag_eq : writePadTag w padLength endOffset =
    (w.write (encodeLe 4 kPAD ++ encodeLe 4 (endOffset + padLength))).map
      (·, (endOffset + padLength) % 2 ^ 32) := by
  unfold writePadTag writeTag
  rw [← write_write]
  simp only [encodeLe_mod]
  cases w.write (encodeLe 4 kPAD) with
  | none => rfl
  | some w =>
    show (w.write (encodeLe 4 (endOffset + padLength))).bind _ = Option.map _ (w.write _)
    cases w.write (encodeLe 4 (endOffset + padLength)) <;> rfl

theorem writeTags_false :
    writeTags padLength es false endOffset w = w.write (tableBytes endOffset es) := by
  induction es generalizing endOffset w with
  | nil => exact write_nil.symm
  | cons e es ih =>
    rw [writeTags, if_neg (by simp), if_neg (by simp)]
    simp only [Option.bind_eq_bind, Option.bind_some, Bool.false_and, ih, writeTag, encodeLe_mod,
      tableBytes_mod]
    rw [write_bind_write, write_write]
    rfl

/-- With padding the loop writes the entries and PAD among them. -/
theorem writeTags_true (hpad : ∀ e ∈ es, e.1 ≠ kPAD) : writeTags padLength es true endOffset w =
    w.write (tableBytes endOffset (place kPAD (padding padLength) es)) := by
  induction es generalizing endOffset w with
  | nil =>
    rw [writeTags, if_pos rfl, writePadTag_eq, Option.map_map]
    simp [place, tableBytes, padding, Function.comp_def]
  | cons e es ih =>
    obtain ⟨tag, value⟩ := e
    have hne : tag ≠ kPAD := hpad (tag, value) (.head _)
    rw [writeTags, if_neg (by simp [hne]), place]
    by_cases hlt : kPAD < tag
    · rw [if_pos ⟨hlt, rfl⟩, if_pos hlt, writePadTag_eq]
      simp only [Option.bind_eq_bind, Option.bind_map, Function.comp_def, hlt, decide_true,
        Bool.not_true, Bool.and_false, writeTags_false, writeTag, encodeLe_mod, tableBytes_mod]
      have hlen : (padding padLength).length = padLength := length_replicate
      simp only [write_write, tableBytes, hlen, append_assoc, encodeLe_mod_add, tableBytes_mod_add]
    · rw [if_neg (by simp [hlt]), if_neg hlt, if_neg (Ne.symm hne)]
      simp only [Option.bind_eq_bind, Option.bind_some, hlt, decide_false, Bool.not_false,
        Bool.and_true, writeTag, encodeLe_mod, ih fun e he => hpad e (.tail _ he), tableBytes_mod]
      rw [write_bind_write, write_write]
      rfl

theorem writeTags_pad (hs : Ascending es) {value : List UInt8} (hpad : (kPAD, value) ∈ es) :
    writeTags padLength es true endOffset w = none := by
  induction es generalizing endOffset w with
  | nil => cases hpad
  | cons e es ih =>
    obtain ⟨tag, v⟩ := e
    obtain ⟨hhead, hes⟩ := pairwise_cons.1 hs
    rw [writeTags]
    rcases mem_cons.1 hpad with heq | hpad
    · rw [if_pos ⟨(congrArg Prod.fst heq).symm, rfl⟩]
    · have hlt : tag < kPAD := hhead _ hpad
      rw [if_neg (by simp [hlt.ne]), if_neg (by simp [hlt.le])]
      simp [hlt.not_gt, ih hes hpad]

theorem writeValues_false : writeValues padLength es false w = w.write (valueBytes es) := by
  induction es generalizing w with
  | nil => exact write_nil.symm
  | cons e es ih =>
    rw [writeValues, if_neg (by simp)]
    simp only [Option.bind_eq_bind, Option.bind_some, Bool.false_and, ih]
    exact write_write

theorem writeValues_true (hpad : ∀ e ∈ es, e.1 ≠ kPAD) :
    writeValues padLength es true w = w.write (valueBytes (place kPAD (padding padLength) es)) := by
  induction es generalizing w with
  | nil => simp [writeValues, place, valueBytes]
  | cons e es ih =>
    obtain ⟨tag, value⟩ := e
    have hne : tag ≠ kPAD := hpad (tag, value) (.head _)
    rw [writeValues, place]
    by_cases hlt : kPAD < tag
    · rw [if_pos ⟨hlt, rfl⟩, if_pos hlt]
      simp only [Option.bind_eq_bind, hlt, decide_true, Bool.not_true, Bool.and_false, writeValues_false]
      simp [valueBytes]
    · rw [if_neg (by simp [hlt]), if_neg hlt, if_neg (Ne.symm hne)]
      simp only [Option.bind_eq_bind, Option.bind_some, hlt, decide_false, Bool.not_false, Bool.and_true,
        ih fun e he => hpad e (.tail _ he)]
      exact write_write

theorem valuesLength_place {tag : QuicTag} {value : List UInt8} (h : ∀ e ∈ es, e.1 ≠ tag) :
    valuesLength (place tag value es) = value.length + valuesLength es := by
  induction es with
  | nil => rfl
  | cons e es ih =>
    unfold place
    split_ifs with h1 h2
    · rfl
    · exact absurd h2.symm (h e (.head _))
    · have hrest := ih fun e he => h e (.tail _ he)
      unfold valuesLength at hrest ⊢
      rw [map_cons, sum_cons, hrest, map_cons, sum_cons]
      omega

/-- A message has PAD only if none is added. -/
def PadFree (m : CryptoHandshakeMessage) : Prop :=
  m.needsPad = true → ∀ e ∈ m.tagValueMap.entries, e.1 ≠ kPAD

theorem writeTags_padded (h : PadFree m) : writeTags m.padLength m.tagValueMap.entries m.needsPad 0 w =
    w.write (tableBytes 0 m.padded.entries) := by
  unfold padded
  cases hneed : m.needsPad with
  | false => exact writeTags_false
  | true => exact writeTags_true (h hneed)

theorem writeValues_padded (h : PadFree m) : writeValues m.padLength m.tagValueMap.entries m.needsPad w =
    w.write (valueBytes m.padded.entries) := by
  unfold padded
  cases hneed : m.needsPad with
  | false => exact writeValues_false
  | true => exact writeValues_true (h hneed)

theorem length_padded (h : PadFree m) : m.padded.entries.length =
    if m.needsPad then m.tagValueMap.entries.length + 1 else m.tagValueMap.entries.length := by
  unfold padded
  cases hneed : m.needsPad with
  | false => rfl
  | true => exact length_place (h hneed)

theorem size_padded (h : PadFree m) : 8 + 8 * m.padded.entries.length + valuesLength m.padded.entries =
    if m.needsPad then m.size + (4 + 4 + m.padLength) else m.size := by
  rw [length_padded h]
  unfold padded size
  cases hneed : m.needsPad with
  | false => rfl
  | true =>
    have hvalues : valuesLength (m.tagValueMap.set kPAD (padding m.padLength)).entries =
        (padding m.padLength).length + valuesLength m.tagValueMap.entries := valuesLength_place (h hneed)
    have hlen : (padding m.padLength).length = m.padLength := length_replicate
    rw [if_pos rfl, if_pos rfl, if_pos rfl, hvalues, hlen]
    omega

/-- A message is written if it has few enough entries, and needs no second PAD. -/
theorem constructHandshakeMessage_eq_some {data : List UInt8} : constructHandshakeMessage m = some data ↔
    PadFree m ∧ m.padded.entries.length ≤ kMaxEntries ∧ data = wire m.tag [0, 0] m.padded.entries := by
  unfold constructHandshakeMessage
  dsimp only
  by_cases h : PadFree m
  · rw [← length_padded h, ← size_padded h]
    by_cases hmax : kMaxEntries < m.padded.entries.length
    · rw [if_pos hmax]
      simp [not_le.2 hmax]
    · rw [if_neg hmax]
      simp only [writeTags_padded h, writeValues_padded h, writeTag, Option.bind_eq_bind,
        write_bind_write,
        ← append_assoc]
      have hzero : encodeLe 2 0 = [0, 0] := by decide
      have hlen : (wire m.tag [0, 0] m.padded.entries).length =
          8 + 8 * m.padded.entries.length + valuesLength m.padded.entries := length_wire rfl
      obtain ⟨w, hw⟩ : ∃ w, write ⟨8 + 8 * m.padded.entries.length + valuesLength m.padded.entries, [],
          Nat.zero_le _⟩ (wire m.tag [0, 0] m.padded.entries) = some w := exists_write.2 hlen.le
      have hdata := (write_eq_some.1 hw).2
      rw [hzero, show encodeLe 4 m.tag ++ encodeLe 2 m.padded.entries.length ++ [0, 0] ++
        tableBytes 0 m.padded.entries ++
        valueBytes m.padded.entries = wire m.tag [0, 0] m.padded.entries from rfl, hw]
      constructor
      · intro heq
        exact ⟨h, not_lt.1 hmax, (Option.some.inj heq).symm.trans hdata⟩
      · rintro ⟨-, -, rfl⟩
        exact congrArg some hdata
  · have hneed : m.needsPad = true := by
      by_contra hn
      exact h fun hp => absurd hp hn
    obtain ⟨value, hpad⟩ : ∃ value, (kPAD, value) ∈ m.tagValueMap.entries := by
      by_contra hno
      refine h fun _ e he heq => hno ⟨e.2, ?_⟩
      rw [← heq]
      exact he
    have hnone (w : Writer) : writeTags m.padLength m.tagValueMap.entries m.needsPad 0 w = none := by
      rw [hneed]
      exact writeTags_pad m.tagValueMap.sorted hpad
    simp [hnone, h]

end CryptoFramer

end Puic
