/-
  How handshake messages are read (crypto_framer.cc).

  `Process` is a state machine whose states fall through to the next one; it stops where
  the bytes run out and goes on from there in the next call.  The reader works on what
  was buffered and the new bytes; what it has not read is buffered again, unless there
  was an error.  `received` are the calls of `OnHandshakeMessage`.

  What is read is exactly what can be written: a message is received from the bytes
  `wire` gives it and from no others (`received_iff`).
-/
import Puic.HandshakeMessage

namespace Puic

open Wire CryptoHandshakeMessage List

/-- The errors of `Process`, with what their details say. -/
inductive CryptoFramerError where
  | tooManyEntries (numEntries : ℕ)
  | duplicateTag (tag : QuicTag)
  | tagOutOfOrder (tag : QuicTag)
  | endOffsetOutOfOrder (endOffset lastEndOffset : ℕ)
deriving Repr, DecidableEq

inductive CryptoFramerState where
  | readingTag
  | readingNumEntries
  | readingTagsAndLengths
  | readingValues
deriving Repr, DecidableEq

structure CryptoFramer where
  error : Option CryptoFramerError
  buffer : List UInt8
  state : CryptoFramerState
  message : CryptoHandshakeMessage
  numEntries : ℕ
  tagsAndLengths : List (QuicTag × ℕ)
  valuesLen : ℕ
  received : List CryptoHandshakeMessage

namespace CryptoFramer

def new : CryptoFramer := ⟨none, [], .readingTag, .new, 0, [], 0, []⟩

variable (f : CryptoFramer) (data : List UInt8)

def clear : CryptoFramer :=
  { f with message := .new, tagsAndLengths := [], error := none, state := .readingTag }

def readTag : QuicTag := ⟨decodeLe (data.take 4) % 2 ^ 32, Nat.mod_lt _ (Nat.two_pow_pos 32)⟩

/-- The loop over the values. -/
def readValues : List (QuicTag × ℕ) → CryptoHandshakeMessage → List UInt8 →
    CryptoHandshakeMessage × List UInt8
  | [], m, data => (m, data)
  | (tag, length) :: items, m, data =>
    readValues items (m.setStringPiece tag (data.take length)) (data.drop length)

def processValues : CryptoFramer :=
  if data.length < f.valuesLen then { f with buffer := data }
  else
    let (message, rest) := readValues f.tagsAndLengths f.message data
    { f.clear with received := f.received ++ [message], buffer := rest }

/-- The loop over the tags and end offsets; `items` is what has been read. -/
def readTable : ℕ → List (QuicTag × ℕ) → ℕ → List UInt8 →
    Except CryptoFramerError (List (QuicTag × ℕ) × ℕ × List UInt8)
  | 0, items, lastEndOffset, data => .ok (items, lastEndOffset, data)
  | n + 1, items, lastEndOffset, data =>
    let tag := readTag data
    if items.getLast?.any (tag ≤ ·.1) then
      .error (if items.getLast?.any (tag = ·.1) then .duplicateTag tag else .tagOutOfOrder tag)
    else
      let endOffset := decodeLe ((data.drop 4).take 4)
      if endOffset < lastEndOffset then .error (.endOffsetOutOfOrder endOffset lastEndOffset)
      else readTable n (items ++ [(tag, endOffset - lastEndOffset)]) endOffset (data.drop 8)

def processTagsAndLengths : Except CryptoFramerError CryptoFramer :=
  if data.length < f.numEntries * (4 + 4) then .ok { f with buffer := data }
  else match readTable f.numEntries f.tagsAndLengths 0 data with
    | .error e => .error e
    | .ok (items, lastEndOffset, rest) =>
      .ok ({ f with
        tagsAndLengths := items
        valuesLen := lastEndOffset
        state := .readingValues }.processValues rest)

def processNumEntries : Except CryptoFramerError CryptoFramer :=
  if data.length < 2 + 2 then .ok { f with buffer := data }
  else
    let numEntries := decodeLe (data.take 2)
    if kMaxEntries < numEntries then .error (.tooManyEntries numEntries)
    else
      { f with numEntries, valuesLen := 0, state := .readingTagsAndLengths }.processTagsAndLengths
        (data.drop 4)

def processTag : Except CryptoFramerError CryptoFramer :=
  if data.length < 4 then .ok { f with buffer := data }
  else
    { f with
      message := { f.message with tag := readTag data }
      state := .readingNumEntries }.processNumEntries (data.drop 4)

/-- The state machine, with a reader on `data`. -/
def resume : Except CryptoFramerError CryptoFramer :=
  match f.state with
  | .readingTag => f.processTag data
  | .readingNumEntries => f.processNumEntries data
  | .readingTagsAndLengths => f.processTagsAndLengths data
  | .readingValues => .ok (f.processValues data)

def process (input : List UInt8) : Except CryptoFramerError CryptoFramer :=
  f.resume (f.buffer ++ input)

/-- After an error only the buffer is looked at, which keeps all bytes. -/
def processInput (input : List UInt8) : CryptoFramer × Bool :=
  if f.error.isSome then (f, false)
  else match f.process input with
    | .ok f' => (f', true)
    | .error e => ({ f with buffer := f.buffer ++ input, error := some e }, false)

/-- `ParseMessage`; `OneShotVisitor` keeps the last message. -/
def parseMessage : Option CryptoHandshakeMessage :=
  let (f, ok) := new.processInput data
  if !ok || f.error.isSome || !f.buffer.isEmpty then none else f.received.getLast?

/-! ## Reading what was written -/

variable {f f' : CryptoFramer} {es : TagValues} {m : CryptoHandshakeMessage}
    {data rest reserved : List UInt8}
  {items : List (QuicTag × ℕ)} {start n : ℕ}

def lengths (es : TagValues) : List (QuicTag × ℕ) := es.map fun e => (e.1, e.2.length)

theorem ascending_lengths : Ascending (lengths es) ↔ Ascending es := pairwise_map

theorem readTag_encodeLe (tag : QuicTag) : readTag (encodeLe 4 tag ++ rest) = tag := by
  have hlt : tag.val < 256 ^ 4 := tag.isLt
  ext
  simp only [readTag, take_left' length_encodeLe, decodeLe_encodeLe, Nat.mod_eq_of_lt hlt]
  exact Nat.mod_eq_of_lt tag.isLt

theorem encodeLe_readTag (h : 4 ≤ data.length) : encodeLe 4 (readTag data) = data.take 4 := by
  have hlen : (data.take 4).length = 4 := length_take_of_le h
  have hlt : decodeLe (data.take 4) < 2 ^ 32 := decodeLe_lt hlen
  have hval : (readTag data).val = decodeLe (data.take 4) := Nat.mod_eq_of_lt hlt
  rw [hval, encodeLe_decodeLe hlen]

/-- Every tag comes after the last one that was read. -/
def Above (items : List (QuicTag × ℕ)) (tag : QuicTag) : Prop :=
  items.getLast?.any (tag ≤ ·.1) = false

theorem above_nil (tag : QuicTag) : Above [] tag := rfl

theorem above_concat {tag t : QuicTag} {k : ℕ} :
    Above (items ++ [(t, k)]) tag ↔ t < tag := by simp [Above]

theorem readTable_tableBytes (hs : Ascending es) (habove : ∀ e ∈ es, Above items e.1)
    (hlt : start + valuesLength es < 2 ^ 32) :
    readTable es.length items start (tableBytes start es ++ rest) =
      .ok (items ++ lengths es, start + valuesLength es, rest) := by
  induction es generalizing items start with
  | nil => simp [readTable, tableBytes, lengths, valuesLength]
  | cons e es ih =>
    obtain ⟨tag, value⟩ := e
    obtain ⟨hhead, hes⟩ := pairwise_cons.1 hs
    have hvalues : valuesLength ((tag, value) :: es) = value.length + valuesLength es := rfl
    have hab : items.getLast?.any (fun e => decide (tag ≤ e.1)) = false :=
      habove (tag, value) (.head _)
    have hend : (start + value.length) % 256 ^ 4 = start + value.length :=
      Nat.mod_eq_of_lt (by omega)
    have hnext : readTable es.length (items ++ [(tag, value.length)]) (start + value.length)
        (tableBytes (start + value.length) es ++ rest) = _ :=
          ih hes (fun e he => above_concat.2 (hhead e he)) (by omega)
    rw [length_cons, readTable, tableBytes]
    simp only [append_assoc, readTag_encodeLe, hab, Bool.false_eq_true, if_false]
    rw [drop_left' length_encodeLe, take_left' length_encodeLe, decodeLe_encodeLe, hend,
      if_neg (by omega), show (8 : ℕ) = 4 + 4 from rfl, ← drop_drop, drop_left' length_encodeLe,
      drop_left' length_encodeLe, Nat.add_sub_cancel_left, hnext, hvalues]
    simp [lengths, Nat.add_assoc]

theorem Above.mono {tag tag' : QuicTag} (h : Above items tag) (hle : tag ≤ tag') :
    Above items tag' := by
  unfold Above at h ⊢
  cases hlast : items.getLast? with
  | none => rfl
  | some e =>
    rw [hlast, Option.any_some, decide_eq_false_iff_not] at h
    rw [Option.any_some, decide_eq_false_iff_not]
    exact fun hle' => h (hle.trans hle')

def lengthSum (items : List (QuicTag × ℕ)) : ℕ := (items.map (·.2)).sum

theorem lengthSum_lengths : lengthSum (lengths es) = valuesLength es := by
  rw [lengthSum, lengths, map_map]
  rfl

theorem readTable_eq_ok {items' : List (QuicTag × ℕ)} {last : ℕ} (hlen : 8 * n ≤ data.length)
    (hstart : start < 2 ^ 32)
    (h : readTable n items start data = .ok (items', last, rest)) :
    ∃ tl, items' = items ++ tl ∧ tl.length = n ∧ Ascending tl ∧ (∀ e ∈ tl, Above items e.1) ∧
      last = start + lengthSum tl ∧ last < 2 ^ 32 ∧ ∀ es, lengths es = tl →
        data = tableBytes start es ++ rest := by
  induction n generalizing items start data with
  | zero =>
    obtain ⟨rfl, rfl, rfl⟩ : items = items' ∧ start = last ∧ data = rest := by
      simpa only [readTable, Except.ok.injEq, Prod.mk.injEq] using h
    refine ⟨[], (append_nil _).symm, rfl, .nil, fun e he => absurd he not_mem_nil, rfl, hstart,
      fun es hes => ?_⟩
    rw [map_eq_nil_iff.1 hes]
    rfl
  | succ n ih =>
    unfold readTable at h
    dsimp only at h
    split_ifs at h with habove hend
    have hab : Above items (readTag data) := Bool.eq_false_iff.2 habove
    have hword : ((data.drop 4).take 4).length = 4 := by
      rw [length_take, length_drop]
      omega
    have hoff : decodeLe ((data.drop 4).take 4) < 2 ^ 32 := decodeLe_lt hword
    obtain ⟨tl, rfl, hn, hs, htl, hlast, hlt, hdata⟩ := ih (by rw [length_drop]; omega) hoff h
    have hsucc : ∀ e ∈ tl, readTag data < e.1 := fun e he => above_concat.1 (htl e he)
    refine ⟨(readTag data, decodeLe ((data.drop 4).take 4) - start) :: tl, by simp, by simp [hn],
      pairwise_cons.2 ⟨hsucc, hs⟩, ?_, ?_, hlt, ?_⟩
    · intro e he
      rcases mem_cons.1 he with rfl | he
      · exact hab
      · exact hab.mono (hsucc e he).le
    · rw [hlast, lengthSum, lengthSum, map_cons, sum_cons]
      omega
    · intro es hes
      obtain ⟨⟨tag, value⟩, es, rfl, hhead, hrest⟩ := map_eq_cons_iff.1 hes
      obtain ⟨rfl, hvalue⟩ := Prod.mk.inj hhead
      have hsum : start + value.length = decodeLe ((data.drop 4).take 4) := by
        dsimp only at hvalue
        omega
      have hdrop : data.drop 8 = (data.drop 4).drop 4 := by rw [drop_drop]
      rw [tableBytes, hsum, encodeLe_readTag (by omega), encodeLe_decodeLe hword, append_assoc,
        ← hdata es hrest, append_assoc, hdrop, take_append_drop, take_append_drop]

theorem readValues_valueBytes (hs : Ascending (m.tagValueMap.entries ++ es)) :
    readValues (lengths es) m (valueBytes es ++ rest) =
      ({ m with tagValueMap := ⟨m.tagValueMap.entries ++ es, hs⟩ }, rest) := by
  induction es generalizing m with
  | nil =>
    refine Prod.ext (CryptoHandshakeMessage.ext rfl (SortedMap.ext ?_) rfl) rfl
    exact (append_nil _).symm
  | cons e es ih =>
    obtain ⟨tag, value⟩ := e
    obtain ⟨-, -, hbelow⟩ := pairwise_append.1 hs
    have hplace : (m.setStringPiece tag value).tagValueMap.entries =
        m.tagValueMap.entries ++ [(tag, value)] :=
      SortedMap.place_above fun e he => hbelow e he _ (.head _)
    have happ : (m.setStringPiece tag value).tagValueMap.entries ++ es =
        m.tagValueMap.entries ++ (tag, value) :: es := by
      rw [hplace, append_assoc]
      rfl
    have hvalue : valueBytes ((tag, value) :: es) ++ rest = value ++ (valueBytes es ++ rest) :=
      append_assoc ..
    rw [hvalue, show lengths ((tag, value) :: es) = (tag, value.length) :: lengths es from rfl,
      readValues, take_left, drop_left, ih (happ ▸ hs)]
    exact Prod.ext (CryptoHandshakeMessage.ext rfl (SortedMap.ext happ) rfl) rfl

/-- The values that bytes hold. -/
def withValues : List (QuicTag × ℕ) → List UInt8 → TagValues
  | [], _ => []
  | (tag, length) :: items, data => (tag, data.take length) :: withValues items (data.drop length)

theorem withValues_spec (h : lengthSum items ≤ data.length) :
    lengths (withValues items data) = items ∧
    valueBytes (withValues items data) ++ data.drop (lengthSum items) = data := by
  induction items generalizing data with
  | nil => exact ⟨rfl, rfl⟩
  | cons e items ih =>
    obtain ⟨tag, length⟩ := e
    have hsum : lengthSum ((tag, length) :: items) = length + lengthSum items := rfl
    have hrest : lengthSum items ≤ (data.drop length).length := by
      rw [length_drop]
      omega
    obtain ⟨hlengths, hbytes⟩ := ih hrest
    have hlen : (data.take length).length = length := length_take_of_le (by omega)
    constructor
    · rw [withValues, show lengths
        ((tag, data.take length) :: withValues items (data.drop length)) =
        (tag, (data.take length).length) :: lengths (withValues items (data.drop length)) from rfl,
        hlen, hlengths]
    · rw [withValues, show valueBytes
        ((tag, data.take length) :: withValues items (data.drop length)) =
        data.take length ++ valueBytes (withValues items (data.drop length)) from rfl, hsum,
        ← drop_drop, append_assoc, hbytes, take_append_drop]

/-! ## One message -/

/-- A message that can be read: its end offsets are 32-bit numbers. -/
structure Readable (es : TagValues) : Prop where
  sorted : Ascending es
  few : es.length ≤ kMaxEntries
  short : valuesLength es < 2 ^ 32

/-- The framer after a message, with `rest` behind it. -/
def after (tag : QuicTag) (m : SortedMap QuicTag (List UInt8)) (rest : List UInt8) : CryptoFramer :=
  { new with received := [⟨tag, m, 0⟩], buffer := rest, numEntries := m.entries.length,
             valuesLen := valuesLength m.entries }

theorem resume_wire {tag : QuicTag} (hres : reserved.length = 2) (h : Readable es) :
    new.resume (wire tag reserved es ++ rest) = .ok (after tag ⟨es, h.sorted⟩ rest) := by
  have hcount : decodeLe (encodeLe 2 es.length) = es.length := by
    have hlt : es.length < 256 ^ 2 := lt_of_le_of_lt h.few (by decide)
    rw [decodeLe_encodeLe, Nat.mod_eq_of_lt hlt]
  have hparts : wire tag reserved es ++ rest =
      encodeLe 4 tag ++ (encodeLe 2 es.length ++
        (reserved ++ (tableBytes 0 es ++ (valueBytes es ++ rest)))) := by
    simp [wire]
  have htable : readTable es.length [] 0 (tableBytes 0 es ++ (valueBytes es ++ rest)) = _ :=
    readTable_tableBytes h.sorted (fun e _ => above_nil e.1) (by rw [Nat.zero_add]; exact h.short)
  have hfour : (encodeLe 2 es.length ++
      (reserved ++ (tableBytes 0 es ++ (valueBytes es ++ rest)))).drop 4 =
      tableBytes 0 es ++ (valueBytes es ++ rest) := by
    rw [show (4 : ℕ) = 2 + 2 from rfl, ← drop_drop, drop_left' length_encodeLe, drop_left' hres]
  rw [hparts]
  unfold resume
  simp only [new]
  rw [processTag, if_neg (by simp [length_encodeLe]), readTag_encodeLe, drop_left' length_encodeLe,
    processNumEntries,
    if_neg (by simp [length_encodeLe, hres]; omega), take_left' length_encodeLe, hcount]
  rw [if_neg (not_lt.2 h.few), hfour, processTagsAndLengths, if_neg (by simp [length_tableBytes]; omega)]
  rw [htable]
  dsimp only
  rw [processValues, if_neg (by simp [length_valueBytes])]
  rw [nil_append, readValues_valueBytes (by exact h.sorted)]
  simp [after, clear, new, CryptoHandshakeMessage.new, SortedMap.empty]

theorem exists_wire (h : new.resume data = .ok f) (hrec : f.received ≠ []) : ∃ tag reserved es rest,
    reserved.length = 2 ∧ Readable es ∧ data = wire tag reserved es ++ rest := by
  unfold resume at h
  simp only [new] at h
  rw [processTag] at h
  split_ifs at h with h4
  · cases h
    exact absurd rfl hrec
  rw [processNumEntries] at h
  split_ifs at h with h8
  · cases h
    exact absurd rfl hrec
  dsimp only at h
  split_ifs at h with hmax
  rw [processTagsAndLengths] at h
  dsimp only at h
  split_ifs at h with htable
  · cases h
    exact absurd rfl hrec
  split at h
  · cases h
  · rename_i items last values hread
    obtain ⟨_, rfl, hn, hs, -, hlast, hlt, hdata⟩ := readTable_eq_ok (by omega) (by decide) hread
    rw [processValues] at h
    dsimp only at h
    split_ifs at h with hvalues
    · cases h
      exact absurd rfl hrec
    · have henough : lengthSum items ≤ values.length := by omega
      obtain ⟨hlengths, hbytes⟩ := withValues_spec henough
      have hes : (withValues items values).length = decodeLe ((data.drop 4).take 2) := by
        rw [← hn, ← congrArg length hlengths, lengths, length_map]
      have htake : ((data.drop 4).take 2).length = 2 := length_take_of_le (by omega)
      refine ⟨readTag data, ((data.drop 4).drop 2).take 2, withValues items values,
        values.drop (lengthSum items), ?_, ⟨?_, ?_, ?_⟩, ?_⟩
      · rw [length_take, length_drop]
        omega
      · rw [← ascending_lengths, hlengths]
        exact hs
      · omega
      · rw [← lengthSum_lengths, hlengths]
        omega
      · rw [wire, hes, encodeLe_readTag (by omega), encodeLe_decodeLe htake]
        simp only [append_assoc]
        rw [hbytes, ← hdata _ hlengths]
        have hfour : (data.drop 4).drop 4 = ((data.drop 4).drop 2).drop 2 :=
          (drop_drop (i := 2)).symm
        rw [hfour, take_append_drop, take_append_drop, take_append_drop]

/-- A message is received from the bytes it has on the wire, and from no others. -/
theorem received_iff : new.resume data = .ok f ∧ f.received ≠ [] ↔
    ∃ tag reserved es rest, ∃ h : Readable es,
    reserved.length = 2 ∧ data = wire tag reserved es ++ rest ∧
      f = after tag ⟨es, h.sorted⟩ rest := by
  constructor
  · rintro ⟨hf, hrec⟩
    obtain ⟨tag, reserved, es, rest, hres, h, rfl⟩ := exists_wire hf hrec
    rw [resume_wire hres h] at hf
    exact ⟨tag, reserved, es, rest, h, hres, rfl, (Except.ok.inj hf).symm⟩
  · rintro ⟨tag, reserved, es, rest, h, hres, rfl, rfl⟩
    exact ⟨resume_wire hres h, cons_ne_nil _ _⟩

theorem parseMessage_eq_some : parseMessage data = some m ↔
    m.minimumSize = 0 ∧ Readable m.tagValueMap.entries ∧
    ∃ reserved, reserved.length = 2 ∧ data = wire m.tag reserved m.tagValueMap.entries := by
  have hprocess : new.process data = new.resume data := rfl
  unfold parseMessage processInput
  rw [if_neg (by decide), hprocess]
  constructor
  · intro h
    cases hf : new.resume data with
    | error e =>
      rw [hf] at h
      exact absurd h (by simp)
    | ok f =>
      rw [hf] at h
      dsimp only at h
      split_ifs at h with hgood
      have hrec : f.received ≠ [] := fun hnil => by
        rw [hnil] at h
        cases h
      obtain ⟨tag, reserved, es, rest, hes, hres, rfl, rfl⟩ := received_iff.1 ⟨hf, hrec⟩
      have hrest : rest = [] := by simpa [after, new] using hgood
      obtain rfl : ⟨tag, ⟨es, hes.sorted⟩, 0⟩ = m := Option.some.inj h
      exact ⟨rfl, hes, reserved, hres, by rw [hrest, append_nil]⟩
  · obtain ⟨tag, entries, minimumSize⟩ := m
    rintro ⟨rfl, hes, reserved, hres, rfl⟩
    have hf : new.resume (wire tag reserved entries.entries ++ []) = _ := resume_wire hres hes
    rw [append_nil] at hf
    rw [hf]
    rfl

theorem wire_reserved {tag : QuicTag} (hres : reserved.length = 2) :
    (wire tag reserved es).take 6 ++ [0, 0] ++ (wire tag reserved es).drop 8 =
      wire tag [0, 0] es := by
  have hsix : (encodeLe 4 tag ++ encodeLe 2 es.length).length = 6 := by
    rw [length_append, length_encodeLe, length_encodeLe]
  have height : (encodeLe 4 tag ++ encodeLe 2 es.length ++ reserved).length = 8 := by
    rw [length_append, hsix, hres]
  have htake : (wire tag reserved es).take 6 = encodeLe 4 tag ++ encodeLe 2 es.length := by
    rw [wire, append_assoc, append_assoc, take_left' hsix]
  have hdrop : (wire tag reserved es).drop 8 = tableBytes 0 es ++ valueBytes es := by
    rw [wire, append_assoc, drop_left' height]
  rw [htake, hdrop, wire, append_assoc _ (tableBytes 0 es)]

/-- What is written can be read if the end offsets fit, and what is read is written again but for
    the reserved bytes. -/
theorem handshake_message_round_trip (m : CryptoHandshakeMessage) (data : List UInt8) :
    (constructHandshakeMessage m = some data →
      data.length = (if m.minimumSize ≤ m.size then m.size else max m.minimumSize (m.size + 8)) ∧
      (parseMessage data = some ⟨m.tag, m.padded, 0⟩ ↔ valuesLength m.padded.entries < 2 ^ 32) ∧
      m.padded.entries.length = m.tagValueMap.entries.length + (if m.needsPad then 1 else 0)) ∧
    (parseMessage data = some m →
      m.minimumSize = 0 ∧
        constructHandshakeMessage m = some (data.take 6 ++ [0, 0] ++ data.drop 8)) := by
  constructor
  · intro h
    obtain ⟨hpad, hfew, rfl⟩ := constructHandshakeMessage_eq_some.1 h
    refine ⟨?_, ?_, ?_⟩
    · rw [length_wire rfl, size_padded hpad, padLength, needsPad]
      split_ifs <;> simp_all <;> omega
    · rw [parseMessage_eq_some]
      exact ⟨fun hparse => hparse.2.1.short,
        fun hshort => ⟨rfl, ⟨m.padded.sorted, hfew, hshort⟩, [0, 0], rfl, rfl⟩⟩
    · rw [length_padded hpad]
      split_ifs <;> rfl
  · intro h
    obtain ⟨hmin, hes, reserved, hres, rfl⟩ := parseMessage_eq_some.1 h
    have hneed : m.needsPad = false := by simp [needsPad, hmin]
    have hpadded : m.padded = m.tagValueMap := by rw [padded, if_neg (by simp [hneed])]
    refine ⟨hmin, constructHandshakeMessage_eq_some.2 ⟨fun hn => absurd hn (by simp [hneed]),
      ?_, ?_⟩⟩
    · rw [hpadded]
      exact hes.few
    · rw [hpadded, wire_reserved hres]

/-- A message with one value, which gets the least padding there is. -/
theorem handshake_message_round_trip_padded :
    let m : CryptoHandshakeMessage := ⟨⟨7, by decide⟩, .set .empty ⟨1, by decide⟩ [9], 18⟩
    ∃ data, constructHandshakeMessage m = some data ∧ data.length = 25 ∧
      parseMessage data = some ⟨m.tag, .set m.tagValueMap kPAD [], 0⟩ := by
  intro m
  obtain ⟨data, hdata⟩ : ∃ data, constructHandshakeMessage m = some data :=
    Option.isSome_iff_exists.1 (by decide +kernel)
  obtain ⟨hlen, hparse, -⟩ := (handshake_message_round_trip m data).1 hdata
  exact ⟨data, hdata, hlen, hparse.2 (by decide +kernel)⟩

end CryptoFramer

end Puic
