import Centrifuge.Control.Wire

/-!
# The four control messages: `Size`, `MarshalTo`, `Marshal`, `Equal`

`Command`, `Node`, `Unsubscribe` and `Disconnect` are the messages nodes of a
cluster exchange on the control channel. Their generated `MarshalTo`s are a run
of field blocks, one per field, each writing through Go's checked stores:

* a string field writes nothing when empty, else its key, the varint of its
  length and its bytes;
* a varint field writes nothing when zero, else its key and the varint;
* `Command.Params` (a `proto.Raw`) is written always, even when empty.

`Size` computes the same total separately, with `sovControl`. The payoff is
that the two agree on every message:

> `Command.marshalTo_eq` (and the same for the others): in any buffer of at
> least `m.size` bytes, `MarshalTo` writes exactly `m.encode` at offset 0 and
> returns `m.size`; so `Marshal` returns `m.encode`, of `m.size` bytes.

`encode` is the byte string a field-by-field reading of the wire format gives;
`Writes f e` says a field block `f` writes exactly `e` wherever it fits, and
`Writes.andThen` chains blocks, so each message's proof is one line per field.

Mirroring notes vs the Go source:
- Sizes are `Nat`: Go's `int` sums in `Size` cannot wrap for a message held in
  memory, every string being shorter than the address space.
- `Equal` is modelled on two non-nil messages; its nil and interface cases
  never see a decoded message.
-/

namespace Centrifuge.Control

/-! ## `proto.Raw` -/

/-- `proto.Raw` (`type Raw []byte` of `internal/proto`, not among the sources) is the
opaque payload of `Command.Params`; its `Size()` is its length. -/
def rawSize (p : Bytes) : Nat := p.length

/-- `(proto.Raw).MarshalTo(dAtA[i:])`: `copy(data, r)` into the rest of the buffer,
reporting the payload's length. The slice panics past the end. -/
def rawMarshalTo (buf : Bytes) (i : Nat) (p : Bytes) : Option (Bytes × Nat) :=
  if i ≤ buf.length then some (writeAt buf i (p.take (buf.length - i)), p.length) else none

/-- `(*proto.Raw).Unmarshal(data)` on the field `old`: empty `data` leaves it as it was
(its `r = nil` rebinds only the local pointer), any other `data` is copied into it. -/
def rawUnmarshal (old data : Bytes) : Bytes := if data = [] then old else data

@[simp] theorem rawUnmarshal_nil (old : Bytes) : rawUnmarshal old [] = old := rfl

@[simp] theorem rawUnmarshal_nil_left (data : Bytes) : rawUnmarshal [] data = data := by
  cases data <;> rfl

/-- `(proto.Raw).Equal`: `bytes.Equal` of the two payloads. -/
def rawEqual (a b : Bytes) : Bool := a == b

/-! ## The messages -/

/-- `MethodType`, an `int32` enum, as its 32 bits. -/
abbrev MethodType := BitVec 32

/-- `uint64(m.Method)`: the `int32` sign-extended to 64 bits. -/
def MethodType.toUint64 (x : MethodType) : Nat := (x.signExtend 64).toNat

/-- A negative `int32` (top bit set) becomes a ten-byte `uint64`. -/
theorem MethodType.toUint64_eq (x : MethodType) :
    x.toUint64 = if 2 * x.toNat < 2 ^ 32 then x.toNat else x.toNat + (2 ^ 64 - 2 ^ 32) := by
  have hx := x.isLt
  rw [MethodType.toUint64, BitVec.signExtend, BitVec.toNat_ofInt, BitVec.toInt_eq_toNat_cond]
  split <;> omega

theorem MethodType.toUint64_lt (x : MethodType) : x.toUint64 < 2 ^ 64 := BitVec.isLt _

theorem MethodType.toUint64_eq_zero {x : MethodType} : x.toUint64 = 0 ↔ x = 0 := by
  rw [MethodType.toUint64_eq, BitVec.toNat_eq]
  split <;> simp; omega

/-- Sign extension keeps the low 32 bits. -/
theorem MethodType.toUint64_mod (x : MethodType) : x.toUint64 % 2 ^ 32 = x.toNat := by
  have hx := x.isLt
  rw [MethodType.toUint64_eq]; split <;> omega

/-- The decoder's `MethodType(v)` of the low 32 bits gives the method back. -/
theorem MethodType.ofNat_toUint64 (x : MethodType) : BitVec.ofNat 32 (x.toUint64 % 2 ^ 32) = x := by
  rw [MethodType.toUint64_mod]; exact BitVec.eq_of_toNat_eq (by simp)

/-- The decoder's `uint32(v)` of the low 32 bits gives a `uint32` back. -/
theorem ofNat_toNat_uint32 (x : UInt32) : UInt32.ofNat (x.toNat % 2 ^ 32) = x := by
  have h : x.toNat < 2 ^ 32 := x.toNat_lt_size
  rw [Nat.mod_eq_of_lt h]
  apply UInt32.eq_of_val_eq; apply Fin.ext; simp [UInt32.ofNat, UInt32.toNat]

theorem eq_zero_of_toNat_uint32 {x : UInt32} (h : x.toNat = 0) : x = 0 := by
  apply UInt32.eq_of_val_eq; apply Fin.ext; simpa [UInt32.toNat] using h

/-- `Command`: `UID` (field 1), `Method` (2), `Params` (3). -/
structure Command where
  uid : Bytes := []
  method : MethodType := 0
  params : Bytes := []
deriving DecidableEq, Repr

/-- `Node`: the heartbeat, fields 1 to 7. -/
structure Node where
  uid : Bytes := []
  name : Bytes := []
  version : Bytes := []
  numClients : UInt32 := 0
  numUsers : UInt32 := 0
  numChannels : UInt32 := 0
  uptime : UInt32 := 0
deriving DecidableEq, Repr

/-- `Unsubscribe`: `Channel` (1), `User` (2). -/
structure Unsubscribe where
  channel : Bytes := []
  user : Bytes := []
deriving DecidableEq, Repr

/-- `Disconnect`: `User` (1). -/
structure Disconnect where
  user : Bytes := []
deriving DecidableEq, Repr

/-- `(*Command).Equal` on two non-nil messages. -/
def Command.equal (a b : Command) : Bool :=
  a.uid == b.uid && a.method == b.method && rawEqual a.params b.params

/-- `(*Node).Equal` on two non-nil messages. -/
def Node.equal (a b : Node) : Bool :=
  a.uid == b.uid && a.name == b.name && a.version == b.version &&
    a.numClients == b.numClients && a.numUsers == b.numUsers &&
    a.numChannels == b.numChannels && a.uptime == b.uptime

/-- `(*Unsubscribe).Equal` on two non-nil messages. -/
def Unsubscribe.equal (a b : Unsubscribe) : Bool := a.channel == b.channel && a.user == b.user

/-- `(*Disconnect).Equal` on two non-nil messages. -/
def Disconnect.equal (a b : Disconnect) : Bool := a.user == b.user

theorem Command.equal_iff {a b : Command} : a.equal b = true ↔ a = b := by
  cases a; cases b; simp [Command.equal, rawEqual, and_assoc]

theorem Node.equal_iff {a b : Node} : a.equal b = true ↔ a = b := by
  cases a; cases b; simp [Node.equal, and_assoc]

theorem Unsubscribe.equal_iff {a b : Unsubscribe} : a.equal b = true ↔ a = b := by
  cases a; cases b; simp [Unsubscribe.equal]

theorem Disconnect.equal_iff {a b : Disconnect} : a.equal b = true ↔ a = b := by
  cases a; cases b; simp [Disconnect.equal]

/-! ## `Size` -/

/-- A string field's share of `Size()`: `if l > 0 { n += 1 + l + sovControl(uint64(l)) }`. -/
def sizeBytesField (l : Nat) : Nat := if 0 < l then 1 + l + sovControl l else 0

/-- A varint field's share of `Size()`: `if v != 0 { n += 1 + sovControl(uint64(v)) }`. -/
def sizeVarintField (v : Nat) : Nat := if v ≠ 0 then 1 + sovControl v else 0

/-- `(*Command).Size()`; `Params` counts even when empty. -/
def Command.size (m : Command) : Nat :=
  sizeBytesField m.uid.length + sizeVarintField m.method.toUint64 +
    (1 + rawSize m.params + sovControl (rawSize m.params))

/-- `(*Node).Size()`. -/
def Node.size (m : Node) : Nat :=
  sizeBytesField m.uid.length + sizeBytesField m.name.length +
    sizeBytesField m.version.length + sizeVarintField m.numClients.toNat +
    sizeVarintField m.numUsers.toNat + sizeVarintField m.numChannels.toNat +
    sizeVarintField m.uptime.toNat

/-- `(*Unsubscribe).Size()`. -/
def Unsubscribe.size (m : Unsubscribe) : Nat :=
  sizeBytesField m.channel.length + sizeBytesField m.user.length

/-- `(*Disconnect).Size()`. -/
def Disconnect.size (m : Disconnect) : Nat := sizeBytesField m.user.length

/-! ## `MarshalTo` -/

/-- A block of `MarshalTo`: from the buffer and `i`, the buffer and `i` after it. -/
abbrev FieldWriter := Bytes → Nat → Option (Bytes × Nat)

/-- `i += copy(dAtA[i:], s)`: the slice panics past the end; `copy` stops at the
shorter of the two. -/
def copyTo (buf : Bytes) (i : Nat) (s : Bytes) : Option (Bytes × Nat) :=
  if i ≤ buf.length then
    let n := min (buf.length - i) s.length
    some (writeAt buf i (s.take n), n)
  else none

/-- A string field's block: `if len(s) > 0 { dAtA[i] = key; i++;
i = encodeVarintControl(dAtA, i, uint64(len(s))); i += copy(dAtA[i:], s) }`. -/
def marshalBytesField (key : UInt8) (s : Bytes) : FieldWriter := fun buf i =>
  if 0 < s.length then do
    let buf ← store buf i key
    let (buf, i) ← encodeVarintControl buf (i + 1) s.length
    let (buf, n) ← copyTo buf i s
    pure (buf, i + n)
  else pure (buf, i)

/-- A varint field's block: `if v != 0 { dAtA[i] = key; i++;
i = encodeVarintControl(dAtA, i, uint64(v)) }`. For `Method` the test is
`m.Method != 0`, which is `uint64(m.Method) != 0` (`MethodType.toUint64_eq_zero`). -/
def marshalVarintField (key : UInt8) (v : Nat) : FieldWriter := fun buf i =>
  if v ≠ 0 then do
    let buf ← store buf i key
    encodeVarintControl buf (i + 1) v
  else pure (buf, i)

/-- The `Params` block, unconditional: `dAtA[i] = key; i++;
i = encodeVarintControl(dAtA, i, uint64(m.Params.Size()));
n1, err := m.Params.MarshalTo(dAtA[i:]); i += n1`. -/
def marshalRawField (key : UInt8) (p : Bytes) : FieldWriter := fun buf i => do
  let buf ← store buf i key
  let (buf, i) ← encodeVarintControl buf (i + 1) (rawSize p)
  let (buf, n) ← rawMarshalTo buf i p
  pure (buf, i + n)

/-- One block after another. -/
def FieldWriter.andThen (f g : FieldWriter) : FieldWriter := fun buf i =>
  (f buf i).bind fun p => g p.1 p.2

/-- `(*Command).MarshalTo(dAtA)`: the three blocks from `i = 0`; returns `i`. -/
def Command.marshalTo (m : Command) (buf : Bytes) : Option (Nat × Bytes) :=
  ((marshalBytesField 0x0a m.uid).andThen <| (marshalVarintField 0x10 m.method.toUint64).andThen
    (marshalRawField 0x1a m.params)) buf 0 |>.map fun p => (p.2, p.1)

/-- `(*Node).MarshalTo(dAtA)`. -/
def Node.marshalTo (m : Node) (buf : Bytes) : Option (Nat × Bytes) :=
  ((marshalBytesField 0x0a m.uid).andThen <| (marshalBytesField 0x12 m.name).andThen <|
    (marshalBytesField 0x1a m.version).andThen <|
    (marshalVarintField 0x20 m.numClients.toNat).andThen <|
    (marshalVarintField 0x28 m.numUsers.toNat).andThen <|
    (marshalVarintField 0x30 m.numChannels.toNat).andThen
    (marshalVarintField 0x38 m.uptime.toNat)) buf 0 |>.map fun p => (p.2, p.1)

/-- `(*Unsubscribe).MarshalTo(dAtA)`. -/
def Unsubscribe.marshalTo (m : Unsubscribe) (buf : Bytes) : Option (Nat × Bytes) :=
  ((marshalBytesField 0x0a m.channel).andThen (marshalBytesField 0x12 m.user)) buf 0
    |>.map fun p => (p.2, p.1)

/-- `(*Disconnect).MarshalTo(dAtA)`. -/
def Disconnect.marshalTo (m : Disconnect) (buf : Bytes) : Option (Nat × Bytes) :=
  (marshalBytesField 0x0a m.user) buf 0 |>.map fun p => (p.2, p.1)

/-- The body every `Marshal()` shares: `dAtA = make([]byte, size)`,
`n, err := m.MarshalTo(dAtA)`, `return dAtA[:n]`. -/
def marshalWith (size : Nat) (marshalTo : Bytes → Option (Nat × Bytes)) : Option Bytes := do
  let (n, buf) ← marshalTo (List.replicate size 0)
  if n ≤ buf.length then pure (buf.take n) else none

/-- `(*Command).Marshal()`. -/
def Command.marshal (m : Command) : Option Bytes := marshalWith m.size m.marshalTo

/-- `(*Node).Marshal()`. -/
def Node.marshal (m : Node) : Option Bytes := marshalWith m.size m.marshalTo

/-- `(*Unsubscribe).Marshal()`. -/
def Unsubscribe.marshal (m : Unsubscribe) : Option Bytes := marshalWith m.size m.marshalTo

/-- `(*Disconnect).Marshal()`. -/
def Disconnect.marshal (m : Disconnect) : Option Bytes := marshalWith m.size m.marshalTo

/-! ## What the blocks write -/

/-- A string field on the wire: nothing when empty. -/
def bytesField (key : UInt8) (s : Bytes) : Bytes :=
  if 0 < s.length then key :: varint s.length ++ s else []

/-- A varint field on the wire: nothing when zero. -/
def varintField (key : UInt8) (v : Nat) : Bytes := if v ≠ 0 then key :: varint v else []

/-- A `proto.Raw` field on the wire, empty or not. -/
def rawField (key : UInt8) (p : Bytes) : Bytes := key :: varint p.length ++ p

theorem bytesField_of_ne_nil {key : UInt8} {s : Bytes} (h : bytesField key s ≠ []) :
    bytesField key s = key :: varint s.length ++ s := by
  unfold bytesField at h ⊢; split <;> simp_all

theorem eq_nil_of_bytesField {key : UInt8} {s : Bytes} (h : bytesField key s = []) : s = [] := by
  unfold bytesField at h; split at h <;> simp_all [List.length_pos]

theorem varintField_of_ne_nil {key : UInt8} {v : Nat} (h : varintField key v ≠ []) :
    varintField key v = key :: varint v := by
  unfold varintField at h ⊢; split <;> simp_all

theorem eq_zero_of_varintField {key : UInt8} {v : Nat} (h : varintField key v = []) : v = 0 := by
  unfold varintField at h; split at h <;> simp_all

/-- `Command` on the wire. -/
def Command.encode (m : Command) : Bytes :=
  bytesField 0x0a m.uid ++ varintField 0x10 m.method.toUint64 ++ rawField 0x1a m.params

/-- `Node` on the wire. -/
def Node.encode (m : Node) : Bytes :=
  bytesField 0x0a m.uid ++ bytesField 0x12 m.name ++ bytesField 0x1a m.version ++
    varintField 0x20 m.numClients.toNat ++ varintField 0x28 m.numUsers.toNat ++
    varintField 0x30 m.numChannels.toNat ++ varintField 0x38 m.uptime.toNat

/-- `Unsubscribe` on the wire. -/
def Unsubscribe.encode (m : Unsubscribe) : Bytes :=
  bytesField 0x0a m.channel ++ bytesField 0x12 m.user

/-- `Disconnect` on the wire. -/
def Disconnect.encode (m : Disconnect) : Bytes := bytesField 0x0a m.user

/-- Block `f` writes exactly `e`, at any offset where `e` fits, and advances past it. -/
def Writes (f : FieldWriter) (e : Bytes) : Prop :=
  ∀ buf i, i + e.length ≤ buf.length → f buf i = some (writeAt buf i e, i + e.length)

theorem Writes.andThen {f g : FieldWriter} {e e' : Bytes} (hf : Writes f e) (hg : Writes g e') :
    Writes (f.andThen g) (e ++ e') := by
  intro buf i h
  simp only [List.length_append] at h
  rw [FieldWriter.andThen, hf buf i (by omega), Option.some_bind,
    hg _ _ (by rw [length_writeAt (by omega)]; omega), writeAt_append (by omega)]
  simp [Nat.add_assoc]

theorem copyTo_eq {buf s : Bytes} {i : Nat} (h : i + s.length ≤ buf.length) :
    copyTo buf i s = some (writeAt buf i s, s.length) := by
  unfold copyTo
  rw [if_pos (by omega)]
  simp [Nat.min_eq_right (show s.length ≤ buf.length - i by omega)]

theorem rawMarshalTo_eq {buf p : Bytes} {i : Nat} (h : i + p.length ≤ buf.length) :
    rawMarshalTo buf i p = some (writeAt buf i p, p.length) := by
  rw [rawMarshalTo, if_pos (by omega), List.take_of_length_le (by omega)]

/-- A key byte, a varint and a payload, written by a store, `encodeVarintControl` and a
copy that each fit. -/
theorem writeAt_key_varint {buf s : Bytes} {i : Nat} (key : UInt8) (v : Nat)
    (h : i + (key :: varint v ++ s).length ≤ buf.length) :
    writeAt (writeAt (writeAt buf i [key]) (i + 1) (varint v)) (i + 1 + (varint v).length) s =
      writeAt buf i (key :: varint v ++ s) := by
  simp only [List.length_cons, List.length_append] at h
  have := @writeAt_append buf (key :: varint v) s i (by simp; omega)
  simp only [List.length_cons] at this
  rw [writeAt_cons _ (by omega), show i + 1 + (varint v).length = i + ((varint v).length + 1)
    by omega, this]

theorem marshalBytesField_writes (key : UInt8) (s : Bytes) :
    Writes (marshalBytesField key s) (bytesField key s) := by
  intro buf i h
  unfold marshalBytesField bytesField at *
  by_cases hs : 0 < s.length
  · simp only [hs, if_true, List.length_cons, List.length_append] at h ⊢
    have hl : (writeAt buf i [key]).length = buf.length := length_writeAt (by simp; omega)
    rw [store_eq _ (by omega), Option.bind_eq_bind, Option.some_bind,
      encodeVarintControl_eq (by rw [hl]; omega), Option.bind_eq_bind, Option.some_bind]
    dsimp only
    rw [copyTo_eq (by rw [length_writeAt (by rw [hl]; omega), hl]; omega),
      writeAt_key_varint key _ (by simp; omega)]
    simp [Nat.add_assoc, Nat.add_comm 1]
  · simp [hs, writeAt]

theorem marshalVarintField_writes (key : UInt8) (v : Nat) :
    Writes (marshalVarintField key v) (varintField key v) := by
  intro buf i h
  unfold marshalVarintField varintField at *
  by_cases hv : v ≠ 0
  · rw [if_pos hv] at h ⊢
    simp only [List.length_cons] at h
    rw [store_eq _ (by omega), Option.bind_eq_bind, Option.some_bind,
      encodeVarintControl_eq (by rw [length_writeAt (by simp; omega)]; omega),
      writeAt_cons _ (by omega)]
    simp [hv, Nat.add_assoc, Nat.add_comm 1]
  · simp [hv, writeAt]

theorem marshalRawField_writes (key : UInt8) (p : Bytes) :
    Writes (marshalRawField key p) (rawField key p) := by
  intro buf i h
  unfold marshalRawField rawField at *
  simp only [List.length_cons, List.length_append] at h
  have hl : (writeAt buf i [key]).length = buf.length := length_writeAt (by simp; omega)
  rw [store_eq _ (by omega), Option.bind_eq_bind, Option.some_bind,
    encodeVarintControl_eq (by rw [hl]; simp [rawSize]; omega), Option.bind_eq_bind,
    Option.some_bind]
  dsimp only
  rw [rawSize, rawMarshalTo_eq (by rw [length_writeAt (by rw [hl]; omega), hl]; omega),
    writeAt_key_varint key _ (by simp; omega)]
  simp [Nat.add_assoc, Nat.add_comm 1]

/-! ## `MarshalTo` writes `encode`, of `Size()` bytes -/

theorem length_bytesField (key : UInt8) (s : Bytes) :
    (bytesField key s).length = sizeBytesField s.length := by
  unfold sizeBytesField bytesField
  split <;> simp [sovControl_eq_length]; omega

theorem length_varintField (key : UInt8) (v : Nat) :
    (varintField key v).length = sizeVarintField v := by
  unfold sizeVarintField varintField
  split <;> simp [sovControl_eq_length, *]; omega

theorem length_rawField (key : UInt8) (p : Bytes) :
    (rawField key p).length = 1 + rawSize p + sovControl (rawSize p) := by
  simp [rawSize, rawField, sovControl_eq_length]; omega

theorem marshalWith_eq {e : Bytes} {marshalTo : Bytes → Option (Nat × Bytes)}
    (h : ∀ buf, e.length ≤ buf.length → marshalTo buf = some (e.length, writeAt buf 0 e)) :
    marshalWith e.length marshalTo = some e := by
  rw [marshalWith, h _ (by simp), Option.bind_eq_bind, Option.some_bind]
  simp [writeAt]

theorem Command.marshalTo_eq (m : Command) {buf : Bytes} (h : m.encode.length ≤ buf.length) :
    m.marshalTo buf = some (m.encode.length, writeAt buf 0 m.encode) := by
  have hw := (marshalBytesField_writes 0x0a m.uid).andThen <|
    (marshalVarintField_writes 0x10 m.method.toUint64).andThen (marshalRawField_writes 0x1a m.params)
  simp only [Command.encode, List.append_assoc] at h ⊢
  rw [Command.marshalTo, hw buf 0 (by simpa using h)]
  simp

theorem Node.marshalTo_eq (m : Node) {buf : Bytes} (h : m.encode.length ≤ buf.length) :
    m.marshalTo buf = some (m.encode.length, writeAt buf 0 m.encode) := by
  have hw := (marshalBytesField_writes 0x0a m.uid).andThen <|
    (marshalBytesField_writes 0x12 m.name).andThen <|
    (marshalBytesField_writes 0x1a m.version).andThen <|
    (marshalVarintField_writes 0x20 m.numClients.toNat).andThen <|
    (marshalVarintField_writes 0x28 m.numUsers.toNat).andThen <|
    (marshalVarintField_writes 0x30 m.numChannels.toNat).andThen
    (marshalVarintField_writes 0x38 m.uptime.toNat)
  simp only [Node.encode, List.append_assoc] at h ⊢
  rw [Node.marshalTo, hw buf 0 (by simpa using h)]
  simp

theorem Unsubscribe.marshalTo_eq (m : Unsubscribe) {buf : Bytes}
    (h : m.encode.length ≤ buf.length) :
    m.marshalTo buf = some (m.encode.length, writeAt buf 0 m.encode) := by
  have hw := (marshalBytesField_writes 0x0a m.channel).andThen (marshalBytesField_writes 0x12 m.user)
  rw [Unsubscribe.marshalTo, hw buf 0 (by simpa [Unsubscribe.encode] using h)]
  simp [Unsubscribe.encode]

theorem Disconnect.marshalTo_eq (m : Disconnect) {buf : Bytes}
    (h : m.encode.length ≤ buf.length) :
    m.marshalTo buf = some (m.encode.length, writeAt buf 0 m.encode) := by
  rw [Disconnect.marshalTo, marshalBytesField_writes 0x0a m.user buf 0 (by simpa using h)]
  simp [Disconnect.encode]

theorem Command.size_eq (m : Command) : m.size = m.encode.length := by
  simp only [Command.size, Command.encode, List.length_append, length_bytesField,
    length_varintField, length_rawField]

theorem Node.size_eq (m : Node) : m.size = m.encode.length := by
  simp only [Node.size, Node.encode, List.length_append, length_bytesField, length_varintField]

theorem Unsubscribe.size_eq (m : Unsubscribe) : m.size = m.encode.length := by
  simp only [Unsubscribe.size, Unsubscribe.encode, List.length_append, length_bytesField]

theorem Disconnect.size_eq (m : Disconnect) : m.size = m.encode.length := by
  simp only [Disconnect.size, Disconnect.encode, length_bytesField]

theorem Command.marshal_eq (m : Command) : m.marshal = some m.encode := by
  rw [Command.marshal, m.size_eq]; exact marshalWith_eq fun _ h => m.marshalTo_eq h

theorem Node.marshal_eq (m : Node) : m.marshal = some m.encode := by
  rw [Node.marshal, m.size_eq]; exact marshalWith_eq fun _ h => m.marshalTo_eq h

theorem Unsubscribe.marshal_eq (m : Unsubscribe) : m.marshal = some m.encode := by
  rw [Unsubscribe.marshal, m.size_eq]; exact marshalWith_eq fun _ h => m.marshalTo_eq h

theorem Disconnect.marshal_eq (m : Disconnect) : m.marshal = some m.encode := by
  rw [Disconnect.marshal, m.size_eq]; exact marshalWith_eq fun _ h => m.marshalTo_eq h

/-- What `Size()` promises of one message: `MarshalTo` into any buffer of at least
`size` bytes (exactly `size` included) writes `e`, of `size` bytes, at offset 0 and
nothing past it, and returns `size`; `Marshal` returns `size` bytes. -/
def SizeAgrees (size : Nat) (e : Bytes) (marshalTo : Bytes → Option (Nat × Bytes))
    (marshal : Option Bytes) : Prop :=
  e.length = size ∧ (∀ buf, size ≤ buf.length → marshalTo buf = some (size, writeAt buf 0 e)) ∧
    ∃ b, marshal = some b ∧ b.length = size

/-- `Size()` is the number of bytes `MarshalTo` writes, for every message of the four
types; under it, `sovControl v` is the number of bytes `encodeVarintControl` writes
for `v`, one to ten for every `uint64`. -/
theorem marshalTo_writes_size :
    (∀ v, (∀ buf offset, offset + sovControl v ≤ buf.length →
        encodeVarintControl buf offset v =
          some (writeAt buf offset (varint v), offset + sovControl v)) ∧
      (varint v).length = sovControl v ∧ (v < 2 ^ 64 → 1 ≤ sovControl v ∧ sovControl v ≤ 10)) ∧
    (∀ m : Command, SizeAgrees m.size m.encode m.marshalTo m.marshal) ∧
    (∀ m : Node, SizeAgrees m.size m.encode m.marshalTo m.marshal) ∧
    (∀ m : Unsubscribe, SizeAgrees m.size m.encode m.marshalTo m.marshal) ∧
    (∀ m : Disconnect, SizeAgrees m.size m.encode m.marshalTo m.marshal) := by
  refine ⟨fun v => ⟨fun buf offset h => ?_, (sovControl_eq_length v).symm, fun h => ?_⟩,
    fun m => ?_, fun m => ?_, fun m => ?_, fun m => ?_⟩
  · rw [sovControl_eq_length] at h ⊢; exact encodeVarintControl_eq h
  · rw [sovControl_eq_length]; exact ⟨length_varint_pos v, length_varint_le_ten h⟩
  all_goals
    rw [m.size_eq]
    exact ⟨rfl, fun _ h => m.marshalTo_eq h, _, m.marshal_eq, rfl⟩

unseal varint in
/-- `Command { UID: "A", Method: 3, Params: [7] }` has `Size()` 8, and `MarshalTo` into a
buffer of nine zero bytes writes its eight bytes at the start and leaves the ninth. -/
theorem marshalTo_writes_size_command :
    let m : Command := { uid := [0x41], method := 3, params := [7] }
    m.size = 8 ∧ m.marshalTo (List.replicate 9 0) =
      some (8, [0x0a, 0x01, 0x41, 0x10, 0x03, 0x1a, 0x01, 0x07, 0x00]) := by
  intro m
  obtain ⟨hlen, hm, -⟩ := marshalTo_writes_size.2.1 m
  have hs : m.size = 8 := hlen.symm.trans (by decide)
  rw [hm _ (by rw [hs]; decide), hs]
  exact ⟨rfl, by decide⟩

end Centrifuge.Control
