import Mathlib.Data.List.Basic
import Mathlib.Tactic.Ring

/-!
# The control protocol's wire primitives

`controlproto` (`control.pb.go`, generated by protoc-gen-gogo) carries the
cluster's control messages between nodes. Its four `Marshal`s and four
`Unmarshal`s, and `skipControl`, are built from a few pieces that the
generated code inlines again and again; this file models each piece once.

* `varintLoop w` is the `for shift := uint(0); ; shift += 7` loop that reads a
  varint, OR-ing its 7-bit groups into a `w`-bit accumulator: `uint64` (and
  `int`, which has the same bits) for tags and lengths, `int32` for
  `MethodType`, `uint32` for the `Node` counters.
* `encodeVarintControl` writes a varint into the buffer; `sovControl` counts
  its bytes; `varint` is the byte string both agree on.
* `byteAt`, `slice`, `store` are Go's checked accesses: they panic instead of
  reading or writing outside the slice.

The payoffs here are `sovControl_eq_length` (the size function counts what the
writer writes), `encodeVarintControl_eq` (the writer writes `varint v`) and
`varintLoop_varint` (the reader reads `varint v` back, at any offset, whatever
follows, as long as the value's last byte comes before `shift` reaches 64).

Mirroring notes vs the Go source:
- Go `int` is 64-bit two's complement; `goInt` reduces into `[-2^63, 2^63)`
  and wraps every sum of indices the decoders form.
- Shifting a `w`-bit value by `shift ≥ w` gives 0 in Go; `(x <<< s) % 2^w`
  gives the same for every `s`, so the model needs no case split.
- Positions are `Int`, as Go's are, so that a wrapped index can be negative.
-/

namespace Centrifuge.Control

/-- A Go `[]byte` or `string` of the control protocol. -/
abbrev Bytes := List UInt8

/-- The runtime panics the generated code can raise. -/
inductive Panic
  /-- `dAtA[i]` with `i` outside `[0, len(dAtA))`. -/
  | indexOutOfRange
  /-- `dAtA[lo:hi]` without `0 ≤ lo ≤ hi ≤ len(dAtA)`. -/
  | sliceOutOfRange
  /-- `panic("unreachable")` after the loop of `skipControl`. -/
  | unreachable
deriving DecidableEq, Repr

/-- The error values the generated code returns, with their texts' arguments. -/
inductive ControlError
  /-- `ErrIntOverflowControl`: "proto: integer overflow". -/
  | intOverflow
  /-- `ErrInvalidLengthControl`: "proto: negative length found during unmarshaling". -/
  | invalidLength
  /-- `io.ErrUnexpectedEOF`. -/
  | unexpectedEOF
  /-- "proto: `msg`: wiretype end group for non-group". -/
  | endGroupForNonGroup (msg : String)
  /-- "proto: `msg`: illegal tag `fieldNum` (wire type `wire`)". -/
  | illegalTag (msg : String) (fieldNum : Int) (wire : Nat)
  /-- "proto: wrong wireType = `wireType` for field `field`". -/
  | wrongWireType (wireType : Nat) (field : String)
  /-- "proto: illegal wireType `wireType`". -/
  | illegalWireType (wireType : Nat)
deriving DecidableEq, Repr

/-- How a call ends when it does not return a value: a returned error, a runtime
panic, or (`exhausted`) the model's fuel running out, which the Go code has no
counterpart of. -/
inductive Fault
  | error (e : ControlError)
  | panic (p : Panic)
  | exhausted
deriving DecidableEq, Repr

/-- A decoder step: a value, or a returned error, a panic, or no fuel. -/
abbrev Res (α : Type) := Except Fault α

/-- Decoder results compare by value, so that a run of the model can be decided. -/
instance instDecidableEqRes {α : Type} [DecidableEq α] : DecidableEq (Res α)
  | .ok a, .ok b => decidable_of_iff (a = b) (by simp)
  | .error a, .error b => decidable_of_iff (a = b) (by simp)
  | .ok _, .error _ => isFalse (by simp)
  | .error _, .ok _ => isFalse (by simp)

@[simp] theorem Res.ok_bind {α β : Type} (a : α) (f : α → Res β) :
    (Except.ok a >>= f : Res β) = f a := rfl

@[simp] theorem Res.error_bind {α β : Type} (e : Fault) (f : α → Res β) :
    (Except.error e >>= f : Res β) = .error e := rfl

@[simp] theorem Res.pure_eq {α : Type} (a : α) : (pure a : Res α) = .ok a := rfl

@[simp] theorem Res.throw_eq {α : Type} (e : Fault) : (throw e : Res α) = .error e := rfl

/-! ## Go's checked accesses -/

/-- Go's 64-bit `int`: `x` reduced into `[-2^63, 2^63)` (two's complement wrap). -/
def goInt (x : Int) : Int := x.bmod (2 ^ 64)

/-- `dAtA[i]`, which panics outside the slice. -/
def byteAt (d : Bytes) (i : Int) : Res UInt8 :=
  if h : 0 ≤ i ∧ i < d.length then .ok (d.get ⟨i.toNat, by omega⟩)
  else .error (.panic .indexOutOfRange)

/-- `dAtA[lo:hi]`, which panics unless `0 ≤ lo ≤ hi ≤ len(dAtA)`. Every high bound the
decoders use is `len(dAtA)` or was checked against it, so `cap` plays no part. -/
def slice (d : Bytes) (lo hi : Int) : Res Bytes :=
  if 0 ≤ lo ∧ lo ≤ hi ∧ hi ≤ d.length then .ok ((d.drop lo.toNat).take (hi - lo).toNat)
  else .error (.panic .sliceOutOfRange)

/-- The varint loop every `Unmarshal` and `skipControl` inline:
`for shift := uint(0); ; shift += 7 { if shift >= 64 {…}; if iNdEx >= l {…};
b := dAtA[iNdEx]; iNdEx++; acc |= (b & 0x7F) << shift; if b < 0x80 { break } }`,
with the accumulator `w` bits wide. Returns the accumulator and `iNdEx`. -/
def varintLoop (w : Nat) (d : Bytes) (shift acc : Nat) (i : Int) : Res (Nat × Int) :=
  if 64 ≤ shift then .error (.error .intOverflow)
  else if (d.length : Int) ≤ i then .error (.error .unexpectedEOF)
  else match byteAt d i with
    | .error f => .error f
    | .ok b =>
      let acc := acc ||| ((b.toNat &&& 0x7F) <<< shift) % 2 ^ w
      if b.toNat < 0x80 then .ok (acc, i + 1) else varintLoop w d (shift + 7) acc (i + 1)
termination_by 64 - shift

/-! ## The varint writer -/

/-- The base-128 varint of `v`: seven payload bits a byte, low group first, `0x80` on
every byte but the last. -/
def varint (v : Nat) : Bytes :=
  if v < 0x80 then [v.toUInt8] else (v % 0x80 + 0x80).toUInt8 :: varint (v / 0x80)
termination_by v
decreasing_by omega

/-- `dAtA[i] = b`, which panics outside the slice. -/
def store (buf : Bytes) (i : Nat) (b : UInt8) : Option Bytes :=
  if i < buf.length then some (buf.set i b) else none

/-- `encodeVarintControl(dAtA, offset, v)`: `for v >= 1<<7 { dAtA[offset] =
uint8(v&0x7f|0x80); v >>= 7; offset++ }; dAtA[offset] = uint8(v); return offset + 1`. -/
def encodeVarintControl (buf : Bytes) (offset v : Nat) : Option (Bytes × Nat) :=
  if 0x80 ≤ v then
    (store buf offset (v % 0x80 + 0x80).toUInt8).bind
      fun buf => encodeVarintControl buf (offset + 1) (v / 0x80)
  else (store buf offset v.toUInt8).map fun buf => (buf, offset + 1)
termination_by v
decreasing_by omega

/-- `sovControl(x)`: `for { n++; x >>= 7; if x == 0 { break } }`. -/
def sovControl (x : Nat) : Nat :=
  if x / 0x80 = 0 then 1 else sovControl (x / 0x80) + 1
termination_by x
decreasing_by omega

/-- `dAtA[i:]` spliced with `bs`: what writing `bs` at `i` leaves in `buf`. -/
def writeAt (buf : Bytes) (i : Nat) (bs : Bytes) : Bytes :=
  buf.take i ++ bs ++ buf.drop (i + bs.length)

/-! ## Go arithmetic -/

theorem goInt_of_lt {x : Int} (h0 : 0 ≤ x) (h : x < 2 ^ 63) : goInt x = x := by
  rw [goInt, Int.bmod_pos x _ (by rw [Int.emod_eq_of_lt h0 (by omega)]; omega),
    Int.emod_eq_of_lt h0 (by omega)]

/-- A block of `2^s` below `2^w` leaves room for `2^s` more. -/
theorem two_pow_mul_succ_le {s w q : Nat} (hs : s ≤ w) (h : 2 ^ s * q < 2 ^ w) :
    2 ^ s * (q + 1) ≤ 2 ^ w := by
  obtain ⟨k, rfl⟩ := Nat.exists_eq_add_of_le hs
  rw [Nat.pow_add] at h ⊢
  exact Nat.mul_le_mul_left _ (Nat.lt_of_mul_lt_mul_left h)

/-- `acc |= (x << shift)` on a `w`-bit accumulator whose bits all lie below `shift`
is an addition modulo `2^w`. -/
theorem or_shiftLeft_mod {a s w x : Nat} (ha : a < 2 ^ s) (haw : a < 2 ^ w) :
    a ||| (x <<< s) % 2 ^ w = (a + x * 2 ^ s) % 2 ^ w := by
  rw [Nat.shiftLeft_eq]
  obtain ⟨q, hq, hlt⟩ : ∃ q, (x * 2 ^ s) % 2 ^ w = 2 ^ s * q ∧ 2 ^ s * q + a < 2 ^ w := by
    rcases Nat.le_total s w with hsw | hws
    · obtain ⟨q, hq⟩ := (Nat.dvd_mod_iff (Nat.pow_dvd_pow 2 hsw)).2 (Nat.dvd_mul_left _ x)
      have := two_pow_mul_succ_le hsw (hq ▸ Nat.mod_lt _ (Nat.two_pow_pos w))
      exact ⟨q, hq, by rw [Nat.mul_succ] at this; omega⟩
    · refine ⟨0, Nat.mod_eq_zero_of_dvd
        (Nat.dvd_trans (Nat.pow_dvd_pow 2 hws) (Nat.dvd_mul_left _ x)), ?_⟩
      simpa using haw
  rw [hq, Nat.or_comm, ← Nat.mul_add_lt_is_or ha, Nat.add_mod, hq, Nat.mod_eq_of_lt haw,
    Nat.mod_eq_of_lt (by omega : a + 2 ^ s * q < 2 ^ w), Nat.add_comm]

theorem toUInt8_toNat (x : UInt8) : x.toNat.toUInt8 = x := by
  apply UInt8.eq_of_val_eq; apply Fin.ext; simp [Nat.toUInt8, UInt8.ofNat, UInt8.toNat]

theorem toNat_toUInt8 {n : Nat} (h : n < 256) : n.toUInt8.toNat = n :=
  UInt8.toNat_ofNat_of_lt h

/-! ## Checked accesses -/

theorem byteAt_of_drop {d t : Bytes} {i : Nat} {b : UInt8} (h : d.drop i = b :: t) :
    byteAt d i = .ok b := by
  have hi : i < d.length := by
    have := congrArg List.length h; simp at this; omega
  have hb : d[i]? = some b := by rw [← Nat.add_zero i, ← List.getElem?_drop, h]; simp
  rw [byteAt, dif_pos ⟨by omega, by omega⟩]
  simp only [Int.toNat_ofNat, List.get_eq_getElem]
  rw [List.getElem?_eq_getElem hi] at hb
  exact congrArg _ (Option.some.inj hb)

theorem slice_of_drop {d rest bs : Bytes} {i : Nat} (hi : i ≤ d.length)
    (h : d.drop i = bs ++ rest) : slice d i ((i + bs.length : Nat) : Int) = .ok bs := by
  have hl : i + bs.length ≤ d.length := by
    have := congrArg List.length h; simp at this; omega
  rw [slice, if_pos ⟨by omega, by omega, by exact_mod_cast hl⟩,
    show ((i + bs.length : Nat) : Int) - i = bs.length by omega]
  simp [h]

/-! ## The varint writer -/

theorem varint_of_lt {v : Nat} (h : v < 0x80) : varint v = [v.toUInt8] := by
  rw [varint, if_pos h]

theorem varint_of_ge {v : Nat} (h : 0x80 ≤ v) :
    varint v = (v % 0x80 + 0x80).toUInt8 :: varint (v / 0x80) := by
  rw [varint, if_neg (by omega)]

theorem length_varint_pos (v : Nat) : 0 < (varint v).length := by
  rw [varint]; split <;> simp

/-- A value below `2^(7(k+1))` takes at most `k + 1` bytes. -/
theorem length_varint_le : ∀ (k : Nat) {v : Nat}, v < 2 ^ (7 * (k + 1)) →
    (varint v).length ≤ k + 1
  | 0, v, h => by rw [varint_of_lt (by simpa using h)]; simp
  | k + 1, v, h => by
    rcases Nat.lt_or_ge v 0x80 with hv | hv
    · rw [varint_of_lt hv]; simp
    · rw [varint_of_ge hv, List.length_cons]
      have := @length_varint_le k (v / 0x80) (by
        rw [Nat.div_lt_iff_lt_mul (by decide)]
        calc v < 2 ^ (7 * (k + 1 + 1)) := h
          _ = 2 ^ (7 * (k + 1)) * 0x80 := by
            rw [show 7 * (k + 1 + 1) = 7 * (k + 1) + 7 by omega, Nat.pow_add])
      omega

/-- Every `uint64` takes one to ten bytes. -/
theorem length_varint_le_ten {v : Nat} (h : v < 2 ^ 64) : (varint v).length ≤ 10 :=
  length_varint_le 9 (Nat.lt_of_lt_of_le h (Nat.pow_le_pow_right (by decide) (by decide)))

theorem sovControl_eq_length (v : Nat) : sovControl v = (varint v).length := by
  induction v using Nat.strong_induction_on with
  | _ v ih =>
    rw [sovControl]
    rcases Nat.lt_or_ge v 0x80 with hv | hv
    · rw [if_pos (by omega), varint_of_lt hv]; rfl
    · rw [if_neg (by omega), varint_of_ge hv, List.length_cons, ih _ (by omega)]


/-! ## Buffer writes -/

theorem store_eq {buf : Bytes} {i : Nat} (b : UInt8) (h : i < buf.length) :
    store buf i b = some (writeAt buf i [b]) := by
  simp [store, writeAt, h, List.set_eq_take_append_cons_drop]

theorem length_writeAt {buf bs : Bytes} {i : Nat} (h : i + bs.length ≤ buf.length) :
    (writeAt buf i bs).length = buf.length := by
  simp [writeAt]; omega

theorem writeAt_append {buf xs ys : Bytes} {i : Nat}
    (h : i + xs.length + ys.length ≤ buf.length) :
    writeAt (writeAt buf i xs) (i + xs.length) ys = writeAt buf i (xs ++ ys) := by
  have hi : (buf.take i).length = i := by simp; omega
  simp only [writeAt, List.append_assoc, List.take_append_eq_append_take, hi,
    List.drop_append_eq_append_drop, List.length_append, List.length_take]
  simp [List.take_take, List.drop_drop, Nat.add_assoc, hi]
  rw [List.drop_eq_nil_of_le (by rw [hi]; omega), List.drop_eq_nil_of_le (by omega)]
  rfl

theorem writeAt_cons {buf ys : Bytes} {i : Nat} (b : UInt8)
    (h : i + 1 + ys.length ≤ buf.length) :
    writeAt (writeAt buf i [b]) (i + 1) ys = writeAt buf i (b :: ys) :=
  @writeAt_append buf [b] ys i h

/-- `encodeVarintControl` writes exactly `varint v` at `offset` when it fits. -/
theorem encodeVarintControl_eq {v : Nat} :
    ∀ {buf : Bytes} {offset : Nat}, offset + (varint v).length ≤ buf.length →
      encodeVarintControl buf offset v =
        some (writeAt buf offset (varint v), offset + (varint v).length) := by
  induction v using Nat.strong_induction_on with
  | _ v ih =>
  intro buf offset h
  rw [encodeVarintControl]
  rcases Nat.lt_or_ge v 0x80 with hv | hv
  · rw [varint_of_lt hv] at h ⊢
    rw [if_neg (by omega), store_eq _ (by simp at h; omega)]
    rfl
  · rw [varint_of_ge hv] at h ⊢
    simp only [List.length_cons] at h
    rw [if_pos hv, store_eq _ (by omega), Option.some_bind,
      ih _ (by omega) (by rw [length_writeAt (by simp; omega)]; omega),
      writeAt_cons _ (by omega)]
    simp [Nat.add_assoc, Nat.add_comm 1]

/-! ## The varint reader -/

theorem lt_length_of_drop {d t : Bytes} {i : Nat} {b : UInt8} (h : d.drop i = b :: t) :
    i < d.length := by
  have := congrArg List.length h; simp at this; omega

theorem length_eq_of_drop {d xs : Bytes} {i : Nat} (h : d.drop i = xs) (hxs : 0 < xs.length) :
    d.length = i + xs.length := by
  have := congrArg List.length h; simp at this; omega

theorem drop_succ_of_drop {d t : Bytes} {i : Nat} {b : UInt8} (h : d.drop i = b :: t) :
    d.drop (i + 1) = t := by
  rw [← List.drop_drop, h]; rfl

theorem and_0x7F (x : Nat) : x &&& 0x7F = x % 0x80 := Nat.and_pow_two_sub_one_eq_mod x 7

/-- The loop reads `varint v` back from offset `i`, whatever follows it, provided its
last byte is read before `shift` reaches 64: the accumulator gains `v << shift`. -/
theorem varintLoop_varint {w : Nat} {d rest : Bytes} {v : Nat} :
    ∀ {s a i : Nat}, d.drop i = varint v ++ rest → a < 2 ^ s → a < 2 ^ w →
      s + 7 * (varint v).length ≤ 70 →
      varintLoop w d s a i =
        .ok ((a + v * 2 ^ s) % 2 ^ w, ((i + (varint v).length : Nat) : Int)) := by
  induction v using Nat.strong_induction_on with
  | _ v ih =>
  intro s a i hd ha haw hs
  rcases Nat.lt_or_ge v 0x80 with hv | hv
  · rw [varint_of_lt hv] at hd hs ⊢
    rw [varintLoop, if_neg (by simp at hs; omega),
      if_neg (by have := lt_length_of_drop hd; omega), byteAt_of_drop hd]
    simp only [toNat_toUInt8 (by omega : v < 256), and_0x7F, Nat.mod_eq_of_lt hv,
      or_shiftLeft_mod ha haw, if_pos hv]
    simp
  · rw [varint_of_ge hv] at hd hs ⊢
    simp only [List.length_cons] at hs ⊢
    have hb : (v % 0x80 + 0x80).toUInt8.toNat = v % 0x80 + 0x80 := toNat_toUInt8 (by omega)
    have hlt : a + v % 0x80 * 2 ^ s < 2 ^ (s + 7) := by
      have : v % 0x80 * 2 ^ s ≤ 0x7F * 2 ^ s := Nat.mul_le_mul_right _ (by omega)
      rw [Nat.pow_add]; omega
    rw [varintLoop, if_neg (by omega), if_neg (by have := lt_length_of_drop hd; omega),
      byteAt_of_drop hd]
    simp only [hb, and_0x7F, Nat.add_mod_right, Nat.mod_mod, or_shiftLeft_mod ha haw,
      if_neg (by omega : ¬ v % 0x80 + 0x80 < 0x80)]
    rw [show (i : Int) + 1 = ((i + 1 : Nat) : Int) by push_cast; rfl,
      ih _ (by omega) (drop_succ_of_drop hd)
      (Nat.lt_of_le_of_lt (Nat.mod_le _ _) hlt) (Nat.mod_lt _ (Nat.two_pow_pos w)) (by omega)]
    have hv' : v * 2 ^ s = v % 0x80 * 2 ^ s + v / 0x80 * 2 ^ (s + 7) := by
      rw [Nat.pow_add]; nth_rewrite 1 [← Nat.mod_add_div v 0x80]; ring
    rw [Nat.mod_add_mod, hv', Nat.add_assoc]
    push_cast; ring_nf

/-- A `uint64` varint read from its first byte into a `w`-bit accumulator. -/
theorem varintLoop_of_lt {w : Nat} {d rest : Bytes} {v i : Nat} (hv : v < 2 ^ 64)
    (hd : d.drop i = varint v ++ rest) :
    varintLoop w d 0 0 i = .ok (v % 2 ^ w, ((i + (varint v).length : Nat) : Int)) := by
  rw [varintLoop_varint hd (Nat.two_pow_pos 0) (Nat.two_pow_pos w)
    (by have := length_varint_le_ten hv; omega)]
  simp

theorem varintLoop_uint64 {d rest : Bytes} {v i : Nat} (hv : v < 2 ^ 64)
    (hd : d.drop i = varint v ++ rest) :
    varintLoop 64 d 0 0 i = .ok (v, ((i + (varint v).length : Nat) : Int)) := by
  rw [varintLoop_of_lt hv hd, Nat.mod_eq_of_lt hv]

/-- A `uint64` varint at the front of the slice. -/
theorem varintLoop_uint64_zero {rest : Bytes} {v : Nat} (hv : v < 2 ^ 64) :
    varintLoop 64 (varint v ++ rest) 0 0 0 = .ok (v, ((varint v).length : Int)) := by
  have := @varintLoop_uint64 (varint v ++ rest) rest v 0 hv rfl
  simpa using this

theorem goInt_natCast {n : Nat} (h : n < 2 ^ 63) : goInt n = n :=
  goInt_of_lt (by omega) (by exact_mod_cast h)

theorem slice_drop {d : Bytes} {i : Nat} (h : i ≤ d.length) :
    slice d i d.length = .ok (d.drop i) := by
  rw [slice, if_pos ⟨by omega, by exact_mod_cast h, le_refl _⟩]
  simp [List.take_of_length_le, show ((d.length : Int) - i).toNat = d.length - i by omega]

end Centrifuge.Control
