import Centrifuge.Control.Message
import Centrifuge.Control.Skip

/-!
# The four `Unmarshal`s

Each generated `Unmarshal` is one `for iNdEx < l` loop: read a tag varint,
reject an end-group wire type and a field number `≤ 0`, then either run the
`case` of a declared field or, in `default`, rewind to the tag and step over
the whole field with `skipControl`. The loop is `unmarshalLoop`, shared by the
four messages; what differs is the table of cases (`FieldCase`), built from
three kinds of case body:

* `stringCase` — wire type 2, a `uint64` length converted to `int`, checked
  `≥ 0` and `iNdEx + len ≤ l`, then the slice `dAtA[iNdEx:postIndex]`;
* `varint32Case` — wire type 0, a varint OR-ed into a 32-bit field
  (`MethodType` or `uint32`);
* `skipCase` — the `default` branch.

Mirroring notes vs the Go source:
- `fuel` bounds the loop's iterations; `unmarshal` starts it at `len(dAtA) + 1`.
- The `Params` case accumulates its length in an `int` rather than a `uint64`
  and skips the conversion; the two give the same bits, so it is `stringCase`
  followed by `m.Params.Unmarshal(dAtA[iNdEx:postIndex])` (`rawUnmarshal`), which
  leaves `Params` as it was when the field is empty.
- `int32(wire >> 3)` keeps the low 32 bits of the tag's field number, signed.
-/

namespace Centrifuge.Control

/-- Go's `int32(x)`: the low 32 bits of `x`, signed. -/
def goInt32 (x : Int) : Int := x.bmod (2 ^ 32)

/-- A `string` (or bytes) field's case, from `iNdEx` past the tag: returns the field's
bytes and the new `iNdEx`. -/
def stringCase (field : String) (wireType : Nat) (d : Bytes) (i : Int) : Res (Bytes × Int) := do
  if wireType ≠ 2 then throw (.error (.wrongWireType wireType field))
  let (stringLen, i) ← varintLoop 64 d 0 0 i
  let intStringLen := goInt stringLen
  if intStringLen < 0 then throw (.error .invalidLength)
  let postIndex := goInt (i + intStringLen)
  if (d.length : Int) < postIndex then throw (.error .unexpectedEOF)
  let s ← slice d i postIndex
  pure (s, postIndex)

/-- A 32-bit varint field's case: `m.F = 0`, then the varint OR-ed into it. -/
def varint32Case (field : String) (wireType : Nat) (d : Bytes) (i : Int) : Res (Nat × Int) := do
  if wireType ≠ 0 then throw (.error (.wrongWireType wireType field))
  varintLoop 32 d 0 0 i

/-- The `default` case: `iNdEx = preIndex`, `skippy, err := skipControl(dAtA[iNdEx:])`,
reject `skippy < 0` and `iNdEx + skippy > l`, then `iNdEx += skippy`. -/
def skipCase (d : Bytes) (preIndex : Int) : Res Int := do
  let rest ← slice d preIndex d.length
  let skippy ← skipControl rest
  if skippy < 0 then throw (.error .invalidLength)
  if (d.length : Int) < goInt (preIndex + skippy) then throw (.error .unexpectedEOF)
  pure (goInt (preIndex + skippy))

/-- The declared fields of a message: from `fieldNum`, `wireType`, `dAtA`, `iNdEx` past
the tag and the message so far, the case's outcome; `none` is `default`. -/
abbrev FieldCase (M : Type) := Int → Nat → Bytes → Int → M → Option (Res (Int × M))

/-- The loop of every `Unmarshal`, from `iNdEx` and the message so far. -/
def unmarshalLoop {M : Type} (name : String) (fieldCase : FieldCase M) (d : Bytes) :
    Nat → Int → M → Res M
  | 0, _, _ => .error .exhausted
  | fuel + 1, i, m =>
    if i < d.length then do
      let preIndex := i
      let (wire, i) ← varintLoop 64 d 0 0 i
      let fieldNum := goInt32 (wire >>> 3 : Nat)
      let wireType := wire &&& 0x7
      if wireType = 4 then throw (.error (.endGroupForNonGroup name))
      if fieldNum ≤ 0 then throw (.error (.illegalTag name fieldNum wire))
      match fieldCase fieldNum wireType d i m with
      | some r => do
        let (i, m) ← r
        unmarshalLoop name fieldCase d fuel i m
      | none => do
        let i ← skipCase d preIndex
        unmarshalLoop name fieldCase d fuel i m
    else if (d.length : Int) < i then throw (.error .unexpectedEOF) else pure m

/-! ## One pass of the loop -/

/-- The body of an `Unmarshal`'s `for iNdEx < l` loop, from `iNdEx = i`: read the tag,
reject an end-group wire type and a field number `≤ 0`, then run the field's case, or in
`default` step over the field from `preIndex`. Returns the index and the message the next
pass starts from. -/
def unmarshalPass {M : Type} (name : String) (fieldCase : FieldCase M) (d : Bytes) (i : Int)
    (m : M) : Res (Int × M) := do
  let preIndex := i
  let (wire, i) ← varintLoop 64 d 0 0 i
  let fieldNum := goInt32 (wire >>> 3 : Nat)
  let wireType := wire &&& 0x7
  if wireType = 4 then throw (.error (.endGroupForNonGroup name))
  if fieldNum ≤ 0 then throw (.error (.illegalTag name fieldNum wire))
  match fieldCase fieldNum wireType d i m with
  | some r => r
  | none => do
    let i ← skipCase d preIndex
    pure (i, m)

/-- Inside the slice, the loop is one pass and then the loop from where the pass left. -/
theorem unmarshalLoop_succ {M : Type} {name : String} {fc : FieldCase M} {d : Bytes}
    {fuel : Nat} {i : Int} {m : M} (hi : i < d.length) :
    unmarshalLoop name fc d (fuel + 1) i m =
      unmarshalPass name fc d i m >>= fun p => unmarshalLoop name fc d fuel p.1 p.2 := by
  rw [unmarshalLoop, if_pos hi, unmarshalPass]
  rcases varintLoop 64 d 0 0 i with e | ⟨wire, i1⟩
  · rfl
  simp only [Res.ok_bind]
  split_ifs <;> simp only [pure_bind, Res.throw_eq, Res.error_bind]
  rcases fc (goInt32 (wire >>> 3 : Nat)) (wire &&& 0x7) d i1 m with _ | r
  · rcases skipCase d i with e | k <;> rfl
  · rcases r with e | ⟨i', m'⟩ <;> rfl

theorem goInt32_natCast {n : Nat} (h : n < 2 ^ 31) : goInt32 n = n := by
  rw [goInt32, Int.bmod_pos _ _ (by rw [Int.emod_eq_of_lt (by omega) (by omega)]; omega),
    Int.emod_eq_of_lt (by omega) (by omega)]

/-- The tag of field `n` with wire type `wt`, as the loop splits it. -/
theorem tag_fieldNum {n wt : Nat} (hn : n < 2 ^ 29) (hwt : wt < 8) :
    goInt32 ((n * 8 + wt) >>> 3 : Nat) = n ∧ (n * 8 + wt) &&& 0x7 = wt := by
  refine ⟨?_, ?_⟩
  · rw [Nat.shiftRight_eq_div_pow, show (n * 8 + wt) / 2 ^ 3 = n by omega,
      goInt32_natCast (by omega)]
  · rw [show (0x7 : Nat) = 2 ^ 3 - 1 from rfl, Nat.and_pow_two_sub_one_eq_mod]; omega

/-- `stringCase` reads a length-prefixed string back. -/
theorem stringCase_eq {d rest s : Bytes} {j : Nat} (field : String)
    (hd : d.drop j = varint s.length ++ s ++ rest) (hl : d.length < 2 ^ 63) :
    stringCase field 2 d j = .ok (s, ((j + (varint s.length).length + s.length : Nat) : Int)) := by
  have hlen := length_eq_of_drop hd (by simp [length_varint_pos])
  simp only [List.length_append] at hlen
  rw [stringCase, if_neg (by decide), pure_bind]
  rw [@varintLoop_uint64 _ (s ++ rest) s.length j (by omega) (by simp [hd]), Res.ok_bind]
  dsimp only
  rw [goInt_natCast (by omega), if_neg (by omega), ← Nat.cast_add, goInt_natCast (by omega),
    if_neg (by omega), pure_bind, pure_bind,
    @slice_of_drop d rest s _ (by omega) (by rw [← List.drop_drop, hd]; simp)]
  rfl

/-- `varint32Case` reads a varint back into 32 bits. -/
theorem varint32Case_eq {d rest : Bytes} {v j : Nat} (field : String) (hv : v < 2 ^ 64)
    (hd : d.drop j = varint v ++ rest) :
    varint32Case field 0 d j = .ok (v % 2 ^ 32, ((j + (varint v).length : Nat) : Int)) := by
  rw [varint32Case, if_neg (by decide), pure_bind, varintLoop_of_lt hv hd]

/-- `default` steps over a well-formed field. -/
theorem skipCase_encode {d rest : Bytes} {f : WireField} {j : Nat} (hf : f.WellFormed)
    (hd : d.drop j = f.encode ++ rest) (hl : d.length < 2 ^ 63) :
    skipCase d j = .ok ((j + f.encode.length : Nat) : Int) := by
  have hlen := length_eq_of_drop hd (by simp [f.length_encode_pos])
  simp only [List.length_append] at hlen
  rw [skipCase, slice_drop (by omega), Res.ok_bind, hd,
    skipControl_encode rest hf (by simp; omega), Res.ok_bind, ← Nat.cast_add,
    goInt_natCast (by omega), if_neg (by omega), if_neg (by omega)]
  rfl

/-- One pass of the loop at `j`, where a tag `t` with a legal wire type and a positive
field number starts: the field's case if declared, `default` otherwise. -/
theorem unmarshalLoop_tag {M : Type} {name : String} {fc : FieldCase M} {d rest : Bytes}
    {t j fuel : Nat} {m : M} (ht : t < 2 ^ 64) (hd : d.drop j = varint t ++ rest)
    (h4 : t &&& 0x7 ≠ 4) (hpos : 0 < goInt32 (t >>> 3 : Nat)) :
    unmarshalLoop name fc d (fuel + 1) j m =
      match fc (goInt32 (t >>> 3 : Nat)) (t &&& 0x7) d ((j + (varint t).length : Nat) : Int) m with
      | some r => r >>= fun p => unmarshalLoop name fc d fuel p.1 p.2
      | none => skipCase d j >>= fun i => unmarshalLoop name fc d fuel i m := by
  have hj : j < d.length := by
    have := congrArg List.length hd
    simp only [List.length_drop, List.length_append] at this
    have := length_varint_pos t
    omega
  rw [unmarshalLoop, if_pos (by exact_mod_cast hj), varintLoop_uint64 ht hd, Res.ok_bind]
  dsimp only
  rw [if_neg h4, if_neg (by omega)]
  rcases fc (goInt32 (t >>> 3 : Nat)) (t &&& 0x7) d ((j + (varint t).length : Nat) : Int) m
    with _ | r
  · rfl
  · rcases r with e | ⟨i, m'⟩ <;> rfl

/-- The loop stops with the message at the end of the slice. -/
theorem unmarshalLoop_end {M : Type} {name : String} {fc : FieldCase M} {d : Bytes}
    {fuel : Nat} {m : M} : unmarshalLoop name fc d (fuel + 1) d.length m = .ok m := by
  rw [unmarshalLoop, if_neg (by omega), if_neg (by omega)]; rfl

/-! ## The four messages -/

/-- The cases of `(*Command).Unmarshal`. -/
def Command.fieldCase : FieldCase Command := fun fieldNum wireType d i m =>
  match fieldNum with
  | 1 => some do
    let (s, i) ← stringCase "UID" wireType d i
    pure (i, { m with uid := s })
  | 2 => some do
    let (v, i) ← varint32Case "Method" wireType d i
    pure (i, { m with method := BitVec.ofNat 32 v })
  | 3 => some do
    let (s, i) ← stringCase "Params" wireType d i
    pure (i, { m with params := rawUnmarshal m.params s })
  | _ => none

/-- The cases of `(*Node).Unmarshal`. -/
def Node.fieldCase : FieldCase Node := fun fieldNum wireType d i m =>
  match fieldNum with
  | 1 => some do
    let (s, i) ← stringCase "UID" wireType d i
    pure (i, { m with uid := s })
  | 2 => some do
    let (s, i) ← stringCase "Name" wireType d i
    pure (i, { m with name := s })
  | 3 => some do
    let (s, i) ← stringCase "Version" wireType d i
    pure (i, { m with version := s })
  | 4 => some do
    let (v, i) ← varint32Case "NumClients" wireType d i
    pure (i, { m with numClients := UInt32.ofNat v })
  | 5 => some do
    let (v, i) ← varint32Case "NumUsers" wireType d i
    pure (i, { m with numUsers := UInt32.ofNat v })
  | 6 => some do
    let (v, i) ← varint32Case "NumChannels" wireType d i
    pure (i, { m with numChannels := UInt32.ofNat v })
  | 7 => some do
    let (v, i) ← varint32Case "Uptime" wireType d i
    pure (i, { m with uptime := UInt32.ofNat v })
  | _ => none

/-- The cases of `(*Unsubscribe).Unmarshal`. -/
def Unsubscribe.fieldCase : FieldCase Unsubscribe := fun fieldNum wireType d i m =>
  match fieldNum with
  | 1 => some do
    let (s, i) ← stringCase "Channel" wireType d i
    pure (i, { m with channel := s })
  | 2 => some do
    let (s, i) ← stringCase "User" wireType d i
    pure (i, { m with user := s })
  | _ => none

/-- The cases of `(*Disconnect).Unmarshal`. -/
def Disconnect.fieldCase : FieldCase Disconnect := fun fieldNum wireType d i m =>
  match fieldNum with
  | 1 => some do
    let (s, i) ← stringCase "User" wireType d i
    pure (i, { m with user := s })
  | _ => none

/-- `(*Command).Unmarshal(dAtA)`, decoding into `m`. -/
def Command.unmarshal (m : Command) (d : Bytes) : Res Command :=
  unmarshalLoop "Command" Command.fieldCase d (d.length + 1) 0 m

/-- `(*Node).Unmarshal(dAtA)`, decoding into `m`. -/
def Node.unmarshal (m : Node) (d : Bytes) : Res Node :=
  unmarshalLoop "Node" Node.fieldCase d (d.length + 1) 0 m

/-- `(*Unsubscribe).Unmarshal(dAtA)`, decoding into `m`. -/
def Unsubscribe.unmarshal (m : Unsubscribe) (d : Bytes) : Res Unsubscribe :=
  unmarshalLoop "Unsubscribe" Unsubscribe.fieldCase d (d.length + 1) 0 m

/-- `(*Disconnect).Unmarshal(dAtA)`, decoding into `m`. -/
def Disconnect.unmarshal (m : Disconnect) (d : Bytes) : Res Disconnect :=
  unmarshalLoop "Disconnect" Disconnect.fieldCase d (d.length + 1) 0 m

end Centrifuge.Control
