import Centrifuge.Control.Wire

/-!
# `skipControl`: stepping over a field the decoder does not know

Each `Unmarshal` hands every field with an undeclared number to
`skipControl(dAtA[iNdEx:])`, which reads the field's tag and returns the
field's length: a varint payload is read to its last byte, fixed64 and fixed32
payloads are 8 and 4 bytes, a length-delimited payload is as long as its
prefix says, and a group is skipped field by field (each by a recursive call
on the rest of the slice) until its end-group tag.

`skipControlAux` and `skipGroup` are the function and its `case 3` loop, with
a `fuel` bound on the recursion; `skipControl` starts them with
`2 * len(dAtA) + 1`, which a field of `len(dAtA)` bytes never exhausts.

`WireField` is a well-formed protobuf field as an encoder writes it (groups
with nested contents included), and the payoff is

> `skipControl_encode`: for every well-formed field `f` and every suffix `s`,
> `skipControl (f.encode ++ s)` returns exactly `f.encode.length`,

the fact forward compatibility between nodes of different versions rests on.
-/

namespace Centrifuge.Control

mutual
/-- `skipControl(dAtA)`: the `for iNdEx < l` loop, whose body returns on its first
pass, with the `case 3` loop in `skipGroup`; `panic("unreachable")` when `dAtA` is
empty. -/
def skipControlAux : Nat → Bytes → Res Int
  | 0, _ => .error .exhausted
  | fuel + 1, d =>
    if 0 < d.length then do
      let (wire, i) ← varintLoop 64 d 0 0 0
      match wire % 8 with
      | 0 => do
        let (_, i) ← varintLoop 64 d 0 0 i
        pure i
      | 1 => pure (goInt (i + 8))
      | 2 => do
        let (length, i) ← varintLoop 64 d 0 0 i
        let length := goInt length
        let i := goInt (i + length)
        if length < 0 then throw (.error .invalidLength)
        pure i
      | 3 => skipGroup fuel d i
      | 4 => pure i
      | 5 => pure (goInt (i + 4))
      | wireType => throw (.error (.illegalWireType wireType))
    else throw (.panic .unreachable)

/-- The `case 3` loop of `skipControl`: read the next tag from `start`; an end-group
tag ends the group; any other field is skipped by `skipControl(dAtA[start:])` and the
loop goes on at `start + next`. -/
def skipGroup : Nat → Bytes → Int → Res Int
  | 0, _, _ => .error .exhausted
  | fuel + 1, d, start => do
    let (innerWire, i) ← varintLoop 64 d 0 0 start
    if innerWire % 8 = 4 then pure i
    else do
      let rest ← slice d start d.length
      let next ← skipControlAux fuel rest
      skipGroup fuel d (goInt (start + next))
end

/-- `skipControl(dAtA)`. -/
def skipControl (d : Bytes) : Res Int := skipControlAux (2 * d.length + 1) d

/-! ## Well-formed fields -/

/-- A protobuf field as an encoder writes it: its number and its payload. -/
inductive WireField
  | varint (num v : Nat)
  | fixed64 (num : Nat) (b : Bytes)
  | bytes (num : Nat) (payload : Bytes)
  | group (num : Nat) (fields : List WireField)
  | fixed32 (num : Nat) (b : Bytes)
deriving Repr

/-- The field's number. -/
def WireField.num : WireField → Nat
  | .varint n _ | .fixed64 n _ | .bytes n _ | .group n _ | .fixed32 n _ => n

mutual
/-- The field on the wire: its tag `num << 3 | wireType`, then its payload. -/
def WireField.encode : WireField → Bytes
  | .varint n v => Control.varint (n * 8) ++ Control.varint v
  | .fixed64 n b => Control.varint (n * 8 + 1) ++ b
  | .bytes n p => Control.varint (n * 8 + 2) ++ Control.varint p.length ++ p
  | .group n fs =>
    Control.varint (n * 8 + 3) ++ WireField.encodeAll fs ++ Control.varint (n * 8 + 4)
  | .fixed32 n b => Control.varint (n * 8 + 5) ++ b

/-- Fields one after another. -/
def WireField.encodeAll : List WireField → Bytes
  | [] => []
  | f :: fs => f.encode ++ WireField.encodeAll fs
end

mutual
/-- Field numbers in `1 .. 2^29 - 1`, varints that fit a `uint64`, fixed payloads of
8 and 4 bytes, and well-formed contents in a group. -/
def WireField.WellFormed : WireField → Prop
  | .varint n v => 0 < n ∧ n < 2 ^ 29 ∧ v < 2 ^ 64
  | .fixed64 n b => 0 < n ∧ n < 2 ^ 29 ∧ b.length = 8
  | .bytes n _ => 0 < n ∧ n < 2 ^ 29
  | .group n fs => 0 < n ∧ n < 2 ^ 29 ∧ WireField.AllWellFormed fs
  | .fixed32 n b => 0 < n ∧ n < 2 ^ 29 ∧ b.length = 4

/-- Every field of the list is well formed. -/
def WireField.AllWellFormed : List WireField → Prop
  | [] => True
  | f :: fs => f.WellFormed ∧ WireField.AllWellFormed fs
end

/-! ## `skipControl` steps over exactly one well-formed field -/

theorem WireField.length_encode_pos (f : WireField) : 0 < f.encode.length := by
  cases f <;> simp [WireField.encode, length_varint_pos]

/-- The tag of a field numbered below `2^29` is a `uint64` whose low three bits are the
wire type. -/
theorem tag_lt {n wt : Nat} (hn : n < 2 ^ 29) (hwt : wt < 8) : n * 8 + wt < 2 ^ 64 := by
  omega

theorem tag_mod {n wt : Nat} (hwt : wt < 8) : (n * 8 + wt) % 8 = wt := by omega

/-- A field opens with its own tag: its number, then a wire type other than end-group. -/
theorem WireField.encode_eq_tag (f : WireField) :
    ∃ wt rest, wt < 8 ∧ wt ≠ 4 ∧ f.encode = Control.varint (f.num * 8 + wt) ++ rest := by
  cases f with
  | varint n v => exact ⟨0, _, by decide, by decide, rfl⟩
  | fixed64 n b => exact ⟨1, _, by decide, by decide, rfl⟩
  | bytes n p => exact ⟨2, _, by decide, by decide, List.append_assoc _ _ _⟩
  | group n fs => exact ⟨3, _, by decide, by decide, List.append_assoc _ _ _⟩
  | fixed32 n b => exact ⟨5, _, by decide, by decide, rfl⟩

/-- A well-formed field's number is in `1 .. 2^29 - 1`. -/
theorem WireField.WellFormed.num_lt {f : WireField} (hf : f.WellFormed) :
    0 < f.num ∧ f.num < 2 ^ 29 := by
  cases f with
  | bytes n p => exact hf
  | _ => exact ⟨hf.1, hf.2.1⟩

mutual
/-- `skipControl` on a well-formed field followed by anything returns the field's
length, given fuel for the field's nesting. -/
theorem skipControlAux_encode : ∀ (f : WireField) (s : Bytes) (fuel : Nat),
    f.WellFormed → f.encode.length ≤ fuel → (f.encode ++ s).length < 2 ^ 63 →
      skipControlAux fuel (f.encode ++ s) = .ok f.encode.length
  | .varint n v, s, fuel + 1, ⟨_, hn, hv⟩, _, hl => by
    simp only [WireField.encode, List.append_assoc] at hl ⊢
    rw [skipControlAux, if_pos (by simp [length_varint_pos]),
      varintLoop_uint64_zero (by omega : n * 8 < 2 ^ 64), Res.ok_bind]
    simp only [Nat.mul_mod_left]
    rw [@varintLoop_uint64 _ s v _ hv (by simp)]
    simp
  | .fixed64 n b, s, fuel + 1, ⟨_, hn, hb⟩, _, hl => by
    simp only [WireField.encode, List.append_assoc, List.length_append] at hl ⊢
    rw [skipControlAux, if_pos (by simp [length_varint_pos]),
      varintLoop_uint64_zero (tag_lt hn (by decide)), Res.ok_bind]
    dsimp only
    rw [tag_mod (by decide)]
    simp only [Res.pure_eq, hb]
    rw [show ((varint (n * 8 + 1)).length : Int) + 8 = (((varint (n * 8 + 1)).length + 8 : Nat) : Int)
      by push_cast; rfl, goInt_natCast (by omega)]
  | .bytes n p, s, fuel + 1, ⟨_, hn⟩, _, hl => by
    simp only [WireField.encode, List.append_assoc, List.length_append] at hl ⊢
    rw [skipControlAux, if_pos (by simp [length_varint_pos]),
      varintLoop_uint64_zero (tag_lt hn (by decide)), Res.ok_bind]
    dsimp only
    rw [tag_mod (by decide)]
    simp only
    rw [@varintLoop_uint64 _ (p ++ s) p.length _ (by omega) (by simp), Res.ok_bind]
    simp only [goInt_natCast (by omega : p.length < 2 ^ 63)]
    rw [← Nat.cast_add, goInt_natCast (by omega), if_neg (by omega)]
    simp [Nat.add_assoc]
  | .group n fs, s, fuel + 1, ⟨_, hn, hfs⟩, hfuel, hl => by
    simp only [WireField.encode, List.append_assoc, List.length_append] at hl hfuel ⊢
    have := length_varint_pos (n * 8 + 3)
    have := length_varint_pos (n * 8 + 4)
    rw [skipControlAux, if_pos (by simp [length_varint_pos]),
      varintLoop_uint64_zero (tag_lt hn (by decide)), Res.ok_bind]
    dsimp only
    rw [tag_mod (by decide)]
    simp only
    rw [skipGroupAux_encodeAll fs _ s _ n fuel hfs (by simp) (by omega) (by simp; omega) hn]
    simp [Nat.add_assoc]
  | .fixed32 n b, s, fuel + 1, ⟨_, hn, hb⟩, _, hl => by
    simp only [WireField.encode, List.append_assoc, List.length_append] at hl ⊢
    rw [skipControlAux, if_pos (by simp [length_varint_pos]),
      varintLoop_uint64_zero (tag_lt hn (by decide)), Res.ok_bind]
    dsimp only
    rw [tag_mod (by decide)]
    simp only [Res.pure_eq, hb]
    rw [show ((varint (n * 8 + 5)).length : Int) + 4 = (((varint (n * 8 + 5)).length + 4 : Nat) : Int)
      by push_cast; rfl, goInt_natCast (by omega)]
  | f, s, 0, _, h, _ => absurd h (by have := f.length_encode_pos; omega)

/-- The group loop on well-formed contents followed by the end-group tag stops right
after that tag. -/
theorem skipGroupAux_encodeAll : ∀ (fs : List WireField) (d s : Bytes) (start n fuel : Nat),
    WireField.AllWellFormed fs →
    d.drop start = WireField.encodeAll fs ++ varint (n * 8 + 4) ++ s →
    1 + (WireField.encodeAll fs).length ≤ fuel → d.length < 2 ^ 63 → n < 2 ^ 29 →
      skipGroup fuel d start =
        .ok ((start + (WireField.encodeAll fs).length + (varint (n * 8 + 4)).length : Nat) : Int)
  | [], d, s, start, n, fuel + 1, _, hd, _, _, hn => by
    simp only [WireField.encodeAll, List.nil_append] at hd ⊢
    rw [skipGroup, varintLoop_uint64 (tag_lt hn (by decide)) hd, Res.ok_bind]
    dsimp only
    rw [if_pos (tag_mod (by decide))]
    simp
  | f :: fs, d, s, start, n, fuel + 1, ⟨hf, hfs⟩, hd, hfuel, hl, hn => by
    simp only [WireField.encodeAll, List.append_assoc, List.length_append] at hd hfuel ⊢
    have hlen := length_eq_of_drop hd (by simp [f.length_encode_pos])
    simp only [List.length_append] at hlen
    obtain ⟨wt, rest, hwt, hwt4, hft⟩ := f.encode_eq_tag
    rw [skipGroup, @varintLoop_uint64 _ (rest ++ (WireField.encodeAll fs ++ (varint (n * 8 + 4) ++ s)))
      _ _ (tag_lt hf.num_lt.2 hwt) (by rw [hd, hft]; simp), Res.ok_bind]
    dsimp only
    rw [if_neg (by rw [tag_mod hwt]; exact hwt4), slice_drop (by omega), Res.ok_bind, hd,
      skipControlAux_encode f _ fuel hf (by omega) (by simp; omega),
      Res.ok_bind, ← Nat.cast_add, goInt_natCast (by omega),
      skipGroupAux_encodeAll fs d s (start + f.encode.length) n fuel hfs
        (by rw [← List.drop_drop, hd]; simp) (by have := f.length_encode_pos; omega) hl hn]
    simp [Nat.add_assoc]
  | fs, d, s, start, n, 0, _, _, h, _, _ => absurd h (by omega)
end

/-- `skipControl` returns the length of a well-formed field, whatever follows it. -/
theorem skipControl_encode {f : WireField} (s : Bytes) (hf : f.WellFormed)
    (hl : (f.encode ++ s).length < 2 ^ 63) :
    skipControl (f.encode ++ s) = .ok f.encode.length :=
  skipControlAux_encode f s _ hf (by simp; omega) hl

end Centrifuge.Control
