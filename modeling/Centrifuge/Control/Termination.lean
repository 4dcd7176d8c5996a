import Centrifuge.Control.Safety

/-!
# The decoders end on every slice

`skipControl`, its group loop and the four `Unmarshal`s are loops over `iNdEx`, run in the
model on fuel (`2 * len(dAtA) + 1` and `len(dAtA) + 1`), so that a loop that went on for
ever would show as `.exhausted`. Every pass first reads a tag at `iNdEx`, and
`dAtA[iNdEx]` panics unless `0 ≤ iNdEx < l`. From an index inside the slice a pass ends
the run, or moves `iNdEx` forward, or (when `iNdEx + skippy`, or `start + next` in the
group loop, wraps past `2^63`) moves it below 0, and then the next pass panics. The group
loop calls `skipControl` on `dAtA[start:]` only after reading a tag at `start`, so with
`0 ≤ start < l`. The payoff is

> `decoders_end`: for every slice (`len` is an `int`, so shorter than `2^63`),
> `skipControl` and the four `Unmarshal`s, into any message, end with a value, an error
> or a panic, never for lack of fuel.

The wrapping pass is the gap the checks `skippy < 0` and `iNdEx + skippy > l` leave: the
sum is compared with `l` but never with 0. `default_pass_wraps` shows one such pass in
`Disconnect`, from `iNdEx = 2` to `-2^63`, and one in `skipControl`'s group loop, from
`start = 1` to the same index.
-/

namespace Centrifuge.Control

/-- A run that ends, with a value, an error value or a panic; in the model, not for lack
of fuel. -/
def Ends {α : Type} : Res α → Prop
  | .error .exhausted => False
  | _ => True

/-- `r` ends, and every value it returns satisfies `P`. -/
def EndsWith {α : Type} (r : Res α) (P : α → Prop) : Prop :=
  Ends r ∧ ∀ a, r = .ok a → P a

section EndsWith

variable {α β : Type} {P Q : α → Prop} {R : β → Prop}

theorem endsWith_ok {a : α} (h : P a) : EndsWith (.ok a) P :=
  ⟨trivial, fun _ h' => by cases h'; exact h⟩

theorem endsWith_panic (p : Panic) : EndsWith (.error (.panic p) : Res α) P :=
  ⟨trivial, fun _ h => nomatch h⟩

theorem ReturnsWith.endsWith {x : Res α} (h : ReturnsWith x P) : EndsWith x P :=
  ⟨match x, h.1 with
    | .ok _, _ | .error (.error _), _ => trivial
    | .error (.panic _), h | .error .exhausted, h => h.elim, h.2⟩

theorem EndsWith.bind {x : Res α} {f : α → Res β} (hx : EndsWith x P)
    (hf : ∀ a, P a → EndsWith (f a) R) : EndsWith (x >>= f) R := by
  cases x with
  | error e => rw [Res.error_bind]; cases e <;> exact ⟨hx.1, fun _ h => nomatch h⟩
  | ok a => rw [Res.ok_bind]; exact hf a (hx.2 a rfl)

theorem EndsWith.mono {x : Res α} (h : EndsWith x P) (hPQ : ∀ a, P a → Q a) :
    EndsWith x Q :=
  ⟨h.1, fun a ha => hPQ a (h.2 a ha)⟩

end EndsWith

/-- Go's `int` wrap on a sum of an `int` and a non-negative `int`: the sum itself below
`2^63`, the sum less `2^64` from there. -/
theorem goInt_cases {x : Int} (h0 : -2 ^ 63 ≤ x) (h : x < 2 ^ 64) :
    x < 2 ^ 63 ∧ goInt x = x ∨ 2 ^ 63 ≤ x ∧ goInt x = x - 2 ^ 64 := by
  simp only [goInt, Int.bmod]
  split_ifs <;> omega

/-! ## Checked accesses and the varint loop -/

/-- A slice expression ends; when it returns, its bounds were inside the slice. -/
theorem slice_ends (d : Bytes) (lo hi : Int) :
    EndsWith (slice d lo hi) (fun _ => 0 ≤ lo ∧ lo ≤ hi ∧ hi ≤ d.length) := by
  unfold slice
  split_ifs with h
  · exact endsWith_ok h
  · exact endsWith_panic _

/-- From a negative index a varint read panics at once: `dAtA[iNdEx]` is out of range. -/
theorem varintLoop_neg {w acc : Nat} {d : Bytes} {i : Int} (hi : i < 0) :
    varintLoop w d 0 acc i = .error (.panic .indexOutOfRange) := by
  rw [varintLoop, if_neg (by omega), if_neg (by omega), byteAt, dif_neg (by omega)]

/-- A varint read ends from every index; when it returns, it started inside the slice and
read at least one byte of it. -/
theorem varintLoop_ends (w : Nat) (d : Bytes) (i : Int) :
    EndsWith (varintLoop w d 0 0 i) (fun p => 0 ≤ i ∧ i < p.2 ∧ p.2 ≤ d.length ∧ p.1 < 2 ^ w) := by
  by_cases hi : 0 ≤ i
  · exact (varintLoop_returns w d 0 0 i hi (Nat.two_pow_pos w)).endsWith.mono
      fun _ h => ⟨hi, h⟩
  · rw [varintLoop_neg (by omega)]
    exact endsWith_panic _

/-! ## `skipControl` -/

/-- What `skipControl` of a slice of `l` bytes returns: a length in `(0, 2^63)`, or a sum
`iNdEx + length` that wrapped to a negative `int`, less than `l - 2^63`. -/
def SkipLen (l : Nat) (r : Int) : Prop :=
  0 < r ∧ r < 2 ^ 63 ∨ -2 ^ 63 ≤ r ∧ r + 2 ^ 63 < l

/-- A positive sum below `l + 2^63`, wrapped into an `int`, is what `skipControl` of `l`
bytes can return. -/
theorem skipLen_goInt {l : Nat} {x : Int} (hl : l < 2 ^ 63) (h0 : 0 < x) (h : x < l + 2 ^ 63) :
    SkipLen l (goInt x) := by
  have := goInt_cases (x := x) (by omega) (by omega)
  unfold SkipLen
  omega

mutual
/-- `skipControl` with fuel for its slice ends, on every slice. -/
theorem skipControlAux_ends : ∀ (fuel : Nat) (d : Bytes), 2 * d.length + 1 ≤ fuel →
    d.length < 2 ^ 63 → EndsWith (skipControlAux fuel d) (SkipLen d.length)
  | 0, _, hf, _ => absurd hf (by omega)
  | fuel + 1, d, hf, hl => by
    rw [skipControlAux]
    split_ifs with hd
    swap
    · exact endsWith_panic _
    refine (varintLoop_ends 64 d 0).bind fun p hp => ?_
    obtain ⟨wire, i⟩ := p
    obtain ⟨-, hi, hil, -⟩ := hp
    dsimp only
    split
    · exact (varintLoop_ends 64 d i).bind fun q hq => endsWith_ok (.inl ⟨by omega, by omega⟩)
    · exact endsWith_ok (skipLen_goInt hl (by omega) (by omega))
    · refine (varintLoop_ends 64 d i).bind fun q hq => ?_
      obtain ⟨v, k⟩ := q
      obtain ⟨-, hk, hkl, hv⟩ := hq
      dsimp only
      split_ifs with hneg
      · exact (returnsWith_throw _).endsWith
      · have := goInt_cases (x := v) (by omega) (by omega)
        exact endsWith_ok (skipLen_goInt hl (by omega) (by omega))
    · exact (skipGroup_ends fuel d i (by omega) (fun _ => by omega) hl).mono
        fun r h => .inl ⟨h.1, by omega⟩
    · exact endsWith_ok (.inl ⟨by omega, by omega⟩)
    · exact endsWith_ok (skipLen_goInt hl (by omega) (by omega))
    · exact (returnsWith_throw _).endsWith

/-- The group loop ends from every `start`; with fuel for the bytes left when `start ≥ 0`.
Each pass calls `skipControl` on `dAtA[start:]` and goes on at `start + next`, which is
past `start` or below 0. -/
theorem skipGroup_ends : ∀ (fuel : Nat) (d : Bytes) (start : Int), 0 < fuel →
    (0 ≤ start → 2 * (d.length - start).toNat + 2 ≤ fuel) → d.length < 2 ^ 63 →
    EndsWith (skipGroup fuel d start) (fun r => 0 < r ∧ r ≤ d.length)
  | 0, _, _, hf, _, _ => absurd hf (by omega)
  | fuel + 1, d, start, _, hf, hl => by
    rw [skipGroup]
    refine (varintLoop_ends 64 d start).bind fun p hp => ?_
    obtain ⟨w, i⟩ := p
    obtain ⟨h0, hi, hil, -⟩ := hp
    have hf := hf h0
    dsimp only
    split_ifs with h4
    · exact endsWith_ok ⟨by omega, hil⟩
    have hs : (start.toNat : Int) = start := by omega
    have hrest : (d.drop start.toNat).length = d.length - start.toNat := List.length_drop _ _
    rw [← hs, slice_drop (by omega), Res.ok_bind]
    refine (skipControlAux_ends fuel (d.drop start.toNat) (by omega) (by omega)).bind
      fun next hn => skipGroup_ends fuel d _ (by omega) (fun h0' => ?_) hl
    unfold SkipLen at hn
    have := goInt_cases (x := start.toNat + next) (by omega) (by omega)
    omega
end

/-! ## The cases and the passes of an `Unmarshal` loop -/

variable {M : Type} {name : String} {fc : FieldCase M} {d : Bytes}

theorem stringCase_ends {field : String} {wt : Nat} {i : Int} :
    EndsWith (stringCase field wt d i) (fun p => i < p.2 ∧ p.2 ≤ d.length) := by
  unfold stringCase
  by_cases hw : wt ≠ 2
  · rw [if_pos hw]; exact (returnsWith_throw_bind _ _).endsWith
  rw [if_neg hw, pure_bind]
  refine (varintLoop_ends 64 d i).bind fun p hp => ?_
  obtain ⟨v, i1⟩ := p
  dsimp only
  by_cases hneg : goInt v < 0
  · rw [if_pos hneg]; exact (returnsWith_throw_bind _ _).endsWith
  rw [if_neg hneg, pure_bind]
  by_cases hpost : (d.length : Int) < goInt (i1 + goInt v)
  · rw [if_pos hpost]; exact (returnsWith_throw_bind _ _).endsWith
  rw [if_neg hpost, pure_bind]
  exact (slice_ends d i1 _).bind fun _ hs => endsWith_ok ⟨by omega, by omega⟩

theorem varint32Case_ends {field : String} {wt : Nat} {i : Int} :
    EndsWith (varint32Case field wt d i) (fun p => i < p.2 ∧ p.2 ≤ d.length) := by
  unfold varint32Case
  by_cases hw : wt ≠ 0
  · rw [if_pos hw]; exact (returnsWith_throw_bind _ _).endsWith
  rw [if_neg hw, pure_bind]
  exact (varintLoop_ends 32 d i).mono fun _ h => ⟨h.2.1, h.2.2.1⟩

/-- `default` from a `preIndex` inside the slice ends; when it returns, the index is past
`preIndex` within the slice, or `preIndex + skippy` wrapped below 0. -/
theorem skipCase_ends {i : Int} (hl : d.length < 2 ^ 63) (h0 : 0 ≤ i) (hi : i < d.length) :
    EndsWith (skipCase d i) (fun k => i < k ∧ k ≤ d.length ∨ k < 0) := by
  have hs : (i.toNat : Int) = i := by omega
  have hrest : (d.drop i.toNat).length = d.length - i.toNat := List.length_drop _ _
  unfold skipCase skipControl
  rw [← hs, slice_drop (by omega), Res.ok_bind]
  refine (skipControlAux_ends _ (d.drop i.toNat) le_rfl (by omega)).bind fun skippy hsk => ?_
  unfold SkipLen at hsk
  by_cases hneg : skippy < 0
  · rw [if_pos hneg]; exact (returnsWith_throw_bind _ _).endsWith
  rw [if_neg hneg, pure_bind]
  have hsum := goInt_cases (x := i.toNat + skippy) (by omega) (by omega)
  by_cases hpost : (d.length : Int) < goInt (i.toNat + skippy)
  · rw [if_pos hpost]; exact (returnsWith_throw_bind _ _).endsWith
  rw [if_neg hpost, pure_bind]
  exact endsWith_ok (by omega)

/-- Every declared field's case ends; when it returns, the index is past where it started,
within the slice. -/
def CasesEnd (fc : FieldCase M) (d : Bytes) : Prop :=
  ∀ n wt (i : Int) m r, fc n wt d i m = some r → EndsWith r (fun p => i < p.1 ∧ p.1 ≤ d.length)

/-- A pass from an index below `l` ends the run, or it started at an index `≥ 0` and moves
it forward within the slice, or (`default`'s `preIndex + skippy` wrapping) below 0. -/
theorem unmarshalPass_progress {i : Int} {m : M} (hc : CasesEnd fc d) (hl : d.length < 2 ^ 63)
    (hi : i < d.length) :
    EndsWith (unmarshalPass name fc d i m)
      (fun p => 0 ≤ i ∧ (i < p.1 ∧ p.1 ≤ d.length ∨ p.1 < 0)) := by
  unfold unmarshalPass
  refine (varintLoop_ends 64 d i).bind fun p hp => ?_
  obtain ⟨wire, i1⟩ := p
  obtain ⟨h0, hi1, hi1l, -⟩ := hp
  dsimp only
  by_cases h4 : wire &&& 0x7 = 4
  · rw [if_pos h4]; exact (returnsWith_throw_bind _ _).endsWith
  rw [if_neg h4, pure_bind]
  by_cases hn : goInt32 (wire >>> 3 : Nat) ≤ 0
  · rw [if_pos hn]; exact (returnsWith_throw_bind _ _).endsWith
  rw [if_neg hn, pure_bind]
  split
  · rename_i r hr
    exact (hc _ _ _ _ _ hr).mono fun q hq => ⟨h0, Or.inl ⟨by omega, hq.2⟩⟩
  · exact (skipCase_ends hl h0 hi).bind fun k hk => endsWith_ok ⟨h0, hk⟩

/-- The loop ends from every index, with fuel exceeding the bytes left when the index is
`≥ 0`. -/
theorem unmarshalLoop_ends (hc : CasesEnd fc d) (hl : d.length < 2 ^ 63) :
    ∀ (fuel : Nat) (i : Int) (m : M), 0 < fuel → (0 ≤ i → (d.length : Int) < i + fuel) →
      Ends (unmarshalLoop name fc d fuel i m)
  | 0, _, _, hf, _ => absurd hf (by omega)
  | fuel + 1, i, m, _, hf => by
    by_cases hi : i < d.length
    · rw [unmarshalLoop_succ hi]
      exact ((unmarshalPass_progress hc hl hi).bind (R := fun _ => True) fun p hp =>
        ⟨unmarshalLoop_ends hc hl fuel p.1 p.2 (by omega) (fun _ => by omega),
          fun _ _ => trivial⟩).1
    · rw [unmarshalLoop, if_neg hi]
      split_ifs <;> trivial

theorem Command.cases_end : CasesEnd Command.fieldCase d := by
  intro n wt i m r h
  unfold Command.fieldCase at h
  split at h <;> cases h <;> first
    | exact stringCase_ends.bind fun ⟨_, _⟩ hp => endsWith_ok hp
    | exact varint32Case_ends.bind fun ⟨_, _⟩ hp => endsWith_ok hp

theorem Node.cases_end : CasesEnd Node.fieldCase d := by
  intro n wt i m r h
  unfold Node.fieldCase at h
  split at h <;> cases h <;> first
    | exact stringCase_ends.bind fun ⟨_, _⟩ hp => endsWith_ok hp
    | exact varint32Case_ends.bind fun ⟨_, _⟩ hp => endsWith_ok hp

theorem Unsubscribe.cases_end : CasesEnd Unsubscribe.fieldCase d := by
  intro n wt i m r h
  unfold Unsubscribe.fieldCase at h
  split at h <;> cases h <;> exact stringCase_ends.bind fun ⟨_, _⟩ hp => endsWith_ok hp

theorem Disconnect.cases_end : CasesEnd Disconnect.fieldCase d := by
  intro n wt i m r h
  unfold Disconnect.fieldCase at h
  split at h <;> cases h
  exact stringCase_ends.bind fun ⟨_, _⟩ hp => endsWith_ok hp

/-- On every slice (its length an `int`), `skipControl` and the four `Unmarshal`s, into any
message, end: with a value, an error or a panic, never for lack of fuel. -/
theorem decoders_end (d : Bytes) (hl : d.length < 2 ^ 63) :
    Ends (skipControl d) ∧ (∀ m : Command, Ends (m.unmarshal d)) ∧
    (∀ m : Node, Ends (m.unmarshal d)) ∧ (∀ m : Unsubscribe, Ends (m.unmarshal d)) ∧
    (∀ m : Disconnect, Ends (m.unmarshal d)) :=
  ⟨(skipControlAux_ends _ d le_rfl hl).1,
    fun m => unmarshalLoop_ends Command.cases_end hl _ 0 m (by omega) (fun _ => by omega),
    fun m => unmarshalLoop_ends Node.cases_end hl _ 0 m (by omega) (fun _ => by omega),
    fun m => unmarshalLoop_ends Unsubscribe.cases_end hl _ 0 m (by omega) (fun _ => by omega),
    fun m => unmarshalLoop_ends Disconnect.cases_end hl _ 0 m (by omega) (fun _ => by omega)⟩

unseal varintLoop in
/-- A pass that neither moves `iNdEx` forward nor returns. In `Disconnect`, after the field
`User = ""`, an unknown field 2 of wire type 2 with length `2^63 - 12`: `skipControl`
returns `skippy = 2^63 - 2`, `preIndex + skippy` wraps to `-2^63`, which is not `> l`, so
the pass moves `iNdEx` from 2 to `-2^63`, and the next pass panics at `dAtA[iNdEx]`. In
`skipControl`, a group whose first field has wire type 2 and length `2^63 - 11`: the inner
call returns `next = 2^63 - 1`, and `start + next` moves `iNdEx` from 1 to `-2^63`. -/
theorem default_pass_wraps :
    let d : Bytes := [0x0a, 0x00, 0x12, 0xf4, 0xff, 0xff, 0xff, 0xff, 0xff, 0xff, 0xff, 0x7f]
    let g : Bytes := [0x0b, 0x12, 0xf5, 0xff, 0xff, 0xff, 0xff, 0xff, 0xff, 0xff, 0x7f]
    unmarshalPass "Disconnect" Disconnect.fieldCase d 0 {} = .ok (2, {}) ∧
    unmarshalPass "Disconnect" Disconnect.fieldCase d 2 {} = .ok (-2 ^ 63, {}) ∧
    Disconnect.unmarshal {} d = .error (.panic .indexOutOfRange) ∧
    skipControl (g.drop 1) = .ok (2 ^ 63 - 1) ∧ goInt (1 + (2 ^ 63 - 1)) = -2 ^ 63 ∧
    skipControl g = .error (.panic .indexOutOfRange) := by
  decide

end Centrifuge.Control
