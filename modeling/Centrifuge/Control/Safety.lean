import Centrifuge.Control.Unmarshal

/-!
# The decoders return where no length wraps

The four `Unmarshal`s and `skipControl` index `dAtA` only where a check has put the
index inside the slice, with one gap: a length is converted to `int`, rejected when
negative and added to the index, but the sum is only compared with `l`, never with 0.
A length `≥ 2^63 - iNdEx` makes it wrap to a negative bound, and the slice (or the
next `dAtA[iNdEx]`) panics:

> `unmarshal_length_wraps`: all four decoders panic on a field 1 whose length varint
> is `2^63 - 1`.

Everywhere else the checks hold. `LengthsFit` follows the field structure as the decoders
read it (`fieldsFit`, `fieldFits`, `groupFits`) and bounds only the length prefixes: each
is a negative `int`, which is rejected, or its field ends before `2^63`. Payload bytes are
never read as lengths. On a slice shorter than `2^62` whose lengths fit, every decoder
returns (`Returns`: a value or an error, no panic, and in the model no lack of fuel):

> `unmarshal_returns`: the four `Unmarshal`s, into any message, and `skipControl` of
> every non-empty slice.

The proof carries, for every reader, that from an index in `[0, l]` it returns and on
success moves the index forward, that a declared field's case stops where `skipControl`
would (`CasesSkip`), so that the loop and the walk over the fields meet at every field,
and that the loops run on fuel that exceeds the bytes left.
-/

namespace Centrifuge.Control

/-- A call that returns to its caller, with a value or an error value: no panic, and in
the model no lack of fuel. -/
def Returns {α : Type} : Res α → Prop
  | .ok _ => True
  | .error (.error _) => True
  | .error _ => False

unseal varintLoop in
/-- A string length whose sum with `iNdEx` wraps: field 1 of wire type 2 with the length
varint of `2^63 - 1` is read up to `iNdEx = 10`; `int(2^63 - 1)` is not negative, and
`postIndex = 10 + (2^63 - 1)` wraps to a negative `int`, which is not `> l`, so
`dAtA[iNdEx:postIndex]` panics in each of the four decoders. -/
theorem unmarshal_length_wraps :
    let d : Bytes := [0x0a, 0xff, 0xff, 0xff, 0xff, 0xff, 0xff, 0xff, 0xff, 0x7f]
    varintLoop 64 d 0 0 1 = .ok (2 ^ 63 - 1, 10) ∧ goInt ((10 : Int) + goInt (2 ^ 63 - 1)) < 0 ∧
    Command.unmarshal {} d = .error (.panic .sliceOutOfRange) ∧
    Node.unmarshal {} d = .error (.panic .sliceOutOfRange) ∧
    Unsubscribe.unmarshal {} d = .error (.panic .sliceOutOfRange) ∧
    Disconnect.unmarshal {} d = .error (.panic .sliceOutOfRange) := by
  decide

/-- `r` returns, and every value it returns satisfies `P`. -/
def ReturnsWith {α : Type} (r : Res α) (P : α → Prop) : Prop :=
  Returns r ∧ ∀ a, r = .ok a → P a

section ReturnsWith

variable {α β : Type} {P Q : α → Prop} {R : β → Prop}

theorem returnsWith_ok {a : α} (h : P a) : ReturnsWith (.ok a) P :=
  ⟨trivial, fun _ h' => by cases h'; exact h⟩

theorem returnsWith_throw (e : ControlError) : ReturnsWith (throw (.error e) : Res α) P :=
  ⟨trivial, fun _ h => nomatch h⟩

theorem returnsWith_throw_bind (e : ControlError) (f : α → Res β) :
    ReturnsWith (throw (.error e) >>= f) R :=
  ⟨trivial, fun _ h => nomatch h⟩

/-- A step that returns, followed by a rest that returns after each of its values (the
value's equation at hand), returns. -/
theorem ReturnsWith.bind_eq {x : Res α} {f : α → Res β} (hx : ReturnsWith x P)
    (hf : ∀ a, x = .ok a → P a → ReturnsWith (f a) R) : ReturnsWith (x >>= f) R := by
  cases x with
  | error e => rw [Res.error_bind]; cases e <;> exact ⟨hx.1, fun _ h => nomatch h⟩
  | ok a => rw [Res.ok_bind]; exact hf a rfl (hx.2 a rfl)

theorem ReturnsWith.bind {x : Res α} {f : α → Res β} (hx : ReturnsWith x P)
    (hf : ∀ a, P a → ReturnsWith (f a) R) : ReturnsWith (x >>= f) R :=
  hx.bind_eq fun a _ => hf a

theorem ReturnsWith.mono {x : Res α} (h : ReturnsWith x P) (hPQ : ∀ a, P a → Q a) :
    ReturnsWith x Q :=
  ⟨h.1, fun a ha => hPQ a (h.2 a ha)⟩

end ReturnsWith

theorem Res.bind_eq_ok {α β : Type} {x : Res α} {f : α → Res β} {b : β} :
    x >>= f = .ok b ↔ ∃ a, x = .ok a ∧ f a = .ok b := by
  cases x <;> simp

@[simp] theorem Res.map_ok {α β : Type} (f : α → β) (a : α) :
    (f <$> (.ok a : Res α)) = .ok (f a) := rfl

@[simp] theorem Res.map_error {α β : Type} (f : α → β) (e : Fault) :
    (f <$> (.error e : Res α)) = .error e := rfl

/-- Go's `int` is below `2^63`. -/
theorem goInt_lt (x : Int) : goInt x < 2 ^ 63 :=
  lt_of_lt_of_le (Int.bmod_lt (by decide)) (by decide)

/-- `int(v)` of a `uint64` at or above `2^63` is negative. -/
theorem goInt_neg {v : Nat} (h1 : 2 ^ 63 ≤ v) (h2 : v < 2 ^ 64) : goInt v < 0 := by
  rw [goInt, Int.bmod_neg _ _ (by rw [Int.emod_eq_of_lt (by omega) (by omega)]; omega),
    Int.emod_eq_of_lt (by omega) (by omega)]
  omega

/-! ## The varint loop -/

/-- From an index `≥ 0` the varint loop returns; on success it has read at least one
byte inside the slice, and the value fits its `w` bits. -/
theorem varintLoop_returns (w : Nat) (d : Bytes) (shift acc : Nat) (i : Int) (hi : 0 ≤ i)
    (hacc : acc < 2 ^ w) :
    ReturnsWith (varintLoop w d shift acc i)
      (fun p => i < p.2 ∧ p.2 ≤ d.length ∧ p.1 < 2 ^ w) := by
  rw [varintLoop]
  split_ifs with h64 hlen
  · exact ⟨trivial, fun _ h => nomatch h⟩
  · exact ⟨trivial, fun _ h => nomatch h⟩
  · rw [byteAt, dif_pos ⟨hi, by omega⟩]
    dsimp only
    have hacc' := Nat.or_lt_two_pow hacc
      (Nat.mod_lt (((d.get ⟨i.toNat, by omega⟩).toNat &&& 0x7F) <<< shift) (Nat.two_pow_pos w))
    split_ifs with hb
    · exact returnsWith_ok ⟨by omega, by omega, hacc'⟩
    · exact (varintLoop_returns w d (shift + 7) _ (i + 1) (by omega) hacc').mono
        fun _ h => ⟨by omega, h.2⟩
termination_by 64 - shift
/-- `dAtA[iNdEx:][j]` is `dAtA[iNdEx + j]`, panic included. -/
theorem byteAt_drop (d : Bytes) (s : Nat) {j : Int} (hj : 0 ≤ j) :
    byteAt (d.drop s) j = byteAt d (s + j) := by
  have hlen : j < ((d.drop s).length : Int) ↔ s + j < (d.length : Int) := by
    simp only [List.length_drop]; omega
  unfold byteAt
  by_cases h : j < ((d.drop s).length : Int)
  · rw [dif_pos ⟨hj, h⟩, dif_pos ⟨by omega, hlen.1 h⟩]
    simp only [List.get_eq_getElem, List.getElem_drop]
    congr 2
    omega
  · rw [dif_neg (by omega), dif_neg (by omega)]

/-- Reading a suffix is reading the slice further on. -/
theorem varintLoop_drop (w : Nat) (d : Bytes) (s shift acc : Nat) (j : Int) (hj : 0 ≤ j) :
    varintLoop w (d.drop s) shift acc j =
      (fun p : Nat × Int => (p.1, p.2 - s)) <$> varintLoop w d shift acc (s + j) := by
  have hlen : (((d.drop s).length : Nat) : Int) ≤ j ↔ (d.length : Int) ≤ s + j := by
    simp only [List.length_drop]; omega
  rw [varintLoop, varintLoop, byteAt_drop d s hj]
  by_cases h64 : 64 ≤ shift
  · simp only [if_pos h64]; rfl
  by_cases hl : (d.length : Int) ≤ s + j
  · rw [if_neg h64, if_neg h64, if_pos (hlen.2 hl), if_pos hl]; rfl
  rw [if_neg h64, if_neg h64, if_neg (mt hlen.1 hl), if_neg hl]
  rcases byteAt d (s + j) with f | b
  · rfl
  dsimp only
  split_ifs with hb
  · show Except.ok _ = Except.ok _
    congr 2
    omega
  · rw [varintLoop_drop w d s (shift + 7) _ (j + 1) (by omega),
      show (s : Int) + (j + 1) = s + j + 1 by ring]
termination_by 64 - shift

/-- Where the varint loop stops does not depend on the accumulator's width. -/
theorem varintLoop_index (w w' : Nat) (d : Bytes) (shift acc acc' : Nat) (i : Int) :
    Prod.snd <$> varintLoop w d shift acc i = Prod.snd <$> varintLoop w' d shift acc' i := by
  rw [varintLoop, varintLoop]
  split_ifs
  · rfl
  · rfl
  · rcases byteAt d i with e | b
    · rfl
    · dsimp only
      split_ifs
      · rfl
      · exact varintLoop_index w w' d (shift + 7) _ _ (i + 1)
termination_by 64 - shift

/-- Go's `wire & 0x7` is the wire type `skipControl` reads as `wire % 8`. -/
theorem and_seven (w : Nat) : w &&& 0x7 = w % 8 := by
  simpa using Nat.and_pow_two_sub_one_eq_mod w 3

/-! ## The lengths the decoders read -/

mutual
/-- The length prefixes of the field at the start of `d`, read as `skipControl` reads them,
`d` standing at offset `base` of the decoded slice: a length-delimited field's length `L`,
read up to `i`, is a negative `int` (`L ≥ 2^63`, rejected) or ends before `2^63`
(`base + i + L < 2^63`); a group's fields are checked in turn. -/
def fieldFits (base : Nat) : Nat → Bytes → Bool
  | 0, _ => true
  | fuel + 1, d =>
    match varintLoop 64 d 0 0 0 with
    | .ok (wire, i) =>
      if wire % 8 = 2 then
        match varintLoop 64 d 0 0 i with
        | .ok (length, i) => decide ((base : Int) + i + length < 2 ^ 63 ∨ 2 ^ 63 ≤ length)
        | .error _ => true
      else if wire % 8 = 3 then groupFits base fuel d i
      else true
    | .error _ => true

/-- The length prefixes of a group's fields from `start`, as the group loop of
`skipControl` steps over them. -/
def groupFits (base : Nat) : Nat → Bytes → Int → Bool
  | 0, _, _ => true
  | fuel + 1, d, start =>
    match varintLoop 64 d 0 0 start with
    | .ok (innerWire, _) =>
      if innerWire % 8 = 4 then true
      else
        fieldFits (base + start.toNat) fuel (d.drop start.toNat) &&
          match skipControlAux fuel (d.drop start.toNat) with
          | .ok next => groupFits base fuel d (goInt (start + next))
          | .error _ => true
    | .error _ => true
end

/-- The length prefixes of the fields an `Unmarshal` loop steps over from `i`, `d` at
offset `base` of the slice: each field's (`fieldFits`), the next field starting where
`skipControl` ends this one. -/
def fieldsFit (base : Nat) (d : Bytes) : Nat → Int → Bool
  | 0, _ => true
  | fuel + 1, i =>
    if 0 ≤ i ∧ i < d.length then
      fieldFits (base + i.toNat) (2 * (d.length - i.toNat) + 1) (d.drop i.toNat) &&
        match skipControl (d.drop i.toNat) with
        | .ok skippy => fieldsFit base d fuel (goInt (i + skippy))
        | .error _ => true
    else true

/-- No length prefix among the fields of `d`, standing at offset `base` of the decoded
slice, ends at `2^63` or past it: no sum `iNdEx + length` that the decoders compute on
`d`'s fields wraps. Payload bytes are not read as lengths. -/
def LengthsFit (base : Nat) (d : Bytes) : Prop := fieldsFit base d (d.length + 1) 0 = true

instance (base : Nat) (d : Bytes) : Decidable (LengthsFit base d) :=
  inferInstanceAs (Decidable (_ = true))

/-- The varint at `i`, read as a length up to `k`, is a negative `int` or ends before
`2^63`, `d` at offset `base` of the slice. -/
def LengthAt (base : Nat) (d : Bytes) (i : Int) : Prop :=
  ∀ v k, varintLoop 64 d 0 0 i = .ok (v, k) → (base : Int) + k + v < 2 ^ 63 ∨ 2 ^ 63 ≤ v

section Fits

variable {base : Nat} {d : Bytes}

/-- A field inside the slice: its own lengths fit, and so do those from where
`skipControl` ends it. -/
theorem fieldsFit_succ {f : Nat} {i : Int} (h : fieldsFit base d (f + 1) i = true)
    (h0 : 0 ≤ i) (hi : i < d.length) :
    fieldFits (base + i.toNat) (2 * (d.length - i.toNat) + 1) (d.drop i.toNat) = true ∧
      ∀ skippy, skipControl (d.drop i.toNat) = .ok skippy →
        fieldsFit base d f (goInt (i + skippy)) = true := by
  rw [fieldsFit, if_pos ⟨h0, hi⟩, Bool.and_eq_true] at h
  refine ⟨h.1, fun skippy hs => ?_⟩
  have h2 := h.2
  rwa [hs] at h2

/-- Where a field read at `s` has wire type 2, its length prefix fits. -/
theorem fieldFits_length {s fuel wire : Nat} {i1 : Int}
    (h : fieldFits (base + s) (fuel + 1) (d.drop s) = true)
    (hv : varintLoop 64 d 0 0 s = .ok (wire, i1)) (hw : wire % 8 = 2) : LengthAt base d i1 := by
  intro v k hk
  have hi1 := ((varintLoop_returns 64 d 0 0 s (by omega) (by decide)).2 _ hv).1
  have hv' : varintLoop 64 (d.drop s) 0 0 0 = .ok (wire, i1 - s) := by
    rw [varintLoop_drop 64 d s 0 0 0 le_rfl, add_zero, hv]; rfl
  have hk' : varintLoop 64 (d.drop s) 0 0 (i1 - s) = .ok (v, k - s) := by
    rw [varintLoop_drop 64 d s 0 0 _ (by omega), add_sub_cancel, hk]; rfl
  simp only [fieldFits, hv', hw, if_true, hk', decide_eq_true_eq] at h
  push_cast at h
  omega

end Fits

/-! ## `skipControl` -/

/-- `skipControl` of a non-empty slice at offset `base`, and its group loop from
`start ≥ 0`, with fuel for the bytes left, return when the lengths they read fit; on
success `skipControl` has stepped over at least one byte and its end stays below `2^63`,
and the group loop stops past `start` and inside the slice. By induction on the fuel, the
two together, as each calls the other. -/
theorem skip_returns (fuel : Nat) :
    (∀ (d : Bytes) (base : Nat), 0 < d.length → 2 * d.length + 1 ≤ fuel →
      base + d.length < 2 ^ 62 → fieldFits base fuel d = true →
      ReturnsWith (skipControlAux fuel d) (fun r => 0 < r ∧ base + r < 2 ^ 63)) ∧
    (∀ (d : Bytes) (start : Int) (base : Nat), 0 ≤ start →
      2 * (d.length - start).toNat + 2 ≤ fuel → base + d.length < 2 ^ 62 →
      groupFits base fuel d start = true →
      ReturnsWith (skipGroup fuel d start) (fun r => start < r ∧ r ≤ d.length)) := by
  induction fuel with
  | zero => exact ⟨fun _ _ _ hf => absurd hf (by omega), fun _ _ _ _ hf => absurd hf (by omega)⟩
  | succ fuel ih =>
  refine ⟨fun d base hd hf hl hb => ?_, fun d start base h0 hf hl hb => ?_⟩
  · rw [skipControlAux, if_pos hd]
    refine (varintLoop_returns 64 d 0 0 0 le_rfl (by decide)).bind_eq fun ⟨wire, i⟩ hv hp => ?_
    obtain ⟨hi, hil, -⟩ := hp
    simp only [fieldFits, hv] at hb
    dsimp only
    split
    · exact (varintLoop_returns 64 d 0 0 i (by omega) (by decide)).bind fun q hq =>
        returnsWith_ok (by omega)
    · exact returnsWith_ok (by rw [goInt_of_lt (by omega) (by omega)]; omega)
    · rename_i h2
      rw [if_pos h2] at hb
      refine (varintLoop_returns 64 d 0 0 i (by omega) (by decide)).bind_eq
        fun ⟨v, k⟩ hvk hq => ?_
      obtain ⟨hk, hkl, hv64⟩ := hq
      simp only [hvk, decide_eq_true_eq] at hb
      rcases hb with hsmall | hbig
      · dsimp only
        rw [goInt_natCast (by omega), goInt_of_lt (by omega) (by omega), if_neg (by omega),
          pure_bind]
        exact returnsWith_ok (by omega)
      · exact (if_pos (goInt_neg hbig hv64)).symm ▸ returnsWith_throw_bind _ _
    · rename_i h3
      rw [if_neg (by omega), if_pos h3] at hb
      exact (ih.2 d i base (by omega) (by omega) hl hb).mono fun r h => by omega
    · exact returnsWith_ok (by omega)
    · exact returnsWith_ok (by rw [goInt_of_lt (by omega) (by omega)]; omega)
    · exact returnsWith_throw _
  · rw [skipGroup]
    refine (varintLoop_returns 64 d 0 0 start h0 (by decide)).bind_eq fun ⟨w, i⟩ hv hp => ?_
    obtain ⟨hi, hil, -⟩ := hp
    simp only [groupFits, hv] at hb
    dsimp only
    split_ifs with h4
    · exact returnsWith_ok ⟨hi, hil⟩
    · rw [if_neg h4, Bool.and_eq_true] at hb
      have hrest : (d.drop start.toNat).length = d.length - start.toNat := List.length_drop _ _
      have hsl : slice d start d.length = .ok (d.drop start.toNat) := by
        have := slice_drop (d := d) (i := start.toNat) (by omega)
        rwa [Int.toNat_of_nonneg h0] at this
      rw [hsl, Res.ok_bind]
      refine (ih.1 (d.drop start.toNat) (base + start.toNat) (by omega) (by omega) (by omega)
        hb.1).bind_eq fun next hn hnext => ?_
      have hg := hb.2
      rw [hn] at hg
      dsimp only at hg
      rw [goInt_of_lt (by omega) (by omega)] at hg ⊢
      exact (ih.2 d _ base (by omega) (by omega) hl hg).mono fun r h => by omega

theorem skipControlAux_returns (fuel : Nat) (d : Bytes) (base : Nat) (hd : 0 < d.length)
    (hf : 2 * d.length + 1 ≤ fuel) (hl : base + d.length < 2 ^ 62)
    (hb : fieldFits base fuel d = true) :
    ReturnsWith (skipControlAux fuel d) (fun r => 0 < r ∧ base + r < 2 ^ 63) :=
  (skip_returns fuel).1 d base hd hf hl hb

/-! ## The loop and its cases -/

section Cases

variable {d : Bytes} {i : Int} {base : Nat}

theorem varint32Case_returns {field : String} {wt : Nat} (hi : 0 ≤ i) :
    ReturnsWith (varint32Case field wt d i) (fun p => i < p.2 ∧ p.2 ≤ d.length) := by
  unfold varint32Case
  by_cases hw : wt ≠ 0
  · rw [if_pos hw]; exact returnsWith_throw_bind _ _
  rw [if_neg hw, pure_bind]
  exact (varintLoop_returns 32 d 0 0 i hi (by decide)).mono fun _ h => ⟨h.1, h.2.1⟩

theorem stringCase_returns {field : String} {wt : Nat} (hfit : wt = 2 → LengthAt base d i)
    (hi : 0 ≤ i) : ReturnsWith (stringCase field wt d i) (fun p => i < p.2 ∧ p.2 ≤ d.length) := by
  unfold stringCase
  by_cases hw : wt ≠ 2
  · rw [if_pos hw]; exact returnsWith_throw_bind _ _
  rw [if_neg hw, pure_bind]
  refine (varintLoop_returns 64 d 0 0 i hi (by decide)).bind_eq fun ⟨v, i1⟩ hv hp => ?_
  obtain ⟨hi1, hi1l, hv64⟩ := hp
  rcases hfit (by omega) v i1 hv with hsmall | hbig
  · dsimp only
    rw [goInt_natCast (by omega), if_neg (by omega), pure_bind, goInt_of_lt (by omega) (by omega)]
    by_cases hpost : (d.length : Int) < i1 + v
    · rw [if_pos hpost]; exact returnsWith_throw_bind _ _
    · rw [if_neg hpost, pure_bind, slice, if_pos ⟨by omega, by omega, by omega⟩, Res.ok_bind]
      exact returnsWith_ok ⟨by omega, by omega⟩
  · dsimp only
    rw [if_pos (goInt_neg hbig hv64)]; exact returnsWith_throw_bind _ _

theorem skipCase_returns (hl : base + d.length < 2 ^ 62) (hi0 : 0 ≤ i) (hi : i < d.length)
    (hb : fieldFits (base + i.toNat) (2 * (d.length - i.toNat) + 1) (d.drop i.toNat) = true) :
    ReturnsWith (skipCase d i) (fun k => i < k ∧ k ≤ d.length) := by
  have hs : (i.toNat : Int) = i := by omega
  have hrest : (d.drop i.toNat).length = d.length - i.toNat := List.length_drop _ _
  unfold skipCase skipControl
  rw [← hs, slice_drop (by omega), Res.ok_bind]
  refine (skipControlAux_returns _ (d.drop i.toNat) (base + i.toNat) (by omega) (by omega)
    (by omega) (by rw [hrest]; exact hb)).bind fun skippy hsk => ?_
  rw [if_neg (by omega), pure_bind, goInt_of_lt (by omega) (by omega)]
  by_cases hpost : (d.length : Int) < i.toNat + skippy
  · rw [if_pos hpost]; exact returnsWith_throw_bind _ _
  · rw [if_neg hpost, pure_bind]; exact returnsWith_ok ⟨by omega, by omega⟩

/-- `default` that returns has stepped to where `skipControl` ends the field. -/
theorem skipCase_ok {k : Int} (h0 : 0 ≤ i) (hi : i ≤ d.length) (h : skipCase d i = .ok k) :
    ∃ skippy, skipControl (d.drop i.toNat) = .ok skippy ∧ k = goInt (i + skippy) := by
  have hsl : slice d i d.length = .ok (d.drop i.toNat) := by
    have := slice_drop (d := d) (i := i.toNat) (by omega)
    rwa [Int.toNat_of_nonneg h0] at this
  unfold skipCase at h
  rw [hsl, Res.ok_bind] at h
  obtain ⟨skippy, hsk, h⟩ := Res.bind_eq_ok.1 h
  refine ⟨skippy, hsk, ?_⟩
  by_cases h1 : skippy < 0
  · rw [if_pos h1] at h; simp at h
  rw [if_neg h1, pure_bind] at h
  by_cases h2 : (d.length : Int) < goInt (i + skippy)
  · rw [if_pos h2] at h; simp at h
  rw [if_neg h2, pure_bind] at h
  exact (Except.ok.inj h).symm

/-- Every declared field's case, from an index `≥ 0` where a wire-type-2 length fits,
returns and on success moves the index forward within the slice. -/
def CasesAdvance {M : Type} (fc : FieldCase M) (base : Nat) (d : Bytes) : Prop :=
  ∀ n wt (i : Int) m r, 0 ≤ i → (wt = 2 → LengthAt base d i) → fc n wt d i m = some r →
    ReturnsWith r (fun p => i < p.1 ∧ p.1 ≤ d.length)

/-- Every declared field's case that returns stops where `skipControl` from the field's
tag would: the two read the same tag and length varints. -/
def CasesSkip {M : Type} (fc : FieldCase M) (d : Bytes) : Prop :=
  ∀ n (i i1 : Int) wire m p, 0 ≤ i → varintLoop 64 d 0 0 i = .ok (wire, i1) →
    fc n (wire &&& 0x7) d i1 m = some (.ok p) → skipControl (d.drop i.toNat) = .ok (p.1 - i)

/-- One pass from inside the slice where the fields' lengths fit returns; on success it
moves the index forward within the slice, and the lengths fit from there on. -/
theorem unmarshalPass_fits {M : Type} {name : String} {fc : FieldCase M} {f : Nat} {m : M}
    (hl : base + d.length < 2 ^ 62) (hc : CasesAdvance fc base d) (hs : CasesSkip fc d)
    (h0 : 0 ≤ i) (hi : i < d.length) (hw : fieldsFit base d (f + 1) i = true) :
    ReturnsWith (unmarshalPass name fc d i m)
      (fun p => i < p.1 ∧ p.1 ≤ d.length ∧ fieldsFit base d f p.1 = true) := by
  obtain ⟨hfield, hnext⟩ := fieldsFit_succ hw h0 hi
  have hs0 : ((i.toNat : Nat) : Int) = i := Int.toNat_of_nonneg h0
  unfold unmarshalPass
  refine (varintLoop_returns 64 d 0 0 i h0 (by decide)).bind_eq fun ⟨wire, i1⟩ hv hp => ?_
  obtain ⟨hi1, hi1l, -⟩ := hp
  dsimp only
  by_cases h4 : wire &&& 0x7 = 4
  · rw [if_pos h4]
    exact returnsWith_throw_bind _ _
  rw [if_neg h4, pure_bind]
  by_cases hn : goInt32 (wire >>> 3 : Nat) ≤ 0
  · rw [if_pos hn]
    exact returnsWith_throw_bind _ _
  rw [if_neg hn, pure_bind]
  split
  · rename_i r hr
    have hfit : wire &&& 0x7 = 2 → LengthAt base d i1 := fun h2 =>
      fieldFits_length (s := i.toNat) hfield
        (by rw [hs0]; exact hv) (by rw [← and_seven]; exact h2)
    have hadv := hc _ _ _ _ _ (by omega) hfit hr
    refine ⟨hadv.1, fun p hpr => ?_⟩
    obtain ⟨hlt, hle⟩ := hadv.2 p hpr
    have := hnext _ (hs _ i i1 wire _ p h0 hv (hpr ▸ hr))
    rw [add_sub_cancel, goInt_of_lt (by omega) (by omega)] at this
    exact ⟨by omega, hle, this⟩
  · refine (skipCase_returns hl h0 hi hfield).bind_eq fun k hk hk' => returnsWith_ok ⟨hk'.1, hk'.2, ?_⟩
    obtain ⟨skippy, hsk, rfl⟩ := skipCase_ok h0 hi.le hk
    exact hnext skippy hsk

/-- The loop from an index in `[0, l]`, with fuel exceeding the bytes left and the fields'
lengths fitting from there, returns. -/
theorem unmarshalLoop_returns {M : Type} {name : String} {fc : FieldCase M}
    (hl : base + d.length < 2 ^ 62) (hc : CasesAdvance fc base d) (hs : CasesSkip fc d) :
    ∀ (fuel f : Nat) (i : Int) (m : M), 0 ≤ i → i ≤ d.length → d.length < i + fuel →
      d.length < i + f → fieldsFit base d f i = true →
      ReturnsWith (unmarshalLoop name fc d fuel i m) (fun _ => True)
  | 0, _, i, _, _, hi, hf, _, _ => absurd hf (by omega)
  | fuel + 1, f, i, m, h0, hi, hf, hg, hw => by
    by_cases hlt : i < d.length
    · obtain ⟨f, rfl⟩ : ∃ f', f = f' + 1 := ⟨f - 1, by omega⟩
      rw [unmarshalLoop_succ hlt]
      exact (unmarshalPass_fits hl hc hs h0 hlt hw).bind fun q hq =>
        unmarshalLoop_returns hl hc hs fuel f q.1 q.2 (by omega) hq.2.1 (by omega) (by omega) hq.2.2
    · rw [unmarshalLoop, if_neg hlt, if_neg (by omega)]
      exact returnsWith_ok trivial

end Cases

/-! ## The four messages -/

section Messages

variable {d : Bytes} {base : Nat}

/-- A string case that returns read a length below `2^63` whose field ends before
`2^63`, and stopped at that end. -/
theorem stringCase_ok {field : String} {wt : Nat} {i1 : Int} {p : Bytes × Int} (h0 : 0 ≤ i1)
    (h : stringCase field wt d i1 = .ok p) :
    wt = 2 ∧ ∃ L k, varintLoop 64 d 0 0 i1 = .ok (L, k) ∧ L < 2 ^ 63 ∧ i1 < k ∧
      k + L < 2 ^ 63 ∧ p.2 = k + L := by
  unfold stringCase at h
  by_cases hw : wt ≠ 2
  · rw [if_pos hw] at h; simp at h
  rw [if_neg hw, pure_bind] at h
  obtain ⟨⟨L, k⟩, hL, h⟩ := Res.bind_eq_ok.1 h
  obtain ⟨hk, -, hL64⟩ := (varintLoop_returns 64 d 0 0 i1 h0 (by decide)).2 _ hL
  dsimp only at h
  have hL63 : L < 2 ^ 63 := by
    by_contra hc
    rw [if_pos (goInt_neg (by omega) hL64)] at h
    simp at h
  rw [goInt_natCast hL63, if_neg (by omega), pure_bind] at h
  by_cases hpost : (d.length : Int) < goInt (k + L)
  · rw [if_pos hpost] at h; simp at h
  rw [if_neg hpost, pure_bind] at h
  obtain ⟨sl, hsl, h⟩ := Res.bind_eq_ok.1 h
  have hkp : k ≤ goInt (k + L) := by
    unfold slice at hsl
    split_ifs at hsl with hc
    exact hc.2.1
  have hwrap : k + L < 2 ^ 63 := by
    by_contra hc
    have := goInt_lt (k + L)
    have hn := goInt_neg (v := k.toNat + L) (by omega) (by omega)
    push_cast at hn
    rw [Int.toNat_of_nonneg (by omega)] at hn
    omega
  rw [goInt_of_lt (by omega) hwrap] at h
  cases h
  exact ⟨not_not.1 hw, L, k, hL, hL63, hk, hwrap, rfl⟩

theorem varint32Case_ok {field : String} {wt : Nat} {i1 : Int} {p : Nat × Int}
    (h : varint32Case field wt d i1 = .ok p) : wt = 0 ∧ varintLoop 32 d 0 0 i1 = .ok p := by
  unfold varint32Case at h
  by_cases hw : wt ≠ 0
  · rw [if_pos hw] at h; simp at h
  rw [if_neg hw, pure_bind] at h
  exact ⟨not_not.1 hw, h⟩

/-- A declared string field that returns ends where `skipControl` from its tag ends. -/
theorem skipControl_of_stringCase {field : String} {wire : Nat} {i i1 : Int} {p : Bytes × Int}
    (h0 : 0 ≤ i) (hv : varintLoop 64 d 0 0 i = .ok (wire, i1))
    (h : stringCase field (wire &&& 0x7) d i1 = .ok p) :
    skipControl (d.drop i.toNat) = .ok (p.2 - i) := by
  have hs : (i.toNat : Int) = i := Int.toNat_of_nonneg h0
  obtain ⟨hi1, hi1l, -⟩ := (varintLoop_returns 64 d 0 0 i h0 (by decide)).2 _ hv
  obtain ⟨hw, L, k, hL, hL63, hk, hwrap, hp⟩ := stringCase_ok (by omega) h
  unfold skipControl
  rw [skipControlAux, if_pos (by simp only [List.length_drop]; omega),
    varintLoop_drop 64 d _ 0 0 0 le_rfl, add_zero, hs, hv, Res.map_ok, Res.ok_bind]
  dsimp only
  rw [← and_seven, hw]
  dsimp only
  rw [varintLoop_drop 64 d _ 0 0 _ (by omega), hs, add_sub_cancel, hL, Res.map_ok, Res.ok_bind]
  dsimp only
  rw [goInt_natCast hL63, goInt_of_lt (by omega) (by omega), if_neg (by omega), pure_bind, hp]
  congr 1
  ring

/-- A declared varint field that returns ends where `skipControl` from its tag ends. -/
theorem skipControl_of_varint32Case {field : String} {wire : Nat} {i i1 : Int} {p : Nat × Int}
    (h0 : 0 ≤ i) (hv : varintLoop 64 d 0 0 i = .ok (wire, i1))
    (h : varint32Case field (wire &&& 0x7) d i1 = .ok p) :
    skipControl (d.drop i.toNat) = .ok (p.2 - i) := by
  have hs : (i.toNat : Int) = i := Int.toNat_of_nonneg h0
  obtain ⟨hi1, hi1l, -⟩ := (varintLoop_returns 64 d 0 0 i h0 (by decide)).2 _ hv
  obtain ⟨hw, h32⟩ := varint32Case_ok h
  have hidx := varintLoop_index 32 64 d 0 0 0 i1
  rw [h32] at hidx
  rcases hq : varintLoop 64 d 0 0 i1 with e | ⟨v, k⟩
  · rw [hq] at hidx; cases hidx
  rw [hq] at hidx
  cases hidx
  unfold skipControl
  rw [skipControlAux, if_pos (by simp only [List.length_drop]; omega),
    varintLoop_drop 64 d _ 0 0 0 le_rfl, add_zero, hs, hv, Res.map_ok, Res.ok_bind]
  dsimp only
  rw [← and_seven, hw]
  dsimp only
  rw [varintLoop_drop 64 d _ 0 0 _ (by omega), hs, add_sub_cancel, hq, Res.map_ok, Res.ok_bind]
  rfl

theorem Command.cases_advance : CasesAdvance Command.fieldCase base d := by
  intro n wt i m r hi hfit h
  unfold Command.fieldCase at h
  split at h <;> cases h <;> first
    | exact (stringCase_returns hfit hi).bind fun ⟨_, _⟩ hp => returnsWith_ok hp
    | exact (varint32Case_returns hi).bind fun ⟨_, _⟩ hp => returnsWith_ok hp

theorem Node.cases_advance : CasesAdvance Node.fieldCase base d := by
  intro n wt i m r hi hfit h
  unfold Node.fieldCase at h
  split at h <;> cases h <;> first
    | exact (stringCase_returns hfit hi).bind fun ⟨_, _⟩ hp => returnsWith_ok hp
    | exact (varint32Case_returns hi).bind fun ⟨_, _⟩ hp => returnsWith_ok hp

theorem Unsubscribe.cases_advance : CasesAdvance Unsubscribe.fieldCase base d := by
  intro n wt i m r hi hfit h
  unfold Unsubscribe.fieldCase at h
  split at h <;> cases h <;>
    exact (stringCase_returns hfit hi).bind fun ⟨_, _⟩ hp => returnsWith_ok hp

theorem Disconnect.cases_advance : CasesAdvance Disconnect.fieldCase base d := by
  intro n wt i m r hi hfit h
  unfold Disconnect.fieldCase at h
  split at h <;> cases h
  exact (stringCase_returns hfit hi).bind fun ⟨_, _⟩ hp => returnsWith_ok hp

theorem Command.cases_skip : CasesSkip Command.fieldCase d := by
  intro n i i1 wire m p h0 hv h
  unfold Command.fieldCase at h
  split at h <;> first
    | exact Option.noConfusion h
    | (obtain ⟨⟨_, _⟩, hs, hp⟩ := Res.bind_eq_ok.1 (Option.some.inj h)
       cases hp
       first
         | exact skipControl_of_stringCase h0 hv hs
         | exact skipControl_of_varint32Case h0 hv hs)

theorem Node.cases_skip : CasesSkip Node.fieldCase d := by
  intro n i i1 wire m p h0 hv h
  unfold Node.fieldCase at h
  split at h <;> first
    | exact Option.noConfusion h
    | (obtain ⟨⟨_, _⟩, hs, hp⟩ := Res.bind_eq_ok.1 (Option.some.inj h)
       cases hp
       first
         | exact skipControl_of_stringCase h0 hv hs
         | exact skipControl_of_varint32Case h0 hv hs)

theorem Unsubscribe.cases_skip : CasesSkip Unsubscribe.fieldCase d := by
  intro n i i1 wire m p h0 hv h
  unfold Unsubscribe.fieldCase at h
  split at h <;> first
    | exact Option.noConfusion h
    | (obtain ⟨⟨_, _⟩, hs, hp⟩ := Res.bind_eq_ok.1 (Option.some.inj h)
       cases hp
       exact skipControl_of_stringCase h0 hv hs)

theorem Disconnect.cases_skip : CasesSkip Disconnect.fieldCase d := by
  intro n i i1 wire m p h0 hv h
  unfold Disconnect.fieldCase at h
  split at h <;> first
    | exact Option.noConfusion h
    | (obtain ⟨⟨_, _⟩, hs, hp⟩ := Res.bind_eq_ok.1 (Option.some.inj h)
       cases hp
       exact skipControl_of_stringCase h0 hv hs)

end Messages

/-- On every slice shorter than `2^62` whose fields' length prefixes fit (`LengthsFit`),
the four `Unmarshal`s, into any message, and `skipControl` of the slice when it is not
empty return: with a value or an error, never a panic. -/
theorem unmarshal_returns (d : Bytes) (hl : d.length < 2 ^ 62) (hb : LengthsFit 0 d) :
    (∀ m : Command, Returns (m.unmarshal d)) ∧ (∀ m : Node, Returns (m.unmarshal d)) ∧
    (∀ m : Unsubscribe, Returns (m.unmarshal d)) ∧ (∀ m : Disconnect, Returns (m.unmarshal d)) ∧
    (d ≠ [] → Returns (skipControl d)) := by
  have hl' : 0 + d.length < 2 ^ 62 := by omega
  have hloop : ∀ {M : Type} {name : String} {fc : FieldCase M}, CasesAdvance fc 0 d →
      CasesSkip fc d → ∀ m, Returns (unmarshalLoop name fc d (d.length + 1) 0 m) :=
    fun hc hs m => (unmarshalLoop_returns hl' hc hs _ _ 0 m le_rfl (by omega) (by omega)
      (by omega) hb).1
  refine ⟨hloop Command.cases_advance Command.cases_skip, hloop Node.cases_advance Node.cases_skip,
    hloop Unsubscribe.cases_advance Unsubscribe.cases_skip,
    hloop Disconnect.cases_advance Disconnect.cases_skip, fun hd => ?_⟩
  have hpos := List.length_pos.2 hd
  have hf := (fieldsFit_succ hb le_rfl (by omega)).1
  simp only [Int.toNat_zero, Nat.sub_zero, List.drop_zero, Nat.add_zero] at hf
  exact (skipControlAux_returns _ d 0 hpos le_rfl hl' hf).1

end Centrifuge.Control
