import Centrifuge.Control.Termination
import Centrifuge.Control.RoundTrip

/-!
# Decoding a concatenation merges

The generated `Unmarshal` decodes into the message it is given and never resets it, so a
second call goes on from the first call's result. For two slices `a` and `b` the loop on
`a ++ b` first makes `a`'s passes, which read only bytes of `a` and compare only with
`l`, and then, from `iNdEx = len(a)`, the passes it makes on `b` alone, shifted by
`len(a)`. The payoff is

> `unmarshal_append`: when `Unmarshal(a)` into `m` succeeds with `m'`, `Unmarshal(a ++ b)`
> into `m` is `Unmarshal(b)` into `m'`, for all four messages;

for slices shorter than `2^62` whose second part's length prefixes, placed after `a`, end
before `2^63` (`LengthsFit len(a) b`). The second condition is needed: a string length that
makes `j + len` just below `2^63` in `b` alone (an `unexpected EOF`) wraps once shifted by
`len(a)`, and the slice panics.

The first half holds for every slice: a pass that settles on `a`, with a value or with a
fault other than running off its end, settles the same on `a ++ b` (`unmarshalPass_append`),
`skipControl` included, since every read that succeeded reads the same byte and
`Unmarshal`'s checks compare only with `l`. For faults it is the whole story:

> `unmarshal_fault_final`: when `Unmarshal(a)` into `m` returns an error other than
> `io.ErrUnexpectedEOF`, or panics, `Unmarshal(a ++ b)` into `m` ends the same way.

On what `Marshal` writes no bound on lengths is needed, and the result is the message
itself: `X.merge x y` is `x` with every field `y`'s encoding carries replaced by `y`'s,
and

> `unmarshal_encodings`: decoding the encodings of `x₁, …, xₙ`, one after another, into
> `m` gives `m` merged with `x₁`, then `x₂`, …, for all four messages.

`Marshal` skips an empty string and a zero number, so those keep the value before them;
`Command.Params`, a `proto.Raw`, is written even when empty, but `(*proto.Raw).Unmarshal` of
an empty payload leaves the value before it too.
-/

namespace Centrifuge.Control

/-! ## A read that settles on `a` settles the same on `a ++ b` -/

/-- A result reached before the decoder runs off the end of its slice: anything but
`io.ErrUnexpectedEOF` and the model's fuel running out. Appending bytes to the slice
changes none of them. -/
def Settled {α : Type} : Res α → Prop
  | .error f => f ≠ .error .unexpectedEOF ∧ f ≠ .exhausted
  | .ok _ => True

theorem settled_ok {α : Type} (a : α) : Settled (.ok a : Res α) := trivial

theorem Settled.ne_eof {α : Type} {r : Res α} (hs : Settled r) :
    r ≠ .error (.error .unexpectedEOF) := by
  rintro rfl
  exact hs.1 rfl

theorem Settled.ne_exhausted {α : Type} {r : Res α} (hs : Settled r) : r ≠ .error .exhausted := by
  rintro rfl
  exact hs.2 rfl

/-- A step that settles the same on a longer slice, followed by a rest that does too after
each value, settles the same. -/
theorem Res.bind_settled {α β : Type} {x y : Res α} {f g : α → Res β} {r : Res β}
    (hxy : ∀ r', x = r' → Settled r' → y = r') (hfg : ∀ a, x = .ok a → f a = r → g a = r)
    (h : x >>= f = r) (hs : Settled r) : y >>= g = r := by
  rcases hx : x with e | a
  · rw [hx, Res.error_bind] at h
    subst h
    rw [hxy _ hx hs, Res.error_bind]
  · rw [hx, Res.ok_bind] at h
    rw [hxy _ hx (settled_ok a), Res.ok_bind]
    exact hfg a hx h

/-- A shift of the index before a case's last step is the same shift after it. -/
theorem Res.map_bind_comm {α β : Type} (x : Res α) (f : α → α) (g : α → Res β) (F : β → β)
    (h : ∀ a, g (f a) = F <$> g a) : (f <$> x) >>= g = F <$> (x >>= g) := by
  cases x with
  | error e => rfl
  | ok a => exact h a

theorem byteAt_append_left {a : Bytes} (b : Bytes) {i : Int} (hi : i < a.length) :
    byteAt (a ++ b) i = byteAt a i := by
  unfold byteAt
  by_cases h0 : 0 ≤ i
  · rw [dif_pos ⟨h0, by simp only [List.length_append]; omega⟩, dif_pos ⟨h0, hi⟩]
    simp only [List.get_eq_getElem, List.getElem_append_left (show i.toNat < a.length by omega)]
  · rw [dif_neg (by omega), dif_neg (by omega)]

/-- A slice of `a`, or its panic, is the same in `a ++ b`. -/
theorem slice_append_left {a : Bytes} (b : Bytes) {lo hi : Int} (hhi : hi ≤ a.length) :
    slice (a ++ b) lo hi = slice a lo hi := by
  unfold slice
  by_cases hc : 0 ≤ lo ∧ lo ≤ hi
  · rw [if_pos ⟨hc.1, hc.2, by simp only [List.length_append]; omega⟩, if_pos ⟨hc.1, hc.2, hhi⟩,
      List.drop_append_of_le_length (by omega), List.take_append_of_le_length (by simp; omega)]
  · rw [if_neg (fun h => hc ⟨h.1, h.2.1⟩), if_neg (fun h => hc ⟨h.1, h.2.1⟩)]

/-- `dAtA[i:]` of the longer slice is `dAtA[i:]` of the shorter one, then `b`. -/
theorem slice_end_append {a : Bytes} (b : Bytes) {i : Int} {rest : Bytes}
    (h : slice a i a.length = .ok rest) : slice (a ++ b) i (a ++ b).length = .ok (rest ++ b) := by
  have hi := (slice_ends a i a.length).2 _ h
  obtain ⟨n, rfl⟩ := Int.eq_ofNat_of_zero_le hi.1
  rw [slice_drop (by omega)] at h
  cases h
  rw [slice_drop (by simp only [List.length_append]; omega),
    List.drop_append_of_le_length (by omega)]

theorem varintLoop_append {w : Nat} {a : Bytes} (b : Bytes) (shift acc : Nat) (i : Int)
    {r : Res (Nat × Int)} (h : varintLoop w a shift acc i = r) (hs : Settled r) :
    varintLoop w (a ++ b) shift acc i = r := by
  rw [varintLoop] at h ⊢
  by_cases h64 : 64 ≤ shift
  · rw [if_pos h64] at h ⊢
    exact h
  by_cases hl : (a.length : Int) ≤ i
  · rw [if_neg h64, if_pos hl] at h
    exact absurd h.symm hs.ne_eof
  rw [if_neg h64, if_neg hl] at h
  rw [if_neg h64, if_neg (by simp only [List.length_append]; omega), byteAt_append_left b (by omega)]
  rcases hb : byteAt a i with e | x
  · rw [hb] at h
    exact h
  rw [hb] at h
  dsimp only at h ⊢
  split_ifs at h ⊢
  · exact h
  · exact varintLoop_append b (shift + 7) _ (i + 1) h hs
termination_by 64 - shift

mutual
/-- `skipControl` that settles on a non-empty `d`, with any more fuel, settles the same on
`d ++ e`. -/
theorem skipControlAux_append : ∀ (fuel : Nat) (d e : Bytes) {r : Res Int}, 0 < d.length →
    skipControlAux fuel d = r → Settled r → ∀ fuel', fuel ≤ fuel' → skipControlAux fuel' (d ++ e) = r
  | 0, _, _, _, _, h, hs, _, _ => absurd h.symm hs.ne_exhausted
  | fuel + 1, d, e, r, hd, h, hs, fuel' + 1, hf => by
    rw [skipControlAux, if_pos hd] at h
    rw [skipControlAux, if_pos (by simp only [List.length_append]; omega)]
    refine Res.bind_settled (fun _ hv => varintLoop_append e 0 0 0 hv) (fun ⟨wire, i⟩ _ h => ?_) h hs
    dsimp only at h ⊢
    split at h
    · exact Res.bind_settled (fun _ hv => varintLoop_append e 0 0 i hv) (fun _ _ h => h) h hs
    · exact h
    · exact Res.bind_settled (fun _ hv => varintLoop_append e 0 0 i hv) (fun _ _ h => h) h hs
    · exact skipGroup_append fuel d e i h hs fuel' (by omega)
    · exact h
    · exact h
    · exact h
  | _ + 1, _, _, _, _, _, _, 0, hf => absurd hf (by omega)

/-- The group loop that settles on `d`, with any more fuel, settles the same on `d ++ e`. -/
theorem skipGroup_append : ∀ (fuel : Nat) (d e : Bytes) (start : Int) {r : Res Int},
    skipGroup fuel d start = r → Settled r → ∀ fuel', fuel ≤ fuel' →
      skipGroup fuel' (d ++ e) start = r
  | 0, _, _, _, _, h, hs, _, _ => absurd h.symm hs.ne_exhausted
  | fuel + 1, d, e, start, r, h, hs, fuel' + 1, hf => by
    rw [skipGroup] at h ⊢
    refine Res.bind_settled (fun _ hv => varintLoop_append e 0 0 start hv)
      (fun ⟨w, i⟩ hv h => ?_) h hs
    dsimp only at h ⊢
    split_ifs at h ⊢
    · exact h
    obtain ⟨h0, hi, hid, -⟩ := (varintLoop_ends 64 d start).2 _ hv
    obtain ⟨n, rfl⟩ := Int.eq_ofNat_of_zero_le h0
    have hsl := slice_drop (d := d) (i := n) (by omega)
    rw [hsl, Res.ok_bind] at h
    rw [slice_end_append e hsl, Res.ok_bind]
    exact Res.bind_settled
      (fun _ hk hks => skipControlAux_append fuel _ e (by simp only [List.length_drop]; omega)
        hk hks fuel' (by omega))
      (fun _ _ h => skipGroup_append fuel d e _ h hs fuel' (by omega)) h hs
  | _ + 1, _, _, _, _, _, _, 0, hf => absurd hf (by omega)
end

/-! ## A pass that settles on `a` settles the same on `a ++ b` -/

section Append

variable {a : Bytes} (b : Bytes)

theorem stringCase_append {field : String} {wt : Nat} {i : Int} {r : Res (Bytes × Int)}
    (h : stringCase field wt a i = r) (hs : Settled r) : stringCase field wt (a ++ b) i = r := by
  unfold stringCase at h ⊢
  by_cases hw : wt ≠ 2
  · rw [if_pos hw, Res.throw_eq, Res.error_bind] at h ⊢
    exact h
  rw [if_neg hw, pure_bind] at h ⊢
  refine Res.bind_settled (fun _ hv => varintLoop_append b 0 0 i hv)
    (fun ⟨v, i1⟩ _ h => ?_) h hs
  dsimp only at h ⊢
  by_cases hneg : goInt v < 0
  · rw [if_pos hneg, Res.throw_eq, Res.error_bind] at h ⊢
    exact h
  rw [if_neg hneg, pure_bind] at h ⊢
  by_cases hpost : (a.length : Int) < goInt (i1 + goInt v)
  · rw [if_pos hpost] at h
    exact absurd h.symm hs.ne_eof
  rw [if_neg hpost, pure_bind] at h
  rw [if_neg (by simp only [List.length_append]; push_cast; omega), pure_bind,
    slice_append_left b (by omega)]
  exact h

theorem varint32Case_append {field : String} {wt : Nat} {i : Int} {r : Res (Nat × Int)}
    (h : varint32Case field wt a i = r) (hs : Settled r) : varint32Case field wt (a ++ b) i = r := by
  unfold varint32Case at h ⊢
  by_cases hw : wt ≠ 0
  · rw [if_pos hw, Res.throw_eq, Res.error_bind] at h ⊢
    exact h
  rw [if_neg hw, pure_bind] at h ⊢
  exact varintLoop_append b 0 0 i h hs

/-- `default` from inside `a` settles the same on `a ++ b`. -/
theorem skipCase_append {i : Int} {r : Res Int} (h0 : 0 ≤ i) (hi : i < a.length)
    (h : skipCase a i = r) (hs : Settled r) : skipCase (a ++ b) i = r := by
  unfold skipCase skipControl at h ⊢
  obtain ⟨n, rfl⟩ := Int.eq_ofNat_of_zero_le h0
  have hsl := slice_drop (d := a) (i := n) (by omega)
  rw [hsl, Res.ok_bind] at h
  rw [slice_end_append b hsl, Res.ok_bind]
  refine Res.bind_settled
    (fun _ hk hks => skipControlAux_append _ _ b (by simp only [List.length_drop]; omega) hk hks _
      (by simp only [List.length_append]; omega))
    (fun skippy _ h => ?_) h hs
  by_cases hneg : skippy < 0
  · rw [if_pos hneg, Res.throw_eq, Res.error_bind] at h ⊢
    exact h
  rw [if_neg hneg, pure_bind] at h ⊢
  by_cases hpost : (a.length : Int) < goInt (n + skippy)
  · rw [if_pos hpost] at h
    exact absurd h.symm hs.ne_eof
  rw [if_neg hpost, pure_bind] at h
  rw [if_neg (by simp only [List.length_append]; push_cast; omega), pure_bind]
  exact h

end Append

/-! ## Every field's case, and so every pass, settles the same on a longer slice -/

section Pass

variable {M : Type} {name : String} {fc : FieldCase M} {a : Bytes} (b : Bytes)

/-- A message's cases that settle on `a` settle the same on `a ++ b`, and a field number
is declared or not whatever the slice. -/
def CasesAppend {M : Type} (fc : FieldCase M) : Prop :=
  ∀ n wt (a b : Bytes) i m,
    (∀ r, fc n wt a i m = some r → Settled r → fc n wt (a ++ b) i m = some r) ∧
    (fc n wt a i m = none → fc n wt (a ++ b) i m = none)

theorem unmarshalPass_append (hc : CasesAppend fc) {i : Int} {m : M} {r : Res (Int × M)}
    (h : unmarshalPass name fc a i m = r) (hs : Settled r) :
    unmarshalPass name fc (a ++ b) i m = r := by
  unfold unmarshalPass at h ⊢
  refine Res.bind_settled (fun _ hv => varintLoop_append b 0 0 i hv)
    (fun ⟨wire, i1⟩ hv h => ?_) h hs
  obtain ⟨h0, hi, hia, -⟩ := (varintLoop_ends 64 a i).2 _ hv
  dsimp only at h ⊢
  by_cases h4 : wire &&& 0x7 = 4
  · rw [if_pos h4, Res.throw_eq, Res.error_bind] at h ⊢
    exact h
  rw [if_neg h4, pure_bind] at h ⊢
  by_cases hn : goInt32 (wire >>> 3 : Nat) ≤ 0
  · rw [if_pos hn, Res.throw_eq, Res.error_bind] at h ⊢
    exact h
  rw [if_neg hn, pure_bind] at h ⊢
  rcases hf : fc (goInt32 (wire >>> 3 : Nat)) (wire &&& 0x7) a i1 m with _ | r'
  · rw [hf] at h
    rw [(hc _ _ a b i1 m).2 hf]
    exact Res.bind_settled (fun _ hk hks => skipCase_append b h0 (by omega) hk hks)
      (fun _ _ h => h) h hs
  · rw [hf] at h
    subst h
    rw [(hc _ _ a b i1 m).1 _ hf hs]

/-- A loop that returns started inside the slice, or at its end. -/
theorem unmarshalLoop_ok_index {d : Bytes} : ∀ {fuel : Nat} {i : Int} {m m' : M},
    unmarshalLoop name fc d fuel i m = .ok m' → 0 ≤ i ∧ i ≤ d.length
  | 0, _, _, _, h => nomatch h
  | fuel + 1, i, m, m', h => by
    by_cases hi : i < d.length
    · rw [unmarshalLoop_succ hi] at h
      obtain ⟨_, hp, -⟩ := Res.bind_eq_ok.1 h
      unfold unmarshalPass at hp
      obtain ⟨_, hv, -⟩ := Res.bind_eq_ok.1 hp
      exact ⟨((varintLoop_ends 64 d i).2 _ hv).1, hi.le⟩
    · rw [unmarshalLoop, if_neg hi] at h
      split_ifs at h
      omega

/-- The loop that returns `m'` on `a` makes the same passes on `a ++ b`, each at least one
byte long, and reaches `len(a)` with `m'` and at least the fuel left over. -/
theorem unmarshalLoop_append (hc : CasesAppend fc) (hce : CasesEnd fc a) (hl : a.length < 2 ^ 63) :
    ∀ (fuel : Nat) (i : Int) (m : M) {m' : M}, unmarshalLoop name fc a fuel i m = .ok m' →
      ∀ g, ∃ g', g ≤ g' ∧ unmarshalLoop name fc (a ++ b) (g + (a.length - i).toNat) i m =
        unmarshalLoop name fc (a ++ b) g' a.length m' := by
  intro fuel
  induction fuel with
  | zero => exact fun _ _ _ h => nomatch h
  | succ fuel ih =>
    intro i m m' h g
    by_cases hi : i < a.length
    · rw [unmarshalLoop_succ hi] at h
      obtain ⟨⟨i1, m1⟩, hp, h⟩ := Res.bind_eq_ok.1 h
      have hidx := unmarshalLoop_ok_index h
      have hlt : i < i1 := by
        obtain ⟨-, h' | h'⟩ := (unmarshalPass_progress hce hl hi).2 _ hp <;> omega
      obtain ⟨g', hg', heq⟩ := ih i1 m1 h (g + (i1 - i).toNat - 1)
      refine ⟨g', by omega, ?_⟩
      rw [show g + (a.length - i).toNat = g + (i1 - i).toNat - 1 + (a.length - i1).toNat + 1 by omega,
        unmarshalLoop_succ (by simp only [List.length_append]; omega),
        unmarshalPass_append b hc hp (settled_ok _), Res.ok_bind]
      exact heq
    · rw [unmarshalLoop, if_neg hi] at h
      split_ifs at h with hlt
      cases h
      exact ⟨g, le_rfl, by rw [show i = a.length by omega, sub_self, Int.toNat_zero, Nat.add_zero]⟩

/-- A loop that settles on a fault on `a` ends with it on `a ++ b`, with any more fuel: each
pass before the fault returns the same, and the pass that fails fails the same way. -/
theorem unmarshalLoop_append_fault (hc : CasesAppend fc) {f : Fault}
    (hf : Settled (.error f : Res M)) :
    ∀ (fuel : Nat) (i : Int) (m : M), unmarshalLoop name fc a fuel i m = .error f →
      ∀ fuel', fuel ≤ fuel' → unmarshalLoop name fc (a ++ b) fuel' i m = .error f := by
  intro fuel
  induction fuel with
  | zero => exact fun _ _ h => absurd h.symm hf.ne_exhausted
  | succ fuel ih =>
    intro i m h fuel' hle
    obtain ⟨fuel', rfl⟩ : ∃ g, fuel' = g + 1 := ⟨fuel' - 1, by omega⟩
    by_cases hi : i < a.length
    · rw [unmarshalLoop_succ hi] at h
      rw [unmarshalLoop_succ (by simp only [List.length_append]; omega)]
      exact Res.bind_settled (fun _ hp hps => unmarshalPass_append b hc hp hps)
        (fun p _ h => ih p.1 p.2 h fuel' (by omega)) h hf
    · rw [unmarshalLoop, if_neg hi] at h
      split_ifs at h
      · exact absurd h.symm hf.ne_eof
      · exact Except.noConfusion h

end Pass

/-! ## Past `a`, the loop on `a ++ b` is the loop on `b`, shifted -/

section Shift

variable (p q : Bytes)

/-- Reading `q` from `j` is reading `p ++ q` from `len(p) + j`. -/
theorem varintLoop_shift (w : Nat) {j : Int} (hj : 0 ≤ j) :
    varintLoop w (p ++ q) 0 0 (p.length + j) =
      (fun x : Nat × Int => (x.1, p.length + x.2)) <$> varintLoop w q 0 0 j := by
  have h := varintLoop_drop w (p ++ q) p.length 0 0 j hj
  rw [List.drop_left] at h
  rw [h]
  rcases varintLoop w (p ++ q) 0 0 (p.length + j) with e | ⟨v, k⟩
  · rfl
  · simp only [Res.map_ok, add_sub_cancel]

theorem slice_shift {lo len : Int} (h0 : 0 ≤ lo) :
    slice (p ++ q) (p.length + lo) (p.length + lo + len) = slice q lo (lo + len) := by
  unfold slice
  by_cases h : 0 ≤ lo ∧ lo ≤ lo + len ∧ lo + len ≤ q.length
  · rw [if_pos ⟨by omega, by omega, by simp only [List.length_append]; push_cast; omega⟩, if_pos h,
      show (p.length + lo).toNat = p.length + lo.toNat by omega, List.drop_append,
      show (p.length : Int) + lo + len - (p.length + lo) = lo + len - lo by ring]
  · rw [if_neg (by simp only [List.length_append]; push_cast; omega), if_neg h]

variable {p q}

theorem stringCase_shift {field : String} {wt : Nat} {j : Int}
    (hfit : wt = 2 → LengthAt p.length q j) (hj : 0 ≤ j) :
    stringCase field wt (p ++ q) (p.length + j) =
      (fun r : Bytes × Int => (r.1, p.length + r.2)) <$> stringCase field wt q j := by
  have hpq := List.length_append p q
  unfold stringCase
  by_cases hw : wt ≠ 2
  · rw [if_pos hw, if_pos hw]
    rfl
  rw [if_neg hw, if_neg hw, pure_bind, pure_bind, varintLoop_shift p q 64 hj]
  rcases hv : varintLoop 64 q 0 0 j with e | ⟨v, j1⟩
  · rfl
  obtain ⟨hj1, hj1l, hv64⟩ := (varintLoop_returns 64 q 0 0 j hj (by decide)).2 _ hv
  rcases hfit (by omega) v j1 hv with hsmall | hbig
  · have hv' : goInt (v : Nat) = v := goInt_natCast (by omega)
    have hpv : goInt ((p.length : Int) + j1 + v) = p.length + j1 + v :=
      goInt_of_lt (by omega) (by omega)
    have hqv : goInt (j1 + v) = j1 + v := goInt_of_lt (by omega) (by omega)
    have hneg : ¬ (v : Int) < 0 := by omega
    rw [Res.map_ok, Res.ok_bind, Res.ok_bind]
    dsimp only
    rw [hv', if_neg hneg, if_neg hneg, pure_bind, pure_bind, hpv, hqv]
    by_cases hpost : (q.length : Int) < j1 + v
    · rw [if_pos (show ((p ++ q).length : Int) < p.length + j1 + v by omega), if_pos hpost]
      rfl
    · rw [if_neg (show ¬ ((p ++ q).length : Int) < p.length + j1 + v by omega), if_neg hpost,
        slice_shift p q (by omega)]
      rcases slice q j1 (j1 + v) with e | s
      · rfl
      · simp only [Res.ok_bind, Res.pure_eq, Res.map_ok, add_assoc]
  · rw [Res.map_ok, Res.ok_bind, Res.ok_bind]
    dsimp only
    rw [if_pos (goInt_neg hbig hv64), if_pos (goInt_neg hbig hv64)]
    rfl

theorem varint32Case_shift {field : String} {wt : Nat} {j : Int} (hj : 0 ≤ j) :
    varint32Case field wt (p ++ q) (p.length + j) =
      (fun r : Nat × Int => (r.1, p.length + r.2)) <$> varint32Case field wt q j := by
  unfold varint32Case
  by_cases hw : wt ≠ 0
  · rw [if_pos hw, if_pos hw]
    rfl
  rw [if_neg hw, if_neg hw, pure_bind, pure_bind, varintLoop_shift p q 32 hj]

/-- `default` from `len(p) + j` on `p ++ q` steps over the same field as from `j` on `q`:
both call `skipControl` on the same bytes, and neither sum wraps. -/
theorem skipCase_shift (hl : (p ++ q).length < 2 ^ 62) {j : Int} (hj : 0 ≤ j) (hjq : j < q.length)
    (hb : fieldFits (p.length + j.toNat) (2 * (q.length - j.toNat) + 1) (q.drop j.toNat) = true) :
    skipCase (p ++ q) (p.length + j) = ((p.length : Int) + ·) <$> skipCase q j := by
  have hpq := List.length_append p q
  obtain ⟨n, rfl⟩ := Int.eq_ofNat_of_zero_le hj
  have hrest : (q.drop n).length = q.length - n := List.length_drop _ _
  have hb' : fieldFits (p.length + n) (2 * (q.drop n).length + 1) (q.drop n) = true := by
    rw [hrest]; simpa using hb
  unfold skipCase skipControl
  rw [← Nat.cast_add, slice_drop (by omega), slice_drop (by omega), List.drop_append, Res.ok_bind,
    Res.ok_bind]
  rcases hk : skipControlAux (2 * (q.drop n).length + 1) (q.drop n) with e | skippy
  · rfl
  have hsk := (skipControlAux_returns _ _ _ (by omega) le_rfl (by omega) hb').2 _ hk
  have hpk : goInt (((p.length + n : Nat) : Int) + skippy) = (p.length + n : Nat) + skippy :=
    goInt_of_lt (by omega) (by omega)
  have hqk : goInt ((n : Int) + skippy) = n + skippy := goInt_of_lt (by omega) (by omega)
  have hneg : ¬ skippy < 0 := by omega
  simp only [Res.ok_bind, hpk, hqk, if_neg hneg, pure_bind]
  by_cases hpost : (q.length : Int) < n + skippy
  · rw [if_pos (show ((p ++ q).length : Int) < ((p.length + n : Nat) : Int) + skippy by omega),
      if_pos hpost]
    rfl
  · rw [if_neg (show ¬ ((p ++ q).length : Int) < ((p.length + n : Nat) : Int) + skippy by omega),
      if_neg hpost]
    simp only [Res.pure_eq, Res.map_ok, Nat.cast_add, add_assoc]

end Shift

section Loop

variable {M : Type} {name : String} {fc : FieldCase M}

/-- A message's cases on `p ++ q` from `len(p) + j` are its cases on `q` from `j`, the index
shifted, when a length-delimited field's length, after `p`, ends before `2^63`. -/
def CasesShift {M : Type} (fc : FieldCase M) : Prop :=
  ∀ n wt (p q : Bytes) (j : Int) m, (wt = 2 → LengthAt p.length q j) → 0 ≤ j →
    fc n wt (p ++ q) (p.length + j) m =
      (fc n wt q j m).map fun r => (fun x : Int × M => (p.length + x.1, x.2)) <$> r

/-- Where the fields' lengths fit, the loop's result does not depend on its fuel, once the
fuel exceeds the bytes left. -/
theorem unmarshalLoop_fuel {d : Bytes} {base : Nat} (hl : base + d.length < 2 ^ 62)
    (hc : CasesAdvance fc base d) (hs : CasesSkip fc d) :
    ∀ (f g w : Nat) (i : Int) (m : M), 0 ≤ i → i ≤ d.length → d.length < i + f →
      d.length < i + g → d.length < i + w → fieldsFit base d w i = true →
      unmarshalLoop name fc d f i m = unmarshalLoop name fc d g i m
  | 0, _, _, i, _, _, _, hf, _, _, _ => absurd hf (by omega)
  | _ + 1, 0, _, i, _, _, _, _, hg, _, _ => absurd hg (by omega)
  | f + 1, g + 1, w, i, m, h0, hi, hf, hg, hwl, hw => by
    by_cases hlt : i < d.length
    · obtain ⟨w, rfl⟩ : ∃ w', w = w' + 1 := ⟨w - 1, by omega⟩
      rw [unmarshalLoop_succ hlt, unmarshalLoop_succ hlt]
      rcases hp : unmarshalPass name fc d i m with e | ⟨i1, m1⟩
      · rfl
      have := (unmarshalPass_fits hl hc hs h0 hlt hw).2 _ hp
      exact unmarshalLoop_fuel hl hc hs f g w i1 m1 (by omega) this.2.1 (by omega) (by omega)
        (by omega) this.2.2
    · rw [unmarshalLoop, unmarshalLoop, if_neg hlt, if_neg hlt]

variable {p q : Bytes} (hl : (p ++ q).length < 2 ^ 62)
include hl

theorem unmarshalPass_shift (hc : CasesShift fc) {j : Int} {m : M} {w : Nat} (hj : 0 ≤ j)
    (hjq : j < q.length) (hw : fieldsFit p.length q (w + 1) j = true) :
    unmarshalPass name fc (p ++ q) (p.length + j) m =
      (fun r : Int × M => (p.length + r.1, r.2)) <$> unmarshalPass name fc q j m := by
  obtain ⟨hfield, -⟩ := fieldsFit_succ hw hj hjq
  unfold unmarshalPass
  rw [varintLoop_shift p q 64 hj]
  rcases hv : varintLoop 64 q 0 0 j with e | ⟨wire, j1⟩
  · rfl
  have hj1 := ((varintLoop_returns 64 q 0 0 j hj (by decide)).2 _ hv).1
  simp only [Res.map_ok, Res.ok_bind]
  by_cases h4 : wire &&& 0x7 = 4
  · rw [if_pos h4, if_pos h4]
    rfl
  rw [if_neg h4, if_neg h4, pure_bind, pure_bind]
  by_cases hn : goInt32 (wire >>> 3 : Nat) ≤ 0
  · rw [if_pos hn, if_pos hn]
    rfl
  have hfit : wire &&& 0x7 = 2 → LengthAt p.length q j1 := fun h2 =>
    fieldFits_length hfield (by rw [Int.toNat_of_nonneg hj]; exact hv)
      (by rw [← and_seven]; exact h2)
  rw [if_neg hn, if_neg hn, pure_bind, pure_bind, hc _ _ p q j1 m hfit (by omega)]
  rcases fc (goInt32 (wire >>> 3 : Nat)) (wire &&& 0x7) q j1 m with _ | r
  · rw [Option.map_none', skipCase_shift hl hj hjq hfield]
    rcases skipCase q j with e | k <;> rfl
  · rfl

/-- From `len(p) + j` the loop on `p ++ q` is the loop on `q` from `j`, with the same fuel,
where `q`'s lengths, after `p`, fit. -/
theorem unmarshalLoop_shift (hc : CasesShift fc) (hadv : CasesAdvance fc p.length q)
    (hs : CasesSkip fc q) :
    ∀ (fuel w : Nat) (j : Int) (m : M), 0 ≤ j → q.length < j + w →
      fieldsFit p.length q w j = true →
      unmarshalLoop name fc (p ++ q) fuel (p.length + j) m = unmarshalLoop name fc q fuel j m
  | 0, _, _, _, _, _, _ => rfl
  | fuel + 1, w, j, m, hj, hwl, hw => by
    have hpq := List.length_append p q
    by_cases hjq : j < q.length
    · obtain ⟨w, rfl⟩ : ∃ w', w = w' + 1 := ⟨w - 1, by omega⟩
      rw [unmarshalLoop_succ (by omega), unmarshalLoop_succ hjq,
        unmarshalPass_shift hl hc hj hjq hw]
      rcases hp : unmarshalPass name fc q j m with e | ⟨j1, m1⟩
      · rfl
      have := (unmarshalPass_fits (by omega) hadv hs hj hjq hw).2 _ hp
      simp only [Res.map_ok, Res.ok_bind]
      exact unmarshalLoop_shift hc hadv hs fuel w j1 m1 (by omega) (by omega) this.2.2
    · rw [unmarshalLoop, unmarshalLoop, if_neg (by omega), if_neg hjq]
      by_cases hgt : (q.length : Int) < j
      · rw [if_pos (by omega), if_pos hgt]
      · rw [if_neg (by omega), if_neg hgt]

end Loop

/-! ## The merge law -/

section Merge

variable {M : Type} {name : String} {fc : FieldCase M} {a b : Bytes}

/-- The merge law of one message's loop: on `a ++ b` it is the loop on `a`, then the loop on
`b` from the message the first returned. -/
theorem unmarshalLoop_merge (hc : CasesAppend fc) (hs : CasesShift fc) (hce : CasesEnd fc a)
    (hadv : CasesAdvance fc a.length b) (hsk : CasesSkip fc b) (hl : (a ++ b).length < 2 ^ 62)
    (hb : LengthsFit a.length b) {m m' : M}
    (h : unmarshalLoop name fc a (a.length + 1) 0 m = .ok m') :
    unmarshalLoop name fc (a ++ b) ((a ++ b).length + 1) 0 m =
      unmarshalLoop name fc b (b.length + 1) 0 m' := by
  have hpq := List.length_append a b
  obtain ⟨g, hg, heq⟩ := unmarshalLoop_append b hc hce (by omega) _ 0 m h (b.length + 1)
  have hshift : unmarshalLoop name fc (a ++ b) g (a.length + 0) m' =
      unmarshalLoop name fc b g 0 m' :=
    unmarshalLoop_shift hl hs hadv hsk g (b.length + 1) 0 m' le_rfl (by omega) hb
  rw [add_zero] at hshift
  rw [show (a ++ b).length + 1 = b.length + 1 + ((a.length : Int) - 0).toNat by omega, heq, hshift]
  exact unmarshalLoop_fuel (by omega) hadv hsk g _ (b.length + 1) 0 m' le_rfl (by omega)
    (by omega) (by omega) (by omega) hb

end Merge

theorem Command.cases_append : CasesAppend Command.fieldCase := by
  intro n wt a b i m
  unfold Command.fieldCase
  split <;> refine ⟨fun r h hs => ?_, fun h => ?_⟩ <;> first
    | exact Option.noConfusion h
    | exact congrArg some (Res.bind_settled (fun _ hv hvs => stringCase_append b hv hvs) (fun _ _ h => h)
        (Option.some.inj h) hs)
    | exact congrArg some (Res.bind_settled (fun _ hv hvs => varint32Case_append b hv hvs) (fun _ _ h => h)
        (Option.some.inj h) hs)
    | rfl

theorem Node.cases_append : CasesAppend Node.fieldCase := by
  intro n wt a b i m
  unfold Node.fieldCase
  split <;> refine ⟨fun r h hs => ?_, fun h => ?_⟩ <;> first
    | exact Option.noConfusion h
    | exact congrArg some (Res.bind_settled (fun _ hv hvs => stringCase_append b hv hvs) (fun _ _ h => h)
        (Option.some.inj h) hs)
    | exact congrArg some (Res.bind_settled (fun _ hv hvs => varint32Case_append b hv hvs) (fun _ _ h => h)
        (Option.some.inj h) hs)
    | rfl

theorem Unsubscribe.cases_append : CasesAppend Unsubscribe.fieldCase := by
  intro n wt a b i m
  unfold Unsubscribe.fieldCase
  split <;> refine ⟨fun r h hs => ?_, fun h => ?_⟩ <;> first
    | exact Option.noConfusion h
    | exact congrArg some (Res.bind_settled (fun _ hv hvs => stringCase_append b hv hvs) (fun _ _ h => h)
        (Option.some.inj h) hs)
    | rfl

theorem Disconnect.cases_append : CasesAppend Disconnect.fieldCase := by
  intro n wt a b i m
  unfold Disconnect.fieldCase
  split <;> refine ⟨fun r h hs => ?_, fun h => ?_⟩ <;> first
    | exact Option.noConfusion h
    | exact congrArg some (Res.bind_settled (fun _ hv hvs => stringCase_append b hv hvs) (fun _ _ h => h)
        (Option.some.inj h) hs)
    | rfl

theorem Command.cases_shift : CasesShift Command.fieldCase := by
  intro n wt p q j m hfit hj
  unfold Command.fieldCase
  split <;> first
    | (rw [stringCase_shift hfit hj]
       exact congrArg some (Res.map_bind_comm _ _ _ _ fun ⟨_, _⟩ => rfl))
    | (rw [varint32Case_shift hj]
       exact congrArg some (Res.map_bind_comm _ _ _ _ fun ⟨_, _⟩ => rfl))
    | rfl

theorem Node.cases_shift : CasesShift Node.fieldCase := by
  intro n wt p q j m hfit hj
  unfold Node.fieldCase
  split <;> first
    | (rw [stringCase_shift hfit hj]
       exact congrArg some (Res.map_bind_comm _ _ _ _ fun ⟨_, _⟩ => rfl))
    | (rw [varint32Case_shift hj]
       exact congrArg some (Res.map_bind_comm _ _ _ _ fun ⟨_, _⟩ => rfl))
    | rfl

theorem Unsubscribe.cases_shift : CasesShift Unsubscribe.fieldCase := by
  intro n wt p q j m hfit hj
  unfold Unsubscribe.fieldCase
  split <;> first
    | (rw [stringCase_shift hfit hj]
       exact congrArg some (Res.map_bind_comm _ _ _ _ fun ⟨_, _⟩ => rfl))
    | rfl

theorem Disconnect.cases_shift : CasesShift Disconnect.fieldCase := by
  intro n wt p q j m hfit hj
  unfold Disconnect.fieldCase
  split <;> first
    | (rw [stringCase_shift hfit hj]
       exact congrArg some (Res.map_bind_comm _ _ _ _ fun ⟨_, _⟩ => rfl))
    | rfl

/-- When `Unmarshal(a)` into `m` succeeds with `m'`, `Unmarshal(a ++ b)` into `m` is
`Unmarshal(b)` into `m'`, for each of the four messages, on slices shorter than `2^62`
whose second part's length prefixes, placed after `a`, end before `2^63`. -/
theorem unmarshal_append (a b : Bytes) (hl : (a ++ b).length < 2 ^ 62)
    (hb : LengthsFit a.length b) :
    (∀ m m' : Command, m.unmarshal a = .ok m' → m.unmarshal (a ++ b) = m'.unmarshal b) ∧
    (∀ m m' : Node, m.unmarshal a = .ok m' → m.unmarshal (a ++ b) = m'.unmarshal b) ∧
    (∀ m m' : Unsubscribe, m.unmarshal a = .ok m' → m.unmarshal (a ++ b) = m'.unmarshal b) ∧
    (∀ m m' : Disconnect, m.unmarshal a = .ok m' → m.unmarshal (a ++ b) = m'.unmarshal b) :=
  ⟨fun _ _ => unmarshalLoop_merge Command.cases_append Command.cases_shift Command.cases_end
      Command.cases_advance Command.cases_skip hl hb,
    fun _ _ => unmarshalLoop_merge Node.cases_append Node.cases_shift Node.cases_end
      Node.cases_advance Node.cases_skip hl hb,
    fun _ _ => unmarshalLoop_merge Unsubscribe.cases_append Unsubscribe.cases_shift
      Unsubscribe.cases_end Unsubscribe.cases_advance Unsubscribe.cases_skip hl hb,
    fun _ _ => unmarshalLoop_merge Disconnect.cases_append Disconnect.cases_shift
      Disconnect.cases_end Disconnect.cases_advance Disconnect.cases_skip hl hb⟩

unseal varintLoop in
/-- The law for two `Disconnect` encodings, of the users "A" and "Иван_42". The second
one's UTF-8 payload, read from its first byte, would be a varint in `[2^62, 2^63)`; only
the field's length prefix is a length. -/
theorem unmarshal_append_users :
    let a : Bytes := [0x0a, 0x01, 0x41]
    let b : Bytes :=
      [0x0a, 0x0b, 0xd0, 0x98, 0xd0, 0xb2, 0xd0, 0xb0, 0xd0, 0xbd, 0x5f, 0x34, 0x32]
    ((a ++ b).length < 2 ^ 62 ∧ LengthsFit a.length b) ∧
    (∀ m m' : Command, m.unmarshal a = .ok m' → m.unmarshal (a ++ b) = m'.unmarshal b) ∧
    (∀ m m' : Node, m.unmarshal a = .ok m' → m.unmarshal (a ++ b) = m'.unmarshal b) ∧
    (∀ m m' : Unsubscribe, m.unmarshal a = .ok m' → m.unmarshal (a ++ b) = m'.unmarshal b) ∧
    (∀ m m' : Disconnect, m.unmarshal a = .ok m' → m.unmarshal (a ++ b) = m'.unmarshal b) :=
  ⟨⟨by decide, by decide⟩, unmarshal_append _ _ (by decide) (by decide)⟩

unseal varintLoop in
/-- Without the bound on `b`'s lengths the law fails: `b` declares a `User` of `2^63 - 11`
bytes, which fits `b` alone (an `unexpected EOF`), but after `a` the sum `iNdEx + len`
wraps and the slice panics. -/
example :
    let a : Bytes := [0x0a, 0x00]
    let b : Bytes := [0x0a, 0xf5, 0xff, 0xff, 0xff, 0xff, 0xff, 0xff, 0xff, 0x7f]
    LengthsFit 0 b ∧ ¬ LengthsFit a.length b ∧
    Disconnect.unmarshal {} a = .ok {} ∧
    Disconnect.unmarshal {} b = .error (.error .unexpectedEOF) ∧
    Disconnect.unmarshal {} (a ++ b) = .error (.panic .sliceOutOfRange) := by
  decide

/-! ## A fault found on `a` is final -/

/-- The decoder that ends on `a` with a fault other than running off its end ends with the
same fault on `a ++ b`. -/
theorem unmarshalLoop_fault_final {M : Type} {name : String} {fc : FieldCase M} {a : Bytes}
    (b : Bytes) (hc : CasesAppend fc) {m : M} {f : Fault}
    (hend : Ends (unmarshalLoop name fc a (a.length + 1) 0 m))
    (h : unmarshalLoop name fc a (a.length + 1) 0 m = .error f) (hf : f ≠ .error .unexpectedEOF) :
    unmarshalLoop name fc (a ++ b) ((a ++ b).length + 1) 0 m = .error f := by
  refine unmarshalLoop_append_fault b hc ⟨hf, fun he => ?_⟩ _ 0 m h _ (by simp)
  rw [h, he] at hend
  exact hend

/-- A fault is final once found, for each of the four messages: when `Unmarshal(a)` into `m`
returns an error other than `io.ErrUnexpectedEOF`, or panics, `Unmarshal(a ++ b)` into `m`
ends the same way, whatever `b` holds. Only `a`'s length, an `int`, is bounded. -/
theorem unmarshal_fault_final (a b : Bytes) (hl : a.length < 2 ^ 63) :
    (∀ (m : Command) (f : Fault), m.unmarshal a = .error f → f ≠ .error .unexpectedEOF →
      m.unmarshal (a ++ b) = .error f) ∧
    (∀ (m : Node) (f : Fault), m.unmarshal a = .error f → f ≠ .error .unexpectedEOF →
      m.unmarshal (a ++ b) = .error f) ∧
    (∀ (m : Unsubscribe) (f : Fault), m.unmarshal a = .error f → f ≠ .error .unexpectedEOF →
      m.unmarshal (a ++ b) = .error f) ∧
    (∀ (m : Disconnect) (f : Fault), m.unmarshal a = .error f → f ≠ .error .unexpectedEOF →
      m.unmarshal (a ++ b) = .error f) :=
  ⟨fun m _ => unmarshalLoop_fault_final b Command.cases_append ((decoders_end a hl).2.1 m),
    fun m _ => unmarshalLoop_fault_final b Node.cases_append ((decoders_end a hl).2.2.1 m),
    fun m _ => unmarshalLoop_fault_final b Unsubscribe.cases_append
      ((decoders_end a hl).2.2.2.1 m),
    fun m _ => unmarshalLoop_fault_final b Disconnect.cases_append
      ((decoders_end a hl).2.2.2.2 m)⟩

unseal varintLoop in
/-- `User` sent as a varint, wire type 0, is a wrong wire type for `Disconnect`, and stays one
whatever follows it. -/
theorem unmarshal_fault_final_wire_type :
    Disconnect.unmarshal {} ([0x08, 0x01] ++ [0x0a, 0x01, 0x41]) =
      .error (.error (.wrongWireType 0 "User")) :=
  (unmarshal_fault_final [0x08, 0x01] [0x0a, 0x01, 0x41] (by decide)).2.2.2 {} _ (by decide)
    (by decide)

/-! ## Decoding encodings one after another merges them -/

@[simp] theorem bytesField_eq_nil {key : UInt8} {s : Bytes} : bytesField key s = [] ↔ s = [] :=
  ⟨eq_nil_of_bytesField, fun h => by simp [bytesField, h]⟩

@[simp] theorem varintField_eq_nil {key : UInt8} {v : Nat} : varintField key v = [] ↔ v = 0 :=
  ⟨eq_zero_of_varintField, fun h => by simp [varintField, h]⟩

@[simp] theorem rawField_ne_nil {key : UInt8} {p : Bytes} : rawField key p ≠ [] :=
  List.cons_ne_nil _ _

@[simp] theorem toNat_uint32_eq_zero {x : UInt32} : x.toNat = 0 ↔ x = 0 :=
  ⟨eq_zero_of_toNat_uint32, fun h => by simp [h]⟩

theorem flatten_map_encode {M : Type} (chunks : M → List (Chunk M)) (enc : M → Bytes)
    (henc : ∀ x, enc x = ((chunks x).map Chunk.bytes).flatten) :
    ∀ xs : List M, (xs.map enc).flatten = ((xs.map chunks).flatten.map Chunk.bytes).flatten
  | [] => rfl
  | x :: xs => by
    rw [List.map_cons, List.flatten_cons, List.map_cons, List.flatten_cons, List.map_append,
      List.flatten_append, henc, flatten_map_encode chunks enc henc xs]

/-- The loop over encodings written one after another, each the bytes of its chunks, reads
the chunks of each in turn. -/
theorem unmarshalLoop_encodings {M : Type} {name : String} {fc : FieldCase M}
    (chunks : M → List (Chunk M)) (enc : M → Bytes)
    (henc : ∀ x, enc x = ((chunks x).map Chunk.bytes).flatten)
    (hr : ∀ d : Bytes, d.length < 2 ^ 63 → ∀ x, ∀ c ∈ chunks x, c.Reads name fc d)
    (xs : List M) (m : M) (hl : (xs.map enc).flatten.length < 2 ^ 63) :
    unmarshalLoop name fc (xs.map enc).flatten ((xs.map enc).flatten.length + 1) 0 m =
      .ok (xs.foldl (fun m x => Chunk.run (chunks x) m) m) := by
  have hd := flatten_map_encode chunks enc henc xs
  have h := unmarshalLoop_run name fc _ (xs.map chunks).flatten 0
    ((xs.map enc).flatten.length + 1) m
    (fun c hc => by
      obtain ⟨_, hx, hc⟩ := List.mem_flatten.1 hc
      obtain ⟨x, -, rfl⟩ := List.mem_map.1 hx
      exact hr _ hl x c hc)
    (by rw [List.drop_zero, ← hd]) (Nat.zero_le _) (by omega)
  rw [Nat.cast_zero, Chunk.run, List.foldl_flatten, List.foldl_map] at h
  exact h

/-- `y`'s encoding decoded into `x`: `UID` and `Method` replace `x`'s when set; `Params`,
which `MarshalTo` writes even when empty, goes through `(*proto.Raw).Unmarshal`, which also
keeps `x`'s when `y`'s is empty. -/
def Command.merge (x y : Command) : Command where
  uid := if y.uid = [] then x.uid else y.uid
  method := if y.method = 0 then x.method else y.method
  params := rawUnmarshal x.params y.params

/-- `y`'s encoding decoded into `x`: every field `y` sets replaces `x`'s. -/
def Node.merge (x y : Node) : Node where
  uid := if y.uid = [] then x.uid else y.uid
  name := if y.name = [] then x.name else y.name
  version := if y.version = [] then x.version else y.version
  numClients := if y.numClients = 0 then x.numClients else y.numClients
  numUsers := if y.numUsers = 0 then x.numUsers else y.numUsers
  numChannels := if y.numChannels = 0 then x.numChannels else y.numChannels
  uptime := if y.uptime = 0 then x.uptime else y.uptime

/-- `y`'s encoding decoded into `x`: every field `y` sets replaces `x`'s. -/
def Unsubscribe.merge (x y : Unsubscribe) : Unsubscribe where
  channel := if y.channel = [] then x.channel else y.channel
  user := if y.user = [] then x.user else y.user

/-- `y`'s encoding decoded into `x`: `User` replaces `x`'s when set. -/
def Disconnect.merge (x y : Disconnect) : Disconnect where
  user := if y.user = [] then x.user else y.user

theorem Command.run_chunks_merge (x y : Command) : Chunk.run y.chunks x = x.merge y := by
  simp only [Command.chunks, Chunk.run_cons, Chunk.run_nil, bytesField_eq_nil, varintField_eq_nil,
    MethodType.toUint64_eq_zero, rawField_ne_nil, if_false, Command.merge]
  split_ifs <;> rfl

attribute [ext] Node

/-- Field by field: each of `Node`'s seven chunks sets one field. -/
theorem Node.run_chunks_merge (x y : Node) : Chunk.run y.chunks x = x.merge y := by
  simp only [Node.chunks, Chunk.run_cons, Chunk.run_nil, bytesField_eq_nil, varintField_eq_nil,
    toNat_uint32_eq_zero]
  ext1
  · simp only [apply_ite Node.uid, ite_self, Node.merge]
  · simp only [apply_ite Node.name, ite_self, Node.merge]
  · simp only [apply_ite Node.version, ite_self, Node.merge]
  · simp only [apply_ite Node.numClients, ite_self, Node.merge]
  · simp only [apply_ite Node.numUsers, ite_self, Node.merge]
  · simp only [apply_ite Node.numChannels, ite_self, Node.merge]
  · simp only [apply_ite Node.uptime, ite_self, Node.merge]

theorem Unsubscribe.run_chunks_merge (x y : Unsubscribe) :
    Chunk.run y.chunks x = x.merge y := by
  simp only [Unsubscribe.chunks, Chunk.run_cons, Chunk.run_nil, bytesField_eq_nil,
    Unsubscribe.merge]
  split_ifs <;> rfl

theorem Disconnect.run_chunks_merge (x y : Disconnect) : Chunk.run y.chunks x = x.merge y := by
  simp only [Disconnect.chunks, Chunk.run_cons, Chunk.run_nil, bytesField_eq_nil,
    Disconnect.merge]
  split_ifs <;> rfl

/-- Decoding the encodings of `x₁, …, xₙ`, written one after another, into `m` merges them
into `m` in turn, for each of the four messages: a field an encoding carries replaces the
value before it, the others stay. Only the total length, an `int`, is bounded. -/
theorem unmarshal_encodings :
    (∀ (m : Command) (xs : List Command), (xs.map Command.encode).flatten.length < 2 ^ 63 →
      m.unmarshal (xs.map Command.encode).flatten = .ok (xs.foldl Command.merge m)) ∧
    (∀ (m : Node) (xs : List Node), (xs.map Node.encode).flatten.length < 2 ^ 63 →
      m.unmarshal (xs.map Node.encode).flatten = .ok (xs.foldl Node.merge m)) ∧
    (∀ (m : Unsubscribe) (xs : List Unsubscribe),
      (xs.map Unsubscribe.encode).flatten.length < 2 ^ 63 →
      m.unmarshal (xs.map Unsubscribe.encode).flatten = .ok (xs.foldl Unsubscribe.merge m)) ∧
    (∀ (m : Disconnect) (xs : List Disconnect),
      (xs.map Disconnect.encode).flatten.length < 2 ^ 63 →
      m.unmarshal (xs.map Disconnect.encode).flatten = .ok (xs.foldl Disconnect.merge m)) := by
  refine ⟨fun m xs hl => ?_, fun m xs hl => ?_, fun m xs hl => ?_, fun m xs hl => ?_⟩
  · rw [Command.unmarshal, unmarshalLoop_encodings Command.chunks Command.encode
      (fun x => x.encode_eq_fields) (fun _ hl x => x.chunks_read hl) xs m hl]
    simp only [Command.run_chunks_merge]
  · rw [Node.unmarshal, unmarshalLoop_encodings Node.chunks Node.encode
      (fun x => x.encode_eq_fields) (fun _ hl x => x.chunks_read hl) xs m hl]
    simp only [Node.run_chunks_merge]
  · rw [Unsubscribe.unmarshal, unmarshalLoop_encodings Unsubscribe.chunks Unsubscribe.encode
      (fun x => x.encode_eq_fields) (fun _ hl x => x.chunks_read hl) xs m hl]
    simp only [Unsubscribe.run_chunks_merge]
  · rw [Disconnect.unmarshal, unmarshalLoop_encodings Disconnect.chunks Disconnect.encode
      (fun x => x.encode_eq_fields) (fun _ hl x => x.chunks_read hl) xs m hl]
    simp only [Disconnect.run_chunks_merge]

unseal varint in
/-- Two encodings in a row, for each message: the second `Command` sets `Method`, and its
`Params`, written but empty, leaves the first's; the second `Node` leaves `Uptime` as it
was. -/
theorem unmarshal_encodings_pairs :
    Command.unmarshal {} ([{ uid := [0x41], method := 3, params := [7] }, { method := 5 }].map
      Command.encode).flatten = .ok { uid := [0x41], method := 5, params := [7] } ∧
    Node.unmarshal {} ([{ name := [0x6e], uptime := 300 }, { numUsers := 2 }].map
      Node.encode).flatten = .ok { name := [0x6e], numUsers := 2, uptime := 300 } ∧
    Unsubscribe.unmarshal {} ([{ channel := [0x63] }, { user := [0x75] }].map
      Unsubscribe.encode).flatten = .ok { channel := [0x63], user := [0x75] } ∧
    Disconnect.unmarshal {} ([{ user := [0x75] }, {}].map Disconnect.encode).flatten =
      .ok { user := [0x75] } :=
  ⟨(unmarshal_encodings.1 {} _ (by decide)).trans rfl,
    (unmarshal_encodings.2.1 {} _ (by decide)).trans rfl,
    (unmarshal_encodings.2.2.1 {} _ (by decide)).trans rfl,
    (unmarshal_encodings.2.2.2 {} _ (by decide)).trans rfl⟩

end Centrifuge.Control
