import FitSession.Proofs.Address

/-!
# The walk of a slice

The bounds of a slice count from the front once the length of the list is added to negative
ones, and are kept within the list; between them the walk takes one step after another.

* `Slice.firstPlace`, `Slice.stopPlace`: the two bounds, without regard to the order of the
  clipping;
* `Slice.exists_walk_eq`: a walk lists the terms of an arithmetic progression, up to its stop;
* `WordSlice`, `WordSlice.Walks`: the same walk in signed words of 64 bits;
* **`WordSlice.selects`**: a slice selects what it says, and no word ever wraps around.
-/

namespace FitSession
namespace Slice

/-! ## Bounds -/

/-- A bound that counts from the front once `n` is added to a negative one, kept within
`[lo, hi]`. -/
def place (n missing lo hi : Int) : Option Int → Int
  | none => missing
  | some b => max lo (min (if b < 0 then b + n else b) hi)

/-- A bound of a selection from a list of length `n`; a missing one is `up` for a step forwards
and `down` for a step backwards. -/
def placed (s : Slice) (n : Int) (bound : Option Int) (up down : Int) : Int :=
  if 0 < s.step then place n up 0 n bound else place n down (-1) (n - 1) bound

/-- The position at which the selection from a list of length `n` starts. -/
def firstPlace (s : Slice) (n : Int) : Int := s.placed n s.start 0 (n - 1)

/-- The position before which the selection from a list of length `n` stops. -/
def stopPlace (s : Slice) (n : Int) : Int := s.placed n s.stop n (-1)

/-- Clipping a bound on one side only is enough: the other side is never reached. -/
theorem clip_eq_place {n lo hi : Int} (bound : Option Int) (missing : Int) (hl : lo ≤ 0)
    (hlo : lo ≤ hi) (hn : n - 1 ≤ hi) :
    clip n bound missing lo hi = place n missing lo hi bound := by
  cases bound with
  | none => rfl
  | some b =>
    simp only [clip, place]
    split <;> omega

theorem clipped_eq_placed (s : Slice) (len : Nat) (bound : Option Int) (up down : Int) :
    s.clipped len bound up down = s.placed len bound up down := by
  unfold clipped placed
  split <;> exact clip_eq_place _ _ (by omega) (by omega) (by omega)

/-! ## Steps -/

theorem IsBefore.of_le {step stop i : Int} {k m : Nat} (hkm : k ≤ m)
    (h : IsBefore step stop (i + m * step)) : IsBefore step stop (i + k * step) := by
  unfold IsBefore at h ⊢
  obtain ⟨d, rfl⟩ := Nat.exists_eq_add_of_le hkm
  rw [Int.natCast_add, Int.add_mul] at h
  split at h
  · have : 0 ≤ (d : Int) * step := Int.mul_nonneg (by omega) (by omega)
    rw [if_pos ‹_›]
    omega
  · have : (d : Int) * step ≤ 0 := Int.mul_nonpos_of_nonneg_of_nonpos (by omega) (by omega)
    rw [if_neg ‹_›]
    omega

/-- A step that leaves the words also leaves everything before the stop. -/
theorem not_isBefore_of_not_isWord {step stop i : Int} (hi : IsWord i) (hstop : IsWord stop)
    (h : ¬ IsWord (i + step)) : ¬ IsBefore step stop (i + step) := by
  unfold IsWord at *
  unfold IsBefore
  split <;> omega

/-- A walk lists the terms of an arithmetic progression, and exactly those before its stop. -/
theorem exists_walk_eq (s : Slice) {stop i : Int} (hi : IsWord i) (hstop : IsWord stop) :
    ∃ n : Nat, s.walk stop i = (List.range n).map (fun k : Nat => i + k * s.step) ∧
      ∀ k : Nat, k < n ↔ IsBefore s.step stop (i + k * s.step) := by
  have hnext (i : Int) (k : Nat) : i + (k + 1 : Nat) * s.step = i + s.step + k * s.step := by
    rw [Int.natCast_add, Int.add_mul]
    omega
  fun_induction Slice.walk s stop i with
  | case1 i hb ih =>
    split
    · next hw =>
      obtain ⟨n, hwalk, hn⟩ := ih hw
      refine ⟨n + 1, ?_, fun k => ?_⟩
      · simp only [hwalk, List.range_succ_eq_map, List.map_cons, List.map_map, Function.comp_def,
          Nat.succ_eq_add_one, hnext, Int.natCast_zero, Int.zero_mul, Int.add_zero]
      · cases k with
        | zero => simpa using hb
        | succ k => rw [hnext, ← hn]; omega
    · next hw =>
      -- the next term is past the stop, and so are all that follow it
      have hlast := not_isBefore_of_not_isWord hi hstop hw
      refine ⟨1, by simp, fun k => ?_⟩
      cases k with
      | zero => simpa using hb
      | succ k =>
        refine iff_of_false (by omega) fun h => hlast ?_
        simpa using IsBefore.of_le (Nat.le_add_left 1 k) h
  | case2 i hb =>
    exact ⟨0, by simp, fun k => iff_of_false (Nat.not_lt_zero k) fun h => hb <| by
      simpa using IsBefore.of_le (Nat.zero_le k) h⟩

theorem isWord_firstOf (s : Slice) {len : Nat} (hlen : len < 0x8000000000000000) :
    IsWord (s.firstOf len) := by
  have := s.bounds_firstOf len
  unfold IsWord
  split at this <;> omega

theorem isWord_stopOf (s : Slice) {len : Nat} (hlen : len < 0x8000000000000000) :
    IsWord (s.stopOf len) := by
  have := s.bounds_stopOf len
  unfold IsWord
  split at this <;> omega

end Slice

/-! ## Words -/

/-- The sum of two words, where it is one. -/
def checkedAdd (a b : Int64) : Option Int64 :=
  if Slice.IsWord (a.toInt + b.toInt) then some (a + b) else none

/-- A slice whose parts are signed words of 64 bits. -/
structure WordSlice where
  start : Option Int64
  stop : Option Int64
  step : Int64
  step_ne : step ≠ 0

namespace WordSlice

/-- The slice with the same parts. -/
def toSlice (w : WordSlice) : Slice :=
  ⟨w.start.map (·.toInt), w.stop.map (·.toInt), w.step.toInt,
    fun h => w.step_ne (Int64.toInt_inj.mp h)⟩

/-- A bound within `[lo, hi]`, in words. -/
def clip (n : Int64) (bound : Option Int64) (whenMissing lo hi : Int64) : Int64 :=
  match bound with
  | none => whenMissing
  | some b => if b < 0 then max (b + n) lo else min b hi

/-- A bound that a walk over a list of length `n` can start or stop at, in words. -/
def clipped (w : WordSlice) (n : Int64) (bound : Option Int64) (up down : Int64) : Int64 :=
  if 0 < w.step then clip n bound up 0 n else clip n bound down (-1) (n - 1)

/-- The position at which the walk over a list of length `n` starts, in words. -/
def firstOf (w : WordSlice) (n : Int64) : Int64 := w.clipped n w.start 0 (n - 1)

/-- The position before which the walk over a list of length `n` stops, in words. -/
def stopOf (w : WordSlice) (n : Int64) : Int64 := w.clipped n w.stop n (-1)

/-- Whether the walk is still before `stop` at `i`, in words. -/
def IsBefore (w : WordSlice) (stop i : Int64) : Prop :=
  if 0 < w.step then i < stop else stop < i

/-- The walk in words: it lists the terms from `i` on, each the checked sum of the one before and
the step, and ends at the first that is not before `stop`, or where a sum overflows. -/
inductive Walks (w : WordSlice) (stop : Int64) : Int64 → List Int64 → Prop
  | past {i : Int64} (h : ¬ w.IsBefore stop i) : Walks w stop i []
  | overflow {i : Int64} (h : w.IsBefore stop i) (hstep : checkedAdd i w.step = none) :
      Walks w stop i [i]
  | step {i j : Int64} {l : List Int64} (h : w.IsBefore stop i)
      (hstep : checkedAdd i w.step = some j) (hl : Walks w stop j l) : Walks w stop i (i :: l)

theorem isWord_toInt (i : Int64) : Slice.IsWord i.toInt := ⟨i.le_toInt, i.toInt_lt⟩

theorem toInt_add_of_isWord {a b : Int64} (h : Slice.IsWord (a.toInt + b.toInt)) :
    (a + b).toInt = a.toInt + b.toInt := by
  rw [Int64.toInt_add]
  unfold Slice.IsWord at h
  exact Int.bmod_eq_of_le (by omega) (by omega)

theorem forward_iff (w : WordSlice) : 0 < w.step ↔ 0 < w.toSlice.step := Int64.lt_iff_toInt_lt

theorem isBefore_iff (w : WordSlice) (stop i : Int64) :
    w.IsBefore stop i ↔ Slice.IsBefore w.toSlice.step stop.toInt i.toInt := by
  unfold IsBefore Slice.IsBefore toSlice
  simp only [Int64.lt_iff_toInt_lt, Int64.toInt_zero]

/-- The walk in words ends, and lists the same positions as the walk in integers. -/
theorem exists_walks (w : WordSlice) (stop i : Int64) :
    ∃ l, w.Walks stop i l ∧ l.map (·.toInt) = w.toSlice.walk stop.toInt i.toInt := by
  generalize hx : i.toInt = x
  fun_induction Slice.walk w.toSlice stop.toInt x generalizing i with
  | case1 x hb ih =>
    subst hx
    have hbefore := (w.isBefore_iff stop i).mpr hb
    by_cases hw : Slice.IsWord (i.toInt + w.toSlice.step)
    · obtain ⟨l, hl, hmap⟩ := ih (i + w.step) (toInt_add_of_isWord hw)
      refine ⟨i :: l, .step hbefore (if_pos hw) hl, ?_⟩
      rw [if_pos hw, List.map_cons, hmap]
    · exact ⟨[i], .overflow hbefore (if_neg hw), by rw [if_neg hw]; rfl⟩
  | case2 x hb =>
    subst hx
    exact ⟨[], .past fun h => hb ((w.isBefore_iff stop i).mp h), rfl⟩

theorem toInt_max (a b : Int64) : (max a b).toInt = max a.toInt b.toInt := by
  change (if a ≤ b then b else a).toInt = _
  split
  · next h => have := Int64.le_iff_toInt_le.mp h; omega
  · next h => have := mt Int64.le_iff_toInt_le.mpr h; omega

theorem toInt_min (a b : Int64) : (min a b).toInt = min a.toInt b.toInt := by
  change (if a ≤ b then a else b).toInt = _
  split
  · next h => have := Int64.le_iff_toInt_le.mp h; omega
  · next h => have := mt Int64.le_iff_toInt_le.mpr h; omega

theorem toInt_clip {n lo hi missing : Int64} (bound : Option Int64) (hn : 0 ≤ n.toInt) :
    (clip n bound missing lo hi).toInt =
      Slice.clip n.toInt (bound.map (·.toInt)) missing.toInt lo.toInt hi.toInt := by
  cases bound with
  | none => rfl
  | some b =>
    simp only [clip, Slice.clip, Option.map_some, Int64.lt_iff_toInt_lt, Int64.toInt_zero]
    split
    · -- a negative bound and a length have a sum between them
      rw [toInt_max, toInt_add_of_isWord]
      have := b.le_toInt
      have := n.toInt_lt
      exact ⟨by omega, by omega⟩
    · exact toInt_min b hi

theorem toInt_ofNat {len : Nat} (hlen : len < 0x8000000000000000) : (Int64.ofNat len).toInt = len :=
  Int64.toInt_ofNat_of_lt (by omega)

theorem toInt_sub_one {len : Nat} (hlen : len < 0x8000000000000000) :
    (Int64.ofNat len - 1).toInt = (len : Int) - 1 := by
  rw [Int64.toInt_sub, toInt_ofNat hlen, Int64.toInt_one]
  exact Int.bmod_eq_of_le (by omega) (by omega)

theorem toInt_clipped (w : WordSlice) {len : Nat} (hlen : len < 0x8000000000000000)
    (bound : Option Int64) (up down : Int64) :
    (w.clipped (Int64.ofNat len) bound up down).toInt =
      w.toSlice.clipped len (bound.map (·.toInt)) up.toInt down.toInt := by
  have hn : 0 ≤ (Int64.ofNat len).toInt := by
    rw [toInt_ofNat hlen]
    omega
  unfold clipped Slice.clipped
  by_cases hs : 0 < w.toSlice.step
  · rw [if_pos hs, if_pos (w.forward_iff.mpr hs), toInt_clip _ hn, toInt_ofNat hlen]
    rfl
  · rw [if_neg hs, if_neg (mt w.forward_iff.mp hs), toInt_clip _ hn, toInt_sub_one hlen,
      toInt_ofNat hlen]
    rfl

theorem toInt_firstOf (w : WordSlice) {len : Nat} (hlen : len < 0x8000000000000000) :
    (w.firstOf (Int64.ofNat len)).toInt = w.toSlice.firstOf len := by
  rw [firstOf, toInt_clipped w hlen, toInt_sub_one hlen]
  rfl

theorem toInt_stopOf (w : WordSlice) {len : Nat} (hlen : len < 0x8000000000000000) :
    (w.stopOf (Int64.ofNat len)).toInt = w.toSlice.stopOf len := by
  rw [stopOf, toInt_clipped w hlen, toInt_ofNat hlen]
  rfl

theorem toNat_toUInt64 {i : Int64} (hi : 0 ≤ i.toInt) : i.toUInt64.toNat = i.toInt.toNat := by
  change 0 ≤ i.toBitVec.toInt at hi
  change i.toBitVec.toNat = i.toBitVec.toInt.toNat
  rw [BitVec.toInt_eq_toNat_cond] at hi ⊢
  split <;> omega

theorem Walks.unique {w : WordSlice} {stop i : Int64} {l l' : List Int64}
    (h : w.Walks stop i l) (h' : w.Walks stop i l') : l' = l := by
  induction h generalizing l' with
  | past hb => cases h' <;> trivial
  | overflow hb hstep => cases h' <;> simp_all
  | step hb hstep hl ih =>
    cases h' with
    | past hb' => exact absurd hb hb'
    | overflow _ hstep' => rw [hstep'] at hstep; cases hstep
    | step _ hstep' hl' =>
      rw [hstep'] at hstep
      cases hstep
      rw [ih hl']

/-! ## Selections -/

/-- What a slice says that it selects from a list of length `len`. -/
structure Selects (w : WordSlice) (len : Nat) : Prop where
  /-- The positions are the first place and its successors in steps, as long as they lie before
  the stop. -/
  terms : ∃ n : Nat,
    (w.toSlice.indices len).map Int.ofNat =
      (List.range n).map (fun k : Nat => w.toSlice.firstPlace len + k * w.step.toInt) ∧
    ∀ k : Nat, k < n ↔ Slice.IsBefore w.step.toInt (w.toSlice.stopPlace len)
      (w.toSlice.firstPlace len + k * w.step.toInt)
  /-- The walk in words ends, in one way only, and finds these positions. -/
  walks : ∃ l, (∀ l', w.Walks (w.stopOf (Int64.ofNat len)) (w.firstOf (Int64.ofNat len)) l' ↔
    l' = l) ∧ l.map (·.toUInt64.toNat) = w.toSlice.indices len
  /-- Counting a negative bound from the front never overflows. -/
  counted : ∀ b : Int64, b < 0 → (b + Int64.ofNat len).toInt = b.toInt + len
  /-- A step that overflows leads past the stop. -/
  overflow : ∀ i : Int64, ¬ Slice.IsWord (i.toInt + w.step.toInt) →
    ¬ Slice.IsBefore w.step.toInt (w.toSlice.stopPlace len) (i.toInt + w.step.toInt)
  nodup : (w.toSlice.indices len).Nodup
  lt : ∀ i ∈ w.toSlice.indices len, i < len
  /-- The positions ascend or descend, as the step says. -/
  ordered : if 0 < w.step then (w.toSlice.indices len).Pairwise (· < ·)
    else (w.toSlice.indices len).Pairwise (· > ·)

theorem exists_walks_eq (w : WordSlice) {len : Nat} (hlen : len < 0x8000000000000000) :
    ∃ l, (∀ l', w.Walks (w.stopOf (Int64.ofNat len)) (w.firstOf (Int64.ofNat len)) l' ↔ l' = l) ∧
      l.map (·.toUInt64.toNat) = w.toSlice.indices len := by
  obtain ⟨l, hl, hmap⟩ := w.exists_walks (w.stopOf (Int64.ofNat len)) (w.firstOf (Int64.ofNat len))
  rw [toInt_firstOf w hlen, toInt_stopOf w hlen] at hmap
  refine ⟨l, fun l' => ⟨hl.unique, fun h => h ▸ hl⟩, ?_⟩
  rw [Slice.indices, ← hmap, List.map_map]
  refine List.map_congr_left fun i hi => toNat_toUInt64 ?_
  exact (Slice.mem_walk_bounds (hmap ▸ List.mem_map_of_mem hi)).1

theorem ordered_indices (w : WordSlice) (len : Nat) :
    if 0 < w.step then (w.toSlice.indices len).Pairwise (· < ·)
    else (w.toSlice.indices len).Pairwise (· > ·) := by
  have h := w.toSlice.pairwise_indices len
  unfold Slice.IsBefore at h
  split
  · next hs =>
    simp only [if_pos (w.forward_iff.mp hs)] at h
    exact h.imp (by omega)
  · next hs =>
    simp only [if_neg (mt w.forward_iff.mpr hs)] at h
    exact h.imp (by omega)

/-- **A slice selects what it says.** Its positions are the terms of its progression strictly
before the stop, in order, each once, and all in the list; the walk that finds them in words of
64 bits ends, and no sum in it wraps around. -/
theorem selects (w : WordSlice) {len : Nat} (hlen : len < 0x8000000000000000) : w.Selects len := by
  have hstop := w.toSlice.isWord_stopOf hlen
  refine {
    terms := ?_
    walks := w.exists_walks_eq hlen
    counted := fun b hb => ?_
    overflow := fun i => ?_
    nodup := w.toSlice.nodup_indices len
    lt := fun i => Slice.lt_of_mem_indices
    ordered := w.ordered_indices len }
  · rw [Slice.map_cast_indices, Slice.firstPlace, Slice.stopPlace, ← Slice.clipped_eq_placed,
      ← Slice.clipped_eq_placed]
    exact w.toSlice.exists_walk_eq (w.toSlice.isWord_firstOf hlen) hstop
  · have := b.le_toInt
    have hb := Int64.lt_iff_toInt_lt.mp hb
    rw [Int64.toInt_zero] at hb
    rw [← toInt_ofNat hlen]
    exact toInt_add_of_isWord (by rw [toInt_ofNat hlen]; exact ⟨by omega, by omega⟩)
  · rw [Slice.stopPlace, ← Slice.clipped_eq_placed]
    exact Slice.not_isBefore_of_not_isWord (isWord_toInt i) hstop

/-- Five positions backwards from the fourth, in the longest step there is. -/
theorem selects_longest_step :
    5 < 0x8000000000000000 ∧ (⟨some 3, none, Int64.minValue, by decide⟩ : WordSlice).Selects 5 ∧
      (⟨some 3, none, Int64.minValue, by decide⟩ : WordSlice).toSlice.indices 5 = [3] :=
  ⟨by decide, selects _ (by decide), by decide +kernel⟩

end WordSlice
end FitSession
