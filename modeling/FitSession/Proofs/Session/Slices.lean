import FitSession.Proofs.Engine.QuasiNewton
import FitSession.Proofs.Session.Change
import FitSession.Proofs.State.Order

/-!
# Writes to slices

A write to a slice is checked as a whole. If it is accepted, it is what one write after another
would be, in whichever order these come; if it is refused, nothing has happened.

* `Column.EditsEntries`: a column that replaces one entry at a time;
* `Column.put`, `Column.EditsEntries.put_comm`: one input written to a state, and two of them;
* `Assign.Fits`, `Assign.requests`: the inputs of a write, each at its position;
* `Session.WritesSlice`: what a write to a slice does;
* **`writes_slices`**: every write to a slice of any column does so, in every session that can be
  reached.
-/

namespace FitSession

variable {σ α Item Input : Type} [Scalar α]

/-! ## One input -/

/-- The column replaces one entry at a time, by an edit that only hangs on that entry. -/
def Column.EditsEntries (c : Column α Item Input) (edit : Item → Entry α → Entry α) : Prop :=
  ∀ {i x item}, c.prepare i x = .ok item → ∀ s : ParameterState α, c.write s i item = do
    let e ← s.entryOrFail i
    pure (s.replaceEntry i e (edit item e))

theorem valueColumn_editsEntries : (valueColumn : Column α α α).EditsEntries
    fun x e => { e with value := e.limit.clamp x } := by
  intro i x item hx s
  obtain ⟨_, hcheck, hx⟩ := except_bind_eq_ok.mp hx
  cases hx
  refine (except_bind_ok hcheck).trans (except_bind_congr fun e _ => ?_)
  exact congrArg Except.ok (ParameterState.replaceEntry_of_isFixed_eq rfl).symm

theorem errorColumn_editsEntries : (errorColumn : Column α α α).EditsEntries
    fun x e => { e with error := x } := by
  intro i x item hx s
  obtain ⟨_, hcheck, hx⟩ := except_bind_eq_ok.mp hx
  cases hx
  refine (except_bind_ok hcheck).trans (except_bind_congr fun e _ => ?_)
  exact congrArg Except.ok (ParameterState.replaceEntry_of_isFixed_eq rfl).symm

theorem fixedColumn_editsEntries : (fixedColumn : Column α Bool Bool).EditsEntries
    fun on e => { e with fixed := on } := fun _ _ => rfl

theorem limitColumn_editsEntries : (limitColumn : Column α (Limit α) (LimitSpec α)).EditsEntries
    fun l e => ⟨l.clamp e.value, e.error, e.fixed || l.isDegenerate, l.lower, l.upper⟩ :=
  fun _ _ => rfl

/-- The state with an input written at a position, or as it was if that is refused. -/
def Column.put (c : Column α Item Input) (s : ParameterState α) (r : Nat × Input) :
    ParameterState α :=
  match c.prepare r.1 r.2 >>= c.write s r.1 with
  | .ok t => t
  | .error _ => s

section Put

variable {c : Column α Item Input} {edit : Item → Entry α → Entry α} {s t : ParameterState α}
  {r q : Nat × Input} {item : Item} {e : Entry α}

omit [Scalar α] in
theorem Column.put_of_ok (hx : c.prepare r.1 r.2 = .ok item) (ht : c.write s r.1 item = .ok t) :
    c.put s r = t := by
  rw [put, except_bind_ok hx, ht]

omit [Scalar α] in
theorem Column.put_of_refused {error : FitError α} (hx : c.prepare r.1 r.2 = .error error) :
    c.put s r = s := by
  rw [put, except_bind_error hx]

theorem Column.IsLawful.len_put (hc : c.IsLawful) (s : ParameterState α) (r : Nat × Input) :
    (c.put s r).len = s.len := by
  unfold put
  split
  · next t ht =>
    obtain ⟨item, -, ht⟩ := except_bind_eq_ok.mp ht
    exact hc.keeps (writeInvariant_len s.len) rfl ht
  · rfl

variable (hedit : c.EditsEntries edit)
include hedit

theorem Column.EditsEntries.put_some (hx : c.prepare r.1 r.2 = .ok item)
    (he : s.entries[r.1]? = some e) : c.put s r = s.replaceEntry r.1 e (edit item e) :=
  put_of_ok hx ((hedit hx s).trans (except_bind_ok (s.entryOrFail_eq_ok.mpr he)))

theorem Column.EditsEntries.put_none (hx : c.prepare r.1 r.2 = .ok item)
    (he : s.entries[r.1]? = none) : c.put s r = s := by
  have hfail : s.entryOrFail r.1 = .error (.outOfRange r.1 s.len) := by
    rw [ParameterState.entryOrFail, he]
  rw [put, except_bind_ok hx, hedit hx s, except_bind_error hfail]

/-- Only the entry that is meant may change. -/
theorem Column.EditsEntries.entries_put {i : Nat} (hi : i ≠ r.1) :
    (c.put s r).entries[i]? = s.entries[i]? := by
  cases hx : c.prepare r.1 r.2 with
  | error => rw [put_of_refused hx]
  | ok item =>
    cases he : s.entries[r.1]? with
    | none => rw [hedit.put_none hx he]
    | some e =>
      rw [hedit.put_some hx he, ParameterState.entries_replaceEntry,
        List.getElem?_set_ne (Ne.symm hi)]

/-- Two inputs may be written at their positions in either order. -/
theorem Column.EditsEntries.put_comm (h : r.1 ≠ q.1) (s : ParameterState α) :
    c.put (c.put s r) q = c.put (c.put s q) r := by
  cases hx : c.prepare r.1 r.2 with
  | error => rw [put_of_refused hx, put_of_refused hx]
  | ok x =>
    cases hy : c.prepare q.1 q.2 with
    | error => rw [put_of_refused hy, put_of_refused hy]
    | ok y =>
      have hr := hedit.entries_put (s := s) (r := q) h
      have hq := hedit.entries_put (s := s) (r := r) (Ne.symm h)
      cases he : s.entries[r.1]? with
      | none => rw [hedit.put_none hx he, hedit.put_none hx (hr.trans he)]
      | some e =>
        cases he' : s.entries[q.1]? with
        | none => rw [hedit.put_none hy he', hedit.put_none hy (hq.trans he')]
        | some e' =>
          rw [hedit.put_some hy (hq.trans he'), hedit.put_some hx (hr.trans he),
            hedit.put_some hx he, hedit.put_some hy he']
          exact ParameterState.replaceEntry_comm h he he'

/-- Inputs at different positions may be written in any order. -/
theorem Column.EditsEntries.foldl_put_perm {rs qs : List (Nat × Input)} (h : rs.Perm qs)
    (hrs : (rs.map Prod.fst).Nodup) (s : ParameterState α) :
    rs.foldl c.put s = qs.foldl c.put s := by
  refine h.foldl_eq' (fun r hr q hq t => ?_) s
  by_cases heq : r = q
  · rw [heq]
  · exact hedit.put_comm (fun hfst => heq (List.inj_on_of_nodup_map hrs hr hq hfst)) t

theorem Column.EditsEntries.entries_foldl_put {rs : List (Nat × Input)} {i : Nat}
    (hi : i ∉ rs.map Prod.fst) : ∀ s : ParameterState α,
      (rs.foldl c.put s).entries[i]? = s.entries[i]? := by
  induction rs with
  | nil => exact fun s => rfl
  | cons r rs ih =>
    intro s
    rw [List.map_cons, List.mem_cons, not_or] at hi
    rw [List.foldl_cons, ih hi.2, hedit.entries_put hi.1]

end Put

/-! ## The checks of a write -/

/-- There is an input for each position. -/
def Assign.Fits (positions : List Nat) : Assign Input → Prop
  | .broadcast _ => True
  | .each xs => xs.length = positions.length

/-- Each position with the input that is meant for it. -/
def Assign.requests (positions : List Nat) : Assign Input → List (Nat × Input)
  | .broadcast x => positions.map fun i => (i, x)
  | .each xs => positions.zip xs

/-- The column accepts an input for its position. -/
def Column.Accepts (c : Column α Item Input) (r : Nat × Input) : Prop :=
  ∃ item, c.prepare r.1 r.2 = .ok item

section Checks

variable {positions : List Nat} {assign : Assign Input} {c : Column α Item Input}
  {requests : List (Nat × Input)} {items : List (Nat × Item)} {s : ParameterState α}

omit [Scalar α] in
theorem Assign.inputsFor_of_fits (h : assign.Fits positions) :
    (assign.inputsFor positions : Except (FitError α) _) = .ok (assign.requests positions) := by
  cases assign with
  | broadcast x => rfl
  | each xs => exact if_pos h

theorem Assign.map_fst_requests (h : assign.Fits positions) :
    (assign.requests positions).map Prod.fst = positions := by
  cases assign with
  | broadcast x => simp [requests, Function.comp_def]
  | each xs => exact List.map_fst_zip (Nat.le_of_eq h.symm)

omit [Scalar α] in
theorem Column.accepts_of_prepareAll (h : c.prepareAll requests = .ok items) :
    ∀ r ∈ requests, c.Accepts r := by
  intro r hr
  obtain ⟨p, -, hp⟩ := exists_mem_of_mapM_ok h r hr
  obtain ⟨item, hx, -⟩ := except_bind_eq_ok.mp hp
  exact ⟨item, hx⟩

omit [Scalar α] in
/-- Inputs are refused for the first of them that is. -/
theorem Column.first_of_prepareAll {e : FitError α} (h : c.prepareAll requests = .error e) :
    ∃ pre r post, requests = pre ++ r :: post ∧ (∀ q ∈ pre, c.Accepts q) ∧
      c.prepare r.1 r.2 = .error e := by
  obtain ⟨pre, r, post, hrequests, hpre, hr⟩ := mapM_eq_error_iff.mp h
  refine ⟨pre, r, post, hrequests, fun q hq => ?_, ?_⟩
  · obtain ⟨p, hp⟩ := hpre q hq
    obtain ⟨item, hx, -⟩ := except_bind_eq_ok.mp hp
    exact ⟨item, hx⟩
  · cases hx : c.prepare r.1 r.2 with
    | error e' =>
      cases (except_bind_error hx).symm.trans hr
      rfl
    | ok item => cases (except_bind_ok hx).symm.trans hr

/-- Inputs that are accepted can be written one after another. -/
theorem Column.IsLawful.writeAll_eq (hc : c.IsLawful) (h : c.prepareAll requests = .ok items)
    (hlt : ∀ r ∈ requests, r.1 < s.len) : c.writeAll s items = .ok (requests.foldl c.put s) := by
  replace h := mapM_eq_ok_iff.mp h
  induction h generalizing s with
  | nil => rfl
  | @cons r p requests items hr _ ih =>
    obtain ⟨item, hx, hr⟩ := except_bind_eq_ok.mp hr
    cases hr
    obtain ⟨hlt, hrest⟩ := List.forall_mem_cons.mp hlt
    obtain ⟨t, ht⟩ := hc.write_ok hx s hlt
    rw [List.foldl_cons, ← ih ((hc.len_put s r).symm ▸ hrest), put_of_ok hx ht]
    exact except_bind_ok ht

end Checks

/-! ## Writes to a session -/

namespace Session

/-- The positions that a slice selects from the current state. -/
def selected (s : Session σ α) (walk : Slice) : List Nat := walk.indices s.currentState.len

/-- Inputs that are written one after another, each at its position. -/
def setEach (c : Column α Item Input) (rs : List (Nat × Input)) : Action σ α PUnit :=
  rs.forM fun (i, x) => setItem c (.index i) x

section Ends

variable {c : Column α Item Input} {s : Session σ α} {walk : Slice} {assign : Assign Input}

variable (c s assign) in
/-- How a write to a slice ends: there is not one input for each position, or one of them is
refused, or all are written. -/
inductive SliceEnds (positions : List Nat) : EStateM.Result (FitError α) (Session σ α) Unit → Prop
  | mismatch (xs : List Input) (hassign : assign = .each xs) (h : xs.length ≠ positions.length) :
    SliceEnds positions (.error (.lengthMismatch positions.length xs.length) s)
  | refused (e : FitError α) (hfits : assign.Fits positions) (pre post : List (Nat × Input))
    (r : Nat × Input) (hrequests : assign.requests positions = pre ++ r :: post)
    (hpre : ∀ q ∈ pre, c.Accepts q) (hr : c.prepare r.1 r.2 = .error e) :
    SliceEnds positions (.error e s)
  | written (hfits : assign.Fits positions) (h : ∀ r ∈ assign.requests positions, c.Accepts r) :
    SliceEnds positions
      (.ok () (s.replaceState ((assign.requests positions).foldl c.put s.currentState)))

theorem sliceEnds_setSlice (hc : c.IsLawful) :
    SliceEnds c s assign (s.selected walk) (setSlice c walk assign s) := by
  by_cases hfits : assign.Fits (s.selected walk)
  · have hinputs := Assign.inputsFor_of_fits (α := α) hfits
    cases hp : c.prepareAll (assign.requests (s.selected walk)) with
    | error e =>
      obtain ⟨pre, r, post, hrequests, hpre, hr⟩ := Column.first_of_prepareAll hp
      have hends : setSlice c walk assign s = .error e s :=
        (ofExcept_bind_ok hinputs).trans (ofExcept_bind_error hp)
      rw [hends]
      exact .refused e hfits pre post r hrequests hpre hr
    | ok items =>
      have hlt : ∀ r ∈ assign.requests (s.selected walk),
          r.1 < s.currentState.len :=
        fun r hr => Slice.lt_of_mem_indices (Assign.mem_of_inputsFor hinputs r hr)
      have hstate : (Write.slice walk assign).onState c s.registry s.currentState = .ok _ :=
        (except_bind_ok hinputs).trans ((except_bind_ok hp).trans (hc.writeAll_eq hp hlt))
      have hmirrors := mirrors_setSlice (s := s) hc walk assign
      rw [hstate] at hmirrors
      generalize setSlice c walk assign s = result at hmirrors
      cases hmirrors
      exact .written hfits (Column.accepts_of_prepareAll hp)
  · cases assign with
    | broadcast x => exact absurd trivial hfits
    | each xs =>
      have hends : setSlice c walk (.each xs) s = .error _ s := ofExcept_bind_error (if_neg hfits)
      rw [hends]
      exact .mismatch xs rfl hfits

omit [Scalar α] in
theorem resolve_index {registry : Registry} {i : Nat} (h : i < registry.len) :
    ((Key.index i).resolve registry : Except (FitError α) Nat) = .ok i := by
  have hfront : ¬(i : Int) < 0 := by omega
  have hlt : ¬((i : Int) < 0 ∨ (registry.len : Int) ≤ i) := by omega
  simp only [Key.resolve, Registry.indexAt, signedIndex, if_neg hfront, if_neg hlt,
    Int.toNat_natCast]

omit [Scalar α] in
theorem setItem_of_ge {r : Nat × Input} (h : s.registry.len ≤ r.1) :
    setItem c (.index r.1) r.2 s = .error (.outOfRange r.1 s.registry.len) s := by
  have hfront : ¬(r.1 : Int) < 0 := by omega
  refine ofExcept_bind_error ?_
  simp only [Key.resolve, Registry.indexAt, signedIndex, if_neg hfront]
  exact if_pos (.inr (Int.ofNat_le.mpr h))

theorem setItem_index (hc : c.IsLawful) {r : Nat × Input} (hr : c.Accepts r)
    (hregistry : r.1 < s.registry.len) (hlt : r.1 < s.currentState.len) :
    setItem c (.index r.1) r.2 s = .ok () (s.replaceState (c.put s.currentState r)) := by
  obtain ⟨item, hx⟩ := hr
  obtain ⟨t, ht⟩ := hc.write_ok hx s.currentState hlt
  have hmirrors := mirrors_setItem (s := s) hc (.index r.1) r.2
  rw [Write.onState, except_bind_ok (resolve_index hregistry), except_bind_ok hx, ht] at hmirrors
  rw [Column.put_of_ok hx ht]
  generalize setItem c (.index r.1) r.2 s = result at hmirrors
  cases hmirrors
  rfl

/-- Inputs that are accepted can be written to a session one after another, if their positions are
registered. -/
theorem setEach_eq (hc : c.IsLawful) {rs : List (Nat × Input)}
    (hrs : ∀ r ∈ rs, c.Accepts r ∧ r.1 < s.registry.len ∧ r.1 < s.currentState.len) :
    ∃ t, setEach c rs s = .ok () t ∧ t.currentState = rs.foldl c.put s.currentState := by
  induction rs generalizing s with
  | nil => exact ⟨s, rfl, rfl⟩
  | cons r rs ih =>
    obtain ⟨⟨hr, hregistry, hlt⟩, hrest⟩ := List.forall_mem_cons.mp hrs
    obtain ⟨t, ht, hcurrent⟩ := ih (s := s.replaceState (c.put s.currentState r)) fun q hq => by
      rw [registry_replaceState, currentState_replaceState, hc.len_put]
      exact hrest q hq
    rw [currentState_replaceState] at hcurrent
    refine ⟨t, ?_, hcurrent⟩
    change (setItem c (.index r.1) r.2 >>= fun _ => setEach c rs) s = _
    rw [bind_apply, setItem_index hc hr hregistry hlt]
    exact ht

/-- A position that is not registered is refused. -/
theorem registered_of_setEach (hc : c.IsLawful) {rs : List (Nat × Input)}
    (hrs : ∀ r ∈ rs, c.Accepts r ∧ r.1 < s.currentState.len) {u : Session σ α}
    (h : setEach c rs s = .ok () u) : ∀ r ∈ rs, r.1 < s.registry.len := by
  induction rs generalizing s with
  | nil => exact List.forall_mem_nil _
  | cons r rs ih =>
    obtain ⟨⟨hr, hlt⟩, hrest⟩ := List.forall_mem_cons.mp hrs
    change (setItem c (.index r.1) r.2 >>= fun _ => setEach c rs) s = _ at h
    rcases Nat.lt_or_ge r.1 s.registry.len with hregistry | hregistry
    · rw [bind_apply, setItem_index hc hr hregistry hlt] at h
      have hmore := ih (fun q hq => ?_) h
      · rw [registry_replaceState] at hmore
        exact List.forall_mem_cons.mpr ⟨hregistry, hmore⟩
      · rw [currentState_replaceState, hc.len_put]
        exact hrest q hq
    · rw [bind_apply, setItem_of_ge hregistry] at h
      cases h

end Ends

/-- What a write to a slice does to a session. -/
structure WritesSlice (c : Column α Item Input) (s : Session σ α) (walk : Slice)
    (assign : Assign Input) : Prop where
  /-- It succeeds if there is an input for each position and the column accepts them all. -/
  succeeds_iff : (∃ t, setSlice c walk assign s = .ok () t) ↔
    assign.Fits (s.selected walk) ∧
      ∀ r ∈ assign.requests (s.selected walk), c.Accepts r
  /-- Then the inputs written to the current state one after another, in any order, make the same
  state. -/
  state : ∀ t, setSlice c walk assign s = .ok () t →
    ∀ rs : List (Nat × Input), rs.Perm (assign.requests (s.selected walk)) →
      t.currentState = rs.foldl c.put s.currentState
  /-- So do writes of single items to the session, which succeed if their positions are
  registered. -/
  each : ∀ t, setSlice c walk assign s = .ok () t →
    ∀ rs, rs.Perm (assign.requests (s.selected walk)) →
      ((∃ u, setEach c rs s = .ok () u) ↔ ∀ i ∈ s.selected walk, i < s.registry.len) ∧
        ∀ u, setEach c rs s = .ok () u → u.currentState = t.currentState
  unselected : ∀ t, setSlice c walk assign s = .ok () t →
    ∀ i, i ∉ s.selected walk →
      t.currentState.entries[i]? = s.currentState.entries[i]?
  /-- Else it leaves the session as it was, and says that the number of inputs is wrong or what the
  column says of the first one that it refuses. -/
  refused : ∀ e t, setSlice c walk assign s = .error e t → t = s ∧
    ((∃ xs, assign = .each xs ∧ xs.length ≠ (s.selected walk).length ∧
        e = .lengthMismatch (s.selected walk).length xs.length) ∨
      assign.Fits (s.selected walk) ∧
        ∃ pre r post, assign.requests (s.selected walk) = pre ++ r :: post ∧
          (∀ q ∈ pre, c.Accepts q) ∧ c.prepare r.1 r.2 = .error e)

theorem writesSlice {c : Column α Item Input} {edit : Item → Entry α → Entry α} (hc : c.IsLawful)
    (hedit : c.EditsEntries edit) (s : Session σ α) (walk : Slice) (assign : Assign Input) :
    s.WritesSlice c walk assign := by
  have hends : SliceEnds c s assign (s.selected walk) (setSlice c walk assign s) :=
    sliceEnds_setSlice hc
  have hlt : ∀ i ∈ s.selected walk, i < s.currentState.len :=
    fun i => Slice.lt_of_mem_indices
  have hnodup : (s.selected walk).Nodup := walk.nodup_indices s.currentState.len
  have hwritten {t} (ht : setSlice c walk assign s = .ok () t) :
      assign.Fits (s.selected walk) ∧
        (∀ r ∈ assign.requests (s.selected walk), c.Accepts r) ∧
        t.currentState =
          (assign.requests (s.selected walk)).foldl c.put s.currentState := by
    rw [ht] at hends
    cases hends with
    | written hfits h => exact ⟨hfits, h, currentState_replaceState s _⟩
  have hstate {t} (ht : setSlice c walk assign s = .ok () t) {rs : List (Nat × Input)}
      (hrs : rs.Perm (assign.requests (s.selected walk))) :
      t.currentState = rs.foldl c.put s.currentState := by
    obtain ⟨hfits, -, hcurrent⟩ := hwritten ht
    rw [hcurrent]
    refine hedit.foldl_put_perm hrs.symm ?_ s.currentState
    rwa [Assign.map_fst_requests hfits]
  refine ⟨⟨fun ⟨t, ht⟩ => ⟨(hwritten ht).1, (hwritten ht).2.1⟩, fun ⟨hfits, h⟩ => ?_⟩,
    fun t ht rs hrs => hstate ht hrs, ?_, ?_, ?_⟩
  · generalize setSlice c walk assign s = result at hends
    cases hends with
    | mismatch xs hassign hne =>
      subst hassign
      exact absurd hfits hne
    | refused e _ pre post r hrequests _ hr =>
      obtain ⟨item, hx⟩ := h r (by simp [hrequests])
      rw [hr] at hx
      cases hx
    | written => exact ⟨_, rfl⟩
  · intro t ht rs hrs
    obtain ⟨hfits, haccepts, -⟩ := hwritten ht
    have hpositions : (rs.map Prod.fst).Perm (s.selected walk) :=
      Assign.map_fst_requests hfits ▸ hrs.map Prod.fst
    have hwritable : ∀ r ∈ rs, c.Accepts r ∧ r.1 < s.currentState.len := fun r hr =>
      ⟨haccepts r (hrs.mem_iff.mp hr), hlt r.1 (hpositions.mem_iff.mp (List.mem_map_of_mem hr))⟩
    have heach (hregistered : ∀ r ∈ rs, r.1 < s.registry.len) :
        ∃ u, setEach c rs s = .ok () u ∧ u.currentState = t.currentState := by
      obtain ⟨u, hu, hucurrent⟩ := setEach_eq hc fun r hr =>
        ⟨(hwritable r hr).1, hregistered r hr, (hwritable r hr).2⟩
      exact ⟨u, hu, hucurrent.trans (hstate ht hrs).symm⟩
    refine ⟨⟨fun ⟨u, hu⟩ i hi => ?_, fun hregistered => ?_⟩, fun u hu => ?_⟩
    · obtain ⟨r, hr, rfl⟩ := List.mem_map.mp (hpositions.mem_iff.mpr hi)
      exact registered_of_setEach hc hwritable hu r hr
    · obtain ⟨u, hu, -⟩ := heach fun r hr =>
        hregistered r.1 (hpositions.mem_iff.mp (List.mem_map_of_mem hr))
      exact ⟨u, hu⟩
    · obtain ⟨v, hv, hvcurrent⟩ := heach (registered_of_setEach hc hwritable hu)
      cases hu.symm.trans hv
      exact hvcurrent
  · intro t ht i hi
    obtain ⟨hfits, -, hcurrent⟩ := hwritten ht
    rw [hcurrent]
    exact hedit.entries_foldl_put ((Assign.map_fst_requests hfits).symm ▸ hi) s.currentState
  · intro e t ht
    rw [ht] at hends
    cases hends with
    | mismatch xs hassign hne => exact ⟨rfl, .inl ⟨xs, hassign, hne, rfl⟩⟩
    | refused _ hfits pre post r hrequests hpre hr =>
      exact ⟨rfl, .inr ⟨hfits, pre, r, post, hrequests, hpre, hr⟩⟩

end Session

end FitSession
