import FitSession.Proofs.Address.Walk
import FitSession.Proofs.Naming
import Mathlib

/-!
# Names and positions of a registry

A registry is made of any list of names that has one, and none twice: the table in which its names
are looked up is filled name by name, until one is already there. From then on a name and a position
say the same, whichever end the position counts from.

* `Registry.namesEquiv`: the positions and the names, one to one;
* `signedIndex_eq`, `wordIndex`, `wordIndex_eq`: signed positions, in integers and in words of 64
  bits;
* `Registry.positionalName_injective`: no name is made up twice;
* `Registry.Refuses`, `Registry.ofNames_eq_error`: the lists that are refused;
* `Registry.Addresses`, **`Registry.names_and_positions`**: what is registered, and how it is
  addressed.
-/

namespace FitSession

variable {α : Type}

/-! ## Signed positions -/

/-- A signed position stands for its remainder, from one length below zero up to the length. -/
theorem signedIndex_eq (index : Int) (len : Nat) :
    (signedIndex index len : Except (FitError α) Nat) =
      if -(len : Int) ≤ index ∧ index < len then .ok (index % len).toNat
      else .error (.outOfRange index len) := by
  by_cases hrange : -(len : Int) ≤ index ∧ index < len
  · obtain ⟨hlo, hhi⟩ := hrange
    rw [if_pos ⟨hlo, hhi⟩]
    by_cases hneg : index < 0
    · have hmod : index % len = index + len := by
        rw [← Int.add_emod_right, Int.emod_eq_of_lt (by omega) (by omega)]
      rw [hmod, signedIndex, if_pos hneg, if_neg (by omega)]
    · rw [Int.emod_eq_of_lt (by omega) hhi, signedIndex, if_neg hneg, if_neg (by omega)]
  · rw [if_neg hrange, signedIndex]
    refine if_pos ?_
    split <;> omega

/-- The position that a signed word stands for, found in words of 64 bits. -/
def wordIndex (index : Int64) (len : Nat) : Except (FitError α) Nat :=
  let total := Int64.ofNat len
  let resolved := if index < 0 then index + total else index
  if resolved < 0 ∨ total ≤ resolved then .error (.outOfRange index.toInt len)
  else .ok resolved.toUInt64.toNat

theorem toInt_neg_iff {index : Int64} : index.toInt < 0 ↔ index < 0 := by
  rw [Int64.lt_iff_toInt_lt, Int64.toInt_zero]

/-- Counting a negative word from the front never wraps around. -/
theorem toInt_add_ofNat {index : Int64} {len : Nat} (hlen : len < 0x8000000000000000)
    (hneg : index < 0) : (index + Int64.ofNat len).toInt = index.toInt + len := by
  have hlo := index.le_toInt
  have hhi := toInt_neg_iff.mpr hneg
  rw [← WordSlice.toInt_ofNat hlen]
  refine WordSlice.toInt_add_of_isWord ?_
  rw [WordSlice.toInt_ofNat hlen]
  exact ⟨by omega, by omega⟩

theorem wordIndex_eq (index : Int64) {len : Nat} (hlen : len < 0x8000000000000000) :
    (wordIndex index len : Except (FitError α) Nat) = signedIndex index.toInt len := by
  have hresolved : (if index < 0 then index + Int64.ofNat len else index).toInt =
      if index.toInt < 0 then index.toInt + len else index.toInt := by
    by_cases hneg : index < 0
    · rw [if_pos hneg, if_pos (toInt_neg_iff.mpr hneg), toInt_add_ofNat hlen hneg]
    · rw [if_neg hneg, if_neg (mt toInt_neg_iff.mp hneg)]
  simp only [wordIndex, signedIndex, ← hresolved]
  generalize (if index < 0 then index + Int64.ofNat len else index) = resolved
  have hout : (resolved < 0 ∨ Int64.ofNat len ≤ resolved) ↔
      (resolved.toInt < 0 ∨ (len : Int) ≤ resolved.toInt) := by
    rw [toInt_neg_iff, Int64.le_iff_toInt_le, WordSlice.toInt_ofNat hlen]
  by_cases h : resolved.toInt < 0 ∨ (len : Int) ≤ resolved.toInt
  · rw [if_pos (hout.mpr h), if_pos h]
  · rw [if_neg (mt hout.mp h), if_neg h, WordSlice.toNat_toUInt64 (by omega)]

namespace Registry

/-! ## Made-up names -/

/-- Numbers that are written in the same way are the same, whatever stands around them. -/
theorem positionalName_injective : Function.Injective positionalName := by
  intro i j h
  have hdigits : "x[" ++ Nat.repr i ++ "]" = "x[" ++ Nat.repr j ++ "]" := h
  rw [String.append_left_inj, String.append_right_inj] at hdigits
  exact Nat.repr_injective hdigits

theorem nodup_positionalNames (n : Nat) : ((List.range n).map positionalName).Nodup :=
  List.nodup_range.map positionalName_injective

/-! ## Names and positions -/

variable (r : Registry)

/-- The positions and the names of a registry, one to one. -/
def namesEquiv : Fin r.len ≃ {name // name ∈ r.names} := r.nodup_names.getEquiv r.names

theorem name?_namesEquiv (i : Fin r.len) : r.name? i = some (r.namesEquiv i).1 :=
  List.getElem?_eq_getElem i.2

theorem indexOf_namesEquiv (name : {name // name ∈ r.names}) :
    (r.indexOf name.1 : Except (FitError α) Nat) = .ok (r.namesEquiv.symm name).1 := by
  rw [indexOf_eq_ok, ← name?, name?_namesEquiv, Equiv.apply_symm_apply]

/-- How the names and the positions of a registry go together. -/
structure Addresses (α : Type) (r : Registry) : Prop where
  /-- From a position to its name and from a name to its position, each the way back of the
  other. -/
  oneToOne : ∃ e : Fin r.len ≃ {name // name ∈ r.names},
    (∀ i : Fin r.len, r.name? i = some (e i).1) ∧
    ∀ name, (r.indexOf name.1 : Except (FitError α) Nat) = .ok (e.symm name).1
  /-- For the table and the list of names say the same. -/
  table {name : String} {i : Nat} : r.table.lookup name = some i ↔ r.name? i = some name
  /-- There are no other positions, -/
  name?_none {i : Nat} : r.name? i = none ↔ r.len ≤ i
  /-- and no other names. -/
  unknown {name : String} : name ∉ r.names →
    (r.indexOf name : Except (FitError α) Nat) = .error (.unknownName name)
  contains {name : String} : r.contains name = true ↔ name ∈ r.names
  /-- The signed positions that stand for one, by themselves and as a key. -/
  signed (index : Int) :
    (r.indexAt index : Except (FitError α) Nat) =
        (if -(r.len : Int) ≤ index ∧ index < r.len then .ok (index % r.len).toNat
        else .error (.outOfRange index r.len)) ∧
      (Key.index index).resolve r = (r.indexAt index : Except (FitError α) Nat)
  /-- From the front, from the end or by its name: a position is the same. -/
  keys {i : Nat} : i < r.len → ∀ key ∈ [Key.index i, .index (i - r.len), .name (r.nameAt i)],
    (key.resolve r : Except (FitError α) Nat) = .ok i
  /-- In words of 64 bits nothing else comes out, and no sum wraps around. -/
  words (index : Int64) : r.len < 0x8000000000000000 →
    (wordIndex index r.len : Except (FitError α) Nat) = r.indexAt index.toInt ∧
      (index < 0 → (index + Int64.ofNat r.len).toInt = index.toInt + r.len)

theorem addresses : r.Addresses α where
  oneToOne := ⟨r.namesEquiv, r.name?_namesEquiv, r.indexOf_namesEquiv⟩
  table := r.tellsPositions _ _
  name?_none := List.getElem?_eq_none_iff
  unknown := indexOf_of_not_mem
  contains := contains_iff
  signed index := ⟨signedIndex_eq index r.len, rfl⟩
  keys {i} hi key hkey := by
    simp only [List.mem_cons, List.not_mem_nil, or_false] at hkey
    rcases hkey with rfl | rfl | rfl
    · exact signedIndex_ofNat hi
    · exact signedIndex_sub hi
    · exact indexOf_eq_ok.mpr (name?_eq hi)
  words index hlen := ⟨wordIndex_eq index hlen, toInt_add_ofNat hlen⟩

/-- Why a list of names is refused: it has no name, or the first name that has come before. -/
def Refuses (names : List String) (e : FitError α) : Prop :=
  names = [] ∧ e = .configuration .noParameters ∨
    ∃ before name after, names = before ++ name :: after ∧ before.Nodup ∧ name ∈ before ∧
      e = .configuration (.repeatedName name)

theorem ofNames_eq_error {names : List String} {e : FitError α} (h : ofNames names = .error e) :
    Refuses names e := by
  unfold ofNames at h
  split at h
  · cases h
    exact .inl ⟨‹_›, rfl⟩
  · split at h
    · rename_i name hname
      cases h
      have htabulates := tabulates names
      rw [hname] at htabulates
      cases htabulates with
      | repeated hnames hbefore hmem => exact .inr ⟨_, _, _, hnames, hbefore, hmem, rfl⟩
    · cases h

/-- What becomes of a list of names. -/
structure Registers (α : Type) (names : List String) : Prop where
  accepted : (∃ r, (ofNames names : Except (FitError α) Registry) = .ok r) ↔
    names ≠ [] ∧ names.Nodup
  registered {r : Registry} : (ofNames names : Except (FitError α) Registry) = .ok r →
    r.names = names ∧ r.Addresses α
  refused {e : FitError α} : ofNames names = .error e → Refuses names e

theorem registers (names : List String) : Registers α names where
  accepted := by
    constructor
    · rintro ⟨r, hr⟩
      cases ofNames_eq_ok_iff.mp hr
      exact ⟨r.nonempty, r.nodup_names⟩
    · rintro ⟨hnonempty, hnodup⟩
      obtain ⟨r, hr⟩ := exists_of_nodup hnonempty hnodup
      exact ⟨r, ofNames_eq_ok_iff.mpr hr⟩
  registered {r} hr := ⟨ofNames_eq_ok_iff.mp hr, r.addresses⟩
  refused := ofNames_eq_error

/-- **A name and a position say the same.** A list of names is registered exactly if there is one,
and none twice; else the failure says which. Once it is registered, its names and its positions are
one to one, the table in which names are looked up says the same, and a signed position stands for
one of them exactly if it is at least the length below zero and less than the length; this is so for
every word of 64 bits, the least and the greatest included. Made-up names are all different, so that
there is a registry of any number of them but none. -/
theorem names_and_positions (α : Type) :
    (∀ names, Registers α names) ∧ Function.Injective positionalName ∧
      ∀ n, (∃ r, (positional n : Except (FitError α) Registry) = .ok r) ↔ 1 ≤ n := by
  refine ⟨registers, positionalName_injective, fun n => (registers _).accepted.trans ?_⟩
  rw [ne_eq, List.map_eq_nil_iff, List.range_eq_nil]
  exact ⟨fun h => Nat.one_le_iff_ne_zero.mpr h.1,
    fun h => ⟨Nat.one_le_iff_ne_zero.mp h, nodup_positionalNames n⟩⟩

/-- Two names by position: the last one is also the first from the end, and the least word stands
for none. -/
theorem names_and_positions_two :
    ∃ r, (ofNames ["a", "b"] : Except (FitError Float) Registry) = .ok r ∧ r.Addresses Float ∧
      (Key.index (-1)).resolve r = (Key.name "b").resolve (α := Float) r ∧
      (wordIndex Int64.minValue 2 : Except (FitError Float) Nat) =
        .error (.outOfRange (-0x8000000000000000) 2) ∧
      ∃ p, (positional 12 : Except (FitError Float) Registry) = .ok p := by
  obtain ⟨hregisters, -, hpositional⟩ := names_and_positions Float
  obtain ⟨r, hr⟩ := (hregisters ["a", "b"]).accepted.mpr (by decide)
  obtain ⟨hnames, haddresses⟩ := (hregisters ["a", "b"]).registered hr
  have hlen : r.len = 2 := by rw [len, hnames]; rfl
  have hname : r.nameAt 1 = "b" := by rw [nameAt, name?, hnames]; rfl
  have hkeys := haddresses.keys (i := 1) (by omega)
  rw [hlen, hname] at hkeys
  refine ⟨r, hr, haddresses, ?_, rfl, (hpositional 12).mpr (by decide)⟩
  exact (hkeys (.index (-1)) (by decide)).trans (hkeys (.name "b") (by decide)).symm

end Registry
end FitSession
