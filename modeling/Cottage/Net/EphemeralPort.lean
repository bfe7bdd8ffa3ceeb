import Cottage.Net.SendLengths

/-!
# Ephemeral ports

`get_next_ephemeral_port` with the widths of its variables: the draw is reduced
in 32 bits, the start, the range and the counter have 16 bits, and the port of
a turn is computed in `int` and then cut to 16 bits.  The turns go once around
the range, whatever the draw, and no cut changes a value, so the function is
the search that the model of `sys_sendto` makes.
-/

namespace Cottage.EphemeralPort

open Net

abbrev Table := UInt16 → Option ℕ

/-- `uint16_t range` -/
def range : UInt16 := UInt16.ofNat (ephemeralPortMax - ephemeralPortMin + 1)

def start (random : UInt32) : UInt16 :=
  UInt16.ofNat
    (ephemeralPortMin + (random % UInt32.ofNat (ephemeralPortMax - ephemeralPortMin + 1)).toNat)

def wide (start i : UInt16) : ℤ :=
  ephemeralPortMin + ((start.toNat : ℤ) - ephemeralPortMin + i.toNat).tmod range.toNat

/-- `uint16_t port` -/
def port (start i : UInt16) : UInt16 :=
  UInt16.ofNat (wide start i % 2 ^ 16).toNat

lemma toNat_range : range.toNat = 16384 := rfl

lemma toNat_succ {i : UInt16} (h : i < range) : (i + 1).toNat = i.toNat + 1 := by
  have hlt := UInt16.lt_iff_toNat_lt.mp h
  have hrange := toNat_range
  rw [UInt16.toNat_add, UInt16.toNat_one]
  omega

lemma turns_left_succ {i : UInt16} (h : i < range) :
    range.toNat - (i + 1).toNat < range.toNat - i.toNat := by
  have hlt := UInt16.lt_iff_toNat_lt.mp h
  rw [toNat_succ h]
  omega

/-- The loop, from turn `i` on. -/
def search (udpPortTable : Table) (start i : UInt16) : UInt16 :=
  if h : i < range then
    if (udpPortTable (port start i)).isNone then port start i
    else search udpPortTable start (i + 1)
  else 0
termination_by range.toNat - i.toNat
decreasing_by exact turns_left_succ h

def getNextEphemeralPort (udpPortTable : Table) (random : UInt32) : UInt16 :=
  search udpPortTable (start random) 0

lemma toNat_start (random : UInt32) : (start random).toNat = 49152 + random.toNat % 16384 := by
  have hmod : (random % UInt32.ofNat (ephemeralPortMax - ephemeralPortMin + 1)).toNat =
      random.toNat % 16384 := UInt32.toNat_mod _ _
  rw [start, hmod, UInt16.toNat_ofNat', Nat.mod_eq_of_lt]
  · rfl
  · simp only [ephemeralPortMin]
    omega

lemma wide_start (random : UInt32) (i : UInt16) :
    wide (start random) i = (49152 + (random.toNat % 16384 + i.toNat) % 16384 : ℕ) := by
  have hsub : ((start random).toNat : ℤ) - ephemeralPortMin + i.toNat =
      (random.toNat % 16384 + i.toNat : ℕ) := by
    rw [toNat_start]
    simp only [ephemeralPortMin]
    omega
  rw [wide, hsub, toNat_range, Int.tmod_eq_emod_of_nonneg (Int.natCast_nonneg _)]
  simp only [ephemeralPortMin]
  omega

lemma wide_lt (random : UInt32) (i : UInt16) :
    49152 ≤ wide (start random) i ∧ wide (start random) i < 65536 := by
  rw [wide_start]
  omega

lemma toNat_port (random : UInt32) (i : UInt16) :
    (port (start random) i).toNat = 49152 + (random.toNat % 16384 + i.toNat) % 16384 := by
  obtain ⟨hle, hlt⟩ := wide_lt random i
  have hmod : wide (start random) i % 2 ^ 16 = wide (start random) i :=
    Int.emod_eq_of_lt (by omega) (by omega)
  rw [port, hmod, wide_start, Int.toNat_natCast, UInt16.toNat_ofNat', Nat.mod_eq_of_lt]
  omega

lemma search_eq (udpPortTable : Table) (st : UInt16) (n : ℕ) (i : UInt16)
    (h : i.toNat + n = 16384) :
    search udpPortTable st i = ((List.range' i.toNat n).findSome? fun k =>
      if (udpPortTable (port st (UInt16.ofNat k))).isNone then some (port st (UInt16.ofNat k))
      else none).getD 0 := by
  induction n generalizing i with
  | zero =>
    have hend : ¬ i < range := by
      rw [UInt16.lt_iff_toNat_lt, toNat_range]
      omega
    rw [search, dif_neg hend]
    rfl
  | succ n ih =>
    have hlt : i < range := by
      rw [UInt16.lt_iff_toNat_lt, toNat_range]
      omega
    have hsucc := toNat_succ hlt
    have hrest := ih (i + 1) (by omega)
    rw [hsucc] at hrest
    rw [search, dif_pos hlt, List.range'_succ, List.findSome?_cons, UInt16.ofNat_toNat, hrest]
    split <;> rfl

lemma findSome?_congr {α β : Type*} {f g : α → Option β} {l : List α} (h : ∀ a ∈ l, f a = g a) :
    l.findSome? f = l.findSome? g := by
  induction l with
  | nil => rfl
  | cons a l ih =>
    rw [List.findSome?_cons, List.findSome?_cons, h a (.head _),
      ih fun b hb => h b (.tail a hb)]

/-- The search of the model of `sys_sendto`. -/
lemma getNextEphemeralPort_eq (random : UInt32) (s : NetState) :
    getNextEphemeralPort s.udpPortTable random = (Net.getNextEphemeralPort random s).getD 0 := by
  have hport (k : ℕ) (hk : k ∈ List.range 16384) : port (start random) (UInt16.ofNat k) =
      UInt16.ofNat (49152 + (49152 + random.toNat % 16384 - 49152 + k) % 16384) := by
    have hlt := List.mem_range.mp hk
    apply UInt16.toNat_inj.mp
    rw [toNat_port, UInt16.toNat_ofNat', UInt16.toNat_ofNat', Nat.add_sub_cancel_left,
      Nat.mod_eq_of_lt (a := k) (by omega), Nat.mod_eq_of_lt (b := 2 ^ 16) (by omega)]
  rw [getNextEphemeralPort, search_eq s.udpPortTable (start random) 16384 0 rfl,
    Net.getNextEphemeralPort, UInt16.toNat_zero, ← List.range_eq_range']
  simp only [ephemeralPortMin, ephemeralPortMax, Nat.reduceSub, Nat.reduceAdd]
  rw [findSome?_congr]
  intro k hk
  rw [hport k hk]
  exact if_congr Iff.rfl rfl rfl

/-- Zero, if all ports of the range are taken, and one of the free ones
otherwise; what is computed for a port of any turn is in the range before it is
cut. -/
structure Chooses (udpPortTable : Table) (random : UInt32) (result : UInt16) : Prop where
  zero_iff : result = 0 ↔ ∀ port : UInt16, ephemeralPortMin ≤ port.toNat → udpPortTable port ≠ none
  free : result ≠ 0 → ephemeralPortMin ≤ result.toNat ∧ result.toNat ≤ ephemeralPortMax ∧
    udpPortTable result = none
  uncut : ∀ i < range, (ephemeralPortMin : ℤ) ≤ wide (start random) i ∧
    wide (start random) i ≤ ephemeralPortMax

lemma exists_turn (random : UInt32) {p : UInt16} (hp : 49152 ≤ p.toNat) :
    ∃ k < 16384, port (start random) (UInt16.ofNat k) = p := by
  have hlt := p.toNat_lt
  refine ⟨(p.toNat - 49152 + 16384 - random.toNat % 16384) % 16384,
    Nat.mod_lt _ (by decide), UInt16.toNat_inj.mp ?_⟩
  rw [toNat_port, UInt16.toNat_ofNat']
  omega

lemma search_cases (udpPortTable : Table) (random : UInt32) :
    (getNextEphemeralPort udpPortTable random = 0 ∧
      ∀ p : UInt16, 49152 ≤ p.toNat → udpPortTable p ≠ none) ∨
    49152 ≤ (getNextEphemeralPort udpPortTable random).toNat ∧
      udpPortTable (getNextEphemeralPort udpPortTable random) = none := by
  have hsearch := search_eq udpPortTable (start random) 16384 0 rfl
  rw [UInt16.toNat_zero, ← List.range_eq_range', ← getNextEphemeralPort] at hsearch
  rw [hsearch]
  cases hfind : (List.range 16384).findSome? fun k =>
      if (udpPortTable (port (start random) (UInt16.ofNat k))).isNone then
        some (port (start random) (UInt16.ofNat k)) else none with
  | none =>
    refine .inl ⟨rfl, fun p hp hfree => ?_⟩
    obtain ⟨k, hk, rfl⟩ := exists_turn random hp
    have hturn := List.findSome?_eq_none_iff.mp hfind k (List.mem_range.mpr hk)
    rw [hfree, Option.isNone_none, if_pos rfl] at hturn
    cases hturn
  | some p =>
    obtain ⟨k, _, hturn⟩ := List.exists_of_findSome?_eq_some hfind
    obtain ⟨hfree, hport⟩ := Option.ite_none_right_eq_some.mp hturn
    cases hport
    refine .inr ⟨?_, Option.isNone_iff_eq_none.mp hfree⟩
    rw [Option.getD_some, toNat_port]
    exact Nat.le_add_right _ _

/-- A free port is found whenever there is one, whatever the random number. -/
theorem port_chosen (udpPortTable : Table) (random : UInt32) :
    Chooses udpPortTable random (getNextEphemeralPort udpPortTable random) := by
  have huncut : ∀ i < range, (ephemeralPortMin : ℤ) ≤ wide (start random) i ∧
      wide (start random) i ≤ ephemeralPortMax := by
    intro i _
    obtain ⟨hle, hlt⟩ := wide_lt random i
    exact ⟨hle, Int.le_of_lt_add_one hlt⟩
  rcases search_cases udpPortTable random with ⟨hzero, htaken⟩ | ⟨hle, hfree⟩
  · exact ⟨iff_of_true hzero htaken, fun hne => absurd hzero hne, huncut⟩
  · have hne : getNextEphemeralPort udpPortTable random ≠ 0 := by
      intro heq
      rw [heq] at hle
      cases hle
    refine ⟨iff_of_false hne fun htaken => htaken _ hle hfree, fun _ => ⟨hle, ?_, hfree⟩, huncut⟩
    exact Nat.le_of_lt_succ (UInt16.toNat_lt _)

end Cottage.EphemeralPort
