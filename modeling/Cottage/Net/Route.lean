import Mathlib.Data.Finset.Card
import Mathlib.Data.List.MinMax
import Mathlib.Order.Fin.Basic
import Cottage.Net.Sendto

/-!
# The routing table

`route.c`.  Each function holds the lock of the table from its first to its
last access, so the calls are the steps.

A lookup selects the first of the matching entries with the most mask bits,
which for contiguous masks is the most specific of the networks.
-/

namespace Cottage.Net

open Transition

abbrev RouteTable := Vector RouteEntry routeTableSize

def eNoent : ℤ := 2

def eNospc : ℤ := 28

def routeInit : RouteTable :=
  Vector.replicate _ ⟨0, 0, 0, ⟨Vector.replicate 6 0, Vector.replicate 4 0⟩, 0⟩

def RouteEntry.Up (entry : RouteEntry) : Prop :=
  entry.flags &&& routeFlagUp ≠ 0

instance : DecidablePred RouteEntry.Up :=
  fun _ => inferInstanceAs (Decidable (_ ≠ _))

def RouteEntry.HasKey (entry : RouteEntry) (destNetwork subnetMask : UInt32) : Prop :=
  entry.subnetMask = subnetMask ∧ entry.destNetwork = destNetwork

instance (entry : RouteEntry) (destNetwork subnetMask : UInt32) :
    Decidable (entry.HasKey destNetwork subnetMask) :=
  inferInstanceAs (Decidable (_ ∧ _))

def routeAdd (destNetwork subnetMask gateway : UInt32) (device : Device) (flags : UInt32)
    (table : RouteTable) : RouteTable × ℤ :=
  match (List.finRange routeTableSize).find? fun i => ¬ table[i].Up with
  | none => (table, -eNospc)
  | some freeSlot =>
    (table.set freeSlot
      { destNetwork := destNetwork
        subnetMask := subnetMask
        gateway := gateway
        device := device
        flags := flags ||| routeFlagUp ||| if gateway ≠ 0 then routeFlagGateway else 0 }, 0)

def routeRemove (destNetwork subnetMask : UInt32) (table : RouteTable) : RouteTable × ℤ :=
  match (List.finRange routeTableSize).find? fun i => table[i].HasKey destNetwork subnetMask with
  | none => (table, -eNoent)
  | some i => (table.set i { table[i] with flags := table[i].flags &&& ~~~ routeFlagUp }, 0)

/-- One turn of the loop of `route_lookup`, with the index of the best match. -/
def betterMatch (destIp : UInt32) (table : RouteTable) (best : ℤ × Option (Fin routeTableSize))
    (i : Fin routeTableSize) : ℤ × Option (Fin routeTableSize) :=
  if table[i].flags &&& routeFlagUp = 0 then best
  else if destIp &&& table[i].subnetMask = table[i].destNetwork then
    let maskHammingWeight := (popcount table[i].subnetMask : ℤ)
    if maskHammingWeight > best.1 then (maskHammingWeight, some i) else best
  else best

def bestMatch (destIp : UInt32) (table : RouteTable) : Option (Fin routeTableSize) :=
  ((List.finRange routeTableSize).foldl (betterMatch destIp table) (-1, none)).2

inductive RouteEvent
  | add (destNetwork subnetMask gateway : UInt32) (device : Device) (flags : UInt32)
  | remove (destNetwork subnetMask : UInt32)
  deriving DecidableEq, Repr

def routeStep (table : RouteTable) : RouteEvent → Option RouteTable
  | .add destNetwork subnetMask gateway device flags =>
    some (routeAdd destNetwork subnetMask gateway device flags table).1
  | .remove destNetwork subnetMask => some (routeRemove destNetwork subnetMask table).1

def routes : System RouteTable RouteEvent where
  init table := table = routeInit
  step := routeStep

variable {table : RouteTable} {destIp : UInt32} {i j : Fin routeTableSize}

def Matches (table : RouteTable) (destIp : UInt32) (i : Fin routeTableSize) : Prop :=
  table[i].Up ∧ destIp &&& table[i].subnetMask = table[i].destNetwork

instance (table : RouteTable) (destIp : UInt32) : DecidablePred (Matches table destIp) :=
  fun _ => inferInstanceAs (Decidable (_ ∧ _))

def weight (table : RouteTable) (i : Fin routeTableSize) : ℕ :=
  popcount table[i].subnetMask

lemma betterMatch_of_matches (h : Matches table destIp i) (best : ℤ × Option (Fin routeTableSize)) :
    betterMatch destIp table best i =
      if (weight table i : ℤ) > best.1 then ((weight table i : ℤ), some i) else best := by
  rw [betterMatch, if_neg h.1, if_pos h.2]
  rfl

lemma betterMatch_of_not_matches (h : ¬ Matches table destIp i)
    (best : ℤ × Option (Fin routeTableSize)) : betterMatch destIp table best i = best := by
  unfold betterMatch
  by_cases hup : table[i].flags &&& routeFlagUp = 0
  · rw [if_pos hup]
  · rw [if_neg hup, if_neg fun hnetwork => h ⟨hup, hnetwork⟩]

def bestWeight (table : RouteTable) : Option (Fin routeTableSize) → ℤ
  | none => -1
  | some i => weight table i

lemma foldl_betterMatch (l : List (Fin routeTableSize)) (best : Option (Fin routeTableSize)) :
    (l.foldl (betterMatch destIp table) (bestWeight table best, best)).2 =
      (l.filter (Matches table destIp)).foldl
        (List.argAux fun i j => weight table j < weight table i) best := by
  induction l generalizing best with
  | nil => rfl
  | cons i l ih =>
    by_cases hmatch : Matches table destIp i
    · rw [List.foldl_cons, betterMatch_of_matches hmatch, List.filter_cons_of_pos (by simpa),
        List.foldl_cons, ← ih]
      cases best with
      | none =>
        have hheavier : (weight table i : ℤ) > bestWeight table none := by
          change (-1 : ℤ) < weight table i
          omega
        rw [if_pos hheavier]
        rfl
      | some j =>
        simp only [bestWeight, List.argAux, gt_iff_lt, Nat.cast_lt]
        split_ifs <;> rfl
    · rw [List.foldl_cons, betterMatch_of_not_matches hmatch,
        List.filter_cons_of_neg (by simpa), ih]

lemma bestMatch_eq_argmax : bestMatch destIp table =
    ((List.finRange routeTableSize).filter (Matches table destIp)).argmax (weight table) :=
  foldl_betterMatch _ none

lemma le_of_idxOf_le {n : ℕ} {l : List (Fin n)} (hl : l.Pairwise (· < ·)) {i j : Fin n}
    (hi : i ∈ l) (hj : j ∈ l) (hle : l.idxOf i ≤ l.idxOf j) : i ≤ j := by
  have hi' := List.idxOf_lt_length_of_mem hi
  have hj' := List.idxOf_lt_length_of_mem hj
  rcases hle.lt_or_eq with hlt | heq
  · have hsorted := List.pairwise_iff_getElem.mp hl _ _ hi' hj' hlt
    rw [List.getElem_idxOf, List.getElem_idxOf] at hsorted
    exact Fin.le_of_lt hsorted
  · exact Fin.le_of_eq ((List.idxOf_inj hi).mp heq)

lemma bestMatch_eq_none_iff : bestMatch destIp table = none ↔ ∀ i, ¬ Matches table destIp i := by
  rw [bestMatch_eq_argmax, List.argmax_eq_none, List.filter_eq_nil_iff]
  simp

lemma of_bestMatch_eq_some (h : bestMatch destIp table = some i) :
    Matches table destIp i ∧
      ∀ j, Matches table destIp j → weight table j ≤ weight table i ∧
        (weight table j = weight table i → i ≤ j) := by
  rw [bestMatch_eq_argmax] at h
  obtain ⟨hmem, hheaviest, hfirst⟩ := List.mem_argmax_iff.mp (Option.mem_def.mpr h)
  have hmatches {k : Fin routeTableSize} : k ∈ (List.finRange routeTableSize).filter
      (fun i => decide (Matches table destIp i)) ↔ Matches table destIp k := by
    simp
  have hsorted : ((List.finRange routeTableSize).filter
      (fun i => decide (Matches table destIp i))).Pairwise (· < ·) :=
    (List.pairwise_lt_finRange _).filter _
  refine ⟨hmatches.mp hmem, fun j hj => ⟨hheaviest j (hmatches.mpr hj), fun heq => ?_⟩⟩
  exact le_of_idxOf_le hsorted hmem (hmatches.mpr hj) (hfirst j (hmatches.mpr hj) heq.ge)

lemma foldl_betterRoute (table : RouteTable) (destIp : UInt32) (l : List (Fin routeTableSize))
    (best : ℤ × Option (Fin routeTableSize)) :
    (l.map fun i => table[i]).foldl (betterRoute destIp) (best.1, best.2.map fun i => table[i]) =
      ((l.foldl (betterMatch destIp table) best).1,
        (l.foldl (betterMatch destIp table) best).2.map fun i => table[i]) := by
  induction l generalizing best with
  | nil => rfl
  | cons i l ih =>
    rw [List.map_cons, List.foldl_cons, List.foldl_cons, ← ih]
    congr 1
    simp only [betterRoute, betterMatch]
    split_ifs <;> rfl

lemma routeLookup_eq (s : NetState) (destIp : UInt32) :
    routeLookup s destIp = (bestMatch destIp s.routeTable).map fun i =>
      { nextHop := if s.routeTable[i].flags &&& routeFlagGateway = 0 then destIp
          else s.routeTable[i].gateway
        device := s.routeTable[i].device } := by
  have hlist : s.routeTable.toList =
      (List.finRange routeTableSize).map fun i => s.routeTable[i] := by
    apply List.ext_getElem (by simp)
    intro i _ _
    simp
  have hfold := foldl_betterRoute s.routeTable destIp (List.finRange routeTableSize) (-1, none)
  rw [Option.map_none] at hfold
  rw [routeLookup, hlist, hfold, Option.map_map]
  rfl

def Contiguous (mask : UInt32) : Prop :=
  ∀ i j, i ≤ j → j < 32 → mask.toBitVec.getLsbD i → mask.toBitVec.getLsbD j

lemma popcount_eq_card (mask : UInt32) :
    popcount mask = ((Finset.range 32).filter fun i => mask.toBitVec.getLsbD i).card := by
  rw [popcount, List.countP_eq_length_filter]
  simp [Finset.card, Multiset.range]

lemma and_of_popcount_le {mask mask' : UInt32} (h : Contiguous mask) (h' : Contiguous mask')
    (hle : popcount mask' ≤ popcount mask) : mask &&& mask' = mask' := by
  have hbits : ∀ i < 32, mask'.toBitVec.getLsbD i → mask.toBitVec.getLsbD i := by
    intro i hi hbit'
    by_contra hbit
    apply hle.not_gt
    rw [popcount_eq_card, popcount_eq_card]
    apply Finset.card_lt_card
    refine Finset.ssubset_iff_of_subset ?_ |>.mpr ⟨i, ?_, ?_⟩
    · intro j hj
      rw [Finset.mem_filter, Finset.mem_range] at hj ⊢
      refine ⟨hj.1, h' i j ?_ hj.1 hbit'⟩
      by_contra hlt
      exact hbit (h j i (by omega) hi hj.2)
    · simp [hi, hbit']
    · simp [hbit]
  apply UInt32.eq_of_toBitVec_eq
  rw [UInt32.toBitVec_and]
  apply BitVec.eq_of_getLsbD_eq
  intro i hi
  rw [BitVec.getLsbD_and]
  cases hbit : mask'.toBitVec.getLsbD i with
  | false => simp
  | true => simp [hbits i hi hbit]

def RouteEntry.network (entry : RouteEntry) : Set UInt32 :=
  {ip | ip &&& entry.subnetMask = entry.destNetwork}

lemma network_subset {entry entry' : RouteEntry} (h : Contiguous entry.subnetMask)
    (h' : Contiguous entry'.subnetMask) (hip : destIp ∈ entry.network)
    (hip' : destIp ∈ entry'.network)
    (hle : popcount entry'.subnetMask ≤ popcount entry.subnetMask) :
    entry.network ⊆ entry'.network := by
  intro ip hmem
  have hmask := and_of_popcount_le h h' hle
  calc ip &&& entry'.subnetMask = ip &&& entry.subnetMask &&& entry'.subnetMask := by
        rw [UInt32.and_assoc, hmask]
    _ = destIp &&& entry.subnetMask &&& entry'.subnetMask := by
        rw [show ip &&& entry.subnetMask = entry.destNetwork from hmem,
          show destIp &&& entry.subnetMask = entry.destNetwork from hip]
    _ = destIp &&& entry'.subnetMask := by
        rw [UInt32.and_assoc, hmask]
    _ = entry'.destNetwork := hip'

/-! ## Lookups -/

/-- The lookup finds nothing when nothing matches, and otherwise reports the
first of the matching entries with the most mask bits, whose network lies in
those of the other matches. -/
structure LookupLaw (s : NetState) (destIp : UInt32) : Prop where
  none_iff : routeLookup s destIp = none ↔ ∀ i, ¬ Matches s.routeTable destIp i
  selected : ∀ result, routeLookup s destIp = some result → ∃ i,
    bestMatch destIp s.routeTable = some i ∧ Matches s.routeTable destIp i ∧
      (∀ j, Matches s.routeTable destIp j → weight s.routeTable j ≤ weight s.routeTable i) ∧
      (∀ j, Matches s.routeTable destIp j → j ≠ i →
        weight s.routeTable j = weight s.routeTable i → i < j) ∧
      result.device = s.routeTable[i].device ∧
      result.nextHop = (if s.routeTable[i].flags &&& routeFlagGateway ≠ 0
        then s.routeTable[i].gateway else destIp) ∧
      ∀ j, Matches s.routeTable destIp j → Contiguous s.routeTable[i].subnetMask →
        Contiguous s.routeTable[j].subnetMask → s.routeTable[i].network ⊆ s.routeTable[j].network

/-- A lookup selects the longest match, and the first of these. -/
theorem route_lookup_law (s : NetState) (destIp : UInt32) : LookupLaw s destIp := by
  refine ⟨?_, fun result hresult => ?_⟩
  · rw [routeLookup_eq, Option.map_eq_none_iff, bestMatch_eq_none_iff]
  · rw [routeLookup_eq] at hresult
    obtain ⟨i, hi, rfl⟩ := Option.map_eq_some_iff.mp hresult
    obtain ⟨hmatch, hbest⟩ := of_bestMatch_eq_some hi
    refine ⟨i, hi, hmatch, fun j hj => (hbest j hj).1, fun j hj hne heq => ?_, rfl, ?_,
      fun j hj hcontiguous hcontiguous' => ?_⟩
    · exact lt_of_le_of_ne ((hbest j hj).2 heq) hne.symm
    · rw [ite_not]
    · exact network_subset hcontiguous hcontiguous' hmatch.2 hj.2 (hbest j hj).1

/-! ## Removals -/

/-- A removal takes down exactly one entry that is up and has the key, and fails
without a change when there is none. -/
structure RemovalLaw (table : RouteTable) (destNetwork subnetMask : UInt32) : Prop where
  succeeds_iff : (routeRemove destNetwork subnetMask table).2 = 0 ↔
    ∃ i : Fin routeTableSize, table[i].Up ∧ table[i].HasKey destNetwork subnetMask
  removed : (routeRemove destNetwork subnetMask table).2 = 0 → ∃ i : Fin routeTableSize,
    table[i].Up ∧ table[i].HasKey destNetwork subnetMask ∧
      ¬ (routeRemove destNetwork subnetMask table).1[i].Up ∧
      ∀ j : Fin routeTableSize, j ≠ i →
        ((routeRemove destNetwork subnetMask table).1[j].Up ↔ table[j].Up)
  failed : (routeRemove destNetwork subnetMask table).2 ≠ 0 →
    routeRemove destNetwork subnetMask table = (table, -eNoent)

/-- The first entry with the key, if there is one, is up. -/
def FirstUp (table : RouteTable) (destNetwork subnetMask : UInt32) : Prop :=
  ∀ i : Fin routeTableSize, table[i].HasKey destNetwork subnetMask →
    (∀ j < i, ¬ table[j].HasKey destNetwork subnetMask) → table[i].Up

lemma find?_finRange_eq_some {n : ℕ} {p : Fin n → Prop} [DecidablePred p] {i : Fin n}
    (h : (List.finRange n).find? (p) = some i) : p i ∧ ∀ j < i, ¬ p j := by
  obtain ⟨hi, front, back, hsplit, hfront⟩ := List.find?_eq_some_iff_append.mp h
  refine ⟨of_decide_eq_true hi, fun j hj hp => ?_⟩
  have hsorted := List.pairwise_lt_finRange n
  have hmem := List.mem_finRange j
  rw [hsplit] at hsorted hmem
  rcases List.mem_append.mp hmem with hmem | hmem
  · simpa [hp] using hfront j hmem
  · rcases List.mem_cons.mp hmem with rfl | hmem
    · exact lt_irrefl _ hj
    · exact lt_asymm hj ((List.pairwise_cons.mp (List.pairwise_append.mp hsorted).2.1).1 j hmem)

/-- Removal looks at the first entry with the key only, so it is right when
that one is up. -/
theorem removal_law_iff (table : RouteTable) (destNetwork subnetMask : UInt32) :
    RemovalLaw table destNetwork subnetMask ↔ FirstUp table destNetwork subnetMask := by
  cases hfind : (List.finRange routeTableSize).find? fun i =>
      table[i].HasKey destNetwork subnetMask with
  | none =>
    have hnone (i : Fin routeTableSize) : ¬ table[i].HasKey destNetwork subnetMask := by
      simpa using List.find?_eq_none.mp hfind i (List.mem_finRange i)
    have hremove : routeRemove destNetwork subnetMask table = (table, -eNoent) := by
      rw [routeRemove, hfind]
    have hfails : (routeRemove destNetwork subnetMask table).2 ≠ 0 := by
      rw [hremove]
      exact show -eNoent ≠ 0 by decide
    refine iff_of_true ⟨iff_of_false hfails ?_, fun h => absurd h hfails, fun _ => hremove⟩
      fun i hi => absurd hi (hnone i)
    rintro ⟨i, _, hi⟩
    exact hnone i hi
  | some i =>
    obtain ⟨hkey, hfirst⟩ := find?_finRange_eq_some hfind
    have hremove : routeRemove destNetwork subnetMask table = (table.set i
        { table[i] with flags := table[i].flags &&& ~~~ routeFlagUp }, 0) := by
      rw [routeRemove, hfind]
    have hother (j : Fin routeTableSize) (hne : j ≠ i) :
        (routeRemove destNetwork subnetMask table).1[j] = table[j] := by
      rw [hremove]
      exact Vector.getElem_set_ne i.isLt j.isLt fun h => hne (Fin.ext h.symm)
    have hdown : ¬ (routeRemove destNetwork subnetMask table).1[i].Up := by
      have hself : (routeRemove destNetwork subnetMask table).1[i] =
          { table[i] with flags := table[i].flags &&& ~~~ routeFlagUp } := by
        rw [hremove]
        exact Vector.getElem_set_self i.isLt
      have hclear : ~~~ routeFlagUp &&& routeFlagUp = 0 := by decide
      rw [hself, RouteEntry.Up, not_not, UInt32.and_assoc, hclear, UInt32.and_zero]
    constructor
    · rintro ⟨_, hremoved, _⟩ k hk hkfirst
      obtain ⟨k', hup, _, hdown', _⟩ := hremoved (by rw [hremove])
      obtain rfl : k' = i := by
        by_contra hne
        rw [hother k' hne] at hdown'
        exact hdown' hup
      obtain rfl : k = k' := by
        rcases lt_trichotomy k k' with hlt | heq | hlt
        · exact absurd hk (hfirst k hlt)
        · exact heq
        · exact absurd hkey (hkfirst k' hlt)
      exact hup
    · intro hup
      have hup' := hup i hkey hfirst
      refine ⟨iff_of_true (by rw [hremove]) ⟨i, hup', hkey⟩, fun _ => ?_, fun h => ?_⟩
      · exact ⟨i, hup', hkey, hdown, fun j hne => by rw [hother j hne]⟩
      · exact absurd (by rw [hremove]) h

theorem removed_twice : ∃ table, routes.Reachable table ∧
    (¬ ∃ i : Fin routeTableSize, table[i].Up ∧ table[i].HasKey 0x0A000000 0xFF000000) ∧
      (routeRemove 0x0A000000 0xFF000000 table).2 = 0 ∧
      ¬ RemovalLaw table 0x0A000000 0xFF000000 := by
  have hinit : routes.Reachable routeInit := .init rfl
  obtain ⟨table, hreach, hp⟩ := hinit.exists_of_run_any
    [.add 0x0A000000 0xFF000000 0 sender 0, .remove 0x0A000000 0xFF000000]
    (fun table : RouteTable =>
      ((List.finRange routeTableSize).all fun i =>
        !decide (table[i].Up ∧ table[i].HasKey 0x0A000000 0xFF000000)) &&
      (routeRemove 0x0A000000 0xFF000000 table).2 = 0)
    (by decide +kernel)
  rw [Bool.and_eq_true, List.all_eq_true, decide_eq_true_eq] at hp
  have hnone : ¬ ∃ i : Fin routeTableSize, table[i].Up ∧ table[i].HasKey 0x0A000000 0xFF000000 := by
    rintro ⟨i, hi⟩
    have hdown := hp.1 i (List.mem_finRange i)
    rw [Bool.not_eq_true', decide_eq_false_iff_not] at hdown
    exact hdown hi
  exact ⟨table, hreach, hnone, hp.2, fun hlaw => hnone (hlaw.succeeds_iff.mp hp.2)⟩

end Cottage.Net
