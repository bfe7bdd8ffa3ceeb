import Cottage.Acpi.Madt

/-!
# Tables from bad firmware

`madt_init` trusts the length bytes of the table.  An entry of length zero
keeps it where it is forever, and an entry that begins before the end of the
table is read whole, wherever it ends.
-/

namespace Cottage.Madt

open ByteReader Reader Loop

inductive Visited (table : ℕ → UInt8) : ℕ → Prop
  | first : Visited table entriesBegin
  | next {offset : ℕ} : Visited table offset → offset < headerLength.run table →
      Visited table (offset + lenAt table offset)

def needed (table : ℕ → UInt8) (offset : ℕ) : ℕ :=
  match Kind.ofId (table offset) with
  | none => 2
  | some kind => kind.size

/-- The length field is in the table, and the entries are in it and not
empty. -/
structure Sound (table : ℕ → UInt8) : Prop where
  header : 8 ≤ headerLength.run table
  pos : ∀ offset, Visited table offset → offset < headerLength.run table → 0 < lenAt table offset
  inside : ∀ offset, Visited table offset → offset < headerLength.run table →
    offset + needed table offset ≤ headerLength.run table

structure Survives (table : ℕ → UInt8) : Prop where
  terminates : ∃ fuel, (madtInit fuel (some table)).isSome
  within : ∀ s, Reaches (body table) start s → (round s).Within table (headerLength.run table)

variable {table : ℕ → UInt8} {s : Scan}

lemma two_le_needed (table : ℕ → UInt8) (offset : ℕ) : 2 ≤ needed table offset := by
  unfold needed
  cases Kind.ofId (table offset) with
  | none => exact Nat.le_refl 2
  | some kind => cases kind <;> decide

lemma within_headerLength {n : ℕ} : headerLength.Within table n ↔ 8 ≤ n := by
  simp [headerLength, within_bytes]

lemma mod_cur (hcur : s.cur < 2 ^ 33) :
    (s.cur + entriesBegin) % 2 ^ 64 = entriesBegin + s.cur := by
  rw [Nat.mod_eq_of_lt (by simp only [entriesBegin]; omega), Nat.add_comm]

lemma within_round {n : ℕ} (hcur : s.cur < 2 ^ 33) :
    (round s).Within table n ↔ 8 ≤ n ∧ (entriesBegin + s.cur < headerLength.run table →
      entriesBegin + s.cur + needed table (entriesBegin + s.cur) ≤ n) := by
  rw [round, within_bind, within_headerLength, mod_cur hcur]
  refine and_congr_right fun _ => ?_
  by_cases hend : entriesBegin + s.cur ≥ headerLength.run table
  · rw [if_pos hend]
    exact iff_of_true (within_pure _) fun h => absurd h (Nat.not_lt.mpr hend)
  · have htwo := two_le_needed table (entriesBegin + s.cur)
    rw [if_neg hend, within_bind, within_read, run_read, within_bind, within_read, run_read,
      imp_iff_right (Nat.not_le.mp hend)]
    unfold needed at htwo ⊢
    generalize Kind.ofId (table (entriesBegin + s.cur)) = found at htwo ⊢
    cases found with
    | none =>
      simp only [within_pure, and_true]
      omega
    | some kind =>
      simp only [within_bind, within_bytes, within_pure, and_true]
      dsimp only at htwo
      omega

lemma visited_of_reaches (h : Reaches (body table) start s) :
    s.cur < 2 ^ 33 ∧ Visited table (entriesBegin + s.cur) := by
  refine h.invariant (I := fun s => s.cur < 2 ^ 33 ∧ Visited table (entriesBegin + s.cur))
    ⟨by decide, .first⟩ ?_
  rintro s t ⟨hcur, hvisited⟩ hbody
  have hlength := @headerLength_lt table
  by_cases hlt : entriesBegin + s.cur < headerLength.run table
  · rw [body_of_lt hlt] at hbody
    obtain rfl := Sum.inl.inj hbody
    have hlen : lenAt table (entriesBegin + s.cur) < 2 ^ 8 := UInt8.toNat_lt _
    refine ⟨by dsimp only; omega, ?_⟩
    have hnext := hvisited.next hlt
    rwa [Nat.add_assoc] at hnext
  · rw [body_of_le hcur (Nat.not_lt.mp hlt)] at hbody
    cases hbody

lemma exists_reaches {offset : ℕ} (h : Visited table offset) :
    ∃ s, Reaches (body table) start s ∧ entriesBegin + s.cur = offset := by
  induction h with
  | first => exact ⟨start, .refl, rfl⟩
  | next _ hlt ih =>
    obtain ⟨s, hreach, rfl⟩ := ih
    exact ⟨_, hreach.tail (body_of_lt hlt), (Nat.add_assoc _ _ _).symm⟩

lemma terminates_iff :
    (∃ fuel, (madtInit fuel (some table)).isSome) ↔ ∃ r, Ends (body table) start r := by
  simp only [ends_iff_run, madtInit, Option.isSome_map, Option.isSome_iff_exists]
  exact exists_comm

lemma Sound.terminates (h : Sound table) : ∃ r, Ends (body table) start r := by
  refine exists_ends (I := Reaches (body table) start)
    (fun s => headerLength.run table - (entriesBegin + s.cur)) .refl ?_
  intro s t hreach hbody
  obtain ⟨hcur, hvisited⟩ := visited_of_reaches hreach
  refine ⟨hreach.tail hbody, ?_⟩
  by_cases hlt : entriesBegin + s.cur < headerLength.run table
  · rw [body_of_lt hlt] at hbody
    obtain rfl := Sum.inl.inj hbody
    have hpos := h.pos _ hvisited hlt
    dsimp only
    omega
  · rw [body_of_le hcur (Nat.not_lt.mp hlt)] at hbody
    cases hbody

lemma Sound.survives (h : Sound table) : Survives table := by
  refine ⟨terminates_iff.mpr h.terminates, ?_⟩
  intro s hreach
  obtain ⟨hcur, hvisited⟩ := visited_of_reaches hreach
  exact (within_round hcur).mpr ⟨h.header, h.inside _ hvisited⟩

lemma not_ends_of_lenAt {r : Scan} (hlt : entriesBegin + s.cur < headerLength.run table)
    (hlen : lenAt table (entriesBegin + s.cur) = 0) : ¬ Ends (body table) s r := by
  apply not_ends (I := fun t => t.cur = s.cur) rfl
  intro t ht
  rw [← ht] at hlt hlen
  refine ⟨_, body_of_lt hlt, ?_⟩
  rw [hlen, Nat.add_zero, ht]

lemma Survives.sound (h : Survives table) : Sound table := by
  obtain ⟨r, hends⟩ := terminates_iff.mp h.terminates
  refine ⟨((within_round (by decide)).mp (h.within start .refl)).1, ?_, ?_⟩
  · intro offset hvisited hlt
    obtain ⟨s, hreach, rfl⟩ := exists_reaches hvisited
    apply Nat.pos_of_ne_zero
    intro hlen
    exact not_ends_of_lenAt hlt hlen (hends.of_reaches hreach)
  · intro offset hvisited hlt
    obtain ⟨s, hreach, rfl⟩ := exists_reaches hvisited
    obtain ⟨hcur, _⟩ := visited_of_reaches hreach
    exact ((within_round hcur).mp (h.within s hreach)).2 hlt

/-- The scan ends and stays inside the table if and only if the entries it comes
to are not empty and lie inside the table. -/
theorem madt_survives_iff (table : ℕ → UInt8) : Survives table ↔ Sound table :=
  ⟨Survives.sound, Sound.survives⟩

def shortTable (id len : UInt8) (i : ℕ) : UInt8 :=
  (List.replicate 4 0 ++ [46, 0, 0, 0] ++ List.replicate 36 0 ++ [id, len]).getD i 0

/-- An entry without length keeps the loop running, and a local APIC of two
bytes is read six bytes too far. -/
theorem madt_does_not_survive :
    (∀ fuel, madtInit fuel (some (shortTable 9 0)) = none) ∧
      headerLength.run (shortTable 0 2) = 46 ∧ 51 ∈ (round start).reads (shortTable 0 2) := by
  refine ⟨?_, by decide, by decide⟩
  intro fuel
  cases hrun : madtInit fuel (some (shortTable 9 0)) with
  | none => rfl
  | some r =>
    obtain ⟨s, hends⟩ := terminates_iff.mp ⟨fuel, Option.isSome_iff_exists.mpr ⟨r, hrun⟩⟩
    exact absurd hends (not_ends_of_lenAt (by decide) (by decide))

end Cottage.Madt
