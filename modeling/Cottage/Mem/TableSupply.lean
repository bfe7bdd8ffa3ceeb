import Cottage.Mem.PageSpaces

/-!
# Pages for missing tables

`map_page` asks the page allocator for a page when a table on the way to its
address is missing, and at no other time.  The calls get through exactly if the
answers for the tables that are missing at the beginning are fresh pages, all
of them different.
-/

namespace Cottage.Paging

open ByteMemory Mem TableWalk

variable {m : Memory} {owned tops : List ℕ} {kernel top : ℕ} {label : Labels}
  {n i virt page phys flags : ℕ} {t t' : Tables} {ok : Bool} {path rest : List ℕ}
  {pages : List ℕ → ℕ+} {demand : Set (List ℕ)} {virts : Set ℕ}

/-- The answers for the tables in `demand` are different fresh pages. -/
structure Supplies (pages : List ℕ → ℕ+) (demand : Set (List ℕ)) (t : Tables) : Prop where
  fresh : ∀ path ∈ demand, FreshPage (pages path) t
  distinct : Set.InjOn pages demand

lemma freshPage_cons_iff {page' : ℕ} :
    FreshPage page ⟨m, page' :: t.owned⟩ ↔ FreshPage page t ∧ page ≠ page' := by
  simp only [FreshPage, List.mem_cons, not_or]
  tauto

lemma supplies_memory (m : Memory) (t : Tables) :
    Supplies pages demand ⟨m, t.owned⟩ ↔ Supplies pages demand t :=
  ⟨fun h => ⟨h.fresh, h.distinct⟩, fun h => ⟨h.fresh, h.distinct⟩⟩

lemma supplies_insert (m : Memory) (hnew : path ∉ demand) :
    Supplies pages (insert path demand) t ↔
      FreshPage (pages path) t ∧ Supplies pages demand ⟨m, pages path :: t.owned⟩ := by
  constructor
  · rintro ⟨hfresh, hdistinct⟩
    obtain ⟨hrest, hother⟩ := (Set.injOn_insert hnew).mp hdistinct
    obtain ⟨hfirst, hfresh⟩ := Set.forall_mem_insert.mp hfresh
    refine ⟨hfirst, fun path' hpath' => freshPage_cons_iff.mpr ⟨hfresh path' hpath', ?_⟩, hrest⟩
    intro heq
    exact hother ⟨path', hpath', PNat.eq heq⟩
  · rintro ⟨hfirst, hfresh, hdistinct⟩
    have hrest (path' : List ℕ) (hpath' : path' ∈ demand) :=
      freshPage_cons_iff.mp (hfresh path' hpath')
    refine ⟨Set.forall_mem_insert.mpr ⟨hfirst, fun path' hpath' => (hrest path' hpath').1⟩, ?_⟩
    refine (Set.injOn_insert hnew).mpr ⟨hdistinct, ?_⟩
    rintro ⟨path', hpath', heq⟩
    exact (hrest path' hpath').2 (congrArg PNat.val heq)

/-- The tables on the way to some addresses that are not there. -/
def missing (m : Memory) (top : ℕ) (virts : Set ℕ) : Set (List ℕ) :=
  {path | walk (nextLevel m) top path = none ∧ ∃ virt ∈ virts, path <+: tablePath virt}

lemma length_le_of_missing (hpath : path ∈ missing m top virts) : path.length ≤ 3 := by
  obtain ⟨_, virt, _, hpart⟩ := hpath
  exact hpart.length_le.trans (length_tablePath virt).le

lemma lt_of_missing (hpath : path ∈ missing m top virts) : ∀ i ∈ path, i < 512 := by
  obtain ⟨_, virt, _, hpart⟩ := hpath
  exact fun i hi => tablePath_lt virt i (hpart.subset hi)

lemma Tree.missing_linked (hs : Tree m owned kernel tops label) (htop : top ∈ tops)
    (hvirt : virt ∈ virts) (hpart : path ++ [i] <+: tablePath virt)
    (hwalk : walk (nextLevel m) top path = some n) (hempty : nextLevel m n i = none)
    (hpage : IsPage page) (hfresh : page ∉ owned) :
    missing m top virts = insert (path ++ [i]) (missing (linked m n i page) top virts) ∧
      path ++ [i] ∉ missing (linked m n i page) top virts := by
  obtain ⟨hi, _, hn⟩ := hs.carries_of_part htop hpart hwalk
  have hchange (path' : List ℕ) (hlt' : ∀ j ∈ path', j < 512) (hlen' : path'.length ≤ 3) :=
    (hs.extension hn hi hempty hpage hfresh top).walk (hs.marking top) (hs.carries_top htop) hlt'
      (by simpa using hlen')
  refine ⟨Set.ext fun path' => ⟨fun hpath' => ?_, fun hpath' => ?_⟩, ?_⟩
  · have hlt' := lt_of_missing hpath'
    have hlen' := length_le_of_missing hpath'
    rcases hchange path' hlt' hlen' with hsame | ⟨_, _, pre, rfl, hpre⟩
    · exact .inr ⟨hsame.trans hpath'.1, hpath'.2⟩
    · have hcarries : Carries kernel top label pre n := by
        apply hs.carries_of_walk htop (fun j hj => hlt' j (List.mem_append_left _ hj)) _ hpre
        rw [List.length_append] at hlen'
        omega
      obtain ⟨_, rfl⟩ := Prod.mk.inj (Option.some.inj (hcarries.symm.trans hn))
      exact .inl rfl
  · rcases hpath' with rfl | hpath'
    · refine ⟨?_, virt, hvirt, hpart⟩
      rw [walk_concat, hwalk, Option.bind_some, hempty]
    · rcases hchange path' (lt_of_missing hpath') (length_le_of_missing hpath') with
        hsame | ⟨hnone, _⟩
      · exact ⟨hsame.symm.trans hpath'.1, hpath'.2⟩
      · exact ⟨hnone, hpath'.2⟩
  · rintro ⟨hnone, _⟩
    cases hnone.symm.trans (hs.walk_linked htop hpart hwalk hempty hpage hfresh)

/-! ## The calls -/

lemma getNextLevel_of_not_fresh (hword : word t.memory n i = 0) (hpage : page ≠ 0)
    (hfresh : ¬ FreshPage page t) : getNextLevel n i true page t = none := by
  rw [word] at hword
  simp only [getNextLevel, hword, Nat.zero_and, ne_eq, not_true_eq_false, if_false,
    Bool.true_eq_false, pmmAlloc, if_neg hpage, if_neg hfresh, Option.map_none]

def tablePages (pages : List ℕ → ℕ+) (virt level : ℕ) : ℕ+ :=
  pages ((tablePath virt).take (4 - level))

def requests (pages : List ℕ → ℕ+) (path : List ℕ) : List ℕ → List (ℕ × ℕ)
  | [] => []
  | i :: rest => (i, pages (path ++ [i])) :: requests pages (path ++ [i]) rest

lemma pml1_tablePages (top virt : ℕ) (pages : List ℕ → ℕ+) (t : Tables) :
    pml1 top virt true (fun level => tablePages pages virt level) t =
      descend true (requests pages [] (tablePath virt)) top t := rfl

section

variable (hs : Space t.memory t.owned kernel tops label) (hfilled : Filled t.memory label)
  (htop : top ∈ tops)

include hs hfilled htop

lemma Space.descend_supplies (hvirt : virt ∈ virts) (hpath : path ++ rest = tablePath virt)
    (hwalk : walk (nextLevel t.memory) top path = some n) :
    (∀ t' n', Paging.descend true (requests pages path rest) n t = some (t', n') →
      (Supplies pages (missing t'.memory top virts) t' ↔
        Supplies pages (missing t.memory top virts) t)) ∧
      (Paging.descend true (requests pages path rest) n t = none →
        ¬ Supplies pages (missing t.memory top virts) t) := by
  induction rest generalizing path n t label with
  | nil =>
    refine ⟨fun t' n' hcall => ?_, fun hcall => absurd hcall (Option.some_ne_none _)⟩
    cases hcall
    exact Iff.rfl
  | cons i rest ih =>
    have hpath' : (path ++ [i]) ++ rest = tablePath virt := by
      rw [← hpath, ← List.append_cons]
    have hpart : path ++ [i] <+: tablePath virt := ⟨rest, hpath'⟩
    obtain ⟨hi, hlen, hn⟩ := hs.carries_of_part htop hpart hwalk
    rw [requests, Paging.descend]
    cases hnext : nextLevel t.memory n i with
    | some n₁ =>
      have hwalk' : walk (nextLevel t.memory) top (path ++ [i]) = some n₁ := by
        rw [walk_concat, hwalk, Option.bind_some, hnext]
      simp only [getNextLevel_of_some hnext, Option.bind_some, if_neg (ne_zero_of_target hnext)]
      exact ih hs hfilled hpath' hwalk'
    | none =>
      have hword : word t.memory n i = 0 := by
        refine (hfilled.nextLevel_isSome hn hlen hi).resolve_right fun hsome => ?_
        rw [hnext] at hsome
        cases hsome
      by_cases hfresh : FreshPage (pages (path ++ [i])) t
      · have hf := hfresh.isPage
        have hs' := hs.extend hn hi hnext hf hfresh.2.2.2
        have hfilled' := (hs.keeps_linked hn hi hnext hf hfresh.2.2.2).filled hfilled
        obtain ⟨hmissing, hnot⟩ :=
          hs.missing_linked htop hvirt hpart hwalk hnext hf hfresh.2.2.2
        have hwalk' := hs.walk_linked htop hpart hwalk hnext hf hfresh.2.2.2
        simp only [getNextLevel_of_zero hword hfresh, Option.bind_some, if_neg hfresh.2.1.ne']
        rw [hmissing, supplies_insert (linked t.memory n i (pages (path ++ [i]))) hnot,
          and_iff_right hfresh]
        exact @ih _ _
          ⟨linked t.memory n i (pages (path ++ [i])), pages (path ++ [i]) :: t.owned⟩ _ hs'
          hfilled' hpath' hwalk'
      · have hcall := getNextLevel_of_not_fresh hword (pages (path ++ [i])).ne_zero hfresh
        have hgone : path ++ [i] ∈ missing t.memory top virts := by
          refine ⟨?_, virt, hvirt, hpart⟩
          rw [walk_concat, hwalk, Option.bind_some, hnext]
        rw [hcall, Option.bind_none]
        exact ⟨fun _ _ h => absurd h (Option.some_ne_none _).symm,
          fun _ hsupplies => hfresh (hsupplies.fresh _ hgone)⟩

lemma Space.mapPage_supplies (hvirt : virt ∈ virts) :
    (∀ t' ok, Paging.mapPage top virt phys flags (fun level => tablePages pages virt level) t =
      some (t', ok) → (Supplies pages (missing t'.memory top virts) t' ↔
        Supplies pages (missing t.memory top virts) t)) ∧
      (Paging.mapPage top virt phys flags (fun level => tablePages pages virt level) t = none →
        ¬ Supplies pages (missing t.memory top virts) t) := by
  obtain ⟨hsome, hnone⟩ := @Space.descend_supplies _ _ _ _ _ _ _ _ (tablePath virt) pages _ hs
    hfilled htop hvirt (List.nil_append _) (walk_nil top)
  constructor
  · intro t' ok hcall
    obtain ⟨⟨t₁, n⟩, hwalk, hend⟩ := Option.map_eq_some_iff.mp hcall
    obtain ⟨label', hs', _, _, hreach, _⟩ := hs.pml1 htop hwalk
    rw [← hsome t₁ n hwalk]
    by_cases hn : n = 0
    · simp only [if_pos hn, Prod.mk.injEq] at hend
      rw [hend.1]
    · simp only [if_neg hn, Prod.mk.injEq] at hend
      obtain ⟨rfl, _⟩ := hend
      have hlabel := hs'.carries_of_walk htop (tablePath_lt virt) (length_tablePath virt).le
        (hreach hn)
      have hsame : missing (write64 t₁.memory (entryAddr n (pml1Entry virt)) (phys ||| flags)) top
          virts = missing t₁.memory top virts := by
        refine Set.ext fun path => and_congr_left ?_
        rintro ⟨virt', _, hpart⟩
        rw [hs'.walk_write hlabel (length_tablePath virt) (pml1Entry_lt virt) _ htop
          (fun j hj => tablePath_lt virt' j (hpart.subset hj))
          (hpart.length_le.trans (length_tablePath virt').le)]
      rw [hsame]
      exact supplies_memory _ _
  · intro hcall
    exact hnone (Option.map_eq_none_iff.mp hcall)

end

lemma missing_eq_empty (hmapped : ∀ virt ∈ virts, (entry m top virt).isSome) :
    missing m top virts = ∅ := by
  refine Set.eq_empty_of_forall_notMem ?_
  rintro path ⟨hnone, virt, hvirt, rest, hpath⟩
  have hsome := hmapped virt hvirt
  rw [entry, ← hpath, walk_append, hnone, Option.bind_none] at hsome
  cases hsome

end Cottage.Paging
