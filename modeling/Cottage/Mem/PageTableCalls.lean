import Cottage.Mem.PageTableShape

/-!
# What the page table functions do

The functions seen through the shape of the tables.  `entry` is the word that a
pagemap holds for an address, if there are tables down to it.  Walking down
with allocation changes no word that was there; where there was none, there may
now be a zero, in the same pagemap or in the shared higher half.
-/

namespace Cottage.Paging

open ByteMemory Mem TableWalk

variable {m m' : Memory} {owned tops : List ℕ} {kernel top top' : ℕ} {label : Labels}
  {n n' i virt virt' page : ℕ} {path : List ℕ} {t t' : Tables} {allocate : Bool}

def tablePath (virt : ℕ) : List ℕ :=
  [pml4Entry virt, pml3Entry virt, pml2Entry virt]

lemma length_tablePath (virt : ℕ) : (tablePath virt).length = 3 := rfl

lemma tablePath_lt (virt : ℕ) : ∀ i ∈ tablePath virt, i < 512 := by
  intro i hi
  simp only [tablePath, List.mem_cons, List.not_mem_nil, or_false] at hi
  rcases hi with rfl | rfl | rfl <;> exact tableIndex_lt _ _

lemma pml1Entry_lt (virt : ℕ) : pml1Entry virt < 512 :=
  tableIndex_lt 12 virt

/-- The number of the page of an address, from the bits that are translated. -/
def pageNumber (virt : ℕ) : ℕ :=
  virt / pageSize % 2 ^ 36

def HigherHalf (virt : ℕ) : Prop :=
  256 ≤ pml4Entry virt

instance : DecidablePred HigherHalf :=
  fun _ => inferInstanceAs (Decidable (_ ≤ _))

lemma pageNumber_eq_iff :
    pageNumber virt = pageNumber virt' ↔
      tablePath virt = tablePath virt' ∧ pml1Entry virt = pml1Entry virt' := by
  simp only [tablePath, List.cons.injEq, and_true, pml4Entry, pml3Entry, pml2Entry, pml1Entry,
    tableIndex_eq, pageNumber, pageSize]
  omega

lemma higherHalf_congr (heq : pageNumber virt = pageNumber virt') :
    HigherHalf virt ↔ HigherHalf virt' := by
  have hindex := (List.cons.inj (pageNumber_eq_iff.mp heq).1).1
  rw [HigherHalf, HigherHalf, hindex]

def Canonical (virt : ℕ) : Prop :=
  virt < 2 ^ 47 ∨ 2 ^ 64 - 2 ^ 47 ≤ virt ∧ virt < 2 ^ 64

lemma eq_of_pageNumber_eq (hcanon : Canonical virt) (hcanon' : Canonical virt')
    (halign : pageSize ∣ virt) (halign' : pageSize ∣ virt')
    (heq : pageNumber virt = pageNumber virt') : virt = virt' := by
  obtain ⟨k, rfl⟩ := halign
  obtain ⟨k', rfl⟩ := halign'
  simp only [Canonical, pageNumber, pageSize] at *
  omega

def entry (m : Memory) (top virt : ℕ) : Option ℕ :=
  (walk (nextLevel m) top (tablePath virt)).map fun n => word m n (pml1Entry virt)

/-- Words stay, except that missing ones may become zero in the pagemap `top`
and, when the call is about the higher half, in all pagemaps. -/
def Grows (tops : List ℕ) (top virt : ℕ) (m m' : Memory) : Prop :=
  ∀ top' ∈ tops, ∀ virt', entry m' top' virt' = entry m top' virt' ∨
    entry m top' virt' = none ∧ entry m' top' virt' = some 0 ∧ (top' = top ∨ HigherHalf virt)

lemma Grows.refl (tops : List ℕ) (top virt : ℕ) (m : Memory) : Grows tops top virt m m :=
  fun _ _ _ => .inl rfl

lemma Grows.trans {m'' : Memory} (h : Grows tops top virt m m')
    (h' : Grows tops top virt m' m'') : Grows tops top virt m m'' := by
  intro top' htop' virt'
  rcases h' top' htop' virt' with hsame | ⟨hnone, hzero, hshared⟩
  · rw [hsame]
    exact h top' htop' virt'
  · rcases h top' htop' virt' with hsame | ⟨_, hzero', _⟩
    · rw [hsame] at hnone
      exact .inr ⟨hnone, hzero, hshared⟩
    · rw [hzero'] at hnone
      cases hnone

lemma owner_tablePath (kernel top virt : ℕ) :
    owner kernel top (tablePath virt) = if HigherHalf virt then kernel else top := rfl

lemma eq_or_higherHalf {path : List ℕ} (hpath : path ++ [i] = tablePath virt)
    (howner : owner kernel top' path = owner kernel top path) : top' = top ∨ HigherHalf virt := by
  by_cases hhigher : HigherHalf virt
  · exact .inr hhigher
  · left
    have hsplit : path ++ [i] = [pml4Entry virt, pml3Entry virt] ++ [pml2Entry virt] := hpath
    obtain rfl := List.append_inj_left' hsplit rfl
    rw [HigherHalf] at hhigher
    simpa only [owner, if_neg hhigher] using howner

lemma Tree.grows_linked {f : ℕ} {rest : List ℕ} (hs : Tree m owned kernel tops label)
    (hn : Carries kernel top label path n) (hpath : path ++ i :: rest = tablePath virt)
    (hempty : nextLevel m n i = none) (hf : IsPage f) (hfresh : f ∉ owned) :
    Grows tops top virt m (linked m n i f) := by
  have hi : i < 512 := by
    apply tablePath_lt virt
    rw [← hpath]
    exact List.mem_append_right path (.head _)
  have hlen : path.length + (rest.length + 1) = 3 := by
    rw [← List.length_cons, ← List.length_append, hpath, length_tablePath]
  have hpage := hs.isPage hn
  intro top' htop' virt'
  have hwalk := (hs.extension hn hi hempty hf hfresh top').walk (hs.marking top')
    (hs.carries_top htop') (tablePath_lt virt') (by simp [length_tablePath])
  rcases hwalk with hsame | ⟨hnone, hsome, pre, hpre, hat⟩
  · left
    rw [entry, entry, hsame]
    cases hend : walk (nextLevel m) top' (tablePath virt') with
    | none => rw [Option.map_none, Option.map_none]
    | some n' =>
      have hn' := hs.carries_of_walk htop' (tablePath_lt virt') (length_tablePath virt').le hend
      have hne : n' ≠ n := by
        rintro rfl
        have heq := (Prod.mk.inj (Option.some.inj (hn.symm.trans hn'))).2
        have hlen' := congrArg List.length heq
        rw [length_tablePath] at hlen'
        omega
      rw [Option.map_some, Option.map_some, word_linked_of_ne m hpage hf (hs.isPage hn')
        (hs.label_ne hfresh hn') hi (pml1Entry_lt virt') fun h => hne h.1]
  · right
    have hpreLength : pre.length + 1 = 3 := by
      rw [← List.length_singleton (a := i), ← List.length_append, ← hpre, length_tablePath]
    have hlt : ∀ j ∈ pre, j < 512 := by
      intro j hj
      apply tablePath_lt virt'
      rw [hpre]
      exact List.mem_append_left [i] hj
    have hcarries := hs.carries_of_walk htop' hlt (by omega) hat
    obtain ⟨howner, rfl⟩ := Prod.mk.inj (Option.some.inj (hn.symm.trans hcarries))
    obtain rfl : rest = [] := List.eq_nil_of_length_eq_zero (by omega)
    refine ⟨?_, ?_, eq_or_higherHalf hpath howner.symm⟩
    · rw [entry, hnone, Option.map_none]
    · rw [entry, hsome, Option.map_some, word_linked_new m hpage hf
        (hs.label_ne hfresh hn).symm hi (pml1Entry_lt virt')]

/-! ## Walking down -/

section

variable (hs : Tree m owned kernel tops label) (htop : top ∈ tops)
  (hpart : path ++ [i] <+: tablePath virt)

include hs htop hpart

lemma Tree.carries_of_part (hwalk : walk (nextLevel m) top path = some n) :
    i < 512 ∧ path.length < 3 ∧ Carries kernel top label path n := by
  have hlt (j : ℕ) (hj : j ∈ path ++ [i]) : j < 512 := tablePath_lt virt j (hpart.subset hj)
  have hlen := hpart.length_le.trans (length_tablePath virt).le
  rw [List.length_append, List.length_singleton] at hlen
  refine ⟨hlt i (List.mem_append_right _ (.head _)), hlen, ?_⟩
  exact hs.carries_of_walk htop (fun j hj => hlt j (List.mem_append_left _ hj)) (by omega) hwalk

lemma Tree.walk_linked (hwalk : walk (nextLevel m) top path = some n)
    (hempty : nextLevel m n i = none) (hpage : IsPage page) (hfresh : page ∉ owned) :
    walk (nextLevel (linked m n i page)) top (path ++ [i]) = some page := by
  obtain ⟨hi, hlen, hn⟩ := hs.carries_of_part htop hpart hwalk
  have hlt (j : ℕ) (hj : j ∈ path) : j < 512 :=
    tablePath_lt virt j (hpart.subset (List.mem_append_left _ hj))
  have hext := hs.extension hn hi hempty hpage hfresh top
  rcases hext.walk (hs.marking top) (hs.carries_top htop) hlt (by simpa using hlen.le) with
    hsame | ⟨hnone, _⟩
  · rw [walk_concat, hsame, hwalk, Option.bind_some, hext.entry]
  · cases hnone.symm.trans hwalk

end

lemma getNextLevel_of_some (hnext : nextLevel t.memory n i = some n') :
    getNextLevel n i allocate page t = some (t, n') := by
  rw [nextLevel, target, word] at hnext
  split at hnext
  · rename_i hpresent
    rw [getNextLevel, if_pos hpresent.1, Option.some.inj hnext]
  · cases hnext

lemma getNextLevel_cases {next : ℕ} (hcall : getNextLevel n i allocate page t = some (t', next)) :
    (next = 0 ∧ t' = t) ∨ (nextLevel t.memory n i = some next ∧ t' = t) ∨
      nextLevel t.memory n i = none ∧ FreshPage next t ∧
        t' = ⟨linked t.memory n i next, next :: t.owned⟩ := by
  simp only [getNextLevel] at hcall
  split at hcall
  · rename_i hpresent
    cases hcall
    by_cases hzero : pageBase (read64 t.memory (entryAddr n i)) = 0
    · exact .inl ⟨hzero, rfl⟩
    · refine .inr (.inl ⟨?_, rfl⟩)
      rw [nextLevel, target, word, if_pos ⟨hpresent, hzero⟩]
  · rename_i habsent
    have hnone : nextLevel t.memory n i = none := by
      rw [nextLevel, target, word, if_neg fun h => habsent h.1]
    split at hcall
    · cases hcall
      exact .inl ⟨rfl, rfl⟩
    · obtain ⟨⟨t₁, ret⟩, halloc, heq⟩ := Option.map_eq_some_iff.mp hcall
      rw [pmmAlloc] at halloc
      split at halloc
      · cases halloc
        cases heq
        exact .inl ⟨rfl, rfl⟩
      · rename_i hne
        split at halloc
        · rename_i hfresh
          cases halloc
          simp only [if_neg hne] at heq
          cases heq
          exact .inr (.inr ⟨hnone, hfresh, rfl⟩)
        · cases halloc

lemma getNextLevel_ne_zero {next : ℕ}
    (hword : word t.memory n i = 0 ∨ (nextLevel t.memory n i).isSome) (hpage : page ≠ 0)
    (hcall : getNextLevel n i true page t = some (t', next)) : next ≠ 0 := by
  rcases getNextLevel_cases hcall with ⟨rfl, rfl⟩ | ⟨hsome, _⟩ | ⟨_, hfresh, _⟩
  · simp only [getNextLevel] at hcall
    split at hcall
    · rename_i hpresent
      obtain ⟨_, hzero⟩ := Prod.mk.inj (Option.some.inj hcall)
      rcases hword with hword | hsome
      · rw [word] at hword
        exact absurd (by rw [hword, Nat.zero_and]) hpresent
      · rw [nextLevel, target, word, if_neg fun h => h.2 hzero] at hsome
        cases hsome
    · rw [if_neg (by decide), pmmAlloc, if_neg hpage] at hcall
      split at hcall
      · simp only [Option.map_some, if_neg hpage, Option.some.injEq, Prod.mk.injEq] at hcall
        exact absurd hcall.2 hpage
      · cases hcall
  · exact ne_zero_of_target hsome
  · exact hfresh.2.1.ne'

lemma FreshPage.isPage (h : FreshPage page t) : IsPage page :=
  ⟨h.1, h.2.1, h.2.2.1⟩

lemma Space.descend {rest : List (ℕ × ℕ)} (hs : Space t.memory t.owned kernel tops label)
    (htop : top ∈ tops) (hpath : path ++ rest.map Prod.fst = tablePath virt)
    (hwalk : walk (nextLevel t.memory) top path = some n)
    (hcall : descend allocate rest n t = some (t', n')) :
    ∃ label', Space t'.memory t'.owned kernel tops label' ∧
      Keeps t.memory t'.memory t.owned t'.owned label label' ∧
      Grows tops top virt t.memory t'.memory ∧
      (n' ≠ 0 → walk (nextLevel t'.memory) top (tablePath virt) = some n') ∧
        (allocate = true → Filled t.memory label → (∀ x ∈ rest, x.2 ≠ 0) → n ≠ 0 → n' ≠ 0) := by
  induction rest generalizing path n t label with
  | nil =>
    cases hcall
    rw [List.map_nil, List.append_nil] at hpath
    exact ⟨label, hs, Keeps.refl _ _ _, Grows.refl _ _ _ _, fun _ => hpath ▸ hwalk,
      fun _ _ _ hn => hn⟩
  | cons x rest ih =>
    obtain ⟨i, page⟩ := x
    rw [List.map_cons] at hpath
    have hpath' : (path ++ [i]) ++ rest.map Prod.fst = tablePath virt := by
      rw [← hpath, ← List.append_cons]
    have hpart : path ++ [i] <+: tablePath virt := ⟨_, hpath'⟩
    obtain ⟨hi, hlen, hn⟩ := hs.carries_of_part htop hpart hwalk
    obtain ⟨⟨t₁, next⟩, hnext, hrest⟩ := Option.bind_eq_some_iff.mp hcall
    simp only at hrest
    split at hrest
    · rename_i hzero
      cases hrest
      rcases getNextLevel_cases hnext with ⟨_, rfl⟩ | ⟨hsome, _⟩ | ⟨_, hfresh, _⟩
      · refine ⟨label, hs, Keeps.refl _ _ _, Grows.refl _ _ _ _, fun h => absurd rfl h, ?_⟩
        rintro rfl hfilled hpos _
        have hword := hfilled.nextLevel_isSome hn hlen hi
        exact absurd hzero (getNextLevel_ne_zero hword (hpos _ (.head _)) hnext)
      · exact absurd hzero (ne_zero_of_target hsome)
      · exact absurd hzero hfresh.2.1.ne'
    · rename_i hne
      rcases getNextLevel_cases hnext with ⟨hzero, _⟩ | ⟨hsome, rfl⟩ | ⟨hnone, hfresh, rfl⟩
      · exact absurd hzero hne
      · have hwalk' : walk (nextLevel t₁.memory) top (path ++ [i]) = some next := by
          rw [walk_concat, hwalk, Option.bind_some, hsome]
        obtain ⟨label', hspace, hkeeps, hgrows, hend, hreach⟩ := ih hs hpath' hwalk' hrest
        exact ⟨label', hspace, hkeeps, hgrows, hend, fun hall hfilled hpos _ =>
          hreach hall hfilled (fun x hx => hpos x (.tail _ hx)) hne⟩
      · have hf := hfresh.isPage
        have hs' := hs.extend hn hi hnone hf hfresh.2.2.2
        have hkeeps := hs.keeps_linked hn hi hnone hf hfresh.2.2.2
        have hwalk' := hs.walk_linked htop hpart hwalk hnone hf hfresh.2.2.2
        have hgrows := hs.grows_linked hn hpath hnone hf hfresh.2.2.2
        obtain ⟨label', hspace, hkeeps', hgrows', hend, hreach⟩ :=
          ih (t := ⟨linked t.memory n i next, next :: t.owned⟩) hs' hpath' hwalk' hrest
        exact ⟨label', hspace, hkeeps.trans hkeeps', hgrows.trans hgrows', hend,
          fun hall hfilled hpos _ => hreach hall (hkeeps.filled hfilled)
            (fun x hx => hpos x (.tail _ hx)) hne⟩

lemma Space.pml1 {pages : ℕ → ℕ} (hs : Space t.memory t.owned kernel tops label)
    (htop : top ∈ tops) (hcall : pml1 top virt allocate pages t = some (t', n')) :
    ∃ label', Space t'.memory t'.owned kernel tops label' ∧
      Keeps t.memory t'.memory t.owned t'.owned label label' ∧
      Grows tops top virt t.memory t'.memory ∧
      (n' ≠ 0 → walk (nextLevel t'.memory) top (tablePath virt) = some n') ∧
        (allocate = true → Filled t.memory label → (∀ l ∈ [3, 2, 1], pages l ≠ 0) → n' ≠ 0) := by
  have hpath : [] ++ [(pml4Entry virt, pages 3), (pml3Entry virt, pages 2),
      (pml2Entry virt, pages 1)].map Prod.fst = tablePath virt := rfl
  obtain ⟨label', hs', hkeeps, hgrows, hend, hreach⟩ :=
    hs.descend htop hpath (walk_nil top) hcall
  refine ⟨label', hs', hkeeps, hgrows, hend, fun hall hfilled hpos => ?_⟩
  apply hreach hall hfilled _ (hs.isPage (hs.top top htop)).2.1.ne'
  simpa using hpos

lemma descend_false {rest : List (ℕ × ℕ)} (hn : n ≠ 0) :
    descend false rest n t = some (t, (walk (nextLevel t.memory) n (rest.map Prod.fst)).getD 0) ∧
      ∀ n', walk (nextLevel t.memory) n (rest.map Prod.fst) = some n' → n' ≠ 0 := by
  induction rest generalizing n with
  | nil =>
    refine ⟨rfl, fun n' hn' => ?_⟩
    exact Option.some.inj hn' ▸ hn
  | cons x rest ih =>
    obtain ⟨i, page⟩ := x
    rw [descend, List.map_cons, walk_cons]
    cases hnext : nextLevel t.memory n i with
    | none =>
      refine ⟨?_, fun n' hn' => absurd hn' (by simp)⟩
      have hcall : getNextLevel n i false page t = some (t, 0) := by
        simp only [getNextLevel]
        split
        · rename_i hpresent
          have hzero : pageBase (read64 t.memory (entryAddr n i)) = 0 := by
            by_contra hne
            rw [nextLevel, target, word, if_pos ⟨hpresent, hne⟩] at hnext
            cases hnext
          rw [hzero]
        · rw [if_pos trivial]
      simp only [hcall, Option.bind_some, if_true, Option.bind_none, Option.getD_none]
    | some n₁ =>
      have hne := ne_zero_of_target hnext
      simp only [getNextLevel_of_some hnext, Option.bind_some, if_neg hne]
      exact ih hne

lemma pml1_false (virt : ℕ) (pages : ℕ → ℕ) (t : Tables) (htop : top ≠ 0) :
    pml1 top virt false pages t =
        some (t, (walk (nextLevel t.memory) top (tablePath virt)).getD 0) ∧
      ∀ n, walk (nextLevel t.memory) top (tablePath virt) = some n → n ≠ 0 := by
  have hpath : [(pml4Entry virt, pages 3), (pml3Entry virt, pages 2),
      (pml2Entry virt, pages 1)].map Prod.fst = tablePath virt := rfl
  rw [pml1, ← hpath]
  exact descend_false htop

lemma virt2pte_false (virt : ℕ) (pages : ℕ → ℕ) (t : Tables) (htop : top ≠ 0) :
    virt2pte top virt false pages t = some (t,
      ((walk (nextLevel t.memory) top (tablePath virt)).map
        fun n => entryAddr n (pml1Entry virt)).getD 0) := by
  obtain ⟨hcall, hne⟩ := pml1_false virt pages t htop
  simp only [virt2pte, hcall, Option.map_some]
  cases hwalk : walk (nextLevel t.memory) top (tablePath virt) with
  | none => rw [Option.getD_none, if_pos rfl, Option.map_none, Option.getD_none]
  | some n =>
    rw [Option.getD_some, if_neg (hne n hwalk), Option.map_some, Option.getD_some]

def entryAt (top virt : ℕ) (t : Tables) : Option ℕ :=
  (virt2pte top virt false (fun _ => 0) t).bind fun (t, pte) =>
    if pte = 0 then none else some (read64 t.memory pte)

lemma entryAddr_ne_zero (n i : ℕ) : entryAddr n i ≠ 0 := by
  simp only [entryAddr, higherHalf]
  omega

lemma entryAt_of_pte {pte : ℕ} (hcall : virt2pte top virt false (fun _ => 0) t = some (t, pte)) :
    entryAt top virt t = if pte = 0 then none else some (read64 t.memory pte) := by
  rw [entryAt, hcall, Option.bind_some]

lemma entryAt_eq (virt : ℕ) (t : Tables) (htop : top ≠ 0) :
    entryAt top virt t = entry t.memory top virt := by
  have hpte := virt2pte_false virt (fun _ => 0) t htop
  cases hwalk : walk (nextLevel t.memory) top (tablePath virt) with
  | none =>
    rw [hwalk, Option.map_none, Option.getD_none] at hpte
    rw [entryAt_of_pte hpte, if_pos rfl, entry, hwalk, Option.map_none]
  | some n =>
    rw [hwalk, Option.map_some, Option.getD_some] at hpte
    rw [entryAt_of_pte hpte, if_neg (entryAddr_ne_zero n _), entry, hwalk, Option.map_some, word]

end Cottage.Paging
