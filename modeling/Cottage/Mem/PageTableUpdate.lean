import Cottage.Mem.PageTableCalls

/-!
# Updates of single pages

A call on a page walks down to the table for it and, unless a table is
missing, writes one word there.  The word belongs to the page in this pagemap
and, when the page is in the higher half, in all pagemaps.
-/

namespace Cottage.Paging

open ByteMemory Mem TableWalk

variable {m m' : Memory} {owned tops : List ℕ} {kernel top top' : ℕ} {label : Labels}
  {n n' i virt virt' page : ℕ} {t t' : Tables} {ok : Bool} {call : PageCall}

/-- The word that a call stores over the word `old`. -/
def PageCall.stored (old : ℕ) : PageCall → ℕ
  | .mapPage phys flags _ => phys ||| flags
  | .unmapPage => 0
  | .flagPage flags => pageBase old ||| flags

lemma PageCall.stored_lt {old : ℕ} (hfits : call.Fits) (hold : old < 2 ^ 64) :
    call.stored old < 2 ^ 64 := by
  cases call with
  | mapPage phys flags pages => exact Nat.or_lt_two_pow hfits.1 hfits.2
  | unmapPage => exact Nat.two_pow_pos 64
  | flagPage flags => exact Nat.or_lt_two_pow ((pageBase_le old).trans_lt hold) hfits

lemma write64_or (m : Memory) (a flags : ℕ) {v : ℕ} (hv : v < 2 ^ 64) :
    write64 (write64 m a v) a (read64 (write64 m a v) a ||| flags) = write64 m a (v ||| flags) := by
  rw [write64_write64, read64_write64, Nat.mod_eq_of_lt hv]

def PageCall.finish (virt n : ℕ) (t : Tables) (call : PageCall) : Tables × Bool :=
  if n = 0 then (t, false)
  else ({ t with
    memory := write64 t.memory (entryAddr n (pml1Entry virt))
      (call.stored (word t.memory n (pml1Entry virt))) }, true)

lemma virt2pte_of_pml1 {pages : ℕ → ℕ} (hwalk : pml1 top virt false pages t = some (t', n)) :
    virt2pte top virt false pages t =
      some (t', if n = 0 then 0 else entryAddr n (pml1Entry virt)) := by
  rw [virt2pte, hwalk, Option.map_some]

lemma mapPage_eq {phys flags : ℕ} {pages : ℕ → ℕ}
    (hwalk : pml1 top virt true pages t = some (t', n)) :
    mapPage top virt phys flags pages t =
      some (PageCall.finish virt n t' (.mapPage phys flags pages)) := by
  rw [mapPage, hwalk, Option.map_some]
  rfl

lemma unmapPage_of_pte {pte : ℕ} (hcall : virt2pte top virt false (fun _ => 0) t = some (t', pte)) :
    unmapPage top virt t = some (if pte = 0 then (t', false)
      else ({ t' with memory := write64 t'.memory pte 0 }, true)) := by
  rw [unmapPage, hcall, Option.map_some]

lemma unmapPage_eq (hwalk : pml1 top virt false (fun _ => 0) t = some (t', n)) :
    unmapPage top virt t = some (PageCall.finish virt n t' .unmapPage) := by
  rw [unmapPage_of_pte (virt2pte_of_pml1 hwalk), PageCall.finish]
  by_cases hn : n = 0
  · rw [if_pos hn, if_pos hn, if_pos rfl]
  · rw [if_neg hn, if_neg hn, if_neg (entryAddr_ne_zero n _), PageCall.stored]

lemma flagPage_of_pte {pte flags : ℕ}
    (hcall : virt2pte top virt false (fun _ => 0) t = some (t', pte)) :
    flagPage top virt flags t = some (if pte = 0 then (t', false)
      else ({ t' with
        memory := write64 t'.memory pte (pageBase (read64 t'.memory pte) ||| flags) }, true)) := by
  have hlt := (pageBase_le (read64 t'.memory pte)).trans_lt (read64_lt t'.memory pte)
  rw [flagPage, hcall, Option.map_some, ← write64_or _ _ _ hlt]

lemma flagPage_eq {flags : ℕ} (hwalk : pml1 top virt false (fun _ => 0) t = some (t', n)) :
    flagPage top virt flags t = some (PageCall.finish virt n t' (.flagPage flags)) := by
  rw [flagPage_of_pte (virt2pte_of_pml1 hwalk), PageCall.finish]
  by_cases hn : n = 0
  · rw [if_pos hn, if_pos hn, if_pos rfl]
  · rw [if_neg hn, if_neg hn, if_neg (entryAddr_ne_zero n _), PageCall.stored, word]

lemma PageCall.run_cases (hcall : call.run top virt t = some (t', ok)) :
    ∃ t₁ n allocate pages, pml1 top virt allocate pages t = some (t₁, n) ∧
      (t', ok) = call.finish virt n t₁ := by
  cases call with
  | mapPage phys flags pages =>
    obtain ⟨⟨t₁, n⟩, hwalk, _⟩ := Option.map_eq_some_iff.mp hcall
    refine ⟨t₁, n, true, pages, hwalk, ?_⟩
    exact Option.some.inj (hcall.symm.trans (mapPage_eq hwalk))
  | unmapPage =>
    obtain ⟨_, hpte, _⟩ := Option.map_eq_some_iff.mp hcall
    obtain ⟨⟨t₁, n⟩, hwalk, _⟩ := Option.map_eq_some_iff.mp hpte
    refine ⟨t₁, n, false, _, hwalk, ?_⟩
    exact Option.some.inj (hcall.symm.trans (unmapPage_eq hwalk))
  | flagPage flags =>
    obtain ⟨_, hpte, _⟩ := Option.map_eq_some_iff.mp hcall
    obtain ⟨⟨t₁, n⟩, hwalk, _⟩ := Option.map_eq_some_iff.mp hpte
    refine ⟨t₁, n, false, _, hwalk, ?_⟩
    exact Option.some.inj (hcall.symm.trans (flagPage_eq hwalk))

/-- The word of `virt` in `top` is also the word of `virt'` in `top'`. -/
def Touches (top virt top' virt' : ℕ) : Prop :=
  pageNumber virt = pageNumber virt' ∧ (top = top' ∨ HigherHalf virt')

instance (top virt top' virt' : ℕ) : Decidable (Touches top virt top' virt') :=
  inferInstanceAs (Decidable (_ ∧ _))

lemma Space.walk_of_touches (hs : Space m owned kernel tops label) (htop : top ∈ tops)
    (htop' : top' ∈ tops) (htouch : Touches top virt top' virt') :
    walk (nextLevel m) top' (tablePath virt') = walk (nextLevel m) top (tablePath virt) := by
  obtain ⟨hpage, hshared⟩ := htouch
  rw [(pageNumber_eq_iff.mp hpage).1]
  rcases hshared with rfl | hhigher
  · rfl
  · have hlt : pml4Entry virt' < 512 := tableIndex_lt 39 virt'
    rw [tablePath, hs.walk_higher htop hhigher hlt, hs.walk_higher htop' hhigher hlt]

lemma Tree.touches_of_walk (hs : Tree m owned kernel tops label) (htop : top ∈ tops)
    (htop' : top' ∈ tops) (hwalk : walk (nextLevel m) top (tablePath virt) = some n)
    (hwalk' : walk (nextLevel m) top' (tablePath virt') = some n)
    (hindex : pml1Entry virt = pml1Entry virt') : Touches top virt top' virt' := by
  have hn := hs.carries_of_walk htop (tablePath_lt virt) (length_tablePath virt).le hwalk
  have hn' := hs.carries_of_walk htop' (tablePath_lt virt') (length_tablePath virt').le hwalk'
  obtain ⟨howner, hpath⟩ := Prod.mk.inj (Option.some.inj (hn.symm.trans hn'))
  refine ⟨pageNumber_eq_iff.mpr ⟨hpath, hindex⟩, ?_⟩
  by_cases hhigher : HigherHalf virt'
  · exact .inr hhigher
  · rw [hpath, owner_tablePath, owner_tablePath, if_neg hhigher, if_neg hhigher] at howner
    exact .inl howner

lemma Space.entry_write {v : ℕ} (hs : Space m owned kernel tops label) (htop : top ∈ tops)
    (htop' : top' ∈ tops) (hwalk : walk (nextLevel m) top (tablePath virt) = some n)
    (hv : v < 2 ^ 64) :
    entry (write64 m (entryAddr n (pml1Entry virt)) v) top' virt' =
      if Touches top virt top' virt' then some v else entry m top' virt' := by
  have hn := hs.carries_of_walk htop (tablePath_lt virt) (length_tablePath virt).le hwalk
  have hkept := hs.walk_write hn (length_tablePath virt) (pml1Entry_lt virt) v htop'
    (tablePath_lt virt') (length_tablePath virt').le
  rw [entry, hkept]
  split
  · rename_i htouch
    rw [hs.walk_of_touches htop htop' htouch, hwalk, Option.map_some,
      (pageNumber_eq_iff.mp htouch.1).2, word_write64_self m hv]
  · rename_i hother
    rw [entry]
    cases hwalk' : walk (nextLevel m) top' (tablePath virt') with
    | none => rw [Option.map_none, Option.map_none]
    | some n' =>
      have hn' := hs.carries_of_walk htop' (tablePath_lt virt') (length_tablePath virt').le hwalk'
      rw [Option.map_some, Option.map_some, word_write64_of_ne m v (hs.isPage hn') (hs.isPage hn)
        (pml1Entry_lt virt') (pml1Entry_lt virt)]
      rintro ⟨rfl, hindex⟩
      exact hother (hs.touches_of_walk htop htop' hwalk hwalk' hindex.symm)

/-! ## A call on a page -/

lemma Space.run (hs : Space t.memory t.owned kernel tops label) (htop : top ∈ tops)
    (hfits : call.Fits) (hcall : call.run top virt t = some (t', ok)) :
    ∃ m₁ label', Space t'.memory t'.owned kernel tops label' ∧
      Keeps t.memory t'.memory t.owned t'.owned label label' ∧
      Grows tops top virt t.memory m₁ ∧
      ((ok = false ∧ t'.memory = m₁) ∨
        ok = true ∧ ∃ old, ∀ top' ∈ tops, ∀ virt',
          (Touches top virt top' virt' → entry m₁ top' virt' = some old) ∧
            entry t'.memory top' virt' = if Touches top virt top' virt'
              then some (call.stored old) else entry m₁ top' virt') := by
  obtain ⟨t₁, n, allocate, pages, hwalk, hend⟩ := PageCall.run_cases hcall
  obtain ⟨label', hs', hkeeps, hgrows, hreach, _⟩ := hs.pml1 htop hwalk
  rw [PageCall.finish] at hend
  by_cases hn : n = 0
  · rw [if_pos hn] at hend
    cases hend
    exact ⟨t'.memory, label', hs', hkeeps, hgrows, .inl ⟨rfl, rfl⟩⟩
  · rw [if_neg hn] at hend
    cases hend
    have hwalk' := hreach hn
    have hlabel := hs'.carries_of_walk htop (tablePath_lt virt) (length_tablePath virt).le hwalk'
    have hlen := length_tablePath virt
    have hi := pml1Entry_lt virt
    refine ⟨t₁.memory, label', hs'.write hlabel hlen hi _,
      hkeeps.trans (hs'.keeps_write hlabel hlen hi _), hgrows,
      .inr ⟨rfl, word t₁.memory n (pml1Entry virt), ?_⟩⟩
    intro top' htop' virt'
    refine ⟨fun htouch => ?_, ?_⟩
    · rw [entry, hs'.walk_of_touches htop htop' htouch, hwalk', Option.map_some,
        (pageNumber_eq_iff.mp htouch.1).2]
    · apply hs'.entry_write htop htop' hwalk'
      exact PageCall.stored_lt hfits (read64_lt _ _)

lemma Keeps.higher (hs : Shape t.memory t.owned kernel tops label) {label' : Labels}
    (hkeeps : Keeps t.memory t'.memory t.owned t'.owned label label') (i : ℕ) (hi : 256 ≤ i)
    (hi' : i < 512) : (nextLevel t'.memory kernel i).isSome := by
  obtain ⟨_, hsome⟩ := hs.higher kernel hs.kernel_mem i hi hi'
  obtain ⟨n', hn'⟩ := Option.isSome_iff_exists.mp hsome
  rw [hkeeps.link kernel _ i n' (hs.top kernel hs.kernel_mem) (Nat.succ_pos 2) hi' hn']
  rfl

lemma Shape.run (hs : Shape t.memory t.owned kernel tops label) (htop : top ∈ tops)
    (hfits : call.Fits) (hcall : call.run top virt t = some (t', ok)) :
    ∃ m₁ label', Shape t'.memory t'.owned kernel tops label' ∧ Grows tops top virt t.memory m₁ ∧
      ((ok = false ∧ t'.memory = m₁) ∨
        ok = true ∧ ∃ old, ∀ top' ∈ tops, ∀ virt',
          (Touches top virt top' virt' → entry m₁ top' virt' = some old) ∧
            entry t'.memory top' virt' = if Touches top virt top' virt'
              then some (call.stored old) else entry m₁ top' virt') := by
  obtain ⟨m₁, label', hs', hkeeps, hend⟩ := hs.toSpace.run htop hfits hcall
  exact ⟨m₁, label', hs'.toShape (hkeeps.higher hs), hend⟩

end Cottage.Paging
