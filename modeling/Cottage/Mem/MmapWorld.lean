import Cottage.Mem.Mmap

/-!
# The tables behind ranges

All pagemaps share the kernel's higher half, and each global record has a
shadow pagemap of its own.  `World` says that the tables are so, and each call
on a page is followed through it: a word of one pagemap changes, in the higher
half of all, and frames keep their bytes.
-/

namespace Cottage.Mmap

open ByteMemory Mem Paging Function

lemma bind_eq_ok {α β : Type} {x : Except Halt α} {f : α → Except Halt β} {b : β} :
    x.bind f = .ok b ↔ ∃ a, x = .ok a ∧ f a = .ok b := by
  cases x with
  | error e => simp [Except.bind]
  | ok a => simp [Except.bind]

lemma map_eq_ok {α β : Type} {x : Except Halt α} {f : α → β} {b : β} :
    x.map f = .ok b ↔ ∃ a, x = .ok a ∧ f a = b := by
  cases x with
  | error e => simp [Except.map]
  | ok a => simp [Except.map]

lemma answered_eq_ok {α : Type} {x : Option α} {a : α} : answered x = .ok a ↔ x = some a := by
  cases x with
  | none => simp [answered]
  | some b => simp [answered]

lemma toOption_eq_some {α : Type} {x : Except Halt α} {a : α} :
    x.toOption = some a ↔ x = .ok a := by
  cases x with
  | error e => simp [Except.toOption]
  | ok b => simp [Except.toOption]

def Machine.shadows (s : Machine) : List ℕ :=
  (List.range s.globals.count).map fun g => (s.globals.get g).shadowPagemap

def Machine.roots (s : Machine) : List ℕ :=
  s.kernel :: s.shadows

def groups (kernel : ℕ) (tops : List ℕ) (r : ℕ) : List ℕ :=
  if r = kernel then tops else [r]

structure World (s : Machine) (owned tops : List ℕ) (label : ℕ → Labels) : Prop where
  spaces : Spaces s.tables.memory owned s.roots (groups s.kernel tops) label
  full : ∀ i, 256 ≤ i → i < 512 → (nextLevel s.tables.memory s.kernel i).isSome
  shadow_ne : s.kernel ∉ s.shadows
  top_mem : ∀ pm, pm < s.pagemaps.count → s.top pm ∈ tops
  top_inj : ∀ pm pm', pm < s.pagemaps.count → pm' < s.pagemaps.count → s.top pm = s.top pm' →
    pm = pm'

def Kept (m m' : Memory) (F F' : ℕ → Prop) : Prop :=
  ∀ n, F n → F' n ∧ AgreeOn m m' (InPage n)

lemma Kept.refl (m : Memory) (F : ℕ → Prop) : Kept m m F F :=
  fun _ hn => ⟨hn, fun _ _ => rfl⟩

lemma Kept.trans {m m' m'' : Memory} {F F' F'' : ℕ → Prop} (h : Kept m m' F F')
    (h' : Kept m' m'' F' F'') : Kept m m'' F F'' := by
  intro n hn
  obtain ⟨hn', hbytes⟩ := h n hn
  obtain ⟨hn'', hbytes'⟩ := h' n hn'
  exact ⟨hn'', hbytes.trans hbytes'⟩

variable {s s' : Machine} {owned owned' tops : List ℕ} {label : ℕ → Labels} {t' : Tables}
  {ok : Bool} {r top virt phys flags : ℕ} {pages : ℕ → ℕ+}

lemma groups_kernel (kernel : ℕ) (tops : List ℕ) : groups kernel tops kernel = tops :=
  if_pos rfl

lemma groups_of_ne {kernel : ℕ} (tops : List ℕ) (hne : r ≠ kernel) :
    groups kernel tops r = [r] :=
  if_neg hne

lemma Machine.kernel_mem_roots (s : Machine) : s.kernel ∈ s.roots :=
  (.head _)

lemma Machine.shadow_mem (s : Machine) {g : ℕ} (hg : g < s.globals.count) :
    (s.globals.get g).shadowPagemap ∈ s.shadows :=
  List.mem_map.mpr ⟨g, List.mem_range.mpr hg, rfl⟩

namespace World

section

variable (h : World s owned tops label)

include h

lemma kernelSpace : Space s.tables.memory owned s.kernel tops (label s.kernel) := by
  have hs := h.spaces.space s.kernel s.kernel_mem_roots
  rwa [groups_kernel] at hs

lemma ne_kernel (hr : r ∈ s.shadows) : r ≠ s.kernel := by
  rintro rfl
  exact h.shadow_ne hr

lemma shadowSpace (hr : r ∈ s.shadows) : Space s.tables.memory owned r [r] (label r) := by
  have hs := h.spaces.space r (.tail _ hr)
  rwa [groups_of_ne tops (h.ne_kernel hr)] at hs

lemma change (hr : r ∈ s.roots) {l' : Labels}
    (hs : Space t'.memory owned' r (groups s.kernel tops r) l')
    (hkeeps : Keeps s.tables.memory t'.memory owned owned' (label r) l') :
    World { s with tables := t' } owned' tops (update label r l') ∧
      Kept s.tables.memory t'.memory (Frame owned s.roots label)
        (Frame owned' s.roots (update label r l')) ∧
      ∀ r' ∈ s.roots, r' ≠ r → ∀ top ∈ groups s.kernel tops r',
        Unseen s.tables.memory t'.memory top := by
  obtain ⟨hspaces, hunseen, hframes⟩ := h.spaces.change hr (fun _ _ _ => rfl) hs hkeeps
  refine ⟨⟨hspaces, ?_, h.shadow_ne, h.top_mem, h.top_inj⟩, hframes, hunseen⟩
  have hkernel := h.kernelSpace
  have hlabel := hkernel.top s.kernel hkernel.kernel_mem
  intro i hi hi'
  obtain ⟨n', hn'⟩ := Option.isSome_iff_exists.mp (h.full i hi hi')
  by_cases hrk : r = s.kernel
  · rw [hrk] at hkeeps
    rw [hkeeps.link s.kernel _ i n' hlabel (Nat.succ_pos 2) hi' hn', Option.isSome_some]
  · have hnone : label r s.kernel = none := by
      rw [Option.eq_none_iff_forall_ne_some]
      intro l hl
      exact hrk (h.spaces.apart r hr s.kernel s.kernel_mem_roots s.kernel l _ hl hlabel)
    have hbytes := hkeeps.bytes s.kernel (hkernel.labelled _ _ hlabel) hnone
    rw [nextLevel, Spaces.word_of_agreeOn hi' hbytes, ← nextLevel, hn', Option.isSome_some]

lemma change_kernel {l' : Labels} (hs : Space t'.memory owned' s.kernel tops l')
    (hkeeps : Keeps s.tables.memory t'.memory owned owned' (label s.kernel) l') :
    World { s with tables := t' } owned' tops (update label s.kernel l') ∧
      Kept s.tables.memory t'.memory (Frame owned s.roots label)
        (Frame owned' s.roots (update label s.kernel l')) ∧
      ∀ r ∈ s.shadows, Unseen s.tables.memory t'.memory r := by
  rw [← groups_kernel s.kernel tops] at hs
  obtain ⟨hworld, hkept, hunseen⟩ := h.change s.kernel_mem_roots hs hkeeps
  refine ⟨hworld, hkept, fun r hr => ?_⟩
  have hne := h.ne_kernel hr
  apply hunseen r (.tail _ hr) hne
  rw [groups_of_ne tops hne]
  exact .head _

lemma change_shadow (hr : r ∈ s.shadows) {l' : Labels} (hs : Space t'.memory owned' r [r] l')
    (hkeeps : Keeps s.tables.memory t'.memory owned owned' (label r) l') :
    World { s with tables := t' } owned' tops (update label r l') ∧
      Kept s.tables.memory t'.memory (Frame owned s.roots label)
        (Frame owned' s.roots (update label r l')) ∧
      (∀ top ∈ tops, Unseen s.tables.memory t'.memory top) ∧
      ∀ r' ∈ s.shadows, r' ≠ r → Unseen s.tables.memory t'.memory r' := by
  have hne := h.ne_kernel hr
  rw [← groups_of_ne tops hne] at hs
  obtain ⟨hworld, hkept, hunseen⟩ := h.change (.tail _ hr) hs hkeeps
  refine ⟨hworld, hkept, fun top htop => ?_, fun r' hr' hne' => ?_⟩
  · apply hunseen s.kernel s.kernel_mem_roots hne.symm
    rwa [groups_kernel]
  · apply hunseen r' (.tail _ hr') hne'
    rw [groups_of_ne tops (h.ne_kernel hr')]
    exact .head _

end

lemma mapPageIn_eq_ok (hcall : mapPageIn top virt phys flags pages s = .ok (s', ok)) :
    ∃ t', mapPage top virt phys flags (fun level => pages level) s.tables = some (t', ok) ∧
      s' = { s with tables := t' } := by
  obtain ⟨⟨t', ok'⟩, hmap, heq⟩ := map_eq_ok.mp hcall
  cases heq
  exact ⟨t', answered_eq_ok.mp hmap, rfl⟩

lemma mapPageIn_top (h : World s s.tables.owned tops label) (htop : top ∈ tops)
    (hv : phys ||| flags < 2 ^ 64)
    (hcall : mapPageIn top virt phys flags pages s = .ok (s', ok)) :
    ok = true ∧ ∃ t' label', s' = { s with tables := t' } ∧ World s' t'.owned tops label' ∧
      Kept s.tables.memory t'.memory (Frame s.tables.owned s.roots label)
        (Frame t'.owned s.roots label') ∧
      (∀ top' ∈ tops, ∀ virt', pte t'.memory top' virt' =
        if Touches top virt top' virt' then phys ||| flags
        else pte s.tables.memory top' virt') ∧
      ∀ r ∈ s.shadows, Unseen s.tables.memory t'.memory r := by
  obtain ⟨t', hmap, rfl⟩ := mapPageIn_eq_ok hcall
  obtain ⟨hok, l', hs, hkeeps, hwords, _⟩ := h.kernelSpace.mapPage
    (h.spaces.filled s.kernel s.kernel_mem_roots) htop hv hmap
  obtain ⟨hworld, hkept, hunseen⟩ := h.change_kernel hs hkeeps
  exact ⟨hok, t', _, rfl, hworld, hkept, hwords, hunseen⟩

lemma mapPageIn_shadow (h : World s s.tables.owned tops label) (hr : r ∈ s.shadows)
    (hv : phys ||| flags < 2 ^ 64)
    (hcall : mapPageIn r virt phys flags pages s = .ok (s', ok)) :
    ok = true ∧ ∃ t' label', s' = { s with tables := t' } ∧ World s' t'.owned tops label' ∧
      Kept s.tables.memory t'.memory (Frame s.tables.owned s.roots label)
        (Frame t'.owned s.roots label') ∧
      (∀ top ∈ tops, Unseen s.tables.memory t'.memory top) ∧
      ∀ virt', pte t'.memory r virt' =
        if Touches r virt r virt' then phys ||| flags else pte s.tables.memory r virt' := by
  obtain ⟨t', hmap, rfl⟩ := mapPageIn_eq_ok hcall
  obtain ⟨hok, l', hs, hkeeps, hwords, _⟩ := (h.shadowSpace hr).mapPage
    (h.spaces.filled r (.tail _ hr)) (.head _) hv hmap
  obtain ⟨hworld, hkept, hunseen, _⟩ := h.change_shadow hr hs hkeeps
  exact ⟨hok, t', _, rfl, hworld, hkept, hunseen, hwords r (.head _)⟩

/-! ## Unmapping a page -/

lemma virt2phys_eq (h : World s owned tops label) (htop : top ∈ tops) (virt : ℕ) :
    virt2phys top virt s = (match entry s.tables.memory top virt with
      | none => .error .fault
      | some w => .ok (if w &&& 1 = 0 then none else some (pageBase w))) := by
  have hs := h.kernelSpace
  have htop₀ := (hs.isPage (hs.top top htop)).2.1.ne'
  rw [virt2phys, virt2pte_false virt (fun _ => 0) s.tables htop₀, entry_eq_pteAddr]
  change Except.bind (.ok (s.tables, (pteAddr s.tables.memory top virt).getD 0)) _ = _
  cases ha : pteAddr s.tables.memory top virt with
  | none => rfl
  | some a =>
    have hne : a ≠ 0 := by
      obtain ⟨n, _, rfl⟩ := Option.map_eq_some_iff.mp ha
      exact entryAddr_ne_zero n _
    simp only [Except.bind, Option.getD_some, if_neg hne, Option.map_some]
    split <;> rfl

/-! ## New pages -/

lemma pmmAllocIn_eq_ok {shadow : ℕ+} {page : ℕ} (hcall : pmmAllocIn shadow s = .ok (s', page)) :
    page = shadow ∧ FreshPage page s.tables ∧ s' = { s with
      tables := ⟨memset s.tables.memory (page + higherHalf) 0 pageSize,
        page :: s.tables.owned⟩ } := by
  obtain ⟨⟨t', page'⟩, halloc, heq⟩ := map_eq_ok.mp hcall
  obtain ⟨rfl, rfl⟩ := Prod.mk.inj heq
  have halloc := answered_eq_ok.mp halloc
  have hne : page' ≠ 0 := by
    rintro rfl
    rw [Paging.pmmAlloc, if_neg shadow.pos.ne'] at halloc
    split at halloc
    · exact shadow.pos.ne' (Prod.mk.inj (Option.some.inj halloc)).2
    · cases halloc
  obtain ⟨rfl, hfresh, rfl⟩ := pmmAlloc_cases halloc hne
  exact ⟨rfl, hfresh, rfl⟩

lemma isPage (h : World s owned tops label) {n : ℕ} (hn : n ∈ owned) : IsPage n :=
  h.kernelSpace.page n hn

lemma kernel_owned (h : World s owned tops label) : s.kernel ∈ owned :=
  h.kernelSpace.labelled _ _ (h.kernelSpace.top _ h.kernelSpace.kernel_mem)

variable (h : World s s.tables.owned tops label)

include h

lemma addGlobal {page : ℕ} {record : GlobalRange} (hfresh : FreshPage page s.tables)
    (hrecord : record.shadowPagemap = page)
    (htables : s'.tables = ⟨memset s.tables.memory (page + higherHalf) 0 pageSize,
      page :: s.tables.owned⟩)
    (hkernel : s'.kernel = s.kernel) (hglobals : s'.globals = s.globals.alloc record)
    (hcount : s'.pagemaps.count = s.pagemaps.count) (htop : ∀ pm, s'.top pm = s.top pm) :
    World s' s'.tables.owned tops (update label page (single page)) ∧
      Kept s.tables.memory s'.tables.memory (Frame s.tables.owned s.roots label)
        (Frame s'.tables.owned s'.roots (update label page (single page))) ∧
      (∀ top ∈ tops, Unseen s.tables.memory s'.tables.memory top) ∧
      ∀ r ∈ s.shadows, Unseen s.tables.memory s'.tables.memory r := by
  have hne : page ≠ s.kernel := by
    rintro rfl
    exact hfresh.2.2.2 h.kernel_owned
  have hshadows : ∀ r ∈ s'.shadows, r = page ∨ r ∈ s.shadows := by
    intro r hr
    obtain ⟨g, hg, rfl⟩ := List.mem_map.mp hr
    rw [hglobals, Records.count_alloc, List.mem_range, Nat.lt_succ_iff_lt_or_eq] at hg
    rw [hglobals]
    rcases hg with hg | rfl
    · rw [Records.get_alloc_of_lt _ _ hg]
      exact .inr (s.shadow_mem hg)
    · rw [Records.get_alloc_self]
      exact .inl hrecord
  have hroots : ∀ r ∈ s'.roots, r = page ∨ r ∈ s.roots := by
    intro r hr
    rcases List.mem_cons.mp hr with rfl | hr
    · exact .inr (hkernel ▸ s.kernel_mem_roots)
    · exact (hshadows r hr).imp_right (List.mem_cons_of_mem _)
  obtain ⟨hspaces, hunseen, hframes⟩ := @Spaces.add _ _ _ _ _ _ _ (groups s.kernel tops) h.spaces
    hfresh.isPage hfresh.2.2.2 (fun n hn => h.isPage hn) hroots (groups_of_ne tops hne)
    (fun _ _ => rfl)
  have hfull (i : ℕ) (hi : 256 ≤ i) (hi' : i < 512) :
      (nextLevel s'.tables.memory s'.kernel i).isSome := by
    rw [htables, hkernel, nextLevel, Spaces.word_of_agreeOn hi'
      (agreeOn_memset_page s.tables.memory 0 hfresh.isPage (h.isPage h.kernel_owned) hne.symm)]
    exact h.full i hi hi'
  rw [htables]
  refine ⟨⟨?_, hfull, ?_, ?_, ?_⟩, hframes, ?_, ?_⟩
  · rw [htables, hkernel]
    exact hspaces
  · intro hmem
    rw [hkernel] at hmem
    rcases hshadows _ hmem with heq | hmem
    · exact hne heq.symm
    · exact h.shadow_ne hmem
  · intro pm hpm
    rw [htop]
    exact h.top_mem pm (hcount ▸ hpm)
  · intro pm pm' hpm hpm' heq
    rw [htop, htop] at heq
    exact h.top_inj pm pm' (hcount ▸ hpm) (hcount ▸ hpm') heq
  · intro top htop'
    apply hunseen s.kernel s.kernel_mem_roots
    rwa [groups_kernel]
  · intro r hr
    apply hunseen r (.tail _ hr)
    rw [groups_of_ne tops (h.ne_kernel hr)]
    exact .head _

lemma pmmAllocMany {page : ℕ+} {count phys : ℕ}
    (hcall : pmmAllocMany page count s = .ok (s', phys)) :
    phys = page ∧ 0 < count ∧ ∃ t', s' = { s with tables := t' } ∧ World s' t'.owned tops label ∧
      Kept s.tables.memory t'.memory (Frame s.tables.owned s.roots label)
        (Frame t'.owned s.roots label) ∧
      (∀ top ∈ tops, Unseen s.tables.memory t'.memory top) ∧
      ∀ k, k < count → page + k * pageSize ∉ s.tables.owned ∧
        Frame t'.owned s.roots label (page + k * pageSize) ∧
        ∀ x, InPage (page + k * pageSize) x → t'.memory x = 0 := by
  simp only [Mmap.pmmAllocMany] at hcall
  split at hcall
  · cases hcall
  · rename_i hcount
    split at hcall
    · rename_i hfresh
      cases hcall
      have hnew (k : ℕ) (hk : k < count) : FreshPage (page + k * pageSize) s.tables :=
        hfresh _ (List.mem_map.mpr ⟨k, List.mem_range.mpr hk, rfl⟩)
      have hmem (k : ℕ) (hk : k < count) : page + k * pageSize ∈
          (List.range count).map (fun k => page + k * pageSize) ++ s.tables.owned :=
        List.mem_append_left _ (List.mem_map.mpr ⟨k, List.mem_range.mpr hk, rfl⟩)
      have hbytes {n : ℕ} (hn : n ∈ s.tables.owned) : AgreeOn s.tables.memory
          (memset s.tables.memory (page + higherHalf) 0 (count * pageSize)) (InPage n) := by
        intro x hx
        apply agreeOutside_memset
        rintro ⟨hlo, hhi⟩
        set k := (x - (page + higherHalf)) / pageSize with hk
        have hk' : k < count := by
          simp only [pageSize] at *
          omega
        have hin : InPage (page + k * pageSize) x := by
          simp only [InPage, pageSize] at *
          omega
        have heq := hx.eq (h.isPage hn) (hnew k hk').isPage hin
        exact (hnew k hk').2.2.2 (heq ▸ hn)
      have hpages : ∀ n ∈ (List.range count).map (fun k => page + k * pageSize) ++ s.tables.owned,
          IsPage n := by
        intro n hn
        rcases List.mem_append.mp hn with hn | hn
        · exact (hfresh n hn).isPage
        · exact h.isPage hn
      obtain ⟨hspaces, hunseen⟩ := h.spaces.congr (fun n hn => List.mem_append_right _ hn) hpages
        (fun r hr n l hn => hbytes ((h.spaces.space r hr).labelled n l hn))
      refine ⟨rfl, Nat.pos_of_ne_zero hcount, _, rfl, ⟨hspaces, ?_, h.shadow_ne, h.top_mem,
        h.top_inj⟩, ?_, ?_, ?_⟩
      · intro i hi hi'
        rw [nextLevel, Spaces.word_of_agreeOn hi' (hbytes h.kernel_owned)]
        exact h.full i hi hi'
      · exact fun n hn => ⟨⟨List.mem_append_right _ hn.1, hn.2⟩, hbytes hn.1⟩
      · intro top htop
        apply hunseen s.kernel s.kernel_mem_roots
        rwa [groups_kernel]
      · intro k hk
        refine ⟨(hnew k hk).2.2.2, ⟨hmem k hk, ?_⟩, ?_⟩
        · intro r hr
          rw [Option.eq_none_iff_forall_ne_some]
          intro l hl
          exact (hnew k hk).2.2.2 ((h.spaces.space r hr).labelled _ l hl)
        · rintro x ⟨hlo, hhi⟩
          dsimp only
          rw [memset_apply, if_pos]
          simp only [pageSize] at *
          omega
    · cases hcall

lemma newPagemap {page : ℕ} (hcall : Paging.newPagemap s.kernel page s.tables = some (t', top)) :
    top ∉ s.tables.owned ∧
      ∃ label', World (s.addPagemap t' top) t'.owned (top :: tops) label' ∧
        Kept s.tables.memory t'.memory (Frame s.tables.owned s.roots label)
          (Frame t'.owned s.roots label') ∧
        (∀ top' ∈ tops, ∀ virt, pte t'.memory top' virt = pte s.tables.memory top' virt) ∧
        (∀ virt, ¬ HigherHalf virt → pte t'.memory top virt = 0) ∧
        ∀ n l, label' s.kernel n = some l → label s.kernel n = some l ∨ n ∉ s.tables.owned := by
  have hs := h.kernelSpace
  have hshape := hs.toShape h.full
  obtain ⟨hnew, _, _, hold, hempty⟩ := hshape.newPagemap hcall
  obtain ⟨l', hs', hkeeps⟩ := hshape.keeps_newPagemap hcall
  have htops : ∀ r ∈ s.roots, r ≠ s.kernel →
      groups s.kernel (top :: tops) r = groups s.kernel tops r := by
    intro r _ hne
    rw [groups_of_ne _ hne, groups_of_ne _ hne]
  obtain ⟨hspaces, _, hframes⟩ := @Spaces.change _ _ _ _ _ _ _ _ _
    (groups s.kernel (top :: tops)) h.spaces s.kernel_mem_roots htops
    (by rw [groups_kernel]; exact hs'.toSpace) hkeeps
  have htopOf {pm : ℕ} (hpm : pm < s.pagemaps.count) :
      ((s.pagemaps.alloc ⟨top, []⟩).get pm).topLevel = s.top pm := by
    rw [Records.get_alloc_of_lt _ _ hpm]
    rfl
  have hnewTop : ∀ pm, pm < s.pagemaps.count → s.top pm ≠ top := by
    intro pm hpm heq
    exact hnew (heq ▸ hs.labelled _ _ (hs.top _ (h.top_mem pm hpm)))
  refine ⟨hnew, _, ⟨hspaces, fun i hi hi' => ?_, h.shadow_ne, ?_, ?_⟩, hframes, ?_, ?_, ?_⟩
  · exact (hs'.higher s.kernel hs'.kernel_mem i hi hi').2
  · intro pm hpm
    rcases Nat.lt_succ_iff_lt_or_eq.mp hpm with hpm | rfl
    · rw [Machine.top, Machine.addPagemap, htopOf hpm]
      exact .tail _ (h.top_mem pm hpm)
    · rw [Machine.top, Machine.addPagemap, Records.get_alloc_self]
      exact .head _
  · intro pm pm' hpm hpm' heq
    simp only [Machine.top, Machine.addPagemap] at heq
    rcases Nat.lt_succ_iff_lt_or_eq.mp hpm with hpm | rfl <;>
      rcases Nat.lt_succ_iff_lt_or_eq.mp hpm' with hpm' | rfl
    · rw [htopOf hpm, htopOf hpm'] at heq
      exact h.top_inj pm pm' hpm hpm' heq
    · rw [htopOf hpm, Records.get_alloc_self] at heq
      exact absurd heq (hnewTop pm hpm)
    · rw [htopOf hpm', Records.get_alloc_self] at heq
      exact absurd heq.symm (hnewTop pm' hpm')
    · rfl
  · intro top' htop' virt
    rw [pte, hold top' htop' virt, pte]
  · intro virt hvirt
    rw [pte, hempty virt, if_neg hvirt]
    rfl
  · intro n l hn
    rw [update_self] at hn
    exact hkeeps.new n l hn

end World

end Cottage.Mmap
