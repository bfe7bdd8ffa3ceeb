import Cottage.Mem.PageTable

/-!
# The shape of page tables

Which table an entry leads to, and the shape of all tables together.  Every
table carries a label: the pagemap it belongs to and the indices that lead to
it.  The tables behind the higher half of the top level belong to the kernel,
whatever pagemap they are reached from.
-/

namespace Cottage.Paging

open ByteMemory Mem TableWalk Function

lemma tableIndex_eq (shift virt : ℕ) : tableIndex shift virt = virt / 2 ^ shift % 512 := by
  rw [tableIndex, Nat.shiftRight_and_distrib, Nat.shiftLeft_shiftRight, Nat.shiftRight_eq_div_pow]
  exact Nat.and_two_pow_sub_one_eq_mod _ 9

lemma tableIndex_lt (shift virt : ℕ) : tableIndex shift virt < 512 := by
  rw [tableIndex_eq]
  exact Nat.mod_lt _ (by decide)

def target (entry : ℕ) : Option ℕ :=
  if entry &&& 0x01 ≠ 0 ∧ pageBase entry ≠ 0 then some (pageBase entry) else none

def word (m : Memory) (level index : ℕ) : ℕ :=
  read64 m (entryAddr level index)

def nextLevel (m : Memory) (level index : ℕ) : Option ℕ :=
  target (word m level index)

lemma target_zero : target 0 = none := by
  decide

lemma ne_zero_of_target {entry n : ℕ} (h : target entry = some n) : n ≠ 0 := by
  rw [target] at h
  split at h
  · rename_i hpresent
    exact Option.some.inj h ▸ hpresent.2
  · cases h

def IsPage (n : ℕ) : Prop :=
  pageSize ∣ n ∧ 0 < n ∧ n + pageSize ≤ directMapSize

variable {n n' i i' : ℕ}

lemma target_or (hn : IsPage n) : target (n ||| 0b111) = some n := by
  obtain ⟨⟨k, rfl⟩, hpos, hle⟩ := hn
  have hor : pageSize * k ||| 0b111 = pageSize * k + 7 :=
    (Nat.two_pow_add_eq_or_of_lt (i := 12) (by decide) k).symm
  have hbase : pageBase (pageSize * k + 7) = pageSize * k := by
    simp only [pageSize, directMapSize] at *
    rw [pageBase_eq (by omega), pageSize]
    omega
  rw [hor, target, hbase, if_pos]
  refine ⟨?_, by omega⟩
  rw [Nat.and_one_is_mod]
  simp only [pageSize]
  omega

lemma entryAddr_bounds (n : ℕ) (hi : i < 512) :
    n + higherHalf ≤ entryAddr n i ∧ entryAddr n i + 8 ≤ n + higherHalf + pageSize := by
  simp only [entryAddr, pageSize]
  omega

lemma entryAddr_apart (hn : IsPage n) (hn' : IsPage n') (hi : i < 512) (hi' : i' < 512)
    (hne : ¬ (n = n' ∧ i = i')) :
    entryAddr n i + 8 ≤ entryAddr n' i' ∨ entryAddr n' i' + 8 ≤ entryAddr n i := by
  obtain ⟨⟨k, rfl⟩, _⟩ := hn
  obtain ⟨⟨k', rfl⟩, _⟩ := hn'
  simp only [entryAddr, pageSize] at *
  omega

lemma word_write64_self (m : Memory) {v : ℕ} (hv : v < 2 ^ 64) :
    word (write64 m (entryAddr n i) v) n i = v := by
  rw [word, read64_write64, Nat.mod_eq_of_lt hv]

lemma word_write64_of_ne (m : Memory) (v : ℕ) (hn : IsPage n) (hn' : IsPage n') (hi : i < 512)
    (hi' : i' < 512) (hne : ¬ (n = n' ∧ i = i')) :
    word (write64 m (entryAddr n' i') v) n i = word m n i :=
  read64_write64_of_disjoint v (entryAddr_apart hn hn' hi hi' hne)

lemma word_of_agreeOutside {m m' : Memory} (hn : IsPage n) (hn' : IsPage n') (hi : i < 512)
    (hne : n ≠ n') (hagree : AgreeOutside m m' (n' + higherHalf) pageSize) :
    word m' n i = word m n i := by
  apply read64_of_agreeOutside hagree
  obtain ⟨⟨k, rfl⟩, _⟩ := hn
  obtain ⟨⟨k', rfl⟩, _⟩ := hn'
  simp only [entryAddr, pageSize] at *
  omega

lemma word_memset_zero (m : Memory) (n : ℕ) (hi : i < 512) :
    word (memset m (n + higherHalf) 0 pageSize) n i = 0 := by
  obtain ⟨hlo, hhi⟩ := entryAddr_bounds n hi
  exact read64_memset_zero hlo hhi

def owner (kernel top : ℕ) : List ℕ → ℕ
  | [] => top
  | i :: _ => if 256 ≤ i then kernel else top

def childOwner (kernel o : ℕ) (path : List ℕ) (i : ℕ) : ℕ :=
  if path = [] ∧ 256 ≤ i then kernel else o

lemma owner_concat (kernel top : ℕ) (path : List ℕ) (i : ℕ) :
    owner kernel top (path ++ [i]) = childOwner kernel (owner kernel top path) path i := by
  cases path with
  | nil => simp [owner, childOwner]
  | cons j path => simp [owner, childOwner]

abbrev Labels : Type :=
  ℕ → Option (ℕ × List ℕ)

structure Tree (m : Memory) (owned : List ℕ) (kernel : ℕ) (tops : List ℕ) (label : Labels) :
    Prop where
  page : ∀ n ∈ owned, IsPage n
  labelled : ∀ n l, label n = some l → n ∈ owned
  top : ∀ n ∈ tops, label n = some (n, [])
  kernel_mem : kernel ∈ tops
  child : ∀ n o path i n', label n = some (o, path) → path.length < 3 → i < 512 →
    nextLevel m n i = some n' → label n' = some (childOwner kernel o path i, path ++ [i])

/-- The labelled tables of some pagemaps that have the kernel's higher half. -/
structure Shape (m : Memory) (owned : List ℕ) (kernel : ℕ) (tops : List ℕ) (label : Labels) : Prop
    extends Tree m owned kernel tops label where
  higher : ∀ n ∈ tops, ∀ i, 256 ≤ i → i < 512 →
    nextLevel m n i = nextLevel m kernel i ∧ (nextLevel m kernel i).isSome

/-- A group of pagemaps that share the higher half of the first, which may be
empty when there are no others. -/
structure Space (m : Memory) (owned : List ℕ) (kernel : ℕ) (tops : List ℕ) (label : Labels) : Prop
    extends Tree m owned kernel tops label where
  shared : ∀ n ∈ tops, n ≠ kernel → ∀ i, 256 ≤ i → i < 512 →
    nextLevel m n i = nextLevel m kernel i ∧ (nextLevel m kernel i).isSome

/-- The label that walks from `top` expect. -/
def Carries (kernel top : ℕ) (label : Labels) (path : List ℕ) (n : ℕ) : Prop :=
  label n = some (owner kernel top path, path)

variable {m m' : Memory} {owned tops : List ℕ} {kernel top top' : ℕ} {label : Labels}
  {o : ℕ} {path path' : List ℕ}

namespace Tree

variable (hs : Tree m owned kernel tops label)

include hs

lemma isPage {l : ℕ × List ℕ} (hn : label n = some l) : IsPage n :=
  hs.page n (hs.labelled n l hn)

lemma marking (top : ℕ) : Marking (nextLevel m) 3 (· < 512) (Carries kernel top label) := by
  intro path n i n' hn hlen hi hnext
  rw [Carries, owner_concat]
  exact hs.child n _ path i n' hn hlen hi hnext

lemma carries_top (htop : top ∈ tops) : Carries kernel top label [] top :=
  hs.top top htop

lemma carries_of_walk (htop : top ∈ tops) (hI : ∀ i ∈ path, i < 512) (hlen : path.length ≤ 3)
    (hwalk : walk (nextLevel m) top path = some n) : Carries kernel top label path n := by
  have := (hs.marking top).walk (hs.carries_top htop) hI (by simpa using hlen) hwalk
  simpa using this

end Tree

lemma Shape.toSpace (hs : Shape m owned kernel tops label) :
    Space m owned kernel tops label :=
  ⟨hs.toTree, fun n hn _ i hi hi' => hs.higher n hn i hi hi'⟩

lemma Space.toShape (hs : Space m owned kernel tops label)
    (hfull : ∀ i, 256 ≤ i → i < 512 → (nextLevel m kernel i).isSome) :
    Shape m owned kernel tops label := by
  refine ⟨hs.toTree, fun n hn i hi hi' => ?_⟩
  by_cases heq : n = kernel
  · exact ⟨by rw [heq], hfull i hi hi'⟩
  · exact hs.shared n hn heq i hi hi'

lemma Space.walk_higher (hs : Space m owned kernel tops label) (htop : top ∈ tops) (hi : 256 ≤ i)
    (hi' : i < 512) (path : List ℕ) :
    walk (nextLevel m) top (i :: path) = walk (nextLevel m) kernel (i :: path) := by
  by_cases heq : top = kernel
  · rw [heq]
  · rw [walk_cons, walk_cons, (hs.shared top htop heq i hi hi').1]

def linked (m : Memory) (n i f : ℕ) : Memory :=
  write64 (memset m (f + higherHalf) 0 pageSize) (entryAddr n i) (f ||| 0b111)

section

variable {f j : ℕ}

lemma word_linked_self (m : Memory) (n i : ℕ) (hf : IsPage f) :
    word (linked m n i f) n i = f ||| 0b111 := by
  apply word_write64_self
  apply Nat.or_lt_two_pow
  · have hle := hf.2.2
    simp only [directMapSize] at hle
    omega
  · decide

lemma word_linked_new (m : Memory) (hn : IsPage n) (hf : IsPage f) (hne : f ≠ n) (hi : i < 512)
    (hj : j < 512) : word (linked m n i f) f j = 0 := by
  rw [linked, word_write64_of_ne _ _ hf hn hj hi fun h => hne h.1]
  exact word_memset_zero m f hj

lemma word_linked_of_ne (m : Memory) (hn : IsPage n) (hf : IsPage f) (hn' : IsPage n')
    (hne : n' ≠ f) (hi : i < 512) (hj : j < 512) (hother : ¬ (n' = n ∧ j = i)) :
    word (linked m n i f) n' j = word m n' j := by
  rw [linked, word_write64_of_ne _ _ hn' hn hj hi hother]
  exact word_of_agreeOutside hn' hf hj hne (agreeOutside_memset _ _ _ _)

namespace Tree

def extendLabel (kernel : ℕ) (label : Labels) (o : ℕ) (path : List ℕ) (i f : ℕ) : Labels :=
  update label f (some (childOwner kernel o path i, path ++ [i]))

variable (hs : Tree m owned kernel tops label)

include hs

lemma label_ne (hfresh : f ∉ owned) {l : ℕ × List ℕ} (hn : label n = some l) : n ≠ f := by
  rintro rfl
  exact hfresh (hs.labelled _ l hn)

lemma nextLevel_linked {l l' : ℕ × List ℕ} (hn : label n = some l) (hi : i < 512)
    (hf : IsPage f) (hfresh : f ∉ owned) (hn' : label n' = some l') (hj : j < 512)
    (hother : ¬ (n' = n ∧ j = i)) : nextLevel (linked m n i f) n' j = nextLevel m n' j := by
  rw [nextLevel, word_linked_of_ne m (hs.isPage hn) hf (hs.isPage hn') (hs.label_ne hfresh hn')
    hi hj hother]
  rfl

lemma extend (hn : label n = some (o, path)) (hi : i < 512) (hf : IsPage f) (hfresh : f ∉ owned) :
    Tree (linked m n i f) (f :: owned) kernel tops (extendLabel kernel label o path i f) := by
  have hold {n' : ℕ} {l : ℕ × List ℕ} (hn' : label n' = some l) :
      extendLabel kernel label o path i f n' = some l := by
    rw [extendLabel, update_of_ne (hs.label_ne hfresh hn'), hn']
  refine ⟨?_, ?_, ?_, hs.kernel_mem, ?_⟩
  · exact List.forall_mem_cons.mpr ⟨hf, hs.page⟩
  · intro n' l hn'
    by_cases heq : n' = f
    · exact heq ▸ (.head _)
    · rw [extendLabel, update_of_ne heq] at hn'
      exact .tail f (hs.labelled n' l hn')
  · intro n' hn'
    exact hold (hs.top n' hn')
  · intro n₁ o₁ path₁ j n₂ hn₁ hlen₁ hj hstep
    by_cases heq : n₁ = f
    · rw [heq, nextLevel, word_linked_new m (hs.isPage hn) hf (hs.label_ne hfresh hn).symm hi hj,
        target_zero] at hstep
      cases hstep
    · rw [extendLabel, update_of_ne heq] at hn₁
      by_cases hat : n₁ = n ∧ j = i
      · obtain ⟨rfl, rfl⟩ := hat
        cases hn₁.symm.trans hn
        rw [nextLevel, word_linked_self m _ _ hf, target_or hf] at hstep
        cases hstep
        exact update_self _ _ _
      · rw [hs.nextLevel_linked hn hi hf hfresh hn₁ hj hat] at hstep
        exact hold (hs.child n₁ o₁ path₁ j n₂ hn₁ hlen₁ hj hstep)

lemma extension (hn : label n = some (o, path)) (hi : i < 512) (hempty : nextLevel m n i = none)
    (hf : IsPage f) (hfresh : f ∉ owned) (top : ℕ) :
    Extension (nextLevel m) (nextLevel (linked m n i f)) 3 (· < 512) (Carries kernel top label)
      n i f where
  agree p n' j hn' _ hj hother := hs.nextLevel_linked hn hi hf hfresh hn' hj hother
  empty := hempty
  entry := by
    rw [nextLevel, word_linked_self m n i hf, target_or hf]
  fresh j hj := by
    rw [nextLevel, word_linked_new m (hs.isPage hn) hf (hs.label_ne hfresh hn).symm hi hj,
      target_zero]

end Tree

lemma Space.extend (hs : Space m owned kernel tops label) (hn : label n = some (o, path))
    (hi : i < 512) (hempty : nextLevel m n i = none) (hf : IsPage f) (hfresh : f ∉ owned) :
    Space (linked m n i f) (f :: owned) kernel tops (Tree.extendLabel kernel label o path i f) := by
  refine ⟨hs.toTree.extend hn hi hf hfresh, ?_⟩
  intro n' hn' hne j hj hj'
  obtain ⟨hsame, hsome⟩ := hs.shared n' hn' hne j hj hj'
  have hnext {n₁ : ℕ} (hn₁ : n₁ ∈ tops) (hsome₁ : (nextLevel m n₁ j).isSome) :
      nextLevel (linked m n i f) n₁ j = nextLevel m n₁ j := by
    apply hs.nextLevel_linked hn hi hf hfresh (hs.top n₁ hn₁) hj'
    rintro ⟨rfl, rfl⟩
    rw [hempty] at hsome₁
    cases hsome₁
  rw [hnext hn' (hsame ▸ hsome), hnext hs.kernel_mem hsome]
  exact ⟨hsame, hsome⟩

lemma Tree.nextLevel_write (hs : Tree m owned kernel tops label) {l : ℕ × List ℕ} {v : ℕ}
    (hn : label n = some (o, path)) (hlen : path.length = 3) (hi : i < 512)
    (hn' : label n' = some l) (hlen' : l.2.length < 3) (hj : j < 512) :
    nextLevel (write64 m (entryAddr n i) v) n' j = nextLevel m n' j := by
  rw [nextLevel, word_write64_of_ne m v (hs.isPage hn') (hs.isPage hn) hj hi]
  · rfl
  · rintro ⟨rfl, _⟩
    cases hn.symm.trans hn'
    exact absurd hlen hlen'.ne

lemma Space.write (hs : Space m owned kernel tops label) (hn : label n = some (o, path))
    (hlen : path.length = 3) (hi : i < 512) (v : ℕ) :
    Space (write64 m (entryAddr n i) v) owned kernel tops label := by
  refine ⟨⟨hs.page, hs.labelled, hs.top, hs.kernel_mem, ?_⟩, ?_⟩
  · intro n₁ o₁ path₁ j n₂ hn₁ hlen₁ hj hstep
    rw [hs.nextLevel_write hn hlen hi hn₁ hlen₁ hj] at hstep
    exact hs.child n₁ o₁ path₁ j n₂ hn₁ hlen₁ hj hstep
  · intro n' hn' hne j hj hj'
    rw [hs.nextLevel_write hn hlen hi (hs.top n' hn') (Nat.succ_pos 2) hj',
      hs.nextLevel_write hn hlen hi (hs.top kernel hs.kernel_mem) (Nat.succ_pos 2) hj']
    exact hs.shared n' hn' hne j hj hj'

lemma Tree.walk_write (hs : Tree m owned kernel tops label) (hn : label n = some (o, path))
    (hlen : path.length = 3) (hi : i < 512) (v : ℕ) (htop : top ∈ tops)
    (hI : ∀ i ∈ path', i < 512) (hlen' : path'.length ≤ 3) :
    walk (nextLevel (write64 m (entryAddr n i) v)) top path' = walk (nextLevel m) top path' := by
  apply (hs.marking top).walk_congr (hs.carries_top htop) hI (by simpa using hlen')
  intro p n' j hn' hp hj
  exact hs.nextLevel_write hn hlen hi hn' hp hj

/-! ## What these changes keep -/

/-- An entry of a higher table is empty or leads to a table, with the flags that
`get_next_level` gives it. -/
def Filled (m : Memory) (label : Labels) : Prop :=
  ∀ n l i, label n = some l → l.2.length < 3 → i < 512 →
    word m n i = 0 ∨ ∃ n', IsPage n' ∧ word m n i = n' ||| 0b111

lemma Filled.nextLevel_isSome {l : ℕ × List ℕ} (h : Filled m label) (hn : label n = some l)
    (hlen : l.2.length < 3) (hi : i < 512) : word m n i = 0 ∨ (nextLevel m n i).isSome := by
  refine (h n l i hn hlen hi).imp_right ?_
  rintro ⟨n', hpage, hword⟩
  rw [nextLevel, hword, target_or hpage]
  rfl

def InPage (n x : ℕ) : Prop :=
  n + higherHalf ≤ x ∧ x < n + higherHalf + pageSize

lemma InPage.eq {x : ℕ} (hn : IsPage n) (hn' : IsPage n') (h : InPage n x) (h' : InPage n' x) :
    n = n' := by
  obtain ⟨⟨k, rfl⟩, _⟩ := hn
  obtain ⟨⟨k', rfl⟩, _⟩ := hn'
  simp only [InPage, pageSize] at *
  omega

/-- Labels and links stay, new tables are fresh pages, and pages that are no
tables keep their bytes. -/
structure Keeps (m m' : Memory) (owned owned' : List ℕ) (label label' : Labels) : Prop where
  owns : ∀ n ∈ owned, n ∈ owned'
  labels : ∀ n l, label n = some l → label' n = some l
  new : ∀ n l, label' n = some l → label n = some l ∨ n ∉ owned
  link : ∀ n l i n', label n = some l → l.2.length < 3 → i < 512 → nextLevel m n i = some n' →
    nextLevel m' n i = some n'
  bytes : ∀ n ∈ owned, label n = none → AgreeOn m m' (InPage n)
  filled : Filled m label → Filled m' label'

namespace Keeps

lemma refl (m : Memory) (owned : List ℕ) (label : Labels) :
    Keeps m m owned owned label label where
  owns _ hn := hn
  labels _ _ hn := hn
  new _ _ hn := .inl hn
  link _ _ _ _ _ _ _ hnext := hnext
  bytes _ _ _ _ _ := rfl
  filled h := h

lemma trans {m'' : Memory} {owned' owned'' : List ℕ} {label' label'' : Labels}
    (h : Keeps m m' owned owned' label label') (h' : Keeps m' m'' owned' owned'' label' label'') :
    Keeps m m'' owned owned'' label label'' where
  owns n hn := h'.owns n (h.owns n hn)
  labels n l hn := h'.labels n l (h.labels n l hn)
  new n l hn := by
    rcases h'.new n l hn with hold | hfresh
    · exact h.new n l hold
    · exact .inr fun hmem => hfresh (h.owns n hmem)
  link n l i n' hn hlen hi hnext :=
    h'.link n l i n' (h.labels n l hn) hlen hi (h.link n l i n' hn hlen hi hnext)
  bytes n hn hnone := by
    apply (h.bytes n hn hnone).trans
    apply h'.bytes n (h.owns n hn)
    rw [Option.eq_none_iff_forall_ne_some]
    intro l hl
    rcases h.new n l hl with hold | hfresh
    · rw [hnone] at hold
      cases hold
    · exact hfresh hn
  filled hfilled := h'.filled (h.filled hfilled)

end Keeps

lemma inPage_entryAddr {x : ℕ} (n : ℕ) (hi : i < 512) (hlo : entryAddr n i ≤ x)
    (hhi : x < entryAddr n i + 8) : InPage n x := by
  obtain ⟨hlo', hhi'⟩ := entryAddr_bounds n hi
  exact ⟨by omega, by omega⟩

lemma agreeOn_write_entry (m : Memory) (v : ℕ) (hn : IsPage n) (hn' : IsPage n') (hi : i < 512)
    (hne : n' ≠ n) : AgreeOn m (write64 m (entryAddr n i) v) (InPage n') := by
  intro x hx
  apply write64_apply_of_outside
  rintro ⟨hlo, hhi⟩
  exact hne (hx.eq hn' hn (inPage_entryAddr n hi hlo hhi))

lemma agreeOn_memset_page (m : Memory) (c : UInt8) (hf : IsPage f) (hn' : IsPage n')
    (hne : n' ≠ f) : AgreeOn m (memset m (f + higherHalf) c pageSize) (InPage n') := by
  intro x hx
  apply agreeOutside_memset m (f + higherHalf) c pageSize
  intro hin
  exact hne (hx.eq hn' hf hin)

lemma Tree.keeps_linked (hs : Tree m owned kernel tops label) (hn : label n = some (o, path))
    (hi : i < 512) (hempty : nextLevel m n i = none) (hf : IsPage f) (hfresh : f ∉ owned) :
    Keeps m (linked m n i f) owned (f :: owned) label
      (Tree.extendLabel kernel label o path i f) where
  owns _ hn' := List.mem_cons_of_mem f hn'
  labels n' l hn' := by
    rw [extendLabel, update_of_ne (hs.label_ne hfresh hn'), hn']
  new n' l hn' := by
    by_cases heq : n' = f
    · exact .inr (heq ▸ hfresh)
    · rw [extendLabel, update_of_ne heq] at hn'
      exact .inl hn'
  link n' l j n₁ hn' _ hj hnext := by
    rw [hs.nextLevel_linked hn hi hf hfresh hn' hj, hnext]
    rintro ⟨rfl, rfl⟩
    rw [hempty] at hnext
    cases hnext
  bytes n' hn' hnone := by
    have hpage := hs.page n' hn'
    have hne : n' ≠ n := by
      rintro rfl
      rw [hnone] at hn
      cases hn
    exact (agreeOn_memset_page m 0 hf hpage fun heq => hfresh (heq ▸ hn')).trans
      (agreeOn_write_entry _ _ (hs.isPage hn) hpage hi hne)
  filled hfilled n' l j hn' hlen hj := by
    by_cases heq : n' = f
    · rw [heq]
      exact .inl (word_linked_new m (hs.isPage hn) hf (hs.label_ne hfresh hn).symm hi hj)
    · rw [extendLabel, update_of_ne heq] at hn'
      by_cases hat : n' = n ∧ j = i
      · obtain ⟨rfl, rfl⟩ := hat
        exact .inr ⟨f, hf, word_linked_self m _ _ hf⟩
      · rw [word_linked_of_ne m (hs.isPage hn) hf (hs.isPage hn') heq hi hj hat]
        exact hfilled n' l j hn' hlen hj

lemma Tree.keeps_write (hs : Tree m owned kernel tops label) (hn : label n = some (o, path))
    (hlen : path.length = 3) (hi : i < 512) (v : ℕ) :
    Keeps m (write64 m (entryAddr n i) v) owned owned label label where
  owns _ hn' := hn'
  labels _ _ hn' := hn'
  new _ _ hn' := .inl hn'
  link n' l j n₁ hn' hlen' hj hnext := by
    rw [hs.nextLevel_write hn hlen hi hn' hlen' hj, hnext]
  bytes n' hn' hnone := by
    apply agreeOn_write_entry m v (hs.isPage hn) (hs.page n' hn') hi
    rintro rfl
    rw [hnone] at hn
    cases hn
  filled hfilled n' l j hn' hlen' hj := by
    rw [word_write64_of_ne m v (hs.isPage hn') (hs.isPage hn) hj hi]
    · exact hfilled n' l j hn' hlen' hj
    · rintro ⟨rfl, _⟩
      cases hn.symm.trans hn'
      exact absurd hlen hlen'.ne

/-! ## A new pagemap -/

lemma Shape.addPagemap (hs : Shape m owned kernel tops label) (hf : IsPage f) (hfresh : f ∉ owned)
    (hagree : AgreeOutside m m' (f + higherHalf) pageSize)
    (hlower : ∀ i, i < 256 → word m' f i = 0)
    (hhigher : ∀ i, 256 ≤ i → i < 512 → word m' f i = word m kernel i) :
    Shape m' (f :: owned) kernel (f :: tops) (update label f (some (f, []))) := by
  have hold {n : ℕ} {l : ℕ × List ℕ} (hn : label n = some l) :
      update label f (some (f, [])) n = some l := by
    rw [update_of_ne (hs.label_ne hfresh hn), hn]
  have hnext {n j : ℕ} {l : ℕ × List ℕ} (hn : label n = some l) (hj : j < 512) :
      nextLevel m' n j = nextLevel m n j := by
    rw [nextLevel, word_of_agreeOutside (hs.isPage hn) hf hj (hs.label_ne hfresh hn) hagree]
    rfl
  have hkernel := hs.top kernel hs.kernel_mem
  refine ⟨⟨?_, ?_, ?_, List.mem_cons_of_mem f hs.kernel_mem, ?_⟩, ?_⟩
  · exact List.forall_mem_cons.mpr ⟨hf, hs.page⟩
  · intro n l hn
    by_cases heq : n = f
    · exact heq ▸ (.head _)
    · rw [update_of_ne heq] at hn
      exact .tail f (hs.labelled n l hn)
  · refine List.forall_mem_cons.mpr ⟨update_self _ _ _, ?_⟩
    intro n hn
    exact hold (hs.top n hn)
  · intro n o path i n' hn hlen hi hstep
    by_cases heq : n = f
    · rw [heq, update_self] at hn
      cases hn
      rw [heq, nextLevel] at hstep
      by_cases hhalf : i < 256
      · rw [hlower i hhalf, target_zero] at hstep
        cases hstep
      · rw [hhigher i (by omega) hi] at hstep
        have hlabel := hs.child kernel kernel [] i n' hkernel hlen hi hstep
        rw [childOwner, if_pos ⟨rfl, by omega⟩] at hlabel ⊢
        exact hold hlabel
    · rw [update_of_ne heq] at hn
      rw [hnext hn hi] at hstep
      exact hold (hs.child n o path i n' hn hlen hi hstep)
  · rw [List.forall_mem_cons]
    constructor
    · intro i hi hi'
      obtain ⟨_, hsome⟩ := hs.higher kernel hs.kernel_mem i hi hi'
      rw [hnext hkernel hi', nextLevel, hhigher i hi hi']
      exact ⟨rfl, hsome⟩
    · intro n hn i hi hi'
      rw [hnext (hs.top n hn) hi', hnext hkernel hi']
      exact hs.higher n hn i hi hi'

end

end Cottage.Paging
