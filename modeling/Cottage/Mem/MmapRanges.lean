import Cottage.Mem.MmapWorld
import Cottage.Mem.Translation

/-!
# Pagemaps built by `mmap_map_range`

Runs that create pagemaps and map ranges in them, after any use of the page
table functions by the kernel.  A range may be backed by any physical memory,
or by frames that the page allocator returned for it, as the loader of programs
and the creation of threads do it.
-/

namespace Cottage.Mmap

open ByteMemory Mem Paging Transition

inductive Event
  | newPagemap (page : ℕ+)
  | mapRange (pm virt phys size prot flags : ℕ) (shadow : ℕ+) (pages : ℕ → ℕ → ℕ → ℕ+)
  | allocRange (pm virt count prot flags : ℕ) (frames shadow : ℕ+) (pages : ℕ → ℕ → ℕ → ℕ+)

def Event.Valid (s : Machine) : Event → Prop
  | .newPagemap _ => True
  | .mapRange pm virt phys size prot flags _ _ => pm < s.pagemaps.count ∧ virt < 2 ^ 64 ∧
      phys < 2 ^ 64 ∧ size < 2 ^ 64 ∧ prot < 2 ^ 64 ∧ flags < 2 ^ 64
  | .allocRange pm virt _ prot flags _ _ _ => pm < s.pagemaps.count ∧ virt < 2 ^ 64 ∧
      prot < 2 ^ 64 ∧ flags < 2 ^ 64

instance (s : Machine) : DecidablePred (Event.Valid s)
  | .newPagemap _ => inferInstanceAs (Decidable True)
  | .mapRange .. => inferInstanceAs (Decidable (_ ∧ _))
  | .allocRange .. => inferInstanceAs (Decidable (_ ∧ _))

def runEvent (s : Machine) : Event → Except Halt Machine
  | .newPagemap page =>
    (answered (newPagemap s.kernel page s.tables)).map fun x => s.addPagemap x.1 x.2
  | .mapRange pm virt phys size prot flags shadow pages =>
    (mmapMapRange pm virt phys size prot flags shadow pages s).map Prod.fst
  | .allocRange pm virt count prot flags frames shadow pages =>
    (pmmAllocMany frames count s).bind fun (s, phys) =>
      (mmapMapRange pm virt phys (count * pageSize) prot flags shadow pages s).map Prod.fst

def step (s : Machine) (e : Event) : Option Machine :=
  if e.Valid s then (runEvent s e).toOption else none

def Initial (s : Machine) : Prop :=
  (∃ p, Paging.system.Reachable p ∧ s.tables = p.tables ∧ s.kernel = p.kernel) ∧
    s.pagemaps.count = 0 ∧ s.locals.count = 0 ∧ s.globals.count = 0 ∧ s.freed = []

def system : System Machine Event where
  init := Initial
  step := step

def Present (s : Machine) (pm virt : ℕ) : Prop :=
  pte s.tables.memory (s.top pm) virt &&& 1 ≠ 0

def UserPage (virt : ℕ) : Prop :=
  pageSize ∣ virt ∧ virt < 2 ^ 47

variable {s s' : Machine} {tops : List ℕ} {label : ℕ → Labels} {ok : Bool}
  {pm ref g top virt virt' phys prot : ℕ}

lemma ptFlags_lt (prot : ℕ) : ptFlags prot < 2 ^ 3 := by
  unfold ptFlags
  split <;> decide

lemma ptFlags_present (prot : ℕ) : ptFlags prot &&& 1 = 1 := by
  unfold ptFlags
  split <;> decide

lemma or_ptFlags_lt (prot : ℕ) {w : ℕ} (hw : w < 2 ^ 64) : w ||| ptFlags prot < 2 ^ 64 := by
  apply Nat.or_lt_two_pow hw
  have := ptFlags_lt prot
  omega

lemma or_ptFlags_present (w prot : ℕ) : (w ||| ptFlags prot) &&& 1 ≠ 0 := by
  rw [Nat.and_or_distrib_right, ptFlags_present]
  exact (Nat.right_le_or.trans_lt' Nat.one_pos).ne'

lemma UserPage.not_higherHalf (h : UserPage virt) : ¬ HigherHalf virt := by
  have hlt := h.2
  simp only [HigherHalf, pml4Entry, tableIndex_eq]
  omega

lemma UserPage.touches_iff {top' : ℕ} (h : UserPage virt) (h' : UserPage virt') :
    Touches top virt top' virt' ↔ top = top' ∧ virt = virt' := by
  constructor
  · rintro ⟨hpage, hshared⟩
    exact ⟨hshared.resolve_right h'.not_higherHalf,
      eq_of_pageNumber_eq (.inl h.2) (.inl h'.2) h.1 h'.1 hpage⟩
  · rintro ⟨rfl, rfl⟩
    exact ⟨rfl, .inl rfl⟩

namespace World

lemma mmapMapPageInRange {pages : ℕ → ℕ → ℕ+} (h : World s s.tables.owned tops label)
    (hg : g < s.globals.count) (hlocals : (s.globals.get g).locals = [ref])
    (htop : s.top (s.locals.get ref).pagemap ∈ tops) (hphys : phys < 2 ^ 64)
    (hcall : mmapMapPageInRange g virt phys prot pages s = .ok (s', ok)) :
    ∃ t' label', s' = { s with tables := t' } ∧ World s' t'.owned tops label' ∧
      Kept s.tables.memory t'.memory (Frame s.tables.owned s.roots label)
        (Frame t'.owned s.roots label') ∧
      ∀ top' ∈ tops, ∀ virt', pte t'.memory top' virt' =
        if (s.locals.get ref).Covers virt ∧
          Touches (s.top (s.locals.get ref).pagemap) virt top' virt' then phys ||| ptFlags prot
        else pte s.tables.memory top' virt' := by
  have hv := or_ptFlags_lt prot hphys
  have hshadow := s.shadow_mem hg
  obtain ⟨⟨s₁, ok₁⟩, hcall₁, hcall⟩ := bind_eq_ok.mp hcall
  obtain ⟨rfl, t₁, label₁, rfl, h₁, hkept₁, hunseen₁, _⟩ := h.mapPageIn_shadow hshadow hv hcall₁
  obtain ⟨⟨s₂, ok₂⟩, hcall₂, hcall⟩ := bind_eq_ok.mp hcall
  obtain ⟨rfl, t₂, label₂, rfl, h₂, hkept₂, hunseen₂, _⟩ :=
    h₁.mapPageIn_shadow hshadow hv hcall₂
  have hsame (top' : ℕ) (htop' : top' ∈ tops) (virt' : ℕ) :
      pte t₂.memory top' virt' = pte s.tables.memory top' virt' :=
    ((hunseen₁ top' htop').trans (hunseen₂ top' htop')).pte_eq virt'
  by_cases hcovers : (s.locals.get ref).Covers virt
  · simp only [Bool.not_true, Bool.false_eq_true, if_false, hlocals, mapLocals, hcovers,
      not_true_eq_false] at hcall
    obtain ⟨⟨s₃, ok₃⟩, hcall₃, hcall⟩ := bind_eq_ok.mp hcall
    obtain ⟨rfl, t₃, label₃, rfl, h₃, hkept₃, hwords, _⟩ := h₂.mapPageIn_top htop hv hcall₃
    obtain ⟨rfl, _⟩ := hcall
    refine ⟨t₃, label₃, rfl, h₃, (hkept₁.trans hkept₂).trans hkept₃, fun top' htop' virt' => ?_⟩
    simp only [hwords top' htop' virt', hsame top' htop' virt', hcovers, true_and]
  · simp only [Bool.not_true, Bool.false_eq_true, if_false, hlocals, mapLocals, hcovers,
      not_false_eq_true, if_true, Except.ok.injEq, Prod.mk.injEq] at hcall
    obtain ⟨rfl, _⟩ := hcall
    refine ⟨t₂, label₂, rfl, h₂, hkept₁.trans hkept₂, fun top' htop' virt' => ?_⟩
    rw [hsame top' htop' virt', if_neg fun hc => hcovers hc.1]

end World

def rangePage (base k : ℕ) : ℕ :=
  (base + k * pageSize) % 2 ^ 64

/-- The words after a loop over the pages `ks` of a range: the pages that the
range covers have theirs, and no other word has changed. -/
structure PagesMapped (m m' : Memory) (tops : List ℕ) (top : ℕ) (r : LocalRange)
    (base phys prot : ℕ) (ks : List ℕ) : Prop where
  new : ∀ k ∈ ks, r.Covers (rangePage base k) →
    (∀ j ∈ ks, pageNumber (rangePage base j) = pageNumber (rangePage base k) → j = k) →
    pte m' top (rangePage base k) = (phys + k * pageSize) % 2 ^ 64 ||| ptFlags prot
  old : ∀ top' ∈ tops, ∀ virt',
    (∀ k ∈ ks, r.Covers (rangePage base k) → ¬ Touches top (rangePage base k) top' virt') →
    pte m' top' virt' = pte m top' virt'

lemma World.mapPages {base : ℕ} {pages : ℕ → ℕ → ℕ → ℕ+} {ks : List ℕ}
    (h : World s s.tables.owned tops label) (hg : g < s.globals.count)
    (hlocals : (s.globals.get g).locals = [ref]) (htop : s.top (s.locals.get ref).pagemap ∈ tops)
    (hcall : mapPages g base phys prot pages ks s = .ok s') :
    ∃ t' label', s' = { s with tables := t' } ∧ World s' t'.owned tops label' ∧
      Kept s.tables.memory t'.memory (Frame s.tables.owned s.roots label)
        (Frame t'.owned s.roots label') ∧
      PagesMapped s.tables.memory t'.memory tops (s.top (s.locals.get ref).pagemap)
        (s.locals.get ref) base phys prot ks := by
  induction ks generalizing s label with
  | nil =>
    obtain rfl := Except.ok.inj hcall
    exact ⟨s.tables, label, rfl, h, Kept.refl _ _,
      nofun, fun _ _ _ _ => rfl⟩
  | cons k ks ih =>
    obtain ⟨⟨s₁, ok₁⟩, hcall₁, hcall⟩ := bind_eq_ok.mp hcall
    obtain ⟨t₁, label₁, rfl, h₁, hkept₁, hwords₁⟩ := h.mmapMapPageInRange hg hlocals htop
      (Nat.mod_lt _ (Nat.two_pow_pos 64)) hcall₁
    obtain ⟨t', label', rfl, h', hkept', hmapped⟩ :=
      ih (s := { s with tables := t₁ }) h₁ hg hlocals htop hcall
    refine ⟨t', label', rfl, h', hkept₁.trans hkept', fun j hj hcovers hdistinct => ?_, ?_⟩
    · have hdistinct' : ∀ i ∈ ks,
          pageNumber (rangePage base i) = pageNumber (rangePage base j) → i = j :=
        fun i hi => hdistinct i (.tail k hi)
      by_cases hin : j ∈ ks
      · exact hmapped.new j hin hcovers hdistinct'
      · obtain rfl : j = k := (List.mem_cons.mp hj).resolve_right hin
        have hlast : pte t'.memory (s.top (s.locals.get ref).pagemap) (rangePage base j) =
            pte t₁.memory (s.top (s.locals.get ref).pagemap) (rangePage base j) := by
          refine hmapped.old _ htop _ fun i hi _ htouches => hin ?_
          exact hdistinct' i hi htouches.1 ▸ hi
        rw [hlast, hwords₁ _ htop, if_pos ⟨hcovers, rfl, .inl rfl⟩]
    · intro top' htop' virt' hother
      obtain ⟨hfirst, hrest⟩ := List.forall_mem_cons.mp hother
      rw [hmapped.old top' htop' virt' hrest, hwords₁ top' htop', if_neg]
      exact fun hc => hfirst hc.1 hc.2

def newLocal (s : Machine) (pm base length prot flags : ℕ) : LocalRange :=
  { pagemap := pm, global := s.globals.count, base := base, length := length, offset := 0,
    prot := prot, flags := flags }

def newGlobal (s : Machine) (base length shadow : ℕ) : GlobalRange :=
  { shadowPagemap := shadow, locals := [s.locals.count], resource := none, base := base,
    length := length, offset := 0 }

def ranged (s : Machine) (pm base length prot flags shadow : ℕ) : Machine :=
  (createRange pm base length prot flags shadow s).setRanges pm (s.ranges pm ++ [s.locals.count])

section

variable (s : Machine) (pm base length prot flags shadow : ℕ)

lemma top_setRanges (s : Machine) (pm : ℕ) (ranges : List ℕ) (pm' : ℕ) :
    (s.setRanges pm ranges).top pm' = s.top pm' := by
  by_cases heq : pm' = pm
  · rw [heq, Machine.top, Machine.setRanges, Records.get_set_self, Machine.top]
  · rw [Machine.top, Machine.setRanges, Records.get_set_of_ne _ _ heq, Machine.top]

lemma ranges_setRanges_self (s : Machine) (pm : ℕ) (ranges : List ℕ) :
    (s.setRanges pm ranges).ranges pm = ranges := by
  rw [Machine.ranges, Machine.setRanges, Records.get_set_self]

lemma top_ranged (pm' : ℕ) :
    (ranged s pm base length prot flags shadow).top pm' = s.top pm' :=
  top_setRanges _ _ _ _

lemma ranges_ranged_self :
    (ranged s pm base length prot flags shadow).ranges pm = s.ranges pm ++ [s.locals.count] :=
  ranges_setRanges_self _ _ _

lemma locals_ranged :
    (ranged s pm base length prot flags shadow).locals =
      s.locals.alloc (newLocal s pm base length prot flags) := rfl

lemma globals_ranged :
    (ranged s pm base length prot flags shadow).globals =
      s.globals.alloc (newGlobal s base length shadow) := rfl

end

def rangeLength (virt size : ℕ) : ℕ :=
  alignUp ((size + (alignDown virt pageSize + 2 ^ 64 - virt)) % 2 ^ 64) pageSize

lemma World.mmapMapRange_any {size flags : ℕ} {shadow : ℕ+} {pages : ℕ → ℕ → ℕ → ℕ+}
    (h : World s s.tables.owned tops label) (hpm : pm < s.pagemaps.count)
    (hcall : mmapMapRange pm virt phys size prot flags shadow pages s = .ok (s', ok)) :
    ∃ page t' label', s' = { ranged s pm (alignDown virt pageSize) (rangeLength virt size) prot
        (flags ||| mmapMapAnon) page with tables := t' } ∧
      World s' t'.owned tops label' ∧
      Kept s.tables.memory t'.memory (Frame s.tables.owned s.roots label)
        (Frame t'.owned s'.roots label') ∧
      PagesMapped s.tables.memory t'.memory tops (s.top pm)
        (newLocal s pm (alignDown virt pageSize) (rangeLength virt size) prot
          (flags ||| mmapMapAnon)) (alignDown virt pageSize) phys prot
        (List.range (rangeLength virt size / pageSize)) := by
  obtain ⟨⟨s₁, page⟩, halloc, hcall⟩ := bind_eq_ok.mp hcall
  obtain ⟨rfl, hfresh, rfl⟩ := World.pmmAllocIn_eq_ok halloc
  obtain ⟨s₂, hpages, heq⟩ := map_eq_ok.mp hcall
  cases heq
  set base := alignDown virt pageSize
  set L := rangeLength virt size
  have hglobals := globals_ranged s pm base L prot (flags ||| mmapMapAnon) shadow
  have htops := top_ranged s pm base L prot (flags ||| mmapMapAnon) shadow
  obtain ⟨h₁, hkept₁, hunseen₁, _⟩ := @World.addGlobal _
    { ranged s pm base L prot (flags ||| mmapMapAnon) shadow with
      tables := ⟨memset s.tables.memory (shadow + higherHalf) 0 pageSize,
        shadow :: s.tables.owned⟩ } _ _ h _ _ hfresh rfl rfl rfl hglobals rfl htops
  have hlocal : (ranged s pm base L prot (flags ||| mmapMapAnon) shadow).locals.get
      s.locals.count = newLocal s pm base L prot (flags ||| mmapMapAnon) := by
    rw [locals_ranged, Records.get_alloc_self]
  have htopEq : (ranged s pm base L prot (flags ||| mmapMapAnon) shadow).top
      ((ranged s pm base L prot (flags ||| mmapMapAnon) shadow).locals.get
        s.locals.count).pagemap = s.top pm := by
    rw [hlocal, top_ranged]
    rfl
  obtain ⟨t', label', rfl, h', hkept', hmapped⟩ := @World.mapPages _ _ _ _ s.locals.count
    s.globals.count _ _ _ _ _ h₁ (Nat.lt_succ_self _)
    (by
      rw [globals_ranged, Records.get_alloc_self, newGlobal])
    (by
      change (ranged s pm base L prot (flags ||| mmapMapAnon) shadow).top _ ∈ tops
      rw [htopEq]
      exact h.top_mem pm hpm)
    hpages
  rw [hlocal] at hmapped
  refine ⟨shadow, t', label', rfl, h', hkept₁.trans hkept', ?_, ?_⟩
  · intro k hk hcovers hdistinct
    rw [← hmapped.new k hk hcovers hdistinct]
    exact congrArg (fun top => pte t'.memory top _) (htops pm).symm
  · intro top' htop' virt' hother
    rw [← (hunseen₁ top' htop').pte_eq]
    refine hmapped.old top' htop' virt' fun k hk hcovers htouches => hother k hk hcovers ?_
    have htop₀ := htops pm
    exact htop₀ ▸ htouches

/-! ## The start of a run -/

lemma World.of_initial (hinit : Initial s) :
    ∃ tops label, World s s.tables.owned tops label := by
  obtain ⟨⟨p, hreach, htables, hkernel⟩, hpagemaps, _, hglobals, _⟩ := hinit
  obtain ⟨label, hs, hfilled⟩ := filled_of_reachable hreach
  rw [← htables, ← hkernel] at hs
  rw [← htables] at hfilled
  have hshadows : s.shadows = [] := by
    rw [Machine.shadows, hglobals]
    rfl
  have hroots : s.roots = [s.kernel] := by
    rw [Machine.roots, hshadows]
  refine ⟨p.pagemaps, fun _ => label, ⟨?_, ?_, ?_⟩, ?_, ?_, ?_, ?_⟩
  · rw [hroots]
    intro r hr
    rw [List.mem_singleton.mp hr, groups_kernel]
    exact hs.toSpace
  · exact fun _ _ => hfilled
  · rw [hroots]
    intro r hr r' hr' _ _ _ _ _
    rw [List.mem_singleton.mp hr, List.mem_singleton.mp hr']
  · exact fun i hi hi' => (hs.higher s.kernel hs.kernel_mem i hi hi').2
  · rw [hshadows]
    exact List.not_mem_nil
  · rw [hpagemaps]
    exact fun pm hpm => absurd hpm (Nat.not_lt_zero pm)
  · rw [hpagemaps]
    exact fun pm _ hpm => absurd hpm (Nat.not_lt_zero pm)

end Cottage.Mmap
