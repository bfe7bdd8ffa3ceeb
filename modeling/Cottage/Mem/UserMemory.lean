import Cottage.Mem.MmapCoverage

/-!
# Memory as a program sees it

A program reads a byte through the words of its pagemap; the kernel writes to
the frames behind them by way of the direct map.  Writes to frames that were
allocated for a program keep all tables in order, and a region that is backed by
frames in a row reads as the memory of these frames.
-/

namespace Cottage.Mmap

open ByteMemory Mem Paging

variable {s s' : Machine} {tops : List ℕ} {label label' : ℕ → Labels} {m' : Memory}
  {phys count top virt size prot : ℕ}

def FrameRegion (s : Machine) (label : ℕ → Labels) (phys count : ℕ) : Prop :=
  ∀ k, k < count → Frame s.tables.owned s.roots label (phys + k * pageSize)

lemma exists_inPage {x : ℕ} (hlo : phys + higherHalf ≤ x)
    (hhi : x < phys + higherHalf + count * pageSize) :
    ∃ k, k < count ∧ InPage (phys + k * pageSize) x := by
  refine ⟨(x - (phys + higherHalf)) / pageSize, ?_, ?_⟩
  · rw [Nat.div_lt_iff_lt_mul (by decide)]
    omega
  · simp only [InPage, pageSize]
    omega

lemma agreeOn_of_region {m : Memory} {n : ℕ} (hn : IsPage n)
    (hpages : ∀ k, k < count → IsPage (phys + k * pageSize))
    (hout : ∀ k, k < count → phys + k * pageSize ≠ n)
    (hagree : AgreeOutside m m' (phys + higherHalf) (count * pageSize)) :
    AgreeOn m m' (InPage n) := by
  intro x hx
  apply hagree
  rintro ⟨hlo, hhi⟩
  obtain ⟨k, hk, hin⟩ := exists_inPage hlo hhi
  exact hout k hk (InPage.eq (hpages k hk) hn hin hx)

lemma FrameRegion.isPage (h : FrameRegion s label phys count)
    (hw : World s s.tables.owned tops label) {k : ℕ} (hk : k < count) :
    IsPage (phys + k * pageSize) :=
  hw.isPage (h k hk).1

lemma World.writeRegion (h : World s s.tables.owned tops label)
    (hregion : FrameRegion s label phys count)
    (hagree : AgreeOutside s.tables.memory m' (phys + higherHalf) (count * pageSize)) :
    World { s with tables := { s.tables with memory := m' } } s.tables.owned tops label ∧
      ∀ top ∈ tops, Unseen s.tables.memory m' top := by
  have hbytes (r : ℕ) (hr : r ∈ s.roots) (n : ℕ) (l : ℕ × List ℕ) (hn : label r n = some l) :
      AgreeOn s.tables.memory m' (InPage n) := by
    refine agreeOn_of_region (h.isPage ((h.spaces.space r hr).labelled n l hn))
      (fun k hk => hregion.isPage h hk) ?_ hagree
    rintro k hk rfl
    rw [(hregion k hk).2 r hr] at hn
    cases hn
  obtain ⟨hspaces, hunseen⟩ := h.spaces.congr (fun n hn => hn) (fun n hn => h.isPage hn) hbytes
  refine ⟨⟨hspaces, ?_, h.shadow_ne, h.top_mem, h.top_inj⟩, ?_⟩
  · intro i hi hi'
    have hkernel := h.kernelSpace.top s.kernel h.kernelSpace.kernel_mem
    rw [nextLevel, Spaces.word_of_agreeOn hi' (hbytes s.kernel s.kernel_mem_roots _ _ hkernel)]
    exact h.full i hi hi'
  · intro top htop
    apply hunseen s.kernel s.kernel_mem_roots
    rwa [groups_kernel]

lemma FrameRegion.of_kept {m m' : Memory} {owned' roots' : List ℕ}
    (h : FrameRegion s label phys count)
    (hkept : Kept m m' (Frame s.tables.owned s.roots label) (Frame owned' roots' label'))
    (howned : s'.tables.owned = owned') (hroots : s'.roots = roots') :
    FrameRegion s' label' phys count := by
  intro k hk
  rw [howned, hroots]
  exact (hkept _ (h k hk)).1

lemma FrameRegion.agreeOn {m m' : Memory} {F : ℕ → Prop} (h : FrameRegion s label phys count)
    (hkept : Kept m m' (Frame s.tables.owned s.roots label) F) :
    AgreeOn m m' fun x => phys + higherHalf ≤ x ∧ x < phys + higherHalf + count * pageSize := by
  rintro x ⟨hlo, hhi⟩
  obtain ⟨k, hk, hin⟩ := exists_inPage hlo hhi
  exact (hkept _ (h k hk)).2 x hin

/-- The byte that a program finds at an address, if it is mapped. -/
def userByte (s : Machine) (top virt : ℕ) : Option UInt8 :=
  (virt2phys top virt s).toOption.join.map fun phys =>
    s.tables.memory (phys + virt % pageSize + higherHalf)

lemma userByte_of_ok (h : virt2phys top virt s = .ok (some phys)) :
    userByte s top virt = some (s.tables.memory (phys + virt % pageSize + higherHalf)) :=
  congrArg (fun x : Except Halt (Option ℕ) => x.toOption.join.map fun phys =>
    s.tables.memory (phys + virt % pageSize + higherHalf)) h

def littleEndian : List UInt8 → ℕ
  | [] => 0
  | b :: bs => b.toNat + 2 ^ 8 * littleEndian bs

lemma littleEndian_read64 (m : Memory) (a : ℕ) :
    littleEndian [m a, m (a + 1), m (a + 2), m (a + 3), m (a + 4), m (a + 5), m (a + 6),
      m (a + 7)] = read64 m a := by
  unfold read64
  simp only [littleEndian]
  generalize (m a).toNat = b₀
  generalize (m (a + 1)).toNat = b₁
  generalize (m (a + 2)).toNat = b₂
  generalize (m (a + 3)).toNat = b₃
  generalize (m (a + 4)).toNat = b₄
  generalize (m (a + 5)).toNat = b₅
  generalize (m (a + 6)).toNat = b₆
  generalize (m (a + 7)).toNat = b₇
  omega

def userWord (s : Machine) (top virt : ℕ) : Option ℕ :=
  ((List.range 8).mapM fun i => userByte s top (virt + i)).map littleEndian

def Window (s : Machine) (top virt phys size : ℕ) : Prop :=
  ∀ o, o < size → userByte s top (virt + o) = some (s.tables.memory (phys + higherHalf + o))

lemma Window.userWord_eq (h : Window s top virt phys size) {o : ℕ} (ho : o + 8 ≤ size) :
    userWord s top (virt + o) = some (read64 s.tables.memory (phys + higherHalf + o)) := by
  have hbyte (i : ℕ) (hi : i < 8) : userByte s top (virt + o + i) =
      some (s.tables.memory (phys + higherHalf + o + i)) := by
    rw [Nat.add_assoc, h (o + i) (by omega), ← Nat.add_assoc]
  have hrange : List.range 8 = [0, 1, 2, 3, 4, 5, 6, 7] := rfl
  have h₀ := hbyte 0 (by decide)
  rw [Nat.add_zero, Nat.add_zero] at h₀
  rw [← littleEndian_read64, userWord, hrange]
  simp only [List.mapM_cons, List.mapM_nil, Nat.add_zero, h₀, hbyte 1 (by decide),
    hbyte 2 (by decide), hbyte 3 (by decide), hbyte 4 (by decide), hbyte 5 (by decide),
    hbyte 6 (by decide), hbyte 7 (by decide), Option.bind_eq_bind, Option.bind_some,
    Option.pure_def, Option.map_some]

lemma World.window {owned : List ℕ} (h : World s owned tops label) (htop : top ∈ tops)
    (hvirt : pageSize ∣ virt) (hphys : pageSize ∣ phys)
    (hend : phys + count * pageSize ≤ 2 ^ 64)
    (hwords : ∀ k, k < count → pte s.tables.memory top (virt + k * pageSize) =
      phys + k * pageSize ||| ptFlags prot) :
    Window s top virt phys (count * pageSize) := by
  intro o ho
  have hk : o / pageSize < count := by
    rwa [Nat.div_lt_iff_lt_mul (by decide)]
  have hword := hwords _ hk
  have hle : o / pageSize * pageSize ≤ o := Nat.div_mul_le_self o pageSize
  have hpage : pageNumber (virt + o) = pageNumber (virt + o / pageSize * pageSize) := by
    obtain ⟨v, rfl⟩ := hvirt
    simp only [pageNumber, pageSize]
    omega
  have hbase : pageBase (phys + o / pageSize * pageSize ||| ptFlags prot) =
      phys + o / pageSize * pageSize :=
    pageBase_or_of_dvd (Nat.dvd_add hphys (Nat.dvd_mul_left _ _)) (by omega)
      ((ptFlags_lt prot).trans (by decide))
  have hpresent : pte s.tables.memory top (virt + o / pageSize * pageSize) &&& 1 ≠ 0 := by
    rw [hword]
    exact or_ptFlags_present _ _
  have hoffset : (virt + o) % pageSize = o % pageSize := by
    obtain ⟨v, rfl⟩ := hvirt
    exact Nat.mul_add_mod _ _ _
  have haddr : phys + o / pageSize * pageSize + o % pageSize + higherHalf =
      phys + higherHalf + o := by
    have := Nat.div_add_mod o pageSize
    rw [Nat.mul_comm] at this
    omega
  have hframe : virt2phys top (virt + o) s = .ok (some (phys + o / pageSize * pageSize)) := by
    rw [h.virt2phys_congr htop hpage, h.virt2phys_of_present htop hpresent, hword, hbase]
  rw [← hoffset] at haddr
  exact (userByte_of_ok hframe).trans (congrArg (fun x => some (s.tables.memory x)) haddr)

/-- Pages of a pagemap that are backed by frames in a row, and what these
hold. -/
structure Mapping (s : Machine) (label : ℕ → Labels) (top virt phys count prot : ℕ)
    (content : ℕ → UInt8) : Prop where
  region : FrameRegion s label phys count
  bytes : ∀ o, o < count * pageSize → s.tables.memory (phys + higherHalf + o) = content o
  words : ∀ k, k < count → pte s.tables.memory top (virt + k * pageSize) =
    phys + k * pageSize ||| ptFlags prot

variable {content : ℕ → UInt8} {phys' count' : ℕ}

lemma Mapping.of_kept (h : Mapping s label top virt phys count prot content)
    (hkept : Kept s.tables.memory s'.tables.memory (Frame s.tables.owned s.roots label)
      (Frame s'.tables.owned s'.roots label'))
    (hwords : ∀ k, k < count → pte s'.tables.memory top (virt + k * pageSize) =
      pte s.tables.memory top (virt + k * pageSize)) :
    Mapping s' label' top virt phys count prot content := by
  refine ⟨h.region.of_kept hkept rfl rfl, fun o ho => ?_, fun k hk => ?_⟩
  · rw [h.region.agreeOn hkept _ ⟨Nat.le_add_right _ _, Nat.add_lt_add_left ho _⟩]
    exact h.bytes o ho
  · rw [hwords k hk]
    exact h.words k hk

lemma Mapping.pmmAllocMany {page : ℕ+} (h : Mapping s label top virt phys count prot content)
    (hw : World s s.tables.owned tops label) (htop : top ∈ tops)
    (hcall : pmmAllocMany page count' s = .ok (s', phys')) :
    Mapping s' label top virt phys count prot content := by
  obtain ⟨_, _, t', rfl, _, hkept, hunseen, _⟩ := hw.pmmAllocMany hcall
  exact h.of_kept hkept fun k _ => (hunseen top htop).pte_eq _

lemma World.allocFrames {page : ℕ+} (h : World s s.tables.owned tops label)
    (hcall : Mmap.pmmAllocMany page count' s = .ok (s', phys')) :
    World s' s'.tables.owned tops label ∧ FrameRegion s' label phys' count' ∧
      (∀ pm, s'.top pm = s.top pm) ∧
      ∀ {top virt phys count prot : ℕ} {content : ℕ → UInt8}, top ∈ tops →
        Mapping s label top virt phys count prot content →
        Mapping s' label top virt phys count prot content ∧
          ∀ j, j < count → ∀ k, k < count' → phys' + k * pageSize ≠ phys + j * pageSize := by
  obtain ⟨rfl, _, t', rfl, hw, _, _, hnew⟩ := h.pmmAllocMany hcall
  refine ⟨hw, fun k hk => (hnew k hk).2.1, fun _ => rfl, ?_⟩
  intro top virt phys count prot content htop hmapping
  refine ⟨hmapping.pmmAllocMany h htop hcall, fun j hj k hk heq => ?_⟩
  exact (hnew k hk).1 (heq ▸ (hmapping.region j hj).1)

section

variable (h : Mapping s label top virt phys count prot content)
  (hw : World s s.tables.owned tops label) (htop : top ∈ tops)

include h hw htop

lemma Mapping.writeOther (hregion : FrameRegion s label phys' count')
    (hapart : ∀ j, j < count → ∀ k, k < count' → phys' + k * pageSize ≠ phys + j * pageSize)
    (hagree : AgreeOutside s.tables.memory m' (phys' + higherHalf) (count' * pageSize)) :
    Mapping { s with tables := { s.tables with memory := m' } } label top virt phys count prot
      content := by
  refine ⟨h.region, fun o ho => ?_, fun k hk => ?_⟩
  · obtain ⟨j, hj, hin⟩ := @exists_inPage phys count (phys + higherHalf + o)
      (Nat.le_add_right _ _) (Nat.add_lt_add_left ho _)
    rw [← h.bytes o ho]
    exact agreeOn_of_region (h.region.isPage hw hj) (fun k hk => hregion.isPage hw hk) (hapart j hj)
      hagree _ hin
  · rw [((hw.writeRegion hregion hagree).2 top htop).pte_eq]
    exact h.words k hk

lemma Mapping.write
    (hagree : AgreeOutside s.tables.memory m' (phys + higherHalf) (count * pageSize)) :
    Mapping { s with tables := { s.tables with memory := m' } } label top virt phys count prot
      fun o => m' (phys + higherHalf + o) := by
  refine ⟨h.region, fun _ _ => rfl, fun k hk => ?_⟩
  rw [((hw.writeRegion h.region hagree).2 top htop).pte_eq]
  exact h.words k hk

lemma Mapping.window (hvirt : pageSize ∣ virt) (hcount : 0 < count) :
    Window s top virt phys (count * pageSize) := by
  have hfirst := h.region.isPage hw hcount
  have hlast := h.region.isPage hw (Nat.sub_lt hcount Nat.one_pos)
  refine hw.window htop hvirt hfirst.1 ?_ h.words
  have hend := hlast.2.2
  rw [Nat.sub_mul, Nat.one_mul] at hend
  simp only [directMapSize] at hend
  omega

lemma Mapping.window_write (hvirt : pageSize ∣ virt) (hcount : 0 < count)
    (hagree : AgreeOutside s.tables.memory m' (phys + higherHalf) (count * pageSize)) :
    Window { s with tables := { s.tables with memory := m' } } top virt phys (count * pageSize) :=
  (h.write hw htop hagree).window (hw.writeRegion h.region hagree).1 htop hvirt hcount

end

/-! ## New pages for a program -/

lemma rangeLength_mul (virt : ℕ) (hcount : 0 < count) (hle : count ≤ 2 ^ 36) :
    rangeLength virt (count * pageSize) = count * pageSize := by
  rw [rangeLength_of_lt (by simp only [pageSize]; omega) (by simp only [pageSize]; omega)]
  simp only [pageSize]
  omega

def PagesApart (virt count virt' count' : ℕ) : Prop :=
  virt + count * pageSize ≤ virt' ∨ virt' + count' * pageSize ≤ virt

lemma World.mapFrames {pm flags : ℕ} {ok : Bool} {page shadow : ℕ+} {pages : ℕ → ℕ → ℕ → ℕ+}
    {s₁ : Machine} (h : World s s.tables.owned tops label) (hpm : pm < s.pagemaps.count)
    (hlower : alignDown virt pageSize + count * pageSize ≤ 2 ^ 47)
    (halloc : Mmap.pmmAllocMany page count s = .ok (s₁, phys))
    (hcall : Mmap.mmapMapRange pm virt phys (count * pageSize) prot flags shadow pages s₁ =
      .ok (s', ok)) :
    ∃ label', World s' s'.tables.owned tops label' ∧
      Mapping s' label' (s.top pm) (alignDown virt pageSize) phys count prot (fun _ => 0) ∧
      0 < count ∧ s'.pagemaps.count = s.pagemaps.count ∧ (∀ pm', s'.top pm' = s.top pm') ∧
      ∀ {top' virt' phys' count' prot' : ℕ} {content : ℕ → UInt8}, top' ∈ tops →
        pageSize ∣ virt' → virt' + count' * pageSize ≤ 2 ^ 47 →
        (top' = s.top pm → PagesApart (alignDown virt pageSize) count virt' count') →
        Mapping s label top' virt' phys' count' prot' content →
        Mapping s' label' top' virt' phys' count' prot' content ∧
          ∀ j, j < count' → ∀ k, k < count → phys + k * pageSize ≠ phys' + j * pageSize := by
  obtain ⟨rfl, hcount, t₁, rfl, h₁, hkept₁, hunseen₁, hnew⟩ := h.pmmAllocMany halloc
  obtain ⟨shadowPage, t₂, label', rfl, h₂, hkept₂, hmapped⟩ := h₁.mmapMapRange_any hpm hcall
  have hle : count ≤ 2 ^ 36 := by
    simp only [pageSize] at hlower
    omega
  have hlength := rangeLength_mul virt hcount hle
  have hregion : FrameRegion { s with tables := t₁ } label page count :=
    fun k hk => (hnew k hk).2.1
  have hlast := hregion.isPage h₁ (Nat.sub_lt hcount Nat.one_pos)
  have hend : page + count * pageSize ≤ 2 ^ 64 := by
    have hend := hlast.2.2
    simp only [directMapSize] at hend
    omega
  have hzero : ∀ o, o < count * pageSize → t₁.memory (page + higherHalf + o) = 0 := by
    intro o ho
    obtain ⟨k, hk, hin⟩ := @exists_inPage page count (page + higherHalf + o)
      (Nat.le_add_right _ _) (Nat.add_lt_add_left ho _)
    exact (hnew k hk).2.2 _ hin
  have hstop : alignDown virt pageSize + count * pageSize < 2 ^ 64 := by omega
  refine ⟨label', h₂, ⟨?_, ?_, ?_⟩, hcount, rfl, ?_, ?_⟩
  · exact hregion.of_kept hkept₂ rfl rfl
  · intro o ho
    rw [← hzero o ho]
    exact hregion.agreeOn hkept₂ _ ⟨Nat.le_add_right _ _, Nat.add_lt_add_left ho _⟩
  · intro k hk
    exact hmapped.pte_eq hlength hstop hle hend hk
  · exact top_ranged { s with tables := t₁ } _ _ _ _ _ _
  · intro top' virt' phys' count' prot' content htop' hvirt' hlower' hapart hother
    have hother₁ : Mapping { s with tables := t₁ } label top' virt' phys' count' prot' content :=
      hother.pmmAllocMany h htop' halloc
    refine ⟨hother₁.of_kept hkept₂ fun j hj => ?_, fun j hj k hk heq => ?_⟩
    · refine hmapped.old top' htop' _ fun k hk _ htouches => ?_
      rw [hlength, Nat.mul_div_cancel _ (by decide), List.mem_range] at hk
      have hlt := Nat.mul_lt_mul_of_pos_right hk (show 0 < pageSize by decide)
      have hlt' := Nat.mul_lt_mul_of_pos_right hj (show 0 < pageSize by decide)
      have haddr : rangePage (alignDown virt pageSize) k = alignDown virt pageSize + k * pageSize :=
        Nat.mod_eq_of_lt (by omega)
      have huser : UserPage (alignDown virt pageSize + k * pageSize) :=
        ⟨Nat.dvd_add (Nat.dvd_mul_left _ _) (Nat.dvd_mul_left _ _), by omega⟩
      have huser' : UserPage (virt' + j * pageSize) :=
        ⟨Nat.dvd_add hvirt' (Nat.dvd_mul_left _ _), by omega⟩
      rw [haddr] at htouches
      obtain ⟨htop, heq⟩ := (huser.touches_iff huser').mp htouches
      rcases hapart htop.symm with hbefore | hafter
      · omega
      · omega
    · exact (hnew k hk).1 (heq ▸ (hother.region j hj).1)

end Cottage.Mmap
