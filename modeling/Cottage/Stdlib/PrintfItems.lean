import Cottage.Stdlib.Printf

/-!
# The format machine on the pieces of a format

The format machine prints the pieces that a format and its arguments stand for
one after the other: on the way from one conversion to the next it changes
nothing but the state and the length.  What it does to a piece depends on the
room that is left.
-/

namespace Cottage.Printf

variable {below : ℕ → UInt8}

abbrev Writer := List UInt8 × ℕ

def putc (w : Writer) (c : UInt8) : Writer :=
  (snputc w.1 w.2 c, decrease w.2 1)

def putNumber (below : ℕ → UInt8) (w : Writer) (negative : Bool) (magnitude radix : ℕ) : Writer :=
  if negative then
    let (out, ret) := vsnprintfUnsigned below (snputc w.1 w.2 0x2D) w.2 magnitude radix
    (out, decrease w.2 (ret + 1))
  else
    let (out, ret) := vsnprintfUnsigned below w.1 w.2 magnitude radix
    (out, decrease w.2 ret)

def emit (below : ℕ → UInt8) (w : Writer) : Item → Writer
  | .text s => s.foldl putc w
  | .number negative magnitude radix _ => putNumber below w negative magnitude radix

lemma foldl_machine_putc (s : List UInt8) (m : Machine) :
    s.foldl Machine.putc m =
      { m with out := (s.foldl putc (m.out, m.n)).1, n := (s.foldl putc (m.out, m.n)).2 } := by
  induction s generalizing m with
  | nil => rfl
  | cons c s ih =>
    rw [List.foldl_cons, ih, List.foldl_cons]
    rfl

lemma putNumber_signed (w : Writer) (v : ℤ) (radix : ℕ) :
    putNumber below w (decide (v < 0)) v.natAbs radix =
      ((vsnprintfSigned below w.1 w.2 v radix).1,
        decrease w.2 (vsnprintfSigned below w.1 w.2 v radix).2) := by
  by_cases hneg : v < 0
  · have habs : (-v).toNat = v.natAbs := by omega
    simp only [vsnprintfSigned, if_pos hneg, putNumber, decide_eq_true hneg, habs, if_true]
  · have habs : v.toNat = v.natAbs := by omega
    simp only [vsnprintfSigned, if_neg hneg, putNumber, decide_eq_false hneg, habs,
      Bool.false_eq_true, if_false]

def Machine.after (m : Machine) (w : Writer) (args : List Arg) : Machine :=
  { m with out := w.1, n := w.2, args := args }

variable {m : Machine} {arg : Arg} {args : List Arg} {v : ℤ} {u : ℕ} {length : Length}
  {s : Specifier} {item : Item} {c : UInt8} {fmt : List UInt8} {items : List Item}

lemma printSigned_eq (hargs : m.args = arg :: args) (harg : numberArg m.length arg = some (v, u)) :
    m.printSigned below =
      some (m.after (putNumber below (m.out, m.n) (decide (v < 0)) v.natAbs 10) args) := by
  rw [Machine.printSigned, hargs]
  cases arg with
  | int v' =>
    simp only [numberArg] at harg
    split_ifs at harg with hlong
    cases harg
    simp only [hlong, Bool.false_eq_true, if_false, putNumber_signed]
    rfl
  | long v' =>
    simp only [numberArg] at harg
    split_ifs at harg with hlong
    cases harg
    simp only [hlong, if_true, putNumber_signed]
    rfl
  | string s => cases harg

lemma printUnsigned_eq {radix : ℕ} (hargs : m.args = arg :: args)
    (harg : numberArg m.length arg = some (v, u)) :
    m.printUnsigned below radix =
      some (m.after (putNumber below (m.out, m.n) false u radix) args) := by
  rw [Machine.printUnsigned, hargs]
  cases arg with
  | int v' =>
    simp only [numberArg] at harg
    split_ifs at harg with hlong
    cases harg
    simp only [hlong, Bool.false_eq_true, if_false]
    rfl
  | long v' =>
    simp only [numberArg] at harg
    split_ifs at harg with hlong
    cases harg
    simp only [hlong, if_true]
    rfl
  | string s => cases harg

inductive Interpreted (length : Length) : Specifier → List Arg → Item → List Arg → Prop
  | char (v : BitVec 32) (args : List Arg) :
      Interpreted length .char (.int v :: args) (.text [UInt8.ofNat v.toNat]) args
  | string (s : List UInt8) (args : List Arg) :
      Interpreted length .string (.string s :: args) (.text s) args
  | percent (args : List Arg) : Interpreted length .percent args (.text [0x25]) args
  | signed {arg : Arg} {v : ℤ} {u : ℕ} (args : List Arg) :
      numberArg length arg = some (v, u) →
      Interpreted length .signed (arg :: args) (.number (decide (v < 0)) v.natAbs 10 false) args
  | unsigned {arg : Arg} {v : ℤ} {u : ℕ} (radix : ℕ) (upper : Bool) (args : List Arg) :
      numberArg length arg = some (v, u) →
      Interpreted length (.unsigned radix upper) (arg :: args) (.number false u radix upper) args
  | invalid (args : List Arg) : Interpreted length .invalid args (.text []) args

lemma interpreted_of_eq_some {args' : List Arg}
    (hitem : interpretSpec length s args = some (item, args')) :
    Interpreted length s args item args' := by
  unfold interpretSpec at hitem
  split at hitem
  · cases hitem
    exact .char _ _
  · cases hitem
    exact .string _ _
  · cases hitem
    exact .percent _
  · obtain ⟨⟨v, u⟩, harg, heq⟩ := Option.map_eq_some_iff.mp hitem
    cases heq
    exact .signed _ harg
  · obtain ⟨⟨v, u⟩, harg, heq⟩ := Option.map_eq_some_iff.mp hitem
    cases heq
    exact .unsigned _ _ _ harg
  · cases hitem
    exact .invalid _
  · cases hitem

lemma convert_eq {args₀ : List Arg} (hspec : specifier c = s) (hargs : m.args = args₀)
    (hitem : Interpreted m.length s args₀ item args) :
    m.convert below c = some (m.after (emit below (m.out, m.n) item) args) := by
  rw [Machine.convert, hspec]
  cases hitem with
  | char v args =>
    rw [hargs]
    rfl
  | string s args =>
    rw [hargs]
    dsimp only
    rw [foldl_machine_putc]
    rfl
  | percent args =>
    rw [← hargs]
    rfl
  | signed args harg => exact printSigned_eq hargs harg
  | unsigned radix upper args harg => exact printUnsigned_eq hargs harg
  | invalid args =>
    rw [← hargs]
    rfl

lemma spec_eq (hitem : interpretSpec m.length (specifier c) m.args = some (item, args)) :
    m.spec below c = some
      ⟨(emit below (m.out, m.n) item).1, (emit below (m.out, m.n) item).2, args, .normal,
        .default⟩ := by
  rw [Machine.spec, convert_eq rfl rfl (interpreted_of_eq_some hitem)]
  rfl

def ready (w : Writer) (args : List Arg) : Machine :=
  ⟨w.1, w.2, args, .normal, .default⟩

lemma foldlM_spec {rest : List Conversion} (hstep : m.step below c = m.spec below c)
    (hitems : interpret (.spec m.length c :: rest) m.args = some items)
    (ih : ∀ {args : List Arg} {items : List Item} (w : Writer),
      interpret rest args = some items →
        ∃ m, fmt.foldlM (Machine.step below) (ready w args) = some m ∧
          (m.out, m.n) = items.foldl (emit below) w) :
    ∃ m', (c :: fmt).foldlM (Machine.step below) m = some m' ∧
      (m'.out, m'.n) = items.foldl (emit below) (m.out, m.n) := by
  obtain ⟨⟨item, args⟩, hitem, hmap⟩ := Option.bind_eq_some_iff.mp hitems
  obtain ⟨items', hrest, rfl⟩ := Option.map_eq_some_iff.mp hmap
  rw [List.foldlM_cons, hstep, spec_eq hitem]
  exact ih (emit below (m.out, m.n) item) hrest

lemma foldlM_step (below : ℕ → UInt8) (w : Writer)
    (hitems : interpret (conversions fmt) args = some items) :
    ∃ m, fmt.foldlM (Machine.step below) (ready w args) = some m ∧
      (m.out, m.n) = items.foldl (emit below) w := by
  fun_induction conversions fmt generalizing args items w
  case case1 | case2 | case3 | case4 | case7 | case8 =>
    cases hitems
    exact ⟨_, rfl, rfl⟩
  case case5 c fmt ih =>
    exact foldlM_spec (m := { ready w args with state := .spec, length := .shortShort }) rfl
      hitems ih
  case case6 c fmt hc ih =>
    exact foldlM_spec (m := { ready w args with state := .lengthShort, length := .short })
      (if_neg hc) hitems ih
  case case9 c fmt hc ih =>
    exact foldlM_spec (m := { ready w args with state := .spec, length := .longLong }) rfl hitems ih
  case case10 c fmt hc _ ih =>
    exact foldlM_spec (m := { ready w args with state := .lengthLong, length := .long })
      (if_neg hc) hitems ih
  case case11 c fmt hh hl ih =>
    refine foldlM_spec (m := { ready w args with state := .length }) ?_ hitems ih
    simp only [Machine.step, if_neg hh, if_neg hl]
  case case12 c fmt hc ih =>
    obtain ⟨items', hrest, rfl⟩ := Option.map_eq_some_iff.mp hitems
    have hstep : (ready w args).step below c = some (ready (putc w c) args) := if_neg hc
    rw [List.foldlM_cons, hstep]
    exact ih (putc w c) hrest

lemma vsnprintf_eq (n : ℕ) (hitems : interpret (conversions fmt) args = some items) :
    vsnprintf below n fmt args =
      some (snputc (items.foldl (emit below) ([], n)).1 (items.foldl (emit below) ([], n)).2 0,
        toInt (decrease n (items.foldl (emit below) ([], n)).2)) := by
  obtain ⟨m, hrun, heq⟩ := foldlM_step below ([], n) hitems
  have hstart : ready ([], n) args = ⟨[], n, args, .normal, .default⟩ := rfl
  rw [vsnprintf, ← hstart, hrun, ← heq]
  rfl

/-! ## The numbers of a format -/

def Item.Small : Item → Prop
  | .text _ => True
  | .number negative magnitude radix _ =>
    magnitude < 2 ^ 64 ∧ 2 ≤ radix ∧ (negative = true → magnitude ≠ 0)

lemma radix_of_specifier {radix : ℕ} {upper : Bool}
    (hspec : specifier c = .unsigned radix upper) : 2 ≤ radix := by
  unfold specifier at hspec
  split_ifs at hspec <;>
    (obtain ⟨rfl, rfl⟩ := Specifier.unsigned.inj hspec; decide)

lemma numberArg_lt (harg : numberArg length arg = some (v, u)) :
    v.natAbs < 2 ^ 64 ∧ u < 2 ^ 64 := by
  cases arg with
  | int x =>
    simp only [numberArg] at harg
    split_ifs at harg
    cases harg
    have hlo := x.toInt_lt
    have hhi := x.le_toInt
    have hlt := x.isLt
    omega
  | long x =>
    simp only [numberArg] at harg
    split_ifs at harg
    cases harg
    have hlo := x.toInt_lt
    have hhi := x.le_toInt
    omega
  | string s => cases harg

lemma small_of_interpreted {args' : List Arg} (hspec : specifier c = s)
    (hitem : Interpreted length s args item args') : item.Small := by
  cases hitem with
  | char v args => trivial
  | string s args => trivial
  | percent args => trivial
  | signed args harg =>
    refine ⟨(numberArg_lt harg).1, by decide, ?_⟩
    intro hneg
    have hneg := of_decide_eq_true hneg
    omega
  | unsigned radix upper args harg =>
    exact ⟨(numberArg_lt harg).2, radix_of_specifier hspec, fun hneg => by cases hneg⟩
  | invalid args => trivial

lemma small_of_interpret {convs : List Conversion} (hitems : interpret convs args = some items) :
    ∀ item ∈ items, item.Small := by
  induction convs generalizing args items with
  | nil =>
    cases hitems
    exact nofun
  | cons conv convs ih =>
    cases conv with
    | literal c =>
      obtain ⟨items', hrest, rfl⟩ := Option.map_eq_some_iff.mp hitems
      exact List.forall_mem_cons.mpr ⟨trivial, ih hrest⟩
    | spec length c =>
      obtain ⟨⟨item, args'⟩, hitem, hmap⟩ := Option.bind_eq_some_iff.mp hitems
      obtain ⟨items', hrest, rfl⟩ := Option.map_eq_some_iff.mp hmap
      have hsmall := small_of_interpreted rfl (interpreted_of_eq_some hitem)
      exact List.forall_mem_cons.mpr ⟨hsmall, ih hrest⟩

end Cottage.Printf
