import Mathlib.Data.List.Pairwise
import Mathlib.Data.Set.Basic
import Mathlib.Order.Defs.LinearOrder

/-!
# Walking two lists in step

What two lists have in common can be found in one walk over both: the smaller of
the two heads is passed, and equal heads are a match. The walk finds everything
if both lists are sorted by the order that the heads are compared in, but this
is more than it needs. It finds everything exactly when what is common has the
same order in both lists, and what is in one list only is below what is common
and comes next.
-/

namespace MergeWalk

open List

variable {α : Type} [LinearOrder α]

/-- What the walk finds. -/
def common : List α → List α → List α
  | [], _ => []
  | _ :: _, [] => []
  | a :: as, b :: bs =>
    if a < b then common as (b :: bs)
    else if a = b then a :: common as bs
    else common (a :: as) bs
termination_by as bs => as.length + bs.length

section Common

variable {a b : α} {as bs : List α}

@[simp] theorem common_nil (bs : List α) : common [] bs = [] := by rw [common]

@[simp] theorem common_nil_right (as : List α) : common as [] = [] := by
  cases as <;> rw [common]

theorem common_lt (h : a < b) : common (a :: as) (b :: bs) = common as (b :: bs) := by
  rw [common, if_pos h]

theorem common_self (a : α) (as bs : List α) :
    common (a :: as) (a :: bs) = a :: common as bs := by
  rw [common, if_neg (lt_irrefl a), if_pos rfl]

theorem common_gt (h : b < a) : common (a :: as) (b :: bs) = common (a :: as) bs := by
  rw [common, if_neg (lt_asymm h), if_neg h.ne']

theorem common_comm (as bs : List α) : common as bs = common bs as := by
  fun_induction common as bs with
  | case1 bs => rw [common_nil_right]
  | case2 a as => rw [common_nil]
  | case3 a as b bs h ih => rw [ih, common_gt h]
  | case4 as b bs h ih => rw [ih, common_self]
  | case5 a as b bs h hne ih => rw [ih, common_lt (lt_of_le_of_ne (not_lt.mp h) (Ne.symm hne))]

theorem common_subset (as bs : List α) : common as bs ⊆ as := by
  fun_induction common as bs with
  | case1 bs => exact List.Subset.refl _
  | case2 a as => exact nil_subset _
  | case3 a as b bs h ih => exact subset_cons_of_subset a ih
  | case4 as b bs h ih => exact cons_subset_cons b ih
  | case5 a as b bs h hne ih => exact ih

end Common

/-! ## When everything is found -/

/-- What does not satisfy a predicate is below what does and comes next. -/
def Below (p : α → Bool) : List α → Prop
  | [] => True
  | x :: l => (p x = false → ∀ c ∈ l.find? p, x < c) ∧ Below p l

theorem Below.congr {p q : α → Bool} {l : List α} (h : ∀ x ∈ l, p x = q x) : Below p l ↔ Below q l := by
  induction l with
  | nil => exact Iff.rfl
  | cons x l ih =>
    have hl : ∀ y ∈ l, p y = q y := fun y hy => h y (mem_cons_of_mem _ hy)
    have hfind : l.find? p = l.find? q := by
      rw [← head?_filter, ← head?_filter, filter_congr hl]
    unfold Below
    rw [h x mem_cons_self, ih hl, hfind]

theorem below_of_eq_false {p : α → Bool} {l : List α} (h : ∀ x ∈ l, p x = false) : Below p l := by
  induction l with
  | nil => trivial
  | cons x l ih =>
    have hl : ∀ y ∈ l, p y = false := fun y hy => h y (mem_cons_of_mem _ hy)
    refine ⟨fun _ c hc => ?_, ih hl⟩
    have hfalse := hl c (mem_of_find?_eq_some hc)
    exact absurd (find?_some hc) (by rw [hfalse]; decide)

/-- Two lists that can be walked in step. -/
structure Aligned (as bs : List α) : Prop where
  same : (as.filter fun x => x ∈ bs) = bs.filter fun x => x ∈ as
  left : Below (fun x => x ∈ bs) as
  right : Below (fun x => x ∈ as) bs

variable {as bs : List α}

theorem Aligned.symm (h : Aligned as bs) : Aligned bs as := ⟨h.same.symm, h.right, h.left⟩

/-- What is common and comes first is the same. -/
theorem Aligned.find (h : Aligned as bs) :
    (as.find? fun x => x ∈ bs) = bs.find? fun x => x ∈ as := by
  rw [← head?_filter, ← head?_filter, h.same]

theorem aligned_nil (bs : List α) : Aligned [] bs := by
  have hfalse : ∀ x ∈ bs, decide (x ∈ ([] : List α)) = false := fun x _ => decide_eq_false not_mem_nil
  refine ⟨?_, trivial, below_of_eq_false hfalse⟩
  exact (filter_eq_nil_iff.mpr fun x hx => by simp).symm

/-- The head of the other list is not above what is common and comes first. -/
theorem Aligned.head_le {b c : α} (h : Aligned as (b :: bs))
    (hc : c ∈ as.find? fun x => x ∈ b :: bs) : b ≤ c := by
  rw [h.find] at hc
  by_cases hb : b ∈ as
  · rw [find?_cons_of_pos (by simpa using hb)] at hc
    exact (Option.some.inj hc).le
  · rw [find?_cons_of_neg (by simpa using hb)] at hc
    exact (h.right.1 (by simpa using hb) c hc).le

theorem aligned_cons_self {a : α} (ha : a ∉ as) (hb : a ∉ bs) :
    Aligned (a :: as) (a :: bs) ↔ Aligned as bs := by
  have hcongr : ∀ {as : List α} (bs : List α), a ∉ as →
      ∀ x ∈ as, decide (x ∈ a :: bs) = decide (x ∈ bs) := by
    intro as bs ha x hx
    have hne : x ≠ a := fun h => ha (h ▸ hx)
    simp [hne]
  have hbelow : ∀ {as bs : List α}, a ∉ as →
      (Below (fun x => x ∈ a :: bs) (a :: as) ↔ Below (fun x => x ∈ bs) as) := by
    intro as bs ha
    rw [← Below.congr (hcongr bs ha)]
    exact and_iff_right fun h => absurd h (by simp)
  have hfilter : ∀ {as bs : List α}, a ∉ as →
      ((a :: as).filter fun x => x ∈ a :: bs) = a :: as.filter fun x => x ∈ bs := by
    intro as bs ha
    rw [filter_cons, if_pos (by simp), filter_congr (hcongr bs ha)]
  constructor
  · intro h
    have hsame := h.same
    rw [hfilter ha, hfilter hb] at hsame
    exact ⟨(cons.inj hsame).2, (hbelow ha).mp h.left, (hbelow hb).mp h.right⟩
  · intro h
    refine ⟨?_, (hbelow ha).mpr h.left, (hbelow hb).mpr h.right⟩
    rw [hfilter ha, hfilter hb, h.same]

theorem aligned_cons_lt {a b : α} (hlt : a < b) :
    Aligned (a :: as) (b :: bs) ↔ a ∉ bs ∧ Aligned as (b :: bs) := by
  have hbelow : ∀ h : a ∉ b :: bs, ∀ x ∈ b :: bs, decide (x ∈ a :: as) = decide (x ∈ as) := by
    intro h x hx
    have hne : x ≠ a := fun heq => h (heq ▸ hx)
    simp [hne]
  have hfilter : ∀ h : a ∉ b :: bs,
      ((a :: as).filter fun x => x ∈ b :: bs) = as.filter fun x => x ∈ b :: bs :=
    fun h => filter_cons_of_neg (by simpa using h)
  constructor
  · intro h
    have hmem : a ∉ b :: bs := by
      intro hmem
      have hfind : a ∈ (a :: as).find? fun x => x ∈ b :: bs :=
        find?_cons_of_pos (by simpa using hmem)
      exact absurd (h.head_le hfind) (not_le.mpr hlt)
    have hsame := h.same
    rw [hfilter hmem, filter_congr (hbelow hmem)] at hsame
    exact ⟨fun h => hmem (mem_cons_of_mem _ h), hsame, h.left.2,
      (Below.congr (hbelow hmem)).mp h.right⟩
  · rintro ⟨hbs, h⟩
    have hmem : a ∉ b :: bs := not_mem_cons_of_ne_of_not_mem hlt.ne hbs
    refine ⟨?_, ⟨fun _ c hc => hlt.trans_le (h.head_le hc), h.left⟩,
      (Below.congr (hbelow hmem)).mpr h.right⟩
    rw [hfilter hmem, filter_congr (hbelow hmem), h.same]

/-- **Everything is found** exactly when the lists can be walked in step. -/
theorem forall_mem_common_iff (ha : as.Nodup) (hb : bs.Nodup) :
    (∀ c ∈ as, c ∈ bs → c ∈ common as bs) ↔ Aligned as bs := by
  fun_induction common as bs with
  | case1 bs => exact iff_of_true (fun c hc => absurd hc not_mem_nil) (aligned_nil bs)
  | case2 a as =>
    exact iff_of_true (fun c _ hc => absurd hc not_mem_nil) (aligned_nil (a :: as)).symm
  | case3 a as b bs h ih =>
    have ⟨hnotMem, ha⟩ := nodup_cons.mp ha
    rw [aligned_cons_lt h, ← ih ha hb]
    constructor
    · intro hall
      refine ⟨fun hmem => hnotMem ?_, fun c hc => hall c (mem_cons_of_mem _ hc)⟩
      exact common_subset _ _ (hall a mem_cons_self (mem_cons_of_mem _ hmem))
    · rintro ⟨hbs, hall⟩ c hc hcb
      rcases mem_cons.mp hc with heq | hc
      · rw [heq] at hcb
        exact absurd hcb (not_mem_cons_of_ne_of_not_mem h.ne hbs)
      · exact hall c hc hcb
  | case4 as b bs h ih =>
    have ⟨hnotMem, ha⟩ := nodup_cons.mp ha
    have ⟨hnotMem', hb⟩ := nodup_cons.mp hb
    rw [aligned_cons_self hnotMem hnotMem', ← ih ha hb]
    constructor
    · intro hall c hc hcb
      have hne : c ≠ b := fun heq => hnotMem (heq ▸ hc)
      exact mem_of_ne_of_mem hne
        (hall c (mem_cons_of_mem _ hc) (mem_cons_of_mem _ hcb))
    · intro hall c hc hcb
      rcases mem_cons.mp hc with heq | hc
      · rw [heq]
        exact mem_cons_self
      · have hne : c ≠ b := fun heq => hnotMem (heq ▸ hc)
        exact mem_cons_of_mem _ (hall c hc (mem_of_ne_of_mem hne hcb))
  | case5 a as b bs h hne ih =>
    have hlt : b < a := lt_of_le_of_ne (not_lt.mp h) (Ne.symm hne)
    have ⟨hnotMem, hb⟩ := nodup_cons.mp hb
    have hsymm : Aligned (a :: as) (b :: bs) ↔ b ∉ as ∧ Aligned (a :: as) bs := by
      rw [show Aligned (a :: as) (b :: bs) ↔ Aligned (b :: bs) (a :: as) from ⟨.symm, .symm⟩,
        aligned_cons_lt hlt]
      exact and_congr_right fun _ => ⟨.symm, .symm⟩
    rw [hsymm, ← ih ha hb]
    constructor
    · intro hall
      refine ⟨fun hmem => hnotMem ?_, fun c hc hcb => hall c hc (mem_cons_of_mem _ hcb)⟩
      have hfound := hall b (mem_cons_of_mem _ hmem) mem_cons_self
      rw [common_comm] at hfound
      exact common_subset _ _ hfound
    · rintro ⟨has, hall⟩ c hc hcb
      rcases mem_cons.mp hcb with heq | hcb
      · rw [heq] at hc
        exact absurd hc (not_mem_cons_of_ne_of_not_mem hlt.ne has)
      · exact hall c hc hcb

/-! ## Lists sorted by keys -/

section Keys

variable {κ : Type} [LinearOrder κ] {f g : α → κ} {as bs : List α} {A B : Set α}

/-- What is in one set only is below what is in both and has the next key. -/
def NextAbove (key : α → κ) (A B : Set α) : Prop :=
  ∀ x ∈ A \ B, ∀ c ∈ A ∩ B, key x < key c → (∀ d ∈ A ∩ B, key x < key d → key c ≤ key d) → x < c

/-- Two sets, each with its keys, whose sorted lists can be walked in step. -/
structure Agree (f g : α → κ) (A B : Set α) : Prop where
  same : ∀ c ∈ A ∩ B, ∀ d ∈ A ∩ B, f c < f d ↔ g c < g d
  left : NextAbove f A B
  right : NextAbove g B A

/-- The first one that satisfies a predicate has the least key. -/
theorem find?_eq_some_iff {β : Type} {f : β → κ} {p : β → Bool} {l : List β}
    (hl : l.Pairwise (f · < f ·)) {c : β} :
    l.find? p = some c ↔ c ∈ l ∧ p c = true ∧ ∀ d ∈ l, p d = true → f c ≤ f d := by
  induction l with
  | nil => simp
  | cons x l ih =>
    have ⟨hx, hl⟩ := pairwise_cons.mp hl
    by_cases hp : p x = true
    · rw [find?_cons_of_pos hp, Option.some_inj]
      constructor
      · rintro rfl
        refine ⟨mem_cons_self, hp, fun d hd _ => ?_⟩
        rcases mem_cons.mp hd with rfl | hd
        · exact le_rfl
        · exact (hx d hd).le
      · rintro ⟨hc, _, hle⟩
        rcases mem_cons.mp hc with rfl | hc
        · rfl
        · exact absurd (hle x mem_cons_self hp) (not_le.mpr (hx c hc))
    · rw [find?_cons_of_neg hp, ih hl]
      constructor
      · rintro ⟨hc, hpc, hle⟩
        refine ⟨mem_cons_of_mem _ hc, hpc, fun d hd hpd => ?_⟩
        rcases mem_cons.mp hd with rfl | hd
        · exact absurd hpd hp
        · exact hle d hd hpd
      · rintro ⟨hc, hpc, hle⟩
        rcases mem_cons.mp hc with rfl | hc
        · exact absurd hpc hp
        · exact ⟨hc, hpc, fun d hd => hle d (mem_cons_of_mem _ hd)⟩

theorem below_iff_of_pairwise {p : α → Bool} {l : List α} (hl : l.Pairwise (f · < f ·)) :
    Below p l ↔ ∀ x ∈ l, p x = false → ∀ c ∈ l, p c = true → f x < f c →
      (∀ d ∈ l, p d = true → f x < f d → f c ≤ f d) → x < c := by
  induction l with
  | nil => exact iff_of_true trivial fun x hx => absurd hx not_mem_nil
  | cons a l ih =>
    have ⟨ha, hl'⟩ := pairwise_cons.mp hl
    unfold Below
    rw [ih hl']
    constructor
    · rintro ⟨hhead, htail⟩ x hx hpx c hc hpc hlt hnext
      rcases mem_cons.mp hc with rfl | hcl
      · -- nothing is in front of the head
        rcases mem_cons.mp hx with rfl | hx
        · exact absurd hlt (lt_irrefl _)
        · exact absurd hlt (lt_asymm (ha x hx))
      rcases mem_cons.mp hx with rfl | hx
      · refine hhead hpx c ((find?_eq_some_iff hl').mpr ⟨hcl, hpc, fun d hd hpd => ?_⟩)
        exact hnext d (mem_cons_of_mem _ hd) hpd (ha d hd)
      · exact htail x hx hpx c hcl hpc hlt fun d hd => hnext d (mem_cons_of_mem _ hd)
    · intro h
      constructor
      · intro hpa c hc
        have ⟨hmem, hpc, hle⟩ := (find?_eq_some_iff hl').mp hc
        refine h a mem_cons_self hpa c (mem_cons_of_mem _ hmem) hpc (ha c hmem) ?_
        intro d hd hpd hlt
        rcases mem_cons.mp hd with rfl | hd
        · exact absurd hlt (lt_irrefl _)
        · exact hle d hd hpd
      · intro x hx hpx c hc hpc hlt hnext
        refine h x (mem_cons_of_mem _ hx) hpx c (mem_cons_of_mem _ hc) hpc hlt ?_
        intro d hd hpd hltd
        rcases mem_cons.mp hd with rfl | hd
        · exact absurd hltd (lt_asymm (ha x hx))
        · exact hnext d hd hpd hltd

theorem below_iff_nextAbove (has : as.Pairwise (f · < f ·)) (hA : ∀ x, x ∈ as ↔ x ∈ A)
    (hB : ∀ x, x ∈ bs ↔ x ∈ B) : Below (fun x => x ∈ bs) as ↔ NextAbove f A B := by
  rw [below_iff_of_pairwise has]
  unfold NextAbove
  simp only [hA, decide_eq_false_iff_not, decide_eq_true_eq, hB, Set.mem_sdiff, Set.mem_inter_iff, and_imp]

/-- Lists with the same elements are the same iff their keys agree. -/
theorem eq_iff_of_pairwise {β : Type} {f g : β → κ} {l m : List β} (hl : l.Pairwise (f · < f ·))
    (hm : m.Pairwise (g · < g ·)) (hmem : ∀ x, x ∈ l ↔ x ∈ m) :
    l = m ↔ ∀ c ∈ l, ∀ d ∈ l, f c < f d ↔ g c < g d := by
  constructor
  · rintro rfl
    have hboth : l.Pairwise fun c d => f c < f d ↔ g c < g d :=
      List.Pairwise.imp₂ (fun _ _ hf hg => iff_of_true hf hg) hl hm
    have hflip : l.Pairwise (flip fun c d => f c < f d ↔ g c < g d) :=
      List.Pairwise.imp₂ (fun _ _ hf hg => iff_of_false (lt_asymm hf) (lt_asymm hg)) hl hm
    exact hboth.forall_of_forall_of_flip
      (fun _ _ => iff_of_false (lt_irrefl _) (lt_irrefl _)) hflip
  · intro hsame
    have hm' : m.Pairwise (f · < f ·) :=
      hm.imp_of_mem fun hc hd hg => (hsame _ ((hmem _).mpr hc) _ ((hmem _).mpr hd)).mpr hg
    have hperm : l.Perm m := (perm_ext_iff_of_nodup (hl.imp fun h heq => h.ne (congrArg f heq))
      (hm.imp fun h heq => h.ne (congrArg g heq))).mpr hmem
    exact hperm.eq_of_pairwise (fun _ _ _ _ h h' => absurd h' h.asymm) hl hm'

/-- **Everything is found in sorted lists** exactly when the sets agree. -/
theorem forall_mem_common_iff_agree (has : as.Pairwise (f · < f ·)) (hbs : bs.Pairwise (g · < g ·))
    (hA : ∀ x, x ∈ as ↔ x ∈ A) (hB : ∀ x, x ∈ bs ↔ x ∈ B) :
    (∀ c ∈ as, c ∈ bs → c ∈ common as bs) ↔ Agree f g A B := by
  have hsame : (as.filter fun x => x ∈ bs) = (bs.filter fun x => x ∈ as) ↔
      ∀ c ∈ A ∩ B, ∀ d ∈ A ∩ B, f c < f d ↔ g c < g d := by
    rw [eq_iff_of_pairwise (has.filter _) (hbs.filter _) (by simp [and_comm])]
    simp only [mem_filter, decide_eq_true_eq, hA, hB, Set.mem_inter_iff]
  rw [forall_mem_common_iff (has.imp fun h heq => h.ne (congrArg f heq))
    (hbs.imp fun h heq => h.ne (congrArg g heq))]
  constructor
  · exact fun h => ⟨hsame.mp h.same, (below_iff_nextAbove has hA hB).mp h.left,
      (below_iff_nextAbove hbs hB hA).mp h.right⟩
  · exact fun h => ⟨hsame.mpr h.same, (below_iff_nextAbove has hA hB).mpr h.left,
      (below_iff_nextAbove hbs hB hA).mpr h.right⟩

end Keys

end MergeWalk
