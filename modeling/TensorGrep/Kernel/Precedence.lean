import Mathlib.Data.List.Basic
import Mathlib.Data.List.Flatten
import Mathlib.Order.Basic

/-!
# What comes before what

The order of the members of a list.  In a list without repetitions a member is
among the first ones when something behind it is (`Precedes.mem_take`).
-/

namespace TensorGrep
namespace Kernel

universe u

variable {ι : Type u} {l l' : List ι} {c d : ι}

/-- One element comes before another one in a list. -/
def Precedes
    (l : List ι)
    (c d : ι) : Prop :=
  [c, d].Sublist l

instance [DecidableEq ι] (l : List ι) (c d : ι) : Decidable (Precedes l c d) :=
  inferInstanceAs (Decidable ([c, d].Sublist l))

theorem Precedes.mem_left
    (h : Precedes l c d) :
    c ∈ l :=
  h.subset List.mem_cons_self

theorem Precedes.mem_right
    (h : Precedes l c d) :
    d ∈ l :=
  h.subset (List.mem_cons_of_mem c (List.mem_singleton_self d))

theorem Precedes.of_sublist
    (h : Precedes l c d)
    (hsub : l.Sublist l') :
    Precedes l' c d :=
  List.Sublist.trans h hsub

/-- What is in the front comes before what is in the back. -/
theorem precedes_append
    (hc : c ∈ l)
    (hd : d ∈ l') :
    Precedes (l ++ l') c d :=
  (List.singleton_sublist.mpr hc).append (List.singleton_sublist.mpr hd)

/-- Two different members of a list come in one order or the other. -/
theorem precedes_or_precedes
    (hc : c ∈ l)
    (hd : d ∈ l)
    (hne : c ≠ d) :
    Precedes l c d ∨ Precedes l d c := by
  obtain ⟨before, after, rfl⟩ := List.append_of_mem hc
  rcases List.mem_append.mp hd with hd | hd
  · exact Or.inr (precedes_append hd List.mem_cons_self)
  · left
    have hd' : d ∈ after := (List.mem_cons.mp hd).resolve_left hne.symm
    exact ((List.singleton_sublist.mpr hd').cons_cons c).trans
      (List.sublist_append_right before _)

/-- The places of the two. -/
theorem Precedes.exists_getElem
    (h : Precedes l c d) :
    ∃ i j : ℕ, i < j ∧ l[i]? = some c ∧ l[j]? = some d := by
  induction l with
  | nil => cases h
  | cons first l ih =>
      rcases List.cons_sublist_cons'.mp h with hlater | ⟨rfl, hlater⟩
      · obtain ⟨i, j, hij, hi, hj⟩ := ih hlater
        exact ⟨i + 1, j + 1, Nat.succ_lt_succ hij, hi, hj⟩
      · obtain ⟨j, hj⟩ := List.mem_iff_getElem?.mp (List.singleton_sublist.mp hlater)
        exact ⟨0, j + 1, Nat.succ_pos j, rfl, hj⟩

/-- In a list that is sorted strictly the keys say what comes before what. -/
theorem precedes_iff_of_pairwise
    {κ : Type*}
    [Preorder κ]
    {key : ι → κ}
    (h : l.Pairwise (fun a b => key a < key b)) :
    Precedes l c d ↔ c ∈ l ∧ d ∈ l ∧ key c < key d := by
  constructor
  · intro hcd
    exact ⟨hcd.mem_left, hcd.mem_right, h.forall_sublist hcd⟩
  · rintro ⟨hc, hd, hlt⟩
    have hne : c ≠ d := by
      rintro rfl
      exact lt_irrefl _ hlt
    rcases precedes_or_precedes hc hd hne with hcd | hdc
    · exact hcd
    · exact absurd (h.forall_sublist hdc) hlt.not_gt

/-- Among the first members is everything that comes before one of them. -/
theorem Precedes.mem_take
    (h : Precedes l c d)
    (hnodup : l.Nodup)
    {n : ℕ}
    (hd : d ∈ l.take n) :
    c ∈ l.take n := by
  rw [← List.take_append_drop n l] at h hnodup
  obtain ⟨front, back, hsplit, hfront, hback⟩ := List.sublist_append_iff.mp h
  obtain ⟨-, -, hdisjoint⟩ := List.nodup_append.mp hnodup
  cases front with
  | nil =>
      rw [List.nil_append] at hsplit
      have hd' : d ∈ l.drop n := hback.subset (by rw [← hsplit]; simp)
      exact absurd rfl (hdisjoint d hd d hd')
  | cons first front =>
      obtain ⟨rfl, -⟩ := List.cons.inj hsplit
      exact hfront.subset List.mem_cons_self

/-- The order of pieces carries over to their members. -/
theorem Precedes.flatMap
    {α : Type*}
    {pieces : List α}
    {a b : α}
    (h : Precedes pieces a b)
    {f : α → List ι}
    (hc : c ∈ f a)
    (hd : d ∈ f b) :
    Precedes (pieces.flatMap f) c d := by
  have hpair : Precedes ([a, b].flatMap f) c d := by
    rw [List.flatMap_cons, List.flatMap_cons, List.flatMap_nil, List.append_nil]
    exact precedes_append hc hd
  exact hpair.of_sublist (List.Sublist.flatMap h f)

/-- If only members behind it can be without a property, the members with it are the first
ones. -/
theorem getElem_iff_lt_length_filter
    {p : ι → Bool}
    (hclosed : ∀ c d, Precedes l c d → p d = true → p c = true)
    {i : ℕ}
    (hi : l[i]? = some c) :
    p c = true ↔ i < (l.filter p).length := by
  induction l generalizing i with
  | nil => cases hi
  | cons first l ih =>
      have hclosed' : ∀ c d, Precedes l c d → p d = true → p c = true :=
        fun c d h => hclosed c d (h.of_sublist (List.sublist_cons_self first l))
      by_cases hfirst : p first = true
      · rw [List.filter_cons_of_pos hfirst, List.length_cons]
        cases i with
        | zero =>
            rw [List.getElem?_cons_zero, Option.some_inj] at hi
            subst hi
            exact iff_of_true hfirst (Nat.succ_pos _)
        | succ i =>
            rw [List.getElem?_cons_succ] at hi
            rw [ih hclosed' hi, Nat.succ_lt_succ_iff]
      · have hnone : ∀ d ∈ first :: l, ¬ p d = true := by
          intro d hd hpd
          rcases List.mem_cons.mp hd with rfl | hd
          · exact hfirst hpd
          · exact hfirst (hclosed first d
              ((List.singleton_sublist.mpr hd).cons_cons first) hpd)
        rw [List.filter_eq_nil_iff.mpr hnone]
        exact iff_of_false (hnone c (List.mem_of_getElem? hi)) (Nat.not_lt_zero i)

end Kernel
end TensorGrep
