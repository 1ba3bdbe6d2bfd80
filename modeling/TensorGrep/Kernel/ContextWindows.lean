import Mathlib

/-!
# Windows around the hits of a list

`windows` keeps the elements of a list that are near a hit: at most `before` places in
front of it or at most `after` places behind it.  `throughHit` ends a list with a certain
hit.
-/

namespace TensorGrep
namespace Kernel

section ContextWindows

variable {α : Type} (hit : α → Bool) (before after : ℕ)

/-- The elements near a hit, where the first `remaining` ones are behind a hit. -/
@[grind] def windows (remaining : ℕ) : List α → List α
  | [] => []
  | x :: xs =>
      if hit x || 0 < remaining || (xs.take before).any hit then
        x :: windows (if hit x then after else remaining - 1) xs
      else windows (if hit x then after else remaining - 1) xs

/-- The queue with an element more, without the first ones if there are too many. -/
def pushBounded
    (maxlen : ℕ)
    (queue : List α)
    (x : α) : List α :=
  (queue ++ [x]).drop (queue.length + 1 - maxlen)

/-- The list up to its `k`-th hit. -/
@[grind] def throughHit (k : ℕ) : List α → List α
  | [] => []
  | x :: xs =>
      if hit x then x :: (if k ≤ 1 then [] else throughHit (k - 1) xs)
      else x :: throughHit k xs

variable {hit before after}

/-! ## The elements near a hit -/

theorem windows_sublist
    (remaining : ℕ)
    (xs : List α) :
    (windows hit before after remaining xs).Sublist xs := by
  induction xs generalizing remaining with
  | nil => exact List.Sublist.refl _
  | cons x xs ih =>
      rw [windows]
      split
      · exact (ih _).cons_cons x
      · exact (ih _).cons x

/-- A hit among the next elements. -/
theorem any_take_iff
    {xs : List α} :
    (xs.take before).any hit = true ↔
      ∃ j y, xs[j]? = some y ∧ hit y = true ∧ j < before := by
  rw [List.any_eq_true]
  constructor
  · rintro ⟨y, hy, hhit⟩
    obtain ⟨j, hj⟩ := List.mem_iff_getElem?.mp hy
    have hlt : j < before := by
      by_contra hle
      rw [List.getElem?_take_eq_none (by omega)] at hj
      cases hj
    rw [List.getElem?_take_of_lt hlt] at hj
    exact ⟨j, y, hj, hhit, hlt⟩
  · rintro ⟨j, y, hy, hhit, hlt⟩
    refine ⟨y, List.mem_iff_getElem?.mpr ⟨j, ?_⟩, hhit⟩
    rwa [List.getElem?_take_of_lt hlt]

/-- Near a hit, by places. -/
theorem mem_windows_iff
    {remaining : ℕ}
    (hremaining : remaining ≤ after)
    {xs : List α}
    {x : α} :
    x ∈ windows hit before after remaining xs ↔
      ∃ i, xs[i]? = some x ∧ (i < remaining ∨
        ∃ j y, xs[j]? = some y ∧ hit y = true ∧ j ≤ i + before ∧ i ≤ j + after) := by
  induction xs generalizing remaining with
  | nil => simp [windows]
  | cons z xs ih =>
      have hnext : (if hit z then after else remaining - 1) ≤ after := by
        split <;> omega
      -- the first element
      have hfirst : (hit z || 0 < remaining || (xs.take before).any hit) = true ↔
          0 < remaining ∨ ∃ j y, (z :: xs)[j]? = some y ∧ hit y = true ∧ j ≤ 0 + before ∧
            0 ≤ j + after := by
        rw [Bool.or_eq_true, Bool.or_eq_true, any_take_iff, decide_eq_true_iff]
        constructor
        · rintro ((hz | hpos) | ⟨j, y, hy, hhit, hlt⟩)
          · exact Or.inr ⟨0, z, rfl, hz, by omega, by omega⟩
          · exact Or.inl hpos
          · exact Or.inr ⟨j + 1, y, hy, hhit, by omega, by omega⟩
        · rintro (hpos | ⟨j, y, hy, hhit, hle, -⟩)
          · exact Or.inl (Or.inr hpos)
          · cases j with
            | zero =>
                obtain rfl := Option.some.inj hy
                exact Or.inl (Or.inl hhit)
            | succ j => exact Or.inr ⟨j, y, hy, hhit, by omega⟩
      -- the elements after it
      have hrest : x ∈ windows hit before after (if hit z then after else remaining - 1) xs ↔
          ∃ i, xs[i]? = some x ∧ (i + 1 < remaining ∨ ∃ j y, (z :: xs)[j]? = some y ∧
            hit y = true ∧ j ≤ i + 1 + before ∧ i + 1 ≤ j + after) := by
        rw [ih hnext]
        refine exists_congr fun i => and_congr_right fun _ => ?_
        constructor
        · rintro (hlt | ⟨j, y, hy, hhit, hle, hge⟩)
          · split at hlt
            · next hz => exact Or.inr ⟨0, z, rfl, hz, by omega, by omega⟩
            · exact Or.inl (by omega)
          · exact Or.inr ⟨j + 1, y, hy, hhit, by omega, by omega⟩
        · rintro (hlt | ⟨j, y, hy, hhit, hle, hge⟩)
          · refine Or.inl ?_
            split <;> omega
          · cases j with
            | zero =>
                obtain rfl := Option.some.inj hy
                rw [if_pos hhit]
                exact Or.inl (by omega)
            | succ j => exact Or.inr ⟨j, y, hy, hhit, by omega, by omega⟩
      have hsplit : (∃ i, (z :: xs)[i]? = some x ∧ (i < remaining ∨
          ∃ j y, (z :: xs)[j]? = some y ∧ hit y = true ∧ j ≤ i + before ∧ i ≤ j + after)) ↔
          (x = z ∧ (hit z || 0 < remaining || (xs.take before).any hit) = true) ∨
            x ∈ windows hit before after (if hit z then after else remaining - 1) xs := by
        rw [hrest, hfirst]
        constructor
        · rintro ⟨i, hi, hnear⟩
          cases i with
          | zero => exact Or.inl ⟨(Option.some.inj hi).symm, hnear⟩
          | succ i => exact Or.inr ⟨i, hi, hnear⟩
        · rintro (⟨rfl, hnear⟩ | ⟨i, hi, hnear⟩)
          · exact ⟨0, rfl, hnear⟩
          · exact ⟨i + 1, hi, hnear⟩
      rw [hsplit, windows]
      split
      · next hkept => rw [List.mem_cons, and_iff_left hkept]
      · next hdropped =>
          rw [or_iff_right fun h => hdropped h.2]

/-! ## A queue in front of the list -/

/-- An element that is no hit and has none among the next ones. -/
theorem windows_cons_far
    {x : α}
    {xs : List α}
    (hx : hit x = false)
    (hfar : ∀ y ∈ xs.take before, hit y = false) :
    windows hit before after 0 (x :: xs) = windows hit before after 0 xs := by
  have hnone : (xs.take before).any hit = false :=
    List.any_eq_false.mpr fun y hy => by simp [hfar y hy]
  rw [windows, hx, hnone]
  rfl

theorem windows_of_no_hits
    {xs : List α}
    (h : ∀ x ∈ xs, hit x = false) :
    windows hit before after 0 xs = [] := by
  induction xs with
  | nil => rfl
  | cons x xs ih =>
      rw [List.forall_mem_cons] at h
      rw [windows_cons_far h.1 fun y hy => h.2 y (List.mem_of_mem_take hy), ih h.2]

/-- All elements of a short queue are near a hit that follows. -/
theorem windows_append_hit
    {queue : List α}
    (hqueue : ∀ x ∈ queue, hit x = false)
    (hlength : queue.length ≤ before)
    {x : α}
    (hx : hit x = true)
    (xs : List α) :
    windows hit before after 0 (queue ++ x :: xs) =
      queue ++ x :: windows hit before after after xs := by
  induction queue with
  | nil => rw [List.nil_append, windows, hx]; rfl
  | cons z queue ih =>
      rw [List.forall_mem_cons] at hqueue
      rw [List.length_cons] at hlength
      have hnear : ((queue ++ x :: xs).take before).any hit = true :=
        any_take_iff.mpr ⟨queue.length, x, by simp, hx, hlength⟩
      rw [List.cons_append, windows, hqueue.1, hnear]
      exact congrArg (z :: ·) (ih hqueue.2 (by omega))

/-- An element after a full queue pushes the first one out, which no hit that follows is near. -/
theorem windows_pushBounded
    {queue : List α}
    (hqueue : ∀ x ∈ queue, hit x = false)
    (hlength : queue.length ≤ before)
    {x : α}
    (hx : hit x = false)
    (xs : List α) :
    windows hit before after 0 (queue ++ x :: xs) =
      windows hit before after 0 (pushBounded before queue x ++ xs) := by
  by_cases hfull : queue.length < before
  · rw [pushBounded, Nat.sub_eq_zero_of_le (by omega), List.drop_zero, List.append_assoc]
    rfl
  · have hdrop : queue.length + 1 - before = 1 := by omega
    rw [pushBounded, hdrop]
    cases queue with
    | nil =>
        obtain rfl : before = 0 := by simpa using hfull
        exact windows_cons_far hx fun y hy => by simp at hy
    | cons z queue =>
        rw [List.forall_mem_cons] at hqueue
        have hpushed : ∀ y ∈ queue ++ [x], hit y = false := by
          intro y hy
          rcases List.mem_append.mp hy with hy | hy
          · exact hqueue.2 y hy
          · rwa [List.mem_singleton.mp hy]
        have hsame : queue ++ x :: xs = queue ++ [x] ++ xs := by simp
        rw [List.cons_append, List.cons_append, List.drop_succ_cons, List.drop_zero, hsame]
        refine windows_cons_far hqueue.1 fun y hy => hpushed y ?_
        rw [List.take_append_of_le_length] at hy
        · exact List.mem_of_mem_take hy
        · rw [List.length_cons] at hfull hlength
          rw [List.length_append, List.length_singleton]
          omega

/-! ## Ending with a hit -/

theorem throughHit_isPrefixOf
    (k : ℕ)
    (xs : List α) :
    throughHit hit k xs <+: xs := by
  induction xs generalizing k with
  | nil => exact List.prefix_refl _
  | cons x xs ih =>
      rw [throughHit]
      split
      · refine (List.prefix_cons_inj x).mpr ?_
        split
        · exact List.nil_prefix
        · exact ih _
      · exact (List.prefix_cons_inj x).mpr (ih k)

/-- The hits of the list up to its `k`-th hit. -/
theorem filter_throughHit
    {k : ℕ}
    (hk : 0 < k)
    (xs : List α) :
    (throughHit hit k xs).filter hit = (xs.filter hit).take k := by
  induction xs generalizing k with
  | nil => simp [throughHit]
  | cons x xs ih =>
      obtain ⟨k, rfl⟩ := Nat.exists_eq_succ_of_ne_zero hk.ne'
      rw [throughHit]
      split
      · next hx =>
          rw [List.filter_cons_of_pos hx, List.filter_cons_of_pos hx, List.take_succ_cons]
          split
          · next hle =>
              obtain rfl : k = 0 := by omega
              rw [List.take_zero, List.filter_nil]
          · next hlt =>
              rw [ih (by omega)]
              rfl
      · next hx => rw [List.filter_cons_of_neg hx, List.filter_cons_of_neg hx, ih hk]

/-- With fewer hits nothing is left out. -/
theorem throughHit_of_length_lt
    {k : ℕ}
    {xs : List α}
    (h : (xs.filter hit).length < k) :
    throughHit hit k xs = xs := by
  induction xs generalizing k with
  | nil => rfl
  | cons x xs ih =>
      rw [throughHit]
      split
      · next hx =>
          rw [List.filter_cons_of_pos hx, List.length_cons] at h
          rw [if_neg (by omega), ih (by omega)]
      · next hx =>
          rw [List.filter_cons_of_neg hx] at h
          rw [ih h]

/-- Otherwise the list ends with a hit. -/
theorem getLast?_throughHit
    {k : ℕ}
    (hk : 0 < k)
    {xs : List α}
    (h : k ≤ (xs.filter hit).length) :
    ∃ y, (throughHit hit k xs).getLast? = some y ∧ hit y = true := by
  induction xs generalizing k with
  | nil =>
      rw [List.filter_nil, List.length_nil] at h
      omega
  | cons x xs ih =>
      have hcons : ∀ {ys : List α} {y : α}, ys.getLast? = some y →
          (x :: ys).getLast? = some y := by
        intro ys y hy
        rw [List.getLast?_cons, hy]
        rfl
      rw [throughHit]
      split
      · next hx =>
          rw [List.filter_cons_of_pos hx, List.length_cons] at h
          split
          · exact ⟨x, rfl, hx⟩
          · obtain ⟨y, hy, hhit⟩ := ih (k := k - 1) (by omega) (by omega)
            exact ⟨y, hcons hy, hhit⟩
      · next hx =>
          rw [List.filter_cons_of_neg hx] at h
          obtain ⟨y, hy, hhit⟩ := ih hk h
          exact ⟨y, hcons hy, hhit⟩

end ContextWindows

end Kernel
end TensorGrep
