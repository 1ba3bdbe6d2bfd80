import Mathlib.Tactic

/-!
# Relative paths

A path from one directory to another place goes up to the last directory that both
have in common and down from there.  Following it from the directory leads to the
place.
-/

namespace TensorGrep
namespace Kernel

universe u

section RelativePaths

variable {α : Type u} [DecidableEq α] (up : α)

/-- The way from `start` to `target`. -/
def relativeTo : List α → List α → List α
  | t :: target, s :: start =>
      if t = s then relativeTo target start
      else List.replicate (start.length + 1) up ++ t :: target
  | target, start => List.replicate start.length up ++ target

/-- Where a relative path leads. -/
def follow
    (dir link : List α) : List α :=
  link.foldl (fun dir name => if name = up then dir.dropLast else dir ++ [name]) dir

variable {up}

theorem follow_append
    (dir link link' : List α) :
    follow up dir (link ++ link') = follow up (follow up dir link) link' :=
  List.foldl_append

theorem follow_of_not_mem
    {link : List α}
    (h : up ∉ link)
    (dir : List α) :
    follow up dir link = dir ++ link := by
  induction link generalizing dir with
  | nil => exact (List.append_nil dir).symm
  | cons name link ih =>
      rw [List.mem_cons, not_or] at h
      rw [follow, List.foldl_cons, if_neg (Ne.symm h.1)]
      exact (ih h.2 _).trans (by simp)

theorem follow_replicate
    (dir below : List α) :
    follow up (dir ++ below) (List.replicate below.length up) = dir := by
  induction below using List.reverseRecOn with
  | nil => exact List.append_nil dir
  | append_singleton below name ih =>
      rw [List.length_append, List.length_singleton, List.replicate_succ, follow, List.foldl_cons,
        if_pos rfl, ← List.append_assoc, List.dropLast_concat]
      exact ih

/-- Following the way to a place leads there. -/
theorem follow_relativeTo
    {target : List α}
    (h : up ∉ target)
    (start : List α) :
    follow up start (relativeTo up target start) = target := by
  have hbelow : ∀ (target start dir : List α), up ∉ target →
      follow up (dir ++ start) (relativeTo up target start) = dir ++ target := by
    intro target start
    induction target generalizing start with
    | nil =>
        intro dir h
        rw [relativeTo, follow_append, follow_replicate, follow_of_not_mem h]
        simp
    | cons t target ih =>
        intro dir h
        cases start with
        | nil =>
            rw [relativeTo, follow_append, follow_replicate, follow_of_not_mem h]
            simp
        | cons s start =>
            rw [relativeTo]
            split
            case isTrue heq =>
                subst heq
                have htarget := ih start (dir ++ [t]) fun hmem => h (List.mem_cons_of_mem _ hmem)
                simpa using htarget
            case isFalse =>
                rw [follow_append, ← List.length_cons, follow_replicate, follow_of_not_mem h]
  simpa using hbelow target start [] h

end RelativePaths

end Kernel
end TensorGrep
