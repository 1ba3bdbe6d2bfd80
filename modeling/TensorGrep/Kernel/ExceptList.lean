import Mathlib.Data.List.Forall2

/-!
# Fallible maps over lists

`List.mapM` in `Except` or `Option` succeeds exactly when every element
succeeds, and then its result is the list of the individual results.
-/

namespace TensorGrep
namespace Kernel

universe u v w

variable {ε : Type u} {α : Type v} {β : Type w}

/-- A sequence of two steps succeeds exactly when both do. -/
theorem bind_eq_ok_iff
    {γ : Type w}
    {x : Except ε β}
    {f : β → Except ε γ}
    {c : γ} :
    (x >>= f) = Except.ok c ↔ ∃ b, x = Except.ok b ∧ f b = Except.ok c := by
  cases x with
  | error e =>
      constructor
      · intro h
        cases h
      · rintro ⟨b, h, -⟩
        cases h
  | ok b =>
      constructor
      · intro h
        exact ⟨b, rfl, h⟩
      · rintro ⟨b', h, hf⟩
        cases h
        exact hf

/-- Mapping the result of a step. -/
theorem map_eq_ok_iff
    {γ : Type*}
    {f : β → γ}
    {x : Except ε β}
    {c : γ} :
    x.map f = Except.ok c ↔ ∃ b, x = Except.ok b ∧ f b = c := by
  cases x with
  | error e => simp [Except.map]
  | ok b => simp [Except.map]

/-- Another error is no success. -/
theorem mapError_eq_ok_iff
    {ε' : Type*}
    {f : ε → ε'}
    {x : Except ε β}
    {b : β} :
    x.mapError f = Except.ok b ↔ x = Except.ok b := by
  cases x with
  | error e => simp [Except.mapError]
  | ok b => simp [Except.mapError]

/-- A fallible map succeeds exactly when it succeeds element by element. -/
theorem mapM_eq_ok_iff
    {f : α → Except ε β}
    {l : List α}
    {r : List β} :
    l.mapM f = Except.ok r ↔ List.Forall₂ (fun a b => f a = Except.ok b) l r := by
  induction l generalizing r with
  | nil =>
      rw [List.mapM_nil, List.forall₂_nil_left_iff]
      constructor
      · intro h
        cases h
        rfl
      · rintro rfl
        rfl
  | cons a l ih =>
      rw [List.mapM_cons, bind_eq_ok_iff, List.forall₂_cons_left_iff]
      constructor
      · rintro ⟨b, hb, hrest⟩
        obtain ⟨bs, hbs, hret⟩ := bind_eq_ok_iff.mp hrest
        cases hret
        exact ⟨b, bs, hb, ih.mp hbs, rfl⟩
      · rintro ⟨b, bs, hb, hbs, rfl⟩
        exact ⟨b, hb, bind_eq_ok_iff.mpr ⟨bs, ih.mpr hbs, rfl⟩⟩

/-- Every element on the right of a pointwise relation has a partner on the left. -/
theorem exists_left_of_forall₂
    {R : α → β → Prop}
    {l : List α}
    {r : List β}
    (h : List.Forall₂ R l r)
    {b : β}
    (hb : b ∈ r) :
    ∃ a ∈ l, R a b := by
  induction h with
  | nil => cases hb
  | @cons a b' l' r' hab _ ih =>
      rcases List.mem_cons.mp hb with rfl | hb
      · exact ⟨a, by simp, hab⟩
      · obtain ⟨x, hx, hfx⟩ := ih hb
        exact ⟨x, List.mem_cons_of_mem _ hx, hfx⟩

/-- Every element on the left of a pointwise relation has a partner on the right. -/
theorem exists_right_of_forall₂
    {R : α → β → Prop}
    {l : List α}
    {r : List β}
    (h : List.Forall₂ R l r)
    {a : α}
    (ha : a ∈ l) :
    ∃ b ∈ r, R a b :=
  exists_left_of_forall₂ h.flip ha

/-- Every result of a fallible map comes from an element. -/
theorem exists_mem_of_mapM
    {f : α → Except ε β}
    {l : List α}
    {r : List β}
    (h : l.mapM f = Except.ok r)
    {b : β}
    (hb : b ∈ r) :
    ∃ a ∈ l, f a = Except.ok b :=
  exists_left_of_forall₂ (mapM_eq_ok_iff.mp h) hb

/-- Every element of a fallible map has its result. -/
theorem exists_result_of_mapM
    {f : α → Except ε β}
    {l : List α}
    {r : List β}
    (h : l.mapM f = Except.ok r)
    {a : α}
    (ha : a ∈ l) :
    ∃ b ∈ r, f a = Except.ok b :=
  exists_right_of_forall₂ (mapM_eq_ok_iff.mp h) ha

/-- What the results say, read off the elements. -/
theorem map_eq_of_mapM
    {γ : Type*}
    {f : α → Except ε β}
    {l : List α}
    {r : List β}
    {g : β → γ}
    {k : α → γ}
    (h : l.mapM f = Except.ok r)
    (hk : ∀ a ∈ l, ∀ b, f a = Except.ok b → g b = k a) :
    r.map g = l.map k := by
  rw [mapM_eq_ok_iff] at h
  induction h with
  | nil => rfl
  | @cons a b l' r' hab _ ih =>
      rw [List.map_cons, List.map_cons, hk a List.mem_cons_self b hab,
        ih fun c hc => hk c (List.mem_cons_of_mem _ hc)]

/-- Results that are known from their elements. -/
theorem eq_map_of_mapM
    {f : α → Except ε β}
    {l : List α}
    {r : List β}
    {k : α → β}
    (h : l.mapM f = Except.ok r)
    (hk : ∀ a ∈ l, ∀ b ∈ r, f a = Except.ok b → b = k a) :
    r = l.map k := by
  rw [mapM_eq_ok_iff] at h
  induction h with
  | nil => rfl
  | @cons a b l' r' hab _ ih =>
      rw [List.map_cons, ← hk a List.mem_cons_self b List.mem_cons_self hab,
        ← ih fun c hc d hd => hk c (List.mem_cons_of_mem _ hc) d (List.mem_cons_of_mem _ hd)]

/-- A fallible map succeeds when every element does. -/
theorem exists_mapM
    {f : α → Except ε β}
    {l : List α}
    (h : ∀ a ∈ l, ∃ b, f a = Except.ok b) :
    ∃ r, l.mapM f = Except.ok r := by
  induction l with
  | nil => exact ⟨[], rfl⟩
  | cons a l ih =>
      obtain ⟨b, hb⟩ := h a (by simp)
      obtain ⟨r, hr⟩ := ih (fun c hc => h c (List.mem_cons_of_mem _ hc))
      exact ⟨b :: r, mapM_eq_ok_iff.mpr
        (List.Forall₂.cons hb (mapM_eq_ok_iff.mp hr))⟩

/-- A fallible map has a result with a property if and only if every element has a result, and one
of them has the property. -/
theorem exists_mapM_mem_iff
    {f : α → Except ε β}
    {l : List α}
    {P : β → Prop} :
    (∃ r, l.mapM f = Except.ok r ∧ ∃ b ∈ r, P b) ↔
      (∀ a ∈ l, ∃ b, f a = Except.ok b) ∧ ∃ a ∈ l, ∃ b, f a = Except.ok b ∧ P b := by
  constructor
  · rintro ⟨r, hr, b, hb, hP⟩
    obtain ⟨a, ha, hab⟩ := exists_mem_of_mapM hr hb
    refine ⟨fun a ha => ?_, a, ha, b, hab, hP⟩
    obtain ⟨b, -, hab⟩ := exists_result_of_mapM hr ha
    exact ⟨b, hab⟩
  · rintro ⟨hall, a, ha, b, hab, hP⟩
    obtain ⟨r, hr⟩ := exists_mapM hall
    obtain ⟨b', hb', hab'⟩ := exists_result_of_mapM hr ha
    obtain rfl : b = b' := Except.ok.inj (hab.symm.trans hab')
    exact ⟨r, hr, b, hb', hP⟩

/-- A fallible map that fails has an element that fails. -/
theorem exists_error_of_mapM
    {f : α → Except ε β}
    {l : List α}
    {e : ε}
    (h : l.mapM f = Except.error e) :
    ∃ a ∈ l, ∃ e', f a = Except.error e' := by
  by_contra hnone
  have hall : ∀ a ∈ l, ∃ b, f a = Except.ok b := by
    intro a ha
    cases hfa : f a with
    | ok b => exact ⟨b, rfl⟩
    | error e' => exact absurd ⟨a, ha, e', hfa⟩ hnone
  obtain ⟨r, hr⟩ := exists_mapM hall
  rw [h] at hr
  cases hr

/-- An optional map succeeds exactly when it succeeds element by element. -/
theorem mapM_eq_some_iff
    {f : α → Option β}
    {l : List α}
    {r : List β} :
    l.mapM f = some r ↔ List.Forall₂ (fun a b => f a = some b) l r := by
  induction l generalizing r with
  | nil => simp [eq_comm]
  | cons a l ih =>
      rw [List.mapM_cons, List.forall₂_cons_left_iff]
      constructor
      · intro h
        obtain ⟨b, hb, h⟩ := Option.bind_eq_some_iff.mp h
        obtain ⟨bs, hbs, h⟩ := Option.bind_eq_some_iff.mp h
        cases h
        exact ⟨b, bs, hb, ih.mp hbs, rfl⟩
      · rintro ⟨b, bs, hb, hbs, rfl⟩
        refine Option.bind_eq_some_iff.mpr ⟨b, hb, ?_⟩
        exact Option.bind_eq_some_iff.mpr ⟨bs, ih.mpr hbs, rfl⟩

/-- A fallible loop without results succeeds exactly when every round does. -/
theorem forM_eq_ok_iff
    {f : α → Except ε PUnit}
    {l : List α} :
    l.forM f = Except.ok ⟨⟩ ↔ ∀ a ∈ l, f a = Except.ok ⟨⟩ := by
  induction l with
  | nil =>
      constructor
      · intro _ a ha
        cases ha
      · intro _
        rfl
  | cons a l ih =>
      have hcons : (a :: l).forM f = (f a >>= fun _ => l.forM f) := rfl
      rw [hcons, bind_eq_ok_iff]
      constructor
      · rintro ⟨b, hb, hrest⟩ c hc
        rcases List.mem_cons.mp hc with rfl | hc
        · exact hb
        · exact ih.mp hrest c hc
      · intro h
        exact ⟨⟨⟩, h a (by simp), ih.mpr (fun c hc => h c (List.mem_cons_of_mem _ hc))⟩

/-- A fold whose steps all succeed is a plain fold. -/
theorem foldlM_eq_ok_foldl
    {f : β → α → Except ε β}
    {g : β → α → β}
    {l : List α}
    (h : ∀ b, ∀ a ∈ l, f b a = .ok (g b a))
    (b : β) :
    l.foldlM f b = .ok (l.foldl g b) := by
  induction l generalizing b with
  | nil => rfl
  | cons a l ih =>
      rw [List.foldlM_cons, h b a List.mem_cons_self]
      exact ih (fun b c hc => h b c (List.mem_cons_of_mem _ hc)) (g b a)

end Kernel
end TensorGrep
