import JobOperator.Text.Split
import Mathlib.Data.List.TakeDrop
import Mathlib.Data.List.TakeWhile

/-!
Texts that are taken apart are put together again from their parts.
-/

namespace JobOperator.Text

theorem afterLeading?_append (leading text : List Char) :
    afterLeading? leading (leading ++ text) = some text := by
  induction leading with
  | nil => rfl
  | cons c leading ih =>
    rw [List.cons_append, afterLeading?, if_pos rfl]
    exact ih

theorem afterLeading?_eq_some_iff {leading text rest : List Char} :
    afterLeading? leading text = some rest ↔ text = leading ++ rest := by
  constructor
  · intro h
    induction leading generalizing text with
    | nil => exact Option.some.inj h
    | cons p leading ih =>
      cases text with
      | nil => cases h
      | cons c text =>
        rw [afterLeading?] at h
        split at h
        · next heq => rw [heq, ih h, List.cons_append]
        · cases h
  · rintro rfl
    exact afterLeading?_append leading rest

/-- A text is split where the mark stands last. -/
theorem splitLast?_append {mark : Char} {after : List Char} (h : mark ∉ after)
    (before : List Char) : splitLast? mark (before ++ mark :: after) = some (before, after) := by
  have hspan : (after.reverse ++ mark :: before.reverse).span (· ≠ mark) =
      (after.reverse, mark :: before.reverse) := by
    rw [List.span_eq_takeWhile_dropWhile]
    have hafter : ∀ c ∈ after.reverse, decide (c ≠ mark) = true := by
      intro c hc
      rw [decide_eq_true_eq]
      rintro rfl
      exact h (List.mem_reverse.1 hc)
    rw [List.takeWhile_append_of_pos hafter, List.dropWhile_append_of_pos hafter]
    simp
  simp only [splitLast?, List.reverse_append, List.reverse_cons, List.append_assoc,
    List.singleton_append, hspan, List.reverse_reverse]

theorem splitLast?_of_notMem {mark : Char} {text : List Char} (h : mark ∉ text) :
    splitLast? mark text = none := by
  have hrest : text.reverse.dropWhile (fun c => decide (c ≠ mark)) = [] := by
    rw [List.dropWhile_eq_nil_iff]
    intro c hc
    rw [decide_eq_true_eq]
    rintro rfl
    exact h (List.mem_reverse.1 hc)
  rw [splitLast?, List.span_eq_takeWhile_dropWhile, hrest]

theorem splitLast?_eq_some_iff {mark : Char} {text before after : List Char} :
    splitLast? mark text = some (before, after) ↔ text = before ++ mark :: after ∧ mark ∉ after := by
  constructor
  · intro h
    by_cases hmem : mark ∈ text.reverse
    · obtain ⟨last, first, hreverse, hlast⟩ := List.eq_append_cons_of_mem hmem
      have htext : text = first.reverse ++ mark :: last.reverse := by
        rw [← List.reverse_reverse text, hreverse]
        simp
      have hnotMem : mark ∉ last.reverse := mt List.mem_reverse.1 hlast
      rw [htext, splitLast?_append hnotMem, Option.some.injEq, Prod.mk.injEq] at h
      obtain ⟨rfl, rfl⟩ := h
      exact ⟨htext, hnotMem⟩
    · rw [splitLast?_of_notMem (mt List.mem_reverse.2 hmem)] at h
      cases h
  · rintro ⟨rfl, h⟩
    exact splitLast?_append h before

end JobOperator.Text
