import Mathlib.Data.List.Basic
import Mathlib.Data.List.Induction

/-!
# Lists without repetitions

Several lists of a layer hold the elements of another list, each once and in the order of their
first appearance: the names of an index, the kinds of a name, the names of the bridge and the
unknown names of a policy. `FirstAppearances` says this of two lists. `List.eraseDups` makes such a
list (`firstAppearances_eraseDups`), and appending to the first list appends to the second what is
new (`eraseDups_concat`).
-/

namespace DeclLayer

variable {α : Type} [BEq α] [LawfulBEq α]

/-- Without repetitions, what is left of a list stands in the order of its first appearance. -/
theorem pairwise_eraseDups_filter (xs : List α) (keep : α → Bool) :
    (xs.filter keep).eraseDups.Pairwise fun a b => xs.idxOf a < xs.idxOf b := by
  induction xs generalizing keep with
  | nil => exact .nil
  | cons x xs ih =>
    -- Behind the first element, the places of other elements are shifted by one.
    have hshift (keep : α → Bool) (hkeep : keep x = false) :
        (xs.filter keep).eraseDups.Pairwise
          fun a b => (x :: xs).idxOf a < (x :: xs).idxOf b := by
      have hne {a : α} (ha : a ∈ (xs.filter keep).eraseDups) : x ≠ a := by
        rintro rfl
        rw [List.mem_eraseDups, List.mem_filter, hkeep] at ha
        exact Bool.false_ne_true ha.2
      refine (ih keep).imp_of_mem fun ha hb h => ?_
      rw [List.idxOf_cons_ne _ (hne ha), List.idxOf_cons_ne _ (hne hb)]
      exact Nat.succ_lt_succ h
    cases hx : keep x with
    | false =>
      rw [List.filter_cons_of_neg (Bool.eq_false_iff.1 hx)]
      exact hshift keep hx
    | true =>
      rw [List.filter_cons_of_pos hx, List.eraseDups_cons, List.filter_filter,
        List.pairwise_cons]
      refine ⟨fun a ha => ?_, hshift _ (by simp)⟩
      have hne : x ≠ a := by
        rintro rfl
        simp [List.mem_eraseDups] at ha
      rw [List.idxOf_cons_self, List.idxOf_cons_ne _ hne]
      exact Nat.succ_pos _

/-- A list holds the elements of another one, each once and in the order of their first
appearance. -/
structure FirstAppearances (all once : List α) : Prop where
  nodup : once.Nodup
  mem (a : α) : a ∈ once ↔ a ∈ all
  order : once.Pairwise fun a b => all.idxOf a < all.idxOf b

/-- A list without its repetitions has everything at its first appearance. -/
theorem firstAppearances_eraseDups (all : List α) : FirstAppearances all all.eraseDups := by
  have horder := pairwise_eraseDups_filter all fun _ => true
  rw [List.filter_true] at horder
  have hnodup := horder.imp (S := (· ≠ ·)) fun h heq => Nat.lt_irrefl _ (heq ▸ h)
  exact ⟨hnodup, fun _ => List.mem_eraseDups, horder⟩

/-- One element more is appended if it is new. -/
theorem eraseDups_concat (xs : List α) (a : α) :
    (xs ++ [a]).eraseDups = if a ∈ xs then xs.eraseDups else xs.eraseDups ++ [a] := by
  by_cases h : a ∈ xs <;> simp [List.eraseDups_append, List.removeAll, List.eraseDups_cons, h]

end DeclLayer
