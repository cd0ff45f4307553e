import DeclLayer.Store.Document

/-!
# Stores that keep what is written

A store is lawful (`LawfulStore`) if a write that succeeds changes one file, and one that fails
changes nothing. The files in memory are such a store (`MemoryStore.get?_insert`), if paths with the
same components count as one.

A journal keeps the writes that were asked of a store. It is a store itself and otherwise behaves
like the one it is kept for, so a run on a journal tells what the run writes.
-/

namespace DeclLayer

namespace Path

/-- Two paths are the same if their components are. -/
theorem same_iff {p q : Path} : p.same q = true ↔ p.components = q.components := by
  rw [same, beq_iff_eq]

@[simp] theorem same_refl (p : Path) : p.same p = true := same_iff.2 rfl

/-- Whether two paths are the same does not depend on their order. -/
theorem same_comm (p q : Path) : p.same q = q.same p := by
  rw [Bool.eq_iff_iff, same_iff, same_iff, eq_comm]

/-- The same paths are the same as others. -/
theorem same_congr {p q : Path} (h : p.same q = true) (r : Path) : p.same r = q.same r := by
  rw [same, same_iff.1 h, same]

end Path

/-- A store in which a write puts the text under the given path and leaves the other files alone, or
fails and does nothing. -/
class LawfulStore (σ : Type) [Store σ] : Prop where
  /-- What is read after a write that succeeded. -/
  read_write {s s' : σ} {path : Path} {text : String}
    (h : Store.write s path text = (.ok (), s')) (other : Path) :
    Store.read s' other = if path.same other then .ok (some text) else Store.read s other
  /-- A write that failed has changed nothing. -/
  write_error {s s' : σ} {path : Path} {text reason : String}
    (h : Store.write s path text = (.error reason, s')) : s' = s

namespace MemoryStore

/-- Of the files in memory, a write changes those under the given path. -/
theorem get?_insert (s : MemoryStore) (path : Path) (text : String) (other : Path) :
    (s.insert path text).get? other = if path.same other then some text else s.get? other := by
  obtain ⟨files⟩ := s
  rw [insert, get?, get?]
  induction files with
  | nil => by_cases h : path.same other <;> simp [put, h]
  | cons file files ih =>
    obtain ⟨p, t⟩ := file
    rw [put]
    by_cases hp : p.same path = true
    · rw [if_pos hp, ← Path.same_congr hp other]
      by_cases hother : p.same other <;> simp [hother]
    · rw [if_neg hp]
      by_cases hother : p.same other = true
      · -- The entry is that of the other path, which therefore is not the written one.
        have hne : path.same other = false := by
          rw [Path.same_comm path other, ← Path.same_congr hother path]
          exact Bool.eq_false_iff.2 hp
        simp [hother, hne]
      · simpa [List.find?_cons, hother] using ih

instance : LawfulStore MemoryStore where
  read_write h other := by
    cases h
    refine (congrArg Except.ok (get?_insert _ _ _ other)).trans ?_
    split <;> rfl
  write_error h := nomatch h

end MemoryStore

/-- A store with a list of the writes that were asked of it. -/
structure Journal (σ : Type) where
  inner : σ
  /-- The paths and texts, in order. A write that failed is listed as well. -/
  writes : List (Path × String)

instance {σ : Type} [Store σ] : Store (Journal σ) where
  read j path := Store.read j.inner path
  write j path text :=
    let (result, inner) := Store.write j.inner path text
    (result, ⟨inner, j.writes ++ [(path, text)]⟩)

namespace Journal

variable {σ : Type} [Store σ]

/-- A journal passes a write on to its store and lists it. -/
theorem write_eq (j : Journal σ) (path : Path) (text : String) :
    Store.write j path text = ((Store.write j.inner path text).1,
      ⟨(Store.write j.inner path text).2, j.writes ++ [(path, text)]⟩) := rfl

/-- Saving a file saves it in the store, and lists it. -/
theorem save_eq (j : Journal σ) (path : Path) (text : String) :
    Store.save j path text = ((Store.save j.inner path text).1,
      ⟨(Store.save j.inner path text).2, j.writes ++ [(path, text)]⟩) := by
  rw [Store.save, Store.save, write_eq]
  rcases Store.write j.inner path text with ⟨⟨reason⟩ | ⟨⟩, after⟩ <;> rfl

end Journal

end DeclLayer
