import DeclLayer.Proofs.Tree.Frame
import DeclLayer.Proofs.Tree.Revision
import Mathlib.Data.List.Basic

/-!
# The two walks over a statement

One walk lists the nodes of a statement (`Item.nodes`), the other one edits the statement
(`Item.edit`). The first one meets every place of the tree once, and each place before what is below
it (`Subtree.exists_places`), and leaves nothing out (`Subtree.eq_of_frames`). The second one, with
an editor that changes nothing, meets the same nodes in the same order, whatever the editor does
with its state, and answers the statement as it was. `Item.walks` says all of this of every
statement.
-/

namespace DeclLayer

/-! ## Editors that change nothing -/

section

variable {σ : Type} {e : Editor σ}

/-- The editor answers names and types as they are. It may do anything with its state. -/
structure Editor.Keeps (e : Editor σ) : Prop where
  param : ∀ name s, ((e.param name).run s).1 = name
  type : ∀ ty s, ((e.type ty).run s).1 = ty

/-- The state after the editor met a node. -/
def Editor.see (e : Editor σ) (s : σ) : Node → σ
  | .item name => ((e.item name).run s).2
  | .param name => ((e.param name).run s).2
  | .type ty => ((e.type ty).run s).2

/-- The revision that changes nothing and leaves every node as an event. -/
def Revision.keep : Revision Node := ⟨id, id, fun node => [node]⟩

/-- An editor that changes nothing carries out the revision that changes nothing, with the nodes it
meets as events. -/
theorem Editor.Keeps.carriesOut (h : e.Keeps) : e.CarriesOut e.see .keep where
  item _ _ := rfl
  param name s := Prod.ext (h.param name s) rfl
  type ty s := Prod.ext (h.type ty s) rfl

end

/-! ## Replacing by the same -/

@[simp] theorem Ty.onOption_keep (ty : Option Ty) :
    (Ty.onOption (m := Id) (fun t => pure t) ty).run = ty := by
  cases ty <;> rfl

@[simp] theorem Param.onParts_keep (p : Param Ty) :
    (p.onParts (m := Id) (fun t => pure t)).run = p := by
  simp [Param.onParts]

@[simp] theorem TypeParam.onParts_keep (p : TypeParam Ty) :
    (p.onParts (m := Id) (fun name => pure name) (fun t => pure t)).run = p := by
  simp [TypeParam.onParts]

@[simp] theorem Signature.onParts_keep (s : Signature Ty) :
    (s.onParts (m := Id) (fun name => pure name) (fun t => pure t)).run = s := by
  simp [Signature.onParts]

@[simp] theorem Member.onParts_keep (m : Member Ty) :
    (m.onParts (m := Id) (fun name => pure name) (fun t => pure t)).run = m := by
  cases m <;> simp [Member.onParts, Callable.onParts, IndexSignature.onParts]

@[simp] theorem ClassMember.onParts_keep (m : ClassMember) :
    (m.onParts (m := Id) (fun name => pure name) (fun t => pure t)).run = m := by
  cases m <;> simp [ClassMember.onParts, IndexSignature.onParts]

/-- A type with its parts replaced by themselves. -/
theorem Ty.mapParts_id (ty : Ty) : ty.mapParts id id = ty := by
  cases ty <;> simp [Ty.mapParts, Ty.onParts]

/-- A statement with its parts replaced by themselves. -/
theorem Item.mapParts_id (item : Item) : item.mapParts id id = item := by
  have htypeParams : TypeParam.mapParts id id = id := funext TypeParam.onParts_keep
  have hmembers : Member.mapParts id id = id := funext Member.onParts_keep
  have hclassMembers : ClassMember.mapParts id id = id := funext ClassMember.onParts_keep
  induction item using Item.nested_induction with
  | step item ih =>
    cases item with
    | space b | ambient b =>
      obtain ⟨docs, modifiers, name, items⟩ := b
      have hitems : items.map (Item.mapParts id id) = items :=
        (List.map_congr_left ih).trans (List.map_id' items)
      rw [Item.mapParts, Item.mapPartsList_eq, hitems]
    | function | interface | typeAlias | cls | var | enum | exports | imports | verbatim =>
      simp [Item.mapParts, Signature.mapParts, htypeParams, hmembers, hclassMembers]

namespace Revision

/-- The revision that changes nothing changes no type, however deep it goes. -/
theorem ty_keep (levels : Nat) (ty : Ty) : keep.ty levels ty = ty := by
  induction levels generalizing ty with
  | zero => rfl
  | succ levels ih =>
    have hty : keep.ty levels = id := funext ih
    rw [Revision.ty, hty]
    exact Ty.mapParts_id ty

/-! ## The nodes that are met -/

/-- The nodes that are met in some parts. -/
theorem flatMap_partEvents_keep {levels : Nat} {parts : List Part}
    (h : ∀ t, .type t ∈ parts → keep.tyEvents levels t = t.nodes) :
    parts.flatMap (keep.partEvents (keep.tyEvents levels)) = parts.flatMap Part.nodes := by
  refine List.flatMap_congr fun part hpart => ?_
  cases part with
  | param name => rfl
  | type t => exact h t hpart

/-- The nodes that are met in a type. -/
theorem tyEvents_keep {levels : Nat} {ty : Ty} (hlevels : ty.nodes.length ≤ levels) :
    keep.tyEvents levels ty = ty.nodes := by
  induction levels generalizing ty with
  | zero => simp [Ty.nodes_eq] at hlevels
  | succ levels ih =>
    have hparts : ∀ t, .type t ∈ ty.parts → keep.tyEvents levels t = t.nodes := by
      intro t ht
      have hlt := Ty.nodes_length_lt ht
      exact ih (by omega)
    rw [Revision.tyEvents, Ty.nodes_eq]
    exact congrArg (.type ty :: ·) (flatMap_partEvents_keep hparts)

/-- The events in a statement: its own, those in its parts, and those in the statements inside it.
-/
theorem itemEvents_eq {ε : Type} (r : Revision ε) (levels : Nat) (item : Item) :
    r.itemEvents levels item = r.events (.item item.name?) ++
      (item.parts.flatMap (r.partEvents (r.tyEvents levels)) ++
        r.itemsEvents levels item.nested) := by
  cases item <;> simp [itemEvents, Item.name?, Item.parts, Item.nested, itemsEvents]

/-- The events in statements are those in each of them, in order. -/
theorem itemsEvents_eq {ε : Type} (r : Revision ε) (levels : Nat) (items : List Item) :
    r.itemsEvents levels items = items.flatMap (r.itemEvents levels) := by
  induction items with
  | nil => rfl
  | cons item items ih => rw [itemsEvents, ih, List.flatMap_cons]

/-- The nodes that are met in a statement. -/
theorem itemEvents_keep {levels : Nat} {item : Item} (hlevels : item.nodes.length ≤ levels) :
    keep.itemEvents levels item = item.nodes := by
  induction item using Item.nested_induction with
  | step item ih =>
    have hlength := congrArg List.length (Item.nodes_eq item)
    rw [List.length_cons, List.length_append] at hlength
    have hparts : ∀ t, .type t ∈ item.parts → keep.tyEvents levels t = t.nodes := by
      intro t ht
      have hle := Part.nodes_length_le ht
      rw [Part.nodes_type] at hle
      exact tyEvents_keep (by omega)
    have hnested : ∀ inner ∈ item.nested, keep.itemEvents levels inner = inner.nodes := by
      intro inner hinner
      have hle := Item.nodes_length_le hinner
      exact ih inner hinner (by omega)
    rw [itemEvents_eq, flatMap_partEvents_keep hparts, itemsEvents_eq, List.flatMap_congr hnested,
      Item.nodes_eq, Item.nodesList_eq]
    rfl

end Revision

/-- Editing with an editor that changes nothing: the statement stays as it is, and its nodes are met
in order. -/
theorem Item.edit_keeps {σ : Type} {e : Editor σ} (he : e.Keeps) {item : Item} {levels : Nat}
    (hlevels : item.nodes.length ≤ levels) (s : σ) :
    (item.edit e levels).run s = (item, item.nodes.foldl e.see s) := by
  have hty : Revision.keep.ty levels = id := funext fun ty => Revision.ty_keep levels ty
  have hacts := Item.edit_acts he.carriesOut levels item s
  rw [Revision.itemEvents_keep hlevels, hty] at hacts
  rw [hacts]
  exact congrArg (·, _) item.mapParts_id

/-! ## Both walks -/

/-- The two walks over a statement. The nodes are those of the places of the tree, each place once
and before the places below it. Nothing is left out: no other statement has the same frames at the
same places. And an editor that changes nothing meets the same nodes and leaves the statement as it
was. -/
theorem Item.walks (item : Item) :
    (∃ places, (Subtree.item item).Enumerates places ∧
      places.map (·.2.node) = item.nodes) ∧
    (∀ other : Item, (∀ address, ((Subtree.item other).at? address).map Subtree.frame =
      ((Subtree.item item).at? address).map Subtree.frame) → other = item) ∧
    ∀ {σ : Type} (e : Editor σ), e.Keeps → ∀ levels, item.nodes.length ≤ levels → ∀ s,
      (item.edit e levels).run s = (item, item.nodes.foldl e.see s) :=
  ⟨(Subtree.item item).exists_places,
    fun _ h => Subtree.item.inj (Subtree.eq_of_frames h),
    fun _ he _ hlevels s => Item.edit_keeps he hlevels s⟩

/-- An editor that notes the nodes it meets. -/
def Editor.recorder : Editor (List Node) where
  item name := modify (· ++ [.item name])
  param name := do
    modify (· ++ [.param name])
    return name
  type ty := do
    modify (· ++ [.type ty])
    return ty

/-- The recorder changes nothing. -/
theorem Editor.recorder_keeps : Editor.recorder.Keeps := ⟨fun _ _ => rfl, fun _ _ => rfl⟩

/-- The mapped type of `nestedItem`. -/
def mappedType : Ty :=
  .mapped "K" (.keyOf (.named "T" [])) (some (.named "N" [])) .this none none

/-- An interface in a namespace, with a constraint, a default and a mapped name type. -/
def nestedItem : Item :=
  .space ⟨[], .plain, "ts", [.interface ⟨[], .plain, "I",
    [⟨"T", some (.named "A" []), some (.named "B" [])⟩], [],
    [.property ⟨[], "p", mappedType, false, false⟩]⟩]⟩

/-- The walks over an interface in a namespace: the editor meets the nodes in the order of the list,
with constraint before default and the type that renames the keys before the value. -/
theorem Item.walks_nestedItem :
    (Editor.recorder.Keeps ∧ nestedItem.nodes.length ≤ 10) ∧
    (nestedItem.edit .recorder 10).run [] = (nestedItem,
      [.item (some "ts"), .item (some "I"), .param "T", .type (.named "A" []),
        .type (.named "B" []), .type mappedType, .type (.keyOf (.named "T" [])),
        .type (.named "T" []), .type (.named "N" []), .type .this]) :=
  ⟨⟨Editor.recorder_keeps, by decide⟩,
    (Item.walks nestedItem).2.2 .recorder Editor.recorder_keeps 10 (by decide) []⟩

end DeclLayer
