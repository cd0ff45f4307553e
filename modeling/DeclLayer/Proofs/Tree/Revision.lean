import DeclLayer.Proofs.Tree.Edit

/-!
# Edits that do not depend on the state

An editor that decides at each node without looking at its state carries out a `Revision`: it
replaces types and names by fixed functions and leaves a fixed trace of events. `Ty.edit_acts` and
`Item.editList_acts` give the answer of an edit by such an editor and the state after it, with no
state in the answer.

An edit goes down a given number of levels. If the revision makes no type larger, the number does
not matter as long as it is at least the number of nodes (`Revision.ty_eq_of_le`).
-/

namespace DeclLayer

/-- What becomes of the nodes of a tree, and the events at each of them. -/
structure Revision (ε : Type) where
  /-- The new name of a type parameter. -/
  rename : String → String
  /-- The type that takes the place of a type. -/
  replace : Ty → Ty
  events : Node → List ε

/-- The editor carries out a revision, whatever its state is. -/
structure Editor.CarriesOut {σ ε : Type} (e : Editor σ) (φ : σ → ε → σ) (r : Revision ε) :
    Prop where
  item : ∀ name, Acts φ (e.item name) () (r.events (.item name))
  param : ∀ name, Acts φ (e.param name) (r.rename name) (r.events (.param name))
  type : ∀ ty, Acts φ (e.type ty) (r.replace ty) (r.events (.type ty))

/-! ## Types -/

namespace Revision

variable {ε : Type}

/-- A type after a revision that goes down the given number of levels. -/
def ty (r : Revision ε) : Nat → Ty → Ty
  | 0, t => t
  | levels + 1, t => (r.replace t).mapParts r.rename (r.ty levels)

/-- The events of a part, given those of a type. -/
def partEvents (r : Revision ε) (tyEvents : Ty → List ε) : Part → List ε
  | .param name => r.events (.param name)
  | .type t => tyEvents t

/-- The events in a type during a revision that goes down the given number of levels. -/
def tyEvents (r : Revision ε) : Nat → Ty → List ε
  | 0, _ => []
  | levels + 1, t =>
    r.events (.type t) ++ (r.replace t).parts.flatMap (r.partEvents (r.tyEvents levels))

end Revision

section

variable {σ ε : Type} {e : Editor σ} {φ : σ → ε → σ} {r : Revision ε}

/-- An edit of a type answers the revised type and goes through the events in it. -/
theorem Ty.edit_acts (he : e.CarriesOut φ r) (levels : Nat) (ty : Ty) :
    Acts φ (Ty.edit e levels ty) (r.ty levels ty) (r.tyEvents levels ty) := by
  induction levels generalizing ty with
  | zero => exact .pure ty
  | succ levels ih =>
    refine (he.type ty).bind (Ty.onParts_acts ?_)
    intro part _
    cases part with
    | param name => exact he.param name
    | type t => exact ih t

/-- A revision that makes no type larger stays the same once it goes down as many levels as the
type has nodes. -/
theorem Revision.ty_eq_of_le (hr : ∀ t, (r.replace t).nodes.length ≤ t.nodes.length)
    {n m : Nat} {t : Ty} (hn : t.nodes.length ≤ n) (hm : t.nodes.length ≤ m) :
    r.ty n t = r.ty m t := by
  induction n generalizing m t with
  | zero => simp [Ty.nodes_eq] at hn
  | succ n ih =>
    cases m with
    | zero => simp [Ty.nodes_eq] at hm
    | succ m =>
      refine Ty.mapParts_congr fun t' ht' => ?_
      have := Ty.nodes_length_lt ht'
      have := hr t
      exact ih (by omega) (by omega)

/-! ## Statements -/

mutual

/-- A statement with its parts replaced, also in the statements inside it. -/
def Item.mapParts (rename : String → String) (f : Ty → Ty) : Item → Item
  | .function d =>
    .function { d with signature := d.signature.mapParts rename f, returns := d.returns.map f }
  | .interface d =>
    .interface
      { d with typeParams := d.typeParams.map (TypeParam.mapParts rename f)
               bases := d.bases.map f
               members := d.members.map (Member.mapParts rename f) }
  | .typeAlias d =>
    .typeAlias
      { d with typeParams := d.typeParams.map (TypeParam.mapParts rename f), type := f d.type }
  | .cls d =>
    .cls
      { d with typeParams := d.typeParams.map (TypeParam.mapParts rename f)
               base := d.base.map f
               interfaces := d.interfaces.map f
               members := d.members.map (ClassMember.mapParts rename f) }
  | .var d => .var { d with type := d.type.map f }
  | .enum d => .enum d
  | .space ⟨docs, modifiers, name, items⟩ =>
    .space ⟨docs, modifiers, name, Item.mapPartsList rename f items⟩
  | .ambient ⟨docs, modifiers, name, items⟩ =>
    .ambient ⟨docs, modifiers, name, Item.mapPartsList rename f items⟩
  | .exports x => .exports x
  | .imports x => .imports x
  | .verbatim text => .verbatim text

/-- Statements with their parts replaced. -/
def Item.mapPartsList (rename : String → String) (f : Ty → Ty) : List Item → List Item
  | [] => []
  | item :: items => item.mapParts rename f :: Item.mapPartsList rename f items

end

/-- Statements with their parts replaced, one by one. -/
theorem Item.mapPartsList_eq (rename : String → String) (f : Ty → Ty) (items : List Item) :
    Item.mapPartsList rename f items = items.map (Item.mapParts rename f) := by
  induction items with
  | nil => rfl
  | cons item items ih => rw [Item.mapPartsList, ih, List.map_cons]

/-- The parts of a statement with its parts replaced are the replaced parts. -/
theorem Item.parts_mapParts (rename : String → String) (f : Ty → Ty) (item : Item) :
    (item.mapParts rename f).parts = item.parts.map (Part.map rename f) := by
  cases item <;>
    simp [Item.mapParts, Item.parts, List.flatMap_map, List.map_flatMap, Function.comp_def,
      TypeParam.parts_mapParts, Signature.parts_mapParts, Member.parts_mapParts,
      ClassMember.parts_mapParts, Ty.optionParts_map rename]

@[simp] theorem Item.name?_mapParts (rename : String → String) (f : Ty → Ty) (item : Item) :
    (item.mapParts rename f).name? = item.name? := by
  cases item <;> rfl

@[simp] theorem Item.nested_mapParts (rename : String → String) (f : Ty → Ty) (item : Item) :
    (item.mapParts rename f).nested = item.nested.map (Item.mapParts rename f) := by
  cases item <;> simp [Item.mapParts, Item.nested, Item.mapPartsList_eq]

/-- Replacing the parts of a statement only looks at its parts and at the statements inside it. -/
theorem Item.mapParts_congr {rename : String → String} {f g : Ty → Ty} {item : Item}
    (h : ∀ t, .type t ∈ item.parts → f t = g t)
    (hnested : ∀ inner ∈ item.nested, inner.mapParts rename f = inner.mapParts rename g) :
    item.mapParts rename f = item.mapParts rename g := by
  have hoption {ty : Option Ty} (hty : ∀ t, .type t ∈ Ty.optionParts ty → f t = g t) :
      ty.map f = ty.map g :=
    Option.map_congr fun t ht => hty t (List.mem_map_of_mem (Option.mem_toList.2 ht))
  have htypes {tys : List Ty} (htys : ∀ t, .type t ∈ tys.map Part.type → f t = g t) :
      tys.map f = tys.map g :=
    List.map_congr_left fun t ht => htys t (List.mem_map_of_mem ht)
  have htypeParams {ps : List (TypeParam Ty)}
      (hps : ∀ t, .type t ∈ ps.flatMap TypeParam.parts → f t = g t) :
      ps.map (TypeParam.mapParts rename f) = ps.map (TypeParam.mapParts rename g) :=
    List.map_congr_left fun p hp =>
      TypeParam.mapParts_congr fun t ht => hps t (List.mem_flatMap.2 ⟨p, hp, ht⟩)
  have hleft {ps qs : List Part} (hps : ∀ t, .type t ∈ ps ++ qs → f t = g t) :
      ∀ t, .type t ∈ ps → f t = g t := fun t ht => hps t (List.mem_append_left _ ht)
  have hright {ps qs : List Part} (hps : ∀ t, .type t ∈ ps ++ qs → f t = g t) :
      ∀ t, .type t ∈ qs → f t = g t := fun t ht => hps t (List.mem_append_right _ ht)
  cases item with
  | function d =>
    rw [Item.mapParts, Item.mapParts, Signature.mapParts_congr (hleft h), hoption (hright h)]
  | interface d =>
    have hmembers : d.members.map (Member.mapParts rename f) =
        d.members.map (Member.mapParts rename g) :=
      List.map_congr_left fun m hm =>
        Member.mapParts_congr fun t ht => hright h t (List.mem_flatMap.2 ⟨m, hm, ht⟩)
    rw [Item.mapParts, Item.mapParts, htypeParams (hleft (hleft h)), htypes (hright (hleft h)),
      hmembers]
  | typeAlias d =>
    rw [Item.mapParts, Item.mapParts, htypeParams (hleft h),
      hright h d.type (List.mem_singleton.2 rfl)]
  | cls d =>
    have hmembers : d.members.map (ClassMember.mapParts rename f) =
        d.members.map (ClassMember.mapParts rename g) :=
      List.map_congr_left fun m hm =>
        ClassMember.mapParts_congr fun t ht => hright h t (List.mem_flatMap.2 ⟨m, hm, ht⟩)
    rw [Item.mapParts, Item.mapParts, htypeParams (hleft (hleft (hleft h))),
      hoption (hright (hleft (hleft h))), htypes (hright (hleft h)), hmembers]
  | var d => rw [Item.mapParts, Item.mapParts, hoption h]
  | space b | ambient b =>
    obtain ⟨docs, modifiers, name, items⟩ := b
    have hitems : items.map (Item.mapParts rename f) = items.map (Item.mapParts rename g) :=
      List.map_congr_left hnested
    rw [Item.mapParts, Item.mapParts, Item.mapPartsList_eq, Item.mapPartsList_eq, hitems]
  | enum | exports | imports | verbatim => rfl

mutual

/-- The events in a statement during a revision. -/
def Revision.itemEvents (r : Revision ε) (levels : Nat) : Item → List ε
  | .space ⟨_, _, name, items⟩ => r.events (.item (some name)) ++ r.itemsEvents levels items
  | .ambient ⟨_, _, name, items⟩ => r.events (.item (some name)) ++ r.itemsEvents levels items
  | item => r.events (.item item.name?) ++ item.parts.flatMap (r.partEvents (r.tyEvents levels))

/-- The events in statements during a revision. -/
def Revision.itemsEvents (r : Revision ε) (levels : Nat) : List Item → List ε
  | [] => []
  | item :: items => r.itemEvents levels item ++ r.itemsEvents levels items

end

/-- The edits of some parts are even. -/
theorem Editor.CarriesOut.actsOn (he : e.CarriesOut φ r) (levels : Nat) (parts : List Part) :
    ActsOn φ e.param (Ty.edit e levels) (fun name => pure (r.rename name))
      (fun t => pure (r.ty levels t)) (r.partEvents (r.tyEvents levels)) parts := by
  intro part _
  cases part with
  | param name => exact he.param name
  | type t => exact Ty.edit_acts he levels t

mutual

/-- An edit of a statement answers the revised statement and goes through the events in it. -/
theorem Item.edit_acts (he : e.CarriesOut φ r) (levels : Nat) : ∀ item : Item,
    Acts φ (item.edit e levels) (item.mapParts r.rename (r.ty levels)) (r.itemEvents levels item)
  | .function d => by
    rw [Item.edit]
    refine ((he.item _).bind (Signature.returns_acts (he.actsOn levels _))).of_eq ?_ ?_
    · rw [Ty.onOption_run]; rfl
    · rfl
  | .interface d => by
    obtain ⟨h, hmembers⟩ := actsOn_append.1 (he.actsOn levels (Item.interface d).parts)
    obtain ⟨htypeParams, hbases⟩ := actsOn_append.1 h
    rw [Item.edit]
    refine ((he.item _).bind ((TypeParam.mapM_acts htypeParams).bind
      ((Ty.mapM_acts hbases).bind (Member.mapM_acts hmembers).map))).of_eq ?_ ?_
    · simp only [List.idRun_mapM]; rfl
    · simp [Revision.itemEvents, Item.name?, Item.parts]
  | .typeAlias d => by
    obtain ⟨htypeParams, htype⟩ := actsOn_append.1 (he.actsOn levels (Item.typeAlias d).parts)
    rw [Item.edit]
    refine ((he.item _).bind ((TypeParam.mapM_acts htypeParams).bind htype.type.map)).of_eq ?_ ?_
    · simp only [List.idRun_mapM]; rfl
    · simp [Revision.itemEvents, Item.name?, Item.parts]
  | .cls d => by
    obtain ⟨h, hmembers⟩ := actsOn_append.1 (he.actsOn levels (Item.cls d).parts)
    obtain ⟨h, hinterfaces⟩ := actsOn_append.1 h
    obtain ⟨htypeParams, hbase⟩ := actsOn_append.1 h
    rw [Item.edit]
    refine ((he.item _).bind ((TypeParam.mapM_acts htypeParams).bind
      ((Ty.onOption_acts hbase).bind ((Ty.mapM_acts hinterfaces).bind
        (ClassMember.mapM_acts hmembers).map)))).of_eq ?_ ?_
    · simp only [List.idRun_mapM, Ty.onOption_run]; rfl
    · simp [Revision.itemEvents, Item.name?, Item.parts]
  | .var d => by
    rw [Item.edit]
    refine ((he.item _).bind (Ty.onOption_acts (he.actsOn levels _)).map).of_eq ?_ ?_
    · rw [Ty.onOption_run]; rfl
    · rfl
  | .space ⟨docs, modifiers, name, items⟩ => by
    rw [Item.edit]
    exact (he.item _).bind (Item.editList_acts he levels items).map
  | .ambient ⟨docs, modifiers, name, items⟩ => by
    rw [Item.edit]
    exact (he.item _).bind (Item.editList_acts he levels items).map
  | .enum d => by
    rw [Item.edit]
    exact (he.item _).bind (.pure _)
  | .exports x => by
    rw [Item.edit]
    exact (he.item _).bind (.pure _)
  | .imports x => by
    rw [Item.edit]
    exact (he.item _).bind (.pure _)
  | .verbatim text => by
    rw [Item.edit]
    exact (he.item _).bind (.pure _)

/-- An edit of statements answers the revised statements and goes through the events in them. -/
theorem Item.editList_acts (he : e.CarriesOut φ r) (levels : Nat) : ∀ items : List Item,
    Acts φ (Item.editList e levels items) (Item.mapPartsList r.rename (r.ty levels) items)
      (r.itemsEvents levels items)
  | [] => .pure []
  | item :: items => (Item.edit_acts he levels item).bind (Item.editList_acts he levels items).map

end

end

end DeclLayer
