import DeclLayer.Proofs.Layer.Build
import DeclLayer.Proofs.Layer.Index
import Mathlib.Data.List.Basic

/-!
# The two tiers of a layer

The separation and the consolidated namespace are made by two functions that each go through the
index by kind. Here both are read off the declarations of the source. A declaration is hoisted by
its kind and its name (`Item.isHoisted`) and gets new modifiers (`Item.placed`), and each tier
consists of groups, one for each kind, in which the declarations keep their order
(`Separation.items_eq`, `consolidate_items_eq`). `separation_partitions` says that together they
hold each declaration once.

A name can be declared under several kinds. It is in module scope if one of its kinds is hoisted,
and in the namespace if one of them is not (`name_tiers`), so it can be in both
(`name_tiers_merged`).
-/

namespace DeclLayer

/-! ## Where a declaration goes -/

/-- The modifiers of an emitted declaration. -/
def DeclKind.emittedModifiers (hoisted : Bool) : DeclKind → Modifiers
  | .enum => if hoisted then .ambient false else .exportedOnly
  | .interface | .typeAlias => .exportedOnly
  | .cls | .function | .var | .space => .ambient true

namespace Item

/-- A declaration with other modifiers. -/
def withModifiers (modifiers : Modifiers) : Item → Item
  | .function d => .function { d with modifiers := modifiers }
  | .interface d => .interface { d with modifiers := modifiers }
  | .typeAlias d => .typeAlias { d with modifiers := modifiers }
  | .cls d => .cls { d with modifiers := modifiers }
  | .var d => .var { d with modifiers := modifiers }
  | .enum d => .enum { d with modifiers := modifiers }
  | .space b => .space { b with modifiers := modifiers }
  | .ambient b => .ambient { b with modifiers := modifiers }
  | .exports x => .exports x
  | .imports x => .imports x
  | .verbatim text => .verbatim text

/-- Whether a declaration moves to module scope. -/
def isHoisted (p : Policy) (item : Item) : Bool :=
  match item.kind?, item.name? with
  | some kind, some name => p.hoists kind name
  | _, _ => false

/-- A declaration as it is emitted, in either tier. -/
def placed (p : Policy) (item : Item) : Item :=
  match item.kind? with
  | some kind => item.withModifiers (kind.emittedModifiers (item.isHoisted p))
  | none => item

@[simp] theorem kind?_placed (p : Policy) (item : Item) : (item.placed p).kind? = item.kind? := by
  cases item <;> rfl

@[simp] theorem name?_placed (p : Policy) (item : Item) : (item.placed p).name? = item.name? := by
  cases item <;> rfl

end Item

/-- The declarations of a kind that move to module scope, or those that do not, as emitted. -/
def placedGroup (p : Policy) (hoisted : Bool) (declarations : List Item) (kind : DeclKind) :
    List Item :=
  (declarations.filter fun d => d.kind? = some kind ∧ d.isHoisted p = hoisted).map (Item.placed p)

/-! ## The tiers as groups -/

/-- The kinds in the order of the separated declarations. -/
def outerKinds : List DeclKind := [.enum, .interface, .typeAlias]

/-- The kinds in the order of the consolidated namespace. -/
def keptKinds : List DeclKind := [.space, .interface, .enum, .typeAlias, .cls, .function, .var]

/-- A declaration is placed with the modifiers of its kind and tier. -/
theorem Item.placed_eq {p : Policy} {item : Item} {kind : DeclKind} {hoisted : Bool}
    (hkind : item.kind? = some kind) (hhoisted : item.isHoisted p = hoisted) :
    item.placed p = item.withModifiers (kind.emittedModifiers hoisted) := by
  rw [Item.placed, hkind, hhoisted]

section

variable {δ : Type} (p : Policy) (hoisted : Bool) (items : List Item) (kind : DeclKind)
  (toItem : δ → Item) {l : List δ} {emit : δ → Item}
  (hl : (Index.ofItems items).listed kind = l.map toItem)
  (hkind : ∀ d, (toItem d).kind? = some kind)
  (hemit : ∀ d, emit d = (toItem d).withModifiers (kind.emittedModifiers hoisted))
include hl hkind hemit

/-- A list of an index, filtered by the policy and given modifiers, is a group of declarations. -/
theorem map_filter_eq_placedGroup (keep : δ → Bool)
    (hkeep : ∀ d, keep d = true ↔ (toItem d).isHoisted p = hoisted) :
    (l.filter keep).map emit = placedGroup p hoisted items kind := by
  have hgroup : placedGroup p hoisted items kind =
      ((l.map toItem).filter fun d => d.isHoisted p = hoisted).map (Item.placed p) := by
    rw [← hl, Index.listed_ofItems, List.filter_filter, placedGroup]
    simp only [Bool.decide_and, Bool.and_comm]
  have hfilter : l.filter ((fun d => decide (d.isHoisted p = hoisted)) ∘ toItem) = l.filter keep :=
    List.filter_congr fun d _ => by
      rw [Bool.eq_iff_iff, hkeep, Function.comp_apply, decide_eq_true_iff]
  rw [hgroup, List.filter_map, List.map_map, hfilter]
  refine List.map_congr_left fun d hd => ?_
  rw [Function.comp_apply, hemit, Item.placed_eq (hkind d) ((hkeep d).1 (List.mem_filter.1 hd).2)]

/-- The same for a list that the policy does not filter. -/
theorem map_eq_placedGroup (hkeep : ∀ d, (toItem d).isHoisted p = hoisted) :
    l.map emit = placedGroup p hoisted items kind := by
  have h := map_filter_eq_placedGroup p hoisted items kind toItem hl hkind hemit (fun _ => true)
    fun d => by simp [hkeep]
  rwa [List.filter_true] at h

end

/-- The separated declarations, kind by kind. -/
theorem Separation.items_eq (items : List Item) (p : Policy) :
    (Separation.split (Index.ofItems items) p).items =
      outerKinds.flatMap (placedGroup p true items) := by
  have henums := map_filter_eq_placedGroup p true items .enum .enum rfl (fun _ => rfl)
    (fun _ => rfl) _ fun _ => Iff.rfl
  have hinterfaces := map_filter_eq_placedGroup p true items .interface .interface rfl
    (fun _ => rfl) (fun _ => rfl) _ fun _ => Iff.rfl
  have haliases := map_filter_eq_placedGroup p true items .typeAlias .typeAlias rfl (fun _ => rfl)
    (fun _ => rfl) _ fun _ => Iff.rfl
  simp only [outerKinds, List.flatMap_cons, List.flatMap_nil, List.append_nil, ← henums,
    ← hinterfaces, ← haliases, Separation.items, Separation.split, List.map_map, List.append_assoc]
  rfl

/-- The declarations of the consolidated namespace, kind by kind. -/
theorem consolidate_items_eq (items : List Item) (p : Policy) (name : String) :
    (consolidate (Index.ofItems items) p name).items =
      keptKinds.flatMap (placedGroup p false items) := by
  have hkept (b : Bool) : (!b) = true ↔ b = false := by rw [Bool.not_eq_true']
  have hspaces := map_eq_placedGroup p false items .space .space rfl (fun _ => rfl)
    (fun _ => rfl) fun _ => rfl
  have hinterfaces := map_filter_eq_placedGroup p false items .interface .interface rfl
    (fun _ => rfl) (fun _ => rfl) _ fun _ => hkept _
  have henums := map_filter_eq_placedGroup p false items .enum .enum rfl (fun _ => rfl)
    (fun _ => rfl) _ fun _ => hkept _
  have haliases := map_filter_eq_placedGroup p false items .typeAlias .typeAlias rfl (fun _ => rfl)
    (fun _ => rfl) _ fun _ => hkept _
  have hclasses := map_eq_placedGroup p false items .cls .cls rfl (fun _ => rfl)
    (fun _ => rfl) fun _ => rfl
  have hfunctions := map_eq_placedGroup p false items .function .function rfl (fun _ => rfl)
    (fun _ => rfl) fun _ => rfl
  have hvars := map_eq_placedGroup p false items .var .var rfl (fun _ => rfl)
    (fun _ => rfl) fun _ => rfl
  simp only [keptKinds, List.flatMap_cons, List.flatMap_nil, List.append_nil, ← hspaces,
    ← hinterfaces, ← henums, ← haliases, ← hclasses, ← hfunctions, ← hvars, consolidate,
    List.append_assoc]
  rfl

/-! ## Groups of declarations -/

/-- The declarations of a group are the declarations of the kind and tier, placed. -/
theorem mem_placedGroup {p : Policy} {hoisted : Bool} {items : List Item} {kind : DeclKind}
    {item : Item} : item ∈ placedGroup p hoisted items kind ↔
      ∃ d ∈ items, d.kind? = some kind ∧ d.isHoisted p = hoisted ∧ d.placed p = item := by
  simp [placedGroup, and_assoc]

/-- Of the declarations of several kinds, those of one kind are its group. -/
theorem filter_flatMap_placedGroup (p : Policy) (hoisted : Bool) (items : List Item)
    (kind : DeclKind) {kinds : List DeclKind} (hkinds : kinds.Nodup) :
    (kinds.flatMap (placedGroup p hoisted items)).filter (fun d => d.kind? = some kind) =
      if kind ∈ kinds then placedGroup p hoisted items kind else [] := by
  induction kinds with
  | nil => rfl
  | cons k kinds ih =>
    obtain ⟨hk, hkinds⟩ := List.nodup_cons.1 hkinds
    rw [List.flatMap_cons, List.filter_append, ih hkinds]
    by_cases h : k = kind
    · subst h
      have hself : (placedGroup p hoisted items k).filter (fun d => d.kind? = some k) =
          placedGroup p hoisted items k := by
        refine List.filter_eq_self.2 fun item hitem => ?_
        obtain ⟨d, -, hkind, -, rfl⟩ := mem_placedGroup.1 hitem
        simpa using hkind
      rw [hself, if_neg hk, if_pos List.mem_cons_self, List.append_nil]
    · have hnone : (placedGroup p hoisted items k).filter (fun d => d.kind? = some kind) = [] := by
        refine List.filter_eq_nil_iff.2 fun item hitem => ?_
        obtain ⟨d, -, hkind, -, rfl⟩ := mem_placedGroup.1 hitem
        simpa [hkind] using h
      rw [hnone, List.nil_append]
      simp only [List.mem_cons, Ne.symm h, false_or]

/-- Sorted by different kinds, each declaration of these kinds is there once. -/
theorem flatMap_filter_kind_perm (items : List Item) {kinds : List DeclKind}
    (hkinds : kinds.Nodup) :
    (kinds.flatMap fun kind => items.filter fun d => d.kind? = some kind).Perm
      (items.filter fun d => ∃ kind ∈ kinds, d.kind? = some kind) := by
  induction kinds with
  | nil => simp
  | cons k kinds ih =>
    obtain ⟨hk, hkinds⟩ := List.nodup_cons.1 hkinds
    rw [List.flatMap_cons]
    refine ((ih hkinds).append_left _).trans ?_
    -- The declarations of all the kinds are those of the first and those of the others.
    refine .trans (.of_eq ?_) (List.filter_append_perm (fun d => d.kind? = some k) _)
    rw [List.filter_filter, List.filter_filter]
    refine congrArg₂ _ (List.filter_congr fun d _ => Bool.eq_iff_iff.2 ?_)
      (List.filter_congr fun d _ => Bool.eq_iff_iff.2 ?_) <;>
      simp only [Bool.and_eq_true, Bool.not_eq_true', decide_eq_true_eq, decide_eq_false_iff_not,
        List.mem_cons, exists_eq_or_imp]
    · exact ⟨fun h => ⟨h, .inl h⟩, And.left⟩
    · have hother : (∃ kind ∈ kinds, d.kind? = some kind) → d.kind? ≠ some k := by
        rintro ⟨kind, hmem, hkind⟩ heq
        exact hk (Option.some.inj (hkind.symm.trans heq) ▸ hmem)
      exact ⟨fun h => ⟨hother h, .inr h⟩, fun ⟨hne, h⟩ => h.resolve_left hne⟩

/-- The groups of different kinds hold each declaration of these kinds once. -/
theorem flatMap_placedGroup_perm (p : Policy) (hoisted : Bool) (items : List Item)
    {kinds : List DeclKind} (hkinds : kinds.Nodup) :
    (kinds.flatMap (placedGroup p hoisted items)).Perm
      ((items.filter fun d => (∃ kind ∈ kinds, d.kind? = some kind) ∧ d.isHoisted p = hoisted).map
        (Item.placed p)) := by
  have hgroup : placedGroup p hoisted items = fun kind =>
      ((items.filter fun d => d.isHoisted p = hoisted).filter fun d => d.kind? = some kind).map
        (Item.placed p) := by
    funext kind
    simp only [placedGroup, List.filter_filter, Bool.decide_and]
  have hperm := (flatMap_filter_kind_perm (items.filter fun d => d.isHoisted p = hoisted)
    hkinds).map (Item.placed p)
  rw [List.map_flatMap, ← hgroup, List.filter_filter] at hperm
  simpa only [Bool.decide_and] using hperm

/-! ## The partition -/

/-- The declarations of a namespace: the statements of its blocks that declare something in it. -/
def declaredIn (name : String) (statements : List Item) : List Item :=
  ((namespacesOf name statements).flatMap Block.items).filter fun d => d.kind?.isSome

/-- The names that some statements declare. -/
def namesOf (items : List Item) : List String := items.filterMap Item.name?

/-- A name of some statements is the name of one of them. -/
theorem mem_namesOf {items : List Item} {name : String} :
    name ∈ namesOf items ↔ ∃ item ∈ items, item.name? = some name :=
  List.mem_filterMap

/-- A list of statements holds the declarations that move to module scope, or those that do not, as
they are emitted. Since `Item.placed` only replaces the modifiers, nothing else of a declaration is
changed. -/
structure IsTier (p : Policy) (hoisted : Bool) (kinds : List DeclKind) (declared tier : List Item) :
    Prop where
  /-- Each of the declarations is there as often as it was declared. -/
  perm : tier.Perm ((declared.filter fun d => d.isHoisted p = hoisted).map (Item.placed p))
  /-- The declarations of a kind keep their order. -/
  order (kind : DeclKind) :
    tier.filter (fun d => d.kind? = some kind) = placedGroup p hoisted declared kind
  /-- The declarations are sorted by kind. -/
  grouped : tier = kinds.flatMap fun kind => tier.filter fun d => d.kind? = some kind

/-- Two lists of statements hold the declarations that move to module scope, and those that stay in
the namespace. -/
structure Partitioned (p : Policy) (declared outer kept : List Item) : Prop where
  /-- Each declaration is in the tiers as often as it was declared. -/
  perm : (outer ++ kept).Perm (declared.map (Item.placed p))
  outer_tier : IsTier p true outerKinds declared outer
  kept_tier : IsTier p false keptKinds declared kept

/-- Groups that leave no kind out make a tier. -/
theorem isTier_flatMap_placedGroup {p : Policy} {hoisted : Bool} {declared : List Item}
    {kinds : List DeclKind} (hkinds : kinds.Nodup)
    (hsome : ∀ d ∈ declared, d.kind?.isSome = true)
    (hcover : ∀ d ∈ declared, ∀ kind, d.kind? = some kind → d.isHoisted p = hoisted →
      kind ∈ kinds) :
    IsTier p hoisted kinds declared (kinds.flatMap (placedGroup p hoisted declared)) := by
  have horder (kind : DeclKind) : (kinds.flatMap (placedGroup p hoisted declared)).filter
      (fun d => d.kind? = some kind) = placedGroup p hoisted declared kind := by
    rw [filter_flatMap_placedGroup p hoisted declared kind hkinds]
    split
    · rfl
    · next hkind =>
      refine (List.eq_nil_iff_forall_not_mem.2 fun item hitem => ?_).symm
      obtain ⟨d, hd, hdkind, hhoisted, -⟩ := mem_placedGroup.1 hitem
      exact hkind (hcover d hd kind hdkind hhoisted)
  refine ⟨?_, horder, by rw [funext horder]⟩
  refine (flatMap_placedGroup_perm p hoisted declared hkinds).trans (.of_eq (congrArg _ ?_))
  refine List.filter_congr fun d hd => decide_eq_decide.2 (and_iff_right_of_imp fun hhoisted => ?_)
  obtain ⟨kind, hkind⟩ := Option.isSome_iff_exists.1 (hsome d hd)
  exact ⟨kind, hcover d hd kind hkind hhoisted, hkind⟩

/-- Declarations of every kind can stay in the namespace. -/
theorem DeclKind.mem_keptKinds (kind : DeclKind) : kind ∈ keptKinds := by
  cases kind <;> decide

/-- What a policy moves is of a kind that it has a list for. -/
theorem Policy.mem_outerKinds {p : Policy} {kind : DeclKind} {name : String}
    (h : p.hoists kind name = true) : kind ∈ outerKinds := by
  cases kind with
  | enum | interface | typeAlias => decide
  | cls | function | var | space => cases h

/-- Whether a declaration is hoisted depends on its kind and name only. -/
theorem Item.isHoisted_eq {p : Policy} {item : Item} {kind : DeclKind} {name : String}
    (hkind : item.kind? = some kind) (hname : item.name? = some name) :
    item.isHoisted p = p.hoists kind name := by
  rw [Item.isHoisted, hkind, hname]

/-- Only declarations of three kinds are hoisted. -/
theorem Item.mem_outerKinds {p : Policy} {item : Item} {kind : DeclKind}
    (hkind : item.kind? = some kind) (hhoisted : item.isHoisted p = true) : kind ∈ outerKinds := by
  cases hname : item.name? with
  | none => simp [Item.isHoisted, hkind, hname] at hhoisted
  | some name => exact Policy.mem_outerKinds (Item.isHoisted_eq hkind hname ▸ hhoisted)

/-- Statements that are no declarations are in no group. -/
theorem placedGroup_filter_isSome (p : Policy) (hoisted : Bool) (items : List Item)
    (kind : DeclKind) :
    placedGroup p hoisted (items.filter fun d => d.kind?.isSome) kind =
      placedGroup p hoisted items kind := by
  rw [placedGroup, List.filter_filter, placedGroup]
  refine congrArg _ (List.filter_congr fun d _ => ?_)
  cases hkind : d.kind? <;> simp

/-- The separated declarations and the consolidated namespace are the tiers of the declarations that
were indexed. -/
theorem tiers_partitioned (items : List Item) (p : Policy) (name : String) :
    Partitioned p (items.filter fun d => d.kind?.isSome)
      (Separation.split (Index.ofItems items) p).items
      (consolidate (Index.ofItems items) p name).items := by
  have hsome : ∀ d ∈ items.filter fun d => d.kind?.isSome, d.kind?.isSome = true :=
    fun d hd => (List.mem_filter.1 hd).2
  rw [Separation.items_eq, consolidate_items_eq, ← funext (placedGroup_filter_isSome p true items),
    ← funext (placedGroup_filter_isSome p false items)]
  have houter := isTier_flatMap_placedGroup (p := p) (by decide : outerKinds.Nodup) hsome
    fun d _ _ hkind hhoisted => d.mem_outerKinds hkind hhoisted
  have hkept := isTier_flatMap_placedGroup (p := p) (by decide : keptKinds.Nodup) hsome
    fun _ _ kind _ (_ : _ = false) => kind.mem_keptKinds
  refine ⟨(houter.perm.append hkept.perm).trans ?_, houter, hkept⟩
  rw [← List.map_append]
  simp only [Bool.decide_eq_true, Bool.decide_eq_false]
  exact (List.filter_append_perm _ _).map _

/-- The separation splits the declarations of a namespace into the two tiers. -/
theorem separation_partitions {name : String} {statements : List Item} {index : Index}
    (hindex : Index.build name statements = .ok index) (p : Policy) :
    Partitioned p (declaredIn name statements) (Separation.split index p).items
      (consolidate index p name).items := by
  obtain ⟨-, rfl⟩ := Index.build_ok.1 hindex
  exact tiers_partitioned _ p name

/-- A file with two blocks of a namespace that declares the name `Symbol` four times, twice as an
interface and twice as a function. -/
def mergedSource : String :=
  "declare namespace ts { interface Symbol {} function Symbol(): Symbol; } " ++
    "declare namespace ts { interface Symbol { id: number; } function Symbol(id: number): Symbol; }"

/-- The policy that moves the interface `Symbol`. -/
def mergedPolicy : Policy := { Policy.empty with interfaces := ["Symbol"] }

/-- What is decided of the index of a source text holds of it. -/
theorem exists_index_of_source {name source : String} {P : List Item → Index → Prop}
    [∀ statements index, Decidable (P statements index)]
    (h : ((parseItems source).toOption.any fun statements =>
      (Index.build name statements).toOption.any fun index => P statements index) = true) :
    ∃ statements index, parseItems source = .ok statements ∧
      Index.build name statements = .ok index ∧ P statements index := by
  cases hparse : parseItems source with
  | error e => simp [hparse, Except.toOption] at h
  | ok statements =>
    cases hindex : Index.build name statements with
    | error e => simp [hparse, hindex, Except.toOption] at h
    | ok index =>
      refine ⟨statements, index, rfl, hindex, ?_⟩
      simpa [hparse, hindex, Except.toOption] using h

/-- The index of the file fits the policy, and the file declares the name under two kinds. -/
theorem exists_mergedIndex :
    ∃ statements index, parseItems mergedSource = .ok statements ∧
      Index.build "ts" statements = .ok index ∧
      mergedPolicy.validate index "ts" = .ok () ∧
      index.table = [("Symbol", [.interface, .function])] ∧
      (declaredIn "ts" statements).map Item.kind? =
        [some .interface, some .function, some .interface, some .function] :=
  exists_index_of_source (by decide +kernel)

/-- Of the declarations of a merged name, each goes to the tier of its kind. -/
theorem separation_partitions_merged :
    ∃ statements index, parseItems mergedSource = .ok statements ∧
      Index.build "ts" statements = .ok index ∧
      (declaredIn "ts" statements).map Item.kind? =
        [some .interface, some .function, some .interface, some .function] ∧
      Partitioned mergedPolicy (declaredIn "ts" statements)
        (Separation.split index mergedPolicy).items
        (consolidate index mergedPolicy "ts").items := by
  obtain ⟨statements, index, hparse, hindex, -, -, hkinds⟩ := exists_mergedIndex
  exact ⟨statements, index, hparse, hindex, hkinds, separation_partitions hindex mergedPolicy⟩

/-! ## The names of the tiers -/

namespace Partitioned

variable {p : Policy} {declared outer kept : List Item}

/-- The names at module scope are those of the declarations that are hoisted. -/
theorem mem_outer_names (h : Partitioned p declared outer kept) {name : String} :
    name ∈ namesOf outer ↔ ∃ d ∈ declared, d.isHoisted p = true ∧ d.name? = some name := by
  simp [mem_namesOf, h.outer_tier.perm.mem_iff, and_assoc]

/-- The names in the namespace are those of the declarations that are kept. -/
theorem mem_kept_names (h : Partitioned p declared outer kept) {name : String} :
    name ∈ namesOf kept ↔ ∃ d ∈ declared, d.isHoisted p = false ∧ d.name? = some name := by
  simp [mem_namesOf, h.kept_tier.perm.mem_iff, and_assoc]

end Partitioned

/-- Whether a declaration moves is a matter of the kinds of its name. -/
theorem exists_isHoisted_iff {p : Policy} {items : List Item} {name : String} {hoisted : Bool} :
    (∃ d ∈ items.filter (fun d => d.kind?.isSome), d.isHoisted p = hoisted ∧ d.name? = some name) ↔
      ∃ kind ∈ (Index.ofItems items).kindsOf name, p.hoists kind name = hoisted := by
  simp only [Index.mem_kindsOf_ofItems, List.mem_filter]
  constructor
  · rintro ⟨d, ⟨hd, hsome⟩, hhoisted, hname⟩
    obtain ⟨kind, hkind⟩ := Option.isSome_iff_exists.1 hsome
    exact ⟨kind, ⟨d, hd, hkind, hname⟩, Item.isHoisted_eq hkind hname ▸ hhoisted⟩
  · rintro ⟨kind, ⟨d, hd, hkind, hname⟩, hhoists⟩
    exact ⟨d, ⟨hd, Option.isSome_iff_exists.2 ⟨kind, hkind⟩⟩,
      (Item.isHoisted_eq hkind hname).trans hhoists, hname⟩

namespace Policy

/-- A policy hoists a name if it hoists it as some kind. -/
theorem hoistsName_iff {p : Policy} {name : String} :
    p.hoistsName name = true ↔ ∃ kind, p.hoists kind name = true := by
  rw [hoistsName, List.any_eq_true]
  constructor
  · rintro ⟨kind, -, hhoists⟩
    exact ⟨kind, hhoists⟩
  · rintro ⟨kind, hhoists⟩
    exact ⟨kind, mem_outerKinds hhoists, hhoists⟩

/-- What a policy that fits the namespace moves is declared there, under the kind it is listed as.
-/
theorem mem_kindsOf_of_hoists {p : Policy} {index : Index} {namespaceName name : String}
    {kind : DeclKind} (h : p.validate index namespaceName = .ok ())
    (hhoists : p.hoists kind name = true) : kind ∈ index.kindsOf name := by
  have hunknown : p.unknownNames index = [] := by
    rw [validate] at h
    split at h
    · assumption
    · cases h
  have hlisted : name ∉ p.unknownNames index := by rw [hunknown]; exact List.not_mem_nil
  rw [unknownNames, List.mem_eraseDups, List.mem_append, not_or] at hlisted
  by_contra hkind
  refine hlisted.1 (List.mem_flatMap.2 ⟨kind, mem_outerKinds hhoists, List.mem_filter.2 ?_⟩)
  simpa [Index.has, hoists] using And.intro hhoists hkind

end Policy

/-- With a policy that fits the namespace, every declared name is in a tier. It is at module scope
exactly if the policy moves it, in the namespace exactly if it has a kind that the policy does not
move, and in one tier only exactly if the policy treats all its kinds alike. -/
theorem name_tiers {namespaceName name : String} {statements : List Item} {index : Index}
    {p : Policy} (hindex : Index.build namespaceName statements = .ok index)
    (hvalid : p.validate index namespaceName = .ok ()) (hname : name ∈ index.names) :
    let outer := namesOf (Separation.split index p).items
    let kept := namesOf (consolidate index p namespaceName).items
    (name ∈ outer ∨ name ∈ kept) ∧
      (name ∈ outer ↔ p.hoistsName name = true) ∧
      (name ∈ kept ↔ ∃ kind ∈ index.kindsOf name, p.hoists kind name = false) ∧
      (Xor (name ∈ outer) (name ∈ kept) ↔
        ∀ kind ∈ index.kindsOf name, p.hoists kind name = p.hoistsName name) := by
  intro outer kept
  obtain ⟨-, rfl⟩ := Index.build_ok.1 hindex
  have htiers := tiers_partitioned ((namespacesOf namespaceName statements).flatMap Block.items) p
    namespaceName
  have houter : name ∈ outer ↔ p.hoistsName name = true := by
    refine (htiers.mem_outer_names.trans exists_isHoisted_iff).trans ?_
    rw [Policy.hoistsName_iff]
    exact exists_congr fun kind => and_iff_right_of_imp (Policy.mem_kindsOf_of_hoists hvalid)
  have hkept : name ∈ kept ↔ ∃ kind ∈ Index.kindsOf _ name, p.hoists kind name = false :=
    htiers.mem_kept_names.trans exists_isHoisted_iff
  obtain ⟨kind, hkind⟩ := Index.exists_mem_kindsOf hname
  refine ⟨?_, houter, hkept, ?_⟩
  · cases hhoists : p.hoists kind name with
    | true => exact .inl (houter.2 (Policy.hoistsName_iff.2 ⟨kind, hhoists⟩))
    | false => exact .inr (hkept.2 ⟨kind, hkind, hhoists⟩)
  · cases hmoved : p.hoistsName name with
    | true =>
      rw [xor_iff_iff_not, iff_true_left (houter.2 hmoved), hkept]
      simp only [not_exists, not_and, Bool.not_eq_false]
    | false =>
      have hout : name ∉ outer := by rw [houter, hmoved]; exact Bool.false_ne_true
      have hnone (k : DeclKind) : p.hoists k name = false :=
        Bool.eq_false_iff.2 fun h => by rw [Policy.hoistsName_iff.2 ⟨k, h⟩] at hmoved; cases hmoved
      exact iff_of_true (.inr ⟨hkept.2 ⟨kind, hkind, hnone kind⟩, hout⟩) fun k _ => hnone k

/-- A name is in both tiers if the policy moves one of its kinds and not the other. The policy is
accepted, since the name is declared under the kind that it lists. -/
theorem name_tiers_merged :
    ∃ statements index, parseItems mergedSource = .ok statements ∧
      Index.build "ts" statements = .ok index ∧
      mergedPolicy.validate index "ts" = .ok () ∧
      "Symbol" ∈ index.names ∧ index.kindsOf "Symbol" = [.interface, .function] ∧
      "Symbol" ∈ namesOf (Separation.split index mergedPolicy).items ∧
      "Symbol" ∈ namesOf (consolidate index mergedPolicy "ts").items := by
  obtain ⟨statements, index, hparse, hindex, hvalid, htable, -⟩ := exists_mergedIndex
  have hname : "Symbol" ∈ index.names := by rw [Index.names, htable]; decide
  have hkinds : index.kindsOf "Symbol" = [.interface, .function] := by
    rw [Index.kindsOf, htable]
    decide
  obtain ⟨-, houter, hkept, -⟩ := name_tiers hindex hvalid hname
  refine ⟨statements, index, hparse, hindex, hvalid, hname, hkinds, houter.2 (by decide),
    hkept.2 ⟨.function, ?_, by decide⟩⟩
  rw [hkinds]
  decide

end DeclLayer
