import DeclLayer.Proofs.Layer.Branding
import DeclLayer.Proofs.Layer.Bridge
import DeclLayer.Proofs.Layer.Rerun

/-!
# Policies as sets of names

A policy lists names by kind, and only which names it lists has a part in a run
(`Policy.SameNames`): a run asks whether a declaration moves and never goes through a list
(`Policy.SameNames.hoists_eq`). So the separation, the consolidated namespace and the check of the
references are the same for two policies that list the same names, and so is the layer.

The one exception is the check of the policy itself, which reports the unknown names in the order of
the lists. Two policies that list the same names have the same unknown names, each given once
(`Policy.SameNames.unknownNames_perm`). `SameOutcome` says that two results agree up to this order,
and `Layer.build_of_sameNames` that two runs do.
-/

namespace DeclLayer

/-! ## Results up to the order of unknown names -/

/-- Whether an error reports names that the namespace does not declare. -/
def LayerError.isUnknownNames : LayerError → Bool
  | .unknownNames _ _ => true
  | _ => false

/-- Two results are the same, or they report the same unknown names of the same namespace, each
once, possibly in another order. -/
inductive SameOutcome {α : Type} : Except LayerError α → Except LayerError α → Prop where
  | ok (a : α) : SameOutcome (.ok a) (.ok a)
  | error {e : LayerError} (h : e.isUnknownNames = false) : SameOutcome (.error e) (.error e)
  | unknownNames (namespaceName : String) {names names' : List String} (perm : names.Perm names')
    (nodup : names.Nodup) :
    SameOutcome (.error (.unknownNames namespaceName names))
      (.error (.unknownNames namespaceName names'))

/-- A result that reports no unknown names. -/
def KnowsNames {α : Type} (x : Except LayerError α) : Prop :=
  ∀ e, x = .error e → e.isUnknownNames = false

section

variable {α β : Type} {x y : Except LayerError α} {f g : α → Except LayerError β}

/-- A result that reports no unknown names has the same outcome as itself. -/
theorem SameOutcome.refl (h : KnowsNames x) : SameOutcome x x := by
  cases x with
  | ok a => exact .ok a
  | error e => exact .error (h e rfl)

/-- Two chains of steps have the same outcome if their steps have. -/
theorem SameOutcome.bind (h : SameOutcome x y) (hfg : ∀ a, SameOutcome (f a) (g a)) :
    SameOutcome (x >>= f) (y >>= g) := by
  cases h with
  | ok a => exact hfg a
  | error h => exact .error h
  | unknownNames namespaceName perm nodup => exact .unknownNames namespaceName perm nodup

namespace KnowsNames

/-- A success reports no unknown names. -/
theorem ok (a : α) : KnowsNames (.ok a : Except LayerError α) := by
  rintro _ ⟨⟩

/-- An error of another kind reports no unknown names. -/
theorem error {e : LayerError} (h : e.isUnknownNames = false) :
    KnowsNames (.error e : Except LayerError α) := by
  rintro _ ⟨⟩
  exact h

/-- A chain of steps that report no unknown names reports none. -/
theorem bind (hx : KnowsNames x) (hf : ∀ a, KnowsNames (f a)) : KnowsNames (x >>= f) := by
  cases x with
  | ok a => exact hf a
  | error e => exact .error (hx e rfl)

end KnowsNames

end

/-! ## Steps that do not look at the lists -/

section

variable {σ : Type} [Store σ]

/-- Reading a file reports no unknown names. -/
theorem Store.knowsNames_readFile (s : σ) (path : Path) : KnowsNames (Store.readFile s path) := by
  rw [Store.readFile]
  cases Store.read s path with
  | ok text => exact .ok text
  | error reason => exact .error rfl

/-- Parsing a file reports no unknown names. -/
theorem Document.knowsNames_parse (path : Path) (text : String) :
    KnowsNames (Document.parse path text) := by
  rw [Document.parse]
  cases parseItems text with
  | ok items => exact .ok _
  | error e => exact .error rfl

/-- Reading a document reports no unknown names. -/
theorem Store.knowsNames_document (s : σ) (path : Path) :
    KnowsNames (Store.document s path) := by
  have hdocument : KnowsNames (Store.document? s path) := by
    rw [Store.document?]
    refine (Store.knowsNames_readFile s path).bind fun text => ?_
    cases text with
    | none => exact .ok none
    | some text => exact (Document.knowsNames_parse path text).bind fun d => .ok (some d)
  rw [Store.document]
  refine hdocument.bind fun d => ?_
  cases d with
  | none => exact .error rfl
  | some d => exact .ok d

end

/-- Building the index reports no unknown names. -/
theorem Index.knowsNames_build (name : String) (statements : List Item) :
    KnowsNames (Index.build name statements) := by
  rw [Index.build]
  cases namespacesOf name statements with
  | nil => exact .error rfl
  | cons b blocks => exact .ok _

/-- Following the rules reports no unknown names: the policy was checked before. -/
theorem Rule.knowsNames_applyAll (namespaceName : String) (rules : List Rule)
    (interfaces : List InterfaceDecl) :
    KnowsNames (Rule.applyAll namespaceName rules interfaces).2 := by
  induction rules generalizing interfaces with
  | nil => exact .ok 0
  | cons rule rules ih =>
    rw [Rule.applyAll]
    cases rule.apply namespaceName interfaces with
    | missing site => exact .error rfl
    | found changed count =>
      have hrest := ih changed
      dsimp only
      cases hcount : (Rule.applyAll namespaceName rules changed).2 with
      | ok total => exact .ok _
      | error e => exact .error (hrest e hcount)

/-- Injecting a brand reports no unknown names. -/
theorem Brand.knowsNames_inject (b : Brand) (ns : Namespace) : KnowsNames (b.inject ns) := by
  rw [Brand.inject]
  rcases b.injectInPlace_cases ns with ⟨e, -, hrun⟩ | ⟨ty, -, ⟨-, hrun⟩ | ⟨-, -, hrun⟩ |
    ⟨-, -, ns', hrun, -⟩⟩
  all_goals rw [hrun]
  exacts [.error rfl, .error rfl, .error rfl, .ok ns']

/-! ## Policies -/

namespace Policy

/-- Two policies list the same names of every kind, in whatever order and however often, and have
the same rules. -/
structure SameNames (p q : Policy) : Prop where
  enums (name : String) : name ∈ p.enums ↔ name ∈ q.enums
  interfaces (name : String) : name ∈ p.interfaces ↔ name ∈ q.interfaces
  aliases (name : String) : name ∈ p.aliases ↔ name ∈ q.aliases
  rules : p.rules = q.rules

variable {p q : Policy}

/-- The unknown names are those that are listed and not declared under a kind, the interfaces of
rules that are not both listed and declared as interfaces, and the names of rules that are not
declared at all. -/
theorem mem_unknownNames {index : Index} {name : String} :
    name ∈ p.unknownNames index ↔
      (∃ kind, name ∈ p.listed kind ∧ index.has kind name = false) ∨
        ∃ rule ∈ p.rules,
          (name = rule.interface ∧ ¬(p.hoists .interface name ∧ index.has .interface name)) ∨
          (name ∈ rule.names ∧ index.contains name = false) := by
  have hlisted : (∃ kind ∈ [DeclKind.enum, .interface, .typeAlias],
        name ∈ p.listed kind ∧ index.has kind name = false) ↔
      ∃ kind, name ∈ p.listed kind ∧ index.has kind name = false := by
    constructor
    · rintro ⟨kind, -, h⟩
      exact ⟨kind, h⟩
    · rintro ⟨kind, h⟩
      refine ⟨kind, ?_, h⟩
      cases kind <;> simp [listed] at h ⊢
  have hinterface (rule : Rule) :
      name ∈ (if p.hoists .interface rule.interface && index.has .interface rule.interface then []
        else [rule.interface]) ↔
      name = rule.interface ∧ ¬(p.hoists .interface name ∧ index.has .interface name) := by
    rw [← Bool.and_eq_true]
    split
    · next h =>
      refine iff_of_false List.not_mem_nil ?_
      rintro ⟨rfl, hunknown⟩
      exact hunknown h
    · next h =>
      rw [List.mem_singleton]
      constructor
      · rintro rfl
        exact ⟨rfl, h⟩
      · exact And.left
  rw [unknownNames, List.mem_eraseDups, List.mem_append, List.mem_flatMap, List.mem_flatMap]
  simp only [List.mem_append, List.mem_filter, Bool.not_eq_true', hlisted, hinterface]

namespace SameNames

variable (h : p.SameNames q)
include h

/-- Two such policies list the same names of every kind. -/
theorem mem_listed (kind : DeclKind) (name : String) :
    name ∈ p.listed kind ↔ name ∈ q.listed kind := by
  cases kind with
  | enum => exact h.enums name
  | interface => exact h.interfaces name
  | typeAlias => exact h.aliases name
  | cls | function | var | space => exact Iff.rfl

/-- The same declarations move. -/
theorem hoists_eq : p.hoists = q.hoists := by
  funext kind name
  rw [hoists, hoists, Bool.eq_iff_iff, List.contains_iff_mem, List.contains_iff_mem, h.mem_listed]

/-- Two such policies hoist the same names. -/
theorem hoistsName_eq : p.hoistsName = q.hoistsName := by
  funext name
  rw [hoistsName, hoistsName, h.hoists_eq]

/-- The unknown names are the same, in an order that may differ. -/
theorem unknownNames_perm (index : Index) : (p.unknownNames index).Perm (q.unknownNames index) := by
  refine (List.perm_ext_iff_of_nodup (firstAppearances_eraseDups _).nodup
    (firstAppearances_eraseDups _).nodup).2 fun name => ?_
  change name ∈ p.unknownNames index ↔ name ∈ q.unknownNames index
  simp only [mem_unknownNames, h.mem_listed, h.hoists_eq, h.rules]

/-- The check reports the same. -/
theorem validate (index : Index) (namespaceName : String) :
    SameOutcome (p.validate index namespaceName) (q.validate index namespaceName) := by
  have hperm := h.unknownNames_perm index
  have hmoved (rules : List Rule) : p.hoistedNames? rules = q.hoistedNames? rules := by
    induction rules with
    | nil => rfl
    | cons rule rules ih => rw [hoistedNames?, hoistedNames?, h.hoistsName_eq, ih]
  rw [Policy.validate, Policy.validate]
  split
  · next hnone =>
    rw [hnone] at hperm
    rw [List.nil_perm.1 hperm, hmoved, h.rules]
    dsimp only
    split
    · exact .error rfl
    · exact .ok ()
  · next hnone =>
    split
    · next hnone' =>
      rw [hnone'] at hperm
      exact absurd (List.perm_nil.1 hperm) hnone
    · exact .unknownNames namespaceName hperm (firstAppearances_eraseDups _).nodup

/-- The same declarations are separated, with the same modifiers and in the same order. -/
theorem split_eq (index : Index) : Separation.split index p = Separation.split index q := by
  rw [Separation.split, Separation.split, h.hoists_eq]

/-- The same declarations stay. -/
theorem consolidate_eq (index : Index) (name : String) :
    consolidate index p name = consolidate index q name := by
  rw [consolidate, consolidate, h.hoists_eq]

/-- The same references are unresolved. -/
theorem findUnresolved_eq (index : Index) (outer : List Item) :
    findUnresolved index p outer = findUnresolved index q outer := by
  have hunresolved : isUnresolved index p = isUnresolved index q := by
    funext bound reference
    rw [isUnresolved, isUnresolved, h.hoistsName_eq]
  have hitem : Item.unresolved index p = Item.unresolved index q := by
    funext item
    rw [Item.unresolved, Item.unresolved, hunresolved]
  rw [findUnresolved, findUnresolved, hitem]

end SameNames

end Policy

/-! ## Runs -/

namespace Layer

/-- Two policies that list the same names give the same layer. -/
theorem plan_of_sameNames {p q : Policy} (h : p.SameNames q) (settings : Settings)
    (declarations : List Item) :
    SameOutcome (plan { settings with policy := p } declarations)
      (plan { settings with policy := q } declarations) := by
  rw [plan, plan]
  refine (SameOutcome.refl (Index.knowsNames_build _ _)).bind fun index => ?_
  refine (h.validate index _).bind fun _ => ?_
  dsimp only
  rw [h.split_eq, h.consolidate_eq, h.rules]
  refine (SameOutcome.refl (Rule.knowsNames_applyAll _ _ _)).bind fun _ => ?_
  rw [h.findUnresolved_eq]
  refine .refl ?_
  split
  · exact .error rfl
  · exact (Brand.knowsNames_inject _ _).bind fun _ => .ok _

/-- A policy stands for sets of names. Two policies that list the same names of every kind, in
whatever order and however often, and that have the same rules, give the same text and the same
unresolved references, or the same error. Only the unknown names of a policy that does not fit are
reported in the order of its lists, and each of them once. -/
theorem build_of_sameNames {σ : Type} [Store σ] {p q : Policy} (h : p.SameNames q)
    (settings : Settings) (s : σ) :
    SameOutcome (build { settings with policy := p } s)
      (build { settings with policy := q } s) := by
  have hlayer : SameOutcome (ofStore { settings with policy := p } s)
      (ofStore { settings with policy := q } s) := by
    rw [ofStore, ofStore]
    exact (SameOutcome.refl (Store.knowsNames_document _ _)).bind fun declarations =>
      plan_of_sameNames h settings declarations.statements
  rw [build_eq, build_eq]
  refine hlayer.bind fun layer => ?_
  refine (SameOutcome.refl (Store.knowsNames_readFile _ _)).bind fun previous => ?_
  exact .ok _

/-- A store with a namespace that declares two enums. -/
def enumStore : MemoryStore :=
  .ofList [(⟨"lib.d.ts"⟩, "declare namespace ts { enum A {} interface Node {} enum B {} }")]

/-- A policy that lists two enums. -/
def listedPolicy : Policy := { Policy.empty with enums := ["A", "B"] }

/-- A policy that lists the same enums in another order, and one of them twice. -/
def relistedPolicy : Policy := { Policy.empty with enums := ["B", "A", "B"] }

/-- Where the namespace declares the enums both policies give the same text, and where it does not
each names both enums once, in its own order. -/
theorem build_of_sameNames_relisted :
    listedPolicy.SameNames relistedPolicy ∧
      (build { smallSettings with policy := listedPolicy } enumStore).toBool = true ∧
      SameOutcome (build { smallSettings with policy := listedPolicy } enumStore)
        (build { smallSettings with policy := relistedPolicy } enumStore) ∧
      build { smallSettings with policy := listedPolicy } smallStore =
        .error (.unknownNames "ts" ["A", "B"]) ∧
      build { smallSettings with policy := relistedPolicy } smallStore =
        .error (.unknownNames "ts" ["B", "A"]) ∧
      SameOutcome (build { smallSettings with policy := listedPolicy } smallStore)
        (build { smallSettings with policy := relistedPolicy } smallStore) := by
  have hsame : listedPolicy.SameNames relistedPolicy := by
    refine ⟨fun name => ?_, fun _ => Iff.rfl, fun _ => Iff.rfl, rfl⟩
    simpa [listedPolicy, relistedPolicy, or_comm] using Or.inr
  exact ⟨hsame, by decide +kernel, build_of_sameNames hsame smallSettings enumStore,
    by decide +kernel, by decide +kernel, build_of_sameNames hsame smallSettings smallStore⟩

end Layer

end DeclLayer
