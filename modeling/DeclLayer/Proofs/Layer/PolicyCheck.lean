import DeclLayer.Layer.Separation
import DeclLayer.Proofs.Layer.IndexAgreement
import DeclLayer.Proofs.Layer.Qualifying

/-!
# What the check of a policy finds

A policy mentions names in five places: in a list for each of three kinds, as the interfaces of its
rules, and as the names of its rules (`Policy.mentions`). Each mention asks something else of the
index (`Policy.Mention.Fits`). The check collects the names of the mentions that do not fit and
reports each of them once (`Policy.unknownNames_eq`); only if there are none it looks for a rule
that qualifies what the policy moves, and reports the first one (`Policy.hoistedNames?_eq`).
`Policy.validate_exact` puts the outcomes of the check together, with what its success promises to
the later steps.
-/

namespace DeclLayer

namespace Policy

/-- A place of a policy at which it mentions a name. -/
inductive Mention where
  /-- A name in the list of a kind. -/
  | listed (kind : DeclKind) (name : String)
  /-- The interface of a rule. -/
  | ruled (name : String)
  /-- A name that a rule qualifies. -/
  | qualified (name : String)

namespace Mention

/-- The name that is mentioned. -/
def name : Mention → String
  | .listed _ name => name
  | .ruled name => name
  | .qualified name => name

/-- The index has what a mention asks for: a declaration of the kind of the list, an interface that
the policy lists as well, or a declaration of any kind. -/
def Fits (p : Policy) (index : Index) : Mention → Prop
  | .listed kind name => index.Declares kind name
  | .ruled name => name ∈ p.interfaces ∧ index.Declares .interface name
  | .qualified name => ∃ kind ∈ DeclKind.all, index.Declares kind name

instance (p : Policy) (index : Index) : (m : Mention) → Decidable (m.Fits p index)
  | .listed kind name => inferInstanceAs (Decidable (index.Declares kind name))
  | .ruled name => inferInstanceAs (Decidable (name ∈ p.interfaces ∧ _))
  | .qualified _ => inferInstanceAs (Decidable (∃ kind ∈ DeclKind.all, _))

end Mention

/-- What a policy mentions, in order: its enums, its interfaces, its aliases, and for rule after
rule the interface and the names. -/
def mentions (p : Policy) : List Mention :=
  p.enums.map (.listed .enum) ++ p.interfaces.map (.listed .interface) ++
    p.aliases.map (.listed .typeAlias) ++
    p.rules.flatMap fun rule => .ruled rule.interface :: rule.names.map .qualified

/-- The names of the mentions that do not fit, in order and as often as they are mentioned. -/
def misfits (p : Policy) (index : Index) : List String :=
  (p.mentions.filter fun m => ¬ m.Fits p index).map Mention.name

/-! ## Unknown names -/

/-- Of names that are mentioned alike, those that do not fit. -/
theorem misfits_map {p : Policy} {index : Index} {mention : String → Mention}
    {unknown : String → Bool} (hname : ∀ n, (mention n).name = n)
    (hunknown : ∀ n, unknown n = true ↔ ¬ (mention n).Fits p index) (names : List String) :
    ((names.map mention).filter fun m => ¬ m.Fits p index).map Mention.name =
      names.filter unknown := by
  have hid : Mention.name ∘ mention = id := funext hname
  rw [List.filter_map, List.map_map, hid, List.map_id]
  refine List.filter_congr fun n _ => ?_
  rw [Bool.eq_iff_iff, hunknown, Function.comp_apply, decide_eq_true_iff]

section

variable {p : Policy} {index : Index} {declared : List Item} (h : index.Agrees declared)
include h

/-- The names of the list of a kind that do not fit. -/
theorem misfits_listed (kind : DeclKind) (names : List String) :
    ((names.map (Mention.listed kind)).filter fun m => ¬ m.Fits p index).map Mention.name =
      names.filter fun name => !index.has kind name :=
  misfits_map (fun _ => rfl) (fun n => by
    rw [Bool.not_eq_true', ← Bool.not_eq_true, h.has_iff]; rfl) names

/-- The names of a rule that do not fit. -/
theorem misfits_rule (rule : Rule) :
    ((Mention.ruled rule.interface :: rule.names.map Mention.qualified).filter fun m =>
        ¬ m.Fits p index).map Mention.name =
      (if p.hoists .interface rule.interface && index.has .interface rule.interface then []
        else [rule.interface]) ++ rule.names.filter fun name => !index.contains name := by
  have hnames : ((rule.names.map Mention.qualified).filter fun m => ¬ m.Fits p index).map
      Mention.name = rule.names.filter fun name => !index.contains name :=
    misfits_map (fun _ => rfl) (fun n => by
      rw [Bool.not_eq_true', ← Bool.not_eq_true, h.contains_iff, Mention.Fits]
      simp only [h.has_iff, DeclKind.mem_all, true_and]) rule.names
  have hruled : (p.hoists .interface rule.interface && index.has .interface rule.interface) =
      decide ((Mention.ruled rule.interface).Fits p index) := by
    rw [Bool.eq_iff_iff, Bool.and_eq_true, h.has_iff, hoists, List.contains_iff_mem,
      decide_eq_true_iff]
    rfl
  rw [List.filter_cons, hruled, ← hnames]
  by_cases hfits : (Mention.ruled rule.interface).Fits p index
  · simp [hfits]
  · simp [hfits, Mention.name]

/-- The check reports the names of the mentions that do not fit. -/
theorem unknownNames_eq : p.unknownNames index = (p.misfits index).eraseDups := by
  rw [unknownNames, misfits, mentions]
  simp only [List.filter_append, List.map_append, misfits_listed h, List.filter_flatMap,
    List.map_flatMap, misfits_rule h, List.flatMap_cons, List.flatMap_nil, List.append_nil,
    List.append_assoc]
  rfl

/-- No name is unknown if everything the policy mentions fits the namespace. -/
theorem unknownNames_eq_nil : p.unknownNames index = [] ↔ ∀ m ∈ p.mentions, m.Fits p index := by
  have hnil : (p.misfits index).eraseDups = [] ↔ p.misfits index = [] := by
    cases p.misfits index <;> simp [List.eraseDups_cons]
  rw [unknownNames_eq h, hnil, misfits, List.map_eq_nil_iff, List.filter_eq_nil_iff]
  simp only [decide_eq_true_eq, not_not]

end

/-! ## Names that move -/

/-- The check of the rules finds the first one with a name that the policy moves. -/
theorem hoistedNames?_eq (p : Policy) (rules : List Rule) :
    p.hoistedNames? rules = (rules.find? fun rule => rule.names.any p.hoistsName).map fun rule =>
      (rule.interface, rule.names.filter p.hoistsName) := by
  induction rules with
  | nil => rfl
  | cons rule rules ih =>
    rw [hoistedNames?, List.find?_cons]
    cases hnames : rule.names.any p.hoistsName with
    | false =>
      have hnone : rule.names.filter p.hoistsName = [] := by
        simpa [List.filter_eq_nil_iff] using hnames
      rw [hnone]
      exact ih
    | true =>
      split
      · next hnone =>
        have hnot : rule.names.any p.hoistsName = false := by
          simpa [List.filter_eq_nil_iff] using hnone
        rw [hnames] at hnot
        cases hnot
      · rfl

/-- No rule is at fault if none of them lists a hoisted name. -/
theorem hoistedNames?_eq_none {p : Policy} {rules : List Rule} :
    p.hoistedNames? rules = none ↔
      ∀ rule ∈ rules, ∀ n ∈ rule.names, p.hoistsName n = false := by
  simp [hoistedNames?_eq]

/-- The rule at fault is the first one that lists a hoisted name, and all its hoisted names are
reported. -/
theorem hoistedNames?_eq_some {p : Policy} {rules : List Rule} {interface : String}
    {names : List String} :
    p.hoistedNames? rules = some (interface, names) ↔
      ∃ before rule after, rules = before ++ rule :: after ∧
        (∀ other ∈ before, ∀ n ∈ other.names, p.hoistsName n = false) ∧
        interface = rule.interface ∧ names = rule.names.filter p.hoistsName ∧ names ≠ [] := by
  simp only [hoistedNames?_eq, Option.map_eq_some_iff, List.find?_eq_some_iff_append,
    Prod.mk.injEq]
  constructor
  · rintro ⟨rule, ⟨hany, before, after, rfl, hbefore⟩, rfl, rfl⟩
    refine ⟨before, rule, after, rfl, fun other hother => ?_, rfl, rfl, ?_⟩
    · simpa using hbefore other hother
    · simpa [List.filter_eq_nil_iff] using hany
  · rintro ⟨before, rule, after, rfl, hbefore, rfl, rfl, hnames⟩
    refine ⟨rule, ⟨?_, before, after, rfl, fun other hother => ?_⟩, rfl, rfl⟩
    · simpa [List.filter_eq_nil_iff] using hnames
    · simpa using hbefore other hother

/-! ## The check -/

section

variable {p : Policy} {index : Index} {namespaceName : String}

/-- Validation reports unknown names exactly if there are some. -/
theorem validate_eq_unknownNames {names : List String} :
    p.validate index namespaceName = .error (.unknownNames namespaceName names) ↔
      p.unknownNames index = names ∧ names ≠ [] := by
  rw [validate]
  cases p.unknownNames index with
  | nil => cases p.hoistedNames? p.rules <;> simp [eq_comm]
  | cons name rest =>
    simp only [Except.error.injEq, LayerError.unknownNames.injEq, true_and]
    exact ⟨fun h => ⟨h, h ▸ List.cons_ne_nil _ _⟩, And.left⟩

/-- Validation reports hoisted names exactly if all names are known and a rule is at fault. -/
theorem validate_eq_hoistedNames {interface : String} {names : List String} :
    p.validate index namespaceName = .error (.hoistedNames interface names) ↔
      p.unknownNames index = [] ∧ p.hoistedNames? p.rules = some (interface, names) := by
  rw [validate]
  cases p.unknownNames index with
  | nil => cases p.hoistedNames? p.rules <;> simp [Prod.ext_iff]
  | cons name rest => simp

/-- Validation succeeds exactly if all names are known and no rule is at fault. -/
theorem validate_eq_ok : p.validate index namespaceName = .ok () ↔
    p.unknownNames index = [] ∧ p.hoistedNames? p.rules = none := by
  rw [validate]
  cases p.unknownNames index with
  | nil => cases p.hoistedNames? p.rules <;> simp
  | cons name rest => simp

end

/-- The interface of a rule of a policy that fits is among the separated interfaces. -/
theorem exists_split_interface {p : Policy} {index : Index} {rule : Rule}
    (hfits : ∀ m ∈ p.mentions, m.Fits p index) (hrule : rule ∈ p.rules) :
    ∃ d ∈ (Separation.split index p).interfaces, d.name = rule.interface := by
  have hmention : .ruled rule.interface ∈ p.mentions :=
    List.mem_append_right _ (List.mem_flatMap.2 ⟨rule, hrule, List.mem_cons_self⟩)
  obtain ⟨hlisted, item, hitem, hname⟩ := hfits _ hmention
  obtain ⟨d, hd, rfl⟩ := List.mem_map.1 hitem
  have hname : d.name = rule.interface := Option.some.inj hname
  have hhoists : p.hoists .interface d.name = true := by
    rw [hname]
    exact List.contains_iff_mem.2 hlisted
  exact ⟨_, List.mem_map.2 ⟨d, List.mem_filter.2 ⟨hd, hhoists⟩, rfl⟩, hname⟩

/-- The check of a policy against the index of a namespace is exact. It reports unknown names if and
only if some mention does not fit, and then these names, each once and in the order of their first
appearance. Otherwise it reports the first rule that qualifies what the policy moves, with all such
names, if and only if there is one, and succeeds if there is none. After that each rule finds its
interface among the separated ones, and following the rules can only end at a rule whose site is
missing. -/
theorem validate_exact {name : String} {statements : List Item} {index : Index}
    (hindex : Index.build name statements = .ok index) (p : Policy) (namespaceName : String) :
    ((∃ names, p.validate index namespaceName = .error (.unknownNames namespaceName names)) ↔
      ∃ m ∈ p.mentions, ¬ m.Fits p index) ∧
    (∀ names, p.validate index namespaceName = .error (.unknownNames namespaceName names) →
      FirstAppearances (p.misfits index) names) ∧
    (∀ interface names,
      p.validate index namespaceName = .error (.hoistedNames interface names) ↔
        (∀ m ∈ p.mentions, m.Fits p index) ∧
        ∃ before rule after, p.rules = before ++ rule :: after ∧
          (∀ other ∈ before, ∀ n ∈ other.names, p.hoistsName n = false) ∧
          interface = rule.interface ∧ names = rule.names.filter p.hoistsName ∧ names ≠ []) ∧
    (p.validate index namespaceName = .ok () ↔
      (∀ m ∈ p.mentions, m.Fits p index) ∧
      ∀ rule ∈ p.rules, ∀ n ∈ rule.names, p.hoistsName n = false) ∧
    (p.validate index namespaceName = .ok () →
      let interfaces := (Separation.split index p).interfaces
      (∀ rule ∈ p.rules, ∃ d ∈ interfaces, d.name = rule.interface) ∧
      ∀ result e, Rule.applyAll namespaceName p.rules interfaces = (result, .error e) →
        ∃ before rule after, p.rules = before ++ rule :: after ∧
          (∀ other ∈ before, other.HasSite interfaces) ∧ ¬rule.HasSite interfaces ∧
          e = .missingSite rule.interface rule.site) := by
  have hagrees : index.Agrees (declaredIn name statements) := by
    obtain ⟨-, rfl⟩ := Index.build_ok.1 hindex
    exact Index.agrees_ofItems _
  have hknown : p.unknownNames index = [] ↔ ∀ m ∈ p.mentions, m.Fits p index :=
    unknownNames_eq_nil hagrees
  have hok : p.validate index namespaceName = .ok () ↔ (∀ m ∈ p.mentions, m.Fits p index) ∧
      ∀ rule ∈ p.rules, ∀ n ∈ rule.names, p.hoistsName n = false := by
    rw [validate_eq_ok, hknown, hoistedNames?_eq_none]
  refine ⟨?_, fun names h => ?_, fun interface names => ?_, hok,
    fun h => ⟨fun rule hrule => ?_, ?_⟩⟩
  · simp only [validate_eq_unknownNames, exists_eq_left', ne_eq, hknown, not_forall, exists_prop]
  · obtain ⟨rfl, -⟩ := validate_eq_unknownNames.1 h
    exact unknownNames_eq hagrees ▸ firstAppearances_eraseDups _
  · rw [validate_eq_hoistedNames, hknown, hoistedNames?_eq_some]
  · exact exists_split_interface (hok.1 h).1 hrule
  · exact fun result e he => Rule.missingSite_of_applyAll (congrArg Prod.snd he)

/-- A file with a namespace that declares an enum, an interface and an alias. -/
def ruledSource : String :=
  "declare namespace ts { enum Color {} interface A { [k: string]: Value; } type Value = string; }"

/-- A policy with names that the file does not declare, or not as what the policy lists them. -/
def misfitPolicy : Policy where
  enums := ["Color", "Shape"]
  interfaces := ["Shape", "Color"]
  aliases := ["Alias"]
  rules := [⟨"A", ["Value", "Other", "Alias"], .indexSignature 0⟩]

/-- A policy for the file with rules that qualify names that move. -/
def movingPolicy : Policy where
  enums := ["Color"]
  interfaces := ["A"]
  aliases := []
  rules := [⟨"A", ["Value"], .indexSignature 0⟩, ⟨"A", ["Color", "Value", "A"], .indexSignature 0⟩,
    ⟨"A", ["A"], .indexSignature 0⟩]

/-- A policy that fits the file, with a rule about a second index signature. -/
def fittingPolicy : Policy where
  enums := ["Color"]
  interfaces := ["A"]
  aliases := []
  rules := [⟨"A", ["Value"], .indexSignature 0⟩, ⟨"A", ["Value"], .indexSignature 1⟩]

/-- A name that fits in one list and not in another is reported at its place in the other one; of
the rules with names that move the first one is reported; and of two rules that fit the second one
fails, for want of its site. -/
theorem validate_exact_ruled :
    ∃ statements index, parseItems ruledSource = .ok statements ∧
      Index.build "ts" statements = .ok index ∧
      misfitPolicy.validate index "ts" =
        .error (.unknownNames "ts" ["Shape", "Color", "Alias", "A", "Other"]) ∧
      FirstAppearances (misfitPolicy.misfits index) ["Shape", "Color", "Alias", "A", "Other"] ∧
      movingPolicy.validate index "ts" = .error (.hoistedNames "A" ["Color", "A"]) ∧
      (∀ m ∈ movingPolicy.mentions, m.Fits movingPolicy index) ∧
      fittingPolicy.validate index "ts" = .ok () ∧
      (∀ rule ∈ fittingPolicy.rules,
        ∃ d ∈ (Separation.split index fittingPolicy).interfaces, d.name = rule.interface) ∧
      (Rule.applyAll "ts" fittingPolicy.rules
        (Separation.split index fittingPolicy).interfaces).2 =
          .error (.missingSite "A" (.indexSignature 1)) ∧
      ∃ rule ∈ fittingPolicy.rules,
        ¬rule.HasSite (Separation.split index fittingPolicy).interfaces := by
  obtain ⟨statements, index, hparse, hindex, hmisfit, hmoving, hfitting, hrun⟩ :
      ∃ statements index, parseItems ruledSource = .ok statements ∧
        Index.build "ts" statements = .ok index ∧
        misfitPolicy.validate index "ts" =
          .error (.unknownNames "ts" ["Shape", "Color", "Alias", "A", "Other"]) ∧
        movingPolicy.validate index "ts" = .error (.hoistedNames "A" ["Color", "A"]) ∧
        fittingPolicy.validate index "ts" = .ok () ∧
        (Rule.applyAll "ts" fittingPolicy.rules
          (Separation.split index fittingPolicy).interfaces).2 =
            .error (.missingSite "A" (.indexSignature 1)) :=
    exists_index_of_source (by decide +kernel)
  obtain ⟨-, hreported, -, -, -⟩ := validate_exact hindex misfitPolicy "ts"
  obtain ⟨-, -, hmoved, -, -⟩ := validate_exact hindex movingPolicy "ts"
  obtain ⟨-, -, -, -, hfollowed⟩ := validate_exact hindex fittingPolicy "ts"
  obtain ⟨hinterfaces, hmissing⟩ := hfollowed hfitting
  obtain ⟨before, rule, after, hrules, -, hsite, -⟩ := hmissing _ _ (Prod.ext rfl hrun)
  have hrule : rule ∈ fittingPolicy.rules := hrules ▸ List.mem_append_right _ List.mem_cons_self
  exact ⟨statements, index, hparse, hindex, hmisfit, hreported _ hmisfit, hmoving,
    ((hmoved _ _).1 hmoving).1, hfitting, hinterfaces, hrun, rule, hrule, hsite⟩

end Policy

end DeclLayer
