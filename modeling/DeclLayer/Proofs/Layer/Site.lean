import DeclLayer.Layer.Qualification

/-!
# Sites of merged interfaces

The interfaces of one name are searched together, member by member. What a search looks at is the
key of a member (`SiteKey`), and which site a member is depends on the keys of its interface name
that stand before it (`SiteKey.site?`): index signatures are counted, and of the properties of a
name the first one counts. `Member.sited` gives every member of an interface the site that it is.

The names at a site are those of the type there, or of the members of that type if it is a union
(`Ty.siteNames`). Changing them (`InterfaceDecl.renameSites`) keeps all keys, so no site moves, and
two changes are one change by the composed functions (`InterfaceDecl.renameSites_comp`).

A search for a site changes the names there and nothing else, or finds that there is no such site
(`InterfaceDecl.inList_atSite`).
-/

namespace DeclLayer

/-! ## Keys of members -/

/-- What a search for a site looks at. -/
inductive SiteKey where
  | index
  | property (name : String)
  deriving DecidableEq

/-- What a search for a site sees of a member, if it does not pass over it. -/
def Member.key? : Member Ty → Option SiteKey
  | .index _ => some .index
  | .property p => some (.property p.name)
  | _ => none

/-- The site that a member is, by its key and by the keys before it. -/
def SiteKey.site? (before : List SiteKey) : SiteKey → Option Site
  | .index => some (.indexSignature (before.count .index))
  | .property name => if .property name ∈ before then none else some (.property name)

/-- There is such a site among the members with the given keys. -/
def Site.In (keys : List SiteKey) : Site → Prop
  | .indexSignature n => n < keys.count .index
  | .property name => .property name ∈ keys

instance (keys : List SiteKey) : (site : Site) → Decidable (site.In keys)
  | .indexSignature n => inferInstanceAs (Decidable (n < keys.count .index))
  | .property name => inferInstanceAs (Decidable (SiteKey.property name ∈ keys))

/-- The site that is left to find behind the members with the given keys. -/
def Site.behind (keys : List SiteKey) : Site → Site
  | .indexSignature n => .indexSignature (n - keys.count .index)
  | .property name => .property name

/-- Members, each with the site that it is, behind the members with the given keys. -/
def Member.sited (before : List SiteKey) : List (Member Ty) → List (Option Site × Member Ty)
  | [] => []
  | m :: ms => (m.key?.bind (SiteKey.site? before), m) :: Member.sited (before ++ m.key?.toList) ms

/-! ## Names at a site -/

/-- The name of a type that is a reference. -/
def Ty.name? : Ty → Option String
  | .named name _ => some name
  | _ => none

/-- The names at a site: that of the type there, or those of the members of a union. -/
def Ty.siteNames : Ty → List String
  | .union types => types.filterMap Ty.name?
  | ty => ty.name?.toList

/-- A reference with its name changed; any other type as it is. -/
def Ty.rename (f : String → String) : Ty → Ty
  | .named name args => .named (f name) args
  | ty => ty

/-- A type with the names at its site changed. -/
def Ty.renameSite (f : String → String) : Ty → Ty
  | .union types => .union (types.map (Ty.rename f))
  | ty => ty.rename f

/-- The type of a member at which names can be changed. -/
def Member.siteType? : Member Ty → Option Ty
  | .property p => some p.type
  | .index i => some i.value
  | _ => none

/-- A member with the names at its site changed. -/
def Member.rename (f : String → String) : Member Ty → Member Ty
  | .property p => .property { p with type := p.type.renameSite f }
  | .index i => .index { i with value := i.value.renameSite f }
  | m => m

namespace Ty

@[simp] theorem name?_rename (f : String → String) (ty : Ty) :
    (ty.rename f).name? = ty.name?.map f := by
  cases ty <;> rfl

@[simp] theorem siteNames_renameSite (f : String → String) (ty : Ty) :
    (ty.renameSite f).siteNames = ty.siteNames.map f := by
  cases ty with
  | union types =>
    show (types.map (Ty.rename f)).filterMap name? = (types.filterMap name?).map f
    rw [List.filterMap_map, List.map_filterMap]
    exact congrArg types.filterMap (funext (name?_rename f))
  | _ => rfl

/-- Two changes of the name of a reference are one by the composed functions. -/
theorem rename_rename (f g : String → String) (ty : Ty) :
    (ty.rename f).rename g = ty.rename (g ∘ f) := by
  cases ty <;> rfl

/-- Two changes of the names at a site are one by the composed functions. -/
theorem renameSite_renameSite (f g : String → String) (ty : Ty) :
    (ty.renameSite f).renameSite g = ty.renameSite (g ∘ f) := by
  cases ty with
  | union types => simp [renameSite, rename_rename]
  | _ => rfl

@[simp] theorem rename_id (ty : Ty) : ty.rename id = ty := by
  cases ty <;> rfl

@[simp] theorem renameSite_id (ty : Ty) : ty.renameSite id = ty := by
  have hid : rename id = id := funext rename_id
  cases ty with
  | union types => simp [renameSite, hid]
  | _ => rfl

end Ty

namespace Member

@[simp] theorem key?_rename (f : String → String) (m : Member Ty) : (m.rename f).key? = m.key? := by
  cases m <;> rfl

/-- Two changes of the names at the site that a member is are one by the composed functions. -/
theorem rename_rename (f g : String → String) (m : Member Ty) :
    (m.rename f).rename g = m.rename (g ∘ f) := by
  cases m <;> simp [rename, Ty.renameSite_renameSite]

@[simp] theorem rename_id (m : Member Ty) : m.rename id = m := by
  cases m <;> simp [rename]

@[simp] theorem siteType?_rename (f : String → String) (m : Member Ty) :
    (m.rename f).siteType? = m.siteType?.map (Ty.renameSite f) := by
  cases m <;> rfl

/-- The keys of some members. -/
def keys (ms : List (Member Ty)) : List SiteKey :=
  ms.filterMap key?

/-- Members with the names at each of their sites changed. -/
def renameSites (f : Site → String → String) (before : List SiteKey) (ms : List (Member Ty)) :
    List (Member Ty) :=
  (sited before ms).map fun (site, m) => m.rename (site.elim id f)

/-- The names at the sites of members, each with its site. -/
def siteNames (before : List SiteKey) (ms : List (Member Ty)) : List (Site × String) :=
  (sited before ms).flatMap fun (site, m) =>
    site.toList.flatMap fun site =>
      m.siteType?.toList.flatMap fun ty => ty.siteNames.map fun name => (site, name)

section

variable {f g : Site → String → String} {before : List SiteKey} {m : Member Ty}
  {ms : List (Member Ty)}

@[simp] theorem renameSites_nil : renameSites f before [] = [] := rfl

/-- The first of some members is changed at the site that it is, and the others behind its key. -/
theorem renameSites_cons : renameSites f before (m :: ms) =
    m.rename ((m.key?.bind (SiteKey.site? before)).elim id f) ::
      renameSites f (before ++ m.key?.toList) ms := rfl

@[simp] theorem siteNames_nil : siteNames before [] = [] := rfl

/-- The names at the sites of some members are those of the first and those of the others behind its
key. -/
theorem siteNames_cons : siteNames before (m :: ms) =
    ((m.key?.bind (SiteKey.site? before)).toList.flatMap fun site =>
      m.siteType?.toList.flatMap fun ty => ty.siteNames.map fun name => (site, name)) ++
      siteNames (before ++ m.key?.toList) ms := rfl

@[simp] theorem keys_cons : keys (m :: ms) = m.key?.toList ++ keys ms := by
  rw [keys, keys, List.filterMap_cons]
  cases m.key? <;> rfl

@[simp] theorem keys_renameSites : keys (renameSites f before ms) = keys ms := by
  induction ms generalizing before with
  | nil => rfl
  | cons m ms ih => rw [renameSites_cons, keys_cons, keys_cons, key?_rename, ih]

@[simp] theorem renameSites_id : renameSites (fun _ => id) before ms = ms := by
  induction ms generalizing before with
  | nil => rfl
  | cons m ms ih =>
    rw [renameSites_cons, ih]
    cases m.key?.bind (SiteKey.site? before) <;> simp

/-- Two changes of the names at all sites are one by the composed functions, since a change keeps
the keys. -/
theorem renameSites_comp :
    renameSites f before (renameSites g before ms) =
      renameSites (fun site => f site ∘ g site) before ms := by
  induction ms generalizing before with
  | nil => rfl
  | cons m ms ih =>
    rw [renameSites_cons, renameSites_cons, renameSites_cons, key?_rename, ih, rename_rename]
    cases m.key?.bind (SiteKey.site? before) <;> rfl

/-- The names after a change are the names before it, changed site by site. -/
theorem siteNames_renameSites : siteNames before (renameSites f before ms) =
    (siteNames before ms).map fun (site, name) => (site, f site name) := by
  induction ms generalizing before with
  | nil => rfl
  | cons m ms ih =>
    rw [renameSites_cons, siteNames_cons, siteNames_cons, key?_rename, ih, List.map_append,
      siteType?_rename]
    congr 1
    cases m.key?.bind (SiteKey.site? before) with
    | none => rfl
    | some site =>
      cases m.siteType? with
      | none => rfl
      | some ty => simp

end

end Member

/-! ## Where a site is -/

namespace Site

variable {site : Site} {before keys : List SiteKey} {key : SiteKey}

/-- A site stays one if more members stand behind. -/
theorem In.append (h : site.In before) (keys : List SiteKey) : site.In (before ++ keys) := by
  cases site with
  | indexSignature n =>
    have h : n < before.count .index := h
    show n < (before ++ keys).count .index
    rw [List.count_append]
    omega
  | property name => exact List.mem_append_left _ h

/-- Without members there is no site. -/
theorem not_in_nil : ¬site.In [] := by
  cases site with
  | indexSignature n => exact Nat.not_lt_zero n
  | property name => exact List.not_mem_nil

/-- A property is no index signature. -/
theorem site?_property_ne {name : String} {n : Nat} :
    SiteKey.site? before (.property name) ≠ some (.indexSignature n) := by
  rw [SiteKey.site?]
  split <;> exact nofun

/-- A site is found once. -/
theorem In.site?_ne (h : site.In before) : key.site? before ≠ some site := by
  cases key with
  | index =>
    rintro ⟨rfl⟩
    exact absurd h (Nat.lt_irrefl _)
  | property name =>
    rw [SiteKey.site?]
    split
    · exact nofun
    · next hname =>
      rintro ⟨rfl⟩
      exact hname h

/-- With one key more, a site is there if it was there before, or is the site with this key. -/
theorem in_concat : site.In (before ++ [key]) ↔ site.In before ∨ key.site? before = some site := by
  cases site with
  | indexSignature n =>
    show n < (before ++ [key]).count .index ↔ n < before.count .index ∨ _
    cases key with
    | index =>
      simp only [List.count_append, List.count_singleton_self, SiteKey.site?, Option.some.injEq,
        indexSignature.injEq]
      omega
    | property name =>
      simp [site?_property_ne]
  | property name =>
    show SiteKey.property name ∈ before ++ [key] ↔ SiteKey.property name ∈ before ∨ _
    cases key with
    | index => simp [SiteKey.site?]
    | property other =>
      rw [List.mem_append, List.mem_singleton, SiteKey.site?]
      by_cases hname : other = name
      · subst hname
        by_cases hbefore : SiteKey.property other ∈ before <;> simp [hbefore]
      · have : SiteKey.property name ≠ .property other := fun h =>
          hname (SiteKey.property.inj h).symm
        by_cases hbefore : SiteKey.property other ∈ before <;> simp [hbefore, hname, this]

end Site

/-- A search behind something that is passed. -/
theorem SiteSearch.map_ite {α β : Type} {p : Prop} [Decidable p] {g : α → β} {value : α}
    {count : Nat} {site : Site} :
    (if p then SiteSearch.found value count else .missing site).map g =
      if p then .found (g value) count else .missing site := by
  split <;> rfl

namespace Member

section

variable {change : Ty → Ty × Nat} {rename : String → String} {hit : String → Bool} {site : Site}
  {before : List SiteKey} {m : Member Ty} {ms : List (Member Ty)}

/-- A site that exists behind one more member existed before it or is that member. -/
theorem in_append_key : site.In (before ++ m.key?.toList) ↔
    site.In before ∨ m.key?.bind (SiteKey.site? before) = some site := by
  cases m.key? with
  | none => simp
  | some key => exact Site.in_concat

/-- With some members more, a site is there if it was there before, or some member is the site. -/
theorem in_append_keys : site.In (before ++ keys ms) ↔
    site.In before ∨ ∃ x ∈ sited before ms, x.1 = some site := by
  induction ms generalizing before with
  | nil => simp [sited, keys]
  | cons m ms ih =>
    rw [keys_cons, ← List.append_assoc, ih, in_append_key, or_assoc]
    simp [sited]

/-- A member that comes after a site was found is not that site. -/
theorem site?_ne_of_in (h : site.In before) : m.key?.bind (SiteKey.site? before) ≠ some site := by
  cases m.key? with
  | none => exact nofun
  | some key => exact h.site?_ne

/-- A change at one site changes no other member. -/
theorem rename_of_ne (h : m.key?.bind (SiteKey.site? before) ≠ some site) :
    m.rename ((m.key?.bind (SiteKey.site? before)).elim id
      fun s => if s = site then rename else id) = m := by
  cases hm : m.key?.bind (SiteKey.site? before) with
  | none => exact rename_id m
  | some s =>
    have hs : s ≠ site := fun hs => h (hs ▸ hm)
    simp [hs]

/-- No member is the site. -/
def Lacks (site : Site) (before : List SiteKey) (ms : List (Member Ty)) : Prop :=
  ∀ x ∈ sited before ms, x.1 ≠ some site

/-- Members lack a site if the first one is not that site and the others lack it behind the first
one's key. -/
theorem lacks_cons : Lacks site before (m :: ms) ↔
    m.key?.bind (SiteKey.site? before) ≠ some site ∧ Lacks site (before ++ m.key?.toList) ms :=
  List.forall_mem_cons

/-- A site that was passed is not found again. -/
theorem lacks_of_in (h : site.In before) : Lacks site before ms := by
  induction ms generalizing before with
  | nil => exact nofun
  | cons m ms ih => exact lacks_cons.2 ⟨site?_ne_of_in h, ih (h.append _)⟩

/-- Members lack a site that none of the keys lead to. -/
theorem lacks_of_not_in (h : ¬site.In (before ++ keys ms)) : Lacks site before ms :=
  fun x hx hsite => h (in_append_keys.2 (.inr ⟨x, hx, hsite⟩))

/-- Where no member is the site, a change there is no change. -/
theorem Lacks.renameSites_eq (h : Lacks site before ms) :
    renameSites (fun s => if s = site then rename else id) before ms = ms := by
  induction ms generalizing before with
  | nil => rfl
  | cons m ms ih =>
    obtain ⟨hm, hms⟩ := lacks_cons.1 h
    rw [renameSites_cons, ih hms, rename_of_ne hm]

/-- The names that are hit at a site are those of the member that is the site, and those behind
it. -/
theorem countP_siteNames_cons :
    (siteNames before (m :: ms)).countP (fun (s, name) => s = site && hit name) =
      (if m.key?.bind (SiteKey.site? before) = some site then
        (m.siteType?.toList.flatMap Ty.siteNames).countP hit else 0) +
      (siteNames (before ++ m.key?.toList) ms).countP (fun (s, name) => s = site && hit name) := by
  rw [siteNames_cons, List.countP_append]
  congr 1
  cases m.key?.bind (SiteKey.site? before) with
  | none => rfl
  | some s =>
    by_cases hs : s = site
    · cases m.siteType? <;> simp [hs, List.countP_map, Function.comp_def]
    · cases m.siteType? <;> simp [hs, List.countP_map, Function.comp_def]

/-- Where no member is the site, there are no names. -/
theorem Lacks.countP_siteNames (h : Lacks site before ms) :
    (siteNames before ms).countP (fun (s, name) => s = site && hit name) = 0 := by
  induction ms generalizing before with
  | nil => rfl
  | cons m ms ih =>
    obtain ⟨hm, hms⟩ := lacks_cons.1 h
    rw [countP_siteNames_cons, ih hms, if_neg hm]

/-- A search looks at a member as its key says. -/
theorem atSite_eq (hchange : ∀ ty, change ty = (ty.renameSite rename, ty.siteNames.countP hit))
    (h : ¬site.In before) :
    atSite change (site.behind before) m =
      if m.key?.bind (SiteKey.site? before) = some site then
        .found (m.rename rename) ((m.siteType?.toList.flatMap Ty.siteNames).countP hit)
      else .missing (site.behind (before ++ m.key?.toList)) := by
  cases m with
  | index i =>
    cases site with
    | property name => rfl
    | indexSignature n =>
      have hn : before.count .index ≤ n := Nat.le_of_not_lt h
      obtain ⟨k, rfl⟩ := Nat.exists_eq_add_of_le hn
      cases k with
      | zero => simp [atSite, Site.behind, key?, SiteKey.site?, hchange, Member.rename, siteType?]
      | succ k =>
        have hbehind : before.count .index + (k + 1) - (before.count .index + 1) = k := by omega
        simp [atSite, Site.behind, key?, SiteKey.site?, hbehind]
  | property p =>
    cases site with
    | indexSignature n =>
      simp [atSite, Site.behind, key?, Site.site?_property_ne]
    | property name =>
      have h : SiteKey.property name ∉ before := h
      by_cases hname : name = p.name
      · subst hname
        simp [atSite, Site.behind, key?, SiteKey.site?, h, hchange, Member.rename, siteType?]
      · have hne : SiteKey.site? before (.property p.name) ≠ some (.property name) := by
          rw [SiteKey.site?]
          split <;> rintro ⟨⟩
          exact hname rfl
        simp [atSite, Site.behind, key?, hne, hname]
  | _ => simp [atSite, key?]

/-- A search of members changes the names at the site, if it is there. -/
theorem inList_atSite (hchange : ∀ ty, change ty = (ty.renameSite rename, ty.siteNames.countP hit))
    (h : ¬site.In before) :
    SiteSearch.inList (atSite change) (site.behind before) ms =
      if site.In (before ++ keys ms) then
        .found (renameSites (fun s => if s = site then rename else id) before ms)
          ((siteNames before ms).countP fun (s, name) => s = site && hit name)
      else .missing (site.behind (before ++ keys ms)) := by
  induction ms generalizing before with
  | nil =>
    rw [keys, List.filterMap_nil, List.append_nil, if_neg h]
    rfl
  | cons m ms ih =>
    rw [SiteSearch.inList, atSite_eq hchange h, renameSites_cons, countP_siteNames_cons, keys_cons,
      ← List.append_assoc]
    by_cases hhere : m.key?.bind (SiteKey.site? before) = some site
    · have hin : site.In (before ++ m.key?.toList) := in_append_key.2 (.inr hhere)
      rw [if_pos hhere, if_pos hhere, if_pos (hin.append _), (lacks_of_in hin).renameSites_eq,
        (lacks_of_in hin).countP_siteNames, hhere]
      simp
    · have hin : ¬site.In (before ++ m.key?.toList) := fun hin =>
        (in_append_key.1 hin).elim h hhere
      rw [if_neg hhere, if_neg hhere]
      simp only [ih hin]
      rw [rename_of_ne hhere, Nat.zero_add]
      exact SiteSearch.map_ite

end

end Member

/-! ## Interfaces -/

namespace InterfaceDecl

/-- The members of the interfaces of a name. -/
def membersOf (name : String) (interfaces : List InterfaceDecl) : List (Member Ty) :=
  (interfaces.filter fun d => d.name = name).flatMap members

/-- The keys of the members of the interfaces of a name. -/
def keysOf (name : String) (interfaces : List InterfaceDecl) : List SiteKey :=
  Member.keys (membersOf name interfaces)

/-- Interfaces, each with the keys of its name that stand before it, where `before` are those that
stand before all of them. -/
def sited (before : String → List SiteKey) :
    List InterfaceDecl → List (List SiteKey × InterfaceDecl)
  | [] => []
  | d :: ds => (before d.name, d) :: sited (fun name => before name ++ keysOf name [d]) ds

/-- Interfaces with the names at each of their sites changed. -/
def renameSites (f : String → Site → String → String) (interfaces : List InterfaceDecl)
    (before : String → List SiteKey := fun _ => []) : List InterfaceDecl :=
  (sited before interfaces).map fun (keys, d) =>
    { d with members := Member.renameSites (f d.name) keys d.members }

/-- The names at the sites of interfaces, each with its site. -/
def siteNames (interfaces : List InterfaceDecl)
    (before : String → List SiteKey := fun _ => []) : List (String × Site × String) :=
  (sited before interfaces).flatMap fun (keys, d) =>
    (Member.siteNames keys d.members).map fun (site, n) => (d.name, site, n)

section

variable {f g : String → Site → String → String} {before : String → List SiteKey}
  {d : InterfaceDecl} {ds : List InterfaceDecl} {name : String}

@[simp] theorem renameSites_nil : renameSites f [] before = [] := rfl

/-- The first of some interfaces is changed behind the keys of its name, and the others behind its
own. -/
theorem renameSites_cons : renameSites f (d :: ds) before =
    { d with members := Member.renameSites (f d.name) (before d.name) d.members } ::
      renameSites f ds (fun name => before name ++ keysOf name [d]) := rfl

@[simp] theorem siteNames_nil : siteNames [] before = [] := rfl

/-- The names at the sites of some interfaces are those of the first and those of the others behind
it. -/
theorem siteNames_cons : siteNames (d :: ds) before =
    ((Member.siteNames (before d.name) d.members).map fun (site, n) => (d.name, site, n)) ++
      siteNames ds (fun name => before name ++ keysOf name [d]) := rfl

/-- One interface has keys under its own name only. -/
theorem keysOf_singleton :
    keysOf name [d] = if d.name = name then Member.keys d.members else [] := by
  by_cases h : d.name = name <;> simp [keysOf, membersOf, h, Member.keys]

/-- The keys of a name are those of the first interface and those of the others. -/
theorem keysOf_cons : keysOf name (d :: ds) = keysOf name [d] ++ keysOf name ds := by
  by_cases h : d.name = name <;> simp [keysOf, membersOf, h, Member.keys]

/-- An interface with other members has the same keys if the members have. -/
theorem keysOf_renamed (ms : List (Member Ty)) (h : Member.keys ms = Member.keys d.members) :
    keysOf name [{ d with members := ms }] = keysOf name [d] := by
  rw [keysOf_singleton, keysOf_singleton, h]

/-- Changing names keeps all keys. -/
@[simp] theorem keysOf_renameSites : keysOf name (renameSites f ds before) = keysOf name ds := by
  induction ds generalizing before with
  | nil => rfl
  | cons d ds ih =>
    rw [renameSites_cons, keysOf_cons, keysOf_renamed _ Member.keys_renameSites, ih, ← keysOf_cons]

@[simp] theorem renameSites_id : renameSites (fun _ _ => id) ds before = ds := by
  induction ds generalizing before with
  | nil => rfl
  | cons d ds ih => rw [renameSites_cons, ih, Member.renameSites_id]

/-- Two changes of the names in some interfaces are one by the composed functions. -/
theorem renameSites_comp : renameSites f (renameSites g ds before) before =
    renameSites (fun name site => f name site ∘ g name site) ds before := by
  induction ds generalizing before with
  | nil => rfl
  | cons d ds ih =>
    rw [renameSites_cons, renameSites_cons, renameSites_cons, Member.renameSites_comp]
    simp only [keysOf_renamed _ Member.keys_renameSites, ih]

/-- The names after a change of some interfaces are the names before it, changed site by site. -/
theorem siteNames_renameSites : siteNames (renameSites f ds before) before =
    (siteNames ds before).map fun (name, site, n) => (name, site, f name site n) := by
  induction ds generalizing before with
  | nil => rfl
  | cons d ds ih =>
    rw [renameSites_cons, siteNames_cons, siteNames_cons, Member.siteNames_renameSites]
    simp only [keysOf_renamed _ Member.keys_renameSites, ih, List.map_append, List.map_map]
    rfl

end

section

variable {change : Ty → Ty × Nat} {rename : String → String} {hit : String → Bool} {site : Site}
  {before : String → List SiteKey} {name : String} {d : InterfaceDecl} {ds : List InterfaceDecl}

/-- A change at one site, in the members of one interface. -/
theorem members_renamed (keys : List SiteKey) (ms : List (Member Ty)) :
    Member.renameSites (fun s => if d.name = name ∧ s = site then rename else id) keys ms =
      if d.name = name then Member.renameSites (fun s => if s = site then rename else id) keys ms
      else ms := by
  by_cases h : d.name = name <;> simp [h]

/-- The names that are hit at a site are those of the interface and those behind it. -/
theorem countP_siteNames_cons :
    (siteNames (d :: ds) before).countP (fun (other, s, n) => (other = name && s = site) && hit n) =
      (if d.name = name then
        (Member.siteNames (before d.name) d.members).countP (fun (s, n) => s = site && hit n)
      else 0) +
      (siteNames ds fun name => before name ++ keysOf name [d]).countP
        (fun (other, s, n) => (other = name && s = site) && hit n) := by
  rw [siteNames_cons, List.countP_append, List.countP_map]
  by_cases h : d.name = name <;> simp [h, Function.comp_def]

/-- A change at a site that was passed is no change, and there are no names there. -/
theorem renameSites_of_in (h : site.In (before name)) :
    renameSites (fun other s => if other = name ∧ s = site then rename else id) ds before = ds ∧
      (siteNames ds before).countP (fun (other, s, n) => (other = name && s = site) && hit n) =
        0 := by
  induction ds generalizing before with
  | nil => exact ⟨rfl, rfl⟩
  | cons d ds ih =>
    obtain ⟨hds, hcount⟩ := @ih (fun name => before name ++ keysOf name [d]) (h.append _)
    rw [renameSites_cons, countP_siteNames_cons, hds, hcount, members_renamed]
    by_cases hname : d.name = name
    · have h : site.In (before d.name) := hname ▸ h
      have hlacks : Member.Lacks site (before d.name) d.members := Member.lacks_of_in h
      rw [if_pos hname, if_pos hname, hlacks.renameSites_eq, hlacks.countP_siteNames]
      exact ⟨rfl, rfl⟩
    · rw [if_neg hname, if_neg hname]
      exact ⟨rfl, rfl⟩

/-- A search of interfaces changes the names at the site, if it is there. -/
theorem inList_atSite (hchange : ∀ ty, change ty = (ty.renameSite rename, ty.siteNames.countP hit))
    (h : ¬site.In (before name)) :
    SiteSearch.inList (atSite name change) (site.behind (before name)) ds =
      if site.In (before name ++ keysOf name ds) then
        .found
          (renameSites (fun other s => if other = name ∧ s = site then rename else id) ds before)
          ((siteNames ds before).countP fun (other, s, n) => (other = name && s = site) && hit n)
      else .missing (site.behind (before name ++ keysOf name ds)) := by
  induction ds generalizing before with
  | nil =>
    have hkeys : before name ++ keysOf name [] = before name := List.append_nil _
    rw [hkeys, if_neg h]
    rfl
  | cons d ds ih =>
    have hcons : before name ++ keysOf name (d :: ds) =
        (before name ++ keysOf name [d]) ++ keysOf name ds := by
      rw [keysOf_cons, List.append_assoc]
    rw [SiteSearch.inList, renameSites_cons, countP_siteNames_cons, hcons, members_renamed, atSite]
    by_cases hname : d.name = name
    · subst hname
      have hkeys : keysOf d.name [d] = Member.keys d.members := by rw [keysOf_singleton, if_pos rfl]
      simp only [if_pos, Member.inList_atSite hchange h, hkeys]
      by_cases hin : site.In (before d.name ++ Member.keys d.members)
      · obtain ⟨hds, hcount⟩ := @renameSites_of_in rename hit site
          (fun name => before name ++ keysOf name [d]) d.name ds (by rwa [← hkeys] at hin)
        rw [if_pos hin, if_pos (hin.append _), hds, hcount]
        rfl
      · have hlacks : Member.Lacks site (before d.name) d.members := Member.lacks_of_not_in hin
        have hds := @ih (fun name => before name ++ keysOf name [d])
        simp only [hkeys] at hds
        rw [if_neg hin, hlacks.renameSites_eq, hlacks.countP_siteNames, Nat.zero_add]
        simp only [SiteSearch.map, hds hin]
        exact SiteSearch.map_ite
    · have hkeys : keysOf name [d] = [] := by rw [keysOf_singleton, if_neg hname]
      have hds := @ih (fun name => before name ++ keysOf name [d])
      simp only [hkeys, List.append_nil] at hds
      simp only [if_neg hname, hkeys, List.append_nil, hds h, Nat.zero_add]
      exact SiteSearch.map_ite

end

end InterfaceDecl

end DeclLayer
