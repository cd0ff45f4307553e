import DeclLayer.Proofs.Render.TypeStart

/-!
# Parameters tried on a type in round brackets

After a round bracket the parser tries parameters with an arrow after them, and goes back if that
fails. On a type in brackets it does fail: the attempt ends with an error, or behind the closing
bracket, where no arrow stands (`arrowParams_leads`).

Since the attempt may end anywhere, `Parser.Ensures` only says what holds if a parser succeeds.
-/

namespace DeclLayer

open Token

/-- The tokens ahead of a cursor are of some kinds. -/
structure Cursor.Ahead (c : Cursor) (ks : List Kind) : Prop where
  rest : c.rest.map Token.kind = ks
  last : c.last.kind = .eof

namespace Cursor.Ahead

variable {c : Cursor} {ks : List Kind} {kind : Kind}

/-- The kind seen from a place is that of the token with the number. -/
theorem kindAt_eq (h : c.Ahead ks) (n : Nat) : c.kindAt n = ks.getD n .eof := by
  rw [Cursor.kindAt, ← h.rest, ← h.last]
  simp only [List.getD_eq_getElem?_getD, List.getElem?_map]
  cases c.rest[n]? <;> rfl

/-- Behind the first token the others are ahead. -/
theorem next (h : c.Ahead (kind :: ks)) : c.next.Ahead ks := by
  refine ⟨?_, h.last⟩
  rw [Cursor.next, List.map_tail, h.rest, List.tail_cons]

end Cursor.Ahead

/-- A cursor that spells some pieces has their tokens ahead. -/
theorem Cursor.Spells.ahead {c : Cursor} {docs : Docs} {ps : List Piece} (h : c.Spells docs ps) :
    c.Ahead (kinds ps) :=
  ⟨h.map_kind.1, h.map_kind.2⟩

namespace Parser

variable {α β : Type} {p : Parser α} {f : α → Parser β} {c c' : Cursor} {a : α}
  {ty : Parser Ty} {ks rest : List Kind} {kind : Kind}

/-- If a parser succeeds at a place, its answer and the place after it satisfy a condition. -/
def Ensures (p : Parser α) (c : Cursor) (Q : α → Cursor → Prop) : Prop :=
  ∀ a c', p c = .ok (a, c') → Q a c'

namespace Ensures

/-- What a chain ensures is what its second step ensures wherever the first one leads. -/
theorem bind {Q : β → Cursor → Prop} (h : Ensures p c fun a c' => Ensures (f a) c' Q) :
    Ensures (p >>= f) c Q := by
  intro b c₂ hb
  change (p c >>= fun x => f x.1 x.2) = _ at hb
  cases hp : p c with
  | error e =>
    rw [hp] at hb
    cases hb
  | ok x =>
    rw [hp] at hb
    exact h x.1 x.2 hp b c₂ hb

/-- What is ensured may be weakened. -/
theorem mono {Q R : α → Cursor → Prop} (h : Ensures p c Q) (hQ : ∀ a c', Q a c' → R a c') :
    Ensures p c R :=
  fun a c' ha => hQ a c' (h a c' ha)

/-- A step whose outcome is known. -/
theorem step {Q : α → Cursor → Prop} (h : p c = .ok (a, c')) (hQ : Q a c') : Ensures p c Q := by
  intro b c₂ hb
  rw [h] at hb
  cases hb
  exact hQ

/-- A parser that fails ensures anything. -/
theorem refused {Q : α → Cursor → Prop} {e : SyntaxError} (h : p c = .error e) : Ensures p c Q := by
  intro b c₂ hb
  rw [h] at hb
  cases hb

/-- An answer without reading ensures what holds of it. -/
theorem pure {Q : α → Cursor → Prop} (h : Q a c) : Ensures (Pure.pure a) c Q :=
  step rfl h

/-- A token of another kind is not accepted. -/
theorem accept_other {Q : Bool → Cursor → Prop} (h : c.kindAt 0 ≠ kind) (hQ : Q false c) :
    Ensures (accept kind) c Q := by
  refine bind (step rfl ?_)
  rw [beq_eq_false_iff_ne.2 h]
  exact pure hQ

/-- Nothing is read behind a token that is not there. -/
theorem after_other {Q : Option α → Cursor → Prop} (h : c.kindAt 0 ≠ kind) (hQ : Q none c) :
    Ensures (after kind p) c Q :=
  bind (accept_other h (pure hQ))

/-- An expected token is there if the parser goes on. -/
theorem expect {Q : Unit → Cursor → Prop} (hQ : c.kindAt 0 = kind → Q () c.next) :
    Ensures (Parser.expect kind) c Q := by
  refine bind (step rfl ?_)
  split
  · next heq => exact step rfl (hQ (beq_iff_eq.1 heq))
  · exact refused rfl

end Ensures

/-! ## One entry -/

/-- What is left after an entry was read from the tokens of a type in brackets: nothing, or a token
that no parameter goes on with. -/
def EntryLeft (rest : List Kind) (c : Cursor) : Prop :=
  ∃ ks, c.Ahead (ks ++ .punct .rparen :: rest) ∧ ∀ next ∈ ks.head?, followsParamName next = false

/-- Behind an entry stands nothing that a parameter goes on with, the closing bracket apart. -/
theorem EntryLeft.kindAt_ne (h : EntryLeft rest c) (hkind : followsParamName kind = true)
    (hclose : kind ≠ .punct .rparen) : c.kindAt 0 ≠ kind := by
  obtain ⟨ks, hc, hks⟩ := h
  rw [hc.kindAt_eq]
  cases ks with
  | nil => exact hclose.symm
  | cons next ks =>
    intro heq
    obtain rfl : next = kind := heq
    rw [hks _ rfl] at hkind
    cases hkind

/-- What a parameter could begin with, after the words in front of it. -/
def AtEntry (rest : List Kind) (c : Cursor) : Prop :=
  ∃ ks, c.Ahead (ks ++ .punct .rparen :: rest) ∧ Leads ks ∧ ks.head? ≠ some (.keyword .readonly)

/-- An entry begins with what begins a type. -/
theorem AtEntry.start (h : AtEntry rest c) : startsType (c.kindAt 0) = true := by
  obtain ⟨ks, hc, hleads, -⟩ := h
  obtain ⟨kind, ks', rfl, hstart⟩ := hleads.start
  rw [hc.kindAt_eq]
  exact hstart

/-- A token that begins a type is no word in front of a parameter, with one exception. -/
theorem skipParamModifiers_stop (n : Nat) (hstart : startsType (c.kindAt 0) = true)
    (hreadonly : c.kindAt 0 ≠ .keyword .readonly) :
    Ensures (skipParamModifiers n) c fun _ c' => c' = c := by
  cases n with
  | zero => exact .refused rfl
  | succ n =>
    refine .bind (.step rfl ?_)
    split
    · next heq =>
      rw [heq] at hstart
      cases hstart
    · next heq =>
      rw [heq] at hstart
      cases hstart
    · next heq =>
      rw [heq] at hstart
      cases hstart
    · next heq => exact absurd heq hreadonly
    · exact .pure rfl

/-- The words in front of a parameter are passed. -/
theorem skipParamModifiers_leads (h : Leads ks) : ∀ (n : Nat) (c : Cursor),
    c.Ahead (ks ++ .punct .rparen :: rest) →
    Ensures (skipParamModifiers n) c fun _ c' => AtEntry rest c' := by
  -- Only the word `readonly` begins a type and is passed as well.
  have hstop {ks : List Kind} (h : Leads ks) (hhead : ks.head? ≠ some (.keyword .readonly))
      (n : Nat) (c : Cursor) (hc : c.Ahead (ks ++ .punct .rparen :: rest)) :
      Ensures (skipParamModifiers n) c fun _ c' => AtEntry rest c' := by
    obtain ⟨kind, ks', rfl, hstart⟩ := h.start
    have hkind : c.kindAt 0 = kind := hc.kindAt_eq 0
    refine (skipParamModifiers_stop n (hkind ▸ hstart) ?_).mono fun _ c' hc' => ?_
    · exact fun heq => hhead (congrArg some (hkind.symm.trans heq))
    · subst hc'
      exact ⟨_, hc, h, hhead⟩
  induction h with
  | name hkind hreadonly hnext hasserts =>
    exact hstop (.name hkind hreadonly hnext hasserts) fun heq => hreadonly (Option.some.inj heq)
  | group hopening hcloses hnext => exact hstop (.group hopening hcloses hnext) nofun
  | @other kind _ hstart hident hopening hthis =>
    refine hstop (.other hstart hident hopening hthis) fun heq => ?_
    rw [Option.some.inj heq] at hident
    cases hident
  | @readonly ks h ih =>
    intro n c hc
    cases n with
    | zero => exact .refused rfl
    | succ n =>
      obtain ⟨next, ks', rfl, hstart⟩ := h.start
      have hfirst : c.kindAt 0 = .keyword .readonly := hc.kindAt_eq 0
      have hsecond : c.kindAt 1 = next := hc.kindAt_eq 1
      refine .bind (.step rfl ?_)
      simp only [hfirst]
      refine .bind (.step rfl ?_)
      rw [hsecond]
      have hpass : Ensures (skip >>= fun _ => skipParamModifiers n) c fun _ c' => AtEntry rest c' :=
        .bind (.step rfl (ih n c.next hc.next))
      split
      · cases hstart
      · cases hstart
      · cases hstart
      · cases hstart
      · exact hpass

/-- The name of a parameter: an identifier, or a pattern in brackets. -/
theorem paramName_leads (h : AtEntry rest c) :
    Ensures (if c.kindAt 0 == .punct .lbrace || c.kindAt 0 == .punct .lbracket then balanced
      else identifier) c fun _ c' => EntryLeft rest c' := by
  obtain ⟨ks, hc, hleads, hhead⟩ := h
  cases hleads with
  | @name kind ks hkind hreadonly hnext hasserts =>
    have hfirst : c.kindAt 0 = kind := hc.kindAt_eq 0
    have hleft : EntryLeft rest c.next := ⟨ks, hc.next, hnext⟩
    rw [hfirst]
    cases kind with
    | ident name =>
      refine .bind (.step rfl ?_)
      rw [hfirst]
      exact .bind (.step rfl (.pure hleft))
    | keyword k =>
      have hcontextual : k.contextual = true := hkind
      refine .bind (.step rfl ?_)
      simp only [hfirst, hcontextual]
      exact .bind (.step rfl (.pure hleft))
    | string | number | template | punct | directive | eof => cases hkind
  | readonly => exact absurd rfl hhead
  | @group opening inner ks hopening hcloses hnext =>
    have hfirst : c.kindAt 0 = .punct opening := hc.kindAt_eq 0
    have hbracket : (c.kindAt 0 == .punct .lbrace || c.kindAt 0 == .punct .lbracket) = true := by
      rw [hfirst]
      rcases hopening with rfl | rfl <;> rfl
    rw [hbracket]
    -- The brackets are passed to their end.
    have hkinds : c.rest.map Token.kind =
        (.punct opening :: inner) ++ (ks ++ .punct .rparen :: rest) := by
      rw [hc.rest, List.cons_append, List.cons_append, List.append_assoc]
    obtain ⟨ts, ts', hts, hgroup, hts'⟩ := List.map_eq_append_iff.1 hkinds
    have hcloses' : closesAt 0 (ts.map Token.kind) = true := by
      rw [hgroup, closesAt]
      rcases hopening with rfl | rfl <;> exact hcloses
    have hpass : (passBalanced 0 c.current.start c.rest).2 = ts' := by
      rw [hts, passBalanced_append ts' c.current.start hcloses']
    refine .step rfl ?_
    exact ⟨ks, ⟨show List.map _ (passBalanced 0 c.current.start c.rest).2 = _ from hpass ▸ hts',
      hc.last⟩, hnext⟩
  | @other kind ks hstart hident hopening hthis =>
    have hfirst : c.kindAt 0 = kind := hc.kindAt_eq 0
    have hnone : (kind == .punct .lbrace || kind == .punct .lbracket) = false := by
      rw [beq_eq_false_iff_ne.2 hopening.1, beq_eq_false_iff_ne.2 hopening.2]
      rfl
    rw [hfirst, hnone]
    refine .bind (.step rfl ?_)
    rw [hfirst]
    cases kind with
    | ident => cases hident
    | keyword k =>
      have hcontextual : k.contextual = false := hident
      simp only [hcontextual]
      exact .refused rfl
    | string | number | template | punct | directive | eof => exact .refused rfl

/-- An entry that is read from a type in brackets leaves nothing that a parameter goes on with. -/
theorem paramEntry_leads (h : Leads ks) (hc : c.Ahead (ks ++ .punct .rparen :: rest)) :
    Ensures (paramEntry ty) c fun _ c' => EntryLeft rest c' := by
  have hthis : (c.kindAt 0 == .keyword .this && c.kindAt 1 == .punct .colon) = false := by
    rw [hc.kindAt_eq, hc.kindAt_eq]
    cases h with
    | @name kind ks hkind =>
      refine Bool.and_eq_false_imp.2 fun heq => ?_
      obtain rfl : kind = .keyword .this := beq_iff_eq.1 heq
      cases hkind
    | readonly => rfl
    | group => rfl
    | @other kind ks _ _ _ hthis =>
      refine Bool.and_eq_false_imp.2 fun heq => beq_eq_false_iff_ne.2 ?_
      cases ks with
      | nil => nofun
      | cons next ks => exact hthis (beq_iff_eq.1 heq) next rfl
  refine .bind (.step rfl (.bind (.step rfl ?_)))
  rw [hthis]
  refine .bind (.step rfl (.bind ((skipParamModifiers_leads h _ c hc).mono fun _ c₁ h₁ => ?_)))
  refine .bind (.accept_other (fun heq => ?_) ?_)
  · have hstart := h₁.start
    rw [heq] at hstart
    cases hstart
  have hname := paramName_leads h₁
  have hend (name : String) (c₂ : Cursor) (h₂ : EntryLeft rest c₂) :
      Ensures (do
        let optional ← acceptMark .question
        let type ← after (.punct .colon) ty
        return ParamEntry.param ⟨name, type, optional, false⟩) c₂ fun _ c' => EntryLeft rest c' :=
    .bind (.accept_other (h₂.kindAt_ne rfl nofun)
      (.bind (.after_other (h₂.kindAt_ne rfl nofun) (.pure h₂))))
  refine .bind (.step rfl (.bind (.step rfl ?_)))
  split at hname
  · next hbracket =>
    rw [if_pos hbracket]
    exact .bind (hname.mono hend)
  · next hbracket =>
    rw [if_neg hbracket]
    exact .bind (hname.mono hend)

/-! ## The attempt -/

/-- Parameters that are read from a type in brackets end with its closing bracket. -/
theorem params_leads (ty : Parser Ty) (h : Leads ks)
    (hc : c.Ahead (.punct .lparen :: (ks ++ .punct .rparen :: rest))) :
    Ensures (params ty) c fun _ c' => c'.Ahead rest := by
  have hlist : Ensures (list .rparen (paramEntry ty)) c.next fun _ c' => EntryLeft rest c' := by
    refine .bind (.step rfl (.bind (.step rfl ?_)))
    have hmore : (c.next.kindAt 0 == .punct .rparen || c.next.kindAt 0 == .eof) = false := by
      obtain ⟨kind, ks', rfl, hstart⟩ := h.start
      rw [hc.next.kindAt_eq, Bool.or_eq_false_iff, beq_eq_false_iff_ne, beq_eq_false_iff_ne]
      constructor
      · rintro rfl
        cases hstart
      · rintro rfl
        cases hstart
    rw [hmore]
    refine .bind ((paramEntry_leads h hc.next).mono fun entry c₁ h₁ => ?_)
    exact .bind (.accept_other (h₁.kindAt_ne rfl nofun) (.pure h₁))
  refine .bind (.expect fun _ => .bind
    (hlist.mono fun entries c₁ h₁ => .bind (.expect fun hclose => ?_)))
  -- The closing bracket stands behind the entry only if nothing was left of the type.
  obtain ⟨left, hc₁, hleft⟩ := h₁
  rw [hc₁.kindAt_eq] at hclose
  cases left with
  | nil => exact .pure hc₁.next
  | cons next left =>
    obtain rfl : next = .punct .rparen := hclose
    cases hleft _ rfl

/-- Parameters with an arrow after them are not found in a type in brackets. -/
theorem arrowParams_leads (ty : Parser Ty) (h : Leads ks)
    (hrest : rest.head? ≠ some (.punct .arrow))
    (hc : c.Ahead (.punct .lparen :: (ks ++ .punct .rparen :: rest))) :
    ∃ c', arrowParams ty c = .ok (none, c') := by
  have hparams := params_leads ty h hc
  cases hresult : params ty c with
  | error e =>
    have hattempt : attempt (params ty) c = .ok (none, c) := by
      rw [attempt, hresult]
    refine ⟨c, ?_⟩
    show (attempt (params ty) c >>= fun x => _) = _
    rw [hattempt]
    rfl
  | ok x =>
    have hattempt : attempt (params ty) c = .ok (some x.1, x.2) := by
      rw [attempt, hresult]
    have harrow : (x.2.kindAt 0 == .punct .arrow) = false := by
      rw [(hparams x.1 x.2 hresult).kindAt_eq, beq_eq_false_iff_ne]
      cases rest with
      | nil => rintro ⟨⟩
      | cons next rest => exact fun heq => hrest (congrArg some heq)
    refine ⟨x.2, ?_⟩
    show (attempt (params ty) c >>= fun x => _) = _
    rw [hattempt]
    show ((if (x.2.kindAt 0 == .punct .arrow) = true then _ else _ : Parser Bool) x.2 >>= _) = _
    rw [harrow]
    rfl

end Parser

end DeclLayer
