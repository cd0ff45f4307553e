import DeclLayer.Proofs.Parse.Blame
import DeclLayer.Proofs.Parse.Termination
import DeclLayer.Proofs.Token.Spans

/-!
# What is cut out of a source

The ranges that are cut out of a source are valid: they lie in the source, and no character is cut
at their ends (`Text.ValidRange`). The scanner cuts at the places of its lexemes, so this is known
of its tokens and of the texts inside them (`Token.wellPlaced_scan`, `Token.standsAt_of_cutsOut`).

The parser cuts out an initializer, or a piece in brackets, from where the current token begins to
where the last one that it passes ends, or to the same place if it passes none
(`Parser.StopsAtToken`). The current token is one of the source at every place in its tokens
(`Cursor.PlaceIn`), the tokens that can be passed are not in front of it, and these are the only
places that the parsers of the grammar come to (`Parser.Rule.placeIn`).
-/

namespace DeclLayer

open Text Token

/-! ## Places -/

/-- A place in the tokens of a source. -/
def Cursor.PlaceIn (source : String) (c : Cursor) : Prop :=
  (Cursor.start source).Passes 0 c

namespace Cursor.PlaceIn

variable {source : String} {c : Cursor}

/-- The tokens from a place on are the last ones of the source. -/
theorem ahead_suffix (h : c.PlaceIn source) : c.ahead <:+ Token.scan source := by
  rw [← ahead_start]
  obtain ⟨front, hfront⟩ := h.suffix
  exact ⟨front, by rw [ahead, ahead, ← hfront, h.last_eq, List.append_assoc]⟩

/-- A token from a place on lies in the source. -/
theorem valid_of_mem (h : c.PlaceIn source) {t : Token} (ht : t ∈ c.ahead) :
    ValidRange source t.start t.stop :=
  (wellPlaced_scan source).valid t (h.ahead_suffix.subset ht)

/-- No token ahead ends before the current one begins. -/
theorem start_le_stop (h : c.PlaceIn source) {t : Token} (ht : t ∈ c.rest) :
    c.current.start ≤ t.stop := by
  obtain ⟨first, later, hrest⟩ := List.exists_cons_of_ne_nil (List.ne_nil_of_mem ht)
  have hcurrent : c.current = first := by
    rw [current, hrest]
    rfl
  have hfirst := (h.valid_of_mem c.current_mem_ahead).start_le
  have hlast := (h.valid_of_mem (List.mem_append_left _ ht)).start_le
  rw [hcurrent] at hfirst ⊢
  rw [hrest] at ht
  rcases List.mem_cons.1 ht with rfl | ht
  · exact hlast
  · -- The current token ends before the tokens behind it begin.
    have hordered := (wellPlaced_scan source).ordered.sublist h.ahead_suffix.sublist
    rw [ahead, hrest, List.cons_append, List.pairwise_cons] at hordered
    have hnext := hordered.1 t (List.mem_append_left _ ht)
    omega

end Cursor.PlaceIn

namespace Parser

/-! ## Source text -/

/-- What is passed ends with a token, or where it begins. -/
def StopsAtToken (pass : Nat → List Token → Nat × List Token) : Prop :=
  ∀ start ts, (pass start ts).1 = start ∨ ∃ t ∈ ts, (pass start ts).1 = t.stop

/-- Passing brackets stops at the end of a token, or where it begins. -/
theorem stopsAtToken_balanced (depth : Nat) : StopsAtToken (passBalanced depth) := by
  intro start ts
  induction ts generalizing depth start with
  | nil => exact .inl rfl
  | cons t ts ih =>
    rw [passBalanced]
    split
    · exact .inr ⟨t, List.mem_cons_self, rfl⟩
    · rcases ih (bracketDepth depth t.kind) t.stop with hstop | ⟨u, hu, hstop⟩
      · exact .inr ⟨t, List.mem_cons_self, hstop⟩
      · exact .inr ⟨u, List.mem_cons_of_mem _ hu, hstop⟩

/-- Passing an initializer stops at the end of a token, or where it begins. -/
theorem stopsAtToken_initializer (depth : Nat) : StopsAtToken (passInitializer depth) := by
  intro start ts
  induction ts generalizing depth start with
  | nil => exact .inl rfl
  | cons t ts ih =>
    rw [passInitializer]
    split
    · exact .inl rfl
    · rcases ih (bracketDepth depth t.kind) t.stop with hstop | ⟨u, hu, hstop⟩
      · exact .inr ⟨t, List.mem_cons_self, hstop⟩
      · exact .inr ⟨u, List.mem_cons_of_mem _ hu, hstop⟩

/-- The source text of what is passed is that of a valid range. -/
structure CutsAt (source : String) (c : Cursor)
    (pass : Nat → List Token → Nat × List Token) : Prop where
  valid : ValidRange source c.current.start (pass c.current.start c.rest).1
  answer : sourceText pass c =
    .ok (String.ofList (slice source.toList c.current.start (pass c.current.start c.rest).1),
      { c with rest := (pass c.current.start c.rest).2 })

/-- What is passed from a place in the tokens is cut out of the source. -/
theorem cutsAt {source : String} {c : Cursor} {pass : Nat → List Token → Nat × List Token}
    (hpass : StopsAtToken pass) (hc : c.PlaceIn source) : CutsAt source c pass := by
  have hcurrent := hc.valid_of_mem c.current_mem_ahead
  constructor
  · rcases hpass c.current.start c.rest with hstop | ⟨t, ht, hstop⟩
    · rw [hstop]
      exact ⟨Nat.le_refl _, hcurrent.boundary_start.le, hcurrent.boundary_start,
        hcurrent.boundary_start⟩
    · have hlast := hc.valid_of_mem (List.mem_append_left _ ht)
      rw [hstop]
      exact ⟨hc.start_le_stop ht, hlast.stop_le, hcurrent.boundary_start, hlast.boundary_stop⟩
  · have hsource : c.source = source.toList := hc.source_eq
    rw [← hsource]
    rfl

/-- A parser of the grammar goes from place to place. -/
theorem Rule.placeIn {α : Type} {pace : Pace} {p : Parser α} {source : String} {c c' : Cursor}
    {a : α} (hp : Rule pace p) (hc : c.PlaceIn source) (hresult : p c = .ok (a, c')) :
    c'.PlaceIn source := by
  have hlast : c.last.kind = .eof := hc.last_eq ▸ Cursor.start_last source
  have hreaches := (readsForward hlast).rule hp
  rw [hresult] at hreaches
  exact (hc.trans hreaches).mono (Nat.zero_le _)

/-! ## The spans of a source -/

/-- The tokens of a source are well placed. The texts that its lexemes are made from stand where
they are cut out, and so does all source text that is kept as written, wherever the parsers of the
grammar come to. -/
theorem spans_wellFormed (source : String) :
    WellPlaced source (scan source) ∧
    (∀ ms l behind, lexemes source.toList = ms ++ l :: behind →
      ∀ marks text content, CutsOut (rawText (l :: behind)) marks text content →
        l.content = content ∧
          StandsAt source (utf8Size (rawText ms ++ marks))
            (utf8Size (rawText ms ++ marks) + utf8Size text) text) ∧
    (Cursor.start source).PlaceIn source ∧
    ∀ c : Cursor, c.PlaceIn source →
      CutsAt source c (passBalanced 0) ∧ CutsAt source c (passInitializer 0) ∧
        ∀ {α : Type} {pace : Pace} {p : Parser α} {a : α} {c' : Cursor},
          Rule pace p → p c = .ok (a, c') → c'.PlaceIn source := by
  refine ⟨wellPlaced_scan source, ?_, Cursor.Passes.refl _, fun c hc => ⟨?_, ?_, ?_⟩⟩
  · intro ms l behind hlexemes marks text content hcut
    exact standsAt_of_cutsOut hlexemes hcut
  · exact cutsAt (stopsAtToken_balanced 0) hc
  · exact cutsAt (stopsAtToken_initializer 0) hc
  · intro α pace p a c' hp hresult
    exact hp.placeIn hc hresult

/-- An initializer that is a template, in front of a comment that is not closed. -/
theorem spans_wellFormed_template :
    ∃ c', lexemes "\x60é\x60,/*ü".toList =
        [⟨"\x60é\x60".toList, .token (.template "é")⟩, ⟨[','], .token (.punct .comma)⟩] ++
          ⟨"/*ü".toList, .skipped⟩ :: [] ∧
      CutsOut "/*ü".toList ['/', '*'] ['ü'] .skipped ∧
      initializer (.start "\x60é\x60,/*ü") = .ok ("\x60é\x60", c') ∧
      WellPlaced "\x60é\x60,/*ü" (scan "\x60é\x60,/*ü") ∧
      StandsAt "\x60é\x60,/*ü" 7 9 ['ü'] ∧ ValidRange "\x60é\x60,/*ü" 0 4 ∧
      c'.PlaceIn "\x60é\x60,/*ü" := by
  have hlexemes : lexemes "\x60é\x60,/*ü".toList =
      [⟨"\x60é\x60".toList, .token (.template "é")⟩, ⟨[','], .token (.punct .comma)⟩] ++
        ⟨"/*ü".toList, .skipped⟩ :: [] := by
    decide +kernel
  have hcut : CutsOut "/*ü".toList ['/', '*'] ['ü'] .skipped := CutsOut.comment ['ü']
  have hplace : Cursor.start "\x60é\x60,/*ü" = ⟨"\x60é\x60,/*ü".toList,
      [⟨.template "é", 0, 4, []⟩, ⟨.punct .comma, 4, 5, []⟩], ⟨.eof, 9, 9, []⟩⟩ := by
    rw [Cursor.start, scan, hlexemes]
    rfl
  obtain ⟨hplaced, hlexer, hstart, hparser⟩ := spans_wellFormed "\x60é\x60,/*ü"
  rw [hplace] at hstart ⊢
  obtain ⟨-, hinitializer, hrule⟩ := hparser _ hstart
  have hresult : initializer ⟨"\x60é\x60,/*ü".toList,
      [⟨.template "é", 0, 4, []⟩, ⟨.punct .comma, 4, 5, []⟩], ⟨.eof, 9, 9, []⟩⟩ =
      .ok ("\x60é\x60",
        ⟨"\x60é\x60,/*ü".toList, [⟨.punct .comma, 4, 5, []⟩], ⟨.eof, 9, 9, []⟩⟩) := by
    rfl
  exact ⟨_, hlexemes, hcut, hresult, hplaced, (hlexer _ _ _ hlexemes _ _ _ hcut).2,
    hinitializer.valid, hrule .initializer hresult⟩

end Parser

end DeclLayer
