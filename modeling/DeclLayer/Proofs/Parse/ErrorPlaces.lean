import DeclLayer.Parse.Report
import DeclLayer.Proofs.Parse.Blame

/-!
# Errors point into the source

The place of a syntax error is the start of a token (`Parser.Blames`), so it is inside the source or
at its end, and cuts no character. The range that a report marks for a byte is that of the character
which holds the byte, and an empty one at the end of the text if there is none (`Span.Marks`). For
the place of an error it begins right there (`SyntaxError.PointsInto`).
-/

namespace DeclLayer

open Text

/-! ## Marked ranges -/

/-- The range that is marked for a byte of a text. -/
structure Span.Marks (text : String) (pos : Nat) (span : Span) : Prop where
  start_le : span.start ≤ span.stop
  stop_le : span.stop ≤ text.utf8ByteSize
  boundary_start : IsBoundary text span.start
  boundary_stop : IsBoundary text span.stop
  /-- A byte inside the text is held by one character, which is marked. -/
  inside : pos < text.utf8ByteSize → span.start ≤ pos ∧ pos < span.stop ∧
    ∃ before c after, text.toList = before ++ c :: after ∧ span.start = utf8Size before ∧
      span.stop = span.start + c.utf8Size
  /-- Nothing is marked behind the text. -/
  behind : text.utf8ByteSize ≤ pos → span = ⟨text.utf8ByteSize, text.utf8ByteSize⟩

namespace Span

/-- The characters are searched from the front. Those that end at or before the byte are passed. -/
theorem around_cases {pos offset : Nat} (h : offset ≤ pos) (cs : List Char) :
    (∃ front c after, cs = front ++ c :: after ∧
      around pos offset cs = ⟨offset + utf8Size front, offset + utf8Size front + c.utf8Size⟩ ∧
      offset + utf8Size front ≤ pos ∧ pos < offset + utf8Size front + c.utf8Size) ∨
    (around pos offset cs = ⟨offset + utf8Size cs, offset + utf8Size cs⟩ ∧
      offset + utf8Size cs ≤ pos) := by
  induction cs generalizing offset with
  | nil => exact .inr ⟨rfl, h⟩
  | cons c cs ih =>
    rw [around]
    by_cases hc : pos < offset + c.utf8Size
    · rw [if_pos hc]
      exact .inl ⟨[], c, cs, rfl, rfl, h, hc⟩
    · rw [if_neg hc]
      rcases ih (Nat.le_of_not_lt hc) with ⟨front, d, after, rfl, hfront⟩ | hend
      · rw [Nat.add_assoc, ← utf8Size_cons] at hfront
        exact .inl ⟨c :: front, d, after, rfl, hfront⟩
      · rw [Nat.add_assoc, ← utf8Size_cons] at hend
        exact .inr hend

/-- The range that is marked for a byte of a text, for every text and byte. -/
theorem marks_ofByte (text : String) (pos : Nat) : (ofByte text pos).Marks text pos := by
  rw [ofByte]
  rcases around_cases (Nat.zero_le pos) text.toList with
    ⟨front, c, after, htext, hspan, hstart, hstop⟩ | ⟨hspan, hend⟩
  · rw [Nat.zero_add] at hspan hstart hstop
    have hbehind : text.toList = (front ++ [c]) ++ after := by
      rw [htext, List.append_assoc, List.singleton_append]
    have hsize : utf8Size (front ++ [c]) = utf8Size front + c.utf8Size := utf8Size_append _ _
    have hboundary := isBoundary_of_append hbehind
    rw [hsize] at hboundary
    rw [hspan]
    exact {
      start_le := Nat.le_add_right _ _
      stop_le := hboundary.le
      boundary_start := isBoundary_of_append htext
      boundary_stop := hboundary
      inside := fun _ => ⟨hstart, hstop, front, c, after, htext, rfl, rfl⟩
      behind := fun hpos => absurd (Nat.lt_of_lt_of_le hstop hboundary.le) (Nat.not_lt.2 hpos) }
  · rw [Nat.zero_add, utf8Size_toList] at hspan hend
    have hboundary : IsBoundary text text.utf8ByteSize :=
      utf8Size_toList text ▸ isBoundary_of_append (List.append_nil _).symm
    rw [hspan]
    exact {
      start_le := Nat.le_refl _
      stop_le := Nat.le_refl _
      boundary_start := hboundary
      boundary_stop := hboundary
      inside := fun hpos => absurd hpos (Nat.not_lt.2 hend)
      behind := fun _ => rfl }

/-- The range around the first byte of a character begins there. -/
theorem start_around (offset : Nat) (before after : List Char) :
    (around (offset + utf8Size before) offset (before ++ after)).start =
      offset + utf8Size before := by
  induction before generalizing offset with
  | nil =>
    cases after with
    | nil => rfl
    | cons c after =>
      have hc : offset + utf8Size [] < offset + c.utf8Size :=
        Nat.add_lt_add_left c.utf8Size_pos offset
      rw [List.nil_append, around, if_pos hc]
      rfl
  | cons c before ih =>
    rw [List.cons_append, around, if_neg (Nat.not_lt.2 ?_), utf8Size_cons, ← Nat.add_assoc, ih]
    rw [utf8Size_cons, ← Nat.add_assoc]
    exact Nat.le_add_right _ _

/-- What is marked for a place between two characters begins there. -/
theorem start_ofByte {text : String} {pos : Nat} (h : IsBoundary text pos) :
    (ofByte text pos).start = pos := by
  obtain ⟨before, after, htext, rfl⟩ := h.exists_append
  have hstart := start_around 0 before after
  rwa [Nat.zero_add, ← htext] at hstart

end Span

/-! ## Places of errors -/

/-- The place of an error in a source: the start of a token, where a marked range can begin. -/
structure SyntaxError.PointsInto (e : SyntaxError) (source : String) : Prop where
  token : ∃ t ∈ Token.scan source, t.start = e.pos
  le : e.pos ≤ source.utf8ByteSize
  boundary : IsBoundary source e.pos
  marked : (Span.ofByte source e.pos).start = e.pos

namespace Parser

variable {α : Type} {p : Parser α} {source : String} {e : SyntaxError}

/-- An error at the start of a token points into the source. -/
theorem pointsInto_of_mem_scan {t : Token} (ht : t ∈ Token.scan source) (hpos : t.start = e.pos) :
    e.PointsInto source := by
  have hboundary : IsBoundary source e.pos := hpos ▸ Token.isBoundary_start ht
  exact ⟨⟨t, ht, hpos⟩, hboundary.le, hboundary, Span.start_ofByte hboundary⟩

/-- An error of a run over a whole source. -/
theorem Blames.pointsInto [hp : Blames p] (he : (p.run (.start source)).map Prod.fst = .error e) :
    e.PointsInto source := by
  have hresult : StaysIn (Cursor.start source).ahead (p.run (.start source)) := hp.staysIn _
  rw [Cursor.ahead_start] at hresult
  cases hrun : p.run (.start source) with
  | ok r =>
    rw [hrun] at he
    cases he
  | error e' =>
    rw [hrun] at he hresult
    cases he
    obtain ⟨t, ht, hpos⟩ := hresult
    exact pointsInto_of_mem_scan ht hpos

/-- A source is refused at the start of one of its tokens, whatever was tried before the error, and
the range that is marked for the error begins there. For any text and any byte, the marked range is
that of the character which holds the byte, or the empty one at the end of the text. -/
theorem errors_point_into_source :
    (∀ source e, parseItems source = .error e → e.PointsInto source) ∧
    (∀ source e, Ty.parse source = .error e → e.PointsInto source) ∧
    ∀ text pos, (Span.ofByte text pos).Marks text pos := by
  refine ⟨fun source e he => ?_, fun source e he => ?_, Span.marks_ofByte⟩
  · exact Blames.pointsInto he
  · exact Blames.pointsInto he

/-- Errors behind characters of two bytes. -/
theorem errors_point_into_source_accents :
    (parseItems "/* é */ type =" = .error ⟨.expectedIdentifier (.punct .eq), 14⟩ ∧
      (Span.ofByte "/* é */ type =" 14).start = 14) ∧
    (Ty.parse "\"é\" )" = .error ⟨.unexpectedAfterType (.punct .rparen), 5⟩ ∧
      (Span.ofByte "\"é\" )" 5).start = 5) ∧
    (Span.ofByte "\"é\" )" 2).Marks "\"é\" )" 2 := by
  have hitems : parseItems "/* é */ type =" = .error ⟨.expectedIdentifier (.punct .eq), 14⟩ := by
    with_unfolding_all rfl
  have htype : Ty.parse "\"é\" )" = .error ⟨.unexpectedAfterType (.punct .rparen), 5⟩ := by
    with_unfolding_all rfl
  exact ⟨⟨hitems, (errors_point_into_source.1 _ _ hitems).marked⟩,
    ⟨htype, (errors_point_into_source.2.1 _ _ htype).marked⟩, errors_point_into_source.2.2 _ _⟩

end Parser

end DeclLayer
