import DeclLayer.Proofs.Layer.Atomic
import DeclLayer.Proofs.Text.Canonical

/-!
# Generated files are recognised

A generated file begins with the lines of the header (`Header.isHeaded_iff`). They are put in front
of the other statements as a text of their own, which is written line by line, without indentation
and whatever follows (`Header.toList_renderItems`). Normalizing keeps them: they hold no carriage
return and no space at their ends, and the last one is not empty, so that they are written as they
are, in front of the rest (`Header.isHeaded_normalize`). A run that finds the result of another run
under its output path therefore knows it for a generated file (`Layer.generated_headed`).
-/

namespace DeclLayer

namespace Header

open LineEnd Text

/-! ## The lines of the header -/

/-- The characters of the lines of the header. -/
def lineChars : List (List Char) :=
  headerLines.map String.toList

/-- The lines of the header end with no blank and no return, and the last of them is not empty. -/
theorem lineChars_ends : (∀ line ∈ lineChars, '\n' ∉ line ∧ line.getLast? ≠ some '\r' ∧
    line.getLast? ≠ some ' ') ∧ ∀ line ∈ lineChars.getLast?, line ≠ [] := by
  decide +kernel

/-- The lines of the header are clean as they are. -/
theorem areClean_lineChars : AreClean lineChars where
  oneLine line hline := (lineChars_ends.1 line hline).1
  trimmed line hline := (lineChars_ends.1 line hline).2.2
  last := lineChars_ends.2

/-- No line of the header ends with a return. -/
theorem getLast?_lineChars : ∀ line ∈ lineChars, line.getLast? ≠ some '\r' :=
  fun line hline => (lineChars_ends.1 line hline).2.1

/-- Lines that are turned into characters and back stay as they are. -/
theorem map_ofList_toList (lines : List String) :
    (lines.map String.toList).map String.ofList = lines := by
  rw [List.map_map]
  exact (List.map_congr_left fun line _ => String.ofList_toList).trans (List.map_id _)

/-- The text of the header is made of its lines. -/
theorem lines_text : Text.lines text = headerLines := by
  have hchars : text.toList = ['\n'].intercalate lineChars := by
    have hfeed : "\n".toList = ['\n'] := by decide
    rw [text, joinWith, String.toList_intercalate, hfeed, lineChars]
  rw [Text.lines, hchars, linesOf_intercalate_self areClean_lineChars.oneLine getLast?_lineChars
    areClean_lineChars.last, lineChars, map_ofList_toList]

/-- A text is recognised by its first lines. -/
theorem isHeaded_iff {s : String} : isHeaded s = true ↔ lineChars <+: linesOf s.toList := by
  have hchars : (Text.lines s).map String.toList = linesOf s.toList := by
    rw [Text.lines, List.map_map]
    exact (List.map_congr_left fun line _ => String.toList_ofList).trans (List.map_id _)
  rw [isHeaded, List.isPrefixOf_iff_prefix, lineChars, ← hchars]
  exact (List.prefix_map_iff_of_injective fun _ _ => String.toList_injective).symm

/-- The lines of the header in front of any text. -/
theorem isHeaded_written (lineEnd : LineEnd) {s : String} {rest : List Char}
    (h : s.toList = lineEnd.written lineChars ++ rest) : isHeaded s = true := by
  rw [isHeaded_iff, h, linesOf_written lineEnd areClean_lineChars.oneLine getLast?_lineChars]
  exact List.prefix_append _ _

/-! ## Writing and normalizing -/

/-- Normalizing keeps the header. -/
theorem isHeaded_normalize (lineEnd : LineEnd) {s : String} (h : isHeaded s = true) :
    isHeaded (lineEnd.normalize s) = true := by
  obtain ⟨more, hmore⟩ := prefix_cleanLines (isHeaded_iff.1 h) areClean_lineChars
    getLast?_lineChars
  refine isHeaded_written lineEnd (?_ : _ = _ ++ lineEnd.written more)
  rw [normalize_eq, String.toList_ofList, ← hmore, written, List.flatMap_append]
  rfl

/-- A line that is not indented. -/
theorem line_zero (layout : Layout) (text : String) : layout.line 0 text = text ++ "\n" := by
  rw [Layout.line]
  split
  · next hempty =>
    rw [String.isEmpty_iff.1 hempty]
    rfl
  · exact congrArg (· ++ "\n") String.empty_append

/-- The header is written line by line, in front of the other statements. -/
theorem toList_renderItems (style : Style) (items : List Item) :
    (renderItems style (.verbatim text :: items)).toList =
      lf.written lineChars ++
        (Item.renderList style.unit 0 (some (.verbatim text)) items).toList := by
  have hlines : (Item.render style.unit 0 (.verbatim text)).toList = lf.written lineChars := by
    rw [Item.render, lines_text, String.toList_join, List.flatMap_map, lineChars, written,
      List.flatMap_map]
    refine congrArg (headerLines.flatMap ·) (funext fun line => ?_)
    rw [line_zero, String.toList_append]
    rfl
  have hblank : (blankBetween none (.verbatim text)).toList = [] := rfl
  rw [renderItems, Item.renderList, String.toList_append, String.toList_append, hlines, hblank,
    List.nil_append]

end Header

/-- Whether a run found a text under its output path that was not generated. -/
def Output.replacesForeign (output : Output) : Bool :=
  output.previous.any fun text => !Header.isHeaded text

namespace Layer

variable {σ : Type} [Store σ] {settings : Settings} {s s' : σ} {output : Output}

/-- The text of a layer begins with the header, whatever the layer is. -/
theorem isHeaded_fileText (settings : Settings) (layer : Layer) :
    Header.isHeaded (layer.fileText settings) = true := by
  have hwritten := Header.toList_renderItems settings.style (layer.emitted settings)
  rw [fileText]
  exact Header.isHeaded_normalize _ (Header.isHeaded_written .lf hwritten)

/-- The text of every output is headed. -/
theorem isHeaded_of_build (h : build settings s = .ok output) :
    Header.isHeaded output.text = true := by
  obtain ⟨layer, previous, -, -, rfl⟩ := build_ok.1 h
  dsimp only
  exact isHeaded_fileText settings layer

/-- A later run finds the text that an earlier one has given. -/
theorem previous_of_generate [AtomicStore σ] (h : generate settings s = (.ok output, s'))
    {settings' : Settings} {later : Output} (hpath : settings'.output = settings.output)
    (hlater : build settings' s' = .ok later) : later.previous = some output.text := by
  have hread := (read_of_build hlater).2
  rw [hpath, (generate_reads h).1] at hread
  exact (Except.ok.inj hread).symm

/-- Every text that a run gives begins with the header, whatever the settings and the files are, and
normalizing any text keeps a header at its front. So a run that finds the result of an earlier run
under its output path, with whatever settings that was made, knows it for a generated file. -/
theorem generated_headed {σ : Type} [Store σ] :
    (∀ (settings : Settings) (s : σ) (output : Output), build settings s = .ok output →
      Header.isHeaded output.text = true) ∧
    (∀ (lineEnd : LineEnd) (text : String), Header.isHeaded text = true →
      Header.isHeaded (lineEnd.normalize text) = true) ∧
    ∀ [AtomicStore σ] (settings settings' : Settings) (s s' : σ) (output later : Output),
      generate settings s = (.ok output, s') → settings'.output = settings.output →
      build settings' s' = .ok later → later.replacesForeign = false := by
  refine ⟨fun settings s output h => isHeaded_of_build h,
    fun lineEnd text h => Header.isHeaded_normalize lineEnd h, ?_⟩
  intro _ settings settings' s s' output later h hpath hlater
  obtain ⟨hbuild, -⟩ := generate_ok h
  rw [Output.replacesForeign, previous_of_generate h hpath hlater, Option.any_some,
    isHeaded_of_build hbuild]
  rfl

/-- Other settings for the small declaration file, with the same output file. -/
def smallSettingsLf : Settings :=
  { smallSettings with lineEnd := .lf, style := ⟨2, false⟩ }

/-- A run with other line ends and another indentation finds the result of the first run. -/
theorem generated_headed_small :
    ∃ output s' later, generate smallSettings smallStore = (.ok output, s') ∧
      Header.isHeaded output.text = true ∧
      Header.isHeaded (LineEnd.lf.normalize output.text) = true ∧
      build smallSettingsLf s' = .ok later ∧ later.replacesForeign = false := by
  obtain ⟨hbuilt, hnormalized, hlater⟩ := generated_headed (σ := MemoryStore)
  obtain ⟨output, houtput⟩ : ∃ output, (generate smallSettings smallStore).1 = .ok output :=
    exists_ok (by decide +kernel)
  obtain ⟨later, hbuild⟩ :
      ∃ later, build smallSettingsLf (generate smallSettings smallStore).2 = .ok later :=
    exists_ok (by decide +kernel)
  have hgenerate : generate smallSettings smallStore =
      (.ok output, (generate smallSettings smallStore).2) := Prod.ext houtput rfl
  have hheaded := hbuilt smallSettings smallStore output (generate_ok hgenerate).1
  have hpath : smallSettingsLf.output = smallSettings.output := rfl
  exact ⟨output, _, later, hgenerate, hheaded, hnormalized .lf _ hheaded, hbuild,
    hlater smallSettings smallSettingsLf smallStore _ output later hgenerate hpath hbuild⟩

end Layer

end DeclLayer
