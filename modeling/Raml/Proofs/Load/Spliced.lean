import Mathlib.Algebra.GroupWithZero.Nat
import Raml.Proofs.Load.Inclusion
import Raml.Proofs.Load.Journal
import Raml.Proofs.Text.Lines

/-!
# What an expanded text is made of

Expanding moves what is included once for every text that it is included through. What comes out
in the end can be told without those steps, from the texts as they were found: a `Source` holds the
lines of a text in their order, and below each directive the source of what was included there.
`Source.rows` lists all of its lines, each with the columns of the directives through which it was
included.

`expand_rows` says that the lines of the expanded text are these rows, in this order, each moved by
the sum of its columns, and that there is no other source of the text. No directive is left, unless
one stands in content that is not expanded or after the `#` of a reference.
-/

namespace Raml.Inclusion

/-! ## Sources -/

/-- The lines of a text, with what was included below the directives among them. -/
inductive Source where
  | done
  | line (text : String) (rest : Source)
  | inclusion (d : Line) (location : String) (content rest : Source)

/-- A line of an expanded text, and the columns of the directives through which it was included,
the outermost first. -/
structure Row where
  columns : List Nat
  text : String
  deriving DecidableEq

/-- A row as it stands in the text. -/
def Row.written (r : Row) : String := Line.moveTo r.columns.sum r.text

/-- What is left of a line with a directive: what stood before it, and the mark of a block of text
if the line opens a type. -/
def Line.own (d : Line) : String := d.before ++ if d.isOpaque then "|" else ""

/-- The comment for what follows the `#` of a reference, if anything does. -/
def Line.comment (d : Line) : List String :=
  if d.fragment.isEmpty then [] else ["#" ++ d.fragment]

namespace Source

/-- Lines that are not expanded. -/
def ofLines : List String → Source
  | [] => .done
  | text :: rest => .line text (ofLines rest)

/-- All lines of a source that is itself included through directives in the given columns. -/
def rows (columns : List Nat) : Source → List Row
  | .done => []
  | .line text rest => ⟨columns, text⟩ :: rest.rows columns
  | .inclusion d _ content rest =>
    let inner := columns ++ [d.column]
    ⟨columns, d.own⟩ :: (content.rows inner ++ d.comment.map (Row.mk inner) ++ rest.rows columns)

/-- Every directive, with the location that it refers to. -/
def inclusions : Source → List (Line × String)
  | .done => []
  | .line _ rest => rest.inclusions
  | .inclusion d location content rest =>
    (d, location) :: (content.inclusions ++ rest.inclusions)

end Source

/-- Whether lines in a document of the folder `base` are those of a source: those without a
directive stand for themselves, and the others for what they include. That is not expanded in turn
where it may be a schema. -/
inductive Unfolds (a : Access) : String → List String → Source → Prop
  | done {base : String} : Unfolds a base [] .done
  | line {base text : String} {rest : List String} {src : Source}
      (plain : Line.ofString? text = none) (next : Unfolds a base rest src) :
      Unfolds a base (text :: rest) (.line text src)
  | verbatim {base m text found : String} {rest : List String} {src : Source} {d : Line}
      (directive : Line.ofString? text = some d) (refers : Location.join base d.reference = .ok m)
      (read : textAt a m = some found) (stays : found = "" ∨ d.isOpaque = true)
      (next : Unfolds a base rest src) :
      Unfolds a base (text :: rest) (.inclusion d m (.ofLines (Text.lines found)) src)
  | expanded {base m text found folder : String} {rest : List String} {content src : Source}
      {d : Line} (directive : Line.ofString? text = some d)
      (refers : Location.join base d.reference = .ok m) (read : textAt a m = some found)
      (full : found ≠ "") (transparent : d.isOpaque = false)
      (home : Location.folder m = .ok folder)
      (inner : Unfolds a folder (Text.lines found) content) (next : Unfolds a base rest src) :
      Unfolds a base (text :: rest) (.inclusion d m content src)

/-- Whether no directive stands where it is not expanded: after the `#` of a reference, or in
content that may be a schema. -/
def Source.IsClear (a : Access) (src : Source) : Prop :=
  ∀ e ∈ src.inclusions, Text.contains directive e.1.fragment = false ∧
    (e.1.isOpaque = true → ∀ text ∈ textAt a e.2, Text.contains directive text = false)

instance (a : Access) (src : Source) : Decidable (src.IsClear a) :=
  inferInstanceAs (Decidable (∀ e ∈ src.inclusions, _))

section Sources

variable {a : Access} {base : String} {lines : List String} {src src' : Source}

/-- A line includes no more than one text. -/
theorem found_unique {line m m' found found' : String} {d d' : Line}
    (hline : Line.ofString? line = some d) (hline' : Line.ofString? line = some d')
    (hrefers : Location.join base d.reference = .ok m)
    (hrefers' : Location.join base d'.reference = .ok m') (hread : textAt a m = some found)
    (hread' : textAt a m' = some found') : d' = d ∧ m' = m ∧ found' = found := by
  obtain rfl := Option.some.inj (hline'.symm.trans hline)
  obtain rfl := Except.ok.inj (hrefers'.symm.trans hrefers)
  exact ⟨rfl, rfl, Option.some.inj (hread'.symm.trans hread)⟩

/-- Lines have no more than one source. -/
theorem Unfolds.unique (h : Unfolds a base lines src) (h' : Unfolds a base lines src') :
    src' = src := by
  induction h generalizing src' with
  | done =>
    cases h'
    rfl
  | line plain _ ih =>
    cases h' with
    | line _ next => rw [ih next]
    | verbatim directive => cases plain.symm.trans directive
    | expanded directive => cases plain.symm.trans directive
  | verbatim directive refers read stays _ ih =>
    cases h' with
    | line plain => cases plain.symm.trans directive
    | verbatim directive' refers' read' _ next =>
      obtain ⟨rfl, rfl, rfl⟩ := found_unique directive directive' refers refers' read read'
      rw [ih next]
    | expanded directive' refers' read' full transparent =>
      -- what is not expanded is empty or may be a schema, and then it is not expanded here either
      obtain ⟨rfl, rfl, rfl⟩ := found_unique directive directive' refers refers' read read'
      rw [transparent, or_iff_left Bool.false_ne_true] at stays
      exact absurd stays full
  | expanded directive refers read full transparent home _ _ ihinner ih =>
    cases h' with
    | line plain => cases plain.symm.trans directive
    | verbatim directive' refers' read' stays =>
      obtain ⟨rfl, rfl, rfl⟩ := found_unique directive directive' refers refers' read read'
      rw [transparent, or_iff_left Bool.false_ne_true] at stays
      exact absurd stays full
    | expanded directive' refers' read' _ _ home' inner next =>
      obtain ⟨rfl, rfl, rfl⟩ := found_unique directive directive' refers refers' read read'
      obtain rfl := Except.ok.inj (home.symm.trans home')
      rw [ihinner inner, ih next]

/-! ## Rows -/

/-- A row moved by a column more. -/
def Row.under (column : Nat) (r : Row) : Row := ⟨column :: r.columns, r.text⟩

theorem Row.written_under (column : Nat) (r : Row) :
    (r.under column).written = Line.moveTo column r.written := by
  simp only [written, under, Line.moveTo, List.sum_cons, ← List.replicate_append_replicate,
    String.ofList_append, String.append_assoc]

/-- What a source is included through comes before the columns in it. -/
theorem Source.rows_cons (column : Nat) (src : Source) (columns : List Nat) :
    src.rows (column :: columns) = (src.rows columns).map (Row.under column) := by
  induction src generalizing columns with
  | done => rfl
  | line text rest ih => rw [rows, rows, List.map_cons, ih]; rfl
  | inclusion d location content rest ihcontent ih =>
    simp only [rows, List.map_cons, List.map_append, List.map_map, List.cons_append, ihcontent, ih]
    rfl

theorem Source.rows_ofLines (lines : List String) (columns : List Nat) :
    (ofLines lines).rows columns = lines.map (Row.mk columns) := by
  induction lines with
  | nil => rfl
  | cons line lines ih => rw [ofLines, rows, ih, List.map_cons]

theorem Source.inclusions_ofLines (lines : List String) : (ofLines lines).inclusions = [] := by
  induction lines with
  | nil => rfl
  | cons line lines ih => rw [ofLines, inclusions, ih]

theorem Row.written_mk_nil (text : String) : (Row.mk [] text).written = text := by
  simp [written, Line.moveTo]

/-- The lines of an expanded text, as rows. -/
def Source.written (src : Source) : List String := (src.rows []).map Row.written

/-- Lines in which nothing is included are written as they are. -/
theorem Source.written_ofLines (lines : List String) : (ofLines lines).written = lines := by
  simp only [written, rows_ofLines, List.map_map]
  exact List.map_id'' Row.written_mk_nil lines

theorem Source.written_line (text : String) (rest : Source) :
    (Source.line text rest).written = text :: rest.written := by
  simp only [written, rows, List.map_cons, Row.written_mk_nil]

/-- What is spliced in is moved once more than it was before. -/
theorem Source.written_inclusion (d : Line) (location : String) (content rest : Source) :
    (Source.inclusion d location content rest).written =
      d.spliced content.written ++ rest.written := by
  have hcontent : (content.rows [d.column]).map Row.written =
      content.written.map (Line.moveTo d.column) := by
    rw [rows_cons, written, List.map_map, List.map_map]
    exact List.map_congr_left fun r _ => r.written_under d.column
  have hcomment : (d.comment.map (Row.mk [d.column])).map Row.written =
      d.comment.map (Line.moveTo d.column) := by
    rw [List.map_map]
    refine List.map_congr_left fun t _ => ?_
    rw [← Row.written_mk_nil t, ← Row.written_under]
    rfl
  have hspliced : d.spliced content.written =
      d.own :: (content.written ++ d.comment).map (Line.moveTo d.column) := rfl
  rw [hspliced, List.map_append, ← hcontent, ← hcomment]
  simp only [written, rows, List.nil_append, List.map_cons, List.map_append, Row.written_mk_nil,
    List.cons_append]

/-! ## Expanding -/

/-- What lines expand to is written from what they unfold to, if this holds of what they include. -/
theorem rows_of_expandLines {expand : List String → String → String → Load (List String)}
    {chain : List String}
    (hexpand : ∀ chain base text j result j', expand chain base text j = .ok result j' →
      ∃ src, Unfolds a base (Text.lines text) src ∧ result = src.written)
    {j j' : Journal} {result : List String}
    (h : expandLines (expandLine a expand chain base) lines j = .ok result j') :
    ∃ src, Unfolds a base lines src ∧ result = src.written := by
  induction lines generalizing j j' result with
  | nil =>
    cases h
    exact ⟨.done, .done, rfl⟩
  | cons line lines ih =>
    obtain ⟨first, j₁, hfirst, h⟩ := of_run_bind h
    obtain ⟨others, j₂, hothers, h⟩ := of_run_bind h
    cases h
    obtain ⟨rest, hrest, rfl⟩ := ih hothers
    cases hd : Line.ofString? line with
    | none =>
      rw [expandLine, hd] at hfirst
      cases hfirst
      exact ⟨.line line rest, .line hd hrest, (Source.written_line line rest).symm⟩
    | some d =>
      obtain ⟨m, hm, -, found, hfound, hgoes⟩ := of_expandLine_ok (p := ⟨chain, base, ""⟩) hfirst hd
      -- what is included was expanded by itself, in its own folder, before it is spliced in
      rcases hgoes with ⟨hstays, rfl⟩ | ⟨hfull, hschema, folder, _, j₃, j₄, hfolder, hinner, rfl⟩
      · refine ⟨_, .verbatim hd hm hfound hstays hrest, ?_⟩
        rw [Source.written_inclusion, Source.written_ofLines]
      · obtain ⟨content, hcontent, rfl⟩ := hexpand _ _ _ _ _ _ hinner
        refine ⟨_, .expanded hd hm hfound hfull hschema hfolder hcontent hrest, ?_⟩
        rw [Source.written_inclusion]

/-- What a text expands to is written from what it unfolds to. -/
theorem rows_of_expand {depth : Nat} {chain : List String} {text : String} {j j' : Journal}
    {result : List String} (h : expand a depth chain base text j = .ok result j') :
    ∃ src, Unfolds a base (Text.lines text) src ∧ result = src.written := by
  induction depth generalizing chain base text j result j' with
  | zero => cases h
  | succ depth ih => exact rows_of_expandLines (fun _ _ _ _ _ _ => ih) h

/-! ## What stands in the lines -/

/-- What stands around the directive of a line stands on the line, and the directive is its first
one. -/
theorem of_ofString? {text : String} {d : Line} (h : Line.ofString? text = some d) :
    d.before.toList <:+: text.toList ∧ d.fragment.toList <:+: text.toList ∧
      ¬directive.toList <:+: d.before.toList := by
  rw [Line.ofString?] at h
  obtain ⟨⟨before, after⟩, hcut, hd⟩ := Option.map_eq_some_iff.mp h
  have htext := Text.cut?_eq_some hcut
  have hafter : after <:+: text.toList := htext ▸ (List.suffix_append ..).isInfix
  have hbefore : before <:+: text.toList := by
    rw [htext, List.append_assoc]
    exact (List.prefix_append ..).isInfix
  subst hd
  simp only [splitReference, String.toList_ofList]
  refine ⟨hbefore, ?_, Text.not_infix_of_cut? (by decide) hcut⟩
  exact (((List.drop_suffix ..).trans (List.drop_suffix ..)).isInfix).trans hafter

/-- What holds of every kind of line in a source holds of all its rows. -/
theorem Unfolds.forall_rows {P : String → Prop} (h : Unfolds a base lines src)
    (hlines : ∀ line ∈ lines, Text.IsLine line.toList)
    (hplain : ∀ line, Text.IsLine line.toList → Line.ofString? line = none → P line)
    (hown : ∀ line d, Text.IsLine line.toList → Line.ofString? line = some d → P d.own)
    (hcomment : ∀ e ∈ src.inclusions, ∀ line, Text.IsLine line.toList →
      Line.ofString? line = some e.1 → ∀ t ∈ e.1.comment, P t)
    (hschema : ∀ e ∈ src.inclusions, e.1.isOpaque = true → ∀ text ∈ textAt a e.2,
      ∀ line ∈ Text.lines text, P line) (columns : List Nat) :
    ∀ r ∈ src.rows columns, P r.text := by
  -- along the unfolding: the rows of an included text stand between two lines of this one
  induction h generalizing columns with
  | done => exact List.forall_mem_nil _
  | line plain _ ih =>
    rw [List.forall_mem_cons] at hlines
    rw [Source.rows, List.forall_mem_cons]
    exact ⟨hplain _ hlines.1 plain, ih hlines.2 hcomment hschema columns⟩
  | @verbatim base m text found rest src d directive refers read stays _ ih =>
    rw [List.forall_mem_cons] at hlines
    rw [Source.inclusions, List.forall_mem_cons, Source.inclusions_ofLines, List.nil_append]
      at hcomment hschema
    simp only [Source.rows, Source.rows_ofLines, List.forall_mem_cons, List.forall_mem_append,
      List.forall_mem_map]
    refine ⟨hown _ _ hlines.1 directive, ⟨fun line hline => ?_, ?_⟩,
      ih hlines.2 hcomment.2 hschema.2 columns⟩
    · -- an empty text has no lines, and an opaque one is given as it is
      rcases stays with rfl | hopaque
      · cases hline
      · exact hschema.1 hopaque found read line hline
    · exact hcomment.1 text hlines.1 directive
  | @expanded base m text found folder rest content src d directive refers read full transparent
      home _ _ ihinner ih =>
    rw [List.forall_mem_cons] at hlines
    rw [Source.inclusions, List.forall_mem_cons, List.forall_mem_append] at hcomment hschema
    simp only [Source.rows, List.forall_mem_cons, List.forall_mem_append, List.forall_mem_map]
    refine ⟨hown _ _ hlines.1 directive, ⟨?_, ?_⟩, ih hlines.2 hcomment.2.2 hschema.2.2 columns⟩
    · exact ihinner (fun line hline => (Text.of_mem_lines hline).1) hcomment.2.1 hschema.2.1 _
    · exact hcomment.1 text hlines.1 directive

/-- No row holds a line break. -/
theorem Unfolds.isLine_rows (h : Unfolds a base lines src)
    (hlines : ∀ line ∈ lines, Text.IsLine line.toList) (columns : List Nat) :
    ∀ r ∈ src.rows columns, Text.IsLine r.text.toList := by
  refine h.forall_rows hlines (fun _ hline _ => hline) ?_ ?_ ?_ columns
  · intro line d hline hd
    rw [Line.own, String.toList_append, Text.isLine_append]
    refine ⟨hline.of_infix (of_ofString? hd).1, ?_⟩
    split <;> decide
  · intro e _ line hline he t ht
    rw [Line.comment] at ht
    split at ht
    · cases ht
    · rw [List.mem_singleton.mp ht, String.toList_append, Text.isLine_append]
      exact ⟨by decide, hline.of_infix (of_ofString? he).2.1⟩
  · exact fun _ _ _ _ _ _ hline => (Text.of_mem_lines hline).1

/-- No row holds a directive, unless one stands where it is not expanded. -/
theorem Unfolds.plain_rows (h : Unfolds a base lines src)
    (hlines : ∀ line ∈ lines, Text.IsLine line.toList) (hclear : src.IsClear a)
    (columns : List Nat) : ∀ r ∈ src.rows columns, ¬directive.toList <:+: r.text.toList := by
  have hcontains {t : String} : Text.contains directive t = false ↔
      ¬directive.toList <:+: t.toList := by
    rw [← Bool.not_eq_true, Text.contains_iff]
  refine h.forall_rows (P := fun t => ¬directive.toList <:+: t.toList) hlines ?_ ?_ ?_ ?_ columns
  · -- a line without a directive
    intro line _ hnone
    rw [← Text.isSome_cut?_iff, Option.map_eq_none_iff.mp hnone]
    exact Bool.false_ne_true
  · -- what stands before a directive, and the bar after it
    intro line d _ hd
    have hbefore := (of_ofString? hd).2.2
    rw [Line.own]
    split
    · have hbar : '|' ∉ directive.toList := by decide
      rw [String.toList_append]
      change ¬directive.toList <:+: d.before.toList ++ ['|']
      rw [Text.infix_append_cons hbar, not_or]
      exact ⟨hbefore, by decide⟩
    · rwa [String.append_empty]
  · -- the fragment, written as a comment
    intro e he _ _ _ t ht
    rw [Line.comment] at ht
    split at ht
    · cases ht
    · have hsharp : '#' ∉ directive.toList := by decide
      rw [List.mem_singleton.mp ht, String.toList_append]
      change ¬directive.toList <:+: [] ++ '#' :: e.1.fragment.toList
      rw [Text.infix_append_cons hsharp, not_or]
      exact ⟨by decide, hcontains.mp (hclear e he).1⟩
  · -- a line of an opaque text
    intro e he hopaque text htext line hline hinside
    have hline := (Text.of_mem_lines hline).2
    exact hcontains.mp ((hclear e he).2 hopaque text htext) (hinside.trans hline)

theorem isLine_moveTo {column : Nat} {t : String} (h : Text.IsLine t.toList) :
    Text.IsLine (Line.moveTo column t).toList := by
  rw [Line.moveTo, String.toList_append, Text.isLine_append, String.toList_ofList]
  refine ⟨⟨fun hmem => ?_, fun hmem => ?_⟩, h⟩ <;> cases List.eq_of_mem_replicate hmem

/-- Moving a line to the right brings no directive into it. -/
theorem infix_moveTo {column : Nat} {t : String} :
    directive.toList <:+: (Line.moveTo column t).toList ↔ directive.toList <:+: t.toList := by
  have hspace : ' ' ∉ directive.toList := by decide
  have hempty : ¬directive.toList <:+: [] := by decide
  rw [Line.moveTo, String.toList_append, String.toList_ofList]
  induction column with
  | zero => rfl
  | succ column ih =>
    rw [List.replicate_succ, List.cons_append]
    exact ((Text.infix_append_cons hspace).trans (or_iff_right hempty)).trans ih

end Sources

/--
**An expanded text is made of the lines that its source holds.** Where a text can be expanded, it
has one source. What comes out are the rows of it in their order: every line of every text that is
included, where it is included, moved by the sum of the columns of the directives above it, a line
with a directive cut before that, and a comment for each fragment after what was spliced in. Each
row is ended by one newline, and there are no other line breaks. No directive is left, unless one
stands where it is not expanded.
-/
theorem expand_rows (a : Access) (chain : List String) (base text s : String) (j j' : Journal)
    (h : a.expand chain base text j = .ok s j') :
    ∃ src, Unfolds a base (Text.lines text) src ∧
      (∀ src', Unfolds a base (Text.lines text) src' → src' = src) ∧
      s = String.join (src.written.map (· ++ "\n")) ∧ Text.lines s = src.written ∧
      '\r' ∉ s.toList ∧ (src.IsClear a → Text.contains directive s = false) := by
  obtain ⟨lines, j₁, hlines, h⟩ := of_run_bind h
  cases h
  obtain ⟨src, hsrc, rfl⟩ := rows_of_expand hlines
  have hstart : ∀ line ∈ Text.lines text, Text.IsLine line.toList :=
    fun line hline => (Text.of_mem_lines hline).1
  -- the included texts are lines too, and moving them to the right breaks none of them
  have hwritten : ∀ line ∈ src.written, Text.IsLine line.toList := by
    rw [Source.written, List.forall_mem_map]
    exact fun r hr => isLine_moveTo (hsrc.isLine_rows hstart [] r hr)
  refine ⟨src, hsrc, fun src' => hsrc.unique, rfl, Text.lines_join hwritten, ?_, fun hclear => ?_⟩
  · rw [Text.toList_join, List.mem_flatMap]
    rintro ⟨line, hline, hmem⟩
    rw [List.mem_append, or_iff_right (hwritten line hline).2] at hmem
    exact absurd hmem (by decide)
  · rw [← Bool.not_eq_true, Text.contains_iff, Text.infix_join (by decide) (by decide)]
    rintro ⟨line, hline, hinside⟩
    obtain ⟨r, hr, rfl⟩ := List.mem_map.mp hline
    exact hsrc.plain_rows hstart hclear [] r hr (infix_moveTo.mp hinside)

/-- Three files: one includes the second, and the third may be a schema. -/
def shelves : Access where
  store := {
    read := fun l =>
      let text (s : String) : List UInt8 := s.toUTF8.toList
      if l = "book.raml" then .ok (text "usage: !include note.raml\rminLength: 1\n")
      else if l = "note.raml" then .ok (text "short\r\n")
      else if l = "shelf.json" then .ok (text "\x7b\x7d")
      else .error .location
    depth := 3 }
  settings := default

/-- A text that includes the first file and the third one. -/
def shelvesText : String := "Book: !include book.raml#v1\n  type: !include shelf.json"

/-- What the text is made of. -/
def shelvesSource : Source :=
  .inclusion ⟨"Book: ", "book.raml", "v1", false⟩ "book.raml"
    (.inclusion ⟨"usage: ", "note.raml", "", false⟩ "note.raml" (.line "short" .done)
      (.line "minLength: 1" .done))
    (.inclusion ⟨"  type: ", "shelf.json", "", true⟩ "shelf.json" (.line "\x7b\x7d" .done) .done)

theorem shelves_unfolds : Unfolds shelves "." (Text.lines shelvesText) shelvesSource := by
  have hshelf : Unfolds shelves "." ["  type: !include shelf.json"] (.inclusion
      ⟨"  type: ", "shelf.json", "", true⟩ "shelf.json" (.ofLines (Text.lines "\x7b\x7d")) .done) :=
    .verbatim (by decide +kernel) (by decide +kernel) (by decide +kernel) (.inr rfl) .done
  have hnote : Unfolds shelves "." (Text.lines "short\r\n") (.line "short" .done) :=
    .line (by decide +kernel) .done
  have hbook : Unfolds shelves "." (Text.lines "usage: !include note.raml\rminLength: 1\n")
      (.inclusion ⟨"usage: ", "note.raml", "", false⟩ "note.raml" (.line "short" .done)
        (.line "minLength: 1" .done)) :=
    .expanded (by decide +kernel) (by decide +kernel) (by decide +kernel) (by decide) rfl
      (by decide +kernel) hnote (.line (by decide +kernel) .done)
  exact .expanded (by decide +kernel) (by decide +kernel) (by decide +kernel) (by decide) rfl
    (by decide +kernel) hbook hshelf

/-- The first file stands in the column of its directive, and what it includes further right. -/
theorem shelves_rows : ∃ s j, shelves.expand [] "." shelvesText .empty = .ok s j ∧
    s = "Book: \n      usage: \n             short\n      minLength: 1\n      #v1\n" ++
      "  type: |\n        \x7b\x7d\n" ∧ Text.contains directive s = false := by
  have hok : (Load.outcome (shelves.expand [] "." shelvesText)).isOk = true := by decide +kernel
  rw [Load.outcome] at hok
  cases h : shelves.expand [] "." shelvesText .empty with
  | error e j => simp [h, Except.isOk, Except.toBool] at hok
  | ok s j =>
    obtain ⟨src, -, hunique, hs, -, -, hplain⟩ := expand_rows _ _ _ _ _ _ _ h
    obtain rfl := hunique shelvesSource shelves_unfolds
    have hclear : shelvesSource.IsClear shelves := by decide +kernel
    exact ⟨s, j, rfl, hs.trans (by decide +kernel), hplain hclear⟩

end Raml.Inclusion
