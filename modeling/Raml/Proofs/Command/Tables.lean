import Raml.Proofs.Command.Started
import Raml.Proofs.Output.Sheet
import Raml.Proofs.Read.Checked

/-!
# Sheets of a definition

Four commands show a sheet of a definition, and what stands on it are texts of the documents: paths,
names, types, the start of a description, remarks on how to use a template. Only the description is
cut at its line breaks; everything else goes on the sheet as it is. So a plain sheet can be read
back if none of these texts holds a tab or a newline, and otherwise cannot (`run_sheet_iff`).

`Inspection.Shows` names the sheet of each command together with the texts that its cells are made
of; what the commands put around them, commas, dots and dashes, is never in the way.
-/

namespace Raml

namespace Inspection

/-! ## Cells -/

theorem isCell_orDash {s : String} : IsCell (orDash s) ↔ IsCell s := by
  unfold orDash
  split
  · rename_i hempty
    rw [String.isEmpty_iff] at hempty
    exact iff_of_true (by decide) (hempty ▸ by decide)
  · exact .rfl

/-- A listing of names is a cell exactly when each name is. -/
theorem isCell_listed {names : List String} : IsCell (listed names) ↔ AreCells names := by
  unfold listed
  rw [isCell_orDash, isCell_intercalate (by decide)]

/-- The names of the choices that choose something. -/
def namesOf (cs : List (Option Choice)) : List String := cs.filterMap (Option.map Choice.name)

/-- A choice shows its name alone, whatever it hands over. -/
theorem isCell_choiceNames {cs : List (Option Choice)} :
    IsCell (choiceNames cs) ↔ AreCells (namesOf cs) := by
  unfold choiceNames
  rw [isCell_listed]
  induction cs with
  | nil => exact .rfl
  | cons c cs ih =>
    have hnull : IsCell "null" := by decide
    cases c with
    | none =>
      rw [List.map_cons, areCells_cons, ih]
      exact and_iff_right hnull
    | some c =>
      rw [List.map_cons, areCells_cons, ih]
      exact areCells_cons.symm

/-- Of many names only the first ones are shown, and only they matter. -/
theorem isCell_abridged {names : List String} :
    IsCell (abridged names) ↔ AreCells (names.take mostProperties) := by
  have hdots : IsCell (if mostProperties < names.length then "..." else "") := by
    split <;> decide
  unfold abridged
  rw [isCell_orDash, isCell_append, isCell_intercalate (by decide)]
  exact and_iff_left hdots

/-! ## Rows -/

/-- Whether the cells of some rows, of which none is without any, are made of the given texts. -/
structure Tells (rows : List (List String)) (texts : List String) : Prop where
  ne_nil : ∀ row ∈ rows, row ≠ []
  areCells_iff : AreCells rows.flatten ↔ AreCells texts

namespace Tells

variable {α : Type} {as : List α} {rows rows' : List (List String)} {texts texts' : List String}
  {g : α → List String}

theorem nil : Tells [] [] := ⟨List.forall_mem_nil _, .rfl⟩

theorem single {row : List String} (hne : row ≠ []) (h : AreCells row ↔ AreCells texts) :
    Tells [row] texts where
  ne_nil := List.forall_mem_singleton.mpr hne
  areCells_iff := by rwa [List.flatten_singleton]

theorem append (h : Tells rows texts) (h' : Tells rows' texts') :
    Tells (rows ++ rows') (texts ++ texts') where
  ne_nil := List.forall_mem_append.mpr ⟨h.ne_nil, h'.ne_nil⟩
  areCells_iff := by
    rw [List.flatten_append, areCells_append, areCells_append, h.areCells_iff, h'.areCells_iff]

theorem flatMap {f : α → List (List String)} (h : ∀ a ∈ as, Tells (f a) (g a)) :
    Tells (as.flatMap f) (as.flatMap g) := by
  induction as with
  | nil => exact nil
  | cons a as ih =>
    rw [List.forall_mem_cons] at h
    rw [List.flatMap_cons, List.flatMap_cons]
    exact h.1.append (ih h.2)

theorem map {row : α → List String} (h : ∀ a ∈ as, Tells [row a] (g a)) :
    Tells (as.map row) (as.flatMap g) := by
  rw [List.map_eq_flatMap]
  exact flatMap h

/-- The same for rows that have to be made first. -/
theorem mapM {f : α → Except Error (List (List String))} {rowss : List (List (List String))}
    (h : ∀ a rows, f a = .ok rows → Tells rows (g a)) (hrows : as.mapM f = .ok rowss) :
    Tells rowss.flatten (as.flatMap g) := by
  induction mapM_eq_ok.mp hrows with
  | nil => exact nil
  | cons hfirst hrest ih =>
    rw [List.flatten_cons, List.flatMap_cons]
    exact (h _ _ hfirst).append (ih (mapM_eq_ok.mpr hrest))

/-- Rows that are made one for each element tell what the single rows tell. -/
theorem mapM_single {f : α → Except Error (List String)}
    (h : ∀ a row, f a = .ok row → Tells [row] (g a)) (hrows : as.mapM f = .ok rows) :
    Tells rows (as.flatMap g) := by
  induction mapM_eq_ok.mp hrows with
  | nil => exact nil
  | cons hfirst hrest ih =>
    rw [List.flatMap_cons]
    exact (h _ _ hfirst).append (ih (mapM_eq_ok.mpr hrest))

end Tells

/-- The texts in the row of a resource. -/
def resourceTexts (l : Resource.Located) : List String :=
  l.fullUri :: (l.resource.methods.map fun e => e.2.name) ++
    (l.resource.type.map Choice.name).toList ++ l.resource.traits.map Choice.name

theorem tells_resourceRow (l : Resource.Located) : Tells [resourceRow l] (resourceTexts l) := by
  have htype : IsCell ((l.resource.type.map Choice.name).getD "-") ↔
      AreCells (l.resource.type.map Choice.name).toList := by
    cases l.resource.type with
    | none => exact iff_of_true (by decide) areCells_nil
    | some c => simp
  have htraits : namesOf (l.resource.traits.map some) = l.resource.traits.map Choice.name := by
    rw [namesOf, List.filterMap_map]
    exact congrFun List.filterMap_eq_map l.resource.traits
  refine .single (List.cons_ne_nil _ _) ?_
  unfold resourceRow resourceTexts
  simp only [areCells_cons, areCells_append, areCells_nil, isCell_listed, isCell_choiceNames, htype,
    htraits, and_true, and_assoc]

/-- The texts in the row of a method. -/
def methodTexts (a : Api) (l : Resource.Located) (m : Method) : List String :=
  m.name :: l.fullUri :: firstLine (m.description.getD "") :: m.responses.names ++
    namesOf (firstGiven [m.securedBy, l.resource.securedBy, a.securedBy])

theorem tells_methodRow (a : Api) (l : Resource.Located) (m : Method) :
    Tells [methodRow a l m] (methodTexts a l m) := by
  refine .single (List.cons_ne_nil _ _) ?_
  unfold methodRow methodTexts
  simp only [areCells_cons, areCells_append, areCells_nil, isCell_listed, isCell_choiceNames,
    and_true, List.cons_append]

/-- The texts in the row of a type. -/
def typeTexts (name : String) (t : TypeDeclaration) : List String :=
  name :: t.typeText ::
    (t.properties.map fun e => (Property.nameOfKey e.1).1).take mostProperties

theorem name_of_ofShape {key : String} {shape : Shape} {p : Property}
    (h : Property.ofShape key shape = .good p) : p.name = (Property.nameOfKey key).1 := by
  cases shape with
  | inline type properties items facets =>
    rw [Property.ofShape] at h
    -- Every field that follows the shape is read on its own, and the name is none of them.
    iterate 13 refine Checked.of_seq_good h fun g h a => ?_
    obtain ⟨_, -, rfl⟩ := Checked.map_eq_good.mp h
    rfl
  | _ =>
    cases h
    rfl

/-- The names of the properties of a type are its keys without the mark. -/
theorem names_of_properties {es : Table Shape} {properties : List Property}
    (h : es.mapM (fun e => (Property.ofShape e.1 e.2).toExcept.mapError Error.facets) =
      .ok properties) :
    properties.map Property.name = es.map fun e => (Property.nameOfKey e.1).1 := by
  induction mapM_eq_ok.mp h with
  | nil => rfl
  | cons hread hrest ih =>
    have hgood := Checked.toExcept_eq_ok.mp (mapError_eq_ok.mp hread)
    rw [List.map_cons, List.map_cons, ih (mapM_eq_ok.mpr hrest), name_of_ofShape hgood]

theorem tells_of_typeRow {name : String} {t : TypeDeclaration} {row : List String}
    (h : typeRow name t = .ok row) : Tells [row] (typeTexts name t) := by
  obtain ⟨properties, hproperties, hrow⟩ := bind_eq_ok.mp h
  obtain rfl := pure_eq_ok.mp hrow
  have hnames := names_of_properties hproperties
  refine .single (List.cons_ne_nil _ _) ?_
  unfold typeTexts
  simp only [areCells_cons, areCells_nil, isCell_abridged, hnames, and_true]

/-- The texts in the row of a template. -/
def templateTexts (name : String) (usage : Option String) : List String := [name, usage.getD ""]

theorem tells_templateRow (kind name : String) (usage : Option String) (hkind : IsCell kind) :
    Tells [[kind, name, orDash (usage.getD "")]] (templateTexts name usage) := by
  refine .single (List.cons_ne_nil _ _) ?_
  unfold templateTexts
  simp only [areCells_cons, isCell_orDash, hkind, true_and]

/-! ## Sheets -/

/-- The texts on the sheet of types. -/
def typesTexts (a : Api) : List String :=
  (declarations a).flatMap fun d => d.2.types.flatMap fun e => typeTexts (d.1 ++ e.1) e.2

/-- The texts on the sheet of templates. -/
def templatesTexts (a : Api) : List String :=
  (declarations a).flatMap fun d =>
    (d.2.traits.flatMap fun e => templateTexts (d.1 ++ e.1) e.2.usage) ++
      d.2.resourceTypes.flatMap fun e => templateTexts (d.1 ++ e.1) e.2.usage

/-- Whether a command shows a sheet, and which texts of the definition stand on it. -/
inductive Shows (a : Api) : String → Sheet → List String → Prop where
  | resources : Shows a "resources" (resources a) (a.located.flatMap resourceTexts)
  | methods : Shows a "methods" (methods a)
      (a.located.flatMap fun l => l.resource.methods.flatMap fun e => methodTexts a l e.2)
  | types {sheet : Sheet} (h : types a = .ok sheet) (hne : sheet.rows ≠ []) :
      Shows a "types" sheet (typesTexts a)
  | traits (hne : (templates a).rows ≠ []) : Shows a "traits" (templates a) (templatesTexts a)

variable {a : Api} {name : String} {sheet : Sheet} {texts : List String}

theorem of_types (h : types a = .ok sheet) :
    sheet.headings = ["Type", "Base", "Properties"] ∧ Tells sheet.rows (typesTexts a) := by
  obtain ⟨rowss, hrows, hsheet⟩ := bind_eq_ok.mp h
  obtain rfl := pure_eq_ok.mp hsheet
  refine ⟨rfl, .mapM (fun d rows hrows => ?_) hrows⟩
  exact .mapM_single (fun e row hrow => tells_of_typeRow hrow) hrows

theorem tells_templates (a : Api) : Tells (templates a).rows (templatesTexts a) := by
  refine .flatMap fun d _ => .append (.map fun e _ => ?_) (.map fun e _ => ?_)
  · exact tells_templateRow _ _ _ (by decide)
  · exact tells_templateRow _ _ _ (by decide)

/-- Every sheet that a command shows is made of the texts that are listed for it. -/
theorem Shows.tells (h : Shows a name sheet texts) : Tells sheet.rows texts := by
  cases h with
  | resources => exact .map fun l _ => tells_resourceRow l
  | methods => exact .flatMap fun l _ => .map fun e _ => tells_methodRow a l e.2
  | types h hne => exact (of_types h).2
  | traits hne => exact tells_templates a

/-- The headings of every sheet are cells themselves. -/
theorem Shows.headings (h : Shows a name sheet texts) :
    sheet.headings ≠ [] ∧ AreCells sheet.headings := by
  have hcells : AreCells ["Path", "Methods", "Type", "Traits"] ∧
      AreCells ["Method", "Path", "Description", "Responses", "Secured By"] ∧
      AreCells ["Type", "Base", "Properties"] ∧ AreCells ["Kind", "Name", "Usage"] := by decide
  cases h with
  | resources => exact ⟨List.cons_ne_nil _ _, hcells.1⟩
  | methods => exact ⟨List.cons_ne_nil _ _, hcells.2.1⟩
  | types h hne =>
    rw [(of_types h).1]
    exact ⟨List.cons_ne_nil _ _, hcells.2.2.1⟩
  | traits hne => exact ⟨List.cons_ne_nil _ _, hcells.2.2.2⟩

/-- A sheet that a command shows is found again in its text if the texts on it can stand in cells,
and only then. -/
theorem Shows.cellsOf_iff (h : Shows a name sheet texts) :
    Sheet.cellsOf sheet.text = sheet.headings :: sheet.rows ↔ AreCells texts := by
  have hne : ∀ row ∈ sheet.headings :: sheet.rows, row ≠ [] := by
    rw [List.forall_mem_cons]
    exact ⟨h.headings.1, h.tells.ne_nil⟩
  rw [Sheet.cellsOf_text_iff hne, h.tells.areCells_iff]
  exact and_iff_right h.headings.2

end Inspection

/-! ## The commands -/

/-- With the plain format a sheet is written as its text. -/
theorem Output.presentSheet_plain {o : Output} (hplain : o.format = .plain) (sheet : Sheet)
    (s : Session) : o.presentSheet sheet s = .ok () (s.writing sheet.text) := by
  unfold presentSheet
  rw [hplain]
  exact writeLines_ok sheet.lines s

namespace Command

variable {args : List String} {l : Line} {name source : String} {s : Session} {o : Output}
  {a : Api} {shown : Output → Api → Action Unit} {sheet : Sheet} {texts : List String}

/-- Whether a line calls for something of the definition at `source` to be shown. -/
def CallsInspect (args : List String) (l : Line) (name source : String) : Prop :=
  ∃ group inner rest last, Calls args l "inspect" group ∧ Takes [] false group inner ∧
    inner.others = name :: rest ∧ Takes [] true rest last ∧ last.others = [source]

theorem lookup_view {vs : List (String × (Output → Api → Action Unit))}
    (h : vs.lookup name = some shown) :
    (vs.map fun v => (v.1, fun c => view c v.2)).lookup name = some fun c => view c shown := by
  induction vs with
  | nil => cases h
  | cons v vs ih =>
    rw [List.lookup_cons] at h
    rw [List.map_cons, List.lookup_cons]
    cases hname : name == v.1 with
    | true =>
      rw [hname] at h
      rw [← Option.some.inj h]
    | false =>
      rw [hname] at h
      exact ih h

/-- A line that calls for something to be shown of a definition that there is comes down to what
shows it. -/
theorem run_of_callsInspect (hcalls : CallsInspect args l name source)
    (hshown : views.lookup name = some shown) (houtput : output? s l = some o)
    (ha : definition? s l source = some a) {text : String}
    (htext : ∀ t, shown o a t = .ok () (t.writing text)) :
    (s.run args).1 = .done 0 ∧ (s.run args).2.results = s.results ++ text := by
  obtain ⟨group, inner, rest, last, hprogram, hgroup, hname, hrest, hsource⟩ := hcalls
  obtain ⟨timeout, c, s₁, htimeout, hprepare, hsettled, hresults₁, j, hparse⟩ := exists_start ha
  obtain rfl : c.output = o := Option.some.inj (hsettled.symm.trans houtput)
  obtain ⟨s₂, hapi, hresults₂⟩ := exists_api hparse
  -- the steps of the program up to the view leave the results as they are
  have hline : readArguments [] 1 rest s₁ = .ok last s₁ :=
    readArguments_eq_ok.mpr ⟨hrest, by rw [hsource, List.length_singleton], rfl⟩
  have hview : view c shown rest s₁ = .ok () (s₂.writing text) := by
    unfold view
    rw [bind_of_ok hline, hsource, List.headD_cons]
    refine (bind_of_ok hapi).trans ?_
    exact ofAction_eq_ok.mpr (htext s₂)
  have hrun : program args s = .ok () (s₂.writing text) := by
    rw [program_of_calls hprogram rfl, bind_of_ok htimeout, bind_of_ok hprepare]
    exact (runGroup_of_takes hgroup hname (lookup_view hshown) c s₁).trans hview
  unfold Session.run
  rw [hrun]
  exact ⟨rfl, by rw [Session.writing, hresults₂, hresults₁]⟩

theorem sheetOr_of_ne_nil (hne : sheet.rows ≠ []) (o : Output) (nothing : String) :
    sheetOr o nothing sheet = o.presentSheet sheet :=
  if_neg (by simpa using hne)

/-- Each name of a sheet stands for a command that writes the sheet, unless it is empty. -/
theorem exists_view (h : Inspection.Shows a name sheet texts) (hplain : o.format = .plain) :
    ∃ shown, views.lookup name = some shown ∧ ∀ t, shown o a t = .ok () (t.writing sheet.text) := by
  have hpresent := o.presentSheet_plain hplain sheet
  cases h with
  | resources => exact ⟨_, rfl, hpresent⟩
  | methods => exact ⟨_, rfl, hpresent⟩
  | types htypes hne =>
    refine ⟨_, rfl, fun t => ?_⟩
    rw [htypes]
    exact (congrFun (sheetOr_of_ne_nil hne o _) t).trans (hpresent t)
  | traits hne =>
    exact ⟨_, rfl, fun t => (congrFun (sheetOr_of_ne_nil hne o _) t).trans (hpresent t)⟩

/-- **Plain sheets read back.** A line that shows a sheet of a definition writes one that is found
again, row by row and cell by cell, exactly if no text of the definition on it holds a tab or a
newline. -/
theorem run_sheet_iff (hcalls : CallsInspect args l name source) (houtput : output? s l = some o)
    (hplain : o.format = .plain) (ha : definition? s l source = some a)
    (hshows : Inspection.Shows a name sheet texts) :
    ∃ text, (s.run args).1 = .done 0 ∧ (s.run args).2.results = s.results ++ text ∧
      (Sheet.cellsOf text = sheet.headings :: sheet.rows ↔ AreCells texts) := by
  obtain ⟨shown, hshown, htext⟩ := exists_view hshows hplain
  obtain ⟨hdone, hresults⟩ := run_of_callsInspect hcalls hshown houtput ha htext
  exact ⟨sheet.text, hdone, hresults, hshows.cellsOf_iff⟩

/-- A session with a document that declares one trait, and says how to use it in the given words. -/
def describing (usage : String) : Session :=
  holding ("#%RAML 1.0\ntitle: Shop\ntraits:\n  paged:\n    usage: " ++ usage ++ "\n")

/-- The line that shows the templates. -/
def showTemplates : List String := ["--plain", "inspect", "traits", "api.raml"]

theorem callsInspect_showTemplates :
    CallsInspect showTemplates ⟨[("--plain", "")], ["inspect", "traits", "api.raml"]⟩ "traits"
      "api.raml" :=
  ⟨["traits", "api.raml"], ⟨[], ["traits", "api.raml"]⟩, ["api.raml"], ⟨[], ["api.raml"]⟩,
    ⟨by decide, rfl, rfl, rfl⟩, ⟨by decide, rfl⟩, rfl, ⟨by decide, rfl⟩, rfl⟩

/-- One word is read back. -/
theorem run_sheet_of_word :
    ∃ text, ((describing "Pages").run showTemplates).1 = .done 0 ∧
      ((describing "Pages").run showTemplates).2.results = text ∧
      (Sheet.cellsOf text = [["Kind", "Name", "Usage"], ["trait", "paged", "Pages"]] ↔
        AreCells ["paged", "Pages"]) ∧ AreCells ["paged", "Pages"] := by
  have hcalls := callsInspect_showTemplates
  obtain ⟨o, houtput, hformat⟩ := Option.map_eq_some_iff.mp
    (by decide +kernel : (output? (describing "Pages") ⟨[("--plain", "")],
      ["inspect", "traits", "api.raml"]⟩).map Output.format = some .plain)
  obtain ⟨a, ha, hsheet⟩ := Option.map_eq_some_iff.mp
    (by decide +kernel : (definition? (describing "Pages") ⟨[("--plain", "")],
      ["inspect", "traits", "api.raml"]⟩ "api.raml").map
        (fun a => (Inspection.templates a, Inspection.templatesTexts a)) =
      some (⟨["Kind", "Name", "Usage"], [["trait", "paged", "Pages"]]⟩, ["paged", "Pages"]))
  obtain ⟨hsheet, htexts⟩ := Prod.mk.inj hsheet
  have hne : (Inspection.templates a).rows ≠ [] := by
    rw [hsheet]
    exact List.cons_ne_nil _ _
  obtain ⟨text, hdone, hresults, hiff⟩ := run_sheet_iff hcalls houtput hformat ha (.traits hne)
  rw [hsheet, htexts] at hiff
  exact ⟨text, hdone, hresults.trans (String.empty_append ..), hiff, by decide⟩

/-- Two lines of words are not. -/
theorem not_read_back_of_lines :
    ((describing "\"Pages\\nSizes\"").run showTemplates).1.code = 0 ∧
      Sheet.cellsOf ((describing "\"Pages\\nSizes\"").run showTemplates).2.results =
        [["Kind", "Name", "Usage"], ["trait", "paged", "Pages"], ["Sizes"]] ∧
      (definition? (describing "\"Pages\\nSizes\"") ⟨[("--plain", "")],
        ["inspect", "traits", "api.raml"]⟩ "api.raml").map Inspection.templates =
          some ⟨["Kind", "Name", "Usage"], [["trait", "paged", "Pages\nSizes"]]⟩ := by
  decide +kernel

end Command
end Raml
