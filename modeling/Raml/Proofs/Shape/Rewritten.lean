import Raml.Proofs.Merge.Copied
import Raml.Proofs.Read.Checked
import Raml.Proofs.Shape.Instantiate
import Raml.Proofs.Shape.Reading

/-!
# Shapes that are written and read again

What the text of a type is read as is written in a form of its own: parentheses that mean nothing
are gone, and a union that is the element of an array has them. Reading that gives the same shape
again, unless parentheses hold nothing or the text of a schema. `isClear` says that a text opens no
such parentheses, and `rewritten_ofText` that it is enough.

A declaration is written with its type, properties and items first and its facets after them, each
under its own name, so it is read as the declaration of what the shapes in it are read as
(`readAs_inline`). `rewritten_of_ofValue` puts both together, for whatever node a shape was read
from: that is a shape which every property has that texts have and that goes from the parts of a
declaration to the whole (`of_ofValue`).
-/

namespace Raml.Shape

open Text (isBlank dropAround dropStart)

/-! ## Expressions -/

namespace Expression

/-- Whether a character closes parentheses or opens the text of a schema. -/
def isOdd (c : Char) : Bool := c == ')' || c == '\x7b' || c == '<'

/-- Whether no parenthesis opens in front of one that closes or of the text of a schema, blanks
aside. -/
def isClear : List Char → Bool
  | [] => true
  | c :: cs => !(c == '(' && (dropStart isBlank cs).head?.any isOdd) && isClear cs

/-- Both parts of a clear text are clear. -/
theorem isClear_append {xs ys : List Char} (h : isClear (xs ++ ys) = true) :
    isClear xs = true ∧ isClear ys = true := by
  induction xs with
  | nil => exact ⟨rfl, h⟩
  | cons x xs ih =>
    rw [List.cons_append, isClear, Bool.and_eq_true] at h
    refine ⟨?_, (ih h.2).2⟩
    rw [isClear, (ih h.2).1, Bool.and_true]
    by_cases hnil : dropStart isBlank xs = []
    · rw [hnil]
      simp
    · have hhead := h.1
      rwa [Text.head?_dropStart_append hnil] at hhead

/-- What parentheses hold in a clear text is clear, and neither blank nor the text of a schema. -/
theorem isClear_wrapped {a cs b : List Char} (h : isClear (a ++ ('(' :: cs ++ [')']) ++ b) = true) :
    isClear cs = true ∧ ¬IsBlanks cs ∧ isSchema cs = false := by
  have hpair := (isClear_append (isClear_append h).1).2
  rw [List.cons_append, isClear, Bool.and_eq_true] at hpair
  have hhead : (dropStart isBlank (cs ++ [')'])).head?.any isOdd = false := by simpa using hpair.1
  have hfull : ¬IsBlanks cs := by
    intro hblanks
    rw [Text.dropStart_append hblanks] at hhead
    exact absurd hhead (by decide)
  refine ⟨(isClear_append hpair.2).1, hfull, ?_⟩
  have hne : dropStart isBlank cs ≠ [] := fun hnil => hfull (Text.dropStart_eq_nil.mp hnil)
  rw [← isSchema_append_right hne [')'], ← Bool.not_eq_true, isSchema_iff]
  rintro (hc | hc) <;> rw [hc] at hhead <;> exact absurd hhead (by decide)

/-- The text of what is read between clear parentheses, or outside of any, is that of no schema. -/
theorem isSchema_render {cs : List Char} (hclear : isClear cs = true)
    (hschema : isSchema cs = false) : isSchema (ofChars cs).render.toList = false := by
  induction cs using ofChars_cases with
  | schema cs h _ =>
    rw [h] at hschema
    cases hschema
  | array a cs b _ _ hinner _ hread ih =>
    rw [hread, toList_render_array]
    split
    · rfl
    · exact isSchema_suffix (ih (isClear_append (isClear_append (isClear_append hclear).1).2).1
        hinner)
  | wrapped a cs b _ _ _ hread ih =>
    obtain ⟨hclear', -, hinner⟩ := isClear_wrapped hclear
    rw [hread]
    exact ih hclear' hinner
  | name a cs b _ _ hinner hname =>
    rw [hname.render, String.toList_ofList]
    exact hinner

/-- The text of what is no union is none either. -/
theorem hasUnion_render {cs : List Char} (hclear : isClear cs = true)
    (hschema : isSchema cs = false) (hunion : (ofChars cs).isUnion = false) :
    hasUnion (ofChars cs).render.toList = false := by
  induction cs using ofChars_cases with
  | schema cs h _ =>
    rw [h] at hschema
    cases hschema
  | array a cs b _ _ hinner hnone hread ih =>
    -- a suffix is clear of unions only if what stands before it is
    have hclear' := (isClear_append (isClear_append (isClear_append hclear).1).2).1
    rw [hread, toList_render_array]
    split
    · rename_i helement
      rw [hasUnion_suffix]
      exact hasUnion_wrapped (staysOpen_render helement (.inl hnone))
    · rename_i helement
      rw [hasUnion_suffix]
      exact ih hclear' hinner (by simpa using helement)
  | wrapped a cs b _ _ _ hread ih =>
    obtain ⟨hclear', -, hinner⟩ := isClear_wrapped hclear
    rw [hread] at hunion ⊢
    exact ih hclear' hinner hunion
  | name a cs b _ _ _ hname =>
    rw [hname.render, String.toList_ofList, ← hname.isUnion, hunion]

/-- What a clear expression is read as is read again from its text. -/
theorem ofChars_render {cs : List Char} (hclear : isClear cs = true) :
    ofChars (ofChars cs).render.toList = ofChars cs := by
  induction cs using ofChars_cases with
  | schema cs _ hread => rw [hread, render, String.toList_ofList, hread]
  | array a cs b _ _ hinner hnone hread ih =>
    have hclear' := (isClear_append (isClear_append (isClear_append hclear).1).2).1
    rw [hread, toList_render_array]
    split
    · rename_i hunion
      -- the parentheses that are written around a union hold it
      have hopen : staysOpen 1 (ofChars cs).render.toList = true :=
        staysOpen_render hunion (.inl hnone)
      rw [ofChars_array rfl (hasUnion_wrapped hopen), ofChars_wrapped hopen, ih hclear']
    · rename_i hunion
      have hunion' : (ofChars cs).isUnion = false := by simpa using hunion
      rw [ofChars_array (isSchema_render hclear' hinner) (hasUnion_render hclear' hinner hunion'),
        ih hclear']
  | wrapped a cs b _ _ _ hread ih =>
    rw [hread]
    exact ih (isClear_wrapped hclear).1
  | name a cs b ha hb hinner hname =>
    rw [hname.render, String.toList_ofList, ofChars_blanks ha hb hinner]

/-- The text of what is read is blank only where the expression is. -/
theorem isBlanks_of_render {cs : List Char} (hclear : isClear cs = true)
    (h : IsBlanks (ofChars cs).render.toList) : IsBlanks cs := by
  induction cs using ofChars_cases with
  | schema cs _ hread => rwa [hread, render, String.toList_ofList] at h
  | array a cs b _ _ _ _ hread _ =>
    rw [hread, toList_render_array] at h
    have hbracket : isBlank '[' = true := h '[' (by split <;> simp)
    exact absurd hbracket (by decide)
  | wrapped a cs b _ _ _ hread ih =>
    obtain ⟨hclear', hfull, -⟩ := isClear_wrapped hclear
    rw [hread] at h
    exact absurd (ih hclear' h) hfull
  | name a cs b ha hb _ hname =>
    rw [hname.render, String.toList_ofList] at h
    intro c hc
    rcases List.mem_append.mp hc with hc | hc
    · exact (List.mem_append.mp hc).elim (ha c) (h c)
    · exact hb c hc

end Expression

open Expression

/-! ## Nodes -/

/-- Whether a shape is read as another one from the node that is written for it, also in a place
that may be left empty. -/
structure IsReadAs (s r : Shape) : Prop where
  ofValue : Shape.ofValue s.toValue = .ok r
  ofValue? : Shape.ofValue? s.toValue = .ok (some r)

/-- Whether a shape is read again from the node that is written for it. -/
abbrev IsRewritten (s : Shape) : Prop := s.IsReadAs s

/-- Where nothing would be read as a shape, none is written. -/
theorem isReadAs_of_ofValue {s r : Shape} (h : Shape.ofValue s.toValue = .ok r)
    (hnull : s.toValue ≠ .null) (hblank : ∀ t, s.toValue = .str t → Text.allBlank t = false) :
    s.IsReadAs r := by
  refine ⟨h, ?_⟩
  rw [Shape.ofValue?, optionalOf.eq_def]
  split
  · exact absurd ‹_› hnull
  · rename_i t ht
    rw [hblank t ht, if_neg Bool.false_ne_true, ← Shape.ofValue, h]
    rfl
  · rw [← Shape.ofValue, h]
    rfl

/-- A clear text that is not blank is read again from what it is printed as. -/
theorem rewritten_ofText {t : String}
    (hclear : isSchema t.toList = false → isClear t.toList = true)
    (hfull : Text.allBlank t = false) : (ofText t).IsRewritten := by
  have hvalue : (ofText t).toValue = .str (ofChars t.toList).render := toValue_ofChars _
  have hrender : Text.allBlank (ofChars t.toList).render = false ∧
      ofChars (ofChars t.toList).render.toList = ofChars t.toList := by
    cases hschema : isSchema t.toList with
    | true =>
      -- the text of a schema is written as it is
      have hread : ofChars t.toList = .scalar t := by
        rw [ofChars, if_pos hschema, String.ofList_toList]
      rw [hread, render]
      exact ⟨hfull, hread⟩
    | false =>
      refine ⟨?_, ofChars_render (hclear hschema)⟩
      rw [← Bool.not_eq_true, allBlank_iff]
      intro h
      have hblank := allBlank_iff.mpr (isBlanks_of_render (hclear hschema) h)
      rw [hfull] at hblank
      cases hblank
  refine isReadAs_of_ofValue ?_ (by simp [hvalue]) fun u hu => ?_
  · rw [hvalue, ofValue_str, hrender.1, if_neg Bool.false_ne_true, ofText, hrender.2, ofText]
  · rw [hvalue] at hu
    obtain rfl := Value.str.inj hu
    exact hrender.1

/-! ## Declarations -/

theorem mapValuesM_ok (t : Table Shape) :
    Table.mapValuesM id (t.map fun e => (e.1, (.ok e.2 : Except Fault Shape))) = .ok t := by
  induction t with
  | nil => rfl
  | cons e t ih =>
    rw [List.map_cons, Table.mapValuesM, ih]
    rfl

section Declared

variable {type items : Option Shape} {properties : Table Shape} {facets : Table Value}
  {w : Shape → Shape}

/-- The entries of a declaration other than its facets. -/
def start (type : Option Shape) (properties : Table Shape) (items : Option Shape) :
    List (Value × Value) :=
  optionEntry "type" type ++
    (if properties.isEmpty then [] else [(.str "properties", .map (entriesOf properties))]) ++
    optionEntry "items" items

theorem start_keys : ∀ e ∈ start type properties items, ∃ n ∈ fieldNames, e.1 = .str n := by
  intro e he
  rw [start, List.mem_append, List.mem_append] at he
  rcases he with (he | he) | he
  · cases type with
    | none => cases he
    | some s =>
      rw [List.mem_singleton.mp he]
      exact ⟨"type", by decide, rfl⟩
  · split at he
    · cases he
    · rw [List.mem_singleton.mp he]
      exact ⟨"properties", by decide, rfl⟩
  · cases items with
    | none => cases he
    | some s =>
      rw [List.mem_singleton.mp he]
      exact ⟨"items", by decide, rfl⟩

/-- The facets of a declaration are written after its fields. -/
theorem toValue_inline (hdistinct : facets.Distinct) (hnames : ∀ n ∈ facets.names, n ∉ fieldNames) :
    (inline type properties items facets).toValue =
      .map (start type properties items ++ facets.map fun f => (.str f.1, f.2)) := by
  have hnew : ∀ e ∈ start type properties items,
      ∀ e' ∈ facets.map fun f => (Value.str f.1, f.2), e.1.same e'.1 = false := by
    intro e he
    obtain ⟨n, hn, hkey⟩ := start_keys e he
    rw [List.forall_mem_map]
    intro f hf
    rw [hkey, Value.same_str_str, beq_eq_false_iff_ne]
    rintro rfl
    exact hnames _ (List.mem_map_of_mem hf) hn
  have hfold := Value.foldl_insert_of_pairwise hnew (Value.pairwise_map_str hdistinct)
  rw [List.foldl_map] at hfold
  rw [toValue]
  exact congrArg Value.map hfold

theorem get?_readings_optionEntry (name key : String) (o : Option Shape) :
    Table.get? key (readings (optionEntry name o)) =
      if name = key then o.map fun s => (s.toValue, reading s.toValue) else none := by
  cases o with
  | none => simp [optionEntry, readings, Table.get?]
  | some s => simp [optionEntry, readings, Table.get?, Value.display]

/-- A declaration begins with fields, each of which stands once. -/
theorem names_readings_start : (Table.names (readings (start type properties items))).Sublist
    fieldNames := by
  have hone : ∀ (name : String) (o : Option Shape),
      (Table.names (readings (optionEntry name o))).Sublist [name] := by
    intro name o
    cases o with
    | none => exact List.nil_sublist _
    | some s => exact List.Sublist.refl _
  have hproperties : (Table.names (readings (if properties.isEmpty then [] else
      [(.str "properties", .map (entriesOf properties))]))).Sublist ["properties"] := by
    split
    · exact List.nil_sublist _
    · exact List.Sublist.refl _
  simp only [start, readings_eq, List.map_append, Table.names] at hone hproperties ⊢
  exact ((hone "type" type).append hproperties).append (hone "items" items)

section Entries

variable (hdistinct : facets.Distinct) (hnames : ∀ n ∈ facets.names, n ∉ fieldNames)

/-- The entries of a declaration as they are read. -/
def declared (type : Option Shape) (properties : Table Shape) (items : Option Shape)
    (facets : Table Value) : Table (Value × Reading) :=
  readings (start type properties items) ++ facets.map fun f => (f.1, f.2, reading f.2)

include hdistinct hnames

/-- No key of a declaration stands twice. -/
theorem distinct_declared : (declared type properties items facets).Distinct := by
  rw [declared, Table.Distinct, Table.names, List.map_append, List.nodup_append]
  have hstart : (Table.names (readings (start type properties items))).Sublist fieldNames :=
    names_readings_start
  refine ⟨hstart.nodup (by decide), ?_, ?_⟩
  · rw [List.map_map]
    exact hdistinct
  · rintro n hn m hm rfl
    rw [List.map_map] at hm
    exact hnames n hm (hstart.subset hn)

omit hdistinct in
/-- The facets leave the fields of a declaration alone. -/
theorem get?_declared {key : String} (hkey : key ∈ fieldNames) :
    (declared type properties items facets).get? key =
      Table.get? key (readings (start type properties items)) := by
  have hnone : Table.get? key (facets.map fun f => (f.1, f.2, reading f.2)) = none := by
    refine Table.get?_eq_none fun a hmem => ?_
    obtain ⟨f, hf, heq⟩ := List.mem_map.mp hmem
    obtain ⟨rfl, -⟩ := Prod.mk.inj heq
    exact hnames _ (List.mem_map_of_mem hf) hkey
  rw [declared, Table.get?_append, hnone, Option.or_none]

omit hdistinct in
theorem get?_declared_properties : (declared type properties items facets).get? "properties" =
    if properties.isEmpty then none
    else some (.map (entriesOf properties), reading (.map (entriesOf properties))) := by
  have htype := get?_readings_optionEntry "type" "properties" type
  have hitems := get?_readings_optionEntry "items" "properties" items
  rw [if_neg (by decide), readings_eq] at htype hitems
  rw [get?_declared hnames (by decide), start, readings_eq, List.map_append, List.map_append,
    Table.get?_append, Table.get?_append, htype, hitems, Option.none_or, Option.or_none]
  split <;> rfl

omit hdistinct in
/-- The type of a declaration is read as it was written. -/
theorem optionalEntry_declared_type (htype : ∀ s ∈ type, s.IsReadAs (w s)) :
    optionalEntry "type" (declared type properties items facets) = .ok (type.map w) := by
  have hget : (declared type properties items facets).get? "type" =
      type.map fun s => (s.toValue, reading s.toValue) := by
    have hstart := get?_readings_optionEntry "type" "type" type
    have hitems := get?_readings_optionEntry "items" "type" items
    rw [if_pos rfl, readings_eq] at hstart
    rw [if_neg (by decide), readings_eq] at hitems
    rw [get?_declared hnames (by decide), start, readings_eq, List.map_append, List.map_append,
      Table.get?_append, Table.get?_append, hstart, hitems, Option.or_none]
    split
    · exact Option.or_none
    · exact Option.or_none
  rw [optionalEntry, hget]
  cases type with
  | none => rfl
  | some s => exact (htype s rfl).ofValue?

omit hdistinct in
/-- So are its items. -/
theorem optionalEntry_declared_items (hitems : ∀ s ∈ items, s.IsReadAs (w s)) :
    optionalEntry "items" (declared type properties items facets) = .ok (items.map w) := by
  have hget : (declared type properties items facets).get? "items" =
      items.map fun s => (s.toValue, reading s.toValue) := by
    have htype := get?_readings_optionEntry "type" "items" type
    have hend := get?_readings_optionEntry "items" "items" items
    rw [if_neg (by decide), readings_eq] at htype
    rw [if_pos rfl, readings_eq] at hend
    rw [get?_declared hnames (by decide), start, readings_eq, List.map_append, List.map_append,
      Table.get?_append, Table.get?_append, htype, hend, Option.none_or]
    split
    · rfl
    · rfl
  rw [optionalEntry, hget]
  cases items with
  | none => rfl
  | some s => exact (hitems s rfl).ofValue?

omit hdistinct in
/-- So are its properties, one by one. -/
theorem propertyEntries_declared (hproperties : ∀ e ∈ properties, e.2.IsReadAs (w e.2)) :
    propertyEntries (declared type properties items facets) =
      .ok ((properties.mapValues w).map fun e => (e.1, .ok e.2)) := by
  rw [propertyEntries, get?_declared_properties hnames]
  by_cases hempty : properties.isEmpty = true
  · rw [if_pos hempty, List.isEmpty_iff.mp hempty]
    rfl
  · rw [if_neg hempty]
    rw [entriesOf_eq]
    dsimp only
    rw [properties_reading]
    refine congrArg Except.ok ?_
    rw [List.map_map, Table.mapValues, List.map_map]
    refine List.map_congr_left fun e he => ?_
    exact congrArg (Prod.mk e.1) (hproperties e he).ofValue

omit hdistinct in
/-- What is left of a declaration without its fields are the facets. -/
theorem facets_declared : ((((declared type properties items facets).erase "type").erase
    "items").erase "properties").mapValues Prod.fst = facets := by
  -- of the three fields nothing is left
  have hstart : ((Table.erase "properties" (Table.erase "items" (Table.erase "type"
      (readings (start type properties items)))))) = [] := by
    rw [Table.erase, Table.erase, Table.erase, List.filter_filter, List.filter_filter,
      List.filter_eq_nil_iff]
    intro e he
    have hmem : e.1 ∈ fieldNames := names_readings_start.subset (List.mem_map_of_mem he)
    simp only [fieldNames, List.mem_cons, List.not_mem_nil, or_false] at hmem
    rcases hmem with h | h | h <;> simp [h]
  -- a facet goes by none of their names
  have hfacets : ∀ n ∈ fieldNames, Table.erase n (facets.map fun f => (f.1, f.2, reading f.2)) =
      facets.map fun f => (f.1, f.2, reading f.2) := by
    intro n hn
    rw [Table.erase, List.filter_eq_self]
    intro e he
    obtain ⟨f, hf, rfl⟩ := List.mem_map.mp he
    rw [bne_iff_ne]
    rintro rfl
    exact hnames _ (List.mem_map_of_mem hf) hn
  have happend : ∀ (n : String) (t t' : Table (Value × Reading)),
      Table.erase n (t ++ t') = t.erase n ++ t'.erase n := fun _ _ _ => List.filter_append _ _
  rw [declared, happend, happend, happend, hstart, hfacets _ (by decide), hfacets _ (by decide),
    hfacets _ (by decide), List.nil_append, Table.mapValues, List.map_map]
  exact List.map_id facets

/-- A declaration is read as the declaration of what the shapes in it are read as. -/
theorem readAs_inline (hproperties : properties.Distinct) (htype : ∀ s ∈ type, s.IsReadAs (w s))
    (hitems : ∀ s ∈ items, s.IsReadAs (w s)) (hentries : ∀ e ∈ properties, e.2.IsReadAs (w e.2)) :
    (inline type properties items facets).IsReadAs
      (inline (type.map w) (properties.mapValues w) (items.map w) facets) := by
  have hvalue : (inline type properties items facets).toValue =
      .map (start type properties items ++ facets.map fun f => (.str f.1, f.2)) :=
    toValue_inline hdistinct hnames
  have hfacets : ((((declared type properties items facets).erase "type").erase
      "items").erase "properties").mapValues Prod.fst = facets := facets_declared hnames
  have hproperties' : (properties.mapValues w).Distinct := by
    rw [Table.Distinct, Table.names, Table.mapValues, List.map_map]
    exact hproperties
  have hnull : (inline type properties items facets).toValue ≠ .null := by
    intro hnull
    rw [hvalue] at hnull
    cases hnull
  -- the three fields stand in front and the facets behind; each is looked up where it stands
  refine isReadAs_of_ofValue ?_ hnull fun t ht => ?_
  · have hread : readings (start type properties items ++ facets.map fun f => (.str f.1, f.2)) =
        declared type properties items facets := by
      rw [declared, readings_eq, readings_eq, List.map_append, List.map_map]
      rfl
    have hshown : ∀ e ∈ start type properties items ++ facets.map fun f => (Value.str f.1, f.2),
        e.1.isShown = true := by
      rw [List.forall_mem_append, List.forall_mem_map]
      refine ⟨fun e he => ?_, fun _ _ => rfl⟩
      obtain ⟨n, -, hkey⟩ := start_keys e he
      rw [hkey]
      rfl
    rw [hvalue, ofValue, shape_reading hshown]
    have hdeclared : (declared type properties items facets).Distinct :=
      distinct_declared hdistinct hnames
    rw [hread, inlineOf, Table.ofEntries_of_distinct hdeclared,
      propertyEntries_declared hnames hentries, optionalEntry_declared_type hnames htype,
      optionalEntry_declared_items hnames hitems]
    change (do
      let properties ← Table.mapValuesM id _
      let items ← Except.ok (items.map w)
      return _) = _
    rw [mapValuesM_ok]
    change Except.ok (inline (type.map w) (Table.ofEntries (properties.mapValues w))
      (items.map w) _) = _
    rw [Table.ofEntries_of_distinct hproperties', hfacets]
  · rw [hvalue] at ht
    cases ht

/-- A declaration is read again if the shapes in it are. -/
theorem rewritten_inline (hproperties : properties.Distinct) (htype : ∀ s ∈ type, s.IsRewritten)
    (hitems : ∀ s ∈ items, s.IsRewritten) (hentries : ∀ e ∈ properties, e.2.IsRewritten) :
    (inline type properties items facets).IsRewritten := by
  have hread := readAs_inline (w := id) hdistinct hnames hproperties htype hitems hentries
  rwa [Option.map_id_fun, Table.mapValues_eq_self fun _ _ => rfl] at hread

end Entries

end Declared

/-! ## Whatever is read -/

mutual

/-- The type expressions in a node that is read as a shape; the text of a schema is none. -/
def expressions : Value → List String
  | .str s => if isSchema s.toList then [] else [s]
  | .map entries => expressionsOfFields entries
  | _ => []

/-- The type expressions in the fields of a declaration. -/
def expressionsOfFields : List (Value × Value) → List String
  | [] => []
  | (k, v) :: rest =>
    (if k.display = "type" ∨ k.display = "items" then expressions v
      else if k.display = "properties" then expressionsOfMembers v
      else []) ++ expressionsOfFields rest

/-- The type expressions in the members of a mapping of shapes. -/
def expressionsOfMembers : Value → List String
  | .map entries => expressionsOfEntries entries
  | _ => []

/-- The type expressions in the entries of a mapping of shapes. -/
def expressionsOfEntries : List (Value × Value) → List String
  | [] => []
  | (_, v) :: rest => expressions v ++ expressionsOfEntries rest

end

/-- Whether type expressions are all clear. -/
def AllClear (ts : List String) : Prop := ∀ t ∈ ts, isClear t.toList = true

instance (ts : List String) : Decidable (AllClear ts) :=
  inferInstanceAs (Decidable (∀ t ∈ ts, isClear t.toList = true))

theorem allClear_append {ts us : List String} : AllClear (ts ++ us) ↔ AllClear ts ∧ AllClear us :=
  List.forall_mem_append

/-- A property that whatever is read from a clear text has, and a declaration if the shapes in it
have it. -/
structure IsInherited (C : Shape → Prop) : Prop where
  text : ∀ t, (isSchema t.toList = false → isClear t.toList = true) → Text.allBlank t = false →
    C (ofText t)
  inline : ∀ {type items : Option Shape} {properties : Table Shape} {facets : Table Value},
    facets.Distinct → (∀ n ∈ facets.names, n ∉ fieldNames) → properties.Distinct →
      (∀ s ∈ type, C s) → (∀ s ∈ items, C s) → (∀ e ∈ properties, C e.2) →
        C (.inline type properties items facets)

/-- What is known of an entry that is read: if it is a field of a declaration, the shapes in it have
the property. -/
structure EntryHas (C : Shape → Prop) (e : String × Value × Reading) : Prop where
  shape : e.1 = "type" ∨ e.1 = "items" → ∀ s, e.2.2.shape = .ok s → C s
  properties : e.1 = "properties" → ∀ ps, e.2.2.properties = some ps →
    ∀ p ∈ ps, ∀ s, p.2 = .ok s → C s

section Inherited

variable {C : Shape → Prop}

theorem IsInherited.empty (hC : IsInherited C) : C .empty :=
  hC.inline List.nodup_nil (List.forall_mem_nil _) List.nodup_nil nofun nofun nofun

/-- A declaration has the property if the shapes in its fields do. -/
theorem of_inlineOf (hC : IsInherited C) {entries : List (String × Value × Reading)} {s : Shape}
    (h : ∀ e ∈ entries, EntryHas C e) (hs : inlineOf entries = .ok s) : C s := by
  have ht := Table.forall_mem_ofEntries h
  obtain ⟨type, properties, items, facets, rfl, hparts⟩ := isDeclared_of_inlineOf hs
  refine hC.inline hparts.distinctFacets ?_ hparts.distinctProperties ?_ ?_ ?_
  · intro n hn
    obtain ⟨f, hf, rfl⟩ := List.mem_map.mp hn
    exact (hparts.facets f hf).1
  · intro s hs
    obtain ⟨e, he, hname, hshape⟩ := hparts.type s hs
    exact (ht e he).shape (.inl hname) s hshape
  · intro s hs
    obtain ⟨e, he, hname, hshape⟩ := hparts.items s hs
    exact (ht e he).shape (.inr hname) s hshape
  · intro p hp
    obtain ⟨e, he, hname, ps, hps, hmem⟩ := hparts.properties p hp
    exact (ht e he).properties hname ps hps _ hmem p.2 rfl

mutual

/-- A shape that was read from clear type expressions has every property that is inherited. -/
theorem of_ofValue (hC : IsInherited C) :
    ∀ {v : Value} {s : Shape}, AllClear (expressions v) → ofValue v = .ok s → C s
  | .null, _, _, h => Except.ok.inj h ▸ hC.empty
  | .str t, _, hclear, h => by
      rw [ofValue_str] at h
      obtain rfl := Except.ok.inj h
      split
      · exact hC.empty
      · rename_i hfull
        refine hC.text t ?_ (by simpa using hfull)
        intro hschema
        rw [expressions, if_neg (by simp [hschema])] at hclear
        exact hclear t (List.mem_singleton_self t)
  | .map _, _, hclear, h => of_inlineOf hC (of_readings hC hclear) (inlineOf_of_reading h)
  | .list _, _, _, h | .bool _, _, _, h | .int _, _, _, h | .float _, _, _, h
  | .bytes _, _, _, h | .moment _, _, _, h | .pair _ _, _, _, h | .set _, _, _, h => by cases h

theorem of_readings (hC : IsInherited C) :
    ∀ {entries : List (Value × Value)}, AllClear (expressionsOfFields entries) →
      ∀ e ∈ readings entries, EntryHas C e
  | [], _ => List.forall_mem_nil _
  | (k, v) :: rest, hclear => by
      rw [expressionsOfFields, allClear_append] at hclear
      refine List.forall_mem_cons.mpr ⟨⟨fun hname s hs => ?_, fun hname ps hps => ?_⟩,
        of_readings hC hclear.2⟩
      · rw [if_pos hname] at hclear
        exact of_ofValue hC hclear.1 hs
      · have hfield : ¬(k.display = "type" ∨ k.display = "items") := by
          change k.display = _ at hname
          rw [hname]
          decide
        rw [if_neg hfield, if_pos hname] at hclear
        exact of_members hC hclear.1 hps

theorem of_members (hC : IsInherited C) :
    ∀ {v : Value} {ps : List (String × Except Fault Shape)}, AllClear (expressionsOfMembers v) →
      (reading v).properties = some ps → ∀ p ∈ ps, ∀ s, p.2 = .ok s → C s
  | .map _, _, hclear, h => fun _ hp s hs => by
      obtain ⟨e, he, -, hshape⟩ := mem_properties h hp
      exact of_entries hC hclear e he s (hshape s hs)
  | .null, _, _, h | .str _, _, _, h | .list _, _, _, h | .bool _, _, _, h | .int _, _, _, h
  | .float _, _, _, h | .bytes _, _, _, h | .moment _, _, _, h | .pair _ _, _, _, h
  | .set _, _, _, h => by cases h

theorem of_entries (hC : IsInherited C) :
    ∀ {entries : List (Value × Value)}, AllClear (expressionsOfEntries entries) →
      ∀ e ∈ readings entries, ∀ s, e.2.2.shape = .ok s → C s
  | [], _ => List.forall_mem_nil _
  | (_, _) :: _, hclear =>
      have hclear := allClear_append.mp hclear
      List.forall_mem_cons.mpr ⟨fun _ hs => of_ofValue hC hclear.1 hs, of_entries hC hclear.2⟩

end

end Inherited

/-- That a shape is read again is passed on from its parts. -/
theorem isInherited_isRewritten : IsInherited IsRewritten :=
  ⟨fun _ => rewritten_ofText, rewritten_inline⟩

/-- A shape that was read from clear type expressions is read again from what is written for it. -/
theorem rewritten_of_ofValue {v : Value} {s : Shape} (hclear : AllClear (expressions v))
    (h : ofValue v = .ok s) : s.IsRewritten :=
  of_ofValue isInherited_isRewritten hclear h

/-- Where a shape may be missing, one that was read from clear type expressions is read again. -/
theorem rewritten_of_ofValue? {v : Value} {s : Shape} (hclear : AllClear (expressions v))
    (h : ofValue? v = .ok (some s)) : s.IsRewritten :=
  rewritten_of_ofValue hclear (of_optionalOf h)

/-- **A shape that was read is read again from what is written for it**, whatever the node was, if
none of its type expressions opens a parenthesis in front of one that closes or of the text of a
schema. The same holds in a place that may be left empty. -/
theorem read_written {v : Value} (hclear : AllClear (expressions v)) :
    (∀ s, ofValue v = .ok s → ofValue s.toValue = .ok s) ∧
    ∀ s, ofValue? v = .ok (some s) → ofValue? s.toValue = .ok (some s) := by
  constructor
  · intro s hs
    exact (rewritten_of_ofValue hclear hs).ofValue
  · intro s hs
    exact (rewritten_of_ofValue? hclear hs).ofValue?

/-- A declaration whose expressions have parentheses that mean nothing or do not match, with
properties that say nothing or have no text for a key. -/
def tangled : Value :=
  .map [(.str "type", .str " ((A | (B))[]) "), (.str "items", .str "x)[] | (y"),
    (.str "properties", .map [(.int 1, .null), (.bool true, .str "  "),
      (.str "k?", .map [(.str "items", .str "((A | B)[] | (C))[][]"), (.str "enum", .null)])]),
    (.int 7, .list [.null, .str "(<"])]

/-- What is written for `tangled` is read like `tangled`. -/
theorem tangled_read_again : AllClear (expressions tangled) ∧
    ∃ s, ofValue tangled = .ok s ∧ s.isInline = true ∧ ofValue s.toValue = .ok s := by
  have hclear : AllClear (expressions tangled) := by decide +kernel
  obtain ⟨s, h, hinline⟩ : ∃ s, ofValue tangled = .ok s ∧ s.isInline = true :=
    toOption_map_eq_some.mp (by decide +kernel)
  exact ⟨hclear, s, h, hinline, (read_written hclear).1 s h⟩

/-- Blank parentheses are read as a reference without a name, and its text as nothing at all. -/
example : ((ofValue (.str "( )")).toOption.map isInline,
    (ofValue (.str "( )") >>= fun s => ofValue s.toValue).toOption.map isInline) =
      (some false, some true) := by
  decide +kernel

end Raml.Shape
