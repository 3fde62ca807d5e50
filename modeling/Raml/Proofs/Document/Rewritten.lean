import Raml.Proofs.Document.Expressions

/-!
# Entities of a method and of a type

Each kind of entity is read again from what is written for it, provided that its type expressions
are clear: its fields are, one by one. An entity that takes its name from a key is so under any
name.
-/

namespace Raml

open Shape (AllClear allClear_append)
open Checked (eq_good_iff yields_map yields_seq)
open Reader (Rereads)

/-! ## Parameters and references -/

namespace Parameter

theorem ofFields_eq_good {f : Fields} {p : Parameter} : ofFields f = .good p ↔
    f.annotationTable = .good p.annotations ∧
    f.withDefault ["name"] "" Reader.text = .good p.name ∧
    f.optional ["displayName", "display_name"] Reader.text = .good p.displayName ∧
    f.optional ["description"] Reader.text = .good p.description ∧
    f.optional ["type"] Reader.text = .good p.type ∧
    f.optional ["enum"] (Reader.list Reader.any) = .good p.choices ∧
    f.optional ["pattern"] Reader.text = .good p.pattern ∧
    f.optional ["minLength", "min_length"] (Reader.templated .integer) = .good p.minLength ∧
    f.optional ["maxLength", "max_length"] (Reader.templated .integer) = .good p.maxLength ∧
    f.optional ["minimum"] (Reader.templated .double) = .good p.minimum ∧
    f.optional ["maximum"] (Reader.templated .double) = .good p.maximum ∧
    f.optional ["format"] Reader.text = .good p.format ∧
    f.any ["example"] = .good p.sample ∧
    f.any ["default"] = .good p.fallback ∧
    f.optional ["repeat"] (Reader.templated .truth) = .good p.repeats ∧
    f.optional ["required"] (Reader.templated .truth) = .good p.required ∧
    f.any ["items"] = .good p.items := by
  cases p
  rw [ofFields, eq_good_iff]
  simp only [yields_seq, yields_map, mk.injEq, existsAndEq, true_and]
  tauto

/-- A parameter is read again, under whatever name it was adopted. -/
theorem rereads_named {v : Value} {p : Parameter} (h : read v = .good p) (name : String) :
    read (toValue id { p with name := name }) = .good { p with name := name } := by
  obtain ⟨f, -, h⟩ := EntityForm.read_eq_good.mp h
  obtain ⟨hannotations, -, -, -, -, -, -, hminLength, hmaxLength, hminimum, hmaximum, -, -, -,
    hrepeats, hrequired, -⟩ := ofFields_eq_good.mp h
  refine EntityForm.read_record (by dsimp only [List.map]; decide) fun f' hf => ⟨f', rfl, ?_⟩
  exact ofFields_eq_good.mpr ⟨hf.annotationTable hannotations, hf.withDefault rfl rfl,
    hf.text rfl, hf.text rfl, hf.text rfl, hf.list rfl, hf.text rfl,
    hf.templated Kind.isWritten_integer rfl hminLength,
    hf.templated Kind.isWritten_integer rfl hmaxLength,
    hf.templated Kind.isWritten_double rfl hminimum,
    hf.templated Kind.isWritten_double rfl hmaximum, hf.text rfl, hf.any rfl, hf.any rfl,
    hf.templated Kind.isWritten_truth rfl hrepeats,
    hf.templated Kind.isWritten_truth rfl hrequired, hf.any rfl⟩

theorem rereads : Rereads (fun _ => True) read (toValue id) :=
  fun _ p _ h => rereads_named h p.name

theorem rereads_table : Rereads (fun _ => True) readTable (Value.ofTable (toValue id)) :=
  (Reader.rereads_adopted name (fun key p => { p with name := key }) (fun _ _ => rfl) rereads
    fun _ _ _ h => rereads_named h).mono fun _ _ _ _ => trivial

end Parameter

namespace Choice

theorem ofFields_eq_good {f : Fields} {c : Choice} : ofFields f = .good c ↔
    f.annotationTable = .good c.annotations ∧
    f.required "name" Reader.text = .good c.name ∧
    f.collection ["parameters"] [] (Reader.table Reader.any) = .good c.parameters := by
  cases c
  rw [ofFields, eq_good_iff]
  simp only [yields_seq, yields_map, mk.injEq, existsAndEq, true_and]
  tauto

/-- A reference that is written with a name is not taken for one under its name. -/
theorem arrange_written {annotations : Table Value} {name parameters : Value} {f : Fields}
    (hf : f.IsWritten annotations [("name", some name), ("parameters", some parameters)]) :
    arrange f = f := by
  have hname : f.entries.get? "name" = some name := hf.entries "name"
  rw [arrange]
  split
  · rename_i key v hentries
    rw [hentries, Table.get?] at hname
    split at hname
    · rename_i hkey
      rw [hkey]
      rfl
    · cases hname
  · rfl

theorem rereads : Rereads (fun _ => True) read (toValue id) := by
  intro v c _ h
  obtain ⟨f, -, h⟩ := EntityForm.read_eq_good.mp h
  obtain ⟨hannotations, -, hparameters⟩ := ofFields_eq_good.mp h
  refine EntityForm.read_record (by dsimp only [List.map]; decide) fun f' hf => ⟨f', ?_, ?_⟩
  · exact congrArg Except.ok (arrange_written hf)
  · exact ofFields_eq_good.mpr ⟨hf.annotationTable hannotations, hf.required rfl rfl,
      hf.anyTable rfl hparameters⟩

theorem rereads_list :
    Rereads (fun _ => True) (Reader.list read) fun cs => .list (cs.map (toValue id)) :=
  Reader.rereads_list rereads

theorem rereads_security :
    Rereads (fun _ => True) readSecurity fun cs => .list (cs.map (toValue? id)) := by
  refine Reader.rereads_list fun v c _ h => ?_
  cases c with
  | none => rfl
  | some c =>
    rw [Reader.optional.eq_def] at h
    split at h
    · cases h
    · obtain ⟨c', hc', hsome⟩ := Checked.map_eq_good.mp h
      have hread : read (c.toValue id) = .good c := rereads trivial (Option.some.inj hsome ▸ hc')
      change (read (c.toValue id)).map some = _
      rw [hread]
      rfl

end Choice

/-! ## Bodies and responses -/

/-- A shape with clear type expressions is read again from what it is written as. -/
theorem Shape.rereads :
    Rereads (fun v => AllClear (expressions v)) Reader.shape fun s => id s.toValue := by
  intro v s hclear h
  rw [Reader.shape] at h
  split at h
  · rename_i s' hs'
    cases h
    change Reader.shape s.toValue = _
    rw [Reader.shape, (rewritten_of_ofValue hclear hs').ofValue]
  · cases h

namespace Body

theorem ofFields_eq_good {f : Fields} {b : Body} : ofFields f = .good b ↔
    f.annotationTable = .good b.annotations ∧
    f.shape? ["type"] = .good b.type ∧
    f.shape? ["items"] = .good b.items ∧
    f.collection ["properties"] [] (Reader.table Reader.shape) = .good b.properties ∧
    f.optional ["schema", "schema_"] Reader.text = .good b.schema ∧
    f.optional ["description"] Reader.text = .good b.description ∧
    f.any ["example"] = .good b.sample ∧
    f.collection ["headers"] [] Parameter.readTable = .good b.headers ∧
    f.collection ["facets"] [] (Reader.table Reader.any) = .good b.facets := by
  cases b
  rw [ofFields, eq_good_iff]
  simp only [yields_seq, yields_map, mk.injEq, existsAndEq, true_and]
  tauto

/-- A body whose type expressions are clear is read again. -/
theorem rereads : Rereads (fun v => AllClear (expressions v)) read (toValue id) := by
  intro v b hclear h
  obtain ⟨f, hfields, h⟩ := EntityForm.read_eq_good.mp h
  have hclear := allClear_fields hclear hfields
  simp only [fieldExpressions, allClear_append] at hclear
  obtain ⟨⟨hcleartype, hclearitems⟩, hclearproperties⟩ := hclear
  obtain ⟨hannotations, htype, hitems, hproperties, -, -, -, hheaders, hfacets⟩ :=
    ofFields_eq_good.mp h
  refine EntityForm.read_record (by dsimp only [List.map]; decide) fun f' hf => ?_
  obtain ⟨f', harrange, hf⟩ := hf.collectFacets known (by dsimp only [List.map]; decide) rfl
  exact ⟨f', harrange, ofFields_eq_good.mpr ⟨hf.annotationTable hannotations,
    hf.shape? rfl (allClear_found hcleartype) htype,
    hf.shape? rfl (allClear_found hclearitems) hitems,
    hf.collection (Reader.rereads_table Shape.rereads) rfl nofun rfl
      (fun e he => allClear_members (allClear_found hclearproperties e he)) hproperties,
    hf.text rfl, hf.text rfl, hf.any rfl,
    hf.collection Parameter.rereads_table rfl nofun rfl (fun _ _ => trivial) hheaders,
    hf.anyTable rfl hfacets⟩⟩

end Body

namespace Bodies

theorem ofFields_eq_good {f : Fields} {b : Bodies} : ofFields f = .good b ↔
    f.annotationTable = .good b.annotations ∧
    f.optional ["default"] Body.read = .good b.flat ∧
    f.collection ["media_types"] [] (Reader.table Body.read) = .good b.byMediaType := by
  cases b
  rw [ofFields, eq_good_iff]
  simp only [yields_seq, yields_map, mk.injEq, existsAndEq, true_and]
  tauto

/-- Bodies that are written are parted. -/
theorem arrange_written {annotations : Table Value} {flat : Option Value} {media : Value}
    {f : Fields}
    (hf : f.IsWritten annotations [("default", flat), ("media_types", some media)]) :
    arrange f = f := by
  have hmedia : f.entries.get? "media_types" = some media := hf.entries "media_types"
  have hsome : f.entries.names.isEmpty = false := by
    have hmem : "media_types" ∈ f.entries.names := List.mem_map_of_mem (Table.mem_of_get? hmedia)
    rw [List.isEmpty_eq_false_iff]
    exact List.ne_nil_of_mem hmem
  have hall : f.entries.names.all (fun n => n == "default" || n == "media_types") = true := by
    rw [List.all_eq_true]
    intro n hn
    obtain ⟨e, he, rfl⟩ := List.mem_map.mp hn
    simpa using hf.mem_names he
  rw [arrange, hsome, hall]
  rfl

/-- So are bodies by their media types. -/
theorem rereads : Rereads (fun v => AllClear (expressions v)) read (toValue id) := by
  intro v b hclear h
  obtain ⟨f, hfields, h⟩ := EntityForm.read_eq_good.mp h
  have hclear := allClear_fields hclear hfields
  rw [fieldExpressions, allClear_append] at hclear
  obtain ⟨hannotations, hflat, hmedia⟩ := ofFields_eq_good.mp h
  refine EntityForm.read_record (by dsimp only [List.map]; decide) fun f' hf => ⟨f', ?_, ?_⟩
  · exact congrArg Except.ok (arrange_written hf)
  · exact ofFields_eq_good.mpr ⟨hf.annotationTable hannotations,
      hf.optional Body.rereads (fun _ => nofun) rfl (allClear_found hclear.1) hflat,
      hf.collection (Reader.rereads_table Body.rereads) rfl nofun rfl
        (fun e he => allClear_members (allClear_found hclear.2 e he)) hmedia⟩

/-- No bodies at all are read again. -/
theorem read_empty : read (empty.toValue id) = .good empty :=
  rereads (v := .null) (List.forall_mem_nil _) rfl

end Bodies

namespace Response

theorem ofFields_eq_good {f : Fields} {r : Response} : ofFields f = .good r ↔
    f.annotationTable = .good r.annotations ∧
    f.withDefault ["code"] "" Reader.text = .good r.code ∧
    f.optional ["description"] Reader.text = .good r.description ∧
    f.collection ["headers"] [] Parameter.readTable = .good r.headers ∧
    f.collection ["body", "bodies"] .empty Bodies.read = .good r.bodies := by
  cases r
  rw [ofFields, eq_good_iff]
  simp only [yields_seq, yields_map, mk.injEq, existsAndEq, true_and]
  tauto

/-- So is a response, under whatever code it was adopted. -/
theorem rereads_named {v : Value} {r : Response} (hclear : AllClear (expressions v))
    (h : read v = .good r) (code : String) :
    read (toValue id { r with code := code }) = .good { r with code := code } := by
  obtain ⟨f, hfields, h⟩ := EntityForm.read_eq_good.mp h
  have hclear := allClear_fields hclear hfields
  obtain ⟨hannotations, -, -, hheaders, hbodies⟩ := ofFields_eq_good.mp h
  refine EntityForm.read_record (by dsimp only [List.map]; decide) fun f' hf => ⟨f', rfl, ?_⟩
  exact ofFields_eq_good.mpr ⟨hf.annotationTable hannotations, hf.withDefault rfl rfl,
    hf.text rfl, hf.collection Parameter.rereads_table rfl nofun rfl (fun _ _ => trivial) hheaders,
    hf.collection Bodies.rereads Bodies.read_empty nofun rfl (allClear_found hclear) hbodies⟩

theorem rereads_table :
    Rereads (fun v => AllClear (v.memberExpressions expressions)) readTable
      (Value.ofTable (toValue id)) :=
  (Reader.rereads_adopted code (fun key r => { r with code := key }) (fun _ _ => rfl)
    (fun _ r hclear h => rereads_named hclear h r.code)
    fun _ _ hclear h => rereads_named hclear h).mono fun _ h => allClear_members h

theorem distinct_of_collection {names : List String} {f : Fields} {t : Table Response}
    (h : f.collection names [] readTable = .good t) : t.Distinct :=
  Reader.distinct_of_adopted code (fun key r => { r with code := key }) h

end Response

/-! ## Methods and templates -/

namespace Method

theorem ofFields_eq_good {f : Fields} {m : Method} : ofFields f = .good m ↔
    f.annotationTable = .good m.annotations ∧
    f.withDefault ["name"] "" Reader.text = .good m.name ∧
    f.optional ["displayName", "display_name"] Reader.text = .good m.displayName ∧
    f.optional ["description"] Reader.text = .good m.description ∧
    f.collection ["queryParameters", "query_parameters"] [] Parameter.readTable =
      .good m.queryParameters ∧
    f.collection ["headers"] [] Parameter.readTable = .good m.headers ∧
    f.shape? ["queryString", "query_string"] = .good m.queryString ∧
    f.collection ["responses"] [] Response.readTable = .good m.responses ∧
    f.collection ["body", "bodies"] .empty Bodies.read = .good m.bodies ∧
    f.collection ["protocols"] [] (Reader.list Reader.text) = .good m.protocols ∧
    f.collection ["is", "is_"] [] (Reader.list Choice.read) = .good m.traits ∧
    f.collection ["securedBy", "secured_by"] [] Choice.readSecurity = .good m.securedBy := by
  cases m
  rw [ofFields, eq_good_iff]
  simp only [yields_seq, yields_map, mk.injEq, existsAndEq, true_and]
  tauto

/-- The rows of a method, and one that says how a trait is used. -/
def rows (m : Method) (usage : Option Value) : Rows :=
  (m.valueFields id).tail ++ [("usage", usage)]

section Written

variable {f f' : Fields} {m : Method} {name : String} {usage : Option Value}

theorem arrange_written (h : ofFields f = .good m)
    (hf : f'.IsWritten m.annotations (rows { m with name := name } usage)) :
    ∃ g, arrange f' = .ok g ∧ g.IsWritten m.annotations (rows { m with name := name } usage) := by
  obtain ⟨-, -, -, -, -, -, -, hresponses, -⟩ := ofFields_eq_good.mp h
  have hlists : (f'.listify ["is", "securedBy", "protocols"]).IsWritten m.annotations
      (rows { m with name := name } usage) := by
    refine hf.listify _ ?_
    simp only [List.forall_mem_cons]
    exact ⟨⟨_, rfl⟩, ⟨_, rfl⟩, ⟨_, rfl⟩, nofun⟩
  exact hlists.withCodes (Response.distinct_of_collection hresponses) rfl

/-- The fields of a method that were written are read as the method. -/
theorem ofFields_written (hclear : AllClear (fieldExpressions f)) (h : ofFields f = .good m)
    (hf : f'.IsWritten m.annotations (rows { m with name := name } usage)) :
    ofFields f' = .good { m with name := name } := by
  simp only [fieldExpressions, allClear_append] at hclear
  obtain ⟨⟨hclearstring, hclearresponses⟩, hclearbodies⟩ := hclear
  obtain ⟨hannotations, -, -, -, hquery, hheaders, hstring, hresponses, hbodies, hprotocols,
    htraits, hsecured⟩ := ofFields_eq_good.mp h
  exact ofFields_eq_good.mpr ⟨hf.annotationTable hannotations, hf.withDefault rfl rfl,
    hf.text rfl, hf.text rfl,
    hf.collection Parameter.rereads_table rfl nofun rfl (fun _ _ => trivial) hquery,
    hf.collection Parameter.rereads_table rfl nofun rfl (fun _ _ => trivial) hheaders,
    hf.shape? rfl (allClear_found hclearstring) hstring,
    hf.collection Response.rereads_table rfl nofun rfl (allClear_found hclearresponses) hresponses,
    hf.collection Bodies.rereads Bodies.read_empty nofun rfl (allClear_found hclearbodies) hbodies,
    hf.collection (C := fun _ => True) (Reader.rereads_list Reader.rereads_text) rfl nofun rfl
      (fun _ _ => trivial) hprotocols,
    hf.collection Choice.rereads_list rfl nofun rfl (fun _ _ => trivial) htraits,
    hf.collection Choice.rereads_security rfl nofun rfl (fun _ _ => trivial) hsecured⟩

end Written

/-- A method is read again, under whatever name it was adopted. -/
theorem rereads_named {v : Value} {m : Method} (hclear : AllClear (expressions v))
    (h : read v = .good m) (name : String) :
    read (toValue id { m with name := name }) = .good { m with name := name } := by
  obtain ⟨f, hfields, h⟩ := EntityForm.read_eq_good.mp h
  have hclear := allClear_fields hclear hfields
  refine EntityForm.read_record (by dsimp only [List.map]; decide) fun f' hf => ?_
  obtain ⟨g, hg, hwritten⟩ := arrange_written h (hf.addNone "usage")
  exact ⟨g, hg, ofFields_written hclear h hwritten⟩

theorem rereads_table :
    Rereads (fun v => AllClear (v.memberExpressions expressions)) readTable
      (Value.ofTable (toValue id)) :=
  (Reader.rereads_adopted name (fun key m => { m with name := nameOfKey key }) (fun _ _ => rfl)
    (fun _ m hclear h => rereads_named hclear h m.name)
    fun _ _ hclear h key => rereads_named hclear h (nameOfKey key)).mono
      fun _ h => allClear_members h

end Method

namespace Trait

theorem fields_eq_good {f : Fields} {t : Trait} : form.fields f = .good t ↔
    Method.ofFields f = .good t.method ∧
    f.optional ["usage"] Reader.text = .good t.usage := by
  cases t
  rw [form, eq_good_iff]
  simp only [yields_seq, yields_map, mk.injEq, existsAndEq, true_and]
  tauto

/-- A trait is read again as the method that it is, with its usage. -/
theorem rereads_named {v : Value} {t : Trait} (hclear : AllClear (expressions v))
    (h : read v = .good t) (name : String) :
    read (toValue id { t with method := { t.method with name := name } }) =
      .good { t with method := { t.method with name := name } } := by
  obtain ⟨f, hfields, h⟩ := EntityForm.read_eq_good.mp h
  have hclear := allClear_fields hclear hfields
  obtain ⟨hmethod, -⟩ := fields_eq_good.mp h
  refine EntityForm.read_record
    (by dsimp only [List.append_eq, List.cons_append, List.nil_append, List.map]; decide)
    fun f' hf => ?_
  obtain ⟨g, hg, hf⟩ := Method.arrange_written hmethod hf
  exact ⟨g, hg, fields_eq_good.mpr ⟨Method.ofFields_written hclear hmethod hf, hf.text rfl⟩⟩

theorem rereads_table :
    Rereads (fun v => AllClear (v.memberExpressions expressions)) readTable
      (Value.ofTable (toValue id)) :=
  (Reader.rereads_adopted (fun t => t.method.name)
    (fun key t => { t with method := { t.method with name := key } }) (fun _ _ => rfl)
    (fun _ t hclear h => rereads_named hclear h t.method.name)
    fun _ _ hclear h => rereads_named hclear h).mono fun _ h => allClear_members h

end Trait

namespace ResourceType

theorem ofFields_eq_good {f : Fields} {r : ResourceType} : ofFields f = .good r ↔
    f.annotationTable = .good r.annotations ∧
    f.withDefault ["name"] "" Reader.text = .good r.name ∧
    f.optional ["usage"] Reader.text = .good r.usage ∧
    f.optional ["displayName", "display_name"] Reader.text = .good r.displayName ∧
    f.optional ["description"] Reader.text = .good r.description ∧
    f.collection ["uriParameters", "uri_parameters"] [] Parameter.readTable =
      .good r.uriParameters ∧
    f.collection ["is", "is_"] [] (Reader.list Choice.read) = .good r.traits ∧
    f.collection ["securedBy", "secured_by"] [] Choice.readSecurity = .good r.securedBy ∧
    f.collection ["methods"] [] Method.readTable = .good r.methods ∧
    f.collection ["optional_methods"] [] Method.readTable = .good r.optionalMethods := by
  cases r
  rw [ofFields, eq_good_iff]
  simp only [yields_seq, yields_map, mk.injEq, existsAndEq, true_and]
  tauto

/-- The methods of a resource type that is written are in their places. -/
theorem arrange_written {annotations : Table Value} {rows : Rows}
    {methods optionals : List (Value × Value)} {f : Fields} (hf : f.IsWritten annotations rows)
    (hnames : ∀ n ∈ rows.map Prod.fst, verbOf? n = none ∧ optionalVerbOf? n = none)
    (hlists : ∀ n ∈ ["is", "securedBy"], ∃ vs, Table.get? n rows = some (some (.list vs)))
    (hmethods : Table.get? "methods" rows = some (some (.map methods)))
    (hoptionals : Table.get? "optional_methods" rows = some (some (.map optionals))) :
    ∃ f', arrange f = .ok f' ∧ f'.IsWritten annotations rows := by
  have hf := hf.listify _ hlists
  have hown : Fields.mappingOf "methods" ((f.listify ["is", "securedBy"]).entries.get? "methods") =
      .ok methods := by
    rw [hf.entries, hmethods]
    rfl
  have hownOptionals : Fields.mappingOf "optional_methods"
      ((f.listify ["is", "securedBy"]).entries.get? "optional_methods") = .ok optionals := by
    rw [hf.entries, hoptionals]
    rfl
  -- no row goes by a verb, so nothing is gathered but what the tables hold
  have hgather := hf.gather (fun n hn => (hnames n hn).1) methods
  have hgatherOptionals := hf.gather (fun n hn => (hnames n hn).2) optionals
  refine ⟨_, ?_, hf.moved ["methods", "optional_methods"]
    (fun k => (verbOf? k).isSome || (optionalVerbOf? k).isSome)
    [("methods", .map methods), ("optional_methods", .map optionals)] ?_ ?_ ?_⟩
  · unfold arrange
    dsimp only
    rw [hown, hownOptionals]
    refine congrArg Except.ok ?_
    simp only [hgather, hgatherOptionals]
  · intro n hn
    rw [(hnames n hn).1, (hnames n hn).2]
    rfl
  · simp only [List.forall_mem_cons]
    exact ⟨by rw [hmethods]; rfl, by rw [hoptionals]; rfl, nofun⟩
  · intro n hn
    exact ⟨rfl, Table.get?_eq_none fun a ha => hn (List.mem_map_of_mem (f := Prod.fst) ha)⟩

/-- A resource type is read again, its optional methods included. -/
theorem rereads_named {v : Value} {r : ResourceType} (hclear : AllClear (expressions v))
    (h : read v = .good r) (name : String) :
    read (toValue id { r with name := name }) = .good { r with name := name } := by
  obtain ⟨f, hfields, h⟩ := EntityForm.read_eq_good.mp h
  have hclear := allClear_fields hclear hfields
  rw [fieldExpressions, allClear_append] at hclear
  obtain ⟨hannotations, -, -, -, -, hparameters, htraits, hsecured, hmethods, hoptionals⟩ :=
    ofFields_eq_good.mp h
  refine EntityForm.read_record (by dsimp only [List.map]; decide) fun f' hf => ?_
  obtain ⟨f', harrange, hf⟩ := arrange_written hf (by dsimp only [List.map]; decide)
    (List.forall_mem_cons.mpr ⟨⟨_, rfl⟩, List.forall_mem_singleton.mpr ⟨_, rfl⟩⟩) rfl rfl
  exact ⟨f', harrange, ofFields_eq_good.mpr ⟨hf.annotationTable hannotations,
    hf.withDefault rfl rfl, hf.text rfl, hf.text rfl, hf.text rfl,
    hf.collection Parameter.rereads_table rfl nofun rfl (fun _ _ => trivial) hparameters,
    hf.collection Choice.rereads_list rfl nofun rfl (fun _ _ => trivial) htraits,
    hf.collection Choice.rereads_security rfl nofun rfl (fun _ _ => trivial) hsecured,
    hf.collection Method.rereads_table rfl nofun rfl (allClear_found hclear.1) hmethods,
    hf.collection Method.rereads_table rfl nofun rfl (allClear_found hclear.2) hoptionals⟩⟩

theorem rereads_table :
    Rereads (fun v => AllClear (v.memberExpressions expressions)) readTable
      (Value.ofTable (toValue id)) :=
  (Reader.rereads_adopted name (fun key r => { r with name := key }) (fun _ _ => rfl)
    (fun _ r hclear h => rereads_named hclear h r.name)
    fun _ _ hclear h => rereads_named hclear h).mono fun _ h => allClear_members h

end ResourceType

/-! ## Declarations -/

namespace TypeDeclaration

theorem ofFields_eq_good {f : Fields} {t : TypeDeclaration} : ofFields f = .good t ↔
    f.annotationTable = .good t.annotations ∧
    f.withDefault ["name"] "" Reader.text = .good t.name ∧
    f.shape? ["type"] = .good t.type ∧
    f.collection ["properties"] [] (Reader.table Reader.shape) = .good t.properties ∧
    f.shape? ["items"] = .good t.items ∧
    f.optional ["description"] Reader.text = .good t.description ∧
    f.optional ["displayName", "display_name"] Reader.text = .good t.displayName ∧
    f.any ["example"] = .good t.sample ∧
    f.any ["examples"] = .good t.samples ∧
    f.optional ["enum"] (Reader.list Reader.any) = .good t.choices ∧
    f.collection ["facets"] [] (Reader.table Reader.any) = .good t.facets := by
  cases t
  rw [ofFields, eq_good_iff]
  simp only [yields_seq, yields_map, mk.injEq, existsAndEq, true_and]
  tauto

/-- A type declaration is read again. -/
theorem rereads_named {v : Value} {t : TypeDeclaration} (hclear : AllClear (expressions v))
    (h : read v = .good t) (name : String) :
    read (toValue id { t with name := name }) = .good { t with name := name } := by
  obtain ⟨f, hfields, h⟩ := EntityForm.read_eq_good.mp h
  have hclear := allClear_fields hclear hfields
  simp only [fieldExpressions, allClear_append] at hclear
  obtain ⟨⟨hcleartype, hclearproperties⟩, hclearitems⟩ := hclear
  obtain ⟨hannotations, -, htype, hproperties, hitems, -, -, -, -, -, hfacets⟩ :=
    ofFields_eq_good.mp h
  refine EntityForm.read_record (by dsimp only [List.map]; decide) fun f' hf => ?_
  obtain ⟨f', harrange, hf⟩ := hf.collectFacets known (by dsimp only [List.map]; decide) rfl
  exact ⟨f', harrange, ofFields_eq_good.mpr ⟨hf.annotationTable hannotations,
    hf.withDefault rfl rfl, hf.shape? rfl (allClear_found hcleartype) htype,
    hf.collection (Reader.rereads_table Shape.rereads) rfl nofun rfl
      (fun e he => allClear_members (allClear_found hclearproperties e he)) hproperties,
    hf.shape? rfl (allClear_found hclearitems) hitems, hf.text rfl, hf.text rfl, hf.any rfl,
    hf.any rfl, hf.list rfl, hf.anyTable rfl hfacets⟩⟩

theorem rereads_table :
    Rereads (fun v => AllClear (v.memberExpressions expressions)) readTable
      (Value.ofTable (toValue id)) :=
  (Reader.rereads_adopted name (fun key t => { t with name := key }) (fun _ _ => rfl)
    (fun _ t hclear h => rereads_named hclear h t.name)
    fun _ _ hclear h => rereads_named hclear h).mono fun _ h => allClear_members h

end TypeDeclaration

namespace DescribedBy

theorem ofFields_eq_good {f : Fields} {d : DescribedBy} : ofFields f = .good d ↔
    f.annotationTable = .good d.annotations ∧
    f.collection ["headers"] [] Parameter.readTable = .good d.headers ∧
    f.collection ["queryParameters", "query_parameters"] [] Parameter.readTable =
      .good d.queryParameters ∧
    f.shape? ["queryString", "query_string"] = .good d.queryString ∧
    f.collection ["responses"] [] Response.readTable = .good d.responses := by
  cases d
  rw [ofFields, eq_good_iff]
  simp only [yields_seq, yields_map, mk.injEq, existsAndEq, true_and]
  tauto

theorem rereads : Rereads (fun v => AllClear (expressions v)) read (toValue id) := by
  intro v d hclear h
  obtain ⟨f, hfields, h⟩ := EntityForm.read_eq_good.mp h
  have hclear := allClear_fields hclear hfields
  rw [fieldExpressions, allClear_append] at hclear
  obtain ⟨hannotations, hheaders, hquery, hstring, hresponses⟩ := ofFields_eq_good.mp h
  refine EntityForm.read_record (by dsimp only [List.map]; decide) fun f' hf => ?_
  obtain ⟨g, hg, hf⟩ := hf.withCodes (Response.distinct_of_collection hresponses) rfl
  exact ⟨g, hg, ofFields_eq_good.mpr ⟨hf.annotationTable hannotations,
    hf.collection Parameter.rereads_table rfl nofun rfl (fun _ _ => trivial) hheaders,
    hf.collection Parameter.rereads_table rfl nofun rfl (fun _ _ => trivial) hquery,
    hf.shape? rfl (allClear_found hclear.1) hstring,
    hf.collection Response.rereads_table rfl nofun rfl (allClear_found hclear.2) hresponses⟩⟩

/-- What adds nothing is read again. -/
theorem read_empty : read (empty.toValue id) = .good empty :=
  rereads (v := .null) (List.forall_mem_nil _) rfl

end DescribedBy

namespace SecurityScheme

theorem ofFields_eq_good {f : Fields} {s : SecurityScheme} : ofFields f = .good s ↔
    f.annotationTable = .good s.annotations ∧
    f.withDefault ["name"] "" Reader.text = .good s.name ∧
    f.optional ["type"] Reader.text = .good s.type ∧
    f.optional ["displayName", "display_name"] Reader.text = .good s.displayName ∧
    f.optional ["description"] Reader.text = .good s.description ∧
    f.collection ["describedBy", "described_by"] .empty DescribedBy.read = .good s.describedBy ∧
    f.collection ["settings"] [] (Reader.table Reader.any) = .good s.settings := by
  cases s
  rw [ofFields, eq_good_iff]
  simp only [yields_seq, yields_map, mk.injEq, existsAndEq, true_and]
  tauto

/-- A security scheme is read again. -/
theorem rereads_named {v : Value} {s : SecurityScheme} (hclear : AllClear (expressions v))
    (h : read v = .good s) (name : String) :
    read (toValue id { s with name := name }) = .good { s with name := name } := by
  obtain ⟨f, hfields, h⟩ := EntityForm.read_eq_good.mp h
  have hclear := allClear_fields hclear hfields
  obtain ⟨hannotations, -, -, -, -, hdescribed, hsettings⟩ := ofFields_eq_good.mp h
  refine EntityForm.read_record (by dsimp only [List.map]; decide) fun f' hf => ⟨f', rfl, ?_⟩
  exact ofFields_eq_good.mpr ⟨hf.annotationTable hannotations, hf.withDefault rfl rfl,
    hf.text rfl, hf.text rfl, hf.text rfl,
    hf.collection DescribedBy.rereads DescribedBy.read_empty nofun rfl (allClear_found hclear)
      hdescribed,
    hf.anyTable rfl hsettings⟩

theorem rereads_table :
    Rereads (fun v => AllClear (v.memberExpressions expressions)) readTable
      (Value.ofTable (toValue id)) :=
  (Reader.rereads_adopted name (fun key s => { s with name := key }) (fun _ _ => rfl)
    (fun _ s hclear h => rereads_named hclear h s.name)
    fun _ _ hclear h => rereads_named hclear h).mono fun _ h => allClear_members h

end SecurityScheme

/-! ## What is declared -/

namespace Declarations

theorem ofFields_eq_good {f : Fields} {d : Declarations} : ofFields f = .good d ↔
    f.collection ["types"] [] TypeDeclaration.readTable = .good d.types ∧
    f.collection ["traits"] [] Trait.readTable = .good d.traits ∧
    f.collection ["resourceTypes", "resource_types"] [] ResourceType.readTable =
      .good d.resourceTypes ∧
    f.collection ["annotationTypes", "annotation_types"] [] (Reader.table Reader.any) =
      .good d.annotationTypes ∧
    f.collection ["securitySchemes", "security_schemes"] [] SecurityScheme.readTable =
      .good d.securitySchemes ∧
    f.collection ["uses"] [] (Reader.table Reader.text) = .good d.uses := by
  cases d
  rw [ofFields, eq_good_iff]
  simp only [yields_seq, yields_map, mk.injEq, existsAndEq, true_and]
  tauto

/-- Declarations are read again among other rows, unless those go by another name of theirs. -/
theorem ofFields_written {f f' : Fields} {d : Declarations} {annotations : Table Value}
    {rows : Rows} (hclear : AllClear (fieldExpressions f)) (h : ofFields f = .good d)
    (hf : f'.IsWritten annotations (d.valueFields id ++ rows))
    (hrows : Table.get? "resource_types" rows = none ∧ Table.get? "annotation_types" rows = none ∧
      Table.get? "security_schemes" rows = none) : ofFields f' = .good d := by
  simp only [fieldExpressions, allClear_append] at hclear
  obtain ⟨⟨⟨hcleartypes, hcleartraits⟩, hclearresourceTypes⟩, hclearschemes⟩ := hclear
  obtain ⟨htypes, htraits, hresourceTypes, hannotationTypes, hschemes, huses⟩ :=
    ofFields_eq_good.mp h
  obtain ⟨hnoTypes, hnoAnnotations, hnoSchemes⟩ := hrows
  exact ofFields_eq_good.mpr ⟨
    hf.collection TypeDeclaration.rereads_table rfl nofun rfl (allClear_found hcleartypes) htypes,
    hf.collection Trait.rereads_table rfl nofun rfl (allClear_found hcleartraits) htraits,
    hf.collection ResourceType.rereads_table rfl nofun (congrArg (List.cons _ [·]) hnoTypes)
      (allClear_found hclearresourceTypes) hresourceTypes,
    hf.anyTable (congrArg (List.cons _ [·]) hnoAnnotations) hannotationTypes,
    hf.collection SecurityScheme.rereads_table rfl nofun (congrArg (List.cons _ [·]) hnoSchemes)
      (allClear_found hclearschemes) hschemes,
    hf.collection (C := fun _ => True) ((Reader.rereads_table (C := fun _ => True)
      Reader.rereads_text).mono fun _ _ _ _ => trivial) rfl nofun rfl (fun _ _ => trivial) huses⟩

end Declarations

end Raml
