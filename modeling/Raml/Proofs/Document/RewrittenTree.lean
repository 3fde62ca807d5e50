import Raml.Proofs.Document.Filled
import Raml.Proofs.Document.Members
import Raml.Proofs.Document.Rewritten

/-!
# Documents that are written and read again

Libraries hold libraries and resources hold resources, so that these are read again is proved by
induction on the members of the node that they were read from. `rewritten_of_read` says it of every
kind of entity in a document: what is read from a node whose type expressions are clear is read
again from the mapping that is written for it.
-/

namespace Raml

open Shape (AllClear allClear_append)
open Checked (eq_good_iff yields_map yields_seq)
open Reader (Rereads)

/-! ## Members that are written -/

/-- In a record the members under a name are the entries of its row. -/
theorem GathersMembers.listed_record {β : Type} {name : String} {give : Value × Value → List β}
    {listed : List (Value × Value) → List β} {inMapping : Value → List β}
    {inEntries : List (Value × Value) → List β}
    (h : GathersMembers name give listed inMapping inEntries) (hname : "annotations" ≠ name)
    {rows : Rows} {es : List (Value × Value)}
    (hrow : Table.get? name rows = some (some (.map es))) (annotations : Value) :
    listed ((.str "annotations", annotations) :: rows.entries) = inEntries es := by
  have hkey : ¬((Value.str "annotations").key == name) = true := mt beq_iff_eq.mp hname
  rw [h.listed_cons, if_neg hkey, h.listed_eq, Value.membersUnder, Rows.find?_entries hrow,
    h.entries_eq]
  rfl

/-! ## Libraries -/

namespace Library

variable {libraries : List (Value × Checked Library)} {f : Fields} {l : Library}

theorem ofFields_eq_good : ofFields libraries f = .good l ↔
    f.annotationTable = .good l.annotations ∧
    Declarations.ofFields f = .good l.declared ∧
    field libraries f = .good l.libraries ∧
    f.withDefault ["location"] "" Reader.text = .good l.location ∧
    f.optional ["usage"] Reader.text = .good l.usage := by
  cases l
  rw [ofFields, eq_good_iff]
  simp only [yields_seq, yields_map, mk.injEq, existsAndEq, true_and]
  tauto

/-- Whether a library is read again, if one was read at all. -/
def IsRewritten (c : Checked Library) : Prop :=
  ∀ l, c = .good l → read (l.toValue id) = .good l

theorem toEntries_eq (t : Table Library) :
    toEntries id t = t.map fun e => (.str e.1, e.2.toValue id) := by
  induction t with
  | nil => rfl
  | cons e t ih => rw [toEntries, ih, List.map_cons]

/-- What is known of the libraries in a field that is read. -/
theorem of_field {t : Table Library} (h : field libraries f = .good t) :
    t.Distinct ∧ ∀ e ∈ t, ∃ b ∈ libraries, b.2 = .good e.2 := by
  rw [field, Fields.collection] at h
  split at h
  · have h := Checked.under_eq_good.mp h
    split at h
    · obtain ⟨es, hes, rfl⟩ := Checked.map_eq_good.mp h
      refine ⟨Table.distinct_ofEntries es, Table.forall_mem_ofEntries ?_⟩
      exact Reader.mem_of_entries hes
    · cases h
  · cases h
    exact ⟨List.nodup_nil, List.forall_mem_nil _⟩

/-- Libraries are gathered as they were written if each is read again. -/
theorem collect_written {t : Table Library} (hdistinct : t.Distinct)
    (h : ∀ e ∈ t, read (e.2.toValue id) = .good e.2) :
    collect (readEntries (toEntries id t)) = .good t := by
  rw [toEntries_eq, gathers_read.entries_eq_map, List.map_map, collect, List.map_map]
  exact Checked.map_eq_good.mpr
    ⟨t, Reader.all_entries (x := fun e => read (e.2.toValue id)) h,
      Table.ofEntries_of_distinct hdistinct⟩

/-- The field of the libraries is read from its row. -/
theorem field_written {t : Table Library} {annotations : Table Value} {rows : Rows}
    {es : List (Value × Value)} (hf : f.IsWritten annotations rows)
    (hrow : Table.get? "libraries" rows = some (some (.map es)))
    (h : collect libraries = .good t) : field libraries f = .good t := by
  have hrow' : ["libraries"].map (Table.get? · rows) = [some (some (.map es))] :=
    congrArg ([·]) hrow
  have hgiven : f.given? ["libraries"] = some ("libraries", .map es) := hf.given?_eq hrow'
  rw [field, Fields.collection, hgiven]
  exact Checked.under_eq_good.mpr h

/-- The rows of a library. -/
def rows (l : Library) : Rows :=
  l.declared.valueFields id ++ [
    ("libraries", some (.map (toEntries id l.libraries))),
    ("location", some (.str l.location)),
    ("usage", Value.ofText? l.usage)]

theorem toValue_eq (l : Library) : l.toValue id =
    .map ((.str "annotations", .map (l.annotations.map fun e => (.str e.1, e.2))) ::
      l.rows.entries) := by
  cases l
  rfl

/-- A library is read again if the libraries in it are. -/
theorem rewritten_ofEntries {es : List (Value × Value)}
    (hclear : AllClear (((form []).fieldsOf? es).toList.flatMap Declarations.fieldExpressions))
    (hlibraries : ∀ b ∈ libraries, IsRewritten b.2) :
    IsRewritten ((form libraries).ofEntries es) := by
  intro l h
  obtain ⟨f, hfields, h⟩ := EntityForm.ofEntries_eq_good.mp h
  have hclear := allClear_fieldsOf hclear hfields
  obtain ⟨hannotations, hdeclared, hfield, -, -⟩ := ofFields_eq_good.mp h
  obtain ⟨hdistinct, hmem⟩ := of_field hfield
  -- the table holds what is read again, each library under its own key
  have hcollect : collect (readEntries (toEntries id l.libraries)) = .good l.libraries := by
    refine collect_written hdistinct fun e he => ?_
    obtain ⟨b, hb, hread⟩ := hmem e he
    exact hlibraries b hb e.2 hread
  have hrow : Table.get? "libraries" l.rows = some (some (.map (toEntries id l.libraries))) := rfl
  -- what is written lists these libraries and no others
  have hlisted : listed ((.str "annotations", .map (l.annotations.map fun e => (.str e.1, e.2))) ::
      l.rows.entries) = readEntries (toEntries id l.libraries) :=
    gathers_read.listed_record (by decide) hrow _
  rw [toValue_eq, read, hlisted]
  refine EntityForm.ofEntries_record ?_ fun f' hf => ⟨f', rfl, ?_⟩
  · dsimp only [rows, Declarations.valueFields, List.cons_append, List.nil_append, List.map]
    decide
  · exact ofFields_eq_good.mpr ⟨hf.annotationTable hannotations,
      Declarations.ofFields_written hclear hdeclared hf ⟨rfl, rfl, rfl⟩,
      field_written hf hrow hcollect, hf.withDefault rfl rfl, hf.text rfl⟩

theorem gathers_expressions : GathersMembers "libraries" (fun c => expressions c.2)
    expressionsOfListed expressionsOfMapping expressionsOfEntries :=
  ⟨rfl, fun _ _ _ => rfl, fun v => by cases v <;> rfl, rfl, fun _ _ => rfl⟩

/-- A library is read again if its type expressions are clear. -/
theorem rewritten_of_read {v : Value} : AllClear (expressions v) → IsRewritten (read v) := by
  induction v using Value.membersInduction with
  | step v _ hmembers =>
    intro hclear
    cases v with
    | map es =>
      rw [expressions, allClear_append] at hclear
      rw [read]
      refine rewritten_ofEntries hclear.1 (gathers_read.forall_mem_read.mpr fun c hc => ?_)
      exact hmembers _ c hc (gathers_expressions.forall_mem_listed.mp hclear.2 c hc)
    | null =>
      rw [read]
      exact rewritten_ofEntries (by decide) (List.forall_mem_nil _)
    | _ =>
      intro _ h
      cases h

/-- The libraries under the key `libraries` are read again if their type expressions are clear. -/
theorem rewritten_of_listed {es : List (Value × Value)}
    (hclear : AllClear (expressionsOfListed es)) :
    ∀ b ∈ listed es, IsRewritten b.2 :=
  gathers_read.forall_mem_read.mpr fun c hc =>
    rewritten_of_read (gathers_expressions.forall_mem_listed.mp hclear c hc)

end Library

/-! ## Resources -/

namespace Resource

variable {nested : List (Value × Checked Resource)} {f : Fields} {r : Resource}

/-- Clear branches lead to resources with clear type expressions. -/
theorem allClear_of_branches {es : List (Value × Value)} {e : Value × Value}
    (h : AllClear (expressionsOfBranches es)) (he : e ∈ es) (hpath : isPath e.1.key = true) :
    AllClear (expressions e.2) := by
  induction es with
  | nil => cases he
  | cons e' es ih =>
    rw [expressionsOfBranches, allClear_append] at h
    rcases List.mem_cons.mp he with rfl | he
    · rw [if_pos hpath] at h
      exact h.1
    · exact ih h.2 he

theorem ofFields_eq_good : ofFields nested f = .good r ↔
    f.annotationTable = .good r.annotations ∧
    f.withDefault ["uri"] "" Reader.text = .good r.uri ∧
    f.optional ["displayName", "display_name"] Reader.text = .good r.displayName ∧
    f.optional ["description"] Reader.text = .good r.description ∧
    f.collection ["methods"] [] Method.readTable = .good r.methods ∧
    f.collection ["is", "is_"] [] (Reader.list Choice.read) = .good r.traits ∧
    f.optional ["type"] Choice.read = .good r.type ∧
    f.collection ["securedBy", "secured_by"] [] Choice.readSecurity = .good r.securedBy ∧
    f.collection ["uriParameters", "uri_parameters"] [] Parameter.readTable =
      .good r.uriParameters ∧
    (collect nested).under "nested" = .good r.nested := by
  cases r
  rw [ofFields, eq_good_iff]
  simp only [yields_seq, yields_map, mk.injEq, existsAndEq, true_and]
  tauto

/-- Whether a resource is read again under any path, if one was read at all. -/
def IsRewritten (c : Checked Resource) : Prop :=
  ∀ r, c = .good r → ∀ uri : String,
    read (toValue id { r with uri := uri }) = .good { r with uri := uri }

theorem toEntries_eq (t : Table Resource) :
    toEntries id t = t.map fun e => (.str e.1, e.2.toValue id) := by
  induction t with
  | nil => rfl
  | cons e t ih => rw [toEntries, ih, List.map_cons]

/-- No row is that of a path. -/
theorem branches_written {rows : Rows} (h : ∀ n ∈ rows.map Prod.fst, isPath n = false) :
    branches rows.entries = [] := by
  induction rows with
  | nil => rfl
  | cons row rows ih =>
    obtain ⟨n, o⟩ := row
    rw [List.map_cons, List.forall_mem_cons] at h
    cases o with
    | none => rw [Rows.entries_none, ih h.2]
    | some w =>
      have hkey : ¬isPath (Value.str n).key = true := by
        change ¬isPath n = true
        rw [h.1]
        exact Bool.false_ne_true
      rw [Rows.entries_some, branches, if_neg hkey, ih h.2]

/-- The resources below one are read again, and have their paths. -/
theorem collect_written {t : Table Resource} (h : collect nested = .good t)
    (hnested : ∀ b ∈ nested, IsRewritten b.2) :
    collect (Value.mapOf (readEntries (toEntries id t))) = .good t := by
  obtain ⟨es, hes, rfl⟩ := Checked.map_eq_good.mp h
  -- whatever key a resource took for its URI, it is read again as itself
  have hread : ∀ e ∈ adoptNames uri (fun key r => { r with uri := key }) (Table.ofEntries es),
      read (e.2.toValue id) = .good e.2 := by
    rw [adoptNames, List.forall_mem_map]
    refine Table.forall_mem_ofEntries fun e he => ?_
    obtain ⟨b, hb, hread⟩ := Reader.mem_of_entries hes e he
    obtain ⟨key, a⟩ := e
    dsimp only
    split
    · exact hnested b hb a hread key
    · cases a
      exact hnested b hb _ hread _
  have hdistinct : Table.Distinct
      (adoptNames uri (fun key r => { r with uri := key }) (Table.ofEntries es)) :=
    Reader.distinct_adoptNames (Table.distinct_ofEntries es)
  generalize htable : adoptNames uri _ (Table.ofEntries es) = t at hread hdistinct ⊢
  -- the keys have been taken over already, and once more changes nothing
  have hadopted : adoptNames uri (fun key r => { r with uri := key }) t = t := by
    rw [← htable]
    exact Reader.adoptNames_adoptNames uri (fun key r => { r with uri := key }) (fun _ _ => rfl) _
  have hentries : Value.mapOf (readEntries (toEntries id t)) =
      t.map fun e => (.str e.1, read (e.2.toValue id)) := by
    have hmapped : Table.Distinct (t.mapValues fun r => read (r.toValue id)) := by
      have hnames : Table.names (t.mapValues fun r => read (r.toValue id)) = t.names :=
        List.map_map ..
      rw [Table.Distinct, hnames]
      exact hdistinct
    have heq : readEntries (toEntries id t) =
        (t.mapValues fun r => read (r.toValue id)).map fun e => (.str e.1, e.2) := by
      rw [toEntries_eq, gathers_read.entries_eq_map, List.map_map, Table.mapValues, List.map_map]
      rfl
    rw [heq, Table.mapOf_of_distinct hmapped, Table.mapValues, List.map_map]
    rfl
  rw [hentries, collect, List.map_map]
  refine Checked.map_eq_good.mpr
    ⟨t, Reader.all_entries (x := fun e => read (e.2.toValue id)) hread, ?_⟩
  rw [Table.ofEntries_of_distinct hdistinct, hadopted]

/-- The rows of a resource that are in its fields. -/
def rows (r : Resource) : Rows := [
  ("uri", some (.str r.uri)),
  ("displayName", Value.ofText? r.displayName),
  ("description", Value.ofText? r.description),
  ("methods", fieldOfTable (Method.toValue id) r.methods),
  ("is", some (.list (r.traits.map (Choice.toValue id)))),
  ("type", r.type.map (Choice.toValue id)),
  ("securedBy", some (.list (r.securedBy.map (Choice.toValue? id)))),
  ("uriParameters", fieldOfTable (Parameter.toValue id) r.uriParameters)]

theorem toValue_eq (r : Resource) : r.toValue id =
    .map ((.str "annotations", .map (r.annotations.map fun e => (.str e.1, e.2))) ::
      Rows.entries (r.rows ++ [("nested", some (.map (toEntries id r.nested)))])) := by
  cases r
  rfl

/-- The methods of a resource that is written are in their place, and the resources below it are
left out of its fields. -/
theorem arrange_written {annotations : Table Value} {below : List (Value × Value)}
    (hf : f.IsWritten annotations (r.rows ++ [("nested", some (.map below))])) :
    ∃ f', arrange f = .ok f' ∧ f'.IsWritten annotations r.rows := by
  -- no row goes by a verb or a path
  have hnames : ∀ n ∈ (r.rows ++ [("nested", some (Value.map below))]).map Prod.fst,
      ResourceType.verbOf? n = none ∧ isPath n = false := by
    dsimp only [rows, List.cons_append, List.nil_append, List.map]
    decide
  have hf := hf.listify ["is", "securedBy"]
    (List.forall_mem_cons.mpr ⟨⟨_, rfl⟩, List.forall_mem_singleton.mpr ⟨_, rfl⟩⟩)
  let methods := r.methods.map fun (n, m) => (Value.str n, Method.toValue id m)
  have hmethods : Fields.mappingOf "methods"
      ((f.listify ["is", "securedBy"]).entries.get? "methods") = .ok methods := by
    rw [hf.entries]
    rfl
  have hbelow : Fields.mappingOf "nested"
      ((f.listify ["is", "securedBy"]).entries.get? "nested") = .ok below := by
    rw [hf.entries]
    rfl
  have hgather := hf.gather (fun n hn => (hnames n hn).1) methods
  refine ⟨_, ?_, hf.moved ["methods", "nested"]
    (fun k => (ResourceType.verbOf? k).isSome || isPath k) [("methods", .map methods)] ?_ ?_ ?_⟩
  · unfold arrange
    dsimp only
    rw [hmethods, hbelow]
    refine congrArg Except.ok ?_
    simp only [hgather]
  · intro n hn
    rw [(hnames n hn).1, (hnames n hn).2]
    rfl
  · simp only [List.forall_mem_cons]
    exact ⟨rfl, rfl, nofun⟩
  · intro n hn
    simp only [List.mem_cons, List.not_mem_nil, or_false, not_or] at hn
    refine ⟨?_, if_neg (Ne.symm hn.1)⟩
    rw [Table.get?_append]
    exact congrArg Option.join ((congrArg _ (if_neg (Ne.symm hn.2))).trans Option.or_none).symm

/-- A resource is read again if the resources below it are. -/
theorem rewritten_ofEntries {es : List (Value × Value)}
    (hclear : AllClear (((form []).fieldsOf? es).toList.flatMap fieldExpressions))
    (hnested : ∀ b ∈ nested, IsRewritten b.2) : IsRewritten ((form nested).ofEntries es) := by
  intro r h path
  obtain ⟨f, hfields, h⟩ := EntityForm.ofEntries_eq_good.mp h
  have hclear := allClear_fieldsOf hclear hfields
  obtain ⟨hannotations, -, -, -, hmethods, htraits, htype, hsecured, hparameters, hbelow⟩ :=
    ofFields_eq_good.mp h
  have hcollect := collect_written (Checked.under_eq_good.mp hbelow) hnested
  let r' : Resource := { r with uri := path }
  have hrow : Table.get? "nested" (r'.rows ++ [("nested", some (.map (toEntries id r.nested)))]) =
      some (some (.map (toEntries id r.nested))) := rfl
  -- what is written has the resources below in one row, and none under a path
  have hlisted : listed ((.str "annotations", .map (r.annotations.map fun e => (.str e.1, e.2))) ::
      Rows.entries (r'.rows ++ [("nested", some (.map (toEntries id r.nested)))])) =
        readEntries (toEntries id r.nested) :=
    gathers_read.listed_record (by decide) hrow _
  have hbranches : branches
      ((.str "annotations", .map (r.annotations.map fun e => (.str e.1, e.2))) ::
        Rows.entries (r'.rows ++ [("nested", some (.map (toEntries id r.nested)))])) = [] := by
    rw [branches, if_neg (by decide)]
    refine branches_written ?_
    dsimp only [rows, List.cons_append, List.nil_append, List.map]
    decide
  rw [toValue_eq, read]
  change (form (Value.mapOf (listed _ ++ branches _))).ofEntries _ = _
  rw [hlisted, hbranches, List.append_nil]
  refine EntityForm.ofEntries_record ?_ fun f' hf => ?_
  · dsimp only [rows, List.cons_append, List.nil_append, List.map]
    decide
  · obtain ⟨f', harrange, hf⟩ := arrange_written hf
    exact ⟨f', harrange, ofFields_eq_good.mpr ⟨hf.annotationTable hannotations,
      hf.withDefault rfl rfl, hf.text rfl, hf.text rfl,
      hf.collection Method.rereads_table rfl Value.map_ne_null rfl (allClear_found hclear) hmethods,
      hf.collection Choice.rereads_list rfl Value.list_ne_null rfl (fun _ _ => trivial) htraits,
      hf.optional Choice.rereads (fun _ => Value.map_ne_null) rfl (fun _ _ => trivial) htype,
      hf.collection Choice.rereads_security rfl Value.list_ne_null rfl
        (fun _ _ => trivial) hsecured,
      hf.collection Parameter.rereads_table rfl Value.map_ne_null rfl
        (fun _ _ => trivial) hparameters,
      Checked.under_eq_good.mpr hcollect⟩⟩

theorem gathers_expressions : GathersMembers "nested" (fun c => expressions c.2)
    expressionsOfListed expressionsOfMapping expressionsOfEntries :=
  ⟨rfl, fun _ _ _ => rfl, fun v => by cases v <;> rfl, rfl, fun _ _ => rfl⟩

/-- A resource is read again if its type expressions are clear. -/
theorem rewritten_of_read {v : Value} : AllClear (expressions v) → IsRewritten (read v) := by
  have hnull : IsRewritten (read .null) := by
    rw [read]
    exact rewritten_ofEntries (by decide) (List.forall_mem_nil _)
  induction v using Value.membersInduction with
  | step v hentries hmembers =>
    intro hclear
    cases v with
    | map es =>
      rw [expressions, allClear_append, allClear_append] at hclear
      obtain ⟨⟨hown, hlisted⟩, hbranches⟩ := hclear
      -- what is listed and what branches off are smaller, so both are covered by the induction
      have hall : ∀ b ∈ listed es ++ branches es, True ∧ IsRewritten b.2 := by
        rw [List.forall_mem_append, gathers_read.forall_mem_read, forall_mem_branches]
        refine ⟨fun c hc => ⟨trivial, hmembers _ c hc ?_⟩, fun e he hpath => ⟨trivial, ?_⟩⟩
        · exact gathers_expressions.forall_mem_listed.mp hlisted c hc
        · split
          · exact hentries e he (allClear_of_branches hbranches he hpath)
          · exact hnull
      rw [read]
      refine rewritten_ofEntries hown fun b hb => ?_
      exact (Value.forall_mem_mapOf (K := fun _ => True) hall b hb).2
    | null => exact hnull
    | _ =>
      intro _ h
      cases h

/-- A resource is read again with all that is nested in it. -/
theorem rereads : Rereads (fun v => AllClear (expressions v)) read (toValue id) := by
  intro v r hclear h
  cases r
  exact rewritten_of_read hclear _ h _

theorem rereads_table :
    Rereads (fun v => AllClear (v.memberExpressions expressions)) Api.readResources
      (Value.ofTable (toValue id)) :=
  (Reader.rereads_adopted uri (fun key r => { r with uri := key }) (fun _ _ => rfl) rereads
    fun _ r hclear h => rewritten_of_read hclear r h).mono fun _ h => allClear_members h

end Resource

/-! ## The root document -/

namespace Documentation

theorem fields_eq_good {f : Fields} {d : Documentation} : form.fields f = .good d ↔
    f.annotationTable = .good d.annotations ∧
    f.withDefault ["title"] "" Reader.text = .good d.title ∧
    f.withDefault ["content"] "" Reader.text = .good d.content := by
  cases d
  rw [form, eq_good_iff]
  simp only [yields_seq, yields_map, mk.injEq, existsAndEq, true_and]
  tauto

theorem rereads : Rereads (fun _ => True) read (toValue id) := by
  intro v d _ h
  obtain ⟨f, -, h⟩ := EntityForm.read_eq_good.mp h
  obtain ⟨hannotations, -⟩ := fields_eq_good.mp h
  refine EntityForm.read_record (by dsimp only [List.map]; decide) fun f' hf => ⟨f', rfl, ?_⟩
  exact fields_eq_good.mpr
    ⟨hf.annotationTable hannotations, hf.withDefault rfl rfl, hf.withDefault rfl rfl⟩

end Documentation

namespace Api

variable {libraries : List (Value × Checked Library)} {f : Fields} {a : Api}

theorem ofFields_eq_good : ofFields libraries f = .good a ↔
    f.annotationTable = .good a.annotations ∧
    Declarations.ofFields f = .good a.declared ∧
    Library.field libraries f = .good a.libraries ∧
    f.withDefault ["location"] "" Reader.text = .good a.location ∧
    f.withDefault ["title"] "" Reader.text = .good a.title ∧
    f.optional ["version"] Reader.text = .good a.version ∧
    f.optional ["baseUri", "base_uri"] Reader.text = .good a.baseUri ∧
    f.collection ["baseUriParameters", "base_uri_parameters"] [] Parameter.readTable =
      .good a.baseUriParameters ∧
    f.collection ["protocols"] [] (Reader.list Reader.text) = .good a.protocols ∧
    f.collection ["mediaType", "media_type"] [] (Reader.list Reader.text) = .good a.mediaType ∧
    f.collection ["documentation"] [] (Reader.list Documentation.read) = .good a.documentation ∧
    f.any ["schemas"] = .good a.schemas ∧
    f.collection ["securedBy", "secured_by"] [] Choice.readSecurity = .good a.securedBy ∧
    f.collection ["resources"] [] readResources = .good a.resources ∧
    f.withDefault ["raml_version"] "" Reader.text = .good a.ramlVersion := by
  cases a
  rw [ofFields, eq_good_iff]
  simp only [yields_seq, yields_map, mk.injEq, existsAndEq, true_and]
  tauto

/-- The rows of an API definition. -/
def rows (a : Api) : Rows :=
  a.declared.valueFields id ++ [
    ("libraries", some (.map (Library.toEntries id a.libraries))),
    ("location", some (.str a.location)),
    ("title", some (.str a.title)),
    ("version", Value.ofText? a.version),
    ("baseUri", Value.ofText? a.baseUri),
    ("baseUriParameters", fieldOfTable (Parameter.toValue id) a.baseUriParameters),
    ("protocols", some (.list (a.protocols.map .str))),
    ("mediaType", some (.list (a.mediaType.map .str))),
    ("documentation", some (.list (a.documentation.map (Documentation.toValue id)))),
    ("schemas", a.schemas.given?.map id),
    ("securedBy", some (.list (a.securedBy.map (Choice.toValue? id)))),
    ("resources", some (Value.ofTable (Resource.toValue id) a.resources)),
    ("raml_version", some (.str a.ramlVersion))]

theorem toValue_eq (a : Api) : a.toValue id =
    .map ((.str "annotations", .map (a.annotations.map fun e => (.str e.1, e.2))) ::
      a.rows.entries) := by
  rw [toValue, Resource.toEntries_eq]
  rfl

/-- What an entry becomes when a single media type becomes a list. -/
def typed (n : String) (v : Value) : Value :=
  match v with
  | .str s => if n == "mediaType" then .list [.str s] else .str s
  | v => v

/-- Only the field of the media type is brought into the form of a list. -/
theorem typed_of_ne {n : String} (h : n ≠ "mediaType") : typed n = id := by
  funext v
  cases v with
  | str s => exact if_neg (by simpa using h)
  | _ => rfl

theorem arrange_eq (f : Fields) : arrange f = (do
    let f := f.listify ["securedBy", "protocols"]
    let entries := f.entries.map fun e => (e.1, typed e.1 e.2)
    let own ← Fields.mappingOf "resources" (Table.get? "resources" entries)
    return { f with entries := Fields.without ["resources"] Resource.isPath entries ++
      [("resources", .map (Fields.gather
        (fun k => if Resource.isPath k then some k else none) own entries))] }) := by
  have hentries (t : Table Value) (g : String × Value → String × Value)
      (hg : ∀ e, g e = (e.1, typed e.1 e.2)) :
      t.map g = t.map fun e => (e.1, typed e.1 e.2) :=
    List.map_congr_left fun e _ => hg e
  dsimp only [arrange]
  rw [hentries (f.listify ["securedBy", "protocols"]).entries]
  rintro ⟨n, v⟩
  cases v <;> rfl

/-- Lists stay lists in an API definition that is written, and resources are in their place. -/
theorem arrange_written {annotations : Table Value} (hf : f.IsWritten annotations a.rows) :
    ∃ f', arrange f = .ok f' ∧ f'.IsWritten annotations a.rows := by
  have hnames : ∀ n ∈ a.rows.map Prod.fst, Resource.isPath n = false := by
    dsimp only [rows, Declarations.valueFields, List.cons_append, List.nil_append, List.map]
    decide
  have hf := hf.listify ["securedBy", "protocols"]
    (List.forall_mem_cons.mpr ⟨⟨_, rfl⟩, List.forall_mem_singleton.mpr ⟨_, rfl⟩⟩)
  rw [arrange_eq]
  generalize f.listify ["securedBy", "protocols"] = f' at hf ⊢
  -- the media types are a list already
  have hf : Fields.IsWritten annotations a.rows
      { f' with entries := f'.entries.map fun e => (e.1, typed e.1 e.2) } := by
    refine ⟨hf.annotations, fun name => ?_⟩
    rw [Table.get?_mapEntries, hf.entries]
    by_cases hname : name = "mediaType"
    · rw [hname]
      rfl
    · rw [typed_of_ne hname]
      exact Option.map_id_apply
  let resources := a.resources.map fun (n, r) => (Value.str n, Resource.toValue id r)
  have hown : Fields.mappingOf "resources"
      (Table.get? "resources" (f'.entries.map fun e => (e.1, typed e.1 e.2))) = .ok resources := by
    rw [hf.entries]
    rfl
  have hgather : Fields.gather (fun k => if Resource.isPath k then some k else none) resources
      (f'.entries.map fun e => (e.1, typed e.1 e.2)) = resources :=
    hf.gather (fun n hn => by rw [hnames n hn]; rfl) resources
  refine ⟨_, ?_, hf.moved ["resources"] Resource.isPath [("resources", .map resources)] hnames
    ?_ ?_⟩
  · dsimp only
    rw [hown]
    refine congrArg Except.ok ?_
    simp only [hgather]
  · rw [List.forall_mem_singleton]
    rfl
  · intro n hn
    exact ⟨rfl, if_neg (Ne.symm (List.ne_of_not_mem_cons hn))⟩

/-- An API definition is read again if the libraries in it are. -/
theorem read_of_ofEntries {es : List (Value × Value)}
    (hclear : AllClear (((form []).fieldsOf? es).toList.flatMap fieldExpressions))
    (hlibraries : ∀ b ∈ libraries, Library.IsRewritten b.2)
    (h : (form libraries).ofEntries es = .good a) : read (a.toValue id) = .good a := by
  obtain ⟨f, hfields, h⟩ := EntityForm.ofEntries_eq_good.mp h
  have hclear := allClear_fieldsOf hclear hfields
  rw [fieldExpressions, allClear_append] at hclear
  obtain ⟨hannotations, hdeclared, hfield, -, -, -, -, hparameters, hprotocols, hmedia,
    hdocumentation, -, hsecured, hresources, -⟩ := ofFields_eq_good.mp h
  obtain ⟨hdistinct, hmem⟩ := Library.of_field hfield
  -- the table holds what is read again, each library under its own key
  have hcollect : Library.collect (Library.readEntries (Library.toEntries id a.libraries)) =
      .good a.libraries := by
    refine Library.collect_written hdistinct fun e he => ?_
    obtain ⟨b, hb, hread⟩ := hmem e he
    exact hlibraries b hb e.2 hread
  have hrow : Table.get? "libraries" a.rows =
      some (some (.map (Library.toEntries id a.libraries))) := rfl
  have hlisted : Library.listed
      ((.str "annotations", .map (a.annotations.map fun e => (.str e.1, e.2))) :: a.rows.entries) =
        Library.readEntries (Library.toEntries id a.libraries) :=
    Library.gathers_read.listed_record (by decide) hrow _
  have htexts : Rereads (fun _ => True) (Reader.list Reader.text) fun ts => .list (ts.map .str) :=
    Reader.rereads_list Reader.rereads_text
  rw [toValue_eq, read, hlisted]
  refine EntityForm.ofEntries_record ?_ fun f' hf => ?_
  · dsimp only [rows, Declarations.valueFields, List.cons_append, List.nil_append, List.map]
    decide
  · obtain ⟨f', harrange, hf⟩ := arrange_written hf
    exact ⟨f', harrange, ofFields_eq_good.mpr ⟨hf.annotationTable hannotations,
      Declarations.ofFields_written hclear.1 hdeclared hf ⟨rfl, rfl, rfl⟩,
      Library.field_written hf hrow hcollect, hf.withDefault rfl rfl, hf.withDefault rfl rfl,
      hf.text rfl, hf.text rfl,
      hf.collection Parameter.rereads_table rfl Value.map_ne_null rfl
        (fun _ _ => trivial) hparameters,
      hf.collection htexts rfl Value.list_ne_null rfl (fun _ _ => trivial) hprotocols,
      hf.collection htexts rfl Value.list_ne_null rfl (fun _ _ => trivial) hmedia,
      hf.collection (C := fun _ => True) (Reader.rereads_list Documentation.rereads) rfl
        Value.list_ne_null rfl (fun _ _ => trivial) hdocumentation,
      hf.any rfl,
      hf.collection Choice.rereads_security rfl Value.list_ne_null rfl
        (fun _ _ => trivial) hsecured,
      hf.collection Resource.rereads_table rfl Value.map_ne_null rfl
        (allClear_found hclear.2) hresources,
      hf.withDefault rfl rfl⟩⟩

/-- A document is read again from what it is written as. -/
theorem rereads : Rereads (fun v => AllClear (expressions v)) read (toValue id) := by
  intro v a hclear h
  cases v with
  | map es =>
    rw [expressions, allClear_append] at hclear
    exact read_of_ofEntries hclear.1 (Library.rewritten_of_listed hclear.2) h
  | null =>
    have h : (form []).ofEntries [] = .good a := h
    exact read_of_ofEntries (by decide) (List.forall_mem_nil _) h
  | _ => cases h

end Api

/-! ## Every kind of entity -/

/-- The kinds of entities in a document. -/
inductive Model where
  | api
  | library
  | resource
  | resourceType
  | method
  | trait
  | response
  | bodies
  | body
  | parameter
  | choice
  | documentation
  | typeDeclaration
  | securityScheme
  | describedBy

namespace Model

/-- The entities of a kind. -/
def Entity : Model → Type
  | .api => Api
  | .library => Library
  | .resource => Resource
  | .resourceType => ResourceType
  | .method => Method
  | .trait => Trait
  | .response => Response
  | .bodies => Bodies
  | .body => Body
  | .parameter => Parameter
  | .choice => Choice
  | .documentation => Documentation
  | .typeDeclaration => TypeDeclaration
  | .securityScheme => SecurityScheme
  | .describedBy => DescribedBy

/-- Reads an entity of a kind. -/
def read : (m : Model) → Reader m.Entity
  | .api => Api.read
  | .library => Library.read
  | .resource => Resource.read
  | .resourceType => ResourceType.read
  | .method => Method.read
  | .trait => Trait.read
  | .response => Response.read
  | .bodies => Bodies.read
  | .body => Body.read
  | .parameter => Parameter.read
  | .choice => Choice.read
  | .documentation => Documentation.read
  | .typeDeclaration => TypeDeclaration.read
  | .securityScheme => SecurityScheme.read
  | .describedBy => DescribedBy.read

/-- The mapping of an entity of a kind. -/
def toValue : (m : Model) → m.Entity → Value
  | .api => Api.toValue id
  | .library => Library.toValue id
  | .resource => Resource.toValue id
  | .resourceType => ResourceType.toValue id
  | .method => Method.toValue id
  | .trait => Trait.toValue id
  | .response => Response.toValue id
  | .bodies => Bodies.toValue id
  | .body => Body.toValue id
  | .parameter => Parameter.toValue id
  | .choice => Choice.toValue id
  | .documentation => Documentation.toValue id
  | .typeDeclaration => TypeDeclaration.toValue id
  | .securityScheme => SecurityScheme.toValue id
  | .describedBy => DescribedBy.toValue id

/-- The type expressions in the node of an entity of a kind. -/
def expressions : Model → Value → List String
  | .api => Api.expressions
  | .library => Library.expressions
  | .resource => Resource.expressions
  | .resourceType => ResourceType.expressions
  | .method => Method.expressions
  | .trait => Trait.expressions
  | .response => Response.expressions
  | .bodies => Bodies.expressions
  | .body => Body.expressions
  | .parameter | .choice | .documentation => fun _ => []
  | .typeDeclaration => TypeDeclaration.expressions
  | .securityScheme => SecurityScheme.expressions
  | .describedBy => DescribedBy.expressions

/-- Whatever is read from a node with clear type expressions is read again from the mapping that is
written for it. -/
theorem read_toValue (m : Model) {v : Value} {x : m.Entity} (hclear : AllClear (m.expressions v))
    (h : m.read v = .good x) : m.read (m.toValue x) = .good x := by
  cases m with
  | api => exact Api.rereads hclear h
  | library => exact Library.rewritten_of_read hclear x h
  | resource => exact Resource.rereads hclear h
  | resourceType => exact ResourceType.rereads_named hclear h _
  | method => exact Method.rereads_named hclear h _
  | trait => exact Trait.rereads_named hclear h _
  | response => exact Response.rereads_named hclear h _
  | bodies => exact Bodies.rereads hclear h
  | body => exact Body.rereads hclear h
  | parameter => exact Parameter.rereads trivial h
  | choice => exact Choice.rereads trivial h
  | documentation => exact Documentation.rereads trivial h
  | typeDeclaration => exact TypeDeclaration.rereads_named hclear h _
  | securityScheme => exact SecurityScheme.rereads_named hclear h _
  | describedBy => exact DescribedBy.rereads hclear h

/-- A document with a method under its verb, a response under a number, a body under its media type
and a type that is written in more than one way. -/
def pets : Value := .map [
  (.str "title", .str "Pets"),
  (.str "types", .map [
    (.str "Pet", .str "Cat | Dog"),
    (.str "Pets", .map [(.str "type", .str "((Cat | Dog) [])"), (.str "minItems", .int 1)])]),
  (.str "/pets", .map [
    (.str "is", .str "paged"),
    (.str "get", .map [(.str "responses", .map [
      (.int 200, .map [(.str "body", .map [(.str "application/json", .str "Pets")])])])]),
    (.str "/dogs", .null)])]

/-- The document `pets` holds a type expression in parentheses, and it is read again. -/
theorem pets_read_again : AllClear (Model.api.expressions pets) ∧ ∃ x : Model.api.Entity,
    Model.api.read pets = .good x ∧ Model.api.read (Model.api.toValue x) = .good x := by
  have hclear : AllClear (Model.api.expressions pets) := by decide +kernel
  have hgood : (match Api.read pets with
    | .good _ => true
    | .bad _ => false) = true := by decide +kernel
  refine ⟨hclear, ?_⟩
  cases h : Api.read pets with
  | good x => exact ⟨x, h, read_toValue .api hclear h⟩
  | bad ps => rw [h] at hgood; cases hgood

end Model

end Raml
