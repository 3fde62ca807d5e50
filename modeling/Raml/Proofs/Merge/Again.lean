import Raml.Proofs.Document.Tree
import Raml.Proofs.Merge.Places

/-!
# Merging a template once more

The same template can reach a method twice, through its resource and by itself. The second time
it changes nothing (`template_again`), although not all of its placeholders may be filled, provided
that the keys in each of its mappings are apart.
-/

namespace Raml

/-! ## The keys of a template -/

/-- The keys of each mapping in the bodies of a template whose entries are merged. -/
def Bodies.keyLists (b : Bodies) : List (List String) :=
  b.byMediaType.names :: b.all.map fun body => body.headers.names

/-- The keys of each mapping in a response of a template whose entries are merged. -/
def Response.keyLists (r : Response) : List (List String) :=
  r.headers.names :: r.bodies.keyLists

/-- The keys of each mapping in a template whose entries are merged. -/
def Method.keyLists (m : Method) : List (List String) :=
  m.queryParameters.names :: m.headers.names :: m.responses.names ::
    (m.bodies.keyLists ++ m.responses.flatMap fun e => e.2.keyLists)

namespace Merge

variable {app : Application}

/-! ## Entities -/

/-- Whether the types of parameters hold no brackets of a placeholder. -/
def TypesPlain (t : Table Parameter) : Prop := ∀ e ∈ t, IsPlain e.2.type.toList

/-- A template that has given a parameter what it has gives nothing the second time. -/
theorem parameter_again {c p r : Parameter} (hc : IsPlain c.type.toList)
    (h : parameter app c p = .ok r) : parameter app r p = .ok r := by
  have hr : ParameterMerged app c p r := parameter_eq_ok.mp h
  refine parameter_eq_ok.mpr {
    name := rfl
    type := typeName_again hc hr.type
    displayName := text_again hr.displayName
    description := text_again hr.description
    choices := choices_again hr.choices
    pattern := text_again hr.pattern
    minLength := ?_
    maxLength := ?_
    minimum := ?_
    maximum := ?_
    format := text_again hr.format
    sample := anything_again hr.sample
    fallback := anything_again hr.fallback
    repeats := ?_
    required := ?_
    items := anything_again hr.items
    annotations := values_again hr.annotations }
  -- errors name the parameter, and the name stays
  all_goals rw [hr.name]
  · exact templated_again hr.minLength
  · exact templated_again hr.maxLength
  · exact templated_again hr.minimum
  · exact templated_again hr.maximum
  · exact templated_again hr.repeats
  · exact templated_again hr.required

theorem parameters_again {c p r : Table Parameter} (hc : TypesPlain c)
    (hp : Apart app p.names) (h : parameters app c p = .ok r) : parameters app r p = .ok r :=
  table_again (Q := fun old : Parameter => IsPlain old.type.toList) hc (fun _ _ hs => nomatch hs)
    (fun _ _ _ _ => parameter_again) hp h

theorem body_again {c p r : Body} (hc : TypesPlain c.headers) (hp : Apart app p.headers.names)
    (h : body app c p = .ok r) : body app r p = .ok r := by
  have hr : BodyMerged app c p r := body_eq_ok.mp h
  exact body_eq_ok.mpr {
    type := shape_again hr.type
    items := shape_again hr.items
    schema := text_again hr.schema
    description := text_again hr.description
    sample := anything_again hr.sample
    properties := properties_again hr.properties
    headers := parameters_again hc hp hr.headers
    facets := values_again hr.facets
    annotations := values_again hr.annotations }

theorem typesPlain_nil : TypesPlain [] := List.forall_mem_nil _

theorem mem_all_of_flat {b : Bodies} {body : Body} (h : b.flat = some body) : body ∈ b.all := by
  unfold Bodies.all
  rw [h]
  exact List.mem_append_left _ (List.mem_singleton_self body)

theorem mem_all_of_byMediaType {b : Bodies} {e : String × Body} (h : e ∈ b.byMediaType) :
    e.2 ∈ b.all :=
  List.mem_append_right _ (List.mem_map_of_mem h)

/-- So it is with bodies, if no two keys of the template go to one entry. -/
theorem bodies_again {c p r : Bodies} (hc : ∀ t ∈ c.parameterTables, TypesPlain t)
    (hp : ∀ keys ∈ p.keyLists, Apart app keys) (h : bodies app c p = .ok r) :
    bodies app r p = .ok r := by
  have hold : ∀ body ∈ c.all, TypesPlain body.headers :=
    fun body hbody => hc _ (List.mem_map_of_mem hbody)
  have hapart : ∀ body ∈ p.all, Apart app body.headers.names :=
    fun body hbody => hp _ (List.mem_cons_of_mem _ (List.mem_map_of_mem hbody))
  obtain ⟨hflat, hmedia, hannotations⟩ := bodies_eq_ok.mp h
  refine bodies_eq_ok.mpr ⟨?_, ?_, values_again hannotations⟩
  · cases hparent : p.flat with
    | none => rfl
    | some parent =>
      rw [hparent] at hflat
      obtain ⟨new, hnew, hflat⟩ := map_eq_ok.mp hflat
      -- a body that is not there yet has no headers
      have hplain : TypesPlain (c.flat.getD .empty).headers := by
        cases hchild : c.flat with
        | none => exact typesPlain_nil
        | some child => exact hold child (mem_all_of_flat hchild)
      have hagain : body app new parent = .ok new :=
        body_again hplain (hapart parent (mem_all_of_flat hparent)) hnew
      rw [← hflat]
      exact map_eq_ok.mpr ⟨new, hagain, rfl⟩
  · exact table_again (Q := fun old => TypesPlain old.headers)
      (fun e he => hold e.2 (mem_all_of_byMediaType he)) (fun _ => typesPlain_nil)
      (fun e he _ _ => (body_again · (hapart e.2 (mem_all_of_byMediaType he)) ·))
      (hp _ (List.mem_cons_self ..)) hmedia

/-- So it is with a response. -/
theorem response_again {c p r : Response} (hc : ∀ t ∈ c.parameterTables, TypesPlain t)
    (hp : ∀ keys ∈ p.keyLists, Apart app keys) (h : response app c p = .ok r) :
    response app r p = .ok r := by
  obtain ⟨hheadersPlain, hbodiesPlain⟩ := List.forall_mem_cons.mp hc
  obtain ⟨hheadersApart, hbodiesApart⟩ := List.forall_mem_cons.mp hp
  have hr : ResponseMerged app c p r := response_eq_ok.mp h
  exact response_eq_ok.mpr {
    code := rfl
    description := text_again hr.description
    headers := parameters_again hheadersPlain hheadersApart hr.headers
    bodies := bodies_again hbodiesPlain hbodiesApart hr.bodies
    annotations := values_again hr.annotations }

/-- So it is with a method, its parameters and responses included. -/
theorem method_again {m t r : Method} (hm : ∀ ps ∈ m.parameterTables, TypesPlain ps)
    (ht : ∀ keys ∈ t.keyLists, Apart app keys) (h : method app m t = .ok r) :
    method app r t = .ok r := by
  obtain ⟨hquery, hrest⟩ := List.forall_mem_cons.mp hm
  obtain ⟨hheaders, hrest⟩ := List.forall_mem_cons.mp hrest
  obtain ⟨hbodies, hresponses⟩ := List.forall_mem_append.mp hrest
  obtain ⟨hqueryApart, hrest⟩ := List.forall_mem_cons.mp ht
  obtain ⟨hheadersApart, hrest⟩ := List.forall_mem_cons.mp hrest
  obtain ⟨hresponseApart, hrest⟩ := List.forall_mem_cons.mp hrest
  obtain ⟨hbodiesApart, hresponsesApart⟩ := List.forall_mem_append.mp hrest
  have hr : MethodMerged app m t r := method_eq_ok.mp h
  -- a response begun by its code has no headers
  have hcreate : ∀ code, ∀ t ∈ (Response.ofCode code).parameterTables, TypesPlain t := by
    intro code t ht
    rw [List.mem_singleton.mp ht]
    exact typesPlain_nil
  refine method_eq_ok.mpr {
    name := rfl
    traits := rfl
    displayName := text_again hr.displayName
    description := text_again hr.description
    queryParameters := parameters_again hquery hqueryApart hr.queryParameters
    headers := parameters_again hheaders hheadersApart hr.headers
    queryString := shape_again hr.queryString
    responses := ?_
    bodies := bodies_again hbodies hbodiesApart hr.bodies
    protocols := ?_
    securedBy := security_again hr.securedBy
    annotations := values_again hr.annotations }
  · refine table_again (Q := fun old => ∀ t ∈ old.parameterTables, TypesPlain t) ?_ hcreate ?_
      hresponseApart hr.responses
    · exact fun e he t ht => hresponses t (List.mem_flatMap.mpr ⟨e, he, ht⟩)
    · intro e he old new hold hnew
      exact response_again hold
        (fun keys hkeys => hresponsesApart keys (List.mem_flatMap.mpr ⟨e, he, hkeys⟩)) hnew
  · rw [hr.protocols]
    exact (appendMissing_again (fun _ _ => beq_iff_eq) _ _).symm

/-! ## Keys told apart by their names -/

/-- What is left of the end of a key, read backwards, without question marks. -/
def dropMarks : List Char → List Char
  | '?' :: '\\' :: rest => dropMarks rest
  | '?' :: rest => dropMarks rest
  | cs => cs

/-- A key without the question marks at its end, each taken away with a backslash before it. -/
def bareName (key : String) : String := String.ofList (dropMarks key.toList.reverse).reverse

/-- Whether no two keys are filled in to the same name, question marks apart. -/
def BareNamesDiffer (app : Application) (keys : List String) : Prop :=
  keys.Pairwise fun raw other => ∀ key key', app.name raw = .ok key → app.name other = .ok key' →
    bareName key ≠ bareName key'

instance (app : Application) (keys : List String) : Decidable (BareNamesDiffer app keys) :=
  have : ∀ raw other : String, Decidable (∀ key key', app.name raw = .ok key →
      app.name other = .ok key' → bareName key ≠ bareName key') := fun raw other =>
    match app.name raw, app.name other with
    | .ok key, .ok key' => decidable_of_iff (bareName key ≠ bareName key')
        ⟨fun h _ _ hkey hkey' => Except.ok.inj hkey ▸ Except.ok.inj hkey' ▸ h,
          fun h => h key key' rfl rfl⟩
    | .error _, _ => isTrue nofun
    | .ok _, .error _ => isTrue nofun
  inferInstanceAs (Decidable (List.Pairwise _ keys))

/-- A mark that is not escaped is dropped. -/
theorem dropMarks_mark {cs : List Char} (h : cs.head? ≠ some '\\') :
    dropMarks ('?' :: cs) = dropMarks cs := by
  cases cs with
  | nil => rfl
  | cons c cs =>
    have hc : c ≠ '\\' := fun hc => h (congrArg some hc)
    rw [dropMarks]
    intro rest hrest
    exact hc (List.cons.inj hrest).1

theorem bareName_append_mark {front : List Char} (h : front.getLast? ≠ some '\\') :
    bareName (String.ofList (front ++ ['?'])) = bareName (String.ofList front) := by
  have hhead : front.reverse.head? ≠ some '\\' := by rwa [List.head?_reverse]
  unfold bareName
  rw [String.toList_ofList, String.toList_ofList, List.reverse_append, List.reverse_singleton,
    List.singleton_append, dropMarks_mark hhead]

theorem bareName_append_escaped (front : List Char) :
    bareName (String.ofList (front ++ ['\\', '?'])) = bareName (String.ofList front) := by
  unfold bareName
  rw [String.toList_ofList, String.toList_ofList, List.reverse_append]
  rfl

/-- Wherever a key can go, it goes to a place with its own bare name. -/
theorem bareName_of_mem_places {key place : String} (hkey : Text.endsWith "\\\\?" key = false)
    (h : place ∈ places key) : bareName place = bareName key := by
  unfold places at h
  split at h
  · rename_i hescaped
    obtain ⟨front, rfl, hfront⟩ := eq_append_of_endsWith hescaped
    -- a second backslash would be taken for that of the question mark that is left
    have hlast : front.getLast? ≠ some '\\' := by
      intro hlast
      obtain ⟨rest, rfl⟩ := List.getLast?_eq_some_iff.mp hlast
      have hends := endsWith_ofList "\\\\?" rest
      rw [List.append_assoc] at hkey
      exact absurd (hends.symm.trans hkey) (by decide)
    have hplace : Text.dropLast 2 (String.ofList (front ++ ['\\', '?'])) ++ "?" =
        String.ofList (front ++ ['?']) := by
      have hmark : String.ofList (front ++ ['?']) = String.ofList front ++ "?" :=
        String.ofList_append
      rw [hmark]
      exact congrArg (· ++ "?") hfront
    rw [(List.mem_singleton.mp h).trans hplace, bareName_append_mark hlast]
    exact (bareName_append_escaped front).symm
  · rename_i hescaped
    split at h
    · rename_i hmark
      obtain ⟨front, rfl, hfront⟩ := eq_append_of_endsWith hmark
      have hlast : front.getLast? ≠ some '\\' := by
        intro hlast
        obtain ⟨rest, rfl⟩ := List.getLast?_eq_some_iff.mp hlast
        rw [List.append_assoc] at hescaped
        exact hescaped (endsWith_ofList _ rest)
      rcases List.mem_cons.mp h with rfl | h
      · exact (congrArg bareName hfront).trans (bareName_append_mark hlast).symm
      · rw [List.mem_singleton.mp h]
    · rw [List.mem_singleton.mp h]

/-- Keys whose names differ are apart, if a name ends in no two backslashes before its mark. -/
theorem apart_of_bareNamesDiffer {keys : List String} (h : BareNamesDiffer app keys)
    (hkeys : ∀ raw ∈ keys, ∀ key, app.name raw = .ok key →
      Text.endsWith "\\\\?" key = false) : Apart app keys := by
  refine List.Pairwise.imp_of_mem ?_ h
  intro raw other hraw hother hdiffer place hplace hplace'
  -- keys that cannot be filled in go nowhere
  unfold placesOf at hplace hplace'
  cases hname : app.name raw with
  | error e =>
    rw [hname] at hplace
    cases hplace
  | ok key =>
    cases hname' : app.name other with
    | error e =>
      rw [hname'] at hplace'
      cases hplace'
    | ok key' =>
      rw [hname] at hplace
      rw [hname'] at hplace'
      have hbare : bareName place = bareName key :=
        bareName_of_mem_places (hkeys raw hraw key hname) hplace
      have hbare' : bareName place = bareName key' :=
        bareName_of_mem_places (hkeys other hother key' hname') hplace'
      exact hdiffer key key' hname hname' (hbare.symm.trans hbare')

/-- **Merging a template once more changes nothing.** Let the types of all parameters of a method
be free of the brackets of placeholders, and let the keys in each mapping of the template be apart.
If the template can be merged into the method, it can be merged into the result with the same
values, and that is the result again, whatever placeholders are left in it. The keys are apart if
their names differ without the marks at their end, and none of them has two backslashes before its
mark. -/
theorem template_again :
    (∀ (app : Application) (m t r : Method),
      (∀ ps ∈ m.parameterTables, ∀ e ∈ ps, ∀ s ∈ e.2.type, Template.hasBrackets s = false) →
      (∀ keys ∈ t.keyLists, Apart app keys) →
      method app m t = .ok r → method app r t = .ok r) ∧
    ∀ (app : Application) (keys : List String), BareNamesDiffer app keys →
      (∀ raw ∈ keys, ∀ key, app.name raw = .ok key → Text.endsWith "\\\\?" key = false) →
      Apart app keys := by
  refine ⟨fun app m t r hm ht h => method_again ?_ ht h,
    fun app keys hdiffer hkeys => apart_of_bareNamesDiffer hdiffer hkeys⟩
  intro ps hps e he s hs
  exact hm ps hps e he s (Option.mem_toList.mp hs)

/-- A template whose optional parameter `size` is there, and which leaves `kind` unfilled. -/
def sized : Method :=
  { Method.named "sized" with
    description := some "Pages of <<kind>>"
    queryParameters := [("<<limit>>?", { typed "" "integer" with minimum := some (.exact 1) }),
      ("order?", typed "" "string"), ("<<kind>>\\?", typed "" "<<kind>>[]")]
    responses := [("200", { Response.ofCode "200" with
      headers := [("X-Next", typed "X-Next" "<<kind>>")] })] }

/-- A method with a parameter for the size of its pages. -/
def sizedListing : Method :=
  { Method.named "GET" with queryParameters := [("size", typed "size" "number")] }

/-- The values with which `sized` is applied. -/
def bySize : Application := { Application.empty with dictionary := [("limit", .str "size")] }

/-- The names of the keys of `sized` tell them apart, and so it can be merged in twice. -/
theorem sizedListing_again :
    (∀ ps ∈ sizedListing.parameterTables, ∀ e ∈ ps, ∀ s ∈ e.2.type,
      Template.hasBrackets s = false) ∧
    (∀ keys ∈ sized.keyLists, BareNamesDiffer bySize keys) ∧
    (∀ keys ∈ sized.keyLists, Apart bySize keys) ∧
    ∃ r, method bySize sizedListing sized = .ok r ∧ method bySize r sized = .ok r ∧
      r.description = some "Pages of <<kind>>" ∧
      r.queryParameters.names = ["size", "<<kind>>?"] := by
  have hplain : ∀ ps ∈ sizedListing.parameterTables, ∀ e ∈ ps, ∀ s ∈ e.2.type,
      Template.hasBrackets s = false := by decide +kernel
  have hdiffer : ∀ keys ∈ sized.keyLists, BareNamesDiffer bySize keys := by decide +kernel
  have hends : ∀ keys ∈ sized.keyLists, ∀ raw ∈ keys,
      ((bySize.name raw).toOption.any (Text.endsWith "\\\\?")) = false := by decide +kernel
  -- keys with different bare names cannot meet, wherever they go
  have hapart : ∀ keys ∈ sized.keyLists, Apart bySize keys := by
    intro keys hkeys
    refine template_again.2 bySize keys (hdiffer keys hkeys) fun raw hraw key hkey => ?_
    have hend := hends keys hkeys raw hraw
    rwa [hkey] at hend
  obtain ⟨r, h, hshown⟩ : ∃ r, method bySize sizedListing sized = .ok r ∧
      (r.description, r.queryParameters.names) =
        (some "Pages of <<kind>>", ["size", "<<kind>>?"]) :=
    toOption_map_eq_some.mp (by decide +kernel)
  obtain ⟨hdescription, hnames⟩ := Prod.mk.inj hshown
  have hagain := template_again.1 bySize sizedListing sized r hplain hapart h
  exact ⟨hplain, hdiffer, hapart, r, h, hagain, hdescription, hnames⟩

/-- A template with an optional header whose name ends in an escaped mark, and after it one that
gets this name. -/
def escapedTwice : Method :=
  { Method.named "escaped" with
    headers := [("x\\??", { Parameter.named "x\\??" with description := some "First" }),
      ("x\\\\?", typed "x\\\\?" "string")] }

/-- Names that differ without their marks are not enough: of a name in two backslashes and a mark
one backslash stays, and the name that it gives is that of an optional entry before it. -/
theorem not_again_of_escaped_twice :
    ¬∀ (app : Application) (m t r : Method),
      (∀ ps ∈ m.parameterTables, ∀ e ∈ ps, ∀ s ∈ e.2.type, Template.hasBrackets s = false) →
      (∀ keys ∈ t.keyLists, BareNamesDiffer app keys) →
      method app m t = .ok r → method app r t = .ok r := by
  intro h
  have hdiffer : ∀ keys ∈ escapedTwice.keyLists, BareNamesDiffer .empty keys := by decide +kernel
  -- what the header that stays says of itself: nothing, and the second time what the other one did
  let shown (r : Except Error Method) : Option (Option String) :=
    (r.toOption.bind fun m => m.headers.get? "x\\?").map Parameter.description
  have hfirst : shown (method .empty (.named "GET") escapedTwice) = some none := by
    decide +kernel
  have hsecond : shown (method .empty (.named "GET") escapedTwice >>= fun r =>
      method .empty r escapedTwice) = some (some "First") := by decide +kernel
  cases hr : method .empty (.named "GET") escapedTwice with
  | error e =>
    rw [hr] at hfirst
    cases hfirst
  | ok r =>
    have hagain := h .empty (.named "GET") escapedTwice r (by decide) hdiffer hr
    have hsame : (method .empty (.named "GET") escapedTwice >>= fun r =>
        method .empty r escapedTwice) = .ok r := (bind_of_eq_ok hr).trans hagain
    rw [hsame, ← hr, hfirst] at hsecond
    cases hsecond

end Merge
end Raml
