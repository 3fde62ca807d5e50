import Raml.Proofs.Merge.Precedence

/-!
# What a run of templates adds to the lists of a method

The protocols of a method and the references to what it is secured by are lists that stand for
sets. Over any run of templates they accumulate as one ordered union (`setLists_accumulate`): what
the method lists itself, and after it what the templates list and is not there yet, in the order in
which they are applied and in which each of them lists it.

References are told apart by the names that they go by afterwards, placeholders filled in and names
of the library qualified, and null is like null. Protocols are told apart as they are written:
nothing fills in their placeholders (`protocols_not_filled`). `Accumulates` says both for a run, and
`Accumulates.of_merged` puts one merge in front of it.
-/

namespace Raml

/-- The names that references go by; a null reference goes by none. -/
def Choice.names (references : List (Option Choice)) : List (Option String) :=
  references.map (Option.map Choice.name)

/-- The name that a reference of a template goes by where the template is applied: filled in, and
with the alias of the library before it if the library declares the scheme. -/
def Application.referenceName (app : Application) : Option Choice → Except Error (Option String)
  | none => .ok none
  | some c => (app.name c.name).map fun n => some (app.schemeName n)

namespace Merge

/-- What the templates of a run list, in the order in which they are applied and in which each of
them lists it, every entry named by the application of its template. -/
def contributed {α κ : Type} (entries : Method → List α) (name : Application → α → Except Error κ)
    (steps : List (Application × Method)) : Except Error (List κ) :=
  (steps.flatMap fun step => (entries step.2).map (step.1, ·)).mapM fun e => name e.1 e.2

/-- What a run of templates makes of the lists of a method that stand for sets. -/
structure Accumulates (m : Method) (steps : List (Application × Method)) (m' : Method) :
    Prop where
  protocols : m'.protocols = union m.protocols (steps.flatMap fun step => step.2.protocols)
  securedBy : ∃ names, contributed Method.securedBy Application.referenceName steps = .ok names ∧
    Choice.names m'.securedBy = union (Choice.names m.securedBy) names

/-! ## What templates contribute -/

section Contributed

variable {α κ : Type} {entries : Method → List α} {name : Application → α → Except Error κ}

/-- What a run of templates contributes is put together step by step. -/
theorem contributed_cons {app : Application} {t : Method} {steps : List (Application × Method)}
    {here there : List κ} (hhere : (entries t).mapM (name app) = .ok here)
    (hthere : contributed entries name steps = .ok there) :
    contributed entries name ((app, t) :: steps) = .ok (here ++ there) := by
  rw [mapM_eq_ok] at hhere
  rw [contributed, mapM_eq_ok] at hthere ⊢
  rw [List.flatMap_cons]
  exact List.rel_append (List.forall₂_map_left_iff.mpr hhere) hthere

/-- Entries that every application leaves as they are stand for themselves. -/
theorem contributed_of_unchanged {name : Application → α → Except Error α}
    {steps : List (Application × Method)}
    (h : ∀ step ∈ steps, ∀ a ∈ entries step.2, name step.1 a = .ok a) :
    contributed entries name steps = .ok (steps.flatMap fun step => entries step.2) := by
  induction steps with
  | nil => rfl
  | cons step steps ih =>
    rw [List.forall_mem_cons] at h
    refine contributed_cons (mapM_eq_ok.mpr ?_) (ih h.2)
    exact List.forall₂_same.mpr h.1

end Contributed

/-! ## One merge -/

variable {app : Application} {c p r : Method}

/-- The name of a filled choice is the name as it was filled in. -/
theorem referenceName_of_choice {o o' : Option Choice} (h : app.choice? o = .ok o') :
    app.referenceName o = .ok (o'.map Choice.name) := by
  cases o with
  | none => exact Except.ok.inj h ▸ rfl
  | some c =>
    obtain ⟨c', hc, rfl⟩ := map_eq_ok.mp h
    obtain ⟨n, hn, hc⟩ := bind_eq_ok.mp hc
    obtain ⟨parameters, -, hc⟩ := bind_eq_ok.mp hc
    obtain rfl := pure_eq_ok.mp hc
    exact map_eq_ok.mpr ⟨n, hn, rfl⟩

/-- The names of security schemes are joined with those of the template, each once. -/
theorem names_of_security {before entries after : List (Option Choice)}
    (h : security app before entries = .ok after) :
    ∃ names, entries.mapM app.referenceName = .ok names ∧
      Choice.names after = union (Choice.names before) names := by
  obtain ⟨others, hothers, h⟩ := bind_eq_ok.mp h
  obtain rfl := pure_eq_ok.mp h
  refine ⟨Choice.names others, ?_, map_appendMissing sameName_iff before others⟩
  rw [mapM_eq_ok] at hothers ⊢
  exact List.forall₂_map_right_iff.mpr (hothers.imp fun _ _ => referenceName_of_choice)

/-- Two lists of references merged one after the other are one list, also where they fail. -/
theorem security_append (before xs ys : List (Option Choice)) :
    security app before (xs ++ ys) = security app before xs >>= (security app · ys) := by
  simp only [security, List.mapM_append, bind_assoc, pure_bind, appendMissing_append]

/-- The protocols are joined with those of the template as they stand there. -/
theorem protocols_of_merged (h : MethodMerged app c p r) :
    r.protocols = union c.protocols p.protocols :=
  h.protocols.trans (appendMissing_id (fun _ _ => beq_iff_eq) c.protocols p.protocols)

/-- One merge adds what its template lists, and leaves the rest of the run to add the rest. -/
theorem Accumulates.of_merged {steps : List (Application × Method)} {m : Method}
    (h : MethodMerged app c p r) (hrest : Accumulates r steps m) :
    Accumulates c ((app, p) :: steps) m where
  protocols := by
    rw [hrest.protocols, protocols_of_merged h, List.flatMap_cons, union_append]
  securedBy := by
    obtain ⟨here, hhere, hnames⟩ := names_of_security h.securedBy
    obtain ⟨there, hthere, hlater⟩ := hrest.securedBy
    exact ⟨here ++ there, contributed_cons hhere hthere, by rw [hlater, hnames, union_append]⟩

/-! ## Runs of merges -/

/-- Over a run of templates the lists of a method grow by what each template contributes. -/
theorem accumulates_of_methodAll {m m' : Method} {steps : List (Application × Method)}
    (h : methodAll m steps = .ok m') : Accumulates m steps m' := by
  induction steps generalizing m with
  | nil =>
    obtain rfl := pure_eq_ok.mp h
    exact ⟨(union_nil _).symm, [], rfl, (union_nil _).symm⟩
  | cons step steps ih =>
    rw [methodAll, List.foldlM_cons] at h
    obtain ⟨next, hnext, h⟩ := bind_eq_ok.mp h
    exact .of_merged (method_eq_ok.mp hnext) (ih h)

/-- A template that lists one protocol and says nothing else. -/
def oneProtocol (p : String) : Method := { Method.named "" with protocols := [p] }

/-- A protocol comes into methods filled in only if that does not change it. -/
theorem protocol_filled_iff {p : String} :
    (∀ c t r, t.protocols = [p] → method app c t = .ok r →
      ∃ filled, app.name p = .ok filled ∧ r.protocols = union c.protocols [filled]) ↔
    app.name p = .ok p := by
  constructor
  · intro h
    -- the merge into a method that says nothing gives the template back
    obtain ⟨filled, hfilled, hprotocols⟩ := h (.named "") (oneProtocol p) (oneProtocol p) rfl rfl
    have hone : [p] = union [] [filled] := hprotocols
    rw [union_cons_of_notMem List.not_mem_nil, union_nil] at hone
    obtain rfl : p = filled := List.head_eq_of_cons_eq hone
    exact hfilled
  · intro hp c t r ht hr
    exact ⟨p, hp, ht ▸ protocols_of_merged (method_eq_ok.mp hr)⟩

/-- **Lists that stand for sets accumulate as one ordered union.** Over any run of templates the
protocols of a method and the names of its references are its own, and after them those that the
templates list and that are not among them, each where it first comes. References are named as
their templates are applied. Protocols are taken as they are written, so they are those filled in if
filling in changes none of them, and no protocol that it does change is filled in by every merge.
What has no duplicates at the start has none in the end, and two lists that are added one after the
other are one list. -/
theorem setLists_accumulate {m m' : Method} {steps : List (Application × Method)}
    (h : methodAll m steps = .ok m') :
    Accumulates m steps m' ∧
    ((∀ step ∈ steps, ∀ p ∈ step.2.protocols, step.1.name p = .ok p) →
      ∃ filled, contributed Method.protocols Application.name steps = .ok filled ∧
        m'.protocols = union m.protocols filled) ∧
    (∀ (app : Application) (p : String),
      (∀ c t r, t.protocols = [p] → method app c t = .ok r →
        ∃ filled, app.name p = .ok filled ∧ r.protocols = union c.protocols [filled]) ↔
      app.name p = .ok p) ∧
    (m.protocols.Nodup → m'.protocols.Nodup) ∧
    ((Choice.names m.securedBy).Nodup → (Choice.names m'.securedBy).Nodup) ∧
    (∀ own xs ys : List String, appendMissing (· == ·) id own (xs ++ ys) =
      appendMissing (· == ·) id (appendMissing (· == ·) id own xs) ys) ∧
    (∀ (app : Application) (own xs ys : List (Option Choice)),
      security app own (xs ++ ys) = security app own xs >>= (security app · ys)) := by
  obtain ⟨hprotocols, names, hlisted, hnames⟩ := accumulates_of_methodAll h
  refine ⟨⟨hprotocols, names, hlisted, hnames⟩, fun hfilled => ?_,
    fun _ _ => protocol_filled_iff, fun hown => ?_, fun hown => ?_, appendMissing_append,
    fun _ => security_append⟩
  · exact ⟨_, contributed_of_unchanged hfilled, hprotocols⟩
  · exact hprotocols ▸ nodup_union hown _
  · exact hnames ▸ nodup_union hown _

/-- A reference to a security scheme. -/
def scheme (name : String) : Option Choice := some (Choice.applied name [])

/-- A method with a protocol and a scheme that it is secured by. -/
def httpsOnly : Method :=
  { Method.named "GET" with protocols := ["HTTPS"], securedBy := [scheme "oauth"] }

/-- A trait that lists one protocol twice, and a scheme by a placeholder. -/
def signed : Method :=
  { Method.named "signed" with
    protocols := ["HTTP", "HTTPS", "HTTP"]
    securedBy := [none, scheme "<<kind>>", scheme "oauth"] }

/-- How a trait of a library is applied that declares the scheme `token`. -/
def byToken : Application :=
  { Application.empty with
    dictionary := [("kind", .str "token")], aliasName := some "auth", schemes := ["token"] }

/-- A run in which a trait is applied from a library, without one, and without values. -/
def signings : List (Application × Method) :=
  [(byToken, signed), ({ byToken with aliasName := none }, signed),
    (.empty, { signed with protocols := ["WS", "HTTP"] })]

/-- Over a run in which a trait is applied three times, each name comes in once. -/
theorem signings_accumulate :
    ∃ m, methodAll httpsOnly signings = .ok m ∧
      (∀ step ∈ signings, ∀ p ∈ step.2.protocols, step.1.name p = .ok p) ∧
      (∃ filled, contributed Method.protocols Application.name signings = .ok filled ∧
        union httpsOnly.protocols filled = m.protocols) ∧
      m.protocols = ["HTTPS", "HTTP", "WS"] ∧ m.protocols.Nodup ∧
      Choice.names m.securedBy =
        [some "oauth", none, some "auth.token", some "token", some "<<kind>>"] ∧
      (Choice.names m.securedBy).Nodup := by
  obtain ⟨m, hm⟩ : ∃ m, methodAll httpsOnly signings = .ok m :=
    exists_of_isOk (by decide +kernel)
  have hplain : ∀ step ∈ signings, ∀ p ∈ step.2.protocols, step.1.name p = .ok p := by
    decide +kernel
  have hnamed : contributed Method.securedBy Application.referenceName signings =
      .ok [none, some "auth.token", some "oauth", none, some "token", some "oauth", none,
        some "<<kind>>", some "oauth"] := by decide +kernel
  obtain ⟨⟨hprotocols, names, hlisted, hnames⟩, hfilled, -, hdistinct, hapart, -⟩ :=
    setLists_accumulate hm
  obtain rfl := Except.ok.inj (hlisted.symm.trans hnamed)
  obtain ⟨filled, hfilled, hsame⟩ := hfilled hplain
  refine ⟨m, hm, hplain, ⟨filled, hfilled, hsame.symm⟩, hprotocols.trans (by decide),
    hdistinct (by decide), hnames.trans (by decide), hapart (by decide)⟩

/-- A trait that lists a protocol by a placeholder. -/
def carried : Method := { Method.named "carried" with protocols := ["<<scheme>>"] }

/-- The values with which `carried` lists a protocol that is there. -/
def overHttps : Application := { Application.empty with dictionary := [("scheme", .str "HTTPS")] }

/-- Protocols are not filled in: one that a template lists by a placeholder is not told apart by
the value of the placeholder, and comes into the method as it is written. -/
theorem protocols_not_filled :
    ¬∀ (m m' : Method) (steps : List (Application × Method)), methodAll m steps = .ok m' →
      ∃ filled, contributed Method.protocols Application.name steps = .ok filled ∧
        m'.protocols = union m.protocols filled := by
  intro h
  obtain ⟨m, hm⟩ : ∃ m, methodAll httpsOnly [(overHttps, carried)] = .ok m :=
    exists_of_isOk (by decide +kernel)
  obtain ⟨filled, hfilled, hprotocols⟩ := h httpsOnly m _ hm
  have hvalue : contributed Method.protocols Application.name [(overHttps, carried)] =
      .ok ["HTTPS"] := by decide +kernel
  obtain rfl := Except.ok.inj (hfilled.symm.trans hvalue)
  have hwritten : m.protocols = union ["HTTPS"] ["<<scheme>>"] :=
    (accumulates_of_methodAll hm).protocols
  exact absurd (hwritten.symm.trans hprotocols) (by decide)

end Merge
end Raml
