import Raml.Proofs.Document.Keyed
import Raml.Proofs.Document.Told

/-!
# Documents whose integers have texts

All that is wrong with a document is told if every integer in it has a text (`Api.isTold_read`).
Each entity shows it of its own fields, in the order in which they are read; libraries and resources
hold entities of their own kind, and for them it is proved by induction on the members of a node.
-/

namespace Raml

theorem isShown_typeShorthand {s : String} {es : List (Value × Value)}
    (h : typeShorthand s = some es) : (Value.map es).isShown = true := by
  cases h
  rfl

open Checked (isTold_seq isTold_functor isTold_under)
open Reader (tells_any tells_text tells_shape tells_integer tells_double tells_truth)

/-! ### Parameters and references -/

/-- Of a parameter, everything that can be wrong is told. -/
theorem Parameter.tells : form.Tells := by
  refine ⟨fun _ _ => isShown_typeShorthand, fun f f' hf h => Except.ok.inj h ▸ hf, nofun,
    fun f hf => ?_⟩
  simp only [form, ofFields, isTold_seq, isTold_functor, and_assoc]
  exact ⟨hf.annotationTable, hf.withDefault tells_text _ _, hf.optional tells_text _,
    hf.optional tells_text _, hf.optional tells_text _, hf.optional tells_any.list _,
    hf.optional tells_text _, hf.optional tells_integer _, hf.optional tells_integer _,
    hf.optional tells_double _, hf.optional tells_double _, hf.optional tells_text _, hf.any _,
    hf.any _, hf.optional tells_truth _, hf.optional tells_truth _, hf.any _⟩

theorem Parameter.tells_readTable : Reader.Tells readTable := tells.read.table.map _

theorem Choice.areShown_arrange {f : Fields} (hf : f.AreShown) : (arrange f).AreShown := by
  rw [arrange]
  split
  · rename_i key v hentries
    split
    · exact hf
    · have hv : v.isShown = true := hf.entries (key, v) (hentries ▸ List.mem_singleton_self _)
      exact ⟨List.forall_mem_cons.mpr ⟨rfl, List.forall_mem_singleton.mpr hv⟩, hf.annotations⟩
  · exact hf

theorem Choice.tells : form.Tells := by
  refine ⟨fun s es h => ?_, fun f f' hf h => Except.ok.inj h ▸ areShown_arrange hf, nofun,
    fun f hf => ?_⟩
  · cases h
    rfl
  · simp only [form, ofFields, isTold_seq, isTold_functor, and_assoc]
    exact ⟨hf.annotationTable, hf.required tells_text _, hf.collection tells_any.table _ _⟩

theorem Choice.tells_readSecurity : Reader.Tells readSecurity := tells.read.optional.list

/-! ### Bodies and responses -/

theorem Body.tells : form.Tells := by
  refine ⟨fun _ _ => isShown_typeShorthand, fun f f' hf => hf.collectFacets,
    Fields.collectFacets_ne_longNumber known, fun f hf => ?_⟩
  simp only [form, ofFields, isTold_seq, isTold_functor, and_assoc]
  exact ⟨hf.annotationTable, hf.shape? _, hf.shape? _, hf.collection tells_shape.table _ _,
    hf.optional tells_text _, hf.optional tells_text _, hf.any _,
    hf.collection Parameter.tells_readTable _ _, hf.collection tells_any.table _ _⟩

theorem Bodies.areShown_arrange {f : Fields} (hf : f.AreShown) : (arrange f).AreShown := by
  have hpart : ∀ (name : String) (t : Table Value), (∀ e ∈ t, e.2.isShown = true) →
      ∀ e ∈ (if t.isEmpty then [] else [(name, Value.ofTable id t)] : Table Value),
        e.2.isShown = true := by
    intro name t ht
    split
    · exact List.forall_mem_nil _
    · exact List.forall_mem_singleton.mpr (Value.isShown_ofTable ht)
  unfold arrange
  dsimp only
  split
  · exact hf
  · refine ⟨List.forall_mem_append.mpr ⟨hpart _ _ fun e he => ?_, hpart _ _ fun e he => ?_⟩,
      hf.annotations⟩
    · exact hf.entries e (List.mem_filter.mp he).1
    · exact hf.entries e (List.mem_filter.mp he).1

/-- Of bodies, everything that can be wrong is told. -/
theorem Bodies.tells : form.Tells := by
  refine ⟨fun s es h => ?_, fun f f' hf h => Except.ok.inj h ▸ areShown_arrange hf, nofun,
    fun f hf => ?_⟩
  · cases h
    rfl
  · simp only [form, ofFields, isTold_seq, isTold_functor, and_assoc]
    exact ⟨hf.annotationTable, hf.optional Body.tells.read _,
      hf.collection Body.tells.read.table _ _⟩

theorem Response.tells : form.Tells := by
  refine ⟨nofun, fun f f' hf h => Except.ok.inj h ▸ hf, nofun, fun f hf => ?_⟩
  simp only [form, ofFields, isTold_seq, isTold_functor, and_assoc]
  exact ⟨hf.annotationTable, hf.withDefault tells_text _ _, hf.optional tells_text _,
    hf.collection Parameter.tells_readTable _ _, hf.collection Bodies.tells.read _ _⟩

theorem Response.tells_readTable : Reader.Tells readTable := tells.read.table.map _

/-- Codes of responses that have no text are reported as such. -/
theorem Response.withCodes_ne_longNumber (f : Fields) : withCodes f ≠ .error .longNumber := by
  intro h
  rw [withCodes] at h
  split at h
  · rcases bind_eq_error.mp h with h | ⟨_, -, h⟩
    · exact Fields.checkKeys_ne_longNumber _ h
    · cases h
  · cases h

/-! ### Methods and templates -/

/-- Of the fields of a method, everything that can be wrong is told. -/
theorem Method.isTold_ofFields {f : Fields} (hf : f.AreShown) : (ofFields f).IsTold := by
  simp only [ofFields, isTold_seq, isTold_functor, and_assoc]
  exact ⟨hf.annotationTable, hf.withDefault tells_text _ _, hf.optional tells_text _,
    hf.optional tells_text _, hf.collection Parameter.tells_readTable _ _,
    hf.collection Parameter.tells_readTable _ _, hf.shape? _,
    hf.collection Response.tells_readTable _ _, hf.collection Bodies.tells.read _ _,
    hf.collection tells_text.list _ _, hf.collection Choice.tells.read.list _ _,
    hf.collection Choice.tells_readSecurity _ _⟩

theorem Method.tells : form.Tells :=
  ⟨nofun, fun _ _ hf => (hf.listify _).withCodes, fun _ => Response.withCodes_ne_longNumber _,
    fun _ => isTold_ofFields⟩

theorem Method.tells_readTable : Reader.Tells readTable := tells.read.table.map _

theorem Trait.tells : form.Tells := by
  refine ⟨nofun, fun _ _ hf => (hf.listify _).withCodes,
    fun _ => Response.withCodes_ne_longNumber _, fun f hf => ?_⟩
  simp only [form, isTold_seq, isTold_functor]
  exact ⟨Method.isTold_ofFields hf, hf.optional tells_text _⟩

theorem Trait.tells_readTable : Reader.Tells readTable := tells.read.table.map _

section Gathered

variable {f f' : Fields} (hf : f.AreShown)

include hf

/-- Entries that go into the mapping of another field keep their values. -/
theorem Fields.AreShown.gathered {name : String} {key : String → Option String}
    {own : List (Value × Value)} (h : mappingOf name (f.entries.get? name) = .ok own) :
    (Value.map (gather key own f.entries)).isShown = true :=
  isShown_gather (isShown_of_mappingOf hf.get? h) hf.entries

theorem Fields.AreShown.without {names : List String} {isKey : String → Bool} :
    ∀ e ∈ without names isKey f.entries, e.2.isShown = true :=
  fun e he => hf.entries e (of_mem_without he).1

theorem ResourceType.areShown_arrange (h : arrange f = .ok f') : f'.AreShown := by
  have hlisted := hf.listify ["is", "securedBy"]
  obtain ⟨methods, hmethods, h⟩ := bind_eq_ok.mp h
  obtain ⟨optionals, hoptionals, h⟩ := bind_eq_ok.mp h
  obtain rfl := pure_eq_ok.mp h
  refine ⟨List.forall_mem_append.mpr ⟨hlisted.without, List.forall_mem_cons.mpr
    ⟨hlisted.gathered hmethods, List.forall_mem_singleton.mpr (hlisted.gathered hoptionals)⟩⟩,
    hf.annotations⟩

theorem Resource.areShown_arrange (h : arrange f = .ok f') : f'.AreShown := by
  have hlisted := hf.listify ["is", "securedBy"]
  obtain ⟨methods, hmethods, h⟩ := bind_eq_ok.mp h
  obtain ⟨_, -, h⟩ := bind_eq_ok.mp h
  obtain rfl := pure_eq_ok.mp h
  exact ⟨List.forall_mem_append.mpr ⟨hlisted.without,
    List.forall_mem_singleton.mpr (hlisted.gathered hmethods)⟩, hf.annotations⟩

end Gathered

/-- Of a resource type, everything that can be wrong is told, its methods included. -/
theorem ResourceType.tells : form.Tells := by
  refine ⟨nofun, fun _ _ => areShown_arrange, fun f => ?_, fun f hf => ?_⟩
  · refine Fields.mappingOf_bind_ne_longNumber fun _ => ?_
    refine Fields.mappingOf_bind_ne_longNumber fun _ h => ?_
    cases h
  · simp only [form, ofFields, isTold_seq, isTold_functor, and_assoc]
    exact ⟨hf.annotationTable, hf.withDefault tells_text _ _, hf.optional tells_text _,
      hf.optional tells_text _, hf.optional tells_text _,
      hf.collection Parameter.tells_readTable _ _, hf.collection Choice.tells.read.list _ _,
      hf.collection Choice.tells_readSecurity _ _, hf.collection Method.tells_readTable _ _,
      hf.collection Method.tells_readTable _ _⟩

theorem ResourceType.tells_readTable : Reader.Tells readTable := tells.read.table.map _

/-! ### Declarations -/

theorem TypeDeclaration.tells : form.Tells := by
  refine ⟨fun _ _ => isShown_typeShorthand, fun f f' hf => hf.collectFacets,
    Fields.collectFacets_ne_longNumber known, fun f hf => ?_⟩
  simp only [form, ofFields, isTold_seq, isTold_functor, and_assoc]
  exact ⟨hf.annotationTable, hf.withDefault tells_text _ _, hf.shape? _,
    hf.collection tells_shape.table _ _, hf.shape? _, hf.optional tells_text _,
    hf.optional tells_text _, hf.any _, hf.any _, hf.optional tells_any.list _,
    hf.collection tells_any.table _ _⟩

theorem DescribedBy.tells : form.Tells := by
  refine ⟨nofun, fun _ _ hf => hf.withCodes, Response.withCodes_ne_longNumber, fun f hf => ?_⟩
  simp only [form, ofFields, isTold_seq, isTold_functor, and_assoc]
  exact ⟨hf.annotationTable, hf.collection Parameter.tells_readTable _ _,
    hf.collection Parameter.tells_readTable _ _, hf.shape? _,
    hf.collection Response.tells_readTable _ _⟩

theorem SecurityScheme.tells : form.Tells := by
  refine ⟨nofun, fun f f' hf h => Except.ok.inj h ▸ hf, nofun, fun f hf => ?_⟩
  simp only [form, ofFields, isTold_seq, isTold_functor, and_assoc]
  exact ⟨hf.annotationTable, hf.withDefault tells_text _ _, hf.optional tells_text _,
    hf.optional tells_text _, hf.optional tells_text _, hf.collection DescribedBy.tells.read _ _,
    hf.collection tells_any.table _ _⟩

theorem Declarations.isTold_ofFields {f : Fields} (hf : f.AreShown) : (ofFields f).IsTold := by
  simp only [ofFields, isTold_seq, isTold_functor, and_assoc]
  exact ⟨hf.collection (TypeDeclaration.tells.read.table.map _) _ _,
    hf.collection Trait.tells_readTable _ _, hf.collection ResourceType.tells_readTable _ _,
    hf.collection tells_any.table _ _, hf.collection (SecurityScheme.tells.read.table.map _) _ _,
    hf.collection tells_text.table _ _⟩

/-! ## Trees -/

/-- The members of a mapping that can be shown can be shown. -/
theorem Value.isShown_of_mem_membersUnder {name : String} {es : List (Value × Value)}
    {c : Value × Value} (h : (map es).isShown = true) (hc : c ∈ membersUnder name es) :
    c.1.isShown = true ∧ c.2.isShown = true := by
  obtain ⟨⟨k, v⟩, he, -, hc⟩ := of_mem_membersUnder hc
  have hv : v.isShown = true := (entriesShown_iff.mp h _ he).2
  cases v with
  | map members => exact entriesShown_iff.mp hv c hc
  | _ => cases hc

/-- Whether members of a mapping that were read stand under keys with texts, and all that is wrong
with them is told. -/
def AreTold {α : Type} (members : List (Value × Checked α)) : Prop :=
  ∀ b ∈ members, b.1.isShown = true ∧ b.2.IsTold

theorem isTold_members {α : Type} {members : List (Value × Checked α)} (h : AreTold members) :
    (Checked.all (members.map fun e => Reader.entry (fun _ => e.2) e.1 .null)).IsTold :=
  Checked.isTold_all (List.forall_mem_map.mpr fun e he =>
    Reader.isTold_entry (h e he).1 (h e he).2)

namespace Library

theorem isTold_field {libraries : List (Value × Checked Library)} {f : Fields} (hf : f.AreShown)
    (h : AreTold libraries) : (field libraries f).IsTold := by
  refine hf.collection (fun v _ => ?_) _ _
  split
  · exact Checked.isTold_map.mpr (isTold_members h)
  · exact Checked.isTold_fail.mpr (by simp)

theorem tells {libraries : List (Value × Checked Library)} (h : AreTold libraries) :
    (form libraries).Tells := by
  refine ⟨nofun, fun f f' hf h => Except.ok.inj h ▸ hf, nofun, fun f hf => ?_⟩
  simp only [form, ofFields, isTold_seq, isTold_functor, and_assoc]
  exact ⟨hf.annotationTable, Declarations.isTold_ofFields hf, isTold_field hf h,
    hf.withDefault tells_text _ _, hf.optional tells_text _⟩

/-- Of a library, everything that can be wrong is told, its libraries included. -/
theorem tells_read {v : Value} : v.isShown = true → (read v).IsTold := by
  induction v using Value.membersInduction with
  | step v _ hmembers =>
    intro h
    cases v with
    | map es =>
      rw [read]
      refine (tells (gathers_read.forall_mem_read.mpr fun c hc => ?_)).ofEntries h
      have hc' := Value.isShown_of_mem_membersUnder h hc
      exact ⟨hc'.1, hmembers _ c hc hc'.2⟩
    | null =>
      rw [read]
      exact (tells (List.forall_mem_nil _)).ofEntries h
    | _ => exact Checked.isTold_fail.mpr (by simp)

/-- The libraries under the key `libraries` are told if all integers in the mapping have texts. -/
theorem areTold_listed {es : List (Value × Value)} (h : (Value.map es).isShown = true) :
    AreTold (listed es) :=
  gathers_read.forall_mem_read.mpr fun _ hc =>
    have hc := Value.isShown_of_mem_membersUnder h hc
    ⟨hc.1, tells_read hc.2⟩

end Library

namespace Resource

theorem tells {nested : List (Value × Checked Resource)} (h : AreTold nested) :
    (form nested).Tells := by
  refine ⟨nofun, fun _ _ => areShown_arrange, fun f => ?_, fun f hf => ?_⟩
  · refine Fields.mappingOf_bind_ne_longNumber fun _ => ?_
    refine Fields.mappingOf_bind_ne_longNumber fun _ h => ?_
    cases h
  · simp only [form, ofFields, isTold_seq, isTold_functor, isTold_under, and_assoc]
    exact ⟨hf.annotationTable, hf.withDefault tells_text _ _, hf.optional tells_text _,
      hf.optional tells_text _, hf.collection Method.tells_readTable _ _,
      hf.collection Choice.tells.read.list _ _, hf.optional Choice.tells.read _,
      hf.collection Choice.tells_readSecurity _ _, hf.collection Parameter.tells_readTable _ _,
      Checked.isTold_map.mpr (isTold_members h)⟩

/-- A resource is told, with those below it at whatever depth, if all integers in it have texts. -/
theorem tells_read {v : Value} : v.isShown = true → (read v).IsTold := by
  have hnull : (read .null).IsTold := by
    rw [read]
    exact (tells (List.forall_mem_nil _)).ofEntries rfl
  induction v using Value.membersInduction with
  | step v hentries hmembers =>
    intro h
    cases v with
    | map es =>
      -- what is listed and what branches off can be shown as well, and is smaller
      have hall : AreTold (listed es ++ branches es) := by
        rw [AreTold, List.forall_mem_append, gathers_read.forall_mem_read, forall_mem_branches]
        refine ⟨fun c hc => ?_, fun e he _ => ⟨rfl, ?_⟩⟩
        · have hc' := Value.isShown_of_mem_membersUnder h hc
          exact ⟨hc'.1, hmembers _ c hc hc'.2⟩
        · split
          · exact hentries e he (Value.entriesShown_iff.mp h e he).2
          · exact hnull
      rw [read]
      exact (tells (Value.forall_mem_mapOf (K := fun k => Value.isShown k = true)
        (V := Checked.IsTold) hall)).ofEntries h
    | null => exact hnull
    | _ => exact Checked.isTold_fail.mpr (by simp)

end Resource

/-! ## The root document -/

theorem Documentation.tells : form.Tells := by
  refine ⟨nofun, fun f f' hf h => Except.ok.inj h ▸ hf, nofun, fun f hf => ?_⟩
  simp only [form, isTold_seq, isTold_functor, and_assoc]
  exact ⟨hf.annotationTable, hf.withDefault tells_text _ _, hf.withDefault tells_text _ _⟩

namespace Api

theorem isShown_typed {n : String} {v : Value} (h : v.isShown = true) :
    (typed n v).isShown = true := by
  unfold typed
  split
  · split <;> rfl
  · exact h

theorem areShown_arrange {f f' : Fields} (hf : f.AreShown) (h : arrange f = .ok f') :
    f'.AreShown := by
  have hlisted := hf.listify ["securedBy", "protocols"]
  rw [arrange_eq] at h
  have htyped : Fields.AreShown ⟨(f.listify ["securedBy", "protocols"]).entries.map
      fun e => (e.1, typed e.1 e.2), f.annotations⟩ :=
    ⟨List.forall_mem_map.mpr fun e he => isShown_typed (hlisted.entries e he), hf.annotations⟩
  obtain ⟨own, hown, h⟩ := bind_eq_ok.mp h
  obtain rfl := pure_eq_ok.mp h
  exact ⟨List.forall_mem_append.mpr ⟨htyped.without,
    List.forall_mem_singleton.mpr (htyped.gathered hown)⟩, hf.annotations⟩

/-- Of a document, everything that can be wrong is told, if it is of its libraries. -/
theorem tells {libraries : List (Value × Checked Library)} (h : AreTold libraries) :
    (form libraries).Tells := by
  refine ⟨nofun, fun _ _ => areShown_arrange, fun f => ?_, fun f hf => ?_⟩
  · refine Fields.mappingOf_bind_ne_longNumber fun _ h => ?_
    cases h
  · simp only [form, ofFields, isTold_seq, isTold_functor, and_assoc]
    have hresources : Reader.Tells readResources := Reader.Tells.map (Reader.Tells.table
      fun _ => Resource.tells_read) _
    exact ⟨hf.annotationTable, Declarations.isTold_ofFields hf, Library.isTold_field hf h,
      hf.withDefault tells_text _ _, hf.withDefault tells_text _ _, hf.optional tells_text _,
      hf.optional tells_text _, hf.collection Parameter.tells_readTable _ _,
      hf.collection tells_text.list _ _, hf.collection tells_text.list _ _,
      hf.collection Documentation.tells.read.list _ _, hf.any _,
      hf.collection Choice.tells_readSecurity _ _, hf.collection hresources _ _,
      hf.withDefault tells_text _ _⟩

/-- All that is wrong with a document is told if every integer in it has a text. -/
theorem isTold_read {entries : List (Value × Value)} (h : (Value.map entries).isShown = true) :
    (read (.map entries)).IsTold :=
  (tells (Library.areTold_listed h)).ofEntries h

end Api

end Raml
