import Raml.Proofs.Table
import Raml.Proofs.Template.Fill

/-!
# Filling in a text in two stages

A text that has been filled in may be filled in again, with other values. That is the same as
filling it in once with the values of both (`expand_stages`), as long as no value brings an angle
bracket into the text: one that did could open a placeholder, or close one.

What a segment becomes is told in segments again (`Segment.Becomes`): a character stays, and so does
a placeholder whose name is unknown, while one whose name is known becomes the characters of its
value. The text that comes out is cut into these very segments (`segments_source`), so the second
stage finds the placeholders that the first one left, and no others.
-/

namespace Raml.Template

variable {d e : Dictionary}

/-! ## What segments become -/

/-- What a segment is replaced by when a text is filled in. -/
inductive Segment.Becomes (d : Dictionary) : Segment → List Segment → Prop where
  | char (c : Char) : Becomes d (.char c) [.char c]
  /-- A placeholder stays as it is written if its name is unknown. -/
  | unknown {inner : List Char} (hname : ∀ name ∈ (parts inner).head?, d.get? name = none) :
      Becomes d (.hole inner) [.hole inner]
  | known {inner : List Char} {name word : String} {inflectors : List String} {value : Value}
      (hparts : parts inner = name :: inflectors) (hvalue : d.get? name = some value)
      (hshown : value.isShown = true) (hword : inflectAll value.yamlText inflectors = .ok word) :
      Becomes d (.hole inner) (word.toList.map .char)

/-- What segments are replaced by, one after another. -/
inductive Fills (d : Dictionary) : List Segment → List Segment → Prop where
  | nil : Fills d [] []
  | cons {s : Segment} {here ss there : List Segment} :
      s.Becomes d here → Fills d ss there → Fills d (s :: ss) (here ++ there)

theorem source_chars (cs : List Char) : (cs.map Segment.char).flatMap Segment.source = cs := by
  induction cs with
  | nil => rfl
  | cons c cs ih =>
    rw [List.map_cons, List.flatMap_cons, ih]
    rfl

/-- A segment is filled in as the segments that it becomes are written. -/
theorem Segment.fill_eq_ok {s : Segment} {cs : List Char} :
    s.fill d = .ok cs ↔ ∃ out, s.Becomes d out ∧ out.flatMap Segment.source = cs := by
  cases s with
  | char c =>
    constructor
    · intro h
      exact ⟨[.char c], .char c, Except.ok.inj h⟩
    · rintro ⟨out, ⟨⟩, rfl⟩
      rfl
  | hole inner =>
    have hsource : [Segment.hole inner].flatMap Segment.source = (Segment.hole inner).source :=
      List.flatMap_singleton ..
    rw [fill]
    constructor
    · intro h
      split at h
      · -- the placeholder names nothing
        rename_i hparts
        exact ⟨_, .unknown (by simp [hparts]), hsource.trans (Except.ok.inj h)⟩
      · rename_i name inflectors hparts
        split at h
        · -- the name has no value
          rename_i hvalue
          exact ⟨_, .unknown (by simp [hparts, hvalue]), hsource.trans (Except.ok.inj h)⟩
        · rename_i value hvalue
          split at h
          · rename_i hshown
            obtain ⟨word, hword, rfl⟩ := map_eq_ok.mp h
            exact ⟨_, .known hparts hvalue hshown hword, source_chars _⟩
          · cases h
    · rintro ⟨out, hout, rfl⟩
      cases hout with
      | unknown hname =>
        rw [hsource]
        split
        · rfl
        · rename_i name inflectors hparts
          rw [hname name (by simp [hparts])]
      | known hparts hvalue hshown hword =>
        rw [source_chars]
        simp only [hparts, hvalue, hshown, hword]
        rfl

/-- Segments are filled in as what they become is written. -/
theorem fillAll_eq_ok {ss : List Segment} {cs : List Char} :
    fillAll d ss = .ok cs ↔ ∃ out, Fills d ss out ∧ out.flatMap Segment.source = cs := by
  induction ss generalizing cs with
  | nil =>
    constructor
    · intro h
      exact ⟨[], .nil, Except.ok.inj h⟩
    · rintro ⟨out, ⟨⟩, rfl⟩
      rfl
  | cons s ss ih =>
    -- both ways take one segment off the front
    constructor
    · intro h
      obtain ⟨here, hhere, h⟩ := bind_eq_ok.mp h
      obtain ⟨there, hthere, h⟩ := bind_eq_ok.mp h
      obtain ⟨out, hout, rfl⟩ := Segment.fill_eq_ok.mp hhere
      obtain ⟨rest, hrest, rfl⟩ := ih.mp hthere
      exact ⟨_, .cons hout hrest, List.flatMap_append.trans (pure_eq_ok.mp h)⟩
    · rintro ⟨_, hout, rfl⟩
      cases hout with
      | cons hhere hthere =>
        have hfirst := Segment.fill_eq_ok.mpr ⟨_, hhere, rfl⟩
        have hrest := ih.mpr ⟨_, hthere, rfl⟩
        rw [List.flatMap_append]
        exact bind_eq_ok.mpr ⟨_, hfirst, bind_eq_ok.mpr ⟨_, hrest, rfl⟩⟩

/-- A text is filled in segment by segment. -/
theorem expand_str_eq_ok {t : String} {v : Value} :
    expand d (.str t) = .ok v ↔ ∃ out, Fills d (segments t.toList) out ∧
      v = .str (String.ofList (out.flatMap Segment.source)) := by
  constructor
  · intro h
    obtain ⟨u, hu, rfl⟩ := map_eq_ok.mp h
    obtain ⟨cs, hcs, rfl⟩ := map_eq_ok.mp hu
    obtain ⟨out, hout, rfl⟩ := fillAll_eq_ok.mp hcs
    exact ⟨out, hout, rfl⟩
  · rintro ⟨out, hout, rfl⟩
    exact map_eq_ok.mpr ⟨_, map_eq_ok.mpr ⟨_, fillAll_eq_ok.mpr ⟨out, hout, rfl⟩, rfl⟩, rfl⟩

/-! ## Cutting what comes out -/

/-- A text is cut into the segments that it was put together of. -/
theorem segments_source {ss : List Segment} (h : ∀ s ∈ ss, s.IsClean) :
    segments (ss.flatMap Segment.source) = ss := by
  induction ss with
  | nil => exact segments_nil
  | cons s ss ih =>
    obtain ⟨hs, hss⟩ := List.forall_mem_cons.mp h
    rw [List.flatMap_cons]
    cases s with
    | char c =>
      -- no placeholder begins at a character that is no angle bracket
      have hinner : isInner c = true := hs
      have hopen : c ≠ '<' := by
        rintro rfl
        exact absurd hinner (by decide)
      change segments (c :: ss.flatMap Segment.source) = _
      rw [segments_cons hopen, ih hss]
    | hole inner =>
      have hinner : inner? (inner ++ '>' :: '>' :: ss.flatMap Segment.source) =
          some (inner, ss.flatMap Segment.source) := inner?_eq_some.mpr ⟨hs, rfl⟩
      have hsource : (Segment.hole inner).source ++ ss.flatMap Segment.source =
          '<' :: '<' :: (inner ++ '>' :: '>' :: ss.flatMap Segment.source) := by
        simp [Segment.source]
      rw [hsource, segments_of_inner? hinner, ih hss]

/-- Whether a segment leaves no angle bracket but those of a placeholder with an unknown name. -/
def Segment.isTidy (d : Dictionary) : Segment → Bool
  | .char c => isInner c
  | .hole inner =>
    match parts inner with
    | [] => true
    | name :: inflectors =>
      match d.get? name with
      | none => true
      | some value =>
        match inflectAll value.yamlText inflectors with
        | .ok word => decide (NoAngle word.toList)
        | .error _ => true

/-- Whether the angle brackets of a text all belong to placeholders, and none stands in the words
that these are replaced by. -/
def IsTidy (d : Dictionary) (t : String) : Prop :=
  ∀ segment ∈ segments t.toList, segment.isTidy d = true

instance (d : Dictionary) (t : String) : Decidable (IsTidy d t) :=
  inferInstanceAs (Decidable (∀ segment ∈ segments t.toList, segment.isTidy d = true))

theorem isInner_of_noAngle {cs : List Char} (h : NoAngle cs) : ∀ c ∈ cs, isInner c = true := by
  intro c hc
  have hopen : c ≠ '<' := fun heq => h.1 (heq ▸ hc)
  have hclose : c ≠ '>' := fun heq => h.2 (heq ▸ hc)
  simp [isInner, hopen, hclose]

/-- Clean segments with tidy values become clean segments. -/
theorem Segment.Becomes.isClean {s : Segment} {out : List Segment} (h : s.Becomes d out)
    (hs : s.IsClean) (htidy : s.isTidy d = true) : ∀ x ∈ out, x.IsClean := by
  cases h with
  | char c => exact List.forall_mem_singleton.mpr hs
  | unknown _ => exact List.forall_mem_singleton.mpr hs
  | @known inner name word inflectors value hparts hvalue _ hword =>
    have hangle : NoAngle word.toList := by
      rw [Segment.isTidy] at htidy
      simpa [hparts, hvalue, hword] using htidy
    exact List.forall_mem_map.mpr (isInner_of_noAngle hangle)

theorem Fills.isClean {ss out : List Segment} (h : Fills d ss out)
    (hss : ∀ s ∈ ss, s.IsClean ∧ s.isTidy d = true) : ∀ x ∈ out, x.IsClean := by
  induction h with
  | nil => exact List.forall_mem_nil _
  | cons hhere _ ih =>
    obtain ⟨⟨hs, htidy⟩, hss⟩ := List.forall_mem_cons.mp hss
    exact List.forall_mem_append.mpr ⟨hhere.isClean hs htidy, ih hss⟩

/-- What comes out of a tidy text is cut into what its segments became. -/
theorem IsTidy.segments_of_fills {t : String} {out : List Segment} (h : IsTidy d t)
    (hout : Fills d (segments t.toList) out) :
    segments (out.flatMap Segment.source) = out := by
  refine segments_source (hout.isClean fun s hs => ⟨?_, h s hs⟩)
  cases s with
  | char c => exact h _ hs
  | hole inner => exact isClean_of_hole_mem hs

/-! ## Two stages -/

theorem fills_chars {cs : List Char} {out : List Segment} :
    Fills d (cs.map .char) out ↔ out = cs.map .char := by
  induction cs generalizing out with
  | nil =>
    constructor
    · rintro ⟨⟩
      rfl
    · rintro rfl
      exact .nil
  | cons c cs ih =>
    constructor
    · intro h
      cases h with
      | cons hhere hthere =>
        cases hhere
        rw [ih.mp hthere]
        rfl
    · rintro rfl
      exact .cons (.char c) (ih.mpr rfl)

theorem fills_singleton {s : Segment} {out : List Segment} :
    Fills d [s] out ↔ s.Becomes d out := by
  constructor
  · intro h
    cases h with
    | cons hhere hthere =>
      cases hthere
      rwa [List.append_nil]
  · intro h
    have hout := Fills.cons h .nil
    rwa [List.append_nil] at hout

/-- Segments are filled in apart from each other. -/
theorem fills_append {ss rest out : List Segment} : Fills d (ss ++ rest) out ↔
    ∃ here there, Fills d ss here ∧ Fills d rest there ∧ here ++ there = out := by
  induction ss generalizing out with
  | nil =>
    constructor
    · intro h
      exact ⟨[], out, .nil, h, rfl⟩
    · rintro ⟨_, there, ⟨⟩, hthere, rfl⟩
      exact hthere
  | cons s ss ih =>
    constructor
    · intro h
      cases h with
      | cons hs hrest =>
        obtain ⟨here, there, hhere, hthere, rfl⟩ := ih.mp hrest
        exact ⟨_, there, .cons hs hhere, hthere, List.append_assoc ..⟩
    · rintro ⟨_, there, hhere, hthere, rfl⟩
      cases hhere with
      | cons hs hhere =>
        rw [List.append_assoc]
        exact .cons hs (ih.mpr ⟨_, there, hhere, hthere, rfl⟩)

/-- What a segment becomes with the values of two dictionaries is what the second one makes of what
it becomes with the first. -/
theorem becomes_append {s : Segment} {out : List Segment} :
    s.Becomes (d ++ e) out ↔ ∃ mid, s.Becomes d mid ∧ Fills e mid out := by
  constructor
  · intro h
    cases h with
    | char c => exact ⟨_, .char c, fills_singleton.mpr (.char c)⟩
    | @unknown inner hname =>
      -- neither stage has the name
      have hnone : ∀ name ∈ (parts inner).head?, d.get? name = none ∧ e.get? name = none := by
        intro name hmem
        have hboth := hname name hmem
        rwa [Table.get?_append, Option.or_eq_none_iff] at hboth
      exact ⟨_, .unknown fun name hmem => (hnone name hmem).1,
        fills_singleton.mpr (.unknown fun name hmem => (hnone name hmem).2)⟩
    | @known inner name word inflectors value hparts hvalue hshown hword =>
      rw [Table.get?_append, Option.or_eq_some_iff] at hvalue
      rcases hvalue with hfirst | ⟨hnone, hsecond⟩
      · exact ⟨_, .known hparts hfirst hshown hword, fills_chars.mpr rfl⟩
      · -- the first stage leaves the placeholder, and the second one finds its name
        have hleft : (Segment.hole inner).Becomes d [.hole inner] :=
          .unknown (by simpa [hparts] using hnone)
        exact ⟨_, hleft, fills_singleton.mpr (.known hparts hsecond hshown hword)⟩
  · rintro ⟨mid, hmid, hout⟩
    cases hmid with
    | char c =>
      cases fills_singleton.mp hout with
      | char => exact .char c
    | unknown hname =>
      cases fills_singleton.mp hout with
      | unknown hname' =>
        refine .unknown fun name hmem => ?_
        rw [Table.get?_append, hname name hmem, hname' name hmem]
        rfl
      | known hparts hvalue hshown hword =>
        refine .known hparts ?_ hshown hword
        rw [Table.get?_append, hname _ (by simp [hparts]), hvalue]
        rfl
    | known hparts hvalue hshown hword =>
      obtain rfl := fills_chars.mp hout
      refine .known hparts ?_ hshown hword
      rw [Table.get?_append, hvalue]
      rfl

/-- Filling in from two dictionaries together is filling in from the one and then from the other. -/
theorem fills_both {ss out : List Segment} :
    Fills (d ++ e) ss out ↔ ∃ mid, Fills d ss mid ∧ Fills e mid out := by
  -- along the segments; what the first dictionary leaves open is still a segment for the second
  induction ss generalizing out with
  | nil =>
    constructor
    · rintro ⟨⟩
      exact ⟨[], .nil, .nil⟩
    · rintro ⟨_, ⟨⟩, ⟨⟩⟩
      exact .nil
  | cons s ss ih =>
    constructor
    · intro h
      cases h with
      | cons hs hss =>
        obtain ⟨mid, hmid, hhere⟩ := becomes_append.mp hs
        obtain ⟨rest, hrest, hthere⟩ := ih.mp hss
        exact ⟨_, .cons hmid hrest, fills_append.mpr ⟨_, _, hhere, hthere, rfl⟩⟩
    · rintro ⟨_, hmid, hout⟩
      cases hmid with
      | cons hs hss =>
        obtain ⟨here, there, hhere, hthere, rfl⟩ := fills_append.mp hout
        exact .cons (becomes_append.mpr ⟨_, hs, hhere⟩) (ih.mpr ⟨_, hss, hthere⟩)

/-- Whatever comes out of two stages comes out of one, and the other way round. -/
theorem IsTidy.stages_eq_ok {t : String} (h : IsTidy d t) {v : Value} :
    (expand d (.str t) >>= expand e) = .ok v ↔ expand (d ++ e) (.str t) = .ok v := by
  rw [bind_eq_ok, expand_str_eq_ok]
  constructor
  · rintro ⟨_, hfirst, hsecond⟩
    obtain ⟨mid, hmid, rfl⟩ := expand_str_eq_ok.mp hfirst
    obtain ⟨out, hout, rfl⟩ := expand_str_eq_ok.mp hsecond
    -- the second stage starts from a text, but cuts it into what the first one put together
    rw [String.toList_ofList, h.segments_of_fills hmid] at hout
    exact ⟨out, fills_both.mpr ⟨mid, hmid, hout⟩, rfl⟩
  · rintro ⟨out, hout, rfl⟩
    obtain ⟨mid, hmid, hout⟩ := fills_both.mp hout
    refine ⟨_, expand_str_eq_ok.mpr ⟨mid, hmid, rfl⟩, expand_str_eq_ok.mpr ⟨out, ?_, rfl⟩⟩
    rwa [String.toList_ofList, h.segments_of_fills hmid]

/-- **Filling in a text in two stages is filling it in once** with the values of both dictionaries,
if the angle brackets of the text all belong to placeholders and no word that the first stage puts
in their place has any. The one succeeds where the other does, with the same result; and if none of
them fails on an unknown inflector or on a value without a text, they also fail alike. In what comes
out, characters outside of placeholders and placeholders with unknown names have stayed. -/
theorem expand_stages (t : String) (d e : Dictionary) (h : IsTidy d t) :
    (∀ v, (expand d (.str t) >>= expand e) = .ok v ↔ expand (d ++ e) (.str t) = .ok v) ∧
    ((∀ name, (expand d (.str t) >>= expand e) ≠ .error (.unknownInflector name)) →
      (∀ name, expand (d ++ e) (.str t) ≠ .error (.unknownInflector name)) →
      (expand d (.str t) >>= expand e) ≠ .error .longNumber →
      expand (d ++ e) (.str t) ≠ .error .longNumber →
      (expand d (.str t) >>= expand e) = expand (d ++ e) (.str t)) ∧
    ∀ v, expand (d ++ e) (.str t) = .ok v → ∃ out, Fills (d ++ e) (segments t.toList) out ∧
      v = .str (String.ofList (out.flatMap Segment.source)) := by
  refine ⟨fun v => h.stages_eq_ok, fun htwo hone htwoShown honeShown => ?_,
    fun v => expand_str_eq_ok.mp⟩
  cases hsingle : expand (d ++ e) (.str t) with
  | ok v => exact h.stages_eq_ok.mpr hsingle
  | error f =>
    cases hdouble : expand d (.str t) >>= expand e with
    | ok v =>
      rw [h.stages_eq_ok.mp hdouble] at hsingle
      cases hsingle
    | error g =>
      -- only the word without a first letter is left to fail on
      cases f with
      | unknownInflector name => exact absurd hsingle (hone name)
      | longNumber => exact absurd hsingle honeShown
      | emptyWord =>
        cases g with
        | unknownInflector name => exact absurd hdouble (htwo name)
        | longNumber => exact absurd hdouble htwoShown
        | emptyWord => rfl

/-- A text with an empty value, a chain of inflectors and a name that nothing is known of. -/
def catalogueText : String := "<<gap>><<item | !pluralize | !uppercase>> of <<owner | !reverse>>"

/-- What `catalogueText` is filled in with in the first stage, and in the second one. -/
def firstWords : Dictionary := [("gap", .str "")]

@[inherit_doc firstWords]
def secondWords : Dictionary := [("item", .str "book")]

theorem catalogue_in_stages : IsTidy firstWords catalogueText ∧
    (expand firstWords (.str catalogueText) >>= expand secondWords) =
      .ok (.str "BOOKS of <<owner | !reverse>>") := by
  have htidy : IsTidy firstWords catalogueText := by decide +kernel
  have honce : instantiate (firstWords ++ secondWords) catalogueText =
      .ok "BOOKS of <<owner | !reverse>>" := by decide +kernel
  exact ⟨htidy, ((expand_stages catalogueText firstWords secondWords htidy).1 _).mpr
    (map_eq_ok.mpr ⟨_, honce, rfl⟩)⟩

end Raml.Template
