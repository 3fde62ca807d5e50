import Raml.Output.Format
import Raml.Proofs.Outcome
import Raml.Proofs.Read.Checked
import Raml.Proofs.Value.Mapping
import Raml.Settings.Layers

/-!
# Layers over the settings of two users

The layers are put together before anything is read, and what stands in place of a mapping, or is of
no use for a setting, is found only then. So settings of two users are compared as values first:
they differ in values of the same kind (`LeafLike`), below the same keys (`Alike`), and whatever is
laid over them keeps it so. Of such values one is read as settings if the other is (`exists_merge`),
and names a format if that does.
-/

namespace Raml.Settings

variable {c : Settings} {o : Overrides}

/-! ## Mappings with the same keys -/

section Alike

variable {L : Value → Value → Value → Prop} {es es' : List (Value × Value)} {n : String}

/-- Whether mappings have the same keys, under each of which the values are in the relation `L`. -/
def Alike (L : Value → Value → Value → Prop) (es es' : List (Value × Value)) : Prop :=
  List.Forall₂ (fun e e' => e'.1 = e.1 ∧ L e.1 e.2 e'.2) es es'

/-- Under a text both have something, or neither has. -/
theorem Alike.get? (h : Alike L es es') (n : String) :
    Option.Rel (L (.str n)) (Value.get? n es) (Value.get? n es') := by
  induction h with
  | nil => exact .none
  | @cons e e' es es' he _ ih =>
    obtain ⟨k, v⟩ := e
    obtain ⟨k', v'⟩ := e'
    obtain ⟨rfl, hL⟩ := he
    rw [Value.get?_cons, Value.get?_cons]
    split
    · next hk => exact .some (Value.eq_of_same_str hk ▸ hL)
    · exact ih

/-- Entries stay alike when like values are put in at the same place. -/
theorem Alike.insert {v v' : Value} (h : Alike L es es') (hv : L (.str n) v v') :
    Alike L (Value.insert (.str n) v es) (Value.insert (.str n) v' es') := by
  induction h with
  | nil => exact .cons ⟨rfl, hv⟩ .nil
  | @cons e e' es es' he hes ih =>
    obtain ⟨k, w⟩ := e
    obtain ⟨k', w'⟩ := e'
    obtain ⟨rfl, hL⟩ := he
    rw [Value.insert, Value.insert]
    split
    · next hk => exact .cons ⟨rfl, Value.eq_of_same_str hk ▸ hv⟩ hes
    · exact .cons ⟨rfl, hL⟩ ih

variable (hsame : ∀ k v, L k v v)
  (hover : ∀ k b b' v, L k b b' → L k (overlay b v) (overlay b' v))

include hsame hover

/-- One entry laid over two mappings comes under the same key of both. -/
theorem Alike.put (h : Alike L es es') (k v : Value) :
    Alike L (overlayEntries es [(k, v)]) (overlayEntries es' [(k, v)]) := by
  simp only [overlayEntries]
  induction h with
  | nil => exact .cons ⟨rfl, hsame _ _⟩ .nil
  | @cons e e' es es' he hes ih =>
    obtain ⟨m, w⟩ := e
    obtain ⟨m', w'⟩ := e'
    obtain ⟨rfl, hL⟩ := he
    rw [Value.insert, Value.insert, Value.find?, Value.find?, List.find?_cons, List.find?_cons]
    split
    · next hk =>
      simp only [hk]
      exact .cons ⟨rfl, hover _ _ _ _ hL⟩ hes
    · next hk =>
      simp only [Bool.not_eq_true] at hk
      simp only [hk]
      exact .cons ⟨rfl, hL⟩ ih

/-- Laying the same entries over like ones gives like ones. -/
theorem Alike.overlayEntries (h : Alike L es es') (given : List (Value × Value)) :
    Alike L (overlayEntries es given) (overlayEntries es' given) := by
  induction given generalizing es es' with
  | nil =>
    rw [Settings.overlayEntries, Settings.overlayEntries]
    exact h
  | cons e given ih =>
    obtain ⟨k, v⟩ := e
    have := ih (h.put hsame hover k v)
    simpa only [Settings.overlayEntries] using this

end Alike

/-! ## Settings of two users -/

/-- Whether settings name a format that there is. -/
def KnowsFormat (c : Settings) : Prop := ∃ f, Format.ofName? c.output.format = some f

/-- Whether one name is that of a format if the other is. -/
def FollowsFormat (f g : String) : Prop :=
  (∃ x, Format.ofName? f = some x) → ∃ x, Format.ofName? g = some x

/-- How a single setting of one user may differ from that of another. -/
inductive LeafLike (k : Value) : Value → Value → Prop where
  | same (v : Value) : LeafLike k v v
  | timeout (x y : Float) (hk : k = .str "timeout") : LeafLike k (.float x) (.float y)
  | truth (a b : Bool) (hk : k = .str "follow_redirects" ∨ k = .str "verify_ssl") :
    LeafLike k (.bool a) (.bool b)
  | format (f g : String) (hk : k = .str "format") (h : FollowsFormat f g) :
    LeafLike k (.str f) (.str g)

/-- How a group of settings of one user may differ from that of another. -/
inductive GroupLike (k : Value) : Value → Value → Prop where
  | same (v : Value) : GroupLike k v v
  | group {es es' : List (Value × Value)} (h : Alike LeafLike es es') :
    GroupLike k (.map es) (.map es')

theorem LeafLike.overlay (k b b' v : Value) (h : LeafLike k b b') :
    LeafLike k (overlay b v) (overlay b' v) := by
  have heq : Settings.overlay b v = Settings.overlay b' v := by
    cases h with
    | same => rfl
    | _ => cases v <;> rfl
  rw [heq]
  exact .same _

theorem GroupLike.overlay (k b b' v : Value) (h : GroupLike k b b') :
    GroupLike k (overlay b v) (overlay b' v) := by
  cases h with
  | same => exact .same _
  | group h =>
    cases v with
    | map given =>
      rw [Settings.overlay, Settings.overlay]
      exact .group (h.overlayEntries (fun _ => .same) LeafLike.overlay given)
    | _ => exact .same _

/-- Two settings of a user are alike as far as their groups go. -/
theorem entries_alike {user user' : Settings} (h : user.KnowsFormat → user'.KnowsFormat) :
    Alike GroupLike user.entries user'.entries :=
  .cons ⟨rfl, .group (.cons ⟨rfl, .timeout _ _ rfl⟩ (.cons ⟨rfl, .truth _ _ (.inl rfl)⟩
    (.cons ⟨rfl, .truth _ _ (.inr rfl)⟩ .nil)))⟩
    (.cons ⟨rfl, .group (.cons ⟨rfl, .format _ _ rfl h⟩ .nil)⟩ .nil)

/-- A setting that can be assigned in some entries can be in like ones. -/
theorem exists_assign {group name : String} {v : Value} {es es' r : List (Value × Value)}
    (hes : Alike GroupLike es es') (h : assign group name v es = .ok r) :
    ∃ r', assign group name v es' = .ok r' ∧ Alike GroupLike r r' := by
  have hget := hes.get? group
  rw [assign] at h ⊢
  -- a group is there in both or in neither
  split at h
  · next settings hsettings =>
    rw [hsettings] at hget
    cases h
    cases hv : Value.get? group es' with
    | none =>
      rw [hv] at hget
      cases hget
    | some v' =>
      rw [hv] at hget
      cases hget with
      | some hlike =>
        cases hlike with
        | same => exact ⟨_, rfl, hes.insert (.same _)⟩
        | group hgroup => exact ⟨_, rfl, hes.insert (.group (hgroup.insert (.same _)))⟩
  · cases h

theorem exists_assign? {group name : String} {v : Option Value} {es es' r : List (Value × Value)}
    (hes : Alike GroupLike es es') (h : assign? group name v es = .ok r) :
    ∃ r', assign? group name v es' = .ok r' ∧ Alike GroupLike r r' := by
  cases v with
  | none =>
    cases h
    exact ⟨es', rfl, hes⟩
  | some v => exact exists_assign hes h

/-! ## Reading groups of settings -/

section Reading

variable {α : Type} {es es' : List (Value × Value)} {n name : String} {usual a : α}
  {read : Reader α}

/-- How a field of a group is read: the usual value stands for one that is not there. -/
def ReadsField (es : List (Value × Value)) (n : String) (usual : α) (read : Reader α) (a : α) :
    Prop :=
  Value.get? n es = none ∧ a = usual ∨ ∃ v, Value.get? n es = some v ∧ read v = .good a

/-- A group is read from fields that are those of its mapping. -/
theorem exists_fields (name : String) (fields : Fields → Checked α) (es : List (Value × Value)) :
    ∃ f : Fields, readGroup name fields (.map es) = fields f ∧
      ∀ n, f.find? [n] = (Value.get? n es).map (n, ·) := by
  refine ⟨_, rfl, fun n => ?_⟩
  rw [Fields.find?, List.findSome?_cons, List.findSome?_nil]
  induction es with
  | nil => rfl
  | cons e es ih =>
    obtain ⟨k, v⟩ := e
    rw [Value.get?_cons]
    cases k with
    | str m =>
      rw [Value.same_str_str, List.filterMap_cons, Table.get?]
      by_cases hm : m = n
      · simp [hm]
      · simpa [hm] using ih
    | _ => simpa [Value.same] using ih

/-- A field with a default is read as one that may be missing. -/
theorem withDefault_eq_good {f : Fields} (hf : f.find? [n] = (Value.get? n es).map (n, ·)) :
    f.withDefault [n] usual read = .good a ↔ ReadsField es n usual read a := by
  rw [Fields.withDefault, hf, ReadsField]
  cases Value.get? n es with
  | none => simp [eq_comm]
  | some v => simp [Checked.under_eq_good]

/-- What is read of a field follows what may be there. -/
theorem ReadsField.alike {L : Value → Value → Value → Prop} {Q : α → α → Prop}
    (h : ReadsField es n usual read a) (hes : Alike L es es') (husual : Q usual usual)
    (hread : ∀ v v' a, L (.str n) v v' → read v = .good a → ∃ a', read v' = .good a' ∧ Q a a') :
    ∃ a', ReadsField es' n usual read a' ∧ Q a a' := by
  have hget := hes.get? n
  rcases h with ⟨hnone, rfl⟩ | ⟨v, hv, hgood⟩
  -- like entries have a key together or not at all
  · rw [hnone] at hget
    cases hnone' : Value.get? n es' with
    | none => exact ⟨_, .inl ⟨hnone', rfl⟩, husual⟩
    | some v' =>
      rw [hnone'] at hget
      cases hget
  · rw [hv] at hget
    cases hv' : Value.get? n es' with
    | none =>
      rw [hv'] at hget
      cases hget
    | some v' =>
      rw [hv'] at hget
      cases hget with
      | some hL =>
        obtain ⟨a', hgood', hQ⟩ := hread v v' a hL hgood
        exact ⟨a', .inr ⟨v', hv', hgood'⟩, hQ⟩

end Reading

variable {es es' : List (Value × Value)}

theorem of_read_group {α : Type} {name : String} {fields : Fields → Checked α} {v : Value} {a : α}
    (h : readGroup name fields v = .good a) : ∃ es, v = .map es := by
  cases v with
  | map es => exact ⟨es, rfl⟩
  | _ => cases h

/-- The settings for fetching are read field by field. -/
theorem read_fetch_eq_good {s : FetchSettings} : FetchSettings.read (.map es) = .good s ↔
    ReadsField es "timeout" FetchSettings.usual.timeout Reader.double s.timeout ∧
    ReadsField es "follow_redirects" FetchSettings.usual.followRedirects Reader.truth
      s.followRedirects ∧
    ReadsField es "verify_ssl" FetchSettings.usual.verifySsl Reader.truth s.verifySsl := by
  obtain ⟨f, hread, hf⟩ := exists_fields "FetchConfig" (fun f =>
    FetchSettings.mk <$> f.withDefault ["timeout"] FetchSettings.usual.timeout Reader.double
      <*> f.withDefault ["follow_redirects"] FetchSettings.usual.followRedirects Reader.truth
      <*> f.withDefault ["verify_ssl"] FetchSettings.usual.verifySsl Reader.truth) es
  rw [FetchSettings.read, hread]
  simp only [Checked.seq_eq_good, Checked.map_eq_good, withDefault_eq_good (hf _)]
  constructor
  · rintro ⟨_, v, ⟨_, f, ⟨x, hx, rfl⟩, hf, rfl⟩, hv, rfl⟩
    exact ⟨hx, hf, hv⟩
  · rintro ⟨hx, hf, hv⟩
    exact ⟨_, _, ⟨_, _, ⟨_, hx, rfl⟩, hf, rfl⟩, hv, rfl⟩

theorem read_output_eq_good {s : OutputSettings} : OutputSettings.read (.map es) = .good s ↔
    ReadsField es "format" OutputSettings.usual.format Reader.strictText s.format := by
  obtain ⟨f, hread, hf⟩ := exists_fields "OutputConfig" (fun f =>
    OutputSettings.mk <$> f.withDefault ["format"] OutputSettings.usual.format Reader.strictText) es
  rw [OutputSettings.read, hread]
  simp only [Checked.map_eq_good, withDefault_eq_good (hf _)]
  exact ⟨fun ⟨_, h, heq⟩ => heq ▸ h, fun h => ⟨_, h, rfl⟩⟩

/-- Settings are read group by group. -/
theorem read_eq_good : Settings.read (.map es) = .good c ↔
    ReadsField es "fetch" FetchSettings.usual FetchSettings.read c.fetch ∧
    ReadsField es "output" OutputSettings.usual OutputSettings.read c.output := by
  obtain ⟨f, hread, hf⟩ := exists_fields "GlobalConfig" (fun f =>
    Settings.mk <$> f.withDefault ["fetch"] FetchSettings.usual FetchSettings.read
      <*> f.withDefault ["output"] OutputSettings.usual OutputSettings.read) es
  have hunfold : Settings.read (.map es) = readGroup "GlobalConfig" (fun f =>
    Settings.mk <$> f.withDefault ["fetch"] FetchSettings.usual FetchSettings.read
      <*> f.withDefault ["output"] OutputSettings.usual OutputSettings.read) (.map es) := rfl
  rw [hunfold, hread]
  simp only [Checked.seq_eq_good, Checked.map_eq_good, withDefault_eq_good (hf _)]
  constructor
  · rintro ⟨_, o, ⟨x, hx, rfl⟩, ho, rfl⟩
    exact ⟨hx, ho⟩
  · rintro ⟨hx, ho⟩
    exact ⟨_, _, ⟨_, hx, rfl⟩, ho, rfl⟩

/-! ## What a change of the user's settings does to those in effect -/

theorem exists_read_fetch {v v' : Value} {s : FetchSettings} {k : Value} (h : GroupLike k v v')
    (hread : FetchSettings.read v = .good s) : ∃ s', FetchSettings.read v' = .good s' := by
  cases h with
  | same => exact ⟨s, hread⟩
  | group hes =>
    obtain ⟨htimeout, hfollow, hverify⟩ := read_fetch_eq_good.mp hread
    -- a leaf keeps its kind: a number for the timeout, a truth for the others
    have hdouble : ∀ v v' a, LeafLike (.str "timeout") v v' → Reader.double v = .good a →
        ∃ a', Reader.double v' = .good a' ∧ True := by
      intro v v' a hlike hgood
      cases hlike with
      | same => exact ⟨a, hgood, trivial⟩
      | timeout x y => exact ⟨y, rfl, trivial⟩
      | truth b b' hk => simp at hk
      | format f g hk => simp at hk
    have htruth : ∀ n, n ≠ "timeout" → n ≠ "format" → ∀ v v' a, LeafLike (.str n) v v' →
        Reader.truth v = .good a → ∃ a', Reader.truth v' = .good a' ∧ True := by
      intro n hn hn' v v' a hlike hgood
      cases hlike with
      | same => exact ⟨a, hgood, trivial⟩
      | timeout x y hk => exact absurd (Value.str.inj hk) hn
      | truth b b' => exact ⟨b', rfl, trivial⟩
      | format f g hk => exact absurd (Value.str.inj hk) hn'
    obtain ⟨x, hx, -⟩ := htimeout.alike hes trivial hdouble
    obtain ⟨f, hf, -⟩ := hfollow.alike hes trivial (htruth _ (by decide) (by decide))
    obtain ⟨v, hv, -⟩ := hverify.alike hes trivial (htruth _ (by decide) (by decide))
    exact ⟨⟨x, f, v⟩, read_fetch_eq_good.mpr ⟨hx, hf, hv⟩⟩

theorem exists_read_output {v v' : Value} {s : OutputSettings} {k : Value} (h : GroupLike k v v')
    (hread : OutputSettings.read v = .good s) :
    ∃ s', OutputSettings.read v' = .good s' ∧ FollowsFormat s.format s'.format := by
  cases h with
  | same => exact ⟨s, hread, id⟩
  | group hes =>
    obtain ⟨f, hf, hfollows⟩ := (read_output_eq_good.mp hread).alike (Q := FollowsFormat) hes id (by
      intro v v' a hlike hgood
      cases hlike with
      | same => exact ⟨a, hgood, id⟩
      | timeout x y hk => simp at hk
      | truth b b' hk => simp at hk
      | format f g hk h =>
        cases hgood
        exact ⟨g, rfl, h⟩)
    exact ⟨⟨f⟩, read_output_eq_good.mpr hf, hfollows⟩

/-- The entries of all layers. -/
def layers (user : Settings) (project : Option (List (Value × Value))) (environment : Table String)
    (o : Overrides) : Except Error (List (Value × Value)) :=
  withVariables environment
    ((project.map (overlayEntries user.entries)).getD user.entries) >>= o.apply

/-- Merging lays the sources over each other and reads what comes of it. -/
theorem merge_eq_ok {user : Settings} {project : Option (List (Value × Value))}
    {environment : Table String} : merge user project environment o = .ok c ↔
      ∃ es, layers user project environment o = .ok es ∧ Settings.read (.map es) = .good c := by
  -- with a project or without, the layers are laid first and read in the end
  have hrun : merge user project environment o = (do
      let es ← withVariables environment
        ((project.map (overlayEntries user.entries)).getD user.entries)
      let es ← o.apply es
      ofValue (fun words => .config ("Invalid configuration: " ++ words)) (.map es)) := by
    cases project <;> rfl
  have hvalue : ∀ es,
      ofValue (fun words => .config ("Invalid configuration: " ++ words)) (.map es) = .ok c ↔
        Settings.read (.map es) = .good c := by
    intro es
    rw [ofValue]
    split
    · next h => simp [h]
    · next h => simp [h]
  simp only [hrun, layers, bind_eq_ok, hvalue]
  constructor
  · rintro ⟨es, hes, es', hes', hread⟩
    exact ⟨es', ⟨es, hes, hes'⟩, hread⟩
  · rintro ⟨es', ⟨es, hes, hes'⟩, hread⟩
    exact ⟨es, hes, es', hes', hread⟩

/-- If the layers can be laid over the settings of one user, they can be over those of another. -/
theorem exists_layers {user user' : Settings} {project : Option (List (Value × Value))}
    {environment : Table String} {es : List (Value × Value)}
    (hformat : user.KnowsFormat → user'.KnowsFormat)
    (h : layers user project environment o = .ok es) :
    ∃ es', layers user' project environment o = .ok es' ∧ Alike GroupLike es es' := by
  have hlaid : Alike GroupLike ((project.map (overlayEntries user.entries)).getD user.entries)
      ((project.map (overlayEntries user'.entries)).getD user'.entries) := by
    cases project with
    | none => exact entries_alike hformat
    | some given =>
      exact (entries_alike hformat).overlayEntries (fun _ => .same) GroupLike.overlay given
  -- two variables, and two settings of the command
  obtain ⟨es₁, hvariables, happly⟩ := bind_eq_ok.mp h
  obtain ⟨timeout, htimeout, hvariables⟩ := bind_eq_ok.mp hvariables
  obtain ⟨es₂, hassign, hvariables⟩ := bind_eq_ok.mp hvariables
  obtain ⟨es₃, happly, hrest⟩ := bind_eq_ok.mp happly
  obtain ⟨r₂, hr₂, hlike₂⟩ := exists_assign? hlaid hassign
  obtain ⟨r₁, hr₁, hlike₁⟩ := exists_assign? hlike₂ hvariables
  obtain ⟨r₃, hr₃, hlike₃⟩ := exists_assign? hlike₁ happly
  obtain ⟨r, hr, hlike⟩ := exists_assign? hlike₃ hrest
  refine ⟨r, bind_eq_ok.mpr ⟨r₁, bind_eq_ok.mpr ⟨timeout, htimeout, bind_eq_ok.mpr
    ⟨r₂, hr₂, hr₁⟩⟩, bind_eq_ok.mpr ⟨r₃, hr₃, hr⟩⟩, hlike⟩

/-- **Other settings of the user are accepted like the old ones,** whatever is laid over them, if
they name a format. -/
theorem exists_merge {user user' : Settings} {project : Option (List (Value × Value))}
    {environment : Table String} (hformat : user.KnowsFormat → user'.KnowsFormat)
    (h : merge user project environment o = .ok c) (hc : c.KnowsFormat) :
    ∃ c', merge user' project environment o = .ok c' ∧ c'.KnowsFormat := by
  obtain ⟨es, hlayers, hread⟩ := merge_eq_ok.mp h
  obtain ⟨es', hlayers', hlike⟩ := exists_layers hformat hlayers
  obtain ⟨hfetch, houtput⟩ := read_eq_good.mp hread
  obtain ⟨fetch, hfetch', -⟩ := hfetch.alike (Q := fun _ _ => True) hlike trivial
    fun _ _ _ hgroup hgood => (exists_read_fetch hgroup hgood).imp fun _ h => ⟨h, trivial⟩
  obtain ⟨output, houtput', hfollows⟩ :=
    houtput.alike (Q := fun (a b : OutputSettings) => FollowsFormat a.format b.format) hlike id
      fun _ _ _ hgroup hgood => exists_read_output hgroup hgood
  exact ⟨⟨fetch, output⟩, merge_eq_ok.mpr ⟨es', hlayers', read_eq_good.mpr ⟨hfetch', houtput'⟩⟩,
    hfollows hc⟩

end Raml.Settings
