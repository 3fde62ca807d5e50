import Raml.Merge.Application
import Raml.Proofs.Shape.Expression
import Raml.Proofs.Template.Fill

/-!
# Instantiating the type of a template

The type of a template is read before its placeholders are filled in. What was read is then written
out, filled in and read again. `fill_render` follows the parts of an expression to say when that
gives what the text filled in would have given.

What can go wrong is the parentheses: reading drops them, and writing puts back only those around a
union that is known to be one. A placeholder in parentheses is none, whatever it becomes
(`list_of_union_broken`).
-/

namespace Raml

open Template (NoAngle fill segments Segment Dictionary)
open Text (isBlank dropAround dropStart)

namespace Shape

/-- What the innermost elements of an array are; any other shape is its own core. -/
def core : Shape → Shape
  | .array element => element.core
  | s => s

/-- Whether a shape is the text of a schema. -/
def isSchemaText : Shape → Bool
  | .scalar text => isSchema text.toList
  | _ => false

namespace Expression

/-- Whether the parentheses of a text match, beginning at a depth. -/
def matchesFrom (depth : Int) : List Char → Bool
  | [] => depth == 0
  | c :: cs => decide (0 ≤ deeper depth c) && matchesFrom (deeper depth c) cs

/-- Whether the parentheses of a text match. -/
def isMatched (cs : List Char) : Bool := matchesFrom 0 cs

/-- Whether a pair of parentheses with nothing but blanks in it stands in a text. -/
def hasBlankPair : List Char → Bool
  | [] => false
  | c :: cs => (c == '(' && (dropStart isBlank cs).head? == some ')') || hasBlankPair cs

/-- Whether the parentheses match inside a placeholder and in what it becomes. -/
def holeMatches (d : Dictionary) : Segment → Bool
  | .char _ => true
  | .hole inner => isMatched inner &&
    match (Segment.hole inner).fill d with
    | .ok v => isMatched v
    | .error _ => true

/-- Whether the parentheses match inside every placeholder of a text and in what it becomes. -/
def HolesMatch (d : Dictionary) (cs : List Char) : Prop :=
  ∀ s ∈ segments cs, holeMatches d s = true

instance (d : Dictionary) (cs : List Char) : Decidable (HolesMatch d cs) :=
  inferInstanceAs (Decidable (∀ s ∈ segments cs, holeMatches d s = true))

variable {d : Dictionary}

/-! ## What filling in leaves alone -/

theorem noAngle_of_blanks {cs : List Char} (h : IsBlanks cs) : NoAngle cs := by
  constructor <;> intro hmem <;> exact absurd (h _ hmem) (by decide)

theorem deeper_add (base depth : Int) (c : Char) :
    deeper (base + depth) c = base + deeper depth c := by
  unfold deeper
  grind

/-- Matching parentheses, wherever they stand, lead back to the depth before them. -/
theorem staysOpen_of_matches {base depth : Int} {cs : List Char} (hb : 1 ≤ base)
    (h : matchesFrom depth cs = true) :
    staysOpen (base + depth) cs = true ∧ depthAfter (base + depth) cs = base := by
  induction cs generalizing depth with
  | nil =>
    have hdepth : depth = 0 := by simpa [matchesFrom] using h
    exact ⟨rfl, by simp [depthAfter, hdepth]⟩
  | cons c cs ih =>
    simp only [matchesFrom, Bool.and_eq_true, decide_eq_true_eq] at h
    obtain ⟨hopen, hafter⟩ := ih h.2
    rw [← deeper_add] at hopen hafter
    refine ⟨?_, hafter⟩
    rw [staysOpen, hopen, Bool.and_true]
    have hc := h.1
    unfold deeper at hc
    grind

/-- The text of a placeholder is matched as its inside is. -/
theorem isMatched_source {inner : List Char} (h : isMatched inner = true) :
    isMatched (Segment.hole inner).source = true := by
  have hafter : ∀ (cs : List Char) (depth : Int), 0 ≤ depth → matchesFrom depth cs = true →
      matchesFrom depth (cs ++ ['>', '>']) = true := by
    intro cs
    induction cs with
    | nil =>
      intro depth _ hcs
      have hdepth : depth = 0 := by simpa [matchesFrom] using hcs
      subst hdepth
      decide
    | cons c cs ih =>
      intro depth _ hcs
      simp only [List.cons_append, matchesFrom, Bool.and_eq_true, decide_eq_true_eq] at hcs ⊢
      exact ⟨hcs.1, ih _ hcs.1 hcs.2⟩
  have hinner := hafter inner 0 (Int.le_refl 0) h
  simpa [isMatched, Segment.source, matchesFrom, deeper] using hinner

/-- Filling in matching placeholders leaves parentheses open that were so before. -/
theorem staysOpen_fill {cs u : List Char} (h : HolesMatch d cs) (hu : fill d cs = .ok u)
    {depth : Int} (hd : 1 ≤ depth) (hs : staysOpen depth cs = true) :
    staysOpen depth u = true := by
  rw [← Template.ofSegments_segments cs] at hs
  rw [fill] at hu
  unfold HolesMatch at h
  generalize segments cs = ss at h hu hs
  induction ss generalizing depth u with
  | nil =>
    cases hu
    rfl
  | cons s ss ih =>
    rw [Template.fillAll] at hu
    obtain ⟨here, hhere, hu⟩ := bind_eq_ok.mp hu
    obtain ⟨there, hthere, hu⟩ := bind_eq_ok.mp hu
    cases pure_eq_ok.mp hu
    rw [List.flatMap_cons, staysOpen_append, Bool.and_eq_true] at hs
    -- both texts of a segment stay open and lead to one depth
    have hsame : staysOpen depth here = true ∧
        depthAfter depth here = depthAfter depth s.source := by
      cases s with
      | char c =>
        cases hhere
        exact ⟨hs.1, rfl⟩
      | hole inner =>
        have hhole := h _ (List.mem_cons_self ..)
        rw [holeMatches, hhere, Bool.and_eq_true] at hhole
        have hsource := staysOpen_of_matches hd (isMatched_source hhole.1)
        have hvalue := staysOpen_of_matches hd hhole.2
        rw [Int.add_zero] at hsource hvalue
        exact ⟨hvalue.1, hvalue.2.trans hsource.2.symm⟩
    rw [staysOpen_append, hsame.1, Bool.true_and, hsame.2]
    exact ih (one_le_depthAfter hd hs.1) (fun s hmem => h s (List.mem_cons_of_mem _ hmem))
      hthere hs.2

/-- An expression that is no schema begins with a character that stays when it is filled in. -/
theorem isSchema_fill {cs u : List Char} (h : isSchema cs = false) (hu : fill d cs = .ok u) :
    isSchema u = false := by
  have ha : ∀ c ∈ cs.takeWhile isBlank, isBlank c = true := fun c hc => List.mem_takeWhile_imp hc
  have hcs : cs = cs.takeWhile isBlank ++ dropStart isBlank cs :=
    List.takeWhile_append_dropWhile.symm
  -- what a text is shows in its first character that is no blank; it is no bracket here, so it
  -- stays
  cases hstart : dropStart isBlank cs with
  | nil =>
    have hblank := Text.dropStart_eq_nil.mp hstart
    rw [Template.fill_of_noAngle (noAngle_of_blanks hblank)] at hu
    cases hu
    exact h
  | cons c rest =>
    have hhead : (dropStart isBlank cs).head? = some c := by rw [hstart]; rfl
    have hc : c ≠ '\x7b' ∧ c ≠ '<' := by
      rw [← Bool.not_eq_true, isSchema_iff, hhead] at h
      simpa using h
    rw [hcs, hstart, Template.fill_append (noAngle_of_blanks ha)] at hu
    obtain ⟨v, hv, rfl⟩ := map_eq_ok.mp hu
    rw [Template.fill_cons hc.2] at hv
    obtain ⟨v', -, rfl⟩ := map_eq_ok.mp hv
    have hblank : isBlank c = false := Text.of_head?_dropStart hhead
    rw [isSchema_append ha, ← Bool.not_eq_true, isSchema_iff, Text.dropStart_of_head hblank]
    simpa using hc

/-- Texts without brackets around another do not matter for its holes. -/
theorem HolesMatch.between {a b cs : List Char} (ha : NoAngle a) (hb : NoAngle b) :
    HolesMatch d (a ++ cs ++ b) ↔ HolesMatch d cs := by
  have hchars : ∀ xs : List Char, ∀ s ∈ xs.map Segment.char, holeMatches d s = true := by
    intro xs s hs
    obtain ⟨c, -, rfl⟩ := List.mem_map.mp hs
    rfl
  rw [HolesMatch, Template.segments_append hb, Template.segments_append_left ha,
    List.forall_mem_append, List.forall_mem_append]
  exact ⟨fun h => h.1.2, fun h => ⟨⟨hchars a, h⟩, hchars b⟩⟩

/-! ### Around the parts of an expression -/

section Around

variable {a b : List Char} (ha : IsBlanks a) (hb : IsBlanks b) (cs : List Char)
include ha hb

theorem holesMatch_blanks : HolesMatch d (a ++ cs ++ b) ↔ HolesMatch d cs :=
  HolesMatch.between (noAngle_of_blanks ha) (noAngle_of_blanks hb)

theorem holesMatch_array : HolesMatch d (a ++ (cs ++ ['[', ']']) ++ b) ↔ HolesMatch d cs :=
  (holesMatch_blanks ha hb _).trans (HolesMatch.between (a := []) (by decide) (by decide))

theorem holesMatch_wrapped : HolesMatch d (a ++ ('(' :: cs ++ [')']) ++ b) ↔ HolesMatch d cs :=
  (holesMatch_blanks ha hb _).trans (HolesMatch.between (a := ['(']) (by decide) (by decide))

theorem fill_blanks : fill d (a ++ cs ++ b) = (fill d cs).map fun u => a ++ u ++ b :=
  Template.fill_between (noAngle_of_blanks ha) (noAngle_of_blanks hb) cs

/-- Filling in an array is filling in its elements. -/
theorem fill_array : fill d (a ++ (cs ++ ['[', ']']) ++ b) =
    (fill d cs).map fun u => a ++ (u ++ ['[', ']']) ++ b := by
  rw [fill_blanks ha hb, Template.fill_append_right (by decide)]
  cases fill d cs <;> rfl

theorem fill_wrapped : fill d (a ++ ('(' :: cs ++ [')']) ++ b) =
    (fill d cs).map fun u => a ++ ('(' :: u ++ [')']) ++ b := by
  rw [fill_blanks ha hb, ← List.singleton_append (x := '('),
    Template.fill_between (by decide) (by decide)]
  cases fill d cs <;> rfl

end Around

/-! ## The text of what is read -/

/-- A union is put in parentheses before it is printed as the element of an array. -/
theorem toList_render_array (element : Shape) :
    (render (.array element)).toList =
      if element.isUnion then '(' :: element.render.toList ++ [')'] ++ ['[', ']']
      else element.render.toList ++ ['[', ']'] := by
  rw [render]
  split <;> simp

/-- The text of an array around the text of its element. -/
theorem render_array (element : Shape) : ∃ before after, NoAngle before ∧ NoAngle after ∧
    (render (.array element)).toList = before ++ element.render.toList ++ after := by
  rw [toList_render_array]
  split
  · exact ⟨['('], [')', '[', ']'], by decide, by decide, by simp⟩
  · exact ⟨[], ['[', ']'], by decide, by decide, rfl⟩

/-- The text of what is read has the placeholders of the expression. -/
theorem HolesMatch.render {cs : List Char} (h : HolesMatch d cs) :
    HolesMatch d (ofChars cs).render.toList := by
  induction cs using ofChars_cases with
  | schema cs _ hread => rwa [hread, Shape.render, String.toList_ofList]
  | array a cs b ha hb _ _ hread ih =>
    obtain ⟨before, after, hbefore, hafter, hrender⟩ := render_array (ofChars cs)
    rw [hread, hrender, HolesMatch.between hbefore hafter]
    exact ih ((holesMatch_array ha hb cs).mp h)
  | wrapped a cs b ha hb _ hread ih =>
    rw [hread]
    exact ih ((holesMatch_wrapped ha hb cs).mp h)
  | name a cs b ha hb _ hname =>
    rw [hname.render, String.toList_ofList]
    exact (holesMatch_blanks ha hb cs).mp h

/-- What goes wrong when an expression is filled in goes wrong with what is read, too. -/
theorem fill_render_error {cs : List Char} {f : Template.Fault} (h : fill d cs = .error f) :
    fill d (ofChars cs).render.toList = .error f := by
  induction cs using ofChars_cases with
  | schema cs _ hread => rwa [hread, Shape.render, String.toList_ofList]
  | array a cs b ha hb _ _ hread ih =>
    obtain ⟨before, after, hbefore, hafter, hrender⟩ := render_array (ofChars cs)
    rw [fill_array ha hb, map_eq_error] at h
    rw [hread, hrender, Template.fill_between hbefore hafter, map_eq_error]
    exact ih h
  | wrapped a cs b ha hb _ hread ih =>
    rw [fill_wrapped ha hb, map_eq_error] at h
    rw [hread]
    exact ih h
  | name a cs b ha hb _ hname =>
    rw [fill_blanks ha hb, map_eq_error] at h
    rwa [hname.render, String.toList_ofList]

/-- The text of a union that no bar outside parentheses makes was held by parentheses. -/
theorem staysOpen_render {cs : List Char} (hu : (ofChars cs).isUnion = true)
    (h : hasUnion cs = false ∨ staysOpen 1 cs = true) :
    staysOpen 1 (ofChars cs).render.toList = true := by
  induction cs using ofChars_cases with
  | schema cs _ hread =>
    rw [hread] at hu
    cases hu
  | array a cs b _ _ _ _ hread _ =>
    rw [hread] at hu
    cases hu
  | wrapped a cs b _ _ hopen hread ih =>
    rw [hread] at hu ⊢
    exact ih hu (.inr hopen)
  | name a cs b ha hb _ hname =>
    rw [hname.render, String.toList_ofList]
    cases h with
    | inl hnone =>
      rw [hasUnion_blanks ha hb, ← hname.isUnion, hu] at hnone
      cases hnone
    | inr hopen =>
      -- a name holds no parenthesis, so the blanks before it keep the depth
      have ha' : ∀ c ∈ a, isNeutral c = true := fun c hc => isNeutral_of_isBlank (ha c hc)
      rw [staysOpen_append, staysOpen_append, depthAfter_of_neutral ha', Bool.and_eq_true,
        Bool.and_eq_true] at hopen
      exact hopen.1.2

/-- Parentheses around a union still hold it when it is filled in. -/
theorem hasUnion_fill {cs u : List Char} (h : HolesMatch d cs) (hu : fill d cs = .ok u)
    (hunion : (ofChars cs).isUnion = true) (hnone : hasUnion cs = false) :
    hasUnion u = false := by
  cases cs using ofChars_cases with
  | schema cs _ hread =>
    rw [hread] at hunion
    cases hunion
  | array a cs b _ _ _ _ hread _ =>
    rw [hread] at hunion
    cases hunion
  | wrapped a cs b ha hb hopen _ _ =>
    rw [fill_wrapped ha hb] at hu
    obtain ⟨v, hv, rfl⟩ := map_eq_ok.mp hu
    have hopen' := staysOpen_fill ((holesMatch_wrapped ha hb cs).mp h) hv (by decide) hopen
    rw [hasUnion_blanks ha hb]
    exact hasUnion_wrapped hopen'
  | name a cs b ha hb _ hname =>
    rw [hname.isUnion, ← hasUnion_blanks ha hb, hnone] at hunion
    cases hunion

/-- A text without a pair of blanks has none in its parts. -/
theorem hasBlankPair_append {xs ys : List Char} (h : hasBlankPair (xs ++ ys) = false) :
    hasBlankPair xs = false ∧ hasBlankPair ys = false := by
  induction xs with
  | nil => exact ⟨rfl, h⟩
  | cons x xs ih =>
    rw [List.cons_append, hasBlankPair, Bool.or_eq_false_iff] at h
    refine ⟨?_, (ih h.2).2⟩
    rw [hasBlankPair, (ih h.2).1, Bool.or_false]
    by_cases hnil : dropStart isBlank xs = []
    · rw [hnil]
      simp
    · have hhead := h.1
      rwa [Text.head?_dropStart_append hnil] at hhead

/-- Parentheses hold more than blanks if no pair of them is blank. -/
theorem hasBlankPair_wrapped {a cs b : List Char}
    (h : hasBlankPair (a ++ ('(' :: cs ++ [')']) ++ b) = false) :
    hasBlankPair cs = false ∧ ¬ IsBlanks cs := by
  have hpair := (hasBlankPair_append (hasBlankPair_append h).1).2
  rw [List.cons_append, hasBlankPair, Bool.or_eq_false_iff] at hpair
  refine ⟨(hasBlankPair_append hpair.2).1, fun hblanks => ?_⟩
  have hhead := hpair.1
  rw [Text.dropStart_append hblanks] at hhead
  exact absurd hhead (by decide)

/-! ## Filling in the text of what is read -/

/-- Whether the innermost elements of a shape are neither a union nor the text of a schema. -/
def IsPlain (s : Shape) : Prop := s.core.isUnion = false ∧ s.core.isSchemaText = false

/-- Whether the innermost elements of the second shape are plain, if the first is an array of
elements that are no union. -/
def StaysPlain (s s' : Shape) : Prop :=
  s.isArray = true → s.core.isUnion = false → IsPlain s'

theorem StaysPlain.of_isUnion {s s' : Shape} (h : s.core.isUnion = true) : StaysPlain s s' := by
  intro _ hnone
  rw [h] at hnone
  cases hnone

/-- A union is one to its core. -/
theorem core_of_isUnion {s : Shape} (h : s.isUnion = true) : s.core.isUnion = true := by
  cases s with
  | reference name => exact h
  | _ => cases h

theorem isArray_of_core {s : Shape} (hnone : s.isUnion = false) (h : s.core.isUnion = true) :
    s.isArray = true := by
  cases s with
  | array element => rfl
  | _ => cases hnone.symm.trans h

/-- An expression can be given a suffix if what is read is an array or plain. -/
theorem suffix_of_isPlain {cs : List Char}
    (h : (ofChars cs).isArray = true ∨ IsPlain (ofChars cs)) :
    isSchema cs = false ∧ hasUnion cs = false := by
  have hschema : isSchema cs = false := by
    rw [← Bool.not_eq_true]
    intro hschema
    rw [ofChars_of_isSchema hschema] at h
    simp [isArray, IsPlain, core, isSchemaText, hschema] at h
  refine ⟨hschema, ?_⟩
  rw [← Bool.not_eq_true]
  intro hunion
  rw [ofChars_union hschema hunion] at h
  simp [isArray, IsPlain, core, isUnion, hasUnion_dropAround, hunion] at h

/-- A suffix after a union makes an array of it, and in the text of the array the parentheses that
were dropped stand again. -/
theorem fill_suffix_of_isUnion {cs v w : List Char} (h : HolesMatch d cs) (hv : fill d cs = .ok v)
    (hschema : isSchema cs = false) (hnone : hasUnion cs = false)
    (hunion : (ofChars cs).isUnion = true) (hw : fill d (ofChars cs).render.toList = .ok w)
    (hread : ofChars w = ofChars v) :
    ofChars (v ++ ['[', ']']) = .array (ofChars v) ∧
      ∃ x, fill d (render (.array (ofChars cs))).toList = .ok (x ++ ['[', ']']) ∧
        ofChars (x ++ ['[', ']']) = .array (ofChars v) := by
  have hopen := staysOpen_fill h.render hw (by decide) (staysOpen_render hunion (.inl hnone))
  have hwrapped : hasUnion ('(' :: w ++ [')']) = false := hasUnion_wrapped hopen
  refine ⟨ofChars_array (isSchema_fill hschema hv) (hasUnion_fill h hv hunion hnone),
    '(' :: w ++ [')'], ?_, ?_⟩
  · rw [toList_render_array, if_pos hunion, Template.fill_append_right (by decide),
      ← List.singleton_append (x := '('), Template.fill_between (by decide) (by decide), hw]
    rfl
  · rw [ofChars_array rfl hwrapped, ofChars_wrapped hopen, hread]

/-- A suffix after what is an array or plain makes an array of it, and so it does after the text of
what is read. -/
theorem fill_suffix_of_isPlain {cs v w : List Char} (hunion : (ofChars cs).isUnion = false)
    (hplain : (ofChars v).isArray = true ∨ IsPlain (ofChars v))
    (hw : fill d (ofChars cs).render.toList = .ok w) (hread : ofChars w = ofChars v) :
    ofChars (v ++ ['[', ']']) = .array (ofChars v) ∧
      ∃ x, fill d (render (.array (ofChars cs))).toList = .ok (x ++ ['[', ']']) ∧
        ofChars (x ++ ['[', ']']) = .array (ofChars v) := by
  obtain ⟨hvschema, hvnone⟩ := suffix_of_isPlain hplain
  obtain ⟨hwschema, hwnone⟩ := suffix_of_isPlain (hread ▸ hplain)
  refine ⟨ofChars_array hvschema hvnone, w, ?_, ?_⟩
  · rw [toList_render_array, hunion, if_neg Bool.false_ne_true,
      Template.fill_append_right (by decide), hw]
    rfl
  · rw [ofChars_array hwschema hwnone, hread]

/-- A suffix makes an array of what is read, and so it does after the text of what is read. -/
theorem fill_suffix {cs v : List Char} (h : HolesMatch d cs) (hv : fill d cs = .ok v)
    (hschema : isSchema cs = false) (hnone : hasUnion cs = false)
    (hplain : StaysPlain (.array (ofChars cs)) (ofChars (v ++ ['[', ']'])))
    (ih : StaysPlain (ofChars cs) (ofChars v) → ∃ w, fill d (ofChars cs).render.toList = .ok w ∧
      ofChars w = ofChars v ∧ ((ofChars cs).isArray = true → (ofChars v).isArray = true)) :
    ofChars (v ++ ['[', ']']) = .array (ofChars v) ∧
      ∃ x, fill d (render (.array (ofChars cs))).toList = .ok (x ++ ['[', ']']) ∧
        ofChars (x ++ ['[', ']']) = .array (ofChars v) := by
  cases hunion : (ofChars cs).isUnion with
  | true =>
    obtain ⟨w, hw, hreadw, -⟩ := ih (.of_isUnion (core_of_isUnion hunion))
    exact fill_suffix_of_isUnion h hv hschema hnone hunion hw hreadw
  | false =>
    cases hcore : (ofChars cs).core.isUnion with
    | true =>
      -- an array of unions, and it stays an array
      obtain ⟨w, hw, hreadw, harray⟩ := ih (.of_isUnion hcore)
      exact fill_suffix_of_isPlain hunion (.inl (harray (isArray_of_core hunion hcore))) hw hreadw
    | false =>
      have hplain' : IsPlain (ofChars v) := by
        have hall := hplain rfl hcore
        have hvnone := (suffix_of_isPlain (.inr hall)).2
        rw [hasUnion_suffix] at hvnone
        rwa [ofChars_array (isSchema_fill hschema hv) hvnone] at hall
      obtain ⟨w, hw, hreadw, -⟩ := ih fun _ _ => hplain'
      exact fill_suffix_of_isPlain hunion (.inr hplain') hw hreadw

/-- The text of what is read, filled in, is read like the expression filled in. That an array stays
one and that no text becomes blank is what the parts of an expression hand on. -/
theorem fill_render {cs u : List Char} (h : HolesMatch d cs) (hu : fill d cs = .ok u)
    (hplain : StaysPlain (ofChars cs) (ofChars u)) :
    ∃ w, fill d (ofChars cs).render.toList = .ok w ∧ ofChars w = ofChars u ∧
      ((ofChars cs).isArray = true → (ofChars u).isArray = true) ∧
      (hasBlankPair u = false → (IsBlanks w ↔ IsBlanks u)) := by
  induction cs using ofChars_cases generalizing u with
  | schema cs _ hread =>
    rw [hread, Shape.render, String.toList_ofList]
    exact ⟨u, hu, rfl, nofun, fun _ => Iff.rfl⟩
  | array a cs b ha hb hschema hnone hread ih =>
    rw [holesMatch_array ha hb] at h
    rw [fill_array ha hb] at hu
    obtain ⟨v, hv, rfl⟩ := map_eq_ok.mp hu
    rw [hread, ofChars_blanks ha hb (isSchema_suffix (isSchema_fill hschema hv))] at hplain ⊢
    have hsuffix := fill_suffix h hv hschema hnone hplain fun hplain' => by
      obtain ⟨w, hw, hreadw, harray, -⟩ := ih h hv hplain'
      exact ⟨w, hw, hreadw, harray⟩
    obtain ⟨hreadu, x, hx, hreadx⟩ := hsuffix
    -- what ends in a suffix is not blank
    have hblank : ∀ {w : List Char}, ']' ∈ w → ¬ IsBlanks w := fun hmem hall =>
      absurd (hall _ hmem) (by decide)
    exact ⟨x ++ ['[', ']'], hx, hreadx.trans hreadu.symm, fun _ => by rw [hreadu]; rfl,
      fun _ => iff_of_false (hblank (by simp)) (hblank (by simp))⟩
  | wrapped a cs b ha hb hopen hread ih =>
    rw [holesMatch_wrapped ha hb] at h
    rw [fill_wrapped ha hb] at hu
    obtain ⟨v, hv, rfl⟩ := map_eq_ok.mp hu
    have hreadu : ofChars (a ++ ('(' :: v ++ [')']) ++ b) = ofChars v := by
      rw [ofChars_blanks ha hb rfl, ofChars_wrapped (staysOpen_fill h hv (by decide) hopen)]
    rw [hread, hreadu] at hplain ⊢
    obtain ⟨w, hw, hreadw, harray, hblank⟩ := ih h hv hplain
    refine ⟨w, hw, hreadw, harray, fun hpair => ?_⟩
    obtain ⟨hpair', hv'⟩ := hasBlankPair_wrapped hpair
    refine iff_of_false (fun hall => hv' ((hblank hpair').mp hall)) fun hall => ?_
    exact absurd (hall '(' (by simp)) (by decide)
  | name a cs b ha hb hschema hname =>
    rw [fill_blanks ha hb] at hu
    obtain ⟨v, hv, rfl⟩ := map_eq_ok.mp hu
    rw [hname.render, hname.isArray, String.toList_ofList]
    refine ⟨v, hv, (ofChars_blanks ha hb (isSchema_fill hschema hv)).symm, nofun, fun _ => ?_⟩
    rw [IsBlanks, IsBlanks, List.forall_mem_append, List.forall_mem_append]
    exact ⟨fun hall => ⟨⟨ha, hall⟩, hb⟩, fun hall => hall.1.2⟩

/-! ## The node of what is read -/

/-- A type expression is never an inline declaration. -/
theorem ofChars_not_isInline (cs : List Char) : (ofChars cs).isInline = false := by
  fun_induction ofChars cs with
  | case3 cs _ _ _ _ ih => exact ih
  | _ => rfl

/-- A type expression is written as the text that it is printed as. -/
theorem toValue_ofChars (cs : List Char) : (ofChars cs).toValue = .str (ofChars cs).render := by
  fun_induction ofChars cs with
  | case2 cs _ expr _ _ => rw [toValue, ofChars_not_isInline, if_neg Bool.false_ne_true]
  | case3 cs _ _ _ _ ih => exact ih
  | _ => rw [toValue, render]

theorem ofValue_str (s : String) :
    ofValue (.str s) = .ok (if Text.allBlank s then .empty else ofText s) := rfl

theorem allBlank_iff {s : String} : Text.allBlank s = true ↔ IsBlanks s.toList := by
  rw [Text.allBlank, List.all_eq_true]

end Expression

open Expression

variable {app : Application}

/-- Without an alias, a template fills in a shape by its value and reads it again. -/
theorem shape_none_some (happ : app.aliasName? = none) (s : Shape) :
    app.shape none (some s) = do
      let v ← app.value s.toValue
      let r ← (ofValue v).mapError Error.shape
      return some r := by
  rw [Application.shape, Application.instantiate]
  cases app.value s.toValue with
  | error e => rfl
  | ok v =>
    cases hv : (ofValue v).mapError Error.shape with
    | error e => simp [hv, bind, Except.bind, Except.map]
    | ok r => simp [hv, bind, Except.bind, pure, Except.pure, Except.map, Application.qualify, happ]

theorem value_str (s : String) : app.value (.str s) =
    (Application.filled (fill app.dictionary s.toList)).map fun u => .str (String.ofList u) := by
  rw [Application.value, Template.expand, Template.instantiate_eq]
  cases fill app.dictionary s.toList <;> rfl

/-- Reading a type and filling in its placeholders can be done in either order, errors included, if
the parentheses match wherever a text is filled in, no two of them stand side by side in what comes
out, and the elements of an array stay elements that need no parentheses. -/
theorem shape_ofValue_eq_ofValue_value {t : String} (happ : app.aliasName? = none)
    (ht : Text.allBlank t = false) (hmatch : HolesMatch app.dictionary t.toList)
    (hfilled : ∀ u, Template.instantiate app.dictionary t = .ok u →
      hasBlankPair u.toList = false ∧ StaysPlain (ofText t) (ofText u)) :
    (do
      let s ← (ofValue (.str t)).mapError Error.shape
      app.shape none (some s)) =
    (do
      let v ← app.value (.str t)
      let s ← (ofValue v).mapError Error.shape
      return some s) := by
  have hread : (ofValue (.str t)).mapError Error.shape = .ok (ofText t) := by
    rw [ofValue_str, ht]
    rfl
  rw [hread]
  change app.shape none (some (ofText t)) = _
  rw [shape_none_some happ, ofText, toValue_ofChars, value_str, value_str]
  cases hu : fill app.dictionary t.toList with
  | error f => rw [fill_render_error hu]
  | ok u =>
    obtain ⟨hpair, hplain⟩ := hfilled (String.ofList u) (by rw [Template.instantiate_eq, hu]; rfl)
    rw [ofText, ofText, String.toList_ofList] at hplain
    rw [String.toList_ofList] at hpair
    obtain ⟨w, hw, hreadw, -, hblank⟩ := fill_render hmatch hu hplain
    -- both are blank or neither is, and they are read as one shape
    have hsame : ofValue (.str (String.ofList w)) = ofValue (.str (String.ofList u)) := by
      have hall : Text.allBlank (String.ofList w) = Text.allBlank (String.ofList u) := by
        rw [Bool.eq_iff_iff, allBlank_iff, allBlank_iff, String.toList_ofList,
          String.toList_ofList]
        exact hblank hpair
      rw [ofValue_str, ofValue_str, hall, ofText, ofText, String.toList_ofList,
        String.toList_ofList, hreadw]
    rw [hw]
    change (do let r ← (ofValue (.str (String.ofList w))).mapError Error.shape; pure (some r)) = _
    rw [hsame]
    rfl

/-- The application that fills in one placeholder. -/
def withItem (text : String) : Application :=
  { Application.empty with dictionary := [("item", .str text)] }

/-- What a placeholder that stands for a type becomes in a list of it. -/
theorem list_of_users :
    (do
      let s ← (ofValue (.str "(Error | <<item>>)[]")).mapError Error.shape
      (withItem "User").shape none (some s)) =
    (do
      let v ← (withItem "User").value (.str "(Error | <<item>>)[]")
      let s ← (ofValue v).mapError Error.shape
      return some s) := by
  refine shape_ofValue_eq_ofValue_value rfl (by decide +kernel) (by decide +kernel) fun u hu => ?_
  have hinst : (Template.instantiate (withItem "User").dictionary "(Error | <<item>>)[]").toOption =
      some "(Error | User)[]" := by decide +kernel
  rw [hu] at hinst
  obtain rfl := Option.some.inj hinst
  exact ⟨by decide +kernel, .of_isUnion (by decide +kernel)⟩

/-- The parentheses of a list are lost before its placeholder becomes a union. -/
theorem list_of_union_broken :
    ¬∀ (d : Dictionary) (t : String), Text.allBlank t = false →
      (∀ e ∈ d, NoAngle e.2.yamlText.toList) → hasBlankPair t.toList = false →
      (∀ u, Template.instantiate d t = .ok u → hasBlankPair u.toList = false) →
      (do
        let s ← (ofValue (.str t)).mapError Error.shape
        { Application.empty with dictionary := d }.shape none (some s)) =
      (do
        let v ← { Application.empty with dictionary := d }.value (.str t)
        let s ← (ofValue v).mapError Error.shape
        return some s) := by
  intro h
  -- the placeholder stands in parentheses, and what is put in is a union of its own
  have hinst : (Template.instantiate (withItem "A | B").dictionary "(<<item>>)[]").toOption =
      some "(A | B)[]" := by decide +kernel
  have hsame := h (withItem "A | B").dictionary "(<<item>>)[]" (by decide +kernel)
    (by decide +kernel) (by decide +kernel) fun u hu => by
      rw [hu] at hinst
      obtain rfl := Option.some.inj hinst
      decide +kernel
  have hshapes := congrArg (fun r => r.toOption.bind fun s => s.map isArray) hsame
  revert hshapes
  decide +kernel

end Shape
end Raml
