import Raml.Proofs.Merge.Precedence
import Raml.Proofs.Template.Fill

/-!
# What gives way to a template

Two questions are asked about the text of a child: whether it holds a placeholder, which decides
what is filled in, and whether it holds brackets of one, which decides whether it gives way. A
placeholder has brackets (`hasBrackets_of_hasPlaceholder`), but prose with a pair of angle brackets
may have no placeholder, and then it is overwritten all the same (`prose_overwritten`). What is
never overwritten is a text without brackets, and no other text is safe (`kept_iff_no_brackets`).
-/

namespace Raml

/-! ## An entity keeps what it says for good -/

theorem textStanding_keptIn (s : Option String) : TextKept (textStanding s) s :=
  fun _ h _ => (textStanding_eq_some.mp h).1

theorem Value.standing_keptIn (v : Value) : ValueKept v.standing v := by
  intro hnull _
  cases v with
  | str t =>
    rw [standing] at hnull ⊢
    split
    · rename_i ht
      exact absurd (if_pos ht) hnull
    · rfl
  | _ => rfl

theorem Templated.standing_keptIn {α : Type} (x : Option (Templated α)) :
    Kept (Templated.standing x) x := by
  rcases x with _ | ⟨_ | _⟩
  · nofun
  · exact fun _ h => h
  · nofun

theorem Shape.standing_keptIn (s : Option Shape) : Kept (Shape.standing s) s :=
  fun _ h => (Shape.standing_eq_some.mp h).1

/-- A table keeps what its entries keep. -/
theorem Table.standing_keptIn {α : Type} {R : α → α → Prop} {f : α → α} (h : ∀ a, R (f a) a) :
    ∀ t : Table α, Table.Extends R (t.mapValues f) t
  | [] => trivial
  | (_, a) :: t => ⟨rfl, h a, Table.standing_keptIn h t⟩

/-- What stands of a parameter is kept in it. -/
theorem Parameter.standing_keptIn (p : Parameter) : p.standing.KeptIn p where
  name := rfl
  type := textStanding_keptIn _
  displayName := textStanding_keptIn _
  description := textStanding_keptIn _
  choices := fun _ h => h
  pattern := textStanding_keptIn _
  minLength := Templated.standing_keptIn _
  maxLength := Templated.standing_keptIn _
  minimum := Templated.standing_keptIn _
  maximum := Templated.standing_keptIn _
  format := textStanding_keptIn _
  sample := Value.standing_keptIn _
  fallback := Value.standing_keptIn _
  repeats := Templated.standing_keptIn _
  required := Templated.standing_keptIn _
  items := Value.standing_keptIn _
  annotations := List.prefix_refl _

theorem Body.standing_keptIn (b : Body) : b.standing.KeptIn b where
  type := Shape.standing_keptIn _
  items := Shape.standing_keptIn _
  schema := textStanding_keptIn _
  description := textStanding_keptIn _
  sample := Value.standing_keptIn _
  properties := List.prefix_refl _
  headers := Table.standing_keptIn Parameter.standing_keptIn _
  facets := List.prefix_refl _
  annotations := List.prefix_refl _

theorem Bodies.standing_keptIn (b : Bodies) : b.standing.KeptIn b where
  flat := by
    intro f hf
    obtain ⟨own, hown, rfl⟩ := Option.map_eq_some_iff.mp hf
    exact ⟨own, hown, own.standing_keptIn⟩
  byMediaType := Table.standing_keptIn Body.standing_keptIn _
  annotations := List.prefix_refl _

theorem Response.standing_keptIn (r : Response) : r.standing.KeptIn r where
  code := rfl
  description := textStanding_keptIn _
  headers := Table.standing_keptIn Parameter.standing_keptIn _
  bodies := r.bodies.standing_keptIn
  annotations := List.prefix_refl _

/-- What stands of a method is kept in it. -/
theorem Method.standing_keptIn (m : Method) : m.standing.KeptIn m where
  name := rfl
  traits := rfl
  displayName := textStanding_keptIn _
  description := textStanding_keptIn _
  queryParameters := Table.standing_keptIn Parameter.standing_keptIn _
  headers := Table.standing_keptIn Parameter.standing_keptIn _
  queryString := Shape.standing_keptIn _
  responses := Table.standing_keptIn Response.standing_keptIn _
  bodies := m.bodies.standing_keptIn
  protocols := List.prefix_refl _
  securedBy := List.prefix_refl _
  annotations := List.prefix_refl _

namespace Merge

/-! ## Single texts -/

/-- A text with brackets gives way to any template that says something else. -/
theorem exists_overwritten {child : String} (h : Template.hasBrackets child = true) :
    ∃ template d, Template.substitute (some child) template d ≠ .ok (some child) := by
  refine ⟨some "x", [], ?_⟩
  have hstands : Template.stands (some child) = false := by simp [Template.stands, h]
  have hfilled : Template.substitute (some child) (some "x") [] = .ok (some "x") := by
    rw [Template.substitute, if_neg (by simp [hstands])]
    exact congrArg (Except.map some) (Template.instantiate_empty "x")
  rw [hfilled]
  intro hsame
  obtain rfl := Option.some.inj (Except.ok.inj hsame)
  exact absurd h (by decide)

/-- A text without brackets is not replaced, whatever the template says. -/
theorem substitute_of_no_brackets {child : String} (hne : child ≠ "")
    (h : Template.hasBrackets child = false) (template : Option String)
    (d : Template.Dictionary) :
    Template.substitute (some child) template d = .ok (some child) := by
  rw [Template.substitute.eq_def, if_pos (stands_of_plain hne h)]

/-! ## Main result -/

/-- **What gives way to a template, and what does not.** A text that says something stays whatever
template and values there are just if it has no brackets of a placeholder; a text in which a
placeholder can be read has them. And what a method says without brackets, in its own fields and
in those of its parameters, responses and bodies, is kept in what any templates make of it,
whatever else the method says with brackets. -/
theorem kept_iff_no_brackets (child : String) (m : Method) (steps : List (Application × Method)) :
    (child ≠ "" → (Template.hasBrackets child = false ↔
      ∀ template d, Template.substitute (some child) template d = .ok (some child))) ∧
    (Template.hasPlaceholder child = true ↔ ∃ inner : List Char,
      (inner ≠ [] ∧ ∀ c ∈ inner, Template.isInner c = true) ∧
        (Template.Segment.hole inner).source <:+: child.toList) ∧
    (Template.hasPlaceholder child = true → Template.hasBrackets child = true) ∧
    ∀ m', methodAll m steps = .ok m' → m.standing.KeptIn m' := by
  refine ⟨fun hne => ⟨substitute_of_no_brackets hne, fun h => ?_⟩, Template.hasPlaceholder_iff,
    Template.hasBrackets_of_hasPlaceholder, fun m' h => methodAll_kept m.standing_keptIn h⟩
  -- A text with brackets gives way to some template, so it is not the same for all of them.
  by_contra hbrackets
  obtain ⟨template, d, hgives⟩ := exists_overwritten (eq_true_of_ne_false hbrackets)
  exact hgives (h template d)

/-- A method that describes itself with a single angle bracket, under a title that is to be filled
in, and gives the type of a parameter. -/
def ranging : Method :=
  { Method.named "GET" with
    displayName := some "Pages of <<size>>"
    description := some "All pages with 1 < number > 0"
    queryParameters := [("page", typed "page" "integer")] }

theorem ranging_kept :
    (∀ template d, Template.substitute ranging.description template d = .ok ranging.description) ∧
    Template.hasBrackets "Pages of <<size>>" = true ∧
    ∃ m, methodAll ranging [(fifty, paged), (.empty, paged)] = .ok m ∧ ranging.standing.KeptIn m ∧
      m.description = ranging.description ∧ m.displayName = some "Pages of 50" := by
  obtain ⟨m, hm, hdisplay⟩ : ∃ m, methodAll ranging [(fifty, paged), (.empty, paged)] = .ok m ∧
      m.displayName = some "Pages of 50" :=
    toOption_bind_eq_some.mp (by decide +kernel)
  have hne : "All pages with 1 < number > 0" ≠ "" := by simp
  have hplain : Template.hasBrackets "All pages with 1 < number > 0" = false := by decide +kernel
  have hhole : (Template.Segment.hole "size".toList).source <:+: "Pages of <<size>>".toList :=
    ⟨"Pages of ".toList, [], by decide +kernel⟩
  obtain ⟨hstays, -, -, hkept⟩ := kept_iff_no_brackets "All pages with 1 < number > 0" ranging
    [(fifty, paged), (.empty, paged)]
  obtain ⟨-, hread, hgives, -⟩ := kept_iff_no_brackets "Pages of <<size>>" ranging []
  refine ⟨(hstays hne).mp hplain, ?_, m, hm, hkept m hm, ?_, hdisplay⟩
  · exact hgives (hread.mpr ⟨"size".toList, by simp [Template.isInner], hhole⟩)
  · exact (hkept m hm).description _ (textStanding_eq_some.mpr ⟨rfl, hplain⟩) hne

/-- A text without any placeholder that is overwritten: the closing brackets of a type stand side
by side, which counts as the end of a placeholder. -/
theorem prose_overwritten :
    Template.hasPlaceholder "Returns Map<String, List<Book>>" = false ∧
      Template.substitute (some "Returns Map<String, List<Book>>") (some "Returns <<item>>")
        [("item", .str "books")] = .ok (some "Returns books") := by
  constructor
  · decide +kernel
  · decide +kernel

end Merge
end Raml
