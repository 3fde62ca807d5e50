import Raml.Merge.Application
import Raml.Proofs.Text.Lines

/-!
# Names in paths

A template is told the last name in the path of its resource. It is looked for from the resource
upward, one URI after another, while the path itself joins all URIs from the root down. Both agree
where every URI begins with a slash, for then no part of the path crosses from one URI into the
next (`lastName?_append`). So the path alone decides what a template is told, however it is spread
over the resources above.
-/

namespace Raml.Resource

/-- The parts of a path that are names: they are not empty, and do not end in the brace of a
parameter. -/
def namesIn (path : String) : List String :=
  (Text.pieces '/' path).filter fun part => !part.isEmpty && !Text.endsWith "\x7d" part

/-- A part of a path is a name unless it is empty or ends as a parameter does. -/
theorem isName_eq (part : List Char) : isName part =
    (!(String.ofList part).isEmpty && !Text.endsWith "\x7d" (String.ofList part)) := by
  have hempty : (String.ofList part).isEmpty = part.isEmpty := by
    cases part <;> simp
  have hlast : Text.endsWith "\x7d" (String.ofList part) = (part.getLast? == some '\x7d') := by
    rw [Bool.eq_iff_iff, Text.endsWith, List.isSuffixOf_iff_suffix, beq_iff_eq,
      List.getLast?_eq_some_iff]
    refine exists_congr fun init => ?_
    rw [String.toList_ofList (l := part)]
    exact eq_comm
  rw [isName, hempty, hlast]
  rfl

/-- The last name that is looked for is the last of the names. -/
theorem lastName?_eq (path : String) : lastName? path = (namesIn path).getLast? := by
  rw [lastName?, namesIn, Text.pieces, List.filter_map, List.getLast?_map,
    List.getLast?_eq_head?_reverse, ← List.filter_reverse, List.head?_filter]
  congr 2
  funext part
  exact isName_eq part

/-- Of two parts of a path that meet at a slash the second comes first. -/
theorem lastName?_append {path uri : String} (h : isPath uri = true) :
    lastName? (path ++ uri) = (lastName? uri).or (lastName? path) := by
  obtain ⟨rest, hrest⟩ : ∃ rest, uri.toList = '/' :: rest := by
    rw [isPath, beq_iff_eq] at h
    exact List.head?_eq_some_iff.mp h
  have huri : Text.split '/' uri.toList = [] :: Text.split '/' rest := by
    rw [hrest, Text.split, if_pos rfl]
  have hwhole : Text.split '/' (path ++ uri).toList =
      Text.split '/' path.toList ++ Text.split '/' rest := by
    rw [String.toList_append, hrest, Text.split_append]
  -- before the slash of the second part stands nothing, and that is no name
  have hfirst : ((Text.split '/' uri.toList).reverse.find? isName) =
      (Text.split '/' rest).reverse.find? isName := by
    rw [huri, List.reverse_cons, List.find?_append]
    exact Option.or_none
  rw [lastName?, lastName?, lastName?, hfirst, hwhole, List.reverse_append, List.find?_append,
    Option.map_or]

theorem fullUri_cons (a : String) (above : List String) (uri : String) :
    fullUri (a :: above) uri = fullUri above a ++ uri := by
  simp [fullUri, String.join_append, String.append_assoc]

/-- The name that is looked for upward is the last name in the whole path. -/
theorem findSome?_lastName? {above : List String} {uri : String}
    (h : ∀ u ∈ uri :: above, isPath u = true) :
    (uri :: above).findSome? lastName? = lastName? (fullUri above uri) := by
  induction above generalizing uri with
  | nil => simp [fullUri]
  | cons a above ih =>
    obtain ⟨huri, habove⟩ := List.forall_mem_cons.mp h
    -- the nearest URI is the last part of the path, so its names come before those above
    rw [fullUri_cons, lastName?_append huri, ← ih habove, List.findSome?_cons]
    cases lastName? uri <;> rfl

/-- **What a template is told of a path is told by the path.** Wherever a resource stands in a tree,
if its URI and those of the resources above it begin with a slash, then the name it gives to
templates is the last name in its path, or empty if there is none; and whatever has the same path
gives templates the same values. -/
theorem pathName_spec (l : Located) (h : ∀ uri ∈ l.resource.uri :: l.above, isPath uri = true) :
    l.pathName = (namesIn l.fullUri).getLastD "" ∧
    ∀ l' : Located, (∀ uri ∈ l'.resource.uri :: l'.above, isPath uri = true) →
      l'.fullUri = l.fullUri → ∀ parameters : Template.Dictionary,
        Template.Dictionary.ofResource l' parameters = .ofResource l parameters ∧
        ∀ m, Template.Dictionary.ofMethod l' m parameters = .ofMethod l m parameters := by
  have hname : ∀ r : Located, (∀ uri ∈ r.resource.uri :: r.above, isPath uri = true) →
      r.pathName = (namesIn r.fullUri).getLastD "" := by
    intro r hr
    rw [Located.pathName, pathName, findSome?_lastName? hr, lastName?_eq,
      List.getLastD_eq_getLast?]
    rfl
  refine ⟨hname l h, fun l' h' hsame parameters => ?_⟩
  have hvalues : Template.Dictionary.ofResource l' parameters = .ofResource l parameters := by
    rw [Template.Dictionary.ofResource, Template.Dictionary.ofResource, hname l h, hname l' h',
      hsame]
  refine ⟨hvalues, fun m => ?_⟩
  rw [Template.Dictionary.ofMethod, Template.Dictionary.ofMethod, hvalues]

/-- A page of the books of a shop, below two resources. -/
def nestedPage : Located :=
  ⟨{ (default : Resource) with uri := "/{page}" }, ["/books//", "/shops/{id}"]⟩

/-- The same page below none. -/
def flatPage : Located := ⟨{ (default : Resource) with uri := "/shops/{id}/books///{page}" }, []⟩

/-- The name stands in the URI of the resource above, before slashes that part nothing. -/
theorem nestedPage_pathName : nestedPage.pathName = "books" ∧
    ∀ parameters m, Template.Dictionary.ofMethod flatPage m parameters =
      .ofMethod nestedPage m parameters := by
  have hnested := pathName_spec nestedPage (by decide)
  refine ⟨hnested.1.trans (by decide), fun parameters m => ?_⟩
  exact (hnested.2 flatPage (by decide) (by decide) parameters).2 m

end Raml.Resource
