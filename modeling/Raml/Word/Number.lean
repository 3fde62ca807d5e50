import Raml.Text.Unicode.Case
import Raml.Word.Rule

/-!
# Plural and singular

English nouns from one number to the other. Rules are tried in order and the first that matches
decides, so the irregular words come before the endings, and the bare ending last. A few words
have no other number.
-/

namespace Raml.Word

/-- Words that are the same in both numbers. -/
def uncountable : List String :=
  ["equipment", "fish", "information", "jeans", "money", "rice", "series", "sheep", "species"]

/-- A rule whose kept half also may be a consonant, or `qu`. -/
def afterConsonant (dropped added : String) : Rule :=
  ⟨false, [[.besides "aeiouy".toList], letters "qu"], [letters dropped], true, added.toList⟩

/-- A rule whose kept half is one letter, tested by a part of its own. -/
def afterLetter (part : Part) (dropped added : String) : Rule :=
  ⟨false, [[part]], [letters dropped], true, added.toList⟩

/-- The rule for the old plural of cow; `first` is the case of its first letter. -/
def kine (first : Char) (added : String) : Rule :=
  ⟨false, [[]],
    [[.exactly [first], .exactly ['i', 'I'], .exactly ['n', 'N'], .exactly ['e', 'E']]],
    true, added.toList⟩

/-- The rule for cow; `first` is the case of its first letter. -/
def cow (first : Char) (added : String) : Rule :=
  ⟨false, [[]], [[.exactly [first], .exactly ['o', 'O'], .exactly ['w', 'W']]], true,
    added.toList⟩

/-- The rules for the plural. -/
def pluralRules : List Rule := [
  rule ["z"] ["ombies"] "ombies",
  rule ["z"] ["ombie"] "ombies",
  kine 'k' "kine",
  kine 'K' "Kine",
  cow 'c' "kine",
  cow 'C' "Kine",
  rule ["m"] ["oves"] "oves",
  rule ["m"] ["ove"] "oves",
  rule ["s"] ["exes"] "exes",
  rule ["s"] ["ex"] "exes",
  rule ["c"] ["hildren"] "hildren",
  rule ["c"] ["hild"] "hildren",
  rule ["h"] ["umans"] "umans",
  rule ["h"] ["uman"] "umans",
  rule ["m"] ["en"] "en",
  rule ["m"] ["an"] "en",
  rule ["p"] ["eople"] "eople",
  rule ["p"] ["erson"] "eople",
  rule ["quiz"] [""] "zes",
  (rule ["oxen"] [""] "").whole,
  (rule ["ox"] [""] "en").whole,
  rule ["m", "l"] ["ice"] "ice",
  rule ["m", "l"] ["ouse"] "ice",
  rule ["passer"] ["sby", "by"] "sby",
  rule ["matr", "vert", "ind"] ["ix", "ex"] "ices",
  rule ["x", "ch", "ss", "sh"] [""] "es",
  afterConsonant "y" "ies",
  rule ["hive"] [""] "s",
  afterLetter (.among ['l', 'r']) "f" "ves",
  afterLetter (.besides ['f']) "fe" "ves",
  rule [""] ["sis"] "ses",
  afterLetter (.among ['t', 'i']) "a" "a",
  afterLetter (.among ['t', 'i']) "um" "a",
  rule ["buffal", "potat", "tomat"] ["o"] "oes",
  rule ["bu"] ["s"] "ses",
  rule ["alias", "status"] [""] "es",
  rule ["octop", "vir"] ["i"] "i",
  rule ["octop", "vir"] ["us"] "i",
  (rule ["ax", "test"] ["is"] "es").whole,
  rule [""] ["s"] "s",
  rule [""] [""] "s"]

/-- The rules for the singular. -/
def singularRules : List Rule := [
  rule ["z"] ["ombies"] "ombie",
  kine 'k' "cow",
  kine 'K' "Cow",
  rule ["m"] ["oves"] "ove",
  rule ["s"] ["exes"] "ex",
  rule ["c"] ["hildren"] "hild",
  rule ["h"] ["umans"] "uman",
  rule ["m"] ["en"] "an",
  rule ["p"] ["eople"] "erson",
  rule ["database"] ["s"] "",
  rule ["quiz"] ["zes"] "",
  rule ["matr"] ["ices"] "ix",
  rule ["vert", "ind"] ["ices"] "ex",
  rule ["passer"] ["sby"] "by",
  { (rule ["ox"] ["en"] "").whole with toEnd := false },
  rule ["alias", "status"] ["es", ""] "",
  rule ["octop", "vir"] ["us", "i"] "us",
  (rule ["a"] ["xis", "xes"] "xis").whole,
  rule ["cris", "test"] ["is", "es"] "is",
  rule ["shoe"] ["s"] "",
  rule ["o"] ["es"] "",
  rule ["bus"] ["es", ""] "",
  rule ["m", "l"] ["ice"] "ouse",
  rule ["x", "ch", "ss", "sh"] ["es"] "",
  rule ["m"] ["ovies"] "ovie",
  rule ["s"] ["eries"] "eries",
  afterConsonant "ies" "y",
  afterLetter (.among ['l', 'r']) "ves" "f",
  rule ["tive"] ["s"] "",
  rule ["hive"] ["s"] "",
  afterLetter (.besides ['f']) "ves" "fe",
  rule ["t"] ["hesis", "heses"] "hesis",
  rule ["s"] ["ynopsis", "ynopses"] "ynopsis",
  rule ["p"] ["rognosis", "rognoses"] "rognosis",
  rule ["p"] ["arenthesis", "arentheses"] "arenthesis",
  rule ["d"] ["iagnosis", "iagnoses"] "iagnosis",
  rule ["b"] ["asis", "ases"] "asis",
  rule ["a"] ["nalysis", "nalyses"] "nalysis",
  afterLetter (.among ['t', 'i']) "a" "um",
  rule ["n"] ["ews"] "ews",
  rule ["ss"] [""] "",
  rule [""] ["s"] ""]

/-- Whether the text ends in a word without another number, as a word of its own. -/
def endsUncountable (cs : List Char) : Bool :=
  uncountable.any fun word =>
    let start := cs.length - word.length
    word.length ≤ cs.length && after? (letters word) (cs.drop start) == some [] &&
      match (cs.take start).getLast? with
      | none => true
      | some c => !Text.Unicode.isWord c

/-- The plural of a noun. -/
def pluralChars (cs : List Char) : List Char :=
  if cs.isEmpty || uncountable.contains (String.ofList (Text.Unicode.lowerChars cs)) then cs
  else applyFirst pluralRules cs

/-- The singular of a noun. -/
def singularChars (cs : List Char) : List Char :=
  if endsUncountable cs then cs else applyFirst singularRules cs

/-- The plural of a noun. -/
def pluralize (s : String) : String := String.ofList (pluralChars s.toList)

/-- The singular of a noun. -/
def singularize (s : String) : String := String.ofList (singularChars s.toList)

end Raml.Word
