import Raml.Json.Written
import Raml.Proofs.Json.Number
import Raml.Proofs.Json.Quoted
import Raml.Proofs.Read.Rewritten
import Raml.Proofs.Value.Mapping

/-!
# Values written and read

Every value that JSON has can be written, and what was written is read as that value
(`exists_write`). The reader has to stop in the right place, so `Reads` says it of a text with
anything after it that ends a number, and with room for the text; lists and mappings are then read
item by item, along what stands between the items and the brackets. Nothing else than the values
that JSON has is ever read (`isJson_of_read`).
-/

namespace Raml.Json

open Numeral Decimal

/-- Values that JSON has: texts are the keys of a mapping, and no integer is too long to be read. -/
inductive IsJson : Value → Prop where
  | null : IsJson .null
  | bool (b : Bool) : IsJson (.bool b)
  | int (n : Int) (h : (Decimal.digitsOf n.natAbs).length ≤ longest) : IsJson (.int n)
  | float (x : Float) : IsJson (.float x)
  | str (s : String) : IsJson (.str s)
  | list {items : List Value} (h : ∀ v ∈ items, IsJson v) : IsJson (.list items)
  | map {t : Table Value} (hkeys : t.Distinct) (h : ∀ e ∈ t, IsJson e.2) :
    IsJson (.map (t.map fun e => (.str e.1, e.2)))

/-! ## Blanks -/

/-- Blanks, and nothing else. -/
def AreBlanks (cs : List Char) : Prop := ∀ c ∈ cs, isBlank c = true

/-- A text that blanks do not go on with. -/
def IsBare (cs : List Char) : Prop := ∀ c, cs.head? = some c → isBlank c = false

/-- Blanks are skipped up to the first character that is none. -/
theorem skip_append {cs rest : List Char} (h : AreBlanks cs) (hrest : IsBare rest) :
    skip (cs ++ rest) = rest := by
  rw [skip, List.dropWhile_append_of_pos h]
  cases rest with
  | nil => rfl
  | cons c rest =>
    have hc := hrest c rfl
    simp [hc]

/-! ## Single values -/

/-- How a value is read that is written as a text. -/
structure Reads (v : Value) (text : List Char) : Prop where
  /-- What stands before it can be told from it. -/
  starts : ∃ c cs, text = c :: cs ∧ isBlank c = false ∧ c ≠ ']' ∧ c ≠ '\x7d'
  read : ∀ (room : Nat) {rest}, text.length < room → EndsNumber rest →
    readValue room (text ++ rest) = .ok (v, rest)

/-- What begins a name or a number begins nothing else. -/
theorem StartsWord.ne {cs : List Char} (h : StartsWord cs) : ∃ c rest, cs = c :: rest ∧
    isBlank c = false ∧ c ∉ ['"', '[', ']', '\x7b', '\x7d'] := by
  obtain ⟨c, rest, rfl, hc | hc⟩ := h
  · have hne (d : Char) (hd : isFigure d = false) : c ≠ d := fun h => by
      rw [← h, hc] at hd
      cases hd
    refine ⟨c, rest, rfl, ?_, ?_⟩
    · simp [isBlank, hne ' ' rfl, hne '\t' rfl, hne '\n' rfl, hne '\r' rfl]
    · simp [hne '"' rfl, hne '[' rfl, hne ']' rfl, hne '\x7b' rfl, hne '\x7d' rfl]
  · simp only [List.mem_cons, List.not_mem_nil, or_false] at hc
    rcases hc with rfl | rfl | rfl <;> exact ⟨_, rest, rfl, rfl, by decide⟩

theorem readValue_word {cs : List Char} (h : StartsWord cs) (room : Nat) :
    readValue (room + 1) cs = readWord cs := by
  obtain ⟨c, rest, rfl, -, hne⟩ := h.ne
  simp only [List.mem_cons, not_or] at hne
  rw [readValue.eq_5]
  · rintro r hr
    exact hne.1 (List.cons.inj hr).1
  · rintro r hr
    exact hne.2.1 (List.cons.inj hr).1
  · rintro r hr
    exact hne.2.2.2.1 (List.cons.inj hr).1

theorem StartsWord.append {cs : List Char} (h : StartsWord cs) (rest : List Char) :
    StartsWord (cs ++ rest) := by
  obtain ⟨c, cs, rfl, hc⟩ := h
  exact ⟨c, cs ++ rest, rfl, hc⟩

/-- Names and numbers are read as values. -/
theorem reads_word {v : Value} {text : List Char} (h : StartsWord text)
    (hread : ∀ {rest}, EndsNumber rest → readWord (text ++ rest) = .ok (v, rest)) :
    Reads v text := by
  refine ⟨?_, fun room rest hroom hrest => ?_⟩
  · obtain ⟨c, rest, rfl, hblank, hne⟩ := h.ne
    simp only [List.mem_cons, not_or] at hne
    exact ⟨c, rest, rfl, hblank, hne.2.2.1, hne.2.2.2.2.1⟩
  · obtain ⟨room, rfl⟩ := Nat.exists_eq_succ_of_ne_zero (Nat.ne_zero_of_lt hroom)
    rw [readValue_word (h.append rest), hread hrest]

theorem reads_null : Reads .null "null".toList := by
  refine ⟨⟨_, _, rfl, by decide⟩, fun room rest hroom _ => ?_⟩
  obtain ⟨room, rfl⟩ := Nat.exists_eq_succ_of_ne_zero (Nat.ne_zero_of_lt hroom)
  rfl

theorem reads_bool (b : Bool) : Reads (.bool b) (if b then "true" else "false").toList := by
  cases b
  all_goals
    refine ⟨⟨_, _, rfl, by decide⟩, fun room rest hroom _ => ?_⟩
    obtain ⟨room, rfl⟩ := Nat.exists_eq_succ_of_ne_zero (Nat.ne_zero_of_lt hroom)
    rfl

/-- A quoted text is read as what was quoted. -/
theorem reads_str {a : Alphabet} (ha : a.EscapesControls) (s : String) :
    Reads (.str s) (quote a s).toList := by
  rw [quote, String.toList_ofList]
  refine ⟨⟨_, _, rfl, by decide⟩, fun room rest hroom _ => ?_⟩
  obtain ⟨room, rfl⟩ := Nat.exists_eq_succ_of_ne_zero (Nat.ne_zero_of_lt hroom)
  have := readText_quote ha s rest
  rw [List.cons_append, List.cons_append, List.append_assoc, List.singleton_append, readValue.eq_2,
    this]
  rfl

/-- A double is read as it was written, the ones that are no numbers included. -/
theorem reads_float (x : Float) : Reads (.float x) (Decimal.ofFloat .json x).toList :=
  reads_word (startsWord_ofFloat x) (readWord_ofFloat x)

theorem toList_toString (n : Int) :
    (toString n).toList = signText (n < 0) ++ Decimal.digitsOf n.natAbs := by
  cases n with
  | ofNat n =>
    change (Nat.repr n).toList = _
    rw [Nat.repr_eq_ofList_toDigits, String.toList_ofList]
    rfl
  | negSucc n =>
    change ("-" ++ Nat.repr (n + 1)).toList = _
    rw [Nat.repr_eq_ofList_toDigits, String.toList_append, String.toList_ofList,
      String.toList_ofList, decide_eq_true (Int.negSucc_lt_zero n)]
    rfl

/-- An integer is read as it was written, unless it has too many digits. -/
theorem reads_int {n : Int} (h : (Decimal.digitsOf n.natAbs).length ≤ longest) :
    Reads (.int n) (toString n).toList := by
  have hfigures := Decimal.areFigures_digitsOf n.natAbs
  have hne := Decimal.digitsOf_ne_nil n.natAbs
  rw [toList_toString]
  refine reads_word ?_ fun {rest} hrest => ?_
  · have := startsWord_signText (decide (n < 0)) hfigures hne []
    rwa [List.append_nil] at this
  · have hread := readNumber_digitsOf h (decide (n < 0)) hrest
    obtain ⟨c, cs, hdigits⟩ := List.exists_cons_of_ne_nil hne
    rw [hdigits] at hfigures hread
    rw [hdigits, List.append_assoc, List.cons_append,
      readWord_of_isFigure _ (hfigures c List.mem_cons_self), ← List.cons_append, hread]
    congr 3
    split
    · next hn =>
      have := of_decide_eq_true hn
      omega
    · next hn =>
      have : ¬n < 0 := fun h => hn (decide_eq_true h)
      omega

/-! ## Lists and mappings -/

theorem endsNumber_cons {c : Char} (h : isFigure c = false ∧ c ≠ '.' ∧ c ≠ 'e' ∧ c ≠ 'E')
    (rest : List Char) : EndsNumber (c :: rest) := by
  intro d hd
  cases hd
  exact h

/-- Blanks before a bracket or a comma end a number. -/
theorem endsNumber_blanks {cs rest : List Char} (h : AreBlanks cs) (hrest : EndsNumber rest) :
    EndsNumber (cs ++ rest) := by
  cases cs with
  | nil => exact hrest
  | cons c cs =>
    have hc := h c List.mem_cons_self
    refine endsNumber_cons ?_ _
    simp only [isBlank, Bool.or_eq_true, beq_iff_eq] at hc
    rcases hc with ((rfl | rfl) | rfl) | rfl <;> decide

variable {inner outer : List Char}

/-- Texts with something between them begin like the first of them. -/
theorem exists_intercalate_eq_cons (c : Char) (cs : List Char) (sep : List Char)
    (texts : List (List Char)) (rest : List Char) :
    ∃ tail, List.intercalate sep ((c :: cs) :: texts) ++ rest = c :: tail := by
  cases texts with
  | nil => exact ⟨cs ++ rest, by rw [List.intercalate_singleton, List.cons_append]⟩
  | cons text texts => exact ⟨_, by rw [List.intercalate_cons_cons]; rfl⟩

theorem isBare_cons {c : Char} (h : isBlank c = false) (cs : List Char) : IsBare (c :: cs) := by
  intro d hd
  cases hd
  exact h

theorem isBare_intercalate {text : List Char} (h : ∃ c cs, text = c :: cs ∧ isBlank c = false)
    (sep : List Char) (texts : List (List Char)) (rest : List Char) :
    IsBare (List.intercalate sep (text :: texts) ++ rest) := by
  obtain ⟨c, cs, rfl, hc⟩ := h
  obtain ⟨tail, htail⟩ := exists_intercalate_eq_cons c cs sep texts rest
  rw [htail]
  exact isBare_cons hc tail

theorem skip_cons {c : Char} (h : isBlank c = false) (cs : List Char) : skip (c :: cs) = c :: cs :=
  skip_append (List.forall_mem_nil _) (isBare_cons h cs)

section Items

variable {room : Nat} {v : Value} {items : List Value} {cs after next rest : List Char}

theorem readItems_last (hread : readValue room cs = .ok (v, after))
    (hend : skip after = ']' :: rest) : readItems (room + 1) cs = .ok ([v], rest) := by
  simp only [readItems, hread, bind, Except.bind, hend]
  rfl

/-- Items go on after a comma. -/
theorem readItems_next (hread : readValue room cs = .ok (v, after))
    (hcomma : skip after = ',' :: next) (hitems : readItems room (skip next) = .ok (items, rest)) :
    readItems (room + 1) cs = .ok (v :: items, rest) := by
  simp only [readItems, hread, bind, Except.bind, hcomma, hitems]
  rfl

/-- Items are read one after another, up to the closing bracket. -/
theorem readItems_of_reads (hinner : AreBlanks inner) (houter : AreBlanks outer)
    {texts : List (List Char)} (h : List.Forall₂ Reads items texts) (hne : items ≠ [])
    (hroom : (List.intercalate (',' :: inner) texts).length + 1 < room) (rest : List Char) :
    readItems room (List.intercalate (',' :: inner) texts ++ (outer ++ ']' :: rest)) =
      .ok (items, rest) := by
  induction h generalizing room with
  | nil => exact absurd rfl hne
  | @cons v text items texts hv hrest ih =>
    -- there is room for one step more than the text is long
    obtain ⟨room, rfl⟩ := Nat.exists_eq_succ_of_ne_zero (Nat.ne_zero_of_lt hroom)
    cases hrest with
    | nil =>
      rw [List.intercalate_singleton] at hroom ⊢
      have hends := endsNumber_blanks houter (endsNumber_cons (c := ']') (by decide) rest)
      exact readItems_last (hv.read room (by omega) hends)
        (skip_append houter (isBare_cons rfl rest))
    | @cons w text' items' texts' hw hrest' =>
      obtain ⟨c, cs, hstart, -⟩ := hv.starts
      obtain ⟨c', cs', hstart', hblank', -⟩ := hw.starts
      have hbare := isBare_intercalate ⟨c', cs', hstart', hblank'⟩
      rw [List.intercalate_cons_cons] at hroom ⊢
      simp only [List.length_append, List.length_cons] at hroom
      have hlength : 0 < text.length := by simp [hstart]
      rw [List.append_assoc, List.append_assoc, List.cons_append]
      -- the comma is read, the blanks after it are skipped, and the others follow
      refine readItems_next (hv.read room (by omega) (endsNumber_cons (by decide) _))
        (skip_cons rfl _) ?_
      rw [skip_append hinner (hbare _ _ _)]
      exact ih (List.cons_ne_nil _ _) (by omega)

end Items

/-- How an entry is read that is written as a text. -/
def ReadsEntry (a : Alphabet) (e : String × Value) (text : List Char) : Prop :=
  ∃ t, text = (quote a e.1).toList ++ ':' :: ' ' :: t ∧ Reads e.2 t

section Entries

variable {room : Nat} {a : Alphabet} {e : String × Value} {es : List (Value × Value)}
  {text cs after next rest : List Char}

/-- Whether an entry is read after a first quote, with `after` behind it. -/
def StartsEntry (room : Nat) (cs : List Char) (e : String × Value) (after : List Char) : Prop :=
  ∃ mid next, readText cs = .ok (e.1, mid) ∧ skip mid = ':' :: next ∧
    readValue room (skip next) = .ok (e.2, after)

theorem readEntries_last (h : StartsEntry room cs e after) (hend : skip after = '\x7d' :: rest) :
    readEntries (room + 1) ('"' :: cs) = .ok ([(.str e.1, e.2)], rest) := by
  obtain ⟨mid, next, hkey, hcolon, hvalue⟩ := h
  simp only [readEntries, hkey, hcolon, hvalue, bind, Except.bind, hend]
  rfl

/-- Entries go on after a comma. -/
theorem readEntries_next (h : StartsEntry room cs e after) (hcomma : skip after = ',' :: next)
    (hentries : readEntries room (skip next) = .ok (es, rest)) :
    readEntries (room + 1) ('"' :: cs) = .ok ((.str e.1, e.2) :: es, rest) := by
  obtain ⟨mid, next, hkey, hcolon, hvalue⟩ := h
  simp only [readEntries, hkey, hcolon, hvalue, bind, Except.bind, hcomma, hentries]
  rfl

/-- A written entry begins with a quote, and is read after it. -/
theorem ReadsEntry.exists_eq_cons (ha : a.EscapesControls) (h : ReadsEntry a e text) :
    ∃ cs, text = '"' :: cs ∧ ∀ (room : Nat) {after}, text.length < room → EndsNumber after →
      StartsEntry room (cs ++ after) e after := by
  obtain ⟨t, rfl, hv⟩ := h
  obtain ⟨c, cs, hstart, hblank, -⟩ := hv.starts
  refine ⟨e.1.toList.flatMap (escape a) ++ '"' :: ':' :: ' ' :: t, ?_,
    fun room after hroom hends => ?_⟩
  · simp [quote]
  · have hbare : IsBare (t ++ after) := by
      rw [hstart]
      exact isBare_cons hblank _
    refine ⟨':' :: ' ' :: (t ++ after), ' ' :: (t ++ after), ?_, skip_cons rfl _, ?_⟩
    · rw [List.append_assoc]
      exact readText_quote ha e.1 _
    · have hskip : skip (' ' :: (t ++ after)) = t ++ after :=
        skip_append (List.forall_mem_singleton.mpr rfl) hbare
      rw [hskip]
      exact hv.read room (by simp at hroom; omega) hends

/-- Entries are read one after another, up to the closing bracket. -/
theorem readEntries_of_reads (ha : a.EscapesControls) (hinner : AreBlanks inner)
    (houter : AreBlanks outer) {t : Table Value} {texts : List (List Char)}
    (h : List.Forall₂ (ReadsEntry a) t texts) (hne : t ≠ [])
    (hroom : (List.intercalate (',' :: inner) texts).length + 1 < room) (rest : List Char) :
    readEntries room (List.intercalate (',' :: inner) texts ++ (outer ++ '\x7d' :: rest)) =
      .ok (t.map fun e => (.str e.1, e.2), rest) := by
  induction h generalizing room with
  | nil => exact absurd rfl hne
  | @cons e text t texts he hrest ih =>
    -- there is room for one step more than the text is long
    obtain ⟨room, rfl⟩ := Nat.exists_eq_succ_of_ne_zero (Nat.ne_zero_of_lt hroom)
    obtain ⟨cs, rfl, hstarts⟩ := he.exists_eq_cons ha
    cases hrest with
    | nil =>
      rw [List.intercalate_singleton] at hroom ⊢
      have hends := endsNumber_blanks houter (endsNumber_cons (c := '\x7d') (by decide) rest)
      exact readEntries_last (hstarts room (by omega) hends)
        (skip_append houter (isBare_cons rfl rest))
    | @cons e' text' es' texts' he' hrest' =>
      obtain ⟨cs', rfl, -⟩ := he'.exists_eq_cons ha
      have hbare := isBare_intercalate ⟨'"', cs', rfl, rfl⟩
      rw [List.intercalate_cons_cons] at hroom ⊢
      simp only [List.length_append, List.length_cons] at hroom hstarts
      rw [List.append_assoc, List.append_assoc, List.cons_append, List.cons_append]
      -- the comma is read, the blanks after it are skipped, and the others follow
      refine readEntries_next (hstarts room (by omega) (endsNumber_cons (by decide) _))
        (skip_cons rfl _) ?_
      rw [skip_append hinner (hbare _ _ _)]
      exact ih (List.cons_ne_nil _ _) (by omega)

end Entries

/-- A text between brackets, with what it encloses on lines of its own. -/
theorem toList_enclosed {opening closing : String} {indent : Nat} {items : List String}
    (hne : items ≠ []) :
    (enclosed opening closing indent items).toList = opening.toList ++
      ('\n' :: List.replicate (indent + 2) ' ' ++
        (List.intercalate (',' :: '\n' :: List.replicate (indent + 2) ' ')
          (items.map String.toList) ++
          ('\n' :: List.replicate indent ' ' ++ closing.toList))) := by
  rw [enclosed, if_neg (by simpa using hne)]
  simp [blanks, String.toList_intercalate]

theorem toList_enclosed_nil (opening closing : String) (indent : Nat) :
    (enclosed opening closing indent []).toList = opening.toList ++ closing.toList :=
  String.toList_append

theorem areBlanks_newline (n : Nat) : AreBlanks ('\n' :: List.replicate n ' ') :=
  List.forall_mem_cons.mpr ⟨rfl, fun c hc => by rw [List.eq_of_mem_replicate hc]; rfl⟩

/-- What stands after the opening bracket is, but for blanks, the first of the enclosed texts. -/
theorem exists_enclosed_append (opening closing : String) (indent : Nat) {text : String} {c : Char}
    {cs : List Char} (hstart : text.toList = c :: cs) (hblank : isBlank c = false)
    (texts : List String) (rest : List Char) :
    ∃ after tail,
      (enclosed opening closing indent (text :: texts)).toList ++ rest = opening.toList ++ after ∧
      skip after = c :: tail ∧
      c :: tail = List.intercalate (',' :: '\n' :: List.replicate (indent + 2) ' ')
        ((text :: texts).map String.toList) ++
        ('\n' :: List.replicate indent ' ' ++ (closing.toList ++ rest)) := by
  obtain ⟨tail, htail⟩ := exists_intercalate_eq_cons c cs
    (',' :: '\n' :: List.replicate (indent + 2) ' ') (texts.map String.toList)
    ('\n' :: List.replicate indent ' ' ++ (closing.toList ++ rest))
  refine ⟨_, tail, ?_, skip_append (areBlanks_newline (indent + 2)) (isBare_cons hblank tail), ?_⟩
  · rw [toList_enclosed (List.cons_ne_nil _ _), ← htail, List.map_cons, hstart]
    simp
  · rw [List.map_cons, hstart, htail]

theorem readValue_list {room : Nat} {c : Char} {rest tail rest' : List Char} {items : List Value}
    (hskip : skip rest = c :: tail) (hc : c ≠ ']')
    (hread : readItems room (c :: tail) = .ok (items, rest')) :
    readValue (room + 1) ('[' :: rest) = .ok (.list items, rest') := by
  simp [readValue, hskip, hc, hread, Except.map]

theorem readValue_map {room : Nat} {c : Char} {rest tail rest' : List Char}
    {es : List (Value × Value)}
    (hskip : skip rest = c :: tail) (hc : c ≠ '\x7d')
    (hread : readEntries room (c :: tail) = .ok (es, rest')) :
    readValue (room + 1) ('\x7b' :: rest) = .ok (.map (Value.mapOf es), rest') := by
  simp [readValue, hskip, hc, hread, Except.map]

/-- A list is read as it was written if its items are. -/
theorem reads_list {items : List Value} {texts : List String}
    (h : List.Forall₂ (fun v t => Reads v t.toList) items texts) (indent : Nat) :
    Reads (.list items) (enclosed "[" "]" indent texts).toList := by
  -- an empty list is written without a break; otherwise the items stand on lines of their own
  cases h with
  | nil =>
    rw [toList_enclosed_nil]
    refine ⟨⟨'[', [']'], rfl, by decide⟩, fun room rest hroom _ => ?_⟩
    obtain ⟨room, rfl⟩ := Nat.exists_eq_succ_of_ne_zero (Nat.ne_zero_of_lt hroom)
    rfl
  | @cons v text items texts hv hrest =>
    have h : List.Forall₂ Reads (v :: items) ((text :: texts).map String.toList) :=
      List.forall₂_map_right_iff.mpr (.cons hv hrest)
    obtain ⟨c, cs, hstart, hblank, hne, -⟩ := hv.starts
    refine ⟨⟨_, _, toList_enclosed (List.cons_ne_nil _ _), by decide⟩, fun room rest hroom _ => ?_⟩
    obtain ⟨room, rfl⟩ := Nat.exists_eq_succ_of_ne_zero (Nat.ne_zero_of_lt hroom)
    obtain ⟨after, tail, htext, hskip, htail⟩ := exists_enclosed_append "[" "]" indent hstart
      hblank texts rest
    rw [toList_enclosed (List.cons_ne_nil _ _)] at hroom
    rw [htext]
    refine readValue_list hskip hne ?_
    rw [htail]
    exact readItems_of_reads (areBlanks_newline _) (areBlanks_newline _) h (List.cons_ne_nil _ _)
      (by simp at hroom ⊢; omega) rest

/-- A mapping is read as it was written if its values are and no key stands twice. -/
theorem reads_map {a : Alphabet} (ha : a.EscapesControls) {t : Table Value} (hkeys : t.Distinct)
    {texts : List String} (h : List.Forall₂ (fun e s => ReadsEntry a e s.toList) t texts)
    (indent : Nat) :
    Reads (.map (t.map fun e => (.str e.1, e.2))) (enclosed "\x7b" "\x7d" indent texts).toList := by
  cases h with
  | nil =>
    rw [toList_enclosed_nil]
    refine ⟨⟨'\x7b', ['\x7d'], rfl, by decide⟩, fun room rest hroom _ => ?_⟩
    obtain ⟨room, rfl⟩ := Nat.exists_eq_succ_of_ne_zero (Nat.ne_zero_of_lt hroom)
    rfl
  | @cons e text t texts he hrest =>
    have h : List.Forall₂ (ReadsEntry a) (e :: t) ((text :: texts).map String.toList) :=
      List.forall₂_map_right_iff.mpr (.cons he hrest)
    obtain ⟨cs, hstart⟩ : ∃ cs, text.toList = '"' :: cs := by
      obtain ⟨s, hs, -⟩ := he
      exact ⟨_, by rw [hs, quote, String.toList_ofList]; rfl⟩
    refine ⟨⟨_, _, toList_enclosed (List.cons_ne_nil _ _), by decide⟩, fun room rest hroom _ => ?_⟩
    obtain ⟨room, rfl⟩ := Nat.exists_eq_succ_of_ne_zero (Nat.ne_zero_of_lt hroom)
    obtain ⟨after, tail, htext, hskip, htail⟩ :=
      exists_enclosed_append "\x7b" "\x7d" indent hstart rfl texts rest
    rw [toList_enclosed (List.cons_ne_nil _ _)] at hroom
    -- keys that differ make a mapping of the entries as they stand
    rw [htext, ← Table.mapOf_of_distinct hkeys]
    refine readValue_map hskip (by decide) ?_
    rw [htail]
    exact readEntries_of_reads ha (areBlanks_newline _) (areBlanks_newline _) h
      (List.cons_ne_nil _ _) (by simp at hroom ⊢; omega) rest

/-- Items that can be written are written one by one. -/
theorem exists_writeItems {a : Alphabet} {items : List Value} (indent : Nat)
    (h : ∀ v ∈ items, ∃ text, writeAt a indent v = .ok text ∧ Reads v text.toList) :
    ∃ texts, writeItems a indent items = .ok texts ∧
      List.Forall₂ (fun v (t : String) => Reads v t.toList) items texts := by
  induction items with
  | nil => exact ⟨[], rfl, .nil⟩
  | cons v items ih =>
    obtain ⟨⟨text, hwrite, hread⟩, hrest⟩ := List.forall_mem_cons.mp h
    obtain ⟨texts, hwrites, hreads⟩ := ih hrest
    exact ⟨text :: texts, by rw [writeItems, hwrite, hwrites]; rfl, .cons hread hreads⟩

theorem exists_writeEntries {a : Alphabet} {t : Table Value} (indent : Nat)
    (h : ∀ e ∈ t, ∃ text, writeAt a indent e.2 = .ok text ∧ Reads e.2 text.toList) :
    ∃ texts, writeEntries a indent (t.map fun e => (.str e.1, e.2)) = .ok texts ∧
      List.Forall₂ (fun e (s : String) => ReadsEntry a e s.toList) t texts := by
  induction t with
  | nil => exact ⟨[], rfl, .nil⟩
  | cons e t ih =>
    obtain ⟨⟨text, hwrite, hread⟩, hrest⟩ := List.forall_mem_cons.mp h
    obtain ⟨texts, hwrites, hreads⟩ := ih hrest
    refine ⟨(quote a e.1 ++ ": " ++ text) :: texts, ?_, .cons ⟨text.toList, ?_, hread⟩ hreads⟩
    · rw [List.map_cons, writeEntries, hwrite, hwrites]
      rfl
    · simp

/-- Every value that JSON has is written, and is read as it was. -/
theorem exists_writeAt {a : Alphabet} (ha : a.EscapesControls) {v : Value} (h : IsJson v)
    (indent : Nat) :
    ∃ text, writeAt a indent v = .ok text ∧ Reads v text.toList := by
  induction h generalizing indent with
  | null => exact ⟨_, rfl, reads_null⟩
  | bool b => exact ⟨_, rfl, reads_bool b⟩
  | int n h => exact ⟨_, if_pos (decide_eq_true h), reads_int h⟩
  | float x => exact ⟨_, rfl, reads_float x⟩
  | str s => exact ⟨_, rfl, reads_str ha s⟩
  | list h ih =>
    obtain ⟨texts, hwrite, hreads⟩ :=
      exists_writeItems (indent + 2) fun v hv => ih v hv (indent + 2)
    exact ⟨_, by rw [writeAt, hwrite]; rfl, reads_list hreads indent⟩
  | map hkeys h ih =>
    obtain ⟨texts, hwrite, hreads⟩ :=
      exists_writeEntries (indent + 2) fun e he => ih e he (indent + 2)
    exact ⟨_, by rw [writeAt, hwrite]; rfl, reads_map ha hkeys hreads indent⟩

/-- What is written as JSON is read as what it was; blanks may follow it. -/
theorem exists_write {a : Alphabet} (ha : a.EscapesControls) {v : Value} (h : IsJson v) :
    ∃ text, write a v = .ok text ∧
      ∀ tail : String, AreBlanks tail.toList → read (text ++ tail) = .ok v := by
  obtain ⟨text, hwrite, hreads⟩ := exists_writeAt ha h 0
  refine ⟨text, hwrite, fun tail htail => ?_⟩
  obtain ⟨c, cs, hstart, hblank, -⟩ := hreads.starts
  have hends : EndsNumber tail.toList := by
    rw [← List.append_nil tail.toList]
    exact endsNumber_blanks htail endsNumber_nil
  have hbare : skip (text.toList ++ tail.toList) = text.toList ++ tail.toList :=
    skip_append (List.forall_mem_nil _) (by rw [hstart]; exact isBare_cons hblank _)
  have hend : skip tail.toList = [] := by
    rw [← List.append_nil tail.toList]
    exact skip_append htail fun _ h => by cases h
  have hread := hreads.read ((text.toList ++ tail.toList).length + 1) (by simp) hends
  simp only [read, String.toList_append, hbare, hread, bind, Except.bind, hend]
  rfl

/-! ## The keys of an object -/

theorem insert_map_str {α : Type} (n : String) (a : α) (t : Table α) :
    Value.insert (.str n) a (t.map fun e => (Value.str e.1, e.2)) =
      (t.set n a).map fun e => (Value.str e.1, e.2) := by
  induction t with
  | nil => rfl
  | cons e t ih =>
    obtain ⟨m, b⟩ := e
    rw [List.map_cons, Value.insert, Value.same_str_str, Table.set]
    by_cases hm : m = n
    · rw [if_pos (beq_iff_eq.mpr hm), if_pos hm, List.map_cons]
    · rw [if_neg fun hb => hm (beq_iff_eq.mp hb), if_neg hm, List.map_cons, ih]

/-- Entries under texts make a mapping whose keys are those of a table. -/
theorem mapOf_map_str {α : Type} (entries : List (String × α)) :
    Value.mapOf (entries.map fun e => (Value.str e.1, e.2)) =
      (Table.ofEntries entries).map fun e => (Value.str e.1, e.2) := by
  have hfold : ∀ t : Table α,
      (entries.map fun e => (Value.str e.1, e.2)).foldl (fun acc e => Value.insert e.1 e.2 acc)
          (t.map fun e => (Value.str e.1, e.2)) =
        (entries.foldl (fun t e => t.set e.1 e.2) t).map fun e => (Value.str e.1, e.2) := by
    induction entries with
    | nil => exact fun t => rfl
    | cons e entries ih =>
      intro t
      rw [List.map_cons, List.foldl_cons, List.foldl_cons, insert_map_str, ih]
  exact hfold []

/-! ## What is read -/

theorem areFigures_whole (cs : List Char) : AreFigures (whole cs).1 := by
  unfold whole
  split
  · exact areFigures_replicate 1
  · exact fun c hc => List.mem_takeWhile_imp hc

theorem length_digitsOf_valueOf_le {cs : List Char} (h : AreFigures cs) (hne : cs ≠ []) :
    (digitsOf (valueOf cs)).length ≤ cs.length := by
  by_cases hzero : valueOf cs = 0
  · rw [hzero]
    exact List.length_pos_iff.mpr hne
  · by_contra hlong
    have hle : 10 ^ cs.length ≤ valueOf cs := ten_pow_le_of_lt_width hzero (by
      change cs.length < (digitsOf (valueOf cs)).length
      omega)
    have hlt := valueOf_lt h
    omega

/-- Reading a number gives a value that can be written again. -/
theorem isJson_of_readNumber {cs rest : List Char} {v : Value}
    (h : readNumber cs = .ok (v, rest)) : IsJson v := by
  revert h
  fun_cases readNumber cs with
  | case3 negative size hsign digits after hwhole _ _ _ _ _ _ n hn _ hlong =>
    -- a whole number that is not too long
    intro h
    cases h
    have hfigures : AreFigures digits := by
      have := areFigures_whole size
      rwa [hwhole] at this
    have hne : digits ≠ [] := by
      rintro rfl
      cases hn
    have hvalue : valueOf digits = n :=
      Option.some.inj ((natural?_of_areFigures hfigures hne).symm.trans hn)
    refine .int _ ?_
    have habs : (if negative = true then -(n : Int) else n).natAbs = n := by
      split
      · exact Int.natAbs_neg _
      · rfl
    rw [habs, ← hvalue]
    exact (length_digitsOf_valueOf_le hfigures hne).trans (not_lt.mp hlong)
  | case4 =>
    -- a number with a point
    intro h
    cases h
    exact .float _
  | _ => nofun

theorem isJson_of_readWord {cs rest : List Char} {v : Value} (h : readWord cs = .ok (v, rest)) :
    IsJson v := by
  unfold readWord at h
  split at h
  · rename_i name w hfind
    have hnamed : ∀ e ∈ named, IsJson e.2 := by simp [named, IsJson.null, IsJson.bool, IsJson.float]
    cases h
    exact hnamed _ (List.mem_of_find?_eq_some hfind)
  · exact isJson_of_readNumber h

/-- What is read as JSON is a value that JSON has, in each of the readers with the given room. -/
structure ReadsJson (room : Nat) : Prop where
  value : ∀ {cs rest v}, readValue room cs = .ok (v, rest) → IsJson v
  items : ∀ {cs rest vs}, readItems room cs = .ok (vs, rest) → ∀ v ∈ vs, IsJson v
  entries : ∀ {cs rest es}, readEntries room cs = .ok (es, rest) →
    ∃ t : List (String × Value), es = t.map (fun e => (.str e.1, e.2)) ∧ ∀ e ∈ t, IsJson e.2

theorem isJson_mapOf {t : List (String × Value)} (h : ∀ e ∈ t, IsJson e.2) :
    IsJson (.map (Value.mapOf (t.map fun e => (.str e.1, e.2)))) := by
  rw [mapOf_map_str]
  exact .map (Table.distinct_ofEntries t) (Table.forall_mem_ofEntries h)

section Step

variable {room : Nat} {cs rest : List Char} (ih : ReadsJson room)
include ih

/-- Reading a value gives one that can be written again. -/
theorem isJson_of_readValue {v : Value} (h : readValue (room + 1) cs = .ok (v, rest)) :
    IsJson v := by
  -- by the first character: a quote, a bracket, a brace, or the beginning of a word
  rw [readValue.eq_def] at h
  simp only at h
  split at h
  · obtain ⟨_, _, heq⟩ := map_eq_ok.mp h
    cases heq
    exact .str _
  · split at h
    · cases h
      exact .list (List.forall_mem_nil _)
    · obtain ⟨_, hitems, heq⟩ := map_eq_ok.mp h
      cases heq
      exact .list (ih.items hitems)
  · split at h
    · cases h
      exact isJson_mapOf (t := []) (List.forall_mem_nil _)
    · obtain ⟨_, hentries, heq⟩ := map_eq_ok.mp h
      obtain ⟨t, ht, hjson⟩ := ih.entries hentries
      cases heq
      rw [ht]
      exact isJson_mapOf hjson
  · exact isJson_of_readWord h

theorem isJson_of_readItems {vs : List Value} (h : readItems (room + 1) cs = .ok (vs, rest)) :
    ∀ v ∈ vs, IsJson v := by
  rw [readItems.eq_def] at h
  obtain ⟨⟨v, after⟩, hvalue, h⟩ := bind_eq_ok.mp h
  simp only at h
  split at h
  · cases h
    exact List.forall_mem_singleton.mpr (ih.value hvalue)
  · obtain ⟨⟨others, after'⟩, hothers, h⟩ := bind_eq_ok.mp h
    cases h
    exact List.forall_mem_cons.mpr ⟨ih.value hvalue, ih.items hothers⟩
  · cases h

theorem isJson_of_readEntries {es : List (Value × Value)}
    (h : readEntries (room + 1) cs = .ok (es, rest)) :
    ∃ t : List (String × Value), es = t.map (fun e => (.str e.1, e.2)) ∧ ∀ e ∈ t, IsJson e.2 := by
  rw [readEntries.eq_def] at h
  simp only at h
  split at h
  · obtain ⟨⟨key, after⟩, _, h⟩ := bind_eq_ok.mp h
    split at h
    · obtain ⟨⟨v, after'⟩, hvalue, h⟩ := bind_eq_ok.mp h
      split at h
      · cases h
        exact ⟨[(key, v)], rfl, List.forall_mem_singleton.mpr (ih.value hvalue)⟩
      · obtain ⟨⟨others, after''⟩, hothers, h⟩ := bind_eq_ok.mp h
        obtain ⟨t, rfl, hjson⟩ := ih.entries hothers
        cases h
        exact ⟨(key, v) :: t, rfl, List.forall_mem_cons.mpr ⟨ih.value hvalue, hjson⟩⟩
      · cases h
    · cases h
  · cases h

end Step

/-- Whatever room there is, what is read can be written again. -/
theorem readsJson (room : Nat) : ReadsJson room := by
  induction room with
  | zero => exact ⟨nofun, nofun, nofun⟩
  | succ room ih => exact ⟨isJson_of_readValue ih, isJson_of_readItems ih, isJson_of_readEntries ih⟩

/-- What is read is a value that JSON has. -/
theorem isJson_of_read {text : String} {v : Value} (h : read text = .ok v) : IsJson v := by
  obtain ⟨⟨w, rest⟩, hread, h⟩ := bind_eq_ok.mp h
  simp only at h
  split at h
  · cases h
    exact (readsJson _).value hread
  · cases h

/-- The keys of an object that was read are texts, each of which comes once. -/
theorem exists_of_read_map {text : String} {es : List (Value × Value)}
    (h : read text = .ok (.map es)) :
    ∃ t : Table Value, t.Distinct ∧ es = t.map fun e => (.str e.1, e.2) := by
  cases isJson_of_read h with
  | map hkeys _ => exact ⟨_, hkeys, rfl⟩

end Raml.Json
