import Raml.Value.Basic

/-!
# Texts as keys

A text is the same as no other key than itself. So what is found under a text is what was put there
last under that text, whatever else was put into the mapping. Entries whose keys differ are a
mapping as they stand (`mapOf_of_pairwise`). What holds of all entries that are put into a mapping
holds of those in it, if it does not depend on which of two keys that are the same a value stands
under (`forall_mem_mapOf_of_same`).
-/

namespace Raml.Value

variable {α : Type}

/-- Only a text is the same as a text. -/
theorem eq_of_same_str {key : Value} {n : String} (h : key.same (.str n) = true) :
    key = .str n := by
  cases key <;> simp_all [same]

theorem same_str_str (n m : String) : (Value.str n).same (.str m) = (n == m) := by
  rw [same]

theorem get?_nil (n : String) : get? n ([] : List (Value × α)) = none := rfl

theorem get?_cons (n : String) (k : Value) (a : α) (es : List (Value × α)) :
    get? n ((k, a) :: es) = if k.same (.str n) then some a else get? n es := by
  rw [get?, find?, List.find?_cons]
  split
  · next h => rw [h]; rfl
  · next h => rw [h]; rfl

theorem mem_of_get? {n : String} {a : α} {es : List (Value × α)} (h : get? n es = some a) :
    ∃ e ∈ es, e.2 = a := by
  obtain ⟨e, he, ha⟩ := Option.map_eq_some_iff.mp h
  exact ⟨e, List.mem_of_find?_eq_some he, ha⟩

theorem get?_cons_str (n m : String) (a : α) (es : List (Value × α)) :
    get? m ((.str n, a) :: es) = if m = n then some a else get? m es := by
  rw [get?_cons, same_str_str]
  by_cases h : n = m
  · rw [if_pos (beq_iff_eq.mpr h), if_pos h.symm]
  · rw [if_neg fun hb => h (beq_iff_eq.mp hb), if_neg (Ne.symm h)]

/-- What is put in under a text is found under that text and nowhere else. -/
theorem get?_insert (n m : String) (a : α) (es : List (Value × α)) :
    get? m (insert (.str n) a es) = if m = n then some a else get? m es := by
  induction es with
  | nil => exact get?_cons_str n m a []
  | cons e es ih =>
    obtain ⟨k, b⟩ := e
    rw [insert]
    split
    · next hk =>
      -- the old entry under the text goes
      rw [eq_of_same_str hk, get?_cons_str, get?_cons_str]
      split <;> rfl
    · next hk =>
      rw [get?_cons, get?_cons, ih]
      split
      · next hm =>
        obtain rfl := eq_of_same_str hm
        refine (if_neg ?_).symm
        rintro rfl
        exact hk hm
      · rfl

/-! ## Keys that differ -/

/-- An entry with a new key is put at the end. -/
theorem insert_of_not_any {key : Value} {v : α} {entries : List (Value × α)}
    (h : ∀ e ∈ entries, e.1.same key = false) : insert key v entries = entries ++ [(key, v)] := by
  induction entries with
  | nil => rfl
  | cons e entries ih =>
    rw [List.forall_mem_cons] at h
    rw [insert, h.1, if_neg Bool.false_ne_true, ih h.2, List.cons_append]

/-- Entries whose keys are all new, and differ from each other, are put at the end one by one. -/
theorem foldl_insert_of_pairwise {acc entries : List (Value × α)}
    (hacc : ∀ e ∈ acc, ∀ e' ∈ entries, e.1.same e'.1 = false)
    (h : entries.Pairwise fun e e' => e.1.same e'.1 = false) :
    entries.foldl (fun es e => insert e.1 e.2 es) acc = acc ++ entries := by
  induction entries generalizing acc with
  | nil => exact (List.append_nil acc).symm
  | cons e entries ih =>
    rw [List.pairwise_cons] at h
    have hnew : insert e.1 e.2 acc = acc ++ [e] :=
      insert_of_not_any fun e' he' => hacc e' he' e (List.mem_cons_self ..)
    rw [List.foldl_cons, hnew, ih ?_ h.2, List.append_assoc, List.singleton_append]
    rw [List.forall_mem_append, List.forall_mem_singleton]
    exact ⟨fun e' he' f hf => hacc e' he' f (List.mem_cons_of_mem _ hf), h.1⟩

/-- Entries whose keys differ from each other are a mapping as they stand. -/
theorem mapOf_of_pairwise {entries : List (Value × α)}
    (h : entries.Pairwise fun e e' => e.1.same e'.1 = false) : mapOf entries = entries :=
  foldl_insert_of_pairwise (List.forall_mem_nil _) h

/-- Texts that are distinct are keys that differ. -/
theorem pairwise_map_str {entries : List (String × α)} (h : (entries.map Prod.fst).Nodup) :
    (entries.map fun e => (Value.str e.1, e.2)).Pairwise fun e e' => e.1.same e'.1 = false := by
  rw [List.Nodup, List.pairwise_map] at h
  rw [List.pairwise_map]
  refine h.imp fun hne => ?_
  rw [same_str_str, beq_eq_false_iff_ne]
  exact hne

/-! ## What holds of all entries -/

/-- What is put under a key takes the place of a value under one that is the same. -/
theorem forall_mem_insert {R : Value × α → Prop} {key : Value} {v : α} {entries : List (Value × α)}
    (hput : ∀ k w, k.same key = true → R (k, w) → R (k, v)) (hv : R (key, v))
    (h : ∀ e ∈ entries, R e) : ∀ e ∈ insert key v entries, R e := by
  induction entries with
  | nil => exact List.forall_mem_singleton.mpr hv
  | cons e entries ih =>
    rw [List.forall_mem_cons] at h
    rw [insert]
    split
    · rename_i hsame
      exact List.forall_mem_cons.mpr ⟨hput e.1 e.2 hsame h.1, h.2⟩
    · exact List.forall_mem_cons.mpr ⟨h.1, ih h.2⟩

/-- What holds of the entries given to a mapping holds of those in it, if it still does when the
value of one of them comes under a key that is the same. -/
theorem forall_mem_mapOf_of_same {R : Value × α → Prop} {entries : List (Value × α)}
    (hput : ∀ e ∈ entries, ∀ k w, k.same e.1 = true → R (k, w) → R (k, e.2))
    (h : ∀ e ∈ entries, R e) : ∀ e ∈ mapOf entries, R e := by
  have hfold : ∀ acc : List (Value × α), (∀ e ∈ acc, R e) →
      ∀ e ∈ entries.foldl (fun acc e => insert e.1 e.2 acc) acc, R e := by
    induction entries with
    | nil => exact fun _ hacc => hacc
    | cons e entries ih =>
      rw [List.forall_mem_cons] at hput h
      exact fun acc hacc => ih hput.2 h.2 _ (forall_mem_insert hput.1 h.1 hacc)
  exact hfold [] (List.forall_mem_nil _)

/-- Under a text an entry is put in the place of one under the same text. -/
theorem forall_mem_insert_str {R : Value × α → Prop} {n : String} {v : α}
    {entries : List (Value × α)} (hv : R (.str n, v)) (h : ∀ e ∈ entries, R e) :
    ∀ e ∈ insert (.str n) v entries, R e :=
  forall_mem_insert (fun _ _ hsame _ => eq_of_same_str hsame ▸ hv) hv h

theorem forall_mem_foldl_insert_str {β : Type} {R : Value × α → Prop} {name : β → String}
    {value : β → α} {bs : List β} {entries : List (Value × α)} (h : ∀ e ∈ entries, R e)
    (hbs : ∀ b ∈ bs, R (.str (name b), value b)) :
    ∀ e ∈ bs.foldl (fun es b => insert (.str (name b)) (value b) es) entries, R e := by
  induction bs generalizing entries with
  | nil => exact h
  | cons b bs ih =>
    rw [List.forall_mem_cons] at hbs
    exact ih (forall_mem_insert_str hbs.1 h) hbs.2

/-- What holds of the entries of a mapping under texts holds of those in it. -/
theorem forall_mem_mapOf_str {R : Value × α → Prop} {entries : List (Value × α)}
    (h : ∀ e ∈ entries, (∃ n, e.1 = .str n) ∧ R e) : ∀ e ∈ mapOf entries, R e := by
  refine forall_mem_mapOf_of_same (fun e he k w hsame _ => ?_) fun e he => (h e he).2
  obtain ⟨⟨n, hn⟩, hv⟩ := h e he
  rw [hn] at hsame
  rw [eq_of_same_str hsame, ← hn]
  exact hv

/-- What holds of all keys and of all values given to a mapping holds of those in it. -/
theorem forall_mem_mapOf {K : Value → Prop} {V : α → Prop} {entries : List (Value × α)}
    (h : ∀ e ∈ entries, K e.1 ∧ V e.2) :
    ∀ e ∈ mapOf entries, K e.1 ∧ V e.2 :=
  forall_mem_mapOf_of_same (fun e he _ _ _ hkept => ⟨hkept.1, (h e he).2⟩) h

end Raml.Value
