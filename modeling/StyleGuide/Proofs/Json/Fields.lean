import StyleGuide.Json.Equality

/-!
# Fields that are set one after the other

What an object has at a key after some fields were set is told by `get?_update`, and by
`get?_update_of_lacks` and `get?_update_congr`: a key that is not set keeps its value, and of a key
that is set the old value does not matter. The main statement is `update_update`: giving fields
their values a second time changes nothing, not even the order. It holds for objects in which a key
occurs more than once, and for updates that set one field several times.
-/

namespace StyleGuide

/-! ### Sameness is an equivalence -/

namespace Json

variable {u v w : Json}

theorem same_congr_left (h : u.same v = true) : u.same w = v.same w := by
  have huv : u.canonical = v.canonical := by simpa [same] using h
  rw [same, same, huv]

theorem same_congr_right (h : u.same v = true) : w.same u = w.same v := by
  rw [same_comm w u, same_comm w v, same_congr_left h]

end Json

namespace Key

variable {k l m : Key}

theorem same_congr_left (h : k.same l = true) : k.same m = l.same m := by
  have hkl : k.canonical = l.canonical := by simpa [same] using h
  rw [same, same, hkl]

theorem same_congr_right (h : k.same l = true) : m.same k = m.same l := by
  rw [same_comm m k, same_comm m l, same_congr_left h]

end Key

namespace Fields

variable {fields base new : Fields} {key name : Key} {value other : Json}

/-! ### One field -/

theorem get?_cons (f : Key × Json) (rest : Fields) :
    get? (f :: rest) key = if f.1.same key then some f.2 else get? rest key := by
  by_cases h : f.1.same key <;> simp [get?, h]

theorem has_cons (f : Key × Json) (rest : Fields) :
    has (f :: rest) key = (f.1.same key || has rest key) := rfl

theorem isSome_get? (fields : Fields) (key : Key) : (get? fields key).isSome = has fields key := by
  induction fields with
  | nil => rfl
  | cons f rest ih =>
    rw [get?_cons, has_cons, ← ih]
    by_cases h : f.1.same key <;> simp [h]

theorem has_of_get? (h : get? fields key = some value) : has fields key = true := by
  rw [← isSome_get?, h]
  rfl

theorem get?_eq_none (h : has fields key = false) : get? fields key = none := by
  rw [← isSome_get?] at h
  simpa using h

theorem getD_of_get? (h : get? fields key = some value) (default : Json) :
    getD fields key default = value := by
  rw [getD, h]
  rfl

theorem get?_congr (h : key.same name = true) : get? fields key = get? fields name := by
  induction fields with
  | nil => rfl
  | cons f rest ih => rw [get?_cons, get?_cons, ih, Key.same_congr_right h]

theorem has_of_mem {f : Key × Json} (hf : f ∈ fields) : has fields f.1 = true :=
  List.any_eq_true.mpr ⟨f, hf, Key.same_refl f.1⟩

/-- After a field is given a value it is there, and the others are as before. -/
theorem has_set (fields : Fields) (key name : Key) (value : Json) :
    has (set fields key value) name = (key.same name || has fields name) := by
  rw [← isSome_get?, ← isSome_get?, get?_set]
  by_cases h : key.same name <;> simp [h]

theorem get?_set_self (fields : Fields) (key : Key) (value : Json) :
    get? (set fields key value) key = some value := by
  rw [get?_set, if_pos (Key.same_refl key)]

/-- Giving a field a value leaves the others alone. -/
theorem get?_set_of_ne (h : key.same name = false) :
    get? (set fields key value) name = get? fields name := by
  rw [get?_set, if_neg (by simp [h])]

theorem getD_set_of_ne (h : key.same name = false) (default : Json) :
    getD (set fields key value) name default = getD fields name default := by
  rw [getD, get?_set_of_ne h, getD]

/-- A field that has the value already is set without effect. -/
theorem set_eq_self (h : get? fields key = some value) : set fields key value = fields := by
  induction fields with
  | nil => simp [get?] at h
  | cons f rest ih =>
    obtain ⟨k, v⟩ := f
    rw [get?_cons] at h
    rw [set]
    by_cases hk : k.same key
    · simp only [hk, if_true, Option.some.injEq] at h ⊢
      rw [h]
    · simp only [hk, if_false, Bool.false_eq_true] at h ⊢
      rw [ih h]

/-- Of two values for the same field the second counts. -/
theorem set_set_of_same (h : key.same name = true) :
    set (set fields key value) name other = set fields key other := by
  induction fields with
  | nil => simp [set, h]
  | cons f rest ih =>
    obtain ⟨k, v⟩ := f
    rw [set, set]
    by_cases hk : k.same key
    · have hname : k.same name = true := Key.same_trans hk h
      simp [hk, set, hname]
    · have hname : k.same name = false := by
        rw [← Key.same_congr_right h]
        simpa using hk
      simp [hk, set, hname, ih]

/-- A field that is there is found under every form of its key. -/
theorem set_congr (hhas : has fields key = true) (h : key.same name = true) :
    set fields key value = set fields name value := by
  induction fields with
  | nil => simp [has] at hhas
  | cons f rest ih =>
    obtain ⟨k, v⟩ := f
    rw [set, set, Key.same_congr_right h]
    by_cases hk : k.same name
    · simp [hk]
    · have hrest : has rest key = true := by
        rw [has_cons, Key.same_congr_right h] at hhas
        simpa [hk] using hhas
      simp [hk, ih hrest]

/-- Fields of different keys can be set in any order, if they are there. -/
theorem set_set_comm (hkey : has fields key = true) (hname : has fields name = true)
    (h : key.same name = false) :
    set (set fields key value) name other = set (set fields name other) key value := by
  induction fields with
  | nil => simp [has] at hkey
  | cons f rest ih =>
    obtain ⟨k, v⟩ := f
    by_cases hk : k.same key
    · have hn : k.same name = false := by rw [Key.same_congr_left hk, h]
      simp [set, hk, hn]
    · by_cases hn : k.same name
      · simp [set, hk, hn]
      · have hrest : has rest key = true := by simpa [has_cons, hk] using hkey
        have hrest' : has rest name = true := by simpa [has_cons, hn] using hname
        simp [set, hk, hn, ih hrest hrest']

/-! ### Several fields -/

@[simp] theorem update_nil (fields : Fields) : update fields [] = fields := rfl

@[simp] theorem update_cons (fields : Fields) (f : Key × Json) (rest : Fields) :
    update fields (f :: rest) = update (set fields f.1 f.2) rest := rfl

theorem update_append (fields new more : Fields) :
    update fields (new ++ more) = update (update fields new) more :=
  List.foldl_append

/-- After an update the fields of both are there. -/
theorem has_update (fields new : Fields) (name : Key) :
    has (update fields new) name = (has fields name || has new name) := by
  induction new generalizing fields with
  | nil => simp [has]
  | cons f rest ih =>
    rw [update_cons, ih, has_set, has_cons]
    cases f.1.same name <;> cases has fields name <;> rfl

/-- What is not updated stays. -/
theorem get?_update_of_lacks (h : has new name = false) :
    get? (update fields new) name = get? fields name := by
  induction new generalizing fields with
  | nil => rfl
  | cons f rest ih =>
    rw [has_cons, Bool.or_eq_false_iff] at h
    rw [update_cons, ih h.2, get?_set_of_ne h.1]

/-- What a field that is set has before does not matter. -/
theorem get?_update_congr (fields base : Fields) (h : has new name = true) :
    get? (update fields new) name = get? (update base new) name := by
  induction new generalizing fields base with
  | nil => simp [has] at h
  | cons f rest ih =>
    rw [update_cons, update_cons]
    by_cases hrest : has rest name
    · exact ih _ _ hrest
    · have hrest : has rest name = false := by simpa using hrest
      have hf : f.1.same name = true := by simpa [has_cons, hrest] using h
      rw [get?_update_of_lacks hrest, get?_update_of_lacks hrest, get?_set, get?_set, if_pos hf,
        if_pos hf]

theorem get?_append (fields more : Fields) (key : Key) :
    get? (fields ++ more) key = (get? fields key).or (get? more key) := by
  induction fields with
  | nil => rfl
  | cons f rest ih =>
    rw [List.cons_append, get?_cons, get?_cons, ih]
    split <;> rfl

/-- What is set wins over what was there, and of several values for one field the last one
counts. -/
theorem get?_update (fields new : Fields) (key : Key) :
    get? (update fields new) key = (get? new.reverse key).or (get? fields key) := by
  induction new generalizing fields with
  | nil => rfl
  | cons f rest ih =>
    rw [update_cons, ih, get?_set, List.reverse_cons, get?_append, Option.or_assoc, get?_cons]
    split <;> rfl

def Distinct (fields : Fields) : Prop := fields.keys.Pairwise fun k l => k.same l = false

/-- In which order fields of different keys stand does not matter to a look-up. -/
theorem get?_reverse (h : Distinct fields) (key : Key) :
    get? fields.reverse key = get? fields key := by
  induction fields with
  | nil => rfl
  | cons f rest ih =>
    obtain ⟨hf, hrest⟩ := List.pairwise_cons.mp h
    rw [List.reverse_cons, get?_append, ih hrest, get?_cons, get?_cons]
    split
    · next hkey =>
      -- The first field is the only one of this key.
      have hlacks : has rest key = false := by
        rw [has, List.any_eq_false]
        intro g hg
        have hne := hf g.1 (List.mem_map_of_mem hg)
        rw [Key.same_congr_left hkey, Key.same_comm] at hne
        simp [hne]
      rw [get?_eq_none hlacks]
      rfl
    · exact Option.or_none

/-- If all fields are there, one that is set again later need not be set now. -/
theorem update_set_of_has (hkey : has fields key = true)
    (hfields : ∀ f ∈ new, has fields f.1 = true) (hnew : has new key = true) :
    update (set fields key value) new = update fields new := by
  induction new generalizing fields with
  | nil => simp [has] at hnew
  | cons f rest ih =>
    obtain ⟨hf, hrest⟩ := List.forall_mem_cons.mp hfields
    rw [update_cons, update_cons]
    by_cases hsame : key.same f.1
    · rw [set_set_of_same hsame, set_congr hkey hsame]
    · have hsame : key.same f.1 = false := by simpa using hsame
      have hne : f.1.same key = false := by rw [Key.same_comm, hsame]
      rw [set_set_comm hkey hf hsame]
      apply ih
      · rw [has_set, hkey, Bool.or_true]
      · intro g hg
        rw [has_set, hrest g hg, Bool.or_true]
      · simpa [has_cons, hne] using hnew

/-- Fields that end up with the values they had are unchanged. -/
theorem update_eq_self (hfields : ∀ f ∈ new, has fields f.1 = true)
    (hget : ∀ f ∈ new, get? (update fields new) f.1 = get? fields f.1) :
    update fields new = fields := by
  induction new with
  | nil => rfl
  | cons f rest ih =>
    obtain ⟨hf, hrest⟩ := List.forall_mem_cons.mp hfields
    obtain ⟨hgetf, hgetrest⟩ := List.forall_mem_cons.mp hget
    -- Either the first field is set again by the rest, or it has its value now.
    have hdrop : update fields (f :: rest) = update fields rest := by
      rw [update_cons]
      by_cases hagain : has rest f.1
      · exact update_set_of_has hf hrest hagain
      · rw [update_cons, get?_update_of_lacks (by simpa using hagain), get?_set_self] at hgetf
        rw [set_eq_self hgetf.symm]
    rw [hdrop] at hgetrest ⊢
    exact ih hrest hgetrest

/-- Setting fields to the values that they have changes nothing. -/
theorem update_eq_self_of_get? (h : ∀ f ∈ new, get? fields f.1 = some f.2) :
    update fields new = fields := by
  induction new with
  | nil => rfl
  | cons f rest ih =>
    obtain ⟨hf, hrest⟩ := List.forall_mem_cons.mp h
    rw [update_cons, set_eq_self hf, ih hrest]

/-- **Setting fields twice is setting them once.** -/
theorem update_update (fields new : Fields) :
    update (update fields new) new = update fields new := by
  apply update_eq_self
  · intro f hf
    rw [has_update, has_of_mem hf, Bool.or_true]
  · intro f hf
    exact get?_update_congr _ _ (has_of_mem hf)

/-! ### Fields one by one -/

theorem same_false_of_mem {f : Key × Json} (h : has fields key = false) (hf : f ∈ fields) :
    f.1.same key = false := by
  rw [has, List.any_eq_false] at h
  simpa using h f hf

theorem mem_set_of_ne {f : Key × Json} (hf : f ∈ fields) (hne : key.same f.1 = false) :
    f ∈ set fields key value := by
  induction fields with
  | nil => exact nomatch hf
  | cons g rest ih =>
    obtain ⟨k, v⟩ := g
    rw [set]
    rcases List.mem_cons.mp hf with rfl | hf
    · rw [Key.same_comm] at hne
      simp [hne]
    · split
      · exact List.mem_cons_of_mem _ hf
      · exact List.mem_cons_of_mem _ (ih hf)

/-- A field that is set is there; if it was there before, under the key that it had. -/
theorem exists_mem_set (fields : Fields) (key : Key) (value : Json) :
    ∃ k, k.same key = true ∧ (k, value) ∈ set fields key value := by
  induction fields with
  | nil => exact ⟨key, Key.same_refl key, List.mem_singleton_self _⟩
  | cons g rest ih =>
    obtain ⟨k, v⟩ := g
    rw [set]
    by_cases hk : k.same key
    · rw [if_pos hk]
      exact ⟨k, hk, List.mem_cons_self⟩
    · rw [if_neg hk]
      obtain ⟨l, hl, hmem⟩ := ih
      exact ⟨l, hl, List.mem_cons_of_mem _ hmem⟩

/-- A field after the change is the one that was given, or one of the others. -/
theorem cases_of_mem_set {f : Key × Json} (hdistinct : Distinct fields)
    (hf : f ∈ set fields key value) :
    f.2 = value ∨ f ∈ fields ∧ key.same f.1 = false := by
  induction fields with
  | nil =>
    obtain rfl := List.mem_singleton.mp hf
    exact .inl rfl
  | cons g rest ih =>
    obtain ⟨k, v⟩ := g
    obtain ⟨hhead, hrest⟩ := List.pairwise_cons.mp hdistinct
    rw [set] at hf
    split at hf
    · next hk =>
      rcases List.mem_cons.mp hf with rfl | hf
      · exact .inl rfl
      · -- The field of the key came first, so no other one has the key.
        have hne := hhead f.1 (List.mem_map_of_mem hf)
        rw [Key.same_congr_left hk] at hne
        exact .inr ⟨List.mem_cons_of_mem _ hf, hne⟩
    · next hk =>
      rcases List.mem_cons.mp hf with rfl | hf
      · rw [Bool.not_eq_true, Key.same_comm] at hk
        exact .inr ⟨List.mem_cons_self, hk⟩
      · exact (ih hrest hf).imp_right fun h => ⟨List.mem_cons_of_mem _ h.1, h.2⟩

theorem Distinct.set (h : Distinct fields) (key : Key) (value : Json) :
    Distinct (set fields key value) := by
  rw [Distinct, keys_set]
  split
  · exact h
  · next hlacks =>
    rw [List.pairwise_append]
    refine ⟨h, List.pairwise_singleton _ _, ?_⟩
    intro k hk l hl
    obtain rfl := List.mem_singleton.mp hl
    obtain ⟨f, hf, rfl⟩ := List.mem_map.mp hk
    exact same_false_of_mem (by simpa using hlacks) hf

/-- A field whose key is not among the new ones stays. -/
theorem mem_update_of_lacks {f : Key × Json} (hf : f ∈ fields) (hlacks : has new f.1 = false) :
    f ∈ update fields new := by
  induction new generalizing fields with
  | nil => exact hf
  | cons g rest ih =>
    rw [has_cons, Bool.or_eq_false_iff] at hlacks
    exact ih (mem_set_of_ne hf hlacks.1) hlacks.2

/-- The value of a new field is there. -/
theorem exists_mem_update {f : Key × Json} (hdistinct : Distinct new) (hf : f ∈ new)
    (fields : Fields) :
    ∃ k, k.same f.1 = true ∧ (k, f.2) ∈ update fields new := by
  induction new generalizing fields with
  | nil => exact nomatch hf
  | cons g rest ih =>
    obtain ⟨hhead, hrest⟩ := List.pairwise_cons.mp hdistinct
    rcases List.mem_cons.mp hf with rfl | hf
    · obtain ⟨k, hk, hmem⟩ := exists_mem_set fields f.1 f.2
      rw [update_cons]
      refine ⟨k, hk, mem_update_of_lacks hmem ?_⟩
      rw [has, List.any_eq_false]
      intro g hg
      have hne := hhead g.1 (List.mem_map_of_mem hg)
      rw [← Key.same_congr_left hk, Key.same_comm] at hne
      simp [hne]
    · exact ih hrest hf _

/-- Whatever is there afterwards is new, or was there and is not replaced. -/
theorem cases_of_mem_update {f : Key × Json} (hdistinct : Distinct fields)
    (hf : f ∈ update fields new) :
    (∃ g ∈ new, f.2 = g.2) ∨ f ∈ fields ∧ has new f.1 = false := by
  induction new generalizing fields with
  | nil => exact .inr ⟨hf, rfl⟩
  | cons g rest ih =>
    rcases ih (hdistinct.set g.1 g.2) hf with ⟨h, hmem, hvalue⟩ | ⟨hmem, hlacks⟩
    · exact .inl ⟨h, List.mem_cons_of_mem _ hmem, hvalue⟩
    · rcases cases_of_mem_set hdistinct hmem with hvalue | ⟨hmem, hne⟩
      · exact .inl ⟨g, List.mem_cons_self, hvalue⟩
      · exact .inr ⟨hmem, by rw [has_cons, hne, hlacks]; rfl⟩

/-- A field that is not there comes at the end. -/
theorem set_of_lacks (h : has fields key = false) :
    set fields key value = fields ++ [(key, value)] := by
  induction fields with
  | nil => rfl
  | cons f rest ih =>
    obtain ⟨k, v⟩ := f
    rw [has_cons, Bool.or_eq_false_iff] at h
    rw [set, if_neg (by simp [h.1]), ih h.2, List.cons_append]

/-- Fields of different keys stand in the order in which they are set. -/
theorem update_of_distinct (h : Distinct (fields ++ new)) : update fields new = fields ++ new := by
  induction new generalizing fields with
  | nil => rw [update_nil, List.append_nil]
  | cons f rest ih =>
    have hlacks : has fields f.1 = false := by
      rw [Distinct, keys, List.map_append, List.pairwise_append] at h
      rw [has, List.any_eq_false]
      intro g hg
      simp [h.2.2 g.1 (List.mem_map_of_mem hg) f.1 List.mem_cons_self]
    rw [List.append_cons] at h ⊢
    rw [update_cons, set_of_lacks hlacks]
    exact ih h

end Fields

end StyleGuide
